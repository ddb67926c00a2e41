import TrinoCore.Identity.Model
import TrinoCore.Symbolic

namespace TrinoCore

def DifferenceFits (a b : Int64) : Prop :=
  -2 ^ 63 ≤ a.toInt - b.toInt ∧ a.toInt - b.toInt < 2 ^ 63

theorem toInt_sub_of_fits {a b : Int64} (fits : DifferenceFits a b) : (a - b).toInt = a.toInt - b.toInt := by
  obtain ⟨lower, upper⟩ := fits
  rw [Int64.toInt_sub]
  exact Int.bmod_eq_of_le (by omega) (by omega)

theorem sub_lt_iff {a b c : Int64} (fits : DifferenceFits a b) : a - b < c ↔ a.toInt - b.toInt < c.toInt := by
  rw [Int64.lt_iff_toInt_lt, toInt_sub_of_fits fits]

theorem fits_self (a : Int64) : DifferenceFits a a := by
  unfold DifferenceFits
  omega

/-- Ids grow: every retired prekey has a smaller id than the current one, and no two share one. -/
structure Ordered (identity : Identity) : Prop where
  below : ∀ retired ∈ identity.retiredSignedPrekeys, retired.prekey.id < identity.signedPrekey.id
  nodup : (identity.retiredSignedPrekeys.map (·.prekey.id)).Nodup

def nextId (identity : Identity) : UInt32 :=
  (max identity.signedPrekey.id ((identity.retiredSignedPrekeys.map (·.prekey.id)).max?.getD 0)).saturatingAdd 1

theorem max_eq_of_le {a b : UInt32} (le : b ≤ a) : max a b = a := by
  change (if a ≤ b then b else a) = a
  split
  · rename_i ge
    exact UInt32.le_antisymm le ge
  · rfl

instance maxEqOr : Std.MaxEqOr UInt32 where
  max_eq_or a b := by
    change (if a ≤ b then b else a) = a ∨ (if a ≤ b then b else a) = b
    split
    · exact Or.inr rfl
    · exact Or.inl rfl

theorem nextId_toNat {identity : Identity} (ordered : Ordered identity)
    (room : identity.signedPrekey.id.toNat + 1 < 2 ^ 32) :
    (nextId identity).toNat = identity.signedPrekey.id.toNat + 1 := by
  have newest : (identity.retiredSignedPrekeys.map (·.prekey.id)).max?.getD 0 ≤ identity.signedPrekey.id := by
    cases largest : (identity.retiredSignedPrekeys.map (·.prekey.id)).max? with
    | none => exact UInt32.le_iff_toNat_le.mpr (Nat.zero_le _)
    | some id =>
      obtain ⟨retired, present, same⟩ := List.mem_map.mp (List.max?_mem largest)
      exact UInt32.le_of_lt (same ▸ ordered.below retired present)
  unfold nextId
  rw [max_eq_of_le newest, UInt32.toNat_saturatingAdd, UInt32.toNat_one]
  omega

theorem signedPrekeyById_retired {identity : Identity} (ordered : Ordered identity) {retired : RetiredSignedPreKey}
    (present : retired ∈ identity.retiredSignedPrekeys) :
    signedPrekeyById identity retired.prekey.id = some retired.prekey := by
  have below := ordered.below retired present
  unfold signedPrekeyById
  rw [if_neg (UInt32.ne_of_lt below).symm, List.find?_map]
  cases found : identity.retiredSignedPrekeys.find? ((fun spk => decide (spk.id = retired.prekey.id)) ∘ (·.prekey)) with
  | none =>
    have absent := List.find?_eq_none.mp found retired present
    simp at absent
  | some other =>
    have sameId : other.prekey.id = retired.prekey.id := by simpa using List.find?_some found
    have equal := List.inj_on_of_nodup_map ordered.nodup (List.mem_of_find?_eq_some found) present sameId
    rw [equal]
    rfl

theorem signedPrekeyById_none {identity : Identity} {id : UInt32} (below : id < identity.signedPrekey.id)
    (absent : ∀ retired ∈ identity.retiredSignedPrekeys, retired.prekey.id ≠ id) :
    signedPrekeyById identity id = none := by
  unfold signedPrekeyById
  rw [if_neg (UInt32.ne_of_lt below).symm, List.find?_eq_none]
  intro spk present
  obtain ⟨retired, inside, rfl⟩ := List.mem_map.mp present
  simpa using absent retired inside

section
variable {S : Type} [Primitives S] [Signatures]

/-- One call of `rotate_signed_prekey_if_due`: the clock, and the private key drawn if it is due. -/
structure RotateCall where
  now : Int64
  freshPriv : Bytes32

variable (S) in
def rotateCall (identity : Identity) (call : RotateCall) : Identity :=
  (rotateSignedPrekeyIfDue S identity call.now call.freshPriv).2

variable (S) in
def rotations (identity : Identity) (calls : List RotateCall) : Identity := calls.foldl (rotateCall S) identity

def Due (identity : Identity) (now : Int64) : Prop := now - identity.signedPrekey.createdAt ≥ spkRotationSecs

instance (identity : Identity) (now : Int64) : Decidable (Due identity now) :=
  inferInstanceAs (Decidable (_ ≥ _))

variable (S) in
def issued (identity : Identity) : List RotateCall → List SignedPreKey
  | [] => []
  | call :: rest =>
    let next := rotateCall S identity call
    if Due identity call.now then next.signedPrekey :: issued next rest else issued next rest

variable (S) in
/-- No clock difference that the calls compute overflows. -/
def NoOverflow (identity : Identity) : List RotateCall → Prop
  | [] => True
  | call :: rest =>
    DifferenceFits call.now identity.signedPrekey.createdAt ∧
      (∀ retired ∈ identity.retiredSignedPrekeys, DifferenceFits call.now retired.retiredAt) ∧
      NoOverflow (rotateCall S identity call) rest

/-! ### One call -/

variable (S) in
def rotated (identity : Identity) (call : RotateCall) : Identity :=
  if Due identity call.now then
    { identity with
      signedPrekey := signedPrekeyCreatedAt S identity.ikSign (nextId identity) call.now call.freshPriv
      retiredSignedPrekeys := identity.retiredSignedPrekeys ++ [⟨identity.signedPrekey, call.now⟩] }
  else identity

def Kept (now : Int64) (retired : RetiredSignedPreKey) : Bool := now - retired.retiredAt < spkRetentionSecs

theorem rotate_eq (identity : Identity) (call : RotateCall) :
    rotateSignedPrekeyIfDue S identity call.now call.freshPriv =
      (decide (Due identity call.now) || decide (((rotated S identity call).retiredSignedPrekeys.filter (Kept call.now)).length ≠
          (rotated S identity call).retiredSignedPrekeys.length),
        { rotated S identity call with
          retiredSignedPrekeys := (rotated S identity call).retiredSignedPrekeys.filter (Kept call.now) }) := by
  unfold rotateSignedPrekeyIfDue rotated
  by_cases due : Due identity call.now
  · rw [if_pos due, if_pos (show call.now - identity.signedPrekey.createdAt ≥ spkRotationSecs from due), decide_eq_true due]
    rfl
  · rw [if_neg due, if_neg (show ¬call.now - identity.signedPrekey.createdAt ≥ spkRotationSecs from due), decide_eq_false due]
    rfl

theorem rotateCall_eq (identity : Identity) (call : RotateCall) :
    rotateCall S identity call = { rotated S identity call with
      retiredSignedPrekeys := (rotated S identity call).retiredSignedPrekeys.filter (Kept call.now) } :=
  congrArg Prod.snd (rotate_eq identity call)

theorem rotateCall_current (identity : Identity) (call : RotateCall) :
    (rotateCall S identity call).signedPrekey = (rotated S identity call).signedPrekey := by
  rw [rotateCall_eq]

theorem mem_rotateCall {identity : Identity} {call : RotateCall} {retired : RetiredSignedPreKey} :
    retired ∈ (rotateCall S identity call).retiredSignedPrekeys ↔
      (retired ∈ identity.retiredSignedPrekeys ∨ (Due identity call.now ∧ retired = ⟨identity.signedPrekey, call.now⟩)) ∧
        Kept call.now retired = true := by
  rw [rotateCall_eq, List.mem_filter]
  unfold rotated
  by_cases due : Due identity call.now
  · simp [due]
  · simp [due]

/-- One call either keeps the current prekey or issues the next id. -/
theorem rotateCall_step {identity : Identity} (ordered : Ordered identity) (call : RotateCall)
    (room : Due identity call.now → identity.signedPrekey.id.toNat + 1 < 2 ^ 32) :
    Ordered (rotateCall S identity call) ∧
      ((Due identity call.now ∧ (rotateCall S identity call).signedPrekey.id.toNat = identity.signedPrekey.id.toNat + 1 ∧
          (rotateCall S identity call).signedPrekey.createdAt = call.now) ∨
        (¬Due identity call.now ∧ (rotateCall S identity call).signedPrekey = identity.signedPrekey)) := by
  have current := rotateCall_current (S := S) identity call
  by_cases due : Due identity call.now
  · have next : (rotated S identity call).signedPrekey.id.toNat = identity.signedPrekey.id.toNat + 1 := by
      unfold rotated
      rw [if_pos due]
      exact nextId_toNat ordered (room due)
    refine ⟨⟨?_, ?_⟩, Or.inl ⟨due, by rw [current]; exact next, ?_⟩⟩
    · intro retired present
      rw [current, UInt32.lt_iff_toNat_lt, next]
      rcases (mem_rotateCall.mp present).1 with old | ⟨_, rfl⟩
      · have below := UInt32.lt_iff_toNat_lt.mp (ordered.below retired old)
        omega
      · exact Nat.lt_succ_self _
    · rw [rotateCall_eq]
      apply List.Nodup.sublist (List.filter_sublist.map _)
      unfold rotated
      rw [if_pos due, List.map_append]
      apply ordered.nodup.append (List.nodup_singleton _)
      intro id old last
      obtain ⟨retired, present, rfl⟩ := List.mem_map.mp old
      exact UInt32.ne_of_lt (ordered.below retired present) (List.mem_singleton.mp last)
    · rw [current, rotated, if_pos due]
      rfl
  · have same : rotated S identity call = identity := if_neg due
    rw [same] at current
    refine ⟨⟨?_, ?_⟩, Or.inr ⟨due, current⟩⟩
    · intro retired present
      rcases (mem_rotateCall.mp present).1 with old | ⟨absurd, _⟩
      · rw [current]
        exact ordered.below retired old
      · exact (due absurd).elim
    · rw [rotateCall_eq, same]
      exact List.Nodup.sublist (List.filter_sublist.map _) ordered.nodup

theorem rotate_changed {identity : Identity} (ordered : Ordered identity) (call : RotateCall)
    (room : Due identity call.now → identity.signedPrekey.id.toNat + 1 < 2 ^ 32) :
    (rotateSignedPrekeyIfDue S identity call.now call.freshPriv).1 = true ↔ rotateCall S identity call ≠ identity := by
  rw [rotate_eq]
  by_cases due : Due identity call.now
  · have issuedNext := (rotateCall_step (S := S) ordered call room).2
    rw [decide_eq_true due, Bool.true_or]
    refine ⟨fun _ same => ?_, fun _ => rfl⟩
    rw [same] at issuedNext
    rcases issuedNext with ⟨_, next, _⟩ | ⟨absurd, _⟩
    · omega
    · exact absurd due
  · have same : rotated S identity call = identity := if_neg due
    rw [decide_eq_false due, Bool.false_or, rotateCall_eq, same, decide_eq_true_eq]
    refine not_congr ⟨fun lengths => ?_, fun equal => ?_⟩
    · rw [List.filter_sublist.eq_of_length lengths]
    · exact congrArg (fun id : Identity => id.retiredSignedPrekeys.length) equal

/-! ### Runs -/

theorem issued_append (identity : Identity) (before after : List RotateCall) :
    issued S identity (before ++ after) = issued S identity before ++ issued S (rotations S identity before) after := by
  induction before generalizing identity with
  | nil => rfl
  | cons call rest ih =>
    have later : rotations S identity (call :: rest) = rotations S (rotateCall S identity call) rest := rfl
    rw [List.cons_append, issued, issued, later]
    split
    · rw [ih, List.cons_append]
    · exact ih _

theorem rotations_current_issued (identity : Identity) (calls : List RotateCall) :
    (rotations S identity calls).signedPrekey ∈ identity.signedPrekey :: issued S identity calls := by
  induction calls generalizing identity with
  | nil => exact List.mem_cons_self
  | cons call rest ih =>
    have later := ih (rotateCall S identity call)
    rw [issued]
    split
    · exact List.mem_cons_of_mem _ later
    · rename_i idle
      have same : (rotateCall S identity call).signedPrekey = identity.signedPrekey := by
        rw [rotateCall_current, rotated, if_neg idle]
      rw [← same]
      exact later

theorem noOverflow_left {identity : Identity} {before after : List RotateCall}
    (fits : NoOverflow S identity (before ++ after)) : NoOverflow S identity before := by
  induction before generalizing identity with
  | nil => trivial
  | cons call rest ih => exact ⟨fits.1, fits.2.1, ih fits.2.2⟩

theorem noOverflow_append {identity : Identity} {before after : List RotateCall}
    (fits : NoOverflow S identity (before ++ after)) : NoOverflow S (rotations S identity before) after := by
  induction before generalizing identity with
  | nil => exact fits
  | cons call rest ih => exact ih fits.2.2

variable (S) in
def RoomFor (identity : Identity) (calls : List RotateCall) : Prop :=
  identity.signedPrekey.id.toNat + (issued S identity calls).length < 2 ^ 32

theorem roomFor_left {identity : Identity} {before after : List RotateCall}
    (room : RoomFor S identity (before ++ after)) : RoomFor S identity before := by
  unfold RoomFor at *
  rw [issued_append, List.length_append] at room
  omega

/-- The first of a sequence of calls, with what it leaves for the others. -/
theorem run_step {identity : Identity} {call : RotateCall} {rest : List RotateCall} (ordered : Ordered identity)
    (room : RoomFor S identity (call :: rest)) :
    (Due identity call.now → identity.signedPrekey.id.toNat + 1 < 2 ^ 32) ∧
      Ordered (rotateCall S identity call) ∧ RoomFor S (rotateCall S identity call) rest := by
  unfold RoomFor issued at room
  dsimp only at room
  have enough : Due identity call.now → identity.signedPrekey.id.toNat + 1 < 2 ^ 32 := by
    intro due
    rw [if_pos due, List.length_cons] at room
    omega
  obtain ⟨ordered', ⟨due, next, _⟩ | ⟨idle, same⟩⟩ := rotateCall_step (S := S) ordered call enough
  · rw [if_pos due, List.length_cons] at room
    exact ⟨enough, ordered', by unfold RoomFor; omega⟩
  · rw [if_neg idle] at room
    exact ⟨enough, ordered', by unfold RoomFor; rw [same]; exact room⟩

theorem rotations_ordered {identity : Identity} {before after : List RotateCall} (ordered : Ordered identity)
    (room : RoomFor S identity (before ++ after)) :
    Ordered (rotations S identity before) ∧ RoomFor S (rotations S identity before) after := by
  induction before generalizing identity with
  | nil => exact ⟨ordered, room⟩
  | cons call rest ih =>
    obtain ⟨_, ordered', room'⟩ := run_step ordered room
    exact ih ordered' room'

theorem issued_increasing {identity : Identity} {calls : List RotateCall} (ordered : Ordered identity)
    (room : RoomFor S identity calls) :
    (identity.signedPrekey :: issued S identity calls).Pairwise (fun a b => a.id.toNat < b.id.toNat) := by
  induction calls generalizing identity with
  | nil => exact List.pairwise_singleton _ _
  | cons call rest ih =>
    obtain ⟨enough, ordered', room'⟩ := run_step ordered room
    have later := ih ordered' room'
    rw [issued]
    obtain ⟨_, ⟨due, next, _⟩ | ⟨idle, same⟩⟩ := rotateCall_step (S := S) ordered call enough
    · rw [if_pos due]
      apply List.pairwise_cons.mpr
      refine ⟨?_, later⟩
      intro spk present
      rcases List.mem_cons.mp present with rfl | more
      · omega
      · have above := (List.pairwise_cons.mp later).1 spk more
        omega
    · rw [if_neg idle, ← same]
      exact later

theorem lookup_gone {identity : Identity} {later : List RotateCall} (ordered : Ordered identity)
    (room : RoomFor S identity later) {id : UInt32} (below : id < identity.signedPrekey.id)
    (absent : ∀ retired ∈ identity.retiredSignedPrekeys, retired.prekey.id ≠ id) :
    signedPrekeyById (rotations S identity later) id = none := by
  induction later generalizing identity with
  | nil => exact signedPrekeyById_none below absent
  | cons call rest ih =>
    obtain ⟨enough, ordered', room'⟩ := run_step ordered room
    refine ih ordered' room' ?_ ?_
    · obtain ⟨_, ⟨_, next, _⟩ | ⟨_, same⟩⟩ := rotateCall_step (S := S) ordered call enough
      · have before := UInt32.lt_iff_toNat_lt.mp below
        exact UInt32.lt_iff_toNat_lt.mpr (by omega)
      · rw [same]
        exact below
    · intro retired present
      rcases (mem_rotateCall.mp present).1 with old | ⟨_, rfl⟩
      · exact absent retired old
      · exact (UInt32.ne_of_lt below).symm

/-- A retired prekey is found until the first call that is too late for it. -/
theorem lookup_retained {identity : Identity} {later : List RotateCall} (ordered : Ordered identity)
    (room : RoomFor S identity later) (fits : NoOverflow S identity later) {retired : RetiredSignedPreKey}
    (present : retired ∈ identity.retiredSignedPrekeys) :
    signedPrekeyById (rotations S identity later) retired.prekey.id =
      if ∀ call ∈ later, call.now.toInt - retired.retiredAt.toInt < spkRetentionSecs.toInt then some retired.prekey
      else none := by
  induction later generalizing identity with
  | nil =>
    rw [if_pos (fun call inside => by cases inside)]
    exact signedPrekeyById_retired ordered present
  | cons call rest ih =>
    obtain ⟨enough, ordered', room'⟩ := run_step ordered room
    have inTime : Kept call.now retired = true ↔
        call.now.toInt - retired.retiredAt.toInt < spkRetentionSecs.toInt := by
      unfold Kept
      rw [decide_eq_true_eq]
      exact sub_lt_iff (fits.2.1 retired present)
    have first : rotations S identity (call :: rest) = rotations S (rotateCall S identity call) rest := rfl
    rw [first]
    by_cases kept : Kept call.now retired = true
    · rw [ih ordered' room' fits.2.2 (mem_rotateCall.mpr ⟨Or.inl present, kept⟩)]
      simp only [List.forall_mem_cons, inTime.mp kept, true_and]
    · rw [if_neg (fun all => kept (inTime.mpr (all call List.mem_cons_self)))]
      have below := ordered.below retired present
      refine lookup_gone ordered' room' ?_ ?_
      · obtain ⟨_, ⟨_, next, _⟩ | ⟨_, same⟩⟩ := rotateCall_step (S := S) ordered call enough
        · have before := UInt32.lt_iff_toNat_lt.mp below
          exact UInt32.lt_iff_toNat_lt.mpr (by omega)
        · rw [same]
          exact below
      · intro other inside sameId
        obtain ⟨old | ⟨_, rfl⟩, still⟩ := mem_rotateCall.mp inside
        · obtain rfl := List.inj_on_of_nodup_map ordered.nodup old present sameId
          exact kept still
        · exact UInt32.ne_of_lt below sameId.symm

theorem created_unretired {rng : IdentityRandom} {now : Int64} {identity : Identity}
    (created : createIdentity S rng now = some identity) :
    identity.retiredSignedPrekeys = [] ∧ identity.signedPrekey.id = 1 := by
  unfold createIdentity at created
  cases nostr : generateNostrKeypair rng.nostrDraws with
  | none =>
    rw [nostr] at created
    cases created
  | some keypair =>
    rw [nostr] at created
    obtain rfl := Option.some.inj created
    exact ⟨rfl, rfl⟩

theorem created_ordered {rng : IdentityRandom} {now : Int64} {identity : Identity}
    (created : createIdentity S rng now = some identity) :
    Ordered identity ∧ identity.signedPrekey.id = 1 := by
  obtain ⟨unretired, one⟩ := created_unretired created
  refine ⟨⟨?_, ?_⟩, one⟩
  · rw [unretired]
    exact fun retired present => (by cases present)
  · rw [unretired]
    exact List.nodup_nil

theorem rotateCall_young {identity : Identity} (ordered : Ordered identity) {call : RotateCall}
    (room : Due identity call.now → identity.signedPrekey.id.toNat + 1 < 2 ^ 32)
    (fits : DifferenceFits call.now identity.signedPrekey.createdAt) :
    call.now.toInt - (rotateCall S identity call).signedPrekey.createdAt.toInt < spkRotationSecs.toInt := by
  obtain ⟨_, ⟨_, _, fresh⟩ | ⟨idle, same⟩⟩ := rotateCall_step (S := S) ordered call room
  · have positive : (0 : Int) < spkRotationSecs.toInt := by decide
    rw [fresh]
    omega
  · rw [same, ← sub_lt_iff fits]
    exact Int64.not_le.mp idle

theorem rotateCall_retires {identity : Identity} {call : RotateCall}
    (changed : (rotateCall S identity call).signedPrekey.id ≠ identity.signedPrekey.id) :
    ⟨identity.signedPrekey, call.now⟩ ∈ (rotateCall S identity call).retiredSignedPrekeys := by
  have due : Due identity call.now := by
    by_contra idle
    rw [rotateCall_current, rotated, if_neg idle] at changed
    exact changed rfl
  apply mem_rotateCall.mpr
  refine ⟨Or.inr ⟨due, rfl⟩, ?_⟩
  have positive : (0 : Int) < spkRetentionSecs.toInt := by decide
  unfold Kept
  rw [decide_eq_true_eq, sub_lt_iff (fits_self call.now)]
  omega

/-- Over every sequence of rotations of a fresh identity: ids are issued once, the current prekey is
never older than the rotation age, a prekey is found while it is current or retained and not
afterwards, and the flag tells whether the identity changed. -/
theorem prekeys_issued_once_and_retained {rng : IdentityRandom} {createdAt : Int64} {identity : Identity}
    (created : createIdentity S rng createdAt = some identity) {calls : List RotateCall}
    (fits : NoOverflow S identity calls) (few : (issued S identity calls).length < 2 ^ 32 - 1) :
    ((identity.signedPrekey :: issued S identity calls).map (·.id)).Nodup ∧
    (∀ before after, calls = before ++ after →
      let current := rotations S identity before
      current.signedPrekey ∈ identity.signedPrekey :: issued S identity calls ∧
        signedPrekeyById current current.signedPrekey.id = some current.signedPrekey) ∧
    (∀ before call after, calls = before ++ call :: after →
      let prev := rotations S identity before
      let next := rotateCall S prev call
      call.now.toInt - next.signedPrekey.createdAt.toInt < spkRotationSecs.toInt ∧
        ((rotateSignedPrekeyIfDue S prev call.now call.freshPriv).1 = true ↔ next ≠ prev) ∧
        (next.signedPrekey.id ≠ prev.signedPrekey.id → ∀ later rest, after = later ++ rest →
          signedPrekeyById (rotations S next later) prev.signedPrekey.id =
            if ∀ c ∈ later, c.now.toInt - call.now.toInt < spkRetentionSecs.toInt then some prev.signedPrekey
            else none)) := by
  obtain ⟨ordered, one⟩ := created_ordered created
  have room : RoomFor S identity calls := by
    unfold RoomFor
    rw [one, UInt32.toNat_one]
    omega
  refine ⟨?_, ?_, ?_⟩
  · refine List.pairwise_map.mpr ((issued_increasing ordered room).imp ?_)
    intro a b less same
    rw [same] at less
    omega
  · intro before after split
    refine ⟨?_, if_pos rfl⟩
    subst calls
    rw [issued_append, ← List.cons_append]
    exact List.mem_append_left _ (rotations_current_issued identity before)
  · intro before call after split prev next
    subst calls
    obtain ⟨prevOrdered, prevRoom⟩ := rotations_ordered ordered room
    obtain ⟨enough, nextOrdered, nextRoom⟩ := run_step prevOrdered prevRoom
    obtain ⟨fitsNow, fitsRetired, fitsLater⟩ := noOverflow_append fits
    refine ⟨rotateCall_young prevOrdered enough fitsNow, rotate_changed prevOrdered call enough, ?_⟩
    intro changed later rest split
    subst after
    have found := lookup_retained nextOrdered (roomFor_left nextRoom) (noOverflow_left fitsLater)
      (rotateCall_retires changed)
    exact found

end

theorem prekeys_issued_once_and_retained_sample :
    let call : RotateCall := ⟨spkRotationSecs, sampleBytes 32 15⟩
    signedPrekeyById (rotateCall FreeKey sampleIdentity call) 1 = some sampleIdentity.signedPrekey := by
  intro call
  have fits : NoOverflow FreeKey sampleIdentity [call] := by
    refine ⟨?_, fun retired present => (by cases present), trivial⟩
    unfold DifferenceFits
    decide
  have few : (issued FreeKey sampleIdentity [call]).length < 2 ^ 32 - 1 := by
    rw [issued]
    split
    · exact (show 1 < 2 ^ 32 - 1 by decide)
    · exact (show 0 < 2 ^ 32 - 1 by decide)
  have run := (prekeys_issued_once_and_retained sampleIdentity_created fits few).2.2 [] call [] rfl
  have changed : (rotateCall FreeKey sampleIdentity call).signedPrekey.id ≠ sampleIdentity.signedPrekey.id := by
    decide
  have found := run.2.2 changed [] [] rfl
  rw [if_pos (fun c present => by cases present)] at found
  exact found

end TrinoCore
