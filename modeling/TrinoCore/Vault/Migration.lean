import TrinoCore.Identity.Rotation
import TrinoCore.Vault.Model

/-! Vaults written before retirement times were stored: what a load makes of them. -/

namespace TrinoCore

/-- The prekey that took over from the one before these. -/
def successor (current : SignedPreKey) : List RetiredSignedPreKey → SignedPreKey
  | [] => current
  | next :: _ => next.prekey

/-- Each retired prekey was retired when the one with the next id was made, and not before its own
time. -/
def Linked (current : SignedPreKey) : List RetiredSignedPreKey → Prop
  | [] => True
  | retired :: rest =>
    (retired.prekey.id.toNat + 1 = (successor current rest).id.toNat ∧
      retired.retiredAt = (successor current rest).createdAt ∧
      retired.prekey.createdAt.toInt < retired.retiredAt.toInt) ∧ Linked current rest

theorem Linked.append {current fresh : SignedPreKey} {retired : List RetiredSignedPreKey} (linked : Linked current retired)
    (next : current.id.toNat + 1 = fresh.id.toNat) (later : current.createdAt.toInt < fresh.createdAt.toInt) :
    Linked fresh (retired ++ [⟨current, fresh.createdAt⟩]) := by
  induction retired with
  | nil => exact ⟨⟨next, rfl, later⟩, trivial⟩
  | cons oldest rest ih =>
    obtain ⟨link, linked⟩ := linked
    have same : successor fresh (rest ++ [⟨current, fresh.createdAt⟩]) = successor current rest := by
      cases rest with
      | nil => rfl
      | cons second others => rfl
    rw [List.cons_append, Linked, same]
    exact ⟨link, ih linked⟩

theorem Linked.suffix {current : SignedPreKey} {retired kept : List RetiredSignedPreKey} (linked : Linked current retired)
    (suffix : kept <:+ retired) : Linked current kept := by
  induction retired with
  | nil =>
    rw [List.suffix_nil.mp suffix]
    exact linked
  | cons oldest rest ih =>
    rcases List.suffix_cons_iff.mp suffix with whole | tail
    · rw [whole]
      exact linked
    · exact ih linked.2 tail

theorem Linked.id_lt {current : SignedPreKey} {oldest : RetiredSignedPreKey} {rest : List RetiredSignedPreKey}
    (linked : Linked current (oldest :: rest)) :
    oldest.prekey.id < current.id ∧ ∀ retired ∈ rest, oldest.prekey.id < retired.prekey.id := by
  induction rest generalizing oldest with
  | nil =>
    obtain ⟨⟨next, _, _⟩, _⟩ := linked
    refine ⟨UInt32.lt_iff_toNat_lt.mpr ?_, fun retired present => (by cases present)⟩
    have succ : oldest.prekey.id.toNat + 1 = current.id.toNat := next
    omega
  | cons second others ih =>
    obtain ⟨⟨next, _, _⟩, linked⟩ := linked
    have below : oldest.prekey.id < second.prekey.id := by
      have succ : oldest.prekey.id.toNat + 1 = second.prekey.id.toNat := next
      exact UInt32.lt_iff_toNat_lt.mpr (by omega)
    obtain ⟨current_above, above⟩ := ih linked
    refine ⟨UInt32.lt_trans below current_above, ?_⟩
    intro retired present
    rcases List.mem_cons.mp present with rfl | later
    · exact below
    · exact UInt32.lt_trans below (above retired later)

theorem Linked.times {current : SignedPreKey} {retired : List RetiredSignedPreKey} (linked : Linked current retired) :
    retired.Pairwise (fun a b => a.retiredAt.toInt < b.retiredAt.toInt) := by
  induction retired with
  | nil => exact List.Pairwise.nil
  | cons oldest rest ih =>
    obtain ⟨⟨_, time, _⟩, linked⟩ := linked
    have sorted := ih linked
    refine List.pairwise_cons.mpr ⟨?_, sorted⟩
    cases rest with
    | nil =>
      intro other present
      cases present
    | cons second others =>
      obtain ⟨⟨_, _, own⟩, _⟩ := linked
      have below : oldest.retiredAt.toInt < second.retiredAt.toInt := by
        rw [time]
        exact own
      intro other present
      rcases List.mem_cons.mp present with rfl | later
      · exact below
      · exact below.trans ((List.pairwise_cons.mp sorted).1 other later)

theorem filter_suffix {α : Type} {p : α → Bool} {l : List α} (monotone : l.Pairwise (fun a b => p a = true → p b = true)) :
    l.filter p <:+ l := by
  induction l with
  | nil => exact List.suffix_rfl
  | cons a rest ih =>
    obtain ⟨first, monotone⟩ := List.pairwise_cons.mp monotone
    by_cases kept : p a = true
    · have all : (a :: rest).filter p = a :: rest := by
        apply List.filter_eq_self.mpr
        intro b present
        rcases List.mem_cons.mp present with rfl | later
        · exact kept
        · exact first b later kept
      exact ⟨[], all⟩
    · rw [List.filter_cons_of_neg kept]
      exact (ih monotone).trans (List.suffix_cons a rest)

/-- Expiry takes the oldest retired prekeys first, whatever the clock says. -/
theorem kept_suffix {current : SignedPreKey} {retired : List RetiredSignedPreKey} (linked : Linked current retired)
    {now : Int64} (fits : ∀ r ∈ retired, DifferenceFits now r.retiredAt) : retired.filter (Kept now) <:+ retired := by
  apply filter_suffix
  apply linked.times.imp_of_mem
  intro a b older newer before keptA
  unfold Kept at *
  rw [decide_eq_true_eq, sub_lt_iff (fits a older)] at keptA
  rw [decide_eq_true_eq, sub_lt_iff (fits b newer)]
  omega

section
variable {S : Type} [Primitives S] [Signatures]

theorem rotateCall_linked {identity : Identity} {call : RotateCall} (ordered : Ordered identity)
    (linked : Linked identity.signedPrekey identity.retiredSignedPrekeys)
    (room : Due identity call.now → identity.signedPrekey.id.toNat + 1 < 2 ^ 32)
    (fits : DifferenceFits call.now identity.signedPrekey.createdAt)
    (fitsRetired : ∀ retired ∈ identity.retiredSignedPrekeys, DifferenceFits call.now retired.retiredAt) :
    Linked (rotateCall S identity call).signedPrekey (rotateCall S identity call).retiredSignedPrekeys := by
  have before : Linked (rotated S identity call).signedPrekey (rotated S identity call).retiredSignedPrekeys ∧
      ∀ retired ∈ (rotated S identity call).retiredSignedPrekeys, DifferenceFits call.now retired.retiredAt := by
    by_cases due : Due identity call.now
    · have later : identity.signedPrekey.createdAt.toInt < call.now.toInt := by
        have positive : (0 : Int) < spkRotationSecs.toInt := by decide
        have age : ¬call.now - identity.signedPrekey.createdAt < spkRotationSecs := Int64.not_lt.mpr due
        rw [sub_lt_iff fits] at age
        omega
      unfold rotated
      rw [if_pos due]
      refine ⟨linked.append (nextId_toNat ordered (room due)).symm later, ?_⟩
      intro retired present
      rcases List.mem_append.mp present with old | last
      · exact fitsRetired retired old
      · rw [List.mem_singleton.mp last]
        exact fits_self call.now
    · unfold rotated
      rw [if_neg due]
      exact ⟨linked, fitsRetired⟩
  rw [rotateCall_eq]
  exact before.1.suffix (kept_suffix before.1 before.2)

theorem rotations_linked {identity : Identity} {calls : List RotateCall} (ordered : Ordered identity)
    (linked : Linked identity.signedPrekey identity.retiredSignedPrekeys) (room : RoomFor S identity calls)
    (fits : NoOverflow S identity calls) :
    Linked (rotations S identity calls).signedPrekey (rotations S identity calls).retiredSignedPrekeys := by
  induction calls generalizing identity with
  | nil => exact linked
  | cons call rest ih =>
    obtain ⟨enough, ordered', room'⟩ := run_step ordered room
    obtain ⟨fitsNow, fitsRetired, fitsLater⟩ := fits
    exact ih ordered' (rotateCall_linked ordered linked enough fitsNow fitsRetired) room' fitsLater

end

theorem minById_head {first : SerializedSignedPreKey} {rest : List SerializedSignedPreKey}
    (smallest : ∀ other ∈ rest, first.id < other.id) : minById (first :: rest) = some first := by
  unfold minById
  rw [List.foldl_cons]
  dsimp only
  induction rest with
  | nil => rfl
  | cons second others ih =>
    have above : ¬second.id < first.id := UInt32.not_lt.mpr (UInt32.le_of_lt (smallest second List.mem_cons_self))
    rw [List.foldl_cons]
    dsimp only
    rw [if_neg above]
    exact ih (fun other present => smallest other (List.mem_cons_of_mem _ present))

/-- A way of writing retired prekeys that keeps what a lookup by id reads. -/
structure Faithful (write : RetiredSignedPreKey → SerializedSignedPreKey) : Prop where
  id : ∀ r, (write r).id = r.prekey.id
  createdAt : ∀ r, (write r).createdAt = r.prekey.createdAt

/-- The smallest id after the oldest prekey is its successor's, made when the oldest was retired. -/
theorem successor_smallest {current : SignedPreKey} {oldest : RetiredSignedPreKey} {rest : List RetiredSignedPreKey}
    (linked : Linked current (oldest :: rest)) {write : RetiredSignedPreKey → SerializedSignedPreKey}
    (faithful : Faithful write) :
    ∃ next, minById (rest.map write ++ [serializePrekey current none]) = some next ∧ next.createdAt = oldest.retiredAt := by
  obtain ⟨⟨_, time, _⟩, later⟩ := linked
  cases rest with
  | nil => exact ⟨serializePrekey current none, rfl, time.symm⟩
  | cons second others =>
    obtain ⟨currentAbove, above⟩ := later.id_lt
    refine ⟨write second, minById_head ?_, by rw [faithful.createdAt]; exact time.symm⟩
    intro other member
    rw [faithful.id]
    rcases List.mem_append.mp member with earlier | last
    · obtain ⟨third, listed, rfl⟩ := List.mem_map.mp earlier
      rw [faithful.id]
      exact above third listed
    · rw [List.mem_singleton.mp last]
      exact currentAbove

theorem legacyRetiredAt_linked {current : SignedPreKey} {retired : List RetiredSignedPreKey} (linked : Linked current retired)
    {write : RetiredSignedPreKey → SerializedSignedPreKey} (faithful : Faithful write) {r : RetiredSignedPreKey}
    (present : r ∈ retired) :
    legacyRetiredAt r.prekey.id (retired.map write) (serializePrekey current none) = r.retiredAt := by
  induction retired with
  | nil => cases present
  | cons oldest rest ih =>
    obtain ⟨currentAbove, above⟩ := linked.id_lt
    unfold legacyRetiredAt at *
    rw [List.map_cons, List.cons_append]
    rcases List.mem_cons.mp present with rfl | inside
    · have self : ¬(write r).id > r.prekey.id := by
        rw [faithful.id]
        exact UInt32.lt_irrefl _
      have newer : ∀ next ∈ rest.map write ++ [serializePrekey current none], decide (next.id > r.prekey.id) = true := by
        intro next member
        apply decide_eq_true
        rcases List.mem_append.mp member with earlier | last
        · obtain ⟨other, listed, rfl⟩ := List.mem_map.mp earlier
          rw [faithful.id]
          exact above other listed
        · rw [List.mem_singleton.mp last]
          exact currentAbove
      rw [List.filter_cons_of_neg (by simpa using self), List.filter_eq_self.mpr newer]
      obtain ⟨next, smallest, time⟩ := successor_smallest linked faithful
      rw [smallest]
      exact time
    · have older : ¬(write oldest).id > r.prekey.id := by
        rw [faithful.id]
        exact UInt32.not_lt.mpr (UInt32.le_of_lt (above r inside))
      rw [List.filter_cons_of_neg (by simpa using older)]
      exact ih linked.2 inside

/-! ### Older vaults -/

/-- The payload with the retirement times of the chosen prekeys left out, as older versions wrote it. -/
def eraseRetiredAt (erased : SerializedSignedPreKey → Bool) (payload : SerializedIdentity) : SerializedIdentity :=
  { payload with
    retiredSignedPreKeys := payload.retiredSignedPreKeys.map fun r => if erased r then { r with retiredAt := none } else r }

def writeErased (erased : SerializedSignedPreKey → Bool) (r : RetiredSignedPreKey) : SerializedSignedPreKey :=
  let full := serializePrekey r.prekey (some r.retiredAt)
  if erased full then { full with retiredAt := none } else full

theorem writeErased_cases (erased : SerializedSignedPreKey → Bool) (r : RetiredSignedPreKey) :
    writeErased erased r = serializePrekey r.prekey none ∨ writeErased erased r = serializePrekey r.prekey (some r.retiredAt) := by
  unfold writeErased
  dsimp only
  split
  · exact Or.inl rfl
  · exact Or.inr rfl

theorem writeErased_faithful (erased : SerializedSignedPreKey → Bool) : Faithful (writeErased erased) := by
  constructor
  · intro r
    rcases writeErased_cases erased r with written | written
    · rw [written]
      rfl
    · rw [written]
      rfl
  · intro r
    rcases writeErased_cases erased r with written | written
    · rw [written]
      rfl
    · rw [written]
      rfl

theorem eraseRetiredAt_serializeIdentity (erased : SerializedSignedPreKey → Bool) (identity : Identity) (totpSecret : Bytes) :
    eraseRetiredAt erased (serializeIdentity identity totpSecret) =
      { serializeIdentity identity totpSecret with
        retiredSignedPreKeys := identity.retiredSignedPrekeys.map (writeErased erased) } := by
  unfold eraseRetiredAt serializeIdentity
  dsimp only
  rw [List.map_map]
  rfl

/-- A vault that lost any of its retirement times loads as the identity it was written from. -/
theorem deserializeIdentity_eraseRetiredAt {S : Type} [Primitives S] [Signatures] {rng : IdentityRandom}
    {createdAt : Int64} {identity : Identity} (created : createIdentity S rng createdAt = some identity)
    {calls : List RotateCall} (fits : NoOverflow S identity calls) (few : (issued S identity calls).length < 2 ^ 32 - 1)
    (totpSecret : Bytes) (erased : SerializedSignedPreKey → Bool) :
    deserializeIdentity (eraseRetiredAt erased (serializeIdentity (rotations S identity calls) totpSecret)) =
      .ok (rotations S identity calls, totpSecret) := by
  obtain ⟨ordered, one⟩ := created_ordered created
  have room : RoomFor S identity calls := by
    unfold RoomFor
    rw [one, UInt32.toNat_one]
    omega
  have start : Linked identity.signedPrekey identity.retiredSignedPrekeys := by
    rw [(created_unretired created).1]
    trivial
  have linked := rotations_linked ordered start room fits
  apply deserializeIdentity_ok (eraseRetiredAt_serializeIdentity erased _ totpSecret)
  · intro r
    rcases writeErased_cases erased r with written | written
    · rw [written, deserializePrekey_serializePrekey]
    · rw [written, deserializePrekey_serializePrekey]
  · intro r present
    have time := legacyRetiredAt_linked linked (writeErased_faithful erased) present
    rw [eraseRetiredAt_serializeIdentity, (writeErased_faithful erased).id]
    rcases writeErased_cases erased r with written | written
    · rw [written]
      exact time
    · rw [written]
      rfl

theorem deserializeIdentity_eraseRetiredAt_sample :
    let call : RotateCall := ⟨spkRotationSecs, sampleBytes 32 15⟩
    let rotatedOnce := rotateCall FreeKey sampleIdentity call
    rotatedOnce.retiredSignedPrekeys = [⟨sampleIdentity.signedPrekey, spkRotationSecs⟩] ∧
      deserializeIdentity (eraseRetiredAt (fun _ => true) (serializeIdentity rotatedOnce ([1, 2, 3]))) =
        .ok (rotatedOnce, [1, 2, 3]) := by
  intro call rotatedOnce
  have fits : NoOverflow FreeKey sampleIdentity [call] := by
    refine ⟨?_, fun retired present => (by cases present), trivial⟩
    unfold DifferenceFits
    decide
  have few : (issued FreeKey sampleIdentity [call]).length < 2 ^ 32 - 1 := by
    rw [issued]
    split
    · exact (show 1 < 2 ^ 32 - 1 by decide)
    · exact (show 0 < 2 ^ 32 - 1 by decide)
  refine ⟨?_, deserializeIdentity_eraseRetiredAt sampleIdentity_created fits few ([1, 2, 3]) _⟩
  decide

end TrinoCore
