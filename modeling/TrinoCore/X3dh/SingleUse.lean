import TrinoCore.X3dh.Binding
import TrinoCore.X3dh.Publishing

/-!
One-time prekeys over the life of an identity: every id is handed out once, and a handshake that uses
it up is the only one that can.
-/

namespace TrinoCore

def Identity.opkIds (identity : Identity) : List UInt32 := identity.oneTimePrekeys.map (·.id)

def Identity.withoutOpk (identity : Identity) (opkId : Option UInt32) : Identity :=
  { identity with oneTimePrekeys := identity.oneTimePrekeys.filter fun opk => opkId ≠ some opk.id }

theorem Identity.withoutOpk_none (identity : Identity) : identity.withoutOpk none = identity := by
  have all : identity.oneTimePrekeys.filter (fun opk => (none : Option UInt32) ≠ some opk.id) = identity.oneTimePrekeys :=
    List.filter_eq_self.mpr fun opk _ => decide_eq_true (Option.some_ne_none opk.id).symm
  unfold withoutOpk
  rw [all]

theorem Identity.mem_opkIds_withoutOpk {identity : Identity} {opkId : Option UInt32} {id : UInt32} :
    id ∈ (identity.withoutOpk opkId).opkIds ↔ id ∈ identity.opkIds ∧ opkId ≠ some id := by
  unfold opkIds withoutOpk
  simp only [List.mem_map, List.mem_filter, decide_eq_true_eq]
  constructor
  · rintro ⟨opk, ⟨present, other⟩, rfl⟩
    exact ⟨⟨opk, present, rfl⟩, other⟩
  · rintro ⟨⟨opk, present, rfl⟩, other⟩
    exact ⟨opk, ⟨present, other⟩, rfl⟩

theorem Identity.withoutOpk_sublist (identity : Identity) (opkId : Option UInt32) :
    (identity.withoutOpk opkId).opkIds.Sublist identity.opkIds :=
  List.filter_sublist.map _

theorem eraseP_id {opks : List OneTimePreKey} (nodup : (opks.map (·.id)).Nodup) (opkId : UInt32) :
    opks.eraseP (·.id = opkId) = opks.filter fun opk => some opkId ≠ some opk.id := by
  induction opks with
  | nil => rfl
  | cons opk rest ih =>
    obtain ⟨unique, nodup⟩ := List.nodup_cons.mp nodup
    by_cases same : opk.id = opkId
    · subst same
      have others : ∀ other ∈ rest, decide (some opk.id ≠ some other.id) = true := by
        intro other present
        have different : opk.id ≠ other.id := fun equal => unique (List.mem_map.mpr ⟨other, present, equal.symm⟩)
        simpa using different
      rw [List.eraseP_cons_of_pos (by simp), List.filter_cons_of_neg (by simp), List.filter_eq_self.mpr others]
    · have different : opkId ≠ opk.id := fun equal => same equal.symm
      rw [List.eraseP_cons_of_neg (by simpa using same), List.filter_cons_of_pos (by simpa using different), ih nodup]

theorem consumeOneTimePrekey_absent {identity : Identity} {opkId : UInt32} (absent : opkId ∉ identity.opkIds) :
    consumeOneTimePrekey identity opkId = none := by
  have index : identity.oneTimePrekeys.findIdx? (·.id = opkId) = none := by
    rw [List.findIdx?_eq_none_iff]
    intro opk present
    have other : opk.id ≠ opkId := fun same => absent (same ▸ List.mem_map_of_mem present)
    exact decide_eq_false other
  unfold consumeOneTimePrekey
  rw [index]
  rfl

theorem consumeOneTimePrekey_present {identity : Identity} {opkId : UInt32} (nodup : identity.opkIds.Nodup)
    (present : opkId ∈ identity.opkIds) :
    ∃ opk, consumeOneTimePrekey identity opkId = some (opk, identity.withoutOpk (some opkId)) := by
  obtain ⟨entry, listed, same⟩ := List.mem_map.mp present
  have erased := eraseP_id nodup opkId
  rw [List.eraseP_eq_eraseIdx] at erased
  cases index : identity.oneTimePrekeys.findIdx? (·.id = opkId) with
  | none =>
    have missed := List.findIdx?_eq_none_iff.mp index entry listed
    exact absurd same (of_decide_eq_false missed)
  | some idx =>
    rw [index] at erased
    obtain ⟨inside, _, _⟩ := List.findIdx?_eq_some_iff_getElem.mp index
    refine ⟨identity.oneTimePrekeys[idx], ?_⟩
    unfold consumeOneTimePrekey Identity.withoutOpk
    rw [index, ← erased]
    simp [inside]

section
variable {S : Type} [Primitives S]

/-- The checks of `respond` before the one-time prekey. -/
structure Acceptable (identity : Identity) (msg : InitialMessage) : Prop where
  spk : signedPrekeyById identity msg.spkId ≠ none
  ikDhPub : ∃ theirIkDhPub, decodeArray32 msg.ikDhPub = .ok theirIkDhPub
  ekPub : ∃ theirEkPub, decodeArray32 msg.ekPub = .ok theirEkPub

/-- The exits of `respond`: what it checks before each, and what it leaves behind. -/
inductive Exit (identity : Identity) (msg : InitialMessage) : Except X3dhError (ResponderResult S) × Identity → Prop where
  | unknownSpk (unknown : signedPrekeyById identity msg.spkId = none) :
    Exit identity msg (.error (.unknownSpk msg.spkId), identity)
  | ikDhPub {e : IdentityError} (malformed : decodeArray32 msg.ikDhPub = .error e) :
    Exit identity msg (.error (.identity e), identity)
  | ekPub {e : IdentityError} (malformed : decodeArray32 msg.ekPub = .error e) :
    Exit identity msg (.error (.identity e), identity)
  | unknownOpk {opkId : UInt32} (named : msg.opkId = some opkId) (unknown : opkId ∉ identity.opkIds) :
    Exit identity msg (.error (.unknownOpk opkId), identity)
  | answered (result : ResponderResult S) (acceptable : Acceptable identity msg)
      (known : ∀ opkId, msg.opkId = some opkId → opkId ∈ identity.opkIds) :
    Exit identity msg (.ok result, identity.withoutOpk msg.opkId)

/-- Nothing can fail after the one-time prekey is taken out. -/
theorem respond_exit {identity : Identity} (nodup : identity.opkIds.Nodup) (msg : InitialMessage) (rng : X3dhRandom S) :
    Exit identity msg ((respond msg rng).exec identity) := by
  unfold respond
  rw [Mut.exec_bind_ok (Mut.exec_get identity)]
  cases spk : signedPrekeyById identity msg.spkId with
  | none => exact .unknownSpk spk
  | some found =>
    dsimp only
    cases ik : decodeArray32 msg.ikDhPub with
    | error e => exact .ikDhPub ik
    | ok theirIkDhPub =>
      rw [Mut.exec_bind_ok (Mut.exec_lift_ok _ _ _)]
      cases ek : decodeArray32 msg.ekPub with
      | error e => exact .ekPub ek
      | ok theirEkPub =>
        rw [Mut.exec_bind_ok (Mut.exec_lift_ok _ _ _)]
        have acceptable : Acceptable identity msg := ⟨by simp [spk], ⟨_, ik⟩, ⟨_, ek⟩⟩
        cases opk : msg.opkId with
        | none =>
          have exit (result : ResponderResult S) : Exit identity msg (.ok result, identity) := by
            have answered : Exit identity msg (.ok result, identity.withoutOpk msg.opkId) :=
              .answered result acceptable (by simp [opk])
            rwa [opk, Identity.withoutOpk_none] at answered
          exact exit _
        | some opkId =>
          dsimp only
          by_cases present : opkId ∈ identity.opkIds
          · obtain ⟨taken, consumed⟩ := consumeOneTimePrekey_present nodup present
            rw [consumed]
            have exit (result : ResponderResult S) :
                Exit identity msg (.ok result, identity.withoutOpk (some opkId)) := by
              have answered : Exit identity msg (.ok result, identity.withoutOpk msg.opkId) :=
                .answered result acceptable (by simp [opk, present])
              rwa [opk] at answered
            exact exit _
          · rw [consumeOneTimePrekey_absent present]
            exact .unknownOpk opk present

theorem respond_unknownOpk {identity : Identity} (nodup : identity.opkIds.Nodup) {msg : InitialMessage} {opkId : UInt32}
    (named : msg.opkId = some opkId) (unknown : opkId ∉ identity.opkIds) (rng : X3dhRandom S) :
    ∃ e, ((respond msg rng).exec identity).1 = .error e ∧ (Acceptable identity msg → e = .unknownOpk opkId) := by
  have exit := respond_exit nodup msg rng
  generalize (respond msg rng).exec identity = outcome at exit
  cases exit with
  | unknownSpk unknownSpk => exact ⟨_, rfl, fun acceptable => absurd unknownSpk acceptable.spk⟩
  | ikDhPub malformed =>
    refine ⟨_, rfl, fun acceptable => ?_⟩
    obtain ⟨_, decoded⟩ := acceptable.ikDhPub
    cases malformed.symm.trans decoded
  | ekPub malformed =>
    refine ⟨_, rfl, fun acceptable => ?_⟩
    obtain ⟨_, decoded⟩ := acceptable.ekPub
    cases malformed.symm.trans decoded
  | unknownOpk other _ =>
    obtain rfl := Option.some.inj (named.symm.trans other)
    exact ⟨_, rfl, fun _ => rfl⟩
  | answered result _ known => exact absurd (known opkId named) unknown

theorem respond_ok_iff {identity : Identity} (nodup : identity.opkIds.Nodup) {msg : InitialMessage}
    (rng : X3dhRandom S) : (∃ result, ((respond msg rng).exec identity).1 = .ok result) ↔
      Acceptable identity msg ∧ ∀ opkId, msg.opkId = some opkId → opkId ∈ identity.opkIds := by
  constructor
  · rintro ⟨result, answered⟩
    have exit := respond_exit nodup msg rng
    generalize (respond msg rng).exec identity = outcome at exit answered
    cases exit with
    | answered _ acceptable known => exact ⟨acceptable, known⟩
    | _ => cases answered
  · rintro ⟨acceptable, known⟩
    have exit := respond_exit nodup msg rng
    generalize (respond msg rng).exec identity = outcome at exit
    cases exit with
    | unknownSpk unknown => exact absurd unknown acceptable.spk
    | ikDhPub malformed =>
      obtain ⟨_, decoded⟩ := acceptable.ikDhPub
      cases malformed.symm.trans decoded
    | ekPub malformed =>
      obtain ⟨_, decoded⟩ := acceptable.ekPub
      cases malformed.symm.trans decoded
    | unknownOpk named unknown => exact absurd (known _ named) unknown
    | answered result _ _ => exact ⟨result, rfl⟩

/-! ### A life -/

variable [Signatures]

theorem ownerStep_opkIds {identity : Identity} (nodup : identity.opkIds.Nodup) (event : OwnerEvent S) :
    (ownerStep identity event).opkIds.Sublist identity.opkIds := by
  cases event with
  | rotate call =>
    have kept : (rotateCall S identity call).oneTimePrekeys = identity.oneTimePrekeys := by
      rw [rotateCall_eq, rotated]
      split
      · rfl
      · rfl
    rw [ownerStep, Identity.opkIds, kept]
    exact List.Sublist.refl _
  | respond msg rng =>
    have exit := respond_exit nodup msg rng
    rw [ownerStep]
    generalize (respond msg rng).exec identity = outcome at exit
    cases exit with
    | answered result _ known => exact identity.withoutOpk_sublist msg.opkId
    | _ => exact List.Sublist.refl _
  | reload totpSecret =>
    rw [ownerStep, deserializeIdentity_serializeIdentity]

theorem owned_opkIds {identity : Identity} (nodup : identity.opkIds.Nodup) (events : List (OwnerEvent S)) :
    (owned identity events).opkIds.Sublist identity.opkIds := by
  induction events generalizing identity with
  | nil => exact List.Sublist.refl _
  | cons event rest ih =>
    have step := ownerStep_opkIds nodup event
    exact (ih (nodup.sublist step)).trans step

omit [Signatures] in
theorem createOneTimePrekeys_nodup (startId : UInt32) {privs : List Bytes32} (few : privs.length ≤ 2 ^ 32) :
    ((createOneTimePrekeys S startId privs).map (·.id)).Nodup := by
  unfold createOneTimePrekeys
  rw [List.nodup_iff_pairwise_ne, List.pairwise_iff_getElem]
  intro i j below inside less same
  simp only [List.length_map, List.length_mapIdx] at below inside
  simp only [List.getElem_map, List.getElem_mapIdx, UInt32.add_right_inj] at same
  have numbers := congrArg UInt32.toNat same
  simp only [UInt32.toNat_ofNat'] at numbers
  omega

theorem created_opkIds {rng : IdentityRandom} {createdAt : Int64} {identity : Identity}
    (created : createIdentity S rng createdAt = some identity) : identity.opkIds.Nodup := by
  unfold createIdentity at created
  cases nostr : generateNostrKeypair rng.nostrDraws with
  | none =>
    rw [nostr] at created
    cases created
  | some keypair =>
    rw [nostr] at created
    obtain rfl := Option.some.inj created
    apply createOneTimePrekeys_nodup
    rw [List.Vector.toList_length]
    decide

/-- Once a handshake has used up a one-time prekey, its id is gone for good. -/
theorem owned_used_up {identity : Identity} (nodup : identity.opkIds.Nodup) {msg : InitialMessage} {draws : X3dhRandom S}
    {opkId : UInt32} {result : ResponderResult S} (named : msg.opkId = some opkId)
    (answered : ((respond msg draws).exec identity).1 = .ok result) (after : List (OwnerEvent S)) :
    opkId ∉ (owned identity (.respond msg draws :: after)).opkIds := by
  have exit := respond_exit nodup msg draws
  have step : (ownerStep identity (.respond msg draws)).opkIds.Nodup :=
    nodup.sublist (ownerStep_opkIds nodup (.respond msg draws))
  have gone : opkId ∉ (ownerStep identity (.respond msg draws)).opkIds := by
    rw [ownerStep]
    generalize (respond msg draws).exec identity = outcome at exit answered
    cases exit with
    | answered _ _ known =>
      intro present
      exact (Identity.mem_opkIds_withoutOpk.mp present).2 named
    | _ => cases answered
  exact fun later => gone ((owned_opkIds step after).subset later)

/-- Over any life of an identity: the ids of its one-time prekeys are distinct; a handshake that
succeeds takes out the one it names and nothing else, and one that fails changes nothing; an id
that a handshake used up is refused from then on; and a handshake fails only at one of its checks. -/
theorem one_time_prekeys_used_once {rng : IdentityRandom} {createdAt : Int64} {identity : Identity}
    (created : createIdentity S rng createdAt = some identity) (events : List (OwnerEvent S)) :
    let current := owned identity events
    current.opkIds.Nodup ∧
      (∀ (msg : InitialMessage) (draws : X3dhRandom S),
        (∀ e left, (respond msg draws).exec current = (.error e, left) → left = current) ∧
          ∀ result left, (respond msg draws).exec current = (.ok result, left) →
            left = current.withoutOpk msg.opkId ∧ (msg.opkId = none → left = current) ∧
              ∀ opkId, msg.opkId = some opkId → opkId ∈ current.opkIds) ∧
      (∀ before msg draws after opkId result, events = before ++ .respond msg draws :: after → msg.opkId = some opkId →
        ((respond msg draws).exec (owned identity before)).1 = .ok result →
          ∀ msg' (draws' : X3dhRandom S), msg'.opkId = some opkId →
            ∃ e, ((respond msg' draws').exec current).1 = .error e ∧ (Acceptable current msg' → e = .unknownOpk opkId)) ∧
      ∀ (msg : InitialMessage) (draws : X3dhRandom S), (∃ result, ((respond msg draws).exec current).1 = .ok result) ↔
        Acceptable current msg ∧ ∀ opkId, msg.opkId = some opkId → opkId ∈ current.opkIds := by
  intro current
  have start := created_opkIds created
  have nodup : current.opkIds.Nodup := start.sublist (owned_opkIds start events)
  refine ⟨nodup, ?_, ?_, fun msg draws => respond_ok_iff nodup draws⟩
  · intro msg draws
    have exit := respond_exit nodup msg draws
    generalize (respond msg draws).exec current = outcome at exit
    constructor
    · rintro e left rfl
      cases exit <;> rfl
    · rintro result left rfl
      cases exit with
      | answered _ _ known =>
        refine ⟨rfl, fun unnamed => ?_, known⟩
        rw [unnamed, Identity.withoutOpk_none]
  · intro before msg draws after opkId result split named answered msg' draws' again
    have earlier : (owned identity before).opkIds.Nodup := start.sublist (owned_opkIds start before)
    have run : current = owned (owned identity before) (.respond msg draws :: after) := by
      change owned identity events = _
      rw [split]
      exact List.foldl_append
    have gone : opkId ∉ current.opkIds := by
      rw [run]
      exact owned_used_up earlier named answered after
    exact respond_unknownOpk nodup again gone draws'

end

def sampleOpkMessage : InitialMessage :=
  { ikDhPub := Hex.encode (sampleBytes 32 40).toList, ekPub := Hex.encode (sampleBytes 32 41).toList, spkId := 1, opkId := some 1 }

/-- The second handshake on a one-time prekey is told that it is gone. -/
theorem one_time_prekeys_used_once_sample :
    let first : OwnerEvent FreeKey := .respond sampleOpkMessage sampleX3dhRandom
    ((respond sampleOpkMessage sampleX3dhRandom).exec (owned sampleIdentity [first])).1 = .error (.unknownOpk 1) := by
  intro first
  obtain ⟨_, _, usedUp, _⟩ := one_time_prekeys_used_once sampleIdentity_created [first]
  obtain ⟨e, refused, reason⟩ :=
    usedUp [] sampleOpkMessage sampleX3dhRandom [] 1 _ rfl rfl rfl sampleOpkMessage sampleX3dhRandom rfl
  have acceptable : Acceptable (owned sampleIdentity [first]) sampleOpkMessage :=
    ⟨Option.some_ne_none sampleIdentity.signedPrekey, ⟨_, decodeArray32_encode _⟩, ⟨_, decodeArray32_encode _⟩⟩
  rw [refused, reason acceptable]

end TrinoCore
