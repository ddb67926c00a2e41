import TrinoCore.Group.SigningBytes

namespace TrinoCore

theorem allFresh_iff {seen keys : List String} : allFresh seen keys = true ↔ keys.Nodup ∧ ∀ key ∈ keys, key ∉ seen := by
  induction keys generalizing seen with
  | nil => simp [allFresh]
  | cons key rest ih =>
    unfold allFresh
    rw [List.nodup_cons]
    by_cases repeated : key ∈ seen
    · simp [repeated]
    · simp only [repeated, ↓reduceIte, ih, List.mem_cons, not_or, forall_eq_or_imp, not_false_eq_true, true_and]
      constructor
      · intro given
        obtain ⟨nodup, fresh⟩ := given
        exact ⟨⟨fun present => (fresh key present).1 rfl, nodup⟩, fun other present => (fresh other present).2⟩
      · intro given
        obtain ⟨⟨absent, nodup⟩, fresh⟩ := given
        exact ⟨nodup, fun other present => ⟨fun same => absent (same ▸ present), fresh other present⟩⟩

theorem allFresh_nodup (keys : List String) : allFresh [] keys = true ↔ keys.Nodup := by
  rw [allFresh_iff]
  simp

/-- An early return with an error, as `do` notation writes it. -/
theorem guard_ok {ε α : Type} {c : Prop} [Decidable c] {e : ε} {rest : PUnit → Except ε α} {a : α} :
    (if c then throw e >>= rest else rest ⟨⟩) = .ok a ↔ ¬c ∧ rest ⟨⟩ = .ok a := by
  by_cases stop : c
  · simp only [stop, ↓reduceIte, not_true_eq_false, false_and, iff_false]
    intro absurd
    cases absurd
  · simp [stop]

section
variable [Signatures]

/-- The checks of `validate_roster` that come before the signature. -/
structure WellBuilt (r : GroupRoster) : Prop where
  nonempty : r.members ≠ []
  bounded : r.members.length ≤ maxGroupMembers
  admin : isMember r r.adminPub = true
  distinct : (memberKeys r.members).Nodup
  bound : ∀ m ∈ r.members, memberIsBound m = true

def SignedBy (r : GroupRoster) (adminPub : Bytes32) (sig : Bytes64) : Prop :=
  Group.decode32 r.adminPub = .ok adminPub ∧ Group.decode64 r.signature = .ok sig ∧
    ed25519Verify adminPub r.signingBytes sig = true

theorem validateRoster_ok_iff {r : GroupRoster} :
    validateRoster r = .ok () ↔ WellBuilt r ∧ ∃ adminPub sig, SignedBy r adminPub sig := by
  have fresh := allFresh_nodup (memberKeys r.members)
  have bound : r.members.findIdx? (fun m => !memberIsBound m) = none ↔ ∀ m ∈ r.members, memberIsBound m = true := by
    simp [List.findIdx?_eq_none_iff]
  unfold validateRoster
  dsimp only
  simp only [guard_ok]
  rw [Bool.not_eq_true', Bool.not_eq_false, Bool.not_eq_true', Bool.not_eq_false, fresh, Nat.not_lt]
  constructor
  · intro given
    obtain ⟨nonempty, bounded, admin, distinct, rest⟩ := given
    split at rest
    · cases rest
    · rename_i none_unbound
      split at rest
      · rename_i adminPub sig decoded decodedSig
        split at rest
        · cases rest
        · rename_i verified
          rw [Bool.not_eq_true', Bool.not_eq_false] at verified
          refine ⟨⟨fun empty => nonempty (by rw [empty]; rfl), bounded, admin, distinct, bound.mp none_unbound⟩, ?_⟩
          exact ⟨adminPub, sig, decoded, decodedSig, verified⟩
      · cases rest
  · intro given
    obtain ⟨built, adminPub, sig, decoded, decodedSig, verified⟩ := given
    refine ⟨fun empty => built.nonempty (List.length_eq_zero_iff.mp empty), built.bounded, built.admin, built.distinct, ?_⟩
    rw [bound.mpr built.bound, decoded, decodedSig]
    simp [verified]
    rfl

/-- A valid roster's signed bytes are longer than anything else an identity key signs. -/
theorem WellBuilt.signingBytes_long {r : GroupRoster} (built : WellBuilt r) : 64 < r.signingBytes.length := by
  obtain ⟨m, present⟩ := List.exists_mem_of_ne_nil r.members built.nonempty
  have bound := built.bound m present
  simp only [memberIsBound, Bool.and_eq_true] at bound
  have hex : m.ikSignPub.utf8ByteSize = 64 := by
    have canonical := bound.1.1.1.1.1.1
    simp only [isCanonicalHex, Bool.and_eq_true, decide_eq_true_eq] at canonical
    omega
  have text : (Json.byteLength m.ikSignPub.toList) = 64 := by
    rw [← hex, ← length_utf8, Json.byteLength, ← utf8_ofList, String.ofList_toList]
  have inMember : Json.byteLength (Json.str m.ikSignPub).chars ≤ Json.byteLength (memberJson m).chars :=
    Json.byteLength_arr List.mem_cons_self
  have inMembers : Json.byteLength (memberJson m).chars ≤ Json.byteLength (Json.arr (sortedMembers r.members)).chars :=
    Json.byteLength_arr (List.mem_mergeSort.mpr (List.mem_map_of_mem present))
  have inBody : Json.byteLength (Json.arr (sortedMembers r.members)).chars ≤ Json.byteLength (Json.arr
      [.str r.groupId, .str r.name, photoJson r.photo, .str r.adminPub, .arr (sortedMembers r.members),
        .num r.epoch.toNat]).chars :=
    Json.byteLength_arr (by simp)
  have quoted := Json.byteLength_str m.ikSignPub
  have domain : rosterSigDomain.length = 16 := by
    unfold rosterSigDomain
    rw [length_utf8]
    decide
  unfold GroupRoster.signingBytes
  rw [rosterSigningBytes, List.length_append, domain, Json.render, utf8_ofList]
  change 64 < 16 + Json.byteLength _
  omega

end
end TrinoCore
