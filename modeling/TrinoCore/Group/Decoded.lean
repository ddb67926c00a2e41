import TrinoCore.Group.Building

/-! What a valid roster is once its hex is read: the checks on texts, stated on the bytes they spell. -/

namespace TrinoCore

def lowerHexByte (b : UInt8) : Bool := (48 ≤ b && b ≤ 57) || (97 ≤ b && b ≤ 102)

theorem asciiDigit : ∀ n < 128, ∀ d ∈ Hex.digitValue (Char.ofNat n),
    (String.utf8EncodeChar (Char.ofNat n)).all lowerHexByte = true → Char.ofNat n = Nat.digitChar d ∧ d < 16 := by
  decide

theorem digit_ascii {c : Char} {d : Nat} (value : Hex.digitValue c = some d) : c.toNat < 128 := by
  have range : ∀ low high : Char, low ≤ c ∧ c ≤ high → high.toNat < 128 → c.toNat < 128 := by
    intro low high between small
    exact Nat.lt_of_le_of_lt (Char.le_def.mp between.2) small
  unfold Hex.digitValue at value
  split at value
  · rename_i between
    exact range _ _ between (by decide)
  · split at value
    · rename_i between
      exact range _ _ between (by decide)
    · split at value
      · rename_i between
        exact range _ _ between (by decide)
      · cases value

theorem lowercase_digit {c : Char} {d : Nat} (value : Hex.digitValue c = some d)
    (lowercase : (String.utf8EncodeChar c).all lowerHexByte = true) : c = Nat.digitChar d ∧ d < 16 := by
  have ascii := asciiDigit c.toNat (digit_ascii value)
  rw [Char.ofNat_toNat] at ascii
  exact ascii d value lowercase

theorem decodeChars_lowercase {cs : List Char} {bytes : Bytes} (decoded : Hex.decodeChars cs = some bytes)
    (lowercase : (cs.flatMap String.utf8EncodeChar).all lowerHexByte = true) : cs = bytes.flatMap Hex.pair := by
  induction cs using Hex.decodeChars.induct generalizing bytes with
  | case1 =>
    obtain rfl := Option.some.inj decoded
    rfl
  | case2 c => cases decoded
  | case3 hi lo rest ih =>
    unfold Hex.decodeChars at decoded
    cases high : Hex.digitValue hi with
    | none =>
      rw [high] at decoded
      cases decoded
    | some h =>
      cases low : Hex.digitValue lo with
      | none =>
        rw [high, low] at decoded
        cases decoded
      | some l =>
        cases tail : Hex.decodeChars rest with
        | none =>
          rw [high, low, tail] at decoded
          cases decoded
        | some others =>
          rw [high, low, tail] at decoded
          obtain rfl := Option.some.inj decoded
          simp only [List.flatMap_cons, List.all_append, Bool.and_eq_true] at lowercase
          obtain ⟨lowerHigh, lowerLow, lowerRest⟩ := lowercase
          obtain ⟨rfl, smallHigh⟩ := lowercase_digit high lowerHigh
          obtain ⟨rfl, smallLow⟩ := lowercase_digit low lowerLow
          have value : (UInt8.ofNat (16 * h + l)).toNat = 16 * h + l := by
            rw [UInt8.toNat_ofNat']
            omega
          have quotient : (16 * h + l) / 16 = h := by omega
          have remainder : (16 * h + l) % 16 = l := by omega
          rw [List.flatMap_cons, ← ih tail lowerRest, Hex.pair, value, quotient, remainder]
          rfl

/-- A text passes `is_canonical_hex` and decodes to these bytes exactly when it is how they are written. -/
theorem canonical_decode_iff {n : Nat} {s : String} {v : ByteVec n} :
    isCanonicalHex s n = true ∧ Hex.decode s = some v.toList ↔ s = Hex.encode v.toList := by
  constructor
  · intro given
    obtain ⟨canonical, decoded⟩ := given
    unfold isCanonicalHex at canonical
    rw [Bool.and_eq_true] at canonical
    have lowercase : (s.toList.flatMap String.utf8EncodeChar).all lowerHexByte = true := by
      rw [← utf8_ofList, String.ofList_toList]
      exact canonical.2
    unfold Hex.encode
    rw [← decodeChars_lowercase decoded lowercase, String.ofList_toList]
  · rintro rfl
    exact ⟨isCanonicalHex_encode v, Hex.decode_encode v.toList⟩

theorem decodeArray32_ok_iff {s : String} {v : Bytes32} : decodeArray32 s = .ok v ↔ Hex.decode s = some v.toList := by
  unfold decodeArray32
  grind [ByteVec.ofBytes?_eq_some, ByteVec.ofBytes?_toList]

theorem decodeArray64_ok_iff {s : String} {v : Bytes64} : decodeArray64 s = .ok v ↔ Hex.decode s = some v.toList := by
  unfold decodeArray64
  grind [ByteVec.ofBytes?_eq_some, ByteVec.ofBytes?_toList]

theorem groupDecode32_ok_iff {s : String} {v : Bytes32} : Group.decode32 s = .ok v ↔ Hex.decode s = some v.toList := by
  unfold Group.decode32
  grind [ByteVec.ofBytes?_eq_some, ByteVec.ofBytes?_toList]

theorem groupDecode64_ok_iff {s : String} {v : Bytes64} : Group.decode64 s = .ok v ↔ Hex.decode s = some v.toList := by
  unfold Group.decode64
  grind [ByteVec.ofBytes?_eq_some, ByteVec.ofBytes?_toList]

/-- The keys and signatures of a member. -/
structure MemberBytes where
  ikSign : Bytes32
  ikDh : Bytes32
  nostr : Bytes32
  spk : Bytes32
  spkSig : Bytes64
  idSig : Bytes64

/-- The entry has these keys and signatures, each in lowercase hex. -/
structure Spells (m : MemberBundle) (d : MemberBytes) : Prop where
  ikSign : m.ikSignPub = Hex.encode d.ikSign.toList
  ikDh : m.ikDhPub = Hex.encode d.ikDh.toList
  nostr : m.nostrPub = Hex.encode d.nostr.toList
  spk : m.spkPub = Hex.encode d.spk.toList
  spkSig : m.spkSig = Hex.encode d.spkSig.toList
  idSig : m.idSig = Hex.encode d.idSig.toList

section
variable [Signatures]

/-- The identity key signed the prekey, and the DH and Nostr keys together. -/
structure MemberBytes.Signed (d : MemberBytes) : Prop where
  prekey : ed25519Verify d.ikSign d.spk.toList d.spkSig = true
  binding : ed25519Verify d.ikSign (d.ikDh.toList ++ d.nostr.toList) d.idSig = true

theorem verifyBundle_true_iff {bundle : PublicBundle} :
    verifyBundle bundle = true ↔ ∃ ikSignPub spkPub spkSig, decodeArray32 bundle.ikSignPub = .ok ikSignPub ∧
      decodeArray32 bundle.spkPub = .ok spkPub ∧ decodeArray64 bundle.spkSig = .ok spkSig ∧
        ed25519Verify ikSignPub spkPub.toList spkSig = true := by
  constructor
  · intro verified
    unfold verifyBundle at verified
    split at verified
    · rename_i ikSignPub spkPub spkSig ik spk sig
      exact ⟨ikSignPub, spkPub, spkSig, ik, spk, sig, verified⟩
    · cases verified
  · intro given
    obtain ⟨ikSignPub, spkPub, spkSig, ik, spk, sig, verified⟩ := given
    rw [verifyBundle_eq ik spk sig]
    exact verified

theorem verifyBundleBinding_true_iff {bundle : PublicBundle} :
    verifyBundleBinding bundle = true ↔ verifyBundle bundle = true ∧ ∃ ikSignPub ikDhPub nostrPub idSig,
      decodeArray32 bundle.ikSignPub = .ok ikSignPub ∧ decodeArray32 bundle.ikDhPub = .ok ikDhPub ∧
        decodeArray32 bundle.nostrPub = .ok nostrPub ∧ decodeArray64 bundle.idSig = .ok idSig ∧
          ed25519Verify ikSignPub (identitySigningBytes ikDhPub nostrPub) idSig = true := by
  constructor
  · intro bound
    unfold verifyBundleBinding at bound
    split at bound
    · cases bound
    · rename_i verified
      rw [Bool.not_eq_true', Bool.not_eq_false] at verified
      split at bound
      · rename_i ikSignPub ikDhPub nostrPub idSig ik dh nostr sig
        exact ⟨verified, ikSignPub, ikDhPub, nostrPub, idSig, ik, dh, nostr, sig, bound⟩
      · cases bound
  · intro given
    obtain ⟨verified, ikSignPub, ikDhPub, nostrPub, idSig, ik, dh, nostr, sig, bound⟩ := given
    rw [verifyBundleBinding_eq verified ik dh nostr sig]
    exact bound

theorem memberIsBound_iff {m : MemberBundle} : memberIsBound m = true ↔ ∃ d, Spells m d ∧ d.Signed := by
  unfold memberIsBound
  simp only [Bool.and_eq_true]
  constructor
  · intro given
    obtain ⟨⟨⟨⟨⟨⟨ik, dh⟩, nostr⟩, spk⟩, spkSig⟩, idSig⟩, bound⟩ := given
    obtain ⟨verified, ikSignPub, ikDhPub, nostrPub, sig, ikDecoded, dhDecoded, nostrDecoded, sigDecoded, binding⟩ :=
      verifyBundleBinding_true_iff.mp bound
    obtain ⟨ikAgain, spkPub, prekeySig, ikAgainDecoded, spkDecoded, prekeySigDecoded, prekey⟩ :=
      verifyBundle_true_iff.mp verified
    obtain rfl := Except.ok.inj (ikDecoded.symm.trans ikAgainDecoded)
    refine ⟨⟨ikSignPub, ikDhPub, nostrPub, spkPub, prekeySig, sig⟩, ⟨?_, ?_, ?_, ?_, ?_, ?_⟩, prekey, binding⟩
    · exact canonical_decode_iff.mp ⟨ik, decodeArray32_ok_iff.mp ikDecoded⟩
    · exact canonical_decode_iff.mp ⟨dh, decodeArray32_ok_iff.mp dhDecoded⟩
    · exact canonical_decode_iff.mp ⟨nostr, decodeArray32_ok_iff.mp nostrDecoded⟩
    · exact canonical_decode_iff.mp ⟨spk, decodeArray32_ok_iff.mp spkDecoded⟩
    · exact canonical_decode_iff.mp ⟨spkSig, decodeArray64_ok_iff.mp prekeySigDecoded⟩
    · exact canonical_decode_iff.mp ⟨idSig, decodeArray64_ok_iff.mp sigDecoded⟩
  · intro given
    obtain ⟨d, spells, signed⟩ := given
    have ik : decodeArray32 m.ikSignPub = .ok d.ikSign := spells.ikSign ▸ decodeArray32_encode d.ikSign
    have dh : decodeArray32 m.ikDhPub = .ok d.ikDh := spells.ikDh ▸ decodeArray32_encode d.ikDh
    have nostr : decodeArray32 m.nostrPub = .ok d.nostr := spells.nostr ▸ decodeArray32_encode d.nostr
    have spk : decodeArray32 m.spkPub = .ok d.spk := spells.spk ▸ decodeArray32_encode d.spk
    have spkSig : decodeArray64 m.spkSig = .ok d.spkSig := spells.spkSig ▸ decodeArray64_encode d.spkSig
    have idSig : decodeArray64 m.idSig = .ok d.idSig := spells.idSig ▸ decodeArray64_encode d.idSig
    have verified : verifyBundle m.toPublicBundle = true :=
      verifyBundle_true_iff.mpr ⟨d.ikSign, d.spk, d.spkSig, ik, spk, spkSig, signed.prekey⟩
    have bound : verifyBundleBinding m.toPublicBundle = true :=
      verifyBundleBinding_true_iff.mpr ⟨verified, d.ikSign, d.ikDh, d.nostr, d.idSig, ik, dh, nostr, idSig, signed.binding⟩
    rw [spells.ikSign, spells.ikDh, spells.nostr, spells.spk, spells.spkSig, spells.idSig]
    exact ⟨⟨⟨⟨⟨⟨isCanonicalHex_encode _, isCanonicalHex_encode _⟩, isCanonicalHex_encode _⟩, isCanonicalHex_encode _⟩,
      isCanonicalHex_encode _⟩, isCanonicalHex_encode _⟩, bound⟩

/-! ### A roster -/

omit [Signatures] in
def MemberBytes.keys (d : MemberBytes) : List Bytes32 := [d.ikSign, d.ikDh, d.nostr]

/-- What `validate_roster` asks of a roster whose members spell these keys. -/
structure ValidAs (r : GroupRoster) (decoded : List MemberBytes) : Prop where
  nonempty : 1 ≤ r.members.length
  bounded : r.members.length ≤ maxGroupMembers
  spelled : List.Forall₂ Spells r.members decoded
  distinct : (decoded.flatMap MemberBytes.keys).Nodup
  bound : ∀ d ∈ decoded, d.Signed
  admin : ∃ m ∈ r.members, m.ikSignPub = r.adminPub
  signed : ∃ (adminPub : Bytes32) (sig : Bytes64), Hex.decode r.adminPub = some adminPub.toList ∧
    Hex.decode r.signature = some sig.toList ∧ ed25519Verify adminPub r.signingBytes sig = true

omit [Signatures] in
theorem memberKeys_nodup {members : List MemberBundle} {decoded : List MemberBytes}
    (spelled : List.Forall₂ Spells members decoded) :
    (memberKeys members).Nodup ↔ (decoded.flatMap MemberBytes.keys).Nodup := by
  have texts : memberKeys members = (decoded.flatMap MemberBytes.keys).map fun key => Hex.encode key.toList := by
    unfold memberKeys
    induction spelled with
    | nil => rfl
    | cons spells _ ih =>
      rw [List.flatMap_cons, List.flatMap_cons, List.map_append, ih, spells.ikSign, spells.ikDh, spells.nostr]
      rfl
  have injective : Function.Injective fun key : Bytes32 => Hex.encode key.toList := fun a b same =>
    ByteVec.toList_inj.mp (Hex.encode_inj.mp same)
  rw [texts, List.nodup_map_iff injective]

theorem members_bound_iff {members : List MemberBundle} :
    (∀ m ∈ members, memberIsBound m = true) ↔ ∃ decoded, List.Forall₂ Spells members decoded ∧ ∀ d ∈ decoded, d.Signed := by
  induction members with
  | nil =>
    constructor
    · intro _
      exact ⟨[], List.Forall₂.nil, fun d absurd => by cases absurd⟩
    · intro _ m absurd
      cases absurd
  | cons m rest ih =>
    rw [List.forall_mem_cons, memberIsBound_iff, ih]
    constructor
    · intro given
      obtain ⟨⟨d, spells, signed⟩, decoded, spelled, others⟩ := given
      exact ⟨d :: decoded, List.Forall₂.cons spells spelled, List.forall_mem_cons.mpr ⟨signed, others⟩⟩
    · intro given
      obtain ⟨decoded, spelled, signed⟩ := given
      cases spelled with
      | cons spells later =>
        obtain ⟨first, others⟩ := List.forall_mem_cons.mp signed
        exact ⟨⟨_, spells, first⟩, _, later, others⟩

theorem validateRoster_decoded {r : GroupRoster} : validateRoster r = .ok () ↔ ∃ decoded, ValidAs r decoded := by
  rw [validateRoster_ok_iff]
  constructor
  · intro given
    obtain ⟨built, adminPub, sig, admin, signature, verified⟩ := given
    obtain ⟨decoded, spelled, signed⟩ := members_bound_iff.mp built.bound
    refine ⟨decoded, List.length_pos_iff.mpr built.nonempty, built.bounded, spelled, ?_, signed, ?_, ?_⟩
    · exact (memberKeys_nodup spelled).mp built.distinct
    · simpa [isMember] using built.admin
    · exact ⟨adminPub, sig, groupDecode32_ok_iff.mp admin, groupDecode64_ok_iff.mp signature, verified⟩
  · intro given
    obtain ⟨decoded, valid⟩ := given
    obtain ⟨adminPub, sig, admin, signature, verified⟩ := valid.signed
    refine ⟨⟨List.length_pos_iff.mp valid.nonempty, valid.bounded, ?_, ?_, ?_⟩, adminPub, sig, ?_, ?_, verified⟩
    · simpa [isMember] using valid.admin
    · exact (memberKeys_nodup valid.spelled).mpr valid.distinct
    · exact members_bound_iff.mpr ⟨decoded, valid.spelled, valid.bound⟩
    · exact groupDecode32_ok_iff.mpr admin
    · exact groupDecode64_ok_iff.mpr signature

theorem validateRoster_perm {r : GroupRoster} {members : List MemberBundle} (same : members.Perm r.members)
    (valid : validateRoster r = .ok ()) : validateRoster { r with members } = .ok () := by
  obtain ⟨built, adminPub, sig, admin, signature, verified⟩ := validateRoster_ok_iff.mp valid
  have bytes : GroupRoster.signingBytes { r with members } = r.signingBytes :=
    signingBytes_parts.mpr ⟨rfl, rfl, rfl, rfl, sortedMembers_eq_iff.mpr same, rfl⟩
  apply validateRoster_ok_iff.mpr
  refine ⟨⟨?_, ?_, ?_, ?_, ?_⟩, adminPub, sig, admin, signature, ?_⟩
  · intro empty
    rw [show members = [] from empty] at same
    exact built.nonempty same.nil_eq.symm
  · rw [same.length_eq]
    exact built.bounded
  · unfold isMember
    rw [same.any_eq]
    exact built.admin
  · exact (same.flatMap_right _).nodup_iff.mpr built.distinct
  · intro m present
    exact built.bound m (same.mem_iff.mp present)
  · rw [bytes]
    exact verified

/-- A roster is valid exactly when its members spell distinct, properly signed keys and its admin, one
of them, signed it; whether it is does not depend on the order of the members. -/
theorem validateRoster_exact (r : GroupRoster) :
    (validateRoster r = .ok () ↔ ∃ decoded, ValidAs r decoded) ∧
      ∀ members, members.Perm r.members → (validateRoster { r with members } = .ok () ↔ validateRoster r = .ok ()) := by
  refine ⟨validateRoster_decoded, ?_⟩
  intro members same
  exact ⟨fun valid => validateRoster_perm (r := { r with members }) same.symm valid, fun valid => validateRoster_perm same valid⟩

end
end TrinoCore
