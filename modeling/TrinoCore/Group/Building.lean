import TrinoCore.Group.Validation
import TrinoCore.Identity.Bundle

namespace TrinoCore

section
variable [Signatures]

omit [Signatures] in
theorem decode64_encode (sig : Bytes64) : Group.decode64 (Hex.encode sig.toList) = .ok sig := by
  simp [Group.decode64]

/-- A call of one of the roster builders. -/
inductive BuilderCall where
  | createGroup (adminBundle : MemberBundle) (name : String) (seed : Bytes32)
  | addMember (roster : GroupRoster) (member : MemberBundle)
  | removeMember (roster : GroupRoster) (ikSignPub : String)
  | setGroupName (roster : GroupRoster) (name : String)
  | setGroupPhoto (roster : GroupRoster) (photo : Option FileRef)

def BuilderCall.run (admin : Identity) : BuilderCall → Except GroupError GroupRoster
  | .createGroup adminBundle name seed => TrinoCore.createGroup admin adminBundle name seed
  | .addMember roster member => TrinoCore.addMember roster admin member
  | .removeMember roster ikSignPub => TrinoCore.removeMember roster admin ikSignPub
  | .setGroupName roster name => TrinoCore.setGroupName roster admin name
  | .setGroupPhoto roster photo => TrinoCore.setGroupPhoto roster admin photo

omit [Signatures] in
/-- The addition of a listed key, which signs nothing. -/
def BuilderCall.isNoOp : BuilderCall → Bool
  | .addMember roster member => roster.members.any fun m => m.ikSignPub = member.ikSignPub
  | _ => false

theorem signUnsigned_ok {groupId name adminPub : String} {photo : Option FileRef} {members : List MemberBundle}
    {epoch : UInt64} {admin : Identity} {r : GroupRoster}
    (signed : signUnsigned groupId name photo adminPub members epoch admin = .ok r) :
    r = { groupId, name, photo, adminPub, members, epoch
          signature := Hex.encode (ed25519Sign admin.ikSign
            (rosterSigningBytes groupId name photo adminPub members epoch)).toList } ∧ validateRoster r = .ok () := by
  unfold signUnsigned at signed
  dsimp only at signed
  rw [guard_ok] at signed
  obtain ⟨_, rest⟩ := signed
  revert rest
  generalize whole : ({ groupId, name, photo, adminPub, members, epoch
                        signature := Hex.encode (ed25519Sign admin.ikSign
                          (rosterSigningBytes groupId name photo adminPub members epoch)).toList } : GroupRoster) = built
  intro rest
  cases valid : validateRoster built with
  | error e =>
    rw [valid] at rest
    cases rest
  | ok _ =>
    rw [valid] at rest
    obtain rfl := Except.ok.inj rest
    exact ⟨rfl, valid⟩

omit [Signatures] in
theorem assertAdmin_ok {roster : GroupRoster} {admin : Identity} {rest : PUnit → Except GroupError GroupRoster}
    {r : GroupRoster} : (assertAdmin roster admin >>= rest) = .ok r ↔
      Hex.encode admin.ikSign.pubBytes.toList = roster.adminPub ∧ rest ⟨⟩ = .ok r := by
  unfold assertAdmin
  by_cases same : Hex.encode admin.ikSign.pubBytes.toList = roster.adminPub
  · rw [if_neg (not_not.mpr same)]
    exact ⟨fun returned => ⟨same, returned⟩, fun both => both.2⟩
  · rw [if_pos same]
    constructor
    · intro absurd
      cases absurd
    · intro given
      obtain ⟨absurd, _⟩ := given
      exact (same absurd).elim

/-- What a builder hands out, apart from a roster it did not touch. -/
theorem BuilderCall.run_signed {call : BuilderCall} {admin : Identity} {r : GroupRoster} (returned : call.run admin = .ok r)
    (signs : call.isNoOp = false) :
    r.signature = Hex.encode (ed25519Sign admin.ikSign r.signingBytes).toList ∧ validateRoster r = .ok () := by
  have build : ∀ {groupId name photo adminPub members epoch},
      signUnsigned groupId name photo adminPub members epoch admin = .ok r →
      r.signature = Hex.encode (ed25519Sign admin.ikSign r.signingBytes).toList ∧ validateRoster r = .ok () := by
    intro groupId name photo adminPub members epoch signed
    obtain ⟨rfl, valid⟩ := signUnsigned_ok signed
    exact ⟨rfl, valid⟩
  cases call with
  | createGroup adminBundle name seed =>
    rw [run, TrinoCore.createGroup] at returned
    exact build returned
  | addMember roster member =>
    obtain ⟨_, returned⟩ := assertAdmin_ok.mp returned
    rw [if_neg (by rw [show roster.members.any _ = false from signs]; exact Bool.false_ne_true)] at returned
    exact build (guard_ok.mp returned).2
  | removeMember roster ikSignPub =>
    obtain ⟨_, returned⟩ := assertAdmin_ok.mp returned
    exact build (guard_ok.mp returned).2
  | setGroupName roster name => exact build (assertAdmin_ok.mp returned).2
  | setGroupPhoto roster photo => exact build (assertAdmin_ok.mp returned).2

omit [Signatures] in
theorem hexDigit_canonical : ∀ d < 16, (String.utf8EncodeChar (Nat.digitChar d)).length = 1 ∧
    (String.utf8EncodeChar (Nat.digitChar d)).all
      (fun b => (48 ≤ b && b ≤ 57) || (97 ≤ b && b ≤ 102)) = true := by
  decide

omit [Signatures] in
theorem isCanonicalHex_encode {n : Nat} (v : ByteVec n) : isCanonicalHex (Hex.encode v.toList) n = true := by
  have digits : ∀ bytes : Bytes, (utf8 (Hex.encode bytes)).length = bytes.length * 2 ∧
      (utf8 (Hex.encode bytes)).all (fun b => (48 ≤ b && b ≤ 57) || (97 ≤ b && b ≤ 102)) = true := by
    intro bytes
    unfold Hex.encode
    rw [utf8_ofList]
    induction bytes with
    | nil => exact ⟨rfl, rfl⟩
    | cons b rest ih =>
      have small := b.toNat_lt
      obtain ⟨highLength, high⟩ := hexDigit_canonical (b.toNat / 16) (by omega)
      obtain ⟨lowLength, low⟩ := hexDigit_canonical (b.toNat % 16) (by omega)
      simp only [List.flatMap_cons, Hex.pair, List.flatMap_append, List.flatMap_nil, List.append_nil,
        List.length_append, List.all_append, highLength, lowLength, high, low, ih, List.length_cons, Bool.and_self,
        and_true]
      omega
  obtain ⟨length, all⟩ := digits v.toList
  unfold isCanonicalHex
  rw [← length_utf8, length, all, List.Vector.toList_length]
  simp

theorem ownBundle_bound (honest : HonestSignatures) {identity : Identity} (handle : String)
    (sign : ∃ privBytes, identity.ikSign = generateEd25519 privBytes)
    (signed : identity.signedPrekey.signature =
      ed25519Sign identity.ikSign identity.signedPrekey.keypair.pubBytes.toList) :
    memberIsBound (.fromPublicBundle handle (publicBundleFor identity)) = true := by
  have binding := publicBundleFor_bound honest sign signed
  simp only [memberIsBound, Bool.and_eq_true]
  exact ⟨⟨⟨⟨⟨⟨isCanonicalHex_encode _, isCanonicalHex_encode _⟩, isCanonicalHex_encode _⟩, isCanonicalHex_encode _⟩,
    isCanonicalHex_encode _⟩, isCanonicalHex_encode _⟩, binding⟩

/-- The admin can sign any roster that is well built under its own key. -/
theorem signUnsigned_wellBuilt (honest : HonestSignatures) {admin : Identity}
    (sign : ∃ privBytes, admin.ikSign = generateEd25519 privBytes) {r : GroupRoster} (built : WellBuilt r)
    (own : r.adminPub = Hex.encode admin.ikSign.pubBytes.toList)
    (signature : r.signature = Hex.encode (ed25519Sign admin.ikSign r.signingBytes).toList) :
    signUnsigned r.groupId r.name r.photo r.adminPub r.members r.epoch admin = .ok r := by
  obtain ⟨signPriv, sign⟩ := sign
  have valid : validateRoster r = .ok () := by
    apply validateRoster_ok_iff.mpr
    refine ⟨built, admin.ikSign.pubBytes, ed25519Sign admin.ikSign r.signingBytes, ?_, ?_, ?_⟩
    · rw [own]
      simp [Group.decode32]
    · rw [signature]
      exact decode64_encode _
    · rw [sign]
      exact honest signPriv r.signingBytes
  have whole : { r with signature := Hex.encode (ed25519Sign admin.ikSign
      (rosterSigningBytes r.groupId r.name r.photo r.adminPub r.members r.epoch)).toList } = r := by
    change { r with signature := Hex.encode (ed25519Sign admin.ikSign r.signingBytes).toList } = r
    rw [← signature]
  unfold signUnsigned
  rw [if_neg (Nat.not_lt.mpr built.bounded)]
  dsimp only
  rw [whole, valid]
  rfl

/-- A group whose only member is its admin. -/
def soloRoster (identity : Identity) (handle groupId name : String) (epoch : UInt64) : GroupRoster :=
  let admin := MemberBundle.fromPublicBundle handle (publicBundleFor identity)
  { groupId, name
    photo := none
    adminPub := admin.ikSignPub
    members := [admin]
    epoch
    signature := Hex.encode (ed25519Sign identity.ikSign
      (rosterSigningBytes groupId name none admin.ikSignPub [admin] epoch)).toList }

/-- What an identity needs to be the admin of a group: honest keys, all different. -/
structure CanAdmin (identity : Identity) : Prop where
  sign : ∃ privBytes, identity.ikSign = generateEd25519 privBytes
  signed : identity.signedPrekey.signature =
    ed25519Sign identity.ikSign identity.signedPrekey.keypair.pubBytes.toList
  distinct : [identity.ikSign.pubBytes, identity.ikDh.pubBytes, identity.nostr.pubBytes].Nodup

variable {identity : Identity}

theorem soloRoster_wellBuilt (honest : HonestSignatures) (able : CanAdmin identity) (handle groupId name : String)
    (epoch : UInt64) : WellBuilt (soloRoster identity handle groupId name epoch) where
  nonempty := List.cons_ne_nil _ _
  bounded := (by decide : 1 ≤ maxGroupMembers)
  admin := by simp [isMember, soloRoster]
  distinct := by
    have injective : Function.Injective fun key : Bytes32 => Hex.encode key.toList := fun a b same =>
      ByteVec.toList_inj.mp (Hex.encode_inj.mp same)
    exact List.Nodup.map injective able.distinct
  bound := by
    intro m present
    obtain rfl := List.mem_singleton.mp present
    exact ownBundle_bound honest handle able.sign able.signed

theorem createGroup_solo (honest : HonestSignatures) (able : CanAdmin identity) (handle name : String) (seed : Bytes32) :
    createGroup identity (.fromPublicBundle handle (publicBundleFor identity)) name seed =
      .ok (soloRoster identity handle (Hex.encode seed.toList) name 0) :=
  signUnsigned_wellBuilt honest able.sign (soloRoster_wellBuilt honest able handle (Hex.encode seed.toList) name 0) rfl rfl

theorem setGroupName_solo (honest : HonestSignatures) (able : CanAdmin identity) (handle groupId name newName : String)
    (epoch : UInt64) : setGroupName (soloRoster identity handle groupId name epoch) identity newName =
      .ok (soloRoster identity handle groupId newName (epoch + 1)) := by
  have built := soloRoster_wellBuilt honest able handle groupId newName (epoch + 1)
  have signed := signUnsigned_wellBuilt honest able.sign built rfl rfl
  unfold setGroupName
  apply assertAdmin_ok.mpr
  exact ⟨rfl, signed⟩

end
end TrinoCore
