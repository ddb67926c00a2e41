import TrinoCore.Group.Decoded
import TrinoCore.Group.Updates
import TrinoCore.X3dh.Publishing
import TrinoCore.X3dh.Agreement

/-!
The keys of others in a roster.

An identity key signs prekeys, the binding of its own keys, and rosters, and the three have different
lengths. So a signature made for one passes for no other, and whoever wrote a roster, the keys that it
lists for an honest member are that member's own. Only the number of the prekey is not signed.
-/

namespace TrinoCore

section
variable {S : Type} [Primitives S] [Signatures]

/-- The messages that an identity key signs in the life of its owner. -/
inductive OwnerSigned (created : Identity) (life : List (OwnerEvent S)) (calls : List (Identity × BuilderCall)) :
    Bytes → Prop
  | prekey {before after : List (OwnerEvent S)} (split : life = before ++ after) :
    OwnerSigned created life calls (owned created before).signedPrekey.keypair.pubBytes.toList
  | binding {before after : List (OwnerEvent S)} (split : life = before ++ after) :
    OwnerSigned created life calls
      (identitySigningBytes (owned created before).ikDh.pubBytes (owned created before).nostr.pubBytes)
  | roster {admin : Identity} {call : BuilderCall} {r : GroupRoster} (made : (admin, call) ∈ calls)
    (own : admin.ikSign = created.ikSign) (signs : call.isNoOp = false) (returned : call.run admin = .ok r) :
    OwnerSigned created life calls r.signingBytes

/-- The signatures in a bundle that verify under the owner's key were made by its owner. -/
structure BundleUnforged (created : Identity) (life : List (OwnerEvent S)) (calls : List (Identity × BuilderCall))
    (b : PublicBundle) : Prop where
  prekey : ∀ spkPub sig, decodeArray32 b.spkPub = .ok spkPub → decodeArray64 b.spkSig = .ok sig →
    ed25519Verify created.ikSign.pubBytes spkPub.toList sig = true → OwnerSigned created life calls spkPub.toList
  binding : ∀ ikDhPub nostrPub sig, decodeArray32 b.ikDhPub = .ok ikDhPub → decodeArray32 b.nostrPub = .ok nostrPub →
    decodeArray64 b.idSig = .ok sig →
    ed25519Verify created.ikSign.pubBytes (identitySigningBytes ikDhPub nostrPub) sig = true →
    OwnerSigned created life calls (identitySigningBytes ikDhPub nostrPub)

theorem ownerStep_keys (identity : Identity) (event : OwnerEvent S) :
    (ownerStep identity event).ikSign = identity.ikSign ∧ (ownerStep identity event).ikDh = identity.ikDh ∧
      (ownerStep identity event).nostr = identity.nostr := by
  cases event with
  | rotate call =>
    rw [ownerStep, rotateCall_eq, rotated]
    split
    · exact ⟨rfl, rfl, rfl⟩
    · exact ⟨rfl, rfl, rfl⟩
  | respond msg rng =>
    obtain ⟨opks, frame⟩ := respond_frame identity msg rng
    rw [ownerStep, frame]
    exact ⟨rfl, rfl, rfl⟩
  | reload totpSecret =>
    rw [ownerStep, deserializeIdentity_serializeIdentity]
    exact ⟨rfl, rfl, rfl⟩

theorem owned_keys (identity : Identity) (events : List (OwnerEvent S)) :
    (owned identity events).ikSign = identity.ikSign ∧ (owned identity events).ikDh = identity.ikDh ∧
      (owned identity events).nostr = identity.nostr := by
  induction events generalizing identity with
  | nil => exact ⟨rfl, rfl, rfl⟩
  | cons event rest ih =>
    obtain ⟨sign, dh, nostr⟩ := ih (ownerStep identity event)
    obtain ⟨sign', dh', nostr'⟩ := ownerStep_keys identity event
    exact ⟨sign.trans sign', dh.trans dh', nostr.trans nostr'⟩

variable {created : Identity} {life : List (OwnerEvent S)} {calls : List (Identity × BuilderCall)}

theorem BuilderCall.run_long {call : BuilderCall} {admin : Identity} {r : GroupRoster} (returned : call.run admin = .ok r)
    (signs : call.isNoOp = false) : 64 < r.signingBytes.length :=
  (validateRoster_ok_iff.mp (call.run_signed returned signs).2).1.signingBytes_long

omit [Signatures] in
theorem length_identitySigningBytes (ikDhPub nostrPub : Bytes32) : (identitySigningBytes ikDhPub nostrPub).length = 64 := by
  simp [identitySigningBytes]

theorem OwnerSigned.of_prekey {spkPub : Bytes32} (signed : OwnerSigned created life calls spkPub.toList) :
    ∃ before after, life = before ++ after ∧ (owned created before).signedPrekey.keypair.pubBytes = spkPub := by
  generalize bytes : spkPub.toList = msg at signed
  have size : msg.length = 32 := by rw [← bytes, List.Vector.toList_length]
  cases signed with
  | @prekey before after split => exact ⟨before, after, split, ByteVec.toList_inj.mp bytes.symm⟩
  | binding split =>
    rw [length_identitySigningBytes] at size
    omega
  | roster made own signs returned =>
    have long := BuilderCall.run_long returned signs
    omega

theorem OwnerSigned.of_binding {ikDhPub nostrPub : Bytes32}
    (signed : OwnerSigned created life calls (identitySigningBytes ikDhPub nostrPub)) :
    ikDhPub = created.ikDh.pubBytes ∧ nostrPub = created.nostr.pubBytes := by
  generalize bytes : identitySigningBytes ikDhPub nostrPub = msg at signed
  have size : msg.length = 64 := by rw [← bytes, length_identitySigningBytes]
  cases signed with
  | prekey split =>
    rw [List.Vector.toList_length] at size
    omega
  | @binding before after split =>
    obtain ⟨_, dh, nostr⟩ := owned_keys created before
    rw [dh, nostr] at bytes
    obtain ⟨first, second⟩ := List.append_inj bytes (by simp)
    exact ⟨ByteVec.toList_inj.mp first, ByteVec.toList_inj.mp second⟩
  | roster made own signs returned =>
    have long := BuilderCall.run_long returned signs
    omega

theorem Publishable.retained_key {identity : Identity} (publishable : Publishable S identity) {id : UInt32}
    {spk : SignedPreKey} (retained : signedPrekeyById identity id = some spk) :
    ∃ privBytes, spk.keypair = generateX25519 S privBytes := by
  have issued : IssuedBy S identity.ikSign spk := by
    unfold signedPrekeyById at retained
    split at retained
    · obtain rfl := Option.some.inj retained
      exact publishable.issued _ List.mem_cons_self
    · exact publishable.issued _ (List.mem_cons_of_mem _ (List.mem_of_find?_eq_some retained))
  obtain ⟨_, _, privBytes, rfl⟩ := issued
  exact ⟨privBytes, rfl⟩

omit [Signatures] in
theorem respond_unknownSpk {bob : Identity} {msg : InitialMessage} (unknown : signedPrekeyById bob msg.spkId = none)
    (rng : X3dhRandom S) : (respond msg rng).exec bob = (.error (.unknownSpk msg.spkId), bob) := by
  unfold respond
  rw [Mut.exec_bind_ok (Mut.exec_get bob), unknown]
  rfl

/-- The owner of the identity key in the bundle answers with the initiator's secret exactly when the number
names the prekey that the initiator used. -/
theorem HandshakeKeys.answer (ideal : IdealDh S) {alice bob : Identity} {b : PublicBundle} {rng : X3dhRandom S}
    (keys : HandshakeKeys S alice b rng) {i : InitiatorResult S} (initiated : initiate alice b rng = .ok i)
    (own : bob.ikDh = generateX25519 S keys.bobPriv) {named : SignedPreKey}
    (retained : signedPrekeyById bob b.spkId = some named) (made : ∃ privBytes, named.keypair = generateX25519 S privBytes)
    (rng' : X3dhRandom S) :
    ∃ r, (respond i.message rng').exec bob = (.ok r, bob) ∧ r.associatedData = i.associatedData ∧
      (r.masterSecret = i.masterSecret ↔ named.keypair.pubBytes = x25519Pub S keys.spkPriv) := by
  obtain ⟨namedPriv, made⟩ := made
  have secret := keys.masterSecret_eq ideal.toCorrect initiated
  rw [initiate_exec alice rng (initiate_decodes initiated).1 keys.bob_eq keys.spk_eq] at initiated
  obtain rfl := Except.ok.inj initiated
  refine ⟨_, respond_exec rng' retained (decodeArray32_encode _) (decodeArray32_encode _) rfl, ?_, ?_⟩
  · rw [own]
    rfl
  · rw [secret, own, made, keys.alice_eq]
    simp only [generateX25519, x25519DeriveShared_honest ideal.toCorrect, products]
    constructor
    · intro same
      have third := (ideal.hkdf_inj same).1
      simp only [List.cons.injEq, and_true] at third
      have product : x25519 rng.ekPriv (x25519Pub S namedPriv) = x25519 (S := S) rng.ekPriv (x25519Pub S keys.spkPriv) :=
        (ideal.x25519_comm _ _).trans third.2.2
      exact ideal.x25519Pub_canonical (ideal.injective.x25519_inj (ideal.contributory _ _) product)
    · intro same
      rw [ideal.x25519_comm namedPriv keys.alicePriv, ideal.x25519_comm keys.bobPriv rng.ekPriv,
        ideal.x25519_comm namedPriv rng.ekPriv, same]

/-- The keys in a bundle that its owner's identity key signed, all of them, are the owner's. -/
theorem BundleUnforged.genuine {b : PublicBundle} (unforged : BundleUnforged created life calls b)
    (checked : verifyBundleBinding b = true) (owner : decodeArray32 b.ikSignPub = .ok created.ikSign.pubBytes) :
    decodeArray32 b.ikDhPub = .ok created.ikDh.pubBytes ∧ decodeArray32 b.nostrPub = .ok created.nostr.pubBytes ∧
      ∃ before after, life = before ++ after ∧
        decodeArray32 b.spkPub = .ok (owned created before).signedPrekey.keypair.pubBytes := by
  obtain ⟨verified, ikSignPub, ikDhPub, nostrPub, idSig, ik, dh, nostr, decodedSig, binding⟩ :=
    verifyBundleBinding_true_iff.mp checked
  obtain ⟨ikSignPub', spkPub, spkSig, ik', spk, decodedSpkSig, prekey⟩ := verifyBundle_true_iff.mp verified
  obtain rfl := Except.ok.inj (owner.symm.trans ik)
  obtain rfl := Except.ok.inj (owner.symm.trans ik')
  obtain ⟨rfl, rfl⟩ := (unforged.binding _ _ _ dh nostr decodedSig binding).of_binding
  obtain ⟨before, after, split, rfl⟩ := (unforged.prekey _ _ spk decodedSpkSig prekey).of_prekey
  exact ⟨dh, nostr, before, after, split, spk⟩

/-- Whoever wrote a roster that passes its checks: the keys it lists for an honest member are that member's
own, and the prekey is one that the member issued. A handshake with the listed member starts, its secret is
out of reach of whoever does not hold the private keys of these very keys, and the member answers it: with
the same secret when the number names that prekey, with another one when it names another prekey, and with
`UnknownSpk` when it names none. -/
theorem listed_member_contact (ideal : IdealDh S) {alice : Identity}
    (aliceKey : ∃ privBytes, alice.ikDh = generateX25519 S privBytes) {bobRng : IdentityRandom} {bobNow : Int64}
    (bobCreated : createIdentity S bobRng bobNow = some created) {r : GroupRoster} (valid : validateRoster r = .ok ())
    {m : MemberBundle} (listed : m ∈ r.members) (owner : decodeArray32 m.ikSignPub = .ok created.ikSign.pubBytes)
    (unforged : BundleUnforged created life calls m.toPublicBundle) (rng : X3dhRandom S) :
    ∃ i before after, ∃ keys : HandshakeKeys S alice m.toPublicBundle rng,
      initiate alice m.toPublicBundle rng = .ok i ∧ life = before ++ after ∧
      (decodeArray32 m.ikDhPub = .ok created.ikDh.pubBytes ∧ decodeArray32 m.nostrPub = .ok created.nostr.pubBytes ∧
        decodeArray32 m.spkPub = .ok (owned created before).signedPrekey.keypair.pubBytes) ∧
      (created.ikDh = generateX25519 S keys.bobPriv ∧
        (owned created before).signedPrekey.keypair = generateX25519 S keys.spkPriv) ∧
      (∀ holds known, ¬keys.Broken holds → (∀ product ∈ keys.products, ∀ key ∈ known, ¬DerivedFrom product key) →
        ¬Learns holds known i.masterSecret) ∧
      ∀ rng', (signedPrekeyById (owned created life) m.spkId = none →
          (respond i.message rng').exec (owned created life) = (.error (.unknownSpk m.spkId), owned created life)) ∧
        ∀ named, signedPrekeyById (owned created life) m.spkId = some named →
          ∃ answer, (respond i.message rng').exec (owned created life) = (.ok answer, owned created life) ∧
            answer.associatedData = i.associatedData ∧
            (answer.masterSecret = i.masterSecret ↔
              named.keypair.pubBytes = (owned created before).signedPrekey.keypair.pubBytes) := by
  have checked : verifyBundleBinding m.toPublicBundle = true := by
    have bound := (validateRoster_ok_iff.mp valid).1.bound m listed
    simp only [memberIsBound, Bool.and_eq_true] at bound
    exact bound.2
  have verified := (verifyBundleBinding_true_iff.mp checked).1
  obtain ⟨dh, nostr, before, after, split, spk⟩ := unforged.genuine checked owner
  obtain ⟨alicePriv, aliceKey⟩ := aliceKey
  obtain ⟨bobPriv, bobKey⟩ := (created_sound bobCreated).1.dhKey
  have publishable := created_publishable bobCreated
  obtain ⟨_, _, spkPriv, issued⟩ := (owned_publishable publishable before).issued _ List.mem_cons_self
  have prekey : (owned created before).signedPrekey.keypair = generateX25519 S spkPriv := by
    rw [issued]
    rfl
  have dhKey : decodeArray32 m.toPublicBundle.ikDhPub = .ok (x25519Pub S bobPriv) := by
    rw [dh, bobKey]
    rfl
  have spkKey : decodeArray32 m.toPublicBundle.spkPub = .ok (x25519Pub S spkPriv) := by
    rw [spk, prekey]
    rfl
  let keys : HandshakeKeys S alice m.toPublicBundle rng := ⟨alicePriv, bobPriv, spkPriv, aliceKey, dhKey, spkKey⟩
  obtain ⟨i, initiated⟩ := initiate_ok alice rng verified dh spk
  have own : (owned created life).ikDh = generateX25519 S keys.bobPriv := (owned_keys created life).2.1.trans bobKey
  have named_spk : i.message.spkId = m.spkId := by
    rw [initiate_exec alice rng verified dhKey spkKey] at initiated
    obtain rfl := Except.ok.inj initiated
    rfl
  refine ⟨i, before, after, keys, initiated, split, ⟨dh, nostr, spk⟩, ⟨bobKey, prekey⟩, ?_, fun rng' => ⟨?_, ?_⟩⟩
  · exact fun holds known whole apart => keys.unbroken_secret ideal whole apart initiated .self
  · intro unknown
    rw [← named_spk] at unknown ⊢
    exact respond_unknownSpk unknown rng'
  · intro named retained
    rw [prekey]
    exact keys.answer ideal initiated own retained ((owned_publishable publishable life).retained_key retained) rng'

end

theorem sampleMember_unforged (life : List (OwnerEvent PairKey)) (calls : List (Identity × BuilderCall)) :
    BundleUnforged sampleIdentity life calls sampleMember.toPublicBundle := by
  refine ⟨fun spkPub sig spk _ _ => ?_, fun ikDhPub nostrPub sig dh nostr _ _ => ?_⟩
  · obtain rfl := Except.ok.inj (spk.symm.trans (decodeArray32_encode sampleIdentity.signedPrekey.keypair.pubBytes))
    exact .prekey (List.nil_append life).symm
  · obtain rfl := Except.ok.inj (dh.symm.trans (decodeArray32_encode sampleIdentity.ikDh.pubBytes))
    obtain rfl := Except.ok.inj (nostr.symm.trans (decodeArray32_encode sampleIdentity.nostr.pubBytes))
    exact .binding (List.nil_append life).symm

/-- The listed prekey was rotated away from, and is still answered. -/
theorem listed_member_contact_sample :
    let life : List (OwnerEvent PairKey) := [.rotate ⟨spkRotationSecs, sampleBytes 32 15⟩]
    ∃ i answer, initiate pairAlice sampleMember.toPublicBundle pairX3dhRandom = .ok i ∧
      (respond i.message pairAnswerRandom).exec (owned sampleIdentity life) = (.ok answer, owned sampleIdentity life) ∧
      answer.associatedData = i.associatedData := by
  intro life
  have created : createIdentity PairKey sampleIdentityRandom 0 = some sampleIdentity := rfl
  have valid : validateRoster (sampleRoster "group" 0) = .ok () := (signUnsigned_ok sampleCreated).2
  have owner : decodeArray32 sampleMember.ikSignPub = .ok sampleIdentity.ikSign.pubBytes := decodeArray32_encode _
  have aliceKey : ∃ privBytes, pairAlice.ikDh = generateX25519 PairKey privBytes := ⟨_, rfl⟩
  obtain ⟨i, before, after, keys, initiated, split, _, _, _, answers⟩ := listed_member_contact pairKey_ideal aliceKey created
    valid (List.mem_singleton.mpr rfl) owner (sampleMember_unforged life []) pairX3dhRandom
  obtain ⟨answer, answered, ad, _⟩ := (answers pairAnswerRandom).2 sampleIdentity.signedPrekey rfl
  exact ⟨i, answer, initiated, answered, ad⟩

end TrinoCore
