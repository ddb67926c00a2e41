import TrinoCore.Group.Building
import TrinoCore.Symbolic
import TrinoCore.X3dh.Life

namespace TrinoCore

/-- What happens to an identity on its owner's device: it is saved and loaded as it is. -/
inductive OwnerEvent (S : Type) where
  | rotate (call : RotateCall)
  | respond (msg : InitialMessage) (rng : X3dhRandom S)
  | reload (totpSecret : Bytes)

section
variable {S : Type} [Primitives S] [Signatures]

def ownerStep (identity : Identity) : OwnerEvent S → Identity
  | .rotate call => rotateCall S identity call
  | .respond msg rng => ((respond msg rng).exec identity).2
  | .reload totpSecret =>
    match deserializeIdentity (serializeIdentity identity totpSecret) with
    | .ok (restored, _) => restored
    | .error _ => identity

def owned (identity : Identity) (events : List (OwnerEvent S)) : Identity := events.foldl ownerStep identity

variable (S) in
/-- The identity key is a generated one, and it issued every prekey. -/
structure Publishable (identity : Identity) : Prop where
  signKey : ∃ privBytes, identity.ikSign = generateEd25519 privBytes
  issued : ∀ spk ∈ identity.signedPrekey :: identity.retiredSignedPrekeys.map (·.prekey), IssuedBy S identity.ikSign spk

theorem created_publishable {rng : IdentityRandom} {now : Int64} {identity : Identity}
    (created : createIdentity S rng now = some identity) : Publishable S identity := by
  have sound := (created_sound created).1
  refine ⟨sound.signKey, ?_⟩
  rw [(created_unretired created).1]
  intro spk present
  rw [List.mem_singleton.mp present]
  exact sound.current

theorem Publishable.rotate {identity : Identity} (publishable : Publishable S identity) (call : RotateCall) :
    Publishable S (rotateCall S identity call) := by
  have sign := (rotateCall_keys (S := S) identity call).1
  refine ⟨?_, ?_⟩
  · rw [sign]
    exact publishable.signKey
  · intro spk present
    rw [sign]
    rcases List.mem_cons.mp present with rfl | retired
    · rw [rotateCall_current, rotated]
      split
      · exact ⟨_, _, _, rfl⟩
      · exact publishable.issued _ List.mem_cons_self
    · obtain ⟨entry, listed, rfl⟩ := List.mem_map.mp retired
      rcases (mem_rotateCall.mp listed).1 with old | ⟨_, rfl⟩
      · exact publishable.issued _ (List.mem_cons_of_mem _ (List.mem_map_of_mem old))
      · exact publishable.issued _ List.mem_cons_self

theorem ownerStep_publishable {identity : Identity} (publishable : Publishable S identity) (event : OwnerEvent S) :
    Publishable S (ownerStep identity event) := by
  cases event with
  | rotate call => exact publishable.rotate call
  | respond msg rng =>
    obtain ⟨opks, frame⟩ := respond_frame identity msg rng
    rw [ownerStep, frame]
    exact ⟨publishable.signKey, publishable.issued⟩
  | reload totpSecret =>
    rw [ownerStep, deserializeIdentity_serializeIdentity]
    exact publishable

theorem owned_publishable {identity : Identity} (publishable : Publishable S identity) (events : List (OwnerEvent S)) :
    Publishable S (owned identity events) := by
  induction events generalizing identity with
  | nil => exact publishable
  | cons event rest ih => exact ih (ownerStep_publishable publishable event)

theorem IssuedBy.verifies (honest : HonestSignatures) {ikSign : KeyPair}
    (sign : ∃ privBytes, ikSign = generateEd25519 privBytes) {spk : SignedPreKey} (issued : IssuedBy S ikSign spk) :
    ed25519Verify ikSign.pubBytes spk.keypair.pubBytes.toList spk.signature = true := by
  obtain ⟨signPriv, rfl⟩ := sign
  rw [issued.signature]
  exact honest signPriv spk.keypair.pubBytes.toList

theorem initiate_ok (ours : Identity) {theirs : PublicBundle} (rng : X3dhRandom S) (verified : verifyBundle theirs = true)
    {ikDhPub spkPub : Bytes32} (dh : decodeArray32 theirs.ikDhPub = .ok ikDhPub)
    (spk : decodeArray32 theirs.spkPub = .ok spkPub) : ∃ result, initiate ours theirs rng = .ok result := by
  unfold initiate
  rw [verified, dh, spk]
  exact ⟨_, rfl⟩

/-- After any life of rotations, handshakes and reloads, the published bundle is accepted by the two
bundle checks, by whoever starts a handshake with it and in a roster, and every prekey still held is
signed by the identity key. -/
theorem published_bundles_accepted (honest : HonestSignatures) {rng : IdentityRandom} {createdAt : Int64}
    {identity : Identity} (created : createIdentity S rng createdAt = some identity) (events : List (OwnerEvent S)) :
    let current := owned identity events
    let bundle := publicBundleFor current
    verifyBundle bundle = true ∧ verifyBundleBinding bundle = true ∧
      (∀ (ours : Identity) (draws : X3dhRandom S), ∃ result, initiate ours bundle draws = .ok result) ∧
      (∀ handle, memberIsBound (.fromPublicBundle handle bundle) = true ∧
        ([current.ikSign.pubBytes, current.ikDh.pubBytes, current.nostr.pubBytes].Nodup →
          ∀ name seed, ∃ roster, createGroup current (.fromPublicBundle handle bundle) name seed = .ok roster)) ∧
      ∀ spk ∈ current.signedPrekey :: current.retiredSignedPrekeys.map (·.prekey),
        ed25519Verify current.ikSign.pubBytes spk.keypair.pubBytes.toList spk.signature = true := by
  intro current bundle
  obtain ⟨sign, issued⟩ : Publishable S current := owned_publishable (created_publishable created) events
  have signed := (issued _ List.mem_cons_self).signature
  have verified : verifyBundle bundle = true := publicBundleFor_verified honest sign signed none none
  refine ⟨verified, publicBundleFor_bound honest sign signed, ?_, ?_, ?_⟩
  · intro ours draws
    exact initiate_ok ours draws verified (decodeArray32_encode current.ikDh.pubBytes)
      (decodeArray32_encode current.signedPrekey.keypair.pubBytes)
  · intro handle
    refine ⟨ownBundle_bound honest handle sign signed, ?_⟩
    intro distinct name seed
    exact ⟨_, createGroup_solo honest ⟨sign, signed, distinct⟩ handle name seed⟩
  · intro spk present
    exact (issued spk present).verifies honest sign

end

theorem published_bundles_accepted_sample :
    let events : List (OwnerEvent FreeKey) := [.rotate ⟨spkRotationSecs, sampleBytes 32 15⟩, .reload [1, 2, 3]]
    verifyBundle (publicBundleFor (owned sampleIdentity events)) = true := by
  intro events
  exact (published_bundles_accepted freeSignatures_honest sampleIdentity_created events).1

end TrinoCore
