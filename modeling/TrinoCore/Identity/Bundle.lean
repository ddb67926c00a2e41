import TrinoCore.Identity.Model

namespace TrinoCore

theorem decodeArray32_encode (v : Bytes32) : decodeArray32 (Hex.encode v.toList) = .ok v := by
  simp [decodeArray32]

theorem decodeArray64_encode (v : Bytes64) : decodeArray64 (Hex.encode v.toList) = .ok v := by
  simp [decodeArray64]

section
variable [Signatures]

theorem verifyBundle_eq {bundle : PublicBundle} {ikSignPub spkPub : Bytes32} {sig : Bytes64}
    (ik : decodeArray32 bundle.ikSignPub = .ok ikSignPub) (spk : decodeArray32 bundle.spkPub = .ok spkPub)
    (signature : decodeArray64 bundle.spkSig = .ok sig) :
    verifyBundle bundle = ed25519Verify ikSignPub spkPub.toList sig := by
  unfold verifyBundle
  rw [ik, spk, signature]

theorem verifyBundleBinding_eq {bundle : PublicBundle} {ikSignPub ikDhPub nostrPub : Bytes32} {sig : Bytes64}
    (verified : verifyBundle bundle = true) (ik : decodeArray32 bundle.ikSignPub = .ok ikSignPub)
    (dh : decodeArray32 bundle.ikDhPub = .ok ikDhPub) (nostr : decodeArray32 bundle.nostrPub = .ok nostrPub)
    (signature : decodeArray64 bundle.idSig = .ok sig) :
    verifyBundleBinding bundle = ed25519Verify ikSignPub (identitySigningBytes ikDhPub nostrPub) sig := by
  unfold verifyBundleBinding
  rw [verified, ik, dh, nostr, signature]
  rfl

variable {identity : Identity}

theorem publicBundleFor_verified (honest : HonestSignatures)
    (sign : ∃ privBytes, identity.ikSign = generateEd25519 privBytes)
    (signed : identity.signedPrekey.signature =
      ed25519Sign identity.ikSign identity.signedPrekey.keypair.pubBytes.toList)
    (opkId : Option UInt32) (opkPub : Option String) :
    verifyBundle { publicBundleFor identity with opkId, opkPub } = true := by
  obtain ⟨signPriv, sign⟩ := sign
  generalize published : ({ publicBundleFor identity with opkId, opkPub } : PublicBundle) = b
  have ik : decodeArray32 b.ikSignPub = .ok identity.ikSign.pubBytes := by
    rw [← published]
    exact decodeArray32_encode identity.ikSign.pubBytes
  have spk : decodeArray32 b.spkPub = .ok identity.signedPrekey.keypair.pubBytes := by
    rw [← published]
    exact decodeArray32_encode identity.signedPrekey.keypair.pubBytes
  have signature : decodeArray64 b.spkSig = .ok identity.signedPrekey.signature := by
    rw [← published]
    exact decodeArray64_encode identity.signedPrekey.signature
  rw [verifyBundle_eq ik spk signature, signed, sign]
  exact honest signPriv identity.signedPrekey.keypair.pubBytes.toList

theorem publicBundleFor_bound (honest : HonestSignatures)
    (sign : ∃ privBytes, identity.ikSign = generateEd25519 privBytes)
    (signed : identity.signedPrekey.signature =
      ed25519Sign identity.ikSign identity.signedPrekey.keypair.pubBytes.toList) :
    verifyBundleBinding (publicBundleFor identity) = true := by
  have verified : verifyBundle (publicBundleFor identity) = true :=
    publicBundleFor_verified honest sign signed none none
  obtain ⟨signPriv, sign⟩ := sign
  have ik : decodeArray32 (publicBundleFor identity).ikSignPub = .ok identity.ikSign.pubBytes :=
    decodeArray32_encode identity.ikSign.pubBytes
  have dh : decodeArray32 (publicBundleFor identity).ikDhPub = .ok identity.ikDh.pubBytes :=
    decodeArray32_encode identity.ikDh.pubBytes
  have nostr : decodeArray32 (publicBundleFor identity).nostrPub = .ok identity.nostr.pubBytes :=
    decodeArray32_encode identity.nostr.pubBytes
  have signature : decodeArray64 (publicBundleFor identity).idSig = .ok (ed25519Sign identity.ikSign
      (identitySigningBytes identity.ikDh.pubBytes identity.nostr.pubBytes)) :=
    decodeArray64_encode (ed25519Sign identity.ikSign
      (identitySigningBytes identity.ikDh.pubBytes identity.nostr.pubBytes))
  rw [verifyBundleBinding_eq verified ik dh nostr signature, sign]
  exact honest signPriv (identitySigningBytes identity.ikDh.pubBytes identity.nostr.pubBytes)

end
end TrinoCore
