import TrinoCore.Identity.Bundle
import TrinoCore.Symbolic
import TrinoCore.X3dh.Model

namespace TrinoCore

section
variable {S : Type} [Primitives S] [Signatures]

/-- What `initiate` should guarantee of a bundle: it goes on only with DH and Nostr keys that the
identity key has signed, and refuses every other bundle with a DH key in it as invalid. -/
def RequiresBinding (ours : Identity) (theirs : PublicBundle) (rng : X3dhRandom S) : Prop :=
  (∀ result, initiate ours theirs rng = .ok result → verifyBundleBinding theirs = true) ∧
    (verifyBundleBinding theirs = false → (∃ ikDhPub, decodeArray32 theirs.ikDhPub = .ok ikDhPub) →
      initiate ours theirs rng = .error .invalidBundle)

theorem initiate_unverified {theirs : PublicBundle} (bad : verifyBundle theirs = false) (ours : Identity)
    (rng : X3dhRandom S) : initiate ours theirs rng = .error .invalidBundle := by
  unfold initiate
  rw [bad]
  rfl

theorem initiate_verified {theirs : PublicBundle} (good : verifyBundle theirs = true) (ours : Identity)
    (rng : X3dhRandom S) : initiate ours theirs rng ≠ .error .invalidBundle := by
  intro refused
  unfold initiate at refused
  rw [good] at refused
  cases dh : decodeArray32 theirs.ikDhPub with
  | error e =>
    rw [dh] at refused
    cases refused
  | ok theirIkDhPub =>
    cases spk : decodeArray32 theirs.spkPub with
    | error e =>
      rw [dh, spk] at refused
      cases refused
    | ok theirSpkPub =>
      rw [dh, spk] at refused
      cases refused

theorem initiate_undecoded {theirs : PublicBundle} {e : IdentityError} (undecoded : decodeArray32 theirs.ikDhPub = .error e)
    (ours : Identity) (rng : X3dhRandom S) (result : InitiatorResult S) : initiate ours theirs rng ≠ .ok result := by
  intro accepted
  unfold initiate at accepted
  rw [undecoded] at accepted
  cases verified : verifyBundle theirs with
  | false =>
    rw [verified] at accepted
    cases accepted
  | true =>
    rw [verified] at accepted
    cases accepted

/-- The binding is enforced exactly on the bundles that fail the prekey check anyway, on those without a DH key
that decodes, and on those that carry it. -/
theorem initiate_requires_binding_iff (ours : Identity) (theirs : PublicBundle) (rng : X3dhRandom S) :
    RequiresBinding ours theirs rng ↔
      verifyBundle theirs = false ∨ (∃ e, decodeArray32 theirs.ikDhPub = .error e) ∨ verifyBundleBinding theirs = true := by
  constructor
  · intro required
    by_contra neither
    rw [not_or, not_or, Bool.not_eq_false, Bool.not_eq_true] at neither
    obtain ⟨good, decodes, unbound⟩ := neither
    cases dh : decodeArray32 theirs.ikDhPub with
    | error e => exact decodes ⟨e, dh⟩
    | ok ikDhPub => exact initiate_verified good ours rng (required.2 unbound ⟨ikDhPub, dh⟩)
  · rintro (bad | ⟨e, undecoded⟩ | bound)
    · refine ⟨fun result accepted => ?_, fun _ _ => initiate_unverified bad ours rng⟩
      rw [initiate_unverified bad] at accepted
      cases accepted
    · refine ⟨fun result accepted => (initiate_undecoded undecoded ours rng result accepted).elim, ?_⟩
      rintro _ ⟨ikDhPub, decoded⟩
      cases undecoded.symm.trans decoded
    · refine ⟨fun _ _ => bound, fun unbound => ?_⟩
      rw [bound] at unbound
      cases unbound

end

/-- A bundle of an honest peer whose binding was cut off, as a man in the middle can. -/
def sampleUnbound : PublicBundle :=
  { ikSignPub := Hex.encode (ed25519Pub (sampleBytes 32 10)).toList
    ikDhPub := Hex.encode (x25519Pub FreeKey (sampleBytes 32 66)).toList
    nostrPub := Hex.encode (sampleBytes 32 12).toList
    spkId := 1
    spkPub := Hex.encode (x25519Pub FreeKey (sampleBytes 32 13)).toList
    spkSig := Hex.encode (ed25519SignBytes (sampleBytes 32 10) (x25519Pub FreeKey (sampleBytes 32 13)).toList).toList
    opkId := none
    opkPub := none
    idSig := "" }

def sampleX3dhRandom : X3dhRandom FreeKey :=
  ⟨sampleBytes 32 20, sampleMaster, sampleMaster, sampleMaster, sampleMaster⟩

theorem sampleUnbound_verified : verifyBundle sampleUnbound = true := by
  have ik : decodeArray32 sampleUnbound.ikSignPub = .ok (ed25519Pub (sampleBytes 32 10)) :=
    decodeArray32_encode (ed25519Pub (sampleBytes 32 10))
  have spk : decodeArray32 sampleUnbound.spkPub = .ok (x25519Pub FreeKey (sampleBytes 32 13)) :=
    decodeArray32_encode (x25519Pub FreeKey (sampleBytes 32 13))
  have signature : decodeArray64 sampleUnbound.spkSig =
      .ok (ed25519SignBytes (sampleBytes 32 10) (x25519Pub FreeKey (sampleBytes 32 13)).toList) :=
    decodeArray64_encode (ed25519SignBytes (sampleBytes 32 10) (x25519Pub FreeKey (sampleBytes 32 13)).toList)
  rw [verifyBundle_eq ik spk signature]
  exact freeSignatures_honest (sampleBytes 32 10) (x25519Pub FreeKey (sampleBytes 32 13)).toList

theorem sampleUnbound_unbound : verifyBundleBinding sampleUnbound = false := by
  have missing : decodeArray64 sampleUnbound.idSig = .error .invalidLength := by decide
  unfold verifyBundleBinding
  rw [sampleUnbound_verified, missing]
  simp only [Bool.not_true, Bool.false_eq_true, ↓reduceIte]
  split
  · rename_i absurd
    cases absurd
  · rfl

theorem initiate_accepts_unbound :
    (∃ result, initiate sampleIdentity sampleUnbound sampleX3dhRandom = .ok result) ∧
      verifyBundleBinding sampleUnbound = false ∧
      ¬RequiresBinding sampleIdentity sampleUnbound sampleX3dhRandom := by
  have accepted : ∃ result, initiate sampleIdentity sampleUnbound sampleX3dhRandom = .ok result := by
    have dh : decodeArray32 sampleUnbound.ikDhPub = .ok (x25519Pub FreeKey (sampleBytes 32 66)) :=
      decodeArray32_encode (x25519Pub FreeKey (sampleBytes 32 66))
    have spk : decodeArray32 sampleUnbound.spkPub = .ok (x25519Pub FreeKey (sampleBytes 32 13)) :=
      decodeArray32_encode (x25519Pub FreeKey (sampleBytes 32 13))
    unfold initiate
    rw [sampleUnbound_verified, dh, spk]
    exact ⟨_, rfl⟩
  refine ⟨accepted, sampleUnbound_unbound, fun required => ?_⟩
  obtain ⟨result, accepted⟩ := accepted
  have bound := required.1 result accepted
  rw [sampleUnbound_unbound] at bound
  cases bound

end TrinoCore
