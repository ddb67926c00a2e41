import TrinoCore.Identity.Model
import TrinoCore.Lib.Mut

/-! The X3DH handshake of `x3dh.rs`. -/

namespace TrinoCore

def x3dhInfo : Bytes := utf8 "trino-x3dh-v1"

inductive X3dhError where
  | invalidBundle
  | unknownSpk (id : UInt32)
  | unknownOpk (id : UInt32)
  | identity (error : IdentityError)
  | crypto (error : CryptoError)
  deriving DecidableEq

structure InitialMessage where
  ikDhPub : String
  ekPub : String
  spkId : UInt32
  opkId : Option UInt32
  deriving DecidableEq

structure InitiatorResult (S : Type) where
  masterSecret : S
  message : InitialMessage
  associatedData : Bytes

structure ResponderResult (S : Type) where
  masterSecret : S
  associatedData : Bytes
  /-- The ratchet has to start from the prekey that the handshake names, which may be a retired one. -/
  spkKeypair : KeyPair

/-- What a call draws: the ephemeral key, and what replaces a DH output that is not contributory. -/
structure X3dhRandom (S : Type) where
  ekPriv : Bytes32
  fallback1 : S
  fallback2 : S
  fallback3 : S
  fallback4 : S

section
variable {S : Type} [Primitives S]

def deriveMaster (dhInputs : List S) : Except X3dhError S :=
  match hkdfExpand dhInputs zeroSalt x3dhInfo 1 with
  | .error e => .error (.crypto e)
  | .ok [masterSecret] => .ok masterSecret
  | .ok _ => .error (.crypto .hkdf) -- the output has the length asked for

/-- The one-time prekey of a bundle is never used. -/
def initiate [Signatures] (ours : Identity) (theirs : PublicBundle) (rng : X3dhRandom S) :
    Except X3dhError (InitiatorResult S) := do
  if !verifyBundle theirs then throw .invalidBundle
  let theirIkDhPub ← (decodeArray32 theirs.ikDhPub).mapError .identity
  let theirSpkPub ← (decodeArray32 theirs.spkPub).mapError .identity
  let ek := generateX25519 S rng.ekPriv
  let dh1 := x25519DeriveShared ours.ikDh.privBytes theirSpkPub rng.fallback1
  let dh2 := x25519DeriveShared ek.privBytes theirIkDhPub rng.fallback2
  let dh3 := x25519DeriveShared ek.privBytes theirSpkPub rng.fallback3
  let masterSecret ← deriveMaster [dh1, dh2, dh3]
  return {
    masterSecret
    message :=
      { ikDhPub := Hex.encode ours.ikDh.pubBytes.toList
        ekPub := Hex.encode ek.pubBytes.toList
        spkId := theirs.spkId
        opkId := none }
    associatedData := ours.ikDh.pubBytes.toList ++ theirIkDhPub.toList }

def respond (msg : InitialMessage) (rng : X3dhRandom S) : Mut Identity X3dhError (ResponderResult S) := do
  let ours ← get
  match signedPrekeyById ours msg.spkId with
  | none => throw (.unknownSpk msg.spkId)
  | some spk =>
    let spkKeypair := spk.keypair
    let spkPriv := spkKeypair.privBytes
    let theirIkDhPub ← Mut.lift .identity (decodeArray32 msg.ikDhPub)
    let theirEkPub ← Mut.lift .identity (decodeArray32 msg.ekPub)
    let dh1 := x25519DeriveShared spkPriv theirIkDhPub rng.fallback1
    let dh2 := x25519DeriveShared ours.ikDh.privBytes theirEkPub rng.fallback2
    let dh3 := x25519DeriveShared spkPriv theirEkPub rng.fallback3
    let dhInputs ← match msg.opkId with
      | none => pure [dh1, dh2, dh3]
      | some opkId =>
        match consumeOneTimePrekey ours opkId with
        | none => throw (.unknownOpk opkId)
        | some (opk, rest) => do
          set rest
          let dh4 := x25519DeriveShared opk.keypair.privBytes theirEkPub rng.fallback4
          pure [dh1, dh2, dh3, dh4]
    let masterSecret ← Mut.ofExcept (deriveMaster dhInputs)
    return {
      masterSecret
      associatedData := theirIkDhPub.toList ++ ours.ikDh.pubBytes.toList
      spkKeypair }

end
end TrinoCore
