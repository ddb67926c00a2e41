import TrinoCore.Crypto

/-! Identities, signed prekeys and public bundles, as in `identity.rs`. -/

namespace TrinoCore

/-- The signature schemes, which are third-party code. `nostrPub` fails on bytes that are no valid
secp256k1 scalar. -/
class Signatures where
  ed25519Pub (privBytes : Bytes32) : Bytes32
  ed25519SignBytes (privBytes : Bytes32) (msg : Bytes) : Bytes64
  ed25519Verify (pubBytes : Bytes32) (msg : Bytes) (signature : Bytes64) : Bool
  nostrPub (privBytes : Bytes32) : Option Bytes32

export Signatures (ed25519Pub ed25519SignBytes ed25519Verify nostrPub)

/-- Ed25519 verifies what the key itself signed. -/
def HonestSignatures [Signatures] : Prop :=
  ∀ (privBytes : Bytes32) (msg : Bytes), ed25519Verify (ed25519Pub privBytes) msg (ed25519SignBytes privBytes msg) = true

def opkCount : Nat := 50

inductive IdentityError where
  | invalidLength
  | invalidSignature
  | hexDecode
  | crypto (error : CryptoError)
  deriving DecidableEq

structure SignedPreKey where
  id : UInt32
  keypair : KeyPair
  signature : Bytes64
  createdAt : Int64
  deriving DecidableEq

structure RetiredSignedPreKey where
  prekey : SignedPreKey
  retiredAt : Int64
  deriving DecidableEq

structure OneTimePreKey where
  id : UInt32
  keypair : KeyPair
  deriving DecidableEq

structure Identity where
  ikSign : KeyPair
  ikDh : KeyPair
  nostr : KeyPair
  signedPrekey : SignedPreKey
  oneTimePrekeys : List OneTimePreKey
  retiredSignedPrekeys : List RetiredSignedPreKey
  deriving DecidableEq

def spkRotationSecs : Int64 := 2 * 24 * 60 * 60
/-- Thirty days, from the moment a prekey stops being current. -/
def spkRetentionSecs : Int64 := 30 * 24 * 60 * 60

structure PublicBundle where
  ikSignPub : String
  ikDhPub : String
  nostrPub : String
  spkId : UInt32
  spkPub : String
  spkSig : String
  opkId : Option UInt32
  opkPub : Option String
  idSig : String
  deriving DecidableEq

def decodeArray32 (s : String) : Except IdentityError Bytes32 :=
  match Hex.decode s with
  | none => .error .hexDecode
  | some v =>
    match ByteVec.ofBytes? 32 v with
    | none => .error .invalidLength
    | some arr => .ok arr

def decodeArray64 (s : String) : Except IdentityError Bytes64 :=
  match Hex.decode s with
  | none => .error .hexDecode
  | some v =>
    match ByteVec.ofBytes? 64 v with
    | none => .error .invalidLength
    | some arr => .ok arr

def identitySigningBytes (ikDhPub nostrPub : Bytes32) : Bytes := ikDhPub.toList ++ nostrPub.toList

section
variable [Signatures]

def generateEd25519 (privBytes : Bytes32) : KeyPair := ⟨privBytes, ed25519Pub privBytes⟩

/-- The loop draws until it finds a valid scalar; `none` when these draws do not end it. -/
def generateNostrKeypair (draws : List Bytes32) : Option KeyPair :=
  draws.findSome? fun privBytes => (nostrPub privBytes).map fun pubBytes => ⟨privBytes, pubBytes⟩

def ed25519Sign (kp : KeyPair) (msg : Bytes) : Bytes64 := ed25519SignBytes kp.privBytes msg

/-- The prekey signature must be by the identity key. -/
def verifyBundle (bundle : PublicBundle) : Bool :=
  match decodeArray32 bundle.ikSignPub, decodeArray32 bundle.spkPub, decodeArray64 bundle.spkSig with
  | .ok ikSignPub, .ok spkPub, .ok sig => ed25519Verify ikSignPub spkPub.toList sig
  | _, _, _ => false

/-- The stricter check: the DH and Nostr keys are signed as well. -/
def verifyBundleBinding (bundle : PublicBundle) : Bool :=
  if !verifyBundle bundle then false
  else
    match decodeArray32 bundle.ikSignPub, decodeArray32 bundle.ikDhPub, decodeArray32 bundle.nostrPub,
      decodeArray64 bundle.idSig with
    | .ok ikSignPub, .ok ikDhPub, .ok nostrPub, .ok idSig =>
      ed25519Verify ikSignPub (identitySigningBytes ikDhPub nostrPub) idSig
    | _, _, _, _ => false

def publicBundleFor (identity : Identity) : PublicBundle :=
  let idSig := ed25519Sign identity.ikSign
    (identitySigningBytes identity.ikDh.pubBytes identity.nostr.pubBytes)
  { ikSignPub := Hex.encode identity.ikSign.pubBytes.toList
    ikDhPub := Hex.encode identity.ikDh.pubBytes.toList
    nostrPub := Hex.encode identity.nostr.pubBytes.toList
    spkId := identity.signedPrekey.id
    spkPub := Hex.encode identity.signedPrekey.keypair.pubBytes.toList
    spkSig := Hex.encode identity.signedPrekey.signature.toList
    opkId := none
    opkPub := none
    idSig := Hex.encode idSig.toList }

end

def signedPrekeyById (identity : Identity) (spkId : UInt32) : Option SignedPreKey :=
  if identity.signedPrekey.id = spkId then some identity.signedPrekey
  else (identity.retiredSignedPrekeys.map (·.prekey)).find? (·.id = spkId)

def consumeOneTimePrekey (identity : Identity) (opkId : UInt32) : Option (OneTimePreKey × Identity) := do
  let idx ← identity.oneTimePrekeys.findIdx? (·.id = opkId)
  let opk ← identity.oneTimePrekeys[idx]?
  return (opk, { identity with oneTimePrekeys := identity.oneTimePrekeys.eraseIdx idx })

section
variable (S : Type) [Primitives S] [Signatures]

def signedPrekeyCreatedAt (ikSign : KeyPair) (id : UInt32) (createdAt : Int64) (privBytes : Bytes32) :
    SignedPreKey :=
  let keypair := generateX25519 S privBytes
  { id, keypair
    signature := ed25519Sign ikSign keypair.pubBytes.toList
    createdAt }

def createSignedPrekey (ikSign : KeyPair) (id : UInt32) (now : Int64) (privBytes : Bytes32) : SignedPreKey :=
  signedPrekeyCreatedAt S ikSign id now privBytes

omit [Signatures] in
def createOneTimePrekeys (startId : UInt32) (privs : List Bytes32) : List OneTimePreKey :=
  privs.mapIdx fun i privBytes => ⟨startId + UInt32.ofNat i, generateX25519 S privBytes⟩

/-- The private keys that `create_identity` draws. -/
structure IdentityRandom where
  signPriv : Bytes32
  dhPriv : Bytes32
  nostrDraws : List Bytes32
  spkPriv : Bytes32
  opkPrivs : List.Vector Bytes32 opkCount

def createIdentity (rng : IdentityRandom) (now : Int64) : Option Identity := do
  let ikSign := generateEd25519 rng.signPriv
  let ikDh := generateX25519 S rng.dhPriv
  let nostr ← generateNostrKeypair rng.nostrDraws
  let signedPrekey := createSignedPrekey S ikSign 1 now rng.spkPriv
  let oneTimePrekeys := createOneTimePrekeys S 1 rng.opkPrivs.toList
  return { ikSign, ikDh, nostr, signedPrekey, oneTimePrekeys, retiredSignedPrekeys := [] }

/-- Clock differences are `i64` and wrap. The flag says whether anything changed. -/
def rotateSignedPrekeyIfDue (identity : Identity) (now : Int64) (freshPriv : Bytes32) : Bool × Identity :=
  let (changed, identity) :=
    if now - identity.signedPrekey.createdAt ≥ spkRotationSecs then
      let newest := (identity.retiredSignedPrekeys.map (·.prekey.id)).max?.getD 0
      let nextId := (max identity.signedPrekey.id newest).saturatingAdd 1
      let fresh := signedPrekeyCreatedAt S identity.ikSign nextId now freshPriv
      (true,
        { identity with
          signedPrekey := fresh
          retiredSignedPrekeys := identity.retiredSignedPrekeys ++ [⟨identity.signedPrekey, now⟩] })
    else (false, identity)
  let kept := identity.retiredSignedPrekeys.filter fun spk => now - spk.retiredAt < spkRetentionSecs
  let changed := changed || kept.length ≠ identity.retiredSignedPrekeys.length
  (changed, { identity with retiredSignedPrekeys := kept })

end
end TrinoCore
