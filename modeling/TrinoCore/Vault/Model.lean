import TrinoCore.Identity.Model
import TrinoCore.Totp.Model

/-!
The sealed vault of `vault.rs`. The salt and the nonce are drawn inside `seal_vault` and the clock is
read inside `unseal_vault`; all three are arguments here.
-/

namespace TrinoCore

def pbkdf2Iterations : UInt32 := 600000
def saltSize : Nat := 16
def vaultVersion : UInt8 := 1

inductive VaultError where
  | unsupportedVersion (version : UInt8)
  | corrupted
  | badMagic
  | decryptionFailed
  | invalidTotp
  | badPayload
  | crypto (error : CryptoError)
  | identity (error : IdentityError)
  deriving DecidableEq

structure SealedVault where
  version : UInt8
  salt : ByteVec saltSize
  nonce : Nonce
  ciphertext : Bytes
  deriving DecidableEq

structure SerializedKeyPair where
  privHex : String
  pubHex : String
  deriving DecidableEq

structure SerializedSignedPreKey where
  id : UInt32
  keypair : SerializedKeyPair
  signature : String
  createdAt : Int64
  /-- Only on retired keys, and absent in older vaults. -/
  retiredAt : Option Int64
  deriving DecidableEq

structure SerializedOneTimePreKey where
  id : UInt32
  keypair : SerializedKeyPair
  deriving DecidableEq

structure SerializedIdentity where
  ikSign : SerializedKeyPair
  ikDh : SerializedKeyPair
  nostr : SerializedKeyPair
  signedPreKey : SerializedSignedPreKey
  oneTimePreKeys : List SerializedOneTimePreKey
  totpSecret : String
  retiredSignedPreKeys : List SerializedSignedPreKey
  deriving DecidableEq

/-- serde's derived JSON encoding of the payload, with `serde_json`. -/
class VaultJson where
  toVec (payload : SerializedIdentity) : Option Bytes
  fromSlice (bytes : Bytes) : Option SerializedIdentity

export VaultJson (toVec fromSlice)

/-- Every payload can be written, and reads back as itself. -/
def JsonRoundTrips [VaultJson] : Prop :=
  ∀ payload, ∃ bytes, toVec payload = some bytes ∧ fromSlice bytes = some payload

def kpToSer (kp : KeyPair) : SerializedKeyPair :=
  ⟨Hex.encode kp.privBytes.toList, Hex.encode kp.pubBytes.toList⟩

def kpFromSer (s : SerializedKeyPair) : Except VaultError KeyPair := do
  let privBytes ← (decodeArray32 s.privHex).mapError .identity
  let pubBytes ← (decodeArray32 s.pubHex).mapError .identity
  return { privBytes, pubBytes }

def serializePrekey (spk : SignedPreKey) (retiredAt : Option Int64) : SerializedSignedPreKey :=
  { id := spk.id
    keypair := kpToSer spk.keypair
    signature := Hex.encode spk.signature.toList
    createdAt := spk.createdAt
    retiredAt }

def serializeIdentity (identity : Identity) (totpSecret : Bytes) : SerializedIdentity :=
  { ikSign := kpToSer identity.ikSign
    ikDh := kpToSer identity.ikDh
    nostr := kpToSer identity.nostr
    signedPreKey := serializePrekey identity.signedPrekey none
    oneTimePreKeys := identity.oneTimePrekeys.map fun o => ⟨o.id, kpToSer o.keypair⟩
    totpSecret := Hex.encode totpSecret
    retiredSignedPreKeys := identity.retiredSignedPrekeys.map fun r => serializePrekey r.prekey (some r.retiredAt) }

/-- `min_by_key` on the id: the first of the smallest. -/
def minById (keys : List SerializedSignedPreKey) : Option SerializedSignedPreKey :=
  keys.foldl (fun best next =>
    match best with
    | none => some next
    | some least => if next.id < least.id then some next else some least) none

/-- The creation time of the key with the next higher id, which is when rotation retired this one. -/
def legacyRetiredAt (id : UInt32) (retired : List SerializedSignedPreKey) (current : SerializedSignedPreKey) : Int64 :=
  match minById ((retired ++ [current]).filter fun next => next.id > id) with
  | none => current.createdAt
  | some next => next.createdAt

def deserializePrekey (s : SerializedSignedPreKey) : Except VaultError SignedPreKey := do
  let keypair ← kpFromSer s.keypair
  let signature ← (decodeArray64 s.signature).mapError .identity
  return { id := s.id, keypair, signature, createdAt := s.createdAt }

def deserializeIdentity (s : SerializedIdentity) : Except VaultError (Identity × Bytes) := do
  let ikSign ← kpFromSer s.ikSign
  let ikDh ← kpFromSer s.ikDh
  let nostr ← kpFromSer s.nostr
  let signedPrekey ← deserializePrekey s.signedPreKey
  let oneTimePrekeys ← s.oneTimePreKeys.mapM fun o => do
    let keypair ← kpFromSer o.keypair
    return ({ id := o.id, keypair } : OneTimePreKey)
  let retiredSignedPrekeys ← s.retiredSignedPreKeys.mapM fun r => do
    let prekey ← deserializePrekey r
    let retiredAt := r.retiredAt.getD (legacyRetiredAt r.id s.retiredSignedPreKeys s.signedPreKey)
    return ({ prekey, retiredAt } : RetiredSignedPreKey)
  let identity := { ikSign, ikDh, nostr, signedPrekey, oneTimePrekeys, retiredSignedPrekeys }
  match Hex.decode s.totpSecret with
  | none => throw .badPayload
  | some totpSecret => return (identity, totpSecret)

section
variable (S : Type) [Primitives S] [VaultJson]

def sealVault (identity : Identity) (totpSecret : Bytes) (passphrase : String) (salt : ByteVec saltSize)
    (nonce : Nonce) : Except VaultError SealedVault := do
  let key : S := pbkdf2 (utf8 passphrase) salt.toList pbkdf2Iterations.toNat
  let payload := serializeIdentity identity totpSecret
  match toVec payload with
  | none => throw .badPayload
  | some payloadBytes =>
    let (ciphertext, nonce) ← (aesGcmEncrypt key payloadBytes none nonce).mapError .crypto
    return { version := vaultVersion, salt, nonce, ciphertext }

def unsealVault [Hmac] (blob : SealedVault) (passphrase totpCodeInput : String) (now : Int64) :
    Except VaultError (Identity × Bytes) := do
  if blob.version ≠ vaultVersion then throw (.unsupportedVersion blob.version)
  let key : S := pbkdf2 (utf8 passphrase) blob.salt.toList pbkdf2Iterations.toNat
  let plaintext ← (aesGcmDecrypt key blob.ciphertext blob.nonce.toList none).mapError fun _ => .decryptionFailed
  match fromSlice plaintext with
  | none => throw .badPayload
  | some serialized =>
    let (identity, totpSecret) ← deserializeIdentity serialized
    if !isTotpCodeValid totpCodeInput totpSecret now then throw .invalidTotp
    return (identity, totpSecret)

end

theorem kpFromSer_kpToSer (kp : KeyPair) : kpFromSer (kpToSer kp) = .ok kp := by
  simp [kpFromSer, kpToSer, decodeArray32, Except.mapError]
  rfl

theorem deserializePrekey_serializePrekey (spk : SignedPreKey) (retiredAt : Option Int64) :
    deserializePrekey (serializePrekey spk retiredAt) = .ok spk := by
  simp [deserializePrekey, serializePrekey, kpFromSer_kpToSer, decodeArray64, Except.mapError]
  rfl

theorem mapM_map_ok {α β ε : Type} {f : α → β} {g : β → Except ε α} {l : List α}
    (inverse : ∀ a ∈ l, g (f a) = .ok a) : (l.map f).mapM g = .ok l := by
  induction l with
  | nil => rfl
  | cons a rest ih =>
    rw [List.map_cons, List.mapM_cons, inverse a List.mem_cons_self,
      ih (fun other present => inverse other (List.mem_cons_of_mem _ present))]
    rfl

theorem deserializeIdentity_ok {identity : Identity} {totpSecret : Bytes} {payload : SerializedIdentity}
    {write : RetiredSignedPreKey → SerializedSignedPreKey}
    (written : payload = { serializeIdentity identity totpSecret with
      retiredSignedPreKeys := identity.retiredSignedPrekeys.map write })
    (prekeys : ∀ r, deserializePrekey (write r) = .ok r.prekey)
    (times : ∀ r ∈ identity.retiredSignedPrekeys, (write r).retiredAt.getD
      (legacyRetiredAt (write r).id payload.retiredSignedPreKeys payload.signedPreKey) = r.retiredAt) :
    deserializeIdentity payload = .ok (identity, totpSecret) := by
  subst payload
  unfold deserializeIdentity serializeIdentity
  dsimp only
  rw [mapM_map_ok, mapM_map_ok, kpFromSer_kpToSer, kpFromSer_kpToSer, kpFromSer_kpToSer,
    deserializePrekey_serializePrekey, Hex.decode_encode]
  · rfl
  · intro retired present
    have time := times retired present
    unfold serializeIdentity at time
    dsimp only at time
    rw [prekeys retired, time]
    rfl
  · intro opk _
    rw [kpFromSer_kpToSer]
    rfl

theorem deserializeIdentity_serializeIdentity (identity : Identity) (totpSecret : Bytes) :
    deserializeIdentity (serializeIdentity identity totpSecret) = .ok (identity, totpSecret) :=
  deserializeIdentity_ok rfl (fun r => deserializePrekey_serializePrekey r.prekey (some r.retiredAt)) (fun _ _ => rfl)

/-- What opening a vault that was sealed with the same passphrase gives: the identity that was sealed,
or a refusal of the code. -/
theorem unsealVault_sealVault {S : Type} [Primitives S] [VaultJson] [Hmac]
    (opens : ∀ {key : S} {nonce : Nonce} {plaintext associatedData ciphertext : Bytes},
      aeadSeal key nonce plaintext associatedData = some ciphertext →
        aeadOpen key nonce ciphertext associatedData = some plaintext)
    (roundTrips : JsonRoundTrips) {identity : Identity} {totpSecret : Bytes} {passphrase : String}
    {salt : ByteVec saltSize} {nonce : Nonce} {blob : SealedVault}
    (saved : sealVault S identity totpSecret passphrase salt nonce = .ok blob) (code : String) (now : Int64) :
    unsealVault S blob passphrase code now =
      if isTotpCodeValid code totpSecret now then .ok (identity, totpSecret) else .error .invalidTotp := by
  obtain ⟨bytes, written, read⟩ := roundTrips (serializeIdentity identity totpSecret)
  rw [sealVault, written] at saved
  dsimp only at saved
  cases sealed : aeadSeal (pbkdf2 (S := S) (utf8 passphrase) salt.toList pbkdf2Iterations.toNat) nonce bytes [] with
  | none =>
    rw [aesGcmEncrypt, Option.getD_none, sealed] at saved
    cases saved
  | some ciphertext =>
    rw [aesGcmEncrypt, Option.getD_none, sealed] at saved
    obtain rfl := Except.ok.inj saved
    have opened := opens sealed
    unfold unsealVault aesGcmDecrypt
    dsimp only
    rw [ByteVec.ofBytes?_toList, Option.getD_none]
    dsimp only
    rw [opened]
    simp only [ne_eq, not_true_eq_false, ↓reduceIte, Except.mapError, bind, Except.bind, pure, Except.pure, read,
      deserializeIdentity_serializeIdentity]
    cases isTotpCodeValid code totpSecret now with
    | true => rfl
    | false => rfl

end TrinoCore
