import TrinoCore.Lib.Bytes

/-!
The primitives of `crypto.rs` and the X25519 half of `identity.rs`.

Keys that are hashed or used to encrypt (DH outputs, root, chain and message keys) live in a type
`S`; public and private DH keys are concrete 32-byte arrays because they are written to the wire.
The algorithms themselves are third-party code and stand here as the operations of `Primitives`.
-/

namespace TrinoCore

abbrev Bytes32 := ByteVec 32
abbrev Bytes64 := ByteVec 64
abbrev Nonce := ByteVec 12

inductive CryptoError where
  | invalidKeyLength (expected got : Nat)
  | invalidNonceLength (expected got : Nat)
  | aead
  | hkdf
  deriving DecidableEq, Repr

/-- The third-party algorithms. `hkdfBlock` is one 32-byte block of the HKDF output stream, and its
input keying material is given as 32-byte blocks; `aeadSeal` fails only on inputs past the limits of
AES-GCM; `x25519` is the plain Diffie-Hellman product and `wasContributory` its own check. -/
class Primitives (S : Type) where
  zeroSalt : S
  hkdfBlock (ikm : List S) (salt : S) (info : Bytes) (block : Nat) : S
  aeadSeal (key : S) (nonce : Nonce) (plaintext associatedData : Bytes) : Option Bytes
  aeadOpen (key : S) (nonce : Nonce) (ciphertext associatedData : Bytes) : Option Bytes
  x25519Pub (privBytes : Bytes32) : Bytes32
  x25519 (ourPriv peerPub : Bytes32) : S
  wasContributory (ourPriv peerPub : Bytes32) : Bool
  pbkdf2 (passphrase salt : Bytes) (iterations : Nat) : S

export Primitives (zeroSalt hkdfBlock aeadSeal aeadOpen x25519Pub x25519 wasContributory pbkdf2)

section Operations
variable {S : Type} [Primitives S]

/-- HKDF refuses more than 255 blocks of output. The length is counted in blocks of 32 bytes. -/
def hkdfExpand (ikm : List S) (salt : S) (info : Bytes) (blocks : Nat) : Except CryptoError (List S) :=
  if blocks ≤ 255 then .ok ((List.range blocks).map (hkdfBlock ikm salt info)) else .error .hkdf

/-- The nonce is drawn inside the call; the length check on the key is in its type. -/
def aesGcmEncrypt (key : S) (plaintext : Bytes) (associatedData : Option Bytes) (nonce : Nonce) :
    Except CryptoError (Bytes × Nonce) :=
  match aeadSeal key nonce plaintext (associatedData.getD []) with
  | some ciphertext => .ok (ciphertext, nonce)
  | none => .error .aead

def aesGcmDecrypt (key : S) (ciphertext nonce : Bytes) (associatedData : Option Bytes) :
    Except CryptoError Bytes :=
  match ByteVec.ofBytes? 12 nonce with
  | none => .error (.invalidNonceLength 12 nonce.length)
  | some nonce =>
    match aeadOpen key nonce ciphertext (associatedData.getD []) with
    | some plaintext => .ok plaintext
    | none => .error .aead

theorem aesGcmDecrypt_ok {key : S} {ciphertext nonce plaintext : Bytes} {associatedData : Option Bytes}
    (h : aesGcmDecrypt key ciphertext nonce associatedData = .ok plaintext) :
    ∃ exact : Nonce, nonce = exact.toList ∧
      aeadOpen key exact ciphertext (associatedData.getD []) = some plaintext := by
  unfold aesGcmDecrypt at h
  split at h
  · cases h
  · rename_i exact sized
    split at h
    · rename_i opened
      exact ⟨exact, ByteVec.ofBytes?_eq_some.mp sized, by rw [opened, Except.ok.inj h]⟩
    · cases h

structure KeyPair where
  privBytes : Bytes32
  pubBytes : Bytes32
  deriving DecidableEq

variable (S) in
def generateX25519 (privBytes : Bytes32) : KeyPair :=
  ⟨privBytes, x25519Pub S privBytes⟩

/-- A non-contributory peer key yields random bytes (`fallback`) instead of the shared secret. -/
def x25519DeriveShared (ourPriv peerPub : Bytes32) (fallback : S) : S :=
  if wasContributory S ourPriv peerPub then x25519 ourPriv peerPub else fallback

end Operations

/-- What honest executions rely on: X25519 commutes and honest keys are contributory, and AES-GCM
opens what it sealed. -/
structure Correct (S : Type) [Primitives S] : Prop where
  x25519_comm : ∀ a b : Bytes32, x25519 (S := S) a (x25519Pub S b) = x25519 b (x25519Pub S a)
  contributory : ∀ a b : Bytes32, wasContributory S a (x25519Pub S b) = true
  open_sealed : ∀ {key : S} {nonce : Nonce} {plaintext associatedData ciphertext : Bytes},
    aeadSeal key nonce plaintext associatedData = some ciphertext →
      aeadOpen key nonce ciphertext associatedData = some plaintext

/-- AES-GCM decryption inverts encryption. -/
def DecryptionInverts (S : Type) [Primitives S] : Prop :=
  ∀ {key : S} {nonce : Nonce} {plaintext associatedData ciphertext : Bytes},
    aeadSeal key nonce plaintext associatedData = some ciphertext →
      aeadOpen key nonce ciphertext associatedData = some plaintext

/-- AES-GCM takes this plaintext: its length is within the limits. -/
def Sealable (S : Type) [Primitives S] (plaintext associatedData : Bytes) : Prop :=
  ∀ (key : S) (nonce : Nonce), ∃ ciphertext, aeadSeal key nonce plaintext associatedData = some ciphertext

/-- The idealised primitives: HKDF outputs are free terms (no collisions, and no key is derived from
itself), and a ciphertext opens only under the key, nonce and associated data it was sealed with. -/
structure Ideal (S : Type) [Primitives S] : Prop extends Correct S where
  hkdf_inj : ∀ {ikm ikm' : List S} {salt salt' : S} {info info' : Bytes} {block block' : Nat},
    hkdfBlock ikm salt info block = hkdfBlock ikm' salt' info' block' →
      ikm = ikm' ∧ salt = salt' ∧ info = info' ∧ block = block'
  hkdf_grows : ∃ size : S → Nat, ∀ (ikm : List S) (salt : S) (info : Bytes) (block : Nat),
    size salt < size (hkdfBlock ikm salt info block) ∧ ∀ key ∈ ikm, size key < size (hkdfBlock ikm salt info block)
  sealed_of_open : ∀ {key : S} {nonce : Nonce} {plaintext associatedData ciphertext : Bytes},
    aeadOpen key nonce ciphertext associatedData = some plaintext →
      aeadSeal key nonce plaintext associatedData = some ciphertext
  seal_inj : ∀ {key key' : S} {nonce nonce' : Nonce} {plaintext plaintext' ad ad' ciphertext : Bytes},
    aeadSeal key nonce plaintext ad = some ciphertext →
      aeadSeal key' nonce' plaintext' ad' = some ciphertext →
      key = key' ∧ nonce = nonce' ∧ plaintext = plaintext' ∧ ad = ad'

theorem x25519DeriveShared_honest {S : Type} [Primitives S] (correct : Correct S)
    (a b : Bytes32) (fallback : S) :
    x25519DeriveShared a (x25519Pub S b) fallback = x25519 a (x25519Pub S b) := by
  unfold x25519DeriveShared
  rw [if_pos (correct.contributory a b)]

end TrinoCore
