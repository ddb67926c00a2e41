import Mathlib.Data.Finmap
import Mathlib.Data.Finset.Sort
import Mathlib.Data.String.Basic
import TrinoCore.Crypto
import TrinoCore.Lib.Mut

/-! The Double Ratchet of `ratchet.rs`. Values drawn from the random generator are arguments. -/

namespace TrinoCore

def kdfRkInfo : Bytes := utf8 "trino-ratchet-rk-v1"
def kdfCkInfoChain : Bytes := utf8 "trino-ratchet-ck-chain-v1"
def kdfCkInfoMsg : Bytes := utf8 "trino-ratchet-ck-msg-v1"

/-- Max messages skipped in one chain before refusing. -/
def maxSkip : UInt32 := 1000
def maxRetiredDhKeys : Nat := 8
/-- Ceiling on banked out-of-order keys across all chains. -/
@[irreducible] def maxSkippedKeys : Nat := 2000

inductive RatchetError where
  | noSendingChain
  | noReceivingChain
  | outOfOrder (expected got : UInt32)
  | tooManySkipped (limit : UInt32)
  | replay (n : UInt32)
  | crypto (error : CryptoError)
  deriving DecidableEq

structure RatchetState (S : Type) where
  rootKey : S
  dhs : KeyPair
  dhr : Option Bytes32
  sendingChainKey : Option S
  receivingChainKey : Option S
  sendingMsgNumber : UInt32
  receivingMsgNumber : UInt32
  previousSendingChainLength : UInt32
  /-- Derived but unused message keys, under `dhPubHex:n`. -/
  skippedKeys : Finmap (fun _ : String => S)
  /-- Insertion order over `skippedKeys`. -/
  skippedKeyOrder : List String
  retiredPeerDhKeys : List Bytes32

structure MessageHeader where
  dhPub : String
  pn : UInt32
  n : UInt32
  deriving DecidableEq

structure EncryptedMessage where
  header : MessageHeader
  nonce : String
  ciphertext : String
  deriving DecidableEq

/-- What one DH ratchet step draws: the new private key, and the bytes that replace a shared secret
with a non-contributory peer key. -/
structure StepRandom (S : Type) where
  freshPriv : Bytes32
  recvFallback : S
  sendFallback : S

def concat (parts : List Bytes) : Bytes := parts.flatten

def decode32 (s : String) : Except RatchetError Bytes32 :=
  match Hex.decode s with
  | none => .error (.crypto (.invalidKeyLength 32 0))
  | some v =>
    match ByteVec.ofBytes? 32 v with
    | none => .error (.crypto (.invalidKeyLength 32 v.length))
    | some arr => .ok arr

def decodeHex (s : String) : Except RatchetError Bytes :=
  match Hex.decode s with
  | none => .error (.crypto .aead)
  | some v => .ok v

def encodeHeader (h : MessageHeader) : Except RatchetError Bytes := do
  let dhBytes ← decode32 h.dhPub
  return dhBytes.toList ++ h.pn.toBeBytes ++ h.n.toBeBytes

def skippedKeyId (dhPub : Bytes32) (n : UInt32) : String :=
  Hex.encode dhPub.toList ++ (":" ++ Nat.repr n.toNat)

variable {S : Type}

def initResponder (masterSecret : S) (ourSpkKeypair : KeyPair) : RatchetState S :=
  { rootKey := masterSecret
    dhs := ourSpkKeypair
    dhr := none
    sendingChainKey := none
    receivingChainKey := none
    sendingMsgNumber := 0
    receivingMsgNumber := 0
    previousSendingChainLength := 0
    skippedKeys := ∅
    skippedKeyOrder := []
    retiredPeerDhKeys := [] }

/-- The `while` loop of eviction: it stops at the cap, or when the order list runs out. -/
def evictLoop (keys : Finmap (fun _ : String => S)) :
    List String → Finmap (fun _ : String => S) × List String
  | [] => (keys, [])
  | oldest :: rest =>
    if keys.keys.card > maxSkippedKeys then evictLoop (keys.erase oldest) rest
    else (keys, oldest :: rest)

abbrev sortedIds (ids : Finset String) : List String := ids.sort

/-- Keys without an order entry, sorted, go ahead of everything that has one. -/
def adoptUnorderedSkippedKeys (state : RatchetState S) : RatchetState S :=
  if state.skippedKeyOrder.length = state.skippedKeys.keys.card then state
  else
    let adopted := sortedIds (state.skippedKeys.keys.filter (· ∉ state.skippedKeyOrder))
    { state with skippedKeyOrder := adopted ++ state.skippedKeyOrder }

def evictOldestSkippedKeys (state : RatchetState S) : RatchetState S :=
  if state.skippedKeys.keys.card ≤ maxSkippedKeys then state
  else
    let adopted := adoptUnorderedSkippedKeys state
    let (keys, order) := evictLoop adopted.skippedKeys adopted.skippedKeyOrder
    { adopted with skippedKeys := keys, skippedKeyOrder := order }

/-- Bank a derived but unused message key. A key that replaces another keeps its place. -/
def bankSkippedKey (state : RatchetState S) (keyId : String) (mk : S) : RatchetState S :=
  let inserted := { state with skippedKeys := state.skippedKeys.insert keyId mk }
  evictOldestSkippedKeys
    (match state.skippedKeys.lookup keyId with
      | some _ => inserted
      | none => { inserted with skippedKeyOrder := inserted.skippedKeyOrder ++ [keyId] })

/-- The bookkeeping of `dh_ratchet_step`: the peer key it replaces joins the retired ones. -/
def retirePeerKey (state : RatchetState S) (peerDhPub : Bytes32) : List Bytes32 :=
  match state.dhr with
  | none => state.retiredPeerDhKeys
  | some previous =>
    if previous ≠ peerDhPub ∧ previous ∉ state.retiredPeerDhKeys then
      let retired := state.retiredPeerDhKeys ++ [previous]
      if retired.length > maxRetiredDhKeys then retired.drop 1 else retired
    else state.retiredPeerDhKeys

section
variable [Primitives S]

def kdfRk (rk dhOut : S) : Except CryptoError (S × S) := do
  let okm ← hkdfExpand [dhOut] rk kdfRkInfo 2
  match okm with
  | [newRk, ck] => return (newRk, ck)
  | _ => throw .hkdf -- the output has the length asked for

def kdfCk (ck : S) : Except CryptoError (S × S) := do
  let nextCk ← hkdfExpand [ck] zeroSalt kdfCkInfoChain 1
  let mk ← hkdfExpand [ck] zeroSalt kdfCkInfoMsg 1
  match nextCk, mk with
  | [a], [b] => return (a, b)
  | _, _ => throw .hkdf

def initInitiator (masterSecret : S) (theirSpkPub : Bytes32) (rng : StepRandom S) :
    Except RatchetError (RatchetState S) :=
  let dhs := generateX25519 S rng.freshPriv
  let dhOut := x25519DeriveShared dhs.privBytes theirSpkPub rng.sendFallback
  match kdfRk masterSecret dhOut with
  | .error e => .error (.crypto e)
  | .ok (rootKey, chainKey) => .ok
    { rootKey, dhs
      dhr := some theirSpkPub
      sendingChainKey := some chainKey
      receivingChainKey := none
      sendingMsgNumber := 0
      receivingMsgNumber := 0
      previousSendingChainLength := 0
      skippedKeys := ∅
      skippedKeyOrder := []
      retiredPeerDhKeys := [] }

/-- The chain advances before anything can fail, so a call that fails to encrypt still uses up
its number. Counters are `u32` and wrap. -/
def ratchetEncrypt (plaintext associatedData : Bytes) (nonce : Nonce) :
    Mut (RatchetState S) RatchetError EncryptedMessage := do
  let state ← get
  match state.sendingChainKey with
  | none => throw .noSendingChain
  | some sendingCk =>
    let (nextCk, messageKey) ← Mut.lift .crypto (kdfCk sendingCk)
    modify fun s => { s with sendingChainKey := some nextCk }
    let header : MessageHeader :=
      { dhPub := Hex.encode state.dhs.pubBytes.toList
        pn := state.previousSendingChainLength
        n := state.sendingMsgNumber }
    modify fun s => { s with sendingMsgNumber := s.sendingMsgNumber + 1 }
    let headerBytes ← Mut.ofExcept (encodeHeader header)
    let ad := concat [associatedData, headerBytes]
    let (ciphertext, nonce) ← Mut.lift .crypto (aesGcmEncrypt messageKey plaintext (some ad) nonce)
    return { header, nonce := Hex.encode nonce.toList, ciphertext := Hex.encode ciphertext }

def trySkippedMessageKey (msg : EncryptedMessage) (headerDh : Bytes32) (associatedData : Bytes) :
    Mut (RatchetState S) RatchetError (Option Bytes) := do
  let keyId := skippedKeyId headerDh msg.header.n
  let state ← get
  match state.skippedKeys.lookup keyId with
  | none => return none
  | some mk =>
    let headerBytes ← Mut.ofExcept (encodeHeader msg.header)
    let ad := concat [associatedData, headerBytes]
    let ciphertext ← Mut.ofExcept (decodeHex msg.ciphertext)
    let nonce ← Mut.ofExcept (decodeHex msg.nonce)
    let pt ← Mut.lift .crypto (aesGcmDecrypt mk ciphertext nonce (some ad))
    modify fun s => { s with skippedKeys := s.skippedKeys.erase keyId }
    modify fun s => { s with skippedKeyOrder := s.skippedKeyOrder.filter (· ≠ keyId) }
    return some pt

/-- The `while` loop of `skip_message_keys`, which runs at most `fuel` times. -/
def skipLoop (dhr : Bytes32) (until_ : UInt32) : Nat → S → Mut (RatchetState S) RatchetError S
  | 0, ck => pure ck
  | fuel + 1, ck => do
    let state ← get
    if state.receivingMsgNumber < until_ then
      let (nextCk, mk) ← Mut.lift .crypto (kdfCk ck)
      modify fun s => bankSkippedKey s (skippedKeyId dhr state.receivingMsgNumber) mk
      modify fun s => { s with receivingMsgNumber := s.receivingMsgNumber + 1 }
      skipLoop dhr until_ fuel nextCk
    else return ck

def skipMessageKeys (until_ : UInt32) : Mut (RatchetState S) RatchetError Unit := do
  let state ← get
  match state.receivingChainKey with
  | none => return ()
  | some recvCk =>
    if state.receivingMsgNumber.saturatingAdd maxSkip < until_ then throw (.tooManySkipped maxSkip)
    match state.dhr with
    | none => return ()
    | some dhr =>
      let ck ← skipLoop dhr until_ (until_.toNat - state.receivingMsgNumber.toNat) recvCk
      modify fun s => { s with receivingChainKey := some ck }

def dhRatchetStep (peerDhPub : Bytes32) (rng : StepRandom S) :
    Mut (RatchetState S) RatchetError Unit := do
  modify fun s =>
    { s with
      previousSendingChainLength := s.sendingMsgNumber
      sendingMsgNumber := 0
      receivingMsgNumber := 0
      retiredPeerDhKeys := retirePeerKey s peerDhPub
      dhr := some peerDhPub }
  let state ← get
  let dhOutRecv := x25519DeriveShared state.dhs.privBytes peerDhPub rng.recvFallback
  let (newRk, recvCk) ← Mut.lift .crypto (kdfRk state.rootKey dhOutRecv)
  modify fun s => { s with rootKey := newRk, receivingChainKey := some recvCk }
  let newDhs := generateX25519 S rng.freshPriv
  let dhOutSend := x25519DeriveShared newDhs.privBytes peerDhPub rng.sendFallback
  modify fun s => { s with dhs := newDhs }
  let (newRk2, sendCk) ← Mut.lift .crypto (kdfRk newRk dhOutSend)
  modify fun s => { s with rootKey := newRk2, sendingChainKey := some sendCk }

/-- The end of `ratchet_decrypt_inner`: derive this message's key from the chain and decrypt. -/
def decryptOnChain (msg : EncryptedMessage) (associatedData : Bytes) :
    Mut (RatchetState S) RatchetError Bytes := do
  let state ← get
  match state.receivingChainKey with
  | none => throw .noReceivingChain
  | some recvCk =>
    let (nextCk, messageKey) ← Mut.lift .crypto (kdfCk recvCk)
    modify fun s => { s with receivingChainKey := some nextCk }
    modify fun s => { s with receivingMsgNumber := s.receivingMsgNumber + 1 }
    let headerBytes ← Mut.ofExcept (encodeHeader msg.header)
    let ad := concat [associatedData, headerBytes]
    let ciphertext ← Mut.ofExcept (decodeHex msg.ciphertext)
    let nonce ← Mut.ofExcept (decodeHex msg.nonce)
    Mut.lift .crypto (aesGcmDecrypt messageKey ciphertext nonce (some ad))

def ratchetDecryptInner (msg : EncryptedMessage) (associatedData : Bytes) (rng : StepRandom S) :
    Mut (RatchetState S) RatchetError Bytes := do
  let headerDh ← Mut.ofExcept (decode32 msg.header.dhPub)
  -- A message we already derived a key for.
  match ← trySkippedMessageKey msg headerDh associatedData with
  | some pt => return pt
  | none =>
    let state ← get
    if headerDh ∈ state.retiredPeerDhKeys ∨
        (state.dhr = some headerDh ∧ msg.header.n < state.receivingMsgNumber) then
      throw (.replay msg.header.n)
    -- A new ratchet key from the peer: bank the rest of the old chain, step.
    if state.dhr ≠ some headerDh then
      skipMessageKeys msg.header.pn
      dhRatchetStep headerDh rng
    skipMessageKeys msg.header.n
    decryptOnChain msg associatedData

/-- Transactional: any failure rolls the state back. -/
def ratchetDecrypt (state : RatchetState S) (msg : EncryptedMessage) (associatedData : Bytes)
    (rng : StepRandom S) : Except RatchetError Bytes × RatchetState S :=
  (ratchetDecryptInner msg associatedData rng).transaction state

end
end TrinoCore
