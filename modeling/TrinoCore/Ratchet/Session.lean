import TrinoCore.Ratchet.Schedule

/-!
A session of two parties over a network that loses, repeats, reorders, alters and invents messages.

The parties' states are those of the code. Around them the run records what was called and with
which result, and three things the states forget: every DH key drawn, every value `dhr` has had, and
the banked keys that were evicted.
-/

namespace TrinoCore

variable {S : Type}

inductive Entry (S : Type) where
  /-- A call of `ratchet_encrypt` and the message key it used. -/
  | encrypted (party : Party) (key : Option S) (plaintext associatedData : Bytes)
      (result : Except RatchetError EncryptedMessage)
  /-- A call of `ratchet_decrypt`. -/
  | delivered (party : Party) (message : EncryptedMessage) (associatedData : Bytes)
      (result : Except RatchetError Bytes)

structure Session (S : Type) where
  state : Party → RatchetState S
  history : List (Entry S)
  dhKeys : List Bytes32
  peerKeys : Party → List Bytes32
  evicted : Party → Finset String

/-- The id under which a message's key would be banked. -/
def bankIdOf (msg : EncryptedMessage) : Option String :=
  match decode32 msg.header.dhPub with
  | .ok d => some (skippedKeyId d msg.header.n)
  | .error _ => none

namespace Session

def start (initiator responder : RatchetState S) : Session S :=
  { state := fun p => match p with
      | .initiator => initiator
      | .responder => responder
    history := []
    dhKeys := [responder.dhs.pubBytes, initiator.dhs.pubBytes]
    peerKeys := fun p => match p with
      | .initiator => initiator.dhr.toList
      | .responder => responder.dhr.toList
    evicted := fun _ => ∅ }

def Sent (s : Session S) (p : Party) (msg : EncryptedMessage) : Prop :=
  ∃ key plaintext ad, Entry.encrypted p key plaintext ad (.ok msg) ∈ s.history

def OnWire (s : Session S) (ciphertext : Bytes) : Prop :=
  ∃ p msg, s.Sent p msg ∧ Hex.decode msg.ciphertext = some ciphertext

variable [Primitives S]

def sendingKey (st : RatchetState S) : Option S := do
  let ck ← st.sendingChainKey
  let (_, messageKey) ← (kdfCk ck).toOption
  return messageKey

def encrypt (s : Session S) (p : Party) (plaintext ad : Bytes) (nonce : Nonce) : Session S :=
  let outcome := (ratchetEncrypt plaintext ad nonce).exec (s.state p)
  { s with
    state := Function.update s.state p outcome.2
    history := s.history ++ [.encrypted p (sendingKey (s.state p)) plaintext ad outcome.1] }

def decrypt (s : Session S) (p : Party) (msg : EncryptedMessage) (ad : Bytes) (rng : StepRandom S) : Session S :=
  let st := s.state p
  let outcome := ratchetDecrypt st msg ad rng
  let next := outcome.2
  { state := Function.update s.state p next
    history := s.history ++ [.delivered p msg ad outcome.1]
    dhKeys := if next.dhs = st.dhs then s.dhKeys else s.dhKeys ++ [next.dhs.pubBytes]
    peerKeys := Function.update s.peerKeys p
      (if next.dhr = st.dhr then s.peerKeys p else s.peerKeys p ++ next.dhr.toList)
    -- what left the bank without being the key of the message just read
    evicted := Function.update s.evicted p
      (s.evicted p ∪ ((st.skippedKeys.keys \ next.skippedKeys.keys) \ (bankIdOf msg).toFinset)) }

/-! A call moves the state of the party that makes it. -/

section
variable (s : Session S) {p q : Party} (different : q ≠ p)

theorem encrypt_self (plaintext ad : Bytes) (nonce : Nonce) :
    (s.encrypt p plaintext ad nonce).state p = ((ratchetEncrypt plaintext ad nonce).exec (s.state p)).2 :=
  Function.update_self _ _ _

theorem decrypt_self (msg : EncryptedMessage) (ad : Bytes) (rng : StepRandom S) :
    (s.decrypt p msg ad rng).state p = (ratchetDecrypt (s.state p) msg ad rng).2 := Function.update_self _ _ _

include different

theorem encrypt_other (plaintext ad : Bytes) (nonce : Nonce) :
    (s.encrypt p plaintext ad nonce).state q = s.state q := Function.update_of_ne different _ _

theorem decrypt_other (msg : EncryptedMessage) (ad : Bytes) (rng : StepRandom S) :
    (s.decrypt p msg ad rng).state q = s.state q := Function.update_of_ne different _ _

end

def Rejects (s : Session S) (p : Party) (msg : EncryptedMessage) (ad : Bytes) (rng : StepRandom S) : Prop :=
  ∃ e, (ratchetDecrypt (s.state p) msg ad rng).1 = .error e

end Session

/-- The sessions that runs reach. `may` says which messages the network can hand to a party besides
those that are rejected. Fresh DH keys are new, and no chain carries `2 ^ 32` messages. -/
inductive Reachable [Primitives S] (may : Session S → Party → EncryptedMessage → Prop) (masterSecret : S) :
    Session S → Prop
  | start {spkPriv : Bytes32} {rng : StepRandom S} {initiator : RatchetState S}
      (made : initInitiator masterSecret (generateX25519 S spkPriv).pubBytes rng = .ok initiator)
      (fresh : x25519Pub S rng.freshPriv ≠ x25519Pub S spkPriv) :
      Reachable may masterSecret (Session.start initiator (initResponder masterSecret (generateX25519 S spkPriv)))
  | encrypt {s : Session S} (reached : Reachable may masterSecret s) (p : Party) (plaintext ad : Bytes)
      (nonce : Nonce) (room : (s.state p).sendingMsgNumber.toNat + 1 < 2 ^ 32) :
      Reachable may masterSecret (s.encrypt p plaintext ad nonce)
  | decrypt {s : Session S} (reached : Reachable may masterSecret s) (p : Party) (msg : EncryptedMessage)
      (ad : Bytes) (rng : StepRandom S) (fresh : x25519Pub S rng.freshPriv ∉ s.dhKeys)
      (offered : may s p msg ∨ s.Rejects p msg ad rng) :
      Reachable may masterSecret (s.decrypt p msg ad rng)

/-- The network delivers what the peer sent, in any order and number. -/
def Genuine (s : Session S) (p : Party) (msg : EncryptedMessage) : Prop := s.Sent p.peer msg

section Attacker
variable [Primitives S]

/-- The keys that can be computed from those of `known`. -/
inductive Deducible (known : S → Prop) : S → Prop
  | known {key : S} : known key → Deducible known key
  | hkdf {ikm : List S} {salt : S} (info : Bytes) (block : Nat) :
      (∀ key ∈ ikm, Deducible known key) → Deducible known salt →
      Deducible known (hkdfBlock ikm salt info block)

/-- The master secret and all that the ratchet derives from it. -/
inductive SessionKey (masterSecret : S) : S → Prop
  | master : SessionKey masterSecret masterSecret
  | root {rk : S} (dhOut : S) : SessionKey masterSecret rk → SessionKey masterSecret (rootStep rk dhOut)
  | chain {rk : S} (dhOut : S) : SessionKey masterSecret rk → SessionKey masterSecret (chainStart rk dhOut)
  | next {ck : S} : SessionKey masterSecret ck → SessionKey masterSecret (chainStep ck)
  | message {ck : S} : SessionKey masterSecret ck → SessionKey masterSecret (messageKeyOf ck)

/-- What an attacker starts from: any keys but those of the session. -/
structure Attacker (masterSecret : S) where
  known : S → Prop
  noMaster : ¬Deducible known masterSecret
  noSessionKey : ∀ key, known key → ¬SessionKey masterSecret key

/-- A message an attacker can make: any header, any nonce, and a ciphertext that was seen on the
network or that opens, if at all, only under keys the attacker can compute. -/
def Makeable {masterSecret : S} (attacker : Attacker masterSecret) (s : Session S) (_ : Party)
    (msg : EncryptedMessage) : Prop :=
  ∀ ct, Hex.decode msg.ciphertext = some ct → s.OnWire ct ∨
    ∀ key nonce ad pt, aeadOpen key nonce ct ad = some pt → Deducible attacker.known key

theorem SessionKey.not_deducible (ideal : Ideal S) {masterSecret key : S} (attacker : Attacker masterSecret)
    (isKey : SessionKey masterSecret key) : ¬Deducible attacker.known key := by
  -- every key but the master secret has its parent among the inputs of the HKDF that made it
  have step : ∀ {ikm salt info block}, SessionKey masterSecret (hkdfBlock ikm salt info block) →
      (¬Deducible attacker.known salt ∨ ∃ parent ∈ ikm, ¬Deducible attacker.known parent) →
      ¬Deducible attacker.known (hkdfBlock ikm salt info block) := by
    intro ikm salt info block isKey hidden deduced
    generalize made : hkdfBlock ikm salt info block = key at isKey deduced
    cases deduced with
    | known given => exact attacker.noSessionKey key given isKey
    | hkdf info' block' inputs salted =>
      obtain ⟨rfl, rfl, _, _⟩ := ideal.hkdf_inj made
      rcases hidden with hiddenSalt | ⟨parent, present, hiddenKey⟩
      · exact hiddenSalt salted
      · exact hiddenKey (inputs parent present)
  induction isKey with
  | master => exact attacker.noMaster
  | root dhOut parent ih => exact step (.root dhOut parent) (Or.inl ih)
  | chain dhOut parent ih => exact step (.chain dhOut parent) (Or.inl ih)
  | next parent ih => exact step (.next parent) (Or.inr ⟨_, List.mem_singleton.mpr rfl, ih⟩)
  | message parent ih => exact step (.message parent) (Or.inr ⟨_, List.mem_singleton.mpr rfl, ih⟩)

theorem SessionKey.iterate {masterSecret ck : S} (isKey : SessionKey masterSecret ck) (n : Nat) :
    SessionKey masterSecret (chainStep^[n] ck) := by
  induction n with
  | zero => exact isKey
  | succ n ih =>
    rw [Function.iterate_succ_apply']
    exact .next ih

theorem Timeline.root_sessionKey (T : Timeline S) (j : Nat) : SessionKey T.master (T.root j) := by
  induction j with
  | zero => exact .master
  | succ j ih => exact .root _ ih

theorem Timeline.chain_sessionKey (T : Timeline S) (j : Nat) : SessionKey T.master (T.chain j) := by
  cases j with
  | zero => exact .master
  | succ j => exact .chain _ (T.root_sessionKey j)

theorem Timeline.messageKey_sessionKey (T : Timeline S) (j n : Nat) : SessionKey T.master (T.messageKey j n) :=
  .message ((T.chain_sessionKey j).iterate n)

end Attacker
end TrinoCore
