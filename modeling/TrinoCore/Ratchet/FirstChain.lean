import TrinoCore.Ratchet.Delivery

/-!
The first sending chain of the initiator, read by a responder in any order.

Nothing here needs ideal primitives: the keys are the same on both sides because both sides run the
same derivations, and a key that is still banked is the one its number was sealed with.
-/

namespace TrinoCore

variable {S : Type}

theorem bankAll_room {st : RatchetState S} (wf : WellFormed st) {entries : List (String × S)}
    (nodup : (entries.map Prod.fst).Nodup) (fresh : ∀ keyId ∈ entries.map Prod.fst, keyId ∉ st.skippedKeys)
    (room : st.skippedKeys.keys.card + entries.length ≤ maxSkippedKeys) :
    WellFormed (bankAll st entries) ∧
      (bankAll st entries).skippedKeys.keys.card = st.skippedKeys.keys.card + entries.length ∧
      (bankAll st entries).skippedKeyOrder = st.skippedKeyOrder ++ entries.map Prod.fst ∧
      (∀ entry ∈ entries, (bankAll st entries).skippedKeys.lookup entry.1 = some entry.2) ∧
      ∀ keyId ∉ entries.map Prod.fst, (bankAll st entries).skippedKeys.lookup keyId = st.skippedKeys.lookup keyId := by
  induction entries generalizing st with
  | nil => exact ⟨wf, rfl, (List.append_nil _).symm, fun entry present => (by cases present), fun _ _ => rfl⟩
  | cons entry rest ih =>
    rw [List.map_cons, List.nodup_cons] at nodup
    rw [List.length_cons] at room
    have new := fresh entry.1 List.mem_cons_self
    have banked := bankSkippedKey_room new (by omega) entry.2
    have wellFormed := (bankSkippedKey_spec wf entry.1 entry.2).wellFormed
    have whole : bankAll st (entry :: rest) = bankAll (bankSkippedKey st entry.1 entry.2) rest := rfl
    rw [whole]
    generalize first : bankSkippedKey st entry.1 entry.2 = next at banked wellFormed
    have lookup : ∀ keyId ≠ entry.1, next.skippedKeys.lookup keyId = st.skippedKeys.lookup keyId := by
      intro keyId different
      rw [banked]
      exact Finmap.lookup_insert_of_ne _ different
    have size : next.skippedKeys.keys.card = st.skippedKeys.keys.card + 1 := by
      rw [banked]
      dsimp only
      rw [keys_insert, Finset.card_insert_of_notMem (fun present => new (Finmap.mem_keys.mp present))]
    have fresh' : ∀ keyId ∈ rest.map Prod.fst, keyId ∉ next.skippedKeys := by
      intro keyId present
      have different : keyId ≠ entry.1 := fun same => nodup.1 (same ▸ present)
      rw [← Finmap.lookup_eq_none, lookup keyId different]
      exact Finmap.lookup_eq_none.mpr (fresh keyId (List.mem_cons_of_mem _ present))
    obtain ⟨wf', size', order, added, others⟩ := ih wellFormed nodup.2 fresh' (by omega)
    refine ⟨wf', ?_, ?_, ?_, ?_⟩
    · rw [List.length_cons]
      exact size'.trans (by omega)
    · rw [order, banked, List.map_cons]
      exact List.append_assoc _ _ _
    · intro other present
      rcases List.mem_cons.mp present with rfl | later
      · rw [others other.1 nodup.1, banked]
        exact Finmap.lookup_insert _
      · exact added other later
    · intro keyId outside
      rw [List.map_cons, List.mem_cons, not_or] at outside
      exact (others keyId outside.2).trans (lookup keyId outside.1)

section
variable [Primitives S]

/-- The receiver has moved its chain, which started at `ck`, up to number `next`, and of the numbers
before it has read those in `read`; the others are banked. Numbers are below `2 ^ 32`, and the counter
itself may have wrapped after the last one. -/
structure Reads (ck : S) (d : Bytes32) (next : Nat) (read : List Nat) (st : RatchetState S) : Prop where
  dhr : st.dhr = some d
  chain : st.receivingChainKey = some (chainStep^[next] ck)
  number : st.receivingMsgNumber = UInt32.ofNat next
  current : d ∉ st.retiredPeerDhKeys
  wellFormed : WellFormed st
  size : st.skippedKeys.keys.card + read.length = next
  banked : ∀ n < next, n ∉ read → st.skippedKeys.lookup (skippedKeyId d (UInt32.ofNat n)) = some (messageKeyAt ck n)
  unbanked : ∀ n < 2 ^ 32, next ≤ n → st.skippedKeys.lookup (skippedKeyId d (UInt32.ofNat n)) = none

theorem bankId_ne {d : Bytes32} {n m : Nat} (small : n < 2 ^ 32) (small' : m < 2 ^ 32) (different : n ≠ m) :
    skippedKeyId d (UInt32.ofNat n) ≠ skippedKeyId d (UInt32.ofNat m) := by
  intro same
  have numbers := congrArg UInt32.toNat (skippedKeyId_inj.mp same).2
  rw [toNat_ofNat small, toNat_ofNat small'] at numbers
  exact different numbers

theorem mem_chainIds {d : Bytes32} {from_ until_ : Nat} (small : until_ ≤ 2 ^ 32) {keyId : String} :
    keyId ∈ (List.range' from_ (until_ - from_)).map (fun m => skippedKeyId d (UInt32.ofNat m)) ↔
      ∃ m : UInt32, (from_ ≤ m.toNat ∧ m.toNat < until_) ∧ keyId = skippedKeyId d m := by
  rw [List.mem_map]
  simp only [List.mem_range'_1]
  constructor
  · rintro ⟨m, inside, rfl⟩
    have value : (UInt32.ofNat m).toNat = m := toNat_ofNat (by omega)
    exact ⟨UInt32.ofNat m, by omega, rfl⟩
  · rintro ⟨m, inside, rfl⟩
    exact ⟨m.toNat, by omega, by rw [UInt32.ofNat_toNat]⟩

theorem nodup_chainIds (d : Bytes32) {from_ until_ : Nat} (small : until_ ≤ 2 ^ 32) :
    ((List.range' from_ (until_ - from_)).map fun m => skippedKeyId d (UInt32.ofNat m)).Nodup := by
  refine List.Nodup.map_on ?_ List.nodup_range'
  intro m inside m' inside' same
  rw [List.mem_range'_1] at inside inside'
  by_contra different
  exact bankId_ne (d := d) (by omega) (by omega) different same

theorem not_mem_chainIds {d : Bytes32} {from_ until_ m : Nat} (small : until_ ≤ 2 ^ 32) (small' : m < 2 ^ 32)
    (outside : m < from_ ∨ until_ ≤ m) :
    skippedKeyId d (UInt32.ofNat m) ∉ (List.range' from_ (until_ - from_)).map fun k => skippedKeyId d (UInt32.ofNat k) := by
  rw [mem_chainIds small]
  rintro ⟨k, inside, same⟩
  have number := congrArg UInt32.toNat (skippedKeyId_inj.mp same).2
  rw [toNat_ofNat small'] at number
  omega

/-- A message with number `n` of the chain that starts at `ck` under the key `d`. -/
structure OnChain (ck : S) (d : Bytes32) (n : Nat) (msg : EncryptedMessage) (ad pt : Bytes) : Prop where
  decoded : decode32 msg.header.dhPub = .ok d
  number : msg.header.n = UInt32.ofNat n
  opens : openMessage (messageKeyAt ck n) msg ad = .ok pt

variable {ck : S} {d : Bytes32} {next n : Nat} {read : List Nat} {st : RatchetState S} {msg : EncryptedMessage}
  {ad pt : Bytes}

theorem Reads.read_banked (reads : Reads ck d next read st) (known : next ≤ 2 ^ 32)
    (message : OnChain ck d n msg ad pt) (passed : n < next) (unread : n ∉ read) (rng : StepRandom S) :
    ∃ st', ratchetDecrypt st msg ad rng = (.ok pt, st') ∧ Reads ck d next (n :: read) st' := by
  have found := reads.banked n passed unread
  have mine : skippedKeyId d msg.header.n = skippedKeyId d (UInt32.ofNat n) := by rw [message.number]
  have spec := consumed_spec reads.wellFormed (skippedKeyId d (UInt32.ofNat n))
  refine ⟨consumed st (skippedKeyId d (UInt32.ofNat n)), ?_, ?_⟩
  · apply (ratchetDecrypt_ok_iff message.decoded).mpr
    refine Or.inl ⟨_, ?_, message.opens, ?_⟩
    · rw [mine]
      exact found
    · rw [mine]
  · refine ⟨reads.dhr, reads.chain, reads.number, reads.current, spec.wellFormed, ?_, ?_, ?_⟩
    · have queued : skippedKeyId d (UInt32.ofNat n) ∈ queue st :=
        (mem_queue reads.wellFormed).mpr (Finmap.mem_of_lookup_eq_some found)
      have positive := List.length_pos_of_mem queued
      have size := reads.size
      rw [← length_queue spec.wellFormed, spec.queue_eq, List.length_erase_of_mem queued, List.length_cons]
      rw [← length_queue reads.wellFormed] at size
      omega
    · intro m passed' unread'
      rw [List.mem_cons, not_or] at unread'
      have other := bankId_ne (d := d) (show m < 2 ^ 32 by omega) (show n < 2 ^ 32 by omega) unread'.1
      exact (Finmap.lookup_erase_ne other).trans (reads.banked m passed' unread'.2)
    · intro m small ahead
      have other := bankId_ne (d := d) small (show n < 2 ^ 32 by omega) (by omega)
      exact (Finmap.lookup_erase_ne other).trans (reads.unbanked m small ahead)

theorem Reads.skip (reads : Reads ck d next read st) (ahead : next ≤ n) (small : n < 2 ^ 32)
    (room : n ≤ read.length + maxSkippedKeys) {mid : RatchetState S}
    (skips : Skips st (UInt32.ofNat n) mid) : Reads ck d n read mid := by
  have start : st.receivingMsgNumber.toNat = next := by
    rw [reads.number]
    exact toNat_ofNat (by omega)
  have goal : (UInt32.ofNat n).toNat = n := toNat_ofNat small
  obtain ⟨_, number, chain⟩ := skips_moves skips reads.chain reads.dhr
  have bank := skips_bank skips
  rw [keysSkipped, reads.chain, reads.dhr] at bank
  dsimp only at bank
  rw [start, goal] at number chain bank
  rw [skippedEntries_eq_map] at bank
  rw [← Function.iterate_add_apply, show n - next + next = n by omega] at chain
  rw [show next + (n - next) = n by omega] at number
  generalize listed : (List.range' next (n - next)).map
    (fun m => (skippedKeyId d (UInt32.ofNat m), messageKeyAt ck m)) = entries at bank
  have mem_entries : ∀ entry, entry ∈ entries ↔ ∃ m, (next ≤ m ∧ m < n) ∧
      entry = (skippedKeyId d (UInt32.ofNat m), messageKeyAt ck m) := by
    intro entry
    rw [← listed, List.mem_map]
    simp only [List.mem_range'_1, show next + (n - next) = n by omega, eq_comm]
  have keys : entries.map Prod.fst = (List.range' next (n - next)).map fun m => skippedKeyId d (UInt32.ofNat m) := by
    rw [← listed, List.map_map]
    rfl
  have nodup : (entries.map Prod.fst).Nodup := by
    rw [keys]
    exact nodup_chainIds d (by omega)
  have fresh : ∀ keyId ∈ entries.map Prod.fst, keyId ∉ st.skippedKeys := by
    intro keyId present
    obtain ⟨entry, inside, rfl⟩ := List.mem_map.mp present
    obtain ⟨m, between, rfl⟩ := (mem_entries entry).mp inside
    exact Finmap.lookup_eq_none.mp (reads.unbanked m (by omega) between.1)
  have count : entries.length = n - next := by
    rw [← listed, List.length_map, List.length_range']
  have size := reads.size
  obtain ⟨wf, card, _, added, others⟩ := bankAll_room reads.wellFormed nodup fresh (by omega)
  have frame := skips_frame skips
  refine ⟨?_, chain, number, ?_, bank.wellFormed wf, ?_, ?_, ?_⟩
  · exact (congrArg RatchetState.dhr frame :).trans reads.dhr
  · rw [show mid.retiredPeerDhKeys = st.retiredPeerDhKeys from (congrArg RatchetState.retiredPeerDhKeys frame :)]
    exact reads.current
  · rw [bank.1, card]
    omega
  · intro m passed unread
    rw [bank.1]
    by_cases old : m < next
    · refine (others _ ?_).trans (reads.banked m old unread)
      rw [keys]
      exact not_mem_chainIds (by omega) (by omega) (.inl old)
    · exact added _ ((mem_entries _).mpr ⟨m, by omega, rfl⟩)
  · intro m small' beyond
    rw [bank.1]
    refine (others _ ?_).trans (reads.unbanked m small' (by omega))
    rw [keys]
    exact not_mem_chainIds (by omega) small' (.inr beyond)

theorem Reads.received (reads : Reads ck d next read st) :
    Reads ck d (next + 1) (next :: read) (received st (chainStep^[next] ck)) where
  dhr := reads.dhr
  chain := by
    rw [Function.iterate_succ_apply']
    rfl
  number := by
    change st.receivingMsgNumber + 1 = _
    rw [reads.number, UInt32.ofNat_add]
    rfl
  current := reads.current
  wellFormed := ⟨reads.wellFormed.nodup, reads.wellFormed.banked⟩
  size := by
    have size := reads.size
    rw [List.length_cons]
    change st.skippedKeys.keys.card + _ = _
    omega
  banked := by
    intro m passed unread
    rw [List.mem_cons, not_or] at unread
    exact reads.banked m (by omega) unread.2
  unbanked := fun m small ahead => reads.unbanked m small (by omega)

theorem Reads.read_ahead (reads : Reads ck d next read st) (message : OnChain ck d n msg ad pt) (ahead : next ≤ n)
    (small : n < 2 ^ 32) (near : n ≤ next + maxSkip.toNat) (room : n ≤ read.length + maxSkippedKeys)
    (rng : StepRandom S) :
    ∃ st', ratchetDecrypt st msg ad rng = (.ok pt, st') ∧ Reads ck d (n + 1) (n :: read) st' := by
  have start : st.receivingMsgNumber.toNat = next := by
    rw [reads.number]
    exact toNat_ofNat (by omega)
  have goal : (UInt32.ofNat n).toNat = n := toNat_ofNat small
  obtain ⟨mid, skips⟩ := skips_exists st (UInt32.ofNat n) (fun _ => by omega)
  have moved := reads.skip ahead small room skips
  refine ⟨_, ?_, moved.received⟩
  rw [← message.number] at skips
  refine (ratchetDecrypt_ok_iff message.decoded).mpr (Or.inr ⟨?_, ?_, mid, _, Or.inl ⟨reads.dhr, skips⟩, moved.chain,
    message.opens, rfl⟩)
  · rw [message.number]
    exact reads.unbanked n small ahead
  · intro either
    rcases either with retired | ⟨_, behind⟩
    · exact reads.current retired
    · have less := UInt32.lt_iff_toNat_lt.mp behind
      rw [message.number] at less
      omega

/-! ### Sending a chain and reading it -/

/-- What one call of `ratchet_encrypt` is given. -/
structure Outgoing where
  plaintext : Bytes
  associatedData : Bytes
  nonce : Nonce

def encryptAll (st : RatchetState S) : List Outgoing → List (Except RatchetError EncryptedMessage)
  | [] => []
  | item :: rest =>
    let (result, st') := (ratchetEncrypt item.plaintext item.associatedData item.nonce).exec st
    result :: encryptAll st' rest

/-- One delivery: the place of the message among those sent, what it was sent with, and what the
receiving call draws. -/
structure Arrival (S : Type) where
  index : Nat
  sent : Outgoing
  msg : EncryptedMessage
  rng : StepRandom S

def decryptAll (st : RatchetState S) : List (Arrival S) → List (Except RatchetError Bytes)
  | [] => []
  | arrival :: rest =>
    let (result, st') := ratchetDecrypt st arrival.msg arrival.sent.associatedData arrival.rng
    result :: decryptAll st' rest

/-- The order of delivery never skips more than `MAX_SKIP` numbers at once and never leaves more than
`MAX_SKIPPED_KEYS` of them banked. `next` numbers were passed so far, `read` of them read. -/
def WithinLimits (next read : Nat) : List Nat → Prop
  | [] => True
  | n :: rest =>
    n ≤ next + maxSkip.toNat ∧ max next (n + 1) ≤ read + 1 + maxSkippedKeys ∧
      WithinLimits (max next (n + 1)) (read + 1) rest

/-- The arrivals are messages among `results`, each at its place. -/
def Delivers (items : List Outgoing) (results : List (Except RatchetError EncryptedMessage))
    (arrivals : List (Arrival S)) : Prop :=
  ∀ arrival ∈ arrivals, (items.zip results)[arrival.index]? = some (arrival.sent, .ok arrival.msg)

theorem encryptAll_cons (st : RatchetState S) (item : Outgoing) (rest : List Outgoing) :
    encryptAll st (item :: rest) =
      ((ratchetEncrypt item.plaintext item.associatedData item.nonce).exec st).1 ::
        encryptAll ((ratchetEncrypt item.plaintext item.associatedData item.nonce).exec st).2 rest := rfl

theorem decryptAll_cons (st : RatchetState S) (arrival : Arrival S) (rest : List (Arrival S)) :
    decryptAll st (arrival :: rest) =
      (ratchetDecrypt st arrival.msg arrival.sent.associatedData arrival.rng).1 ::
        decryptAll (ratchetDecrypt st arrival.msg arrival.sent.associatedData arrival.rng).2 rest := rfl

theorem sealed_onChain (correct : Correct S) {sender : RatchetState S} {first : Nat}
    (number : sender.sendingMsgNumber = UInt32.ofNat first) {nonce : Nonce} {ct : Bytes}
    (sealed : aeadSeal (messageKeyAt ck first) nonce pt
      (headerAd ad sender.dhs.pubBytes sender.previousSendingChainLength sender.sendingMsgNumber) = some ct) :
    OnChain ck sender.dhs.pubBytes first ⟨nextHeader sender, Hex.encode nonce.toList, Hex.encode ct⟩ ad pt := by
  generalize whole : (⟨nextHeader sender, Hex.encode nonce.toList, Hex.encode ct⟩ : EncryptedMessage) = message
  have decoded : decode32 message.header.dhPub = .ok sender.dhs.pubBytes := by
    rw [← whole]
    exact decode32_encode sender.dhs.pubBytes
  refine ⟨decoded, ?_, (openMessage_ok decoded).mpr ⟨ct, nonce, ?_, ?_, ?_⟩⟩
  · rw [← whole]
    exact number
  · rw [← whole]
    exact Hex.decode_encode ct
  · rw [← whole]
    exact Hex.decode_encode nonce.toList
  · rw [← whole]
    exact correct.open_sealed sealed

theorem encryptAll_onChain (correct : Correct S) {items : List Outgoing} {sender : RatchetState S} (first : Nat)
    (sending : sender.sendingChainKey = some (chainStep^[first] ck))
    (number : sender.sendingMsgNumber = UInt32.ofNat first) (key : sender.dhs.pubBytes = d) {k : Nat}
    {item : Outgoing} (sent : (items.zip (encryptAll sender items))[k]? = some (item, .ok msg)) :
    OnChain ck d (first + k) msg item.associatedData item.plaintext := by
  induction items generalizing sender first k with
  | nil => cases sent
  | cons head rest ih =>
    have encrypted := ratchetEncrypt_some sending head.plaintext head.associatedData head.nonce
    rw [encryptAll_cons, encrypted, List.zip_cons_cons] at sent
    dsimp only at sent
    cases k with
    | succ k =>
      rw [List.getElem?_cons_succ] at sent
      have later := ih (first + 1) ?_ ?_ ?_ sent
      · rw [show first + (k + 1) = first + 1 + k by omega]
        exact later
      · rw [Function.iterate_succ_apply']
        rfl
      · change sender.sendingMsgNumber + 1 = _
        rw [number, UInt32.ofNat_add]
        rfl
      · exact key
    | zero =>
      rw [List.getElem?_cons_zero] at sent
      obtain ⟨same, result⟩ := Prod.mk.inj (Option.some.inj sent)
      subst item
      split at result
      · rename_i ct sealed
        rw [← Except.ok.inj result, ← key]
        exact sealed_onChain correct number sealed
      · cases result

/-- Every order within the limits reads every message. -/
theorem Reads.decryptAll (reads : Reads ck d next read st) (known : next ≤ 2 ^ 32) {arrivals : List (Arrival S)}
    (messages : ∀ arrival ∈ arrivals, arrival.index < 2 ^ 32 ∧
      OnChain ck d arrival.index arrival.msg arrival.sent.associatedData arrival.sent.plaintext)
    (once : (read ++ arrivals.map (·.index)).Nodup)
    (limits : WithinLimits next read.length (arrivals.map (·.index))) :
    decryptAll st arrivals = arrivals.map fun arrival => .ok arrival.sent.plaintext := by
  induction arrivals generalizing st next read with
  | nil => rfl
  | cons arrival rest ih =>
    obtain ⟨near, room, limits'⟩ := limits
    obtain ⟨small, message⟩ := messages arrival List.mem_cons_self
    have unread : arrival.index ∉ read := fun present =>
      (List.nodup_append.mp once).2.2 _ present _ List.mem_cons_self rfl
    have step : ∃ st', ratchetDecrypt st arrival.msg arrival.sent.associatedData arrival.rng =
        (.ok arrival.sent.plaintext, st') ∧ Reads ck d (max next (arrival.index + 1)) (arrival.index :: read) st' := by
      by_cases passed : arrival.index < next
      · rw [Nat.max_eq_left (show arrival.index + 1 ≤ next by omega)]
        exact reads.read_banked known message passed unread arrival.rng
      · rw [Nat.max_eq_right (show next ≤ arrival.index + 1 by omega)] at room ⊢
        exact reads.read_ahead message (by omega) small near (by omega) arrival.rng
    obtain ⟨st', accepted, reads'⟩ := step
    rw [decryptAll_cons, accepted, List.map_cons]
    apply congrArg _
    refine ih reads' (by omega) (fun other present => messages other (List.mem_cons_of_mem _ present)) ?_ limits'
    exact once.perm List.perm_middle

theorem stepped_reads (masterSecret : S) (keypair : KeyPair) (d : Bytes32) (rng : StepRandom S) :
    Reads (chainStart masterSecret (x25519DeriveShared keypair.privBytes d rng.recvFallback)) d 0 []
      (stepped (initResponder masterSecret keypair) d rng) where
  dhr := rfl
  chain := rfl
  number := rfl
  current := List.not_mem_nil
  wellFormed := ⟨List.nodup_nil, fun keyId present => (by cases present)⟩
  size := rfl
  banked := fun n passed => (by cases passed)
  unbanked := fun n _ _ => Finmap.lookup_empty _

/-- A responder that has read nothing reads a message as if it had already stepped to its key. -/
theorem decrypt_stepped {masterSecret : S} {keypair : KeyPair} {rng : StepRandom S} {st' : RatchetState S}
    (decoded : decode32 msg.header.dhPub = .ok d)
    (accepted : ratchetDecrypt (stepped (initResponder masterSecret keypair) d rng) msg ad rng = (.ok pt, st')) :
    ratchetDecrypt (initResponder masterSecret keypair) msg ad rng = (.ok pt, st') := by
  rcases (ratchetDecrypt_ok_iff decoded).mp accepted with ⟨mk, found, _⟩ | ⟨_, _, mid, ck, reaches, chain, opens, same⟩
  · cases (Finmap.lookup_empty _).symm.trans found
  · rcases reaches with ⟨_, skips⟩ | ⟨different, _⟩
    · apply (ratchetDecrypt_ok_iff decoded).mpr
      refine Or.inr ⟨Finmap.lookup_empty _, ?_, mid, ck, ?_, chain, opens, same⟩
      · intro either
        rcases either with retired | ⟨known, _⟩
        · cases retired
        · cases known
      · refine Or.inr ⟨?_, initResponder masterSecret keypair, Or.inl ⟨rfl, rfl⟩, skips⟩
        intro known
        cases known
    · exact absurd rfl different

theorem firstChain_agrees (correct : Correct S) {masterSecret : S} {spkPriv : Bytes32} {rng : StepRandom S}
    {sender : RatchetState S} (started : initInitiator masterSecret (x25519Pub S spkPriv) rng = .ok sender)
    (fallback : S) :
    sender.sendingChainKey = some (chainStart masterSecret (x25519DeriveShared spkPriv sender.dhs.pubBytes fallback)) ∧
      sender.sendingMsgNumber = 0 := by
  rw [initInitiator] at started
  rw [kdfRk_eq] at started
  obtain rfl := Except.ok.inj started
  have ours : x25519DeriveShared spkPriv (x25519Pub S rng.freshPriv) fallback =
      x25519DeriveShared rng.freshPriv (x25519Pub S spkPriv) rng.sendFallback := by
    rw [x25519DeriveShared_honest correct, x25519DeriveShared_honest correct]
    exact correct.x25519_comm spkPriv rng.freshPriv
  exact ⟨congrArg (fun dhOut => some (chainStart masterSecret dhOut)) ours.symm, rfl⟩

/-- Every message of the first chain decrypts, in any order within the limits. -/
theorem firstChain_decrypts (correct : Correct S) {masterSecret : S} {spkPriv : Bytes32} {rng : StepRandom S}
    {sender : RatchetState S} (started : initInitiator masterSecret (x25519Pub S spkPriv) rng = .ok sender)
    {items : List Outgoing} (few : items.length ≤ 2 ^ 32) {arrivals : List (Arrival S)}
    (delivers : Delivers items (encryptAll sender items) arrivals) (once : (arrivals.map (·.index)).Nodup)
    (limits : WithinLimits 0 0 (arrivals.map (·.index))) :
    decryptAll (initResponder masterSecret (generateX25519 S spkPriv)) arrivals =
      arrivals.map fun arrival => .ok arrival.sent.plaintext := by
  cases arrivals with
  | nil => rfl
  | cons arrival rest =>
    obtain ⟨sending, number⟩ := firstChain_agrees correct started arrival.rng.recvFallback
    have messages : ∀ other ∈ arrival :: rest, other.index < 2 ^ 32 ∧
        OnChain (chainStart masterSecret (x25519DeriveShared spkPriv sender.dhs.pubBytes arrival.rng.recvFallback))
          sender.dhs.pubBytes other.index other.msg other.sent.associatedData other.sent.plaintext := by
      intro other present
      have sent := delivers other present
      obtain ⟨inside, _⟩ := List.getElem?_eq_some_iff.mp sent
      rw [List.length_zip] at inside
      have message := encryptAll_onChain correct 0 sending number rfl sent
      rw [Nat.zero_add] at message
      exact ⟨by omega, message⟩
    have reads := stepped_reads masterSecret (generateX25519 S spkPriv) sender.dhs.pubBytes arrival.rng
    have all := reads.decryptAll (Nat.zero_le _) messages once limits
    -- the first delivery takes the step, and everything after it is the same run
    rw [decryptAll_cons, List.map_cons, List.cons.injEq] at all
    have accepted := decrypt_stepped (messages arrival List.mem_cons_self).2.decoded (Prod.ext all.1 rfl)
    rw [decryptAll_cons, accepted, List.map_cons]
    exact congrArg _ all.2

end
end TrinoCore
