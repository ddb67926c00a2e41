import TrinoCore.Ratchet.Sending

namespace TrinoCore

variable {S : Type} [Primitives S]

theorem decrypt_eq {s : Session S} {p : Party} {msg : EncryptedMessage} {ad : Bytes} {rng : StepRandom S}
    {result : Except RatchetError Bytes} {next : RatchetState S}
    (outcome : ratchetDecrypt (s.state p) msg ad rng = (result, next)) :
    s.decrypt p msg ad rng =
      { state := Function.update s.state p next
        history := s.history ++ [.delivered p msg ad result]
        dhKeys := if next.dhs = (s.state p).dhs then s.dhKeys else s.dhKeys ++ [next.dhs.pubBytes]
        peerKeys := Function.update s.peerKeys p
          (if next.dhr = (s.state p).dhr then s.peerKeys p else s.peerKeys p ++ next.dhr.toList)
        evicted := Function.update s.evicted p (s.evicted p ∪
          (((s.state p).skippedKeys.keys \ next.skippedKeys.keys) \ (bankIdOf msg).toFinset)) } := by
  unfold Session.decrypt
  dsimp only
  rw [outcome]

theorem decrypt_dhKeys {s : Session S} {p : Party} {msg : EncryptedMessage} {ad : Bytes} {rng : StepRandom S}
    {result : Except RatchetError Bytes} {next : RatchetState S}
    (outcome : ratchetDecrypt (s.state p) msg ad rng = (result, next)) :
    (s.decrypt p msg ad rng).dhKeys =
      if next.dhs = (s.state p).dhs then s.dhKeys else s.dhKeys ++ [next.dhs.pubBytes] :=
  congrArg Session.dhKeys (decrypt_eq outcome)

theorem reject_inv {masterSecret : S} {T : Timeline S} {s : Session S} (inv : Inv masterSecret T s) {p : Party}
    {msg : EncryptedMessage} {ad : Bytes} {rng : StepRandom S} (rejected : s.Rejects p msg ad rng) :
    Inv masterSecret T (s.decrypt p msg ad rng) := by
  obtain ⟨e, failed⟩ := rejected
  rcases outcome : ratchetDecrypt (s.state p) msg ad rng with ⟨result, next⟩
  rw [outcome] at failed
  obtain rfl : result = .error e := failed
  obtain rfl := ratchetDecrypt_error outcome
  have call : s.decrypt p msg ad rng = { s with history := s.history ++ [.delivered p msg ad (.error e)] } := by
    rw [decrypt_eq outcome, if_pos rfl, if_pos rfl, Finset.sdiff_self, Finset.empty_sdiff, Finset.union_empty]
    simp only [Function.update_eq_self]
  have own := inv.party p
  have taken : (s.decrypt p msg ad rng).taken p = s.taken p := by
    rw [call, Session.taken, List.filterMap_append]
    exact List.append_nil _
  refine inv.change (p := p) (Timeline.Later.refl T) (congrArg Session.history call)
    (congrFun (congrArg Session.state call) _) (congrFun (congrArg Session.peerKeys call) _)
    (congrFun (congrArg Session.evicted call) _) rfl rfl rfl ?_ ?_ ?_ ?_ ?_
  · rw [call]
    exact inv.keys
  · refine ⟨?_, ?_, ?_, ?_⟩
    · rw [call]
      exact own.tracks
    · rw [call]
      exact own.peers
    · rw [taken, call]
      exact own.receives
    · rw [taken, call]
      exact own.complete
  · intro q key pt' ad' result' same
    cases same
  · intro key used
    cases used
  · intro q msg' ad' pt' same
    cases same

/-- What an accepted message has to be, when its ciphertext is one the network has seen. -/
structure Opened (T : Timeline S) (s : Session S) (d : Bytes32) (mk : S) (msg : EncryptedMessage) (ad pt : Bytes)
    (q : Party) (j n : Nat) : Prop where
  parity : j % 2 = q.parity
  positive : 1 ≤ j
  inside : j ≤ T.top
  below : n < T.count j
  key : mk = T.messageKey j n
  pub : d = T.pub j
  pn : msg.header.pn = UInt32.ofNat (T.count (j - 2))
  number : msg.header.n = UInt32.ofNat n
  source : ∃ key sent, Entry.encrypted q key pt ad (.ok sent) ∈ s.history ∧ SameHeader sent.header msg.header

theorem Inv.opened (ideal : Ideal S) {masterSecret : S} {T : Timeline S} {s : Session S} (inv : Inv masterSecret T s)
    {msg : EncryptedMessage} {ad pt : Bytes} {d : Bytes32} {mk : S}
    (seen : ∀ ct, Hex.decode msg.ciphertext = some ct → s.OnWire ct) (decoded : decode32 msg.header.dhPub = .ok d)
    (opens : openMessage mk msg ad = .ok pt) : ∃ q j n, Opened T s d mk msg ad pt q j n := by
  obtain ⟨ct, nonce, ciphertext, _, opened⟩ := (openMessage_ok decoded).mp opens
  obtain ⟨q, sent, ⟨key, pt', ad', recorded⟩, wire⟩ := seen ct ciphertext
  rcases inv.sent q key pt' ad' _ recorded with ⟨_, e, absurd⟩ | ⟨j, n, parity, positive, inside, below, _, message⟩
  · cases absurd
  · obtain ⟨nonce', ct', rfl, sealed⟩ := message sent rfl
    have sameCt : ct' = ct := by
      rw [Hex.decode_encode] at wire
      exact Option.some.inj wire
    subst ct'
    obtain ⟨sameKey, _, samePt, sameAd⟩ := ideal.seal_inj (ideal.sealed_of_open opened) sealed
    obtain ⟨rfl, samePub, samePn, sameN⟩ := headerBytes_inj sameAd
    subst samePt
    refine ⟨q, j, n, parity, positive, inside, below, sameKey, samePub, samePn, sameN, key, _, recorded, d, ?_, decoded,
      samePn.symm, sameN.symm⟩
    rw [samePub]
    exact decode32_encode _

theorem Opened.bankId {T : Timeline S} {s : Session S} {d : Bytes32} {mk : S} {msg : EncryptedMessage} {ad pt : Bytes}
    {q : Party} {j n : Nat} (opened : Opened T s d mk msg ad pt q j n) (decoded : decode32 msg.header.dhPub = .ok d) :
    bankIdOf msg = some (T.bankId j n) := by
  unfold bankIdOf
  rw [decoded]
  dsimp only
  rw [opened.pub, opened.number]
  rfl

theorem Opened.toNat {T : Timeline S} {s : Session S} {d : Bytes32} {mk : S} {msg : EncryptedMessage} {ad pt : Bytes}
    {q : Party} {j n : Nat} (opened : Opened T s d mk msg ad pt q j n) : msg.header.n.toNat = n := by
  have bound := T.count_lt j
  have below := opened.below
  rw [opened.number]
  exact toNat_ofNat (by omega)

/-- Assembling the invariant after party `p` accepted a message. -/
theorem Inv.accepted {masterSecret : S} {T T' : Timeline S} {s : Session S} (inv : Inv masterSecret T s) {p : Party}
    {msg : EncryptedMessage} {ad pt : Bytes} {rng : StepRandom S} {next : RatchetState S}
    (outcome : ratchetDecrypt (s.state p) msg ad rng = (.ok pt, next)) {d : Bytes32} {mk : S} {j n : Nat}
    (opened : Opened T s d mk msg ad pt p.peer j n) (later : T.Later T')
    (level : T'.level p.peer = T.level p.peer) (count : T'.count (T.level p.peer) = T.count (T.level p.peer))
    (keys : ∀ j ≤ T'.top, T'.pub j ∈ (s.decrypt p msg ad rng).dhKeys) (tracks : Tracks T' (T'.level p) next)
    (peers : Peers T' (T'.level p) next (if next.dhr = (s.state p).dhr then s.peerKeys p else s.peerKeys p ++ next.dhr.toList))
    (receives : Receives T' (T'.level p) next (s.taken p ++ [(msg, ad, pt)]))
    (complete : s.evicted p = ∅ → (∀ keyId ∈ (s.state p).skippedKeys, keyId ∈ next.skippedKeys ∨ bankIdOf msg = some keyId) →
      Complete T' (T'.level p) next (s.taken p ++ [(msg, ad, pt)])) :
    Inv masterSecret T' (s.decrypt p msg ad rng) := by
  have call := decrypt_eq outcome
  have state : (s.decrypt p msg ad rng).state p = next := by
    rw [call]
    exact Function.update_self _ _ _
  have taken : (s.decrypt p msg ad rng).taken p = s.taken p ++ [(msg, ad, pt)] := by
    have last : Entry.takenBy p (.delivered p msg ad (.ok pt) : Entry S) = some (msg, ad, pt) := if_pos rfl
    rw [call, Session.taken, List.filterMap_append, List.filterMap_cons, last, List.filterMap_nil]
    rfl
  refine inv.change (p := p) later (congrArg Session.history call) ?_ ?_ ?_ level count (if_neg p.peer_ne.symm) keys ?_ ?_ ?_ ?_
  · rw [call]
    exact Function.update_of_ne p.peer_ne _ _
  · rw [call]
    exact Function.update_of_ne p.peer_ne _ _
  · rw [call]
    exact Function.update_of_ne p.peer_ne _ _
  · refine ⟨?_, ?_, ?_, ?_⟩
    · rw [state]
      exact tracks
    · have held : (s.decrypt p msg ad rng).peerKeys p =
          if next.dhr = (s.state p).dhr then s.peerKeys p else s.peerKeys p ++ next.dhr.toList := by
        rw [call]
        exact Function.update_self _ _ _
      rw [state, held]
      exact peers
    · rw [state, taken]
      exact receives
    · have lost : (s.decrypt p msg ad rng).evicted p = s.evicted p ∪
          (((s.state p).skippedKeys.keys \ next.skippedKeys.keys) \ (bankIdOf msg).toFinset) := by
        rw [call]
        exact Function.update_self _ _ _
      rw [state, taken, lost, Finset.union_eq_empty]
      intro given
      obtain ⟨before, now⟩ := given
      apply complete before
      intro keyId banked
      by_contra gone
      rw [not_or] at gone
      have inside : keyId ∈ ((s.state p).skippedKeys.keys \ next.skippedKeys.keys) \ (bankIdOf msg).toFinset := by
        simp only [Finset.mem_sdiff, Finmap.mem_keys, Option.mem_toFinset, Option.mem_def]
        exact ⟨⟨banked, gone.1⟩, gone.2⟩
      rw [now] at inside
      cases inside
  · intro q key pt' ad' result' same
    cases same
  · intro key used
    cases used
  · intro q msg' ad' pt' same
    cases same
    obtain ⟨key, sent, recorded, header⟩ := opened.source
    obtain ⟨i, inside, found⟩ := List.mem_iff_getElem.mp recorded
    refine ⟨i, inside, key, sent, ?_, header⟩
    rw [call, List.getElem?_append_left inside, List.getElem?_eq_getElem inside, found]

theorem Follows.positive {T : Timeline S} {s : Session S} {p : Party} (own : Follows T s p) {j n : Nat}
    (passed : Passed T (T.level p) (s.state p).receivingMsgNumber j n) : 1 ≤ j := by
  have received := own.tracks.received
  have zero := T.count_zero
  rcases Nat.eq_zero_or_pos j with rfl | positive
  · obtain ⟨_, ⟨_, below⟩ | ⟨current, below⟩⟩ := passed
    · omega
    · have first : T.level p - 1 = 0 := by omega
      rw [first] at received
      omega
  · exact positive

theorem sender_is_peer {T : Timeline S} {p q : Party} {j : Nat} (parity : j % 2 = q.parity)
    (other : (j + T.level p) % 2 = 1) : q = p.peer := by
  have own := T.level_parity p
  rcases p.eq_or_eq_peer q with rfl | rfl
  · omega
  · rfl

theorem accept_banked_inv (ideal : Ideal S) {masterSecret : S} {T : Timeline S} {s : Session S}
    (inv : Inv masterSecret T s) {p : Party} {msg : EncryptedMessage} {ad pt : Bytes} {rng : StepRandom S}
    {d : Bytes32} {mk : S} (seen : ∀ ct, Hex.decode msg.ciphertext = some ct → s.OnWire ct)
    (decoded : decode32 msg.header.dhPub = .ok d)
    (outcome : ratchetDecrypt (s.state p) msg ad rng =
      (.ok pt, consumed (s.state p) (skippedKeyId d msg.header.n)))
    (banked : (s.state p).skippedKeys.lookup (skippedKeyId d msg.header.n) = some mk)
    (opens : openMessage mk msg ad = .ok pt) : Inv masterSecret T (s.decrypt p msg ad rng) := by
  have own := inv.party p
  obtain ⟨q, j, n, opened⟩ := inv.opened ideal seen decoded opens
  obtain ⟨i, m, passed, sameId, sameKey⟩ := own.receives.banked _ mk banked
  obtain ⟨rfl, rfl⟩ := Timeline.messageKey_injective ideal (own.positive passed) opened.positive
    (sameKey.symm.trans opened.key)
  obtain rfl := sender_is_peer opened.parity passed.1
  have ownId := opened.bankId decoded
  rw [sameId] at outcome
  rw [sameKey] at opens
  have tracks := own.tracks
  refine inv.accepted outcome opened (Timeline.Later.refl T) rfl rfl ?_ ?_ ?_ ?_ ?_
  · rw [decrypt_dhKeys outcome, if_pos (show (consumed _ _).dhs = (s.state p).dhs from rfl)]
    exact inv.keys
  · exact ⟨tracks.dhs, tracks.root, tracks.dhr, tracks.sending, tracks.receiving, tracks.sent, tracks.previous,
      tracks.received⟩
  · rw [if_pos (show (consumed _ _).dhr = (s.state p).dhr from rfl)]
    exact ⟨own.peers.last, own.peers.retired, own.peers.nodup, own.peers.known⟩
  · exact own.receives.consume passed ownId (sameId ▸ Finmap.mem_of_lookup_eq_some banked) opens
  · exact fun never _ => (own.complete never).consume ownId

/-! ### Moving along a chain -/

def numbers (j first count : Nat) : List (Nat × Nat) := (List.range' first count).map (Prod.mk j)

theorem mem_numbers {j first count i m : Nat} :
    (i, m) ∈ numbers j first count ↔ i = j ∧ first ≤ m ∧ m < first + count := by
  simp only [numbers, List.mem_map, List.mem_range'_1, Prod.mk.injEq]
  constructor
  · intro given
    obtain ⟨number, inside, rfl, rfl⟩ := given
    exact ⟨rfl, inside⟩
  · intro given
    obtain ⟨rfl, inside⟩ := given
    exact ⟨m, inside, rfl, rfl⟩

theorem nodup_numbers (j first count : Nat) : (numbers j first count).Nodup :=
  List.Nodup.map (fun _ _ same => (Prod.mk.inj same).2) List.nodup_range'

theorem length_numbers (j first count : Nat) : (numbers j first count).length = count := by
  unfold numbers
  rw [List.length_map, List.length_range']

theorem skippedEntries_eq (T : Timeline S) (j first count : Nat) :
    skippedEntries (T.pub j) (chainStep^[first] (T.chain j)) first count = T.entries (numbers j first count) := by
  rw [skippedEntries_eq_map, Timeline.entries, numbers, List.map_map]
  rfl

theorem skips_idle {st mid : RatchetState S} {until_ : UInt32} (idle : st.receivingChainKey = none)
    (skips : Skips st until_ mid) : mid = st := by
  rcases skips with ⟨_, same⟩ | ⟨ck, receiving, _⟩
  · exact same
  · rw [idle] at receiving
    cases receiving

theorem skips_moves {st mid : RatchetState S} {until_ : UInt32} {ck : S} {d : Bytes32}
    (skips : Skips st until_ mid) (receiving : st.receivingChainKey = some ck) (peer : st.dhr = some d) :
    until_.toNat ≤ st.receivingMsgNumber.toNat + maxSkip.toNat ∧
      mid.receivingMsgNumber = UInt32.ofNat
        (st.receivingMsgNumber.toNat + (until_.toNat - st.receivingMsgNumber.toNat)) ∧
      mid.receivingChainKey = some (chainStep^[until_.toNat - st.receivingMsgNumber.toNat] ck) := by
  rcases skips with ⟨idle, _⟩ | ⟨ck', receiving', near, ⟨idle, _⟩ | ⟨d', peer', rfl⟩⟩
  · rw [idle] at receiving
    cases receiving
  · rw [idle] at peer
    cases peer
  · obtain rfl := Option.some.inj (receiving'.symm.trans receiving)
    exact ⟨near, rfl, rfl⟩

theorem tracks_moves {T : Timeline S} {c : Nat} {st mid : RatchetState S} (tracks : Tracks T c st) (started : 2 ≤ c)
    {until_ : UInt32} (skips : Skips st until_ mid) (ahead : st.receivingMsgNumber.toNat ≤ until_.toNat)
    (sent : until_.toNat < T.count (c - 1)) :
    mid.receivingChainKey = some (chainStep^[until_.toNat] (T.chain (c - 1))) ∧
      until_.toNat ≤ st.receivingMsgNumber.toNat + maxSkip.toNat ∧
      (received mid (chainStep^[until_.toNat] (T.chain (c - 1)))).receivingMsgNumber.toNat = until_.toNat + 1 ∧
      Tracks T c (received mid (chainStep^[until_.toNat] (T.chain (c - 1)))) := by
  have bound := T.count_lt (c - 1)
  have receiving := tracks.receiving
  have peer := tracks.dhr
  rw [if_neg (by omega)] at receiving peer
  obtain ⟨near, number, chain⟩ := skips_moves skips receiving peer
  rw [← Function.iterate_add_apply, show until_.toNat - st.receivingMsgNumber.toNat +
    st.receivingMsgNumber.toNat = until_.toNat by omega] at chain
  rw [show st.receivingMsgNumber.toNat + (until_.toNat - st.receivingMsgNumber.toNat) = until_.toNat by omega,
    UInt32.ofNat_toNat] at number
  have frame := skips_frame skips
  have next : (received mid (chainStep^[until_.toNat] (T.chain (c - 1)))).receivingMsgNumber.toNat =
      until_.toNat + 1 := by
    change (mid.receivingMsgNumber + 1).toNat = _
    rw [number]
    exact toNat_succ (by omega)
  refine ⟨chain, near, next, ?_, ?_, ?_, ?_, ?_, ?_, ?_, ?_⟩
  · exact (congrArg RatchetState.dhs frame).trans tracks.dhs
  · exact (congrArg RatchetState.rootKey frame).trans tracks.root
  · exact (congrArg RatchetState.dhr frame).trans tracks.dhr
  · exact (congrArg RatchetState.sendingChainKey frame).trans tracks.sending
  · rw [if_neg (by omega), next, Function.iterate_succ_apply']
    rfl
  · exact (congrArg (fun s => s.sendingMsgNumber.toNat) frame).trans tracks.sent
  · exact (congrArg (fun s => s.previousSendingChainLength.toNat) frame).trans tracks.previous
  · omega

/-- Reading number `n` of the current chain banks the numbers before it. -/
theorem advances_on_chain {T : Timeline S} {c n : Nat} {st next : RatchetState S} (known : c ≤ T.top) (started : 2 ≤ c)
    (ahead : st.receivingMsgNumber.toNat ≤ n) (number : next.receivingMsgNumber.toNat = n + 1)
    (bank : SameBank next (bankAll st (T.entries
      (numbers (c - 1) st.receivingMsgNumber.toNat (n - st.receivingMsgNumber.toNat))))) :
    Advances T T c c st next
      (numbers (c - 1) st.receivingMsgNumber.toNat (n - st.receivingMsgNumber.toNat)) (c - 1) n where
  later := Timeline.Later.refl T
  known := known
  known' := known
  bank := bank
  passed := by
    intro i m
    rw [mem_numbers, Prod.mk.injEq]
    unfold Passed
    rw [number]
    constructor
    · intro given
      rcases given with ⟨parity, old | ⟨current, below⟩⟩
      · exact Or.inl ⟨parity, Or.inl old⟩
      · by_cases before : m < st.receivingMsgNumber.toNat
        · exact Or.inl ⟨parity, Or.inr ⟨current, before⟩⟩
        · omega
    · intro either
      rcases either with ⟨parity, old | ⟨current, below⟩⟩ | ⟨same, from_, below⟩ | ⟨same, last⟩
      · exact ⟨parity, Or.inl old⟩
      · exact ⟨parity, Or.inr ⟨current, by omega⟩⟩
      · exact ⟨by omega, Or.inr ⟨by omega, by omega⟩⟩
      · exact ⟨by omega, Or.inr ⟨by omega, by omega⟩⟩
  unseen := by
    intro i m new passed
    rw [mem_numbers, Prod.mk.injEq] at new
    obtain ⟨_, ⟨old, _⟩ | ⟨_, below⟩⟩ := passed
    · omega
    · omega
  skipped := by
    rw [mem_numbers]
    omega
  nodup := nodup_numbers _ _ _

theorem accept_chain_inv (ideal : Ideal S) {masterSecret : S} {T : Timeline S} {s : Session S}
    (inv : Inv masterSecret T s) {p : Party} {msg : EncryptedMessage} {ad pt : Bytes} {rng : StepRandom S}
    {d : Bytes32} {mid : RatchetState S} {ck : S} (seen : ∀ ct, Hex.decode msg.ciphertext = some ct → s.OnWire ct)
    (decoded : decode32 msg.header.dhPub = .ok d)
    (outcome : ratchetDecrypt (s.state p) msg ad rng = (.ok pt, received mid ck))
    (unread : ¬IsReplay (s.state p) d msg.header.n) (current : (s.state p).dhr = some d)
    (skips : Skips (s.state p) msg.header.n mid) (receiving : mid.receivingChainKey = some ck)
    (opens : openMessage (messageKeyOf ck) msg ad = .ok pt) : Inv masterSecret T (s.decrypt p msg ad rng) := by
  have own := inv.party p
  have known := T.level_le p
  have tracks := own.tracks
  obtain ⟨q, j, n, opened⟩ := inv.opened ideal seen decoded opens
  obtain rfl := opened.toNat
  have started : 2 ≤ T.level p := by
    by_contra young
    have idle := tracks.receiving
    rw [if_pos (by omega)] at idle
    rw [skips_idle idle skips, idle] at receiving
    cases receiving
  have dhr := tracks.dhr
  rw [if_neg (by omega), current] at dhr
  -- the header key is that of the current chain
  obtain rfl : j = T.level p - 1 :=
    T.distinct j opened.inside (T.level p - 1) (by omega) (opened.pub.symm.trans (Option.some.inj dhr))
  have ahead : (s.state p).receivingMsgNumber.toNat ≤ msg.header.n.toNat := by
    by_contra behind
    exact unread (Or.inr ⟨current, UInt32.lt_iff_toNat_lt.mpr (by omega)⟩)
  have below := opened.below
  obtain ⟨chain, near, moved, tracks'⟩ := tracks_moves tracks started skips ahead (by omega)
  obtain rfl := Option.some.inj (receiving.symm.trans chain)
  obtain rfl := sender_is_peer opened.parity (show (T.level p - 1 + T.level p) % 2 = 1 by omega)
  have ownId := opened.bankId decoded
  obtain ⟨peer, ⟨_, sameKey, retired⟩ | ⟨different, _⟩⟩ := reaches_keys (Or.inl ⟨current, skips⟩ : Reaches _ _ d rng mid)
  swap
  · exact absurd current different
  have keeps : (received mid (chainStep^[msg.header.n.toNat] (T.chain (T.level p - 1)))).dhr = (s.state p).dhr :=
    peer.trans current.symm
  have bank : SameBank (received mid (chainStep^[msg.header.n.toNat] (T.chain (T.level p - 1))))
      (bankAll (s.state p) (T.entries (numbers (T.level p - 1) (s.state p).receivingMsgNumber.toNat
        (msg.header.n.toNat - (s.state p).receivingMsgNumber.toNat)))) := by
    have banked := skips_bank skips
    have receiving' := tracks.receiving
    have peer := tracks.dhr
    rw [if_neg (by omega)] at receiving' peer
    rw [keysSkipped, receiving', peer] at banked
    dsimp only at banked
    rw [skippedEntries_eq] at banked
    exact ⟨banked.1, banked.2⟩
  have advances := advances_on_chain known started ahead moved bank
  have opens' : openMessage (T.messageKey (T.level p - 1) msg.header.n.toNat) msg ad = .ok pt := by
    rw [← opened.key]
    exact opens
  refine inv.accepted outcome opened (Timeline.Later.refl T) rfl rfl ?_ tracks' ?_ ?_ ?_
  · rw [decrypt_dhKeys outcome, if_pos (show (received _ _).dhs = _ from sameKey)]
    exact inv.keys
  · rw [if_pos keeps]
    exact ⟨own.peers.last.trans keeps.symm, retired.trans own.peers.retired, own.peers.nodup, own.peers.known⟩
  · exact own.receives.advance advances ownId opens'
  · intro never kept
    have limit : maxSkip.toNat ≤ maxSkippedKeys := by
      unfold maxSkippedKeys
      decide
    apply (own.complete never).advance own.receives advances ownId _ kept
    rw [length_numbers]
    omega

end TrinoCore
