import TrinoCore.Ratchet.Run
import TrinoCore.Symbolic

namespace TrinoCore

theorem eq_of_nodup_filterMap {α β : Type} {f : α → Option β} {l : List α} (nodup : (l.filterMap f).Nodup)
    {i k : Nat} {a b : α} {x : β} (first : l[i]? = some a) (second : l[k]? = some b) (fa : f a = some x)
    (fb : f b = some x) : i = k := by
  have distinct := List.pairwise_iff_getElem.mp (List.pairwise_filterMap.mp nodup)
  obtain ⟨hi, rfl⟩ := List.getElem?_eq_some_iff.mp first
  obtain ⟨hk, rfl⟩ := List.getElem?_eq_some_iff.mp second
  rcases Nat.lt_trichotomy i k with before | same | after
  · exact (distinct i k hi hk before x fa x fb rfl).elim
  · exact same
  · exact (distinct k i hk hi after x fb x fa rfl).elim

variable {S : Type} [Primitives S]

/-- The gaps `ratchet_decrypt` has to skip for a message under `d` are within `MAX_SKIP`. -/
def GapsWithin (st : RatchetState S) (header : MessageHeader) (d : Bytes32) : Prop :=
  if st.dhr = some d then header.n.toNat - st.receivingMsgNumber.toNat ≤ maxSkip.toNat
  else (st.receivingChainKey.isSome → header.pn.toNat - st.receivingMsgNumber.toNat ≤ maxSkip.toNat) ∧
    header.n.toNat ≤ maxSkip.toNat

/-- The key of the message is banked, or the chains can be moved to it. -/
def InReach (st : RatchetState S) (msg : EncryptedMessage) : Prop :=
  ∃ d, decode32 msg.header.dhPub = .ok d ∧
    (skippedKeyId d msg.header.n ∈ st.skippedKeys ∨ GapsWithin st msg.header d)

theorem skips_exists (st : RatchetState S) (until_ : UInt32)
    (near : st.receivingChainKey.isSome → until_.toNat ≤ st.receivingMsgNumber.toNat + maxSkip.toNat) :
    ∃ mid, Skips st until_ mid := by
  cases receiving : st.receivingChainKey with
  | none => exact ⟨st, Or.inl ⟨receiving, rfl⟩⟩
  | some ck =>
    rw [receiving] at near
    cases peer : st.dhr with
    | none => exact ⟨st, Or.inr ⟨ck, receiving, near rfl, Or.inl ⟨peer, rfl⟩⟩⟩
    | some d => exact ⟨_, Or.inr ⟨ck, receiving, near rfl, Or.inr ⟨d, peer, rfl⟩⟩⟩

theorem Timeline.IsMessage.opens (correct : Correct S) {T : Timeline S} {j n : Nat} {pt ad : Bytes}
    {msg : EncryptedMessage} (message : T.IsMessage j n pt ad msg) :
    decode32 msg.header.dhPub = .ok (T.pub j) ∧ openMessage (T.messageKey j n) msg ad = .ok pt := by
  obtain ⟨nonce, ct, same, sealed⟩ := message
  have decoded : decode32 msg.header.dhPub = .ok (T.pub j) := by
    rw [same]
    exact decode32_encode (T.pub j)
  have opened := correct.open_sealed sealed
  refine ⟨decoded, (openMessage_ok decoded).mpr ⟨ct, nonce, ?_, ?_, ?_⟩⟩
  · rw [same]
    exact Hex.decode_encode ct
  · rw [same]
    exact Hex.decode_encode nonce.toList
  · rw [same]
    exact opened

theorem bankIdOf_header (T : Timeline S) (j n : Nat) (nonce ciphertext : String) :
    bankIdOf ⟨T.header j n, nonce, ciphertext⟩ = some (T.bankId j n) := by
  have decoded : decode32 (T.header j n).dhPub = .ok (T.pub j) := decode32_encode (T.pub j)
  unfold bankIdOf
  rw [decoded]
  rfl

theorem genuine_taken {masterSecret : S} {s : Session S} (reached : Reachable Genuine masterSecret s) {p : Party}
    {msg : EncryptedMessage} {ad pt : Bytes} (taken : Entry.delivered p msg ad (.ok pt) ∈ s.history) :
    s.Sent p.peer msg := by
  have grows : ∀ {s s' : Session S} {entry : Entry S}, s'.history = s.history ++ [entry] → s.Sent p.peer msg →
      s'.Sent p.peer msg := by
    rintro s s' entry grown ⟨key, pt', ad', present⟩
    exact ⟨key, pt', ad', by rw [grown]; exact List.mem_append_left _ present⟩
  induction reached with
  | start made fresh => cases taken
  | @encrypt s _ q pt' ad' nonce room ih =>
    have grown : (s.encrypt q pt' ad' nonce).history = s.history ++
      [.encrypted q (Session.sendingKey (s.state q)) pt' ad' ((ratchetEncrypt pt' ad' nonce).exec (s.state q)).1] := rfl
    rw [grown] at taken
    rcases List.mem_append.mp taken with old | last
    · exact grows grown (ih old)
    · cases List.mem_singleton.mp last
  | @decrypt s _ q msg' ad' rng fresh offered ih =>
    have grown : (s.decrypt q msg' ad' rng).history = s.history ++
      [.delivered q msg' ad' (ratchetDecrypt (s.state q) msg' ad' rng).1] := rfl
    rw [grown] at taken
    rcases List.mem_append.mp taken with old | last
    · exact grows grown (ih old)
    · obtain ⟨rfl, rfl, rfl, result⟩ := Entry.delivered.inj (List.mem_singleton.mp last)
      rcases offered with genuine | ⟨e, failed⟩
      · exact grows grown genuine
      · rw [failed] at result
        cases result

theorem Inv.sent_once {masterSecret : S} {T : Timeline S} {s : Session S}
    (inv : Inv masterSecret T s) {p : Party} {key key' : Option S} {pt ad pt' ad' : Bytes} {msg msg' : EncryptedMessage}
    (sent : Entry.encrypted p key pt ad (.ok msg) ∈ s.history)
    (sent' : Entry.encrypted p key' pt' ad' (.ok msg') ∈ s.history)
    (same : bankIdOf msg = bankIdOf msg') : msg = msg' ∧ ad = ad' := by
  rcases inv.sent _ _ _ _ _ sent with ⟨_, e, absurd⟩ | ⟨j, n, _, positive, inside, below, isKey, message⟩
  · cases absurd
  rcases inv.sent _ _ _ _ _ sent' with ⟨_, e, absurd⟩ | ⟨j', n', _, _, inside', below', isKey', message'⟩
  · cases absurd
  have own : bankIdOf msg = some (T.bankId j n) := by
    obtain ⟨nonce, ct, rfl, _⟩ := message msg rfl
    exact bankIdOf_header T j n _ _
  have own' : bankIdOf msg' = some (T.bankId j' n') := by
    obtain ⟨nonce, ct, rfl, _⟩ := message' msg' rfl
    exact bankIdOf_header T j' n' _ _
  have counted := T.count_lt j
  have counted' := T.count_lt j'
  obtain ⟨rfl, rfl⟩ := Timeline.bankId_inj inside inside' (by omega) (by omega)
    (Option.some.inj (own.symm.trans (same.trans own')))
  obtain ⟨i, hi⟩ := List.mem_iff_getElem?.mp sent
  obtain ⟨k, hk⟩ := List.mem_iff_getElem?.mp sent'
  obtain rfl := eq_of_nodup_filterMap inv.fresh hi hk isKey isKey'
  cases Option.some.inj (hi.symm.trans hk)
  exact ⟨rfl, rfl⟩

/-- A message that was not accepted yet is not among the messages taken, in no spelling. -/
theorem genuine_unread (ideal : Ideal S) {masterSecret : S} {s : Session S} (reached : Reachable Genuine masterSecret s)
    {T : Timeline S} (inv : Inv masterSecret T s) {p : Party} {key : Option S} {pt ad : Bytes} {msg : EncryptedMessage}
    (sent : Entry.encrypted p.peer key pt ad (.ok msg) ∈ s.history)
    (first : ∀ pt', Entry.delivered p msg ad (.ok pt') ∉ s.history) :
    ∀ entry ∈ s.taken p, bankIdOf entry.1 ≠ bankIdOf msg := by
  rintro ⟨msg', ad', pt'⟩ present same
  have accepted := Session.mem_taken.mp present
  obtain ⟨key', pt'', ad'', sent'⟩ := genuine_taken reached accepted
  obtain ⟨rfl, rfl⟩ := inv.sent_once sent' sent same
  -- the accepted associated data is the one it was sealed with
  obtain ⟨j, n, _, _, _, opens⟩ := (inv.party p).receives.read _ _ _ present
  rcases inv.sent _ _ _ _ _ sent' with ⟨_, e, absurd⟩ | ⟨j', n', _, _, _, _, _, message⟩
  · cases absurd
  obtain ⟨decoded, opens'⟩ := (message msg' rfl).opens ideal.toCorrect
  obtain ⟨ct, nonce, ciphertext, _, opened⟩ := (openMessage_ok decoded).mp opens
  obtain ⟨ct', nonce', ciphertext', _, opened'⟩ := (openMessage_ok decoded).mp opens'
  obtain rfl := Option.some.inj (ciphertext.symm.trans ciphertext')
  obtain ⟨_, _, _, sameAd⟩ := ideal.seal_inj (ideal.sealed_of_open opened) (ideal.sealed_of_open opened')
  obtain ⟨rfl, _⟩ := headerBytes_inj sameAd
  exact first pt' accepted

section
variable {masterSecret : S} {T : Timeline S} {s : Session S} {p : Party} {j n : Nat} {pt ad : Bytes}
  {msg : EncryptedMessage}

theorem Inv.decrypts_banked (inv : Inv masterSecret T s) (inside : j ≤ T.top) (small : n < 2 ^ 32)
    (own : bankIdOf msg = some (T.bankId j n)) (opens : openMessage (T.messageKey j n) msg ad = .ok pt)
    (banked : T.bankId j n ∈ (s.state p).skippedKeys) (rng : StepRandom S) :
    (ratchetDecrypt (s.state p) msg ad rng).1 = .ok pt := by
  obtain ⟨mk, found⟩ := Finmap.mem_iff.mp banked
  obtain ⟨i, m, passed, sameId, rfl⟩ := (inv.party p).receives.banked _ mk found
  have level := T.level_le p
  have below := passed.lt
  obtain ⟨rfl, rfl⟩ := Timeline.bankId_inj inside (by omega) small below.1 sameId
  cases decoded : decode32 msg.header.dhPub with
  | error e =>
    rw [bankIdOf, decoded] at own
    cases own
  | ok d =>
    rw [bankIdOf, decoded] at own
    rw [← Option.some.inj own] at found
    have accepted : ratchetDecrypt (s.state p) msg ad rng = (.ok pt, _) := (ratchetDecrypt_ok_iff decoded).mpr (Or.inl ⟨_, found, opens, rfl⟩)
    rw [accepted]

theorem Peers.current_not_retired {c : Nat} {st : RatchetState S} {peerKeys : List Bytes32} {d : Bytes32}
    (peers : Peers T c st peerKeys) (current : st.dhr = some d) : d ∉ st.retiredPeerDhKeys := by
  intro present
  rw [peers.retired] at present
  have old := List.mem_of_mem_drop present
  have last := peers.last.trans current
  obtain ⟨front, rfl⟩ := List.getLast?_eq_some_iff.mp last
  rw [List.dropLast_concat] at old
  exact (List.nodup_append.mp peers.nodup).2.2 d old d (List.mem_singleton.mpr rfl) rfl

theorem Inv.decrypts_on_chain (inv : Inv masterSecret T s) (positive : 1 ≤ j) (current : j + 1 = T.level p)
    (below : n < T.count j) (ahead : (s.state p).receivingMsgNumber.toNat ≤ n)
    (message : T.IsMessage j n pt ad msg) (opens : openMessage (T.messageKey j n) msg ad = .ok pt)
    (unbanked : T.bankId j n ∉ (s.state p).skippedKeys) (near : GapsWithin (s.state p) msg.header (T.pub j))
    (rng : StepRandom S) : (ratchetDecrypt (s.state p) msg ad rng).1 = .ok pt := by
  have own := inv.party p
  have counted := T.count_lt j
  have dhr : (s.state p).dhr = some (T.pub j) := by
    rw [own.tracks.dhr, if_neg (by omega), ← current, Nat.add_sub_cancel]
  obtain ⟨nonce, ct, same, _⟩ := message
  have number : msg.header.n = UInt32.ofNat n := by rw [same]; rfl
  have value : msg.header.n.toNat = n := by rw [number]; exact toNat_ofNat (by omega)
  have decoded : decode32 msg.header.dhPub = .ok (T.pub j) := by rw [same]; exact decode32_encode (T.pub j)
  rw [GapsWithin, if_pos dhr] at near
  obtain ⟨mid, skips⟩ := skips_exists (s.state p) msg.header.n (fun _ => by omega)
  obtain ⟨chain, _⟩ := tracks_moves own.tracks (by omega) skips (by omega)
    (by rw [value, ← current, Nat.add_sub_cancel]; exact below)
  rw [← current, Nat.add_sub_cancel, value] at chain
  have unread : ¬IsReplay (s.state p) (T.pub j) msg.header.n := by
    intro either
    rcases either with retired | ⟨_, behind⟩
    · exact own.peers.current_not_retired dhr retired
    · have less := UInt32.lt_iff_toNat_lt.mp behind
      omega
  have absent : (s.state p).skippedKeys.lookup (skippedKeyId (T.pub j) msg.header.n) = none := by
    rw [number]
    exact Finmap.lookup_eq_none.mpr unbanked
  have accepted : ratchetDecrypt (s.state p) msg ad rng = (.ok pt, _) := (ratchetDecrypt_ok_iff decoded).mpr
    (Or.inr ⟨absent, unread, mid, _, Or.inl ⟨dhr, skips⟩, chain, opens, rfl⟩)
  rw [accepted]

theorem Inv.decrypts_after_step (correct : Correct S) (inv : Inv masterSecret T s) (next : j = T.level p + 1)
    (inside : j ≤ T.top) (below : n < T.count j) (message : T.IsMessage j n pt ad msg)
    (opens : openMessage (T.messageKey j n) msg ad = .ok pt) (unbanked : T.bankId j n ∉ (s.state p).skippedKeys)
    (near : GapsWithin (s.state p) msg.header (T.pub j)) (rng : StepRandom S) :
    (ratchetDecrypt (s.state p) msg ad rng).1 = .ok pt := by
  have own := inv.party p
  have counted := T.count_lt j
  have known : ∀ i, i < T.level p → T.pub j ≠ T.pub i := by
    intro i old same
    have equal := T.distinct j inside i (by omega) same
    omega
  have different : (s.state p).dhr ≠ some (T.pub j) := by
    rw [own.tracks.dhr]
    split
    · intro same
      cases same
    · intro same
      exact known (T.level p - 1) (by omega) (Option.some.inj same).symm
  have unread : ¬IsReplay (s.state p) (T.pub j) msg.header.n := by
    intro either
    rcases either with retired | ⟨same, _⟩
    · rw [own.peers.retired] at retired
      obtain ⟨i, old, equal⟩ := own.peers.known _ (List.dropLast_subset _ (List.mem_of_mem_drop retired))
      exact known i old equal
    · exact different same
  obtain ⟨nonce, ct, same, _⟩ := message
  have number : msg.header.n = UInt32.ofNat n := by rw [same]; rfl
  have value : msg.header.n.toNat = n := by rw [number]; exact toNat_ofNat (by omega)
  have decoded : decode32 msg.header.dhPub = .ok (T.pub j) := by rw [same]; exact decode32_encode (T.pub j)
  rw [GapsWithin, if_neg different] at near
  obtain ⟨before, skips⟩ := skips_exists (s.state p) msg.header.pn
    (fun receiving => by have gap := near.1 receiving; omega)
  obtain ⟨mid, skips'⟩ := skips_exists (stepped before (T.pub j) rng) msg.header.n
    (fun _ => by have gap := near.2; omega)
  have chain := (skips_moves skips' rfl rfl).2.2
  -- the chain the step derives is the one the peer sends on
  have frame := skips_frame skips
  have root : before.rootKey = T.root (T.level p) := (congrArg RatchetState.rootKey frame :).trans own.tracks.root
  have dhs : before.dhs = generateX25519 S (T.priv (T.level p)) :=
    (congrArg RatchetState.dhs frame :).trans own.tracks.dhs
  have start : chainStart before.rootKey (x25519DeriveShared before.dhs.privBytes (T.pub j) rng.recvFallback) =
      T.chain j := by
    rw [root, dhs, next]
    exact congrArg (chainStart _) (derive_next correct T (T.level p) _)
  rw [start] at chain
  have zero : (stepped before (T.pub j) rng).receivingMsgNumber.toNat = 0 := rfl
  rw [zero, Nat.sub_zero, value] at chain
  have absent : (s.state p).skippedKeys.lookup (skippedKeyId (T.pub j) msg.header.n) = none := by
    rw [number]
    exact Finmap.lookup_eq_none.mpr unbanked
  have accepted : ratchetDecrypt (s.state p) msg ad rng = (.ok pt, _) := (ratchetDecrypt_ok_iff decoded).mpr
    (Or.inr ⟨absent, unread, mid, _, Or.inr ⟨different, before, skips, skips'⟩, chain, opens, rfl⟩)
  rw [accepted]

/-- A message of the peer that is unread and in reach decrypts. -/
theorem Inv.decrypts (correct : Correct S) (inv : Inv masterSecret T s) (never : s.evicted p = ∅)
    (parity : j % 2 = p.peer.parity) (positive : 1 ≤ j) (inside : j ≤ T.top) (below : n < T.count j)
    (message : T.IsMessage j n pt ad msg) (unread : ∀ entry ∈ s.taken p, bankIdOf entry.1 ≠ bankIdOf msg)
    (near : InReach (s.state p) msg) (rng : StepRandom S) :
    (ratchetDecrypt (s.state p) msg ad rng).1 = .ok pt := by
  have own := inv.party p
  have counted := T.count_lt j
  have neighbours := T.level_peer p
  have ownParity := T.level_parity p
  have bothParities := p.parity_peer
  obtain ⟨decoded, opens⟩ := message.opens correct
  have ownId : bankIdOf msg = some (T.bankId j n) := by
    obtain ⟨nonce, ct, rfl, _⟩ := message
    exact bankIdOf_header T j n _ _
  by_cases banked : T.bankId j n ∈ (s.state p).skippedKeys
  · exact inv.decrypts_banked inside (by omega) ownId opens banked rng
  have ahead : ¬Passed T (T.level p) (s.state p).receivingMsgNumber j n := by
    intro passed
    rcases own.complete never j n passed with still | ⟨entry, present, read⟩
    · exact banked still
    · exact unread entry present (read.trans ownId.symm)
  obtain ⟨d, decoded', reach⟩ := near
  obtain rfl := Except.ok.inj (decoded'.symm.trans decoded)
  have gaps : GapsWithin (s.state p) msg.header (T.pub j) := by
    rcases reach with inBank | gaps
    · refine (banked ?_).elim
      rw [bankIdOf, decoded] at ownId
      rw [← Option.some.inj ownId]
      exact inBank
    · exact gaps
  unfold Passed at ahead
  by_cases current : j + 1 = T.level p
  · exact inv.decrypts_on_chain positive current below (by omega) message opens banked gaps rng
  · exact inv.decrypts_after_step correct (by omega) inside below message opens banked gaps rng

end

/-! ### A first message in the free model -/

def sampleStart : Session FreeKey :=
  .start sampleInitiator (initResponder sampleMaster (generateX25519 FreeKey (sampleBytes 32 0)))

def sampleSent : Session FreeKey := sampleStart.encrypt .initiator [7] [] (sampleBytes 12 0)

def sampleMessage : EncryptedMessage :=
  ⟨nextHeader sampleInitiator, Hex.encode (sampleBytes 12 0).toList,
    Hex.encode (pack [(messageKeyOf (chainStart sampleMaster
      (x25519 (sampleBytes 32 1) (x25519Pub FreeKey (sampleBytes 32 0))))).derivation, (sampleBytes 12 0).toList, [7],
      headerAd [] sampleInitiator.dhs.pubBytes 0 0])⟩

theorem sampleStart_reachable : Reachable Genuine sampleMaster sampleStart :=
  @Reachable.start _ _ _ _ _ (sampleRandom 1) _ rfl (by decide)

theorem sampleSent_reachable : Reachable Genuine sampleMaster sampleSent :=
  .encrypt sampleStart_reachable .initiator [7] [] (sampleBytes 12 0) (by decide)

theorem sampleSent_history : ∃ key, sampleSent.history = [.encrypted .initiator key [7] [] (.ok sampleMessage)] := by
  refine ⟨Session.sendingKey sampleInitiator, ?_⟩
  have sending : sampleInitiator.sendingChainKey = some (chainStart sampleMaster
    (x25519 (sampleBytes 32 1) (x25519Pub FreeKey (sampleBytes 32 0)))) := rfl
  have result := congrArg Prod.fst (ratchetEncrypt_some sending [7] [] (sampleBytes 12 0))
  change [Entry.encrypted .initiator _ [7] [] ((ratchetEncrypt [7] [] (sampleBytes 12 0)).exec sampleInitiator).1] = _
  rw [result]
  rfl

theorem sampleMessage_decodes : decode32 sampleMessage.header.dhPub = .ok sampleInitiator.dhs.pubBytes :=
  decode32_encode sampleInitiator.dhs.pubBytes

theorem sampleMessage_inReach : InReach (sampleSent.state .responder) sampleMessage := by
  refine ⟨sampleInitiator.dhs.pubBytes, sampleMessage_decodes, Or.inr ?_⟩
  have untouched : sampleSent.state .responder =
    initResponder sampleMaster (generateX25519 FreeKey (sampleBytes 32 0)) := rfl
  rw [untouched, GapsWithin, if_neg (fun same => by cases same)]
  exact ⟨fun receiving => absurd receiving (by decide), Nat.zero_le _⟩

def sampleRead : Session FreeKey := sampleSent.decrypt .responder sampleMessage [] (sampleRandom 2)

theorem sampleRead_reachable : Reachable Genuine sampleMaster sampleRead := by
  obtain ⟨key, history⟩ := sampleSent_history
  refine .decrypt sampleSent_reachable .responder sampleMessage [] (sampleRandom 2) (by decide) (Or.inl ?_)
  exact ⟨key, [7], [], by rw [history]; exact List.mem_cons_self⟩

theorem sampleRead_accepts : ∃ key, sampleRead.history =
    [.encrypted .initiator key [7] [] (.ok sampleMessage), .delivered .responder sampleMessage [] (.ok [7])] := by
  obtain ⟨key, history⟩ := sampleSent_history
  obtain ⟨T, inv⟩ := genuine_inv freeKey_ideal sampleSent_reachable
  have sent : Entry.encrypted .initiator key [7] [] (.ok sampleMessage) ∈ sampleSent.history := by
    rw [history]
    exact List.mem_cons_self
  have nothing : sampleSent.taken .responder = [] := by
    unfold Session.taken
    rw [history]
    rfl
  rcases inv.sent _ _ _ _ _ sent with ⟨_, e, absurd⟩ | ⟨j, n, parity, positive, inside, below, _, message⟩
  · cases absurd
  have accepted := inv.decrypts (p := .responder) freeKey_ideal.toCorrect rfl parity positive inside below
    (message _ rfl) (by rw [nothing]; intro entry present; cases present) sampleMessage_inReach (sampleRandom 2)
  refine ⟨key, ?_⟩
  change sampleSent.history ++ [Entry.delivered .responder sampleMessage []
    (ratchetDecrypt (sampleSent.state .responder) sampleMessage [] (sampleRandom 2)).1] = _
  rw [accepted, history]
  rfl

/-! ### Delivery -/

/-- Every genuine message that was not accepted yet and is within reach decrypts to what was
encrypted, whatever was sent, delivered, lost or rejected before. -/
theorem genuine_message_decrypts (ideal : Ideal S) {masterSecret : S} {s : Session S}
    (reached : Reachable Genuine masterSecret s) {p : Party} {key : Option S} {pt ad : Bytes} {msg : EncryptedMessage}
    (sent : Entry.encrypted p.peer key pt ad (.ok msg) ∈ s.history)
    (first : ∀ pt', Entry.delivered p msg ad (.ok pt') ∉ s.history) (near : InReach (s.state p) msg)
    (never : s.evicted p = ∅) (rng : StepRandom S) : (ratchetDecrypt (s.state p) msg ad rng).1 = .ok pt := by
  obtain ⟨T, inv⟩ := genuine_inv ideal reached
  have unread := genuine_unread ideal reached inv sent first
  rcases inv.sent _ _ _ _ _ sent with ⟨_, e, absurd⟩ | ⟨j, n, parity, positive, inside, below, _, message⟩
  · cases absurd
  · exact inv.decrypts ideal.toCorrect never parity positive inside below (message msg rfl) unread near rng

def sampleTwo : Session FreeKey := sampleSent.encrypt .initiator [8] [] (sampleBytes 12 1)

theorem sampleSent_initiator : sampleSent.state .initiator = afterSend sampleInitiator sampleChain := by
  have sending : sampleInitiator.sendingChainKey = some sampleChain := rfl
  have result := congrArg Prod.snd (ratchetEncrypt_some sending [7] [] (sampleBytes 12 0))
  exact (sampleStart.encrypt_self [7] [] (sampleBytes 12 0)).trans result

theorem sampleTwo_reachable : Reachable Genuine sampleMaster sampleTwo := by
  refine .encrypt sampleSent_reachable .initiator [8] [] (sampleBytes 12 1) ?_
  rw [sampleSent_initiator]
  decide

theorem sampleTwo_history : ∃ key key', sampleTwo.history =
    [.encrypted .initiator key [7] [] (.ok sampleMessage), .encrypted .initiator key' [8] [] (.ok sampleSecond)] := by
  obtain ⟨key, history⟩ := sampleSent_history
  have sending : (afterSend sampleInitiator sampleChain).sendingChainKey = some (chainStep sampleChain) := rfl
  have result := congrArg Prod.fst (ratchetEncrypt_some sending [8] [] (sampleBytes 12 1))
  refine ⟨key, Session.sendingKey (sampleSent.state .initiator), ?_⟩
  change sampleSent.history ++ [Entry.encrypted .initiator _ [8] []
    ((ratchetEncrypt [8] [] (sampleBytes 12 1)).exec (sampleSent.state .initiator)).1] = _
  rw [history, sampleSent_initiator, result]
  rfl

theorem sampleTwo_responder : sampleTwo.state .responder = sampleResponder := by
  have first : sampleSent.state .responder = sampleResponder := rfl
  exact (sampleSent.encrypt_other (by decide) [8] [] (sampleBytes 12 1)).trans first

theorem sampleSecond_inReach : InReach (sampleTwo.state .responder) sampleSecond := by
  refine ⟨sampleInitiator.dhs.pubBytes, sampleSecond_decodes, Or.inr ?_⟩
  rw [sampleTwo_responder, GapsWithin, if_neg (fun same => by cases same)]
  exact ⟨fun receiving => absurd receiving (by decide), by decide⟩

/-- The second message has overtaken the first one. -/
def sampleOvertaken : Session FreeKey := sampleTwo.decrypt .responder sampleSecond [] (sampleRandom 2)

theorem overtaken_banks {next : RatchetState FreeKey} {pt : Bytes}
    (accepted : ratchetDecrypt sampleResponder sampleSecond [] (sampleRandom 2) = (.ok pt, next)) :
    skippedKeyId sampleInitiator.dhs.pubBytes 0 ∈ next.skippedKeys := by
  have wf : WellFormed sampleResponder := ⟨List.nodup_nil, fun keyId ordered => by cases ordered⟩
  obtain ⟨d, decoded, ⟨banked, _⟩ | ⟨_, bank⟩⟩ := decrypt_bank accepted
  · cases Finmap.notMem_empty banked
  · obtain rfl := Except.ok.inj (sampleSecond_decodes.symm.trans decoded)
    rw [bank.1]
    obtain ⟨_, _, _, _, added, _⟩ := banksInOrder wf (skippedKeyId sampleInitiator.dhs.pubBytes 0) (messageKeyOf sampleChain)
    exact added Finmap.notMem_empty

theorem decrypt_evicts_nothing {s : Session S} {p : Party} (empty : (s.state p).skippedKeys = ∅)
    (msg : EncryptedMessage) (ad : Bytes) (rng : StepRandom S) : (s.decrypt p msg ad rng).evicted p = s.evicted p := by
  refine (Function.update_self _ _ _).trans ?_
  rw [empty, Finmap.keys_empty, Finset.empty_sdiff, Finset.empty_sdiff, Finset.union_empty]

theorem genuine_message_decrypts_sample :
    (ratchetDecrypt (sampleTwo.state .responder) sampleSecond [] (sampleRandom 2)).1 = .ok [8] ∧
      (ratchetDecrypt (sampleOvertaken.state .responder) sampleMessage [] (sampleRandom 3)).1 = .ok [7] := by
  obtain ⟨key, key', history⟩ := sampleTwo_history
  have second : (ratchetDecrypt (sampleTwo.state .responder) sampleSecond [] (sampleRandom 2)).1 = .ok [8] := by
    have sent : Entry.encrypted Party.responder.peer key' [8] [] (.ok sampleSecond) ∈ sampleTwo.history := by
      rw [history]
      exact List.mem_cons_of_mem _ List.mem_cons_self
    refine genuine_message_decrypts freeKey_ideal sampleTwo_reachable sent ?_ sampleSecond_inReach rfl (sampleRandom 2)
    intro pt' present
    simp [history] at present
  refine ⟨second, ?_⟩
  rcases outcome : ratchetDecrypt (sampleTwo.state .responder) sampleSecond [] (sampleRandom 2) with ⟨result, next⟩
  rw [outcome] at second
  obtain rfl : result = .ok [8] := second
  have state : sampleOvertaken.state .responder = next :=
    (sampleTwo.decrypt_self sampleSecond [] (sampleRandom 2)).trans (congrArg Prod.snd outcome)
  have entries : sampleOvertaken.history = sampleTwo.history ++ [.delivered .responder sampleSecond [] (.ok [8])] :=
    congrArg Session.history (decrypt_eq outcome)
  have evicted : sampleOvertaken.evicted .responder = ∅ :=
    decrypt_evicts_nothing (by rw [sampleTwo_responder]; rfl) sampleSecond [] (sampleRandom 2)
  have reached : Reachable Genuine sampleMaster sampleOvertaken := by
    refine .decrypt sampleTwo_reachable .responder sampleSecond [] (sampleRandom 2) (by decide) (Or.inl ?_)
    exact ⟨key', [8], [], by rw [history]; exact List.mem_cons_of_mem _ List.mem_cons_self⟩
  have sent : Entry.encrypted Party.responder.peer key [7] [] (.ok sampleMessage) ∈ sampleOvertaken.history := by
    rw [entries, history]
    exact List.mem_cons_self
  rw [sampleTwo_responder] at outcome
  refine genuine_message_decrypts freeKey_ideal reached sent ?_ ?_ evicted (sampleRandom 3)
  · intro pt' present
    obtain ⟨same, _⟩ : sampleMessage = sampleSecond ∧ pt' = [8] := by simpa [entries, history] using present
    have number : (0 : UInt32) = 1 := congrArg (fun msg => msg.header.n) same
    cases number
  · rw [state]
    exact ⟨_, sampleMessage_decodes, Or.inl (overtaken_banks outcome)⟩

end TrinoCore
