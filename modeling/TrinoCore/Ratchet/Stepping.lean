import TrinoCore.Ratchet.Accepting

namespace TrinoCore

variable {S : Type} [Primitives S]

omit [Primitives S] in
theorem retirePeerKey_eq {st : RatchetState S} {d : Bytes32} {peerKeys : List Bytes32}
    (last : peerKeys.getLast? = st.dhr)
    (retired : st.retiredPeerDhKeys = BoundedQueue.trim maxRetiredDhKeys peerKeys.dropLast)
    (nodup : peerKeys.Nodup) (new : d ∉ peerKeys) :
    retirePeerKey st d = BoundedQueue.trim maxRetiredDhKeys peerKeys := by
  rcases List.eq_nil_or_concat' peerKeys with rfl | ⟨front, previous, rfl⟩
  · rw [List.getLast?_nil] at last
    unfold retirePeerKey
    rw [← last]
    exact retired
  · rw [List.getLast?_concat] at last
    rw [List.dropLast_concat] at retired
    have different : previous ≠ d := by
      rintro rfl
      exact new (List.mem_append_right _ (List.mem_singleton.mpr rfl))
    have absent : previous ∉ st.retiredPeerDhKeys := by
      intro present
      rw [retired] at present
      exact (List.nodup_append.mp nodup).2.2 previous (List.mem_of_mem_drop present) previous
        (List.mem_singleton.mpr rfl) rfl
    have short := BoundedQueue.length_trim_le maxRetiredDhKeys front
    unfold retirePeerKey
    rw [← last]
    dsimp only
    rw [if_pos ⟨different, absent⟩, retired, ← BoundedQueue.trim_trim_append front [previous]]
    generalize BoundedQueue.trim maxRetiredDhKeys front = kept at short ⊢
    have size : (kept ++ [previous]).length = kept.length + 1 := by simp
    split
    · rename_i excess
      unfold BoundedQueue.trim
      rw [show (kept ++ [previous]).length - maxRetiredDhKeys = 1 by omega]
    · rename_i within
      exact (BoundedQueue.trim_of_le (by omega)).symm

theorem derive_next (correct : Correct S) (T : Timeline S) (c : Nat) (fallback : S) :
    x25519DeriveShared (T.priv c) (T.pub (c + 1)) fallback = T.dh c := by
  unfold Timeline.pub
  rw [x25519DeriveShared_honest correct, Timeline.dh, Timeline.pub]
  exact correct.x25519_comm _ _

theorem tracks_stepped (ideal : Ideal S) {T : Timeline S} {c : Nat} {st mid : RatchetState S} (tracks : Tracks T c st)
    (last : T.top = c + 1) {rng : StepRandom S} (new : ∀ j ≤ T.top, T.pub j ≠ x25519Pub S rng.freshPriv)
    (dhs : mid.dhs = st.dhs) (root : mid.rootKey = st.rootKey) (sent : mid.sendingMsgNumber = st.sendingMsgNumber) :
    Tracks (T.extend rng.freshPriv new) (c + 2) (stepped mid (T.pub (c + 1)) rng) := by
  have later : T.Later (T.extend rng.freshPriv new) := Timeline.later_extend
  have key : (T.extend rng.freshPriv new).priv (c + 2) = rng.freshPriv := by
    have top : c + 2 = T.top + 1 := by omega
    rw [top]
    exact Function.update_self _ _ _
  have dhRecv : x25519DeriveShared mid.dhs.privBytes (T.pub (c + 1)) rng.recvFallback =
      (T.extend rng.freshPriv new).dh c := by
    rw [later.dh (by omega), dhs, tracks.dhs]
    exact derive_next ideal.toCorrect T c _
  have dhSend : x25519DeriveShared rng.freshPriv (T.pub (c + 1)) rng.sendFallback =
      (T.extend rng.freshPriv new).dh (c + 1) := by
    unfold Timeline.pub
    rw [x25519DeriveShared_honest ideal.toCorrect, Timeline.dh, later.pub (by omega), key]
    rfl
  have oldRoot : mid.rootKey = (T.extend rng.freshPriv new).root c := by
    rw [root, tracks.root, later.root (by omega)]
  have unsent : (T.extend rng.freshPriv new).count (c + 2) = 0 := T.count_beyond (c + 2) (by omega)
  refine ⟨?_, ?_, ?_, ?_, ?_, ?_, ?_, Nat.zero_le _⟩
  · rw [key]
    rfl
  · simp only [stepped, dhRecv, dhSend, oldRoot]
    rfl
  · rw [if_neg (by omega), show c + 2 - 1 = c + 1 by omega, later.pub (by omega)]
    rfl
  · rw [if_neg (by omega), unsent]
    simp only [stepped, dhRecv, dhSend, oldRoot]
    rfl
  · rw [if_neg (by omega), show c + 2 - 1 = c + 1 by omega]
    simp only [stepped, dhRecv, oldRoot]
    rfl
  · rw [unsent]
    rfl
  · change mid.sendingMsgNumber.toNat = T.count c
    rw [sent]
    exact tracks.sent

/-- The numbers banked by a DH step: the rest of the old chain, then the new one up to `n`. -/
def stepNumbers (T : Timeline S) (c : Nat) (received : UInt32) (n : Nat) : List (Nat × Nat) :=
  numbers (c - 1) received.toNat (T.count (c - 1) - received.toNat) ++ numbers (c + 1) 0 n

theorem mem_stepNumbers {T : Timeline S} {c n i m : Nat} {received : UInt32} :
    (i, m) ∈ stepNumbers T c received n ↔
      (i = c - 1 ∧ received.toNat ≤ m ∧ m < received.toNat + (T.count (c - 1) - received.toNat)) ∨
        (i = c + 1 ∧ m < n) := by
  unfold stepNumbers
  rw [List.mem_append, mem_numbers, mem_numbers]
  constructor
  · intro either
    rcases either with old | ⟨same, _, below⟩
    · exact Or.inl old
    · exact Or.inr ⟨same, by omega⟩
  · intro either
    rcases either with old | ⟨same, below⟩
    · exact Or.inl old
    · exact Or.inr ⟨same, by omega, by omega⟩

theorem advances_on_step {T T' : Timeline S} {c n : Nat} {st next : RatchetState S} (later : T.Later T')
    (last : T.top = c + 1) (last' : T'.top = c + 2) (counts : T'.count = T.count)
    (received : st.receivingMsgNumber.toNat ≤ T.count (c - 1)) (number : next.receivingMsgNumber.toNat = n + 1)
    (bank : SameBank next (bankAll st (T'.entries (stepNumbers T c st.receivingMsgNumber n)))) :
    Advances T T' c (c + 2) st next (stepNumbers T c st.receivingMsgNumber n) (c + 1) n where
  later := later
  known := by omega
  known' := by omega
  bank := bank
  passed := by
    intro i m
    have zero := T.count_zero
    rw [mem_stepNumbers, Prod.mk.injEq]
    unfold Passed
    rw [number, counts]
    by_cases previous : i = c - 1
    · subst i
      rcases Nat.eq_zero_or_pos c with rfl | positive
      · rw [Nat.zero_sub] at received ⊢
        omega
      · omega
    · -- every chain but the two that the step touches is passed as before
      by_cases stepped : i = c + 1
      · subst i
        simp only [previous, false_and, false_or, true_and]
        omega
      · simp only [previous, stepped, false_and, or_false]
        omega
  unseen := by
    intro i m new passed
    rw [mem_stepNumbers, Prod.mk.injEq] at new
    have zero := T.count_zero
    obtain ⟨parity, ⟨old, below⟩ | ⟨current, below⟩⟩ := passed
    · omega
    · omega
  skipped := by
    rw [mem_stepNumbers]
    omega
  nodup := by
    apply (nodup_numbers _ _ _).append (nodup_numbers _ _ _)
    rintro ⟨i, m⟩ old new
    rw [mem_numbers] at old new
    omega

theorem keysBanked_step {T T' : Timeline S} {c : Nat} {st : RatchetState S} {header : MessageHeader} {d : Bytes32}
    {rng : StepRandom S} (tracks : Tracks T c st) (later : T.Later T') (known : c ≤ T.top)
    (tracks' : Tracks T' (c + 2) (stepped st d rng)) (new : st.dhr ≠ some d)
    (pn : header.pn.toNat = T.count (c - 1)) :
    keysBanked st header d rng = T'.entries (stepNumbers T c st.receivingMsgNumber header.n.toNat) := by
  have old : keysSkipped st header.pn =
      T'.entries (numbers (c - 1) st.receivingMsgNumber.toNat (T.count (c - 1) - st.receivingMsgNumber.toNat)) := by
    have receiving := tracks.receiving
    have peer := tracks.dhr
    by_cases young : c < 2
    · have received := tracks.received
      have none_sent : T.count (c - 1) = 0 := by
        rw [show c - 1 = 0 by omega]
        exact T.count_zero
      rw [if_pos young] at receiving
      unfold keysSkipped
      rw [receiving, none_sent, Nat.zero_sub]
      rfl
    · rw [if_neg young] at receiving
      rw [if_neg (by omega)] at peer
      unfold keysSkipped
      rw [receiving, peer]
      dsimp only
      rw [← later.pub (by omega), ← later.chain (by omega), skippedEntries_eq, pn]
  have fresh : keysSkipped (stepped st d rng) header.n = T'.entries (numbers (c + 1) 0 header.n.toNat) := by
    have receiving := tracks'.receiving
    have peer := tracks'.dhr
    have none_yet : (stepped st d rng).receivingMsgNumber.toNat = 0 := rfl
    rw [if_neg (by omega), show c + 2 - 1 = c + 1 by omega] at receiving peer
    unfold keysSkipped
    rw [receiving, peer]
    dsimp only
    rw [skippedEntries_eq, none_yet, Nat.sub_zero]
  rw [keysBanked, if_neg new, old, fresh, stepNumbers, Timeline.entries, Timeline.entries, Timeline.entries,
    List.map_append]

/-- How far a DH step skips: at most once over the rest of the old chain and once into the new one. -/
theorem stepNumbers_short {T : Timeline S} {c n : Nat} {st mid : RatchetState S} {pn : UInt32}
    (tracks : Tracks T c st) (skips : Skips st pn mid) (same : pn.toNat = T.count (c - 1)) (near : n ≤ maxSkip.toNat) :
    (stepNumbers T c st.receivingMsgNumber n).length ≤ maxSkippedKeys := by
  have limit : maxSkip.toNat + maxSkip.toNat ≤ maxSkippedKeys := by
    unfold maxSkippedKeys
    decide
  have old : T.count (c - 1) - st.receivingMsgNumber.toNat ≤ maxSkip.toNat := by
    by_cases young : c < 2
    · rw [show c - 1 = 0 by omega, T.count_zero]
      omega
    · have receiving := tracks.receiving
      have peer := tracks.dhr
      rw [if_neg (by omega)] at receiving peer
      have skip := (skips_moves skips receiving peer).1
      omega
  unfold stepNumbers
  rw [List.length_append, length_numbers, length_numbers]
  omega

theorem Peers.step {T T' : Timeline S} {c : Nat} {st next : RatchetState S} {peerKeys : List Bytes32}
    (peers : Peers T c st peerKeys) (later : T.Later T') (last : T.top = c + 1) (dhr : next.dhr = some (T.pub (c + 1)))
    (retired : next.retiredPeerDhKeys = retirePeerKey st (T.pub (c + 1))) :
    Peers T' (c + 2) next (peerKeys ++ [T.pub (c + 1)]) := by
  have new : T.pub (c + 1) ∉ peerKeys := by
    intro present
    obtain ⟨i, below, same⟩ := peers.known _ present
    have equal := T.distinct (c + 1) (by omega) i (by omega) same
    omega
  refine ⟨?_, ?_, ?_, ?_⟩
  · rw [List.getLast?_concat, dhr]
  · rw [retired, List.dropLast_concat]
    exact retirePeerKey_eq peers.last peers.retired peers.nodup new
  · exact peers.nodup.append (List.nodup_singleton _) (by simpa using new)
  · intro d present
    rcases List.mem_append.mp present with old | single
    · obtain ⟨i, below, same⟩ := peers.known d old
      exact ⟨i, by omega, by rw [later.pub (by omega)]; exact same⟩
    · exact ⟨c + 1, by omega, by rw [later.pub (by omega)]; exact List.mem_singleton.mp single⟩

/-- The root key that opened a message says that it came under the peer's next key. -/
theorem Opened.under_next_key (ideal : Ideal S) {T : Timeline S} {s : Session S} {p q : Party} {d : Bytes32} {mk : S}
    {msg : EncryptedMessage} {ad pt : Bytes} {j n m : Nat} {rk dhOut : S} (opened : Opened T s d mk msg ad pt q j n)
    (derived : mk = messageKeyAt (chainStart rk dhOut) m) (root : rk = T.root (T.level p)) :
    j = T.level p + 1 ∧ q = p.peer ∧ T.top = T.level p + 1 := by
  obtain ⟨rfl, _⟩ := Timeline.messageKey_inj ideal opened.positive root.symm (derived.symm.trans opened.key)
  have inside := opened.inside
  have neighbours := T.level_peer p
  have sender := sender_is_peer opened.parity (show (T.level p + 1 + T.level p) % 2 = 1 by omega)
  exact ⟨rfl, sender, by omega⟩

theorem accept_step_inv (ideal : Ideal S) {masterSecret : S} {T : Timeline S} {s : Session S}
    (inv : Inv masterSecret T s) {p : Party} {msg : EncryptedMessage} {ad pt : Bytes} {rng : StepRandom S}
    {d : Bytes32} {before mid : RatchetState S} {ck : S}
    (seen : ∀ ct, Hex.decode msg.ciphertext = some ct → s.OnWire ct)
    (fresh : x25519Pub S rng.freshPriv ∉ s.dhKeys) (decoded : decode32 msg.header.dhPub = .ok d)
    (outcome : ratchetDecrypt (s.state p) msg ad rng = (.ok pt, received mid ck))
    (different : (s.state p).dhr ≠ some d) (skips : Skips (s.state p) msg.header.pn before)
    (skips' : Skips (stepped before d rng) msg.header.n mid) (receiving : mid.receivingChainKey = some ck)
    (opens : openMessage (messageKeyOf ck) msg ad = .ok pt) :
    ∃ T', Inv masterSecret T' (s.decrypt p msg ad rng) := by
  have own := inv.party p
  have neighbours := T.level_peer p
  have tracks := own.tracks
  have frame := skips_frame skips
  have sameRoot : before.rootKey = (s.state p).rootKey := (congrArg RatchetState.rootKey frame :)
  have sameDhs : before.dhs = (s.state p).dhs := (congrArg RatchetState.dhs frame :)
  have sameSent : before.sendingMsgNumber = (s.state p).sendingMsgNumber :=
    (congrArg RatchetState.sendingMsgNumber frame :)
  obtain ⟨q, j, n, opened⟩ := inv.opened ideal seen decoded opens
  obtain rfl := opened.toNat
  have sameCk := Option.some.inj (receiving.symm.trans (skips_moves skips' rfl rfl).2.2)
  have atRoot : before.rootKey = T.root (T.level p) := by rw [sameRoot, tracks.root]
  obtain ⟨rfl, rfl, last⟩ := opened.under_next_key ideal (congrArg messageKeyOf sameCk) atRoot
  have inside := opened.inside
  obtain rfl := opened.pub
  have pn : msg.header.pn.toNat = T.count (T.level p - 1) := by
    rw [opened.pn, show T.level p + 1 - 2 = T.level p - 1 by omega]
    exact toNat_ofNat (T.count_lt _)
  have new : ∀ j ≤ T.top, T.pub j ≠ x25519Pub S rng.freshPriv :=
    fun j old same => fresh (same ▸ inv.keys j old)
  have later : T.Later (T.extend rng.freshPriv new) := Timeline.later_extend
  obtain ⟨level, level'⟩ := Timeline.extend_behind _ new last
  have stepTracks := tracks_stepped ideal tracks last new sameDhs sameRoot sameSent
  obtain ⟨chain', near, moved, tracks'⟩ := tracks_moves stepTracks (by omega) skips' (Nat.zero_le _)
    (show msg.header.n.toNat < T.count (T.level p + 2 - 1) from opened.below)
  obtain rfl := Option.some.inj (receiving.symm.trans chain')
  have reaches : Reaches (s.state p) msg.header (T.pub (T.level p + 1)) rng mid :=
    Or.inr ⟨different, before, skips, skips'⟩
  obtain ⟨dhr, ⟨current, _⟩ | ⟨_, dhs, retired⟩⟩ := reaches_keys reaches
  · exact absurd current different
  generalize landed : chainStep^[msg.header.n.toNat] ((T.extend rng.freshPriv new).chain (T.level p + 2 - 1)) = ck at *
  have bank : SameBank (received mid ck) (bankAll (s.state p) ((T.extend rng.freshPriv new).entries
      (stepNumbers T (T.level p) (s.state p).receivingMsgNumber msg.header.n.toNat))) := by
    have banked := reaches_bank reaches
    rw [keysBanked_step tracks later (by omega) (tracks_stepped ideal tracks last new rfl rfl rfl) different pn] at banked
    exact ⟨banked.1, banked.2⟩
  have advances := advances_on_step later last (congrArg (· + 1) last) rfl tracks.received moved bank
  have opens' : openMessage ((T.extend rng.freshPriv new).messageKey (T.level p + 1) msg.header.n.toNat) msg ad =
      .ok pt := by
    rw [later.messageKey inside, ← opened.key]
    exact opens
  have ownId : bankIdOf msg = some ((T.extend rng.freshPriv new).bankId (T.level p + 1) msg.header.n.toNat) := by
    rw [later.bankId inside]
    exact opened.bankId decoded
  refine ⟨T.extend rng.freshPriv new, inv.accepted outcome opened later level' rfl ?_ ?_ ?_ ?_ ?_⟩
  · have drawn : (received mid ck).dhs ≠ (s.state p).dhs := by
      intro same
      have equal : x25519Pub S rng.freshPriv = T.pub (T.level p) :=
        congrArg KeyPair.pubBytes (dhs.symm.trans (same.trans tracks.dhs))
      exact new (T.level p) (by omega) equal.symm
    rw [decrypt_dhKeys outcome, if_neg drawn, show (received mid ck).dhs = _ from dhs]
    exact Timeline.extend_known inv.keys
  · rw [level]
    exact tracks'
  · have changed : (received mid ck).dhr ≠ (s.state p).dhr := fun same => different (same.symm.trans dhr)
    rw [if_neg changed, level, show (received mid ck).dhr = _ from dhr]
    exact own.peers.step later last dhr retired
  · rw [level]
    exact own.receives.advance advances ownId opens'
  · intro never kept
    rw [level]
    have short : msg.header.n.toNat ≤ maxSkip.toNat := by
      rw [show (stepped _ _ _).receivingMsgNumber.toNat = 0 from rfl] at near
      omega
    exact (own.complete never).advance own.receives advances ownId (stepNumbers_short tracks skips pn short) kept

/-- Any call of `ratchet_decrypt`, on a message that is rejected or has a ciphertext of the network. -/
theorem decrypt_inv (ideal : Ideal S) {masterSecret : S} {T : Timeline S} {s : Session S}
    (inv : Inv masterSecret T s) (p : Party) (msg : EncryptedMessage) (ad : Bytes) (rng : StepRandom S)
    (fresh : x25519Pub S rng.freshPriv ∉ s.dhKeys)
    (seen : s.Rejects p msg ad rng ∨ ∀ ct, Hex.decode msg.ciphertext = some ct → s.OnWire ct) :
    ∃ T', Inv masterSecret T' (s.decrypt p msg ad rng) := by
  rcases outcome : ratchetDecrypt (s.state p) msg ad rng with ⟨result, next⟩
  cases result with
  | error e => exact ⟨T, reject_inv inv ⟨e, congrArg Prod.fst outcome⟩⟩
  | ok pt =>
    rcases seen with ⟨e, failed⟩ | seen
    · rw [outcome] at failed
      cases failed
    · obtain ⟨d, decoded⟩ := ratchetDecrypt_decodes outcome
      rcases (ratchetDecrypt_ok_iff decoded).mp outcome with
        ⟨mk, banked, opens, rfl⟩ | ⟨unbanked, unread, mid, ck, reaches, receiving, opens, rfl⟩
      · exact ⟨T, accept_banked_inv ideal inv seen decoded outcome banked opens⟩
      · rcases reaches with ⟨current, skips⟩ | ⟨different, before, skips, skips'⟩
        · exact ⟨T, accept_chain_inv ideal inv seen decoded outcome unread current skips receiving opens⟩
        · exact accept_step_inv ideal inv seen fresh decoded outcome different skips skips' receiving opens

end TrinoCore
