import TrinoCore.Ratchet.Authenticity

/-!
What `ratchet_decrypt` answers to a message of the peer, in every state of a session: the plaintext, or
exactly which error. Keys may have been evicted before and chains forgotten.
-/

namespace TrinoCore

variable {S : Type} [Primitives S]

theorem ratchetDecrypt_banked {st : RatchetState S} {msg : EncryptedMessage} {d : Bytes32} {mk : S}
    (decoded : decode32 msg.header.dhPub = .ok d)
    (banked : st.skippedKeys.lookup (skippedKeyId d msg.header.n) = some mk) (ad : Bytes) (rng : StepRandom S) :
    (ratchetDecrypt st msg ad rng).1 = openMessage mk msg ad := by
  have inner : ((ratchetDecryptInner msg ad rng).exec st).1 = openMessage mk msg ad := by
    unfold ratchetDecryptInner
    rw [decoded, Mut.exec_bind_ok (Mut.exec_ofExcept_ok _ _), Mut.exec_bind, trySkipped_some ad banked]
    cases openMessage mk msg ad <;> rfl
  rw [ratchetDecrypt, Mut.transaction_result, inner]

/-- Once the chains have moved to it, a message is as good as the key there. -/
theorem ratchetDecrypt_reached {st mid : RatchetState S} {msg : EncryptedMessage} {d : Bytes32} {rng : StepRandom S} {ck : S}
    (decoded : decode32 msg.header.dhPub = .ok d)
    (unbanked : st.skippedKeys.lookup (skippedKeyId d msg.header.n) = none) (unread : ¬IsReplay st d msg.header.n)
    (reaches : Reaches st msg.header d rng mid) (receiving : mid.receivingChainKey = some ck) (ad : Bytes) :
    (ratchetDecrypt st msg ad rng).1 = openMessage (messageKeyOf ck) msg ad := by
  have inner : ((ratchetDecryptInner msg ad rng).exec st).1 = openMessage (messageKeyOf ck) msg ad := by
    rw [inner_unbanked decoded unbanked, if_neg unread]
    rcases reaches with ⟨current, skips⟩ | ⟨different, before, skips, skips'⟩
    · rw [if_neg (not_not.mpr current), Mut.exec_bind_ok (skipMessageKeys_iff.mpr skips), decryptOnChain_some receiving]
    · rw [if_pos different, Mut.exec_bind_ok (skipMessageKeys_iff.mpr skips), Mut.exec_bind_ok (dhRatchetStep_exec _ _ _),
        Mut.exec_bind_ok (skipMessageKeys_iff.mpr skips'), decryptOnChain_some receiving]
  rw [ratchetDecrypt, Mut.transaction_result, inner]

theorem skipMessageKeys_far {st : RatchetState S} {until_ : UInt32} {ck : S} (receiving : st.receivingChainKey = some ck)
    (far : st.receivingMsgNumber.toNat + maxSkip.toNat < until_.toNat) :
    (skipMessageKeys until_).exec st = (.error (.tooManySkipped maxSkip), st) := by
  unfold skipMessageKeys
  rw [Mut.exec_bind_ok (Mut.exec_get st), receiving]
  simp only [saturatingAdd_lt.mpr far, ↓reduceIte]
  exact Mut.exec_bind_error (Mut.exec_throw _ _)

theorem ratchetDecrypt_far {st : RatchetState S} {msg : EncryptedMessage} {d : Bytes32}
    (decoded : decode32 msg.header.dhPub = .ok d)
    (unbanked : st.skippedKeys.lookup (skippedKeyId d msg.header.n) = none) (unread : ¬IsReplay st d msg.header.n)
    (started : st.dhr = some d → ∃ ck, st.receivingChainKey = some ck) (far : ¬GapsWithin st msg.header d) (ad : Bytes)
    (rng : StepRandom S) : (ratchetDecrypt st msg ad rng).1 = .error (.tooManySkipped maxSkip) := by
  have inner : ((ratchetDecryptInner msg ad rng).exec st).1 = .error (.tooManySkipped maxSkip) := by
    rw [inner_unbanked decoded unbanked, if_neg unread]
    by_cases current : st.dhr = some d
    · obtain ⟨ck, receiving⟩ := started current
      rw [GapsWithin, if_pos current] at far
      rw [if_neg (not_not.mpr current), Mut.exec_bind_error (skipMessageKeys_far receiving (by omega))]
    · rw [GapsWithin, if_neg current, not_and_or] at far
      rw [if_pos current]
      by_cases old : st.receivingChainKey.isSome ∧ st.receivingMsgNumber.toNat + maxSkip.toNat < msg.header.pn.toNat
      · obtain ⟨ck, receiving⟩ := Option.isSome_iff_exists.mp old.1
        rw [Mut.exec_bind_error (skipMessageKeys_far receiving old.2)]
      · obtain ⟨mid, skips⟩ := skips_exists st msg.header.pn
          (fun receiving => Nat.le_of_not_lt fun excess => old ⟨receiving, excess⟩)
        have wide : maxSkip.toNat < msg.header.n.toNat := by
          rcases far with gap | gap
          · exact absurd (fun receiving => by
              have within := Nat.le_of_not_lt fun excess => old ⟨receiving, excess⟩
              omega) gap
          · omega
        have zero : (stepped mid d rng).receivingMsgNumber.toNat = 0 := rfl
        have refused : (skipMessageKeys msg.header.n).exec (stepped mid d rng) =
            (.error (.tooManySkipped maxSkip), stepped mid d rng) := skipMessageKeys_far rfl (by omega)
        rw [Mut.exec_bind_ok (skipMessageKeys_iff.mpr skips), Mut.exec_bind_ok (dhRatchetStep_exec _ _ _),
          Mut.exec_bind_error refused]
  rw [ratchetDecrypt, Mut.transaction_result, inner]

/-! ### The messages of the peer -/

theorem Timeline.IsMessage.closed (ideal : Ideal S) {T : Timeline S} {j n : Nat} {pt ad ad' : Bytes} {msg : EncryptedMessage}
    (message : T.IsMessage j n pt ad msg) {mk : S} (other : mk = T.messageKey j n → ad' ≠ ad) :
    openMessage mk msg ad' = .error (.crypto .aead) := by
  obtain ⟨nonce, ct, rfl, sealed⟩ := message
  have closed : aeadOpen mk nonce ct (headerAd ad' (T.pub j) (T.header j n).pn (T.header j n).n) = none := by
    by_contra opens
    obtain ⟨plain, opened⟩ := Option.ne_none_iff_exists'.mp opens
    obtain ⟨sameKey, _, _, sameAd⟩ := ideal.seal_inj (ideal.sealed_of_open opened) sealed
    exact other sameKey (headerBytes_inj sameAd).1
  have header : encodeHeader (T.header j n) = _ := encodeHeader_ok (decode32_encode (T.pub j))
  rw [headerAd, List.append_assoc] at closed
  simp [openMessage, header, decodeHex, aesGcmDecrypt, closed, Except.mapError, bind, Except.bind]

instance (st : RatchetState S) (header : MessageHeader) (d : Bytes32) : Decidable (GapsWithin st header d) :=
  inferInstanceAs (Decidable (if st.dhr = some d then header.n.toNat - st.receivingMsgNumber.toNat ≤ maxSkip.toNat
    else (st.receivingChainKey.isSome → header.pn.toNat - st.receivingMsgNumber.toNat ≤ maxSkip.toNat) ∧
      header.n.toNat ≤ maxSkip.toNat))

/-- A message is answered with `opened` where its key is at hand, and else by the first check that
stops it. What is left for the cipher to refuse are the chains no longer remembered. -/
def verdict (s : Session S) (p : Party) (header : MessageHeader) (d : Bytes32) (opened : Except RatchetError Bytes) :
    Except RatchetError Bytes :=
  if skippedKeyId d header.n ∈ (s.state p).skippedKeys then opened
  else if IsReplay (s.state p) d header.n then .error (.replay header.n)
  else if ¬GapsWithin (s.state p) header d then .error (.tooManySkipped maxSkip)
  else if (s.state p).dhr = some d ∨ (s.state p.peer).dhs.pubBytes = d then opened
  else .error (.crypto .aead)

section
variable {masterSecret : S} {T : Timeline S} {s : Session S} {p : Party} {j n : Nat} {pt ad ad' : Bytes}
  {msg : EncryptedMessage}

theorem Timeline.IsMessage.opened (ideal : Ideal S) (message : T.IsMessage j n pt ad msg) (ad' : Bytes) :
    openMessage (T.messageKey j n) msg ad' = if ad' = ad then .ok pt else .error (.crypto .aead) := by
  split
  · rename_i same
    rw [same]
    exact (message.opens ideal.toCorrect).2
  · rename_i different
    exact message.closed ideal fun _ => different

theorem Timeline.IsMessage.numbered (message : T.IsMessage j n pt ad msg) (small : n < 2 ^ 32) :
    msg.header.n = UInt32.ofNat n ∧ msg.header.n.toNat = n := by
  obtain ⟨nonce, ct, rfl, _⟩ := message
  exact ⟨rfl, toNat_ofNat small⟩

theorem Inv.banked_key (inv : Inv masterSecret T s) (inside : j ≤ T.top) (small : n < 2 ^ 32) {mk : S}
    (found : (s.state p).skippedKeys.lookup (T.bankId j n) = some mk) : mk = T.messageKey j n := by
  obtain ⟨i, m, passed, sameId, rfl⟩ := (inv.party p).receives.banked _ mk found
  have level := T.level_le p
  have below := passed.lt
  obtain ⟨rfl, rfl⟩ := Timeline.bankId_inj inside (by omega) small below.1 sameId
  rfl

theorem Inv.reaches_on_chain (inv : Inv masterSecret T s) (current : (s.state p).dhr = some (T.pub j)) (positive : 1 ≤ j)
    (inside : j ≤ T.top) (below : n < T.count j) (message : T.IsMessage j n pt ad msg)
    (unread : ¬IsReplay (s.state p) (T.pub j) msg.header.n) (near : GapsWithin (s.state p) msg.header (T.pub j))
    (rng : StepRandom S) : ∃ mid, Reaches (s.state p) msg.header (T.pub j) rng mid ∧
      mid.receivingChainKey = some (chainStep^[n] (T.chain j)) := by
  have own := inv.party p
  have counted := T.count_lt j
  have known := T.level_le p
  obtain ⟨_, value⟩ := message.numbered (by omega)
  have dhr := own.tracks.dhr
  rw [current] at dhr
  split at dhr
  · cases dhr
  · have last := T.distinct j inside (T.level p - 1) (by omega) (Option.some.inj dhr)
    rw [GapsWithin, if_pos current] at near
    have ahead : (s.state p).receivingMsgNumber.toNat ≤ n := by
      rw [← value]
      exact UInt32.le_iff_toNat_le.mp (UInt32.not_lt.mp fun behind => unread (Or.inr ⟨current, behind⟩))
    obtain ⟨mid, skips⟩ := skips_exists (s.state p) msg.header.n (fun _ => by omega)
    obtain ⟨chain, _⟩ := tracks_moves own.tracks (by omega) skips (by omega) (by rw [value, ← last]; exact below)
    rw [← last, value] at chain
    exact ⟨mid, Or.inl ⟨current, skips⟩, chain⟩

theorem Inv.reaches_by_step (inv : Inv masterSecret T s) {d : Bytes32} (different : (s.state p).dhr ≠ some d)
    (near : GapsWithin (s.state p) msg.header d) (rng : StepRandom S) :
    ∃ mid, Reaches (s.state p) msg.header d rng mid ∧
      mid.receivingChainKey = some (chainStep^[msg.header.n.toNat]
        (chainStart (T.root (T.level p)) (x25519DeriveShared (T.priv (T.level p)) d rng.recvFallback))) := by
  have own := inv.party p
  rw [GapsWithin, if_neg different] at near
  obtain ⟨before, skips⟩ := skips_exists (s.state p) msg.header.pn
    (fun receiving => by have gap := near.1 receiving; omega)
  obtain ⟨mid, skips'⟩ := skips_exists (stepped before d rng) msg.header.n (fun _ => by have gap := near.2; omega)
  have chain := (skips_moves skips' rfl rfl).2.2
  have zero : (stepped before d rng).receivingMsgNumber.toNat = 0 := rfl
  have frame := skips_frame skips
  have root : before.rootKey = T.root (T.level p) := (congrArg RatchetState.rootKey frame :).trans own.tracks.root
  have dhs : before.dhs = generateX25519 S (T.priv (T.level p)) :=
    (congrArg RatchetState.dhs frame :).trans own.tracks.dhs
  rw [zero, Nat.sub_zero, root, dhs] at chain
  exact ⟨mid, Or.inr ⟨different, before, skips, skips'⟩, chain⟩

/-- The peer's message `(j, n)`, whatever became of its key. -/
theorem Inv.answers (ideal : Ideal S) (inv : Inv masterSecret T s) (positive : 1 ≤ j)
    (inside : j ≤ T.top) (below : n < T.count j) (message : T.IsMessage j n pt ad msg) (ad' : Bytes) (rng : StepRandom S) :
    (ratchetDecrypt (s.state p) msg ad' rng).1 =
      verdict s p msg.header (T.pub j) (if ad' = ad then .ok pt else .error (.crypto .aead)) := by
  have own := inv.party p
  have counted := T.count_lt j
  have neighbours := T.level_peer p
  obtain ⟨decoded, _⟩ := message.opens ideal.toCorrect
  have small : n < 2 ^ 32 := by omega
  obtain ⟨number, value⟩ := message.numbered small
  have peerKey : (s.state p.peer).dhs.pubBytes = T.pub (T.level p.peer) := by
    rw [(inv.party p.peer).tracks.dhs]
    rfl
  unfold verdict
  split
  · rename_i banked
    obtain ⟨mk, found⟩ := Finmap.mem_iff.mp banked
    have key : mk = T.messageKey j n := inv.banked_key inside small (by rw [← found, number]; rfl)
    rw [ratchetDecrypt_banked decoded found, key, message.opened ideal]
  · rename_i absent
    have unbanked := Finmap.lookup_eq_none.mpr absent
    split
    · rename_i replay
      rw [ratchetDecrypt_replay decoded unbanked replay]
    · rename_i unread
      split
      · rename_i far
        refine ratchetDecrypt_far decoded unbanked unread (fun current => ?_) far ad' rng
        have dhr := own.tracks.dhr
        rw [current] at dhr
        split at dhr
        · cases dhr
        · have last := T.distinct j inside (T.level p - 1) (by omega) (Option.some.inj dhr)
          rw [own.tracks.receiving, if_neg (by omega)]
          exact ⟨_, rfl⟩
      · rename_i near
        by_cases current : (s.state p).dhr = some (T.pub j)
        · obtain ⟨mid, reaches, chain⟩ :=
            inv.reaches_on_chain current positive inside below message unread (not_not.mp near) rng
          rw [if_pos (Or.inl current), ratchetDecrypt_reached decoded unbanked unread reaches chain]
          exact message.opened ideal ad'
        · obtain ⟨mid, reaches, chain⟩ := inv.reaches_by_step current (not_not.mp near) rng
          rw [ratchetDecrypt_reached decoded unbanked unread reaches chain]
          split
          · rename_i newest
            have same := newest.resolve_left current
            rw [peerKey] at same
            have equal := T.distinct _ (T.level_le p.peer) j inside same
            have next : j = T.level p + 1 := by
              by_contra older
              apply current
              rw [own.tracks.dhr, if_neg (by omega), show T.level p - 1 = j by omega]
            subst next
            rw [derive_next ideal.toCorrect, value]
            exact message.opened ideal ad'
          · rename_i forgotten
            refine message.closed ideal fun same => ?_
            obtain ⟨next, _⟩ := Timeline.messageKey_inj ideal positive rfl same
            have newest : (s.state p.peer).dhs.pubBytes = T.pub j := by
              rw [peerKey, show T.level p.peer = j by omega]
            exact absurd (Or.inr newest) forgotten

end

/-- What `p` answers to any message that was ever sent in the session, its own included, at any time. -/
theorem delivery_verdict (ideal : Ideal S) {masterSecret : S} (attacker : Attacker masterSecret) {s : Session S}
    (reached : Reachable (Makeable attacker) masterSecret s) (p : Party) {q : Party} {key : Option S} {pt ad : Bytes}
    {msg : EncryptedMessage} (sent : Entry.encrypted q key pt ad (.ok msg) ∈ s.history) (ad' : Bytes) (rng : StepRandom S) :
    ∃ d, decode32 msg.header.dhPub = .ok d ∧
      (ratchetDecrypt (s.state p) msg ad' rng).1 =
        verdict s p msg.header d (if ad' = ad then .ok pt else .error (.crypto .aead)) := by
  obtain ⟨T, inv⟩ := reachable_inv ideal attacker reached
  rcases inv.sent _ _ _ _ _ sent with ⟨_, e, absurd⟩ | ⟨j, n, _, positive, inside, below, _, message⟩
  · cases absurd
  · have genuine := message msg rfl
    exact ⟨T.pub j, (genuine.opens ideal.toCorrect).1, inv.answers ideal positive inside below genuine ad' rng⟩

theorem delivery_verdict_sample :
    (ratchetDecrypt (sampleSent.state .responder) sampleMessage [] (sampleRandom 2)).1 = .ok [7] ∧
      (ratchetDecrypt (sampleSent.state .responder) sampleMessage [1] (sampleRandom 2)).1 = .error (.crypto .aead) := by
  obtain ⟨key, history⟩ := sampleSent_history
  have sent : Entry.encrypted .initiator key [7] [] (.ok sampleMessage) ∈ sampleSent.history := by
    rw [history]
    exact List.mem_cons_self
  have reached := sampleSent_reachable.mono (genuine_makeable (Attacker.none sampleMaster))
  have untouched : sampleSent.state .responder =
    initResponder sampleMaster (generateX25519 FreeKey (sampleBytes 32 0)) := rfl
  have newest : ∀ opened, verdict sampleSent .responder sampleMessage.header sampleInitiator.dhs.pubBytes opened = opened := by
    intro opened
    have unbanked : skippedKeyId sampleInitiator.dhs.pubBytes sampleMessage.header.n ∉ (sampleSent.state .responder).skippedKeys :=
      Finmap.notMem_empty
    have unread : ¬IsReplay (sampleSent.state .responder) sampleInitiator.dhs.pubBytes sampleMessage.header.n := by
      rw [untouched]
      rintro (retired | ⟨current, _⟩)
      · cases retired
      · cases current
    have near : GapsWithin (sampleSent.state .responder) sampleMessage.header sampleInitiator.dhs.pubBytes := by
      obtain ⟨d, decoded, banked | near⟩ := sampleMessage_inReach
      · exact absurd banked Finmap.notMem_empty
      · rwa [Except.ok.inj (decoded.symm.trans sampleMessage_decodes)] at near
    have current : (sampleSent.state Party.responder.peer).dhs.pubBytes = sampleInitiator.dhs.pubBytes := rfl
    rw [verdict, if_neg unbanked, if_neg unread, if_neg (not_not.mpr near), if_pos (Or.inr current)]
  constructor
  · obtain ⟨d, decoded, answer⟩ := delivery_verdict freeKey_ideal _ reached .responder sent [] (sampleRandom 2)
    obtain rfl := Except.ok.inj (decoded.symm.trans sampleMessage_decodes)
    rw [answer, newest, if_pos rfl]
  · obtain ⟨d, decoded, answer⟩ := delivery_verdict freeKey_ideal _ reached .responder sent [1] (sampleRandom 2)
    obtain rfl := Except.ok.inj (decoded.symm.trans sampleMessage_decodes)
    rw [answer, newest, if_neg (by decide)]

end TrinoCore
