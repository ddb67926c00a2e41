import TrinoCore.Ratchet.Delivery

/-! What an attacker on the network can achieve: nothing is accepted that was not sent, nothing is
accepted twice, and a repeated message of a remembered chain is classified as a replay. -/

namespace TrinoCore

variable {S : Type} [Primitives S]

theorem bankIdOf_congr {a b : EncryptedMessage} (same : SameHeader a.header b.header) : bankIdOf a = bankIdOf b := by
  obtain ⟨d, first, second, _, number⟩ := same
  rw [bankIdOf, bankIdOf, first, second, number]

/-- Two acceptances of one bank id are one entry of the history. -/
theorem Receives.accepted_once {T : Timeline S} {c : Nat} {st : RatchetState S} {s : Session S} {p : Party}
    (receives : Receives T c st (s.taken p)) {k k' : Nat} {msg msg' : EncryptedMessage} {ad ad' pt pt' : Bytes}
    (first : s.history[k]? = some (.delivered p msg ad (.ok pt)))
    (second : s.history[k']? = some (.delivered p msg' ad' (.ok pt'))) (same : bankIdOf msg = bankIdOf msg') :
    k = k' := by
  have once := receives.once
  rw [Session.taken, List.map_filterMap] at once
  have takes : ∀ msg ad pt, (Entry.takenBy p (.delivered p msg ad (.ok pt) : Entry S)).map (fun entry => bankIdOf entry.1) =
      some (bankIdOf msg) := by
    intro msg ad pt
    rw [Entry.takenBy, if_pos rfl]
    rfl
  exact eq_of_nodup_filterMap once first second (takes msg ad pt) (by rw [same]; exact takes msg' ad' pt')

/-- The acceptances of one party are matched one to one with earlier calls of the peer's
`ratchet_encrypt`, with the same plaintext, associated data and header. -/
theorem acceptances_match_sent (ideal : Ideal S) {masterSecret : S} (attacker : Attacker masterSecret) {s : Session S}
    (reached : Reachable (Makeable attacker) masterSecret s) (p : Party) :
    ∃ f : Nat → Nat,
      (∀ k msg ad pt, s.history[k]? = some (.delivered p msg ad (.ok pt)) →
        f k < k ∧ ∃ key sent, s.history[f k]? = some (.encrypted p.peer key pt ad (.ok sent)) ∧
          SameHeader sent.header msg.header) ∧
      (∀ k k' msg msg' ad ad' pt pt', s.history[k]? = some (.delivered p msg ad (.ok pt)) →
        s.history[k']? = some (.delivered p msg' ad' (.ok pt')) → f k = f k' → k = k') := by
  obtain ⟨T, inv⟩ := reachable_inv ideal attacker reached
  have sources : ∀ k : Nat, ∃ i : Nat, ∀ msg ad pt, s.history[k]? = some (.delivered p msg ad (.ok pt)) →
      i < k ∧ ∃ key sent, s.history[i]? = some (.encrypted p.peer key pt ad (.ok sent)) ∧
        SameHeader sent.header msg.header := by
    intro k
    by_cases accepted : ∃ msg ad pt, s.history[k]? = some (.delivered p msg ad (.ok pt))
    · obtain ⟨msg, ad, pt, found⟩ := accepted
      obtain ⟨i, before, source⟩ := inv.matched k p msg ad pt found
      refine ⟨i, fun msg' ad' pt' found' => ?_⟩
      cases Option.some.inj (found.symm.trans found')
      exact ⟨before, source⟩
    · exact ⟨0, fun msg ad pt found => (accepted ⟨msg, ad, pt, found⟩).elim⟩
  choose f source using sources
  refine ⟨f, source, ?_⟩
  intro k k' msg msg' ad ad' pt pt' first second same
  obtain ⟨_, key, sent, entry, header⟩ := source k msg ad pt first
  obtain ⟨_, key', sent', entry', header'⟩ := source k' msg' ad' pt' second
  rw [same] at entry
  cases Option.some.inj (entry.symm.trans entry')
  exact (inv.party p).receives.accepted_once first second ((bankIdOf_congr header).symm.trans (bankIdOf_congr header'))

theorem sampleRead_attacked (attacker : Attacker sampleMaster) :
    Reachable (Makeable attacker) sampleMaster sampleRead :=
  sampleRead_reachable.mono (genuine_makeable attacker)

theorem dhKeys_of_decrypt {s : Session S} {p : Party} {msg : EncryptedMessage} {ad : Bytes} {rng : StepRandom S}
    {pub : Bytes32} (present : pub ∈ (s.decrypt p msg ad rng).dhKeys) :
    pub ∈ s.dhKeys ∨ pub = x25519Pub S rng.freshPriv := by
  rcases outcome : ratchetDecrypt (s.state p) msg ad rng with ⟨result, next⟩
  rw [decrypt_dhKeys outcome] at present
  split at present
  · exact Or.inl present
  rename_i drawn
  refine (List.mem_append.mp present).imp_right fun last => ?_
  rw [List.mem_singleton.mp last]
  cases result with
  | error e => exact (drawn (congrArg RatchetState.dhs (ratchetDecrypt_error outcome))).elim
  | ok pt =>
    obtain ⟨d, decoded⟩ := ratchetDecrypt_decodes outcome
    rcases (ratchetDecrypt_ok_iff decoded).mp outcome with ⟨mk, _, _, rfl⟩ | ⟨_, _, mid, ck, reaches, _, _, rfl⟩
    · exact (drawn rfl).elim
    · rcases (reaches_keys reaches).2 with ⟨_, same, _⟩ | ⟨_, fresh, _⟩
      · exact (drawn same).elim
      · exact congrArg KeyPair.pubBytes fresh

def sampleAttacker : Attacker sampleMaster where
  known key := key = zeroSalt
  noMaster deduced := by
    cases deduced with
    | known given => cases given
  noSessionKey key given isKey := by
    cases given
    cases isKey

/-- A message sealed under the attacker's key, with the header of the initiator's second one. -/
def sampleForged : EncryptedMessage :=
  ⟨sampleSecond.header, Hex.encode (sampleBytes 12 1).toList,
    Hex.encode (pack [(zeroSalt : FreeKey).derivation, (sampleBytes 12 1).toList, [9],
      headerAd [] sampleInitiator.dhs.pubBytes 0 1])⟩

theorem sampleForged_makeable (s : Session FreeKey) (p : Party) : Makeable sampleAttacker s p sampleForged := by
  intro ct decoded
  refine Or.inr fun key nonce ad pt opened => .known ?_
  obtain rfl := Option.some.inj ((Hex.decode_encode _).symm.trans decoded)
  exact (freeKey_ideal.seal_inj (freeKey_ideal.sealed_of_open opened)
    (rfl : aeadSeal (zeroSalt : FreeKey) (sampleBytes 12 1) [9] (headerAd [] sampleInitiator.dhs.pubBytes 0 1) = _)).1

/-- The attacker delivers its own message, then repeats the one that was read. -/
def sampleAttacked : Session FreeKey :=
  (sampleRead.decrypt .responder sampleForged [] (sampleRandom 3)).decrypt .responder sampleMessage [] (sampleRandom 4)

theorem sampleRead_fresh {pub : Bytes32} (new : pub ∉ sampleStart.dhKeys)
    (other : pub ≠ x25519Pub FreeKey (sampleBytes 32 2)) : pub ∉ sampleRead.dhKeys :=
  fun present => (dhKeys_of_decrypt present).elim new other

theorem sampleAttacked_reachable : Reachable (Makeable sampleAttacker) sampleMaster sampleAttacked := by
  obtain ⟨key, history⟩ := sampleRead_accepts
  refine .decrypt (.decrypt (sampleRead_attacked _) .responder sampleForged [] (sampleRandom 3) ?_
    (Or.inl (sampleForged_makeable _ _))) .responder sampleMessage [] (sampleRandom 4) ?_ (Or.inl ?_)
  · exact sampleRead_fresh (by decide) (by decide)
  · intro present
    rcases dhKeys_of_decrypt present with old | same
    · exact sampleRead_fresh (by decide) (by decide) old
    · exact absurd same (by decide)
  · refine genuine_makeable sampleAttacker _ _ _ ⟨key, [7], [], List.mem_append_left _ ?_⟩
    rw [history]
    exact List.mem_cons_self

theorem sampleAttacked_history : ∃ key forged repeated, sampleAttacked.history =
    [.encrypted .initiator key [7] [] (.ok sampleMessage), .delivered .responder sampleMessage [] (.ok [7]),
      .delivered .responder sampleForged [] forged, .delivered .responder sampleMessage [] repeated] := by
  obtain ⟨key, history⟩ := sampleRead_accepts
  let attacked := sampleRead.decrypt .responder sampleForged [] (sampleRandom 3)
  refine ⟨key, (ratchetDecrypt (sampleRead.state .responder) sampleForged [] (sampleRandom 3)).1,
    (ratchetDecrypt (attacked.state .responder) sampleMessage [] (sampleRandom 4)).1, ?_⟩
  change sampleRead.history ++ [Entry.delivered .responder sampleForged [] _] ++
    [Entry.delivered .responder sampleMessage [] _] = _
  rw [history]
  rfl

theorem sampleAttacked_sent {k : Nat} {p : Party} {key : Option FreeKey} {pt ad : Bytes} {sent : EncryptedMessage}
    (entry : sampleAttacked.history[k]? = some (.encrypted p key pt ad (.ok sent))) :
    k = 0 ∧ sent = sampleMessage := by
  obtain ⟨key', forged, repeated, history⟩ := sampleAttacked_history
  rw [history] at entry
  match k, entry with
  | 0, entry =>
    cases entry
    exact ⟨rfl, rfl⟩
  | 1, entry => cases entry
  | 2, entry => cases entry
  | 3, entry => cases entry
  | k + 4, entry => cases entry

theorem acceptances_match_sent_sample :
    sampleAttacked.history[1]? = some (.delivered .responder sampleMessage [] (.ok [7])) ∧
      (∃ key sent, sampleAttacked.history[0]? = some (.encrypted .initiator key [7] [] (.ok sent)) ∧
        SameHeader sent.header sampleMessage.header) ∧
      (∀ pt, sampleAttacked.history[2]? ≠ some (.delivered .responder sampleForged [] (.ok pt))) ∧
      ∀ pt, sampleAttacked.history[3]? ≠ some (.delivered .responder sampleMessage [] (.ok pt)) := by
  obtain ⟨f, matched, once⟩ := acceptances_match_sent freeKey_ideal sampleAttacker sampleAttacked_reachable .responder
  have accepted : sampleAttacked.history[1]? = some (.delivered .responder sampleMessage [] (.ok [7])) := by
    obtain ⟨key, forged, repeated, history⟩ := sampleAttacked_history
    rw [history]
    rfl
  obtain ⟨_, key, sent, entry, header⟩ := matched 1 _ _ _ accepted
  have first := (sampleAttacked_sent entry).1
  refine ⟨accepted, ⟨key, sent, first ▸ entry, header⟩, ?_, ?_⟩
  · intro pt forged
    obtain ⟨_, key', sent', entry', header'⟩ := matched 2 _ _ _ forged
    obtain ⟨_, rfl⟩ := sampleAttacked_sent entry'
    -- the message sent has another number
    obtain ⟨_, _, _, _, number⟩ := header'
    cases number
  · intro pt repeated
    obtain ⟨_, key', sent', entry', _⟩ := matched 3 _ _ _ repeated
    have same := once 1 3 _ _ _ _ _ _ accepted repeated (first.trans (sampleAttacked_sent entry').1.symm)
    cases same

/-! ### Replays -/

theorem unbanked_dhr {st next : RatchetState S} {msg : EncryptedMessage} {ad pt : Bytes} {rng : StepRandom S}
    {d : Bytes32} (decoded : decode32 msg.header.dhPub = .ok d)
    (accepted : ratchetDecrypt st msg ad rng = (.ok pt, next))
    (unbanked : st.skippedKeys.lookup (skippedKeyId d msg.header.n) = none) : next.dhr = some d := by
  rcases (ratchetDecrypt_ok_iff decoded).mp accepted with
    ⟨mk, banked, _, _⟩ | ⟨_, _, mid, ck, reaches, _, _, rfl⟩
  · rw [unbanked] at banked
    cases banked
  · exact (reaches_keys reaches).1

theorem sampleRead_outcome : ∃ next, sampleRead.state .responder = next ∧
    ratchetDecrypt (initResponder sampleMaster (generateX25519 FreeKey (sampleBytes 32 0))) sampleMessage []
      (sampleRandom 2) = (.ok [7], next) := by
  obtain ⟨key, history⟩ := sampleRead_accepts
  have untouched : sampleSent.state .responder =
    initResponder sampleMaster (generateX25519 FreeKey (sampleBytes 32 0)) := rfl
  rcases outcome : ratchetDecrypt (sampleSent.state .responder) sampleMessage [] (sampleRandom 2) with ⟨result, next⟩
  have call := decrypt_eq outcome
  have accepted : result = .ok [7] := by
    have entries := congrArg Session.history call
    rw [show (sampleSent.decrypt .responder sampleMessage [] (sampleRandom 2)).history = _ from history] at entries
    obtain ⟨sent, sentHistory⟩ := sampleSent_history
    rw [sentHistory] at entries
    cases entries
    rfl
  subst result
  refine ⟨next, ?_, ?_⟩
  · unfold sampleRead
    rw [call]
    exact Function.update_self Party.responder next sampleSent.state
  · rw [← untouched]
    exact outcome

theorem sampleRead_dhr : (sampleRead.state .responder).dhr = some sampleInitiator.dhs.pubBytes := by
  obtain ⟨next, state, accepted⟩ := sampleRead_outcome
  rw [state]
  exact unbanked_dhr sampleMessage_decodes accepted (Finmap.lookup_empty _)

theorem read_first {st next : RatchetState S} {msg : EncryptedMessage} {ad pt : Bytes} {rng : StepRandom S}
    {d : Bytes32} (decoded : decode32 msg.header.dhPub = .ok d) (accepted : ratchetDecrypt st msg ad rng = (.ok pt, next))
    (idle : st.receivingChainKey = none) (unknown : st.dhr ≠ some d) (empty : st.skippedKeys = ∅)
    (first : msg.header.n = 0) : next.receivingMsgNumber = 1 ∧ next.skippedKeys = ∅ := by
  rcases (ratchetDecrypt_ok_iff decoded).mp accepted with
    ⟨mk, banked, _, _⟩ | ⟨_, _, mid, ck, ⟨current, _⟩ | ⟨_, before, skips, skips'⟩, _, _, rfl⟩
  · rw [empty] at banked
    cases banked
  · exact absurd current unknown
  · obtain rfl := skips_idle idle skips
    rw [first] at skips'
    rcases skips' with ⟨absent, _⟩ | ⟨_, _, _, ⟨absent, _⟩ | ⟨_, _, rfl⟩⟩
    · cases absent
    · cases absent
    · exact ⟨rfl, empty⟩

theorem sampleRead_responder : (sampleRead.state .responder).receivingMsgNumber = 1 ∧
    (sampleRead.state .responder).skippedKeys = ∅ := by
  obtain ⟨next, state, accepted⟩ := sampleRead_outcome
  rw [state]
  exact read_first sampleMessage_decodes accepted rfl (fun same => by cases same) rfl rfl

/-- A message that was taken is refused by the counters, once its chain is the current one. -/
theorem Follows.taken_behind {T : Timeline S} {s : Session S} {p : Party} (own : Follows T s p) {j n : Nat}
    (passed : Passed T (T.level p) (s.state p).receivingMsgNumber j n)
    (current : (s.state p).dhr = some (T.pub j)) : UInt32.ofNat n < (s.state p).receivingMsgNumber := by
  have small := passed.lt
  have known := T.level_le p
  have dhr := own.tracks.dhr
  rw [current, if_neg (by omega)] at dhr
  have last := T.distinct j (by omega) (T.level p - 1) (by omega) (Option.some.inj dhr)
  obtain ⟨_, ⟨old, _⟩ | ⟨_, below⟩⟩ := passed
  · omega
  · rw [UInt32.lt_iff_toNat_lt, toNat_ofNat small.1]
    exact below

/-- A message accepted before is answered with its own `Replay` while its chain is remembered, and
the remembered chains are the last ones before the current one. -/
theorem redelivery_is_replay (ideal : Ideal S) {masterSecret : S} (attacker : Attacker masterSecret) {s : Session S}
    (reached : Reachable (Makeable attacker) masterSecret s) (p : Party) :
    (∀ msg ad pt d, Entry.delivered p msg ad (.ok pt) ∈ s.history → decode32 msg.header.dhPub = .ok d →
      (s.state p).dhr = some d ∨
        d ∈ (s.peerKeys p).dropLast.drop ((s.peerKeys p).dropLast.length - maxRetiredDhKeys) →
      ∀ ad' rng, ratchetDecrypt (s.state p) msg ad' rng = (.error (.replay msg.header.n), s.state p)) ∧
    (s.state p).retiredPeerDhKeys =
      (s.peerKeys p).dropLast.drop ((s.peerKeys p).dropLast.length - maxRetiredDhKeys) ∧
    (s.peerKeys p).getLast? = (s.state p).dhr ∧
    (s.state p).retiredPeerDhKeys.Nodup ∧ (∀ d, (s.state p).dhr = some d → d ∉ (s.state p).retiredPeerDhKeys) := by
  obtain ⟨T, inv⟩ := reachable_inv ideal attacker reached
  have own := inv.party p
  have retired : (s.state p).retiredPeerDhKeys =
      (s.peerKeys p).dropLast.drop ((s.peerKeys p).dropLast.length - maxRetiredDhKeys) := own.peers.retired
  refine ⟨?_, retired, own.peers.last, ?_, fun d => own.peers.current_not_retired⟩
  · intro msg ad pt d accepted decoded remembered ad' rng
    obtain ⟨j, n, passed, ownId, gone, _⟩ := own.receives.read msg ad pt (Session.mem_taken.mpr accepted)
    rw [bankIdOf, decoded] at ownId
    have sameId := Option.some.inj ownId
    obtain ⟨rfl, number⟩ := skippedKeyId_inj.mp sameId
    refine ratchetDecrypt_replay decoded ?_ ?_ ad' rng
    · rw [sameId]
      exact Finmap.lookup_eq_none.mpr gone
    · rcases remembered with current | old
      · exact Or.inr ⟨current, by rw [number]; exact own.taken_behind passed current⟩
      · exact Or.inl (by rw [retired]; exact old)
  · rw [retired]
    exact own.peers.nodup.sublist ((List.drop_sublist _ _).trans (List.dropLast_sublist _))

theorem redelivery_is_replay_sample :
    ratchetDecrypt (sampleRead.state .responder) sampleMessage [] (sampleRandom 3) =
      (.error (.replay 0), sampleRead.state .responder) := by
  obtain ⟨key, history⟩ := sampleRead_accepts
  have accepted : Entry.delivered .responder sampleMessage [] (.ok [7]) ∈ sampleRead.history := by
    rw [history]
    exact List.mem_cons_of_mem _ List.mem_cons_self
  exact (redelivery_is_replay freeKey_ideal (Attacker.none sampleMaster) (sampleRead_attacked _) .responder).1
    sampleMessage [] [7] _ accepted sampleMessage_decodes (Or.inl sampleRead_dhr) [] (sampleRandom 3)

end TrinoCore
