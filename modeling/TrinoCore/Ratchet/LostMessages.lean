import TrinoCore.Ratchet.Verdict

namespace TrinoCore

variable {S : Type} [Primitives S]

/-- The sessions that runs make of `s`. -/
inductive Continues (may : Session S → Party → EncryptedMessage → Prop) (s : Session S) : Session S → Prop
  | here : Continues may s s
  | encrypt {s' : Session S} (run : Continues may s s') (p : Party) (plaintext ad : Bytes) (nonce : Nonce)
      (room : (s'.state p).sendingMsgNumber.toNat + 1 < 2 ^ 32) : Continues may s (s'.encrypt p plaintext ad nonce)
  | decrypt {s' : Session S} (run : Continues may s s') (p : Party) (msg : EncryptedMessage) (ad : Bytes)
      (rng : StepRandom S) (fresh : x25519Pub S rng.freshPriv ∉ s'.dhKeys)
      (offered : may s' p msg ∨ s'.Rejects p msg ad rng) : Continues may s (s'.decrypt p msg ad rng)

theorem Continues.reachable {may : Session S → Party → EncryptedMessage → Prop} {masterSecret : S} {s s' : Session S}
    (run : Continues may s s') (reached : Reachable may masterSecret s) : Reachable may masterSecret s' := by
  induction run with
  | here => exact reached
  | encrypt _ p plaintext ad nonce room ih => exact .encrypt ih p plaintext ad nonce room
  | decrypt _ p msg ad rng fresh offered ih => exact .decrypt ih p msg ad rng fresh offered

/-- The message is on the current chain, ahead, and within `MAX_SKIP`. -/
def Bridges (st : RatchetState S) (header : MessageHeader) : Prop :=
  ∃ d, decode32 header.dhPub = .ok d ∧ st.dhr = some d ∧ st.receivingMsgNumber.toNat ≤ header.n.toNat ∧
    header.n.toNat ≤ st.receivingMsgNumber.toNat + maxSkip.toNat

/-- The peer is more than `MAX_SKIP` messages ahead of what `p` has read of its chain. -/
def CutOff (s : Session S) (p : Party) : Prop :=
  ∃ msg d, s.Sent p.peer msg ∧ decode32 msg.header.dhPub = .ok d ∧ (s.state p).dhr = some d ∧
    (s.state p).receivingMsgNumber.toNat + maxSkip.toNat ≤ msg.header.n.toNat

/-- Nothing was received but from the bank. -/
structure Frozen (st st' : RatchetState S) : Prop where
  rootKey : st'.rootKey = st.rootKey
  dhs : st'.dhs = st.dhs
  dhr : st'.dhr = st.dhr
  receivingChainKey : st'.receivingChainKey = st.receivingChainKey
  receivingMsgNumber : st'.receivingMsgNumber = st.receivingMsgNumber
  bank : ∀ keyId ∈ st'.skippedKeys, keyId ∈ st.skippedKeys

omit [Primitives S] in
theorem Frozen.refl (st : RatchetState S) : Frozen st st := ⟨rfl, rfl, rfl, rfl, rfl, fun _ banked => banked⟩

omit [Primitives S] in
theorem Frozen.trans {st st' st'' : RatchetState S} (first : Frozen st st') (second : Frozen st' st'') : Frozen st st'' :=
  ⟨second.rootKey.trans first.rootKey, second.dhs.trans first.dhs, second.dhr.trans first.dhr,
    second.receivingChainKey.trans first.receivingChainKey, second.receivingMsgNumber.trans first.receivingMsgNumber,
    fun keyId banked => first.bank keyId (second.bank keyId banked)⟩

omit [Primitives S] in
theorem Frozen.bridges {st st' : RatchetState S} (frozen : Frozen st st') {header : MessageHeader} :
    Bridges st' header ↔ Bridges st header := by
  unfold Bridges
  rw [frozen.dhr, frozen.receivingMsgNumber]

omit [Primitives S] in
theorem frozen_consumed (st : RatchetState S) (keyId : String) : Frozen st (consumed st keyId) :=
  ⟨rfl, rfl, rfl, rfl, rfl, fun _ banked => (Finmap.mem_erase.mp banked).2⟩

theorem frozen_encrypt (st : RatchetState S) (pt ad : Bytes) (nonce : Nonce) :
    Frozen st ((ratchetEncrypt pt ad nonce).exec st).2 := by
  cases sending : st.sendingChainKey with
  | none =>
    rw [ratchetEncrypt_none sending]
    exact Frozen.refl st
  | some ck =>
    rw [ratchetEncrypt_some sending]
    exact ⟨rfl, rfl, rfl, rfl, rfl, fun _ banked => banked⟩

omit [Primitives S] in
theorem CutOff.mono {s s' : Session S} {p : Party} (cut : CutOff s p) (frozen : Frozen (s.state p) (s'.state p))
    {entry : Entry S} (grown : s'.history = s.history ++ [entry]) : CutOff s' p := by
  obtain ⟨msg, d, ⟨key, pt, ad, sent⟩, decoded, current, far⟩ := cut
  refine ⟨msg, d, ⟨key, pt, ad, ?_⟩, decoded, ?_, ?_⟩
  · rw [grown]
    exact List.mem_append_left _ sent
  · rw [frozen.dhr]
    exact current
  · rw [frozen.receivingMsgNumber]
    exact far

/-- What a party that is cut off accepts is banked, or one of the messages it lacks. -/
theorem Inv.accepted_cut_off (ideal : Ideal S) {masterSecret : S} {T : Timeline S} {s : Session S}
    (inv : Inv masterSecret T s) {p : Party} (cut : CutOff s p) {msg : EncryptedMessage} {ad pt : Bytes} {rng : StepRandom S}
    {next : RatchetState S} (seen : ∀ ct, Hex.decode msg.ciphertext = some ct → s.OnWire ct)
    (outcome : ratchetDecrypt (s.state p) msg ad rng = (.ok pt, next)) :
    Bridges (s.state p) msg.header ∨
      ∃ keyId ∈ (s.state p).skippedKeys, bankIdOf msg = some keyId ∧ next = consumed (s.state p) keyId := by
  have own := inv.party p
  obtain ⟨d, decoded⟩ := ratchetDecrypt_decodes outcome
  rcases (ratchetDecrypt_ok_iff decoded).mp outcome with
    ⟨mk, banked, _, rfl⟩ | ⟨_, unread, mid, ck, reaches, receiving, opens, rfl⟩
  · refine Or.inr ⟨_, Finmap.mem_of_lookup_eq_some banked, ?_, rfl⟩
    rw [bankIdOf, decoded]
  · refine Or.inl ⟨d, decoded, ?_⟩
    rcases reaches with ⟨current, skips⟩ | ⟨different, before, skips, skips'⟩
    · have ahead : (s.state p).receivingMsgNumber ≤ msg.header.n :=
        UInt32.not_lt.mp fun behind => unread (Or.inr ⟨current, behind⟩)
      refine ⟨current, UInt32.le_iff_toNat_le.mp ahead, ?_⟩
      rcases skips with ⟨idle, rfl⟩ | ⟨_, _, near, _⟩
      · rw [idle] at receiving
        cases receiving
      · exact near
    · -- a DH step would have to skip to the end of the chain the messages are missing from
      exfalso
      obtain ⟨far, d', ⟨key, pt', ad', sent⟩, decoded', current, beyond⟩ := cut
      rcases inv.sent _ _ _ _ _ sent with ⟨_, e, absurd⟩ | ⟨j, n, _, positive, inside, below, _, message⟩
      · cases absurd
      have counted := T.count_lt j
      have known := T.level_le p
      have genuine := message far rfl
      obtain ⟨_, value⟩ := genuine.numbered (by omega)
      obtain rfl := Except.ok.inj (decoded'.symm.trans (genuine.opens ideal.toCorrect).1)
      have dhr := own.tracks.dhr
      rw [current] at dhr
      split at dhr
      · cases dhr
      have last := T.distinct j inside (T.level p - 1) (by omega) (Option.some.inj dhr)
      have sameRoot : before.rootKey = (s.state p).rootKey := (congrArg RatchetState.rootKey (skips_frame skips) :)
      have sameCk := Option.some.inj (receiving.symm.trans (skips_moves skips' rfl rfl).2.2)
      obtain ⟨q, i, m, opened⟩ := inv.opened ideal seen decoded opens
      obtain ⟨rfl, _, _⟩ := opened.under_next_key ideal (congrArg messageKeyOf sameCk) (sameRoot.trans own.tracks.root)
      have pn : msg.header.pn.toNat = T.count j := by
        rw [opened.pn, show T.level p + 1 - 2 = j by omega]
        exact toNat_ofNat counted
      have chain := own.tracks.receiving
      rw [if_neg (by omega)] at chain
      have near := (skips_moves skips chain current).1
      omega

theorem Continues.frozen (ideal : Ideal S) {masterSecret : S} (attacker : Attacker masterSecret) {s s' : Session S}
    (reached : Reachable (Makeable attacker) masterSecret s) {p : Party} (cut : CutOff s p)
    (run : Continues (Makeable attacker) s s')
    (lost : ∀ msg ad pt, Entry.delivered p msg ad (.ok pt) ∈ s'.history → ¬Bridges (s.state p) msg.header) :
    Frozen (s.state p) (s'.state p) ∧ CutOff s' p := by
  induction run with
  | here => exact ⟨Frozen.refl _, cut⟩
  | @encrypt s' run q pt ad nonce room ih =>
    have grown : (s'.encrypt q pt ad nonce).history = s'.history ++
      [.encrypted q (Session.sendingKey (s'.state q)) pt ad ((ratchetEncrypt pt ad nonce).exec (s'.state q)).1] := rfl
    obtain ⟨frozen, still⟩ := ih fun msg ad pt present =>
      lost msg ad pt (by rw [grown]; exact List.mem_append_left _ present)
    have call : Frozen (s'.state p) ((s'.encrypt q pt ad nonce).state p) := by
      by_cases own : p = q
      · subst q
        rw [Session.encrypt_self]
        exact frozen_encrypt _ pt ad nonce
      · rw [Session.encrypt_other s' own]
        exact Frozen.refl _
    exact ⟨frozen.trans call, still.mono call grown⟩
  | @decrypt s' run q msg ad rng fresh offered ih =>
    have grown : (s'.decrypt q msg ad rng).history = s'.history ++
      [.delivered q msg ad (ratchetDecrypt (s'.state q) msg ad rng).1] := rfl
    obtain ⟨frozen, still⟩ := ih fun msg ad pt present =>
      lost msg ad pt (by rw [grown]; exact List.mem_append_left _ present)
    have call : Frozen (s'.state p) ((s'.decrypt q msg ad rng).state p) := by
      by_cases own : p = q
      · subst q
        rw [Session.decrypt_self]
        rcases outcome : ratchetDecrypt (s'.state p) msg ad rng with ⟨result, next⟩
        cases result with
        | error e =>
          rw [ratchetDecrypt_error outcome]
          exact Frozen.refl _
        | ok pt =>
          obtain ⟨T, inv⟩ := reachable_inv ideal attacker (run.reachable reached)
          have seen : ∀ ct, Hex.decode msg.ciphertext = some ct → s'.OnWire ct := by
            have accepted : ¬s'.Rejects p msg ad rng := by
              rintro ⟨e, failed⟩
              rw [outcome] at failed
              cases failed
            exact (makeable_seen ideal inv attacker ad rng (offered.resolve_right accepted)).resolve_left accepted
          have taken : Entry.delivered p msg ad (.ok pt) ∈ (s'.decrypt p msg ad rng).history := by
            rw [grown, outcome]
            exact List.mem_append_right _ (List.mem_singleton.mpr rfl)
          rcases inv.accepted_cut_off ideal still seen outcome with bridging | ⟨keyId, _, _, rfl⟩
          · exact absurd (frozen.bridges.mp bridging) (lost msg ad pt taken)
          · exact frozen_consumed _ keyId
      · rw [Session.decrypt_other s' own]
        exact Frozen.refl _
    exact ⟨frozen.trans call, still.mono call grown⟩

/-- Once the peer is more than `MAX_SKIP` messages ahead, a run that does not bring back one of the
next `MAX_SKIP + 1` messages leaves the receiving side as it is for ever, and all that can still be read
are the messages whose keys were banked. -/
theorem gap_is_final (ideal : Ideal S) {masterSecret : S} (attacker : Attacker masterSecret) {s s' : Session S}
    (reached : Reachable (Makeable attacker) masterSecret s) {p : Party} (cut : CutOff s p)
    (run : Continues (Makeable attacker) s s')
    (lost : ∀ msg ad pt, Entry.delivered p msg ad (.ok pt) ∈ s'.history → ¬Bridges (s.state p) msg.header) :
    Frozen (s.state p) (s'.state p) ∧
      ∀ msg ad pt rng, Makeable attacker s' p msg → (ratchetDecrypt (s'.state p) msg ad rng).1 = .ok pt →
        Bridges (s.state p) msg.header ∨ ∃ keyId ∈ (s.state p).skippedKeys, bankIdOf msg = some keyId := by
  obtain ⟨frozen, still⟩ := run.frozen ideal attacker reached cut lost
  refine ⟨frozen, fun msg ad pt rng made accepted => ?_⟩
  obtain ⟨T, inv⟩ := reachable_inv ideal attacker (run.reachable reached)
  have taken : ¬s'.Rejects p msg ad rng := by
    rintro ⟨e, failed⟩
    rw [accepted] at failed
    cases failed
  have seen := (makeable_seen ideal inv attacker ad rng made).resolve_left taken
  rcases outcome : ratchetDecrypt (s'.state p) msg ad rng with ⟨result, next⟩
  rw [outcome] at accepted
  obtain rfl : result = .ok pt := accepted
  rcases inv.accepted_cut_off ideal still seen outcome with bridging | ⟨keyId, banked, own, _⟩
  · exact Or.inl (frozen.bridges.mp bridging)
  · exact Or.inr ⟨keyId, frozen.bank keyId banked, own⟩

/-! ### A thousand lost messages -/

def sampleFlood (count : Nat) : Session FreeKey := (fun s => s.encrypt .initiator [7] [] (sampleBytes 12 0))^[count] sampleRead

theorem sampleFlood_succ (count : Nat) :
    sampleFlood (count + 1) = (sampleFlood count).encrypt .initiator [7] [] (sampleBytes 12 0) :=
  Function.iterate_succ_apply' _ _ _

theorem sampleFlood_responder (count : Nat) : (sampleFlood count).state .responder = sampleRead.state .responder := by
  induction count with
  | zero => rfl
  | succ count ih => rw [sampleFlood_succ, Session.encrypt_other _ (by decide), ih]

theorem sampleFlood_initiator (count : Nat) (small : count + 1 < 2 ^ 32) :
    ((sampleFlood count).state .initiator).sendingChainKey ≠ none ∧
      ((sampleFlood count).state .initiator).sendingMsgNumber.toNat = count + 1 ∧
      ((sampleFlood count).state .initiator).dhs = sampleInitiator.dhs := by
  induction count with
  | zero => exact ⟨Option.some_ne_none _, rfl, rfl⟩
  | succ count ih =>
    obtain ⟨sending, number, key⟩ := ih (by omega)
    obtain ⟨ck, sending⟩ := Option.ne_none_iff_exists'.mp sending
    rw [sampleFlood_succ, Session.encrypt_self, ratchetEncrypt_some sending]
    refine ⟨Option.some_ne_none _, ?_, key⟩
    change (((sampleFlood count).state .initiator).sendingMsgNumber + 1).toNat = _
    rw [toNat_succ (by omega), number]

theorem sampleFlood_reachable (count : Nat) (small : count + 1 < 2 ^ 32) :
    Reachable Genuine sampleMaster (sampleFlood count) := by
  induction count with
  | zero => exact sampleRead_reachable
  | succ count ih =>
    have number := (sampleFlood_initiator count (by omega)).2.1
    rw [sampleFlood_succ]
    exact .encrypt (ih (by omega)) .initiator [7] [] (sampleBytes 12 0) (by omega)

theorem sampleFlood_delivered {count : Nat} {p : Party} {msg : EncryptedMessage} {ad : Bytes} {result : Except RatchetError Bytes}
    (present : Entry.delivered p msg ad result ∈ (sampleFlood count).history) : msg = sampleMessage := by
  induction count with
  | zero =>
    obtain ⟨key, history⟩ := sampleRead_accepts
    rw [show (sampleFlood 0).history = _ from history] at present
    simp only [List.mem_cons, reduceCtorEq, false_or, List.not_mem_nil, or_false, Entry.delivered.injEq] at present
    exact present.2.1
  | succ count ih =>
    rw [sampleFlood_succ] at present
    rcases List.mem_append.mp present with old | last
    · exact ih old
    · cases List.mem_singleton.mp last

theorem sampleFlood_sent (count : Nat) (small : count + 2 < 2 ^ 32) :
    ∃ msg, (sampleFlood (count + 1)).Sent .initiator msg ∧ decode32 msg.header.dhPub = .ok sampleInitiator.dhs.pubBytes ∧
      msg.header.n.toNat = count + 1 := by
  obtain ⟨sending, number, key⟩ := sampleFlood_initiator count (by omega)
  obtain ⟨ck, sending⟩ := Option.ne_none_iff_exists'.mp sending
  obtain ⟨nonce, ct, call⟩ : ∃ nonce ct,
      ((ratchetEncrypt [7] [] (sampleBytes 12 0)).exec ((sampleFlood count).state .initiator)).1 =
        .ok ⟨nextHeader ((sampleFlood count).state .initiator), nonce, ct⟩ :=
    ⟨_, _, congrArg Prod.fst (ratchetEncrypt_some sending [7] [] (sampleBytes 12 0))⟩
  refine ⟨⟨nextHeader ((sampleFlood count).state .initiator), nonce, ct⟩,
    ⟨Session.sendingKey ((sampleFlood count).state .initiator), [7], [], ?_⟩, ?_, number⟩
  · rw [sampleFlood_succ, ← call]
    exact List.mem_append_right _ (List.mem_singleton.mpr rfl)
  · rw [← key]
    exact decode32_encode _

theorem sampleFlood_dhKeys (count : Nat) : (sampleFlood count).dhKeys = sampleRead.dhKeys := by
  induction count with
  | zero => rfl
  | succ count ih =>
    rw [sampleFlood_succ]
    exact ih

/-- After a thousand and two messages that did not arrive, the last one is not readable, neither at once
nor when more was sent and delivered. -/
theorem gap_is_final_sample :
    ∃ count msg, (sampleFlood count).Sent .initiator msg ∧
      let later := ((sampleFlood count).encrypt .initiator [8] [] (sampleBytes 12 1)).decrypt .responder msg [] (sampleRandom 3)
      Frozen ((sampleFlood count).state .responder) (later.state .responder) ∧
        ∀ pt, (ratchetDecrypt (later.state .responder) msg [] (sampleRandom 4)).1 ≠ .ok pt := by
  obtain ⟨count, wide⟩ : ∃ count, count = 1001 := ⟨1001, rfl⟩
  obtain ⟨msg, sent, decoded, number⟩ := sampleFlood_sent count (by omega)
  have responder := sampleFlood_responder (count + 1)
  obtain ⟨counter, empty⟩ := sampleRead_responder
  have reached := (sampleFlood_reachable (count + 1) (by omega)).mono (genuine_makeable sampleAttacker)
  have counted : ((sampleFlood (count + 1)).state .responder).receivingMsgNumber.toNat = 1 := by
    rw [responder, counter]
    rfl
  have limit : maxSkip.toNat = 1000 := rfl
  have cut : CutOff (sampleFlood (count + 1)) .responder := by
    refine ⟨msg, _, sent, decoded, ?_, ?_⟩
    · rw [responder]
      exact sampleRead_dhr
    · omega
  have far : ¬Bridges ((sampleFlood (count + 1)).state .responder) msg.header := by
    rintro ⟨d, _, _, _, near⟩
    omega
  have still : ((sampleFlood (count + 1)).encrypt .initiator [8] [] (sampleBytes 12 1)).Sent .initiator msg := by
    obtain ⟨key, pt, ad, present⟩ := sent
    exact ⟨key, pt, ad, List.mem_append_left _ present⟩
  have run : Continues (Makeable sampleAttacker) (sampleFlood (count + 1))
      (((sampleFlood (count + 1)).encrypt .initiator [8] [] (sampleBytes 12 1)).decrypt .responder msg [] (sampleRandom 3)) := by
    refine .decrypt (.encrypt .here .initiator [8] [] _ ?_) .responder msg [] (sampleRandom 3) ?_
      (Or.inl (genuine_makeable _ _ _ _ still))
    · have next := (sampleFlood_initiator (count + 1) (by omega)).2.1
      omega
    · change _ ∉ (sampleFlood (count + 1)).dhKeys
      rw [sampleFlood_dhKeys]
      exact sampleRead_fresh (by decide) (by decide)
  have lost : ∀ other ad pt, Entry.delivered .responder other ad (.ok pt) ∈
      (((sampleFlood (count + 1)).encrypt .initiator [8] [] (sampleBytes 12 1)).decrypt .responder msg []
        (sampleRandom 3)).history → ¬Bridges ((sampleFlood (count + 1)).state .responder) other.header := by
    intro other ad pt present
    rcases List.mem_append.mp present with old | last
    · rcases List.mem_append.mp old with older | sending
      · rw [sampleFlood_delivered older]
        rintro ⟨d, _, _, ahead, _⟩
        rw [counted] at ahead
        exact absurd ahead (by decide)
      · cases List.mem_singleton.mp sending
    · obtain ⟨_, same, _⟩ := Entry.delivered.inj (List.mem_singleton.mp last)
      rw [same]
      exact far
  refine ⟨count + 1, msg, sent, ?_⟩
  intro later
  obtain ⟨frozen, readable⟩ := gap_is_final freeKey_ideal sampleAttacker reached cut run lost
  refine ⟨frozen, fun pt accepted => ?_⟩
  have arrived : later.Sent .initiator msg := by
    obtain ⟨key, pt, ad, present⟩ := still
    exact ⟨key, pt, ad, List.mem_append_left _ present⟩
  rcases readable msg [] pt (sampleRandom 4) (genuine_makeable _ _ _ _ arrived) accepted with near | ⟨keyId, banked, _⟩
  · exact far near
  · rw [responder, empty] at banked
    exact absurd banked Finmap.notMem_empty

end TrinoCore
