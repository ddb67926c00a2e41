import TrinoCore.Ratchet.Authenticity
import TrinoCore.Ratchet.Positions

/-! What can be computed from a stored state: no key of a message that was sent or read. -/

namespace TrinoCore

variable {S : Type} [Primitives S]

/-- The root keys that a state leads to, with any DH outputs. -/
inductive RootKey (st : RatchetState S) : S → Prop
  | stored : RootKey st st.rootKey
  | step {rk newRk ck : S} (dhOut : S) (known : RootKey st rk) (derived : kdfRk rk dhOut = .ok (newRk, ck)) :
      RootKey st newRk

inductive ChainKey (st : RatchetState S) : S → Prop
  | sending {ck : S} (stored : st.sendingChainKey = some ck) : ChainKey st ck
  | receiving {ck : S} (stored : st.receivingChainKey = some ck) : ChainKey st ck
  | root {rk newRk ck : S} (dhOut : S) (known : RootKey st rk) (derived : kdfRk rk dhOut = .ok (newRk, ck)) :
      ChainKey st ck
  | step {ck nextCk mk : S} (known : ChainKey st ck) (derived : kdfCk ck = .ok (nextCk, mk)) : ChainKey st nextCk

/-- The keys that a stored state leads to. -/
inductive Obtainable (st : RatchetState S) : S → Prop
  | banked {keyId : String} {mk : S} (stored : st.skippedKeys.lookup keyId = some mk) : Obtainable st mk
  | root {rk : S} (known : RootKey st rk) : Obtainable st rk
  | chain {ck : S} (known : ChainKey st ck) : Obtainable st ck
  | message {ck nextCk mk : S} (known : ChainKey st ck) (derived : kdfCk ck = .ok (nextCk, mk)) : Obtainable st mk

/-- The sessions of all runs. Any message may be delivered, a chain may have any length, and nothing is
asked of the keys that are drawn. -/
inductive AnyRun (masterSecret : S) : Session S → Prop
  | start {spkKeypair : KeyPair} {rng : StepRandom S} {initiator : RatchetState S}
      (made : initInitiator masterSecret spkKeypair.pubBytes rng = .ok initiator) :
      AnyRun masterSecret (Session.start initiator (initResponder masterSecret spkKeypair))
  | encrypt {s : Session S} (run : AnyRun masterSecret s) (p : Party) (plaintext ad : Bytes) (nonce : Nonce) :
      AnyRun masterSecret (s.encrypt p plaintext ad nonce)
  | decrypt {s : Session S} (run : AnyRun masterSecret s) (p : Party) (msg : EncryptedMessage) (ad : Bytes)
      (rng : StepRandom S) : AnyRun masterSecret (s.decrypt p msg ad rng)

section
variable {masterSecret : S} {place : Place} {st : RatchetState S}

theorem RootKey.ahead (stands : Stands masterSecret place st) {rk : S} (known : RootKey st rk) :
    ∃ i, place.level ≤ i ∧ RootAt masterSecret i rk := by
  induction known with
  | stored => exact ⟨place.level, le_refl _, stands.root⟩
  | @step rk newRk ck dhOut _ derived ih =>
    obtain ⟨i, ahead, root⟩ := ih
    obtain ⟨rfl, _⟩ := Prod.mk.inj (Except.ok.inj ((kdfRk_eq rk dhOut).symm.trans derived))
    exact ⟨i + 1, by omega, .step dhOut root⟩

/-- Every chain key that a state leads to is at a place that the state is not past. -/
theorem ChainKey.ahead (stands : Stands masterSecret place st) {ck : S} (known : ChainKey st ck) :
    ∃ j n, ChainAt masterSecret j n ck ∧ ∀ m, n ≤ m → ¬place.Past j m := by
  induction known with
  | @sending ck stored =>
    refine ⟨_, _, stands.sending ck stored, fun m further past => ?_⟩
    have below := past.2.1 rfl
    omega
  | @receiving ck stored =>
    obtain ⟨j, current, chain⟩ := stands.receiving ck stored
    refine ⟨j, _, chain, fun m further past => ?_⟩
    have below := past.2.2 current
    omega
  | @root rk newRk ck dhOut known derived =>
    obtain ⟨i, ahead, root⟩ := known.ahead stands
    obtain ⟨_, rfl⟩ := Prod.mk.inj (Except.ok.inj ((kdfRk_eq rk dhOut).symm.trans derived))
    refine ⟨i + 1, 0, root.chainStart dhOut, fun m _ past => ?_⟩
    have inside := past.1
    omega
  | @step ck nextCk mk _ derived ih =>
    obtain ⟨j, n, chain, ahead⟩ := ih
    obtain ⟨rfl, _⟩ := Prod.mk.inj (Except.ok.inj ((kdfCk_eq ck).symm.trans derived))
    exact ⟨j, n + 1, chain.next, fun m further => ahead m (by omega)⟩

theorem KeyAt.ne_root (ideal : Ideal S) {j n i : Nat} {key : S} (position : KeyAt masterSecret j n key)
    (started : 1 ≤ i) : ¬RootAt masterSecret i key := by
  intro root
  obtain ⟨ck, _, rfl⟩ := position
  rcases root.origin with ⟨rfl, _⟩ | ⟨_, rk, dhOut, _, same, _⟩
  · omega
  · obtain ⟨_, _, labels, _⟩ := ideal.hkdf_inj same
    exact absurd (utf8_inj.mp labels) (by decide)

theorem KeyAt.ne_chain (ideal : Ideal S) {j n i m : Nat} {key : S} (position : KeyAt masterSecret j n key) :
    ¬ChainAt masterSecret i m key := by
  intro given
  obtain ⟨_, rk, dhOut, _, _, same⟩ := given
  obtain ⟨ck, _, rfl⟩ := position
  cases m with
  | zero => exact messageKeyOf_ne_chainStart ideal _ _ _ same
  | succ m =>
    rw [Function.iterate_succ_apply'] at same
    exact messageKeyOf_ne_chainStep ideal _ _ same

theorem Spent.not_obtainable (ideal : Ideal S) {key : S} (spent : Spent masterSecret place st key)
    (stands : Stands masterSecret place st) : ¬Obtainable st key := by
  intro obtained
  obtain ⟨j, n, position, past⟩ := spent.past
  cases obtained with
  | banked stored => exact spent.unbanked _ stored
  | root known =>
    obtain ⟨i, ahead, root⟩ := known.ahead stands
    have inside := past.1
    have positive : 1 ≤ j := by
      obtain ⟨_, ⟨i, _, _, rfl, _⟩, _⟩ := position
      omega
    exact position.ne_root ideal (by omega) root
  | chain known =>
    obtain ⟨i, m, chain, _⟩ := known.ahead stands
    exact position.ne_chain ideal chain
  | @message ck nextCk _ known derived =>
    obtain ⟨i, m, chain, ahead⟩ := known.ahead stands
    obtain ⟨_, rfl⟩ := Prod.mk.inj (Except.ok.inj ((kdfCk_eq ck).symm.trans derived))
    obtain ⟨rfl, rfl⟩ := position.unique ideal chain.messageKey
    exact ahead _ (le_refl _) past

end

/-! ### Along a run -/

theorem openMessage_key_inj (ideal : Ideal S) {key key' : S} {msg : EncryptedMessage} {ad pt pt' : Bytes} {d : Bytes32}
    (decoded : decode32 msg.header.dhPub = .ok d) (opens : openMessage key msg ad = .ok pt)
    (opens' : openMessage key' msg ad = .ok pt') : key = key' := by
  obtain ⟨ct, nonce, ciphertext, _, opened⟩ := (openMessage_ok decoded).mp opens
  obtain ⟨ct', nonce', ciphertext', _, opened'⟩ := (openMessage_ok decoded).mp opens'
  obtain rfl := Option.some.inj (ciphertext.symm.trans ciphertext')
  exact (ideal.seal_inj (ideal.sealed_of_open opened) (ideal.sealed_of_open opened')).1

/-- Party `p` has sent with this key, or read with it. -/
def Entry.Uses (p : Party) (key : S) : Entry S → Prop
  | .encrypted q used _ _ _ => q = p ∧ used = some key
  | .delivered q msg ad result => q = p ∧ ∃ pt, result = .ok pt ∧ openMessage key msg ad = .ok pt

structure Forward (masterSecret : S) (s : Session S) : Prop where
  party : ∀ p, ∃ place, place.level % 2 = p.parity ∧ Stands masterSecret place (s.state p) ∧
    ∀ entry ∈ s.history, ∀ key, entry.Uses p key → Spent masterSecret place (s.state p) key
  -- the initiator's chains have odd numbers and the responder's even ones
  sent : ∀ entry ∈ s.history, ∀ key, entry.usedKey = some key →
    ∃ p j n, entry.Uses p key ∧ KeyAt masterSecret j n key ∧ j % 2 = p.parity
  fresh : s.usedKeys.Nodup

theorem start_stands {masterSecret : S} {spkKeypair : KeyPair} {rng : StepRandom S} {initiator : RatchetState S}
    (made : initInitiator masterSecret spkKeypair.pubBytes rng = .ok initiator) (p : Party) :
    Stands masterSecret ⟨p.parity, 0, 0⟩
      ((Session.start initiator (initResponder masterSecret spkKeypair)).state p) := by
  simp only [initInitiator, kdfRk_eq, Except.ok.injEq] at made
  subst initiator
  have empty : ∀ {place : Place} {st : RatchetState S}, st.skippedKeys = ∅ → st.skippedKeyOrder = [] →
      BankStands masterSecret place st := by
    intro place st keys order
    have unbanked : ∀ keyId mk, st.skippedKeys.lookup keyId ≠ some mk := by
      intro keyId mk
      rw [keys, Finmap.lookup_empty]
      exact (Option.some_ne_none mk).symm
    refine ⟨⟨?_, ?_⟩, fun keyId mk banked => (unbanked keyId mk banked).elim,
      fun keyId keyId' mk banked => (unbanked keyId mk banked).elim⟩
    · rw [order]
      exact List.nodup_nil
    · rw [order]
      intro keyId ordered
      cases ordered
  cases p with
  | initiator =>
    refine ⟨empty rfl rfl, .step _ .master, ?_, ?_⟩
    · intro ck stored
      obtain rfl := Option.some.inj stored
      exact RootAt.master.chainStart _
    · intro ck absent
      cases absent
  | responder =>
    refine ⟨empty rfl rfl, .master, ?_, ?_⟩
    · intro ck absent
      cases absent
    · intro ck absent
      cases absent

theorem start_forward {masterSecret : S} {spkKeypair : KeyPair} {rng : StepRandom S} {initiator : RatchetState S}
    (made : initInitiator masterSecret spkKeypair.pubBytes rng = .ok initiator) :
    Forward masterSecret (Session.start initiator (initResponder masterSecret spkKeypair)) := by
  refine ⟨fun p => ?_, fun entry present => absurd present List.not_mem_nil, List.nodup_nil⟩
  exact ⟨⟨p.parity, 0, 0⟩, Nat.mod_eq_of_lt p.parity_lt, start_stands made p,
    fun entry present => absurd present List.not_mem_nil⟩

/-- One call of party `p`, from what it does to the party's own state. -/
theorem Forward.call {masterSecret : S} {s s' : Session S} (forward : Forward masterSecret s) {p : Party}
    {entry : Entry S} {next : RatchetState S} (state : s'.state = Function.update s.state p next)
    (history : s'.history = s.history ++ [entry]) (own : ∀ q key, entry.Uses q key → q = p)
    (moves : ∀ place, Stands masterSecret place (s.state p) → ∃ place', Moves masterSecret place (s.state p) place' next ∧
      ∀ key, entry.Uses p key → Spent masterSecret place' next key)
    (sent : ∀ key, entry.usedKey = some key → key ∉ s.usedKeys ∧
      ∃ j n, entry.Uses p key ∧ KeyAt masterSecret j n key ∧ j % 2 = p.parity) : Forward masterSecret s' := by
  refine ⟨?_, ?_, ?_⟩
  · intro q
    obtain ⟨place, parity, stands, spent⟩ := forward.party q
    rw [state, history]
    by_cases same : q = p
    · subst q
      obtain ⟨place', moved, uses⟩ := moves place stands
      rw [Function.update_self]
      refine ⟨place', moved.parity.trans parity, moved.stands, fun other present key used => ?_⟩
      rcases List.mem_append.mp present with old | new
      · exact moved.spent key (spent other old key used)
      · obtain rfl := List.mem_singleton.mp new
        exact uses key used
    · rw [Function.update_of_ne same]
      refine ⟨place, parity, stands, fun other present key used => ?_⟩
      rcases List.mem_append.mp present with old | new
      · exact spent other old key used
      · obtain rfl := List.mem_singleton.mp new
        exact (same (own q key used)).elim
  · intro other present key used
    rw [history] at present
    rcases List.mem_append.mp present with old | new
    · exact forward.sent other old key used
    · obtain rfl := List.mem_singleton.mp new
      exact ⟨p, (sent key used).2⟩
  · unfold Session.usedKeys
    rw [history, List.filterMap_append]
    apply List.nodup_append.mpr
    refine ⟨forward.fresh, ?_, ?_⟩
    · cases used : entry.usedKey with
      | none => simp [used]
      | some key => simp [used]
    · intro key old key' new same
      obtain ⟨other, present, used⟩ := List.mem_filterMap.mp new
      obtain rfl := List.mem_singleton.mp present
      exact (sent key' used).1 (same ▸ old)

theorem Forward.next_fresh (ideal : Ideal S) {masterSecret : S} {s : Session S} (forward : Forward masterSecret s)
    {p : Party} {ck : S} (sending : (s.state p).sendingChainKey = some ck) :
    messageKeyOf ck ∉ s.usedKeys ∧ ∃ j n, KeyAt masterSecret j n (messageKeyOf ck) ∧ j % 2 = p.parity := by
  obtain ⟨place, parity, stands, spent⟩ := forward.party p
  have position := (stands.sending ck sending).messageKey
  refine ⟨fun old => ?_, place.level, place.sent, position, parity⟩
  obtain ⟨entry, present, used⟩ := List.mem_filterMap.mp old
  obtain ⟨q, j, n, uses, position', parity'⟩ := forward.sent entry present _ used
  obtain ⟨rfl, rfl⟩ := position.unique ideal position'
  obtain rfl := Party.parity_inj (parity.symm.trans parity')
  obtain ⟨j, n, position', past⟩ := (spent entry present _ uses).past
  obtain ⟨rfl, rfl⟩ := position.unique ideal position'
  exact absurd (past.2.1 rfl) (lt_irrefl _)

theorem encrypt_forward (ideal : Ideal S) {masterSecret : S} {s : Session S} (forward : Forward masterSecret s)
    (p : Party) (plaintext ad : Bytes) (nonce : Nonce) : Forward masterSecret (s.encrypt p plaintext ad nonce) := by
  cases sending : (s.state p).sendingChainKey with
  | none =>
    have unused : Session.sendingKey (s.state p) = none := by
      unfold Session.sendingKey
      rw [sending]
      rfl
    refine forward.call rfl rfl (fun q key uses => uses.1.symm) (fun place stands => ?_) (fun key used => ?_)
    · rw [ratchetEncrypt_none sending]
      refine ⟨place, .refl stands, fun key uses => ?_⟩
      rw [unused] at uses
      cases uses.2
    · rw [Entry.usedKey, unused] at used
      cases used
  | some ck =>
    have usedKey : Session.sendingKey (s.state p) = some (messageKeyOf ck) := by
      unfold Session.sendingKey
      rw [sending]
      rfl
    obtain ⟨new, j, n, position, parity⟩ := forward.next_fresh ideal sending
    refine forward.call rfl rfl (fun q key uses => uses.1.symm) (fun place stands => ?_) (fun key used => ?_)
    · rw [ratchetEncrypt_some sending]
      obtain ⟨moves, spent⟩ := afterSend_moves ideal stands sending
      refine ⟨_, moves, fun key uses => ?_⟩
      rw [usedKey] at uses
      obtain rfl := Option.some.inj uses.2
      exact spent
    · rw [Entry.usedKey, usedKey] at used
      obtain rfl := Option.some.inj used
      exact ⟨new, j, n, ⟨rfl, usedKey⟩, position, parity⟩

theorem decrypt_forward (ideal : Ideal S) {masterSecret : S} {s : Session S} (forward : Forward masterSecret s)
    (p : Party) (msg : EncryptedMessage) (ad : Bytes) (rng : StepRandom S) :
    Forward masterSecret (s.decrypt p msg ad rng) := by
  rcases outcome : ratchetDecrypt (s.state p) msg ad rng with ⟨result, next⟩
  rw [decrypt_eq outcome]
  refine forward.call rfl rfl (fun q key uses => uses.1.symm) (fun place stands => ?_) (fun key used => by cases used)
  cases result with
  | error e =>
    rw [ratchetDecrypt_error outcome]
    refine ⟨place, .refl stands, fun key uses => ?_⟩
    obtain ⟨_, pt, absurd, _⟩ := uses
    cases absurd
  | ok pt =>
    obtain ⟨place', mk, moves, opens, spent⟩ := accepted_moves ideal stands outcome
    refine ⟨place', moves, fun key uses => ?_⟩
    obtain ⟨_, pt', _, opens'⟩ := uses
    obtain ⟨d, decoded⟩ := ratchetDecrypt_decodes outcome
    rw [openMessage_key_inj ideal decoded opens' opens]
    exact spent

theorem anyRun_forward (ideal : Ideal S) {masterSecret : S} {s : Session S} (run : AnyRun masterSecret s) :
    Forward masterSecret s := by
  induction run with
  | start made => exact start_forward made
  | encrypt _ p plaintext ad nonce ih => exact encrypt_forward ideal ih p plaintext ad nonce
  | decrypt _ p msg ad rng ih => exact decrypt_forward ideal ih p msg ad rng

/-- The key of a message that was sent or accepted can not be computed from the state of the party
that did, from then on, and no two calls of `ratchet_encrypt` use the same key. -/
theorem spent_keys_unobtainable (ideal : Ideal S) {masterSecret : S} {s : Session S} (run : AnyRun masterSecret s) :
    (∀ p key pt ad result, Entry.encrypted p (some key) pt ad result ∈ s.history → ¬Obtainable (s.state p) key) ∧
    (∀ p msg ad pt, Entry.delivered p msg ad (.ok pt) ∈ s.history →
      ∀ key, openMessage key msg ad = .ok pt → ¬Obtainable (s.state p) key) ∧
    s.usedKeys.Nodup := by
  have forward := anyRun_forward ideal run
  refine ⟨?_, ?_, forward.fresh⟩
  · intro p key pt ad result recorded
    obtain ⟨place, _, stands, spent⟩ := forward.party p
    exact (spent _ recorded key ⟨rfl, rfl⟩).not_obtainable ideal stands
  · intro p msg ad pt accepted key opens
    obtain ⟨place, _, stands, spent⟩ := forward.party p
    exact (spent _ accepted key ⟨rfl, pt, rfl, opens⟩).not_obtainable ideal stands

theorem Reachable.anyRun {may : Session S → Party → EncryptedMessage → Prop} {masterSecret : S} {s : Session S}
    (reached : Reachable may masterSecret s) : AnyRun masterSecret s := by
  induction reached with
  | start made _ => exact .start made
  | encrypt _ p pt ad nonce _ ih => exact .encrypt ih p pt ad nonce
  | decrypt _ p msg ad rng _ _ ih => exact .decrypt ih p msg ad rng

theorem spent_keys_unobtainable_sample : ∃ key, sampleRead.usedKeys = [key] ∧
    ¬Obtainable (sampleRead.state .initiator) key := by
  obtain ⟨key, history⟩ := sampleRead_accepts
  obtain ⟨unobtainable, _, _⟩ := spent_keys_unobtainable freeKey_ideal sampleRead_reachable.anyRun
  obtain ⟨T, inv⟩ := genuine_inv freeKey_ideal sampleRead_reachable
  have recorded : Entry.encrypted .initiator key [7] [] (.ok sampleMessage) ∈ sampleRead.history := by
    rw [history]
    exact List.mem_cons_self
  rcases inv.sent _ _ _ _ _ recorded with ⟨_, e, absurd⟩ | ⟨j, n, _, _, _, _, rfl, _⟩
  · cases absurd
  · refine ⟨T.messageKey j n, ?_, unobtainable .initiator _ [7] [] _ recorded⟩
    unfold Session.usedKeys
    rw [history]
    rfl

end TrinoCore
