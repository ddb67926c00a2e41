import TrinoCore.Ratchet.Reloading
import TrinoCore.Ratchet.Secrecy

/-!
A loaded legacy session next to the one it was sealed from, call by call.

The loaded state has forgotten which peer keys were retired, so it treats a replay from a retired chain
as a new DH step. It still rejects it: after the step it would take a key of a new chain, and whatever
opens under that key carries the DH key of that chain.
-/

namespace TrinoCore

variable {S : Type} [Primitives S]

/-- The sessions of runs with an attacker on the network. Fresh DH keys are new, and a chain may have
any length. -/
inductive Attacked {masterSecret : S} (attacker : Attacker masterSecret) : Session S → Prop
  | start {spkPriv : Bytes32} {rng : StepRandom S} {initiator : RatchetState S}
      (made : initInitiator masterSecret (generateX25519 S spkPriv).pubBytes rng = .ok initiator)
      (fresh : x25519Pub S rng.freshPriv ≠ x25519Pub S spkPriv) :
      Attacked attacker (Session.start initiator (initResponder masterSecret (generateX25519 S spkPriv)))
  | encrypt {s : Session S} (run : Attacked attacker s) (p : Party) (plaintext ad : Bytes) (nonce : Nonce) :
      Attacked attacker (s.encrypt p plaintext ad nonce)
  | decrypt {s : Session S} (run : Attacked attacker s) (p : Party) (msg : EncryptedMessage) (ad : Bytes)
      (rng : StepRandom S) (fresh : x25519Pub S rng.freshPriv ∉ s.dhKeys)
      (offered : Makeable attacker s p msg ∨ s.Rejects p msg ad rng) : Attacked attacker (s.decrypt p msg ad rng)

/-- A session, and the state that party `p` would have in it if it had been loaded from an old one at
some point. Every later call of `p` is made on both, with the same random values. -/
inductive Lockstep {masterSecret : S} (attacker : Attacker masterSecret) (p : Party) :
    Session S → RatchetState S → Prop
  | load {s : Session S} (run : Attacked attacker s) : Lockstep attacker p s (reloaded (s.state p))
  | encrypt {s : Session S} {loaded : RatchetState S} (run : Lockstep attacker p s loaded) (q : Party)
      (plaintext ad : Bytes) (nonce : Nonce) :
      Lockstep attacker p (s.encrypt q plaintext ad nonce)
        (if q = p then ((ratchetEncrypt plaintext ad nonce).exec loaded).2 else loaded)
  | decrypt {s : Session S} {loaded : RatchetState S} (run : Lockstep attacker p s loaded) (q : Party)
      (msg : EncryptedMessage) (ad : Bytes) (rng : StepRandom S) (fresh : x25519Pub S rng.freshPriv ∉ s.dhKeys)
      (offered : Makeable attacker s q msg)
      (kept : q = p → ¬s.Rejects p msg ad rng → ¬DecryptEvicts (s.state p) msg rng) :
      Lockstep attacker p (s.decrypt q msg ad rng)
        (if q = p then (ratchetDecrypt loaded msg ad rng).2 else loaded)

section
variable {masterSecret : S}

theorem RootAt.sessionKey {i : Nat} {rk : S} (root : RootAt masterSecret i rk) : SessionKey masterSecret rk := by
  induction root with
  | master => exact .master
  | step dhOut _ ih => exact .root dhOut ih

theorem KeyAt.sessionKey {j n : Nat} {key : S} (position : KeyAt masterSecret j n key) : SessionKey masterSecret key := by
  obtain ⟨_, ⟨i, rk, dhOut, _, root, rfl⟩, rfl⟩ := position
  exact .message (SessionKey.iterate (.chain dhOut root.sessionKey) n)

/-- A party at level `c` of the timeline. Only the keys of the timeline matter here, not its counts. -/
structure Placed (masterSecret : S) (T : Timeline S) (c : Nat) (st : RatchetState S) : Prop where
  stands : ∃ sent read, Stands masterSecret ⟨c, sent, read⟩ st
  dhs : st.dhs.pubBytes = T.pub c
  dhr : st.dhr = if c = 0 then none else some (T.pub (c - 1))

/-- The retired keys of a party at level `c` are keys that its peer had before its current one. -/
def Former (T : Timeline S) (c : Nat) (st : RatchetState S) : Prop :=
  ∀ d ∈ st.retiredPeerDhKeys, ∃ i, i + 1 < c ∧ d = T.pub i

/-- The ciphertext was sealed on a chain of the timeline, under a header with the key of that chain. -/
def SealedAt (masterSecret : S) (T : Timeline S) (msg : EncryptedMessage) : Prop :=
  ∃ (j n : Nat) (mk : S) (nonce : Nonce) (pt ad : Bytes) (pn number : UInt32) (ct : Bytes),
    j ≤ T.top ∧ KeyAt masterSecret j n mk ∧ msg.ciphertext = Hex.encode ct ∧
      aeadSeal mk nonce pt (headerAd ad (T.pub j) pn number) = some ct

structure Aligned (masterSecret : S) (T : Timeline S) (s : Session S) : Prop where
  keys : ∀ j ≤ T.top, T.pub j ∈ s.dhKeys
  placed : ∀ p, Placed masterSecret T (T.level p) (s.state p)
  former : ∀ p, Former T (T.level p) (s.state p)
  sent : ∀ p msg, s.Sent p msg → SealedAt masterSecret T msg

/-- A call of party `p` takes it from `st` to `next` and the timeline from `T` to `T'`. -/
structure Onward (T T' : Timeline S) (p : Party) (st next : RatchetState S) : Prop where
  later : T.Later T'
  peer : T'.level p.peer = T.level p.peer
  level : T.level p ≤ T'.level p
  stepped : next.dhr ≠ st.dhr → T.level p < T'.level p

section
variable {T T' : Timeline S} {c : Nat} {st : RatchetState S}

theorem Onward.same {p : Party} {next : RatchetState S} (peer : next.dhr = st.dhr) : Onward T T p st next :=
  ⟨Timeline.Later.refl T, rfl, le_refl _, fun different => (different peer).elim⟩

theorem Placed.later (placed : Placed masterSecret T c st) (later : T.Later T') (known : c ≤ T.top) :
    Placed masterSecret T' c st := by
  refine ⟨placed.stands, ?_, ?_⟩
  · rw [later.pub known]
    exact placed.dhs
  · rw [later.pub (by omega)]
    exact placed.dhr

theorem Placed.answered {fresh : Bytes32} (new : ∀ j ≤ T.top, T.pub j ≠ x25519Pub S fresh) (top : T.top = c + 1)
    {sent read : Nat} (stands : Stands masterSecret ⟨c + 2, sent, read⟩ st) (drawn : st.dhs = generateX25519 S fresh)
    (peer : st.dhr = some (T.pub (c + 1))) : Placed masterSecret (T.extend fresh new) (c + 2) st := by
  refine ⟨⟨sent, read, stands⟩, ?_, ?_⟩
  · rw [show c + 2 = T.top + 1 by omega, Timeline.extend_pub]
    exact congrArg KeyPair.pubBytes drawn
  · rw [if_neg (by omega), show c + 2 - 1 = c + 1 from rfl, Timeline.later_extend.pub (by omega)]
    exact peer

theorem Former.later {c' : Nat} (former : Former T c st) (later : T.Later T') (known : c ≤ T.top) (level : c ≤ c') :
    Former T' c' st := by
  intro d retired
  obtain ⟨i, old, rfl⟩ := former d retired
  exact ⟨i, by omega, (later.pub (by omega)).symm⟩

theorem SealedAt.later {msg : EncryptedMessage} (sealed : SealedAt masterSecret T msg) (later : T.Later T') :
    SealedAt masterSecret T' msg := by
  obtain ⟨j, n, mk, nonce, pt, ad, pn, number, ct, inside, position, ciphertext, encrypted⟩ := sealed
  refine ⟨j, n, mk, nonce, pt, ad, pn, number, ct, inside.trans later.top, position, ciphertext, ?_⟩
  rw [later.pub inside]
  exact encrypted

theorem Former.onward {p : Party} {next : RatchetState S} (former : Former T (T.level p) st)
    (current : st.dhr = if T.level p = 0 then none else some (T.pub (T.level p - 1))) {msg : EncryptedMessage}
    {ad pt : Bytes} {rng : StepRandom S} (accepted : ratchetDecrypt st msg ad rng = (.ok pt, next))
    (onward : Onward T T' p st next) : Former T' (T'.level p) next := by
  have known := T.level_le p
  have level := onward.level
  intro d retired
  rcases accepted_retired accepted retired with old | ⟨replaced, changed⟩
  · obtain ⟨i, before, rfl⟩ := former d old
    exact ⟨i, by omega, (onward.later.pub (by omega)).symm⟩
  · rw [current] at replaced
    split at replaced
    · cases replaced
    · have further := onward.stepped changed
      exact ⟨T.level p - 1, by omega, by rw [onward.later.pub (by omega), Option.some.inj replaced]⟩

end

section
variable {T : Timeline S} {s : Session S}

theorem Aligned.source (ideal : Ideal S) (aligned : Aligned masterSecret T s) {attacker : Attacker masterSecret}
    {p : Party} {msg : EncryptedMessage} (made : Makeable attacker s p msg) {ad pt : Bytes} {d : Bytes32}
    (decoded : decode32 msg.header.dhPub = .ok d) {j n : Nat} {mk : S} (position : KeyAt masterSecret j n mk)
    (opens : openMessage mk msg ad = .ok pt) : j ≤ T.top ∧ d = T.pub j := by
  obtain ⟨ct, nonce, ciphertext, _, opened⟩ := (openMessage_ok decoded).mp opens
  rcases made ct ciphertext with ⟨q, sent, recorded, wire⟩ | forged
  · obtain ⟨i, m, mk', nonce', pt', ad', pn, number, ct', inside, position', sealedText, encrypted⟩ :=
      aligned.sent q sent recorded
    rw [sealedText, Hex.decode_encode] at wire
    obtain rfl := Option.some.inj wire
    obtain ⟨rfl, _, _, sameAd⟩ := ideal.seal_inj (ideal.sealed_of_open opened) encrypted
    obtain ⟨rfl, _⟩ := position.unique ideal position'
    exact ⟨inside, (headerBytes_inj sameAd).2.1⟩
  · exact (position.sessionKey.not_deducible ideal attacker (forged mk nonce _ pt opened)).elim

theorem Aligned.reads (ideal : Ideal S) (aligned : Aligned masterSecret T s) {attacker : Attacker masterSecret}
    {p : Party} {msg : EncryptedMessage} (made : Makeable attacker s p msg) {ad pt : Bytes} {d : Bytes32}
    (decoded : decode32 msg.header.dhPub = .ok d) {rng : StepRandom S} {mid : RatchetState S} {ck : S}
    (reaches : Reaches (s.state p) msg.header d rng mid) (receiving : mid.receivingChainKey = some ck)
    (opens : openMessage (messageKeyOf ck) msg ad = .ok pt) :
    ∃ j sent read, j ≤ T.top ∧ d = T.pub j ∧ Stands masterSecret ⟨j + 1, sent, read⟩ (received mid ck) ∧
      j + 1 = if (s.state p).dhr = some d then T.level p else T.level p + 2 := by
  obtain ⟨sent, read, stands⟩ := (aligned.placed p).stands
  obtain ⟨place, moves, level⟩ := reaches_moves ideal stands reaches
  obtain ⟨j, current, chain⟩ := moves.stands.receiving ck receiving
  obtain ⟨inside, pub⟩ := aligned.source ideal made decoded chain.messageKey opens
  obtain ⟨next, _⟩ := received_moves ideal moves.stands receiving
  refine ⟨j, place.sent, place.read + 1, inside, pub, ?_, current.trans level⟩
  rw [current]
  exact next.stands

theorem Aligned.unretired (ideal : Ideal S) (aligned : Aligned masterSecret T s) {attacker : Attacker masterSecret}
    {p : Party} {msg : EncryptedMessage} (made : Makeable attacker s p msg) {ad pt : Bytes} {d : Bytes32}
    (decoded : decode32 msg.header.dhPub = .ok d) {rng : StepRandom S} {mid : RatchetState S} {ck : S}
    (reaches : Reaches (s.state p) msg.header d rng mid) (receiving : mid.receivingChainKey = some ck)
    (opens : openMessage (messageKeyOf ck) msg ad = .ok pt) {other : RatchetState S}
    (former : Former T (T.level p) other) : d ∉ other.retiredPeerDhKeys := by
  obtain ⟨j, _, _, inside, pub, _, place⟩ := aligned.reads ideal made decoded reaches receiving opens
  intro retired
  obtain ⟨i, old, same⟩ := former d retired
  have known := T.level_le p
  have equal : j = i := T.distinct j inside i (by omega) (pub.symm.trans same)
  split at place
  · omega
  · omega

theorem Aligned.accepted (ideal : Ideal S) (aligned : Aligned masterSecret T s) {attacker : Attacker masterSecret}
    {p : Party} {msg : EncryptedMessage} (made : Makeable attacker s p msg) {ad pt : Bytes} {rng : StepRandom S}
    (fresh : x25519Pub S rng.freshPriv ∉ s.dhKeys) {next : RatchetState S}
    (accepted : ratchetDecrypt (s.state p) msg ad rng = (.ok pt, next)) :
    ∃ T', Onward T T' p (s.state p) next ∧ Placed masterSecret T' (T'.level p) next ∧
      ∀ j ≤ T'.top, T'.pub j ∈ (s.decrypt p msg ad rng).dhKeys := by
  have own := aligned.placed p
  have known := T.level_le p
  rw [decrypt_dhKeys accepted]
  obtain ⟨d, decoded⟩ := ratchetDecrypt_decodes accepted
  rcases (ratchetDecrypt_ok_iff decoded).mp accepted with
    ⟨mk, banked, _, rfl⟩ | ⟨_, _, mid, ck, reaches, receiving, opens, rfl⟩
  · obtain ⟨sent, read, stands⟩ := own.stands
    refine ⟨T, .same rfl, ⟨⟨sent, read, (consumed_moves stands banked).1.stands⟩, own.dhs, own.dhr⟩, ?_⟩
    rw [if_pos (show (consumed (s.state p) (skippedKeyId d msg.header.n)).dhs = (s.state p).dhs from rfl)]
    exact aligned.keys
  · obtain ⟨j, sent, read, inside, pub, stands, place⟩ := aligned.reads ideal made decoded reaches receiving opens
    obtain ⟨peer, ⟨current, keeps, _⟩ | ⟨different, drawn, _⟩⟩ := reaches_keys reaches
    · rw [if_pos current] at place
      rw [place] at stands
      have same : (received mid ck).dhr = (s.state p).dhr := peer.trans current.symm
      refine ⟨T, .same same, ⟨⟨sent, read, stands⟩, ?_, same.trans own.dhr⟩, ?_⟩
      · exact (congrArg KeyPair.pubBytes keeps).trans own.dhs
      · rw [if_pos (show (received mid ck).dhs = _ from keeps)]
        exact aligned.keys
    · rw [if_neg different] at place
      obtain rfl : j = T.level p + 1 := by omega
      obtain rfl := pub
      -- the peer is one level ahead, and its key is the last one drawn
      have neighbours := T.level_peer p
      have top : T.top = T.level p + 1 := by omega
      have new : ∀ i ≤ T.top, T.pub i ≠ x25519Pub S rng.freshPriv :=
        fun i old same => fresh (same ▸ aligned.keys i old)
      obtain ⟨level, level'⟩ := Timeline.extend_behind _ new top
      have changed : (received mid ck).dhs ≠ (s.state p).dhs := by
        intro same
        have old : (s.state p).dhs.pubBytes = x25519Pub S rng.freshPriv :=
          congrArg KeyPair.pubBytes (same.symm.trans drawn)
        exact new (T.level p) known (own.dhs.symm.trans old)
      refine ⟨T.extend rng.freshPriv new, ⟨Timeline.later_extend, level', by omega, fun _ => by omega⟩, ?_, ?_⟩
      · rw [level]
        exact .answered new top stands drawn peer
      · rw [if_neg changed]
        have own' : (received mid ck).dhs.pubBytes = x25519Pub S rng.freshPriv := congrArg KeyPair.pubBytes drawn
        rw [own']
        exact Timeline.extend_known aligned.keys

/-! ### Along a run -/

/-- One call of party `p`, from what it does to the party's own state. -/
theorem Aligned.call {T' : Timeline S} {s' : Session S} (aligned : Aligned masterSecret T s) {p : Party}
    {entry : Entry S} {next : RatchetState S} (onward : Onward T T' p (s.state p) next)
    (state : s'.state = Function.update s.state p next) (history : s'.history = s.history ++ [entry])
    (keys : ∀ j ≤ T'.top, T'.pub j ∈ s'.dhKeys) (placed : Placed masterSecret T' (T'.level p) next)
    (former : Former T' (T'.level p) next)
    (sent : ∀ q key pt ad msg, entry = .encrypted q key pt ad (.ok msg) → SealedAt masterSecret T' msg) :
    Aligned masterSecret T' s' := by
  refine ⟨keys, ?_, ?_, ?_⟩
  · intro q
    rw [state]
    rcases p.eq_or_eq_peer q with rfl | rfl
    · rw [Function.update_self]
      exact placed
    · rw [Function.update_of_ne p.peer_ne, onward.peer]
      exact (aligned.placed p.peer).later onward.later (T.level_le p.peer)
  · intro q
    rw [state]
    rcases p.eq_or_eq_peer q with rfl | rfl
    · rw [Function.update_self]
      exact former
    · rw [Function.update_of_ne p.peer_ne, onward.peer]
      exact (aligned.former p.peer).later onward.later (T.level_le p.peer) (le_refl _)
  · intro q msg given
    obtain ⟨key, pt, ad, recorded⟩ := given
    rw [history] at recorded
    rcases List.mem_append.mp recorded with old | new
    · exact (aligned.sent q msg ⟨key, pt, ad, old⟩).later onward.later
    · exact sent q key pt ad msg (List.mem_singleton.mp new).symm

theorem start_aligned {spkPriv : Bytes32} {rng : StepRandom S} {initiator : RatchetState S}
    (made : initInitiator masterSecret (generateX25519 S spkPriv).pubBytes rng = .ok initiator)
    (fresh : x25519Pub S rng.freshPriv ≠ x25519Pub S spkPriv) :
    Aligned masterSecret (Timeline.begin masterSecret spkPriv rng.freshPriv fresh)
      (Session.start initiator (initResponder masterSecret (generateX25519 S spkPriv))) := by
  have stands := start_stands made
  simp only [initInitiator, kdfRk_eq, Except.ok.injEq] at made
  subst initiator
  refine ⟨?_, ?_, ?_, ?_⟩
  · intro j inside
    obtain rfl | rfl : j = 0 ∨ j = 1 := by
      change j ≤ 1 at inside
      omega
    · exact List.mem_cons_self
    · exact List.mem_cons_of_mem _ List.mem_cons_self
  · intro p
    cases p with
    | initiator => exact ⟨⟨0, 0, stands .initiator⟩, rfl, rfl⟩
    | responder => exact ⟨⟨0, 0, stands .responder⟩, rfl, rfl⟩
  · intro p d retired
    cases p <;> cases retired
  · intro p msg given
    obtain ⟨key, pt, ad, recorded⟩ := given
    cases recorded

theorem encrypt_aligned (ideal : Ideal S) (aligned : Aligned masterSecret T s) (p : Party) (plaintext ad : Bytes)
    (nonce : Nonce) : Aligned masterSecret T (s.encrypt p plaintext ad nonce) := by
  have own := aligned.placed p
  have retired := encrypt_retired (s.state p) plaintext ad nonce
  have former : Former T (T.level p) ((ratchetEncrypt plaintext ad nonce).exec (s.state p)).2 := by
    intro d present
    rw [retired] at present
    exact aligned.former p d present
  cases sending : (s.state p).sendingChainKey with
  | none =>
    have outcome := ratchetEncrypt_none sending plaintext ad nonce
    refine aligned.call (.same ?_) rfl rfl aligned.keys ?_ former ?_
    · rw [outcome]
    · rw [outcome]
      exact own
    · intro q key pt ad' msg same
      have failed := (Entry.encrypted.inj same).2.2.2.2
      rw [outcome] at failed
      cases failed
  | some ck =>
    have outcome := ratchetEncrypt_some sending plaintext ad nonce
    obtain ⟨sent, read, stands⟩ := own.stands
    refine aligned.call (.same ?_) rfl rfl aligned.keys ?_ former ?_
    · rw [outcome]
      rfl
    · rw [outcome]
      exact ⟨⟨sent + 1, read, (afterSend_moves ideal stands sending).1.stands⟩, own.dhs, own.dhr⟩
    · intro q key pt ad' msg same
      have result := (Entry.encrypted.inj same).2.2.2.2
      rw [outcome] at result
      dsimp only at result
      split at result
      · rename_i ct encrypted
        rw [own.dhs] at encrypted
        refine ⟨T.level p, sent, messageKeyOf ck, nonce, plaintext, ad, _, _, ct, T.level_le p,
          (stands.sending ck sending).messageKey, ?_, encrypted⟩
        rw [← Except.ok.inj result]
      · cases result

theorem decrypt_aligned (ideal : Ideal S) (aligned : Aligned masterSecret T s) {attacker : Attacker masterSecret}
    {p : Party} {msg : EncryptedMessage} (ad : Bytes) {rng : StepRandom S}
    (fresh : x25519Pub S rng.freshPriv ∉ s.dhKeys)
    (offered : Makeable attacker s p msg ∨ s.Rejects p msg ad rng) :
    ∃ T', Onward T T' p (s.state p) (ratchetDecrypt (s.state p) msg ad rng).2 ∧
      Aligned masterSecret T' (s.decrypt p msg ad rng) := by
  rcases outcome : ratchetDecrypt (s.state p) msg ad rng with ⟨result, next⟩
  have call := decrypt_eq outcome
  have state := congrArg Session.state call
  have history := congrArg Session.history call
  cases result with
  | error e =>
    obtain rfl := ratchetDecrypt_error outcome
    have keys := congrArg Session.dhKeys call
    rw [if_pos rfl] at keys
    refine ⟨T, .same rfl, aligned.call (.same rfl) state history ?_ (aligned.placed p) (aligned.former p) ?_⟩
    · rw [keys]
      exact aligned.keys
    · intro q key pt ad' msg' same
      cases same
  | ok pt =>
    have made : Makeable attacker s p msg := by
      rcases offered with made | ⟨e, rejected⟩
      · exact made
      · rw [outcome] at rejected
        cases rejected
    obtain ⟨T', onward, placed, keys⟩ := aligned.accepted ideal made fresh outcome
    refine ⟨T', onward, aligned.call onward state history keys placed ?_ ?_⟩
    · exact (aligned.former p).onward (aligned.placed p).dhr outcome onward
    · intro q key pt' ad' msg' same
      cases same

theorem attacked_aligned (ideal : Ideal S) {attacker : Attacker masterSecret} (run : Attacked attacker s) :
    ∃ T, Aligned masterSecret T s := by
  induction run with
  | start made fresh => exact ⟨_, start_aligned made fresh⟩
  | encrypt _ p plaintext ad nonce ih =>
    obtain ⟨T, aligned⟩ := ih
    exact ⟨T, encrypt_aligned ideal aligned p plaintext ad nonce⟩
  | decrypt _ p msg ad rng fresh offered ih =>
    obtain ⟨T, aligned⟩ := ih
    obtain ⟨T', _, aligned'⟩ := decrypt_aligned ideal aligned ad fresh offered
    exact ⟨T', aligned'⟩

/-! ### Two runs -/

/-- The loaded state next to the one that was never sealed. -/
structure Shadows (T : Timeline S) (s : Session S) (p : Party) (loaded : RatchetState S) : Prop where
  alike : Alike (s.state p) loaded
  former : Former T (T.level p) loaded

/-- Both states accept the same messages, and stay alike if no key is evicted. -/
theorem Shadows.accepts_iff (ideal : Ideal S) (aligned : Aligned masterSecret T s) {p : Party} {loaded : RatchetState S}
    (shadows : Shadows T s p loaded) {attacker : Attacker masterSecret} {msg : EncryptedMessage}
    (made : Makeable attacker s p msg) (ad : Bytes) (rng : StepRandom S) (pt : Bytes) :
    (ratchetDecrypt (s.state p) msg ad rng).1 = .ok pt ↔ (ratchetDecrypt loaded msg ad rng).1 = .ok pt := by
  have alike := shadows.alike
  constructor
  · intro accepted
    rcases outcome : ratchetDecrypt (s.state p) msg ad rng with ⟨result, next⟩
    rw [outcome] at accepted
    obtain rfl : result = .ok pt := accepted
    obtain ⟨d, decoded⟩ := ratchetDecrypt_decodes outcome
    obtain ⟨next', accepted', _⟩ := alike.accepts decoded outcome fun mid ck reaches receiving opens =>
      aligned.unretired ideal made decoded reaches receiving opens shadows.former
    exact congrArg Prod.fst accepted'
  · intro accepted
    rcases outcome : ratchetDecrypt loaded msg ad rng with ⟨result, next⟩
    rw [outcome] at accepted
    obtain rfl : result = .ok pt := accepted
    obtain ⟨d, decoded⟩ := ratchetDecrypt_decodes outcome
    -- the steps that the loaded state takes are those of the other one
    obtain ⟨next', accepted', _⟩ := alike.symm.accepts decoded outcome fun mid ck reaches receiving opens => by
      obtain ⟨mid', reaches', same⟩ := reaches_chains alike.symm.chains reaches
      have receiving' : mid'.receivingChainKey = some ck :=
        (congrArg RatchetState.receivingChainKey same :).symm.trans receiving
      exact aligned.unretired ideal made decoded reaches' receiving' opens (aligned.former p)
    exact congrArg Prod.fst accepted'

theorem Shadows.decrypt {T' : Timeline S} (ideal : Ideal S) (aligned : Aligned masterSecret T s) {p : Party}
    {loaded : RatchetState S} (shadows : Shadows T s p loaded) {attacker : Attacker masterSecret}
    {msg : EncryptedMessage} (made : Makeable attacker s p msg) {ad : Bytes} {rng : StepRandom S}
    (kept : ¬s.Rejects p msg ad rng → ¬DecryptEvicts (s.state p) msg rng)
    (onward : Onward T T' p (s.state p) (ratchetDecrypt (s.state p) msg ad rng).2) :
    Alike (ratchetDecrypt (s.state p) msg ad rng).2 (ratchetDecrypt loaded msg ad rng).2 ∧
      Former T' (T'.level p) (ratchetDecrypt loaded msg ad rng).2 := by
  have same := shadows.accepts_iff ideal aligned made ad rng
  rcases outcome : ratchetDecrypt (s.state p) msg ad rng with ⟨result, next⟩
  rcases outcome' : ratchetDecrypt loaded msg ad rng with ⟨result', next'⟩
  rw [outcome] at same onward
  rw [outcome'] at same
  cases result with
  | error e =>
    cases result' with
    | ok pt => cases (same pt).mpr rfl
    | error e' =>
      obtain rfl := ratchetDecrypt_error outcome
      obtain rfl := ratchetDecrypt_error outcome'
      exact ⟨shadows.alike, shadows.former.later onward.later (T.level_le p) onward.level⟩
  | ok pt =>
    obtain rfl : result' = .ok pt := (same pt).mp rfl
    obtain ⟨d, decoded⟩ := ratchetDecrypt_decodes outcome
    obtain ⟨other, accepted, keeps⟩ := shadows.alike.accepts decoded outcome fun mid ck reaches receiving opens =>
      aligned.unretired ideal made decoded reaches receiving opens shadows.former
    obtain rfl : other = next' := congrArg Prod.snd (accepted.symm.trans outcome')
    obtain ⟨_, _, stands⟩ := (aligned.placed p).stands
    have alike : Alike next other := by
      apply keeps stands.bank.wellFormed
      apply kept
      rintro ⟨e, rejected⟩
      rw [outcome] at rejected
      cases rejected
    have before : (s.state p).dhr = loaded.dhr := (congrArg RatchetState.dhr shadows.alike :)
    have after : next.dhr = other.dhr := (congrArg RatchetState.dhr alike :)
    refine ⟨alike, shadows.former.onward (before.symm.trans (aligned.placed p).dhr) outcome'
      ⟨onward.later, onward.peer, onward.level, fun changed => onward.stepped ?_⟩⟩
    rw [before, after]
    exact changed

theorem lockstep_shadows (ideal : Ideal S) {attacker : Attacker masterSecret} {p : Party} {loaded : RatchetState S}
    (run : Lockstep attacker p s loaded) : ∃ T, Aligned masterSecret T s ∧ Shadows T s p loaded := by
  induction run with
  | load run =>
    obtain ⟨T, aligned⟩ := attacked_aligned ideal run
    exact ⟨T, aligned, reloaded_alike _, fun d retired => absurd retired List.not_mem_nil⟩
  | @encrypt s loaded _ q plaintext ad nonce ih =>
    obtain ⟨T, aligned, shadows⟩ := ih
    refine ⟨T, encrypt_aligned ideal aligned q plaintext ad nonce, ?_⟩
    by_cases same : q = p
    · subst q
      have retired := encrypt_retired loaded plaintext ad nonce
      rw [if_pos rfl]
      refine ⟨?_, fun d present => shadows.former d (retired ▸ present)⟩
      rw [s.encrypt_self]
      exact (encrypt_alike shadows.alike plaintext ad nonce).2
    · rw [if_neg same]
      refine ⟨?_, shadows.former⟩
      rw [s.encrypt_other (Ne.symm same)]
      exact shadows.alike
  | @decrypt s loaded _ q msg ad rng fresh offered kept ih =>
    obtain ⟨T, aligned, shadows⟩ := ih
    obtain ⟨T', onward, aligned'⟩ := decrypt_aligned ideal aligned ad fresh (Or.inl offered)
    refine ⟨T', aligned', ?_⟩
    by_cases same : q = p
    · subst q
      obtain ⟨alike, former⟩ := shadows.decrypt ideal aligned offered (kept rfl) onward
      rw [if_pos rfl]
      refine ⟨?_, former⟩
      rw [s.decrypt_self]
      exact alike
    · rw [if_neg same]
      obtain rfl : p = q.peer := (q.eq_or_eq_peer p).resolve_left (Ne.symm same)
      refine ⟨?_, shadows.former.later onward.later (T.level_le _) onward.peer.ge⟩
      rw [s.decrypt_other q.peer_ne]
      exact shadows.alike

end
end

/-- A session loaded from before the order list and the retired keys were stored sends and accepts
exactly what it would have sent and accepted, as long as no key is evicted. -/
theorem reloaded_lockstep (ideal : Ideal S) {masterSecret : S} {attacker : Attacker masterSecret} {p : Party}
    {s : Session S} {loaded : RatchetState S} (run : Lockstep attacker p s loaded) :
    (∀ plaintext ad nonce, ((ratchetEncrypt plaintext ad nonce).exec (s.state p)).1 =
      ((ratchetEncrypt plaintext ad nonce).exec loaded).1) ∧
    (∀ msg ad rng pt, Makeable attacker s p msg →
      ((ratchetDecrypt (s.state p) msg ad rng).1 = .ok pt ↔ (ratchetDecrypt loaded msg ad rng).1 = .ok pt)) ∧
    reloaded (s.state p) = reloaded loaded := by
  obtain ⟨T, aligned, shadows⟩ := lockstep_shadows ideal run
  exact ⟨fun plaintext ad nonce => (encrypt_alike shadows.alike plaintext ad nonce).1,
    fun msg ad rng pt made => shadows.accepts_iff ideal aligned made ad rng pt, shadows.alike⟩

theorem Reachable.attacked {masterSecret : S} {attacker : Attacker masterSecret} {s : Session S}
    (reached : Reachable (Makeable attacker) masterSecret s) : Attacked attacker s := by
  induction reached with
  | start made fresh => exact .start made fresh
  | encrypt _ p plaintext ad nonce _ ih => exact .encrypt ih p plaintext ad nonce
  | decrypt _ p msg ad rng fresh offered ih => exact .decrypt ih p msg ad rng fresh offered

/-- The responder's state after its first message, as an old session would load it, refuses a replay. -/
theorem reloaded_lockstep_sample :
    (ratchetDecrypt (reloaded (sampleRead.state .responder)) sampleMessage [] (sampleRandom 3)).1 ≠ .ok [7] := by
  have run : Lockstep (Attacker.none sampleMaster) .responder sampleRead (reloaded (sampleRead.state .responder)) :=
    .load (sampleRead_attacked _).attacked
  have made : Makeable (Attacker.none sampleMaster) sampleRead .responder sampleMessage := by
    obtain ⟨key, history⟩ := sampleRead_accepts
    apply genuine_makeable
    exact ⟨key, [7], [], by rw [history]; exact List.mem_cons_self⟩
  obtain ⟨number, empty⟩ := sampleRead_responder
  have unbanked : (sampleRead.state .responder).skippedKeys.lookup
      (skippedKeyId sampleInitiator.dhs.pubBytes sampleMessage.header.n) = none := by
    rw [empty]
    exact Finmap.lookup_empty _
  have replay : IsReplay (sampleRead.state .responder) sampleInitiator.dhs.pubBytes sampleMessage.header.n :=
    Or.inr ⟨sampleRead_dhr, by rw [number]; exact UInt32.zero_lt_one⟩
  have refused := ratchetDecrypt_replay sampleMessage_decodes unbanked replay [] (sampleRandom 3)
  intro accepted
  obtain ⟨_, accepts, _⟩ := reloaded_lockstep freeKey_ideal run
  have accepted' := (accepts sampleMessage [] (sampleRandom 3) [7] made).mpr accepted
  rw [refused] at accepted'
  cases accepted'

end TrinoCore
