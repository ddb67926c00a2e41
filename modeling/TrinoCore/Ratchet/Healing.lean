import TrinoCore.Knowledge
import TrinoCore.Ratchet.FirstChain
import TrinoCore.Ratchet.Secrecy

/-!
Recovery from a stolen state.

One DH step with keys that the attacker holds neither of puts a product into the root key that it can not
compute. All that a party sends from then on descends from that product, whatever is delivered to it.
-/

namespace TrinoCore

variable {S : Type} [Primitives S]

theorem DerivedFrom.rootStep {source rk : S} (dhOut : S) (derived : DerivedFrom source rk) :
    DerivedFrom source (rootStep rk dhOut) := derived.salt

theorem DerivedFrom.chainStart {source rk : S} (dhOut : S) (derived : DerivedFrom source rk) :
    DerivedFrom source (chainStart rk dhOut) := derived.salt

theorem DerivedFrom.chainStep {source ck : S} (derived : DerivedFrom source ck) : DerivedFrom source (chainStep ck) :=
  derived.input (List.mem_singleton.mpr rfl)

theorem DerivedFrom.messageKeyOf {source ck : S} (derived : DerivedFrom source ck) :
    DerivedFrom source (messageKeyOf ck) := derived.input (List.mem_singleton.mpr rfl)

theorem DerivedFrom.iterate {source ck : S} (derived : DerivedFrom source ck) (n : Nat) :
    DerivedFrom source (TrinoCore.chainStep^[n] ck) := by
  induction n with
  | zero => exact derived
  | succ n ih =>
    rw [Function.iterate_succ_apply']
    exact ih.chainStep

theorem DerivedFrom.messageKeyAt {source ck : S} (derived : DerivedFrom source ck) (n : Nat) :
    DerivedFrom source (messageKeyAt ck n) := (derived.iterate n).messageKeyOf

/-- The keys in a stored state. -/
inductive Stores (st : RatchetState S) : S → Prop
  | root : Stores st st.rootKey
  | sending {ck : S} (stored : st.sendingChainKey = some ck) : Stores st ck
  | receiving {ck : S} (stored : st.receivingChainKey = some ck) : Stores st ck
  | banked {keyId : String} {mk : S} (stored : st.skippedKeys.lookup keyId = some mk) : Stores st mk

/-- The root key and the sending chain of a state both descend from `source`. -/
structure Healed (source : S) (st : RatchetState S) : Prop where
  root : DerivedFrom source st.rootKey
  sending : ∀ ck, st.sendingChainKey = some ck → DerivedFrom source ck

section
variable {source : S} {st st' : RatchetState S}

theorem Healed.skips {until_ : UInt32} (healed : Healed source st) (skips : Skips st until_ st') : Healed source st' := by
  have frame := skips_frame skips
  have root : st'.rootKey = st.rootKey := (congrArg RatchetState.rootKey frame :)
  have sending : st'.sendingChainKey = st.sendingChainKey := (congrArg RatchetState.sendingChainKey frame :)
  exact ⟨by simpa [root] using healed.root, by simpa [sending] using healed.sending⟩

theorem Healed.stepped (healed : Healed source st) (d : Bytes32) (rng : StepRandom S) :
    Healed source (stepped st d rng) := by
  refine ⟨(healed.root.rootStep _).rootStep _, fun ck stored => ?_⟩
  obtain rfl := Option.some.inj stored
  exact (healed.root.rootStep _).chainStart _

/-- What a DH step puts into the keys it sends with from then on. -/
def stepFactor (d : Bytes32) (rng : StepRandom S) : Factor S := ⟨rng.freshPriv, d, rng.sendFallback⟩

/-- A fresh key heals, whatever the state was before. -/
theorem stepped_heals (st : RatchetState S) (d : Bytes32) (rng : StepRandom S) :
    Healed (stepFactor d rng).shared (stepped st d rng) := by
  have given : DerivedFrom (stepFactor d rng).shared (stepFactor d rng).shared := .self
  refine ⟨given.input List.mem_cons_self, fun ck stored => ?_⟩
  obtain rfl := Option.some.inj stored
  exact given.input List.mem_cons_self

theorem Healed.next (healed : Healed source st) (call : Call S) : Healed source (call.next st) := by
  cases call with
  | encrypt plaintext ad nonce =>
    cases sending : st.sendingChainKey with
    | none => simpa only [Call.next, ratchetEncrypt_none sending] using healed
    | some ck =>
      simp only [Call.next, ratchetEncrypt_some sending]
      refine ⟨healed.root, fun next stored => ?_⟩
      obtain rfl := Option.some.inj stored
      exact (healed.sending ck sending).chainStep
  | decrypt msg ad rng =>
    rcases outcome : ratchetDecrypt st msg ad rng with ⟨result, next⟩
    simp only [Call.next, outcome]
    cases result with
    | error e => simpa [ratchetDecrypt_error outcome] using healed
    | ok pt =>
      obtain ⟨d, decoded⟩ := ratchetDecrypt_decodes outcome
      rcases (ratchetDecrypt_ok_iff decoded).mp outcome with
        ⟨mk, _, _, rfl⟩ | ⟨_, _, mid, ck, reaches, _, _, rfl⟩
      · exact ⟨healed.root, healed.sending⟩
      · rcases reaches with ⟨_, skips⟩ | ⟨_, before, skips, skips'⟩
        · have after := healed.skips skips
          exact ⟨after.root, after.sending⟩
        · have after := ((healed.skips skips).stepped d rng).skips skips'
          exact ⟨after.root, after.sending⟩

theorem Healed.runCalls (healed : Healed source st) (calls : List (Call S)) : Healed source (runCalls st calls) := by
  induction calls generalizing st with
  | nil => exact healed
  | cons call rest ih => exact ih (healed.next call)

theorem Healed.opening_key (ideal : Ideal S) (healed : Healed source st) {msg : EncryptedMessage} {ad pt : Bytes}
    {rng : StepRandom S} (accepted : ratchetDecrypt st msg ad rng = (.ok pt, st')) (turned : st'.dhr ≠ st.dhr) {key : S}
    (opens : openMessage key msg ad = .ok pt) : DerivedFrom source key := by
  obtain ⟨d, decoded⟩ := ratchetDecrypt_decodes accepted
  rcases (ratchetDecrypt_ok_iff decoded).mp accepted with
    ⟨mk, _, _, rfl⟩ | ⟨_, _, mid, ck, reaches, receiving, opens', rfl⟩
  · exact (turned rfl).elim
  · obtain rfl := openMessage_key_inj ideal decoded opens opens'
    rcases reaches with ⟨current, skips⟩ | ⟨_, before, skips, skips'⟩
    · exact (turned ((congrArg RatchetState.dhr (skips_frame skips) :))).elim
    · have moved := (skips_moves skips' rfl rfl).2.2
      obtain rfl := Option.some.inj (receiving.symm.trans moved)
      exact (((healed.skips skips).root.chainStart _).iterate _).messageKeyOf

theorem accepted_heals {msg : EncryptedMessage} {ad pt : Bytes} {rng : StepRandom S} {d : Bytes32}
    (accepted : ratchetDecrypt st msg ad rng = (.ok pt, st')) (decoded : decode32 msg.header.dhPub = .ok d)
    (turned : st'.dhr ≠ st.dhr) : Healed (stepFactor d rng).shared st' := by
  rcases (ratchetDecrypt_ok_iff decoded).mp accepted with
    ⟨mk, _, _, rfl⟩ | ⟨_, _, mid, ck, reaches, _, _, rfl⟩
  · exact (turned rfl).elim
  · rcases reaches with ⟨_, skips⟩ | ⟨_, before, skips, skips'⟩
    · exact (turned ((congrArg RatchetState.dhr (skips_frame skips) :))).elim
    · have after := (stepped_heals before d rng).skips skips'
      exact ⟨after.root, after.sending⟩

/-- After one DH step with two keys that the attacker does not hold, or with a key from the peer that gives no
product and so random bytes instead: whatever the attacker knew of the state before, it never learns the root
key, the sending chain or a key of a message sent, and no message that it could seal makes the party step
again. -/
theorem healed_forever (ideal : IdealDh S) {holds : Bytes32 → Prop} {known : Set S} {msg : EncryptedMessage}
    {ad pt : Bytes} {rng : StepRandom S} {d : Bytes32} (accepted : ratchetDecrypt st msg ad rng = (.ok pt, st'))
    (decoded : decode32 msg.header.dhPub = .ok d) (turned : st'.dhr ≠ st.dhr) (random : Unmade rng.sendFallback)
    (shut : ¬(stepFactor d rng).Opened holds) (fresh : ∀ key ∈ known, ¬DerivedFrom (stepFactor d rng).shared key)
    (calls : List (Call S)) :
    let later := runCalls st' calls
    ¬Learns holds known later.rootKey ∧
      (∀ ck, later.sendingChainKey = some ck →
        ¬Learns holds known ck ∧ ∀ n, ¬Learns holds known (messageKeyAt ck n)) ∧
      ∀ msg' ad' rng' pt' after, ratchetDecrypt later msg' ad' rng' = (.ok pt', after) → after.dhr ≠ later.dhr →
        ∀ key, openMessage key msg' ad' = .ok pt' → ¬Learns holds known key := by
  intro later
  have healed : Healed (stepFactor d rng).shared later := (accepted_heals accepted decoded turned).runCalls calls
  have secret : ∀ key, DerivedFrom (stepFactor d rng).shared key → ¬Learns holds known key :=
    fun key derived => Factor.guards ideal random shut fresh derived
  refine ⟨secret _ healed.root, fun ck sending => ?_, fun msg' ad' rng' pt' after accepted' turned' key opens => ?_⟩
  · have derived := healed.sending ck sending
    exact ⟨secret _ derived, fun n => secret _ (derived.messageKeyAt n)⟩
  · exact secret _ (healed.opening_key ideal.toIdeal accepted' turned' opens)

end

/-! ### In a session -/

section
variable (ideal : IdealDh S) {T : Timeline S} {a q : Bytes32} {j n : Nat}
include ideal

/-- A product in a root key of the timeline is one of its own, or was in the master secret. -/
theorem Timeline.root_origin (derived : DerivedFrom (x25519 a q) (T.root j)) :
    DerivedFrom (x25519 a q) T.master ∨ ∃ k < j, x25519 a q = T.dh k := by
  induction j with
  | zero => exact Or.inl derived
  | succ j ih =>
    rcases derivedFrom_hkdf ideal.toIdeal derived with absurd | ⟨key, input, from_⟩
    · exact (ideal.x25519_ne_hkdf absurd).elim
    · rcases List.mem_cons.mp input with rfl | product
      · exact (ih from_).imp_right fun ⟨k, below, same⟩ => ⟨k, Nat.lt_succ_of_lt below, same⟩
      · obtain rfl := List.mem_singleton.mp product
        exact Or.inr ⟨j, Nat.lt_succ_self j, ideal.derivedFrom_product from_⟩

theorem Timeline.chain_origin (derived : DerivedFrom (x25519 a q) (T.chain j)) :
    DerivedFrom (x25519 a q) T.master ∨ ∃ k < j, x25519 a q = T.dh k := by
  cases j with
  | zero => exact Or.inl derived
  | succ j =>
    rcases derivedFrom_hkdf ideal.toIdeal derived with absurd | ⟨key, input, from_⟩
    · exact (ideal.x25519_ne_hkdf absurd).elim
    · rcases List.mem_cons.mp input with rfl | product
      · exact (Timeline.root_origin ideal from_).imp_right fun ⟨k, below, same⟩ => ⟨k, Nat.lt_succ_of_lt below, same⟩
      · obtain rfl := List.mem_singleton.mp product
        exact Or.inr ⟨j, Nat.lt_succ_self j, ideal.derivedFrom_product from_⟩

variable (contributory : wasContributory S a q = true)
include contributory

theorem derivedFrom_single {ck : S} {info : Bytes} (derived : DerivedFrom (x25519 a q) (hkdfBlock [ck] zeroSalt info 0)) :
    DerivedFrom (x25519 a q) ck := by
  rcases derivedFrom_hkdf ideal.toIdeal derived with absurd | ⟨key, input, from_⟩
  · exact (ideal.x25519_ne_hkdf absurd).elim
  · rcases List.mem_cons.mp input with rfl | only
    · exact (ideal.not_derivedFrom_zeroSalt contributory from_).elim
    · obtain rfl := List.mem_singleton.mp only
      exact from_

theorem derivedFrom_iterate {ck : S} (derived : DerivedFrom (x25519 a q) (chainStep^[n] ck)) :
    DerivedFrom (x25519 a q) ck := by
  induction n with
  | zero => exact derived
  | succ n ih =>
    rw [Function.iterate_succ_apply'] at derived
    exact ih (derivedFrom_single ideal contributory derived)

theorem Follows.stores_origin {s : Session S} {p : Party} (follows : Follows T s p) {key : S}
    (stored : Stores (s.state p) key) (derived : DerivedFrom (x25519 a q) key) :
    DerivedFrom (x25519 a q) T.master ∨ ∃ k < T.top, x25519 a q = T.dh k := by
  have known := T.level_le p
  have below : ∀ {j}, j ≤ T.top → (DerivedFrom (x25519 a q) T.master ∨ ∃ k < j, x25519 a q = T.dh k) →
      DerivedFrom (x25519 a q) T.master ∨ ∃ k < T.top, x25519 a q = T.dh k :=
    fun inside origin => origin.imp_right fun ⟨k, small, same⟩ => ⟨k, by omega, same⟩
  cases stored with
  | root =>
    rw [follows.tracks.root] at derived
    exact below known (Timeline.root_origin ideal derived)
  | sending stored =>
    rw [follows.tracks.sending] at stored
    split at stored
    · cases stored
    · obtain rfl := Option.some.inj stored
      exact below known (Timeline.chain_origin ideal (derivedFrom_iterate ideal contributory derived))
  | receiving stored =>
    rw [follows.tracks.receiving] at stored
    split at stored
    · cases stored
    · obtain rfl := Option.some.inj stored
      exact below (by omega) (Timeline.chain_origin ideal (derivedFrom_iterate ideal contributory derived))
  | banked stored =>
    obtain ⟨j, n, passed, _, rfl⟩ := follows.receives.banked _ _ stored
    exact below (by have := passed.lt.2; omega)
      (Timeline.chain_origin ideal (derivedFrom_iterate ideal contributory (derivedFrom_single ideal contributory derived)))

end

theorem Follows.peer {T : Timeline S} {s : Session S} {p : Party} (follows : Follows T s p) {d : Bytes32}
    (current : (s.state p).dhr = some d) : ∃ c, T.level p = c + 1 ∧ d = T.pub c := by
  have peer := follows.tracks.dhr
  rw [current] at peer
  split at peer
  · cases peer
  · exact ⟨T.level p - 1, by omega, Option.some.inj peer⟩

/-- The keys of a party descend from the product of its own DH key and the one it has of its peer. -/
theorem Follows.healed {T : Timeline S} {s : Session S} {p : Party} (follows : Follows T s p) {d : Bytes32}
    (current : (s.state p).dhr = some d) : Healed (x25519 (s.state p).dhs.privBytes d) (s.state p) := by
  obtain ⟨c, level, rfl⟩ := follows.peer current
  have product : x25519 (s.state p).dhs.privBytes (T.pub c) = T.dh c := by rw [follows.tracks.dhs, level]; rfl
  have given : DerivedFrom (T.dh c) (T.dh c) := .self
  rw [product]
  refine ⟨?_, fun ck stored => ?_⟩
  · rw [follows.tracks.root, level]
    exact given.input List.mem_cons_self
  · rw [follows.tracks.sending, level, if_neg (by omega)] at stored
    obtain rfl := Option.some.inj stored
    exact DerivedFrom.iterate (given.input List.mem_cons_self) _

/-- Whatever was stored by both parties of a session at one moment: later, once a party has a DH key and a
peer key of which the attacker holds neither, one of them drawn since, the attacker does not learn its root
key, its sending chain or a key of a message it sends. -/
theorem session_heals (ideal : IdealDh S) {masterSecret : S} {s s' : Session S}
    (leaked : Reachable Genuine masterSecret s) (later : Reachable Genuine masterSecret s') {holds : Bytes32 → Prop}
    {p : Party} {d : Bytes32} (current : (s'.state p).dhr = some d)
    (ours : ¬HoldsKey S holds (s'.state p).dhs.pubBytes) (theirs : ¬HoldsKey S holds d)
    (drawn : (s'.state p).dhs.pubBytes ∉ s.dhKeys ∨ d ∉ s.dhKeys)
    (apart : ¬DerivedFrom (x25519 (s'.state p).dhs.privBytes d) masterSecret) :
    let known := {key | key = zeroSalt ∨ key = masterSecret ∨ ∃ q, Stores (s.state q) key}
    ¬Learns holds known (s'.state p).rootKey ∧
      ∀ ck, (s'.state p).sendingChainKey = some ck →
        ¬Learns holds known ck ∧ ∀ n, ¬Learns holds known (messageKeyAt ck n) := by
  intro known
  obtain ⟨T, inv⟩ := genuine_inv ideal.toIdeal leaked
  obtain ⟨T', inv'⟩ := genuine_inv ideal.toIdeal later
  have own : x25519Pub S (s'.state p).dhs.privBytes = (s'.state p).dhs.pubBytes := by
    rw [(inv'.party p).tracks.dhs]
    rfl
  obtain ⟨c, _, peer⟩ := (inv'.party p).peer current
  have generated : d = x25519Pub S (T'.priv c) := peer
  have contributory : wasContributory S (s'.state p).dhs.privBytes d = true := by
    rw [generated]
    exact ideal.contributory _ _
  have fresh : ∀ key ∈ known, ¬DerivedFrom (x25519 (s'.state p).dhs.privBytes d) key := by
    intro key given derived
    rcases given with rfl | rfl | ⟨q, stored⟩
    · exact ideal.not_derivedFrom_zeroSalt contributory derived
    · exact apart derived
    · rcases (inv.party q).stores_origin ideal contributory stored derived with old | ⟨k, below, same⟩
      · rw [inv.master] at old
        exact apart old
      · -- both keys of an older product were drawn by then
        have first := inv.keys k (by omega)
        have second := inv.keys (k + 1) (by omega)
        rw [generated] at same drawn
        rw [← own] at drawn
        rcases ideal.generated_free same with ⟨mine, peer⟩ | ⟨peer, mine⟩
        · rcases drawn with new | new
          · exact new (mine ▸ second)
          · exact new (peer ▸ first)
        · rcases drawn with new | new
          · exact new (mine ▸ first)
          · exact new (peer ▸ second)
  have healed := (inv'.party p).healed current
  have secret : ∀ key, DerivedFrom (x25519 (s'.state p).dhs.privBytes d) key → ¬Learns holds known key :=
    fun key derived => ideal.product_guards contributory (by rw [own]; exact not_or.mpr ⟨ours, theirs⟩) fresh derived
  refine ⟨secret _ healed.root, fun ck sending => ?_⟩
  have derived := healed.sending ck sending
  exact ⟨secret _ derived, fun n => secret _ (derived.messageKeyAt n)⟩

def pairMaster : PairKey := ⟨sampleMaster⟩

def pairRandom (value : UInt8) : StepRandom PairKey := ⟨sampleBytes 32 value, pairMaster, pairMaster⟩

def pairSpk : KeyPair := generateX25519 PairKey (sampleBytes 32 0)

def pairSender : RatchetState PairKey :=
  match initInitiator pairMaster pairSpk.pubBytes (pairRandom 1) with
  | .ok st => st
  | .error _ => initResponder pairMaster pairSpk

def pairStart : Session PairKey := .start pairSender (initResponder pairMaster pairSpk)

theorem pairStart_reachable : Reachable Genuine pairMaster pairStart :=
  @Reachable.start _ _ _ _ _ (pairRandom 1) _ rfl (by decide)

theorem pair_accepts {master : PairKey} {spkPriv : Bytes32} {sender : RatchetState PairKey}
    (started : initInitiator master (x25519Pub PairKey spkPriv) (pairRandom 1) = .ok sender) (ad : Bytes) : ∃ msg next,
    ((ratchetEncrypt [7] ad (sampleBytes 12 0)).exec sender).1 = .ok msg ∧
      decode32 msg.header.dhPub = .ok sender.dhs.pubBytes ∧
      ratchetDecrypt (initResponder master (generateX25519 PairKey spkPriv)) msg ad (pairRandom 2) = (.ok [7], next) ∧
      next.dhr = some sender.dhs.pubBytes ∧ next.dhs = generateX25519 PairKey (sampleBytes 32 2) := by
  obtain ⟨sending, _⟩ := firstChain_agrees pairKey_ideal.toCorrect started zeroSalt
  have encrypted := congrArg Prod.fst (ratchetEncrypt_some sending [7] ad (sampleBytes 12 0))
  obtain ⟨msg, sent⟩ : ∃ msg, ((ratchetEncrypt [7] ad (sampleBytes 12 0)).exec sender).1 = .ok msg := by
    rw [encrypted]
    exact ⟨_, rfl⟩
  have decoded : decode32 msg.header.dhPub = .ok sender.dhs.pubBytes := by
    rw [encrypted] at sent
    obtain rfl := Except.ok.inj sent
    exact decode32_encode _
  let arrival : Arrival PairKey := ⟨0, ⟨[7], ad, sampleBytes 12 0⟩, msg, pairRandom 2⟩
  have delivers : Delivers [⟨[7], ad, sampleBytes 12 0⟩]
      (encryptAll sender [⟨[7], ad, sampleBytes 12 0⟩]) [arrival] := by
    intro other present
    obtain rfl := List.mem_singleton.mp present
    simp [arrival, encryptAll, sent]
  have read := firstChain_decrypts pairKey_ideal.toCorrect started (by simp) delivers (List.nodup_singleton 0)
    ⟨Nat.zero_le _, Nat.add_le_add_left (Nat.zero_le _) 1, trivial⟩
  have accepted := (List.cons.inj read).1
  rcases outcome : ratchetDecrypt (initResponder master (generateX25519 PairKey spkPriv)) msg ad (pairRandom 2) with
    ⟨result, next⟩
  obtain rfl : result = .ok [7] := (congrArg Prod.fst outcome).symm.trans accepted
  refine ⟨msg, next, sent, decoded, outcome, ?_⟩
  rcases (ratchetDecrypt_ok_iff decoded).mp outcome with
    ⟨mk, banked, _, _⟩ | ⟨_, _, mid, ck, reaches, _, _, rfl⟩
  · cases (Finmap.lookup_empty _).symm.trans banked
  · obtain ⟨peer, ⟨absurd, _⟩ | ⟨_, own, _⟩⟩ := reaches_keys reaches
    · cases absurd
    · exact ⟨peer, own⟩

theorem pairSender_started : initInitiator pairMaster (x25519Pub PairKey (sampleBytes 32 0)) (pairRandom 1) = .ok pairSender :=
  rfl

def holdsSpk (pub : Bytes32) : Prop := pub = pairSpk.pubBytes

theorem not_holdsSpk {pub : Bytes32} (other : canonical pairSpk.pubBytes ≠ canonical pub) :
    ¬HoldsKey PairKey holdsSpk pub := by
  rintro ⟨own, rfl, same⟩
  exact other (samePoint_iff.mp same)

theorem pairMaster_unmade : Unmade pairMaster := pairKey_unmade (by decide)

theorem pairMaster_apart (a p : Bytes32) : ¬DerivedFrom (x25519 a p) pairMaster := by
  intro derived
  exact pairMaster_unmade.product a p (derivedFrom_unmade pairMaster_unmade.block derived).symm

theorem healed_forever_sample : ∃ msg next,
    ratchetDecrypt (initResponder pairMaster pairSpk) msg [] (pairRandom 2) = (.ok [7], next) ∧
      ¬Learns holdsSpk {key | Stores (initResponder pairMaster pairSpk) key} next.rootKey := by
  obtain ⟨msg, next, _, decoded, accepted, peer, own⟩ := pair_accepts pairSender_started []
  refine ⟨msg, next, accepted, (healed_forever pairKey_ideal accepted decoded ?_ pairMaster_unmade ?_ ?_ []).1⟩
  · rw [peer]
    exact Option.some_ne_none _
  · rintro ⟨_, own | peer⟩
    · exact not_holdsSpk (by decide) own
    · exact not_holdsSpk (by decide) peer
  · intro key stored
    cases stored with
    | root => exact pairMaster_apart _ _
    | sending absurd => cases absurd
    | receiving absurd => cases absurd
    | banked absurd => cases (Finmap.lookup_empty _).symm.trans absurd

theorem session_heals_sample : ∃ s' : Session PairKey, Reachable Genuine pairMaster s' ∧
    ¬Learns holdsSpk {key | key = zeroSalt ∨ key = pairMaster ∨ ∃ q, Stores (pairStart.state q) key}
      (s'.state .responder).rootKey := by
  obtain ⟨msg, next, sent, decoded, accepted, peer, own⟩ := pair_accepts pairSender_started []
  have sentReachable : Reachable Genuine pairMaster (pairStart.encrypt .initiator [7] [] (sampleBytes 12 0)) :=
    .encrypt pairStart_reachable .initiator [7] [] (sampleBytes 12 0) (by decide)
  let s' := (pairStart.encrypt .initiator [7] [] (sampleBytes 12 0)).decrypt .responder msg [] (pairRandom 2)
  have reached : Reachable Genuine pairMaster s' := by
    refine .decrypt sentReachable .responder msg [] (pairRandom 2) (by decide) (Or.inl ?_)
    refine ⟨Session.sendingKey pairSender, [7], [], List.mem_singleton.mpr ?_⟩
    rw [← sent]
    rfl
  have state : s'.state .responder = next := by
    have moved := (pairStart.encrypt .initiator [7] [] (sampleBytes 12 0)).decrypt_self (p := .responder) msg [] (pairRandom 2)
    exact moved.trans (congrArg Prod.snd accepted)
  refine ⟨s', reached, (session_heals pairKey_ideal (p := .responder) (d := pairSender.dhs.pubBytes) pairStart_reachable reached
    ?_ ?_ (not_holdsSpk (by decide)) (Or.inl ?_) (pairMaster_apart _ _)).1⟩
  · rw [state]
    exact peer
  · rw [state, own]
    exact not_holdsSpk (by decide)
  · rw [state, own]
    decide

end TrinoCore
