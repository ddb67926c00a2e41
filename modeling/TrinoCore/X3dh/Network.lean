import Mathlib.Logic.Relation
import TrinoCore.Ratchet.Lockstep
import TrinoCore.X3dh.Secrecy

/-!
Many sessions on one network.

Handshakes with different ephemeral keys have different master secrets, and what is derived from different
master secrets never meets. A session whose handshake holds goes on as if it were alone: the other
sessions are one more source of messages for it, even those of which every key was stolen.
-/

namespace TrinoCore

section
variable {S : Type} [Primitives S]

/-- One derivation of the ratchet. -/
inductive RatchetStep (parent : S) : S → Prop
  | root (dhOut : S) : RatchetStep parent (rootStep parent dhOut)
  | chain (dhOut : S) : RatchetStep parent (chainStart parent dhOut)
  | next : RatchetStep parent (chainStep parent)
  | message : RatchetStep parent (messageKeyOf parent)

/-- A root key goes in as the salt, a chain key as the input, under labels that differ. -/
theorem RatchetStep.shape {parent key : S} (step : RatchetStep parent key) :
    (∃ dhOut block, key = hkdfBlock [dhOut] parent kdfRkInfo block) ∨
      ∃ info, info ≠ kdfRkInfo ∧ info ≠ x3dhInfo ∧ key = hkdfBlock [parent] zeroSalt info 0 := by
  cases step with
  | root dhOut => exact Or.inl ⟨dhOut, 0, rfl⟩
  | chain dhOut => exact Or.inl ⟨dhOut, 1, rfl⟩
  | next => exact Or.inr ⟨kdfCkInfoChain, by decide, by decide, rfl⟩
  | message => exact Or.inr ⟨kdfCkInfoMsg, by decide, by decide, rfl⟩

theorem RatchetStep.input {parent salt : S} {ikm : List S} {info : Bytes} {block : Nat} (ideal : Ideal S)
    (step : RatchetStep parent (hkdfBlock ikm salt info block)) : parent ∈ salt :: ikm := by
  rcases step.shape with ⟨dhOut, block', same⟩ | ⟨info', _, _, same⟩
  · obtain ⟨_, rfl, _⟩ := ideal.hkdf_inj same
    exact List.mem_cons_self
  · obtain ⟨rfl, _⟩ := ideal.hkdf_inj same
    exact List.mem_cons_of_mem _ (List.mem_singleton_self parent)

theorem RatchetStep.leftUnique (ideal : Ideal S) : Relator.LeftUnique (RatchetStep (S := S)) := by
  intro parent parent' key step step'
  rcases step.shape with ⟨dhOut, block, rfl⟩ | ⟨info, other, _, rfl⟩
  · rcases step'.shape with ⟨dhOut', block', same⟩ | ⟨info', other', _, same⟩
    · exact (ideal.hkdf_inj same).2.1
    · exact (other' (ideal.hkdf_inj same).2.2.1.symm).elim
  · rcases step'.shape with ⟨dhOut', block', same⟩ | ⟨info', other', _, same⟩
    · exact (other (ideal.hkdf_inj same).2.2.1).elim
    · exact (List.cons.inj (ideal.hkdf_inj same).1).1

theorem sessionKey_iff {masterSecret key : S} :
    SessionKey masterSecret key ↔ Relation.ReflTransGen RatchetStep masterSecret key := by
  constructor
  · intro isKey
    induction isKey with
    | master => exact .refl
    | root dhOut _ ih => exact ih.tail (.root dhOut)
    | chain dhOut _ ih => exact ih.tail (.chain dhOut)
    | next _ ih => exact ih.tail .next
    | message _ ih => exact ih.tail .message
  · intro steps
    induction steps with
    | refl => exact .master
    | tail _ step ih =>
      cases step with
      | root dhOut => exact .root dhOut ih
      | chain dhOut => exact .chain dhOut ih
      | next => exact .next ih
      | message => exact .message ih

theorem SessionKey.derivedFrom {masterSecret key : S} (isKey : SessionKey masterSecret key) :
    DerivedFrom masterSecret key := by
  induction isKey with
  | master => exact .self
  | root dhOut _ ih => exact ih.rootStep dhOut
  | chain dhOut _ ih => exact ih.chainStart dhOut
  | next _ ih => exact ih.chainStep
  | message _ ih => exact ih.messageKeyOf

theorem master_underived (ideal : Ideal S) {key salt : S} {ikm : List S} {block : Nat} :
    ¬RatchetStep key (hkdfBlock ikm salt x3dhInfo block) := by
  intro step
  rcases step.shape with ⟨dhOut, block', same⟩ | ⟨info, _, other, same⟩
  · exact absurd (ideal.hkdf_inj same).2.2.1 (by decide)
  · exact other (ideal.hkdf_inj same).2.2.1.symm

/-- Two sessions that share a key have the same master secret. -/
theorem SessionKey.same_master (ideal : Ideal S) {masterSecret masterSecret' key : S}
    (origin : ∀ k, ¬RatchetStep k masterSecret) (origin' : ∀ k, ¬RatchetStep k masterSecret')
    (isKey : SessionKey masterSecret key) (isKey' : SessionKey masterSecret' key) : masterSecret = masterSecret' := by
  have back := Relation.reflTransGen_swap.mpr (sessionKey_iff.mp isKey)
  have back' := Relation.reflTransGen_swap.mpr (sessionKey_iff.mp isKey')
  have unique : Relator.RightUnique (Function.swap (RatchetStep (S := S))) :=
    fun _ _ _ first second => RatchetStep.leftUnique ideal first second
  rcases Relation.ReflTransGen.total_of_right_unique unique back back' with path | path
  · rcases Relation.ReflTransGen.cases_head path with same | ⟨k, step, _⟩
    · exact same
    · exact (origin k step).elim
  · rcases Relation.ReflTransGen.cases_head path with same | ⟨k, step, _⟩
    · exact same.symm
    · exact (origin' k step).elim

theorem Deducible.mono {known known' : S → Prop} (more : ∀ key, known key → known' key) {key : S}
    (deduced : Deducible known key) : Deducible known' key := by
  induction deduced with
  | known given => exact .known (more _ given)
  | hkdf info block _ _ inputs salted => exact .hkdf info block inputs salted

theorem Deducible.not_secret {known : S → Prop} (secret : S → Prop)
    (guarded : ∀ ikm salt info block, secret (hkdfBlock ikm salt info block) → ∃ key ∈ salt :: ikm, secret key)
    (unknown : ∀ key, known key → ¬secret key) {key : S} (deduced : Deducible known key) : ¬secret key := by
  induction deduced with
  | known given => exact unknown _ given
  | hkdf info block _ _ inputs salted =>
    intro inside
    obtain ⟨key, present, secretKey⟩ := guarded _ _ info block inside
    rcases List.mem_cons.mp present with rfl | input
    · exact salted secretKey
    · exact inputs key input secretKey

theorem SessionKey.made {inputs : List S} {key : S} (isKey : SessionKey (hkdfBlock inputs zeroSalt x3dhInfo 0) key) :
    ∃ ikm salt info block, key = hkdfBlock ikm salt info block := by
  rcases Relation.ReflTransGen.cases_tail (sessionKey_iff.mp isKey) with same | ⟨parent, _, step⟩
  · exact ⟨_, _, _, _, same⟩
  · rcases step.shape with ⟨_, _, made⟩ | ⟨_, _, _, made⟩
    · exact ⟨_, _, _, _, made⟩
    · exact ⟨_, _, _, _, made⟩

/-- An input of a handshake that is unknown, and is itself no output of HKDF, keeps the master secret. -/
theorem not_deducible_master (ideal : Ideal S) {guard : S} {inputs : List S} (input : guard ∈ inputs)
    (bare : ∀ ikm salt info block, guard ≠ hkdfBlock ikm salt info block) {known : S → Prop} (unknown : ¬known guard)
    (noKey : ∀ key, known key → ¬SessionKey (hkdfBlock inputs zeroSalt x3dhInfo 0) key) :
    ¬Deducible known (hkdfBlock inputs zeroSalt x3dhInfo 0) := by
  let secret : S → Prop := fun key => key = guard ∨ SessionKey (hkdfBlock inputs zeroSalt x3dhInfo 0) key
  intro deduced
  refine deduced.not_secret secret ?_ ?_ (Or.inr .master)
  · rintro ikm salt info block (same | isKey)
    · exact (bare _ _ _ _ same.symm).elim
    · rcases Relation.ReflTransGen.cases_tail (sessionKey_iff.mp isKey) with same | ⟨parent, steps, step⟩
      · obtain ⟨rfl, _⟩ := ideal.hkdf_inj same
        exact ⟨_, List.mem_cons_of_mem _ input, Or.inl rfl⟩
      · exact ⟨parent, step.input ideal, Or.inr (sessionKey_iff.mpr steps)⟩
  · rintro key given (rfl | isKey)
    · exact unknown given
    · exact noKey key given isKey

theorem AnyRun.recorded {masterSecret : S} {s : Session S} (run : AnyRun masterSecret s) {p : Party} {key : Option S}
    {pt ad : Bytes} {msg : EncryptedMessage} (sent : Entry.encrypted p key pt ad (.ok msg) ∈ s.history) :
    ∃ mk nonce ct d, key = some mk ∧ msg.ciphertext = Hex.encode ct ∧ decode32 msg.header.dhPub = .ok d ∧
      aeadSeal mk nonce pt (headerAd ad d msg.header.pn msg.header.n) = some ct := by
  induction run with
  | start made => cases sent
  | decrypt _ q msg' ad' rng ih =>
    rcases List.mem_append.mp sent with old | new
    · exact ih old
    · cases List.mem_singleton.mp new
  | @encrypt s _ q pt' ad' nonce ih =>
    rcases List.mem_append.mp sent with old | new
    · exact ih old
    · obtain ⟨rfl, rfl, rfl, rfl, result⟩ := Entry.encrypted.inj (List.mem_singleton.mp new)
      cases sending : (s.state p).sendingChainKey with
      | none =>
        rw [ratchetEncrypt_none sending] at result
        cases result
      | some ck =>
        rw [ratchetEncrypt_some sending] at result
        dsimp only at result
        split at result
        · rename_i ct sealed
          obtain rfl := Except.ok.inj result
          refine ⟨messageKeyOf ck, nonce, ct, _, ?_, rfl, decode32_encode _, sealed⟩
          unfold Session.sendingKey
          rw [sending]
          rfl
        · cases result

theorem AnyRun.onWire (ideal : Ideal S) {masterSecret : S} {s : Session S} (run : AnyRun masterSecret s) {ct : Bytes}
    (wire : s.OnWire ct) : ∃ mk nonce pt ad, SessionKey masterSecret mk ∧ aeadSeal mk nonce pt ad = some ct := by
  obtain ⟨p, msg, ⟨key, pt, ad, sent⟩, decoded⟩ := wire
  obtain ⟨mk, nonce, ct', d, rfl, written, _, sealed⟩ := run.recorded sent
  obtain ⟨_, j, n, _, position, _⟩ := (anyRun_forward ideal run).sent _ sent mk rfl
  rw [written, Hex.decode_encode] at decoded
  obtain rfl := Option.some.inj decoded
  exact ⟨mk, nonce, pt, _, position.sessionKey, sealed⟩

theorem ChainAt.sessionKey {masterSecret ck : S} {j n : Nat} (chain : ChainAt masterSecret j n ck) :
    SessionKey masterSecret ck := by
  obtain ⟨_, rk, dhOut, _, root, rfl⟩ := chain
  exact SessionKey.iterate (.chain dhOut root.sessionKey) n

theorem Obtainable.sessionKey {masterSecret key : S} {place : Place} {st : RatchetState S}
    (stands : Stands masterSecret place st) (obtained : Obtainable st key) : SessionKey masterSecret key := by
  cases obtained with
  | banked stored =>
    obtain ⟨j, n, position, _⟩ := stands.bank.behind _ _ stored
    exact position.sessionKey
  | root known =>
    obtain ⟨i, _, root⟩ := known.ahead stands
    exact root.sessionKey
  | chain known =>
    obtain ⟨j, n, chain, _⟩ := known.ahead stands
    exact chain.sessionKey
  | message known derived =>
    obtain ⟨j, n, chain, _⟩ := known.ahead stands
    obtain ⟨_, rfl⟩ := Prod.mk.inj (Except.ok.inj ((kdfCk_eq _).symm.trans derived))
    exact .message chain.sessionKey

/-! ### Handshakes -/

variable [Signatures]

/-- A handshake that `initiate` completed, with the private keys behind it. -/
structure Handshake (S : Type) [Primitives S] [Signatures] where
  alice : Identity
  bundle : PublicBundle
  rng : X3dhRandom S
  keys : HandshakeKeys S alice bundle rng
  outcome : InitiatorResult S
  initiated : initiate alice bundle rng = .ok outcome

namespace Handshake

def master (h : Handshake S) : S := h.outcome.masterSecret

theorem master_eq (correct : Correct S) (h : Handshake S) : h.master = hkdfBlock h.keys.products zeroSalt x3dhInfo 0 :=
  h.keys.masterSecret_eq correct h.initiated

/-- The ephemeral key of `h'` is neither that of `h` nor the identity key that `h` was made with. -/
structure Apart (h h' : Handshake S) : Prop where
  ephemeral : x25519Pub S h'.rng.ekPriv ≠ x25519Pub S h.rng.ekPriv
  identity : x25519Pub S h'.rng.ekPriv ≠ x25519Pub S h.keys.bobPriv

theorem Apart.master_ne (ideal : IdealDh S) {h h' : Handshake S} (apart : h.Apart h') : h.master ≠ h'.master := by
  intro same
  rw [h.master_eq ideal.toCorrect, h'.master_eq ideal.toCorrect] at same
  have products := (ideal.hkdf_inj same).1
  simp only [HandshakeKeys.products, List.cons.injEq, and_true] at products
  rcases ideal.generated_free products.2.1 with ⟨drawn, _⟩ | ⟨drawn, _⟩
  · exact apart.ephemeral drawn
  · exact apart.identity drawn

theorem master_origin (ideal : Ideal S) (h : Handshake S) (key : S) : ¬RatchetStep key h.master := by
  rw [h.master_eq ideal.toCorrect]
  exact master_underived ideal

end Handshake

omit [Signatures] in
theorem HandshakeKeys.whole_product {alice : Identity} {b : PublicBundle} {rng : X3dhRandom S}
    (keys : HandshakeKeys S alice b rng) {holds : Bytes32 → Prop} (whole : ¬keys.Broken holds) :
    ∃ ours theirs, x25519 ours (x25519Pub S theirs) ∈ keys.products ∧
      ¬(HoldsKey S holds (x25519Pub S ours) ∨ HoldsKey S holds (x25519Pub S theirs)) := by
  by_contra none
  push Not at none
  have either : ∀ {ours theirs : Bytes32}, x25519 ours (x25519Pub S theirs) ∈ keys.products →
      HoldsKey S holds (x25519Pub S ours) ∨ HoldsKey S holds (x25519Pub S theirs) :=
    fun present => none _ _ present
  exact whole ⟨either (by simp [products]), either (by simp [products]), either (by simp [products])⟩

/-! ### The network -/

section
variable {ι : Type}

/-- Whoever controls the network: the private DH keys it holds, the values it knows, and the sessions of
which it has every key. -/
structure Intruder (ι S : Type) where
  holds : Bytes32 → Prop
  known : Set S
  leaked : Set ι

def Intruder.Knows (intruder : Intruder ι S) (handshakes : ι → Handshake S) (key : S) : Prop :=
  Learns intruder.holds intruder.known key ∨ ∃ k ∈ intruder.leaked, SessionKey (handshakes k).master key

/-- A message of any session, or one that opens only under keys the intruder can compute. -/
def Injectable (intruder : Intruder ι S) (handshakes : ι → Handshake S) (net : ι → Session S) (msg : EncryptedMessage) :
    Prop :=
  ∀ ct, Hex.decode msg.ciphertext = some ct → (∃ k, (net k).OnWire ct) ∨
    ∀ key nonce ad pt, aeadOpen key nonce ct ad = some pt → Deducible (intruder.Knows handshakes) key

variable {intruder : Intruder ι S} {handshakes : ι → Handshake S} {j : ι}

/-- What a session is kept apart by: its handshake holds against the intruder, and every other handshake
drew an ephemeral key of its own. -/
structure Isolated (intruder : Intruder ι S) (handshakes : ι → Handshake S) (j : ι) : Prop where
  unleaked : j ∉ intruder.leaked
  whole : ¬(handshakes j).keys.Broken intruder.holds
  apart : ∀ product ∈ (handshakes j).keys.products, ∀ key ∈ intruder.known, ¬DerivedFrom product key
  drawn : ∀ k ≠ j, (handshakes j).Apart (handshakes k)

/-- What session `j` is up against: the intruder, with every key of every other session. -/
def Outside (intruder : Intruder ι S) (handshakes : ι → Handshake S) (j : ι) (key : S) : Prop :=
  Learns intruder.holds intruder.known key ∨ ∃ k ≠ j, SessionKey (handshakes k).master key

namespace Isolated
variable (ideal : IdealDh S) (isolated : Isolated intruder handshakes j)
include ideal isolated

theorem foreign_key {k : ι} (other : k ≠ j) {key : S} (isKey : SessionKey (handshakes j).master key) :
    ¬SessionKey (handshakes k).master key := fun isKey' =>
  (isolated.drawn k other).master_ne ideal (isKey.same_master ideal.toIdeal ((handshakes j).master_origin ideal.toIdeal)
    ((handshakes k).master_origin ideal.toIdeal) isKey')

theorem outside_no_sessionKey {key : S} (outside : Outside intruder handshakes j key) :
    ¬SessionKey (handshakes j).master key := by
  intro isKey
  rcases outside with learned | ⟨k, other, isKey'⟩
  · exact (handshakes j).keys.unbroken_secret ideal isolated.whole isolated.apart (handshakes j).initiated
      isKey.derivedFrom learned
  · exact isolated.foreign_key ideal other isKey isKey'

theorem outside_no_master : ¬Deducible (Outside intruder handshakes j) (handshakes j).master := by
  obtain ⟨ours, theirs, present, neither⟩ := (handshakes j).keys.whole_product isolated.whole
  have origin := (handshakes j).master_eq ideal.toCorrect
  have noKey : ∀ key, Outside intruder handshakes j key → ¬SessionKey (handshakes j).master key :=
    fun key outside => isolated.outside_no_sessionKey ideal outside
  rw [origin] at noKey ⊢
  refine not_deducible_master ideal.toIdeal present (fun _ _ _ _ => ideal.x25519_ne_hkdf) ?_ noKey
  rintro (learned | ⟨k, _, isKey⟩)
  · exact ideal.product_guards (ideal.contributory ours theirs) neither (isolated.apart _ present) .self learned
  · rw [(handshakes k).master_eq ideal.toCorrect] at isKey
    obtain ⟨_, _, _, _, made⟩ := isKey.made
    exact ideal.x25519_ne_hkdf made

/-- Everything outside of the session, as an attacker on it. -/
def attacker : Attacker (handshakes j).master where
  known := Outside intruder handshakes j
  noMaster := isolated.outside_no_master ideal
  noSessionKey _ outside := isolated.outside_no_sessionKey ideal outside

end Isolated

variable [DecidableEq ι]

/-- The runs of all sessions side by side: any party of any session sends, and is handed what was sent
anywhere or injected. As in a single session, fresh DH keys are new and no chain carries `2 ^ 32` messages. -/
inductive NetworkRun (intruder : Intruder ι S) (handshakes : ι → Handshake S) : (ι → Session S) → Prop
  | start {net : ι → Session S}
      (each : ∀ k, ∃ rng initiator, net k = Session.start initiator (initResponder (handshakes k).master
          (generateX25519 S (handshakes k).keys.spkPriv)) ∧
        initInitiator (handshakes k).master (generateX25519 S (handshakes k).keys.spkPriv).pubBytes rng = .ok initiator ∧
        x25519Pub S rng.freshPriv ≠ x25519Pub S (handshakes k).keys.spkPriv) :
      NetworkRun intruder handshakes net
  | encrypt {net : ι → Session S} (run : NetworkRun intruder handshakes net) (k : ι) (p : Party) (plaintext ad : Bytes)
      (nonce : Nonce) (room : ((net k).state p).sendingMsgNumber.toNat + 1 < 2 ^ 32) :
      NetworkRun intruder handshakes (Function.update net k ((net k).encrypt p plaintext ad nonce))
  | decrypt {net : ι → Session S} (run : NetworkRun intruder handshakes net) (k : ι) (p : Party) (msg : EncryptedMessage)
      (ad : Bytes) (rng : StepRandom S) (fresh : x25519Pub S rng.freshPriv ∉ (net k).dhKeys)
      (offered : Injectable intruder handshakes net msg ∨ (net k).Rejects p msg ad rng) :
      NetworkRun intruder handshakes (Function.update net k ((net k).decrypt p msg ad rng))

variable {net : ι → Session S}

theorem NetworkRun.anyRun (run : NetworkRun intruder handshakes net) (k : ι) : AnyRun (handshakes k).master (net k) := by
  induction run with
  | start each =>
    obtain ⟨rng, initiator, begun, made, _⟩ := each k
    rw [begun]
    exact .start made
  | @encrypt net _ i p plaintext ad nonce _ ih =>
    by_cases same : k = i
    · subst same
      rw [Function.update_self]
      exact .encrypt ih p plaintext ad nonce
    · rw [Function.update_of_ne same]
      exact ih
  | @decrypt net _ i p msg ad rng _ _ ih =>
    by_cases same : k = i
    · subst same
      rw [Function.update_self]
      exact .decrypt ih p msg ad rng
    · rw [Function.update_of_ne same]
      exact ih

/-- To each session, the network is an attacker with every key of the others. -/
theorem NetworkRun.reachable (ideal : IdealDh S) (isolated : Isolated intruder handshakes j)
    (run : NetworkRun intruder handshakes net) :
    Reachable (Makeable (isolated.attacker ideal)) (handshakes j).master (net j) := by
  induction run with
  | start each =>
    obtain ⟨rng, initiator, begun, made, fresh⟩ := each j
    rw [begun]
    exact .start made fresh
  | @encrypt net _ i p plaintext ad nonce room ih =>
    by_cases same : j = i
    · subst same
      rw [Function.update_self]
      exact .encrypt ih p plaintext ad nonce room
    · rw [Function.update_of_ne same]
      exact ih
  | @decrypt net run i p msg ad rng fresh offered ih =>
    by_cases same : j = i
    · subst same
      rw [Function.update_self]
      refine .decrypt ih p msg ad rng fresh (offered.imp_left fun injectable ct decoded => ?_)
      rcases injectable ct decoded with ⟨k, wire⟩ | forged
      · by_cases own : k = j
        · exact Or.inl (own ▸ wire)
        · -- what another session sealed opens only under a key of that session
          obtain ⟨mk, nonce, pt, header, isKey, sealed⟩ := (run.anyRun k).onWire ideal.toIdeal wire
          refine Or.inr fun key nonce' ad' pt' opened => .known (Or.inr ⟨k, own, ?_⟩)
          obtain ⟨rfl, _⟩ := ideal.seal_inj sealed (ideal.sealed_of_open opened)
          exact isKey
      · refine Or.inr fun key nonce ad' pt opened => (forged key nonce ad' pt opened).mono fun known knows => ?_
        rcases knows with learned | ⟨k, leaked, isKey⟩
        · exact Or.inl learned
        · exact Or.inr ⟨k, fun own => isolated.unleaked (own ▸ leaked), isKey⟩
    · rw [Function.update_of_ne same]
      exact ih

/-- A session keeps to itself on a network of any number of sessions. What a party accepts, its peer sent
in the same session and it accepts once; no message of another session is ever accepted; and its keys can
not be computed from all keys of all the others. -/
theorem sessions_kept_apart (ideal : IdealDh S) (run : NetworkRun intruder handshakes net)
    (isolated : Isolated intruder handshakes j) :
    (∀ (i : Nat) p msg ad pt, (net j).history[i]? = some (.delivered p msg ad (.ok pt)) →
      MatchedBefore (net j) i p msg ad pt ∧
        ∀ (i' : Nat) msg' ad' pt', (net j).history[i']? = some (.delivered p msg' ad' (.ok pt')) →
          bankIdOf msg = bankIdOf msg' → i = i') ∧
    (∀ k ≠ j, ∀ q msg, (net k).Sent q msg → ∀ p msg', Hex.decode msg'.ciphertext = Hex.decode msg.ciphertext →
      ∀ ad rng pt, (ratchetDecrypt ((net j).state p) msg' ad rng).1 ≠ .ok pt) ∧
    ∀ p key, Obtainable ((net j).state p) key → ¬Deducible (Outside intruder handshakes j) key := by
  obtain ⟨T, inv⟩ := reachable_inv ideal.toIdeal _ (run.reachable ideal isolated)
  refine ⟨?_, ?_, ?_⟩
  · intro i p msg ad pt accepted
    exact ⟨inv.matched i p msg ad pt accepted,
      fun i' msg' ad' pt' again same => (inv.party p).receives.accepted_once accepted again same⟩
  · intro k other q msg sent p msg' same ad rng pt accepted
    rcases outcome : ratchetDecrypt ((net j).state p) msg' ad rng with ⟨result, next⟩
    rw [outcome] at accepted
    obtain rfl : result = .ok pt := accepted
    obtain ⟨mk, isKey, opens⟩ := accepted_sessionKey inv outcome
    obtain ⟨d, decoded⟩ := ratchetDecrypt_decodes outcome
    obtain ⟨ct, nonce, ciphertext, _, opened⟩ := (openMessage_ok decoded).mp opens
    obtain ⟨mk', nonce', pt', header, isKey', sealed⟩ := (run.anyRun k).onWire ideal.toIdeal
      ⟨q, msg, sent, same.symm.trans ciphertext⟩
    obtain ⟨rfl, _⟩ := ideal.seal_inj sealed (ideal.sealed_of_open opened)
    exact isolated.foreign_key ideal other isKey isKey'
  · intro p key obtained
    obtain ⟨place, _, stands, _⟩ := (anyRun_forward ideal.toIdeal (run.anyRun j)).party p
    exact (obtained.sessionKey stands).not_deducible ideal.toIdeal (isolated.attacker ideal)

end
end

def pairSession (ekPriv : Bytes32) : Handshake PairKey where
  alice := pairAlice
  bundle := publicBundleFor sampleIdentity
  rng := { pairX3dhRandom with ekPriv }
  keys := ⟨_, _, _, pairHandshake.alice_eq, pairHandshake.bob_eq, pairHandshake.spk_eq⟩
  outcome := _
  initiated := initiate_exec pairAlice _ sampleBundle_verified pairHandshake.bob_eq pairHandshake.spk_eq

def pairSessions (second : Bool) : Handshake PairKey := pairSession (sampleBytes 32 (if second then 22 else 20))

/-- The intruder has both identity keys and all of the second session. -/
def pairIntruder : Intruder Bool PairKey := ⟨holdsIdentities, {zeroSalt}, {true}⟩

theorem pairSessions_isolated : Isolated pairIntruder pairSessions false where
  unleaked := fun leaked => by cases leaked
  whole := by
    intro broken
    exact pairHandshake_whole ⟨broken.identity, broken.ephemeral, broken.prekey⟩
  apart := pairHandshake_apart
  drawn := by
    intro k other
    obtain rfl : k = true := by simpa using other
    exact ⟨by decide, by decide⟩

/-- A message of the stolen session is not read in the other one. -/
theorem sessions_kept_apart_sample :
    ∃ net msg, NetworkRun pairIntruder pairSessions net ∧ (net true).Sent .initiator msg ∧
      ∀ pt, (ratchetDecrypt ((net false).state .responder) msg [] (pairRandom 3)).1 ≠ .ok pt := by
  have begun : ∀ k, ∃ initiator, initInitiator (pairSessions k).master
      (generateX25519 PairKey (pairSessions k).keys.spkPriv).pubBytes (pairRandom 1) = .ok initiator := fun k => ⟨_, rfl⟩
  choose initiator made using begun
  have start : NetworkRun pairIntruder pairSessions fun k => Session.start (initiator k)
      (initResponder (pairSessions k).master (generateX25519 PairKey (pairSessions k).keys.spkPriv)) :=
    .start fun k => ⟨_, _, rfl, made k, by cases k <;> decide⟩
  obtain ⟨sending, number⟩ := firstChain_agrees pairKey_ideal.toCorrect (made true) zeroSalt
  have room : (initiator true).sendingMsgNumber.toNat + 1 < 2 ^ 32 := by
    rw [number]
    decide
  have run := start.encrypt true .initiator [7] [] (sampleBytes 12 0) room
  have encrypted := ratchetEncrypt_some sending [7] [] (sampleBytes 12 0)
  obtain ⟨msg, result⟩ : ∃ msg, ((ratchetEncrypt [7] [] (sampleBytes 12 0)).exec (initiator true)).1 = .ok msg :=
    ⟨_, congrArg Prod.fst encrypted⟩
  have sent : ((Session.start (initiator true) (initResponder (pairSessions true).master
      (generateX25519 PairKey (pairSessions true).keys.spkPriv))).encrypt .initiator [7] [] (sampleBytes 12 0)).Sent
      .initiator msg := by
    refine ⟨Session.sendingKey (initiator true), [7], [], ?_⟩
    rw [← result]
    exact List.mem_append_right _ (List.mem_singleton_self _)
  refine ⟨_, msg, run, ?_, fun pt => ?_⟩
  · rw [Function.update_self]
    exact sent
  · refine (sessions_kept_apart pairKey_ideal run pairSessions_isolated).2.1 true (by decide) .initiator msg ?_
      .responder msg rfl [] (pairRandom 3) pt
    rw [Function.update_self]
    exact sent

end TrinoCore
