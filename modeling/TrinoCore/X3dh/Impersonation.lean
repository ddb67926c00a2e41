import TrinoCore.Group.Contacts
import TrinoCore.X3dh.Network

/-!
First contact with someone who is not who they claim to be.

Whoever makes up an initial message, or puts a bundle together around someone else's signed prekey, is left
with a DH product that it can not compute, or with random bytes in its place. Then the session that starts
is one that nobody outside of it can read or write.
-/

namespace TrinoCore

section
variable {S : Type} [Primitives S]

/-- What someone outside of a session can know: what follows from the private keys held and the values known,
and every key of other sessions. -/
def Outsider (holds : Bytes32 → Prop) (known others : Set S) (key : S) : Prop :=
  Learns holds known key ∨ ∃ masterSecret ∈ others, SessionKey masterSecret key

/-- A message that opens, if at all, only under keys that can be computed from those known. -/
def Forgeable (known : S → Prop) (msg : EncryptedMessage) : Prop :=
  ∀ ct, Hex.decode msg.ciphertext = some ct → ∀ key nonce ad pt, aeadOpen key nonce ct ad = some pt → Deducible known key

/-- From `st` on, whatever calls the party makes and whatever is delivered to it, it reads no message that can
be made from the keys known, and no key it keeps or sends with can be computed from them. -/
structure Unheard (known : S → Prop) (st : RatchetState S) : Prop where
  reads : ∀ calls msg, Forgeable known msg → ∀ ad rng pt, (ratchetDecrypt (runCalls st calls) msg ad rng).1 ≠ .ok pt
  keeps : ∀ calls key, Obtainable (runCalls st calls) key → ¬Deducible known key

section
variable {masterSecret : S} {place : Place} {st : RatchetState S}

theorem Stands.next (ideal : Ideal S) (stands : Stands masterSecret place st) (call : Call S) :
    ∃ place', Stands masterSecret place' (call.next st) := by
  cases call with
  | encrypt plaintext ad nonce =>
    cases sending : st.sendingChainKey with
    | none =>
      simp only [Call.next, ratchetEncrypt_none sending]
      exact ⟨place, stands⟩
    | some ck =>
      simp only [Call.next, ratchetEncrypt_some sending]
      exact ⟨_, (afterSend_moves ideal stands sending).1.stands⟩
  | decrypt msg ad rng =>
    rcases outcome : ratchetDecrypt st msg ad rng with ⟨result, next⟩
    simp only [Call.next, outcome]
    cases result with
    | error e =>
      rw [ratchetDecrypt_error outcome]
      exact ⟨place, stands⟩
    | ok pt =>
      obtain ⟨place', _, moves, _⟩ := accepted_moves ideal stands outcome
      exact ⟨place', moves.stands⟩

theorem Stands.runCalls (ideal : Ideal S) (stands : Stands masterSecret place st) (calls : List (Call S)) :
    ∃ place', Stands masterSecret place' (runCalls st calls) := by
  induction calls generalizing place st with
  | nil => exact ⟨place, stands⟩
  | cons call rest ih =>
    obtain ⟨place', stands'⟩ := stands.next ideal call
    exact ih stands'

/-- What a party reads, at any time, opens under a key of its session. -/
theorem Stands.read_key (ideal : Ideal S) (stands : Stands masterSecret place st) {calls : List (Call S)}
    {msg : EncryptedMessage} {ad pt : Bytes} {rng : StepRandom S}
    (accepted : (ratchetDecrypt (TrinoCore.runCalls st calls) msg ad rng).1 = .ok pt) :
    ∃ mk nonce ct d, SessionKey masterSecret mk ∧ Hex.decode msg.ciphertext = some ct ∧
      decode32 msg.header.dhPub = .ok d ∧ aeadOpen mk nonce ct (headerAd ad d msg.header.pn msg.header.n) = some pt := by
  obtain ⟨_, later⟩ := stands.runCalls ideal calls
  rcases outcome : ratchetDecrypt (TrinoCore.runCalls st calls) msg ad rng with ⟨result, next⟩
  rw [outcome] at accepted
  obtain rfl : result = .ok pt := accepted
  obtain ⟨_, mk, _, opens, spent⟩ := accepted_moves ideal later outcome
  obtain ⟨j, n, position, _⟩ := spent.past
  obtain ⟨d, decoded⟩ := ratchetDecrypt_decodes outcome
  obtain ⟨ct, nonce, ciphertext, _, opened⟩ := (openMessage_ok decoded).mp opens
  exact ⟨mk, nonce, ct, d, position.sessionKey, ciphertext, decoded, opened⟩

theorem Stands.unheard (ideal : Ideal S) (attacker : Attacker masterSecret) (stands : Stands masterSecret place st) :
    Unheard attacker.known st where
  reads calls msg forged ad rng pt accepted := by
    obtain ⟨mk, nonce, ct, d, isKey, ciphertext, _, opened⟩ := stands.read_key ideal accepted
    exact isKey.not_deducible ideal attacker (forged ct ciphertext mk nonce _ pt opened)
  keeps calls key obtained := by
    obtain ⟨_, later⟩ := stands.runCalls ideal calls
    exact (obtained.sessionKey later).not_deducible ideal attacker

end

theorem deriveMaster_eq (dhInputs : List S) : deriveMaster dhInputs = .ok (hkdfBlock dhInputs zeroSalt x3dhInfo 0) := rfl

/-- Master secrets of handshakes, other than this one. -/
def OtherSecrets (masterSecret : S) (others : Set S) : Prop :=
  ∀ other ∈ others, other ≠ masterSecret ∧ ∃ dhInputs, deriveMaster dhInputs = .ok other

theorem otherSecrets_none (masterSecret : S) : OtherSecrets masterSecret ∅ := fun _ absurd => absurd.elim

section
variable {factors : List (Factor S)} {masterSecret : S} {holds : Bytes32 → Prop} {known others : Set S}
  (ideal : IdealDh S) (derived : deriveMaster (factors.map Factor.shared) = .ok masterSecret)
  (random : ∀ f ∈ factors, Unmade f.fallback) (apart : ∀ f ∈ factors, ∀ key ∈ known, ¬DerivedFrom f.shared key)
include ideal derived random apart

/-- The master secret is computed exactly with one of the two private keys of every input. -/
theorem learned_iff_opened (salt : zeroSalt ∈ known) : Learns holds known masterSecret ↔ ∀ f ∈ factors, f.Opened holds := by
  obtain rfl := Except.ok.inj ((deriveMaster_eq _).symm.trans derived)
  constructor
  · intro learned f present
    by_contra shut
    exact f.guards ideal (random f present) shut (apart f present) (.input (List.mem_map_of_mem present) .self) learned
  · intro opened
    refine Learns.hkdf x3dhInfo 0 (fun key input => ?_) (.given salt)
    obtain ⟨f, present, rfl⟩ := List.mem_map.mp input
    exact f.learned (opened f present)

theorem learned_iff_theirs (salt : zeroSalt ∈ known) (outside : ∀ f ∈ factors, ¬HoldsKey S holds (x25519Pub S f.ourPriv)) :
    Learns holds known masterSecret ↔
      (∀ f ∈ factors, wasContributory S f.ourPriv f.theirPub = true) ∧ ∀ f ∈ factors, HoldsKey S holds f.theirPub := by
  rw [learned_iff_opened ideal derived random apart salt]
  constructor
  · intro opened
    exact ⟨fun f present => (opened f present).contributory,
      fun f present => (opened f present).held.resolve_left (outside f present)⟩
  · rintro ⟨contributory, theirs⟩ f present
    exact ⟨contributory f present, Or.inr (theirs f present)⟩

/-- An input that is not opened keeps the session from everyone outside of it. -/
theorem outsider_attacker (apartFrom : OtherSecrets masterSecret others) {f : Factor S} (present : f ∈ factors)
    (shut : ¬f.Opened holds) : ∃ attacker : Attacker masterSecret, attacker.known = Outsider holds known others := by
  have guards : ∀ {key}, DerivedFrom f.shared key → ¬Learns holds known key :=
    f.guards ideal (random f present) shut (apart f present)
  obtain rfl := Except.ok.inj ((deriveMaster_eq _).symm.trans derived)
  have input : f.shared ∈ factors.map Factor.shared := List.mem_map_of_mem present
  have noKey : ∀ key, Outsider holds known others key →
      ¬SessionKey (hkdfBlock (factors.map Factor.shared) zeroSalt x3dhInfo 0) key := by
    rintro key (learned | ⟨other, among, isKey'⟩) isKey
    · have fromInput : DerivedFrom f.shared (hkdfBlock (factors.map Factor.shared) zeroSalt x3dhInfo 0) := .input input .self
      exact guards (fromInput.trans isKey.derivedFrom) learned
    · obtain ⟨different, dhInputs, made⟩ := apartFrom other among
      obtain rfl := Except.ok.inj ((deriveMaster_eq _).symm.trans made)
      exact different (isKey'.same_master ideal.toIdeal (fun _ => master_underived ideal.toIdeal)
        (fun _ => master_underived ideal.toIdeal) isKey)
  refine ⟨⟨Outsider holds known others, ?_, noKey⟩, rfl⟩
  refine not_deducible_master ideal.toIdeal input (f.shared_ne_hkdf ideal (random f present)) ?_ noKey
  rintro (learned | ⟨other, among, isKey⟩)
  · exact guards .self learned
  · obtain ⟨_, dhInputs, made⟩ := apartFrom other among
    obtain rfl := Except.ok.inj ((deriveMaster_eq _).symm.trans made)
    obtain ⟨_, _, _, _, block⟩ := isKey.made
    exact f.shared_ne_hkdf ideal (random f present) _ _ _ _ block

theorem shut_unheard (apartFrom : OtherSecrets masterSecret others) (shut : ∃ f ∈ factors, ¬f.Opened holds) {place : Place}
    {st : RatchetState S} (stands : Stands masterSecret place st) : Unheard (Outsider holds known others) st := by
  obtain ⟨f, present, shut⟩ := shut
  obtain ⟨attacker, same⟩ := outsider_attacker ideal derived random apart apartFrom present shut
  rw [← same]
  exact stands.unheard ideal.toIdeal attacker

end

/-! ### Whoever wrote the initial message -/

/-- What `respond` puts together: the prekey with the identity key in the message, the responder's identity key
and the prekey with the ephemeral key, and so the one-time prekey when one is named. -/
def answerFactors (bob : Identity) (msg : InitialMessage) (spk : SignedPreKey) (theirIkDhPub theirEkPub : Bytes32)
    (rng : X3dhRandom S) : List (Factor S) :=
  [⟨spk.keypair.privBytes, theirIkDhPub, rng.fallback1⟩, ⟨bob.ikDh.privBytes, theirEkPub, rng.fallback2⟩,
    ⟨spk.keypair.privBytes, theirEkPub, rng.fallback3⟩] ++
    ((msg.opkId.bind (consumeOneTimePrekey bob)).map fun found =>
      ⟨found.1.keypair.privBytes, theirEkPub, rng.fallback4⟩).toList

theorem answerFactors_derived {bob after : Identity} {msg : InitialMessage} {rng : X3dhRandom S} {r : ResponderResult S}
    (answered : (respond msg rng).exec bob = (.ok r, after)) {spk : SignedPreKey}
    (named : signedPrekeyById bob msg.spkId = some spk) {theirIkDhPub theirEkPub : Bytes32}
    (ik : decodeArray32 msg.ikDhPub = .ok theirIkDhPub) (ek : decodeArray32 msg.ekPub = .ok theirEkPub) :
    deriveMaster ((answerFactors bob msg spk theirIkDhPub theirEkPub rng).map Factor.shared) = .ok r.masterSecret := by
  obtain ⟨spk', ik', ek', extra, named', decodedIk, decodedEk, secret, _, oneTime, _⟩ := respond_ok answered
  obtain rfl := Option.some.inj (named.symm.trans named')
  obtain rfl := Except.ok.inj (ik.symm.trans decodedIk)
  obtain rfl := Except.ok.inj (ek.symm.trans decodedEk)
  rw [deriveMaster_eq, secret, oneTime, answerFactors, List.map_append, Option.toList_map, Option.toList_map, List.map_map]
  rfl

theorem initResponder_stands (masterSecret : S) (spkKeypair : KeyPair) :
    ∃ place, Stands masterSecret place (initResponder masterSecret spkKeypair) :=
  ⟨_, @start_stands _ _ _ spkKeypair ⟨spkKeypair.privBytes, masterSecret, masterSecret⟩ _ rfl .responder⟩

section
variable {bob after : Identity} {msg : InitialMessage} {rng : X3dhRandom S} {r : ResponderResult S} {spk : SignedPreKey}
  {theirIkDhPub theirEkPub : Bytes32} {holds : Bytes32 → Prop} {known others : Set S}

theorem answerFactors_random (random : ∀ fallback ∈ rng.fallbacks, Unmade fallback) :
    ∀ f ∈ answerFactors bob msg spk theirIkDhPub theirEkPub rng, Unmade f.fallback := by
  intro f present
  refine random _ ?_
  rcases List.mem_append.mp present with three | four
  · simp only [List.mem_cons, List.not_mem_nil, or_false] at three
    rcases three with rfl | rfl | rfl <;> simp [X3dhRandom.fallbacks]
  · obtain ⟨found, _, rfl⟩ := Option.map_eq_some_iff.mp (Option.mem_toList.mp four)
    simp [X3dhRandom.fallbacks]

omit [Primitives S] in
theorem answerFactors_theirs {Holds : Bytes32 → Prop} :
    (∀ f ∈ answerFactors bob msg spk theirIkDhPub theirEkPub rng, Holds f.theirPub) ↔
      Holds theirIkDhPub ∧ Holds theirEkPub := by
  constructor
  · intro all
    simp only [answerFactors, List.cons_append, List.forall_mem_cons] at all
    exact ⟨all.1, all.2.1⟩
  · rintro ⟨ik, ek⟩ f present
    rcases List.mem_append.mp present with three | four
    · simp only [List.mem_cons, List.not_mem_nil, or_false] at three
      rcases three with rfl | rfl | rfl
      · exact ik
      · exact ek
      · exact ek
    · obtain ⟨found, _, rfl⟩ := Option.map_eq_some_iff.mp (Option.mem_toList.mp four)
      exact ek

theorem Factor.shared_product {f : Factor S} (random : Unmade f.fallback) {a p : Bytes32} (same : x25519 a p = f.shared) :
    x25519 (S := S) a p = x25519 f.ourPriv f.theirPub := by
  unfold Factor.shared x25519DeriveShared at same
  split at same
  · exact same
  · exact (random.product _ _ same.symm).elim

theorem answer_agrees [Signatures] (ideal : IdealDh S) (answered : (respond msg rng).exec bob = (.ok r, after))
    (named : signedPrekeyById bob msg.spkId = some spk) (ik : decodeArray32 msg.ikDhPub = .ok theirIkDhPub)
    (ek : decodeArray32 msg.ekPub = .ok theirEkPub) (random : ∀ fallback ∈ rng.fallbacks, Unmade fallback)
    (bobKey : ∃ privBytes, bob.ikDh = generateX25519 S privBytes)
    (spkKey : ∃ privBytes, spk.keypair = generateX25519 S privBytes) {h : Handshake S} (same : h.master = r.masterSecret) :
    msg.opkId = none ∧ after = bob ∧
      let mine := initiatorView S h.alice h.rng.ekPriv (x25519Pub S h.keys.bobPriv) (x25519Pub S h.keys.spkPriv)
      let yours := responderView bob spk.keypair theirIkDhPub theirEkPub
      ∀ role, SamePoint S (mine role) (yours role) → ∀ other, SamePoint S (mine other) (yours other) := by
  obtain ⟨bobPriv, bobKey⟩ := bobKey
  obtain ⟨spkPriv, spkKey⟩ := spkKey
  obtain ⟨_, _, _, extra, named', decodedIk, decodedEk, secret, unused, _⟩ := respond_ok answered
  obtain rfl := Option.some.inj (named.symm.trans named')
  obtain rfl := Except.ok.inj (ik.symm.trans decodedIk)
  obtain rfl := Except.ok.inj (ek.symm.trans decodedEk)
  rw [h.master_eq ideal.toCorrect, secret, bobKey, spkKey] at same
  have products := (ideal.hkdf_inj same).1
  simp only [HandshakeKeys.products, List.cons_append, List.nil_append, List.cons.injEq] at products
  obtain ⟨identity, ephemeral, prekey, nothing⟩ := products
  obtain ⟨noOpk, unchanged⟩ := unused nothing.symm
  have drawn : ∀ fallback ∈ [rng.fallback1, rng.fallback2, rng.fallback3], Unmade fallback :=
    fun fallback present => random fallback (List.mem_append_left [rng.fallback4] present)
  refine ⟨noOpk, unchanged, views_agree ideal.injective h.keys.alice_eq bobKey spkKey ?_ ?_ ?_⟩
  · exact ⟨ideal.contributory _ _, (⟨_, _, rng.fallback1⟩ : Factor S).shared_product (drawn _ (by simp)) identity⟩
  · exact ⟨ideal.contributory _ _, (⟨_, _, rng.fallback2⟩ : Factor S).shared_product (drawn _ (by simp)) ephemeral⟩
  · exact ⟨ideal.contributory _ _, (⟨_, _, rng.fallback3⟩ : Factor S).shared_product (drawn _ (by simp)) prekey⟩

theorem answer_ad [Signatures] (answered : (respond msg rng).exec bob = (.ok r, after))
    (ik : decodeArray32 msg.ikDhPub = .ok theirIkDhPub) {h : Handshake S}
    (same : r.associatedData = h.outcome.associatedData) :
    h.alice.ikDh.pubBytes = theirIkDhPub ∧ x25519Pub S h.keys.bobPriv = bob.ikDh.pubBytes := by
  obtain ⟨_, _, _, _, _, decodedIk, _, _, _, _, ad, _⟩ := respond_ok answered
  obtain rfl := Except.ok.inj (ik.symm.trans decodedIk)
  have initiated := h.initiated
  rw [initiate_exec h.alice h.rng (initiate_decodes initiated).1 h.keys.bob_eq h.keys.spk_eq] at initiated
  rw [ad, ← Except.ok.inj initiated] at same
  obtain ⟨aliceIk, bobIk⟩ := List.append_inj same (by simp)
  exact ⟨(ByteVec.toList_inj.mp aliceIk).symm, (ByteVec.toList_inj.mp bobIk).symm⟩

/-- A responder answers whoever writes to it. An attacker computes its master secret exactly when, for each input,
the product is contributory and it holds one of the two private keys; who has none of the responder's keys, exactly
with the private keys of both keys in the message. When one input stays shut, as when the message names the identity
key of someone else and the attacker has not that prekey either, the answer begins a session that nobody outside can
be heard in. -/
theorem forged_hello_unheard (ideal : IdealDh S) (answered : (respond msg rng).exec bob = (.ok r, after))
    (named : signedPrekeyById bob msg.spkId = some spk) (ik : decodeArray32 msg.ikDhPub = .ok theirIkDhPub)
    (ek : decodeArray32 msg.ekPub = .ok theirEkPub) (random : ∀ fallback ∈ rng.fallbacks, Unmade fallback)
    (salt : zeroSalt ∈ known)
    (apart : ∀ f ∈ answerFactors bob msg spk theirIkDhPub theirEkPub rng, ∀ key ∈ known, ¬DerivedFrom f.shared key)
    (apartFrom : OtherSecrets r.masterSecret others) :
    (Learns holds known r.masterSecret ↔ ∀ f ∈ answerFactors bob msg spk theirIkDhPub theirEkPub rng, f.Opened holds) ∧
    ((∀ f ∈ answerFactors bob msg spk theirIkDhPub theirEkPub rng, ¬HoldsKey S holds (x25519Pub S f.ourPriv)) →
      (Learns holds known r.masterSecret ↔
        (∀ f ∈ answerFactors bob msg spk theirIkDhPub theirEkPub rng, wasContributory S f.ourPriv f.theirPub = true) ∧
          HoldsKey S holds theirIkDhPub ∧ HoldsKey S holds theirEkPub)) ∧
    ((∃ f ∈ answerFactors bob msg spk theirIkDhPub theirEkPub rng, ¬f.Opened holds) →
      Unheard (Outsider holds known others) (initResponder r.masterSecret r.spkKeypair)) := by
  have derived := answerFactors_derived answered named ik ek
  have unmade := @answerFactors_random _ _ bob msg rng spk theirIkDhPub theirEkPub random
  refine ⟨learned_iff_opened ideal derived unmade apart salt, fun outside => ?_, fun shut => ?_⟩
  · rw [learned_iff_theirs ideal derived unmade apart salt outside]
    exact and_congr_right fun _ => answerFactors_theirs
  · obtain ⟨_, stands⟩ := initResponder_stands r.masterSecret r.spkKeypair
    exact shut_unheard ideal derived unmade apart apartFrom shut stands

/-- Whoever is heard has shared the handshake. Where one input of an answered initial message stays shut, and on a
network with any number of sessions that others began, what the responder ever reads was sent, with the same
associated data and message numbers, in the session of an initiator with the same master secret, and no one-time
prekey was named. The two agree on all four DH keys of the handshake or on none; and they agree on all, and on the
very same identity keys, where the message is bound to the associated data of both handshakes. -/
theorem heard_from_the_named [Signatures] (ideal : IdealDh S) (answered : (respond msg rng).exec bob = (.ok r, after))
    (named : signedPrekeyById bob msg.spkId = some spk) (ik : decodeArray32 msg.ikDhPub = .ok theirIkDhPub)
    (ek : decodeArray32 msg.ekPub = .ok theirEkPub) (random : ∀ fallback ∈ rng.fallbacks, Unmade fallback)
    (bobKey : ∃ privBytes, bob.ikDh = generateX25519 S privBytes)
    (spkKey : ∃ privBytes, spk.keypair = generateX25519 S privBytes)
    (apart : ∀ f ∈ answerFactors bob msg spk theirIkDhPub theirEkPub rng, ∀ key ∈ known, ¬DerivedFrom f.shared key)
    (apartFrom : OtherSecrets r.masterSecret others)
    (shut : ∃ f ∈ answerFactors bob msg spk theirIkDhPub theirEkPub rng, ¬f.Opened holds)
    {ι : Type} {handshakes : ι → Handshake S} {net : ι → Session S} (runs : ∀ k, AnyRun (handshakes k).master (net k))
    {calls : List (Call S)} {m : EncryptedMessage} {ad pt : Bytes} {drawn : StepRandom S}
    (offered : (∃ k ct, Hex.decode m.ciphertext = some ct ∧ (net k).OnWire ct) ∨ Forgeable (Outsider holds known others) m)
    (heard : (ratchetDecrypt (runCalls (initResponder r.masterSecret r.spkKeypair) calls) m ad drawn).1 = .ok pt) :
    msg.opkId = none ∧ after = bob ∧ ∃ k p key sent, Entry.encrypted p key pt ad (.ok sent) ∈ (net k).history ∧
      (Hex.decode sent.ciphertext = Hex.decode m.ciphertext ∧ decode32 sent.header.dhPub = decode32 m.header.dhPub ∧
        sent.header.pn = m.header.pn ∧ sent.header.n = m.header.n) ∧
      (handshakes k).master = r.masterSecret ∧
      let h := handshakes k
      let mine := initiatorView S h.alice h.rng.ekPriv (x25519Pub S h.keys.bobPriv) (x25519Pub S h.keys.spkPriv)
      let yours := responderView bob spk.keypair theirIkDhPub theirEkPub
      (∀ role, SamePoint S (mine role) (yours role) → ∀ other, SamePoint S (mine other) (yours other)) ∧
        (ad = h.outcome.associatedData → ad = r.associatedData → mine .initiatorIk = yours .initiatorIk ∧
          mine .responderIk = yours .responderIk ∧ ∀ role, SamePoint S (mine role) (yours role)) := by
  have derived := answerFactors_derived answered named ik ek
  have unmade := @answerFactors_random _ _ bob msg rng spk theirIkDhPub theirEkPub random
  obtain ⟨place, stands⟩ := initResponder_stands r.masterSecret r.spkKeypair
  rcases offered with ⟨k, ct, ciphertext, p, sent, ⟨key, pt', ad', recorded⟩, wire⟩ | forged
  · obtain ⟨mk, nonce, ct', d, isKey, ciphertext', decoded, opened⟩ := stands.read_key ideal.toIdeal heard
    obtain rfl := Option.some.inj (ciphertext.symm.trans ciphertext')
    obtain ⟨mk', _, ct', d', rfl, written, decoded', sealed⟩ := (runs k).recorded recorded
    rw [written, Hex.decode_encode] at wire
    obtain rfl := Option.some.inj wire
    obtain ⟨rfl, _, rfl, bound⟩ := ideal.seal_inj sealed (ideal.sealed_of_open opened)
    obtain ⟨rfl, rfl, samePn, sameN⟩ := headerBytes_inj bound
    obtain ⟨_, _, _, _, position, _⟩ := (anyRun_forward ideal.toIdeal (runs k)).sent _ recorded mk' rfl
    have origin : ∀ key, ¬RatchetStep key r.masterSecret := by
      rw [← Except.ok.inj ((deriveMaster_eq _).symm.trans derived)]
      exact fun _ => master_underived ideal.toIdeal
    have same := position.sessionKey.same_master ideal.toIdeal ((handshakes k).master_origin ideal.toIdeal) origin isKey
    obtain ⟨noOpk, unchanged, agree⟩ := answer_agrees ideal answered named ik ek random bobKey spkKey same
    refine ⟨noOpk, unchanged, k, p, some mk', sent, recorded, ⟨?_, decoded'.trans decoded.symm, samePn, sameN⟩, same, agree, ?_⟩
    · rw [written, Hex.decode_encode, ciphertext]
    · intro sentUnder readUnder
      obtain ⟨aliceIk, bobIk⟩ := answer_ad answered ik (readUnder.symm.trans sentUnder)
      refine ⟨aliceIk, bobIk, agree .responderIk ?_⟩
      rw [bobIk]
      exact fun _ => rfl
  · exact ((shut_unheard ideal derived unmade apart apartFrom shut stands).reads calls m forged ad drawn pt heard).elim

end

/-! ### Whoever put the bundle together -/

/-- What `initiate` puts together: one's identity key with the prekey, and the ephemeral key with the identity
key and with the prekey. -/
def startFactors (alice : Identity) (theirIkDhPub theirSpkPub : Bytes32) (rng : X3dhRandom S) : List (Factor S) :=
  [⟨alice.ikDh.privBytes, theirSpkPub, rng.fallback1⟩, ⟨rng.ekPriv, theirIkDhPub, rng.fallback2⟩,
    ⟨rng.ekPriv, theirSpkPub, rng.fallback3⟩]

theorem initInitiator_stands {masterSecret : S} {peerPub : Bytes32} {rng : StepRandom S} {sender : RatchetState S}
    (started : initInitiator masterSecret peerPub rng = .ok sender) : ∃ place, Stands masterSecret place sender :=
  ⟨_, @start_stands _ _ _ ⟨rng.freshPriv, peerPub⟩ _ _ started .initiator⟩

section
variable [Signatures] {alice : Identity} {b : PublicBundle} {rng : X3dhRandom S} {i : InitiatorResult S}
  {theirIkDhPub theirSpkPub : Bytes32} {holds : Bytes32 → Prop} {known others : Set S} {created : Identity}
  {life : List (OwnerEvent S)} {calls : List (Identity × BuilderCall)}

theorem startFactors_derived (initiated : initiate alice b rng = .ok i) (ik : decodeArray32 b.ikDhPub = .ok theirIkDhPub)
    (spk : decodeArray32 b.spkPub = .ok theirSpkPub) :
    deriveMaster ((startFactors alice theirIkDhPub theirSpkPub rng).map Factor.shared) = .ok i.masterSecret := by
  rw [initiate_exec alice rng (initiate_decodes initiated).1 ik spk] at initiated
  obtain rfl := Except.ok.inj initiated
  rfl

/-- A bundle under the identity key of an honest owner, where all but the signed prekey may be made up: the DH
key, whose signature `initiate` does not check, as well as the Nostr key and the number of the prekey. The prekey
is one that the owner issued. An attacker computes the master secret exactly when each product is contributory and
it holds one of its two private keys; who has no key of the initiator, exactly with the private keys of the prekey
and of the DH key in the bundle; and as long as the prekey is not stolen, nobody outside can be heard in the
session, not even with the initiator's identity key. -/
theorem forged_bundle_unheard (ideal : IdealDh S) (initiated : initiate alice b rng = .ok i)
    (ik : decodeArray32 b.ikDhPub = .ok theirIkDhPub) (spk : decodeArray32 b.spkPub = .ok theirSpkPub)
    (owner : decodeArray32 b.ikSignPub = .ok created.ikSign.pubBytes)
    (unforged : ∀ sig, decodeArray64 b.spkSig = .ok sig →
      ed25519Verify created.ikSign.pubBytes theirSpkPub.toList sig = true → OwnerSigned created life calls theirSpkPub.toList)
    (random : ∀ fallback ∈ rng.fallbacks, Unmade fallback) (salt : zeroSalt ∈ known)
    (apart : ∀ f ∈ startFactors alice theirIkDhPub theirSpkPub rng, ∀ key ∈ known, ¬DerivedFrom f.shared key)
    (apartFrom : OtherSecrets i.masterSecret others) (fresh : ¬HoldsKey S holds (x25519Pub S rng.ekPriv)) :
    (∃ before after, life = before ++ after ∧ theirSpkPub = (owned created before).signedPrekey.keypair.pubBytes) ∧
    (Learns holds known i.masterSecret ↔ ∀ f ∈ startFactors alice theirIkDhPub theirSpkPub rng, f.Opened holds) ∧
    (¬HoldsKey S holds (x25519Pub S alice.ikDh.privBytes) →
      (Learns holds known i.masterSecret ↔
        (∀ f ∈ startFactors alice theirIkDhPub theirSpkPub rng, wasContributory S f.ourPriv f.theirPub = true) ∧
          HoldsKey S holds theirSpkPub ∧ HoldsKey S holds theirIkDhPub)) ∧
    (¬HoldsKey S holds theirSpkPub → ∀ ratchetRng, ∃ sender, initInitiator i.masterSecret theirSpkPub ratchetRng = .ok sender ∧
      Unheard (Outsider holds known others) sender) := by
  have derived := startFactors_derived initiated ik spk
  have unmade : ∀ f ∈ startFactors alice theirIkDhPub theirSpkPub rng, Unmade f.fallback := by
    simp only [startFactors, List.forall_mem_cons, List.not_mem_nil, false_imp_iff, implies_true, and_true]
    exact ⟨random _ (by simp [X3dhRandom.fallbacks]), random _ (by simp [X3dhRandom.fallbacks]),
      random _ (by simp [X3dhRandom.fallbacks])⟩
  refine ⟨?_, learned_iff_opened ideal derived unmade apart salt, fun stranger => ?_, fun kept ratchetRng => ?_⟩
  · obtain ⟨_, _, sig, ik', spk', decoded, verified⟩ := verifyBundle_true_iff.mp (initiate_decodes initiated).1
    obtain rfl := Except.ok.inj (owner.symm.trans ik')
    obtain rfl := Except.ok.inj (spk.symm.trans spk')
    obtain ⟨before, after, split, same⟩ := (unforged sig decoded verified).of_prekey
    exact ⟨before, after, split, same.symm⟩
  · have outside : ∀ f ∈ startFactors alice theirIkDhPub theirSpkPub rng, ¬HoldsKey S holds (x25519Pub S f.ourPriv) := by
      simp only [startFactors, List.forall_mem_cons, List.not_mem_nil, false_imp_iff, implies_true, and_true]
      exact ⟨stranger, fresh, fresh⟩
    rw [learned_iff_theirs ideal derived unmade apart salt outside]
    refine and_congr_right fun _ => ?_
    simp only [startFactors, List.forall_mem_cons, List.not_mem_nil, false_imp_iff, implies_true, and_true]
    constructor
    · rintro ⟨prekey, dh, _⟩
      exact ⟨prekey, dh⟩
    · rintro ⟨prekey, dh⟩
      exact ⟨prekey, dh, prekey⟩
  · have shut : ¬(⟨rng.ekPriv, theirSpkPub, rng.fallback3⟩ : Factor S).Opened holds :=
      fun opened => opened.held.elim fresh kept
    obtain ⟨_, stands⟩ := initInitiator_stands (rfl : initInitiator i.masterSecret theirSpkPub ratchetRng = .ok _)
    exact ⟨_, rfl, shut_unheard ideal derived unmade apart apartFrom ⟨_, by simp [startFactors], shut⟩ stands⟩

end

end

def holdsOwn (pub : Bytes32) : Prop :=
  pub = x25519Pub PairKey (sampleBytes 32 40) ∨ pub = x25519Pub PairKey (sampleBytes 32 41)

def forgedHello : InitialMessage where
  ikDhPub := Hex.encode pairAlice.ikDh.pubBytes.toList
  ekPub := Hex.encode (x25519Pub PairKey (sampleBytes 32 40)).toList
  spkId := 1
  opkId := none

/-- It puts its own DH key next to someone else's prekey. -/
def forgedBundle : PublicBundle :=
  { publicBundleFor sampleIdentity with ikDhPub := Hex.encode (x25519Pub PairKey (sampleBytes 32 41)).toList, idSig := "" }

def impostorMessage : EncryptedMessage where
  header := ⟨Hex.encode (sampleBytes 32 42).toList, 0, 0⟩
  nonce := Hex.encode (sampleBytes 12 0).toList
  ciphertext := Hex.encode (pack [[0], (sampleBytes 12 0).toList, [7], []])

theorem impostorMessage_forgeable {others : Set PairKey} : Forgeable (Outsider holdsOwn {zeroSalt} others) impostorMessage := by
  intro ct ciphertext key nonce ad pt opened
  obtain rfl := Option.some.inj ((Hex.decode_encode _).symm.trans ciphertext)
  have sealed : aeadSeal (zeroSalt : PairKey) (sampleBytes 12 0) [7] [] =
    some (pack [[0], (sampleBytes 12 0).toList, [7], []]) := rfl
  obtain ⟨rfl, _⟩ := pairKey_ideal.seal_inj sealed (pairKey_ideal.sealed_of_open opened)
  exact .known (Or.inl (.given (Set.mem_singleton _)))

theorem pairFactor_apart (f : Factor PairKey) : ∀ key ∈ ({zeroSalt} : Set PairKey), ¬DerivedFrom f.shared key := by
  intro key constant
  obtain rfl := Set.mem_singleton_iff.mp constant
  exact pairKey_ideal.not_derivedFrom_zeroSalt rfl

theorem pairAnswer_random : ∀ fallback ∈ pairAnswerRandom.fallbacks, Unmade fallback := by
  intro fallback present
  obtain rfl : fallback = ⟨⟨[8]⟩⟩ := by simpa [X3dhRandom.fallbacks, pairAnswerRandom] using present
  exact pairKey_unmade (by decide)

/-- The responder answers the impostor, and does not hear it. -/
theorem forged_hello_unheard_sample :
    ∃ r, (respond forgedHello pairAnswerRandom).exec sampleIdentity = (.ok r, sampleIdentity) ∧
      ∀ ad rng pt, (ratchetDecrypt (initResponder r.masterSecret r.spkKeypair) impostorMessage ad rng).1 ≠ .ok pt := by
  have ik : decodeArray32 forgedHello.ikDhPub = .ok pairAlice.ikDh.pubBytes := decodeArray32_encode _
  have ek : decodeArray32 forgedHello.ekPub = .ok (x25519Pub PairKey (sampleBytes 32 40)) := decodeArray32_encode _
  have named : signedPrekeyById sampleIdentity forgedHello.spkId = some sampleIdentity.signedPrekey := rfl
  have answered := respond_exec pairAnswerRandom named ik ek rfl
  refine ⟨_, answered, ?_⟩
  refine ((forged_hello_unheard pairKey_ideal answered named ik ek pairAnswer_random (Set.mem_singleton _)
    (fun f _ => pairFactor_apart f) (otherSecrets_none _)).2.2 ⟨_, List.mem_cons_self, ?_⟩).reads [] _
    impostorMessage_forgeable
  rintro ⟨_, ⟨own, rfl | rfl, same⟩ | ⟨own, rfl | rfl, same⟩⟩ <;> exact absurd same (by decide)

/-- The responder hears the initiator, whose ephemeral key was altered on the way. -/
theorem heard_from_the_named_sample :
    ∃ r m, (respond bentHello pairAnswerRandom).exec sampleIdentity = (.ok r, sampleIdentity) ∧
      (ratchetDecrypt (initResponder r.masterSecret r.spkKeypair) m r.associatedData (pairRandom 2)).1 = .ok [7] ∧
      (pairSessions false).master = r.masterSecret ∧ bentEk ≠ x25519Pub PairKey (pairSessions false).rng.ekPriv ∧
      ∀ role, SamePoint PairKey (initiatorView PairKey pairAlice (pairSessions false).rng.ekPriv
          sampleIdentity.ikDh.pubBytes sampleIdentity.signedPrekey.keypair.pubBytes role)
        (responderView sampleIdentity sampleIdentity.signedPrekey.keypair pairAlice.ikDh.pubBytes bentEk role) := by
  let h := pairSessions false
  have named : signedPrekeyById sampleIdentity bentHello.spkId = some sampleIdentity.signedPrekey := rfl
  have ik : decodeArray32 bentHello.ikDhPub = .ok pairAlice.ikDh.pubBytes := decodeArray32_encode _
  have ek : decodeArray32 bentHello.ekPub = .ok bentEk := decodeArray32_encode _
  have answered := respond_exec pairAnswerRandom named ik ek rfl
  obtain ⟨sender, started⟩ : ∃ sender, initInitiator h.master (generateX25519 PairKey (sampleBytes 32 13)).pubBytes
    (pairRandom 1) = .ok sender := ⟨_, rfl⟩
  obtain ⟨m, next, sent, _, accepted, _⟩ := pair_accepts started h.outcome.associatedData
  have heard : (ratchetDecrypt (runCalls (initResponder h.master (generateX25519 PairKey (sampleBytes 32 13))) []) m
      h.outcome.associatedData (pairRandom 2)).1 = .ok [7] := congrArg Prod.fst accepted
  have begun : AnyRun h.master
    (Session.start sender (initResponder h.master (generateX25519 PairKey (sampleBytes 32 13)))) := .start started
  have run : ∀ _ : Unit, AnyRun h.master ((Session.start sender (initResponder h.master
      (generateX25519 PairKey (sampleBytes 32 13)))).encrypt .initiator [7] h.outcome.associatedData (sampleBytes 12 0)) :=
    fun _ => .encrypt begun .initiator [7] h.outcome.associatedData (sampleBytes 12 0)
  have recorded : Entry.encrypted .initiator (Session.sendingKey sender) [7] h.outcome.associatedData (.ok m) ∈
      [Entry.encrypted .initiator (Session.sendingKey sender) [7] h.outcome.associatedData
        ((ratchetEncrypt [7] h.outcome.associatedData (sampleBytes 12 0)).exec sender).1] := by
    rw [sent]
    exact List.mem_singleton_self _
  obtain ⟨_, stands⟩ := initResponder_stands h.master (generateX25519 PairKey (sampleBytes 32 13))
  obtain ⟨_, _, ct, _, _, ciphertext, _⟩ := stands.read_key pairKey_ideal.toIdeal heard
  have shut : ¬(⟨sampleIdentity.signedPrekey.keypair.privBytes, pairAlice.ikDh.pubBytes, pairAnswerRandom.fallback1⟩ :
      Factor PairKey).Opened fun _ => False := by
    rintro ⟨_, ⟨_, held, _⟩ | ⟨_, held, _⟩⟩
    · exact held
    · exact held
  have secret : h.master = _ := bent_secret
  rw [secret] at heard
  obtain ⟨_, _, _, _, _, _, _, _, _, _, all⟩ := heard_from_the_named pairKey_ideal answered named ik ek pairAnswer_random
    ⟨_, rfl⟩ ⟨_, rfl⟩ (fun f _ => pairFactor_apart f) (otherSecrets_none _) ⟨_, List.mem_cons_self, shut⟩ run
    (Or.inl ⟨(), ct, ciphertext, .initiator, m, ⟨_, _, _, recorded⟩, ciphertext⟩) heard
  exact ⟨_, m, answered, heard, secret, by decide, (all rfl rfl).2.2⟩

/-- The initiator accepts the bundle, and does not hear the impostor. -/
theorem forged_bundle_unheard_sample :
    ∃ i sender, initiate pairAlice forgedBundle pairX3dhRandom = .ok i ∧
      initInitiator i.masterSecret sampleIdentity.signedPrekey.keypair.pubBytes (pairRandom 1) = .ok sender ∧
      ∀ ad rng pt, (ratchetDecrypt sender impostorMessage ad rng).1 ≠ .ok pt := by
  have ik : decodeArray32 forgedBundle.ikDhPub = .ok (x25519Pub PairKey (sampleBytes 32 41)) := decodeArray32_encode _
  have spk : decodeArray32 forgedBundle.spkPub = .ok sampleIdentity.signedPrekey.keypair.pubBytes := decodeArray32_encode _
  have owner : decodeArray32 forgedBundle.ikSignPub = .ok sampleIdentity.ikSign.pubBytes := decodeArray32_encode _
  have signature : decodeArray64 forgedBundle.spkSig = .ok sampleIdentity.signedPrekey.signature := decodeArray64_encode _
  have verified : verifyBundle forgedBundle = true := by
    rw [verifyBundle_eq owner spk signature]
    exact freeSignatures_honest _ _
  have initiated := initiate_exec pairAlice pairX3dhRandom verified ik spk
  have random : ∀ fallback ∈ pairX3dhRandom.fallbacks, Unmade fallback := by
    intro fallback present
    obtain rfl : fallback = pairMaster := by simpa [X3dhRandom.fallbacks, pairX3dhRandom] using present
    exact pairMaster_unmade
  have fresh : ¬HoldsKey PairKey holdsOwn (x25519Pub PairKey pairX3dhRandom.ekPriv) := by
    rintro ⟨own, rfl | rfl, same⟩ <;> exact absurd same (by decide)
  have kept : ¬HoldsKey PairKey holdsOwn sampleIdentity.signedPrekey.keypair.pubBytes := by
    rintro ⟨own, rfl | rfl, same⟩ <;> exact absurd same (by decide)
  have unforged : ∀ sig, decodeArray64 forgedBundle.spkSig = .ok sig →
      ed25519Verify sampleIdentity.ikSign.pubBytes sampleIdentity.signedPrekey.keypair.pubBytes.toList sig = true →
      OwnerSigned (S := PairKey) sampleIdentity [] [] sampleIdentity.signedPrekey.keypair.pubBytes.toList :=
    fun _ _ _ => .prekey (List.nil_append []).symm
  obtain ⟨sender, started, unheard⟩ := (forged_bundle_unheard pairKey_ideal initiated ik spk owner unforged random
    (Set.mem_singleton _) (fun f _ => pairFactor_apart f) (otherSecrets_none _) fresh).2.2.2 kept (pairRandom 1)
  exact ⟨_, sender, initiated, started, unheard.reads [] _ impostorMessage_forgeable⟩

end TrinoCore
