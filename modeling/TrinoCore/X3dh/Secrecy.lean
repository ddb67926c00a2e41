import TrinoCore.Ratchet.Healing
import TrinoCore.X3dh.Handshake

/-!
Which stolen keys give away a handshake, and the session that starts from it.

The master secret takes three DH products, and each of them falls with either of its private keys.
-/

namespace TrinoCore

section
variable {S : Type} [Primitives S]

theorem RootAt.derivedFrom {masterSecret rk : S} {i : Nat} (root : RootAt masterSecret i rk) :
    DerivedFrom masterSecret rk := by
  induction root with
  | master => exact .self
  | step dhOut _ ih => exact ih.rootStep dhOut

theorem ChainAt.derivedFrom {masterSecret ck : S} {j n : Nat} (chain : ChainAt masterSecret j n ck) :
    DerivedFrom masterSecret ck := by
  obtain ⟨_, rk, dhOut, _, root, rfl⟩ := chain
  exact (root.derivedFrom.chainStart dhOut).iterate n

theorem KeyAt.derivedFrom {masterSecret key : S} {j n : Nat} (position : KeyAt masterSecret j n key) :
    DerivedFrom masterSecret key := by
  obtain ⟨ck, chain, rfl⟩ := position
  exact chain.derivedFrom.messageKeyOf

theorem Obtainable.derivedFrom {masterSecret key : S} {place : Place} {st : RatchetState S}
    (stands : Stands masterSecret place st) (obtained : Obtainable st key) : DerivedFrom masterSecret key := by
  cases obtained with
  | banked stored =>
    obtain ⟨j, n, position, _⟩ := stands.bank.behind _ _ stored
    exact position.derivedFrom
  | root known =>
    obtain ⟨i, _, root⟩ := known.ahead stands
    exact root.derivedFrom
  | chain known =>
    obtain ⟨j, n, chain, _⟩ := known.ahead stands
    exact chain.derivedFrom
  | message known derived =>
    obtain ⟨j, n, chain, _⟩ := known.ahead stands
    obtain ⟨_, rfl⟩ := Prod.mk.inj (Except.ok.inj ((kdfCk_eq _).symm.trans derived))
    exact chain.derivedFrom.messageKeyOf

variable [Signatures]

theorem initiate_decodes {alice : Identity} {b : PublicBundle} {rng : X3dhRandom S} {i : InitiatorResult S}
    (initiated : initiate alice b rng = .ok i) :
    verifyBundle b = true ∧ ∃ theirIkDhPub theirSpkPub, decodeArray32 b.ikDhPub = .ok theirIkDhPub ∧
      decodeArray32 b.spkPub = .ok theirSpkPub := by
  cases verified : verifyBundle b with
  | false =>
    rw [initiate_unverified verified] at initiated
    cases initiated
  | true =>
    unfold initiate at initiated
    rw [verified] at initiated
    cases ik : decodeArray32 b.ikDhPub with
    | error e =>
      rw [ik] at initiated
      cases initiated
    | ok theirIkDhPub =>
      cases spk : decodeArray32 b.spkPub with
      | error e =>
        rw [ik, spk] at initiated
        cases initiated
      | ok theirSpkPub => exact ⟨rfl, theirIkDhPub, theirSpkPub, rfl, rfl⟩

/-- The private keys behind a handshake: the initiator's identity and ephemeral keys, and those of the
identity key and the signed prekey in the bundle. -/
structure HandshakeKeys (S : Type) [Primitives S] (alice : Identity) (b : PublicBundle) (rng : X3dhRandom S) where
  alicePriv : Bytes32
  bobPriv : Bytes32
  spkPriv : Bytes32
  alice_eq : alice.ikDh = generateX25519 S alicePriv
  bob_eq : decodeArray32 b.ikDhPub = .ok (x25519Pub S bobPriv)
  spk_eq : decodeArray32 b.spkPub = .ok (x25519Pub S spkPriv)

namespace HandshakeKeys
variable {alice : Identity} {b : PublicBundle} {rng : X3dhRandom S} (keys : HandshakeKeys S alice b rng)

def products : List S :=
  [x25519 keys.alicePriv (x25519Pub S keys.spkPriv), x25519 rng.ekPriv (x25519Pub S keys.bobPriv),
    x25519 rng.ekPriv (x25519Pub S keys.spkPriv)]

theorem masterSecret_eq (correct : Correct S) {i : InitiatorResult S} (initiated : initiate alice b rng = .ok i) :
    i.masterSecret = hkdfBlock keys.products zeroSalt x3dhInfo 0 := by
  rw [initiate_exec alice rng (initiate_decodes initiated).1 keys.bob_eq keys.spk_eq] at initiated
  obtain rfl := Except.ok.inj initiated
  simp only [products, keys.alice_eq, generateX25519, x25519DeriveShared_honest correct]

/-- For each product, one of its private keys is held. -/
structure Broken (holds : Bytes32 → Prop) : Prop where
  identity : HoldsKey S holds (x25519Pub S keys.alicePriv) ∨ HoldsKey S holds (x25519Pub S keys.spkPriv)
  ephemeral : HoldsKey S holds (x25519Pub S rng.ekPriv) ∨ HoldsKey S holds (x25519Pub S keys.bobPriv)
  prekey : HoldsKey S holds (x25519Pub S rng.ekPriv) ∨ HoldsKey S holds (x25519Pub S keys.spkPriv)

variable {holds : Bytes32 → Prop} {known : Set S}

/-- A product that the attacker can not compute guards all that follows from the handshake. -/
theorem unbroken_secret (ideal : IdealDh S) (whole : ¬keys.Broken holds)
    (apart : ∀ product ∈ keys.products, ∀ key ∈ known, ¬DerivedFrom product key) {i : InitiatorResult S}
    (initiated : initiate alice b rng = .ok i) {key : S} (derived : DerivedFrom i.masterSecret key) :
    ¬Learns holds known key := by
  rw [keys.masterSecret_eq ideal.toCorrect initiated] at derived
  have guards : ∀ {ours theirs : Bytes32}, x25519 ours (x25519Pub S theirs) ∈ keys.products →
      ¬(HoldsKey S holds (x25519Pub S ours) ∨ HoldsKey S holds (x25519Pub S theirs)) → ¬Learns holds known key := by
    intro ours theirs present neither
    have input : DerivedFrom (x25519 ours (x25519Pub S theirs)) (hkdfBlock keys.products zeroSalt x3dhInfo 0) :=
      DerivedFrom.input present .self
    exact ideal.product_guards (ideal.contributory ours theirs) neither (apart _ present) (input.trans derived)
  by_contra learned
  refine whole ⟨?_, ?_, ?_⟩
  · exact by_contra fun neither => guards (by simp [products]) neither learned
  · exact by_contra fun neither => guards (by simp [products]) neither learned
  · exact by_contra fun neither => guards (by simp [products]) neither learned

end HandshakeKeys

/-- An attacker learns the master secret of a handshake exactly when it holds, for each of the three DH
products, one of the two private keys. -/
theorem masterSecret_learned_iff (ideal : IdealDh S) {alice : Identity} {b : PublicBundle} {rng : X3dhRandom S}
    (keys : HandshakeKeys S alice b rng) {i : InitiatorResult S} (initiated : initiate alice b rng = .ok i)
    {holds : Bytes32 → Prop} {known : Set S} (salt : zeroSalt ∈ known)
    (apart : ∀ product ∈ keys.products, ∀ key ∈ known, ¬DerivedFrom product key) :
    Learns holds known i.masterSecret ↔ keys.Broken holds := by
  constructor
  · intro learned
    by_contra whole
    exact keys.unbroken_secret ideal whole apart initiated .self learned
  · intro broken
    rw [keys.masterSecret_eq ideal.toCorrect initiated]
    refine Learns.hkdf x3dhInfo 0 (fun key present => ?_) (.given salt)
    simp only [HandshakeKeys.products, List.mem_cons, List.not_mem_nil, or_false] at present
    rcases present with rfl | rfl | rfl
    · exact .product broken.identity
    · exact .product broken.ephemeral
    · exact .product broken.prekey

/-- As long as one product of the handshake holds, nothing that a run of its session stores, sends with or
reads with is ever learned, whatever is delivered to either party. -/
theorem session_secret (ideal : IdealDh S) {alice : Identity} {b : PublicBundle} {rng : X3dhRandom S}
    (keys : HandshakeKeys S alice b rng) {i : InitiatorResult S} (initiated : initiate alice b rng = .ok i)
    {holds : Bytes32 → Prop} {known : Set S} (whole : ¬keys.Broken holds)
    (apart : ∀ product ∈ keys.products, ∀ key ∈ known, ¬DerivedFrom product key) {s : Session S}
    (run : AnyRun i.masterSecret s) :
    (∀ p key, Obtainable (s.state p) key → ¬Learns holds known key) ∧
      (∀ p key pt ad result, Entry.encrypted p (some key) pt ad result ∈ s.history → ¬Learns holds known key) ∧
      ∀ p msg ad pt, Entry.delivered p msg ad (.ok pt) ∈ s.history →
        ∀ key, openMessage key msg ad = .ok pt → ¬Learns holds known key := by
  have forward := anyRun_forward ideal.toIdeal run
  have secret : ∀ key, DerivedFrom i.masterSecret key → ¬Learns holds known key :=
    fun key derived => keys.unbroken_secret ideal whole apart initiated derived
  refine ⟨?_, ?_, ?_⟩
  · intro p key obtained
    obtain ⟨place, _, stands, _⟩ := forward.party p
    exact secret key (obtained.derivedFrom stands)
  · intro p key pt ad result recorded
    obtain ⟨_, _, _, _, position, _⟩ := forward.sent _ recorded key rfl
    exact secret key position.derivedFrom
  · intro p msg ad pt accepted key opens
    obtain ⟨place, _, _, spent⟩ := forward.party p
    obtain ⟨j, n, position, _⟩ := (spent _ accepted key ⟨rfl, pt, rfl, opens⟩).past
    exact secret key position.derivedFrom

end

def pairAlice : Identity := { sampleIdentity with ikDh := generateX25519 PairKey (sampleBytes 32 30) }

def pairX3dhRandom : X3dhRandom PairKey := ⟨sampleBytes 32 20, pairMaster, pairMaster, pairMaster, pairMaster⟩

def pairHandshake : HandshakeKeys PairKey pairAlice (publicBundleFor sampleIdentity) pairX3dhRandom where
  alicePriv := sampleBytes 32 30
  bobPriv := sampleBytes 32 11
  spkPriv := sampleBytes 32 13
  alice_eq := rfl
  bob_eq := decodeArray32_encode _
  spk_eq := decodeArray32_encode _

theorem sampleBundle_verified : verifyBundle (publicBundleFor sampleIdentity) = true :=
  publicBundleFor_verified freeSignatures_honest ⟨_, rfl⟩ rfl none none

theorem pair_initiates : ∃ i, initiate pairAlice (publicBundleFor sampleIdentity) pairX3dhRandom = .ok i := by
  exact ⟨_, initiate_exec pairAlice pairX3dhRandom sampleBundle_verified pairHandshake.bob_eq pairHandshake.spk_eq⟩

def holdsIdentities (pub : Bytes32) : Prop := pub = pairAlice.ikDh.pubBytes ∨ pub = sampleIdentity.ikDh.pubBytes

theorem pairHandshake_whole : ¬pairHandshake.Broken holdsIdentities := by
  intro broken
  rcases broken.prekey with ⟨own, rfl | rfl, same⟩ | ⟨own, rfl | rfl, same⟩ <;> exact absurd same (by decide)

theorem pairHandshake_apart : ∀ product ∈ pairHandshake.products, ∀ key ∈ ({zeroSalt} : Set PairKey),
    ¬DerivedFrom product key := by
  intro product present key constant
  obtain rfl := Set.mem_singleton_iff.mp constant
  simp only [HandshakeKeys.products, List.mem_cons, List.not_mem_nil, or_false] at present
  rcases present with rfl | rfl | rfl <;> exact pairKey_ideal.not_derivedFrom_zeroSalt rfl

theorem masterSecret_learned_iff_sample :
    ∃ i, initiate pairAlice (publicBundleFor sampleIdentity) pairX3dhRandom = .ok i ∧
      ¬Learns holdsIdentities {zeroSalt} i.masterSecret := by
  obtain ⟨i, initiated⟩ := pair_initiates
  exact ⟨i, initiated, fun learned => pairHandshake_whole ((masterSecret_learned_iff pairKey_ideal pairHandshake initiated
    (Set.mem_singleton _) pairHandshake_apart).mp learned)⟩

/-- The first message of the session is sent and read. -/
theorem session_secret_sample :
    ∃ i, ∃ s : Session PairKey, ∃ (key readKey : PairKey) (msg : EncryptedMessage),
      initiate pairAlice (publicBundleFor sampleIdentity) pairX3dhRandom = .ok i ∧ AnyRun i.masterSecret s ∧
      Entry.encrypted .initiator (some key) [7] [] (.ok msg) ∈ s.history ∧
      Entry.delivered .responder msg [] (.ok [7]) ∈ s.history ∧ openMessage readKey msg [] = .ok [7] ∧
      ¬Learns holdsIdentities {zeroSalt} (s.state .responder).rootKey ∧ ¬Learns holdsIdentities {zeroSalt} key ∧
      ¬Learns holdsIdentities {zeroSalt} readKey := by
  obtain ⟨i, initiated⟩ := pair_initiates
  obtain ⟨sender, started⟩ : ∃ sender,
    initInitiator i.masterSecret (generateX25519 PairKey (sampleBytes 32 13)).pubBytes (pairRandom 1) = .ok sender :=
    ⟨_, rfl⟩
  obtain ⟨msg, next, sent, decoded, accepted, _⟩ := pair_accepts started []
  obtain ⟨sending, _⟩ := firstChain_agrees pairKey_ideal.toCorrect started zeroSalt
  obtain ⟨key, used⟩ : ∃ key, Session.sendingKey sender = some key := by
    rw [Session.sendingKey, sending]
    exact ⟨_, rfl⟩
  have begun : AnyRun i.masterSecret
    (Session.start sender (initResponder i.masterSecret (generateX25519 PairKey (sampleBytes 32 13)))) := .start started
  obtain ⟨spoken, made⟩ : ∃ spoken, spoken = (Session.start sender (initResponder i.masterSecret
    (generateX25519 PairKey (sampleBytes 32 13)))).encrypt .initiator [7] [] (sampleBytes 12 0) := ⟨_, rfl⟩
  have run : AnyRun i.masterSecret (spoken.decrypt .responder msg [] (pairRandom 2)) := by
    rw [made]
    exact .decrypt (.encrypt begun .initiator [7] [] (sampleBytes 12 0)) .responder msg [] (pairRandom 2)
  have encrypted : Entry.encrypted .initiator (some key) [7] [] (.ok msg) ∈
      (spoken.decrypt .responder msg [] (pairRandom 2)).history := by
    rw [← used, ← sent, made]
    exact List.mem_append_left _ (List.mem_singleton_self _)
  have delivered : Entry.delivered .responder msg [] (.ok [7]) ∈
      (spoken.decrypt .responder msg [] (pairRandom 2)).history := by
    have read : (ratchetDecrypt (initResponder i.masterSecret (generateX25519 PairKey (sampleBytes 32 13))) msg []
      (pairRandom 2)).1 = .ok [7] := congrArg Prod.fst accepted
    rw [← read, made]
    exact List.mem_append_right _ (List.mem_singleton_self _)
  obtain ⟨readKey, opens⟩ : ∃ readKey, openMessage readKey msg [] = .ok [7] := by
    rcases (ratchetDecrypt_ok_iff decoded).mp accepted with ⟨_, _, opens, _⟩ | ⟨_, _, _, _, _, _, opens, _⟩
    · exact ⟨_, opens⟩
    · exact ⟨_, opens⟩
  obtain ⟨stored, sends, reads⟩ := session_secret pairKey_ideal pairHandshake initiated pairHandshake_whole
    pairHandshake_apart run
  exact ⟨i, _, key, readKey, msg, initiated, run, encrypted, delivered, opens, stored .responder _ (.root .stored),
    sends _ _ _ _ _ encrypted, reads _ _ _ _ delivered readKey opens⟩

end TrinoCore
