import TrinoCore.X3dh.Secrecy

/-!
Equal master secrets come from the same keys, or from keys of which none is the same: no substitution of
keys in the bundle or in the initial message leaves both sides with one secret, one associated data and
different views of each other.
-/

namespace TrinoCore

section
variable {S : Type} [Primitives S]

def X3dhRandom.fallbacks (rng : X3dhRandom S) : List S :=
  [rng.fallback1, rng.fallback2, rng.fallback3, rng.fallback4]

/-- The random bytes that two calls put in the place of products are no products, and differ. -/
structure Unguessed (rng rng' : X3dhRandom S) : Prop where
  products : ∀ fallback ∈ rng.fallbacks ++ rng'.fallbacks, ∀ a p, fallback ≠ x25519 a p
  apart : ∀ fallback ∈ rng.fallbacks, fallback ∉ rng'.fallbacks

theorem deriveShared_product {rng rng' : X3dhRandom S} (unguessed : Unguessed rng rng') {a p c q : Bytes32}
    {fallback fallback' : S} (first : fallback ∈ rng.fallbacks) (second : fallback' ∈ rng'.fallbacks)
    (same : x25519DeriveShared a p fallback = x25519DeriveShared c q fallback') :
    wasContributory S a p = true ∧ x25519 (S := S) a p = x25519 c q := by
  unfold x25519DeriveShared at same
  split at same <;> split at same
  · rename_i contributory _
    exact ⟨contributory, same⟩
  · exact (unguessed.products _ (List.mem_append_right _ second) _ _ same.symm).elim
  · exact (unguessed.products _ (List.mem_append_left _ first) _ _ same).elim
  · exact (unguessed.apart _ first (same ▸ second)).elim

/-- The DH keys that a handshake brings together. -/
inductive Role where
  | initiatorIk
  | ek
  | responderIk
  | spk

abbrev View := Role → Bytes32

variable (S) in
def initiatorView (alice : Identity) (ekPriv theirIkDhPub theirSpkPub : Bytes32) : View
  | .initiatorIk => alice.ikDh.pubBytes
  | .ek => x25519Pub S ekPriv
  | .responderIk => theirIkDhPub
  | .spk => theirSpkPub

def responderView (bob : Identity) (spk : KeyPair) (theirIkDhPub theirEkPub : Bytes32) : View
  | .initiatorIk => theirIkDhPub
  | .ek => theirEkPub
  | .responderIk => bob.ikDh.pubBytes
  | .spk => spk.pubBytes

/-- Where the two sides have the same products, they agree on all keys or on none. -/
theorem views_agree (injective : InjectiveDh S) {alice bob : Identity} {spk : KeyPair}
    {alicePriv ekPriv bobPriv spkPriv bundleIk bundleSpk msgIk msgEk : Bytes32}
    (aliceKey : alice.ikDh = generateX25519 S alicePriv) (bobKey : bob.ikDh = generateX25519 S bobPriv)
    (spkKey : spk = generateX25519 S spkPriv)
    (identity : wasContributory S alicePriv bundleSpk = true ∧
      x25519 (S := S) alicePriv bundleSpk = x25519 spkPriv msgIk)
    (ephemeral : wasContributory S ekPriv bundleIk = true ∧ x25519 (S := S) ekPriv bundleIk = x25519 bobPriv msgEk)
    (prekey : wasContributory S ekPriv bundleSpk = true ∧ x25519 (S := S) ekPriv bundleSpk = x25519 spkPriv msgEk)
    (role : Role) (agree : SamePoint S (initiatorView S alice ekPriv bundleIk bundleSpk role)
      (responderView bob spk msgIk msgEk role)) (other : Role) :
    SamePoint S (initiatorView S alice ekPriv bundleIk bundleSpk other) (responderView bob spk msgIk msgEk other) := by
  have identity := injective.crossed_iff identity.1 identity.2
  have ephemeral := injective.crossed_iff ephemeral.1 ephemeral.2
  have prekey := injective.crossed_iff prekey.1 prekey.2
  simp only [initiatorView, responderView, aliceKey, bobKey, spkKey, generateX25519] at agree ⊢
  -- each key is settled by the prekey, and settles it
  have straight : SamePoint S bundleSpk (x25519Pub S spkPriv) := by
    cases role with
    | initiatorIk => exact identity.mpr agree.symm
    | ek => exact prekey.mpr agree.symm
    | responderIk => exact prekey.mpr (ephemeral.mp agree)
    | spk => exact agree
  cases other with
  | initiatorIk => exact (identity.mp straight).symm
  | ek => exact (prekey.mp straight).symm
  | responderIk => exact ephemeral.mpr (prekey.mp straight)
  | spk => exact straight

/-- What a responder that answered had found and decoded, and what it multiplied. -/
theorem respond_ok {bob after : Identity} {msg : InitialMessage} {rng : X3dhRandom S} {r : ResponderResult S}
    (answered : (respond msg rng).exec bob = (.ok r, after)) :
    ∃ spk theirIkDhPub theirEkPub extra, signedPrekeyById bob msg.spkId = some spk ∧
      decodeArray32 msg.ikDhPub = .ok theirIkDhPub ∧ decodeArray32 msg.ekPub = .ok theirEkPub ∧
      r.masterSecret = hkdfBlock
        ([x25519DeriveShared spk.keypair.privBytes theirIkDhPub rng.fallback1,
          x25519DeriveShared bob.ikDh.privBytes theirEkPub rng.fallback2,
          x25519DeriveShared spk.keypair.privBytes theirEkPub rng.fallback3] ++ extra) zeroSalt x3dhInfo 0 ∧
      (extra = [] → msg.opkId = none ∧ after = bob) ∧
      extra = ((msg.opkId.bind (consumeOneTimePrekey bob)).map fun found =>
        x25519DeriveShared found.1.keypair.privBytes theirEkPub rng.fallback4).toList ∧
      r.associatedData = theirIkDhPub.toList ++ bob.ikDh.pubBytes.toList ∧ r.spkKeypair = spk.keypair := by
  unfold respond at answered
  rw [Mut.exec_bind_ok (Mut.exec_get bob)] at answered
  cases retained : signedPrekeyById bob msg.spkId with
  | none =>
    rw [retained] at answered
    cases answered
  | some spk =>
    rw [retained] at answered
    dsimp only at answered
    cases ik : decodeArray32 msg.ikDhPub with
    | error e =>
      rw [ik] at answered
      cases answered
    | ok theirIkDhPub =>
      cases ek : decodeArray32 msg.ekPub with
      | error e =>
        rw [ik, ek] at answered
        cases answered
      | ok theirEkPub =>
        rw [ik, ek, Mut.exec_bind_ok (Mut.exec_lift_ok _ _ _), Mut.exec_bind_ok (Mut.exec_lift_ok _ _ _)] at answered
        cases named : msg.opkId with
        | none =>
          rw [named] at answered
          obtain ⟨result, rfl⟩ := Prod.mk.inj answered
          obtain rfl := Except.ok.inj result
          exact ⟨spk, _, _, [], rfl, rfl, rfl, rfl, fun _ => ⟨rfl, rfl⟩, rfl, rfl, rfl⟩
        | some opkId =>
          rw [named] at answered
          dsimp only at answered
          cases consumed : consumeOneTimePrekey bob opkId with
          | none =>
            rw [consumed] at answered
            cases answered
          | some found =>
            rw [consumed] at answered
            obtain rfl := Except.ok.inj (Prod.mk.inj answered).1
            refine ⟨spk, _, _, [_], rfl, rfl, rfl, rfl, fun absurd => (List.cons_ne_nil _ _ absurd).elim, ?_, rfl, rfl⟩
            rw [Option.bind_some, consumed]
            rfl

variable [Signatures] [VaultJson] [Hmac]

omit [VaultJson] [Hmac] in
theorem Sound.retained_key {identity : Identity} (sound : Sound S identity) {id : UInt32} {spk : SignedPreKey}
    (retained : signedPrekeyById identity id = some spk) : ∃ privBytes, spk.keypair = generateX25519 S privBytes := by
  have issued : IssuedBy S identity.ikSign spk := by
    unfold signedPrekeyById at retained
    split at retained
    · obtain rfl := Option.some.inj retained
      exact sound.current
    · obtain ⟨retired, present, rfl⟩ := List.mem_map.mp (List.mem_of_find?_eq_some retained)
      exact sound.retired retired present
  obtain ⟨_, _, privBytes, rfl⟩ := issued
  exact ⟨privBytes, rfl⟩

/-- When a responder, at any point of its life and on any message, derives the secret that an initiator
derived from any bundle, no one-time prekey was used and nothing changed for the responder. As soon as the two
agree on one of the four DH keys, they agree on all, up to keys with the same products; and where the
associated data is the same too, they do, with the very same identity keys. -/
theorem equal_secrets_agree (injective : InjectiveDh S) (roundTrips : JsonRoundTrips) {alice : Identity}
    (aliceKey : ∃ privBytes, alice.ikDh = generateX25519 S privBytes) {bobRng : IdentityRandom} {bobNow : Int64}
    {created : Identity} (bobCreated : createIdentity S bobRng bobNow = some created) {life : List (LifeEvent S)}
    (few : lifeRotations created life < 2 ^ 32 - 1) {b : PublicBundle} {msg : InitialMessage} {rng rng' : X3dhRandom S}
    (unguessed : Unguessed rng rng') {i : InitiatorResult S} {r : ResponderResult S} {after : Identity}
    (initiated : initiate alice b rng = .ok i) (answered : (respond msg rng').exec (live created life) = (.ok r, after))
    (same : i.masterSecret = r.masterSecret) :
    msg.opkId = none ∧ after = live created life ∧
      ∃ bundleIk bundleSpk msgIk msgEk, decodeArray32 b.ikDhPub = .ok bundleIk ∧ decodeArray32 b.spkPub = .ok bundleSpk ∧
        decodeArray32 msg.ikDhPub = .ok msgIk ∧ decodeArray32 msg.ekPub = .ok msgEk ∧
        let mine := initiatorView S alice rng.ekPriv bundleIk bundleSpk
        let yours := responderView created r.spkKeypair msgIk msgEk
        (∀ role, SamePoint S (mine role) (yours role) → ∀ other, SamePoint S (mine other) (yours other)) ∧
          (i.associatedData = r.associatedData → mine .initiatorIk = yours .initiatorIk ∧
            mine .responderIk = yours .responderIk ∧ ∀ role, SamePoint S (mine role) (yours role)) := by
  obtain ⟨sound, one⟩ := created_sound bobCreated
  have room : RoomForLife created life := by
    unfold RoomForLife
    rw [one, UInt32.toNat_one]
    omega
  obtain ⟨soundLater, _⟩ := live_keeps injective.toCorrect roundTrips sound room
  have bobSame := live_ikDh injective.toCorrect roundTrips created life
  obtain ⟨bobPriv, bobKey⟩ := soundLater.dhKey
  obtain ⟨alicePriv, aliceKey⟩ := aliceKey
  obtain ⟨spk, msgIk, msgEk, extra, retained, ik, ek, secret, unused, _, ad, keypair⟩ := respond_ok answered
  obtain ⟨spkPriv, spkKey⟩ := soundLater.retained_key retained
  obtain ⟨verified, bundleIk, bundleSpk, ikB, spkB⟩ := initiate_decodes initiated
  rw [initiate_exec alice rng verified ikB spkB] at initiated
  obtain rfl := Except.ok.inj initiated
  dsimp only at same
  rw [secret] at same
  have products := (injective.hkdf_inj same).1
  simp only [List.cons_append, List.nil_append, List.cons.injEq] at products
  obtain ⟨identity, ephemeral, prekey, nothing⟩ := products
  rw [bobKey] at ephemeral
  rw [spkKey] at identity prekey
  rw [aliceKey] at identity
  have createdKey : created.ikDh = generateX25519 S bobPriv := bobSame.symm.trans bobKey
  have agree := @views_agree _ _ injective alice created r.spkKeypair alicePriv rng.ekPriv bobPriv spkPriv bundleIk bundleSpk
    msgIk msgEk aliceKey createdKey (keypair.trans spkKey)
    (deriveShared_product unguessed (by simp [X3dhRandom.fallbacks]) (by simp [X3dhRandom.fallbacks]) identity)
    (deriveShared_product unguessed (by simp [X3dhRandom.fallbacks]) (by simp [X3dhRandom.fallbacks]) ephemeral)
    (deriveShared_product unguessed (by simp [X3dhRandom.fallbacks]) (by simp [X3dhRandom.fallbacks]) prekey)
  obtain ⟨noOpk, unchanged⟩ := unused nothing.symm
  refine ⟨noOpk, unchanged, bundleIk, bundleSpk, msgIk, msgEk, ikB, spkB, ik, ek, agree, fun sameAd => ?_⟩
  rw [ad] at sameAd
  obtain ⟨aliceIk, bobIk⟩ := List.append_inj sameAd (by simp)
  have named : bundleIk = created.ikDh.pubBytes := by
    rw [← bobSame]
    exact ByteVec.toList_inj.mp bobIk
  refine ⟨ByteVec.toList_inj.mp aliceIk, named, agree .responderIk ?_⟩
  rw [initiatorView, responderView, named]
  exact fun _ => rfl

end

def pairAnswerRandom : X3dhRandom PairKey :=
  let other : PairKey := ⟨⟨[8]⟩⟩
  ⟨sampleBytes 32 21, other, other, other, other⟩

theorem pair_unguessed : Unguessed pairX3dhRandom pairAnswerRandom := by
  refine ⟨?_, by decide⟩
  intro fallback present a p same
  obtain rfl | rfl : fallback = pairMaster ∨ fallback = ⟨⟨[8]⟩⟩ := by
    simpa [X3dhRandom.fallbacks, pairX3dhRandom, pairAnswerRandom] using present
  · exact absurd (List.cons.inj (congrArg FreeKey.derivation (congrArg PairKey.free same))).1 (by decide)
  · exact absurd (List.cons.inj (congrArg FreeKey.derivation (congrArg PairKey.free same))).1 (by decide)

def bentEk : Bytes32 := bent (x25519Pub PairKey (sampleBytes 32 20))

theorem bentEk_samePoint : SamePoint PairKey (x25519Pub PairKey (sampleBytes 32 20)) bentEk := by decide

def bentHello : InitialMessage where
  ikDhPub := Hex.encode pairAlice.ikDh.pubBytes.toList
  ekPub := Hex.encode bentEk.toList
  spkId := 1
  opkId := none

theorem bent_secret : hkdfBlock (S := PairKey) [x25519 (sampleBytes 32 30) (x25519Pub PairKey (sampleBytes 32 13)),
      x25519 (sampleBytes 32 20) (x25519Pub PairKey (sampleBytes 32 11)),
      x25519 (sampleBytes 32 20) (x25519Pub PairKey (sampleBytes 32 13))] zeroSalt x3dhInfo 0 =
    hkdfBlock [x25519 (sampleBytes 32 13) (x25519Pub PairKey (sampleBytes 32 30)), x25519 (sampleBytes 32 11) bentEk,
      x25519 (sampleBytes 32 13) bentEk] zeroSalt x3dhInfo 0 := by
  have crossed (a b : Bytes32) := pairKey_ideal.x25519_comm a b
  rw [← bentEk_samePoint, ← bentEk_samePoint, crossed (sampleBytes 32 30), crossed (sampleBytes 32 20),
    crossed (sampleBytes 32 20)]

def rotatedOnce : List (LifeEvent PairKey) := [.rotate ⟨spkRotationSecs, sampleBytes 32 15⟩]

/-- The message was altered on its way and the prekey rotated: the secret and the associated data are still the
initiator's, and the ephemeral key is not. -/
theorem equal_secrets_agree_sample : ∃ i r,
    initiate pairAlice (publicBundleFor sampleIdentity) pairX3dhRandom = .ok i ∧
      (respond bentHello pairAnswerRandom).exec (live sampleIdentity rotatedOnce) = (.ok r, live sampleIdentity rotatedOnce) ∧
      i.masterSecret = r.masterSecret ∧ bentEk ≠ x25519Pub PairKey pairX3dhRandom.ekPriv ∧
      ∀ role, SamePoint PairKey (initiatorView PairKey pairAlice pairX3dhRandom.ekPriv sampleIdentity.ikDh.pubBytes
          sampleIdentity.signedPrekey.keypair.pubBytes role)
        (responderView sampleIdentity r.spkKeypair pairAlice.ikDh.pubBytes bentEk role) := by
  have aliceKey : ∃ privBytes, pairAlice.ikDh = generateX25519 PairKey privBytes := ⟨_, rfl⟩
  have initiated := initiate_exec pairAlice pairX3dhRandom sampleBundle_verified pairHandshake.bob_eq pairHandshake.spk_eq
  have retained : signedPrekeyById (live sampleIdentity rotatedOnce) bentHello.spkId = some sampleIdentity.signedPrekey := rfl
  have ik : decodeArray32 bentHello.ikDhPub = .ok pairAlice.ikDh.pubBytes := decodeArray32_encode _
  have ek : decodeArray32 bentHello.ekPub = .ok bentEk := decodeArray32_encode _
  have answered := respond_exec pairAnswerRandom retained ik ek rfl
  have created : createIdentity PairKey sampleIdentityRandom 0 = some sampleIdentity := rfl
  have few : lifeRotations sampleIdentity rotatedOnce < 2 ^ 32 - 1 := by decide
  obtain ⟨_, _, bundleIk, bundleSpk, msgIk, msgEk, ikB, spkB, ik', ek', _, all⟩ := equal_secrets_agree pairKey_ideal.injective
    packed_round_trips aliceKey created few pair_unguessed initiated answered bent_secret
  obtain rfl := Except.ok.inj (ikB.symm.trans pairHandshake.bob_eq)
  obtain rfl := Except.ok.inj (spkB.symm.trans pairHandshake.spk_eq)
  obtain rfl := Except.ok.inj (ik'.symm.trans ik)
  obtain rfl := Except.ok.inj (ek'.symm.trans ek)
  exact ⟨_, _, initiated, answered, bent_secret, by decide, (all rfl).2.2⟩

end TrinoCore
