import TrinoCore.Ratchet.FirstChain
import TrinoCore.X3dh.Binding
import TrinoCore.X3dh.Life

namespace TrinoCore

section
variable {S : Type} [Primitives S]

theorem x25519DeriveShared_comm (correct : Correct S) (a b : Bytes32) (fallback fallback' : S) :
    x25519DeriveShared a (x25519Pub S b) fallback = x25519DeriveShared b (x25519Pub S a) fallback' := by
  rw [x25519DeriveShared_honest correct, x25519DeriveShared_honest correct]
  exact correct.x25519_comm a b

theorem respond_exec {bob : Identity} {msg : InitialMessage} (rng : X3dhRandom S) {spk : SignedPreKey}
    {theirIkDhPub theirEkPub : Bytes32} (retained : signedPrekeyById bob msg.spkId = some spk)
    (ik : decodeArray32 msg.ikDhPub = .ok theirIkDhPub) (ek : decodeArray32 msg.ekPub = .ok theirEkPub)
    (noOpk : msg.opkId = none) :
    (respond msg rng).exec bob = (.ok
      { masterSecret := hkdfBlock
          [x25519DeriveShared spk.keypair.privBytes theirIkDhPub rng.fallback1,
            x25519DeriveShared bob.ikDh.privBytes theirEkPub rng.fallback2,
            x25519DeriveShared spk.keypair.privBytes theirEkPub rng.fallback3] zeroSalt x3dhInfo 0
        associatedData := theirIkDhPub.toList ++ bob.ikDh.pubBytes.toList
        spkKeypair := spk.keypair }, bob) := by
  unfold respond
  rw [Mut.exec_bind_ok (Mut.exec_get bob), retained]
  dsimp only
  rw [ik, ek, noOpk, Mut.exec_bind_ok (Mut.exec_lift_ok _ _ _), Mut.exec_bind_ok (Mut.exec_lift_ok _ _ _)]
  rfl

variable [Signatures]

theorem initiate_exec (alice : Identity) {b : PublicBundle} (rng : X3dhRandom S) {theirIkDhPub theirSpkPub : Bytes32}
    (verified : verifyBundle b = true) (ik : decodeArray32 b.ikDhPub = .ok theirIkDhPub)
    (spk : decodeArray32 b.spkPub = .ok theirSpkPub) :
    initiate alice b rng = .ok
      { masterSecret := hkdfBlock
          [x25519DeriveShared alice.ikDh.privBytes theirSpkPub rng.fallback1,
            x25519DeriveShared rng.ekPriv theirIkDhPub rng.fallback2,
            x25519DeriveShared rng.ekPriv theirSpkPub rng.fallback3] zeroSalt x3dhInfo 0
        message :=
          { ikDhPub := Hex.encode alice.ikDh.pubBytes.toList
            ekPub := Hex.encode (x25519Pub S rng.ekPriv).toList
            spkId := b.spkId
            opkId := none }
        associatedData := alice.ikDh.pubBytes.toList ++ theirIkDhPub.toList } := by
  unfold initiate
  rw [verified, ik, spk]
  rfl

/-- The handshake of a bundle with the prekey it names, whatever happened to the responder since. -/
theorem handshake_agrees (correct : Correct S) {alice bob bobLater : Identity} {b : PublicBundle}
    {spk : SignedPreKey} {spkPriv : Bytes32} (aliceKey : ∃ privBytes, alice.ikDh = generateX25519 S privBytes)
    (bobKey : ∃ privBytes, bob.ikDh = generateX25519 S privBytes) (same : bobLater.ikDh = bob.ikDh)
    (prekey : spk.keypair = generateX25519 S spkPriv) (verified : verifyBundle b = true)
    (ik : b.ikDhPub = Hex.encode bob.ikDh.pubBytes.toList) (spkPub : b.spkPub = Hex.encode spk.keypair.pubBytes.toList)
    (retained : signedPrekeyById bobLater b.spkId = some spk) (rng rng' : X3dhRandom S) :
    ∃ i r, initiate alice b rng = .ok i ∧ (respond i.message rng').exec bobLater = (.ok r, bobLater) ∧
      i.masterSecret = r.masterSecret ∧ i.associatedData = r.associatedData ∧
      r.spkKeypair = generateX25519 S spkPriv ∧ decodeArray32 b.spkPub = .ok r.spkKeypair.pubBytes := by
  obtain ⟨alicePriv, aliceKey⟩ := aliceKey
  obtain ⟨bobPriv, bobKey⟩ := bobKey
  have ikDecoded : decodeArray32 b.ikDhPub = .ok (x25519Pub S bobPriv) := by
    rw [ik, bobKey]
    exact decodeArray32_encode _
  have spkDecoded : decodeArray32 b.spkPub = .ok (x25519Pub S spkPriv) := by
    rw [spkPub, prekey]
    exact decodeArray32_encode _
  have initiated := initiate_exec alice rng verified ikDecoded spkDecoded
  refine ⟨_, _, initiated, respond_exec rng' retained (decodeArray32_encode _) (decodeArray32_encode _) rfl,
    ?_, ?_, prekey, ?_⟩
  · dsimp only
    rw [same, bobKey, aliceKey, prekey]
    dsimp only [generateX25519]
    rw [x25519DeriveShared_comm correct alicePriv spkPriv rng.fallback1 rng'.fallback1,
      x25519DeriveShared_comm correct rng.ekPriv bobPriv rng.fallback2 rng'.fallback2,
      x25519DeriveShared_comm correct rng.ekPriv spkPriv rng.fallback3 rng'.fallback3]
  · dsimp only
    rw [same, bobKey]
    rfl
  · rw [spkDecoded, prekey]
    rfl

variable [VaultJson] [Hmac]

/-- A handshake on a bundle published at any point of the responder's life succeeds at any later point
that still retains the prekey, and every message of the first chain decrypts. -/
theorem retained_bundle_handshake (correct : Correct S) (honest : HonestSignatures) (roundTrips : JsonRoundTrips)
    {aliceRng bobRng : IdentityRandom} {aliceNow bobNow : Int64} {alice bob : Identity}
    (aliceCreated : createIdentity S aliceRng aliceNow = some alice)
    (bobCreated : createIdentity S bobRng bobNow = some bob) (aliceLife before after : List (LifeEvent S))
    (few : lifeRotations bob (before ++ after) < 2 ^ 32 - 1) (opkId : Option UInt32) (opkPub : Option String)
    (retained : (signedPrekeyById (live bob (before ++ after)) (publicBundleFor (live bob before)).spkId).isSome)
    (rng rng' : X3dhRandom S) :
    let b := { publicBundleFor (live bob before) with opkId, opkPub }
    ∃ i r spkPub, initiate (live alice aliceLife) b rng = .ok i ∧
      ((respond i.message rng').exec (live bob (before ++ after))).1 = .ok r ∧
      i.masterSecret = r.masterSecret ∧ i.associatedData = r.associatedData ∧
      decodeArray32 b.spkPub = .ok spkPub ∧ r.spkKeypair.pubBytes = spkPub ∧
      ∀ ratchetRng, ∃ sender, initInitiator i.masterSecret spkPub ratchetRng = .ok sender ∧
        ∀ (items : List Outgoing) (arrivals : List (Arrival S)), items.length ≤ 2 ^ 32 →
          Delivers items (encryptAll sender items) arrivals → (arrivals.map (·.index)).Nodup →
          WithinLimits 0 0 (arrivals.map (·.index)) →
          decryptAll (initResponder r.masterSecret r.spkKeypair) arrivals =
            arrivals.map fun arrival => .ok arrival.sent.plaintext := by
  intro b
  obtain ⟨aliceSound, _⟩ := created_sound aliceCreated
  obtain ⟨bobSound, one⟩ := created_sound bobCreated
  rw [lifeRotations_append] at few
  have room : RoomForLife bob before := by
    unfold RoomForLife
    rw [one, UInt32.toNat_one]
    omega
  obtain ⟨published, _⟩ := live_keeps correct roundTrips bobSound room
  have laterRoom : RoomForLife (live bob before) after := by
    have counted := live_rotations correct roundTrips bobSound room
    rw [one, UInt32.toNat_one] at counted
    unfold RoomForLife
    rw [counted]
    omega
  obtain ⟨_, remembers⟩ := live_keeps correct roundTrips published laterRoom
  rw [live_append] at retained ⊢
  obtain ⟨spk, found⟩ := Option.isSome_iff_exists.mp retained
  obtain rfl := (remembers _ (Or.inl rfl)).lookup found
  obtain ⟨id, createdAt, spkPriv, current⟩ := published.current
  have prekey : (live bob before).signedPrekey.keypair = generateX25519 S spkPriv := by
    rw [current]
    rfl
  have aliceKey : ∃ privBytes, (live alice aliceLife).ikDh = generateX25519 S privBytes := by
    rw [live_ikDh correct roundTrips]
    exact aliceSound.dhKey
  obtain ⟨i, r, initiated, responded, secret, ad, keypair, decoded⟩ := handshake_agrees (b := b) correct aliceKey
    published.dhKey (live_ikDh correct roundTrips (live bob before) after) prekey
    (publicBundleFor_verified honest published.signKey published.current.signature opkId opkPub) rfl rfl found rng rng'
  refine ⟨i, r, r.spkKeypair.pubBytes, initiated, congrArg Prod.fst responded, secret, ad, decoded, rfl, ?_⟩
  intro ratchetRng
  refine ⟨_, rfl, ?_⟩
  intro items arrivals bounded delivers once limits
  rw [keypair] at delivers ⊢
  rw [← secret]
  exact firstChain_decrypts correct rfl bounded delivers once limits

end

/-- A bundle with a made-up one-time prekey, answered after a rotation and a reload. -/
theorem retained_bundle_handshake_sample :
    let call : RotateCall := ⟨spkRotationSecs, sampleBytes 32 15⟩
    let vault : Reload := ⟨[1], "passphrase", sampleBytes 16 1, sampleBytes 12 1, "000000", 0⟩
    let bob := live (S := FreeKey) sampleIdentity [.rotate call, .reload vault]
    let b := { publicBundleFor sampleIdentity with opkId := some 7, opkPub := some "none" }
    ∃ i r sender msg, initiate sampleIdentity b sampleX3dhRandom = .ok i ∧
      ((respond i.message sampleX3dhRandom).exec bob).1 = .ok r ∧
      initInitiator i.masterSecret r.spkKeypair.pubBytes (sampleRandom 1) = .ok sender ∧
      ((ratchetEncrypt [7] [] (sampleBytes 12 0)).exec sender).1 = .ok msg ∧
      (ratchetDecrypt (initResponder r.masterSecret r.spkKeypair) msg [] (sampleRandom 2)).1 = .ok [7] := by
  intro call vault bob b
  have correct := freeKey_ideal.toCorrect
  have few : lifeRotations (S := FreeKey) sampleIdentity [.rotate call, .reload vault] < 2 ^ 32 - 1 := by
    have counted : lifeRotations (S := FreeKey) sampleIdentity [.rotate call, .reload vault] =
        (if Due sampleIdentity call.now then 1 else 0) + 0 := rfl
    rw [counted]
    split
    · decide
    · decide
  have retained : (signedPrekeyById bob (publicBundleFor sampleIdentity).spkId).isSome := by
    have reloaded : bob = rotateCall FreeKey sampleIdentity call := by
      change live sampleIdentity [.rotate call, .reload vault] = _
      rw [live_cons, live_cons, live_nil, lifeStep, lifeStep, reloadVault_eq correct packed_round_trips]
    have published : (publicBundleFor sampleIdentity).spkId = 1 := rfl
    have changed : (rotateCall FreeKey sampleIdentity call).signedPrekey.id ≠ sampleIdentity.signedPrekey.id := by
      decide
    have ordered := (rotateCall_step (S := FreeKey) (created_ordered sampleIdentity_created).1 call
      (fun _ => by decide)).1
    have found : signedPrekeyById (rotateCall FreeKey sampleIdentity call) 1 = some sampleIdentity.signedPrekey :=
      signedPrekeyById_retired ordered (rotateCall_retires changed)
    rw [reloaded, published, found]
    rfl
  obtain ⟨i, r, spkPub, initiated, responded, _, _, _, rfl, delivers⟩ := retained_bundle_handshake correct
    freeSignatures_honest packed_round_trips sampleIdentity_created sampleIdentity_created [] []
    [.rotate call, .reload vault] few (some 7) (some "none") retained sampleX3dhRandom sampleX3dhRandom
  obtain ⟨sender, started, reads⟩ := delivers (sampleRandom 1)
  have sending : ∃ ck, sender.sendingChainKey = some ck := by
    obtain rfl := Except.ok.inj started
    exact ⟨_, rfl⟩
  obtain ⟨ck, sending⟩ := sending
  have encrypted := ratchetEncrypt_some sending [7] [] (sampleBytes 12 0)
  have sealed := congrArg Prod.fst encrypted
  let msg : EncryptedMessage := ⟨nextHeader sender, Hex.encode (sampleBytes 12 0).toList, Hex.encode (pack
    [(messageKeyOf ck).derivation, (sampleBytes 12 0).toList, [7],
      headerAd [] sender.dhs.pubBytes sender.previousSendingChainLength sender.sendingMsgNumber])⟩
  refine ⟨i, r, sender, msg, initiated, responded, started, sealed, ?_⟩
  have all := reads [⟨[7], [], sampleBytes 12 0⟩] [⟨0, ⟨[7], [], sampleBytes 12 0⟩, msg, sampleRandom 2⟩]
    (by decide) ?_ (List.nodup_singleton 0) ⟨Nat.zero_le _, ?_, trivial⟩
  · exact (List.cons.inj all).1
  · intro arrival present
    obtain rfl := List.mem_singleton.mp present
    rw [encryptAll_cons, encrypted]
    rfl
  · show 1 ≤ 0 + 1 + maxSkippedKeys
    omega

end TrinoCore
