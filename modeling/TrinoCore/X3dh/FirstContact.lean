import TrinoCore.Envelope.RoundTrip
import TrinoCore.X3dh.Handshake
import TrinoCore.X3dh.Wire

/-!
First contact, from the text of a published bundle to the envelopes that are read.

Everything between the two sides goes as text: the bundle, the initial message and the messages of the
first chain, each laid out by whoever wrote it.
-/

namespace TrinoCore

section
variable {S : Type} [Primitives S] [Signatures] [VaultJson] [Hmac] [JsonText] [SerdeJson]

/-- A text that arrives: the place of its message among those sent, and what the receiving call draws. -/
structure TextArrival (S : Type) where
  index : Nat
  text : String
  rng : StepRandom S

/-- What a receiver makes of one text after another: it parses the message, decrypts it and decodes the
envelope. -/
def readTexts (st : RatchetState S) (ad : Bytes) : List (TextArrival S) → List (Option Envelope)
  | [] => []
  | arrival :: rest =>
    match EncryptedMessage.fromText arrival.text with
    | none => none :: readTexts st ad rest
    | some msg =>
      let (result, st') := ratchetDecrypt st msg ad arrival.rng
      (result.toOption.map decodeEnvelope) :: readTexts st' ad rest

/-- An envelope to be sent, and the nonce that its message draws. -/
structure Outbound where
  envelope : Envelope
  nonce : Nonce

def Outbound.outgoing (ad : Bytes) (item : Outbound) : Outgoing := ⟨encodeEnvelope item.envelope, ad, item.nonce⟩

/-- Each text is one of the message at its place, and each place comes once. -/
structure DeliversTexts (items : List Outbound) (results : List (Except RatchetError EncryptedMessage))
    (arrivals : List (TextArrival S)) : Prop where
  each : ∀ arrival ∈ arrivals, ∃ item msg, (items.zip results)[arrival.index]? = some (item, .ok msg) ∧
    TextOf msg.Stands arrival.text
  once : (arrivals.map (·.index)).Nodup

omit [Primitives S] [Signatures] [VaultJson] [Hmac] [SerdeJson] in
theorem TextOf.message {msg : EncryptedMessage} {text : String} (written : TextOf msg.Stands text) :
    EncryptedMessage.fromText text = some msg :=
  written.read fun _ => EncryptedMessage.deserialize_stands

/-- The message behind a text, with the envelope that it was made of. -/
structure Behind (items : List Outbound) (results : List (Except RatchetError EncryptedMessage)) (ad : Bytes)
    (arrival : TextArrival S) (message : Arrival S) : Prop where
  index : message.index = arrival.index
  rng : message.rng = arrival.rng
  text : TextOf message.msg.Stands arrival.text
  sent : ∃ item, (items.zip results)[arrival.index]? = some (item, .ok message.msg) ∧ message.sent = item.outgoing ad

omit [Primitives S] [Signatures] [VaultJson] [Hmac] in
theorem DeliversTexts.messages {items : List Outbound} {results : List (Except RatchetError EncryptedMessage)}
    {arrivals : List (TextArrival S)} (delivers : DeliversTexts items results arrivals) (ad : Bytes) :
    ∃ messages, List.Forall₂ (Behind items results ad) arrivals messages := by
  have each := delivers.each
  clear delivers
  induction arrivals with
  | nil => exact ⟨[], .nil⟩
  | cons arrival rest ih =>
    obtain ⟨item, msg, sent, text⟩ := each arrival List.mem_cons_self
    obtain ⟨messages, behind⟩ := ih fun other present => each other (List.mem_cons_of_mem _ present)
    exact ⟨⟨arrival.index, item.outgoing ad, msg, arrival.rng⟩ :: messages, .cons ⟨rfl, rfl, text, item, sent, rfl⟩ behind⟩

omit [Primitives S] [Signatures] [VaultJson] [Hmac] in
theorem map_behind {α : Type} {items : List Outbound} {results : List (Except RatchetError EncryptedMessage)} {ad : Bytes}
    {arrivals : List (TextArrival S)} {messages : List (Arrival S)}
    (behind : List.Forall₂ (Behind items results ad) arrivals messages) {f : Arrival S → α} {g : TextArrival S → α}
    (same : ∀ arrival message, Behind items results ad arrival message → f message = g arrival) :
    messages.map f = arrivals.map g := by
  induction behind with
  | nil => rfl
  | cons head _ ih => rw [List.map_cons, List.map_cons, ih, same _ _ head]

omit [Signatures] [VaultJson] [Hmac] in
theorem readTexts_eq {items : List Outbound} {results : List (Except RatchetError EncryptedMessage)} {ad : Bytes} {st : RatchetState S}
    {arrivals : List (TextArrival S)} {messages : List (Arrival S)}
    (behind : List.Forall₂ (Behind items results ad) arrivals messages) :
    readTexts st ad arrivals = (decryptAll st messages).map fun result => result.toOption.map decodeEnvelope := by
  induction behind generalizing st with
  | nil => rfl
  | cons head _ ih =>
    obtain ⟨item, _, sent⟩ := head.sent
    rw [readTexts, head.text.message, decryptAll, List.map_cons, head.rng, sent]
    dsimp only [Outbound.outgoing]
    rw [ih]

omit [Primitives S] [Signatures] [VaultJson] [Hmac] in
theorem delivers_behind {items : List Outbound} {results : List (Except RatchetError EncryptedMessage)} {ad : Bytes}
    {arrivals : List (TextArrival S)} {messages : List (Arrival S)}
    (behind : List.Forall₂ (Behind items results ad) arrivals messages) :
    Delivers (items.map (Outbound.outgoing ad)) results messages := by
  intro message present
  induction behind with
  | nil => cases present
  | @cons arrival first _ _ head _ ih =>
    rcases List.mem_cons.mp present with rfl | later
    · obtain ⟨item, sent, same⟩ := head.sent
      rw [head.index, same, List.zip_map_left, List.getElem?_map, sent]
      rfl
    · exact ih later

omit [Primitives S] [Signatures] [VaultJson] [Hmac] [JsonText] in
theorem encoded_decodes (envelopes : SerdeJson.TakesBack) (e : Envelope) : decodeEnvelope (encodeEnvelope e) = e := by
  obtain ⟨text, written, w, read, same⟩ := envelopes.written e.serialize (plain_serialize e)
  obtain ⟨ty, tag, known⟩ := tagOf_serialize e
  have tag' : tagOf w = some ty := (tagOf_congr same).symm.trans tag
  have value : Envelope.fromValue w = some e := (fromValue_congr same).symm.trans (fromValue_serialize e)
  rw [encodeEnvelope, written, Option.getD_some]
  simp only [decodeEnvelope, Utf8.fromUtf8Lossy_utf8, read, tag', value, known, ↓reduceIte, Option.bind_eq_bind,
    Option.bind_some, Option.getD_some]

omit [Signatures] [VaultJson] [Hmac] in
/-- The texts of the first chain yield the envelopes. -/
theorem firstChain_texts (correct : Correct S) (envelopes : SerdeJson.TakesBack) {masterSecret : S} {spkPriv : Bytes32} {rng : StepRandom S} {sender : RatchetState S}
    (started : initInitiator masterSecret (x25519Pub S spkPriv) rng = .ok sender) {ad : Bytes} {items : List Outbound}
    {arrivals : List (TextArrival S)} (few : items.length ≤ 2 ^ 32)
    (delivers : DeliversTexts items (encryptAll sender (items.map (Outbound.outgoing ad))) arrivals)
    (limits : WithinLimits 0 0 (arrivals.map (·.index))) :
    readTexts (initResponder masterSecret (generateX25519 S spkPriv)) ad arrivals =
      arrivals.map fun arrival => items[arrival.index]?.map (·.envelope) := by
  obtain ⟨messages, behind⟩ := delivers.messages ad
  have places : messages.map (·.index) = arrivals.map (·.index) := map_behind behind fun _ _ here => here.index
  have few' : (items.map (Outbound.outgoing ad)).length ≤ 2 ^ 32 := by
    rw [List.length_map]
    exact few
  have read := firstChain_decrypts correct started few' (delivers_behind behind) (places ▸ delivers.once) (places ▸ limits)
  rw [readTexts_eq behind, read, List.map_map]
  refine map_behind behind fun arrival message here => ?_
  obtain ⟨item, sent, same⟩ := here.sent
  have placed : items[arrival.index]? = some item := (List.getElem?_zip_eq_some.mp sent).1
  rw [placed, Function.comp_apply, same]
  exact congrArg some (encoded_decodes envelopes item.envelope)

/-- From the text of a bundle, published at any point of the responder's life, to the envelopes: as long as the
prekey is retained, the initiator starts from the text, the responder answers the text of the initial message,
and every text of the first chain yields the envelope that was put into it, in any order within the limits. -/
theorem first_contact_over_text (correct : Correct S) (honest : HonestSignatures) (roundTrips : JsonRoundTrips)
    (envelopes : SerdeJson.TakesBack) {aliceRng bobRng : IdentityRandom}
    {aliceNow bobNow : Int64} {alice bob : Identity} (aliceCreated : createIdentity S aliceRng aliceNow = some alice)
    (bobCreated : createIdentity S bobRng bobNow = some bob) (aliceLife before after : List (LifeEvent S))
    (few : lifeRotations bob (before ++ after) < 2 ^ 32 - 1)
    (retained : (signedPrekeyById (live bob (before ++ after)) (live bob before).signedPrekey.id).isSome)
    (rng rng' : X3dhRandom S) (ratchetRng : StepRandom S) {bundleText : String}
    (published : TextOf (publicBundleFor (live bob before)).Stands bundleText) :
    ∃ b i, PublicBundle.fromText bundleText = some b ∧ initiate (live alice aliceLife) b rng = .ok i ∧
      ∀ {helloText : String}, TextOf i.message.Stands helloText →
        ∃ hello r spkPub sender, InitialMessage.fromText helloText = some hello ∧
          ((respond hello rng').exec (live bob (before ++ after))).1 = .ok r ∧ r.associatedData = i.associatedData ∧
          decodeArray32 b.spkPub = .ok spkPub ∧ initInitiator i.masterSecret spkPub ratchetRng = .ok sender ∧
          ∀ (items : List Outbound) (arrivals : List (TextArrival S)), items.length ≤ 2 ^ 32 →
            DeliversTexts items (encryptAll sender (items.map (Outbound.outgoing i.associatedData))) arrivals →
            WithinLimits 0 0 (arrivals.map (·.index)) →
            readTexts (initResponder r.masterSecret r.spkKeypair) r.associatedData arrivals =
              arrivals.map fun arrival => items[arrival.index]?.map (·.envelope) := by
  obtain ⟨aliceSound, _⟩ := created_sound aliceCreated
  obtain ⟨bobSound, one⟩ := created_sound bobCreated
  rw [lifeRotations_append] at few
  have room : RoomForLife bob before := by
    unfold RoomForLife
    rw [one, UInt32.toNat_one]
    omega
  obtain ⟨publisher, _⟩ := live_keeps correct roundTrips bobSound room
  have laterRoom : RoomForLife (live bob before) after := by
    have counted := live_rotations correct roundTrips bobSound room
    rw [one, UInt32.toNat_one] at counted
    unfold RoomForLife
    rw [counted]
    omega
  obtain ⟨_, remembers⟩ := live_keeps correct roundTrips publisher laterRoom
  rw [live_append] at retained ⊢
  obtain ⟨spk, found⟩ := Option.isSome_iff_exists.mp retained
  obtain rfl := (remembers _ (Or.inl rfl)).lookup found
  obtain ⟨id, createdAt, spkPriv, current⟩ := publisher.current
  have prekey : (live bob before).signedPrekey.keypair = generateX25519 S spkPriv := by
    rw [current]
    rfl
  have aliceKey : ∃ privBytes, (live alice aliceLife).ikDh = generateX25519 S privBytes := by
    rw [live_ikDh correct roundTrips]
    exact aliceSound.dhKey
  have verified := publicBundleFor_verified honest publisher.signKey publisher.current.signature none none
  obtain ⟨i, r, initiated, responded, secret, ad, keypair, decoded⟩ := handshake_agrees correct aliceKey
    publisher.dhKey (live_ikDh correct roundTrips (live bob before) after) prekey verified rfl rfl found rng rng'
  refine ⟨_, i, published.read fun _ => PublicBundle.deserialize_stands, initiated, fun hello => ?_⟩
  refine ⟨i.message, r, r.spkKeypair.pubBytes, _, hello.read fun _ => InitialMessage.deserialize_stands,
    congrArg Prod.fst responded, ad.symm, decoded, rfl, ?_⟩
  intro items arrivals bounded delivers limits
  rw [keypair] at delivers ⊢
  rw [← secret, ← ad]
  exact firstChain_texts correct envelopes rfl bounded delivers limits

end

abbrev parsedJson : JsonText := ⟨JsonValue.parse⟩

theorem parsedJson_takesBack : @JsonText.TakesBack parsedJson := fun _ plain => JsonValue.parse_render plain

/-- A bundle as another implementation might write it: back to front, behind a key of its own, and without the
one-time prekey. -/
def sampleBundleEntries : List (String × JsonValue) :=
  ("version", .num 2) :: ((publicBundleFor sampleIdentity).fields.filter fun field =>
    field.1 ∉ ["opkId", "opkPub"]).reverse

theorem sampleBundle_text :
    @TextOf parsedJson (publicBundleFor sampleIdentity).Stands (JsonValue.obj sampleBundleEntries).render := by
  refine @TextOf.printed parsedJson parsedJson_takesBack _ _ ⟨["opkId", "opkPub"], sampleBundleEntries, rfl, ?_, ?_⟩ ?_
  · intro name absent
    rcases List.mem_cons.mp absent with rfl | rest
    · rfl
    · obtain rfl := List.mem_singleton.mp rest
      rfl
  · unfold sampleBundleEntries Serde.Lays
    rw [List.filter_cons_of_neg (by decide), List.filter_eq_self.mpr]
    · exact List.reverse_perm _
    · intro field present
      have written := List.mem_of_mem_filter (List.mem_reverse.mp present)
      exact decide_eq_true (List.mem_map_of_mem written : field.1 ∈ (publicBundleFor sampleIdentity).fields.map Prod.fst)
  · cases (publicBundleFor sampleIdentity).plain_serialize with
    | obj _ plain =>
      refine .obj (by decide) (List.forall_mem_cons.mpr ⟨.num 2, fun entry present => ?_⟩)
      exact plain entry (List.mem_of_mem_filter (List.mem_reverse.mp present))

theorem first_contact_over_text_sample :
    ∃ b i spkPub sender text, ∃ r : ResponderResult FreeKey,
      @PublicBundle.fromText parsedJson (JsonValue.obj sampleBundleEntries).render = some b ∧
      initiate sampleIdentity b sampleX3dhRandom = .ok i ∧ decodeArray32 b.spkPub = .ok spkPub ∧
      initInitiator i.masterSecret spkPub (sampleRandom 1) = .ok sender ∧
      @readTexts FreeKey _ parsedJson compactJson (initResponder r.masterSecret r.spkKeypair) r.associatedData
        [⟨0, text, sampleRandom 2⟩] = [some (.text "hola" "m1")] := by
  have few : lifeRotations (S := FreeKey) sampleIdentity ([] ++ []) < 2 ^ 32 - 1 := by decide
  have found : signedPrekeyById (live (S := FreeKey) sampleIdentity ([] ++ []))
      (live (S := FreeKey) sampleIdentity []).signedPrekey.id = some sampleIdentity.signedPrekey := rfl
  obtain ⟨b, i, parsed, initiated, answers⟩ := @first_contact_over_text FreeKey _ _ _ _ parsedJson compactJson
    freeKey_ideal.toCorrect freeSignatures_honest packed_round_trips compactJson_takesBack _ _ _ _ _ _
    sampleIdentity_created sampleIdentity_created [] [] [] few (by rw [found]; rfl) sampleX3dhRandom sampleX3dhRandom
    (sampleRandom 1) _ sampleBundle_text
  obtain ⟨hello, r, spkPub, sender, _, _, _, decoded, started, reads⟩ :=
    answers (@InitialMessage.textOf parsedJson parsedJson_takesBack i.message)
  obtain ⟨ck, sending⟩ : ∃ ck, sender.sendingChainKey = some ck := by
    obtain rfl := Except.ok.inj started
    exact ⟨_, rfl⟩
  let item : Outbound := ⟨.text "hola" "m1", sampleBytes 12 0⟩
  obtain ⟨msg, result⟩ : ∃ msg, ((ratchetEncrypt (@encodeEnvelope compactJson item.envelope) i.associatedData
      item.nonce).exec sender).1 = .ok msg := ⟨_, congrArg Prod.fst (ratchetEncrypt_some sending _ _ _)⟩
  have delivers : @DeliversTexts FreeKey parsedJson [item] (encryptAll sender ([item].map (@Outbound.outgoing compactJson i.associatedData)))
      [⟨0, msg.serialize.render, sampleRandom 2⟩] := by
    refine @DeliversTexts.mk FreeKey parsedJson _ _ _ (fun arrival present => ?_) (List.nodup_singleton 0)
    obtain rfl := List.mem_singleton.mp present
    exact ⟨item, msg, congrArg (fun first => some (item, first)) result,
      @EncryptedMessage.textOf parsedJson parsedJson_takesBack msg⟩
  refine ⟨b, i, spkPub, sender, msg.serialize.render, r, parsed, initiated, decoded, started, ?_⟩
  refine reads [item] [⟨0, msg.serialize.render, sampleRandom 2⟩] (by decide) delivers ⟨Nat.zero_le _, ?_, trivial⟩
  show 1 ≤ 0 + 1 + maxSkippedKeys
  omega

end TrinoCore
