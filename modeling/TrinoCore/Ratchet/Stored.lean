import TrinoCore.Lib.JsonSize
import TrinoCore.Ratchet.Saved

/-!
A session kept as text between calls: it behaves as one that stays in memory, and its text never
outgrows a constant, whatever the peer sends.
-/

namespace TrinoCore

section
variable {S : Type}

def IsKeyId (keyId : String) : Prop := ∃ d n, keyId = skippedKeyId d n

/-- What the text of a session can grow with. -/
structure Bounded (st : RatchetState S) : Prop where
  wellFormed : WellFormed st
  within : st.skippedKeys.keys.card ≤ maxSkippedKeys
  ids : ∀ keyId ∈ st.skippedKeys, IsKeyId keyId
  retired : st.retiredPeerDhKeys.length ≤ maxRetiredDhKeys

theorem mem_bankAll {st : RatchetState S} (wf : WellFormed st) {entries : List (String × S)} {keyId : String}
    (banked : keyId ∈ (bankAll st entries).skippedKeys) : keyId ∈ entries.map Prod.fst ∨ keyId ∈ st.skippedKeys := by
  induction entries generalizing st with
  | nil => exact Or.inr banked
  | cons entry rest ih =>
    have bank := bankSkippedKey_spec wf entry.1 entry.2
    rcases ih bank.wellFormed banked with later | kept
    · exact Or.inl (List.mem_cons_of_mem _ later)
    · rw [← mem_queue bank.wellFormed, bank.queue_eq] at kept
      rcases BoundedQueue.mem_enqueue.mp (List.mem_of_mem_drop kept) with old | rfl
      · exact Or.inr ((mem_queue wf).mp old)
      · exact Or.inl List.mem_cons_self

theorem length_retirePeerKey {st : RatchetState S} (retired : st.retiredPeerDhKeys.length ≤ maxRetiredDhKeys) (d : Bytes32) :
    (retirePeerKey st d).length ≤ maxRetiredDhKeys := by
  unfold retirePeerKey
  split
  · exact retired
  · split
    · dsimp only
      split
      · rw [List.length_drop, List.length_append, List.length_singleton]
        omega
      · rename_i within
        exact Nat.le_of_not_lt within
    · exact retired

section
variable [Primitives S]

theorem skippedEntries_ids (d : Bytes32) (ck : S) (start count : Nat) :
    ∀ keyId ∈ (skippedEntries d ck start count).map Prod.fst, IsKeyId keyId := by
  induction count generalizing ck start with
  | zero => intro keyId present; cases present
  | succ count ih => exact List.forall_mem_cons.mpr ⟨⟨d, _, rfl⟩, ih (chainStep ck) (start + 1)⟩

theorem keysSkipped_ids (st : RatchetState S) (until_ : UInt32) :
    ∀ keyId ∈ (keysSkipped st until_).map Prod.fst, IsKeyId keyId := by
  unfold keysSkipped
  split
  · exact skippedEntries_ids _ _ _ _
  · intro keyId present
    cases present

theorem keysBanked_ids (st : RatchetState S) (header : MessageHeader) (d : Bytes32) (rng : StepRandom S) :
    ∀ keyId ∈ (keysBanked st header d rng).map Prod.fst, IsKeyId keyId := by
  unfold keysBanked
  split
  · exact keysSkipped_ids st header.n
  · rw [List.map_append, List.forall_mem_append]
    exact ⟨keysSkipped_ids st header.pn, keysSkipped_ids _ header.n⟩

theorem initial_bounded {st : RatchetState S} (initial : Initial st) : Bounded st := by
  obtain ⟨noKeys, noOrder⟩ := initial_empty initial
  have noneRetired : st.retiredPeerDhKeys = [] := by
    rcases initial with ⟨masterSecret, spkPub, rng, made⟩ | ⟨masterSecret, spkKeypair, rfl⟩
    · simp only [initInitiator, kdfRk_eq, Except.ok.injEq] at made
      subst st
      rfl
    · rfl
  refine ⟨⟨noOrder ▸ List.nodup_nil, fun keyId ordered => ?_⟩, ?_, fun keyId banked => ?_, ?_⟩
  · rw [noOrder] at ordered
    cases ordered
  · simp [noKeys, Finmap.keys_empty]
  · rw [noKeys] at banked
    exact (Finmap.notMem_empty banked).elim
  · simp [noneRetired]

theorem decrypt_retired {st next : RatchetState S} {msg : EncryptedMessage} {ad pt : Bytes} {rng : StepRandom S}
    (accepted : ratchetDecrypt st msg ad rng = (.ok pt, next)) :
    next.retiredPeerDhKeys = st.retiredPeerDhKeys ∨ ∃ d, next.retiredPeerDhKeys = retirePeerKey st d := by
  obtain ⟨d, decoded⟩ := ratchetDecrypt_decodes accepted
  rcases (ratchetDecrypt_ok_iff decoded).mp accepted with ⟨_, _, _, rfl⟩ | ⟨_, _, mid, ck, reaches, _, _, rfl⟩
  · exact Or.inl rfl
  · rcases (reaches_keys reaches).2 with ⟨_, _, kept⟩ | ⟨_, _, grown⟩
    · exact Or.inl kept
    · exact Or.inr ⟨d, grown⟩

/-- No call, on whatever message, lets a session outgrow its bounds. -/
theorem Bounded.next {st : RatchetState S} (bounded : Bounded st) (call : Call S) : Bounded (call.next st) := by
  obtain ⟨wf, _, within⟩ := call_wellFormed bounded.wellFormed call
  refine ⟨wf, within bounded.within, ?_, ?_⟩
  · intro keyId banked
    cases call with
    | encrypt plaintext ad nonce =>
      rw [(encrypt_bank st plaintext ad nonce).1] at banked
      exact bounded.ids keyId banked
    | decrypt msg ad rng =>
      rcases outcome : ratchetDecrypt st msg ad rng with ⟨result, next⟩
      simp only [Call.next, outcome] at banked
      cases result with
      | error e =>
        rw [ratchetDecrypt_error outcome] at banked
        exact bounded.ids keyId banked
      | ok pt =>
        obtain ⟨d, _, ⟨_, rfl⟩ | ⟨_, same⟩⟩ := decrypt_bank outcome
        · exact bounded.ids keyId (Finmap.mem_erase.mp banked).2
        · rw [same.1] at banked
          rcases mem_bankAll bounded.wellFormed banked with new | old
          · exact keysBanked_ids st msg.header d rng keyId new
          · exact bounded.ids keyId old
  · cases call with
    | encrypt plaintext ad nonce =>
      rw [Call.next, encrypt_retired]
      exact bounded.retired
    | decrypt msg ad rng =>
      rcases outcome : ratchetDecrypt st msg ad rng with ⟨result, next⟩
      simp only [Call.next, outcome]
      cases result with
      | error e =>
        rw [ratchetDecrypt_error outcome]
        exact bounded.retired
      | ok pt =>
        rcases decrypt_retired outcome with kept | ⟨d, grown⟩
        · rw [kept]
          exact bounded.retired
        · rw [grown]
          exact length_retirePeerKey bounded.retired d

end
end

/-! ### The size of the text -/

open JsonValue (size entrySize Printable)
open Serde (orNull writeMap writeBytes IterationOrder mapEntries)

theorem printable_skippedKeyId (d : Bytes32) (n : UInt32) : ∀ c ∈ (skippedKeyId d n).toList, Printable c := by
  simp only [skippedKeyId, String.toList_append, List.forall_mem_append]
  refine ⟨JsonValue.printable_hex d.toList, ?_, ?_⟩
  · intro c present
    obtain rfl : c = ':' := by simpa using present
    exact ⟨by decide, by decide, by decide, by decide⟩
  · rw [Nat.repr, String.toList_ofList]
    exact JsonValue.printable_digits n.toNat

theorem length_skippedKeyId (d : Bytes32) (n : UInt32) : (skippedKeyId d n).length ≤ 75 := by
  have digits := Nat.toDigits_length 10 n.toNat 10 (by decide) (n.toNat_lt.trans (by decide))
  simp only [skippedKeyId, ← String.length_toList, String.toList_append, List.length_append, Hex.encode, Nat.repr,
    String.toList_ofList, Hex.length_pairs, d.toList_length]
  change 2 * 32 + (1 + _) ≤ 75
  omega

theorem IsKeyId.byteLength_quote {keyId : String} (isId : IsKeyId keyId) : Json.byteLength (Json.quote keyId) ≤ 77 := by
  obtain ⟨d, n, rfl⟩ := isId
  have short := length_skippedKeyId d n
  rw [JsonValue.byteLength_quote (printable_skippedKeyId d n)]
  omega

theorem size_writeKey (key : Bytes32) : (writeKey key).size ≤ 130 := by
  have bytes := JsonValue.size_writeBytes key.toList
  rw [key.toList_length] at bytes
  exact bytes

theorem size_optional_writeKey (key : Option Bytes32) : (orNull (key.map writeKey)).size ≤ 130 := by
  apply JsonValue.size_orNull_le (by decide)
  intro v given
  obtain ⟨held, _, rfl⟩ := Option.map_eq_some_iff.mp given
  exact size_writeKey held

theorem KeyPair.size_serialize (kp : KeyPair) : kp.serialize.size ≤ 300 := by
  have whole := JsonValue.size_struct [("priv_bytes", some (writeBytes kp.privBytes.toList)),
    ("pub_bytes", some (writeBytes kp.pubBytes.toList))]
  have first := size_writeKey kp.privBytes
  have second := size_writeKey kp.pubBytes
  have names : Json.byteLength (Json.quote "priv_bytes") = 12 ∧ Json.byteLength (Json.quote "pub_bytes") = 11 := by decide
  simp only [List.map_cons, List.map_nil, List.sum_cons, List.sum_nil, Option.map_some, Option.getD_some, entrySize, names.1,
    names.2] at whole
  unfold writeKey at first second
  exact whole.trans (by omega)

theorem size_bank {order : List String} {st : RatchetState Bytes32} (bounded : Bounded st)
    (iterates : IterationOrder st.skippedKeys order) : (writeMap writeKey order st.skippedKeys).size ≤ maxSkippedKeys * 209 + 2 := by
  have each : ∀ entry ∈ mapEntries writeKey order st.skippedKeys, entrySize entry ≤ 209 := by
    intro entry present
    obtain ⟨banked, key, written⟩ := Serde.mem_mapEntries present
    have short := (bounded.ids _ banked).byteLength_quote
    have value := size_writeKey key
    rw [entrySize, written]
    omega
  have count : (mapEntries writeKey order st.skippedKeys).length ≤ maxSkippedKeys := by
    have kept := (Serde.mapEntries_keys_sublist writeKey order st.skippedKeys).length_le
    have all : order.toFinset = st.skippedKeys.keys := by
      ext keyId
      rw [List.mem_toFinset, iterates.2, Finmap.mem_keys]
    rw [List.length_map, ← List.toFinset_card_of_nodup iterates.1, all] at kept
    exact kept.trans bounded.within
  exact (JsonValue.size_obj_le each).trans (Nat.add_le_add_right (Nat.mul_le_mul_right _ count) 2)

theorem size_order {st : RatchetState Bytes32} (bounded : Bounded st) :
    (JsonValue.arr (st.skippedKeyOrder.map .str)).size ≤ maxSkippedKeys * 78 + 2 := by
  have each : ∀ v ∈ st.skippedKeyOrder.map JsonValue.str, v.size ≤ 77 := by
    simp only [List.mem_map]
    rintro _ ⟨keyId, ordered, rfl⟩
    exact (bounded.ids keyId (bounded.wellFormed.banked keyId ordered)).byteLength_quote
  have count : (st.skippedKeyOrder.map JsonValue.str).length ≤ maxSkippedKeys := by
    have inside : st.skippedKeyOrder.toFinset ⊆ st.skippedKeys.keys := by
      intro keyId ordered
      exact Finmap.mem_keys.mpr (bounded.wellFormed.banked keyId (List.mem_toFinset.mp ordered))
    rw [List.length_map, ← List.toFinset_card_of_nodup bounded.wellFormed.nodup]
    exact (Finset.card_le_card inside).trans bounded.within
  exact (JsonValue.size_arr_le each).trans (Nat.add_le_add_right (Nat.mul_le_mul_right _ count) 2)

theorem size_retired {st : RatchetState Bytes32} (bounded : Bounded st) :
    (JsonValue.arr (st.retiredPeerDhKeys.map writeKey)).size ≤ maxRetiredDhKeys * 131 + 2 := by
  have each : ∀ v ∈ st.retiredPeerDhKeys.map writeKey, v.size ≤ 130 := by
    simp only [List.mem_map]
    rintro _ ⟨key, _, rfl⟩
    exact size_writeKey key
  have count : (st.retiredPeerDhKeys.map writeKey).length ≤ maxRetiredDhKeys := by
    rw [List.length_map]
    exact bounded.retired
  exact (JsonValue.size_arr_le each).trans (Nat.add_le_add_right (Nat.mul_le_mul_right _ count) 2)

def maxSavedBytes : Nat := 577000

theorem size_save {order : List String} {st : RatchetState Bytes32} (bounded : Bounded st)
    (iterates : IterationOrder st.skippedKeys order) : (utf8 (st.save order)).length ≤ maxSavedBytes := by
  have whole := JsonValue.size_obj (st.fields order)
  have root := size_writeKey st.rootKey
  have dhs := st.dhs.size_serialize
  have dhr := size_optional_writeKey st.dhr
  have sending := size_optional_writeKey st.sendingChainKey
  have receiving := size_optional_writeKey st.receivingChainKey
  have sent := JsonValue.size_u32 st.sendingMsgNumber
  have received := JsonValue.size_u32 st.receivingMsgNumber
  have previous := JsonValue.size_u32 st.previousSendingChainLength
  have bank := size_bank bounded iterates
  have ids := size_order bounded
  have retired := size_retired bounded
  have names : (RatchetState.names.map fun name => Json.byteLength (Json.quote name)).sum = 188 := by decide
  simp only [RatchetState.names, RatchetState.declared, List.map_cons, List.map_nil, List.sum_cons, List.sum_nil] at names
  simp only [RatchetState.fields, List.map_cons, List.map_nil, List.sum_cons, List.sum_nil, entrySize] at whole
  simp only [maxSkippedKeys, maxRetiredDhKeys] at bank ids retired
  rw [RatchetState.save, JsonValue.length_utf8_render]
  change size (.obj (st.fields order)) ≤ maxSavedBytes
  unfold maxSavedBytes
  exact whole.trans (by omega)

/-! ### A session kept as text -/

/-- The order in which a hash map gives its entries, whatever it holds. -/
structure HashOrder where
  order : (Finmap fun _ : String => Bytes32) → List String
  iterates : ∀ m, IterationOrder m (order m)

inductive Answer where
  | sent (result : Except RatchetError EncryptedMessage)
  | received (result : Except RatchetError Bytes)

section
variable {S : Type} [Primitives S]

def Call.answer (st : RatchetState S) : Call S → Answer
  | .encrypt plaintext associatedData nonce => .sent ((ratchetEncrypt plaintext associatedData nonce).exec st).1
  | .decrypt message associatedData rng => .received (ratchetDecrypt st message associatedData rng).1

def answers (st : RatchetState S) : List (Call S) → List Answer
  | [] => []
  | call :: rest => call.answer st :: answers (call.next st) rest

end

section
variable [Primitives Bytes32] [JsonText]

/-- Each call loads the session and saves what it leaves behind. -/
def callsOnText (text : String) : List (Call Bytes32 × HashOrder) → Option (List Answer × String)
  | [] => some ([], text)
  | (call, hash) :: rest => do
    let st ← RatchetState.load text
    let next := call.next st
    let (later, text) ← callsOnText (next.save (hash.order next.skippedKeys)) rest
    return (call.answer st :: later, text)

/-- Calls on a text that a session was saved as do what they do on the session. -/
theorem callsOnText_save (back : JsonText.TakesBack) {st : RatchetState Bytes32} (bounded : Bounded st)
    {order : List String} (iterates : IterationOrder st.skippedKeys order) (calls : List (Call Bytes32 × HashOrder)) :
    ∃ order', IterationOrder (runCalls st (calls.map Prod.fst)).skippedKeys order' ∧
      callsOnText (st.save order) calls =
        some (answers st (calls.map Prod.fst), (runCalls st (calls.map Prod.fst)).save order') ∧
      Bounded (runCalls st (calls.map Prod.fst)) := by
  induction calls generalizing st order with
  | nil => exact ⟨order, iterates, rfl, bounded⟩
  | cons first rest ih =>
    obtain ⟨call, hash⟩ := first
    obtain ⟨order', iterates', run, bounded'⟩ := ih (bounded.next call) (hash.iterates (call.next st).skippedKeys)
    refine ⟨order', iterates', ?_, bounded'⟩
    simp only [callsOnText, RatchetState.load_save back iterates, run, Option.bind_eq_bind, Option.bind_some]
    rfl

/-- A session that is saved after every call and loaded before the next answers as one that stays in
memory, and its text stays within the same bound for ever. -/
theorem session_on_text (back : JsonText.TakesBack) {st : RatchetState Bytes32} (initial : Initial st) (hash : HashOrder)
    (calls : List (Call Bytes32 × HashOrder)) :
    ∃ text, callsOnText (st.save (hash.order st.skippedKeys)) calls = some (answers st (calls.map Prod.fst), text) ∧
      RatchetState.load text = some (runCalls st (calls.map Prod.fst)) ∧ (utf8 text).length ≤ maxSavedBytes := by
  obtain ⟨order, iterates, run, bounded⟩ :=
    callsOnText_save back (initial_bounded initial) (hash.iterates st.skippedKeys) calls
  exact ⟨_, run, RatchetState.load_save back iterates, size_save bounded iterates⟩

end

abbrev openPrimitives : Primitives Bytes32 where
  zeroSalt := sampleBytes 32 0
  hkdfBlock ikm salt info block := (ikm.headD salt).map (· + UInt8.ofNat (info.length + block))
  aeadSeal _ _ plaintext _ := some plaintext
  aeadOpen _ _ ciphertext _ := some ciphertext
  x25519Pub privBytes := privBytes
  x25519 ourPriv peerPub := List.Vector.map₂ (· ^^^ ·) ourPriv peerPub
  wasContributory _ _ := true
  pbkdf2 _ _ _ := sampleBytes 32 0

noncomputable def someOrder : HashOrder where
  order m := m.keys.toList
  iterates m := ⟨Finset.nodup_toList _, fun key => by rw [Finset.mem_toList, Finmap.mem_keys]⟩

theorem session_on_text_sample :
    let st : RatchetState Bytes32 := initResponder (sampleBytes 32 1) ⟨sampleBytes 32 2, sampleBytes 32 2⟩
    let message : EncryptedMessage :=
      { header := { dhPub := Hex.encode (sampleBytes 32 3).toList, pn := 0, n := 1 }
        nonce := Hex.encode (sampleBytes 12 0).toList
        ciphertext := "07" }
    let calls : List (Call Bytes32) :=
      [.decrypt message [] ⟨sampleBytes 32 4, sampleBytes 32 0, sampleBytes 32 0⟩, .encrypt [8] [] (sampleBytes 12 1)]
    ∃ text, @callsOnText openPrimitives ⟨JsonValue.parse⟩ (st.save []) (calls.map (·, someOrder)) =
        some (@answers _ openPrimitives st calls, text) ∧
      @RatchetState.load ⟨JsonValue.parse⟩ text = some (@runCalls _ openPrimitives st calls) ∧
      (utf8 text).length ≤ maxSavedBytes := by
  intro st message calls
  have back : @JsonText.TakesBack ⟨JsonValue.parse⟩ := fun v plain => JsonValue.parse_render plain
  have initial : @Initial _ openPrimitives st := Or.inr ⟨_, _, rfl⟩
  have run := @session_on_text openPrimitives ⟨JsonValue.parse⟩ back st initial someOrder (calls.map (·, someOrder))
  have empty : someOrder.order st.skippedKeys = [] := by
    change (Finmap.keys (∅ : Finmap fun _ : String => Bytes32)).toList = []
    rw [Finmap.keys_empty, Finset.toList_empty]
  have same : (calls.map (·, someOrder)).map Prod.fst = calls := by
    rw [List.map_map]
    exact List.map_id calls
  rw [empty, same] at run
  exact run

end TrinoCore
