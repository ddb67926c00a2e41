import TrinoCore.CallSignal.Model
import TrinoCore.Lib.DirectSerde
import TrinoCore.Ratchet.Reloading

/-!
A session as text: the derived encoding of `RatchetState`, and what a saved session loads as.

The keys of the bank stand in the text as the hash map gives them.
-/

namespace TrinoCore

open Serde (struct orNull knownFieldsOf readStr readU32 readVec readMap readByteVec writeBytes writeMap required optional
  withDefault Lays IterationOrder)

/-- `serde_json` takes back what it prints: it reads values of up to 127 levels. -/
def JsonText.TakesBack [JsonText] : Prop := ∀ v, JsonValue.Plain 127 v → JsonText.read v.render = some v

def KeyPair.serialize (kp : KeyPair) : JsonValue :=
  struct [("priv_bytes", some (writeBytes kp.privBytes.toList)), ("pub_bytes", some (writeBytes kp.pubBytes.toList))]

def KeyPair.deserialize (v : JsonValue) : Option KeyPair :=
  (knownFieldsOf [("priv_bytes", false), ("pub_bytes", false)] v).bind fun field => do
    let privBytes ← required (readByteVec 32) (field "priv_bytes")
    let pubBytes ← required (readByteVec 32) (field "pub_bytes")
    return { privBytes, pubBytes }

def writeKey (key : Bytes32) : JsonValue := writeBytes key.toList

namespace RatchetState

def fields (order : List String) (st : RatchetState Bytes32) : List (String × JsonValue) :=
  [("root_key", writeKey st.rootKey), ("dhs", st.dhs.serialize), ("dhr", orNull (st.dhr.map writeKey)),
    ("sending_chain_key", orNull (st.sendingChainKey.map writeKey)),
    ("receiving_chain_key", orNull (st.receivingChainKey.map writeKey)),
    ("sending_msg_number", .num st.sendingMsgNumber.toUInt64), ("receiving_msg_number", .num st.receivingMsgNumber.toUInt64),
    ("previous_sending_chain_length", .num st.previousSendingChainLength.toUInt64),
    ("skipped_keys", writeMap writeKey order st.skippedKeys),
    ("skipped_key_order", .arr (st.skippedKeyOrder.map .str)),
    ("retired_peer_dh_keys", .arr (st.retiredPeerDhKeys.map writeKey))]

def serialize (order : List String) (st : RatchetState Bytes32) : JsonValue := .obj (st.fields order)

/-- The names in the order of declaration, and which of them have a default. -/
def declared : List (String × Bool) :=
  [("root_key", false), ("dhs", false), ("dhr", false), ("sending_chain_key", false), ("receiving_chain_key", false),
    ("sending_msg_number", false), ("receiving_msg_number", false), ("previous_sending_chain_length", false),
    ("skipped_keys", false), ("skipped_key_order", true), ("retired_peer_dh_keys", true)]

def names : List String := declared.map Prod.fst

def deserialize (v : JsonValue) : Option (RatchetState Bytes32) :=
  (knownFieldsOf declared v).bind fun field => do
    let rootKey ← required (readByteVec 32) (field "root_key")
    let dhs ← required KeyPair.deserialize (field "dhs")
    let dhr ← optional (readByteVec 32) (field "dhr")
    let sendingChainKey ← optional (readByteVec 32) (field "sending_chain_key")
    let receivingChainKey ← optional (readByteVec 32) (field "receiving_chain_key")
    let sendingMsgNumber ← required readU32 (field "sending_msg_number")
    let receivingMsgNumber ← required readU32 (field "receiving_msg_number")
    let previousSendingChainLength ← required readU32 (field "previous_sending_chain_length")
    let skippedKeys ← required (readMap (readByteVec 32)) (field "skipped_keys")
    let skippedKeyOrder ← withDefault (readVec readStr) [] (field "skipped_key_order")
    let retiredPeerDhKeys ← withDefault (readVec (readByteVec 32)) [] (field "retired_peer_dh_keys")
    return { rootKey, dhs, dhr, sendingChainKey, receivingChainKey, sendingMsgNumber, receivingMsgNumber,
             previousSendingChainLength, skippedKeys, skippedKeyOrder, retiredPeerDhKeys }

def save (order : List String) (st : RatchetState Bytes32) : String := (st.serialize order).render

def load [JsonText] (text : String) : Option (RatchetState Bytes32) := (JsonText.read text).bind deserialize

end RatchetState

/-- A session as it loads from a text that lacks these fields. -/
def withDefaults {S : Type} (lacking : List String) (st : RatchetState S) : RatchetState S :=
  { st with
    skippedKeyOrder := if "skipped_key_order" ∈ lacking then [] else st.skippedKeyOrder
    retiredPeerDhKeys := if "retired_peer_dh_keys" ∈ lacking then [] else st.retiredPeerDhKeys }

theorem withDefaults_both {S : Type} (st : RatchetState S) :
    withDefaults ["skipped_key_order", "retired_peer_dh_keys"] st = reloaded st := by
  simp [withDefaults, reloaded]

theorem readByteVec_writeKey (key : Bytes32) : readByteVec 32 (writeKey key) = some key := Serde.readByteVec_writeBytes key

theorem optional_writeKey (key : Option Bytes32) : optional (readByteVec 32) (some (orNull (key.map writeKey))) = some key :=
  Serde.optional_orNull readByteVec_writeKey (fun _ => Serde.writeBytes_ne_null _) key

theorem KeyPair.deserialize_serialize (kp : KeyPair) : KeyPair.deserialize kp.serialize = some kp := by
  unfold deserialize serialize
  rw [Serde.knownFieldsOf_struct _ (by simp)]
  simp [List.lookup_cons]

theorem RatchetState.keys_fields (order : List String) (st : RatchetState Bytes32) :
    (st.fields order).map Prod.fst = names := rfl

/-- A session loads from any object that holds its fields, short of those with a default. -/
theorem RatchetState.deserialize_lays {order lacking : List String} {st : RatchetState Bytes32}
    {entries : List (String × JsonValue)} (iterates : IterationOrder st.skippedKeys order)
    (defaulted : ∀ name ∈ lacking, (name, true) ∈ declared)
    (lays : Lays names ((st.fields order).filter fun field => field.1 ∉ lacking) entries) :
    deserialize (.obj entries) = some (withDefaults lacking st) := by
  have nodup : ((st.fields order).map Prod.fst).Nodup := by
    rw [keys_fields]
    decide
  obtain ⟨field, known, written⟩ := lays.lookup nodup
  have here : ∀ name ∈ names, name ∉ lacking → field name = (st.fields order).lookup name := by
    intro name present kept
    rw [written name present, if_neg kept]
  have kept : ∀ name, (name, true) ∉ declared → name ∉ lacking := fun name always gone => always (defaulted name gone)
  have order_field : withDefault (readVec readStr) [] (field "skipped_key_order") =
      some (withDefaults lacking st).skippedKeyOrder := by
    rw [written _ (by decide)]
    by_cases gone : "skipped_key_order" ∈ lacking
    · simp [gone, withDefaults]
    · simp [gone, withDefaults, fields, List.lookup_cons, Serde.readVec_map Serde.readStr_str]
  have retired_field : withDefault (readVec (readByteVec 32)) [] (field "retired_peer_dh_keys") =
      some (withDefaults lacking st).retiredPeerDhKeys := by
    rw [written _ (by decide)]
    by_cases gone : "retired_peer_dh_keys" ∈ lacking
    · simp [gone, withDefaults]
    · simp [gone, withDefaults, fields, List.lookup_cons, Serde.readVec_map readByteVec_writeKey]
  unfold deserialize
  rw [known]
  simp only [Option.bind_some, order_field, retired_field]
  rw [here "root_key" (by decide) (kept _ (by decide)), here "dhs" (by decide) (kept _ (by decide)),
    here "dhr" (by decide) (kept _ (by decide)), here "sending_chain_key" (by decide) (kept _ (by decide)),
    here "receiving_chain_key" (by decide) (kept _ (by decide)), here "sending_msg_number" (by decide) (kept _ (by decide)),
    here "receiving_msg_number" (by decide) (kept _ (by decide)),
    here "previous_sending_chain_length" (by decide) (kept _ (by decide)), here "skipped_keys" (by decide) (kept _ (by decide))]
  simp [fields, List.lookup_cons, readByteVec_writeKey, KeyPair.deserialize_serialize, optional_writeKey,
    Serde.readMap_writeMap readByteVec_writeKey iterates, withDefaults]

/-! ### Text -/

theorem KeyPair.plain_serialize {depth : Nat} (kp : KeyPair) : JsonValue.Plain (depth + 2) kp.serialize := by
  refine Serde.plain_struct (by simp) ?_
  simp only [List.forall_mem_cons, List.not_mem_nil, false_implies, implies_true, and_true, Option.mem_some_iff, forall_eq']
  exact ⟨Serde.plain_writeBytes _, Serde.plain_writeBytes _⟩

theorem plain_orNull_writeKey {depth : Nat} (key : Option Bytes32) :
    JsonValue.Plain (depth + 1) (orNull (key.map writeKey)) := by
  cases key with
  | none => exact .null
  | some key => exact Serde.plain_writeBytes _

theorem RatchetState.plain_serialize {order : List String} {st : RatchetState Bytes32}
    (iterates : IterationOrder st.skippedKeys order) : JsonValue.Plain 127 (st.serialize order) := by
  refine .obj ?_ ?_
  · rw [keys_fields]
    decide
  · simp only [fields, List.forall_mem_cons, List.not_mem_nil, false_implies, implies_true, and_true]
    refine ⟨Serde.plain_writeBytes _, st.dhs.plain_serialize, plain_orNull_writeKey _, plain_orNull_writeKey _,
      plain_orNull_writeKey _, .num _, .num _, .num _, Serde.plain_writeMap (fun _ => Serde.plain_writeBytes _) iterates, ?_, ?_⟩
    · apply JsonValue.Plain.arr
      simp only [List.mem_map]
      rintro _ ⟨keyId, _, rfl⟩
      exact .str keyId
    · apply JsonValue.Plain.arr
      simp only [List.mem_map]
      rintro _ ⟨key, _, rfl⟩
      exact Serde.plain_writeBytes _

section
variable [JsonText]

theorem RatchetState.load_render (back : JsonText.TakesBack) {v : JsonValue} (plain : JsonValue.Plain 127 v) :
    load v.render = deserialize v := by
  rw [load, back v plain, Option.bind_some]

theorem RatchetState.load_save (back : JsonText.TakesBack) {order : List String} {st : RatchetState Bytes32}
    (iterates : IterationOrder st.skippedKeys order) : load (st.save order) = some st := by
  rw [save, load_render back (plain_serialize iterates), serialize]
  have defaulted : ∀ name ∈ ([] : List String), (name, true) ∈ declared := fun name absent => nomatch absent
  apply deserialize_lays iterates defaulted
  have whole : (st.fields order).filter (fun field => field.1 ∉ ([] : List String)) = st.fields order :=
    List.filter_eq_self.mpr fun field _ => by simp
  rw [whole]
  apply Serde.lays_self
  rw [← keys_fields order st]
  exact fun field present => List.mem_map_of_mem present

/-- A saved session loads as it was, and from any text that is read as an object with its fields, in whatever
order and among whatever other entries, as it was but for the fields with a default that the text lacks. -/
theorem saved_session_loads (back : JsonText.TakesBack) {order : List String} {st : RatchetState Bytes32}
    (iterates : IterationOrder st.skippedKeys order) :
    RatchetState.load (st.save order) = some st ∧
      ∀ lacking entries text, (∀ name ∈ lacking, (name, true) ∈ RatchetState.declared) →
        Lays RatchetState.names ((st.fields order).filter fun field => field.1 ∉ lacking) entries →
        JsonText.read text = some (.obj entries) → RatchetState.load text = some (withDefaults lacking st) := by
  refine ⟨RatchetState.load_save back iterates, fun lacking entries text defaulted lays read => ?_⟩
  rw [RatchetState.load, read, Option.bind_some]
  exact RatchetState.deserialize_lays iterates defaulted lays

end

def sampleSaved : RatchetState Bytes32 :=
  { initResponder (sampleBytes 32 1) ⟨sampleBytes 32 2, sampleBytes 32 3⟩ with
    skippedKeys := (∅ : Finmap (fun _ : String => Bytes32)).insert "b" (sampleBytes 32 4)
    skippedKeyOrder := ["b"]
    retiredPeerDhKeys := [sampleBytes 32 5] }

/-- Its fields back to front behind a key of some other version, without the two later lists. -/
def sampleOlder : List (String × JsonValue) :=
  ("version", .num 2) :: ((sampleSaved.fields ["b"]).filter fun field =>
    field.1 ∉ ["skipped_key_order", "retired_peer_dh_keys"]).reverse

theorem saved_session_loads_sample :
    @RatchetState.load ⟨JsonValue.parse⟩ (sampleSaved.save ["b"]) = some sampleSaved ∧
      @RatchetState.load ⟨JsonValue.parse⟩ (JsonValue.obj sampleOlder).render = some (reloaded sampleSaved) := by
  have back : @JsonText.TakesBack ⟨JsonValue.parse⟩ := fun v plain => JsonValue.parse_render plain
  have iterates : IterationOrder sampleSaved.skippedKeys ["b"] := by
    refine ⟨List.nodup_singleton "b", fun key => ?_⟩
    simp [sampleSaved, Finmap.notMem_empty]
  obtain ⟨whole, older⟩ := @saved_session_loads ⟨JsonValue.parse⟩ back ["b"] sampleSaved iterates
  refine ⟨whole, ?_⟩
  rw [← withDefaults_both]
  apply older _ sampleOlder
  · decide
  · unfold sampleOlder Lays
    rw [List.filter_cons_of_neg (by decide), List.filter_eq_self.mpr]
    · exact List.reverse_perm _
    · intro field present
      have written := List.mem_of_mem_filter (List.mem_reverse.mp present)
      exact decide_eq_true (RatchetState.keys_fields ["b"] sampleSaved ▸ List.mem_map_of_mem written)
  · cases RatchetState.plain_serialize iterates with
    | obj _ plain =>
      refine back _ (.obj (by decide) (List.forall_mem_cons.mpr ⟨.num 2, fun entry present => ?_⟩))
      exact plain entry (List.mem_of_mem_filter (List.mem_reverse.mp present))

end TrinoCore
