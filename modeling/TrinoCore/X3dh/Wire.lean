import TrinoCore.Ratchet.Saved
import TrinoCore.X3dh.Model

/-!
What peers exchange, as text: bundles, initial messages and ratchet messages in their derived encoding.

The other side may be another implementation, so a text stands for a message whatever its layout and the
order of its keys, and whether an absent option is written as null or not at all.
-/

namespace TrinoCore

open Serde (orNull knownFieldsOf readStr readU32 required optional withDefault Conveys)

/-! ### The derived encoding -/

namespace PublicBundle

def fields (b : PublicBundle) : List (String × JsonValue) :=
  [("ikSignPub", .str b.ikSignPub), ("ikDhPub", .str b.ikDhPub), ("nostrPub", .str b.nostrPub),
    ("spkId", .num b.spkId.toUInt64), ("spkPub", .str b.spkPub), ("spkSig", .str b.spkSig),
    ("opkId", orNull (b.opkId.map fun id => .num id.toUInt64)), ("opkPub", orNull (b.opkPub.map .str)),
    ("idSig", .str b.idSig)]

def serialize (b : PublicBundle) : JsonValue := .obj b.fields

def declared : List (String × Bool) :=
  [("ikSignPub", false), ("ikDhPub", false), ("nostrPub", false), ("spkId", false), ("spkPub", false), ("spkSig", false),
    ("opkId", false), ("opkPub", false), ("idSig", true)]

/-- The binding signature is empty on legacy bundles. -/
def deserialize (v : JsonValue) : Option PublicBundle :=
  (knownFieldsOf declared v).bind fun field => do
    let ikSignPub ← required readStr (field "ikSignPub")
    let ikDhPub ← required readStr (field "ikDhPub")
    let nostrPub ← required readStr (field "nostrPub")
    let spkId ← required readU32 (field "spkId")
    let spkPub ← required readStr (field "spkPub")
    let spkSig ← required readStr (field "spkSig")
    let opkId ← optional readU32 (field "opkId")
    let opkPub ← optional readStr (field "opkPub")
    let idSig ← withDefault readStr "" (field "idSig")
    return { ikSignPub, ikDhPub, nostrPub, spkId, spkPub, spkSig, opkId, opkPub, idSig }

def names : List String := declared.map Prod.fst

end PublicBundle

namespace InitialMessage

def fields (msg : InitialMessage) : List (String × JsonValue) :=
  [("ikDhPub", .str msg.ikDhPub), ("ekPub", .str msg.ekPub), ("spkId", .num msg.spkId.toUInt64),
    ("opkId", orNull (msg.opkId.map fun id => .num id.toUInt64))]

def serialize (msg : InitialMessage) : JsonValue := .obj msg.fields

def declared : List (String × Bool) := [("ikDhPub", false), ("ekPub", false), ("spkId", false), ("opkId", false)]

def deserialize (v : JsonValue) : Option InitialMessage :=
  (knownFieldsOf declared v).bind fun field => do
    let ikDhPub ← required readStr (field "ikDhPub")
    let ekPub ← required readStr (field "ekPub")
    let spkId ← required readU32 (field "spkId")
    let opkId ← optional readU32 (field "opkId")
    return { ikDhPub, ekPub, spkId, opkId }

def names : List String := declared.map Prod.fst

end InitialMessage

namespace MessageHeader

def fields (header : MessageHeader) : List (String × JsonValue) :=
  [("dhPub", .str header.dhPub), ("pn", .num header.pn.toUInt64), ("n", .num header.n.toUInt64)]

def serialize (header : MessageHeader) : JsonValue := .obj header.fields

def declared : List (String × Bool) := [("dhPub", false), ("pn", false), ("n", false)]

def deserialize (v : JsonValue) : Option MessageHeader :=
  (knownFieldsOf declared v).bind fun field => do
    let dhPub ← required readStr (field "dhPub")
    let pn ← required readU32 (field "pn")
    let n ← required readU32 (field "n")
    return { dhPub, pn, n }

def names : List String := declared.map Prod.fst

end MessageHeader

namespace EncryptedMessage

def fieldsWith (header : JsonValue) (msg : EncryptedMessage) : List (String × JsonValue) :=
  [("header", header), ("nonce", .str msg.nonce), ("ciphertext", .str msg.ciphertext)]

def serialize (msg : EncryptedMessage) : JsonValue := .obj (msg.fieldsWith msg.header.serialize)

def declared : List (String × Bool) := [("header", false), ("nonce", false), ("ciphertext", false)]

def deserialize (v : JsonValue) : Option EncryptedMessage :=
  (knownFieldsOf declared v).bind fun field => do
    let header ← required MessageHeader.deserialize (field "header")
    let nonce ← required readStr (field "nonce")
    let ciphertext ← required readStr (field "ciphertext")
    return { header, nonce, ciphertext }

def names : List String := declared.map Prod.fst

end EncryptedMessage

/-! ### What a value stands for -/

def PublicBundle.Stands (b : PublicBundle) (v : JsonValue) : Prop := Conveys names b.fields v

def InitialMessage.Stands (msg : InitialMessage) (v : JsonValue) : Prop := Conveys names msg.fields v

def EncryptedMessage.Stands (msg : EncryptedMessage) (v : JsonValue) : Prop :=
  ∃ header, Conveys MessageHeader.names msg.header.fields header ∧ Conveys names (msg.fieldsWith header) v

theorem readU32_ne_null (n : UInt32) : JsonValue.num n.toUInt64 ≠ .null := nofun

theorem optional_opkId (opkId : Option UInt32) :
    optional readU32 (some (orNull (opkId.map fun id => .num id.toUInt64))) = some opkId :=
  Serde.optional_orNull Serde.readU32_num readU32_ne_null opkId

theorem optional_opkPub (opkPub : Option String) : optional readStr (some (orNull (opkPub.map .str))) = some opkPub :=
  Serde.optional_orNull Serde.readStr_str (fun _ => nofun) opkPub

theorem PublicBundle.deserialize_stands {b : PublicBundle} {v : JsonValue} (stands : b.Stands v) : deserialize v = some b := by
  have nodup : (b.fields.map Prod.fst).Nodup := by simp [fields]
  obtain ⟨field, known, here, opt⟩ := Serde.Conveys.knownFieldsOf stands nodup
  unfold deserialize
  rw [known]
  simp only [Option.bind_some]
  rw [opt readU32 "opkId" (by decide), opt readStr "opkPub" (by decide), here "ikSignPub" (by decide) (by simp [fields]),
    here "ikDhPub" (by decide) (by simp [fields, List.lookup_cons]),
    here "nostrPub" (by decide) (by simp [fields, List.lookup_cons]),
    here "spkId" (by decide) (by simp [fields, List.lookup_cons]),
    here "spkPub" (by decide) (by simp [fields, List.lookup_cons]),
    here "spkSig" (by decide) (by simp [fields, List.lookup_cons]),
    here "idSig" (by decide) (by simp [fields, List.lookup_cons])]
  simp [fields, List.lookup_cons, optional_opkId, optional_opkPub]

theorem InitialMessage.deserialize_stands {msg : InitialMessage} {v : JsonValue} (stands : msg.Stands v) :
    deserialize v = some msg := by
  have nodup : (msg.fields.map Prod.fst).Nodup := by simp [fields]
  obtain ⟨field, known, here, opt⟩ := Serde.Conveys.knownFieldsOf stands nodup
  unfold deserialize
  rw [known]
  simp only [Option.bind_some]
  rw [opt readU32 "opkId" (by decide), here "ikDhPub" (by decide) (by simp [fields]),
    here "ekPub" (by decide) (by simp [fields, List.lookup_cons]),
    here "spkId" (by decide) (by simp [fields, List.lookup_cons])]
  simp [fields, List.lookup_cons, optional_opkId]

theorem MessageHeader.deserialize_conveyed {header : MessageHeader} {v : JsonValue}
    (conveys : Conveys names header.fields v) : deserialize v = some header := by
  have nodup : (header.fields.map Prod.fst).Nodup := by simp [fields]
  obtain ⟨field, known, here, _⟩ := Serde.Conveys.knownFieldsOf conveys nodup
  unfold deserialize
  rw [known]
  simp only [Option.bind_some]
  rw [here "dhPub" (by decide) (by simp [fields]), here "pn" (by decide) (by simp [fields, List.lookup_cons]),
    here "n" (by decide) (by simp [fields, List.lookup_cons])]
  simp [fields, List.lookup_cons]

theorem EncryptedMessage.deserialize_stands {msg : EncryptedMessage} {v : JsonValue} (stands : msg.Stands v) :
    deserialize v = some msg := by
  obtain ⟨header, conveyed, conveys⟩ := stands
  have object : header ≠ .null := by
    obtain ⟨_, entries, rfl, _⟩ := conveyed
    nofun
  have nodup : ((msg.fieldsWith header).map Prod.fst).Nodup := by simp [fieldsWith]
  obtain ⟨field, known, here, _⟩ := Serde.Conveys.knownFieldsOf conveys nodup
  unfold deserialize
  rw [known]
  simp only [Option.bind_some]
  rw [here "header" (by decide) (by simpa [fieldsWith] using object),
    here "nonce" (by decide) (by simp [fieldsWith, List.lookup_cons]),
    here "ciphertext" (by decide) (by simp [fieldsWith, List.lookup_cons])]
  simp [fieldsWith, List.lookup_cons, MessageHeader.deserialize_conveyed conveyed]

theorem PublicBundle.stands_serialize (b : PublicBundle) : b.Stands b.serialize :=
  Serde.conveys_self (by simp [fields, names, declared])

theorem InitialMessage.stands_serialize (msg : InitialMessage) : msg.Stands msg.serialize :=
  Serde.conveys_self (by simp [fields, names, declared])

theorem EncryptedMessage.stands_serialize (msg : EncryptedMessage) : msg.Stands msg.serialize :=
  ⟨_, Serde.conveys_self (by simp [MessageHeader.fields, MessageHeader.names, MessageHeader.declared]),
    Serde.conveys_self (by simp [fieldsWith, names, declared])⟩

theorem plain_opkId {depth : Nat} (opkId : Option UInt32) :
    JsonValue.Plain depth (orNull (opkId.map fun id => .num id.toUInt64)) := by
  cases opkId with
  | none => exact .null
  | some id => exact .num _

theorem plain_opkPub {depth : Nat} (opkPub : Option String) : JsonValue.Plain depth (orNull (opkPub.map .str)) := by
  cases opkPub with
  | none => exact .null
  | some text => exact .str text

theorem PublicBundle.plain_serialize (b : PublicBundle) : JsonValue.Plain 127 b.serialize := by
  refine .obj (by simp [fields]) ?_
  simp [fields, JsonValue.Plain.str, JsonValue.Plain.num, plain_opkId, plain_opkPub]

theorem InitialMessage.plain_serialize (msg : InitialMessage) : JsonValue.Plain 127 msg.serialize := by
  refine .obj (by simp [fields]) ?_
  simp [fields, JsonValue.Plain.str, JsonValue.Plain.num, plain_opkId]

theorem EncryptedMessage.plain_serialize (msg : EncryptedMessage) : JsonValue.Plain 127 msg.serialize := by
  have header : JsonValue.Plain 126 msg.header.serialize := by
    refine .obj (by simp [MessageHeader.fields]) ?_
    simp [MessageHeader.fields, JsonValue.Plain.str, JsonValue.Plain.num]
  refine .obj (by simp [fieldsWith]) ?_
  simp [fieldsWith, JsonValue.Plain.str, header]

/-! ### Text -/

section
variable [JsonText]

/-- A text that is read as a value which stands for something. -/
def TextOf (stands : JsonValue → Prop) (text : String) : Prop := ∃ v, JsonText.read text = some v ∧ stands v

def PublicBundle.fromText (text : String) : Option PublicBundle := (JsonText.read text).bind deserialize

def InitialMessage.fromText (text : String) : Option InitialMessage := (JsonText.read text).bind deserialize

def EncryptedMessage.fromText (text : String) : Option EncryptedMessage := (JsonText.read text).bind deserialize

theorem TextOf.read {α : Type} {stands : JsonValue → Prop} {text : String} (written : TextOf stands text)
    {deserialize : JsonValue → Option α} {a : α} (inverse : ∀ v, stands v → deserialize v = some a) :
    (JsonText.read text).bind deserialize = some a := by
  obtain ⟨v, read, stand⟩ := written
  rw [read, Option.bind_some, inverse v stand]

theorem TextOf.printed (back : JsonText.TakesBack) {stands : JsonValue → Prop} {v : JsonValue} (stand : stands v)
    (plain : JsonValue.Plain 127 v) : TextOf stands v.render := ⟨v, back v plain, stand⟩

theorem PublicBundle.textOf (back : JsonText.TakesBack) (b : PublicBundle) : TextOf b.Stands b.serialize.render :=
  .printed back b.stands_serialize b.plain_serialize

theorem InitialMessage.textOf (back : JsonText.TakesBack) (msg : InitialMessage) : TextOf msg.Stands msg.serialize.render :=
  .printed back msg.stands_serialize msg.plain_serialize

theorem EncryptedMessage.textOf (back : JsonText.TakesBack) (msg : EncryptedMessage) : TextOf msg.Stands msg.serialize.render :=
  .printed back msg.stands_serialize msg.plain_serialize

end
end TrinoCore
