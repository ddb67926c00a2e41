import TrinoCore.Group.Model
import TrinoCore.Lib.Serde
import TrinoCore.Lib.Utf8

/-! The plaintext envelope inside a ratchet message, as in `envelope.rs`. -/

namespace TrinoCore

open Serde (struct orNull fieldsOf readStr readU32 readU64 readVec required optional withDefault)

/-- The text layer of `serde_json`: writing a value into bytes, and reading one from a text. -/
class SerdeJson where
  toVec : JsonValue → Option Bytes
  fromStr : String → Option JsonValue

/-- `serde_json` takes back what it prints, whatever the order of keys: it writes UTF-8, and reads
values of up to 127 levels. -/
structure SerdeJson.TakesBack [SerdeJson] : Prop where
  written : ∀ v, JsonValue.Plain 127 v → ∃ text, toVec v = some (utf8 text) ∧
    ∃ w, fromStr text = some w ∧ JsonValue.Same v w

inductive Envelope where
  /-- `id` is for dedup on resend; it is empty on legacy messages. -/
  | text (body id : String)
  | group (gid : String) (ep : UInt64) (body : String)
  | roster (roster : GroupRoster)
  | file (file : FileRef) (gid body : Option String)
  | call (call : String)

def FileRef.serialize (f : FileRef) : JsonValue :=
  struct [("url", some (.str f.url)), ("key", some (.str f.key)), ("sha256", some (.str f.sha256)),
    ("mime", some (.str f.mime)), ("name", some (.str f.name)), ("size", some (.num f.size)),
    ("thumb", f.thumb.map .str)]

def MemberBundle.serialize (m : MemberBundle) : JsonValue :=
  struct [("handle", some (.str m.handle)), ("ikSignPub", some (.str m.ikSignPub)),
    ("ikDhPub", some (.str m.ikDhPub)), ("nostrPub", some (.str m.nostrPub)), ("spkId", some (.num m.spkId.toUInt64)),
    ("spkPub", some (.str m.spkPub)), ("spkSig", some (.str m.spkSig)), ("idSig", some (.str m.idSig))]

def GroupRoster.serialize (r : GroupRoster) : JsonValue :=
  struct [("groupId", some (.str r.groupId)), ("name", some (.str r.name)),
    ("photo", some (orNull (r.photo.map FileRef.serialize))), ("adminPub", some (.str r.adminPub)),
    ("members", some (.arr (r.members.map MemberBundle.serialize))), ("epoch", some (.num r.epoch)), ("signature", some (.str r.signature))]

def Envelope.serialize : Envelope → JsonValue
  | .text body id =>
    struct [("ty", some (.str "text")), ("body", some (.str body)), ("id", if id.isEmpty then none else some (.str id))]
  | .group gid ep body =>
    struct [("ty", some (.str "grp")), ("gid", some (.str gid)), ("ep", some (.num ep)), ("body", some (.str body))]
  | .roster r => struct [("ty", some (.str "roster")), ("roster", some r.serialize)]
  | .file f gid body =>
    struct [("ty", some (.str "file")), ("file", some f.serialize), ("gid", gid.map .str), ("body", body.map .str)]
  | .call c => struct [("ty", some (.str "call")), ("call", some (.str c))]

/-! ### The derived decoding -/

def FileRef.deserialize (v : JsonValue) : Option FileRef :=
  (fieldsOf [("url", false), ("key", false), ("sha256", false), ("mime", false), ("name", false), ("size", false),
    ("thumb", true)] v).bind fun field => do
    let url ← required readStr (field "url")
    let key ← required readStr (field "key")
    let sha256 ← required readStr (field "sha256")
    let mime ← required readStr (field "mime")
    let name ← required readStr (field "name")
    let size ← required readU64 (field "size")
    let thumb ← optional readStr (field "thumb")
    return { url, key, sha256, mime, name, size, thumb }

def MemberBundle.deserialize (v : JsonValue) : Option MemberBundle :=
  (fieldsOf [("handle", false), ("ikSignPub", false), ("ikDhPub", false), ("nostrPub", false), ("spkId", false),
    ("spkPub", false), ("spkSig", false), ("idSig", true)] v).bind fun field => do
    let handle ← required readStr (field "handle")
    let ikSignPub ← required readStr (field "ikSignPub")
    let ikDhPub ← required readStr (field "ikDhPub")
    let nostrPub ← required readStr (field "nostrPub")
    let spkId ← required readU32 (field "spkId")
    let spkPub ← required readStr (field "spkPub")
    let spkSig ← required readStr (field "spkSig")
    let idSig ← withDefault readStr "" (field "idSig")
    return { handle, ikSignPub, ikDhPub, nostrPub, spkId, spkPub, spkSig, idSig }

def GroupRoster.deserialize (v : JsonValue) : Option GroupRoster :=
  (fieldsOf [("groupId", false), ("name", false), ("photo", false), ("adminPub", false), ("members", false),
    ("epoch", false), ("signature", false)] v).bind fun field => do
    let groupId ← required readStr (field "groupId")
    let name ← required readStr (field "name")
    let photo ← optional FileRef.deserialize (field "photo")
    let adminPub ← required readStr (field "adminPub")
    let members ← required (readVec MemberBundle.deserialize) (field "members")
    let epoch ← required readU64 (field "epoch")
    let signature ← required readStr (field "signature")
    return { groupId, name, photo, adminPub, members, epoch, signature }

/-- The fields of a variant, which ignores the keys it does not know. -/
def Envelope.variant (ty : String) (field : String → Option JsonValue) : Option Envelope :=
  match ty with
  | "text" => do
    let body ← required readStr (field "body")
    let id ← withDefault readStr "" (field "id")
    return .text body id
  | "grp" => do
    let gid ← required readStr (field "gid")
    let ep ← required readU64 (field "ep")
    let body ← required readStr (field "body")
    return .group gid ep body
  | "roster" => do
    let r ← required GroupRoster.deserialize (field "roster")
    return .roster r
  | "file" => do
    let f ← required FileRef.deserialize (field "file")
    let gid ← optional readStr (field "gid")
    let body ← optional readStr (field "body")
    return .file f gid body
  | "call" => do
    let c ← required readStr (field "call")
    return .call c
  | _ => none

/-- `val.get("ty").and_then(|v| v.as_str())`. -/
def tagOf (v : JsonValue) : Option String :=
  match v with
  | .obj entries => (entries.lookup "ty").bind readStr
  | _ => none

/-- `from_value`, of an object whose tag is a string. -/
def Envelope.fromValue (v : JsonValue) : Option Envelope :=
  match v, tagOf v with
  | .obj entries, some ty => Envelope.variant ty fun name => (entries.filter (·.1 ≠ "ty")).lookup name
  | _, _ => none

section
variable [SerdeJson]

def encodeEnvelope (e : Envelope) : Bytes := (SerdeJson.toVec e.serialize).getD []

/-- Anything that is not a known envelope is shown as text. -/
def decodeEnvelope (plaintext : Bytes) : Envelope :=
  let raw := Utf8.fromUtf8Lossy plaintext
  let parsed := do
    let v ← SerdeJson.fromStr raw
    let ty ← tagOf v
    if ty ∈ ["text", "grp", "roster", "file", "call"] then Envelope.fromValue v else none
  parsed.getD (.text raw "")

end
end TrinoCore
