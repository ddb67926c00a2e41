import TrinoCore.CallSignal.Model
import TrinoCore.Identity.Lifetime
import TrinoCore.Lib.DirectSerde

/-!
The payload of a vault as text: the derived encoding of the serialized structs, and what a payload of
this version or an older one opens as.
-/

namespace TrinoCore

open Serde (struct knownFieldsOf readStr readU32 readI64 writeI64 readVec required optional withDefault Lays)

namespace SerializedKeyPair

def serialize (s : SerializedKeyPair) : JsonValue :=
  struct [("priv", some (.str s.privHex)), ("pub", some (.str s.pubHex))]

def deserialize (v : JsonValue) : Option SerializedKeyPair :=
  (knownFieldsOf [("priv", false), ("pub", false)] v).bind fun field => do
    let privHex ← required readStr (field "priv")
    let pubHex ← required readStr (field "pub")
    return { privHex, pubHex }

end SerializedKeyPair

namespace SerializedSignedPreKey

def serialize (s : SerializedSignedPreKey) : JsonValue :=
  struct [("id", some (.num s.id.toUInt64)), ("keypair", some s.keypair.serialize), ("signature", some (.str s.signature)),
    ("createdAt", some (writeI64 s.createdAt)), ("retiredAt", s.retiredAt.map writeI64)]

def deserialize (v : JsonValue) : Option SerializedSignedPreKey :=
  (knownFieldsOf [("id", false), ("keypair", false), ("signature", false), ("createdAt", false), ("retiredAt", true)] v).bind
    fun field => do
      let id ← required readU32 (field "id")
      let keypair ← required SerializedKeyPair.deserialize (field "keypair")
      let signature ← required readStr (field "signature")
      let createdAt ← required readI64 (field "createdAt")
      let retiredAt ← optional readI64 (field "retiredAt")
      return { id, keypair, signature, createdAt, retiredAt }

end SerializedSignedPreKey

namespace SerializedOneTimePreKey

def serialize (s : SerializedOneTimePreKey) : JsonValue :=
  struct [("id", some (.num s.id.toUInt64)), ("keypair", some s.keypair.serialize)]

def deserialize (v : JsonValue) : Option SerializedOneTimePreKey :=
  (knownFieldsOf [("id", false), ("keypair", false)] v).bind fun field => do
    let id ← required readU32 (field "id")
    let keypair ← required SerializedKeyPair.deserialize (field "keypair")
    return { id, keypair }

end SerializedOneTimePreKey

namespace SerializedIdentity

def fields (s : SerializedIdentity) : List (String × JsonValue) :=
  [("ikSign", s.ikSign.serialize), ("ikDh", s.ikDh.serialize), ("nostr", s.nostr.serialize),
    ("signedPreKey", s.signedPreKey.serialize),
    ("oneTimePreKeys", .arr (s.oneTimePreKeys.map SerializedOneTimePreKey.serialize)), ("totpSecret", .str s.totpSecret),
    ("retiredSignedPreKeys", .arr (s.retiredSignedPreKeys.map SerializedSignedPreKey.serialize))]

def serialize (s : SerializedIdentity) : JsonValue := .obj s.fields

def declared : List (String × Bool) :=
  [("ikSign", false), ("ikDh", false), ("nostr", false), ("signedPreKey", false), ("oneTimePreKeys", false),
    ("totpSecret", false), ("retiredSignedPreKeys", true)]

def names : List String := declared.map Prod.fst

def deserialize (v : JsonValue) : Option SerializedIdentity :=
  (knownFieldsOf declared v).bind fun field => do
    let ikSign ← required SerializedKeyPair.deserialize (field "ikSign")
    let ikDh ← required SerializedKeyPair.deserialize (field "ikDh")
    let nostr ← required SerializedKeyPair.deserialize (field "nostr")
    let signedPreKey ← required SerializedSignedPreKey.deserialize (field "signedPreKey")
    let oneTimePreKeys ← required (readVec SerializedOneTimePreKey.deserialize) (field "oneTimePreKeys")
    let totpSecret ← required readStr (field "totpSecret")
    let retiredSignedPreKeys ←
      withDefault (readVec SerializedSignedPreKey.deserialize) [] (field "retiredSignedPreKeys")
    return { ikSign, ikDh, nostr, signedPreKey, oneTimePreKeys, totpSecret, retiredSignedPreKeys }

end SerializedIdentity

theorem SerializedKeyPair.deserialize_serialize (s : SerializedKeyPair) : deserialize s.serialize = some s := by
  unfold deserialize serialize
  rw [Serde.knownFieldsOf_struct _ (by simp)]
  simp [List.lookup_cons]

theorem SerializedSignedPreKey.deserialize_serialize (s : SerializedSignedPreKey) : deserialize s.serialize = some s := by
  unfold deserialize serialize
  rw [Serde.knownFieldsOf_struct _ (by simp)]
  simp [List.lookup_cons, SerializedKeyPair.deserialize_serialize,
    Serde.optional_map Serde.readI64_writeI64 Serde.writeI64_ne_null]

theorem SerializedOneTimePreKey.deserialize_serialize (s : SerializedOneTimePreKey) : deserialize s.serialize = some s := by
  unfold deserialize serialize
  rw [Serde.knownFieldsOf_struct _ (by simp)]
  simp [List.lookup_cons, SerializedKeyPair.deserialize_serialize]

theorem SerializedIdentity.deserialize_lays {payload : SerializedIdentity} {lacking : List String}
    {entries : List (String × JsonValue)} (defaulted : ∀ name ∈ lacking, (name, true) ∈ declared)
    (lays : Lays names (payload.fields.filter fun field => field.1 ∉ lacking) entries) :
    deserialize (.obj entries) = some { payload with
      retiredSignedPreKeys := if "retiredSignedPreKeys" ∈ lacking then [] else payload.retiredSignedPreKeys } := by
  have nodup : names.Nodup := by decide
  obtain ⟨field, known, written⟩ := lays.lookup (show (payload.fields.map Prod.fst).Nodup from nodup)
  have kept : ∀ name, (name, true) ∉ declared → name ∉ lacking := fun name always gone => always (defaulted name gone)
  have here : ∀ name ∈ names, name ∉ lacking → field name = payload.fields.lookup name := by
    intro name present kept
    rw [written name present, if_neg kept]
  have retired_field : withDefault (readVec SerializedSignedPreKey.deserialize) [] (field "retiredSignedPreKeys") =
      some (if "retiredSignedPreKeys" ∈ lacking then [] else payload.retiredSignedPreKeys) := by
    rw [written _ (by decide)]
    by_cases gone : "retiredSignedPreKeys" ∈ lacking
    · simp [gone]
    · simp [gone, fields, List.lookup_cons, Serde.readVec_map SerializedSignedPreKey.deserialize_serialize]
  unfold deserialize
  rw [known]
  simp only [Option.bind_some, retired_field]
  rw [here "ikSign" (by decide) (kept _ (by decide)), here "ikDh" (by decide) (kept _ (by decide)),
    here "nostr" (by decide) (kept _ (by decide)), here "signedPreKey" (by decide) (kept _ (by decide)),
    here "oneTimePreKeys" (by decide) (kept _ (by decide)), here "totpSecret" (by decide) (kept _ (by decide))]
  simp [fields, List.lookup_cons, SerializedKeyPair.deserialize_serialize, SerializedSignedPreKey.deserialize_serialize,
    Serde.readVec_map SerializedOneTimePreKey.deserialize_serialize]

/-! ### Opening -/

def sampleRotated : Identity := ownerStep (S := FreeKey) sampleIdentity (.rotate ⟨spkRotationSecs, sampleBytes 32 15⟩)

theorem sampleRotated_lived : Lived FreeKey sampleRotated := by
  refine .event (.born sampleIdentity_created) _ ⟨?_, fun r present => (by cases present), fun _ => by decide⟩
  unfold DifferenceFits
  decide

end TrinoCore
