import TrinoCore.Envelope.Model

namespace TrinoCore

open Serde JsonValue

theorem deserialize_fileRef (f : FileRef) : FileRef.deserialize f.serialize = some f := by
  unfold FileRef.deserialize FileRef.serialize
  rw [fieldsOf_struct _ (by simp)]
  simp [List.lookup_cons]

theorem deserialize_memberBundle (m : MemberBundle) : MemberBundle.deserialize m.serialize = some m := by
  unfold MemberBundle.deserialize MemberBundle.serialize
  rw [fieldsOf_struct _ (by simp)]
  simp [List.lookup_cons]

theorem deserialize_groupRoster (r : GroupRoster) : GroupRoster.deserialize r.serialize = some r := by
  have members := readVec_map deserialize_memberBundle r.members
  have photo := optional_orNull deserialize_fileRef (fun f => nofun) r.photo
  unfold GroupRoster.deserialize GroupRoster.serialize
  rw [fieldsOf_struct _ (by simp)]
  simp [List.lookup_cons, members, photo]

section
variable {fields : List (String × Option JsonValue)}

theorem tagOf_struct (ty : String) (nodup : ("ty" :: fields.map Prod.fst).Nodup) :
    tagOf (struct (("ty", some (.str ty)) :: fields)) = some ty := by
  unfold tagOf struct
  simp only [lookup_filterMap (("ty", some (.str ty)) :: fields) nodup]
  simp

theorem fromValue_struct {ty : String} (nodup : ("ty" :: fields.map Prod.fst).Nodup) :
    Envelope.fromValue (struct (("ty", some (.str ty)) :: fields)) =
      Envelope.variant ty fun name => (fields.lookup name).join := by
  have tag := tagOf_struct ty nodup
  unfold Envelope.fromValue struct at *
  simp only [tag]
  congr
  funext name
  by_cases same : name = "ty"
  · have absent : fields.lookup name = none := by
      rw [List.lookup_eq_none_iff]
      intro field present
      simpa [same] using fun equal => (List.nodup_cons.mp nodup).1 (List.mem_map.mpr ⟨field, present, equal.symm⟩)
    rw [absent, same, lookup_filter_self]
    rfl
  · rw [lookup_filter_ne same, lookup_filterMap (("ty", some (.str ty)) :: fields) nodup, List.lookup_cons,
      beq_eq_false_iff_ne.mpr same]

end

theorem fromValue_serialize (e : Envelope) : Envelope.fromValue e.serialize = some e := by
  cases e with
  | text body id =>
    rw [Envelope.serialize, fromValue_struct (by simp)]
    by_cases empty : id = ""
    · simp [Envelope.variant, List.lookup_cons, empty]
    · simp [Envelope.variant, List.lookup_cons, empty]
  | group gid ep body =>
    rw [Envelope.serialize, fromValue_struct (by simp)]
    simp [Envelope.variant, List.lookup_cons]
  | roster r =>
    rw [Envelope.serialize, fromValue_struct (by simp)]
    simp [Envelope.variant, deserialize_groupRoster]
  | file f gid body =>
    rw [Envelope.serialize, fromValue_struct (by simp)]
    simp [Envelope.variant, List.lookup_cons, deserialize_fileRef]
  | call c =>
    rw [Envelope.serialize, fromValue_struct (by simp)]
    simp [Envelope.variant]

theorem respects_fileRef : Respects FileRef.deserialize := by
  refine respects_struct fun f g same => ?_
  simp only [respects_readStr.required (same _), respects_readU64.required (same _), respects_readStr.optional (same _)]

theorem respects_memberBundle : Respects MemberBundle.deserialize := by
  refine respects_struct fun f g same => ?_
  simp only [respects_readStr.required (same _), respects_readU32.required (same _),
    respects_readStr.withDefault "" (same _)]

theorem respects_groupRoster : Respects GroupRoster.deserialize := by
  refine respects_struct fun f g same => ?_
  simp only [respects_readStr.required (same _), respects_readU64.required (same _),
    respects_fileRef.optional (same _), respects_memberBundle.readVec.required (same _)]

theorem variant_congr (ty : String) {f g : String → Option JsonValue} (same : ∀ name, Option.Rel Same (f name) (g name)) :
    Envelope.variant ty f = Envelope.variant ty g := by
  unfold Envelope.variant
  simp only [respects_readStr.required (same _), respects_readU64.required (same _), respects_readStr.optional (same _),
    respects_readStr.withDefault "" (same _), respects_groupRoster.required (same _), respects_fileRef.required (same _)]

theorem tagOf_congr {v w : JsonValue} (same : Same v w) : tagOf v = tagOf w := by
  cases same with
  | refl => rfl
  | arr => rfl
  | obj keys => exact respects_readStr.required (keys "ty")

/-- Parsing is independent of the order of keys. -/
theorem fromValue_congr {v w : JsonValue} (same : Same v w) : Envelope.fromValue v = Envelope.fromValue w := by
  have tags := tagOf_congr same
  cases same with
  | refl => rfl
  | arr => rfl
  | @obj xs ys keys =>
    unfold Envelope.fromValue
    rw [tags]
    cases tagOf (.obj ys) with
    | none => rfl
    | some ty =>
      apply variant_congr
      intro name
      by_cases tag : name = "ty"
      · rw [tag, lookup_filter_self, lookup_filter_self]
        exact .none
      · rw [lookup_filter_ne tag, lookup_filter_ne tag]
        exact keys name

section
variable {depth : Nat}

theorem plain_fileRef (f : FileRef) : Plain (depth + 1) f.serialize := by
  apply plain_struct (by simp)
  simp [Plain.str, Plain.num]

theorem plain_memberBundle (m : MemberBundle) : Plain (depth + 1) m.serialize := by
  apply plain_struct (by simp)
  simp [Plain.str, Plain.num]

theorem plain_photo (photo : Option FileRef) : Plain (depth + 1) (orNull (photo.map FileRef.serialize)) := by
  cases photo with
  | none => exact .null
  | some f => exact plain_fileRef f

theorem plain_groupRoster (r : GroupRoster) : Plain (depth + 3) r.serialize := by
  have members : Plain (depth + 2) (.arr (r.members.map MemberBundle.serialize)) := by
    apply Plain.arr
    simp [plain_memberBundle]
  apply plain_struct (by simp)
  simp [Plain.str, Plain.num, plain_photo, members]

end

theorem plain_serialize (e : Envelope) : Plain 127 e.serialize := by
  cases e with
  | text body id =>
    apply plain_struct (by simp)
    by_cases empty : id = "" <;> simp [Plain.str, empty]
  | group gid ep body =>
    apply plain_struct (by simp)
    simp [Plain.str, Plain.num]
  | roster r =>
    apply plain_struct (by simp)
    simp [Plain.str, plain_groupRoster]
  | file f gid body =>
    apply plain_struct (by simp)
    simp [Plain.str, plain_fileRef]
  | call c =>
    apply plain_struct (by simp)
    simp [Plain.str]

/-! ### The round trip -/

theorem tagOf_serialize (e : Envelope) :
    ∃ ty, tagOf e.serialize = some ty ∧ ty ∈ ["text", "grp", "roster", "file", "call"] := by
  cases e with
  | text body id => exact ⟨"text", tagOf_struct _ (by simp), by simp⟩
  | group gid ep body => exact ⟨"grp", tagOf_struct _ (by simp), by simp⟩
  | roster r => exact ⟨"roster", tagOf_struct _ (by simp), by simp⟩
  | file f gid body => exact ⟨"file", tagOf_struct _ (by simp), by simp⟩
  | call c => exact ⟨"call", tagOf_struct _ (by simp), by simp⟩

/-- Every envelope comes back from its bytes, and they are never the empty fallback. -/
theorem decodeEnvelope_encodeEnvelope [SerdeJson] (reads : SerdeJson.TakesBack) (e : Envelope) :
    (∃ text, SerdeJson.toVec e.serialize = some (utf8 text) ∧ encodeEnvelope e = utf8 text) ∧
      decodeEnvelope (encodeEnvelope e) = e := by
  obtain ⟨text, written, w, read, same⟩ := reads.written e.serialize (plain_serialize e)
  obtain ⟨ty, tag, known⟩ := tagOf_serialize e
  have bytes : encodeEnvelope e = utf8 text := by rw [encodeEnvelope, written, Option.getD_some]
  have tag' : tagOf w = some ty := (tagOf_congr same).symm.trans tag
  have value : Envelope.fromValue w = some e := (fromValue_congr same).symm.trans (fromValue_serialize e)
  refine ⟨⟨text, written, bytes⟩, ?_⟩
  rw [bytes]
  unfold decodeEnvelope
  simp only [Utf8.fromUtf8Lossy_utf8, read, tag', value, known, ↓reduceIte, Option.bind_eq_bind, Option.bind_some,
    Option.getD_some]

abbrev compactJson : SerdeJson := ⟨fun v => some (utf8 v.render), JsonValue.parse⟩

theorem compactJson_takesBack : @SerdeJson.TakesBack compactJson := by
  refine @SerdeJson.TakesBack.mk compactJson fun v plain => ⟨v.render, rfl, v, parse_render plain, .refl v⟩

/-- A body that is itself an envelope stays a body. -/
theorem decodeEnvelope_encodeEnvelope_sample :
    @decodeEnvelope compactJson (@encodeEnvelope compactJson (.group "g" 4 "\x7b\"ty\":\"call\",\"call\":\"x\"\x7d")) =
      .group "g" 4 "\x7b\"ty\":\"call\",\"call\":\"x\"\x7d" :=
  (@decodeEnvelope_encodeEnvelope compactJson compactJson_takesBack _).2

end TrinoCore
