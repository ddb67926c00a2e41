import Mathlib.Data.List.Forall2
import TrinoCore.Lib.JsonValue

/-!
Structs as derived readers and writers take them from JSON values and put them into them.

A reader sees what a writer wrote field by field, and no reader can tell two values apart that differ
in the order of keys.
-/

namespace Serde

open JsonValue

/-- A struct as an object. A field without a value is skipped. -/
def struct (fields : List (String × Option JsonValue)) : JsonValue :=
  .obj (fields.filterMap fun field => field.2.map (Prod.mk field.1))

def orNull (v : Option JsonValue) : JsonValue := v.getD .null

/-- What stands at the fields of a struct: in an object under their names, in an array at their
places. `true` marks the fields with a default, which the end of an array may lack. -/
def fieldsOf (declared : List (String × Bool)) : JsonValue → Option (String → Option JsonValue)
  | .obj entries => some fun name => entries.lookup name
  | .arr items =>
    if items.length ≤ declared.length ∧ (declared.drop items.length).all Prod.snd then
      some fun name => items[(declared.map Prod.fst).idxOf name]?
    else none
  | _ => none

/-- The same for a struct that denies unknown fields and has no defaults: an object has no other key
and none twice, an array has all the fields. -/
def strictFieldsOf (declared : List String) : JsonValue → Option (String → Option JsonValue)
  | .obj entries =>
    if (entries.map Prod.fst).Nodup ∧ ∀ entry ∈ entries, entry.1 ∈ declared then some fun name => entries.lookup name
    else none
  | .arr items => if items.length = declared.length then some fun name => items[declared.idxOf name]? else none
  | _ => none

def readBool : JsonValue → Option Bool
  | .bool b => some b
  | _ => none

def readStr : JsonValue → Option String
  | .str text => some text
  | _ => none

def readU64 : JsonValue → Option UInt64
  | .num n => some n
  | _ => none

def readU32 : JsonValue → Option UInt32
  | .num n => if n.toNat < 2 ^ 32 then some n.toUInt32 else none
  | _ => none

def readU16 : JsonValue → Option UInt16
  | .num n => if n.toNat < 2 ^ 16 then some n.toUInt16 else none
  | _ => none

section
variable {α : Type}

def readVec (read : JsonValue → Option α) : JsonValue → Option (List α)
  | .arr items => items.mapM read
  | _ => none

def required (read : JsonValue → Option α) (v : Option JsonValue) : Option α := v.bind read

def optional (read : JsonValue → Option α) : Option JsonValue → Option (Option α)
  | none => some none
  | some .null => some none
  | some v => (read v).map some

def withDefault (read : JsonValue → Option α) (default : α) : Option JsonValue → Option α
  | some v => read v
  | none => some default

/-! ### What is written is read -/

theorem lookup_filterMap (fields : List (String × Option JsonValue)) (nodup : (fields.map Prod.fst).Nodup) (name : String) :
    (fields.filterMap fun field => field.2.map (Prod.mk field.1)).lookup name = (fields.lookup name).join := by
  induction fields with
  | nil => rfl
  | cons field rest ih =>
    obtain ⟨key, value⟩ := field
    rw [List.map_cons, List.nodup_cons] at nodup
    have tail := ih nodup.2
    by_cases same : name = key
    · subst same
      cases value with
      | some v => simp
      | none =>
        have absent : rest.lookup name = none := by
          rw [List.lookup_eq_none_iff]
          intro entry present
          simpa using fun equal => nodup.1 (List.mem_map.mpr ⟨entry, present, equal.symm⟩)
        simp [tail, absent]
    · have other : (name == key) = false := beq_eq_false_iff_ne.mpr same
      cases value with
      | some v => simp [List.lookup_cons, other, tail]
      | none => simp [List.lookup_cons, other, tail]

theorem keys_filterMap_sublist (fields : List (String × Option JsonValue)) :
    ((fields.filterMap fun field => field.2.map (Prod.mk field.1)).map Prod.fst).Sublist (fields.map Prod.fst) := by
  induction fields with
  | nil => exact List.Sublist.refl _
  | cons field rest ih =>
    obtain ⟨key, value⟩ := field
    cases value with
    | some v => simpa using ih
    | none => simpa using ih.trans (List.sublist_cons_self key _)

theorem fieldsOf_struct (declared : List (String × Bool)) {fields : List (String × Option JsonValue)}
    (nodup : (fields.map Prod.fst).Nodup) : fieldsOf declared (struct fields) = some fun name => (fields.lookup name).join := by
  unfold struct fieldsOf
  simp only [lookup_filterMap _ nodup]

theorem lookup_filter_ne {entries : List (String × JsonValue)} {key name : String} (other : name ≠ key) :
    (entries.filter (·.1 ≠ key)).lookup name = entries.lookup name := by
  induction entries with
  | nil => rfl
  | cons entry rest ih =>
    obtain ⟨k, v⟩ := entry
    by_cases same : k = key
    · have different : (name == k) = false := by
        rw [same]
        exact beq_eq_false_iff_ne.mpr other
      rw [List.filter_cons_of_neg (by simpa using same), ih, List.lookup_cons, different]
    · rw [List.filter_cons_of_pos (by simpa using same), List.lookup_cons, List.lookup_cons, ih]

theorem lookup_filter_self {entries : List (String × JsonValue)} (key : String) :
    (entries.filter (·.1 ≠ key)).lookup key = none := by
  rw [List.lookup_eq_none_iff]
  intro entry present
  have kept := of_decide_eq_true (List.mem_filter.mp present).2
  exact bne_iff_ne.mpr fun equal => kept equal.symm

theorem plain_struct {depth : Nat} {fields : List (String × Option JsonValue)} (nodup : (fields.map Prod.fst).Nodup)
    (plain : ∀ field ∈ fields, ∀ v ∈ field.2, Plain depth v) : Plain (depth + 1) (struct fields) := by
  apply Plain.obj
  · exact nodup.sublist (keys_filterMap_sublist fields)
  · intro entry present
    obtain ⟨field, inside, given⟩ := List.mem_filterMap.mp present
    obtain ⟨v, value, rfl⟩ := Option.map_eq_some_iff.mp given
    exact plain field inside v value

@[simp] theorem readStr_str (text : String) : readStr (.str text) = some text := rfl

@[simp] theorem readU64_num (n : UInt64) : readU64 (.num n) = some n := rfl

@[simp] theorem readU32_num (n : UInt32) : readU32 (.num n.toUInt64) = some n := by
  simp [readU32, n.toNat_lt]

@[simp] theorem required_some (read : JsonValue → Option α) (v : JsonValue) : required read (some v) = read v := rfl

@[simp] theorem withDefault_some (read : JsonValue → Option α) (d : α) (v : JsonValue) :
    withDefault read d (some v) = read v := rfl

@[simp] theorem withDefault_none (read : JsonValue → Option α) (d : α) : withDefault read d none = some d := rfl

@[simp] theorem optional_null (read : JsonValue → Option α) : optional read (some .null) = some none := rfl

@[simp] theorem optional_str (text : Option String) : optional readStr (text.map .str) = some text := by
  cases text with
  | none => rfl
  | some text => rfl

theorem optional_orNull {write : α → JsonValue} {read : JsonValue → Option α} (inverse : ∀ a, read (write a) = some a)
    (present : ∀ a, write a ≠ .null) (value : Option α) : optional read (some (orNull (value.map write))) = some value := by
  cases value with
  | none => rfl
  | some a =>
    have read_back := inverse a
    have other := present a
    simp only [orNull, Option.map_some, Option.getD_some]
    cases written : write a <;> simp_all [optional]

theorem readVec_map {write : α → JsonValue} {read : JsonValue → Option α} (inverse : ∀ a, read (write a) = some a)
    (items : List α) : readVec read (.arr (items.map write)) = some items := by
  induction items with
  | nil => rfl
  | cons a rest ih =>
    simp only [readVec, List.map_cons, List.mapM_cons, inverse, Option.pure_def, Option.bind_eq_bind,
      Option.bind_some] at ih ⊢
    rw [ih]
    rfl

/-- A reader that takes equal values from values that are the same. -/
def Respects (read : JsonValue → Option α) : Prop := ∀ ⦃v w : JsonValue⦄, Same v w → read v = read w

theorem respects_readStr : Respects readStr := by
  intro v w same
  cases same <;> rfl

theorem respects_readU64 : Respects readU64 := by
  intro v w same
  cases same <;> rfl

theorem respects_readU32 : Respects readU32 := by
  intro v w same
  cases same <;> rfl

theorem Respects.mapM {read : JsonValue → Option α} (respects : Respects read) {xs ys : List JsonValue}
    (same : List.Forall₂ Same xs ys) : xs.mapM read = ys.mapM read := by
  induction same with
  | nil => rfl
  | cons first _ ih => rw [List.mapM_cons, List.mapM_cons, respects first, ih]

theorem Respects.readVec {read : JsonValue → Option α} (respects : Respects read) : Respects (readVec read) := by
  intro v w same
  cases same with
  | refl => rfl
  | arr items => exact respects.mapM items
  | obj => rfl

variable {read : JsonValue → Option α} {x y : Option JsonValue}

theorem Respects.required (respects : Respects read) (same : Option.Rel Same x y) : required read x = required read y := by
  cases same with
  | none => rfl
  | some values => exact respects values

theorem Respects.withDefault (respects : Respects read) (d : α) (same : Option.Rel Same x y) :
    withDefault read d x = withDefault read d y := by
  cases same with
  | none => rfl
  | some values => exact respects values

theorem Respects.optional (respects : Respects read) (same : Option.Rel Same x y) : optional read x = optional read y := by
  cases same with
  | none => rfl
  | some values =>
    have equal := congrArg (Option.map some) (respects values)
    cases values with
    | refl => rfl
    | arr => exact equal
    | obj => exact equal

theorem getElem?_forall₂ {xs ys : List JsonValue} (same : List.Forall₂ Same xs ys) (i : Nat) :
    Option.Rel Same xs[i]? ys[i]? := by
  induction same generalizing i with
  | nil => exact .none
  | cons first _ ih =>
    cases i with
    | zero => simpa using Option.Rel.some first
    | succ i => simpa using ih i

/-- A struct read field by field respects the order of keys when the reading of its fields does. -/
theorem respects_struct {declared : List (String × Bool)} {build : (String → Option JsonValue) → Option α}
    (fieldwise : ∀ f g : String → Option JsonValue, (∀ name, Option.Rel Same (f name) (g name)) → build f = build g) :
    Respects fun v => (fieldsOf declared v).bind build := by
  intro v w same
  cases same with
  | refl => rfl
  | obj keys => exact fieldwise _ _ keys
  | @arr xs ys items =>
    have lengths := items.length_eq
    simp only [fieldsOf, lengths]
    split
    · exact fieldwise _ _ fun name => getElem?_forall₂ items _
    · rfl

/-! ### What a reader accepts -/

def Unset (x : Option JsonValue) : Prop := x = none ∨ x = some .null

/-- Absent, null, or a value as `given` wants it. -/
def UnsetOr (given : JsonValue → Prop) (x : Option JsonValue) : Prop := Unset x ∨ ∃ v, x = some v ∧ given v

/-- An object of the declared keys, none twice, with what `rules` wants under them. -/
def ObjectOf (declared : List String) (rules : (String → Option JsonValue) → Prop) (v : JsonValue) : Prop :=
  ∃ entries, v = .obj entries ∧ (entries.map Prod.fst).Nodup ∧ (∀ entry ∈ entries, entry.1 ∈ declared) ∧
    rules fun name => entries.lookup name

/-- The fields without their names, as an array in the order of declaration. -/
def ArrayOf (declared : List String) (rules : (String → Option JsonValue) → Prop) (v : JsonValue) : Prop :=
  ∃ items, v = .arr items ∧ items.length = declared.length ∧ rules fun name => items[declared.idxOf name]?

def StructOf (declared : List String) (rules : (String → Option JsonValue) → Prop) (v : JsonValue) : Prop :=
  ObjectOf declared rules v ∨ ArrayOf declared rules v

theorem exists_strictFieldsOf {declared : List String} {rules : (String → Option JsonValue) → Prop} {v : JsonValue} :
    (∃ field, strictFieldsOf declared v = some field ∧ rules field) ↔ StructOf declared rules v := by
  constructor
  · rintro ⟨field, fields, good⟩
    unfold strictFieldsOf at fields
    split at fields
    · rename_i entries
      split at fields
      · rename_i keys
        obtain rfl := Option.some.inj fields
        exact .inl ⟨entries, rfl, keys.1, keys.2, good⟩
      · cases fields
    · rename_i items
      split at fields
      · rename_i all
        obtain rfl := Option.some.inj fields
        exact .inr ⟨items, rfl, all, good⟩
      · cases fields
    · cases fields
  · rintro (⟨entries, rfl, nodup, known, good⟩ | ⟨items, rfl, all, good⟩)
    · exact ⟨_, if_pos ⟨nodup, known⟩, good⟩
    · exact ⟨_, if_pos all, good⟩

@[simp] theorem readStr_eq_some {v : JsonValue} {text : String} : readStr v = some text ↔ v = .str text := by
  cases v <;> simp [readStr]

@[simp] theorem readBool_eq_some {v : JsonValue} {b : Bool} : readBool v = some b ↔ v = .bool b := by
  cases v <;> simp [readBool]

theorem readU16_isSome {v : JsonValue} : (∃ n, readU16 v = some n) ↔ ∃ n : UInt64, v = .num n ∧ n.toNat ≤ 65535 := by
  cases v with
  | num n => simp [readU16, Nat.lt_succ_iff]
  | _ => simp [readU16]

theorem required_eq_some {a : α} : required read x = some a ↔ ∃ v, x = some v ∧ read v = some a :=
  Option.bind_eq_some_iff

theorem exists_optional (null : read .null = none) {p : Option α → Prop} :
    (∃ a, optional read x = some a ∧ p a) ↔ (Unset x ∧ p none) ∨ ∃ v a, x = some v ∧ read v = some a ∧ p (some a) := by
  constructor
  · rintro ⟨a, given, good⟩
    unfold optional at given
    split at given
    · obtain rfl := Option.some.inj given
      exact .inl ⟨.inl rfl, good⟩
    · obtain rfl := Option.some.inj given
      exact .inl ⟨.inr rfl, good⟩
    · rename_i v _
      obtain ⟨b, value, rfl⟩ := Option.map_eq_some_iff.mp given
      exact .inr ⟨v, b, rfl, value, good⟩
  · rintro (⟨rfl | rfl, good⟩ | ⟨v, a, rfl, value, good⟩)
    · exact ⟨none, rfl, good⟩
    · exact ⟨none, rfl, good⟩
    · refine ⟨some a, ?_, good⟩
      cases v with
      | null =>
        rw [null] at value
        cases value
      | _ =>
        rw [optional, value, Option.map_some]
        exact nofun

theorem optional_eq_none (null : read .null = none) : optional read x = some none ↔ Unset x := by
  have every := exists_optional (x := x) null (p := fun a => a = none)
  simpa using every

theorem optional_eq_some (null : read .null = none) {a : α} :
    optional read x = some (some a) ↔ ∃ v, x = some v ∧ read v = some a := by
  have every := exists_optional (x := x) null (p := fun b => b = some a)
  simpa using every

end
end Serde
