import Mathlib.Data.Finmap
import TrinoCore.Lib.Bytes
import TrinoCore.Lib.Serde

/-!
Structs as derived readers take them straight from text, where an object keeps every entry.

A declared key may stand once, wherever it stands, and keys that are not declared are passed over.
-/

namespace Serde

open JsonValue

/-- What stands at the fields of a struct, when no declared key comes twice. -/
def knownFieldsOf (declared : List (String × Bool)) : JsonValue → Option (String → Option JsonValue)
  | .obj entries =>
    if ((entries.map Prod.fst).filter (· ∈ declared.map Prod.fst)).Nodup then some fun name => entries.lookup name
    else none
  | v => fieldsOf declared v

theorem knownFieldsOf_struct (declared : List (String × Bool)) {fields : List (String × Option JsonValue)}
    (nodup : (fields.map Prod.fst).Nodup) :
    knownFieldsOf declared (struct fields) = some fun name => (fields.lookup name).join := by
  have once : (((fields.filterMap fun field => field.2.map (Prod.mk field.1)).map Prod.fst).filter
      (· ∈ declared.map Prod.fst)).Nodup := (nodup.sublist (keys_filterMap_sublist fields)).filter _
  simp only [struct, knownFieldsOf, once, ↓reduceIte, lookup_filterMap fields nodup]

theorem optional_map {α : Type} {write : α → JsonValue} {read : JsonValue → Option α} (inverse : ∀ a, read (write a) = some a)
    (present : ∀ a, write a ≠ .null) (value : Option α) : optional read (value.map write) = some value := by
  cases value with
  | none => rfl
  | some a =>
    have written := present a
    have read_back := inverse a
    rw [Option.map_some]
    unfold optional
    split
    · contradiction
    · rename_i null
      exact absurd (Option.some.inj null) written
    · rename_i v _ same
      obtain rfl := Option.some.inj same
      rw [read_back, Option.map_some]

def readU8 : JsonValue → Option UInt8
  | .num n => if n.toNat < 2 ^ 8 then some n.toUInt8 else none
  | _ => none

def writeBytes (bytes : Bytes) : JsonValue := .arr (bytes.map fun b => .num b.toUInt64)

def readByteVec (n : Nat) (v : JsonValue) : Option (ByteVec n) := (readVec readU8 v).bind (ByteVec.ofBytes? n)

@[simp] theorem readU8_num (b : UInt8) : readU8 (.num b.toUInt64) = some b := by
  simp [readU8, b.toNat_lt]

@[simp] theorem readByteVec_writeBytes {n : Nat} (v : ByteVec n) : readByteVec n (writeBytes v.toList) = some v := by
  simp [readByteVec, writeBytes, readVec_map readU8_num]

/-- A negative number keeps its sign in the text. -/
def writeI64 (n : Int64) : JsonValue :=
  if 0 ≤ n.toInt then .num (UInt64.ofNat n.toInt.toNat)
  else .otherNum (String.ofList ('-' :: Nat.toDigits 10 (-n.toInt).toNat))

def readI64 : JsonValue → Option Int64
  | .num n => if n.toNat < 2 ^ 63 then some (Int64.ofNat n.toNat) else none
  | .otherNum text =>
    match text.toList with
    | '-' :: digits =>
      let n := Nat.ofDigitChars 10 digits 0
      if digits.all Char.isDigit ∧ 0 < n ∧ n ≤ 2 ^ 63 then some (Int64.ofInt (-n)) else none
    | _ => none
  | _ => none

@[simp] theorem readI64_writeI64 (n : Int64) : readI64 (writeI64 n) = some n := by
  have low := n.le_toInt
  have high := n.toInt_lt
  unfold writeI64
  split
  · rename_i positive
    have exact64 : n.toInt.toNat % 2 ^ 64 = n.toInt.toNat := Nat.mod_eq_of_lt (by omega)
    have small : n.toInt.toNat < 2 ^ 63 := by omega
    have same : Int64.ofNat n.toInt.toNat = n := by
      rw [← Int64.ofInt_eq_ofNat, Int.toNat_of_nonneg positive, Int64.ofInt_toInt]
    simp only [readI64, UInt64.toNat_ofNat', exact64, small, same, ↓reduceIte]
  · rename_i negative
    have digits : ∀ c ∈ Nat.toDigits 10 (-n.toInt).toNat, c.isDigit = true := fun c present =>
      Nat.isDigit_of_mem_toDigits (by decide) (by decide) present
    have same : Int64.ofInt (-((-n.toInt).toNat : Int)) = n := by
      rw [Int.toNat_of_nonneg (by omega), Int.neg_neg, Int64.ofInt_toInt]
    have range : 0 < (-n.toInt).toNat ∧ (-n.toInt).toNat ≤ 2 ^ 63 := by omega
    simp only [readI64, String.toList_ofList, Nat.ofDigitChars_ten_toDigits, List.all_eq_true.mpr digits, range, same,
      and_self, ↓reduceIte]

theorem writeBytes_ne_null (bytes : Bytes) : writeBytes bytes ≠ .null := nofun

theorem plain_writeBytes {depth : Nat} (bytes : Bytes) : Plain (depth + 1) (writeBytes bytes) := by
  apply Plain.arr
  simp only [List.mem_map]
  rintro _ ⟨b, _, rfl⟩
  exact .num _

theorem writeI64_ne_null (n : Int64) : writeI64 n ≠ .null := by
  unfold writeI64
  split
  · nofun
  · nofun

section
variable {α : Type}

/-- An order in which a hash map may give its entries. -/
def IterationOrder (m : Finmap fun _ : String => α) (order : List String) : Prop :=
  order.Nodup ∧ ∀ key, key ∈ order ↔ key ∈ m

def mapEntries (write : α → JsonValue) (order : List String) (m : Finmap fun _ : String => α) : List (String × JsonValue) :=
  order.filterMap fun key => (m.lookup key).map fun a => (key, write a)

def writeMap (write : α → JsonValue) (order : List String) (m : Finmap fun _ : String => α) : JsonValue :=
  .obj (mapEntries write order m)

/-- A key that comes twice keeps its last value. -/
def readMap (read : JsonValue → Option α) : JsonValue → Option (Finmap fun _ : String => α)
  | .obj entries => do
    let items ← entries.mapM fun entry => (read entry.2).map (Prod.mk entry.1)
    return items.foldl (fun m item => m.insert item.1 item.2) ∅
  | _ => none

variable {m : Finmap fun _ : String => α}

theorem lookup_foldl_insert {items : List (String × α)} (held : ∀ item ∈ items, m.lookup item.1 = some item.2)
    (start : Finmap fun _ : String => α) (key : String) :
    (items.foldl (fun m item => m.insert item.1 item.2) start).lookup key =
      if key ∈ items.map Prod.fst then m.lookup key else start.lookup key := by
  induction items generalizing start with
  | nil => simp
  | cons item rest ih =>
    obtain ⟨first, later⟩ := List.forall_mem_cons.mp held
    rw [List.foldl_cons, ih later]
    by_cases same : key = item.1
    · subst same
      simp [first]
    · have here : key ∈ rest.map Prod.fst ↔ key ∈ (item :: rest).map Prod.fst := by simp [same]
      rw [Finmap.lookup_insert_of_ne start same]
      exact if_congr here rfl rfl

theorem mapM_mapEntries {write : α → JsonValue} {read : JsonValue → Option α} (inverse : ∀ a, read (write a) = some a)
    (order : List String) :
    (mapEntries write order m).mapM (fun entry => (read entry.2).map (Prod.mk entry.1)) =
      some (order.filterMap fun key => (m.lookup key).map (Prod.mk key)) := by
  induction order with
  | nil => rfl
  | cons key rest ih =>
    unfold mapEntries at ih ⊢
    cases found : m.lookup key with
    | none => simpa [found] using ih
    | some a => simp [found, inverse, ih]

/-- A map comes back whatever the order of its entries. -/
theorem readMap_writeMap {write : α → JsonValue} {read : JsonValue → Option α} (inverse : ∀ a, read (write a) = some a)
    {order : List String} (iterates : IterationOrder m order) : readMap read (writeMap write order m) = some m := by
  have held : ∀ item ∈ order.filterMap fun key => (m.lookup key).map (Prod.mk key), m.lookup item.1 = some item.2 := by
    simp only [List.mem_filterMap, Option.map_eq_some_iff]
    rintro _ ⟨key, _, a, found, rfl⟩
    exact found
  have keys : ∀ key, key ∈ (order.filterMap fun key => (m.lookup key).map (Prod.mk key)).map Prod.fst ↔ key ∈ m := by
    intro key
    simp only [List.mem_map, List.mem_filterMap, Option.map_eq_some_iff]
    constructor
    · rintro ⟨_, ⟨key, _, a, found, rfl⟩, rfl⟩
      exact Finmap.mem_of_lookup_eq_some found
    · intro present
      obtain ⟨a, found⟩ := Finmap.mem_iff.mp present
      exact ⟨_, ⟨key, (iterates.2 key).mpr present, a, found, rfl⟩, rfl⟩
  simp only [readMap, writeMap, mapM_mapEntries inverse]
  refine congrArg some (Finmap.ext_lookup fun key => ?_)
  rw [lookup_foldl_insert held]
  split
  · rfl
  · rename_i absent
    rw [keys, ← Finmap.lookup_eq_none] at absent
    rw [absent, Finmap.lookup_empty]

theorem mapEntries_keys_sublist (write : α → JsonValue) (order : List String) (m : Finmap fun _ : String => α) :
    ((mapEntries write order m).map Prod.fst).Sublist order := by
  induction order with
  | nil => exact List.Sublist.refl _
  | cons key rest ih =>
    unfold mapEntries at ih ⊢
    cases found : m.lookup key with
    | none => simpa [found] using ih.trans (List.sublist_cons_self key _)
    | some a => simpa [found] using ih

theorem mem_mapEntries {write : α → JsonValue} {order : List String} {entry : String × JsonValue}
    (present : entry ∈ mapEntries write order m) : entry.1 ∈ m ∧ ∃ a, entry.2 = write a := by
  obtain ⟨key, _, given⟩ := List.mem_filterMap.mp present
  obtain ⟨a, found, rfl⟩ := Option.map_eq_some_iff.mp given
  exact ⟨Finmap.mem_of_lookup_eq_some found, a, rfl⟩

theorem plain_writeMap {depth : Nat} {write : α → JsonValue} (plain : ∀ a, Plain depth (write a)) {order : List String}
    (iterates : IterationOrder m order) : Plain (depth + 1) (writeMap write order m) := by
  apply Plain.obj
  · exact iterates.1.sublist (mapEntries_keys_sublist write order m)
  · intro entry present
    obtain ⟨_, a, written⟩ := mem_mapEntries present
    rw [written]
    exact plain a

end

/-! ### Where the fields stand -/

/-- An object that holds these fields, in whatever order and among whatever keys are not declared. -/
def Lays (declared : List String) (fields entries : List (String × JsonValue)) : Prop :=
  (entries.filter fun entry => entry.1 ∈ declared).Perm fields

theorem lookup_eq_some_iff_mem {entries : List (String × JsonValue)} (nodup : (entries.map Prod.fst).Nodup) {name : String}
    {v : JsonValue} : entries.lookup name = some v ↔ (name, v) ∈ entries := by
  induction entries with
  | nil => simp
  | cons entry rest ih =>
    obtain ⟨key, w⟩ := entry
    rw [List.map_cons, List.nodup_cons] at nodup
    have tail := ih nodup.2
    by_cases same : name = key
    · subst same
      have absent : (name, v) ∉ rest := fun present => nodup.1 (List.mem_map.mpr ⟨_, present, rfl⟩)
      simp [absent, eq_comm]
    · have other : (name == key) = false := beq_eq_false_iff_ne.mpr same
      simp [List.lookup_cons, other, tail, same]

theorem lookup_perm {entries others : List (String × JsonValue)} (perm : entries.Perm others)
    (nodup : (entries.map Prod.fst).Nodup) (name : String) : entries.lookup name = others.lookup name := by
  have nodup' : (others.map Prod.fst).Nodup := (perm.map Prod.fst).nodup_iff.mp nodup
  apply Option.ext
  intro v
  rw [lookup_eq_some_iff_mem nodup, lookup_eq_some_iff_mem nodup', perm.mem_iff]

theorem lookup_filter (p : String → Bool) (entries : List (String × JsonValue)) (name : String) :
    (entries.filter fun entry => p entry.1).lookup name = if p name then entries.lookup name else none := by
  induction entries with
  | nil => simp
  | cons entry rest ih =>
    obtain ⟨key, v⟩ := entry
    by_cases same : name = key
    · subst same
      cases kept : p name with
      | true => simp [kept]
      | false => simpa [kept] using ih
    · have other : (name == key) = false := beq_eq_false_iff_ne.mpr same
      cases kept : p key with
      | true => simp [kept, List.lookup_cons, other, ih]
      | false => simp [kept, List.lookup_cons, other, ih]

theorem Lays.knownFieldsOf {declared : List (String × Bool)} {fields entries : List (String × JsonValue)}
    (lays : Lays (declared.map Prod.fst) fields entries) (nodup : (fields.map Prod.fst).Nodup) :
    ∃ field, knownFieldsOf declared (.obj entries) = some field ∧
      ∀ name ∈ declared.map Prod.fst, field name = fields.lookup name := by
  have nodup' : ((entries.filter fun entry => entry.1 ∈ declared.map Prod.fst).map Prod.fst).Nodup :=
    (lays.map Prod.fst).nodup_iff.mpr nodup
  have keys : (entries.map Prod.fst).filter (· ∈ declared.map Prod.fst) =
      (entries.filter fun entry => entry.1 ∈ declared.map Prod.fst).map Prod.fst := by
    rw [List.filter_map]
    rfl
  refine ⟨fun name => entries.lookup name, if_pos (keys ▸ nodup'), fun name known => ?_⟩
  have here := lookup_filter (fun key => decide (key ∈ declared.map Prod.fst)) entries name
  rw [if_pos (decide_eq_true known)] at here
  exact here.symm.trans (lookup_perm lays nodup' name)

theorem Lays.lookup {declared : List (String × Bool)} {fields entries : List (String × JsonValue)} {lacking : List String}
    (lays : Lays (declared.map Prod.fst) (fields.filter fun field => field.1 ∉ lacking) entries)
    (nodup : (fields.map Prod.fst).Nodup) :
    ∃ field, Serde.knownFieldsOf declared (.obj entries) = some field ∧
      ∀ name ∈ declared.map Prod.fst, field name = if name ∈ lacking then none else fields.lookup name := by
  obtain ⟨field, known, held⟩ := lays.knownFieldsOf (nodup.sublist (List.filter_sublist.map _))
  refine ⟨field, known, fun name present => ?_⟩
  rw [held name present, lookup_filter fun key => decide (key ∉ lacking)]
  simp

theorem lays_self {declared : List String} {fields : List (String × JsonValue)}
    (known : ∀ field ∈ fields, field.1 ∈ declared) : Lays declared fields fields := by
  have all : (fields.filter fun entry => entry.1 ∈ declared) = fields :=
    List.filter_eq_self.mpr fun field present => decide_eq_true (known field present)
  rw [Lays, all]

/-- An object that holds these fields, in whatever order and among whatever keys are not declared. Those
that are null may be missing. -/
def Conveys (declared : List String) (fields : List (String × JsonValue)) (v : JsonValue) : Prop :=
  ∃ (lacking : List String) (entries : List (String × JsonValue)), v = .obj entries ∧ (∀ name ∈ lacking, fields.lookup name = some .null) ∧
    Lays declared (fields.filter fun field => field.1 ∉ lacking) entries

theorem Conveys.knownFieldsOf {declared : List (String × Bool)} {fields : List (String × JsonValue)} {v : JsonValue}
    (conveys : Conveys (declared.map Prod.fst) fields v) (nodup : (fields.map Prod.fst).Nodup) :
    ∃ field, knownFieldsOf declared v = some field ∧
      (∀ name ∈ declared.map Prod.fst, fields.lookup name ≠ some .null → field name = fields.lookup name) ∧
      ∀ {α : Type} (read : JsonValue → Option α), ∀ name ∈ declared.map Prod.fst,
        optional read (field name) = optional read (fields.lookup name) := by
  obtain ⟨lacking, entries, rfl, null, lays⟩ := conveys
  obtain ⟨field, known, held⟩ := lays.lookup nodup
  refine ⟨field, known, fun name present given => ?_, fun read name present => ?_⟩
  · rw [held name present, if_neg fun gone => given (null name gone)]
  · rw [held name present]
    split
    · rename_i gone
      rw [null name gone]
      rfl
    · rfl

theorem conveys_self {declared : List String} {fields : List (String × JsonValue)}
    (known : ∀ field ∈ fields, field.1 ∈ declared) : Conveys declared fields (.obj fields) := by
  refine ⟨[], fields, rfl, fun name absent => (by cases absent), ?_⟩
  rw [List.filter_eq_self.mpr fun field _ => by simp]
  exact lays_self known

end Serde
