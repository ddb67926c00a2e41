import Mathlib.Algebra.Order.BigOperators.Group.List
import Mathlib.Data.Nat.Digits.Defs
import TrinoCore.Lib.DirectSerde

namespace JsonValue

open Json (byteLength byteLength_append byteLength_cons)

def size (v : JsonValue) : Nat := byteLength v.chars

theorem length_utf8_render (v : JsonValue) : (utf8 v.render).length = v.size := by
  rw [render, utf8_ofList, size, byteLength]

def Printable (c : Char) : Prop := 32 ≤ c.toNat ∧ c.toNat < 128 ∧ c ≠ '"' ∧ c ≠ '\\'

theorem printable_of_isAlphanum {c : Char} (alphanum : c.isAlphanum = true) : Printable c := by
  have range := isAlphanum_iff.mp alphanum
  refine ⟨by omega, by omega, ?_, ?_⟩
  · rintro rfl
    cases alphanum
  · rintro rfl
    cases alphanum

theorem Printable.utf8Size {c : Char} (printable : Printable c) : c.utf8Size = 1 :=
  Char.utf8Size_eq_one_iff.mpr (UInt32.le_iff_toNat_le.mpr (Nat.le_of_lt_succ printable.2.1))

theorem byteLength_printable {cs : List Char} (printable : ∀ c ∈ cs, Printable c) : byteLength cs = cs.length := by
  induction cs with
  | nil => rfl
  | cons c rest ih =>
    obtain ⟨first, later⟩ := List.forall_mem_cons.mp printable
    rw [byteLength_cons, first.utf8Size, ih later, List.length_cons, Nat.add_comm]

theorem escapes_printable {cs : List Char} (printable : ∀ c ∈ cs, Printable c) : cs.flatMap Json.escape = cs := by
  induction cs with
  | nil => rfl
  | cons c rest ih =>
    obtain ⟨⟨low, _, quote, backslash⟩, later⟩ := List.forall_mem_cons.mp printable
    rw [List.flatMap_cons, ih later, Json.escape_plain quote backslash low]
    rfl

theorem byteLength_quote {text : String} (printable : ∀ c ∈ text.toList, Printable c) :
    byteLength (Json.quote text) = text.length + 2 := by
  have marks : '"'.utf8Size = 1 := rfl
  rw [Json.quote, escapes_printable printable, byteLength_cons, byteLength_append, byteLength_printable printable,
    byteLength_cons, marks, String.length_toList]
  change 1 + (text.length + (1 + 0)) = _
  omega

theorem digitChar_alphanum : ∀ d < 16, (Nat.digitChar d).isAlphanum = true := by decide

theorem printable_hex (bytes : Bytes) : ∀ c ∈ (Hex.encode bytes).toList, Printable c := by
  rw [Hex.encode, String.toList_ofList, List.forall_mem_flatMap]
  intro b _ c present
  have byte := b.toNat_lt
  rcases List.mem_pair.mp present with rfl | rfl
  · exact printable_of_isAlphanum (digitChar_alphanum _ (by omega))
  · exact printable_of_isAlphanum (digitChar_alphanum _ (by omega))

theorem printable_digits (n : Nat) : ∀ c ∈ Nat.toDigits 10 n, Printable c := by
  intro c present
  have digit := Nat.isDigit_of_mem_toDigits (by decide) (by decide) present
  exact printable_of_isAlphanum (by simp [Char.isAlphanum, digit])

theorem size_str {text : String} (printable : ∀ c ∈ text.toList, Printable c) : (str text).size = text.length + 2 := by
  rw [size, chars, byteLength_quote printable]

theorem size_hex (bytes : Bytes) : (str (Hex.encode bytes)).size = 2 * bytes.length + 2 := by
  rw [size_str (printable_hex bytes), ← String.length_toList, Hex.encode, String.toList_ofList, Hex.length_pairs]

theorem size_num {n : UInt64} {k : Nat} (some_digit : 0 < k) (below : n.toNat < 10 ^ k) : (num n).size ≤ k := by
  rw [size, chars, byteLength_printable (printable_digits n.toNat)]
  exact Nat.toDigits_length 10 n.toNat k some_digit below

theorem size_u32 (n : UInt32) : (num n.toUInt64).size ≤ 10 := by
  apply size_num (by decide)
  rw [UInt32.toNat_toUInt64]
  exact n.toNat_lt.trans (by decide)

theorem size_i64 (n : Int64) : (Serde.writeI64 n).size ≤ 20 := by
  have low := n.le_toInt
  have high := n.toInt_lt
  unfold Serde.writeI64
  split
  · have exact64 : n.toInt.toNat % 2 ^ 64 = n.toInt.toNat := Nat.mod_eq_of_lt (by omega)
    exact size_num (by decide) (by rw [UInt64.toNat_ofNat', exact64]; omega)
  · have digits := Nat.toDigits_length 10 (-n.toInt).toNat 19 (by decide) (by omega)
    have sign : '-'.utf8Size = 1 := rfl
    rw [size, chars, String.toList_ofList, byteLength_cons, byteLength_printable (printable_digits _), sign]
    omega

theorem byteLength_charsItems (items : List JsonValue) :
    byteLength (charsItems items) = (items.map fun v => v.size + 1).sum + 1 := by
  induction items with
  | nil => rfl
  | cons v rest ih =>
    have comma : ','.utf8Size = 1 := rfl
    rw [charsItems, byteLength_cons, byteLength_append, ih, comma, List.map_cons, List.sum_cons, size]
    omega

theorem size_arr (items : List JsonValue) : (arr items).size ≤ (items.map fun v => v.size + 1).sum + 2 := by
  cases items with
  | nil => decide
  | cons v rest =>
    have bracket : '['.utf8Size = 1 := rfl
    rw [size, chars, byteLength_cons, byteLength_append, byteLength_charsItems, bracket, List.map_cons, List.sum_cons, size]
    omega

def entrySize (entry : String × JsonValue) : Nat := byteLength (Json.quote entry.1) + entry.2.size + 2

theorem byteLength_charsEntries (entries : List (String × JsonValue)) :
    byteLength (charsEntries entries) = (entries.map entrySize).sum + 1 := by
  induction entries with
  | nil => rfl
  | cons entry rest ih =>
    have comma : ','.utf8Size = 1 := rfl
    have colon : ':'.utf8Size = 1 := rfl
    rw [charsEntries, byteLength_cons, byteLength_append, byteLength_cons, byteLength_append, ih, comma, colon, List.map_cons,
      List.sum_cons, entrySize, size]
    omega

theorem size_obj (entries : List (String × JsonValue)) : (obj entries).size ≤ (entries.map entrySize).sum + 2 := by
  cases entries with
  | nil => decide
  | cons entry rest =>
    have brace : '\x7b'.utf8Size = 1 := rfl
    have colon : ':'.utf8Size = 1 := rfl
    rw [size, chars, byteLength_cons, byteLength_append, byteLength_cons, byteLength_append, byteLength_charsEntries, brace,
      colon, List.map_cons, List.sum_cons, entrySize, size]
    omega

theorem sum_map_le {α : Type} {cost : α → Nat} {items : List α} {bound : Nat} (each : ∀ a ∈ items, cost a ≤ bound) :
    (items.map cost).sum ≤ items.length * bound := by
  have terms : ∀ k ∈ items.map cost, k ≤ bound := by
    simp only [List.mem_map]
    rintro _ ⟨a, present, rfl⟩
    exact each a present
  simpa using List.sum_le_card_nsmul _ _ terms

theorem size_arr_le {items : List JsonValue} {bound : Nat} (each : ∀ v ∈ items, v.size ≤ bound) :
    (arr items).size ≤ items.length * (bound + 1) + 2 := by
  have terms : (items.map fun v => v.size + 1).sum ≤ items.length * (bound + 1) :=
    sum_map_le fun v present => Nat.succ_le_succ (each v present)
  exact (size_arr items).trans (Nat.add_le_add_right terms 2)

theorem size_obj_le {entries : List (String × JsonValue)} {bound : Nat} (each : ∀ entry ∈ entries, entrySize entry ≤ bound) :
    (obj entries).size ≤ entries.length * bound + 2 :=
  (size_obj entries).trans (Nat.add_le_add_right (sum_map_le each) 2)

theorem size_struct (fields : List (String × Option JsonValue)) :
    (Serde.struct fields).size ≤ (fields.map fun field => (field.2.map fun v => entrySize (field.1, v)).getD 0).sum + 2 := by
  refine (size_obj _).trans (Nat.add_le_add_right (Nat.le_of_eq ?_) 2)
  induction fields with
  | nil => rfl
  | cons field rest ih =>
    obtain ⟨key, value⟩ := field
    cases value with
    | none => simpa using ih
    | some v => simpa using ih

theorem size_writeBytes (bytes : Bytes) : (Serde.writeBytes bytes).size ≤ bytes.length * 4 + 2 := by
  have each : ∀ v ∈ bytes.map fun b => num b.toUInt64, v.size ≤ 3 := by
    simp only [List.mem_map]
    rintro _ ⟨b, _, rfl⟩
    have byte := b.toNat_lt
    exact size_num (by decide) (by rw [UInt8.toNat_toUInt64]; omega)
  simpa [Serde.writeBytes] using size_arr_le each

theorem size_orNull_le {v : Option JsonValue} {bound : Nat} (room : 4 ≤ bound) (each : ∀ w ∈ v, w.size ≤ bound) :
    (Serde.orNull v).size ≤ bound := by
  cases v with
  | none => exact (show JsonValue.null.size ≤ 4 by decide).trans room
  | some w => exact each w rfl

end JsonValue
