import TrinoCore.Lib.Bytes

/-!
Percent-encoding of text: the bytes of every character that is not kept become `%` and two digits.

The characters that are kept are ASCII and do not include `%`, and then the text comes back.
-/

namespace Percent

def upperDigit (n : Nat) : Char := (Nat.digitChar n).toUpper

def byte (b : UInt8) : List Char := ['%', upperDigit (b.toNat / 16), upperDigit (b.toNat % 16)]

def encodeChar (keep : Char → Bool) (c : Char) : List Char :=
  if keep c then [c] else (String.utf8EncodeChar c).flatMap byte

def encode (keep : Char → Bool) (text : String) : String := String.ofList (text.toList.flatMap (encodeChar keep))

def decodeBytes : List Char → Option Bytes
  | [] => some []
  | '%' :: high :: low :: rest => do
    let h ← Hex.digitValue high
    let l ← Hex.digitValue low
    (decodeBytes rest).map (UInt8.ofNat (16 * h + l) :: ·)
  | c :: rest => if c = '%' ∨ 128 ≤ c.toNat then none else (decodeBytes rest).map (UInt8.ofNat c.toNat :: ·)

/-- Bytes that are not UTF-8 are no text. -/
def decode (text : String) : Option String := do
  let bytes ← decodeBytes text.toList
  String.fromUTF8? ⟨bytes.toArray⟩

def Plain (keep : Char → Bool) : Prop := ∀ c, keep c = true → c ≠ '%' ∧ c.toNat < 128

theorem upperDigit_alphanum : ∀ n < 16, (upperDigit n).isAlphanum = true := by decide

theorem digitValue_upperDigit : ∀ n < 16, Hex.digitValue (upperDigit n) = some n := by decide

theorem mem_byte {b : UInt8} {c : Char} (present : c ∈ byte b) : c = '%' ∨ c.isAlphanum = true := by
  have bound := b.toNat_lt
  simp only [byte, List.mem_cons, List.not_mem_nil, or_false] at present
  rcases present with rfl | rfl | rfl
  · exact Or.inl rfl
  · exact Or.inr (upperDigit_alphanum _ (by omega))
  · exact Or.inr (upperDigit_alphanum _ (by omega))

theorem mem_encode {keep : Char → Bool} {text : String} {c : Char} (present : c ∈ (encode keep text).toList) :
    keep c = true ∨ c = '%' ∨ c.isAlphanum = true := by
  rw [encode, String.toList_ofList] at present
  obtain ⟨d, _, inside⟩ := List.mem_flatMap.mp present
  unfold encodeChar at inside
  split at inside
  · rename_i kept
    rw [List.mem_singleton.mp inside]
    exact Or.inl kept
  · obtain ⟨b, _, digit⟩ := List.mem_flatMap.mp inside
    exact Or.inr (mem_byte digit)

theorem decodeBytes_byte (b : UInt8) (rest : List Char) :
    decodeBytes (byte b ++ rest) = (decodeBytes rest).map (b :: ·) := by
  have bound := b.toNat_lt
  have high := digitValue_upperDigit (b.toNat / 16) (by omega)
  have low := digitValue_upperDigit (b.toNat % 16) (by omega)
  have joined : 16 * (b.toNat / 16) + b.toNat % 16 = b.toNat := by omega
  simp only [byte, List.cons_append, List.nil_append, decodeBytes, high, low, Option.bind_eq_bind, Option.bind_some,
    joined, UInt8.ofNat_toNat]

theorem decodeBytes_bytes (bytes : Bytes) (rest : List Char) :
    decodeBytes (bytes.flatMap byte ++ rest) = (decodeBytes rest).map (bytes ++ ·) := by
  induction bytes with
  | nil => simp
  | cons b bytes ih =>
    rw [List.flatMap_cons, List.append_assoc, decodeBytes_byte, ih, Option.map_map]
    rfl

theorem decodeBytes_kept {c : Char} (percent : c ≠ '%') (ascii : c.toNat < 128) (rest : List Char) :
    decodeBytes (c :: rest) = (decodeBytes rest).map (String.utf8EncodeChar c ++ ·) := by
  have encoded := utf8EncodeChar_ascii ascii
  have plain : ¬(c = '%' ∨ 128 ≤ c.toNat) := by
    rintro (same | wide)
    · exact percent same
    · omega
  rw [decodeBytes, if_neg plain, encoded]
  · rfl
  · intro high low rest' same
    exact absurd same percent

theorem decodeBytes_encode {keep : Char → Bool} (plain : Plain keep) (cs : List Char) :
    decodeBytes (cs.flatMap (encodeChar keep)) = some (cs.flatMap String.utf8EncodeChar) := by
  induction cs with
  | nil => rfl
  | cons c rest ih =>
    rw [List.flatMap_cons, List.flatMap_cons, encodeChar]
    split
    · rename_i kept
      obtain ⟨percent, ascii⟩ := plain c kept
      rw [List.singleton_append, decodeBytes_kept percent ascii, ih, Option.map_some]
    · rw [decodeBytes_bytes, ih, Option.map_some]

theorem decode_encode {keep : Char → Bool} (plain : Plain keep) (text : String) : decode (encode keep text) = some text := by
  have bytes : decodeBytes (encode keep text).toList = some (utf8 text) := by
    rw [encode, String.toList_ofList, decodeBytes_encode plain, ← utf8_ofList, String.ofList_toList]
  have back : ⟨(utf8 text).toArray⟩ = text.toByteArray := by
    rw [utf8, String.toUTF8_eq_toByteArray, Array.toArray_toList]
  unfold decode
  rw [bytes, Option.bind_eq_bind, Option.bind_some, back]
  exact dif_pos text.isValidUTF8

end Percent
