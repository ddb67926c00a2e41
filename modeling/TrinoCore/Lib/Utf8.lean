import TrinoCore.Lib.Bytes

/-!
Lossy decoding of UTF-8.

Bytes that are not UTF-8 become replacement characters, one for each longest start of a character that
was cut short, and one for each other byte. What is UTF-8 comes back as it is.
-/

namespace Utf8

def isContinuation (b : UInt8) : Bool := 0x80 ≤ b && b ≤ 0xBF

def secondByteAllowed (first second : UInt8) : Bool :=
  if first = 0xE0 then 0xA0 ≤ second && second ≤ 0xBF
  else if first = 0xED then 0x80 ≤ second && second ≤ 0x9F
  else if first = 0xF0 then 0x90 ≤ second && second ≤ 0xBF
  else if first = 0xF4 then 0x80 ≤ second && second ≤ 0x8F
  else 0xE1 ≤ first && first ≤ 0xF3 && isContinuation second

/-- How many bytes one replacement character stands for, where no character starts. -/
def invalidLength : Bytes → Nat
  | first :: second :: third :: _ =>
    if !secondByteAllowed first second then 1
    else if 0xF0 ≤ first && isContinuation third then 3
    else 2
  | [first, second] => if secondByteAllowed first second then 2 else 1
  | _ => 1

def decodeChar? (bytes : Bytes) : Option Char := bytes.toByteArray.utf8DecodeChar? 0

/-- One character for each call; `fuel` is at least the number of bytes. -/
def lossyChars : Nat → Bytes → List Char
  | 0, _ => []
  | _, [] => []
  | fuel + 1, first :: rest =>
    match decodeChar? (first :: rest) with
    | some c => c :: lossyChars fuel ((first :: rest).drop c.utf8Size)
    | none => '\ufffd' :: lossyChars fuel ((first :: rest).drop (invalidLength (first :: rest)))

def fromUtf8Lossy (bytes : Bytes) : String := String.ofList (lossyChars bytes.length bytes)

theorem decodeChar?_encode (c : Char) (rest : Bytes) : decodeChar? (String.utf8EncodeChar c ++ rest) = some c := by
  unfold decodeChar?
  rw [List.toByteArray_append]
  exact ByteArray.utf8DecodeChar?_utf8EncodeChar_append

theorem lossyChars_encode (fuel : Nat) (cs : List Char) (enough : (cs.flatMap String.utf8EncodeChar).length ≤ fuel) :
    lossyChars fuel (cs.flatMap String.utf8EncodeChar) = cs := by
  induction cs generalizing fuel with
  | nil => cases fuel <;> rfl
  | cons c cs ih =>
    have size := String.length_utf8EncodeChar c
    have positive := c.utf8Size_pos
    rw [List.flatMap_cons, List.length_append] at enough
    have decoded := decodeChar?_encode c (cs.flatMap String.utf8EncodeChar)
    have rest : (String.utf8EncodeChar c ++ cs.flatMap String.utf8EncodeChar).drop c.utf8Size =
        cs.flatMap String.utf8EncodeChar := by
      rw [← size]
      exact List.drop_left
    cases fuel with
    | zero => omega
    | succ fuel =>
      have tail := ih fuel (by omega)
      rw [List.flatMap_cons]
      cases start : String.utf8EncodeChar c ++ cs.flatMap String.utf8EncodeChar with
      | nil =>
        have length := congrArg List.length start
        rw [List.length_append, List.length_nil] at length
        omega
      | cons first others =>
        rw [start] at decoded rest
        simp only [lossyChars, decoded, rest, tail]

theorem fromUtf8Lossy_utf8 (text : String) : fromUtf8Lossy (utf8 text) = text := by
  have bytes := utf8_ofList text.toList
  rw [String.ofList_toList] at bytes
  rw [fromUtf8Lossy, bytes, lossyChars_encode _ text.toList (Nat.le_refl _), String.ofList_toList]

end Utf8
