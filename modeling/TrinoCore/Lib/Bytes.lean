import Mathlib.Data.Vector.Basic

/-!
Byte strings, fixed-width integers and hexadecimal text.

`Hex.encode` writes lowercase digits and `Hex.decode` reads both cases, so a text that decodes
need not be the text that was written; `Hex.decode_encode` is the round trip that does hold.
-/

abbrev Bytes := List UInt8

/-- A byte string of a fixed length. -/
abbrev ByteVec (n : Nat) := List.Vector UInt8 n

namespace ByteVec

def ofBytes? (n : Nat) (bytes : Bytes) : Option (ByteVec n) :=
  if length : bytes.length = n then some ⟨bytes, length⟩ else none

@[simp] theorem ofBytes?_toList {n : Nat} (v : ByteVec n) : ofBytes? n v.toList = some v := by
  have length : v.toList.length = n := v.toList_length
  simp only [ofBytes?, length, ↓reduceDIte]
  rfl

theorem ofBytes?_eq_some {n : Nat} {bytes : Bytes} {v : ByteVec n} :
    ofBytes? n bytes = some v ↔ bytes = v.toList := by
  constructor
  · intro h
    unfold ofBytes? at h
    split at h
    · rw [← Option.some.inj h]
      rfl
    · cases h
  · rintro rfl
    exact ofBytes?_toList v

theorem toList_inj {n : Nat} {v w : ByteVec n} : v.toList = w.toList ↔ v = w :=
  ⟨fun h => List.Vector.toList_injective h, fun h => h ▸ rfl⟩

end ByteVec

def utf8 (text : String) : Bytes := text.toUTF8.data.toList

theorem utf8_inj {s t : String} : utf8 s = utf8 t ↔ s = t := by
  constructor
  · intro h
    have arrays : s.toUTF8 = t.toUTF8 := ByteArray.ext (Array.toList_inj.mp h)
    simpa only [String.toUTF8_eq_toByteArray, String.toByteArray_inj] using arrays
  · rintro rfl
    rfl

theorem utf8_ofList (cs : List Char) : utf8 (String.ofList cs) = cs.flatMap String.utf8EncodeChar := by
  simp [utf8, List.utf8Encode, String.toUTF8_eq_toByteArray]

theorem length_utf8 (text : String) : (utf8 text).length = text.utf8ByteSize := by
  simp [utf8]

theorem utf8ByteSize_ofList {cs : List Char} (ascii : ∀ c ∈ cs, c.utf8Size = 1) :
    (String.ofList cs).utf8ByteSize = cs.length := by
  rw [← length_utf8, utf8_ofList]
  induction cs with
  | nil => rfl
  | cons c rest ih =>
    obtain ⟨first, later⟩ := List.forall_mem_cons.mp ascii
    rw [List.flatMap_cons, List.length_append, String.length_utf8EncodeChar, first, ih later, List.length_cons, Nat.add_comm]

theorem isAlphanum_iff {c : Char} : c.isAlphanum = true ↔
    (65 ≤ c.toNat ∧ c.toNat ≤ 90) ∨ (97 ≤ c.toNat ∧ c.toNat ≤ 122) ∨ (48 ≤ c.toNat ∧ c.toNat ≤ 57) := by
  have value : c.toNat = c.val.toNat := rfl
  have ranges : c.isAlphanum = ((decide (c.val ≥ 65 ∧ c.val ≤ 90) || (decide (c.val ≥ 97) && decide (c.val ≤ 122))) ||
      (decide (c.val ≥ 48) && decide (c.val ≤ 57))) := rfl
  simp only [ranges, Bool.or_eq_true, Bool.and_eq_true, decide_eq_true_eq, ge_iff_le, UInt32.le_iff_toNat_le,
    UInt32.reduceToNat, value, or_assoc]

theorem toNat_lt_of_isAlphanum {c : Char} (alphanum : c.isAlphanum = true) : c.toNat < 128 := by
  rw [isAlphanum_iff] at alphanum
  omega

theorem utf8EncodeChar_ascii {c : Char} (ascii : c.toNat < 128) : String.utf8EncodeChar c = [UInt8.ofNat c.toNat] := by
  have single : c.utf8Size = 1 := Char.utf8Size_eq_one_iff.mpr (UInt32.le_iff_toNat_le.mpr (Nat.le_of_lt_succ ascii))
  exact String.utf8EncodeChar_eq_singleton single

theorem utf8EncodeChar_wide {c : Char} (wide : 128 ≤ c.toNat) :
    ∃ first rest, String.utf8EncodeChar c = first :: rest ∧ 128 ≤ first.toNat := by
  have value : c.toNat = c.val.toNat := rfl
  unfold String.utf8EncodeChar
  dsimp only
  split
  · omega
  · split
    · refine ⟨_, _, rfl, ?_⟩
      rw [UInt8.toNat_ofNat']
      omega
    · split
      · refine ⟨_, _, rfl, ?_⟩
        rw [UInt8.toNat_ofNat']
        omega
      · refine ⟨_, _, rfl, ?_⟩
        rw [UInt8.toNat_ofNat']
        omega

/-- What is asked of every byte, where only ASCII passes, is asked of every character. -/
theorem forall_utf8_iff {p : UInt8 → Prop} (ascii : ∀ b, p b → b.toNat < 128) (text : String) :
    (∀ b ∈ utf8 text, p b) ↔ ∀ c ∈ text.toList, c.toNat < 128 ∧ p (UInt8.ofNat c.toNat) := by
  have bytes : utf8 text = text.toList.flatMap String.utf8EncodeChar := by rw [← utf8_ofList, String.ofList_toList]
  rw [bytes, List.forall_mem_flatMap]
  apply forall₂_congr
  intro c _
  by_cases narrow : c.toNat < 128
  · rw [utf8EncodeChar_ascii narrow, List.forall_mem_singleton]
    exact (and_iff_right narrow).symm
  · obtain ⟨first, rest, encoded, high⟩ := utf8EncodeChar_wide (Nat.not_lt.mp narrow)
    rw [encoded]
    constructor
    · intro all
      have low := ascii first (all first List.mem_cons_self)
      omega
    · intro narrow'
      exact absurd narrow'.1 narrow

def UInt32.saturatingAdd (a b : UInt32) : UInt32 :=
  if a.toNat + b.toNat < 2 ^ 32 then a + b else 0xFFFFFFFF

theorem UInt32.toNat_saturatingAdd (a b : UInt32) :
    (a.saturatingAdd b).toNat = min (a.toNat + b.toNat) (2 ^ 32 - 1) := by
  unfold saturatingAdd
  split
  · rename_i room
    rw [UInt32.toNat_add, Nat.mod_eq_of_lt room]
    omega
  · have top : (0xFFFFFFFF : UInt32).toNat = 2 ^ 32 - 1 := rfl
    rw [top]
    omega

def UInt32.toBeBytes (w : UInt32) : Bytes :=
  [(w >>> 24).toUInt8, (w >>> 16).toUInt8, (w >>> 8).toUInt8, w.toUInt8]

@[simp] theorem UInt32.length_toBeBytes (w : UInt32) : w.toBeBytes.length = 4 := rfl

theorem UInt32.toBeBytes_inj {v w : UInt32} : v.toBeBytes = w.toBeBytes ↔ v = w := by
  constructor
  · intro h
    simp only [UInt32.toBeBytes, List.cons.injEq, and_true] at h
    obtain ⟨h3, h2, h1, h0⟩ := h
    replace h3 := congrArg UInt8.toNat h3
    replace h2 := congrArg UInt8.toNat h2
    replace h1 := congrArg UInt8.toNat h1
    replace h0 := congrArg UInt8.toNat h0
    simp only [UInt32.toNat_toUInt8, UInt32.toNat_shiftRight, Nat.shiftRight_eq_div_pow] at h3 h2 h1 h0
    have hv := v.toNat_lt
    have hw := w.toNat_lt
    apply UInt32.toNat_inj.mp
    simp only [UInt32.reduceToNat, Nat.reduceMod, Nat.reducePow] at h3 h2 h1 h0 hv hw
    omega
  · rintro rfl
    rfl

def UInt64.toBeBytes (w : UInt64) : Bytes :=
  [(w >>> 56).toUInt8, (w >>> 48).toUInt8, (w >>> 40).toUInt8, (w >>> 32).toUInt8,
    (w >>> 24).toUInt8, (w >>> 16).toUInt8, (w >>> 8).toUInt8, w.toUInt8]

theorem UInt64.lt_add_one_iff {w : UInt64} : w < w + 1 ↔ w < 0xFFFFFFFFFFFFFFFF := by
  rw [UInt64.lt_iff_toNat_lt, UInt64.lt_iff_toNat_lt, UInt64.toNat_add, UInt64.toNat_one]
  have top : (0xFFFFFFFFFFFFFFFF : UInt64).toNat = 2 ^ 64 - 1 := rfl
  have bound := w.toNat_lt
  omega

namespace Hex

def pair (b : UInt8) : List Char :=
  [Nat.digitChar (b.toNat / 16), Nat.digitChar (b.toNat % 16)]

def encode (bytes : Bytes) : String :=
  String.ofList (bytes.flatMap pair)

def digitValue (c : Char) : Option Nat :=
  if '0' ≤ c ∧ c ≤ '9' then some (c.toNat - '0'.toNat)
  else if 'a' ≤ c ∧ c ≤ 'f' then some (c.toNat - 'a'.toNat + 10)
  else if 'A' ≤ c ∧ c ≤ 'F' then some (c.toNat - 'A'.toNat + 10)
  else none

/-- Digits two at a time; an odd number of them, or any other character, is an error. -/
def decodeChars : List Char → Option Bytes
  | [] => some []
  | [_] => none
  | hi :: lo :: rest => do
    let h ← digitValue hi
    let l ← digitValue lo
    let tail ← decodeChars rest
    return UInt8.ofNat (16 * h + l) :: tail

def decode (text : String) : Option Bytes :=
  decodeChars text.toList

theorem digitValue_digitChar : ∀ d < 16, digitValue (Nat.digitChar d) = some d := by
  decide

theorem decodeChars_pairs (bytes : Bytes) : decodeChars (bytes.flatMap pair) = some bytes := by
  induction bytes with
  | nil => rfl
  | cons b rest ih =>
    have bound : b.toNat < 256 := b.toNat_lt
    have high := digitValue_digitChar (b.toNat / 16) (by omega)
    have low := digitValue_digitChar (b.toNat % 16) (by omega)
    have joined : 16 * (b.toNat / 16) + b.toNat % 16 = b.toNat := by omega
    simp only [List.flatMap_cons, pair, List.cons_append, List.nil_append, decodeChars, high, low, ih,
      Option.bind_eq_bind, Option.bind_some, joined, UInt8.ofNat_toNat]
    rfl

@[simp] theorem decode_encode (bytes : Bytes) : decode (encode bytes) = some bytes := by
  unfold decode
  rw [encode, String.toList_ofList, decodeChars_pairs]

theorem encode_inj {a b : Bytes} : encode a = encode b ↔ a = b := by
  constructor
  · intro h
    have decoded := congrArg decode h
    simpa using decoded
  · rintro rfl
    rfl

theorem length_pairs (bytes : Bytes) : (bytes.flatMap pair).length = 2 * bytes.length := by
  induction bytes with
  | nil => rfl
  | cons b rest ih =>
    rw [List.flatMap_cons, List.length_append, ih, List.length_cons]
    simp only [pair, List.length_cons, List.length_nil]
    omega

/-- A text that starts with the hex of `n` bytes determines those bytes and what follows them. -/
theorem encode_append_inj {n : Nat} {v w : ByteVec n} {s t : String}
    (h : encode v.toList ++ s = encode w.toList ++ t) : v = w ∧ s = t := by
  have chars := congrArg String.toList h
  simp only [encode, String.toList_append, String.toList_ofList] at chars
  have lengths : (v.toList.flatMap pair).length = (w.toList.flatMap pair).length := by
    rw [length_pairs, length_pairs, v.toList_length, w.toList_length]
  obtain ⟨heads, tails⟩ := List.append_inj chars lengths
  have decoded := congrArg decodeChars heads
  rw [decodeChars_pairs, decodeChars_pairs] at decoded
  exact ⟨ByteVec.toList_inj.mp (Option.some.inj decoded), String.toList_inj.mp tails⟩

end Hex
