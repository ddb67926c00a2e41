import TrinoCore.Lib.Positional
import TrinoCore.Totp.Model

/-!
Codes against RFC 6238: the code of a step as the standard defines it, and the inputs that pass for it.
-/

namespace TrinoCore

open Positional

/-- Dynamic truncation: 31 bits of the four bytes that the last four bits point to. -/
def dynamicTruncation (mac : ByteVec 20) : Nat :=
  value 256 (((mac.toList.drop ((mac.get (Fin.last 19)).toNat % 16)).take 4).map UInt8.toNat) % 2 ^ 31

/-- The code of RFC 6238 for one time step: HMAC-SHA1 over the step as eight bytes, truncated to six digits. -/
def rfcCode [Hmac] (secret : Bytes) (step : Nat) : String :=
  let mac := hmacSha1 secret ((digits 256 8 step).map UInt8.ofNat)
  String.ofList ((digits 10 6 (dynamicTruncation mac % 10 ^ 6)).map Nat.digitChar)

theorem padded_toDigits {width n : Nat} (fits : n < 10 ^ width) (positive : 0 < width) :
    List.replicate (width - (Nat.toDigits 10 n).length) '0' ++ Nat.toDigits 10 n =
      (digits 10 width n).map Nat.digitChar := by
  induction width generalizing n with
  | zero => cases positive
  | succ width ih =>
    rw [digits, List.map_append, List.map_singleton]
    by_cases small : n < 10
    · rw [Nat.toDigits_of_lt_base small, Nat.div_eq_of_lt small, Nat.mod_eq_of_lt small, digits_zero, List.map_replicate]
      rfl
    · have rest : n / 10 < 10 ^ width := by
        rw [Nat.pow_succ] at fits
        omega
      have room : 0 < width := by
        rcases Nat.eq_zero_or_pos width with rfl | room
        · omega
        · exact room
      rw [← ih rest room, Nat.toDigits_of_base_le (by decide) (Nat.not_lt.mp small), List.length_append,
        List.length_singleton, Nat.add_sub_add_right, List.append_assoc]

theorem zeroPadded_eq {width n : Nat} (fits : n < 10 ^ width) (positive : 0 < width) :
    zeroPadded width n = String.ofList ((digits 10 width n).map Nat.digitChar) := by
  rw [← padded_toDigits fits positive, String.ofList_append]
  have shortest : Nat.repr n = String.ofList (Nat.toDigits 10 n) := rfl
  have length : (Nat.repr n).length = (Nat.toDigits 10 n).length := by rw [shortest, String.length_ofList]
  rw [zeroPadded, length, shortest]

theorem digitChar_decimal : ∀ d < 10, (Nat.digitChar d).isDigit = true ∧ (Nat.digitChar d).utf8Size = 1 ∧
    isWhitespace (Nat.digitChar d) = false := by
  decide

theorem foldl_xor_eq_zero (pairs : List (UInt8 × UInt8)) (diff : UInt8) :
    pairs.foldl (fun diff pair => diff ||| (pair.1 ^^^ pair.2)) diff = 0 ↔ diff = 0 ∧ ∀ pair ∈ pairs, pair.1 = pair.2 := by
  induction pairs generalizing diff with
  | nil => simp
  | cons pair rest ih =>
    rw [List.foldl_cons, ih, UInt8.or_eq_zero_iff, UInt8.xor_eq_zero_iff, List.forall_mem_cons, and_assoc]

theorem forall_zip_eq {xs ys : Bytes} (length : xs.length = ys.length) :
    (∀ pair ∈ xs.zip ys, pair.1 = pair.2) ↔ xs = ys := by
  induction xs generalizing ys with
  | nil => simpa [eq_comm] using length
  | cons x xs ih =>
    cases ys with
    | nil => cases length
    | cons y ys =>
      rw [List.zip_cons_cons, List.forall_mem_cons, ih (Nat.succ.inj length), List.cons.injEq]

theorem constantTimeStrEq_iff {a b : String} : constantTimeStrEq a b = true ↔ a = b := by
  unfold constantTimeStrEq
  by_cases size : a.utf8ByteSize = b.utf8ByteSize
  · have length : (utf8 a).length = (utf8 b).length := by rw [length_utf8, length_utf8, size]
    rw [if_neg (not_not_intro size), beq_iff_eq, foldl_xor_eq_zero, forall_zip_eq length, utf8_inj]
    exact and_iff_right rfl
  · rw [if_pos size]
    constructor
    · intro absurd
      cases absurd
    · rintro rfl
      exact absurd rfl size

theorem toBeBytes_eq_digits (w : UInt64) : w.toBeBytes = (digits 256 8 w.toNat).map UInt8.ofNat := by
  have byte (shift : UInt64) (k : Nat) (eight : shift.toNat % 64 = 8 * k) :
      (w >>> shift).toUInt8 = UInt8.ofNat (w.toNat / 256 ^ k % 256) := by
    apply UInt8.toNat_inj.mp
    rw [UInt64.toNat_toUInt8, UInt64.toNat_shiftRight, eight, Nat.shiftRight_eq_div_pow, Nat.pow_mul]
    rw [UInt8.toNat_ofNat_of_lt' (Nat.mod_lt _ (by decide))]
  have last : w.toUInt8 = UInt8.ofNat (w.toNat % 256) := by
    apply UInt8.toNat_inj.mp
    rw [UInt64.toNat_toUInt8, UInt8.toNat_ofNat_of_lt' (Nat.mod_lt _ (by decide))]
  simp only [UInt64.toBeBytes, digits, List.nil_append, List.cons_append, List.map_cons, List.map_nil, Nat.div_div_eq_div_mul,
    last, byte 56 7 rfl, byte 48 6 rfl, byte 40 5 rfl, byte 32 4 rfl, byte 24 3 rfl, byte 16 2 rfl, byte 8 1 rfl]
  rfl

theorem toNat_shifted_byte (b : UInt8) {k : UInt32} (room : k.toNat ≤ 24) :
    (b.toUInt32 <<< k).toNat = b.toNat * 2 ^ k.toNat := by
  have small : k.toNat % 32 = k.toNat := Nat.mod_eq_of_lt (by omega)
  have fits : b.toNat * 2 ^ k.toNat < 2 ^ 8 * 2 ^ 24 :=
    Nat.mul_lt_mul_of_lt_of_le b.toNat_lt (Nat.pow_le_pow_right (by decide) room) (Nat.two_pow_pos _)
  rw [← Nat.pow_add] at fits
  rw [UInt32.toNat_shiftLeft, UInt8.toNat_toUInt32, small, Nat.shiftLeft_eq, Nat.mod_eq_of_lt fits]

/-- Four bytes shifted into a word, without the top bit, are their number without its top bit. -/
theorem truncated_word (a b c d : UInt8) :
    ((a &&& 0x7f).toUInt32 <<< 24 ||| b.toUInt32 <<< 16 ||| c.toUInt32 <<< 8 ||| d.toUInt32).toNat =
      value 256 [a.toNat, b.toNat, c.toNat, d.toNat] % 2 ^ 31 := by
  have top : (a &&& 0x7f).toNat = a.toNat % 128 := by
    rw [UInt8.toNat_and]
    exact Nat.and_two_pow_sub_one_eq_mod a.toNat 7
  have ha := a.toNat_lt
  have hb := b.toNat_lt
  have hc := c.toNat_lt
  have hd := d.toNat_lt
  have first := toNat_shifted_byte (a &&& 0x7f) (show (24 : UInt32).toNat ≤ 24 by decide)
  have second := toNat_shifted_byte b (show (16 : UInt32).toNat ≤ 24 by decide)
  have third := toNat_shifted_byte c (show (8 : UInt32).toNat ≤ 24 by decide)
  rw [UInt32.toNat_or, UInt32.toNat_or, UInt32.toNat_or, first, second, third, top, UInt8.toNat_toUInt32]
  simp only [UInt32.reduceToNat, value, List.foldl_cons, List.foldl_nil]
  have two : a.toNat % 128 * 2 ^ 24 ||| b.toNat * 2 ^ 16 = (a.toNat % 128 * 256 + b.toNat) * 2 ^ 16 := by
    rw [mul_two_pow_or 24 (by omega)]
    omega
  have three : (a.toNat % 128 * 256 + b.toNat) * 2 ^ 16 ||| c.toNat * 2 ^ 8 =
      ((a.toNat % 128 * 256 + b.toNat) * 256 + c.toNat) * 2 ^ 8 := by
    rw [mul_two_pow_or 16 (by omega)]
    omega
  rw [two, three, mul_two_pow_or 8 hd]
  omega

theorem four_bytes {n : Nat} (mac : ByteVec n) {offset : Nat} (inside : offset + 3 < n) :
    (mac.toList.drop offset).take 4 = [mac.get ⟨offset, by omega⟩, mac.get ⟨offset + 1, by omega⟩,
      mac.get ⟨offset + 2, by omega⟩, mac.get ⟨offset + 3, inside⟩] := by
  have length := mac.toList_length
  have byte (i : Nat) (below : i < n) (inList : i < mac.toList.length) : mac.toList[i] = mac.get ⟨i, below⟩ := by
    rw [List.Vector.get_eq_get_toList]
    rfl
  rw [List.drop_eq_getElem_cons (by omega), List.drop_eq_getElem_cons (by omega), List.drop_eq_getElem_cons (by omega),
    List.drop_eq_getElem_cons (by omega), byte _ (by omega), byte _ (by omega), byte _ (by omega), byte _ inside]
  rfl

theorem truncated_mac (mac : ByteVec 20) (inside : (mac.get 19 &&& 0x0f).toNat + 3 < 20) :
    ((mac.get ⟨(mac.get 19 &&& 0x0f).toNat, by omega⟩ &&& 0x7f).toUInt32 <<< 24
      ||| (mac.get ⟨(mac.get 19 &&& 0x0f).toNat + 1, by omega⟩).toUInt32 <<< 16
      ||| (mac.get ⟨(mac.get 19 &&& 0x0f).toNat + 2, by omega⟩).toUInt32 <<< 8
      ||| (mac.get ⟨(mac.get 19 &&& 0x0f).toNat + 3, inside⟩).toUInt32).toNat = dynamicTruncation mac := by
  have points : (mac.get (Fin.last 19)).toNat % 16 = (mac.get 19 &&& 0x0f).toNat := by
    rw [UInt8.toNat_and]
    exact (Nat.and_two_pow_sub_one_eq_mod _ 4).symm
  rw [truncated_word, dynamicTruncation, points, four_bytes mac inside]
  rfl

section
variable [Hmac]

theorem totpCode_eq (secret : Bytes) (time : UInt64) :
    totpCode secret time defaultDigits defaultStep = rfcCode secret (time.toNat / 30) := by
  have counter : (time / defaultStep).toBeBytes = (digits 256 8 (time.toNat / 30)).map UInt8.ofNat := by
    rw [toBeBytes_eq_digits, UInt64.toNat_div]
    rfl
  have million : (UInt32.ofNat (10 ^ defaultDigits.toNat)).toNat = 10 ^ 6 := rfl
  unfold totpCode rfcCode
  dsimp only
  rw [← counter, UInt32.toNat_mod, truncated_mac, million]
  exact zeroPadded_eq (Nat.mod_lt _ (by decide)) (by decide)

/-! ### The inputs that pass -/

theorem rfcCode_digits {secret : Bytes} {step : Nat} {c : Char} (present : c ∈ (rfcCode secret step).toList) :
    c.isDigit = true ∧ c.utf8Size = 1 ∧ isWhitespace c = false := by
  unfold rfcCode at present
  dsimp only at present
  rw [String.toList_ofList] at present
  obtain ⟨d, digit, rfl⟩ := List.mem_map.mp present
  exact digitChar_decimal d (lt_of_mem_digits (by decide) digit)

theorem rfcCode_shape (secret : Bytes) (step : Nat) :
    (rfcCode secret step).utf8ByteSize = 6 ∧ (rfcCode secret step).toList.all Char.isDigit = true := by
  constructor
  · have size : (String.ofList (rfcCode secret step).toList).utf8ByteSize = (rfcCode secret step).toList.length :=
      utf8ByteSize_ofList fun c present => (rfcCode_digits present).2.1
    rw [String.ofList_toList] at size
    rw [size, rfcCode, String.toList_ofList, List.length_map, length_digits]
  · rw [List.all_eq_true]
    exact fun c present => (rfcCode_digits present).1

theorem rfcCode_cleaned (secret : Bytes) (step : Nat) :
    String.ofList ((rfcCode secret step).toList.filter fun c => !isWhitespace c) = rfcCode secret step := by
  have kept : ∀ c ∈ (rfcCode secret step).toList, (!isWhitespace c) = true := by
    intro c present
    rw [(rfcCode_digits present).2.2]
    rfl
  rw [List.filter_eq_self.mpr kept, String.ofList_toList]

omit [Hmac] in
theorem checkTime {now offset : Int64} {t : Nat} (sum : now.toInt + offset.toInt = t) (fits : t < 2 ^ 63) :
    (now + offset).toUInt64.toNat = t := by
  have exact : (now + offset).toInt = t := by
    rw [Int64.toInt_add, sum]
    exact Int.bmod_eq_of_le (by omega) (by omega)
  have positive : (0 : Int64) ≤ now + offset := by
    rw [Int64.le_iff_toInt_le, exact, Int64.toInt_zero]
    omega
  rw [Int64.toNat_toUInt64_of_le positive, ← Int64.toNat_toInt, exact, Int.toNat_natCast]

theorem isTotpCodeValid_steps (input : String) (secret : Bytes) {now : Int64} (late : 30 ≤ now.toInt)
    (fits : now.toInt + 30 < 2 ^ 63) :
    isTotpCodeValid input secret now = true ↔
      ∃ step ∈ [now.toInt.toNat / 30 - 1, now.toInt.toNat / 30, now.toInt.toNat / 30 + 1],
        String.ofList (input.toList.filter fun c => !isWhitespace c) = rfcCode secret step := by
  unfold isTotpCodeValid
  dsimp only
  generalize String.ofList (input.toList.filter fun c => !isWhitespace c) = cleaned
  have offsets : (-30 : Int64).toInt = -30 ∧ (0 : Int64).toInt = 0 ∧ (30 : Int64).toInt = 30 := ⟨rfl, rfl, rfl⟩
  have before : (now + -30).toUInt64.toNat / 30 = now.toInt.toNat / 30 - 1 := by
    rw [checkTime (show now.toInt + (-30 : Int64).toInt = (now.toInt.toNat - 30 : Nat) by omega) (by omega)]
    omega
  have current : (now + 0).toUInt64.toNat / 30 = now.toInt.toNat / 30 := by
    rw [checkTime (show now.toInt + (0 : Int64).toInt = now.toInt.toNat by omega) (by omega)]
  have after : (now + 30).toUInt64.toNat / 30 = now.toInt.toNat / 30 + 1 := by
    rw [checkTime (show now.toInt + (30 : Int64).toInt = (now.toInt.toNat + 30 : Nat) by omega) (by omega)]
    omega
  have passes {offset : Int64} {step : Nat} (step_eq : (now + offset).toUInt64.toNat / 30 = step) :
      constantTimeStrEq (totpCode secret (now + offset).toUInt64 defaultDigits defaultStep) cleaned = true ↔
        cleaned = rfcCode secret step := by
    rw [constantTimeStrEq_iff, totpCode_eq, step_eq, eq_comm]
  have tried : [(-30 : Int64), 0, 30].any (fun offset =>
      constantTimeStrEq (totpCode secret (now + offset).toUInt64 defaultDigits defaultStep) cleaned) = true ↔
        ∃ step ∈ [now.toInt.toNat / 30 - 1, now.toInt.toNat / 30, now.toInt.toNat / 30 + 1], cleaned = rfcCode secret step := by
    simp only [List.any_cons, List.any_nil, Bool.or_false, Bool.or_eq_true, passes before, passes current, passes after,
      List.mem_cons, List.not_mem_nil, or_false, exists_eq_or_imp, exists_eq_left]
  split
  · rename_i shape
    constructor
    · intro absurd
      cases absurd
    · rintro ⟨step, _, rfl⟩
      obtain ⟨size, digits⟩ := rfcCode_shape secret step
      rw [size, digits] at shape
      exact absurd shape (by decide)
  · exact tried

/-- What passes is the code of the current step or of one next to it, typed with any spacing; so a
code passes for as long as its step is no more than one away. -/
theorem isTotpCodeValid_iff (secret : Bytes) {now : Int64} (late : 30 ≤ now.toInt) (fits : now.toInt + 30 < 2 ^ 63) :
    (∀ input, isTotpCodeValid input secret now = true ↔
      ∃ step ∈ [now.toInt.toNat / 30 - 1, now.toInt.toNat / 30, now.toInt.toNat / 30 + 1],
        String.ofList (input.toList.filter fun c => !isWhitespace c) = rfcCode secret step) ∧
      ∀ time : UInt64,
        (((time.toNat / 30 : Nat) - now.toInt / 30).natAbs ≤ 1 →
          isTotpCodeValid (totpCode secret time defaultDigits defaultStep) secret now = true) ∧
        ((time.toNat - now.toInt).natAbs ≤ 30 →
          isTotpCodeValid (totpCode secret time defaultDigits defaultStep) secret now = true) := by
  have steps (input : String) := isTotpCodeValid_steps input secret late fits
  have near (time : UInt64) (close : ((time.toNat / 30 : Nat) - now.toInt / 30).natAbs ≤ 1) :
      isTotpCodeValid (totpCode secret time defaultDigits defaultStep) secret now = true := by
    rw [steps, totpCode_eq]
    refine ⟨time.toNat / 30, ?_, rfcCode_cleaned secret _⟩
    simp only [List.mem_cons, List.not_mem_nil, or_false]
    omega
  exact ⟨steps, fun time => ⟨near time, fun close => near time (by omega)⟩⟩

end

/-- The HMAC-SHA1 of the counter 1 under the key of the RFC. -/
abbrev vectorHmac : Hmac where
  hmacSha1 _ _ := ⟨[0x75, 0xa4, 0x8a, 0x19, 0xd4, 0xcb, 0xe1, 0x00, 0x64, 0x4e, 0x8a, 0xc1, 0x39, 0x7e, 0xea, 0x74, 0x7a,
    0x2d, 0x33, 0xab], rfl⟩

def vectorKey : Bytes := utf8 "12345678901234567890"

example : @totpCode vectorHmac vectorKey 59 8 30 = "94287082" := by decide

theorem isTotpCodeValid_iff_vector : @isTotpCodeValid vectorHmac "287 082" vectorKey 59 = true := by
  have code : @rfcCode vectorHmac vectorKey 1 = "287082" := by decide
  refine ((@isTotpCodeValid_iff vectorHmac vectorKey 59 (by decide) (by decide)).1 "287 082").mpr ⟨1, by decide, ?_⟩
  rw [code]
  decide

end TrinoCore
