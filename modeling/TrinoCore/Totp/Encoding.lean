import TrinoCore.Lib.Base32
import TrinoCore.Totp.Model

namespace TrinoCore

open Base32 Positional

/-- The bits taken so far are those of the digits written and the pending ones at the low end of the
accumulator, whatever stands above them. -/
structure Written (taken : List Nat) (bits : Nat) (value : UInt32) (out : String) (groups : List (Fin 32)) : Prop where
  text : out.toList = groups.map alphabet.get
  stream : taken = groupBits groups ++ digits 2 bits value.toNat

theorem pushDigit_groups {out : String} {groups : List (Fin 32)} (written : out.toList = groups.map alphabet.get) (w : UInt32) :
    ∃ last : Fin 32, (pushDigit out w).toList = (groups ++ [last]).map alphabet.get ∧ digits 2 5 last = digits 2 5 w.toNat := by
  refine ⟨⟨(w &&& 0x1f).toNat, lowFive_lt w⟩, ?_, ?_⟩
  · rw [pushDigit, String.toList_push, written, List.map_append]
    rfl
  · have low : (w &&& 0x1f).toNat = w.toNat % 2 ^ 5 := by
      rw [UInt32.toNat_and]
      exact Nat.and_two_pow_sub_one_eq_mod _ 5
    apply digits_congr
    dsimp only
    rw [low, Nat.mod_mod]

theorem pushDigits_few {value : UInt32} {bits : Nat} {out : String} (few : bits < 5) :
    pushDigits value bits out = (bits, out) := by
  unfold pushDigits
  split
  · omega
  · rfl

theorem Written.pushDigits {taken : List Nat} {bits : Nat} {value : UInt32} {out : String} {groups : List (Fin 32)}
    (written : Written taken bits value out groups) (small : bits < 32) :
    (TrinoCore.pushDigits value bits out).1 < 5 ∧
      ∃ groups', Written taken (TrinoCore.pushDigits value bits out).1 value (TrinoCore.pushDigits value bits out).2 groups' := by
  induction bits, out using TrinoCore.pushDigits.induct value generalizing groups with
  | case1 bits out ih =>
    obtain ⟨last, pushed, group⟩ := pushDigit_groups written.text (value >>> UInt32.ofNat bits)
    have amount : (UInt32.ofNat bits).toNat % 32 = bits := by
      rw [UInt32.toNat_ofNat', Nat.mod_eq_of_lt (show bits < 2 ^ 32 by omega), Nat.mod_eq_of_lt (by omega)]
    have shifted : (value >>> UInt32.ofNat bits).toNat = value.toNat / 2 ^ bits := by
      rw [UInt32.toNat_shiftRight, amount, Nat.shiftRight_eq_div_pow]
    have next : Written taken bits value (pushDigit out (value >>> UInt32.ofNat bits)) (groups ++ [last]) := by
      have pending : digits 2 (bits + 5) value.toNat = digits 2 5 (value.toNat / 2 ^ bits) ++ digits 2 bits value.toNat := by
        rw [Nat.add_comm, digits_add]
      refine ⟨pushed, written.stream.trans ?_⟩
      rw [groupBits_append_singleton, group, shifted, List.append_assoc, ← pending]
    exact ih next (by omega)
  | case2 bits out short =>
    have few : bits < 5 := by
      by_contra enough
      exact short (bits - 5) (by omega)
    rw [pushDigits_few few]
    exact ⟨few, groups, written⟩

/-- The accumulator takes the next byte in at its low end. -/
theorem takeByte_pending {value : UInt32} {bits : Nat} (few : bits < 5) (b : UInt8) :
    digits 2 (bits + 8) (value <<< 8 ||| b.toUInt32).toNat = digits 2 bits value.toNat ++ digits 2 8 b.toNat := by
  have joined : (value <<< 8 ||| b.toUInt32).toNat = value.toNat % 2 ^ 24 * 2 ^ 8 + b.toNat := by
    have shifted : (value <<< 8).toNat = value.toNat % 2 ^ 24 * 2 ^ 8 := by
      rw [UInt32.toNat_shiftLeft, Nat.shiftLeft_eq]
      exact Nat.mul_mod_mul_right (2 ^ 8) value.toNat (2 ^ 24)
    rw [UInt32.toNat_or, shifted, UInt8.toNat_toUInt32, mul_two_pow_or 8 b.toNat_lt]
  have byte := b.toNat_lt
  rw [joined, digits_add]
  congr 1
  · apply digits_congr
    have above : (value.toNat % 2 ^ 24 * 2 ^ 8 + b.toNat) / 2 ^ 8 = value.toNat % 2 ^ 24 := by omega
    rw [above]
    exact Nat.mod_mod_of_dvd _ (Nat.pow_dvd_pow 2 (by omega))
  · apply digits_congr
    omega

theorem Written.takeByte {taken : List Nat} {bits : Nat} {value : UInt32} {out : String} {groups : List (Fin 32)}
    (written : Written taken bits value out groups) (few : bits < 5) (b : UInt8) :
    (TrinoCore.takeByte (bits, value, out) b).1 < 5 ∧
      ∃ groups', Written (taken ++ digits 2 8 b.toNat) (TrinoCore.takeByte (bits, value, out) b).1
        (TrinoCore.takeByte (bits, value, out) b).2.1 (TrinoCore.takeByte (bits, value, out) b).2.2 groups' := by
  have next : Written (taken ++ digits 2 8 b.toNat) (bits + 8) (value <<< 8 ||| b.toUInt32) out groups := by
    refine ⟨written.text, ?_⟩
    rw [written.stream, takeByte_pending few, List.append_assoc]
  exact next.pushDigits (by omega)

theorem Written.foldl {taken : List Nat} {bits : Nat} {value : UInt32} {out : String} {groups : List (Fin 32)}
    (written : Written taken bits value out groups) (few : bits < 5) (bytes : Bytes) :
    let pending := bytes.foldl TrinoCore.takeByte (bits, value, out)
    pending.1 < 5 ∧ ∃ groups', Written (taken ++ bitString bytes) pending.1 pending.2.1 pending.2.2 groups' := by
  induction bytes generalizing taken bits value out groups with
  | nil => exact ⟨few, groups, by rw [bitString, List.flatMap_nil, List.append_nil]; exact written⟩
  | cons b rest ih =>
    obtain ⟨few', groups', written'⟩ := written.takeByte few b
    have stream : taken ++ bitString (b :: rest) = taken ++ digits 2 8 b.toNat ++ bitString rest := by
      rw [List.append_assoc]
      rfl
    rw [stream]
    exact ih written' few'

theorem filled_digit {value : UInt32} {bits : Nat} (few : bits ≤ 5) :
    digits 2 5 (value <<< UInt32.ofNat (5 - bits)).toNat = digits 2 bits value.toNat ++ List.replicate (5 - bits) 0 := by
  have amount : (UInt32.ofNat (5 - bits)).toNat % 32 = 5 - bits := by
    rw [UInt32.toNat_ofNat', Nat.mod_eq_of_lt (show 5 - bits < 2 ^ 32 by omega), Nat.mod_eq_of_lt (by omega)]
  have shifted : digits 2 5 (value <<< UInt32.ofNat (5 - bits)).toNat = digits 2 5 (value.toNat * 2 ^ (5 - bits)) := by
    apply digits_congr
    rw [UInt32.toNat_shiftLeft, amount, Nat.shiftLeft_eq]
    exact Nat.mod_mod_of_dvd _ (Nat.pow_dvd_pow 2 (by decide))
  have zeros : digits 2 (5 - bits) (value.toNat * 2 ^ (5 - bits)) = List.replicate (5 - bits) 0 := by
    rw [← digits_zero 2 (5 - bits)]
    apply digits_congr
    rw [Nat.mul_mod_left, Nat.zero_mod]
  have parts := digits_add 2 bits (5 - bits) (value.toNat * 2 ^ (5 - bits))
  rw [Nat.add_sub_cancel' few, Nat.mul_div_cancel _ (Nat.two_pow_pos _), zeros] at parts
  rw [shifted, parts]

theorem Written.finish {taken : List Nat} {bits : Nat} {value : UInt32} {out : String} {groups : List (Fin 32)}
    (written : Written taken bits value out groups) (few : bits < 5) : ∃ groups' missing, missing < 5 ∧
      (if 0 < bits then pushDigit out (value <<< UInt32.ofNat (5 - bits)) else out).toList = groups'.map alphabet.get ∧
        groupBits groups' = taken ++ List.replicate missing 0 := by
  split
  · rename_i pending
    obtain ⟨last, pushed, group⟩ := pushDigit_groups written.text (value <<< UInt32.ofNat (5 - bits))
    refine ⟨_, 5 - bits, by omega, pushed, ?_⟩
    rw [groupBits_append_singleton, group, filled_digit (by omega), written.stream, List.append_assoc]
  · rename_i done
    obtain rfl : bits = 0 := by omega
    refine ⟨groups, 0, by decide, written.text, ?_⟩
    rw [written.stream, digits, List.replicate_zero, List.append_nil, List.append_nil]

theorem toBase32_encodes (bytes : Bytes) : ∃ groups, (toBase32 bytes).toList = groups.map alphabet.get ∧ Encodes bytes groups := by
  have start : Written [] 0 0 "" [] := ⟨rfl, rfl⟩
  obtain ⟨few, groups, written⟩ := start.foldl (by decide) bytes
  obtain ⟨groups', missing, less, text, filled⟩ := written.finish few
  exact ⟨groups', text, ⟨missing, less, filled⟩⟩

theorem decode_toBase32 (bytes : Bytes) : Base32.decode (toBase32 bytes) = some bytes := by
  obtain ⟨groups, text, encodes⟩ := toBase32_encodes bytes
  have read := encodes.decode
  rw [← text, String.ofList_toList] at read
  exact read

/-- The text has a character for every five bits, the `i`-th being the letter of the `i`-th group of the
big-endian bit string, and a reader of base32 takes the bytes back. -/
theorem toBase32_rfc4648 (bytes : Bytes) :
    (toBase32 bytes).toList.length = (8 * bytes.length + 4) / 5 ∧
      (∀ i < (8 * bytes.length + 4) / 5, (toBase32 bytes).toList[i]? = alphabet.toList[group (bitString bytes) i]?) ∧
      Base32.decode (toBase32 bytes) = some bytes := by
  obtain ⟨groups, text, encodes⟩ := toBase32_encodes bytes
  have length := encodes.length
  refine ⟨?_, ?_, decode_toBase32 bytes⟩
  · rw [text, List.length_map, length]
  · intro i below
    rw [← length] at below
    rw [text, List.getElem?_map, List.getElem?_eq_getElem below, ← encodes.group below, getElem?_alphabet]
    rfl

example : toBase32 (utf8 "f") = "MY" := by decide

end TrinoCore
