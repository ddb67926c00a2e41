import Mathlib.Data.List.GetD
import TrinoCore.Lib.Bytes
import TrinoCore.Lib.Positional

/-!
Base32 of RFC 4648, without padding characters.

A text is the digits of the big-endian bit string of its bytes in groups of five. What an encoder
writes is given by those groups alone (`Encodes`), and whoever writes them is read back.
-/

namespace Base32

open Positional

def alphabet : List.Vector Char 32 := ⟨"ABCDEFGHIJKLMNOPQRSTUVWXYZ234567".toList, by decide⟩

/-- The bits of a byte string, the most significant bit of each byte first. -/
def bitString (bytes : Bytes) : List Nat := bytes.flatMap fun b => digits 2 8 b.toNat

def groupBits (groups : List (Fin 32)) : List Nat := groups.flatMap fun group : Fin 32 => digits 2 5 group.val

def group (bits : List Nat) (i : Nat) : Nat := value 2 ((List.range 5).map fun k => bits.getD (5 * i + k) 0)

def digitValue (c : Char) : Option (Fin 32) := alphabet.toList.finIdxOf? c

def wholeBytes : List Nat → Bytes × List Nat
  | b₀ :: b₁ :: b₂ :: b₃ :: b₄ :: b₅ :: b₆ :: b₇ :: rest =>
    let (bytes, left) := wholeBytes rest
    (UInt8.ofNat (value 2 [b₀, b₁, b₂, b₃, b₄, b₅, b₆, b₇]) :: bytes, left)
  | left => ([], left)

/-- The bits after the last whole byte are fewer than a group, and zero. -/
def decode (text : String) : Option Bytes := do
  let groups ← text.toList.mapM digitValue
  let (bytes, left) := wholeBytes (groupBits groups)
  if left.length < 5 ∧ ∀ bit ∈ left, bit = 0 then some bytes else none

/-- The digits of some bytes: the last group is filled up with zero bits. -/
structure Encodes (bytes : Bytes) (groups : List (Fin 32)) : Prop where
  filled : ∃ missing < 5, groupBits groups = bitString bytes ++ List.replicate missing 0

theorem getElem?_alphabet : ∀ group : Fin 32, alphabet.toList[group.val]? = some (alphabet.get group) := by decide

theorem digitValue_alphabet : ∀ group : Fin 32, digitValue (alphabet.get group) = some group := by decide

theorem mapM_digitValue (groups : List (Fin 32)) : (groups.map alphabet.get).mapM digitValue = some groups := by
  induction groups with
  | nil => rfl
  | cons group rest ih =>
    rw [List.map_cons, List.mapM_cons, digitValue_alphabet, ih]
    rfl

theorem wholeBytes_short {left : List Nat} (few : left.length < 8) : wholeBytes left = ([], left) := by
  unfold wholeBytes
  split
  · simp only [List.length_cons] at few
    omega
  · rfl

theorem wholeBytes_bitString (bytes : Bytes) {left : List Nat} (few : left.length < 8) :
    wholeBytes (bitString bytes ++ left) = (bytes, left) := by
  induction bytes with
  | nil => exact wholeBytes_short few
  | cons b rest ih =>
    have byte : UInt8.ofNat (value 2 (digits 2 8 b.toNat)) = b := by
      rw [value_digits, Nat.mod_eq_of_lt b.toNat_lt, UInt8.ofNat_toNat]
    change wholeBytes (digits 2 8 b.toNat ++ bitString rest ++ left) = _
    rw [List.append_assoc]
    simp only [digits, List.nil_append, List.cons_append, wholeBytes, ih] at byte ⊢
    rw [byte]

theorem groupBits_append_singleton (groups : List (Fin 32)) (last : Fin 32) :
    groupBits (groups ++ [last]) = groupBits groups ++ digits 2 5 last := by
  unfold groupBits
  rw [List.flatMap_append, List.flatMap_singleton]

theorem length_bitString (bytes : Bytes) : (bitString bytes).length = 8 * bytes.length := by
  induction bytes with
  | nil => rfl
  | cons b rest ih =>
    change (digits 2 8 b.toNat ++ bitString rest).length = _
    rw [List.length_append, length_digits, ih, List.length_cons]
    omega

theorem length_groupBits (groups : List (Fin 32)) : (groupBits groups).length = 5 * groups.length := by
  induction groups with
  | nil => rfl
  | cons first rest ih =>
    change (digits 2 5 first ++ groupBits rest).length = _
    rw [List.length_append, length_digits, ih, List.length_cons]
    omega

theorem getD_append_zeros (bits : List Nat) (missing k : Nat) :
    (bits ++ List.replicate missing 0).getD k 0 = bits.getD k 0 := by
  by_cases inside : k < bits.length
  · rw [List.getD_append _ _ _ _ inside]
  · rw [List.getD_append_right _ _ _ _ (by omega), List.getD_eq_default bits 0 (by omega)]
    by_cases zero : k - bits.length < missing
    · rw [List.getD_replicate _ zero]
    · rw [List.getD_eq_default _ 0 (by rw [List.length_replicate]; omega)]

theorem group_append_zeros (bits : List Nat) (missing i : Nat) :
    group (bits ++ List.replicate missing 0) i = group bits i := by
  unfold group
  simp only [getD_append_zeros]

theorem group_groupBits {groups : List (Fin 32)} {i : Nat} (inside : i < groups.length) :
    group (groupBits groups) i = groups[i] := by
  induction groups generalizing i with
  | nil => cases inside
  | cons first rest ih =>
    have bits : groupBits (first :: rest) = digits 2 5 first ++ groupBits rest := rfl
    have length : (digits 2 5 first).length = 5 := length_digits 5 first
    cases i with
    | zero =>
      have own : (List.range 5).map (fun k => (groupBits (first :: rest)).getD (5 * 0 + k) 0) = digits 2 5 first := rfl
      rw [group, own, value_digits]
      exact Nat.mod_eq_of_lt first.isLt
    | succ i =>
      have shifted (k : Nat) : (groupBits (first :: rest)).getD (5 * (i + 1) + k) 0 = (groupBits rest).getD (5 * i + k) 0 := by
        rw [bits, List.getD_append_right _ _ _ _ (by omega), length]
        congr 1
        omega
      rw [group]
      simp only [shifted]
      exact ih (Nat.lt_of_succ_lt_succ inside)

namespace Encodes

variable {bytes : Bytes} {groups : List (Fin 32)}

theorem length (encodes : Encodes bytes groups) : groups.length = (8 * bytes.length + 4) / 5 := by
  obtain ⟨missing, few, filled⟩ := encodes.filled
  have lengths := congrArg List.length filled
  rw [length_groupBits, List.length_append, length_bitString, List.length_replicate] at lengths
  omega

theorem group (encodes : Encodes bytes groups) {i : Nat} (inside : i < groups.length) :
    (groups[i] : Nat) = Base32.group (bitString bytes) i := by
  obtain ⟨missing, _, filled⟩ := encodes.filled
  rw [← group_groupBits inside, filled, group_append_zeros]

theorem decode (encodes : Encodes bytes groups) : Base32.decode (String.ofList (groups.map alphabet.get)) = some bytes := by
  obtain ⟨missing, few, filled⟩ := encodes.filled
  have short : (List.replicate missing 0).length < 5 := by rw [List.length_replicate]; exact few
  unfold Base32.decode
  rw [String.toList_ofList, mapM_digitValue]
  have read := wholeBytes_bitString bytes (show (List.replicate missing 0).length < 8 by omega)
  simp only [Option.bind_eq_bind, Option.bind_some, filled, read]
  rw [if_pos ⟨short, fun bit present => List.eq_of_mem_replicate present⟩]

end Encodes
end Base32
