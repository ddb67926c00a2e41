import Mathlib.Algebra.Order.Ring.Nat

/-!
Numbers in positional notation with a fixed number of digits, the most significant one first.

A number that needs more digits than there are loses its leading ones.
-/

namespace Positional

variable {base : Nat}

def digits (base : Nat) : Nat → Nat → List Nat
  | 0, _ => []
  | width + 1, n => digits base width (n / base) ++ [n % base]

def value (base : Nat) (ds : List Nat) : Nat := ds.foldl (fun acc d => base * acc + d) 0

@[simp] theorem length_digits (width n : Nat) : (digits base width n).length = width := by
  induction width generalizing n with
  | zero => rfl
  | succ width ih => rw [digits, List.length_append, ih, List.length_singleton]

theorem lt_of_mem_digits (positive : 0 < base) {width n d : Nat} (present : d ∈ digits base width n) : d < base := by
  induction width generalizing n with
  | zero => cases present
  | succ width ih =>
    rcases List.mem_append.mp present with earlier | last
    · exact ih earlier
    · rw [List.mem_singleton.mp last]
      exact Nat.mod_lt n positive

theorem digits_zero (base width : Nat) : digits base width 0 = List.replicate width 0 := by
  induction width with
  | zero => rfl
  | succ width ih => rw [digits, Nat.zero_div, Nat.zero_mod, ih, List.replicate_succ']

theorem value_append_singleton (ds : List Nat) (d : Nat) : value base (ds ++ [d]) = base * value base ds + d := by
  unfold value
  rw [List.foldl_append]
  rfl

theorem value_digits (base width n : Nat) : value base (digits base width n) = n % base ^ width := by
  induction width generalizing n with
  | zero => rw [Nat.pow_zero, Nat.mod_one]; rfl
  | succ width ih => rw [digits, value_append_singleton, ih, Nat.pow_succ', Nat.mod_mul, Nat.add_comm]

theorem digits_add (base front back n : Nat) :
    digits base (front + back) n = digits base front (n / base ^ back) ++ digits base back n := by
  induction back generalizing n with
  | zero => rw [Nat.add_zero, Nat.pow_zero, Nat.div_one, digits, List.append_nil]
  | succ back ih =>
    rw [← Nat.add_assoc, digits, ih, Nat.div_div_eq_div_mul, ← Nat.pow_succ', List.append_assoc]
    rfl

theorem digits_congr {width m n : Nat} (same : m % base ^ width = n % base ^ width) :
    digits base width m = digits base width n := by
  induction width generalizing m n with
  | zero => rfl
  | succ width ih =>
    have last : m % base = n % base := by
      have low := congrArg (· % base) same
      simpa [Nat.pow_succ', Nat.mod_mul_right_mod] using low
    have rest : m / base % base ^ width = n / base % base ^ width := by
      have high := congrArg (· / base) same
      simpa [Nat.pow_succ', Nat.mod_mul_right_div_self] using high
    rw [digits, digits, ih rest, last]

theorem mul_two_pow_or {x low : Nat} (k : Nat) (fits : low < 2 ^ k) : x * 2 ^ k ||| low = x * 2 ^ k + low := by
  rw [← Nat.shiftLeft_eq, Nat.shiftLeft_add_eq_or_of_lt fits]

end Positional
