import Mathlib.Data.List.Nodup

/-!
A first-in first-out queue of distinct elements that never holds more than `cap` of them.
Pushing an element that is already queued keeps its place; past the cap the front is dropped.
-/

namespace BoundedQueue

variable {α : Type} [DecidableEq α]

def enqueue (q : List α) (a : α) : List α := if a ∈ q then q else q ++ [a]

def trim (cap : Nat) (q : List α) : List α := q.drop (q.length - cap)

def push (cap : Nat) (q : List α) (a : α) : List α := trim cap (enqueue q a)

theorem mem_enqueue {q : List α} {a x : α} : x ∈ enqueue q a ↔ x ∈ q ∨ x = a := by
  unfold enqueue
  split
  · rename_i queued
    constructor
    · exact Or.inl
    · intro either
      rcases either with old | rfl
      · exact old
      · exact queued
  · simp

theorem nodup_enqueue {q : List α} {a : α} (nodup : q.Nodup) : (enqueue q a).Nodup := by
  unfold enqueue
  split
  · exact nodup
  · rename_i absent
    exact nodup.append (List.nodup_singleton a) (by simpa using absent)

omit [DecidableEq α] in
theorem length_trim_le (cap : Nat) (q : List α) : (trim cap q).length ≤ cap := by
  unfold trim
  rw [List.length_drop]
  omega

omit [DecidableEq α] in
theorem trim_of_le {cap : Nat} {q : List α} (within : q.length ≤ cap) : trim cap q = q := by
  unfold trim
  rw [Nat.sub_eq_zero_of_le within, List.drop_zero]

omit [DecidableEq α] in
theorem trim_cons_of_lt {cap : Nat} {a : α} {q : List α} (excess : cap < q.length + 1) :
    trim cap (a :: q) = trim cap q := by
  have count : q.length + 1 - cap = (q.length - cap) + 1 := by omega
  rw [trim, trim, List.length_cons, count, List.drop_succ_cons]

theorem length_push_le (cap : Nat) (q : List α) (a : α) : (push cap q a).length ≤ cap :=
  length_trim_le cap _

theorem mem_push_self {cap : Nat} {q : List α} {a : α} (positive : 0 < cap) (absent : a ∉ q) :
    a ∈ push cap q a := by
  have last : push cap q a = q.drop (q.length + 1 - cap) ++ [a] := by
    rw [push, enqueue, if_neg absent, trim, List.length_append, List.length_singleton,
      List.drop_append_of_le_length (by omega)]
  rw [last]
  simp

omit [DecidableEq α] in
theorem trim_trim_append {cap : Nat} (xs ys : List α) :
    trim cap (trim cap xs ++ ys) = trim cap (xs ++ ys) := by
  rw [trim, trim, trim, ← List.drop_append_of_le_length (by omega), List.drop_drop,
    List.length_drop, List.length_append]
  congr 1
  omega

/-- Pushing a run of new elements is one append followed by one trim. -/
theorem foldl_push {cap : Nat} {items q : List α} (within : q.length ≤ cap)
    (fresh : (q ++ items).Nodup) : items.foldl (push cap) q = trim cap (q ++ items) := by
  induction items generalizing q with
  | nil => rw [List.foldl_nil, List.append_nil, trim_of_le within]
  | cons a rest ih =>
    have absent : a ∉ q := by
      intro queued
      exact (List.nodup_append.mp fresh).2.2 a queued a List.mem_cons_self rfl
    have pushed : push cap q a = trim cap (q ++ [a]) := by rw [push, enqueue, if_neg absent]
    have split : q ++ a :: rest = (q ++ [a]) ++ rest := by simp
    rw [List.foldl_cons, ih (length_push_le cap q a), pushed, split]
    · exact trim_trim_append (q ++ [a]) rest
    · rw [pushed]
      rw [split] at fresh
      exact fresh.sublist ((List.drop_sublist _ _).append_right rest)

end BoundedQueue
