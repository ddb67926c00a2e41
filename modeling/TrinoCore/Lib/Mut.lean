import Mathlib.Init

/-!
Functions that mutate a state in place and may fail.

An error does not undo what was already written: `exec` returns the state next to the result in
both cases, and only `transaction` restores the state it started from.
-/

/-- A function over a mutable `σ` that returns an `α` or fails with an `ε`. -/
abbrev Mut (σ ε : Type) := ExceptT ε (StateM σ)

namespace Mut

variable {σ ε δ α β : Type}

/-- Run on a state: the result, and the state left behind. -/
def exec (m : Mut σ ε α) (s : σ) : Except ε α × σ := m.run.run s

/-- A computation that does not touch the state, with its error converted. -/
def lift (convert : δ → ε) : Except δ α → Mut σ ε α
  | .ok a => pure a
  | .error e => throw (convert e)

def ofExcept (r : Except ε α) : Mut σ ε α := lift (fun e => e) r

/-- Run `m` and restore the state it started from if it fails. -/
def transaction (m : Mut σ ε α) (s : σ) : Except ε α × σ :=
  match m.exec s with
  | (.ok a, t) => (.ok a, t)
  | (.error e, _) => (.error e, s)

@[simp] theorem exec_pure (a : α) (s : σ) : (pure a : Mut σ ε α).exec s = (.ok a, s) := rfl

@[simp] theorem exec_throw (e : ε) (s : σ) : (throw e : Mut σ ε α).exec s = (.error e, s) := rfl

@[simp] theorem exec_get (s : σ) : (get : Mut σ ε σ).exec s = (.ok s, s) := rfl

@[simp] theorem exec_modify (f : σ → σ) (s : σ) : (modify f : Mut σ ε PUnit).exec s = (.ok ⟨⟩, f s) := rfl

@[simp] theorem exec_lift_ok (convert : δ → ε) (a : α) (s : σ) :
    (lift convert (.ok a)).exec s = (.ok a, s) := rfl

@[simp] theorem exec_ofExcept_ok (a : α) (s : σ) :
    (ofExcept (.ok a) : Mut σ ε α).exec s = (.ok a, s) := rfl

@[simp] theorem exec_ofExcept_error (e : ε) (s : σ) :
    (ofExcept (.error e) : Mut σ ε α).exec s = (.error e, s) := rfl

theorem exec_bind (x : Mut σ ε α) (f : α → Mut σ ε β) (s : σ) :
    (x >>= f).exec s = match x.exec s with
      | (.ok a, t) => (f a).exec t
      | (.error e, t) => (.error e, t) := by
  change (ExceptT.bindCont f (x.run.run s).1).run (x.run.run s).2 = _
  rcases h : (x.run.run s : Except ε α × σ) with ⟨r, t⟩
  cases r <;> simp only [exec, h] <;> rfl

theorem exec_bind_ok {x : Mut σ ε α} {f : α → Mut σ ε β} {s t : σ} {a : α}
    (first : x.exec s = (.ok a, t)) : (x >>= f).exec s = (f a).exec t := by
  rw [exec_bind, first]

theorem exec_bind_error {x : Mut σ ε α} {f : α → Mut σ ε β} {s t : σ} {e : ε}
    (first : x.exec s = (.error e, t)) : (x >>= f).exec s = (.error e, t) := by
  rw [exec_bind, first]

theorem bind_ok {x : Mut σ ε α} {f : α → Mut σ ε β} {s u : σ} {b : β}
    (h : (x >>= f).exec s = (.ok b, u)) :
    ∃ a t, x.exec s = (.ok a, t) ∧ (f a).exec t = (.ok b, u) := by
  rw [exec_bind] at h
  split at h
  · rename_i a t first
    exact ⟨a, t, first, h⟩
  · cases h

theorem bind_ok_iff {x : Mut σ ε α} {f : α → Mut σ ε β} {s u : σ} {b : β} :
    (x >>= f).exec s = (.ok b, u) ↔ ∃ a t, x.exec s = (.ok a, t) ∧ (f a).exec t = (.ok b, u) :=
  ⟨bind_ok, fun ⟨_, _, first, rest⟩ => (exec_bind_ok first).trans rest⟩

theorem transaction_ok {m : Mut σ ε α} {s t : σ} {a : α} :
    m.transaction s = (.ok a, t) ↔ m.exec s = (.ok a, t) := by
  unfold transaction
  split
  · rename_i exact
    rw [exact]
  · rename_i failed
    rw [failed]
    constructor <;> intro h <;> cases h

theorem transaction_error {m : Mut σ ε α} {s t : σ} {e : ε}
    (h : m.exec s = (.error e, t)) : m.transaction s = (.error e, s) := by
  unfold transaction
  rw [h]

theorem transaction_result (m : Mut σ ε α) (s : σ) : (m.transaction s).1 = (m.exec s).1 := by
  unfold transaction
  rcases m.exec s with ⟨result, t⟩
  cases result <;> rfl

/-- A failed transaction leaves the state as it found it. -/
theorem transaction_error_state {m : Mut σ ε α} {s t : σ} {e : ε}
    (h : m.transaction s = (.error e, t)) : t = s := by
  unfold transaction at h
  split at h
  · cases h
  · exact (Prod.mk.inj h).2.symm

end Mut
