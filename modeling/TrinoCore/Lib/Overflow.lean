import Mathlib.Algebra.Group.Nat.Defs
import TrinoCore.Lib.Mut

/-!
Overflow checks.

With the checks on, an addition that does not fit its type ends the call, and what was written to the
state by then stays. `Agrees` says that from one state a checked function does what the unchecked one does.
-/

/-- How a call with overflow checks can fail. -/
inductive Fault (ε : Type) where
  | error (e : ε)
  | overflow

/-- The state a call leaves, unless an overflow ended it. -/
def Fault.survivor {σ ε α : Type} : Except (Fault ε) α × σ → Option σ
  | (.error .overflow, _) => none
  | (_, next) => some next

theorem Fault.survivor_mapError {σ ε α : Type} (r : Except ε α) (s : σ) :
    Fault.survivor (r.mapError Fault.error, s) = some s := by
  cases r <;> rfl

namespace Mut

variable {σ ε α β : Type}

/-- A function without additions, among functions with overflow checks. -/
def embed (m : Mut σ ε α) : Mut σ (Fault ε) α := ExceptT.adapt Fault.error m

def checkedSucc (n : UInt32) : Mut σ (Fault ε) UInt32 :=
  if n.toNat + 1 < 2 ^ 32 then pure (n + 1) else throw .overflow

theorem exec_embed (m : Mut σ ε α) (s : σ) : m.embed.exec s = ((m.exec s).1.mapError .error, (m.exec s).2) := rfl

theorem exec_checkedSucc {n : UInt32} (room : n.toNat + 1 < 2 ^ 32) (s : σ) :
    (checkedSucc n : Mut σ (Fault ε) UInt32).exec s = (.ok (n + 1), s) := by
  unfold checkedSucc
  rw [if_pos room]
  rfl

theorem exec_checkedSucc_overflow {n : UInt32} (full : ¬n.toNat + 1 < 2 ^ 32) (s : σ) :
    (checkedSucc n : Mut σ (Fault ε) UInt32).exec s = (.error .overflow, s) := by
  unfold checkedSucc
  rw [if_neg full]
  rfl

def Agrees (checked : Mut σ (Fault ε) α) (m : Mut σ ε α) (s : σ) : Prop := checked.exec s = m.embed.exec s

theorem Agrees.embed (m : Mut σ ε α) (s : σ) : Agrees m.embed m s := rfl

theorem Agrees.pure (a : α) (s : σ) : Agrees (Pure.pure a) (Pure.pure a : Mut σ ε α) s := rfl

theorem Agrees.throw (e : ε) (s : σ) : Agrees (MonadExcept.throw (Fault.error e)) (MonadExcept.throw e : Mut σ ε α) s := rfl

theorem Agrees.bind {x : Mut σ (Fault ε) α} {y : Mut σ ε α} {f : α → Mut σ (Fault ε) β} {g : α → Mut σ ε β} {s : σ}
    (first : Agrees x y s) (rest : ∀ a t, y.exec s = (.ok a, t) → Agrees (f a) (g a) t) :
    Agrees (x >>= f) (y >>= g) s := by
  unfold Agrees at first ⊢
  rw [exec_bind, first, exec_embed, exec_embed, exec_bind]
  rcases outcome : y.exec s with ⟨_ | a, t⟩
  · rfl
  · exact rest a t outcome

theorem Agrees.bind_get {f : σ → Mut σ (Fault ε) β} {g : σ → Mut σ ε β} {s : σ} (rest : Agrees (f s) (g s) s) :
    Agrees (get >>= f) (get >>= g) s := rest

theorem Agrees.bind_modify (change : σ → σ) {f : PUnit → Mut σ (Fault ε) β} {g : PUnit → Mut σ ε β} {s : σ}
    (rest : Agrees (f ⟨⟩) (g ⟨⟩) (change s)) : Agrees (modify change >>= f) (modify change >>= g) s := rest

theorem Agrees.bind_embed (m : Mut σ ε α) {f : α → Mut σ (Fault ε) β} {g : α → Mut σ ε β} {s : σ}
    (rest : ∀ a t, m.exec s = (.ok a, t) → Agrees (f a) (g a) t) : Agrees (m.embed >>= f) (m >>= g) s :=
  .bind (.embed m s) rest

theorem Agrees.bind_overflow {x : Mut σ (Fault ε) α} {y : Mut σ ε α} {f : α → Mut σ (Fault ε) β} {s t u : σ} {a : α}
    (first : Agrees x y s) (succeeds : y.exec s = (.ok a, t)) (rest : (f a).exec t = (.error .overflow, u)) :
    (x >>= f).exec s = (.error .overflow, u) := by
  unfold Agrees at first
  rw [exec_bind, first, exec_embed, succeeds]
  exact rest

end Mut
