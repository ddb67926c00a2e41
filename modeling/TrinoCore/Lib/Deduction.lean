import Mathlib.Data.Set.Basic

/-!
What follows from a set of known values by rules, and what never does.

A rule takes premises to a conclusion. A set is guarded when whatever a rule concludes in it needs a
premise from it: as long as nothing of a guarded set is known, nothing of it is ever derived.
-/

namespace Deduction

variable {α : Type*} {rule : Set α → α → Prop} {known known' secret : Set α} {source x : α}

inductive Derives (rule : Set α → α → Prop) (known : Set α) : α → Prop
  | given {x : α} (present : x ∈ known) : Derives rule known x
  | infer {premises : Set α} {x : α} (applies : rule premises x) (each : ∀ y ∈ premises, Derives rule known y) :
      Derives rule known x

theorem Derives.trans (each : ∀ y ∈ known, Derives rule known' y) (derived : Derives rule known x) :
    Derives rule known' x := by
  induction derived with
  | given present => exact each _ present
  | infer applies _ ih => exact .infer applies ih

def Guarded (rule : Set α → α → Prop) (secret : Set α) : Prop :=
  ∀ ⦃premises : Set α⦄ ⦃x : α⦄, rule premises x → x ∈ secret → ∃ y ∈ premises, y ∈ secret

theorem Guarded.not_derives (guarded : Guarded rule secret) (unknown : ∀ y ∈ known, y ∉ secret) (inside : x ∈ secret) :
    ¬Derives rule known x := by
  intro derived
  induction derived with
  | given present => exact unknown _ present inside
  | infer applies _ ih =>
    obtain ⟨y, premise, secretY⟩ := guarded applies inside
    exact ih y premise secretY

/-- The values that a derivation from `source` goes through. -/
inductive Descends (rule : Set α → α → Prop) (source : α) : α → Prop
  | self : Descends rule source source
  | infer {premises : Set α} {x y : α} (applies : rule premises x) (premise : y ∈ premises)
      (from_ : Descends rule source y) : Descends rule source x

theorem Descends.trans {middle : α} (first : Descends rule source middle) (second : Descends rule middle x) :
    Descends rule source x := by
  induction second with
  | self => exact first
  | infer applies premise _ ih => exact .infer applies premise ih

/-- No value is concluded from two different sets of premises. -/
def Free (rule : Set α → α → Prop) : Prop :=
  ∀ ⦃premises premises' : Set α⦄ ⦃x : α⦄, rule premises x → rule premises' x → premises = premises'

/-- With free rules, a value that no rule concludes guards all that descends from it. -/
theorem Free.guarded (free : Free rule) (unmade : ∀ premises, ¬rule premises source) :
    Guarded rule {x | Descends rule source x} := by
  intro premises x applies descends
  cases descends with
  | self => exact (unmade premises applies).elim
  | infer applies' premise from_ =>
    obtain rfl := free applies applies'
    exact ⟨_, premise, from_⟩

theorem Free.not_derives (free : Free rule) (unmade : ∀ premises, ¬rule premises source)
    (apart : ∀ y ∈ known, ¬Descends rule source y) (descends : Descends rule source x) : ¬Derives rule known x :=
  (free.guarded unmade).not_derives apart descends

end Deduction
