import Mathlib.Init

/-! Computations that may fail: two of them in lockstep (both fail with the same error, or both give
results that are related), and what holds of the result of one. -/

universe u v

variable {ε : Type u} {α β α' β' γ : Type v}

/-- Both fail alike, or the results are related by `R`. -/
inductive Lockstep (R : α → β → Prop) : Except ε α → Except ε β → Prop
  | ok {a : α} {b : β} : R a b → Lockstep R (.ok a) (.ok b)
  | error (e : ε) : Lockstep R (.error e) (.error e)

namespace Lockstep

variable {R : α → β → Prop} {S : α' → β' → Prop}

/-- The same computation beside itself. -/
theorem refl (x : Except ε α) : Lockstep (· = ·) x x := by
  cases x with
  | ok a => exact .ok rfl
  | error e => exact .error e

theorem bind {x : Except ε α} {y : Except ε β} {f : α → Except ε α'} {g : β → Except ε β'}
    (h : Lockstep R x y) (hf : ∀ a b, R a b → Lockstep S (f a) (g b)) :
    Lockstep S (x >>= f) (y >>= g) := by
  cases h with
  | ok hR => exact hf _ _ hR
  | error e => exact .error e

/-- Behind the same computation. -/
theorem same {f : γ → Except ε α} {g : γ → Except ε β} (x : Except ε γ)
    (hf : ∀ a, Lockstep R (f a) (g a)) : Lockstep R (x >>= f) (x >>= g) := by
  cases x with
  | ok a => exact hf a
  | error e => exact .error e

/-- Both take the same branch. -/
theorem ite {p : Prop} [Decidable p] {x x' : Except ε α} {y y' : Except ε β}
    (ht : p → Lockstep R x y) (hf : ¬p → Lockstep R x' y') :
    Lockstep R (if p then x else x') (if p then y else y') := by
  by_cases h : p
  · rw [if_pos h, if_pos h]
    exact ht h
  · rw [if_neg h, if_neg h]
    exact hf h

/-- When equal results are all that lockstep allows, the computations are equal. -/
theorem eq {x y : Except ε α} (h : Lockstep (· = ·) x y) : x = y := by
  cases h with
  | ok hR => rw [hR]
  | error e => rfl

end Lockstep

/-- What the computation gives, if it gives something, satisfies `Q`. -/
inductive Yields (Q : α → Prop) : Except ε α → Prop
  | ok {a : α} : Q a → Yields Q (.ok a)
  | error (e : ε) : Yields Q (.error e)

namespace Yields

variable {Q Q' : α → Prop} {P : α' → Prop}

theorem bind {x : Except ε α} {f : α → Except ε α'} (h : Yields Q x)
    (hf : ∀ a, Q a → Yields P (f a)) : Yields P (x >>= f) := by
  cases h with
  | ok ha => exact hf _ ha
  | error e => exact .error e

/-- Behind a computation about which nothing is known. -/
theorem after (x : Except ε α) {f : α → Except ε α'} (hf : ∀ a, Yields P (f a)) :
    Yields P (x >>= f) := by
  cases x with
  | ok a => exact hf a
  | error e => exact .error e

theorem ite {p : Prop} [Decidable p] {x y : Except ε α} (ht : p → Yields Q x)
    (hf : ¬p → Yields Q y) : Yields Q (if p then x else y) := by
  split
  · exact ht ‹_›
  · exact hf ‹_›

theorem mono {x : Except ε α} (h : Yields Q x) (hQ : ∀ a, Q a → Q' a) : Yields Q' x := by
  cases h with
  | ok ha => exact .ok (hQ _ ha)
  | error e => exact .error e

theorem toOption {x : Except ε α} (h : Yields Q x) {a : α} (ha : x.toOption = some a) : Q a := by
  cases h with
  | ok hQ =>
    cases ha
    exact hQ
  | error e => cases ha

end Yields
