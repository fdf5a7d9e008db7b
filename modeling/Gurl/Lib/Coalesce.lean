import Mathlib.Data.List.Basic

/-! Lists of pieces in which neighbours may be fused: the list in which that was done everywhere,
and that fusing some neighbours first makes no difference to it. -/

namespace Coalesce

variable {α : Type*} {fuse : α → α → Option α}

/-- Put a piece before pieces that are fused, and fuse it with the first. -/
def cons (fuse : α → α → Option α) (a : α) : List α → List α
  | [] => [a]
  | b :: bs =>
    match fuse a b with
    | some ab => ab :: bs
    | none => a :: b :: bs

/-- Fuse the neighbours that can be. -/
def coalesce (fuse : α → α → Option α) (as : List α) : List α := as.foldr (cons fuse) []

/-- A fused piece goes on as its second part does. -/
structure Fuses (fuse : α → α → Option α) : Prop where
  none : ∀ {a b ab c}, fuse a b = some ab → fuse b c = none → fuse ab c = none
  some : ∀ {a b ab c bc}, fuse a b = some ab → fuse b c = some bc →
    ∃ abc, fuse a bc = some abc ∧ fuse ab c = some abc

theorem cons_of_some {a b ab : α} (h : fuse a b = some ab) (bs : List α) :
    cons fuse a (b :: bs) = ab :: bs := by rw [cons, h]

theorem cons_of_none {a b : α} (h : fuse a b = none) (bs : List α) :
    cons fuse a (b :: bs) = a :: b :: bs := by rw [cons, h]

theorem cons_cons (hf : Fuses fuse) {a b ab : α} (h : fuse a b = some ab) (cs : List α) :
    cons fuse a (cons fuse b cs) = cons fuse ab cs := by
  cases cs with
  | nil => exact cons_of_some h []
  | cons c cs =>
    cases hbc : fuse b c with
    | none => rw [cons_of_none hbc, cons_of_some h, cons_of_none (hf.none h hbc)]
    | some bc =>
      obtain ⟨abc, h₁, h₂⟩ := hf.some h hbc
      rw [cons_of_some hbc, cons_of_some h₁, cons_of_some h₂]

theorem coalesce_cons (a : α) (as : List α) :
    coalesce fuse (a :: as) = cons fuse a (coalesce fuse as) := rfl

theorem coalesce_append (as bs : List α) :
    coalesce fuse (as ++ bs) = as.foldr (cons fuse) (coalesce fuse bs) := by
  rw [coalesce, List.foldr_append]
  rfl

/-- What is fused already may as well be. -/
theorem coalesce_coalesce_append (hf : Fuses fuse) (as bs : List α) :
    coalesce fuse (coalesce fuse as ++ bs) = coalesce fuse (as ++ bs) := by
  induction as with
  | nil => rfl
  | cons a as ih =>
    rw [List.cons_append, coalesce_cons, coalesce_cons, ← ih]
    cases hl : coalesce fuse as with
    | nil => rfl
    | cons b cs =>
      cases hab : fuse a b with
      | none => rw [cons_of_none hab, List.cons_append, coalesce_cons]
      | some ab =>
        rw [cons_of_some hab, List.cons_append, List.cons_append, coalesce_cons, coalesce_cons,
          cons_cons hf hab]

theorem coalesce_append_congr (hf : Fuses fuse) {as as' bs bs' : List α}
    (ha : coalesce fuse as = coalesce fuse as') (hb : coalesce fuse bs = coalesce fuse bs') :
    coalesce fuse (as ++ bs) = coalesce fuse (as' ++ bs') := by
  calc coalesce fuse (as ++ bs)
      = coalesce fuse (as ++ bs') := by rw [coalesce_append, hb, ← coalesce_append]
    _ = coalesce fuse (as' ++ bs') := by
        rw [← coalesce_coalesce_append hf, ha, coalesce_coalesce_append hf]

theorem coalesce_eq_nil {as : List α} : coalesce fuse as = [] ↔ as = [] := by
  constructor
  · intro h
    cases as with
    | nil => rfl
    | cons a as =>
      rw [coalesce_cons] at h
      unfold cons at h
      split at h
      · cases h
      · split at h <;> cases h
  · rintro rfl
    rfl

/-- Nothing is fused across a piece that goes with no piece behind it. -/
theorem coalesce_append_of_none {a : α} (ha : ∀ b, fuse a b = none) (as bs : List α) :
    coalesce fuse (as ++ a :: bs) = coalesce fuse (as ++ [a]) ++ coalesce fuse bs := by
  induction as with
  | nil =>
    rw [List.nil_append, coalesce_cons]
    cases coalesce fuse bs with
    | nil => rfl
    | cons b bs => simp [cons, ha b, coalesce]
  | cons c as ih =>
    rw [List.cons_append, List.cons_append, coalesce_cons, coalesce_cons, ih]
    cases hl : coalesce fuse (as ++ [a]) with
    | nil => simp [coalesce_eq_nil] at hl
    | cons d ds =>
      simp only [List.cons_append, cons]
      split <;> rfl

/-- What a fused piece takes from its second part is counted as before. -/
theorem countP_coalesce {p : α → Bool}
    (hp : ∀ {a b ab}, fuse a b = some ab → p a = false ∧ p ab = p b) (as : List α) :
    (coalesce fuse as).countP p = as.countP p := by
  induction as with
  | nil => rfl
  | cons a as ih =>
    rw [coalesce_cons, List.countP_cons, ← ih]
    cases coalesce fuse as with
    | nil => rw [cons, List.countP_cons]
    | cons b bs =>
      cases hab : fuse a b with
      | none => rw [cons_of_none hab, List.countP_cons]
      | some ab =>
        obtain ⟨ha, hb⟩ := hp hab
        rw [cons_of_some hab, List.countP_cons, List.countP_cons, hb, ha]
        rfl

theorem getLast?_coalesce {β : Type*} {f : α → β}
    (hf : ∀ {a b ab}, fuse a b = some ab → f ab = f b) (as : List α) :
    (coalesce fuse as).getLast?.map f = as.getLast?.map f := by
  induction as with
  | nil => rfl
  | cons a as ih =>
    rw [coalesce_cons]
    cases as with
    | nil => rfl
    | cons c cs =>
      rw [List.getLast?_cons_cons, ← ih]
      cases hl : coalesce fuse (c :: cs) with
      | nil => exact absurd (coalesce_eq_nil.mp hl) (List.cons_ne_nil c cs)
      | cons b bs =>
        cases hab : fuse a b with
        | none => rw [cons_of_none hab, List.getLast?_cons_cons]
        | some ab =>
          rw [cons_of_some hab]
          cases bs with
          | nil => simp [hf hab]
          | cons d ds => rw [List.getLast?_cons_cons, List.getLast?_cons_cons]

end Coalesce
