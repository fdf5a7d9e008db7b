import Mathlib.Init
import Mathlib.Algebra.BigOperators.Group.Finset.Piecewise
import Mathlib.Tactic.Abel

/-! Objects that answer calls: a concrete one, given by a step function, refines an abstract one,
given by the answers that it allows. -/

namespace Refine

variable {σ τ α ρ : Type*} {step : σ → α → Option (σ × ρ)} {spec : τ → α → ρ → τ → Prop}

/-- Make the calls of a list in order, and collect the answers. -/
def calls (step : σ → α → Option (σ × ρ)) : σ → List α → Option (σ × List ρ)
  | s, [] => some (s, [])
  | s, a :: rest => do
    let (s, r) ← step s a
    let (s, rs) ← calls step s rest
    some (s, r :: rs)

/-- The abstract object goes from `x` to `y` and allows these answers to the calls. -/
inductive Allows (spec : τ → α → ρ → τ → Prop) : τ → List α → List ρ → τ → Prop
  | nil (x : τ) : Allows spec x [] [] x
  | cons {x y z : τ} {a : α} {r : ρ} {actions : List α} {answers : List ρ} :
      spec x a r y → Allows spec y actions answers z → Allows spec x (a :: actions) (r :: answers) z

/-- When every single call is answered as the abstract object allows, every list of calls is. -/
theorem calls_allowed {R : σ → τ → Prop}
    (hstep : ∀ {s x} a, R s x → ∃ s' r y, step s a = some (s', r) ∧ spec x a r y ∧ R s' y)
    {s : σ} {x : τ} (h : R s x) (actions : List α) :
    ∃ s' answers y, calls step s actions = some (s', answers) ∧
      Allows spec x actions answers y ∧ R s' y := by
  induction actions generalizing s x with
  | nil => exact ⟨s, [], x, rfl, .nil x, h⟩
  | cons a actions ih =>
    obtain ⟨s1, r, y, hs, hspec, hR⟩ := hstep a h
    obtain ⟨s2, answers, z, hcalls, hallows, hR2⟩ := ih hR
    refine ⟨s2, r :: answers, z, ?_, .cons hspec hallows, hR2⟩
    simp [calls, hs, hcalls]

/-- The calls up to an answer, the call that got it, and the calls behind. -/
theorem calls_split {s s' : σ} {actions : List α} {pre post : List ρ} {r : ρ}
    (h : calls step s actions = some (s', pre ++ r :: post)) :
    ∃ before a after t u, actions = before ++ a :: after ∧ calls step s before = some (t, pre) ∧
      step t a = some (u, r) ∧ calls step u after = some (s', post) := by
  induction pre generalizing s actions with
  | nil =>
    cases actions with
    | nil => cases h
    | cons a actions =>
      obtain ⟨⟨u, r'⟩, hstep, h⟩ := Option.bind_eq_some_iff.mp h
      obtain ⟨⟨s1, rs⟩, hrest, h⟩ := Option.bind_eq_some_iff.mp h
      cases h
      exact ⟨[], a, actions, s, u, rfl, rfl, hstep, hrest⟩
  | cons r1 pre ih =>
    cases actions with
    | nil => cases h
    | cons a actions =>
      obtain ⟨⟨u, r'⟩, hstep, h⟩ := Option.bind_eq_some_iff.mp h
      obtain ⟨⟨s1, rs⟩, hrest, h⟩ := Option.bind_eq_some_iff.mp h
      cases h
      obtain ⟨before, a', after, t, v, rfl, hbefore, hstep', hafter⟩ := ih hrest
      refine ⟨a :: before, a', after, t, v, rfl, ?_, hstep', hafter⟩
      simp [calls, hstep, hbefore]

/-! ### Objects that answer every call -/

section Total

variable {step : σ → α → σ × ρ} {spec : τ → α → τ × ρ} {ok : τ → α → Prop} {R : σ → τ → Prop}

/-- The state after the calls of a list. -/
def after (step : σ → α → σ × ρ) : σ → List α → σ
  | s, [] => s
  | s, a :: rest => after step (step s a).1 rest

/-- The answers to the calls of a list. -/
def answers (step : σ → α → σ × ρ) : σ → List α → List ρ
  | _, [] => []
  | s, a :: rest => (step s a).2 :: answers step (step s a).1 rest

/-- Every call of a list meets a condition in the state that it is made in. -/
def Along (step : σ → α → σ × ρ) (ok : σ → α → Prop) : σ → List α → Prop
  | _, [] => True
  | s, a :: rest => ok s a ∧ Along step ok (step s a).1 rest

theorem after_related (hstep : ∀ {s x} a, R s x → R (step s a).1 (spec x a).1) {s : σ} {x : τ}
    (h : R s x) (actions : List α) : R (after step s actions) (after spec x actions) := by
  induction actions generalizing s x with
  | nil => exact h
  | cons a rest ih => exact ih (hstep a h)

/-- When every single call is answered as the abstract object allows, every list of calls is. -/
theorem answers_allowed {spec : τ → α → ρ → τ → Prop}
    (hstep : ∀ {s x} a, R s x → ∃ y, spec x a (step s a).2 y ∧ R (step s a).1 y) {s : σ} {x : τ}
    (h : R s x) (actions : List α) :
    ∃ y, Allows spec x actions (answers step s actions) y ∧ R (after step s actions) y := by
  induction actions generalizing s x with
  | nil => exact ⟨x, .nil x, h⟩
  | cons a actions ih =>
    obtain ⟨y, hspec, hR⟩ := hstep a h
    obtain ⟨z, hallows, hend⟩ := ih hR
    exact ⟨z, .cons hspec hallows, hend⟩

/-- When a call is answered as the abstract object answers it exactly under a condition, a list of
calls is when each of its calls meets that condition. -/
theorem answers_eq_iff (hstep : ∀ {s x} a, R s x → R (step s a).1 (spec x a).1)
    (hanswer : ∀ {s x} a, R s x → ((step s a).2 = (spec x a).2 ↔ ok x a)) {s : σ} {x : τ}
    (h : R s x) (actions : List α) :
    answers step s actions = answers spec x actions ↔ Along spec ok x actions := by
  induction actions generalizing s x with
  | nil => simp [answers, Along]
  | cons a rest ih =>
    unfold answers Along
    rw [List.cons.injEq, hanswer a h, ih (hstep a h)]

end Total

end Refine

/-! Conservation laws for a family of parties of which one moves at a time: what the parties have in
hand, together with what has left them, is what has come in. -/

namespace Accounts

variable {ι σ M : Type*} [Fintype ι] [DecidableEq ι] [AddCancelCommMonoid M]

/-- The sum of the parties' holdings after party `i` has moved to `x`. -/
theorem sum_update (hold : σ → M) (f : ι → σ) (i : ι) (x : σ) :
    hold (f i) + ∑ j, hold (Function.update f i x j) = hold x + ∑ j, hold (f j) := by
  have hupdate : (fun j => hold (Function.update f i x j)) =
      Function.update (fun j => hold (f j)) i (hold x) := by
    funext j
    exact Function.apply_update (fun _ => hold) f i x j
  rw [hupdate, Finset.sum_update_of_mem (Finset.mem_univ i), Finset.sdiff_singleton_eq_erase,
    ← Finset.add_sum_erase Finset.univ _ (Finset.mem_univ i)]
  exact add_left_comm _ _ _

/-- A balance of what went `out`, what is in hand and what came `into` the system is kept by a move
of one party that keeps it locally. -/
theorem balance {hold : σ → M} {f f' : ι → σ} {i : ι} {x : σ} {out out' into into' : M}
    (hmove : f' = Function.update f i x) (hbefore : out + ∑ j, hold (f j) = into)
    (hflow : out' + hold x + into = out + hold (f i) + into') :
    out' + ∑ j, hold (f' j) = into' := by
  subst hmove
  have hsum := sum_update hold f i x
  apply add_left_cancel (a := out + hold (f i))
  calc out + hold (f i) + (out' + ∑ j, hold (Function.update f i x j))
      = out + out' + (hold (f i) + ∑ j, hold (Function.update f i x j)) := by abel
    _ = out + out' + (hold x + ∑ j, hold (f j)) := by rw [hsum]
    _ = out' + hold x + (out + ∑ j, hold (f j)) := by abel
    _ = out + hold (f i) + into' := by rw [hbefore, hflow]

/-! ### Runs -/

section Runs

open Refine

variable {τ α ρ N : Type*} [AddCommMonoid N] {step : τ → α → τ × ρ}

/-- What flows in the calls of a list, given what flows in a call and its answer. -/
def flow (f : α → ρ → N) (actions : List α) (answers : List ρ) : N :=
  (List.zipWith f actions answers).sum

/-- When each call keeps the balance of what goes out, what is held and what comes in, so does a
list of calls. -/
theorem run_balance {hold : τ → N} {out into : α → ρ → N}
    (hstep : ∀ s a, out a (step s a).2 + hold (step s a).1 = hold s + into a (step s a).2)
    (s : τ) (actions : List α) :
    flow out actions (answers step s actions) + hold (after step s actions)
      = hold s + flow into actions (answers step s actions) := by
  induction actions generalizing s with
  | nil => simp [flow, answers, after]
  | cons a rest ih =>
    have ha := hstep s a
    have hrest := ih (step s a).1
    unfold flow at hrest ⊢
    simp only [answers, after, List.zipWith_cons_cons, List.sum_cons]
    rw [add_assoc, hrest, ← add_assoc, ha, add_assoc]

end Runs

end Accounts
