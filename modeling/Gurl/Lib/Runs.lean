import Mathlib.Init
import Mathlib.Data.List.GetD
import Mathlib.Order.Basic
import Mathlib.Data.Nat.Init
import Mathlib.Algebra.Order.Group.Nat

/-! Runs of a system given by a step function: `step s a` is the state after action `a`, if the
action is possible in `s`. -/

namespace Runs

variable {σ α : Type*} {step : σ → α → Option σ} {s s' s'' : σ}

/-- Take the actions of a list in order. -/
def exec (step : σ → α → Option σ) : σ → List α → Option σ
  | s, [] => some s
  | s, a :: rest => (step s a).bind (exec step · rest)

/-- Some actions lead from `s` to a state. -/
inductive Reach (step : σ → α → Option σ) (s : σ) : σ → Prop
  | refl : Reach step s s
  | snoc {s' s'' : σ} {a : α} : Reach step s s' → step s' a = some s'' → Reach step s s''

theorem Reach.trans (h1 : Reach step s s') (h2 : Reach step s' s'') : Reach step s s'' := by
  induction h2 with
  | refl => exact h1
  | snoc _ ha ih => exact .snoc ih ha

theorem Reach.of_exec {actions : List α} (h : exec step s actions = some s') :
    Reach step s s' := by
  induction actions generalizing s with
  | nil =>
    cases h
    exact .refl
  | cons a rest ih =>
    obtain ⟨s1, h1, h2⟩ := Option.bind_eq_some_iff.mp h
    exact Reach.trans (.snoc .refl h1) (ih h2)

/-- A property of the first state that every step from a reachable state preserves holds in every
reachable state. -/
theorem Reach.invariant {P : σ → Prop} (h : Reach step s s') (hstart : P s)
    (hstep : ∀ {t a t'}, Reach step s t → P t → step t a = some t' → P t') : P s' := by
  induction h with
  | refl => exact hstart
  | snoc hr ha ih => exact hstep hr ih ha

/-- A property of the first state that every action of a kind preserves holds after any actions of
that kind. -/
theorem exec_invariant (P : σ → Prop) (kind : α → Prop) {actions : List α}
    (h : exec step s actions = some s') (hkind : ∀ a ∈ actions, kind a) (hstart : P s)
    (hstep : ∀ {t a t'}, P t → kind a → step t a = some t' → P t') : P s' := by
  induction actions generalizing s with
  | nil =>
    cases h
    exact hstart
  | cons a rest ih =>
    obtain ⟨s1, h1, h2⟩ := Option.bind_eq_some_iff.mp h
    exact ih h2 (fun b hb => hkind b (List.mem_cons_of_mem _ hb))
      (hstep hstart (hkind a List.mem_cons_self) h1)

/-- Actions that touch only the part of the state that their key names: over actions with distinct
keys, a part is touched by one of them at most. -/
theorem exec_part {κ β : Type*} (key : α → κ) (part : σ → κ → β)
    (hframe : ∀ {s a s'} k, step s a = some s' → key a ≠ k → part s' k = part s k)
    {actions : List α} (h : exec step s actions = some s') (hnd : (actions.map key).Nodup) (k : κ) :
    (k ∉ actions.map key ∧ part s' k = part s k) ∨
      ∃ a ∈ actions, key a = k ∧ ∃ s1 s2, part s1 k = part s k ∧ step s1 a = some s2 ∧
        part s' k = part s2 k := by
  induction actions generalizing s with
  | nil =>
    cases h
    exact .inl ⟨List.not_mem_nil, rfl⟩
  | cons a rest ih =>
    obtain ⟨s1, h1, h2⟩ := Option.bind_eq_some_iff.mp h
    obtain ⟨hfresh, hnd⟩ := List.nodup_cons.mp hnd
    rcases ih h2 hnd with ⟨hk, heq⟩ | ⟨b, hb, rfl, t1, t2, ht1, hstep, ht2⟩
    · by_cases hka : key a = k
      · exact .inr ⟨a, List.mem_cons_self, hka, s, s1, rfl, h1, heq⟩
      · refine .inl ⟨?_, heq.trans (hframe k h1 hka)⟩
        rw [List.map_cons, List.mem_cons, not_or]
        exact ⟨fun h => hka h.symm, hk⟩
    · have hne : key a ≠ key b := by
        intro heq
        rw [heq] at hfresh
        exact hfresh (List.mem_map_of_mem hb)
      exact .inr ⟨b, List.mem_cons_of_mem _ hb, rfl, t1, t2, ht1.trans (hframe _ h1 hne), hstep,
        ht2⟩

/-- Two systems that stay related under every action show the same on every list of actions. -/
theorem exec_agree {τ β : Type*} {step' : τ → α → Option τ} {R : σ → τ → Prop} {show₁ : σ → β}
    {show₂ : τ → β} (hshow : ∀ {s t}, R s t → show₁ s = show₂ t)
    (hstep : ∀ {s t} a, R s t → Option.Rel R (step s a) (step' t a)) {t : τ} (h : R s t)
    (actions : List α) :
    (exec step s actions).map show₁ = (exec step' t actions).map show₂ := by
  induction actions generalizing s t with
  | nil => exact congrArg some (hshow h)
  | cons a rest ih =>
    have hrel := hstep a h
    unfold exec
    generalize step s a = x at hrel ⊢
    generalize step' t a = y at hrel ⊢
    cases hrel with
    | none => rfl
    | some h' => exact ih h'

/-- A flag that is never cleared: it is set in the end if and only if some step sets it. -/
theorem exec_flag (flag : σ → Bool) (sets : σ → α → Bool)
    (hstep : ∀ {t a t'}, step t a = some t' → flag t' = (flag t || sets t a)) {actions : List α}
    (h : exec step s actions = some s') :
    flag s' = true ↔ flag s = true ∨ ∃ before a after t, actions = before ++ a :: after ∧
      exec step s before = some t ∧ sets t a = true := by
  induction actions generalizing s with
  | nil =>
    cases h
    simp
  | cons a rest ih =>
    obtain ⟨s1, h1, h2⟩ := Option.bind_eq_some_iff.mp h
    rw [ih h2, hstep h1, Bool.or_eq_true, or_assoc]
    apply or_congr_right
    constructor
    · rintro (hset | ⟨before, b, after, t, rfl, ht, hset⟩)
      · exact ⟨[], a, rest, s, rfl, rfl, hset⟩
      · exact ⟨a :: before, b, after, t, rfl, by rw [exec, h1]; exact ht, hset⟩
    · rintro ⟨before, b, after, t, hsplit, ht, hset⟩
      cases before with
      | nil =>
        cases ht
        cases hsplit
        exact .inl hset
      | cons c before =>
        obtain ⟨rfl, rfl⟩ := List.cons.inj hsplit
        rw [exec, h1] at ht
        exact .inr ⟨before, b, after, t, rfl, ht, hset⟩

/-! Infinite runs, and what they reach when every useful action is taken in the end. -/

theorem exec_append (step : σ → α → Option σ) (s : σ) (l r : List α) :
    exec step s (l ++ r) = (exec step s l).bind (exec step · r) := by
  induction l generalizing s with
  | nil => rfl
  | cons a l ih =>
    simp only [List.cons_append, exec]
    cases step s a with
    | none => rfl
    | some t => exact ih t

/-- An infinite run. -/
structure Forever (step : σ → α → Option σ) (s : σ) where
  state : Nat → σ
  action : Nat → α
  start : state 0 = s
  next : ∀ t, step (state t) (action t) = some (state (t + 1))

/-- What the first state has and every step of the run keeps. -/
theorem Forever.invariant (run : Forever step s) {P : σ → Prop} (hstart : P s)
    (hstep : ∀ t, P (run.state t) → P (run.state (t + 1))) (t : Nat) : P (run.state t) := by
  induction t with
  | zero =>
    rw [run.start]
    exact hstart
  | succ t ih => exact hstep t ih

/-- A run that does not leave a state. -/
theorem Forever.stays (run : Forever step s) {t : Nat}
    (h : ∀ a s', step (run.state t) a = some s' → s' = run.state t) {u : Nat} (hu : t ≤ u) :
    run.state u = run.state t := by
  induction u, hu using Nat.le_induction with
  | base => rfl
  | succ u hu ih =>
    have hnext := run.next u
    rw [ih] at hnext
    exact h _ _ hnext

/-- When nothing changes before a useful action, there is a useful action in the same state. -/
theorem Forever.reaches_useful (run : Forever step s) (useful : σ → α → Prop) {t u : Nat}
    (hstay : ∀ v, run.state v = run.state t → ¬useful (run.state t) (run.action v) →
      run.state (v + 1) = run.state t)
    (hu : t ≤ u) (huse : useful (run.state t) (run.action u)) :
    ∃ v, run.state v = run.state t ∧ useful (run.state t) (run.action v) := by
  by_contra hnone
  push Not at hnone
  have hsame : ∀ v, t ≤ v → run.state v = run.state t := by
    intro v hv
    induction v, hv using Nat.le_induction with
    | base => rfl
    | succ v _ ih => exact hstay v ih (hnone v ih)
  exact hnone u (hsame u hu) huse

/-- A run reaches its goal when useless actions change nothing, each useful one lowers the rank, and
until the goal is reached there is always a useful one to come. -/
theorem Forever.eventually (run : Forever step s) (rank : σ → Nat) (done : σ → Prop)
    (useful : σ → α → Prop)
    (hstay : ∀ t, ¬done (run.state t) → ¬useful (run.state t) (run.action t) →
      run.state (t + 1) = run.state t)
    (hlower : ∀ t, ¬done (run.state t) → useful (run.state t) (run.action t) →
      rank (run.state (t + 1)) < rank (run.state t))
    (hfair : ∀ t, ¬done (run.state t) → ∃ u, t ≤ u ∧ useful (run.state t) (run.action u)) :
    ∃ t, done (run.state t) := by
  have hmain : ∀ n t, rank (run.state t) = n → ∃ t, done (run.state t) := by
    intro n
    induction n using Nat.strongRecOn with
    | ind n ih =>
      intro t hn
      by_cases hdone : done (run.state t)
      · exact ⟨t, hdone⟩
      obtain ⟨u, hu, huse⟩ := hfair t hdone
      obtain ⟨v, hv, huse⟩ := run.reaches_useful useful
        (fun v hv hnot => (hstay v (hv ▸ hdone) (hv ▸ hnot)).trans hv) hu huse
      have hlt := hlower v (hv ▸ hdone) (hv ▸ huse)
      rw [hv, hn] at hlt
      exact ih _ hlt (v + 1) rfl
  exact hmain _ 0 rfl

/-- Take the actions of a list, and then stay in the state they lead to. -/
def Forever.idle {actions : List α} {final : σ} {a : α} (h : exec step s actions = some final)
    (hidle : step final a = some final) : Forever step s where
  state t := (exec step s (actions.take t)).getD final
  action t := actions.getD t a
  start := rfl
  next t := by
    by_cases ht : t < actions.length
    · have hsplit : exec step s (actions.take t ++ actions.drop t) = some final := by
        rw [List.take_append_drop]
        exact h
      rw [exec_append] at hsplit
      obtain ⟨x, hx, hrest⟩ := Option.bind_eq_some_iff.mp hsplit
      rw [List.drop_eq_getElem_cons ht] at hrest
      obtain ⟨y, hy, -⟩ := Option.bind_eq_some_iff.mp hrest
      rw [List.take_add_one, exec_append, hx, List.getElem?_eq_getElem ht]
      simp [exec, hy, List.getElem?_eq_getElem ht]
    · rw [List.take_of_length_le (by omega), List.take_of_length_le (by omega), h,
        List.getD_eq_default _ _ (by omega)]
      exact hidle

theorem Forever.idle_state {actions : List α} {final : σ} {a : α}
    (h : exec step s actions = some final) (hidle : step final a = some final) {t : Nat}
    (ht : actions.length ≤ t) : (Forever.idle h hidle).state t = final := by
  dsimp only [Forever.idle]
  rw [List.take_of_length_le ht, h, Option.getD_some]

end Runs
