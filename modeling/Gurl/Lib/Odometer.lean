import Mathlib.Algebra.BigOperators.Group.List.Basic

/-! Counters that go through their positions one by one, and the odometer that several of them make:
the last one turns first, and its carry goes to the left. -/

namespace Gurl.Odometer

variable {σ τ : Type} {next : σ → σ × Bool}

/-- The positions follow each other, and behind the last one comes `r`. -/
def Turns (next : σ → σ × Bool) (r : σ × Bool) : List σ → Prop
  | [] => False
  | [w] => next w = r
  | w :: w' :: ws => next w = (w', false) ∧ Turns next r (w' :: ws)

/-- The counter carries at the last position and is back at the first one. -/
def IsCycle (next : σ → σ × Bool) (ws : List σ) : Prop :=
  ∃ w rest, ws = w :: rest ∧ Turns next (w, true) ws

/-- One step of the odometer. -/
def advance (next : σ → σ × Bool) : List σ → List σ × Bool
  | [] => ([], true)
  | w :: ws =>
    let (ws, carry) := advance next ws
    if carry then
      let (w, carry) := next w
      (w :: ws, carry)
    else (w :: ws, false)

/-- All combinations, in lexicographic order. -/
def product : List (List σ) → List (List σ)
  | [] => [[]]
  | ws :: wss => ws.flatMap fun w => (product wss).map (w :: ·)

/-- What `n` steps give. -/
def trace (next : σ → σ × Bool) : Nat → σ → List (σ × Bool)
  | 0, _ => []
  | n + 1, w => next w :: trace next n (next w).1

theorem length_product (wss : List (List σ)) :
    (product wss).length = (wss.map List.length).prod := by
  induction wss with
  | nil => rfl
  | cons ws wss ih => simp [product, List.length_flatMap, ih]

theorem map_product (f : σ → τ) (wss : List (List σ)) :
    (product wss).map (List.map f) = product (wss.map (List.map f)) := by
  induction wss with
  | nil => rfl
  | cons ws wss ih =>
    simp only [product, List.map_cons, List.map_flatMap, List.flatMap_map, ← ih, List.map_map]
    rfl

theorem Turns.append {r : σ × Bool} {xs ys : List σ} {y : σ} (hxs : Turns next (y, false) xs)
    (hys : Turns next r (y :: ys)) : Turns next r (xs ++ y :: ys) := by
  induction xs with
  | nil => exact hxs.elim
  | cons x xs ih =>
    cases xs with
    | nil => exact ⟨hxs, hys⟩
    | cons x' xs => exact ⟨hxs.1, ih hxs.2⟩

theorem advance_of_not_carry {w : σ} {ws ws' : List σ} (h : advance next ws = (ws', false)) :
    advance next (w :: ws) = (w :: ws', false) := by
  rw [advance, h]
  rfl

theorem advance_of_carry {w w' : σ} {ws ws' : List σ} {carry : Bool}
    (h : advance next ws = (ws', true)) (hw : next w = (w', carry)) :
    advance next (w :: ws) = (w' :: ws', carry) := by
  rw [advance, h]
  simp only [if_pos, hw]

/-- The wheels on the right go once round while a wheel stands at a position. -/
theorem Turns.map_cons {w w' : σ} {carry : Bool} {p : List σ} {ps : List (List σ)}
    (h : Turns (advance next) (p, true) ps) (hw : next w = (w', carry)) :
    Turns (advance next) (w' :: p, carry) (ps.map (w :: ·)) := by
  induction ps with
  | nil => exact h.elim
  | cons p1 ps ih =>
    cases ps with
    | nil => exact advance_of_carry h hw
    | cons p2 ps => exact ⟨advance_of_not_carry h.1, ih h.2⟩

theorem Turns.flatMap {r : σ × Bool} {ws : List σ} {p : List σ} {ps : List (List σ)}
    (h : Turns next r ws) (hps : Turns (advance next) (p, true) (p :: ps)) :
    Turns (advance next) (r.1 :: p, r.2) (ws.flatMap fun w => (p :: ps).map (w :: ·)) := by
  induction ws with
  | nil => exact h.elim
  | cons w ws ih =>
    cases ws with
    | nil =>
      rw [List.flatMap_singleton]
      exact hps.map_cons h
    | cons w' ws =>
      rw [List.flatMap_cons]
      exact (hps.map_cons h.1).append (ih h.2)

/-- The odometer goes through all combinations of the positions of its wheels. -/
theorem isCycle_product {wss : List (List σ)} (h : ∀ ws ∈ wss, IsCycle next ws) :
    IsCycle (advance next) (product wss) := by
  induction wss with
  | nil => exact ⟨[], [], rfl, rfl⟩
  | cons ws wss ih =>
    obtain ⟨w, rest, rfl, hturns⟩ := h ws List.mem_cons_self
    obtain ⟨p, ps, hproduct, hps⟩ := ih fun ws hws => h ws (List.mem_cons_of_mem _ hws)
    rw [hproduct] at hps
    rw [product, hproduct]
    exact ⟨w :: p, _, rfl, hturns.flatMap hps⟩

/-- A counter that counts to `n`. -/
theorem isCycle_range {f : Nat → σ} {n : Nat} (h : ∀ k < n, next (f k) = (f (k + 1), false))
    (hlast : next (f n) = (f 0, true)) : IsCycle next ((List.range (n + 1)).map f) := by
  have hturns (m k : Nat) (hk : k + m = n) : Turns next (f 0, true)
    ((List.range' k (m + 1)).map f) := by
    induction m generalizing k with
    | zero =>
      obtain rfl : k = n := hk
      exact hlast
    | succ m ih => exact ⟨h k (by omega), ih (k + 1) (by omega)⟩
  rw [List.range_eq_range']
  exact ⟨f 0, _, rfl, hturns n 0 (by omega)⟩

/-- From its first position a counter visits the others and then ends. -/
theorem Turns.trace_eq {r : σ × Bool} {w : σ} {ws : List σ} (h : Turns next r (w :: ws)) :
    trace next (ws.length + 1) w = ws.map (·, false) ++ [r] := by
  induction ws generalizing w with
  | nil =>
    rw [List.length_nil, trace, trace, show next w = r from h]
    rfl
  | cons w' ws ih =>
    rw [List.length_cons, trace, h.1, ih h.2]
    rfl

end Gurl.Odometer
