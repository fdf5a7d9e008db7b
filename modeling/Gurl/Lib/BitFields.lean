import Mathlib.Algebra.BigOperators.Group.Finset.Basic
import Mathlib.Algebra.BigOperators.Group.Finset.Piecewise
import Mathlib.Algebra.BigOperators.Group.List.Basic
import Mathlib.Tactic.Ring

/-! Numbers as rows of bit fields of one width, and what bitwise operations do to each field. -/

namespace BitFields

variable {w s m c x n : Nat} {as : List Nat}

/-- The number that has the given fields of `w` bits, the lowest first. -/
def pack (w : Nat) : List Nat → Nat
  | [] => 0
  | a :: as => 2 ^ w * pack w as + a

/-- The lowest `n` fields of a number. -/
def fields (w : Nat) : Nat → Nat → List Nat
  | 0, _ => []
  | n + 1, x => x % 2 ^ w :: fields w n (x / 2 ^ w)

/-- How many of the lowest `n` bits are one. -/
def ones (n x : Nat) : Nat := ((Finset.range n).filter fun i => x.testBit i).card

/-! ### Taking apart and putting together -/

@[simp]
theorem length_fields : (fields w n x).length = n := by
  induction n generalizing x with
  | zero => rfl
  | succ n ih => simp [fields, ih]

theorem fields_lt {a : Nat} (ha : a ∈ fields w n x) : a < 2 ^ w := by
  induction n generalizing x with
  | zero => simp [fields] at ha
  | succ n ih =>
    rcases List.mem_cons.mp ha with rfl | ha
    · exact Nat.mod_lt _ (Nat.two_pow_pos w)
    · exact ih ha

theorem pack_fields (hx : x < 2 ^ (w * n)) : pack w (fields w n x) = x := by
  induction n generalizing x with
  | zero =>
    simp only [Nat.mul_zero, Nat.pow_zero] at hx
    simp only [fields, pack]
    omega
  | succ n ih =>
    rw [Nat.mul_succ, Nat.pow_add] at hx
    rw [fields, pack, ih (Nat.div_lt_of_lt_mul (by rwa [Nat.mul_comm])), Nat.div_add_mod]

theorem pack_lt (h : ∀ a ∈ as, a < 2 ^ w) : pack w as < 2 ^ (w * as.length) := by
  induction as with
  | nil => simp [pack]
  | cons a as ih =>
    have hrest := ih fun b hb => h b (List.mem_cons_of_mem _ hb)
    have ha := h a List.mem_cons_self
    rw [pack, List.length_cons, Nat.mul_succ, Nat.pow_add, Nat.mul_comm (2 ^ (w * as.length))]
    calc 2 ^ w * pack w as + a < 2 ^ w * pack w as + 2 ^ w := by omega
      _ = 2 ^ w * (pack w as + 1) := by ring
      _ ≤ 2 ^ w * 2 ^ (w * as.length) := Nat.mul_le_mul_left _ hrest

theorem pack_map_add (f g : Nat → Nat) :
    pack w (as.map fun a => f a + g a) = pack w (as.map f) + pack w (as.map g) := by
  induction as with
  | nil => rfl
  | cons a as ih =>
    simp only [List.map_cons, pack, ih]
    ring

/-! ### Single bits -/

theorem testBit_pack (hw : 0 < w) (h : ∀ a ∈ as, a < 2 ^ w) (i : Nat) :
    (pack w as).testBit i = (as.getD (i / w) 0).testBit (i % w) := by
  induction as generalizing i with
  | nil => simp [pack]
  | cons a as ih =>
    rw [pack, Nat.testBit_two_pow_mul_add _ (h a List.mem_cons_self)]
    split
    next hlt => rw [Nat.div_eq_of_lt hlt, Nat.mod_eq_of_lt hlt, List.getD_cons_zero]
    next hge =>
      obtain ⟨j, rfl⟩ : ∃ j, i = j + w := ⟨i - w, by omega⟩
      rw [ih (fun b hb => h b (List.mem_cons_of_mem _ hb)), Nat.add_sub_cancel,
        Nat.add_div_right _ hw, Nat.add_mod_right, List.getD_cons_succ]

theorem ones_pack (h : ∀ a ∈ as, a < 2 ^ w) :
    ones (w * as.length) (pack w as) = (as.map (ones w)).sum := by
  induction as with
  | nil => simp [ones, pack]
  | cons a as ih =>
    rw [List.map_cons, List.sum_cons, ← ih fun b hb => h b (List.mem_cons_of_mem _ hb)]
    simp only [ones, Finset.card_filter]
    rw [List.length_cons, Nat.mul_succ, Nat.add_comm, Finset.sum_range_add]
    have hbit := Nat.testBit_two_pow_mul_add (pack w as) (h a List.mem_cons_self)
    congr 1
    · apply Finset.sum_congr rfl
      intro i hi
      rw [pack, hbit, if_pos (Finset.mem_range.mp hi)]
    · apply Finset.sum_congr rfl
      intro i _
      rw [pack, hbit, if_neg (show ¬w + i < w by omega), Nat.add_sub_cancel_left]

/-! ### Masks -/

theorem land_append {a b : Nat} (p q : Nat) (ha : a < 2 ^ w) (hb : b < 2 ^ w) :
    (2 ^ w * p + a) &&& (2 ^ w * q + b) = 2 ^ w * (p &&& q) + (a &&& b) := by
  have hand : a &&& b < 2 ^ w := Nat.and_lt_two_pow _ hb
  apply Nat.eq_of_testBit_eq
  intro i
  simp only [Nat.testBit_and, Nat.testBit_two_pow_mul_add _ ha, Nat.testBit_two_pow_mul_add _ hb,
    Nat.testBit_two_pow_mul_add _ hand]
  split <;> rfl

/-- A mask sees nothing of what is above it. -/
theorem land_above {b : Nat} (v u : Nat) (hb : b < 2 ^ w) :
    (2 ^ w * v + u) &&& b = u &&& b := by
  have hmod : ∀ y, y &&& b = y % 2 ^ w &&& b := by
    intro y
    have hsplit := land_append (y / 2 ^ w) 0 (Nat.mod_lt y (Nat.two_pow_pos w)) hb
    rwa [Nat.div_add_mod, Nat.mul_zero, Nat.zero_add, Nat.and_zero, Nat.mul_zero,
      Nat.zero_add] at hsplit
  rw [hmod (2 ^ w * v + u), hmod u, Nat.mul_add_mod]

theorem land_pack (hm : m < 2 ^ w) (h : ∀ a ∈ as, a < 2 ^ w) :
    pack w as &&& pack w (as.map fun _ => m) = pack w (as.map fun a => a &&& m) := by
  induction as with
  | nil => simp [pack]
  | cons a as ih =>
    simp only [List.map_cons, pack]
    rw [land_append _ _ (h a List.mem_cons_self) hm,
      ih fun b hb => h b (List.mem_cons_of_mem _ hb)]

/-- A shift to the right moves the low bits of each field into the one below. -/
theorem append_shift (hs : s ≤ w) (p a : Nat) :
    (2 ^ w * p + a) / 2 ^ s = 2 ^ w * (p / 2 ^ s) + (2 ^ (w - s) * (p % 2 ^ s) + a / 2 ^ s) := by
  have hpow : 2 ^ w = 2 ^ s * 2 ^ (w - s) := by rw [← Nat.pow_add, Nat.add_sub_cancel' hs]
  have hp := Nat.div_add_mod p (2 ^ s)
  calc (2 ^ w * p + a) / 2 ^ s = 2 ^ (w - s) * p + a / 2 ^ s := by
        rw [hpow, Nat.mul_assoc, Nat.mul_add_div (Nat.two_pow_pos s)]
    _ = 2 ^ (w - s) * (2 ^ s * (p / 2 ^ s) + p % 2 ^ s) + a / 2 ^ s := by rw [hp]
    _ = _ := by rw [hpow]; ring

/-- Where the mask hides what comes in from above, a shift works on each field alone. -/
theorem land_shift_pack (hs : s ≤ w) (hm : m < 2 ^ (w - s)) (h : ∀ a ∈ as, a < 2 ^ w) :
    pack w as / 2 ^ s &&& pack w (as.map fun _ => m) =
      pack w (as.map fun a => a / 2 ^ s &&& m) := by
  induction as with
  | nil => simp [pack]
  | cons a as ih =>
    have hpow : 2 ^ w = 2 ^ s * 2 ^ (w - s) := by rw [← Nat.pow_add, Nat.add_sub_cancel' hs]
    have hmw : m < 2 ^ w := hm.trans_le (Nat.pow_le_pow_right (by omega) (by omega))
    have hlow : a / 2 ^ s < 2 ^ (w - s) :=
      Nat.div_lt_of_lt_mul (hpow ▸ h a List.mem_cons_self)
    have hcarry : pack w as % 2 ^ s < 2 ^ s := Nat.mod_lt _ (Nat.two_pow_pos s)
    have hfield : 2 ^ (w - s) * (pack w as % 2 ^ s) + a / 2 ^ s < 2 ^ w := by
      calc _ < 2 ^ (w - s) * (pack w as % 2 ^ s) + 2 ^ (w - s) := by omega
        _ = 2 ^ (w - s) * (pack w as % 2 ^ s + 1) := by ring
        _ ≤ 2 ^ (w - s) * 2 ^ s := Nat.mul_le_mul_left _ hcarry
        _ = 2 ^ w := by rw [hpow, Nat.mul_comm]
    simp only [List.map_cons, pack]
    rw [append_shift hs, land_append _ _ hfield hmw, land_above _ _ hm,
      ih fun b hb => h b (List.mem_cons_of_mem _ hb)]

/-- The same for a number and itself shifted, where no field overflows. -/
theorem land_add_shift_pack (hs : s ≤ w) (hm : m < 2 ^ (w - s)) (hlow : ∀ a ∈ as, a % 2 ^ s ≤ c)
    (hroom : ∀ a ∈ as, 2 ^ (w - s) * c + (a + a / 2 ^ s) < 2 ^ w) :
    (pack w as + pack w as / 2 ^ s) &&& pack w (as.map fun _ => m)
      = pack w (as.map fun a => (a + a / 2 ^ s) &&& m) := by
  induction as with
  | nil => simp [pack]
  | cons a as ih =>
    have hmw : m < 2 ^ w := hm.trans_le (Nat.pow_le_pow_right (by omega) (by omega))
    have hcarry : pack w as % 2 ^ s ≤ c := by
      cases as with
      | nil => simp [pack]
      | cons b bs =>
        have hpow : 2 ^ w = 2 ^ s * 2 ^ (w - s) := by
          rw [← Nat.pow_add, Nat.add_sub_cancel' hs]
        rw [pack, hpow, Nat.mul_assoc, Nat.mul_add_mod]
        exact hlow b (by simp)
    have hfield : 2 ^ (w - s) * (pack w as % 2 ^ s) + (a + a / 2 ^ s) < 2 ^ w :=
      (Nat.add_le_add_right (Nat.mul_le_mul_left _ hcarry) _).trans_lt
        (hroom a List.mem_cons_self)
    have hsum : 2 ^ w * pack w as + a
          + (2 ^ w * (pack w as / 2 ^ s) + (2 ^ (w - s) * (pack w as % 2 ^ s) + a / 2 ^ s))
        = 2 ^ w * (pack w as + pack w as / 2 ^ s)
          + (2 ^ (w - s) * (pack w as % 2 ^ s) + (a + a / 2 ^ s)) := by ring
    simp only [List.map_cons, pack]
    rw [append_shift hs, hsum, land_append _ _ hfield hmw, land_above _ _ hm,
      ih (fun b hb => hlow b (List.mem_cons_of_mem _ hb))
        (fun b hb => hroom b (List.mem_cons_of_mem _ hb))]

end BitFields
