import Gurl.Lib.BigEndian

/-! Strings of bytes as strings of bits, the highest bit of a byte first, and what masks say of the
first bits. -/

namespace BitPrefix

variable {as bs : List UInt8} {a b : UInt8} {n k r w x y m : Nat}

def bitAt (bs : List UInt8) (i : Nat) : Bool := (bs.getD (i / 8) 0).toNat.testBit (7 - i % 8)

/-- The first `n` bits are the same. -/
def Agree (n : Nat) (as bs : List UInt8) : Prop := ∀ i < n, bitAt as i = bitAt bs i

@[simp] theorem bitAt_cons (h : n < 8) : bitAt (a :: as) n = a.toNat.testBit (7 - n) := by
  rw [bitAt, Nat.div_eq_of_lt h, Nat.mod_eq_of_lt h]
  rfl

@[simp] theorem bitAt_add (n : Nat) : bitAt (a :: as) (8 + n) = bitAt as n := by
  rw [bitAt, Nat.add_div_left _ (by decide), Nat.add_mod_left]
  rfl

theorem byte_ext (h : ∀ n < 8, a.toNat.testBit (7 - n) = b.toNat.testBit (7 - n)) : a = b := by
  apply UInt8.toNat_inj.mp
  apply Nat.eq_of_testBit_eq
  intro i
  by_cases hi : i < 8
  · have hbit := h (7 - i) (by omega)
    rwa [show 7 - (7 - i) = i by omega] at hbit
  · have hpow : 2 ^ 8 ≤ 2 ^ i := Nat.pow_le_pow_right (by decide) (by omega)
    rw [Nat.testBit_lt_two_pow (Nat.lt_of_lt_of_le a.toNat_lt hpow),
      Nat.testBit_lt_two_pow (Nat.lt_of_lt_of_le b.toNat_lt hpow)]

theorem agree_cons : Agree (8 + n) (a :: as) (b :: bs) ↔ a = b ∧ Agree n as bs := by
  constructor
  · intro h
    refine ⟨byte_ext fun i hi => ?_, fun i hi => ?_⟩
    · simpa [hi] using h i (by omega)
    · simpa using h (8 + i) (by omega)
  · rintro ⟨rfl, h⟩ i hi
    by_cases hsmall : i < 8
    · rw [bitAt_cons hsmall, bitAt_cons hsmall]
    · obtain ⟨j, rfl⟩ := Nat.exists_eq_add_of_le (show 8 ≤ i by omega)
      rw [bitAt_add, bitAt_add]
      exact h j (by omega)

/-- The first bits are whole bytes, and a part of the next byte. -/
theorem agree_bytes (ha : k ≤ as.length) (hb : k ≤ bs.length) (hr : r < 8) :
    Agree (8 * k + r) as bs ↔ as.take k = bs.take k ∧
      ∀ i < r, (as.getD k 0).toNat.testBit (7 - i) = (bs.getD k 0).toNat.testBit (7 - i) := by
  induction k generalizing as bs with
  | zero =>
    rw [Nat.mul_zero, Nat.zero_add, List.take_zero, List.take_zero, eq_self, true_and]
    apply forall₂_congr
    intro i hi
    rw [bitAt, bitAt, Nat.div_eq_of_lt (by omega), Nat.mod_eq_of_lt (by omega)]
  | succ k ih =>
    cases as with
    | nil => exact absurd ha (Nat.not_succ_le_zero k)
    | cons a as =>
      cases bs with
      | nil => exact absurd hb (Nat.not_succ_le_zero k)
      | cons b bs =>
        rw [show 8 * (k + 1) + r = 8 + (8 * k + r) by omega, agree_cons,
          ih (Nat.le_of_succ_le_succ ha) (Nat.le_of_succ_le_succ hb), List.take_succ_cons,
          List.take_succ_cons, List.cons.injEq, and_assoc]
        rfl

/-- All of the bits. -/
theorem agree_all (ha : as.length = k) (hb : bs.length = k) : Agree (8 * k) as bs ↔ as = bs := by
  rw [← Nat.add_zero (8 * k), agree_bytes (Nat.le_of_eq ha.symm) (Nat.le_of_eq hb.symm) (by decide)]
  nth_rewrite 1 [← ha]
  rw [← hb, List.take_length, List.take_length]
  exact and_iff_left nofun

/-- The bits of a number are the bits of its bytes. -/
theorem testBit_value (h : n < 8 * bs.length) :
    (BigEndian.value bs).testBit (8 * bs.length - 1 - n) = bitAt bs n := by
  induction bs using List.reverseRecOn with
  | nil => exact absurd h (Nat.not_lt_zero n)
  | append_singleton bs b ih =>
    rw [List.length_append, List.length_singleton] at h ⊢
    have hvalue : BigEndian.value (bs ++ [b]) = 2 ^ 8 * BigEndian.value bs + b.toNat := by
      rw [BigEndian.value_concat, Nat.mul_comm]
      rfl
    rw [hvalue, Nat.testBit_two_pow_mul_add _ b.toNat_lt]
    by_cases hlast : n < 8 * bs.length
    · rw [if_neg (by omega), show 8 * (bs.length + 1) - 1 - n - 8 = 8 * bs.length - 1 - n by omega,
        ih hlast, bitAt, bitAt, List.getD_append _ _ _ _ (by omega)]
    · rw [if_pos (by omega), bitAt, List.getD_append_right _ _ _ _ (by omega),
        show n / 8 - bs.length = 0 by omega]
      change _ = b.toNat.testBit _
      congr 1
      omega

/-- A mask of `n` bits at the top of `w` bits finds a difference in the first `n` bits. -/
theorem mask_eq_zero (hx : x < 2 ^ w) (hy : y < 2 ^ w) (hn : n ≤ w)
    (hm : ∀ i < w, m.testBit i = decide (w - n ≤ i)) :
    (x ^^^ y) &&& m = 0 ↔ ∀ i < n, x.testBit (w - 1 - i) = y.testBit (w - 1 - i) := by
  constructor
  · intro h i hi
    have hbit := congrArg (Nat.testBit · (w - 1 - i)) h
    simp only [Nat.testBit_and, Nat.testBit_xor, hm (w - 1 - i) (by omega), Nat.zero_testBit]
      at hbit
    rw [decide_eq_true (by omega), Bool.and_true, bne_eq_false_iff_eq] at hbit
    exact hbit
  · intro h
    apply Nat.eq_of_testBit_eq
    intro i
    rw [Nat.testBit_and, Nat.testBit_xor, Nat.zero_testBit]
    by_cases hi : i < w
    · by_cases hmask : w - n ≤ i
      · have hbit := h (w - 1 - i) (by omega)
        rw [show w - 1 - (w - 1 - i) = i by omega] at hbit
        rw [hbit, Bool.xor_self, Bool.false_and]
      · rw [hm i hi, decide_eq_false hmask, Bool.and_false]
    · have hpow : 2 ^ w ≤ 2 ^ i := Nat.pow_le_pow_right (by decide) (by omega)
      rw [Nat.testBit_lt_two_pow (Nat.lt_of_lt_of_le hx hpow),
        Nat.testBit_lt_two_pow (Nat.lt_of_lt_of_le hy hpow)]
      rfl

end BitPrefix
