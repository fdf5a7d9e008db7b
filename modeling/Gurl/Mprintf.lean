import Gurl.Strparse

/-! The numbers that `lib/mprintf.c` prints in decimal, and that `curlx_str_number` reads again. -/

namespace Gurl.Mprintf

open Strparse

/-- The digits of `num` in front of `w`, the last one first. -/
def decLoop : Nat → Nat → Bytes → Bytes
  | 0, _, w => w
  | fuel + 1, num, w =>
    if num = 0 then w else decLoop fuel (num / 10) (UInt8.ofNat (48 + num % 10) :: w)

/-- `%u`: a number of 64 bits has no more than 20 digits. -/
def fmtUint (num : Nat) : Bytes := if num = 0 then [48] else decLoop 20 num []

/-- `%d`. -/
def fmtInt (num : Int) : Bytes :=
  if num < 0 then 45 :: fmtUint num.natAbs else fmtUint num.natAbs

theorem digit_spec : ∀ n, n < 10 → (UInt8.ofNat (48 + n)).toNat - 48 = n ∧
    isDigit (UInt8.ofNat (48 + n)) = true := by
  decide

variable {num fuel : Nat} {w : Bytes}

theorem decimalFrom_decLoop (hnum : num < 10 ^ fuel) :
    decimalFrom 0 (decLoop fuel num w) = decimalFrom num w := by
  induction fuel generalizing num w with
  | zero =>
    obtain rfl : num = 0 := by simpa using hnum
    rfl
  | succ fuel ih =>
    rw [decLoop]
    split
    · rename_i hzero
      rw [hzero]
    · have hquot : num / 10 < 10 ^ fuel := by
        rw [Nat.div_lt_iff_lt_mul (by decide), ← Nat.pow_succ]
        exact hnum
      rw [ih hquot, decimalFrom, List.foldl_cons, (digit_spec _ (Nat.mod_lt _ (by decide))).1,
        Nat.div_add_mod' num 10]
      rfl

theorem decLoop_digits (h : ∀ c ∈ w, isDigit c = true) :
    ∀ c ∈ decLoop fuel num w, isDigit c = true := by
  induction fuel generalizing num w with
  | zero => exact h
  | succ fuel ih =>
    rw [decLoop]
    split
    · exact h
    · refine ih fun c hc => ?_
      rcases List.mem_cons.mp hc with rfl | hc
      · exact (digit_spec _ (Nat.mod_lt _ (by decide))).2
      · exact h c hc

theorem decLoop_length {k : Nat} (hnum : num < 10 ^ k) :
    (decLoop fuel num w).length ≤ k + w.length := by
  induction fuel generalizing num w k with
  | zero => simp [decLoop]
  | succ fuel ih =>
    rw [decLoop]
    split
    · omega
    · cases k with
      | zero =>
        rw [Nat.pow_zero] at hnum
        omega
      | succ k =>
        have hquot : num / 10 < 10 ^ k := by
          rw [Nat.div_lt_iff_lt_mul (by decide), ← Nat.pow_succ]
          exact hnum
        have := @ih (num / 10) (UInt8.ofNat (48 + num % 10) :: w) k hquot
        rw [List.length_cons] at this
        omega

theorem fmtUint_digits (num : Nat) : ∀ c ∈ fmtUint num, isDigit c = true := by
  unfold fmtUint
  split
  · simp [isDigit]
  · exact decLoop_digits (by simp)

theorem decimal_fmtUint (hnum : num < 10 ^ 20) : decimal (fmtUint num) = num := by
  unfold fmtUint
  split
  · rename_i hzero
    rw [hzero]
    decide
  · exact decimalFrom_decLoop hnum

theorem fmtUint_ne_nil (hnum : num < 10 ^ 20) : fmtUint num ≠ [] := by
  intro hnil
  have hvalue := decimal_fmtUint hnum
  rw [hnil] at hvalue
  obtain rfl : num = 0 := hvalue.symm
  cases hnil

theorem fmtUint_length {k : Nat} (hk : 1 ≤ k) (hnum : num < 10 ^ k) :
    (fmtUint num).length ≤ k := by
  unfold fmtUint
  split
  · exact hk
  · exact decLoop_length hnum

/-- `curlx_str_number` reads a number that was printed in front of something else. -/
theorem strNumber_fmtUint {max : Nat} (hmax : 10 ≤ max) (hnum : num < 10 ^ 20) (hle : num ≤ max)
    {rest : Bytes} (hrest : ∀ c ∈ rest.head?, isDigit c = false) :
    strNumber (fmtUint num ++ rest) max = .ok (num, rest) := by
  have htake : (fmtUint num ++ rest).takeWhile isDigit = fmtUint num := by
    rw [List.takeWhile_append_of_pos (fmtUint_digits num)]
    rcases rest with _ | ⟨c, rest⟩
    · simp
    · rw [List.takeWhile_cons_of_neg (by simp [hrest c rfl]), List.append_nil]
  have hdrop : (fmtUint num ++ rest).dropWhile isDigit = rest := by
    rw [List.dropWhile_append_of_pos (fmtUint_digits num)]
    rcases rest with _ | ⟨c, rest⟩
    · rfl
    · rw [List.dropWhile_cons_of_neg (by simp [hrest c rfl])]
  rw [strNumber_eq hmax, htake, hdrop, if_neg (fmtUint_ne_nil hnum), decimal_fmtUint hnum,
    if_pos hle]

end Gurl.Mprintf
