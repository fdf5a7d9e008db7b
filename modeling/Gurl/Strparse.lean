import Gurl.Curlcode
import Mathlib.Data.List.TakeWhile
import Mathlib.Tactic.IntervalCases

/-! The parts of `lib/curlx/strparse.c` that read numbers and single bytes. A C string is the list
of its bytes, without the terminating zero. -/

namespace Gurl.Strparse

/-- The `STRE_` codes. -/
inductive StrError where
  | noNum | overflow | byte
  deriving DecidableEq

/-- `curlx_hexasciitable`, from `'0'` to `'f'`. -/
def hexasciitable : List Nat :=
  [16, 1, 2, 3, 4, 5, 6, 7, 8, 9] ++ List.replicate 7 0 ++ [10, 11, 12, 13, 14, 15] ++
    List.replicate 26 0 ++ [10, 11, 12, 13, 14, 15]

def hexval (x : UInt8) : Nat := hexasciitable.getD (x.toNat - 48) 0 &&& 0x0f

/-- `valid_digit(x, m)`: `m` is the largest digit possible. -/
def validDigit (x : UInt8) (m : Nat) : Bool :=
  48 ≤ x.toNat && x.toNat ≤ m && hexasciitable.getD (x.toNat - 48) 0 != 0

/-- The loops of `str_num_base`, behind `num`. They differ in how they check for an overflow. -/
def numLoop (max base m : Nat) (num : Nat) : Bytes → Except StrError (Nat × Bytes)
  | [] => .ok (num, [])
  | c :: p =>
    if validDigit c m then
      if max < base then
        if num * base + hexval c > max then .error .overflow
        else numLoop max base m (num * base + hexval c) p
      else if num > (max - hexval c) / base then .error .overflow
      else numLoop max base m (num * base + hexval c) p
    else .ok (num, c :: p)

/-- `str_num_base`: the number and the rest of the line. -/
def strNumBase (line : Bytes) (max base : Nat) : Except StrError (Nat × Bytes) :=
  let m := if base = 10 then 57 else if base = 16 then 102 else 55
  match line with
  | [] => .error .noNum
  | c :: _ => if validDigit c m then numLoop max base m 0 line else .error .noNum

/-- `curlx_str_number`. -/
def strNumber (line : Bytes) (max : Nat) : Except StrError (Nat × Bytes) :=
  strNumBase line max 10

/-- `curlx_str_single`. -/
def strSingle (line : Bytes) (byte : UInt8) : Except StrError Bytes :=
  match line with
  | [] => .error .byte
  | c :: p => if c = byte then .ok p else .error .byte

/-! ### Decimal numbers -/

def isDigit (c : UInt8) : Bool := 48 ≤ c.toNat && c.toNat ≤ 57

/-- The value of decimal digits behind the number `num`. -/
def decimalFrom (num : Nat) (ds : Bytes) : Nat :=
  ds.foldl (fun n c => n * 10 + (c.toNat - 48)) num

def decimal (ds : Bytes) : Nat := decimalFrom 0 ds

theorem digit_table : ∀ n, 48 ≤ n → n ≤ 57 →
    hexasciitable.getD (n - 48) 0 ≠ 0 ∧ hexasciitable.getD (n - 48) 0 &&& 0x0f = n - 48 := by
  intro n h1 h2
  interval_cases n <;> decide

theorem validDigit_eq (c : UInt8) : validDigit c 57 = isDigit c := by
  unfold validDigit isDigit
  by_cases h : 48 ≤ c.toNat ∧ c.toNat ≤ 57
  · have hne := (digit_table _ h.1 h.2).1
    rw [decide_eq_true h.1, decide_eq_true h.2, bne_iff_ne.mpr hne, Bool.and_true]
  · have hno : (decide (48 ≤ c.toNat) && decide (c.toNat ≤ 57)) = false := by simpa using h
    rw [hno, Bool.false_and]

theorem hexval_eq {c : UInt8} (h : isDigit c = true) : hexval c = c.toNat - 48 := by
  simp only [isDigit, Bool.and_eq_true, decide_eq_true_eq] at h
  exact (digit_table _ h.1 h.2).2

theorem le_decimalFrom (num : Nat) (ds : Bytes) : num ≤ decimalFrom num ds := by
  induction ds generalizing num with
  | nil => exact Nat.le_refl _
  | cons c ds ih => exact Nat.le_trans (by omega) (ih (num * 10 + (c.toNat - 48)))

/-- The check before the multiplication finds every overflow. -/
theorem overflow_iff {max num n : Nat} (hn : n ≤ max) :
    num > (max - n) / 10 ↔ num * 10 + n > max := by
  rw [gt_iff_lt, Nat.div_lt_iff_lt_mul (by decide)]
  omega

theorem numLoop_eq {max : Nat} (hmax : 10 ≤ max) (num : Nat) (hnum : num ≤ max)
    (line : Bytes) :
    numLoop max 10 57 num line =
      if decimalFrom num (line.takeWhile isDigit) ≤ max then
        .ok (decimalFrom num (line.takeWhile isDigit), line.dropWhile isDigit)
      else .error .overflow := by
  induction line generalizing num with
  | nil => simp [numLoop, decimalFrom, hnum]
  | cons c line ih =>
    rw [numLoop, validDigit_eq]
    by_cases hc : isDigit c = true
    · have hdigit : c.toNat - 48 ≤ 9 := by
        simp only [isDigit, Bool.and_eq_true, decide_eq_true_eq] at hc
        omega
      rw [if_pos hc, if_neg (by omega), hexval_eq hc, List.takeWhile_cons_of_pos hc,
        List.dropWhile_cons_of_pos hc]
      have hstep : decimalFrom num (c :: line.takeWhile isDigit) =
          decimalFrom (num * 10 + (c.toNat - 48)) (line.takeWhile isDigit) := rfl
      rw [hstep]
      by_cases hover : num > (max - (c.toNat - 48)) / 10
      · have hlarge := (overflow_iff (by omega)).mp hover
        have := le_decimalFrom (num * 10 + (c.toNat - 48)) (line.takeWhile isDigit)
        rw [if_pos hover, if_neg (by omega)]
      · rw [if_neg hover]
        exact ih _ (by
          have := (not_congr (overflow_iff (by omega))).mp hover
          omega)
    · rw [if_neg hc, List.takeWhile_cons_of_neg hc, List.dropWhile_cons_of_neg hc]
      simp [decimalFrom, hnum]

/-- What `curlx_str_number` reads: the digits in front of the line, unless they are none or too
many. -/
theorem strNumber_eq {max : Nat} (hmax : 10 ≤ max) (line : Bytes) :
    strNumber line max =
      if line.takeWhile isDigit = [] then .error .noNum
      else if decimal (line.takeWhile isDigit) ≤ max then
        .ok (decimal (line.takeWhile isDigit), line.dropWhile isDigit)
      else .error .overflow := by
  unfold strNumber strNumBase
  cases line with
  | nil => rfl
  | cons c line =>
    simp only [if_pos, validDigit_eq]
    by_cases hc : isDigit c = true
    · have hne : (c :: line).takeWhile isDigit ≠ [] := by simp [hc]
      rw [if_pos hc, numLoop_eq hmax 0 (Nat.zero_le _), if_neg hne]
      rfl
    · have hnil : (c :: line).takeWhile isDigit = [] := List.takeWhile_cons_of_neg hc
      rw [if_neg hc, if_pos hnil]

end Gurl.Strparse
