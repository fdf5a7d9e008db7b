import Gurl.Strparse

/-! `lib/curl_range.c`: the range string of a download, and the bytes that it asks for. -/

namespace Gurl

open Strparse

/-- `Curl_range` on the fields of the easy handle that it uses: `state.use_range`, `state.range`,
`state.resume_from` and `req.maxdownload`. The result is the new value of the last two. -/
def curlRange (useRange : Bool) (range : Option Bytes) (resumeFrom maxdownload : Int) :
    Except Curlcode (Int × Int) :=
  match useRange, range with
  | true, some p =>
    let (firstNum, first, p) :=
      match strNumber p curlOffTMax with
      | .ok (first, p) => (true, first, p)
      | .error _ => (false, 0, p)
    match strSingle p '-'.toUInt8 with
    | .error _ => .error .rangeError
    | .ok p =>
      match strNumber p curlOffTMax with
      | .error _ => .ok (first, maxdownload)
      | .ok (last, _) =>
        if !firstNum then
          if last = 0 then .error .rangeError else .ok (-last, last)
        else if first > last then .error .rangeError
        else if last - first = curlOffTMax then .error .rangeError
        else .ok (first, last - first + 1)
  | _, _ => .ok (resumeFrom, -1)

/-! ### What a range string asks for -/

/-- No range, `X-Y`, `X-` or `-Y`. -/
inductive RangeForm where
  | whole
  | between (x y : Nat)
  | startingAt (x : Nat)
  | last (y : Nat)
  deriving DecidableEq

/-- The form of a range string, with numbers of any size. -/
def rangeForm : Option Bytes → Option RangeForm
  | none => some .whole
  | some p =>
    match p.dropWhile isDigit with
    | [] => none
    | c :: q =>
      let x := p.takeWhile isDigit
      let y := q.takeWhile isDigit
      if c ≠ '-'.toUInt8 then none
      else if x ≠ [] then
        if y ≠ [] then some (.between (decimal x) (decimal y)) else some (.startingAt (decimal x))
      else if y ≠ [] then some (.last (decimal y)) else none

/-- The bytes of the file `F` that a range asks for. -/
def RangeForm.select (F : Bytes) : RangeForm → Bytes
  | .whole => F
  | .between x y => (F.drop x).take (min (y + 1) F.length - x)
  | .startingAt x => F.drop x
  | .last y => F.drop (F.length - min y F.length)

/-- What `Curl_range` makes of a range: a number that is too large for `curl_off_t` at the end of a
range is read as no number. -/
def RangeForm.Outcome (resumeFrom maxdownload : Int) : RangeForm → Prop
  | .whole => resumeFrom = 0 ∧ maxdownload = -1
  | .between x y =>
    resumeFrom = x ∧ x ≤ curlOffTMax ∧
      (y ≤ curlOffTMax ∧ x ≤ y ∧ maxdownload = y - x + 1 ∨ curlOffTMax < y ∧ maxdownload = -1)
  | .startingAt x => resumeFrom = x ∧ x ≤ curlOffTMax ∧ maxdownload = -1
  | .last y =>
    0 < y ∧ y ≤ curlOffTMax ∧ resumeFrom = -y ∧ maxdownload = y ∨
      curlOffTMax < y ∧ resumeFrom = 0 ∧ maxdownload = -1

theorem strSingle_eq_ok {line rest : Bytes} {b : UInt8} :
    strSingle line b = .ok rest ↔ line = b :: rest := by
  unfold strSingle
  cases line with
  | nil => simp
  | cons c p =>
    by_cases hc : c = b <;> simp [hc]

/-- A line that starts with a digit does not start with a dash. -/
theorem digit_ne_dash {p q : Bytes} (h : p.takeWhile isDigit ≠ []) : p ≠ '-'.toUInt8 :: q := by
  rintro rfl
  exact h (List.takeWhile_cons_of_neg (by decide))

/-- The first number of a range, when the dash follows it. -/
theorem first_number {p : Bytes} {firstNum : Bool} {first : Nat} {q rest : Bytes}
    (h : (match strNumber p curlOffTMax with
      | .ok (first, p) => (true, first, p)
      | .error _ => (false, 0, p)) = (firstNum, first, q))
    (hdash : q = '-'.toUInt8 :: rest) :
    p.dropWhile isDigit = '-'.toUInt8 :: rest ∧
      (firstNum = true ∧ p.takeWhile isDigit ≠ [] ∧ first = decimal (p.takeWhile isDigit) ∧
          first ≤ curlOffTMax ∨
        firstNum = false ∧ p.takeWhile isDigit = [] ∧ first = 0) := by
  have hsplit := List.takeWhile_append_dropWhile (p := isDigit) (l := p)
  rw [strNumber_eq (by decide)] at h
  by_cases hnil : p.takeWhile isDigit = []
  · rw [if_pos hnil] at h
    cases h
    rw [hnil, List.nil_append] at hsplit
    exact ⟨hsplit.trans hdash, .inr ⟨rfl, hnil, rfl⟩⟩
  · rw [if_neg hnil] at h
    split_ifs at h with hle
    · cases h
      exact ⟨hdash, .inl ⟨rfl, hnil, rfl, hle⟩⟩
    · cases h
      exact absurd hdash (digit_ne_dash hnil)

/-- `Curl_range` accepts a range of a known form only with this outcome. -/
theorem curlRange_outcome {range : Option Bytes} {form : RangeForm} {rf md : Int}
    (hform : rangeForm range = some form)
    (h : curlRange range.isSome range 0 (-1) = .ok (rf, md)) : form.Outcome rf md := by
  cases range with
  | none =>
    cases hform
    cases h
    exact ⟨rfl, rfl⟩
  | some p =>
    simp only [curlRange, Option.isSome_some] at h
    generalize hfirst : (match strNumber p curlOffTMax with
      | .ok (first, p) => (true, first, p)
      | .error _ => (false, 0, p)) = num at h
    obtain ⟨firstNum, first, q⟩ := num
    simp only at h
    cases hsingle : strSingle q '-'.toUInt8 with
    | error e => simp [hsingle] at h
    | ok rest =>
      obtain ⟨hdash, hnum⟩ := first_number hfirst (strSingle_eq_ok.mp hsingle)
      simp only [hsingle, strNumber_eq (show 10 ≤ curlOffTMax by decide)] at h
      simp only [rangeForm, hdash, ne_eq, not_true_eq_false, if_false] at hform
      rcases hnum with ⟨rfl, hx, rfl, hxle⟩ | ⟨rfl, hx, rfl⟩
      · rw [if_pos hx] at hform
        by_cases hy : rest.takeWhile isDigit = []
        · rw [if_neg (not_not.mpr hy)] at hform
          rw [if_pos hy] at h
          cases hform
          cases h
          exact ⟨rfl, hxle, rfl⟩
        · rw [if_pos hy] at hform
          rw [if_neg hy] at h
          cases hform
          by_cases hyle : decimal (rest.takeWhile isDigit) ≤ curlOffTMax
          · rw [if_pos hyle] at h
            simp only [Bool.not_true, Bool.false_eq_true, if_false] at h
            split_ifs at h with hgt hsize
            cases h
            exact ⟨rfl, hxle, .inl ⟨hyle, by omega, rfl⟩⟩
          · rw [if_neg hyle] at h
            cases h
            exact ⟨rfl, hxle, .inr ⟨by omega, rfl⟩⟩
      · rw [if_neg (not_not.mpr hx)] at hform
        by_cases hy : rest.takeWhile isDigit = []
        · rw [if_neg (not_not.mpr hy)] at hform
          cases hform
        · rw [if_pos hy] at hform
          rw [if_neg hy] at h
          cases hform
          by_cases hyle : decimal (rest.takeWhile isDigit) ≤ curlOffTMax
          · rw [if_pos hyle] at h
            simp only [Bool.not_false, if_true] at h
            split_ifs at h with hzero
            cases h
            exact .inl ⟨by omega, hyle, rfl, rfl⟩
          · rw [if_neg hyle] at h
            cases h
            exact .inr ⟨by omega, rfl, rfl⟩

end Gurl
