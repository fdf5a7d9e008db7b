import Gurl.Curlcode

/-! Comparing strings without looking at the case of letters: `lib/strcase.c` and
`lib/strequal.c`. -/

namespace Gurl.Strcase

/-- The bytes of a string literal. -/
def ascii (s : String) : Bytes := s.toList.map Char.toUInt8

/-- `Curl_raw_toupper`. -/
def rawToupper (c : UInt8) : UInt8 := if 97 ≤ c ∧ c ≤ 122 then c - 32 else c

/-- `Curl_raw_tolower`. -/
def rawTolower (c : UInt8) : UInt8 := if 65 ≤ c ∧ c ≤ 90 then c + 32 else c

/-- `casecompare`. -/
def casecompare : Bytes → Bytes → Bool
  | [], second => second.isEmpty
  | _ :: _, [] => false
  | c :: first, d :: second => rawToupper c == rawToupper d && casecompare first second

/-- `ncasecompare`. -/
def ncasecompare : Bytes → Bytes → Nat → Bool
  | _, _, 0 => true
  | [], second, _ + 1 => second.isEmpty
  | _ :: _, [], _ + 1 => false
  | c :: first, d :: second, max + 1 => rawToupper c == rawToupper d &&
    ncasecompare first second max

/-- `curl_strequal`, for strings that are there. -/
def strequal (s1 s2 : Bytes) : Bool := casecompare s1 s2

/-- `curl_strnequal`, for strings that are there. -/
def strnequal (s1 s2 : Bytes) (n : Nat) : Bool := ncasecompare s1 s2 n

/-- The string in upper case. -/
def upper (s : Bytes) : Bytes := s.map rawToupper

theorem strequal_iff (a b : Bytes) : strequal a b = true ↔ upper a = upper b := by
  unfold strequal upper
  induction a generalizing b with
  | nil => cases b <;> simp [casecompare]
  | cons c a ih =>
    cases b with
    | nil => simp [casecompare]
    | cons d b => simp [casecompare, ih]

theorem strnequal_iff (a b : Bytes) (n : Nat) :
    strnequal a b n = true ↔ upper (a.take n) = upper (b.take n) := by
  unfold strnequal upper
  induction n generalizing a b with
  | zero => cases a <;> cases b <;> simp [ncasecompare]
  | succ n ih =>
    cases a with
    | nil => cases b <;> simp [ncasecompare]
    | cons c a =>
      cases b with
      | nil => simp [ncasecompare]
      | cons d b => simp [ncasecompare, ih]

@[simp] theorem upper_append (a b : Bytes) : upper (a ++ b) = upper a ++ upper b :=
  List.map_append

@[simp] theorem length_upper (a : Bytes) : (upper a).length = a.length := List.length_map _

theorem upper_drop (a : Bytes) (n : Nat) : upper (a.drop n) = (upper a).drop n :=
  List.map_drop

/-- A byte that is no letter stands for itself. -/
theorem rawToupper_eq_iff {c d : UInt8} (hd : d < 65) : rawToupper c = d ↔ c = d := by
  unfold rawToupper
  have hd' := UInt8.lt_iff_toNat_lt.mp hd
  split
  · rename_i h
    have h1 := UInt8.le_iff_toNat_le.mp h.1
    have h2 := UInt8.le_iff_toNat_le.mp h.2
    have hle : (32 : UInt8) ≤ c := UInt8.le_iff_toNat_le.mpr (Nat.le_trans (by decide) h1)
    have hsub : (c - 32).toNat = c.toNat - 32 := UInt8.toNat_sub_of_le _ _ hle
    simp only [UInt8.reduceToNat] at h1 h2 hd'
    constructor
    · rintro rfl
      omega
    · rintro rfl
      omega
  · exact Iff.rfl

/-- A string without letters is its own upper case, and of no other string. -/
theorem upper_eq_iff {s t : Bytes} (ht : ∀ d ∈ t, d < 65) : upper s = t ↔ s = t := by
  unfold upper
  induction s generalizing t with
  | nil => exact Iff.rfl
  | cons c s ih =>
    cases t with
    | nil => simp
    | cons d t =>
      rw [List.map_cons, List.cons.injEq, List.cons.injEq, rawToupper_eq_iff (ht d (by simp)),
        ih fun e he => ht e (by simp [he])]

end Gurl.Strcase
