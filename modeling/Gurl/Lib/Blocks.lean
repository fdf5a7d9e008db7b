import Mathlib

/-! An interval `[base, stop)` of natural numbers cut into consecutive blocks of one size, the last
of which may be shorter. -/

namespace Blocks

/-- The number of blocks of `size` elements that cover `len` elements. -/
def count (size len : Nat) : Nat := (len + size - 1) / size

/-- The first element of block `i`. -/
def lo (base size i : Nat) : Nat := base + i * size

/-- The end, exclusive, of block `i`. -/
def hi (base size stop i : Nat) : Nat := min (base + (i + 1) * size) stop

variable {base size stop i j : Nat}

theorem lt_count_iff (hs : 0 < size) {len : Nat} : i < count size len ↔ i * size < len := by
  have h : i < count size len ↔ (i + 1) * size ≤ len + size - 1 := Nat.le_div_iff_mul_le hs
  rw [h, Nat.add_mul]
  omega

theorem count_le {len k : Nat} (hs : 0 < size) (h : len ≤ k * size) : count size len ≤ k := by
  by_contra hlt
  have := (lt_count_iff hs).mp (Nat.not_le.mp hlt)
  omega

theorem le_count_mul (hs : 0 < size) (len : Nat) : len ≤ count size len * size := by
  by_contra hlt
  exact Nat.lt_irrefl _ ((lt_count_iff hs).mpr (Nat.not_le.mp hlt))

theorem hi_le_stop (base size stop i : Nat) : hi base size stop i ≤ stop := Nat.min_le_right _ _

/-- A block that starts before `stop` is not empty. -/
theorem lo_lt_hi (hs : 0 < size) (h : i * size < stop - base) :
    lo base size i < hi base size stop i := by
  have hexpand := Nat.add_mul i 1 size
  unfold lo hi
  omega

theorem hi_le_lo (base size stop : Nat) (hij : i < j) :
    hi base size stop i ≤ lo base size j := by
  have := Nat.mul_le_mul_right size hij
  unfold lo hi
  simp only [Nat.succ_eq_add_one] at this
  omega

/-- Two different blocks have no element in common. -/
theorem disjoint (hij : i ≠ j) :
    Disjoint (Set.Ico (lo base size i) (hi base size stop i))
      (Set.Ico (lo base size j) (hi base size stop j)) := by
  rw [Set.disjoint_left]
  rintro x ⟨hlo, hhi⟩ ⟨hlo', hhi'⟩
  rcases Nat.lt_or_gt_of_ne hij with h | h
  · have := hi_le_lo base size stop h
    omega
  · have := hi_le_lo base size stop h
    omega

/-- The blocks below `m`, one after the other, are the part of the interval below
`base + m * size`. -/
theorem flatMap_range' (hb : base ≤ stop) (m : Nat) :
    (List.range m).flatMap (fun i =>
      List.range' (lo base size i) (hi base size stop i - lo base size i)) =
      List.range' base (min (base + m * size) stop - base) := by
  induction m with
  | zero => simp
  | succ m ih =>
    rw [List.range_succ, List.flatMap_append, ih, List.flatMap_singleton]
    have hexpand := Nat.add_mul m 1 size
    unfold lo hi
    by_cases hm : base + m * size ≤ stop
    · rw [Nat.min_eq_left hm, Nat.add_sub_cancel_left, List.range'_append_1]
      congr 1
      omega
    · have hnone : min (base + (m + 1) * size) stop - (base + m * size) = 0 := by omega
      rw [hnone, List.range'_zero, List.append_nil]
      congr 1
      omega

/-- Enough blocks cover the interval. -/
theorem iUnion_Ico (hs : 0 < size) {n : Nat} (hn : stop - base ≤ n * size) :
    ⋃ i ∈ Finset.range n, Set.Ico (lo base size i) (hi base size stop i) = Set.Ico base stop := by
  ext x
  simp only [Finset.mem_range, Set.mem_iUnion, Set.mem_Ico, exists_prop]
  constructor
  · rintro ⟨i, _, hlo, hhi⟩
    unfold lo at hlo
    have := hi_le_stop base size stop i
    omega
  · rintro ⟨hlo, hhi⟩
    have hmod := Nat.div_add_mod (x - base) size
    have hlt := Nat.mod_lt (x - base) hs
    have hcomm := Nat.mul_comm size ((x - base) / size)
    have hexpand := Nat.add_mul ((x - base) / size) 1 size
    refine ⟨(x - base) / size, ?_, ?_, ?_⟩
    · exact Nat.div_lt_of_lt_mul (by rw [Nat.mul_comm]; omega)
    · unfold lo
      omega
    · unfold hi
      omega

end Blocks
