import Mathlib.Data.Finset.Max
import Mathlib.Data.Finset.Card

/-! Going through a finite set of numbers from below, with a `first` and a `next` of each. -/

namespace Enumerate

variable {α : Type*} [LinearOrder α] {S T : Finset α} {a b : α}

/-- The smallest element, if there is one. -/
def least (S : Finset α) : Option α := if h : S.Nonempty then some (S.min' h) else none

/-- The elements greater than `a`. -/
def above (S : Finset α) (a : α) : Finset α := S.filter (a < ·)

theorem least_eq_none : least S = none ↔ S = ∅ := by
  unfold least
  split_ifs with h
  · simp [h.ne_empty]
  · simp [Finset.not_nonempty_iff_eq_empty.mp h]

theorem least_eq_some : least S = some a ↔ a ∈ S ∧ ∀ b ∈ S, a ≤ b := by
  unfold least
  split_ifs with h
  · rw [Option.some_inj]
    constructor
    · rintro rfl
      exact ⟨S.min'_mem h, fun b hb => S.min'_le b hb⟩
    · rintro ⟨ha, hle⟩
      exact le_antisymm (S.min'_le a ha) (hle _ (S.min'_mem h))
  · simp [Finset.not_nonempty_iff_eq_empty.mp h]

@[simp]
theorem mem_above : b ∈ above S a ↔ b ∈ S ∧ a < b := Finset.mem_filter

/-- Of two sets one of which is below the other. -/
theorem least_union (h : ∀ a ∈ S, ∀ b ∈ T, a < b) : least (S ∪ T) = (least S).or (least T) := by
  cases ha : least S with
  | none =>
    rw [least_eq_none] at ha
    rw [ha, Finset.empty_union]
    rfl
  | some a =>
    obtain ⟨haS, hle⟩ := least_eq_some.mp ha
    rw [Option.some_or, least_eq_some]
    refine ⟨Finset.mem_union_left _ haS, fun b hb => ?_⟩
    rcases Finset.mem_union.mp hb with hb | hb
    · exact hle b hb
    · exact (h a haS b hb).le

theorem least_image {β : Type*} [LinearOrder β] {f : α → β} (hf : StrictMono f) (S : Finset α) :
    least (S.image f) = (least S).map f := by
  cases ha : least S with
  | none =>
    rw [least_eq_none] at ha
    rw [ha, Finset.image_empty, least_eq_none.mpr rfl]
    rfl
  | some a =>
    obtain ⟨haS, hle⟩ := least_eq_some.mp ha
    rw [Option.map_some, least_eq_some]
    refine ⟨Finset.mem_image_of_mem f haS, fun b hb => ?_⟩
    obtain ⟨c, hc, rfl⟩ := Finset.mem_image.mp hb
    exact hf.monotone (hle c hc)

/-- From `a` on with `next`, until there is no next one; `none` when the fuel runs out before. -/
def walk (next : α → Option α) : Nat → α → Option (List α)
  | 0, _ => none
  | fuel + 1, a =>
    match next a with
    | none => some [a]
    | some b => (walk next fuel b).map (a :: ·)

/-- From `first` on. -/
def visits (first : Option α) (next : α → Option α) (fuel : Nat) : Option (List α) :=
  match first with
  | none => some []
  | some a => walk next fuel a

theorem above_above (h : a < b) : above (above S a) b = above S b := by
  ext c
  simp only [mem_above]
  exact ⟨fun ⟨⟨hc, _⟩, hbc⟩ => ⟨hc, hbc⟩, fun ⟨hc, hbc⟩ => ⟨⟨hc, h.trans hbc⟩, hbc⟩⟩

theorem above_ssubset (ha : a ∈ S) : above S a ⊂ S :=
  (Finset.ssubset_iff_of_subset (Finset.filter_subset _ _)).mpr ⟨a, ha, by simp⟩

theorem walk_spec {next : α → Option α} {fuel : Nat} (ha : a ∈ S)
    (hnext : ∀ c ∈ S, next c = least (above S c)) (hfuel : (above S a).card < fuel) :
    ∃ l, walk next fuel a = some (a :: l) ∧ (a :: l).Pairwise (· < ·) ∧
      ∀ c, c ∈ l ↔ c ∈ above S a := by
  induction fuel generalizing a with
  | zero => omega
  | succ fuel ih =>
    unfold walk
    cases hb : next a with
    | none =>
      rw [hnext a ha, least_eq_none] at hb
      exact ⟨[], rfl, by simp, by simp [hb]⟩
    | some b =>
      rw [hnext a ha, least_eq_some] at hb
      obtain ⟨hmem, hle⟩ := hb
      obtain ⟨hbS, hab⟩ := mem_above.mp hmem
      -- the elements above `b` are those above `a`, without `b`
      have hsub : above S b ⊂ above S a := by
        rw [← above_above hab]
        exact above_ssubset hmem
      obtain ⟨l, hwalk, hsorted, hall⟩ := ih hbS (by have := Finset.card_lt_card hsub; omega)
      refine ⟨b :: l, by simp [hwalk], ?_, ?_⟩
      · rw [List.pairwise_cons]
        refine ⟨fun c hc => ?_, hsorted⟩
        rcases List.mem_cons.mp hc with rfl | hc
        · exact hab
        · exact hab.trans (mem_above.mp ((hall c).mp hc)).2
      · intro c
        rw [List.mem_cons, hall, mem_above, mem_above]
        constructor
        · rintro (rfl | ⟨hc, hbc⟩)
          · exact ⟨hbS, hab⟩
          · exact ⟨hc, hab.trans hbc⟩
        · rintro ⟨hc, hac⟩
          rcases (hle c (mem_above.mpr ⟨hc, hac⟩)).eq_or_lt with rfl | hbc
          · exact .inl rfl
          · exact .inr ⟨hc, hbc⟩

/-- All elements are met, in increasing order, and then the walk stops. -/
theorem visits_spec {next : α → Option α} {fuel : Nat}
    (hnext : ∀ c ∈ S, next c = least (above S c)) (hfuel : S.card ≤ fuel) :
    ∃ l, visits (least S) next fuel = some l ∧ l.Pairwise (· < ·) ∧ ∀ c, c ∈ l ↔ c ∈ S := by
  unfold visits
  cases ha : least S with
  | none =>
    rw [least_eq_none] at ha
    exact ⟨[], rfl, .nil, by simp [ha]⟩
  | some a =>
    obtain ⟨haS, hle⟩ := least_eq_some.mp ha
    obtain ⟨l, hwalk, hsorted, hall⟩ := walk_spec haS hnext
      ((Finset.card_lt_card (above_ssubset haS)).trans_le hfuel)
    refine ⟨a :: l, hwalk, hsorted, fun c => ?_⟩
    rw [List.mem_cons, hall, mem_above]
    constructor
    · rintro (rfl | ⟨hc, _⟩)
      · exact haS
      · exact hc
    · intro hc
      rcases (hle c hc).eq_or_lt with rfl | hac
      · exact .inl rfl
      · exact .inr ⟨hc, hac⟩

end Enumerate
