import Mathlib

/-! Tables of lists: properties of any two entries at different places, and the number of
entries. -/

namespace Buckets

variable {ι α : Type*} {R : α → α → Prop} {t t' : ι → List α}

/-- Any two entries at different places are related. -/
def Distinct (R : α → α → Prop) (t : ι → List α) : Prop :=
  (∀ i, (t i).Pairwise R) ∧ ∀ i j, i ≠ j → ∀ a ∈ t i, ∀ b ∈ t j, R a b

theorem Distinct.imp {S : α → α → Prop} (h : Distinct R t) (himp : ∀ a b, R a b → S a b) :
    Distinct S t :=
  ⟨fun i => (h.1 i).imp (himp _ _), fun i j hij a ha b hb => himp a b (h.2 i j hij a ha b hb)⟩

theorem Distinct.sublist (h : Distinct R t) (hsub : ∀ i, (t' i).Sublist (t i)) :
    Distinct R t' := by
  refine ⟨fun i => (h.1 i).sublist (hsub i), fun i j hij a ha b hb => ?_⟩
  exact h.2 i j hij a ((hsub i).subset ha) b ((hsub j).subset hb)

variable [DecidableEq ι]

/-- A new entry at the end of a list, related to all others. -/
theorem Distinct.append (h : Distinct R t) (hsymm : ∀ a b, R a b → R b a) (i : ι) {x : α}
    (hx : ∀ j, ∀ a ∈ t j, R a x) : Distinct R (Function.update t i (t i ++ [x])) := by
  constructor
  · intro j
    by_cases hj : j = i
    · subst hj
      rw [Function.update_self, List.pairwise_append]
      refine ⟨h.1 j, List.pairwise_singleton R x, fun a ha b hb => ?_⟩
      rw [List.mem_singleton.mp hb]
      exact hx j a ha
    · rw [Function.update_of_ne hj]
      exact h.1 j
  · intro j k hjk a ha b hb
    by_cases hj : j = i
    · have hk : k ≠ i := fun hk => hjk (hj.trans hk.symm)
      rw [hj, Function.update_self] at ha
      rw [Function.update_of_ne hk] at hb
      rcases List.mem_append.mp ha with ha | ha
      · exact h.2 i k (Ne.symm hk) a ha b hb
      · rw [List.mem_singleton.mp ha]
        exact hsymm b x (hx k b hb)
    · rw [Function.update_of_ne hj] at ha
      by_cases hk : k = i
      · rw [hk, Function.update_self] at hb
        rcases List.mem_append.mp hb with hb | hb
        · exact h.2 j i hj a ha b hb
        · rw [List.mem_singleton.mp hb]
          exact hx j a ha
      · rw [Function.update_of_ne hk] at hb
        exact h.2 j k hjk a ha b hb

theorem mem_update {i j : ι} {l : List α} {a : α} (h : a ∈ Function.update t i l j) :
    (j = i ∧ a ∈ l) ∨ (j ≠ i ∧ a ∈ t j) := by
  by_cases hj : j = i
  · subst hj
    rw [Function.update_self] at h
    exact .inl ⟨rfl, h⟩
  · rw [Function.update_of_ne hj] at h
    exact .inr ⟨hj, h⟩

theorem mem_update_concat {i j : ι} {a b : α} (h : a ∈ Function.update t i (t i ++ [b]) j) :
    a ∈ t j ∨ j = i ∧ a = b := by
  rcases mem_update h with ⟨rfl, hmem⟩ | ⟨-, hmem⟩
  · rw [List.mem_append, List.mem_singleton] at hmem
    exact hmem.imp_right fun heq => ⟨rfl, heq⟩
  · exact .inl hmem

theorem sublist_update {i : ι} {l : List α} (h : l.Sublist (t i)) (j : ι) :
    (Function.update t i l j).Sublist (t j) := by
  by_cases hj : j = i
  · subst hj
    rwa [Function.update_self]
  · rw [Function.update_of_ne hj]

/-- Without one entry, all others are related to it. -/
theorem Distinct.rest (h : Distinct R t) (hsymm : ∀ a b, R a b → R b a) {i : ι} {l₁ l₂ : List α}
    {x : α} (hi : t i = l₁ ++ x :: l₂) (j : ι) :
    ∀ a ∈ Function.update t i (l₁ ++ l₂) j, R a x := by
  intro a ha
  have hx : x ∈ t i := by simp [hi]
  rcases mem_update ha with ⟨rfl, hmem⟩ | ⟨hj, hmem⟩
  · have hpair := h.1 j
    rw [hi, List.pairwise_append] at hpair
    rcases List.mem_append.mp hmem with hfront | hback
    · exact hpair.2.2 a hfront x (List.mem_cons_self ..)
    · exact hsymm x a (List.rel_of_pairwise_cons hpair.2.1 hback)
  · exact h.2 j i hj a hmem x hx

variable [Fintype ι]

/-- The number of entries. -/
def total (t : ι → List α) : Nat := ∑ i, (t i).length

theorem total_update (t : ι → List α) (i : ι) (l : List α) :
    total (Function.update t i l) + (t i).length = total t + l.length := by
  unfold total
  have h1 := Finset.sum_erase_add Finset.univ (fun j => (Function.update t i l j).length)
    (Finset.mem_univ i)
  have h2 := Finset.sum_erase_add Finset.univ (fun j => (t j).length) (Finset.mem_univ i)
  have h3 : ∑ j ∈ Finset.univ.erase i, (Function.update t i l j).length =
      ∑ j ∈ Finset.univ.erase i, (t j).length := by
    refine Finset.sum_congr rfl fun j hj => ?_
    rw [Function.update_of_ne (Finset.ne_of_mem_erase hj)]
  rw [Function.update_self] at h1
  omega

omit [DecidableEq ι] in
theorem total_mono (h : ∀ i, (t' i).length ≤ (t i).length) : total t' ≤ total t :=
  Finset.sum_le_sum fun i _ => h i

end Buckets
