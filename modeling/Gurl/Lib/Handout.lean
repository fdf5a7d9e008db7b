import Mathlib.Data.List.Count
import Mathlib.Data.List.Basic

/-! Readers that hand out a text: a call returns its next elements, and says when there are no more.
A run calls the reader until it says so. -/

namespace Handout

variable {σ κ α : Type*} {read : σ → κ → Option (σ × List α × Bool)} {Holds : σ → List α → Prop}
  {counts : κ → Bool} {cost : σ → List α → Nat} {s : σ} {text : List α}

/-- What a call returns: elements, and whether these were the last. -/
abbrev Answer (α : Type*) := List α × Bool

/-- Call the reader until it has ended. -/
def readAll (read : σ → κ → Option (σ × Answer α)) : σ → List κ → Option (List (Answer α))
  | _, [] => some []
  | s, k :: ks =>
    (read s k).bind fun (s, answer) =>
      if answer.2 then some [answer] else (readAll read s ks).map (answer :: ·)

/-- The elements of some answers. -/
def returned (answers : List (Answer α)) : List α := answers.flatMap Prod.fst

/-- The end was reported. -/
def Ended (answers : List (Answer α)) : Prop := ∃ a ∈ answers, a.2 = true

/-- `Holds s text`: the text is what `s` has still to hand out. A call takes its first elements
away. One that counts lowers the cost, unless it ends. -/
structure Hands (read : σ → κ → Option (σ × Answer α)) (Holds : σ → List α → Prop)
    (counts : κ → Bool) (cost : σ → List α → Nat) : Prop where
  call : ∀ {s text} (k : κ), Holds s text → ∃ s' out, read s k = some (s', out, true) ∧ text = out ∨
    ∃ left, read s k = some (s', out, false) ∧ text = out ++ left ∧ Holds s' left ∧
      cost s' left ≤ cost s text ∧ (counts k = true → cost s' left < cost s text)

/-- The answers are the first elements of the text; the end is reported by the last of them only,
and then they are all. -/
structure Answers (text : List α) (answers : List (Answer α)) : Prop where
  first : returned answers <+: text
  all : Ended answers → returned answers = text
  once : ∀ a ∈ answers.dropLast, a.2 = false

theorem Answers.single {out : List α} : Answers out [(out, true)] where
  first := by simp [returned]
  all _ := by simp [returned]
  once := List.forall_mem_nil _

theorem Answers.cons {out left : List α} {answers : List (Answer α)} (h : Answers left answers) :
    Answers (out ++ left) ((out, false) :: answers) where
  first := by
    rw [returned, List.flatMap_cons]
    exact (List.prefix_append_right_inj out).mpr h.first
  all := by
    rintro ⟨a, ha, hend⟩
    rw [returned, List.flatMap_cons]
    cases ha with
    | head => cases hend
    | tail _ ha => exact congrArg (out ++ ·) (h.all ⟨a, ha, hend⟩)
  once := by
    intro a ha
    cases answers with
    | nil => cases ha
    | cons b bs =>
      rw [List.dropLast_cons_cons] at ha
      cases ha with
      | head => rfl
      | tail _ ha => exact h.once a ha

/-- A run hands out the text, and ends when more calls count than the reader costs. -/
theorem Hands.run (h : Hands read Holds counts cost) (hs : Holds s text)
    (calls : List κ) :
    ∃ answers, readAll read s calls = some answers ∧ Answers text answers ∧
      (cost s text < calls.countP counts → Ended answers) := by
  induction calls generalizing s text with
  | nil =>
    refine ⟨[], rfl, ⟨List.nil_prefix, ?_, List.forall_mem_nil _⟩,
      fun hcost => absurd hcost (by simp)⟩
    rintro ⟨a, ha, -⟩
    cases ha
  | cons k ks ih =>
    obtain ⟨s', out, hcall⟩ := h.call k hs
    rw [readAll]
    obtain ⟨hread, rfl⟩ | ⟨left, hread, rfl, hs', hle, hlt⟩ := hcall
    · refine ⟨[(text, true)], by rw [hread]; rfl, Answers.single, fun _ => ?_⟩
      exact ⟨_, List.mem_singleton_self _, rfl⟩
    · obtain ⟨answers, hall, hanswers, hends⟩ := ih hs'
      refine ⟨(out, false) :: answers, by rw [hread]; simp [hall], hanswers.cons, fun hcost => ?_⟩
      have hrest : cost s' left < ks.countP counts := by
        rw [List.countP_cons] at hcost
        cases hk : counts k with
        | true =>
          have := hlt hk
          rw [hk, if_pos rfl] at hcost
          omega
        | false =>
          rw [hk, if_neg Bool.false_ne_true] at hcost
          omega
      obtain ⟨a, ha, hend⟩ := hends hrest
      exact ⟨a, List.mem_cons_of_mem _ ha, hend⟩

end Handout
