import Mathlib.Data.List.Infix

/-! A list cut behind each of its terminators. -/

namespace Lines

variable {α : Type*} {stop : α}

/-- A line with its terminator, which it has at the end only. -/
def IsLine (stop : α) (line : List α) : Prop := ∃ body, stop ∉ body ∧ line = body ++ [stop]

variable [DecidableEq α]

/-- The lines of a list, each with its terminator, and what is behind the last of them. -/
def cut (stop : α) : List α → List (List α) × List α
  | [] => ([], [])
  | a :: as =>
    if a = stop then ([a] :: (cut stop as).1, (cut stop as).2)
    else match cut stop as with
      | ([], rest) => ([], a :: rest)
      | (line :: lines, rest) => ((a :: line) :: lines, rest)

theorem cut_body {body : List α} (h : stop ∉ body) (as : List α) :
    cut stop (body ++ as) = match cut stop as with
      | ([], rest) => ([], body ++ rest)
      | (line :: lines, rest) => ((body ++ line) :: lines, rest) := by
  induction body with
  | nil =>
    rw [List.nil_append]
    rcases cut stop as with ⟨_ | ⟨line, lines⟩, rest⟩ <;> rfl
  | cons a body ih =>
    obtain ⟨ha, hbody⟩ := not_or.mp (mt List.mem_cons.mpr h)
    rw [List.cons_append, cut, if_neg (Ne.symm ha), ih hbody]
    rcases cut stop as with ⟨_ | ⟨line, lines⟩, rest⟩ <;> rfl

theorem cut_rest {rest : List α} (h : stop ∉ rest) : cut stop rest = ([], rest) := by
  have hcut := cut_body h []
  rw [List.append_nil] at hcut
  rw [hcut]
  exact congrArg _ (List.append_nil rest)

theorem cut_line {line : List α} (h : IsLine stop line) (as : List α) :
    cut stop (line ++ as) = (line :: (cut stop as).1, (cut stop as).2) := by
  obtain ⟨body, hbody, rfl⟩ := h
  rw [List.append_assoc, cut_body hbody, List.singleton_append, cut, if_pos rfl]

theorem cut_lines {lines : List (List α)} (h : ∀ line ∈ lines, IsLine stop line) (as : List α) :
    cut stop (lines.flatten ++ as) = (lines ++ (cut stop as).1, (cut stop as).2) := by
  induction lines with
  | nil => rfl
  | cons line lines ih =>
    rw [List.flatten_cons, List.append_assoc, cut_line (h line List.mem_cons_self),
      ih fun l hl => h l (List.mem_cons_of_mem _ hl)]
    rfl

/-- The part of a line that is there is shorter than the line, as long as there is more. -/
theorem exists_longer {part as : List α} (hpart : stop ∉ part) (has : as ≠ []) :
    ∃ line, (line ∈ (cut stop (part ++ as)).1 ∨ line = (cut stop (part ++ as)).2) ∧
      part.length < line.length := by
  obtain ⟨a, as, rfl⟩ := List.exists_cons_of_ne_nil has
  rw [cut_body hpart]
  by_cases ha : a = stop
  · refine ⟨part ++ [a], .inl ?_, by simp⟩
    rw [cut, if_pos ha]
    exact List.mem_cons_self
  · rw [cut, if_neg ha]
    rcases cut stop as with ⟨_ | ⟨line, lines⟩, rest⟩
    · exact ⟨part ++ a :: rest, .inr rfl, by simp⟩
    · exact ⟨part ++ a :: line, .inl List.mem_cons_self, by simp⟩

/-- The parts between separators have none. -/
theorem notMem_splitOn (sep : α) (as : List α) : ∀ part ∈ as.splitOn sep, sep ∉ part := by
  induction as with
  | nil => simp
  | cons a as ih =>
    rw [List.splitOn_cons_eq_if_modifyHead]
    by_cases ha : a = sep
    · simpa [ha] using ih
    · rw [if_neg (by simpa using ha)]
      cases hsplit : as.splitOn sep with
      | nil => exact absurd hsplit (List.splitOn_ne_nil sep as)
      | cons part parts =>
        rw [hsplit] at ih
        intro m hm
        rw [List.modifyHead_cons, List.mem_cons] at hm
        obtain rfl | hm := hm
        · rw [List.mem_cons, not_or]
          exact ⟨Ne.symm ha, ih part List.mem_cons_self⟩
        · exact ih m (List.mem_cons_of_mem _ hm)

end Lines
