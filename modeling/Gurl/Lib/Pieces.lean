import Mathlib.Data.List.Basic

/-! Consumers of a stream: a call gets the bytes that are there and tells how many of them it has
consumed. The rest stays in front of what comes next. -/

namespace Pieces

variable {σ α : Type*} {call : σ → List α → Option (σ × Nat)} {same : σ → σ → Prop}

/-- A consumer with the elements it has not consumed, and the number of those it has. -/
structure Fed (σ α : Type*) where
  state : σ
  left : List α
  consumed : Nat

/-- Hand over some pieces one after the other. -/
def feed (call : σ → List α → Option (σ × Nat)) : Fed σ α → List (List α) → Option (Fed σ α)
  | f, [] => some f
  | f, p :: ps =>
    (call f.state (f.left ++ p)).bind fun (state, n) =>
      feed call { state, left := (f.left ++ p).drop n, consumed := f.consumed + n } ps

/-- A consumer that can stop after any element and go on later, up to states that look the same. -/
structure Resumable (call : σ → List α → Option (σ × Nat)) (same : σ → σ → Prop) : Prop where
  equiv : Equivalence same
  le : ∀ {s t a n}, call s a = some (t, n) → n ≤ a.length
  nil : ∀ s, ∃ s', call s [] = some (s', 0) ∧ same s s'
  split : ∀ s a b, ∃ s1 n s2 m s3, call s a = some (s1, n) ∧
    call s1 (a.drop n ++ b) = some (s2, m) ∧ call s (a ++ b) = some (s3, n + m) ∧ same s2 s3

/-- Calling again without anything new changes nothing. -/
theorem Resumable.idle (h : Resumable call same) {s s1 : σ} {a : List α} {n : Nat}
    (hcall : call s a = some (s1, n)) :
    ∃ s2, call s1 (a.drop n) = some (s2, 0) ∧ same s1 s2 := by
  obtain ⟨s1', n', s2, m, s3, h1, h2, h3, hsame⟩ := h.split s a []
  rw [List.append_nil] at h2 h3
  rw [hcall, Option.some.injEq, Prod.mk.injEq] at h1 h3
  obtain ⟨rfl, rfl⟩ := h1
  obtain ⟨rfl, hm⟩ := h3
  obtain rfl : m = 0 := by omega
  exact ⟨s2, h2, h.equiv.symm hsame⟩

/-- However a list is cut into pieces, the consumer ends as after the whole list. -/
theorem Resumable.feed_eq (h : Resumable call same) (pieces : List (List α)) {s s' : σ}
    {left : List α} {c : Nat} (hidle : call s left = some (s', 0)) (hsame : same s s') :
    ∃ f s' n, feed call ⟨s, left, c⟩ pieces = some f ∧
      call s (left ++ pieces.flatten) = some (s', n) ∧ same f.state s' ∧ f.consumed = c + n ∧
      f.left = (left ++ pieces.flatten).drop n := by
  induction pieces generalizing s s' left c with
  | nil =>
    refine ⟨⟨s, left, c⟩, s', 0, rfl, ?_, hsame, rfl, ?_⟩
    · rw [List.flatten_nil, List.append_nil]
      exact hidle
    · rw [List.flatten_nil, List.append_nil, List.drop_zero]
  | cons p ps ih =>
    obtain ⟨s1, n, s2, m, s3, h1, h2, h3, hsame'⟩ := h.split s (left ++ p) ps.flatten
    obtain ⟨s4, hidle', hsame4⟩ := h.idle h1
    obtain ⟨f, s5, k, hfeed, hcall, hlast, hcount, hleft⟩ := ih (c := c + n) hidle' hsame4
    rw [h2, Option.some.injEq, Prod.mk.injEq] at hcall
    obtain ⟨rfl, rfl⟩ := hcall
    refine ⟨f, s3, n + m, ?_, ?_, h.equiv.trans hlast hsame', ?_, ?_⟩
    · rw [feed, h1]
      exact hfeed
    · rw [List.flatten_cons, ← List.append_assoc]
      exact h3
    · rw [hcount, Nat.add_assoc]
    · rw [hleft, List.flatten_cons, ← List.append_assoc, ← List.drop_drop,
        List.drop_append_of_le_length (h.le h1)]

theorem Resumable.feed_flatten (h : Resumable call same) (s : σ) (pieces : List (List α)) :
    ∃ f s' n, feed call ⟨s, [], 0⟩ pieces = some f ∧ call s pieces.flatten = some (s', n) ∧
      same f.state s' ∧ f.consumed = n ∧ f.left = pieces.flatten.drop n := by
  obtain ⟨s', hnil, hsame⟩ := h.nil s
  obtain ⟨f, t, n, hfeed, hcall, hlast, hcount, hleft⟩ := h.feed_eq pieces (c := 0) hnil hsame
  rw [Nat.zero_add] at hcount
  exact ⟨f, t, n, hfeed, hcall, hlast, hcount, hleft⟩

end Pieces
