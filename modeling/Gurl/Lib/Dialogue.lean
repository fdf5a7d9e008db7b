import Mathlib

/-! Dialogues over a stream: a party sends elements and waits for a number of elements in turn. The
stream may move any part of what it is asked to move, and the party goes on later. How the stream
moves the elements makes no difference to what the dialogue comes to. -/

namespace Dialogue

variable {α ω : Type*}

/-- What a receive meets behind the last element of a stream. -/
inductive Ending where
  | silence | closed | broken
  deriving DecidableEq

/-- Both directions of a stream. It accepts a number of elements before a send fails, if sends ever
fail. -/
structure Line (α : Type*) where
  incoming : List α
  ending : Ending
  accepts : Option Nat
  sent : List α
  taken : List α

/-- The number of elements that can be sent of `n`. -/
def Line.room (l : Line α) (n : Nat) : Nat := (l.accepts.map (min · n)).getD n

def Line.give (l : Line α) (out : List α) : Line α :=
  { l with sent := l.sent ++ out, accepts := l.accepts.map (· - out.length) }

def Line.take (l : Line α) (n : Nat) : Line α :=
  { l with incoming := l.incoming.drop n, taken := l.taken ++ l.incoming.take n }

/-- What a party still has to do: `send` and `recv` have an outcome for a line that fails, `recv`
has got some of the elements that it needs, and `pause` waits for something else than the line. -/
inductive Script (α ω : Type*) where
  | stop (outcome : ω)
  | send (out : List α) (lost : ω) (next : Script α ω)
  | recv (got : List α) (count : Nat) (lost : ω) (next : List α → Script α ω)
  | pause (next : Script α ω)

/-- Follow a script until it stops or the line is silent. -/
def Script.play : Script α ω → Line α → Script α ω × Line α
  | .stop r, l => (.stop r, l)
  | .send out lost next, l =>
    if l.room out.length = out.length then next.play (l.give out)
    else (.stop lost, l.give (out.take (l.room out.length)))
  | .recv got count lost next, l =>
    if count - got.length ≤ l.incoming.length then
      (next (got ++ l.incoming.take (count - got.length))).play (l.take (count - got.length))
    else if l.ending = .silence then
      (.recv (got ++ l.incoming) count lost next, l.take l.incoming.length)
    else (.stop lost, l.take l.incoming.length)
  | .pause next, l => next.play l

variable {l : Line α} {out got : List α} {count k : Nat} {lost : ω}

/-! ### Moving a part -/

theorem Line.room_le (l : Line α) (n : Nat) : l.room n ≤ n := by
  unfold Line.room
  cases l.accepts with
  | none => exact Nat.le_refl n
  | some k => exact Nat.min_le_right k n

theorem Line.accepts_of_room_zero {n : Nat} (hn : 0 < n) (h : l.room n = 0) :
    l.accepts = some 0 := by
  unfold Line.room at h
  cases haccepts : l.accepts with
  | none =>
    simp only [haccepts, Option.map_none, Option.getD_none] at h
    omega
  | some m =>
    simp only [haccepts, Option.map_some, Option.getD_some] at h
    rw [show m = 0 by omega]

theorem Line.give_nil (l : Line α) : l.give [] = l := by
  simp [Line.give]

theorem Line.give_give (l : Line α) (a b : List α) : (l.give a).give b = l.give (a ++ b) := by
  simp [Line.give, Function.comp_def, Nat.sub_sub]

theorem Line.room_give (l : Line α) {a : List α} {n : Nat} (h : a.length ≤ l.room n) :
    (l.give a).room (n - a.length) = l.room n - a.length := by
  unfold Line.room Line.give at *
  cases haccepts : l.accepts with
  | none => rfl
  | some k =>
    simp only [haccepts, Option.map_some, Option.getD_some] at h ⊢
    omega

theorem Line.take_zero (l : Line α) : l.take 0 = l := by
  simp [Line.take]

theorem Line.take_take (l : Line α) (m n : Nat) : (l.take m).take n = l.take (m + n) := by
  simp [Line.take, List.drop_drop, List.take_add]

theorem play_send_nil (lost : ω) (next : Script α ω) :
    (Script.send [] lost next).play l = next.play l := by
  have hroom : l.room ([] : List α).length = ([] : List α).length := Nat.le_zero.mp (l.room_le 0)
  rw [Script.play, if_pos hroom, l.give_nil]

/-- Sending a part of the elements, and the rest later, comes to the same. -/
theorem play_send_part (next : Script α ω) (h : k ≤ l.room out.length) :
    (Script.send (out.drop k) lost next).play (l.give (out.take k)) =
      (Script.send out lost next).play l := by
  have hroom := l.room_le out.length
  have hlen : (out.take k).length = k := by
    rw [List.length_take]
    omega
  have hleft : (l.give (out.take k)).room (out.drop k).length = l.room out.length - k := by
    rw [List.length_drop]
    have hrest := l.room_give (a := out.take k) (by rw [hlen]; exact h)
    rwa [hlen] at hrest
  rw [Script.play, Script.play, hleft, List.length_drop, Line.give_give, Line.give_give,
    List.take_append_drop]
  by_cases hall : l.room out.length = out.length
  · rw [if_pos (by omega), if_pos hall]
  · rw [if_neg (by omega), if_neg hall, ← List.take_add, Nat.add_sub_cancel' h]

theorem play_send_fail (next : Script α ω) (hout : out ≠ []) (h : l.accepts = some 0) :
    (Script.send out lost next).play l = (.stop lost, l) := by
  have hroom : l.room out.length = 0 := by
    simp [Line.room, h]
  have hlen : out.length ≠ 0 := fun hzero => hout (List.length_eq_zero_iff.mp hzero)
  rw [Script.play, hroom, if_neg hlen.symm, List.take_zero, l.give_nil]

theorem play_recv_full (next : List α → Script α ω) (h : count ≤ got.length) :
    (Script.recv got count lost next).play l = (next got).play l := by
  rw [Script.play, Nat.sub_eq_zero_of_le h, if_pos (Nat.zero_le _), List.take_zero,
    List.append_nil, l.take_zero]

/-- Taking a part of the elements, and the rest later, comes to the same. -/
theorem play_recv_part (next : List α → Script α ω) (hneed : k ≤ count - got.length)
    (h : k ≤ l.incoming.length) :
    (Script.recv (got ++ l.incoming.take k) count lost next).play (l.take k) =
      (Script.recv got count lost next).play l := by
  have hlen : (l.incoming.take k).length = k := by
    rw [List.length_take]
    omega
  have hleft : (l.take k).incoming.length = l.incoming.length - k := List.length_drop
  have hcount : count - (got ++ l.incoming.take k).length = count - got.length - k := by
    rw [List.length_append, hlen]
    omega
  have hbytes (m : Nat) : got ++ l.incoming.take k ++ (l.take k).incoming.take m =
      got ++ l.incoming.take (k + m) := by
    rw [List.append_assoc, List.take_add]
    rfl
  rw [Script.play, Script.play, hcount, hleft]
  by_cases hall : count - got.length ≤ l.incoming.length
  · rw [if_pos (by omega), if_pos hall, hbytes, Line.take_take, Nat.add_sub_cancel' hneed]
  · rw [if_neg (by omega), if_neg hall, Line.take_take, Nat.add_sub_cancel' h]
    have hrest : got ++ l.incoming.take k ++ (l.take k).incoming = got ++ l.incoming := by
      rw [List.append_assoc]
      exact congrArg (got ++ ·) (List.take_append_drop k l.incoming)
    rw [hrest]
    rfl

/-- The same for a number of elements that may be more than there are. -/
theorem Line.play_recv_upTo (l : Line α) (next : List α → Script α ω)
    (hneed : k ≤ count - got.length) :
    (Script.recv (got ++ l.incoming.take k) count lost next).play (l.take k) =
      (Script.recv got count lost next).play l := by
  rcases Nat.le_total k l.incoming.length with h | h
  · exact play_recv_part next hneed h
  · have htake : l.take k = l.take l.incoming.length := by
      simp [Line.take, List.drop_of_length_le h, List.take_of_length_le h]
    rw [List.take_of_length_le h, htake, ← play_recv_part next (h.trans hneed) (Nat.le_refl _),
      List.take_length]

theorem play_recv_silent (next : List α → Script α ω) (hneed : got.length < count)
    (hempty : l.incoming = []) (h : l.ending = .silence) :
    (Script.recv got count lost next).play l = (.recv got count lost next, l) := by
  rw [Script.play, hempty, if_neg (by simp only [List.length_nil]; omega), if_pos h,
    List.append_nil, List.length_nil, l.take_zero]

theorem play_recv_lost (next : List α → Script α ω) (hneed : got.length < count)
    (hempty : l.incoming = []) (h : l.ending ≠ .silence) :
    (Script.recv got count lost next).play l = (.stop lost, l) := by
  rw [Script.play, hempty, if_neg (by simp only [List.length_nil]; omega), if_neg h,
    List.length_nil, l.take_zero]

/-! ### What a dialogue has moved -/

/-- `l'` is `l` after some elements have moved. -/
structure Later (l l' : Line α) : Prop where
  sent : ∃ out, l'.sent = l.sent ++ out
  taken : ∃ got, l'.taken = l.taken ++ got
  stream : l'.taken ++ l'.incoming = l.taken ++ l.incoming

theorem Later.refl (l : Line α) : Later l l where
  sent := ⟨[], (List.append_nil _).symm⟩
  taken := ⟨[], (List.append_nil _).symm⟩
  stream := rfl

theorem Later.trans {l₁ l₂ l₃ : Line α} (h : Later l₁ l₂) (h' : Later l₂ l₃) : Later l₁ l₃ := by
  obtain ⟨a, ha⟩ := h.sent
  obtain ⟨b, hb⟩ := h'.sent
  obtain ⟨c, hc⟩ := h.taken
  obtain ⟨d, hd⟩ := h'.taken
  refine ⟨⟨a ++ b, ?_⟩, ⟨c ++ d, ?_⟩, h'.stream.trans h.stream⟩
  · rw [hb, ha, List.append_assoc]
  · rw [hd, hc, List.append_assoc]

theorem later_give (l : Line α) (out : List α) : Later l (l.give out) where
  sent := ⟨out, rfl⟩
  taken := ⟨[], (List.append_nil _).symm⟩
  stream := rfl

theorem later_take (l : Line α) (n : Nat) : Later l (l.take n) where
  sent := ⟨[], (List.append_nil _).symm⟩
  taken := ⟨l.incoming.take n, rfl⟩
  stream := by
    simp [Line.take, List.append_assoc, List.take_append_drop]

theorem play_later (s : Script α ω) (l : Line α) : Later l (s.play l).2 := by
  induction s generalizing l with
  | stop r => exact .refl l
  | send out lost next ih =>
    rw [Script.play]
    split
    · exact (later_give l out).trans (ih _)
    · exact later_give l _
  | recv got count lost next ih =>
    rw [Script.play]
    split_ifs
    · exact (later_take l _).trans (ih _ _)
    · exact later_take l _
    · exact later_take l _
  | pause next ih => exact ih l

/-- The script cannot stop with `r` before it has taken something. -/
def Script.Hungry (r : ω) : Script α ω → Prop
  | .stop r' => r' ≠ r
  | .send _ lost next => lost ≠ r ∧ next.Hungry r
  | .recv got count lost next => lost ≠ r ∧ (got.length < count ∨ (next got).Hungry r)
  | .pause next => next.Hungry r

theorem length_taken_le {l' : Line α} (h : Later l l') : l.taken.length ≤ l'.taken.length := by
  obtain ⟨got, hgot⟩ := h.taken
  rw [hgot, List.length_append]
  exact Nat.le_add_right _ _

theorem length_sent_le {l' : Line α} (h : Later l l') : l.sent.length ≤ l'.sent.length := by
  obtain ⟨out, hout⟩ := h.sent
  rw [hout, List.length_append]
  exact Nat.le_add_right _ _

theorem Script.Hungry.takes {r : ω} {s : Script α ω} {l' : Line α} (hs : s.Hungry r)
    (hplay : s.play l = (.stop r, l')) : l.taken.length < l'.taken.length := by
  induction s generalizing l with
  | stop r' =>
    cases hplay
    exact absurd rfl hs
  | send out lost next ih =>
    rw [Script.play] at hplay
    split at hplay
    · exact ih (l := l.give out) hs.2 hplay
    · cases hplay
      exact absurd rfl hs.1
  | recv got count lost next ih =>
    by_cases hneed : got.length < count
    · rw [Script.play] at hplay
      split_ifs at hplay with hall hsilent
      · have hlater := play_later (next (got ++ l.incoming.take (count - got.length)))
          (l.take (count - got.length))
        rw [hplay] at hlater
        have hlen := length_taken_le hlater
        simp only [Line.take, List.length_append, List.length_take] at hlen
        omega
      · cases hplay
      · cases hplay
        exact absurd rfl hs.1
    · rw [play_recv_full next (Nat.le_of_not_lt hneed)] at hplay
      exact ih got (hs.2.resolve_left hneed) hplay
  | pause next ih => exact ih hs hplay

end Dialogue
