import Mathlib.Data.List.Infix

/-! Texts put one behind the other, each behind a mark that says what it is and left out when it is
missing. Without escapes, the texts can be read back when none of them holds the mark of a later
one. -/

namespace Tagged

variable {α : Type*}

/-- The texts that are there, each behind its mark, and then `tail`. -/
def render : List (List α) → List (Option (List α)) → List α → List α
  | m :: marks, some t :: texts, tail => m ++ (t ++ render marks texts tail)
  | _ :: marks, none :: texts, tail => render marks texts tail
  | _, _, tail => tail

/-- A mark: the separator and a name that does not hold it. -/
def IsMark (sep : α) (m : List α) : Prop := ∃ name, m = sep :: name ∧ sep ∉ name

/-- None of the texts holds the mark of a later one, or `last`. -/
def Clear (last : List α) : List (List α) → List (Option (List α)) → Prop
  | _ :: marks, text :: texts =>
    (∀ t, text = some t → ∀ m ∈ marks ++ [last], ¬m <:+: t) ∧ Clear last marks texts
  | _, _ => True

/-- Texts without the separator are clear. -/
theorem clear_of_not_mem {sep : α} {last : List α} {marks : List (List α)}
    {texts : List (Option (List α))} (hmarks : ∀ m ∈ marks ++ [last], IsMark sep m)
    (htexts : ∀ t, some t ∈ texts → sep ∉ t) : Clear last marks texts := by
  induction marks generalizing texts with
  | nil => trivial
  | cons m marks ih =>
    have hmarks' : ∀ m' ∈ marks ++ [last], IsMark sep m' := fun m' hm' =>
      hmarks m' (List.mem_cons_of_mem _ hm')
    cases texts with
    | nil => trivial
    | cons text texts =>
      refine ⟨?_, ih hmarks' fun t ht => htexts t (List.mem_cons_of_mem _ ht)⟩
      rintro t rfl m' hm' hin
      obtain ⟨name, rfl, -⟩ := hmarks' m' hm'
      exact htexts t List.mem_cons_self (hin.subset List.mem_cons_self)

/-- Two texts in front of marks that they do not hold. -/
theorem append_inj {sep : α} {t₁ t₂ r₁ r₂ m₁ m₂ : List α} (h : t₁ ++ r₁ = t₂ ++ r₂)
    (hm₁ : IsMark sep m₁) (hm₂ : IsMark sep m₂) (hr₁ : m₁ <+: r₁) (hr₂ : m₂ <+: r₂)
    (ht₁ : ¬m₂ <:+: t₁) (ht₂ : ¬m₁ <:+: t₂) : t₁ = t₂ ∧ r₁ = r₂ := by
  -- the part of the longer text past the shorter one starts with a mark or lies within one
  have key : ∀ {t r a m m' : List α}, IsMark sep m → IsMark sep m' → m <+: a ++ r → m' <+: r →
      ¬m <:+: t ++ a → a = [] := by
    intro t r a m m' hm hm' hpre hpre' hfree
    by_contra hne
    rcases List.prefix_or_prefix_of_prefix hpre (List.prefix_append a r) with hin | ⟨b, hb⟩
    · exact hfree (hin.isInfix.trans (List.suffix_append t a).isInfix)
    · obtain ⟨name, rfl, hsep⟩ := hm
      obtain ⟨name', rfl, -⟩ := hm'
      obtain ⟨c, a', rfl⟩ := List.exists_cons_of_ne_nil hne
      cases b with
      | nil =>
        rw [List.append_nil] at hb
        exact hfree (hb ▸ (List.suffix_append t _).isInfix)
      | cons d b =>
        rw [← hb] at hpre
        have hbr : d :: b <+: r := (List.prefix_append_right_inj _).mp hpre
        obtain ⟨u, hu⟩ := hpre'
        obtain ⟨v, hv⟩ := hbr
        rw [← hu] at hv
        obtain rfl : d = sep := (List.cons.inj hv).1
        have htail : a' ++ d :: b = name := (List.cons.inj hb).2
        exact hsep (htail ▸ by simp)
  rcases List.append_eq_append_iff.mp h with ⟨a, rfl, rfl⟩ | ⟨a, rfl, rfl⟩
  · obtain rfl := key hm₁ hm₂ hr₁ hr₂ ht₂
    simp
  · obtain rfl := key hm₂ hm₁ hr₂ hr₁ ht₁
    simp

section
variable {sep : α} {last : List α} {marks : List (List α)} {texts texts' : List (Option (List α))}
  {tail tail' : List α}

/-- What is rendered in front of `last` starts with a mark. -/
theorem render_starts (marks : List (List α)) (texts : List (Option (List α))) (tail : List α)
    (h : last <+: tail) : ∃ m ∈ marks ++ [last], m <+: render marks texts tail := by
  induction marks generalizing texts with
  | nil => exact ⟨last, by simp, by simpa [render] using h⟩
  | cons m marks ih =>
    cases texts with
    | nil => exact ⟨last, by simp, by simpa [render] using h⟩
    | cons text texts =>
      cases text with
      | none =>
        obtain ⟨m', hm', hpre⟩ := ih texts
        exact ⟨m', by simp at hm' ⊢; tauto, hpre⟩
      | some t => exact ⟨m, by simp, List.prefix_append _ _⟩

/-- A text cannot be there on one side only: its mark would be a later one. -/
theorem not_render_eq {m t r : List α} (hpair : ∀ m' ∈ marks ++ [last], ¬m <+: m' ∧ ¬m' <+: m)
    (h : last <+: tail) : m ++ (t ++ r) ≠ render marks texts tail := by
  intro heq
  obtain ⟨m', hm', hpre⟩ := render_starts marks texts tail h
  rcases List.prefix_or_prefix_of_prefix (heq ▸ List.prefix_append m (t ++ r)) hpre with hin | hin
  · exact (hpair m' hm').1 hin
  · exact (hpair m' hm').2 hin

/-- Clear texts can be read back. -/
theorem render_inj (hmarks : ∀ m ∈ marks ++ [last], IsMark sep m)
    (hpair : (marks ++ [last]).Pairwise fun m m' => ¬m <+: m' ∧ ¬m' <+: m)
    (hlen : texts.length = marks.length) (hlen' : texts'.length = marks.length)
    (hclear : Clear last marks texts) (hclear' : Clear last marks texts') (htail : last <+: tail)
    (htail' : last <+: tail') (h : render marks texts tail = render marks texts' tail') :
    texts = texts' := by
  induction marks generalizing texts texts' with
  | nil => rw [List.length_eq_zero_iff.mp hlen, List.length_eq_zero_iff.mp hlen']
  | cons m marks ih =>
    obtain ⟨text, texts, rfl⟩ := List.exists_cons_of_length_eq_add_one hlen
    obtain ⟨text', texts', rfl⟩ := List.exists_cons_of_length_eq_add_one hlen'
    rw [List.cons_append, List.pairwise_cons] at hpair
    obtain ⟨hm, hpair⟩ := hpair
    have hmarks' : ∀ m' ∈ marks ++ [last], IsMark sep m' := fun m' hm' =>
      hmarks m' (List.mem_cons_of_mem _ hm')
    have hrest := @ih texts texts' hmarks' hpair (by simpa using hlen) (by simpa using hlen')
      hclear.2 hclear'.2
    cases text with
    | none =>
      cases text' with
      | none => rw [hrest h]
      | some t' =>
        have h : render marks texts tail = m ++ (t' ++ render marks texts' tail') := h
        exact absurd h.symm (not_render_eq hm htail)
    | some t =>
      cases text' with
      | none =>
        have h : m ++ (t ++ render marks texts tail) = render marks texts' tail' := h
        exact absurd h (not_render_eq hm htail')
      | some t' =>
        have h : t ++ render marks texts tail = t' ++ render marks texts' tail' :=
          (List.append_right_inj m).mp h
        obtain ⟨m₁, hm₁, hpre₁⟩ := render_starts marks texts tail htail
        obtain ⟨m₂, hm₂, hpre₂⟩ := render_starts marks texts' tail' htail'
        obtain ⟨rfl, hr⟩ := append_inj h (hmarks' m₁ hm₁) (hmarks' m₂ hm₂) hpre₁ hpre₂
          (hclear.1 t rfl m₂ hm₂) (hclear'.1 t' rfl m₁ hm₁)
        rw [hrest hr]

end

theorem render_map {β : Type*} (f : α → β) (marks : List (List α)) (texts : List (Option (List α)))
    (tail : List α) :
    (render marks texts tail).map f =
      render (marks.map (List.map f)) (texts.map (Option.map (List.map f))) (tail.map f) := by
  induction marks generalizing texts with
  | nil => simp [render]
  | cons m marks ih =>
    cases texts with
    | nil => simp [render]
    | cons text texts => cases text <;> simp [render, ih]

end Tagged
