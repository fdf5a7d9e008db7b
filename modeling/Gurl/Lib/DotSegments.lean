import Mathlib.Data.List.Induction
import Mathlib.Data.List.TakeWhile

/-! Dot segments of paths: the algorithm of RFC 3986, 5.2.4, on text, and the same on lists of
segments. -/

namespace DotSegments

variable {α : Type*}

/-- How paths are spelled: the separator, and the segments that are a dot or two dots. -/
structure Spelling (α : Type*) where
  sep : α
  dot : List α → Bool
  dotdot : List α → Bool
  dot_nil : dot [] = false
  dotdot_nil : dotdot [] = false

section Segments

variable (S : Spelling α)

/-- Segments as text, a separator before each. -/
def join (segs : List (List α)) : List α := segs.flatMap (S.sep :: ·)

/-- The segments that are left, behind those that are kept already. -/
def resolve : List (List α) → List (List α) → List (List α)
  | out, [] => out
  | out, [seg] =>
    if S.dot seg then out ++ [[]]
    else if S.dotdot seg then out.dropLast ++ [[]]
    else out ++ [seg]
  | out, seg :: segs =>
    if S.dot seg then resolve out segs
    else if S.dotdot seg then resolve out.dropLast segs
    else resolve (out ++ [seg]) segs

/-- No segment has a separator in it. -/
def Free (segs : List (List α)) : Prop := ∀ seg ∈ segs, S.sep ∉ seg

/-- A segment ends here. -/
def AtEnd (rest : List α) : Prop := ∀ c ∈ rest.head?, c = S.sep

/-- No complete segment of the text is one of the dots. -/
def NoDots (path : List α) : Prop :=
  ∀ before seg rest, path = before ++ S.sep :: (seg ++ rest) → S.sep ∉ seg → AtEnd S rest →
    S.dot seg = false ∧ S.dotdot seg = false

variable {S}

theorem resolve_cons_cons (out : List (List α)) (seg next : List α) (segs : List (List α)) :
    resolve S out (seg :: next :: segs) =
      if S.dot seg then resolve S out (next :: segs)
      else if S.dotdot seg then resolve S out.dropLast (next :: segs)
      else resolve S (out ++ [seg]) (next :: segs) := by
  rw [resolve]
  exact List.cons_ne_nil next segs

theorem resolve_keep {out segs : List (List α)} {seg : List α} (hdot : ¬ S.dot seg = true)
    (hdotdot : ¬ S.dotdot seg = true) :
    resolve S out (seg :: segs) = resolve S (out ++ [seg]) segs := by
  cases segs with
  | nil => exact (if_neg hdot).trans (if_neg hdotdot)
  | cons next segs => rw [resolve_cons_cons, if_neg hdot, if_neg hdotdot]

theorem join_cons (seg : List α) (segs : List (List α)) :
    join S (seg :: segs) = S.sep :: (seg ++ join S segs) := rfl

theorem join_concat (segs : List (List α)) (seg : List α) :
    join S (segs ++ [seg]) = join S segs ++ S.sep :: seg := by
  rw [join, List.flatMap_append, List.flatMap_singleton]
  rfl

theorem atEnd_join (segs : List (List α)) : AtEnd S (join S segs) := by
  cases segs with
  | nil => nofun
  | cons seg segs =>
    intro c hc
    cases hc
    rfl

theorem Free.dropLast {segs : List (List α)} (h : Free S segs) : Free S segs.dropLast :=
  fun seg hseg => h seg (List.dropLast_subset _ hseg)

theorem Free.concat {segs : List (List α)} {seg : List α} (h : Free S segs) (hseg : S.sep ∉ seg) :
    Free S (segs ++ [seg]) := by
  intro s hs
  rcases List.mem_append.mp hs with hs | hs
  · exact h s hs
  · rwa [List.mem_singleton.mp hs]

/-- Text that starts with a separator is the text of segments. -/
theorem exists_join [DecidableEq α] (rest : List α) :
    ∃ seg segs, Free S (seg :: segs) ∧ S.sep :: rest = join S (seg :: segs) := by
  induction rest with
  | nil => exact ⟨[], [], fun seg hseg => by rw [List.mem_singleton.mp hseg]; nofun, rfl⟩
  | cons c rest ih =>
    obtain ⟨seg, segs, hfree, hjoin⟩ := ih
    rw [join_cons] at hjoin
    have hrest : rest = seg ++ join S segs := (List.cons.inj hjoin).2
    by_cases hc : c = S.sep
    · refine ⟨[], seg :: segs, ?_, ?_⟩
      · intro s hs
        rcases List.mem_cons.mp hs with rfl | hs
        · nofun
        · exact hfree s hs
      · rw [hc, hjoin]
        rfl
    · refine ⟨c :: seg, segs, ?_, ?_⟩
      · intro s hs
        rcases List.mem_cons.mp hs with rfl | hs
        · intro hmem
          rcases List.mem_cons.mp hmem with heq | hmem
          · exact hc heq.symm
          · exact hfree seg List.mem_cons_self hmem
        · exact hfree s (List.mem_cons_of_mem _ hs)
      · rw [hrest]
        rfl

/-- A segment that ends at the same place is the same. -/
theorem seg_unique {s t a b : List α} (hs : S.sep ∉ s) (ht : S.sep ∉ t) (ha : AtEnd S a)
    (hb : AtEnd S b) (h : s ++ a = t ++ b) : s = t ∧ a = b := by
  rcases List.append_eq_append_iff.mp h with ⟨u, hu, hau⟩ | ⟨u, hu, hbu⟩
  · cases u with
    | nil => exact ⟨by rw [hu, List.append_nil], hau⟩
    | cons c u =>
      rw [hau] at ha
      rw [← ha c rfl, hu] at ht
      exact absurd (List.mem_append_right _ List.mem_cons_self) ht
  · cases u with
    | nil => exact ⟨by rw [hu, List.append_nil], hbu.symm⟩
    | cons c u =>
      rw [hbu] at hb
      rw [← hb c rfl, hu] at hs
      exact absurd (List.mem_append_right _ List.mem_cons_self) hs

/-- What stands between separators in the text of segments is one of them. -/
theorem mem_of_join {segs : List (List α)} (hfree : Free S segs) {before seg rest : List α}
    (h : join S segs = before ++ S.sep :: (seg ++ rest)) (hseg : S.sep ∉ seg)
    (hrest : AtEnd S rest) : seg ∈ segs := by
  induction segs generalizing before with
  | nil => exact absurd h.symm (List.append_ne_nil_of_right_ne_nil _ (List.cons_ne_nil _ _))
  | cons s segs ih =>
    have hs := hfree s List.mem_cons_self
    have htail : Free S segs := fun s hs => hfree s (List.mem_cons_of_mem _ hs)
    rw [join_cons] at h
    cases before with
    | nil =>
      have heq := (List.cons.inj h).2
      rw [(seg_unique hs hseg (atEnd_join segs) hrest heq).1]
      exact List.mem_cons_self
    | cons c before =>
      have heq := (List.cons.inj h).2
      rcases List.append_eq_append_iff.mp heq with ⟨u, hu, hju⟩ | ⟨u, hu, hju⟩
      · exact List.mem_cons_of_mem _ (ih htail hju)
      · cases u with
        | nil =>
          have hju' : join S segs = [] ++ S.sep :: (seg ++ rest) := hju.symm
          exact List.mem_cons_of_mem _ (ih htail hju')
        | cons d u =>
          rw [hu, (List.cons.inj hju).1.symm] at hs
          exact absurd (List.mem_append_right _ List.mem_cons_self) hs

/-- No segment is one of the dots. -/
def Clean (S : Spelling α) (segs : List (List α)) : Prop :=
  ∀ seg ∈ segs, S.dot seg = false ∧ S.dotdot seg = false

theorem Clean.noDots {segs : List (List α)} (h : Clean S segs) (hfree : Free S segs) :
    NoDots S (join S segs) :=
  fun _ seg _ hpath hseg hrest => h seg (mem_of_join hfree hpath hseg hrest)

variable {P : List α → Prop}

/-- What holds of all segments that are kept, and of the empty one. -/
theorem resolve_all (hnil : P []) {out segs : List (List α)} (hout : ∀ seg ∈ out, P seg)
    (hsegs : ∀ seg ∈ segs, S.dot seg = false → S.dotdot seg = false → P seg) :
    ∀ seg ∈ resolve S out segs, P seg := by
  have hconcat : ∀ {out : List (List α)} {seg : List α}, (∀ s ∈ out, P s) → P seg →
      ∀ s ∈ out ++ [seg], P s := by
    intro out seg hout hseg s hs
    rcases List.mem_append.mp hs with hs | hs
    · exact hout s hs
    · rwa [List.mem_singleton.mp hs]
  have hdrop : ∀ {out : List (List α)}, (∀ s ∈ out, P s) → ∀ s ∈ out.dropLast, P s :=
    fun hout s hs => hout s (List.dropLast_subset _ hs)
  induction segs generalizing out with
  | nil => exact hout
  | cons seg segs ih =>
    have hseg := hsegs seg List.mem_cons_self
    cases segs with
    | nil =>
      rw [resolve]
      split
      · exact hconcat hout hnil
      · split
        · exact hconcat (hdrop hout) hnil
        · rename_i hdot hdotdot
          exact hconcat hout (hseg (Bool.not_eq_true _ ▸ hdot) (Bool.not_eq_true _ ▸ hdotdot))
    | cons next segs =>
      have hrest := fun s hs => hsegs s (List.mem_cons_of_mem _ hs)
      rw [resolve_cons_cons]
      split
      · exact ih hout hrest
      · split
        · exact ih (hdrop hout) hrest
        · rename_i hdot hdotdot
          exact ih (hconcat hout (hseg (Bool.not_eq_true _ ▸ hdot)
            (Bool.not_eq_true _ ▸ hdotdot))) hrest

theorem clean_resolve {out segs : List (List α)} (h : Clean S out) :
    Clean S (resolve S out segs) :=
  resolve_all ⟨S.dot_nil, S.dotdot_nil⟩ h fun _ _ hdot hdotdot => ⟨hdot, hdotdot⟩

theorem free_resolve {out segs : List (List α)} (hout : Free S out) (hsegs : Free S segs) :
    Free S (resolve S out segs) :=
  resolve_all List.not_mem_nil hout fun seg hseg _ _ => hsegs seg hseg

/-- Clean segments all stay. -/
theorem resolve_clean {out segs : List (List α)} (h : Clean S segs) :
    resolve S out segs = out ++ segs := by
  induction segs generalizing out with
  | nil => exact (List.append_nil out).symm
  | cons seg segs ih =>
    obtain ⟨hdot, hdotdot⟩ := h seg List.mem_cons_self
    have hdot' : ¬ S.dot seg = true := by rw [hdot]; exact Bool.false_ne_true
    have hdotdot' : ¬ S.dotdot seg = true := by rw [hdotdot]; exact Bool.false_ne_true
    rw [resolve_keep hdot' hdotdot', ih fun s hs => h s (List.mem_cons_of_mem _ hs),
      List.append_assoc]
    rfl

theorem resolve_ne_nil {out segs : List (List α)} (h : segs ≠ []) : resolve S out segs ≠ [] := by
  induction segs generalizing out with
  | nil => exact absurd rfl h
  | cons seg segs ih =>
    cases segs with
    | nil =>
      rw [resolve]
      split
      · exact List.concat_ne_nil _ _
      · split <;> exact List.concat_ne_nil _ _
    | cons next segs =>
      rw [resolve_cons_cons]
      split
      · exact ih (List.cons_ne_nil _ _)
      · split <;> exact ih (List.cons_ne_nil _ _)

theorem length_join_dropLast (segs : List (List α)) :
    (join S segs.dropLast).length ≤ (join S segs).length := by
  induction segs using List.reverseRecOn with
  | nil => exact Nat.le_refl _
  | append_singleton segs seg =>
    rw [List.dropLast_concat, join_concat, List.length_append]
    omega

/-- The text does not get longer. -/
theorem length_resolve (out segs : List (List α)) :
    (join S (resolve S out segs)).length ≤ (join S out).length + (join S segs).length := by
  have hseg : ∀ (seg : List α) (segs : List (List α)),
      (join S (seg :: segs)).length = seg.length + (join S segs).length + 1 := fun seg segs => by
    rw [join_cons, List.length_cons, List.length_append]
  have hconcat : ∀ (out : List (List α)) (seg : List α),
      (join S (out ++ [seg])).length = (join S out).length + seg.length + 1 := fun out seg => by
    rw [join_concat, List.length_append, List.length_cons, Nat.add_assoc]
  induction segs generalizing out with
  | nil => exact Nat.le_refl _
  | cons seg segs ih =>
    have hdrop := length_join_dropLast (S := S) out
    have hcons := hseg seg segs
    cases segs with
    | nil =>
      rw [resolve]
      split
      · rw [hconcat, List.length_nil]
        omega
      · split <;> rw [hconcat]
        · rw [List.length_nil]
          omega
        · omega
    | cons next segs =>
      rw [resolve_cons_cons]
      split
      · have := ih out
        omega
      · split
        · have := ih out.dropLast
          omega
        · have := ih (out ++ [seg])
          rw [hconcat] at this
          omega

end Segments

section Text

variable [DecidableEq α] {S : Spelling α}

theorem takeWhile_seg {seg rest : List α} (hseg : S.sep ∉ seg) (hrest : AtEnd S rest) :
    (seg ++ rest).takeWhile (· ≠ S.sep) = seg := by
  have hall : ∀ a ∈ seg, (decide (a ≠ S.sep)) = true := by
    intro a ha
    exact decide_eq_true fun heq => hseg (heq ▸ ha)
  rw [List.takeWhile_append_of_pos hall]
  cases rest with
  | nil => exact List.append_nil seg
  | cons c rest =>
    obtain rfl := hrest c rfl
    rw [List.takeWhile_cons_of_neg (by simp), List.append_nil]

theorem dropWhile_seg {seg rest : List α} (hseg : S.sep ∉ seg) (hrest : AtEnd S rest) :
    (seg ++ rest).dropWhile (· ≠ S.sep) = rest := by
  have hall : ∀ a ∈ seg, (decide (a ≠ S.sep)) = true := by
    intro a ha
    exact decide_eq_true fun heq => hseg (heq ▸ ha)
  rw [List.dropWhile_append_of_pos hall]
  cases rest with
  | nil => rfl
  | cons c rest =>
    obtain rfl := hrest c rfl
    exact List.dropWhile_cons_of_neg (by simp)

variable (S)

/-- The last segment and the separator before it (if any) go. -/
def removeLast (output : List α) : List α :=
  ((output.reverse.dropWhile (· ≠ S.sep)).drop 1).reverse

theorem tail_shorter {rest : List α} (h : rest.takeWhile (· ≠ S.sep) ≠ []) :
    (rest.dropWhile (· ≠ S.sep)).length < rest.length := by
  have hlen := congrArg List.length
    (List.takeWhile_append_dropWhile (p := (· ≠ S.sep)) (l := rest))
  have hpos := List.length_pos_iff.mpr h
  rw [List.length_append] at hlen
  omega

theorem takeWhile_ne_nil {c : α} (hc : c ≠ S.sep) (rest : List α) :
    (c :: rest).takeWhile (· ≠ S.sep) ≠ [] := by
  rw [List.takeWhile_cons, if_pos (decide_eq_true hc)]
  exact List.cons_ne_nil _ _

/-- The steps 2A to 2E, with the input buffer and the output buffer. -/
def remove (input output : List α) : List α :=
  match input with
  | [] => output
  | c :: rest =>
    if c = S.sep then
      let seg := rest.takeWhile (· ≠ S.sep)
      let tail := rest.dropWhile (· ≠ S.sep)
      -- 2B, then 2C, then 2E
      if S.dot seg then remove (S.sep :: tail.tail) output
      else if S.dotdot seg then remove (S.sep :: tail.tail) (removeLast S output)
      else remove tail (output ++ S.sep :: seg)
    else
      let seg := (c :: rest).takeWhile (· ≠ S.sep)
      let tail := (c :: rest).dropWhile (· ≠ S.sep)
      -- 2A and 2D, then 2E
      if S.dot seg || S.dotdot seg then remove tail.tail output
      else remove tail (output ++ seg)
termination_by input.length
decreasing_by
  · rename_i hdot
    have hseg : rest.takeWhile (· ≠ S.sep) ≠ [] := fun hnil => by
      rw [show S.dot (rest.takeWhile (· ≠ S.sep)) = _ from congrArg S.dot hnil, S.dot_nil] at hdot
      cases hdot
    have htail := tail_shorter S hseg
    rw [List.length_cons, List.length_cons, List.length_tail]
    omega
  · rename_i hdotdot
    have hseg : rest.takeWhile (· ≠ S.sep) ≠ [] := fun hnil => by
      rw [show S.dotdot (rest.takeWhile (· ≠ S.sep)) = _ from congrArg S.dotdot hnil,
        S.dotdot_nil] at hdotdot
      cases hdotdot
    have htail := tail_shorter S hseg
    rw [List.length_cons, List.length_cons, List.length_tail]
    omega
  · exact Nat.lt_succ_of_le (List.length_dropWhile_le _ _)
  · rename_i hc _
    have htail := tail_shorter S (takeWhile_ne_nil S hc rest)
    rw [List.length_tail]
    omega
  · rename_i hc _
    exact tail_shorter S (takeWhile_ne_nil S hc rest)

variable {S}

theorem removeLast_join {segs : List (List α)} (h : Free S segs) :
    removeLast S (join S segs) = join S segs.dropLast := by
  induction segs using List.reverseRecOn with
  | nil => rfl
  | append_singleton segs seg =>
    have hseg : S.sep ∉ seg.reverse := by
      rw [List.mem_reverse]
      exact h seg (List.mem_append_right _ List.mem_cons_self)
    have hrev : (join S (segs ++ [seg])).reverse = seg.reverse ++ S.sep ::
      (join S segs).reverse := by
      rw [join_concat, List.reverse_append, List.reverse_cons, List.append_assoc]
      rfl
    have hend : AtEnd S (S.sep :: (join S segs).reverse) := by
      intro c hc
      cases hc
      rfl
    rw [removeLast, hrev, dropWhile_seg hseg hend, List.dropLast_concat]
    exact List.reverse_reverse _

/-- One separated segment in front of the rest of the input. -/
theorem remove_cons {seg rest : List α} (hseg : S.sep ∉ seg) (hrest : AtEnd S rest)
    (output : List α) :
    remove S (S.sep :: (seg ++ rest)) output =
      if S.dot seg then remove S (S.sep :: rest.tail) output
      else if S.dotdot seg then remove S (S.sep :: rest.tail) (removeLast S output)
      else remove S rest (output ++ S.sep :: seg) := by
  rw [remove, if_pos rfl, takeWhile_seg hseg hrest, dropWhile_seg hseg hrest]

theorem remove_nil (output : List α) : remove S [] output = output := by rw [remove]

theorem remove_sep (output : List α) : remove S [S.sep] output = output ++ [S.sep] := by
  have hstep := remove_cons (S := S) List.not_mem_nil (nofun : AtEnd S []) output
  rw [List.append_nil, S.dot_nil, S.dotdot_nil] at hstep
  rw [hstep]
  exact remove_nil _

/-- The algorithm on text is the one on segments. -/
theorem remove_join {out segs : List (List α)} (hout : Free S out) (hsegs : Free S segs) :
    remove S (join S segs) (join S out) = join S (resolve S out segs) := by
  induction segs generalizing out with
  | nil => exact remove_nil _
  | cons seg segs ih =>
    have hseg := hsegs seg List.mem_cons_self
    have hrest : Free S segs := fun s hs => hsegs s (List.mem_cons_of_mem _ hs)
    rw [join_cons, remove_cons hseg (atEnd_join segs), removeLast_join hout, ← join_concat]
    cases segs with
    | nil =>
      change (if _ then remove S [S.sep] _ else if _ then remove S [S.sep] _ else remove S [] _) = _
      rw [remove_sep, remove_sep, remove_nil, resolve]
      split
      · exact (join_concat out []).symm
      · split
        · exact (join_concat out.dropLast []).symm
        · rfl
    | cons next segs =>
      change (if _ then remove S (join S (next :: segs)) _ else
        if _ then remove S (join S (next :: segs)) _ else remove S (join S (next :: segs)) _) = _
      rw [ih hout hrest, ih hout.dropLast hrest, ih (hout.concat hseg) hrest, resolve_cons_cons]
      split
      · rfl
      · split <;> rfl

/-- A path that starts with a separator: what comes out has no dots left, starts with a separator,
is no longer, and comes out of the algorithm as it is. -/
theorem remove_spec (rest : List α) :
    NoDots S (remove S (S.sep :: rest) []) ∧
      (remove S (S.sep :: rest) []).head? = some S.sep ∧
      (remove S (S.sep :: rest) []).length ≤ rest.length + 1 ∧
      remove S (remove S (S.sep :: rest) []) [] = remove S (S.sep :: rest) [] := by
  obtain ⟨seg, segs, hfree, hpath⟩ := exists_join (S := S) rest
  have hnone : Free S [] := nofun
  have hclean : Clean S (resolve S [] (seg :: segs)) := clean_resolve nofun
  have hfree' := free_resolve hnone hfree
  have hjoin : remove S (S.sep :: rest) [] = join S (resolve S [] (seg :: segs)) := by
    rw [hpath]
    exact remove_join hnone hfree
  have hlen := length_resolve (S := S) [] (seg :: segs)
  rw [← hpath] at hlen
  rw [hjoin]
  refine ⟨hclean.noDots hfree', ?_, ?_, ?_⟩
  · have hne : resolve S [] (seg :: segs) ≠ [] := resolve_ne_nil (List.cons_ne_nil seg segs)
    obtain ⟨s, ss, hs⟩ := List.exists_cons_of_ne_nil hne
    rw [hs]
    rfl
  · exact Nat.le_trans hlen (Nat.le_of_eq (Nat.zero_add _))
  · have hagain := remove_join hnone hfree'
    rw [resolve_clean hclean] at hagain
    exact hagain

end Text

end DotSegments
