import Gurl.Inet.Reading
import Gurl.Strcase

/-! `curlx_inet_pton` for IPv6: it accepts the text forms, and the ones that end in a group with a
colon too many behind it. -/

namespace Gurl.Inet

open Http (isXDigit Hex)

variable {s t u w bs cs a dst : Bytes} {k : Nat} {colonp : Option Nat} {p : Pton6}

/-- A text form that ends in a group, and a colon behind it. -/
def ExtraColon (s : Bytes) : Prop := ∃ t a, s = t ++ [58] ∧ TextForm t a ∧ Bare t

/-- The address that the bytes `bs` make with zeros at the `::`. -/
def expand (bs : Bytes) (k : Option Nat) : Option Bytes :=
  match k with
  | none => if bs.length = 16 then some bs else none
  | some j =>
    if bs.length = 16 then none
    else some (bs.take j ++ List.replicate (16 - bs.length) 0 ++ bs.drop j)

theorem finish_stored (h : Stored p bs colonp) (hplace : ∀ j ∈ colonp, j ≤ bs.length)
    (hroom : bs.length ≤ 16) : p.finish = expand bs colonp := by
  cases colonp with
  | none => exact finish_none h
  | some j => exact finish_some h (hplace j rfl) hroom

theorem parsed_place {j : Nat} (h : Parsed t bs (some j)) : j ≤ bs.length := by
  obtain ⟨u, w, cs, ds, rfl, rfl, -⟩ := parsed_some h
  rw [List.length_append]
  exact Nat.le_add_right _ _

/-- `inet_pton6` behind the first colon of a leading `::`. -/
theorem run_finish_iff :
    (run [] none t).bind Pton6.finish = some a ↔
      ∃ bs k, Parsed t bs k ∧ bs.length ≤ 16 ∧ expand bs k = some a := by
  constructor
  · intro h
    obtain ⟨p, hrun, hfinish⟩ := Option.bind_eq_some_iff.mp h
    obtain ⟨bs, k, hreads⟩ := reads_of_run (show ([] : Bytes).length ≤ 16 by decide) hrun
    have hplace : place [] none k = k := by
      cases k with
      | none => rfl
      | some j => exact congrArg some (Nat.zero_add j)
    have hstored := hreads.stored
    rw [hplace, List.nil_append] at hstored
    refine ⟨bs, k, hreads.parsed, hreads.room, ?_⟩
    rw [← finish_stored hstored (fun j hj => parsed_place (hj ▸ hreads.parsed)) hreads.room]
    exact hfinish
  · rintro ⟨bs, k, hparsed, hroom, hexpand⟩
    obtain ⟨p, hrun, hstored⟩ := run_of_parsed hparsed [] none (.inr rfl) hroom
    have hplace : place [] none k = k := by
      cases k with
      | none => rfl
      | some j => exact congrArg some (Nat.zero_add j)
    rw [hplace, List.nil_append] at hstored
    rw [hrun, Option.bind_some,
      finish_stored hstored (fun j hj => parsed_place (hj ▸ hparsed)) hroom]
    exact hexpand

theorem pton6Bytes_first (h : s.head? ≠ some 58) :
    pton6Bytes s = (run [] none s).bind Pton6.finish := by
  rw [pton6Bytes, if_neg h]
  rfl

theorem pton6Bytes_colons (w : Bytes) :
    pton6Bytes (58 :: 58 :: w) = (run [] none (58 :: w)).bind Pton6.finish := rfl

theorem expand_append (h : bs.length + cs.length ≤ 14) :
    expand (bs ++ cs) (some bs.length) =
      some (bs ++ List.replicate (16 - (bs.length + cs.length)) 0 ++ cs) := by
  rw [expand, List.length_append, if_neg (by omega), List.take_left, List.drop_left]

/-! ### Accepted texts -/

theorem read_full (h : Parsed s a none) (hlength : a.length = 16) (hfirst : s.head? ≠ some 58) :
    pton6Bytes s = some a := by
  rw [pton6Bytes_first hfirst, run_finish_iff]
  exact ⟨a, none, h, Nat.le_of_eq hlength, if_pos hlength⟩

theorem head_append (h : t ≠ []) (u : Bytes) : (t ++ u).head? = t.head? := by
  obtain ⟨c, t, rfl⟩ := List.exists_cons_of_ne_nil h
  rfl

theorem read_short (ht : Maybe Groups t bs) (hu : Parsed u cs none)
    (hlength : bs.length + cs.length ≤ 14) :
    pton6Bytes (t ++ 58 :: 58 :: u) =
      some (bs ++ List.replicate (16 - (bs.length + cs.length)) 0 ++ cs) := by
  have hroom : (bs ++ cs).length ≤ 16 := by
    rw [List.length_append]
    omega
  rcases ht with ⟨rfl, rfl⟩ | ht
  · rw [List.nil_append, pton6Bytes_colons, run_finish_iff]
    exact ⟨cs, some 0, .gap hu, hroom, expand_append hlength⟩
  · have hpieces := groups_pieces ht
    have hfirst : (t ++ 58 :: 58 :: u).head? ≠ some 58 := by
      rw [head_append (pieces_ne_nil hpieces)]
      exact pieces_first hpieces
    rw [pton6Bytes_first hfirst, run_finish_iff]
    exact ⟨bs ++ cs, some bs.length, groups_append_parsed ht (.gap hu), hroom,
      expand_append hlength⟩

theorem accepts_form (h : TextForm s a) : pton6Bytes s = some a := by
  cases h with
  | full hpieces hlength =>
    exact read_full (pieces_parsed hpieces) hlength (pieces_first hpieces)
  | short ht hu hlength => exact read_short ht (maybe_parsed hu) hlength

theorem groups_colon (h : Groups t bs) : Parsed (t ++ [58]) bs none := by
  have hparsed := groups_append_parsed h .nil
  rwa [List.append_nil] at hparsed

theorem accepts_extra (h : TextForm t a) (hbare : Bare t) : pton6Bytes (t ++ [58]) = some a := by
  cases h with
  | full hpieces hlength =>
    have hfirst : (t ++ [58]).head? ≠ some 58 := by
      rw [head_append (pieces_ne_nil hpieces)]
      exact pieces_first hpieces
    exact read_full (groups_colon (groups_of_pieces hpieces hbare.dot)) hlength hfirst
  | @short t u bs cs ht hu hlength =>
    rcases hu with ⟨rfl, rfl⟩ | hu
    · exact absurd (by simp) hbare.last
    · have hdot : 46 ∉ u := fun hmem => hbare.dot (by simp [hmem])
      rw [List.append_assoc]
      exact read_short ht (groups_colon (groups_of_pieces hu hdot)) hlength

/-! ### What an accepted text looks like -/

/-- A form, or one with a colon too many. -/
def Form (s a : Bytes) : Prop :=
  TextForm s a ∨ ∃ t, s = t ++ [58] ∧ TextForm t a ∧ Bare t

theorem form_full (h : Parsed s a none) (hlength : a.length = 16) : Form s a := by
  rcases parsed_none h with (⟨rfl, rfl⟩ | hpieces) | ⟨u, rfl, hgroups⟩
  · exact absurd hlength (by decide)
  · exact .inl (.full hpieces hlength)
  · exact .inr ⟨u, rfl, .full (groups_pieces hgroups) hlength, groups_bare hgroups⟩

theorem maybe_groups_dot (h : Maybe Groups t bs) : 46 ∉ t := by
  rcases h with ⟨rfl, -⟩ | h
  · exact List.not_mem_nil
  · exact (groups_bare h).dot

theorem form_short (ht : Maybe Groups t bs) (hu : Parsed u cs none)
    (hlength : bs.length + cs.length ≤ 14) :
    Form (t ++ 58 :: 58 :: u) (bs ++ List.replicate (16 - (bs.length + cs.length)) 0 ++ cs) := by
  rcases parsed_none hu with hu | ⟨w, rfl, hw⟩
  · exact .inl (.short ht hu hlength)
  · have hwpieces := groups_pieces hw
    refine .inr ⟨t ++ 58 :: 58 :: w, by simp, .short ht (.inr hwpieces) hlength, ?_, ?_⟩
    · rw [List.mem_append, List.mem_cons, List.mem_cons, not_or, not_or, not_or]
      exact ⟨maybe_groups_dot ht, by decide, by decide, (groups_bare hw).dot⟩
    · have hne := pieces_ne_nil hwpieces
      rw [getLast_append_cons (by simp), List.getLast?_cons_of_ne_nil hne]
      exact (groups_bare hw).last

theorem form_of_expand {j : Nat} (hw : Parsed w cs none) (hu : Maybe Groups u bs)
    (hroom : (bs ++ cs).length ≤ 16) (heven : 2 ∣ (bs ++ cs).length)
    (hexpand : expand (bs ++ cs) (some j) = some a) (hj : j = bs.length) :
    Form (u ++ 58 :: 58 :: w) a := by
  subst hj
  have hlength : bs.length + cs.length ≤ 14 := by
    rw [expand] at hexpand
    split at hexpand
    · cases hexpand
    · rw [List.length_append] at *
      omega
  rw [expand_append hlength] at hexpand
  rw [← Option.some.inj hexpand]
  exact form_short hu hw hlength

theorem form_of_accepted (h : pton6Bytes s = some a) : Form s a := by
  by_cases hfirst : s.head? = some 58
  · obtain ⟨s, rfl⟩ : ∃ r, s = 58 :: r := by
      cases s with
      | nil => cases hfirst
      | cons c r => exact ⟨r, by rw [Option.some.inj hfirst]⟩
    obtain ⟨w, rfl⟩ : ∃ w, s = 58 :: w := by
      cases s with
      | nil => cases h
      | cons c w =>
        by_cases hc : c = 58
        · exact ⟨w, by rw [hc]⟩
        · have hnone : pton6Bytes (58 :: c :: w) = none := by simp [pton6Bytes, hc]
          rw [hnone] at h
          cases h
    rw [pton6Bytes_colons, run_finish_iff] at h
    obtain ⟨bs, k, hparsed, hroom, hexpand⟩ := h
    have heven := parsed_even hparsed
    cases k with
    | none =>
      rcases parsed_none hparsed with (⟨habs, -⟩ | hpieces) | ⟨u, hu, hgroups⟩
      · cases habs
      · exact absurd rfl (pieces_first hpieces)
      · have hpieces := groups_pieces hgroups
        have hhead := head_append (pieces_ne_nil hpieces) [58]
        rw [← hu] at hhead
        exact absurd hhead.symm (pieces_first hpieces)
    | some j =>
      obtain ⟨u, w', cs, ds, rfl, hj, hw, ⟨rfl, rfl, htext⟩ | ⟨hgroups, htext⟩⟩ :=
        parsed_some hparsed
      · obtain ⟨-, rfl⟩ := List.cons.inj htext
        exact form_of_expand hw (.inl ⟨rfl, rfl⟩) hroom heven hexpand hj
      · have hpieces := groups_pieces hgroups
        have hhead := head_append (pieces_ne_nil hpieces) (58 :: 58 :: w')
        rw [← htext] at hhead
        exact absurd hhead.symm (pieces_first hpieces)
  · rw [pton6Bytes_first hfirst, run_finish_iff] at h
    obtain ⟨bs, k, hparsed, hroom, hexpand⟩ := h
    have heven := parsed_even hparsed
    cases k with
    | none =>
      rw [expand] at hexpand
      split at hexpand
      · rename_i hlength
        obtain rfl := Option.some.inj hexpand
        exact form_full hparsed hlength
      · cases hexpand
    | some j =>
      obtain ⟨u, w, cs, ds, rfl, hj, hw, ⟨rfl, rfl, rfl⟩ | ⟨hgroups, rfl⟩⟩ := parsed_some hparsed
      · exact absurd rfl hfirst
      · exact form_of_expand hw (.inr hgroups) hroom heven hexpand hj

/-! ### The function -/

/-- `curlx_inet_pton` accepts the text forms and stores their bytes; it leaves `dst` alone when it
does not accept. -/
def Conforms (s dst : Bytes) : Prop :=
  (∀ a, TextForm s a → inetPton .inet6 s dst = (1, a ++ dst.drop 16)) ∧
    ((∀ a, ¬TextForm s a) → inetPton .inet6 s dst = (0, dst))

/-- No text form is a bare text with one colon behind it. -/
theorem not_form_extra (hbare : Bare t) : ¬TextForm (t ++ [58]) a := by
  intro h
  generalize hs : t ++ [58] = s at h
  cases h with
  | full hpieces _ => exact pieces_last hpieces (by rw [← hs]; simp)
  | @short t' u bs cs ht hu hlength =>
    rcases hu with ⟨rfl, rfl⟩ | hu
    · have hdrop := congrArg List.dropLast hs
      rw [List.dropLast_concat, List.dropLast_append_cons] at hdrop
      exact hbare.last (by rw [hdrop]; simp)
    · have hlast := congrArg List.getLast? hs
      rw [@getLast_append_cons (58 :: u) (by simp), List.getLast?_cons_of_ne_nil (pieces_ne_nil hu),
        List.getLast?_concat] at hlast
      exact pieces_last hu hlast.symm

/-- `curlx_inet_pton` conforms but for the texts with a colon too many. -/
theorem inetPton6_conforms_iff (s dst : Bytes) : Conforms s dst ↔ ¬ExtraColon s := by
  constructor
  · rintro ⟨-, hreject⟩ ⟨t, a, rfl, hform, hbare⟩
    have hresult := hreject fun b => not_form_extra hbare
    rw [inetPton, inetPton6, accepts_extra hform hbare] at hresult
    exact absurd (congrArg Prod.fst hresult) (show (1 : Int) ≠ 0 by decide)
  · intro hextra
    constructor
    · intro a hform
      rw [inetPton, inetPton6, accepts_form hform]
    · intro hnone
      cases hbytes : pton6Bytes s with
      | none => rw [inetPton, inetPton6, hbytes]
      | some a =>
        rcases form_of_accepted hbytes with hform | ⟨t, rfl, hform, hbare⟩
        · exact absurd hform (hnone a)
        · exact absurd ⟨t, a, rfl, hform, hbare⟩ hextra

/-- `1:2:3:4:5:6:7:8:` is taken for an address. -/
theorem inetPton6_extra_colon :
    inetPton .inet6 (Strcase.ascii "1:2:3:4:5:6:7:8:") (List.replicate 16 255) =
      (1, [0, 1, 0, 2, 0, 3, 0, 4, 0, 5, 0, 6, 0, 7, 0, 8]) ∧
    ∀ a, ¬TextForm (Strcase.ascii "1:2:3:4:5:6:7:8:") a :=
  ⟨by decide +kernel, fun _ => @not_form_extra (Strcase.ascii "1:2:3:4:5:6:7:8") _
    ⟨by decide +kernel, by decide +kernel⟩⟩

end Gurl.Inet
