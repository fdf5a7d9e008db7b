import Gurl.Inet.Conforms

/-! `lib/vtls/hostcheck.c`: does the name in a certificate stand for the host? -/

namespace Gurl.Vtls

open Strcase Strparse Inet

/-- `memchr`: the index of the first `c` among the first `n` bytes. -/
def memchr (s : Bytes) (c : UInt8) (n : Nat) : Option Nat :=
  if c ∈ s.take n then some ((s.take n).takeWhile (· ≠ c)).length else none

/-- `memrchr`: the index of the last `c` among the first `n` bytes. -/
def memrchr (s : Bytes) (c : UInt8) (n : Nat) : Option Nat :=
  if c ∈ s.take n then
    some ((s.take n).length - 1 - ((s.take n).reverse.takeWhile (· ≠ c)).length)
  else none

/-- `Curl_host_is_ipnum`. -/
def hostIsIpnum (hostname : Bytes) : Bool :=
  (inetPton .inet hostname (List.replicate 4 0)).1 > 0 ||
    (inetPton .inet6 hostname (List.replicate 16 0)).1 > 0

/-- `pmatch`. -/
def pmatch (hostname : Bytes) (hostlen : Nat) (pattern : Bytes) (patternlen : Nat) :
    Bool :=
  if hostlen ≠ patternlen then false else strnequal hostname pattern hostlen

/-- `hostmatch`. -/
def hostmatch (hostname : Bytes) (hostlen : Nat) (pattern : Bytes) (patternlen : Nat) :
    Bool :=
  let hostlen := if hostname.getD (hostlen - 1) 0 = 46 then hostlen - 1 else hostlen
  let patternlen := if pattern.getD (patternlen - 1) 0 = 46 then patternlen - 1 else patternlen
  if pattern.take 2 ≠ [42, 46] then pmatch hostname hostlen pattern patternlen
  else if hostIsIpnum hostname || hostname.head? == some 46 then false
  else
    match memchr pattern 46 patternlen with
    | none => pmatch hostname hostlen pattern patternlen
    | some patternLabelEnd =>
      if memrchr pattern 46 patternlen = some patternLabelEnd then
        pmatch hostname hostlen pattern patternlen
      else
        match memchr hostname 46 hostlen with
        | none => false
        | some hostnameLabelEnd =>
          pmatch (hostname.drop hostnameLabelEnd) (hostlen - hostnameLabelEnd)
            (pattern.drop patternLabelEnd) (patternlen - patternLabelEnd)

/-- `Curl_cert_hostcheck`, for strings that are there. -/
def certHostcheck (matchName : Bytes) (matchlen : Nat) (hostname : Bytes)
    (hostlen : Nat) : Bool :=
  if matchName ≠ [] ∧ hostname ≠ [] then hostmatch hostname hostlen matchName matchlen else false

/-- A name without a dot at its end. -/
def undotted (name : Bytes) : Bytes :=
  if name.getLast? = some 46 then name.dropLast else name

/-- The pattern is a wildcard, with a dot in its suffix, and the name is one label with that
suffix. -/
def Wildcard (name pattern : Bytes) : Prop :=
  ∃ label suffix nameSuffix, pattern = 42 :: 46 :: suffix ∧ 46 ∈ suffix ∧ label ≠ [] ∧
    46 ∉ label ∧ name = label ++ 46 :: nameSuffix ∧ upper nameSuffix = upper suffix

/-- What a pattern should accept. -/
def Accepts (pattern host : Bytes) : Prop :=
  upper (undotted host) = upper (undotted pattern) ∨
    (Wildcard (undotted host) (undotted pattern) ∧ hostIsIpnum host = false ∧
      hostIsIpnum (undotted host) = false ∧ host.head? ≠ some 46)

variable {s t a b label rest name pattern host dst bs : Bytes} {n : Nat}

/-! ### The text of an address -/

theorem quad_bytes (a b c d : UInt8) :
    ∀ x ∈ dottedQuad a b c d, isDigit x = true ∨ x = 46 := by
  intro x hx
  simp only [dottedQuad, List.mem_append, List.mem_cons] at hx
  obtain hx | rfl | hx | rfl | hx | rfl | hx := hx
  all_goals first
    | exact .inr rfl
    | exact .inl (Mprintf.fmtUint_digits _ x hx)

/-- The bytes of an address are digits, dots and colons. -/
theorem parsed_bytes {k : Option Nat} (h : Parsed t bs k) :
    ∀ x ∈ t, Http.isXDigit x = true ∨ x = 46 ∨ x = 58 := by
  induction h with
  | nil => exact nofun
  | last hhex => exact fun x hx => .inl (hhex.digits x hx)
  | quad a b c d =>
    intro x hx
    obtain hx | rfl := quad_bytes a b c d x hx
    · exact .inl (by rw [Http.isXDigit, hx]; rfl)
    · exact .inr (.inl rfl)
  | cons hhex _ ih =>
    intro x hx
    rw [List.mem_append, List.mem_cons] at hx
    obtain hx | rfl | hx := hx
    · exact .inl (hhex.digits x hx)
    · exact .inr (.inr rfl)
    · exact ih x hx
  | gap _ ih =>
    intro x hx
    obtain rfl | hx := List.mem_cons.mp hx
    · exact .inr (.inr rfl)
    · exact ih x hx

/-- No address ends in a dot. -/
theorem parsed_last {k : Option Nat} (h : Parsed t bs k) : t.getLast? ≠ some 46 := by
  induction h with
  | nil => exact nofun
  | last hhex => exact fun hlast => hex_dot hhex (List.mem_of_getLast? hlast)
  | quad a b c d => exact quad_last a b c d (by decide)
  | @cons g t bs v k hhex _ ih =>
    by_cases ht : t = []
    · rw [ht, List.getLast?_append]
      exact nofun
    · rwa [getLast_append_cons ht]
  | @gap t bs _ ih =>
    by_cases ht : t = []
    · rw [ht]
      exact nofun
    · rwa [show 58 :: t = [] ++ 58 :: t from rfl, getLast_append_cons ht]

/-- An address is read group by group, but for the first of two colons in front. -/
theorem parsed_of_accepted (h : pton6Bytes s = some a) :
    ∃ t bs k, Parsed t bs k ∧ (s = t ∨ s = 58 :: t) := by
  by_cases hfirst : s.head? = some 58
  · obtain ⟨s, rfl⟩ : ∃ r, s = 58 :: r := ⟨s.tail, (List.cons_head?_tail hfirst).symm⟩
    by_cases hsecond : s.head? = some 58
    · obtain ⟨w, rfl⟩ : ∃ r, s = 58 :: r := ⟨s.tail, (List.cons_head?_tail hsecond).symm⟩
      rw [pton6Bytes_colons, run_finish_iff] at h
      obtain ⟨bs, k, hparsed, -, -⟩ := h
      exact ⟨58 :: w, bs, k, hparsed, .inr rfl⟩
    · have hnone : pton6Bytes (58 :: s) = none := by simp [pton6Bytes, hsecond]
      rw [hnone] at h
      cases h
  · rw [pton6Bytes_first hfirst, run_finish_iff] at h
    obtain ⟨bs, k, hparsed, -, -⟩ := h
    exact ⟨s, bs, k, hparsed, .inl rfl⟩

theorem hostIsIpnum_iff :
    hostIsIpnum s = true ↔ (∃ a b c d, s = dottedQuad a b c d) ∨ ∃ a, pton6Bytes s = some a := by
  have h4 : ((inetPton .inet s (List.replicate 4 0)).1 > 0) ↔ ∃ a b c d,
    s = dottedQuad a b c d := by
    obtain ⟨a, b, c, d, hquad, hpton⟩ | ⟨hno, hpton⟩ := inetPton4_spec s (List.replicate 4 0)
    · rw [inetPton, hpton]
      exact ⟨fun _ => ⟨a, b, c, d, hquad⟩, fun _ => Int.one_pos⟩
    · rw [inetPton, hpton]
      refine ⟨by simp, ?_⟩
      rintro ⟨a, b, c, d, hquad⟩
      exact absurd hquad (hno a b c d)
  have h6 : ((inetPton .inet6 s (List.replicate 16 0)).1 > 0) ↔ ∃ a, pton6Bytes s = some a := by
    rw [inetPton, inetPton6]
    cases pton6Bytes s with
    | none => exact ⟨by simp, by simp⟩
    | some a => exact ⟨fun _ => ⟨a, rfl⟩, fun _ => Int.one_pos⟩
  rw [hostIsIpnum, Bool.or_eq_true, decide_eq_true_eq, decide_eq_true_eq, h4, h6]

theorem ipnum_bytes (h : hostIsIpnum s = true) :
    ∀ x ∈ s, Http.isXDigit x = true ∨ x = 46 ∨ x = 58 := by
  intro x hx
  obtain ⟨a, b, c, d, rfl⟩ | ⟨a, h⟩ := hostIsIpnum_iff.mp h
  · obtain hx | rfl := quad_bytes a b c d x hx
    · exact .inl (by rw [Http.isXDigit, hx]; rfl)
    · exact .inr (.inl rfl)
  · obtain ⟨t, bs, k, hparsed, rfl | rfl⟩ := parsed_of_accepted h
    · exact parsed_bytes hparsed x hx
    · obtain rfl | hx := List.mem_cons.mp hx
      · exact .inr (.inr rfl)
      · exact parsed_bytes hparsed x hx

/-- With a dot behind it, an address is none any more. -/
theorem ipnum_last (h : s.getLast? = some 46) : hostIsIpnum s = false := by
  by_contra hip
  obtain ⟨a, b, c, d, rfl⟩ | ⟨a, haccepted⟩ := hostIsIpnum_iff.mp (Bool.not_eq_false _ ▸ hip)
  · exact quad_last a b c d (by decide) h
  · obtain ⟨t, bs, k, hparsed, rfl | rfl⟩ := parsed_of_accepted haccepted
    · exact parsed_last hparsed h
    · by_cases ht : t = []
      · rw [ht] at h
        exact absurd h (by decide)
      · rw [show 58 :: t = [] ++ 58 :: t from rfl, getLast_append_cons ht] at h
        exact parsed_last hparsed h

/-! ### The pieces of a name -/

theorem undotted_take (name : Bytes) : name.take (undotted name).length = undotted name := by
  rw [undotted]
  split
  · rw [List.length_dropLast, ← List.dropLast_eq_take]
  · exact List.take_length

theorem undotted_length (h : name ≠ []) :
    (if name.getD (name.length - 1) 0 = 46 then name.length - 1 else name.length) =
      (undotted name).length := by
  have hlast : name.getLast? = some (name.getD (name.length - 1) 0) := by
    have hpos := List.length_pos_of_ne_nil h
    rw [List.getLast?_eq_getElem?, List.getD_eq_getElem?_getD,
      List.getElem?_eq_getElem (show name.length - 1 < name.length by omega)]
    rfl
  simp only [undotted, hlast, Option.some_inj]
  split
  · exact List.length_dropLast.symm
  · rfl

theorem pmatch_iff (hs : s.take a.length = a) (ht : t.take b.length = b) :
    pmatch s a.length t b.length = true ↔ upper a = upper b := by
  rw [pmatch]
  split
  · rename_i hne
    constructor
    · simp
    · intro h
      have hlength := congrArg List.length h
      rw [length_upper, length_upper] at hlength
      exact absurd hlength hne
  · rename_i heq
    rw [strnequal_iff, hs, not_not.mp heq, ht]

theorem memchr_none (h : 46 ∉ s.take n) : memchr s 46 n = none := if_neg h

/-- The first dot. -/
theorem memchr_first (hs : s.take n = label ++ 46 :: rest) (hlabel : 46 ∉ label) :
    memchr s 46 n = some label.length := by
  have hplain : ∀ x ∈ label, decide (x ≠ 46) = true := by
    intro x hx
    rw [decide_eq_true_eq]
    rintro rfl
    exact hlabel hx
  rw [memchr, hs, if_pos (by simp), List.takeWhile_append_of_pos hplain]
  simp

/-- The last dot. -/
theorem memrchr_last (hs : s.take n = label ++ 46 :: rest) (hrest : 46 ∉ rest) :
    memrchr s 46 n = some label.length := by
  have hplain : ∀ x ∈ rest.reverse, decide (x ≠ 46) = true := by
    intro x hx
    rw [decide_eq_true_eq]
    rintro rfl
    exact hrest (List.mem_reverse.mp hx)
  rw [memrchr, hs, if_pos (by simp), List.reverse_append, List.reverse_cons, List.append_assoc,
    List.takeWhile_append_of_pos hplain]
  simp

theorem last_split (h : 46 ∈ s) : ∃ a b, s = a ++ 46 :: b ∧ (46 : UInt8) ∉ b := by
  obtain ⟨b, a, hsplit, hb⟩ := List.eq_append_cons_of_mem (List.mem_reverse.mpr h)
  refine ⟨a.reverse, b.reverse, ?_, fun hmem => hb (List.mem_reverse.mp hmem)⟩
  rw [← List.reverse_reverse s, hsplit]
  simp

/-- The dot behind the asterisk is the only one when there is none in the suffix. -/
theorem memrchr_wildcard (hs : s.take n = 42 :: 46 :: rest) :
    memrchr s 46 n = some 1 ↔ 46 ∉ rest := by
  constructor
  · intro h hmem
    obtain ⟨a, b, rfl, hb⟩ := last_split hmem
    rw [@memrchr_last s (42 :: 46 :: a) b n hs hb] at h
    exact absurd (Option.some.inj h) (by simp)
  · exact memrchr_last (show s.take n = [42] ++ 46 :: rest from hs)

/-! ### Which names a pattern stands for -/

theorem first_inj {nameLabel nameRest : Bytes} (hlabel : 46 ∉ label) (hname : 46 ∉ nameLabel)
    (h : label ++ 46 :: rest = nameLabel ++ 46 :: nameRest) :
    label = nameLabel ∧ rest = nameRest := by
  have h1 := memchr_first (List.take_length (l := label ++ 46 :: rest)) hlabel
  have h2 := memchr_first (List.take_length.trans h) hname
  obtain ⟨rfl, htail⟩ := List.append_inj h (Option.some.inj (h1.symm.trans h2))
  exact ⟨rfl, (List.cons.inj htail).2⟩

/-- A label in front of the suffix. -/
theorem wildcard_iff {suffix nameSuffix : Bytes} (hlabel : 46 ∉ label) (hne : label ≠ []) :
    Wildcard (label ++ 46 :: nameSuffix) (42 :: 46 :: suffix) ↔
      46 ∈ suffix ∧ upper nameSuffix = upper suffix := by
  constructor
  · rintro ⟨l, s, n, hpattern, hdot, -, hl, hname, heq⟩
    obtain ⟨-, -, rfl⟩ : (42 : UInt8) = 42 ∧ (46 : UInt8) = 46 ∧ suffix = s := by
      simpa using hpattern
    obtain ⟨-, rfl⟩ := first_inj hlabel hl hname
    exact ⟨hdot, heq⟩
  · rintro ⟨hdot, heq⟩
    exact ⟨label, suffix, nameSuffix, rfl, hdot, hne, hlabel, rfl, heq⟩

/-- `Curl_cert_hostcheck` behind the check for empty strings, with the dots at the end gone. -/
theorem certHostcheck_eq (hp : pattern ≠ []) (hh : host ≠ []) :
    certHostcheck pattern pattern.length host host.length =
      if pattern.take 2 ≠ [42, 46] then
        pmatch host (undotted host).length pattern (undotted pattern).length
      else if hostIsIpnum host || host.head? == some 46 then false
      else
        match memchr pattern 46 (undotted pattern).length with
        | none => pmatch host (undotted host).length pattern (undotted pattern).length
        | some patternLabelEnd =>
          if memrchr pattern 46 (undotted pattern).length = some patternLabelEnd then
            pmatch host (undotted host).length pattern (undotted pattern).length
          else
            match memchr host 46 (undotted host).length with
            | none => false
            | some hostnameLabelEnd =>
              pmatch (host.drop hostnameLabelEnd) ((undotted host).length - hostnameLabelEnd)
                (pattern.drop patternLabelEnd)
                ((undotted pattern).length - patternLabelEnd) := by
  rw [certHostcheck, if_pos ⟨hp, hh⟩, hostmatch, undotted_length hp, undotted_length hh]

theorem same_iff (host pattern : Bytes) :
    pmatch host (undotted host).length pattern (undotted pattern).length = true ↔
      upper (undotted host) = upper (undotted pattern) :=
  pmatch_iff (undotted_take host) (undotted_take pattern)

theorem undotted_head (hne : undotted name ≠ []) : (undotted name).head? = name.head? := by
  rw [undotted] at hne ⊢
  split
  · rename_i hlast
    rw [if_pos hlast] at hne
    rw [List.head?_dropLast, if_pos]
    have hpos := List.length_pos_of_ne_nil hne
    rw [List.length_dropLast] at hpos
    omega
  · rfl

/-- A pattern that is a wildcard without a dot at its end was one with it. -/
theorem undotted_wildcard {suffix : Bytes} (h : undotted pattern = 42 :: 46 :: suffix) :
    pattern.take 2 = [42, 46] := by
  have htake := undotted_take pattern
  rw [h] at htake
  calc pattern.take 2 = (pattern.take (42 :: 46 :: suffix).length).take 2 := by
        rw [List.take_take]
        simp
    _ = [42, 46] := by rw [htake]; rfl

/-- What is left of a wildcard: the asterisk, or the suffix too. -/
theorem wildcard_undotted (h : pattern.take 2 = [42, 46]) :
    undotted pattern = [42] ∨ ∃ suffix, undotted pattern = 42 :: 46 :: suffix := by
  obtain ⟨suffix, rfl⟩ : ∃ suffix, pattern = 42 :: 46 :: suffix := by
    refine ⟨pattern.drop 2, ?_⟩
    conv => lhs; rw [← List.take_append_drop 2 pattern, h]
    rfl
  rw [undotted]
  split
  · cases suffix with
    | nil => exact .inl rfl
    | cons c suffix => exact .inr ⟨(c :: suffix).dropLast, rfl⟩
  · exact .inr ⟨suffix, rfl⟩

/-- A name that begins with an asterisk is no address. -/
theorem ipnum_asterisk (h : s.head? = some 42) : hostIsIpnum s = false := by
  by_contra hip
  have hbytes := ipnum_bytes (Bool.not_eq_false _ ▸ hip) 42 (List.mem_of_head? h)
  exact absurd hbytes (by decide)

/-- A pattern that is no wildcard, or has no dot in its suffix, stands for the name it is. -/
theorem check_plain (hp : pattern ≠ []) (hh : host ≠ [])
    (hplain : ∀ suffix, undotted pattern = 42 :: 46 :: suffix → 46 ∉ suffix)
    (hhost : pattern.take 2 = [42, 46] → hostIsIpnum host = false ∧ host.head? ≠ some 46) :
    certHostcheck pattern pattern.length host host.length = true ↔
      upper (undotted host) = upper (undotted pattern) := by
  rw [certHostcheck_eq hp hh]
  by_cases hwild : pattern.take 2 = [42, 46]
  · obtain ⟨hip, hdot⟩ := hhost hwild
    rw [if_neg (not_not_intro hwild), hip, Bool.false_or, if_neg (by simpa using hdot)]
    obtain hstar | ⟨suffix, hsuffix⟩ := wildcard_undotted hwild
    · rw [memchr_none (by rw [undotted_take, hstar]; decide)]
      exact same_iff host pattern
    · have htake : pattern.take (undotted pattern).length = 42 :: 46 :: suffix :=
        (undotted_take pattern).trans hsuffix
      have hfirst : memchr pattern 46 (undotted pattern).length = some 1 :=
        memchr_first (show _ = [42] ++ 46 :: suffix from htake) (by decide)
      rw [hfirst]
      dsimp only
      rw [if_pos ((memrchr_wildcard htake).mpr (hplain suffix hsuffix))]
      exact same_iff host pattern
  · rw [if_pos hwild]
    exact same_iff host pattern

/-- A wildcard stands for one label. -/
theorem check_wildcard {suffix : Bytes} (hp : pattern ≠ []) (hh : host ≠ [])
    (hsuffix : undotted pattern = 42 :: 46 :: suffix) (hmore : 46 ∈ suffix)
    (hip : hostIsIpnum host = false) (hdot : host.head? ≠ some 46) :
    certHostcheck pattern pattern.length host host.length = true ↔
      Wildcard (undotted host) (undotted pattern) := by
  have htake : pattern.take (undotted pattern).length = 42 :: 46 :: suffix :=
    (undotted_take pattern).trans hsuffix
  have hfirst : memchr pattern 46 (undotted pattern).length = some 1 :=
    memchr_first (show _ = [42] ++ 46 :: suffix from htake) (by decide)
  rw [certHostcheck_eq hp hh, if_neg (not_not_intro (undotted_wildcard hsuffix)), hip,
    Bool.false_or, if_neg (by simpa using hdot), hfirst]
  dsimp only
  rw [if_neg (fun h => (memrchr_wildcard htake).mp h hmore)]
  by_cases hmem : 46 ∈ undotted host
  · obtain ⟨label, nameSuffix, hname, hlabel⟩ := List.eq_append_cons_of_mem hmem
    have hne : label ≠ [] := by
      rintro rfl
      apply hdot
      rw [← undotted_head (by rw [hname]; simp), hname]
      rfl
    have htakeHost : host.take (undotted host).length = label ++ 46 :: nameSuffix :=
      (undotted_take host).trans hname
    rw [memchr_first htakeHost hlabel]
    dsimp only
    have hhostLength : (undotted host).length - label.length = (46 :: nameSuffix).length := by
      rw [hname, List.length_append, Nat.add_sub_cancel_left]
    have hpatternLength : (undotted pattern).length - 1 = (46 :: suffix).length := by
      rw [hsuffix]
      rfl
    have hhostDrop : (host.drop label.length).take (46 :: nameSuffix).length =
      46 :: nameSuffix := by
      rw [← hhostLength, ← List.drop_take, htakeHost, List.drop_left]
    have hpatternDrop : (pattern.drop 1).take (46 :: suffix).length = 46 :: suffix := by
      rw [← hpatternLength, ← List.drop_take, htake]
      rfl
    rw [hhostLength, hpatternLength, pmatch_iff hhostDrop hpatternDrop, hname, hsuffix,
      wildcard_iff hlabel hne]
    constructor
    · exact fun h => ⟨hmore, (List.cons.inj h).2⟩
    · exact fun h => congrArg (rawToupper 46 :: ·) h.2
  · rw [memchr_none (by rwa [undotted_take])]
    constructor
    · exact nofun
    · rintro ⟨label, s, nameSuffix, -, -, -, -, hname, -⟩
      exact absurd (by rw [hname]; simp) hmem

theorem check_refused (hp : pattern ≠ []) (hh : host ≠ []) (hwild : pattern.take 2 = [42, 46])
    (h : hostIsIpnum host = true ∨ host.head? = some 46) :
    certHostcheck pattern pattern.length host host.length = false := by
  rw [certHostcheck_eq hp hh, if_neg (not_not_intro hwild), if_pos]
  simpa using h

/-- A byte that is no letter has to be there. -/
theorem upper_cons {d : UInt8} (hd : d < 65) (h : upper s = upper (d :: t)) :
    ∃ r, s = d :: r ∧ upper r = upper t := by
  cases s with
  | nil => cases h
  | cons c r =>
    obtain ⟨hhead, htail⟩ := List.cons.inj h
    rw [(rawToupper_eq_iff hd).mpr rfl] at hhead
    exact ⟨r, by rw [(rawToupper_eq_iff hd).mp hhead], htail⟩

/-- What is the same as a wildcard is one, and begins with an asterisk. -/
theorem same_wildcard (hwild : pattern.take 2 = [42, 46])
    (h : upper (undotted host) = upper (undotted pattern)) :
    host.head? = some 42 ∧ (undotted host).head? = some 42 := by
  have hstar : ∃ t, undotted pattern = 42 :: t := by
    obtain hstar | ⟨suffix, hsuffix⟩ := wildcard_undotted hwild
    · exact ⟨[], hstar⟩
    · exact ⟨46 :: suffix, hsuffix⟩
  obtain ⟨t, ht⟩ := hstar
  rw [ht] at h
  obtain ⟨r, hr, -⟩ := upper_cons (by decide) h
  rw [← undotted_head (by rw [hr]; simp), hr]
  exact ⟨rfl, rfl⟩

theorem wildcard_head (h : Wildcard (undotted host) pattern) : host.head? ≠ some 46 := by
  obtain ⟨label, s, nameSuffix, -, -, hne, hlabel, hname, -⟩ := h
  obtain ⟨c, label, rfl⟩ := List.exists_cons_of_ne_nil hne
  rw [← undotted_head (by rw [hname]; simp), hname]
  rintro ⟨⟩
  exact hlabel List.mem_cons_self

/-- With more than one dot in a pattern that is a wildcard, only the wildcard counts. -/
theorem accepts_wildcard {suffix : Bytes} (hsuffix : undotted pattern = 42 :: 46 :: suffix)
    (hmore : 46 ∈ suffix) :
    Accepts pattern host ↔ Wildcard (undotted host) (undotted pattern) ∧ hostIsIpnum host = false ∧
      hostIsIpnum (undotted host) = false ∧ host.head? ≠ some 46 := by
  constructor
  · rintro (h | h)
    · obtain ⟨hhost, hname⟩ := same_wildcard (undotted_wildcard hsuffix) h
      rw [hsuffix] at h
      obtain ⟨r, hr, h⟩ := upper_cons (by decide) h
      obtain ⟨nameSuffix, rfl, hsame⟩ := upper_cons (by decide) h
      refine ⟨?_, ipnum_asterisk hhost, ipnum_asterisk hname, by rw [hhost]; decide⟩
      exact ⟨[42], suffix, nameSuffix, hsuffix, hmore, by decide, by decide, hr, hsame⟩
    · exact h
  · exact .inr

/-- `Curl_cert_hostcheck` stands up to its comments but where a dot hides that the host is an
address. -/
theorem certHostcheck_iff (hp : pattern ≠ []) (hh : host ≠ []) :
    (certHostcheck pattern pattern.length host host.length = true ↔ Accepts pattern host) ↔
      ¬(host.getLast? = some 46 ∧ hostIsIpnum (undotted host) = true ∧
        Wildcard (undotted host) (undotted pattern)) := by
  by_cases hwide : ∃ suffix, undotted pattern = 42 :: 46 :: suffix ∧ 46 ∈ suffix
  · obtain ⟨suffix, hsuffix, hmore⟩ := hwide
    rw [accepts_wildcard hsuffix hmore]
    by_cases hrefused : hostIsIpnum host = true ∨ host.head? = some 46
    · rw [check_refused hp hh (undotted_wildcard hsuffix) hrefused]
      apply iff_of_true
      · constructor
        · exact nofun
        · rintro ⟨-, hip, -, hdot⟩
          exact absurd hrefused (by simp [hip, hdot])
      · rintro ⟨hlast, -, hwild⟩
        obtain hip | hdot := hrefused
        · rw [ipnum_last hlast] at hip
          cases hip
        · exact wildcard_head hwild hdot
    · obtain ⟨hip, hdot⟩ : hostIsIpnum host = false ∧ host.head? ≠ some 46 := by
        simpa using hrefused
      rw [check_wildcard hp hh hsuffix hmore hip hdot]
      constructor
      · rintro h ⟨-, haddress, hwild⟩
        rw [(h.mp hwild).2.2.1] at haddress
        cases haddress
      · intro h
        refine ⟨fun hwild => ⟨hwild, hip, ?_, hdot⟩, fun h => h.1⟩
        by_contra haddress
        by_cases hlast : host.getLast? = some 46
        · exact h ⟨hlast, Bool.not_eq_false _ ▸ haddress, hwild⟩
        · rw [undotted, if_neg hlast] at haddress
          exact haddress hip
  · have hplain : ∀ suffix, undotted pattern = 42 :: 46 :: suffix → 46 ∉ suffix :=
      fun suffix hsuffix hmore => hwide ⟨suffix, hsuffix, hmore⟩
    have hnot : ∀ name, ¬Wildcard name (undotted pattern) := by
      rintro name ⟨label, suffix, nameSuffix, hsuffix, hmore, -⟩
      exact hplain suffix hsuffix hmore
    have haccepts : Accepts pattern host ↔ upper (undotted host) = upper (undotted pattern) :=
      or_iff_left fun h => hnot _ h.1
    rw [haccepts]
    apply iff_of_true
    · by_cases hrefused : pattern.take 2 = [42, 46] ∧
          (hostIsIpnum host = true ∨ host.head? = some 46)
      · obtain ⟨hwild, hrefused⟩ := hrefused
        rw [check_refused hp hh hwild hrefused]
        constructor
        · exact nofun
        · intro h
          obtain ⟨hhost, -⟩ := same_wildcard hwild h
          rw [ipnum_asterisk hhost, hhost] at hrefused
          exact absurd hrefused (by decide)
      · apply check_plain hp hh hplain
        intro hwild
        simpa [hwild] using hrefused
    · exact fun h => hnot _ h.2.2

/-- A host with a dot behind it. -/
theorem certHostcheck_dotted :
    [42, 46, 97, 46, 98] ≠ ([] : Bytes) ∧
      (certHostcheck [42, 46, 97, 46, 98] 5 [120, 46, 65, 46, 98, 46] 6 = true ↔
        Accepts [42, 46, 97, 46, 98] [120, 46, 65, 46, 98, 46]) :=
  ⟨by decide, (@certHostcheck_iff [42, 46, 97, 46, 98] [120, 46, 65, 46, 98, 46]
    (by decide) (by decide)).mpr fun h => absurd h.2.1 (by decide +kernel)⟩

/-- The pattern `*.2.3.4` stands for the address `1.2.3.4.`. -/
theorem certHostcheck_address :
    ¬∀ pattern host : Bytes, pattern ≠ [] → host ≠ [] →
      (certHostcheck pattern pattern.length host host.length = true ↔ Accepts pattern host) := by
  intro h
  have hcheck : certHostcheck [42, 46, 50, 46, 51, 46, 52] 7 [49, 46, 50, 46, 51, 46, 52, 46] 8 =
      true := by decide +kernel
  obtain hsame | ⟨-, -, hip, -⟩ := (h [42, 46, 50, 46, 51, 46, 52] [49, 46, 50, 46, 51, 46, 52, 46]
    (by decide) (by decide)).mp hcheck
  · exact absurd hsame (by decide +kernel)
  · exact absurd hip (by decide +kernel)

end Gurl.Vtls
