import Gurl.Urlglob.Urlglob

/-! The expressions of a pattern, as the parser reads them. -/

namespace Gurl.Urlglob

open Strparse

variable {env : Env} {buf buf' : Dynbuf} {p rest : Bytes} {pos amount : Nat}

theorem dynAddn_ok {mem : Bytes} (h : dynAddn buf mem = .ok buf') :
    buf'.content = buf.content ++ mem ∧ buf'.toobig = buf.toobig := by
  unfold dynAddn at h
  by_cases hfit : mem.length + buf.content.length + 1 ≤ buf.toobig
  · obtain ⟨hok, hcontent, htoobig⟩ := Dynbuf.nappend_ok hfit
    rcases hcall : buf.nappend mem true with ⟨b, code⟩
    rw [hcall] at h hok hcontent htoobig
    obtain rfl : code = .ok := hok
    cases h
    exact ⟨hcontent, htoobig⟩
  · rw [Dynbuf.nappend_error (Nat.lt_of_not_le hfit)] at h
    cases h

/-- What is read next follows the bytes that were added. -/
theorem dynAddn_then {mem value : Bytes} {buf1 : Dynbuf} (h : dynAddn buf mem = .ok buf1)
    (hcontent : buf'.content = buf1.content ++ value) (htoobig : buf'.toobig = buf1.toobig) :
    buf'.content = buf.content ++ (mem ++ value) ∧ buf'.toobig = buf.toobig := by
  obtain ⟨hadded, hsame⟩ := dynAddn_ok h
  rw [hcontent, hadded, htoobig, hsame, List.append_assoc]
  exact ⟨rfl, rfl⟩

theorem isSpecial_eq_false {c : UInt8} (hopen : c ≠ 123) (hopen' : c ≠ 91)
    (hclose : ¬(c = 125 ∨ c = 93)) : isSpecial c = false := by
  obtain ⟨hclose, hclose'⟩ := not_or.mp hclose
  simp [isSpecial, hopen, hopen', hclose, hclose']

theorem strSingle_ok {byte : UInt8} (h : strSingle p byte = .ok rest) : p = byte :: rest := by
  unfold strSingle at h
  split at h
  · cases h
  · split at h
    · rename_i hbyte
      cases h
      rw [hbyte]
    · cases h

theorem strNumber_ok {max n : Nat} (hmax : 10 ≤ max) (h : strNumber p max = .ok (n, rest)) :
    p = p.takeWhile isDigit ++ rest ∧ Digits (p.takeWhile isDigit) n ∧ n ≤ max := by
  rw [strNumber_eq hmax] at h
  split at h
  · cases h
  · rename_i hne
    split at h
    · rename_i hle
      cases h
      exact ⟨List.takeWhile_append_dropWhile.symm,
        ⟨hne, fun c hc => List.mem_takeWhile_imp hc, rfl⟩, hle⟩
    · cases h

/-! ### Literals -/

theorem takeWhile_bracket {name : Bytes} (h : 93 ∉ name) :
    (91 :: (name ++ 93 :: rest)).takeWhile (· != 93) = 91 :: name := by
  rw [List.takeWhile_cons_of_pos (by decide), List.takeWhile_append_of_pos,
    List.takeWhile_cons_of_neg (by decide), List.append_nil]
  intro c hc
  exact bne_iff_ne.mpr fun heq => h (heq ▸ hc)

theorem peekIpv6_host {name : Bytes} (h : 93 ∉ name) :
    peekIpv6 env (91 :: (name ++ 93 :: rest)) =
      if name.length + 2 < maxIp6len ∧ env.urlSet (91 :: name ++ [93]) = true then
        some (name.length + 2)
      else none := by
  unfold peekIpv6
  rw [takeWhile_bracket h]
  have hlength : ¬(91 :: name).length = (91 :: (name ++ 93 :: rest)).length := by
    simp only [List.length_cons, List.length_append]
    omega
  by_cases hshort : name.length + 2 < maxIp6len
  · have hor : ¬((91 :: name).length = (91 :: (name ++ 93 :: rest)).length ∨
        (91 :: name).length + 1 ≥ maxIp6len) := by
      rw [not_or]
      exact ⟨hlength, by rw [List.length_cons]; omega⟩
    simp only [if_neg hor, hshort, true_and]
    rfl
  · have hor : (91 :: name).length = (91 :: (name ++ 93 :: rest)).length ∨
        (91 :: name).length + 1 ≥ maxIp6len := .inr (by rw [List.length_cons]; omega)
    have hand : ¬(name.length + 2 < maxIp6len ∧ env.urlSet (91 :: name ++ [93]) = true) :=
      fun hhost => hshort hhost.1
    simp only [if_pos hor, if_neg hand]

theorem peekIpv6_open (h : 93 ∉ p) : peekIpv6 env (91 :: p) = none := by
  have hall : (91 :: p).takeWhile (· != 93) = 91 :: p := by
    rw [List.takeWhile_eq_self_iff]
    intro c hc
    rcases List.mem_cons.mp hc with rfl | hc
    · decide
    · exact bne_iff_ne.mpr fun heq => h (heq ▸ hc)
  unfold peekIpv6
  rw [hall]
  exact if_pos (.inl rfl)

theorem name_unique {name name' : Bytes} {rest' : Bytes} (h : 93 ∉ name) (h' : 93 ∉ name')
    (heq : name ++ 93 :: rest = name' ++ 93 :: rest') : name = name' := by
  have := @takeWhile_bracket rest name h
  rw [heq, takeWhile_bracket h'] at this
  exact (List.cons.inj this).2.symm

/-- The brackets that the parser copies are those that belong to a literal. -/
theorem skipBrackets_spec (env : Env) (p : Bytes) :
    (skipBrackets env (91 :: p) = 0 → LiteralEnd env (91 :: p)) ∧
      (skipBrackets env (91 :: p) ≠ 0 →
        ∃ text rest, Brackets env text ∧ 91 :: p = text ++ rest ∧
          text.length = skipBrackets env (91 :: p)) := by
  by_cases hclosed : (93 : UInt8) ∈ p
  · obtain ⟨name, rest, rfl, hname⟩ := List.eq_append_cons_of_mem hclosed
    have hempty : (91 :: (name ++ 93 :: rest))[1]? = some 93 ↔ name = [] := by
      cases name with
      | nil => simp
      | cons c name =>
        simp only [List.cons_append, List.getElem?_cons_succ, List.getElem?_cons_zero,
          Option.some.injEq, reduceCtorEq, iff_false]
        intro heq
        exact hname (heq ▸ List.mem_cons_self)
    unfold skipBrackets
    rw [peekIpv6_host hname]
    by_cases hhost : name.length + 2 < maxIp6len ∧ env.urlSet (91 :: name ++ [93]) = true
    · rw [if_pos hhost]
      constructor
      · intro hzero
        cases hzero
      · intro _
        exact ⟨_, rest, .host name hname hhost.1 hhost.2, by simp, by simp⟩
    · rw [if_neg hhost]
      simp only [hempty]
      by_cases hnil : name = []
      · rw [if_pos hnil, hnil]
        constructor
        · intro hzero
          cases hzero
        · intro _
          exact ⟨_, rest, .empty, by simp, by simp⟩
      · rw [if_neg hnil]
        refine ⟨fun _ => .inr (.inr ⟨rfl, fun text htext hpre => ?_⟩), fun hne => (hne rfl).elim⟩
        obtain ⟨t, ht⟩ := hpre
        cases htext with
        | host name' hend hlength hurl =>
          have hsame : name ++ 93 :: rest = name' ++ 93 :: t := by simpa using ht.symm
          obtain rfl := name_unique hname hend hsame
          exact hhost ⟨hlength, hurl⟩
        | empty =>
          have hsame : name ++ 93 :: rest = [] ++ 93 :: t := by simpa using ht.symm
          exact hnil (name_unique hname List.not_mem_nil hsame)
  · have hempty : ¬(91 :: p)[1]? = some 93 := by
      intro hsome
      exact hclosed (List.mem_of_getElem? (show p[0]? = some 93 by simpa using hsome))
    unfold skipBrackets
    rw [peekIpv6_open hclosed]
    simp only [if_neg hempty]
    refine ⟨fun _ => .inr (.inr ⟨rfl, fun text htext hpre => ?_⟩), fun hne => (hne rfl).elim⟩
    obtain ⟨t, ht⟩ := hpre
    cases htext with
    | host name' hend hlength hurl =>
      have hsame : p = name' ++ 93 :: t := by simpa using ht.symm
      exact hclosed (hsame ▸ by simp)
    | empty =>
      have hsame : p = 93 :: t := by simpa using ht.symm
      exact hclosed (hsame ▸ by simp)

/-- The bytes of a literal get to the end of the buffer. -/
theorem literalLoop_sound {skip pos' : Nat}
    (h : literalLoop env skip p pos buf = .ok (rest, pos', buf')) :
    ∃ value, ReadsLiteral env (p.drop skip) value rest ∧ buf'.content = buf.content ++ value ∧
      buf'.toobig = buf.toobig := by
  fun_induction literalLoop env skip p pos buf with
  | case1 skip pos buf =>
    cases h
    exact ⟨[], by rw [List.drop_nil]; exact .nil (.inl rfl), by simp, rfl⟩
  | case2 skip pos buf c p ih => exact ih h
  | case3 p pos buf =>
    cases h
    exact ⟨[], .nil (.inr (.inl rfl)), by simp, rfl⟩
  | case4 p pos buf _ hstop =>
    cases h
    exact ⟨[], .nil ((skipBrackets_spec env p).1 hstop), by simp, rfl⟩
  | case5 => cases h
  | case6 p pos buf buf1 _ hskip hadd ih =>
    obtain ⟨value, hreads, hcontent, htoobig⟩ := ih h
    obtain ⟨text, r, htext, heq, hlength⟩ := (skipBrackets_spec env p).2 hskip
    have hmem : (91 :: p).take (skipBrackets env (91 :: p)) = text := by
      rw [← hlength, heq, List.take_left]
    have hrest : p.drop (skipBrackets env (91 :: p) - 1) = r := by
      have hdrop : (91 :: p).drop (skipBrackets env (91 :: p)) = r := by
        rw [← hlength, heq, List.drop_left]
      obtain ⟨n, hn⟩ := Nat.exists_eq_succ_of_ne_zero hskip
      rw [hn] at hdrop ⊢
      exact hdrop
    rw [hmem] at hadd
    rw [hrest] at hreads
    refine ⟨text ++ value, ?_, dynAddn_then hadd hcontent htoobig⟩
    rw [List.drop_zero, heq]
    exact .brackets htext hreads
  | case7 => cases h
  | case8 => cases h
  | case9 c pos buf _ _ _ d p hescape buf1 hadd ih =>
    obtain ⟨value, hreads, hcontent, htoobig⟩ := ih h
    rw [hescape.1]
    exact ⟨d :: value, .escaped hescape.2 hreads, dynAddn_then hadd hcontent htoobig⟩
  | case10 => cases h
  | case11 c pos buf hopen hopen' hclose d p hescape buf1 hadd ih =>
    obtain ⟨value, hreads, hcontent, htoobig⟩ := ih h
    refine ⟨c :: value, .plain (isSpecial_eq_false hopen hopen' hclose) (fun hc x hx => ?_) hreads,
      dynAddn_then hadd hcontent htoobig⟩
    obtain rfl : d = x := by simpa using hx
    exact Bool.eq_false_iff.mpr fun hd => hescape ⟨hc, hd⟩
  | case12 => cases h
  | case13 c pos buf hopen hopen' hclose buf1 hadd =>
    cases h
    obtain ⟨hadded, hsame⟩ := dynAddn_ok hadd
    exact ⟨[c], .plain (isSpecial_eq_false hopen hopen' hclose) (fun _ x hx => by cases hx)
      (.nil (.inl rfl)), hadded, hsame⟩

/-! ### Sets -/

theorem ReadsElems.plain {c : UInt8} {value : Bytes} {elems : List Bytes}
    (hc : isSpecial c = false) (hcomma : c ≠ 44) (hescape : c ≠ 92)
    (h : ReadsElems p (value :: elems) rest) :
    ReadsElems (c :: p) ((c :: value) :: elems) rest := by
  cases h with
  | last h => exact .last (.plain hc hcomma hescape h)
  | cons h hs => exact .cons (.plain hc hcomma hescape h) hs

theorem ReadsElems.escaped {c : UInt8} {value : Bytes} {elems : List Bytes}
    (h : ReadsElems p (value :: elems) rest) :
    ReadsElems (92 :: c :: p) ((c :: value) :: elems) rest := by
  cases h with
  | last h => exact .last (.escaped h)
  | cons h hs => exact .cons (.escaped h) hs

theorem multiply_eq_some {factor n : Nat} (h : multiply amount factor = some n) :
    n = amount * factor ∧ n ≤ curlOffTMax := by
  unfold multiply at h
  split at h
  · cases h
    exact ⟨rfl, ‹_›⟩
  · cases h

/-- What a loop that reads the rest of a set gives. -/
structure SetRead (p : Bytes) (elem : List Bytes) (buf : Dynbuf) (amount : Nat)
    (rest : Bytes) (amount' : Nat) (elem' : List Bytes) (buf' : Dynbuf) : Prop where
  reads : ∃ value elems, ReadsElems p (value :: elems) rest ∧
    elem' = elem ++ (buf.content ++ value) :: elems
  amount_eq : amount' = amount * elem'.length
  amount_le : amount' ≤ curlOffTMax
  content : buf'.content = []
  toobig : buf'.toobig = buf.toobig

/-- A byte in front of what a set still has. -/
theorem SetRead.byte {p' : Bytes} {c : UInt8} {elem elem' : List Bytes} {amount' : Nat}
    {buf1 : Dynbuf} (h : SetRead p elem buf1 amount rest amount' elem' buf')
    (hadd : dynAddn buf [c] = .ok buf1)
    (hreads : ∀ value elems, ReadsElems p (value :: elems) rest →
      ReadsElems p' ((c :: value) :: elems) rest) :
    SetRead p' elem buf amount rest amount' elem' buf' := by
  obtain ⟨hadded, hsame⟩ := dynAddn_ok hadd
  obtain ⟨value, elems, hvalue, helem⟩ := h.reads
  refine ⟨⟨c :: value, elems, hreads _ _ hvalue, ?_⟩, h.amount_eq, h.amount_le, h.content,
    h.toobig.trans hsame⟩
  rw [helem, hadded, List.append_assoc]
  rfl

theorem globSetLoop_sound {opattern : Bytes} {elem elem' : List Bytes} {pos' amount' : Nat}
    (h : globSetLoop opattern amount p pos elem buf = .ok (rest, pos', amount', elem', buf')) :
    SetRead p elem buf amount rest amount' elem' buf' := by
  fun_induction globSetLoop opattern amount p pos elem buf with
  | case1 | case2 | case3 | case4 | case5 | case7 | case9 | case10 | case12 | case14 | case15 =>
    cases h
  | case6 p pos elem buf n hmultiply =>
    cases h
    obtain ⟨heq, hle⟩ := multiply_eq_some hmultiply
    refine ⟨⟨[], [], .last (.nil (.inr rfl)), by rw [List.append_nil]⟩, ?_, hle,
      buf.content_reset, rfl⟩
    rw [heq, List.length_append]
    rfl
  | case8 p pos elem buf _ _ _ ih =>
    have hrest := ih h
    obtain ⟨value, elems, hvalue, helem⟩ := hrest.reads
    refine ⟨⟨[], value :: elems, .cons (.nil (.inl rfl)) hvalue, ?_⟩, hrest.amount_eq,
      hrest.amount_le, hrest.content, hrest.toobig⟩
    rw [helem, buf.content_reset, List.append_nil, List.append_assoc]
    rfl
  | case11 pos elem buf d p buf1 hadd _ _ _ _ ih =>
    exact (ih h).byte hadd fun _ _ hvalue => hvalue.escaped
  | case13 c pos elem buf hopen hbrace hcomma hbracket d p hescape buf1 hadd ih =>
    obtain ⟨hopen, hopen'⟩ := not_or.mp hopen
    have hc : isSpecial c = false := isSpecial_eq_false hopen hopen' (not_or.mpr ⟨hbrace, hbracket⟩)
    exact (ih h).byte hadd fun _ _ hvalue => hvalue.plain hc hcomma hescape

/-- The position of a part before the first URL. -/
def Item.start : Item → Content
  | .literal text => .set [text] 0
  | .set elems => .set elems 0
  | .letters min max step => .ascii min max min step
  | .numbers min max step width => .num min max min step width

/-- What reading an expression gives. -/
structure ExprRead (set : Bool) (p : Bytes) (amount : Nat) (buf : Dynbuf) (rest : Bytes)
    (amount' : Nat) (c : Content) (buf' : Dynbuf) (item : Item) : Prop where
  reads : ReadsExpr set p item rest
  start : c = item.start
  amount_eq : amount' = amount * item.choices.length
  amount_le : amount' ≤ curlOffTMax
  content : buf'.content = []
  toobig : buf'.toobig = buf.toobig

theorem globSet_sound {pos' amount' : Nat} {c : Content} (hbuf : buf.content = [])
    (h : globSet p pos amount buf = .ok (rest, pos', amount', c, buf')) :
    ∃ item, ExprRead true p amount buf rest amount' c buf' item := by
  unfold globSet at h
  split at h
  · cases h
  · rename_i hloop
    cases h
    have hread := globSetLoop_sound hloop
    obtain ⟨value, elems, hvalue, helem⟩ := hread.reads
    rw [hbuf, List.nil_append, List.nil_append] at helem
    refine ⟨.set (value :: elems), .set hvalue fun hhead => ?_,
      by rw [helem]; rfl, ?_, hread.amount_le, hread.content, hread.toobig⟩
    · obtain ⟨q, rfl⟩ := List.head?_eq_some_iff.mp hhead
      rw [globSetLoop.eq_def] at hloop
      simp [globerror] at hloop
    · rw [hread.amount_eq, helem]
      simp [Item.choices]

/-! ### Ranges -/

theorem letterStep_sound (h : (letterStep p).2 ≠ 0) :
    ReadsStep (58 :: p) (letterStep p).2 (letterStep p).1 := by
  rcases hnum : strNumber p 256 with e | ⟨num, q⟩
  · simp only [letterStep, hnum, ne_eq, not_true_eq_false] at h
  rcases hsingle : strSingle q 93 with e | r
  · simp only [letterStep, hnum, hsingle, ne_eq, not_true_eq_false] at h
  simp only [letterStep, hnum, hsingle] at h ⊢
  obtain ⟨heq, hdigits, hle⟩ := strNumber_ok (by decide) hnum
  obtain rfl := strSingle_ok hsingle
  have hsmall : num % 256 = num := by
    rcases Nat.lt_or_eq_of_le hle with hlt | rfl
    · exact Nat.mod_eq_of_lt hlt
    · exact (h rfl).elim
  rw [hsmall]
  have hgiven := ReadsStep.given hdigits r
  rw [List.cons_append, ← heq] at hgiven
  exact hgiven

theorem numberStep_sound (h : (numberStep p).2 ≠ 0) :
    ReadsStep p (numberStep p).2 (numberStep p).1 := by
  rcases hbracket : strSingle p 93 with e | q
  swap
  · simp only [numberStep, hbracket]
    rw [strSingle_ok hbracket]
    exact .one q
  rcases hcolon : strSingle p 58 with e | q
  · simp only [numberStep, hbracket, hcolon, ne_eq, not_true_eq_false] at h
  rcases hnum : strNumber q curlOffTMax with e | ⟨num, r⟩
  · simp only [numberStep, hbracket, hcolon, hnum, ne_eq, not_true_eq_false] at h
  rcases hsingle : strSingle r 93 with e | t
  · simp only [numberStep, hbracket, hcolon, hnum, hsingle, ne_eq, not_true_eq_false] at h
  simp only [numberStep, hbracket, hcolon, hnum, hsingle]
  obtain ⟨heq, hdigits, -⟩ := strNumber_ok (by decide) hnum
  obtain rfl := strSingle_ok hsingle
  rw [strSingle_ok hcolon]
  have hgiven := ReadsStep.given hdigits t
  rw [List.cons_append, ← heq] at hgiven
  exact hgiven

/-- A range of letters has the form of one. -/
theorem letterRange_sound {minC maxC : UInt8} {step : Nat}
    (h : letterRange p = (some (minC, maxC, step), rest)) (hstep : step ≠ 0) :
    ∃ q, p = minC :: 45 :: maxC :: q ∧ ReadsStep q step rest := by
  unfold letterRange at h
  split at h
  · rename_i a b c q
    split at h
    · rename_i hcolon
      cases h
      exact ⟨58 :: q, by rw [hcolon], letterStep_sound hstep⟩
    · split at h
      · rename_i hbracket
        cases h
        exact ⟨93 :: rest, by rw [hbracket], .one rest⟩
      · cases h
  · cases h

theorem isAlpha_lt {c : UInt8} (h : isAlpha c = true) : c.toNat < 128 := by
  simp only [isAlpha, Bool.or_eq_true, Bool.and_eq_true, decide_eq_true_eq, UInt8.le_iff_toNat_le]
    at h
  have h1 : (122 : UInt8).toNat = 122 := rfl
  have h2 : (90 : UInt8).toNat = 90 := rfl
  omega

theorem charVal_of_lt {c : UInt8} (h : c.toNat < 128) : charVal env c = c.toNat := by
  have hle : ¬(128 : UInt8) ≤ c := by
    rw [UInt8.le_iff_toNat_le]
    exact Nat.not_le.mpr h
  simp [charVal, hle]

/-- A byte that is not below a letter has its value as a character. -/
theorem charVal_of_le {c : UInt8} (h : 0 ≤ charVal env c) : charVal env c = c.toNat := by
  have hlt := c.toNat_lt
  unfold charVal at h ⊢
  split at h
  · omega
  · rw [if_neg ‹_›]

theorem rangeOf_length (min max step : Nat) :
    (rangeOf min max step).length = (max - min) / step + 1 := by
  rw [rangeOf, List.length_map, List.length_range]

theorem globLetters_sound {c : UInt8} {pos' amount' : Nat} {content : Content}
    (hc : isAlpha c = true)
    (h : globLetters env (c :: p) pos amount = .ok (rest, pos', amount', content)) :
    ∃ item, ReadsExpr false (c :: p) item rest ∧ content = item.start ∧
      amount' = amount * item.choices.length ∧ amount' ≤ curlOffTMax := by
  unfold globLetters at h
  rcases hrange : letterRange (c :: p) with ⟨_ | ⟨minC, maxC, step⟩, q⟩
  · simp only [hrange] at h
    cases h
  simp only [hrange] at h
  split at h
  · cases h
  rename_i hgood
  split at h
  · cases h
  rename_i n hmultiply
  cases h
  obtain ⟨heq, hle⟩ := multiply_eq_some hmultiply
  obtain ⟨hzero, hgood⟩ := not_or.mp hgood
  obtain ⟨q, hform, hreads⟩ := letterRange_sound hrange hzero
  obtain ⟨rfl, rfl⟩ := List.cons.inj hform
  have hmin : charVal env c = c.toNat := charVal_of_lt (isAlpha_lt hc)
  rw [hmin] at hgood
  have hmax : charVal env maxC = maxC.toNat := charVal_of_le (by omega)
  rw [hmax] at hgood
  refine ⟨.letters c.toNat maxC.toNat step,
    .letters hc hreads ⟨by omega, by omega, by omega⟩ (by omega), rfl, ?_, hle⟩
  rw [heq, Item.choices, List.length_map, rangeOf_length]

/-- A range of numbers has the form of one. -/
theorem numberRange_sound {min max step : Nat} (h : numberRange p = (min, max, step, rest))
    (hstep : step ≠ 0) :
    ∃ blanks ds q, p = p.takeWhile isDigit ++ 45 :: blanks ++ ds ++ q ∧
      Digits (p.takeWhile isDigit) min ∧ (∀ c ∈ blanks, isBlank c = true) ∧ Digits ds max ∧
      ReadsStep q step rest := by
  unfold numberRange at h
  rcases hmin : strNumber p curlOffTMax with e | ⟨minN, q⟩
  · simp only [hmin] at h
    cases h
    exact (hstep rfl).elim
  rcases hdash : strSingle q 45 with e | r
  · simp only [hmin, hdash] at h
    cases h
    exact (hstep rfl).elim
  rcases hmax : strNumber (r.dropWhile isBlank) curlOffTMax with e | ⟨maxN, t⟩
  · simp only [hmin, hdash, hmax] at h
    cases h
    exact (hstep rfl).elim
  simp only [hmin, hdash, hmax] at h
  cases h
  obtain ⟨heq, hdigits, -⟩ := strNumber_ok (by decide) hmin
  obtain ⟨heq', hdigits', -⟩ := strNumber_ok (by decide) hmax
  obtain rfl := strSingle_ok hdash
  refine ⟨r.takeWhile isBlank, _, t, ?_, hdigits, fun c hc => List.mem_takeWhile_imp hc, hdigits',
    numberStep_sound hstep⟩
  rw [List.append_assoc, ← heq', List.append_assoc, List.cons_append,
    List.takeWhile_append_dropWhile]
  exact heq

theorem head_takeWhile_digit {ds : Bytes} {n : Nat} (hds : p.takeWhile isDigit = ds)
    (h : Digits ds n) : p.head? = ds.head? := by
  cases p with
  | nil => exact (h.nonempty hds.symm).elim
  | cons c p =>
    by_cases hc : isDigit c = true
    · rw [← hds, List.takeWhile_cons_of_pos hc]
      rfl
    · rw [List.takeWhile_cons_of_neg hc] at hds
      exact (h.nonempty hds.symm).elim

theorem globNumbers_sound {pos' amount' : Nat} {content : Content}
    (h : globNumbers p pos amount = .ok (rest, pos', amount', content)) :
    ∃ item, ReadsExpr false p item rest ∧ content = item.start ∧
      amount' = amount * item.choices.length ∧ amount' ≤ curlOffTMax := by
  unfold globNumbers at h
  rcases hrange : numberRange p with ⟨min, max, step, q⟩
  simp only [hrange] at h
  split at h
  · cases h
  rename_i hgood
  split at h
  · cases h
  rename_i hoverflow
  split at h
  · cases h
  rename_i n hmultiply
  cases h
  obtain ⟨heq, hle⟩ := multiply_eq_some hmultiply
  obtain ⟨blanks, ds, r, hform, hmin, hblanks, hmax, hreads⟩ := numberRange_sound hrange (by omega)
  have hbig : 1 ≤ curlOffTMax := by decide
  have hexpr := ReadsExpr.numbers hmin hblanks hmax hreads ⟨by omega, by omega, by omega⟩ (by omega)
  rw [← hform] at hexpr
  refine ⟨_, hexpr, ?_, ?_, hle⟩
  · rw [head_takeWhile_digit rfl hmin]
    rfl
  · rw [heq, Item.choices, List.length_map, rangeOf_length]

theorem globExpr_sound {set : Bool} {pos' amount' : Nat} {c : Content} (hbuf : buf.content = [])
    (h : globExpr env set p pos amount buf = .ok (rest, pos', amount', c, buf')) :
    ∃ item, ExprRead set p amount buf rest amount' c buf' item := by
  unfold globExpr at h
  cases set with
  | true => exact globSet_sound hbuf h
  | false =>
    rw [if_neg Bool.false_ne_true] at h
    split at h
    · cases h
    rename_i hcall
    cases h
    unfold globRange at hcall
    split at hcall
    · cases hcall
    · split at hcall
      · rename_i hc
        obtain ⟨item, hreads, hstart, hamount, hle⟩ := globLetters_sound hc hcall
        exact ⟨item, hreads, hstart, hamount, hle, hbuf, rfl⟩
      · split at hcall
        · obtain ⟨item, hreads, hstart, hamount, hle⟩ := globNumbers_sound hcall
          exact ⟨item, hreads, hstart, hamount, hle, hbuf, rfl⟩
        · cases hcall

/-! ### Names -/

theorem takeWhile_name {name : Bytes} (h : 62 ∉ name) :
    (name ++ 62 :: rest).takeWhile (· != 62) = name ∧
      (name ++ 62 :: rest).dropWhile (· != 62) = 62 :: rest := by
  have hall : ∀ c ∈ name, (c != 62) = true := fun c hc => bne_iff_ne.mpr fun heq => h (heq ▸ hc)
  rw [List.takeWhile_append_of_pos hall, List.dropWhile_append_of_pos hall,
    List.takeWhile_cons_of_neg (by decide), List.dropWhile_cons_of_neg (by decide), List.append_nil]
  exact ⟨rfl, rfl⟩

theorem globName_named {name : Bytes} (h : IsName name) :
    globName (60 :: name ++ 62 :: rest) = some (name, rest) := by
  have hsome : strUntil (name ++ 62 :: rest) maxGlobnameLen 62 = some (name, 62 :: rest) := by
    unfold strUntil
    rw [(takeWhile_name h.2.2).1, (takeWhile_name h.2.2).2]
    have hle := h.2.1
    exact if_neg (not_or.mpr ⟨by omega, h.1⟩)
  simp [globName, strSingle, hsome]

theorem globName_sound {name : Bytes} (h : globName p = some (name, rest)) : ReadsName p rest := by
  unfold globName at h
  split at h
  · cases h
  rename_i q hopen
  split at h
  · cases h
  rename_i word r huntil
  split at h
  · cases h
  rename_i t hclose
  cases h
  obtain rfl := strSingle_ok hopen
  simp only [strUntil] at huntil
  split at huntil
  · cases huntil
  rename_i hword
  obtain ⟨hlength, hne⟩ := not_or.mp hword
  have hrest : q.dropWhile (· != 62) = 62 :: rest := by
    cases huntil
    exact strSingle_ok hclose
  obtain rfl : q.takeWhile (· != 62) = name := by
    cases huntil
    rfl
  have heq := List.takeWhile_append_dropWhile (p := (· != (62 : UInt8))) (l := q)
  rw [hrest] at heq
  rw [← heq]
  refine .named ⟨hne, by omega, fun hmem => ?_⟩ rest
  exact absurd (List.mem_takeWhile_imp hmem) (by decide)

theorem globName_none (h : globName p = none) : ReadsName p p := by
  refine .unnamed fun name hname hpre => ?_
  obtain ⟨t, rfl⟩ := hpre
  rw [List.append_assoc, List.singleton_append, globName_named hname] at h
  cases h

end Gurl.Urlglob
