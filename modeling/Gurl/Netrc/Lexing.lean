import Gurl.Netrc.Scanner

/-! What the lexer makes of the pieces of the grammar. -/

namespace Gurl.Netrc

open Strcase

theorem CrBeforeLf.suffix {p s : Bytes} (h : CrBeforeLf (p ++ s)) : CrBeforeLf s := by
  intro q rest hs
  apply h (p ++ q) rest
  rw [hs, List.append_assoc]

/-- A byte between two words. -/
theorem not_isword {c : UInt8} (h : isword c = false) :
    isblank c = true ∨ c = 10 ∨ c = 13 := by
  unfold isword isnewline at h
  cases hb : isblank c with
  | true => exact .inl rfl
  | false =>
    rw [hb] at h
    right
    simpa [or_iff_not_imp_left] using h

theorem isblank_of_isword {c : UInt8} (h : isword c = true) :
    isblank c = false ∧ c ≠ 10 ∧ c ≠ 13 := by
  unfold isword isnewline at h
  simpa using h

theorem dropWhile_blanks {p : UInt8 → Bool} {sp rest : Bytes} (hsp : ∀ c ∈ sp, p c = true)
    (hrest : ∀ c ∈ rest.head?, p c = false) : (sp ++ rest).dropWhile p = rest := by
  rw [List.dropWhile_append_of_pos hsp]
  cases rest with
  | nil => rfl
  | cons c rest => exact List.dropWhile_cons_of_neg (by rw [hrest c rfl]; exact Bool.false_ne_true)

/-- White space is blanks only, or has a line end behind the first blanks. -/
theorem Blank.cases {sp rest : Bytes} (hsp : Blank sp) (hcr : CrBeforeLf (sp ++ rest))
    (hword : ∀ c ∈ rest.head?, isword c = true) :
    (∀ c ∈ sp, isblank c = true) ∨ ∃ b cr sp', sp = b ++ (cr ++ 10 :: sp') ∧
      (∀ c ∈ b, isblank c = true) ∧ (cr = [] ∨ cr = [13]) ∧ Blank sp' := by
  induction sp with
  | nil => exact .inl fun c hc => (List.not_mem_nil hc).elim
  | cons c sp ih =>
    have hsp' : Blank sp := fun d hd => hsp d (List.mem_cons_of_mem _ hd)
    have hcr' : CrBeforeLf (sp ++ rest) := CrBeforeLf.suffix (p := [c]) hcr
    rcases not_isword (hsp c List.mem_cons_self) with hblank | rfl | rfl
    · rcases ih hsp' hcr' with hall | ⟨b, cr, sp', rfl, hb, hcrs, hrest⟩
      · left
        intro d hd
        rcases List.mem_cons.mp hd with rfl | hd
        · exact hblank
        · exact hall d hd
      · refine .inr ⟨c :: b, cr, sp', rfl, fun d hd => ?_, hcrs, hrest⟩
        rcases List.mem_cons.mp hd with rfl | hd
        · exact hblank
        · exact hb d hd
    · exact .inr ⟨[], [], sp, rfl, fun d hd => (List.not_mem_nil hd).elim, .inl rfl, hsp'⟩
    · have hnext : (sp ++ rest).head? = some 10 := hcr [] (sp ++ rest) rfl
      cases sp with
      | nil =>
        have hten := (isblank_of_isword (hword 10 hnext)).2.1
        exact (hten rfl).elim
      | cons d sp =>
        obtain rfl : d = 10 := Option.some.inj hnext
        exact .inr ⟨[], [13], sp, rfl, fun d hd => (List.not_mem_nil hd).elim, .inr rfl,
          fun d hd => hsp' d (List.mem_cons_of_mem _ hd)⟩

theorem skipBlanksLoop_spec {fuel : Nat} {sp rest : Bytes} (hsp : Blank sp)
    (hcr : CrBeforeLf (sp ++ rest)) (hword : ∀ c ∈ rest.head?, isword c = true)
    (hfuel : sp.length < fuel) : skipBlanksLoop fuel (sp ++ rest) = rest := by
  induction fuel generalizing sp with
  | zero => omega
  | succ fuel ih =>
    rw [skipBlanksLoop]
    split
    · rename_i hnil
      rw [List.append_eq_nil_iff] at hnil
      rw [hnil.1, hnil.2, List.nil_append]
    · rcases hsp.cases hcr hword with hall | ⟨b, cr, sp', rfl, hb, hcrs, hrest⟩
      · rw [dropWhile_blanks hall fun c hc => (isblank_of_isword (hword c hc)).1]
        cases rest with
        | nil => rfl
        | cons c rest =>
          obtain ⟨-, hten, hthirteen⟩ := isblank_of_isword (hword c rfl)
          rw [List.dropWhile_cons_of_neg (by simpa using hthirteen)]
          split
          · rename_i heq
            exact (hten (List.cons.inj heq).1).elim
          · rfl
      · have hskip : ((b ++ (cr ++ 10 :: sp') ++ rest).dropWhile isblank).dropWhile (· == 13) =
            10 :: (sp' ++ rest) := by
          rw [List.append_assoc, List.append_assoc, List.cons_append, dropWhile_blanks hb (by
            rcases hcrs with rfl | rfl
            · intro c hc
              rw [← Option.some.inj hc]
              rfl
            · intro c hc
              rw [← Option.some.inj hc]
              rfl)]
          rcases hcrs with rfl | rfl <;> rfl
        rw [hskip]
        refine ih hrest ?_ ?_
        · rw [List.append_assoc, List.append_assoc, List.cons_append] at hcr
          exact CrBeforeLf.suffix (p := [10]) hcr.suffix.suffix
        · simp only [List.length_append, List.length_cons] at hfuel
          omega

theorem skipBlanks_spec {sp rest : Bytes} (hsp : Blank sp) (hcr : CrBeforeLf (sp ++ rest))
    (hword : ∀ c ∈ rest.head?, isword c = true) : skipBlanks (sp ++ rest) = rest :=
  skipBlanksLoop_spec hsp hcr hword (by rw [List.length_append]; omega)

/-- The text of a macro goes on behind the CRs it starts with. -/
theorem MacroText.dropCr {text rest : Bytes} (h : MacroText text rest) :
    ∃ text', (text ++ rest).dropWhile (· == 13) = text' ++ rest ∧ MacroText text' rest ∧
      text'.length ≤ text.length := by
  induction h with
  | eof => exact ⟨[], rfl, .eof, le_rfl⟩
  | @empty crs rest hcrs => exact ⟨10 :: crs, rfl, .empty hcrs, le_rfl⟩
  | @byte text rest c hline htext ih =>
    obtain ⟨text', hdrop, hmacro, hle⟩ := ih
    by_cases hc : c = 13
    · subst hc
      exact ⟨text', hdrop, hmacro, hle.trans (Nat.le_succ _)⟩
    · refine ⟨c :: text, ?_, .byte c hline htext, le_rfl⟩
      exact List.dropWhile_cons_of_neg (by simpa using hc)

theorem skipToEmptyLineLoop_spec {fuel : Nat} {text rest : Bytes} (h : MacroText text rest)
    (hfuel : text.length < fuel) : skipToEmptyLineLoop fuel (text ++ rest) = rest := by
  induction fuel generalizing text with
  | zero => omega
  | succ fuel ih =>
    cases h with
    | eof => rfl
    | @empty crs rest hcrs =>
      have hdrop : (crs ++ 10 :: rest).dropWhile (· == 13) = 10 :: rest :=
        dropWhile_blanks (fun c hc => by rw [hcrs c hc]; rfl) fun c hc => by
          rw [← Option.some.inj hc]
          rfl
      rw [List.cons_append, skipToEmptyLineLoop, if_neg (by decide), if_pos rfl]
      simp only [hdrop]
      exact if_pos rfl
    | @byte text rest c hline htext =>
      rw [List.length_cons] at hfuel
      rw [List.cons_append, skipToEmptyLineLoop]
      by_cases hcr : c = 13
      · rw [if_pos hcr]
        exact ih htext (by omega)
      · rw [if_neg hcr]
        by_cases hlf : c = 10
        · subst hlf
          obtain ⟨text', hdrop, hmacro, hle⟩ := htext.dropCr
          rw [if_pos rfl]
          simp only [hdrop]
          rw [if_neg, ih hmacro (by omega)]
          -- another LF right here would have been an empty line
          intro hhead
          apply hline
          refine ⟨(text ++ rest).takeWhile (· == 13), (text' ++ rest).tail, fun c hc => ?_, ?_⟩
          · simpa using List.mem_takeWhile_imp hc
          · rw [← List.eq_cons_of_mem_head? hhead, ← hdrop, List.takeWhile_append_dropWhile]
        · rw [if_neg hlf]
          exact ih htext (by omega)

theorem skipToEmptyLine_spec {text rest : Bytes} (h : MacroText text rest) :
    skipToEmptyLine (text ++ rest) = rest :=
  skipToEmptyLineLoop_spec h (by rw [List.length_append]; omega)

/-- The buffer has got some bytes; it has memory once there were any. -/
structure Added (before after : Dynbuf) (value : Bytes) : Prop where
  content : after.content = before.content ++ value
  toobig : after.toobig = before.toobig
  bufr : after.bufr.isSome = (before.bufr.isSome || value ≠ [])

theorem Added.refl (literal : Dynbuf) : Added literal literal [] :=
  ⟨(List.append_nil _).symm, rfl, by simp⟩

theorem nappend_added {literal : Dynbuf} {mem : Bytes}
    (h : mem.length + literal.content.length + 1 ≤ literal.toobig) (hmem : mem ≠ []) :
    ∃ literal', literal.nappend mem true = (literal', .ok) ∧ Added literal literal' mem := by
  refine ⟨{ literal with
    bufr := some (literal.content ++ mem)
    allc := literal.allocSize (mem.length + literal.content.length + 1) }, ?_, rfl, rfl, ?_⟩
  · unfold Dynbuf.nappend
    simp only [if_neg (Nat.not_lt.mpr h), Bool.not_true, Bool.and_false,
      Bool.false_eq_true, if_false]
  · simp [hmem]

theorem Added.trans {a b c : Dynbuf} {v w : Bytes} (h1 : Added a b v) (h2 : Added b c w) :
    Added a c (v ++ w) where
  content := by rw [h2.content, h1.content, List.append_assoc]
  toobig := h2.toobig.trans h1.toobig
  bufr := by
    rw [h2.bufr, h1.bufr]
    cases v <;> simp

/-- The loop over a quoted text in front of `s` either adds what it stands for or finds it too
long. -/
def Reads (literal : Dynbuf) (escape : Bool) (text value s : Bytes) : Prop :=
  (∃ literal', quotedLoop literal escape (text ++ s) = quotedLoop literal' false s ∧
      Added literal literal' value ∧ (literal.content.length < literal.toobig →
        literal.content.length + value.length < literal.toobig)) ∨
    literal.toobig ≤ literal.content.length + value.length ∧
      (quotedLoop literal escape (text ++ s)).2.1 = .syntaxError

/-- A byte `c` that stands for `d`, and a text behind it. -/
theorem Reads.cons {literal : Dynbuf} {escape : Bool} {c d : UInt8} {text value s : Bytes}
    (hloop : ∀ s, quotedLoop literal escape (c :: s) = match literal.nappend [d] true with
      | (literal, .ok) => quotedLoop literal false s
      | (literal, result) => (literal, curl2netrc result, c :: s))
    (ih : ∀ literal, Reads literal false text value s) :
    Reads literal escape (c :: text) (d :: value) s := by
  by_cases hroom : [d].length + literal.content.length + 1 ≤ literal.toobig
  · obtain ⟨literal', happend, hadded⟩ := nappend_added hroom (List.cons_ne_nil d [])
    have hstep : quotedLoop literal escape (c :: text ++ s) =
      quotedLoop literal' false (text ++ s) := by
      rw [List.cons_append, hloop, happend]
    rw [List.length_singleton] at hroom
    rcases ih literal' with ⟨literal'', hrest, hadded', hfits⟩ | ⟨hlong, herror⟩
    · refine .inl ⟨literal'', hstep.trans hrest, hadded.trans hadded', fun _ => ?_⟩
      rw [hadded.toobig, hadded.content, List.length_append, List.length_singleton] at hfits
      rw [List.length_cons]
      omega
    · refine .inr ⟨?_, by rw [hstep]; exact herror⟩
      rw [hadded.toobig, hadded.content, List.length_append, List.length_singleton] at hlong
      rw [List.length_cons]
      omega
  · rw [List.length_singleton] at hroom
    refine .inr ⟨by rw [List.length_cons]; omega, ?_⟩
    rw [List.cons_append, hloop, Dynbuf.nappend_error (by rw [List.length_singleton]; omega)]
    rfl

/-- An escape, and a text behind it. -/
theorem Reads.escape {literal : Dynbuf} {c : UInt8} {text value s : Bytes}
    (ih : ∀ literal, Reads literal false text value s) :
    Reads literal false (92 :: c :: text) (unescape c :: value) s :=
  @Reads.cons literal true c _ _ _ _ (fun _ => (quotedLoop.eq_def ..).trans rfl) ih

theorem Quoted.reads {body value : Bytes} (h : Quoted body value) (literal : Dynbuf)
    (s : Bytes) : Reads literal false body value s := by
  induction h generalizing literal with
  | nil => exact .inl ⟨literal, rfl, .refl literal, id⟩
  | plain c hbackslash hquote _ ih =>
    exact Reads.cons (fun _ => (quotedLoop.eq_def ..).trans
      ((if_neg hbackslash).trans ((if_neg hquote).trans rfl))) ih
  | newline _ ih => exact Reads.escape ih
  | cr _ ih => exact Reads.escape ih
  | tab _ ih => exact Reads.escape ih
  | other c hn hr ht _ ih =>
    have hc : unescape c = c := by rw [unescape, if_neg hn, if_neg hr, if_neg ht]
    have hreads := @Reads.escape literal c _ _ _ ih
    rwa [hc] at hreads

theorem quotedLoop_closed {body value : Bytes} (h : Quoted body value) {literal : Dynbuf}
    (hfits : literal.content.length + value.length < literal.toobig) (rest : Bytes) :
    ∃ literal', quotedLoop literal false (body ++ 34 :: rest) = (literal', .ok, rest) ∧
      Added literal literal' value := by
  rcases h.reads literal (34 :: rest) with ⟨literal', hloop, hadded, -⟩ | ⟨hlong, -⟩
  · refine ⟨literal', hloop.trans ?_, hadded⟩
    rw [quotedLoop, if_neg (by decide), if_pos rfl]
  · omega

theorem quotedLoop_bad {limit : Nat} {text : Bytes} (h : BadQuoted limit text)
    {literal : Dynbuf} (hroom : literal.content.length < literal.toobig)
    (hlimit : literal.toobig ≤ literal.content.length + limit) :
    (quotedLoop literal false text).2.1 = .syntaxError := by
  cases h with
  | unclosed hbody =>
    rcases hbody.reads literal [] with ⟨literal', hloop, -, -⟩ | ⟨-, herror⟩
    · rw [List.append_nil] at hloop
      rw [hloop]
      rfl
    · rwa [List.append_nil] at herror
  | escape hbody =>
    rcases hbody.reads literal [92] with ⟨literal', hloop, -, -⟩ | ⟨-, herror⟩
    · rw [hloop]
      rfl
    · exact herror
  | @long body value rest hbody hlong =>
    rcases hbody.reads literal rest with ⟨literal', -, -, hfits⟩ | ⟨-, herror⟩
    · have hless := hfits hroom
      omega
    · exact herror

variable {lexer : Lexer} {limit : Nat}

theorem lexerNext_eof {sp : Bytes} (hpushed : lexer.pushed = false) (hpos : lexer.pos = sp)
    (hsp : Blank sp) (hcr : CrBeforeLf sp) (want : Bool) :
    lexerNext lexer want =
      ({ lexer with pos := [], literal := lexer.literal.reset, token := .eof }, .ok) := by
  have hskip : skipBlanks lexer.pos = [] := by
    have hspec := @skipBlanks_spec sp [] hsp (by rwa [List.append_nil]) (fun c hc => by cases hc)
    rwa [List.append_nil, ← hpos] at hspec
  rw [lexerNext, hpushed, if_neg Bool.false_ne_true]
  simp only [hskip]

theorem Word.head {word rest : Bytes} (h : Word word rest) :
    ∃ c w, word = c :: w ∧ c ≠ 34 ∧ isword c = true := by
  obtain ⟨c, w, rfl⟩ := List.exists_cons_of_ne_nil h.ne_nil
  exact ⟨c, w, rfl, fun heq => h.unquoted (by rw [heq]; rfl), h.bytes c List.mem_cons_self⟩

theorem Word.span {word rest : Bytes} (h : Word word rest) :
    (word ++ rest).takeWhile isword = word ∧ (word ++ rest).dropWhile isword = rest := by
  have hdrop := dropWhile_blanks h.bytes h.ends
  refine ⟨?_, hdrop⟩
  have hall := List.takeWhile_append_dropWhile (p := isword) (l := word ++ rest)
  rw [hdrop] at hall
  exact List.append_cancel_right hall

/-- Where a word follows, the lexer takes it. -/
theorem lexerNext_word {sp word rest : Bytes} (hpushed : lexer.pushed = false)
    (hpos : lexer.pos = sp ++ (word ++ rest)) (hsp : Blank sp) (hword : Word word rest)
    (hcr : CrBeforeLf (sp ++ (word ++ rest))) (want : Bool) :
    lexerNext lexer want =
      if want then
        ({ lexer with
            pos := rest, literal := (lexer.literal.reset.nappend word true).1, token := .literal },
          curl2netrc (lexer.literal.reset.nappend word true).2)
      else
        ({ lexer with pos := rest, literal := lexer.literal.reset, token := keyword word },
          .ok) := by
  obtain ⟨c, w, rfl, hquote, hc⟩ := hword.head
  have hskip : skipBlanks lexer.pos = c :: w ++ rest := by
    rw [hpos]
    exact skipBlanks_spec hsp hcr fun d hd => by
      rw [← Option.some.inj hd]
      exact hc
  obtain ⟨htake, hdrop⟩ := hword.span
  rw [lexerNext, hpushed, if_neg Bool.false_ne_true]
  simp only [hskip]
  split
  · rename_i hnil
    cases hnil
  · rename_i heq
    exact (hquote (List.cons.inj heq).1).elim
  · rw [htake, hdrop]
    simp

/-- Where a quote follows, the lexer takes a quoted literal. -/
theorem lexerNext_quote {sp text : Bytes} (hpushed : lexer.pushed = false)
    (hpos : lexer.pos = sp ++ 34 :: text) (hsp : Blank sp) (hcr : CrBeforeLf (sp ++ 34 :: text))
    (want : Bool) :
    lexerNext lexer want =
      ({ lexer with
        pos := (quotedLoop lexer.literal.reset false text).2.2
        literal := (quotedLoop lexer.literal.reset false text).1, token := .literal },
        (quotedLoop lexer.literal.reset false text).2.1) := by
  have hskip : skipBlanks lexer.pos = 34 :: text := by
    rw [hpos]
    exact skipBlanks_spec hsp hcr fun d hd => by
      rw [← Option.some.inj hd]
      rfl
  rw [lexerNext, hpushed, if_neg Bool.false_ne_true]
  simp only [hskip]

theorem content_length_reset (literal : Dynbuf) : literal.reset.content.length = 0 := by
  rw [Dynbuf.content_reset, List.length_nil]

theorem lexerNext_quoted {sp body value rest : Bytes} (hpushed : lexer.pushed = false)
    (hpos : lexer.pos = sp ++ (34 :: (body ++ 34 :: rest))) (hsp : Blank sp)
    (hbody : Quoted body value) (hfits : value.length < lexer.literal.toobig)
    (hcr : CrBeforeLf (sp ++ (34 :: (body ++ 34 :: rest)))) (want : Bool) :
    ∃ literal, lexerNext lexer want = ({ lexer with pos := rest, literal, token := .literal },
      .ok) ∧ Added lexer.literal.reset literal value := by
  obtain ⟨literal, hloop, hadded⟩ := @quotedLoop_closed body value hbody lexer.literal.reset (by
    rw [content_length_reset, Nat.zero_add]
    exact hfits) rest
  refine ⟨literal, ?_, hadded⟩
  rw [lexerNext_quote hpushed hpos hsp hcr, hloop]

theorem lexerNext_literal {sp text value rest : Bytes} (hpushed : lexer.pushed = false)
    (hpos : lexer.pos = sp ++ (text ++ rest)) (hsp : Blank sp) (htext : Literal text value rest)
    (hfits : value.length < lexer.literal.toobig) (hcr : CrBeforeLf (sp ++ (text ++ rest))) :
    ∃ literal, lexerNext lexer true = ({ lexer with pos := rest, literal, token := .literal },
      .ok) ∧ Added lexer.literal.reset literal value := by
  cases htext with
  | word hword =>
    obtain ⟨literal, happend, hadded⟩ := @nappend_added lexer.literal.reset text (by
      rw [content_length_reset]
      exact hfits) hword.ne_nil
    refine ⟨literal, ?_, hadded⟩
    rw [lexerNext_word hpushed hpos hsp hword hcr, if_pos rfl, happend]
    rfl
  | @quoted body value rest hbody =>
    have happend : 34 :: (body ++ [34]) ++ rest = 34 :: (body ++ 34 :: rest) := by simp
    rw [happend] at hpos hcr
    exact lexerNext_quoted hpushed hpos hsp hbody hfits hcr true

theorem lexerNext_badQuoted {sp text : Bytes} (hpushed : lexer.pushed = false)
    (hpos : lexer.pos = sp ++ 34 :: text) (hsp : Blank sp)
    (htext : BadQuoted lexer.literal.toobig text) (hlimit : 0 < lexer.literal.toobig)
    (hcr : CrBeforeLf (sp ++ 34 :: text)) (want : Bool) :
    (lexerNext lexer want).2 = .syntaxError := by
  rw [lexerNext_quote hpushed hpos hsp hcr]
  exact quotedLoop_bad htext (by rw [content_length_reset]; exact hlimit)
    (by rw [content_length_reset, Nat.zero_add]; exact le_rfl)

theorem lexerNext_bad {sp text : Bytes} (hpushed : lexer.pushed = false)
    (hpos : lexer.pos = sp ++ text) (hsp : Blank sp)
    (htext : BadLiteral lexer.literal.toobig text) (hlimit : 0 < lexer.literal.toobig)
    (hcr : CrBeforeLf (sp ++ text)) : (lexerNext lexer true).2 = .syntaxError := by
  cases htext with
  | quoted hquoted => exact lexerNext_badQuoted hpushed hpos hsp hquoted hlimit hcr true
  | @word word rest hword hlong =>
    have herror : lexer.literal.reset.nappend word true = (lexer.literal.reset.free, .tooLarge) :=
      Dynbuf.nappend_error (by
        rw [content_length_reset]
        exact Nat.lt_succ_of_le hlong) true
    rw [lexerNext_word hpushed hpos hsp hword hcr, if_pos rfl, herror]
    rfl

theorem strnequal_length {word name : Bytes} :
    (word.length = name.length ∧ strnequal word name word.length = true) ↔
      strequal word name = true := by
  rw [strequal_iff, strnequal_iff, List.take_length]
  constructor
  · rintro ⟨hlength, hupper⟩
    rwa [hlength, List.take_length] at hupper
  · intro hupper
    have hlength : word.length = name.length := by
      rw [← length_upper word, hupper, length_upper]
    rw [hlength, List.take_length]
    exact ⟨rfl, hupper⟩

/-- `keyword` looks at whole words only. -/
theorem keyword_eq (word : Bytes) :
    keyword word =
      if strequal word (ascii "machine") then .machine
      else if strequal word (ascii "default") then .default
      else if strequal word (ascii "account") then .account
      else if strequal word (ascii "login") then .login
      else if strequal word (ascii "password") then .passwd
      else if strequal word (ascii "macdef") then .macdef
      else .junk := by
  simp only [← strnequal_length]
  rfl

theorem keyword_congr {a b : Bytes} (h : upper a = upper b) : keyword a = keyword b := by
  have hequal (name : Bytes) : strequal a name = strequal b name := by
    rw [Bool.eq_iff_iff, strequal_iff, strequal_iff, h]
  simp only [keyword_eq, hequal]

theorem keyword_of_isKeyword {token : Token} {word : Bytes} (h : IsKeyword token word) :
    keyword word = token := by
  obtain ⟨name, hname, hword⟩ := h
  rw [keyword_congr ((strequal_iff _ _).mp hword)]
  cases token with
  | eof | literal | junk => cases hname
  | machine | default | account | login | passwd | macdef =>
    obtain rfl := Option.some.inj hname
    decide

theorem isKeyword_of_keyword {word : Bytes} (h : keyword word ≠ .junk) :
    IsKeyword (keyword word) word := by
  rw [keyword_eq] at h ⊢
  split
  · exact ⟨_, rfl, ‹_›⟩
  split
  · exact ⟨_, rfl, ‹_›⟩
  split
  · exact ⟨_, rfl, ‹_›⟩
  split
  · exact ⟨_, rfl, ‹_›⟩
  split
  · exact ⟨_, rfl, ‹_›⟩
  split
  · exact ⟨_, rfl, ‹_›⟩
  · simp_all

theorem keyword_junk {word : Bytes} (h : ∀ token, ¬IsKeyword token word) :
    keyword word = .junk := by
  by_contra hne
  exact h _ (isKeyword_of_keyword hne)

end Gurl.Netrc
