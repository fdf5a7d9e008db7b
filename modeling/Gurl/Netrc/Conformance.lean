import Gurl.Netrc.Scan

/-! Every content has items, and the scan gives the credentials of its entries. -/

namespace Gurl.Netrc

open Strcase

theorem blank_split (s : Bytes) :
    ∃ sp rest, s = sp ++ rest ∧ Blank sp ∧ ∀ c ∈ rest.head?, isword c = true := by
  induction s with
  | nil => exact ⟨[], [], rfl, fun c hc => (List.not_mem_nil hc).elim, fun c hc => by cases hc⟩
  | cons c s ih =>
    cases hc : isword c with
    | true =>
      refine ⟨[], c :: s, rfl, fun d hd => (List.not_mem_nil hd).elim, fun d hd => ?_⟩
      rw [← Option.some.inj hd]
      exact hc
    | false =>
      obtain ⟨sp, rest, rfl, hsp, hrest⟩ := ih
      refine ⟨c :: sp, rest, rfl, fun d hd => ?_, hrest⟩
      rcases List.mem_cons.mp hd with rfl | hd
      · exact hc
      · exact hsp d hd

theorem word_split {c : UInt8} (s : Bytes) (hc : isword c = true) (hquote : c ≠ 34) :
    ∃ word rest, c :: s = word ++ rest ∧ Word word rest := by
  refine ⟨c :: s.takeWhile isword, s.dropWhile isword, ?_, List.cons_ne_nil _ _, fun d hd => ?_,
    fun heq => hquote (Option.some.inj heq), fun d hd => ?_⟩
  · rw [List.cons_append, List.takeWhile_append_dropWhile]
  · rcases List.mem_cons.mp hd with rfl | hd
    · exact hc
    · exact List.mem_takeWhile_imp hd
  · have hhead := List.head?_dropWhile_not isword s
    rw [Option.mem_def.mp hd] at hhead
    simpa using hhead

theorem Quoted.escape {body value : Bytes} (h : Quoted body value) (c : UInt8) :
    Quoted (92 :: c :: body) (unescape c :: value) := by
  unfold unescape
  split
  · rename_i hn
    rw [hn]
    exact .newline h
  split
  · rename_i hr
    rw [hr]
    exact .cr h
  split
  · rename_i ht
    rw [ht]
    exact .tab h
  · rename_i hn hr ht
    exact .other c hn hr ht h

/-- What follows a quote: the closing one, or the end of the file. -/
theorem quoted_split (text : Bytes) :
    (∃ body value rest, text = body ++ 34 :: rest ∧ Quoted body value) ∨
      ∃ body value, Quoted body value ∧ (text = body ∨ text = body ++ [92]) := by
  match text with
  | [] => exact .inr ⟨[], [], .nil, .inl rfl⟩
  | c :: text =>
    by_cases hquote : c = 34
    · subst hquote
      exact .inl ⟨[], [], text, rfl, .nil⟩
    by_cases hbackslash : c = 92
    · subst hbackslash
      match text with
      | [] => exact .inr ⟨[], [], .nil, .inr rfl⟩
      | c :: text =>
        rcases quoted_split text with ⟨body, value, rest, rfl, hq⟩ | ⟨body, value, hq, hend⟩
        · exact .inl ⟨92 :: c :: body, unescape c :: value, rest, rfl, hq.escape c⟩
        · refine .inr ⟨92 :: c :: body, unescape c :: value, hq.escape c, ?_⟩
          rcases hend with rfl | rfl
          · exact .inl rfl
          · exact .inr rfl
    · rcases quoted_split text with ⟨body, value, rest, rfl, hq⟩ | ⟨body, value, hq, hend⟩
      · exact .inl ⟨c :: body, c :: value, rest, rfl, .plain c hbackslash hquote hq⟩
      · refine .inr ⟨c :: body, c :: value, .plain c hbackslash hquote hq, ?_⟩
        rcases hend with rfl | rfl
        · exact .inl rfl
        · exact .inr rfl

theorem macro_split (s : Bytes) : ∃ text rest, s = text ++ rest ∧ MacroText text rest := by
  induction s with
  | nil => exact ⟨[], [], rfl, .eof⟩
  | cons c s ih =>
    by_cases hline : EmptyLine (c :: s)
    · obtain ⟨crs, rest, hcrs, heq⟩ := hline
      exact ⟨10 :: crs, 10 :: rest, heq, .empty hcrs⟩
    · obtain ⟨text, rest, rfl, htext⟩ := ih
      exact ⟨c :: text, rest, rfl, .byte c hline htext⟩

/-- What follows a quote is a literal within the limit, or a bad one. -/
theorem quoted_or_bad (limit : Nat) (text : Bytes) :
    (∃ body value rest, text = body ++ 34 :: rest ∧ Quoted body value ∧ value.length < limit) ∨
      BadQuoted limit text := by
  rcases quoted_split text with ⟨body, value, rest, rfl, hq⟩ | ⟨body, value, hq, rfl | rfl⟩
  · by_cases hfits : value.length < limit
    · exact .inl ⟨body, value, rest, rfl, hq, hfits⟩
    · exact .inr (.long hq (Nat.le_of_not_lt hfits))
  · exact .inr (.unclosed hq)
  · exact .inr (.escape hq)

theorem literal_or_bad (limit : Nat) {c : UInt8} (s : Bytes) (hc : isword c = true) :
    (∃ text value rest, c :: s = text ++ rest ∧ Literal text value rest ∧ value.length < limit) ∨
      BadLiteral limit (c :: s) := by
  by_cases hquote : c = 34
  · subst hquote
    rcases quoted_or_bad limit s with ⟨body, value, rest, rfl, hq, hfits⟩ | hbad
    · exact .inl ⟨34 :: (body ++ [34]), value, rest, by simp, .quoted hq, hfits⟩
    · exact .inr (.quoted hbad)
  · obtain ⟨word, rest, heq, hword⟩ := word_split s hc hquote
    rw [heq]
    by_cases hfits : word.length < limit
    · exact .inl ⟨word, word, rest, rfl, .word hword, hfits⟩
    · exact .inr (.word hword (Nat.le_of_not_lt hfits))

theorem Literal.length_pos {text value rest : Bytes} (h : Literal text value rest) :
    0 < text.length := by
  cases h with
  | word hword => exact hword.length_pos
  | quoted _ => exact Nat.succ_pos _

/-- The items behind a keyword that a literal follows. -/
theorem parses_key {limit : Nat} (k : Key) {sp word rest : Bytes} (hsp : Blank sp)
    (hword : Word word rest) (hkey : IsKeyword k.token word)
    (ih : ∀ s, s.length < rest.length → ∃ items stop, Parses limit s items stop) :
    ∃ items stop, Parses limit (sp ++ (word ++ rest)) items stop := by
  obtain ⟨sp', s, rfl, hsp', hs⟩ := blank_split rest
  cases s with
  | nil =>
    rw [List.append_nil] at hword ⊢
    exact ⟨_, _, .keyEof k hsp hword hkey hsp'⟩
  | cons c s =>
    rcases literal_or_bad limit s (hs c rfl) with ⟨text, value, rest, heq, htext, hfits⟩ | hbad
    · rw [heq] at hword ih ⊢
      have hpos := htext.length_pos
      obtain ⟨items, stop, hitems⟩ := ih rest (by simp only [List.length_append]; omega)
      exact ⟨_, _, .key k hsp hword hkey hsp' htext hfits hitems⟩
    · exact ⟨_, _, .keyBad k hsp hword hkey hsp' hbad⟩

/-- Every content is in the grammar, up to a syntax error. -/
theorem parses_total (limit : Nat) (content : Bytes) :
    ∃ items stop, Parses limit content items stop := by
  induction hn : content.length using Nat.strong_induction_on generalizing content with
  | _ n ih =>
    subst hn
    obtain ⟨sp, s, rfl, hsp, hs⟩ := blank_split content
    have ih' (s' : Bytes) (hless : s'.length < s.length) :
        ∃ items stop, Parses limit s' items stop :=
      ih s'.length (by rw [List.length_append]; omega) s' rfl
    cases s with
    | nil =>
      rw [List.append_nil]
      exact ⟨_, _, .eof hsp⟩
    | cons c s =>
      by_cases hquote : c = 34
      · subst hquote
        rcases quoted_or_bad limit s with ⟨body, value, rest, rfl, hq, hfits⟩ | hbad
        · obtain ⟨items, stop, hitems⟩ := ih' rest (by
            simp only [List.length_cons, List.length_append]
            omega)
          exact ⟨_, _, .quoted hsp hq hfits hitems⟩
        · exact ⟨_, _, .badQuoted hsp hbad⟩
      · obtain ⟨word, rest, heq, hword⟩ := word_split s (hs c rfl) hquote
        have hpos := hword.length_pos
        rw [heq, List.length_append] at ih'
        rw [heq]
        have hnext := ih' rest (by omega)
        have hkeyword (hne : keyword word ≠ .junk) := isKeyword_of_keyword hne
        cases hkey : keyword word with
        | junk =>
          obtain ⟨items, stop, hitems⟩ := hnext
          refine ⟨_, _, .junk hsp hword (fun token htoken => ?_) hitems⟩
          rw [keyword_of_isKeyword htoken] at hkey
          subst hkey
          obtain ⟨name, hname, -⟩ := htoken
          cases hname
        | eof | literal =>
          rw [hkey] at hkeyword
          obtain ⟨name, hname, -⟩ := hkeyword (by decide)
          cases hname
        | default =>
          rw [hkey] at hkeyword
          obtain ⟨items, stop, hitems⟩ := hnext
          exact ⟨_, _, .default hsp hword (hkeyword (by decide)) hitems⟩
        | macdef =>
          rw [hkey] at hkeyword
          obtain ⟨text, rest, rfl, htext⟩ := macro_split rest
          obtain ⟨items, stop, hitems⟩ := ih' rest (by rw [List.length_append]; omega)
          exact ⟨_, _, .macdef hsp hword (hkeyword (by decide)) htext hitems⟩
        | machine =>
          rw [hkey] at hkeyword
          exact parses_key .machine hsp hword (hkeyword (by decide)) fun s' hless =>
            ih' s' (by omega)
        | login =>
          rw [hkey] at hkeyword
          exact parses_key .login hsp hword (hkeyword (by decide)) fun s' hless => ih' s' (by omega)
        | passwd =>
          rw [hkey] at hkeyword
          exact parses_key .passwd hsp hword (hkeyword (by decide)) fun s' hless =>
            ih' s' (by omega)
        | account =>
          rw [hkey] at hkeyword
          exact parses_key .account hsp hword (hkeyword (by decide)) fun s' hless =>
            ih' s' (by omega)

/-- Credentials come from an entry that applies. -/
theorem mem_entries_of_decided {es : List Entry} {stop : Stop} {host : Bytes}
    {user : Option Bytes} {code : Code} {creds : Creds}
    (h : decided es stop host user = (code, some creds)) :
    ∃ e ∈ es, e.applies host = true ∧ creds = e.creds user := by
  unfold decided at h
  cases hfind : es.find? fun e => e.applies host && e.decides user with
  | none =>
    rw [hfind] at h
    cases (Prod.mk.inj h).2
  | some e =>
    rw [hfind] at h
    have hboth := List.find?_some hfind
    rw [Bool.and_eq_true] at hboth
    exact ⟨e, List.mem_of_find?_eq_some hfind, hboth.1, (Option.some.inj (Prod.mk.inj h).2).symm⟩

/-- The scan of a content gives the credentials of the first entry of its grammar that applies to
the host and decides for the user, and never those of an entry of another host. -/
theorem netrc_scan_grammar (content host : Bytes) (user : Option Bytes)
    (hcr : CrBeforeLf content) (hhost : host ≠ [])
    (huser : (user.getD []).length ≤ curlMaxInputLength) :
    (∃ items stop, Parses maxNetrcToken content items stop) ∧
      (∀ items stop, Parses maxNetrcToken content items stop → Ready false items = true →
        netrcScan content host user = some (outcome items stop host user)) ∧
      ∀ code creds, netrcScan content host user = some (code, some creds) →
        ∃ items stop, Parses maxNetrcToken content items stop ∧ ∃ e ∈ entries none items stop,
          e.applies host = true ∧ creds = e.creds (user.filter (· ≠ [])) := by
  refine ⟨parses_total _ content, fun items stop hitems hready => ?_, fun code creds hscan => ?_⟩
  · rw [netrcScan_eq_outcome hhost huser hitems hcr, if_pos hready]
  · obtain ⟨items, stop, hitems⟩ := parses_total maxNetrcToken content
    refine ⟨items, stop, hitems, ?_⟩
    rw [netrcScan_eq_outcome hhost huser hitems hcr] at hscan
    split at hscan
    · exact mem_entries_of_decided (Option.some.inj hscan)
    · cases hscan

/-- `default login "u\t"`. -/
def quotedLogin : Bytes :=
  [] ++ ([100, 101, 102, 97, 117, 108, 116] ++ ([32] ++ ([108, 111, 103, 105, 110] ++ ([32] ++
    ((34 :: ([117, 92, 116] ++ [34])) ++ [])))))

set_option maxRecDepth 2000 in
theorem parses_quotedLogin :
    Parses maxNetrcToken quotedLogin [.default, .login [117, 9]] .eof := by
  refine .default (fun c hc => (List.not_mem_nil hc).elim)
    ⟨by decide, by decide, by decide, by simp [isword, isblank]⟩
    ⟨_, rfl, by decide⟩ ?_
  refine .key .login (fun c hc => by rw [List.mem_singleton.mp hc]; rfl)
    ⟨by decide, by decide, by decide, by simp [isword, isblank]⟩
    ⟨_, rfl, by decide⟩ (fun c hc => by rw [List.mem_singleton.mp hc]; rfl)
    (.quoted (.plain 117 (by decide) (by decide) (.tab .nil))) (by decide) ?_
  exact .eof fun c hc => (List.not_mem_nil hc).elim

theorem netrc_scan_grammar_default :
    netrcScan quotedLogin [104] none = some (.ok, some ⟨[117, 9], []⟩) := by
  have hcr : CrBeforeLf quotedLogin := by
    intro p rest heq
    have hmem : (13 : UInt8) ∈ quotedLogin := by
      rw [heq]
      exact List.mem_append_right _ List.mem_cons_self
    have hnot : (13 : UInt8) ∉ quotedLogin := by decide +kernel
    exact (hnot hmem).elim
  exact (netrc_scan_grammar quotedLogin [104] none hcr (by decide) (by decide)).2.1 _ _
    parses_quotedLogin (by decide)

/-- `default password` and a password of some bytes. -/
def longPassword (n : Nat) : Bytes :=
  [] ++ ([100, 101, 102, 97, 117, 108, 116] ++ ([32] ++
    ([112, 97, 115, 115, 119, 111, 114, 100] ++ ([32] ++ (List.replicate (n + 1) 120 ++ [])))))

set_option maxRecDepth 2000 in
theorem parses_longPassword (limit n : Nat) :
    (n + 1 < limit →
      Parses limit (longPassword n) [.default, .passwd (.replicate (n + 1) 120)] .eof) ∧
      (limit ≤ n + 1 → Parses limit (longPassword n) [.default, .junk] .syntaxError) := by
  have hspace (s : Bytes) : ∀ c ∈ (32 :: s).head?, isword c = false := fun c hc => by
    rw [← Option.some.inj hc]
    rfl
  have hblank : Blank [32] := fun c hc => by
    rw [List.mem_singleton.mp hc]
    rfl
  have hkey : IsKeyword Key.passwd.token [112, 97, 115, 115, 119, 111, 114, 100] :=
    ⟨_, rfl, by decide⟩
  have hvalue : Word (List.replicate (n + 1) 120) [] :=
    ⟨by simp, fun c hc => by rw [List.eq_of_mem_replicate hc]; rfl, by simp [List.replicate_succ],
      fun c hc => by cases hc⟩
  constructor
  · intro hfits
    exact .default (fun c hc => (List.not_mem_nil hc).elim)
      ⟨by decide, by decide, by decide, hspace _⟩ ⟨_, rfl, by decide⟩
      (.key .passwd hblank ⟨by decide, by decide, by decide, hspace _⟩ hkey
        hblank (.word hvalue) (by rw [List.length_replicate]; exact hfits)
        (.eof fun c hc => (List.not_mem_nil hc).elim))
  · intro hlong
    exact .default (fun c hc => (List.not_mem_nil hc).elim)
      ⟨by decide, by decide, by decide, hspace _⟩ ⟨_, rfl, by decide⟩
      (.keyBad .passwd hblank ⟨by decide, by decide, by decide, hspace _⟩ hkey
        hblank (.word hvalue (by rw [List.length_replicate]; exact hlong)))

set_option maxRecDepth 2000 in
theorem mem_longPassword {n : Nat} {c : UInt8} (hc : c ∈ longPassword n) : c ≠ 0 ∧ c ≠ 13 := by
  have hnames : ∀ c ∈ [100, 101, 102, 97, 117, 108, 116] ++ ([32] ++
      [112, 97, 115, 115, 119, 111, 114, (100 : UInt8)]), c ≠ 0 ∧ c ≠ 13 := by decide
  simp only [longPassword, List.nil_append, List.append_nil, List.mem_append] at hc hnames
  rcases hc with hc | hc | hc | hc | hc
  · exact hnames c (.inl hc)
  · exact hnames c (.inr (.inl hc))
  · exact hnames c (.inr (.inr hc))
  · exact hnames c (.inr (.inl hc))
  · rw [List.eq_of_mem_replicate hc]
    decide

/-- The grammar has no bound on the length of a literal, but the lexer has one. -/
theorem long_password_rejected :
    ¬∀ content items host user, 0 ∉ content → CrBeforeLf content →
      (∃ limit, Parses limit content items .eof) →
      netrcScan content host user = some (outcome items .eof host user) := by
  intro hall
  have hcr : CrBeforeLf (longPassword 4095) := by
    intro p rest heq
    refine ((@mem_longPassword 4095 13 ?_).2 rfl).elim
    rw [heq]
    exact List.mem_append_right _ List.mem_cons_self
  have hclaim :=
    hall (longPassword 4095) _ [104] none (fun hzero => (mem_longPassword hzero).1 rfl) hcr
    ⟨5000, (parses_longPassword 5000 4095).1 (by decide)⟩
  have hcode := @netrcScan_eq_outcome [104] none _ _ _ (by decide) (by decide)
    ((parses_longPassword maxNetrcToken 4095).2 (by decide)) hcr
  rw [hclaim, if_pos (by decide), Option.some.injEq] at hcode
  have hfirst := congrArg Prod.fst hcode
  cases hfirst

end Gurl.Netrc
