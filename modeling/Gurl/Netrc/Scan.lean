import Gurl.Netrc.Entries

/-! The scan of a file gives what the entries of its grammar give. -/

namespace Gurl.Netrc

open Strcase

variable {host : Bytes} {user : Option Bytes} {cur : Option Entry} {sc : Scanner}
  {fuel : Nat} {lexer : Lexer}

/-- The loop goes on behind a token. -/
def scanOn (fuel : Nat) (r : Scanner × Code) : Option (Scanner × Code) :=
  if r.2 = .ok then scanLoop fuel r.1 else some r

theorem scanOn_ok (sc : Scanner) : scanOn fuel (sc, .ok) = scanLoop fuel sc := rfl

theorem bind_scanToken (r : Option (Scanner × Code)) :
    (do match ← r with
      | (sc, .ok) => scanLoop fuel sc
      | (sc, rc) => some (sc, rc)) = r.bind (scanOn fuel) := by
  rcases r with _ | ⟨sc, rc⟩
  · rfl
  · cases rc <;> rfl

theorem scanLoop_error (hfound : sc.found = false)
    (hnext : (lexerNext sc.lexer false).2 = .syntaxError) :
    (scanLoop (fuel + 1) sc).map finish = some (.syntaxError, none) := by
  rw [scanLoop, if_neg (by rw [hfound]; exact Bool.false_ne_true)]
  generalize lexerNext sc.lexer false = next at hnext
  obtain ⟨lexer, rc⟩ := next
  obtain rfl : rc = .syntaxError := hnext
  rfl

theorem scanLoop_inside (hfound : sc.found = false)
    (hnext : lexerNext sc.lexer false = (lexer, .ok)) (hends : endsEntry lexer.token = false) :
    scanLoop (fuel + 1) sc = (scanToken { sc with lexer }).bind (scanOn fuel) := by
  have heof : lexer.token ≠ .eof := fun heq => by
    rw [heq] at hends
    cases hends
  rw [scanLoop, if_neg (by rw [hfound]; exact Bool.false_ne_true), hnext]
  simp only [hends, Bool.false_eq_true, if_false, false_and, heof]
  exact bind_scanToken _

/-- A token that ends the entry before it. -/
theorem scanLoop_ends (hfound : sc.found = false)
    (huser : (user.getD []).length ≤ curlMaxInputLength)
    (hnext : lexerNext sc.lexer false = (lexer, .ok)) (hends : endsEntry lexer.token = true)
    (htracks : Tracks host user cur { sc with lexer }) :
    match decider host user cur with
    | some e => (scanLoop (fuel + 1) sc).map finish = some (.ok, some (e.creds user)) ∧
        lexer.literal.bufr.isSome = true
    | none => ∃ sc', Tracks host user none sc' ∧ sc'.lexer = lexer ∧
        scanLoop (fuel + 1) sc =
          if lexer.token = .eof then some (sc', .ok) else (scanToken sc').bind (scanOn fuel) := by
  obtain ⟨sc', hentry, hdecider⟩ := scanEndEntry_spec htracks huser
  have hloop : scanLoop (fuel + 1) sc =
      if sc'.found then some (sc', .ok)
      else if lexer.token = .eof then some (sc', .ok) else (scanToken sc').bind (scanOn fuel) := by
    rw [scanLoop, if_neg (by rw [hfound]; exact Bool.false_ne_true), hnext]
    simp only [hends, if_true, hentry, true_and]
    exact if_congr Iff.rfl rfl (if_congr Iff.rfl rfl (bind_scanToken _))
  cases hd : decider host user cur with
  | some e =>
    rw [hd] at hdecider
    obtain ⟨hfound, hcreds, hbufr⟩ := hdecider
    refine ⟨?_, hbufr⟩
    rw [hloop, if_pos hfound, Option.map_some, finish, hcreds]
    rfl
  | none =>
    rw [hd] at hdecider
    obtain ⟨hnone, hlexer⟩ := hdecider
    refine ⟨sc', hnone, hlexer, ?_⟩
    rw [hloop, if_neg (by rw [hnone.found]; exact Bool.false_ne_true)]

theorem Tracks.finish_none (h : Tracks host user cur sc) : finish (sc, .ok) = (.noMatch, none) := by
  rw [finish, h.creds]
  rfl

/-- The end of the file, or a keyword without a literal in front of it. -/
theorem scanLoop_eof (hfound : sc.found = false)
    (huser : (user.getD []).length ≤ curlMaxInputLength)
    (hnext : lexerNext sc.lexer false = (lexer, .ok)) (heof : lexer.token = .eof)
    (htracks : Tracks host user cur { sc with lexer }) :
    (scanLoop (fuel + 1) sc).map finish = some (decided cur.toList .eof host user) := by
  have hends :=
    @scanLoop_ends host user cur sc fuel lexer hfound huser hnext (by rw [heof]; rfl) htracks
  have happend := @decided_append host user cur [] .eof
  rw [List.append_nil] at happend
  rw [happend]
  cases hd : decider host user cur with
  | some e =>
    rw [hd] at hends
    exact hends.1
  | none =>
    rw [hd] at hends
    obtain ⟨sc', hnone, -, hloop⟩ := hends
    rw [hloop, if_pos heof, Option.map_some, hnone.finish_none]
    rfl

/-- What the scan of some items gives: nothing where an empty value is stored before there is memory
for it. -/
def Scans (host : Bytes) (user : Option Bytes) (fuel : Nat) (cur : Option Entry)
    (sc : Scanner) (items : List Item) (stop : Stop) : Prop :=
  (scanLoop fuel sc).map finish =
    if sc.lexer.literal.bufr.isSome || Ready sc.matchesHost items
    then some (decided (entries cur items stop) stop host user) else none

/-- A literal that is not stored. -/
theorem scanLiteral_none {sp text value rest : Bytes} (h : Tracks host user cur sc)
    (hpos : sc.lexer.pos = sp ++ (text ++ rest)) (hsp : Blank sp) (htext : Literal text value rest)
    (hfits : value.length < maxNetrcToken) (hcr : CrBeforeLf (sp ++ (text ++ rest))) :
    ∃ literal, Added sc.lexer.literal.reset literal value ∧
      scanLiteral sc none = some ({ sc with lexer := { sc.lexer with
        pos := rest, literal, token := .literal } }, .ok) := by
  obtain ⟨literal, hnext, hadded⟩ :=
    lexerNext_literal h.pushed hpos hsp htext (by rw [h.toobig]; exact hfits) hcr
  refine ⟨literal, hadded, ?_⟩
  rw [scanLiteral, hnext]
  rfl

/-- A literal that is stored where the entry is about the host. -/
theorem scanLiteral_some {sp text value rest : Bytes} (h : Tracks host user cur sc)
    (hpos : sc.lexer.pos = sp ++ (text ++ rest)) (hsp : Blank sp) (htext : Literal text value rest)
    (hfits : value.length < maxNetrcToken) (hcr : CrBeforeLf (sp ++ (text ++ rest)))
    (store : Scanner → Bytes → Scanner) :
    ∃ literal, Added sc.lexer.literal.reset literal value ∧
      scanLiteral sc (some store) =
        if sc.matchesHost = false then
          some ({ sc with lexer := { sc.lexer with pos := rest, literal, token := .literal } }, .ok)
        else if sc.lexer.literal.bufr.isSome || value ≠ [] then
          some (store { sc with lexer := { sc.lexer with
            pos := rest, literal, token := .literal } } value, .ok)
        else none := by
  obtain ⟨literal, hnext, hadded⟩ :=
    lexerNext_literal h.pushed hpos hsp htext (by rw [h.toobig]; exact hfits) hcr
  refine ⟨literal, hadded, ?_⟩
  rw [scanLiteral, hnext]
  simp only [if_true, hadded.bufr_eq]
  cases sc.matchesHost with
  | false => rfl
  | true =>
    simp only [if_true, Bool.true_eq_false, if_false]
    split <;> rfl

/-- A keyword with nothing behind it leaves the end of the file for the next round. -/
theorem scanLiteral_eof {sp : Bytes} (h : Tracks host user cur sc) (hpos : sc.lexer.pos = sp)
    (hsp : Blank sp) (hcr : CrBeforeLf sp) (store : Option (Scanner → Bytes → Scanner)) :
    scanLiteral sc store = some ({ sc with lexer := { sc.lexer with
      pos := [], literal := sc.lexer.literal.reset, token := .eof, pushed := true } }, .ok) := by
  rw [scanLiteral, lexerNext_eof h.pushed hpos hsp hcr]
  rfl

theorem scanLiteral_bad {sp text : Bytes} (h : Tracks host user cur sc)
    (hpos : sc.lexer.pos = sp ++ text) (hsp : Blank sp) (htext : BadLiteral maxNetrcToken text)
    (hcr : CrBeforeLf (sp ++ text)) (store : Option (Scanner → Bytes → Scanner)) :
    ∃ sc', scanLiteral sc store = some (sc', .syntaxError) := by
  have hbad := lexerNext_bad h.pushed hpos hsp (by rw [h.toobig]; exact htext)
    (by rw [h.toobig]; decide) hcr
  rw [scanLiteral]
  generalize lexerNext sc.lexer true = next at hbad
  obtain ⟨lexer, rc⟩ := next
  obtain rfl : rc = .syntaxError := hbad
  exact ⟨_, rfl⟩

/-- A keyword that ends the entry before it, and what the scanner does with it where that entry
gives no credentials. -/
theorem scanLoop_boundary {sp word rest : Bytes} {es : List Entry} {stop : Stop} {ready : Bool}
    (h : Tracks host user cur sc) (huser : (user.getD []).length ≤ curlMaxInputLength)
    (hpos : sc.lexer.pos = sp ++ (word ++ rest)) (hsp : Blank sp) (hword : Word word rest)
    (hcr : CrBeforeLf (sp ++ (word ++ rest))) {token : Token} (hkey : IsKeyword token word)
    (hends : endsEntry token = true)
    (hon : ∀ sc', Tracks host user none sc' →
      sc'.lexer = { sc.lexer with pos := rest, literal := sc.lexer.literal.reset, token } →
      ((scanToken sc').bind (scanOn fuel)).map finish =
        if sc.lexer.literal.bufr.isSome || ready then some (decided es stop host user) else none) :
    (scanLoop (fuel + 1) sc).map finish =
      if sc.lexer.literal.bufr.isSome || ready
      then some (decided (cur.toList ++ es) stop host user) else none := by
  have htoken := keyword_of_isKeyword hkey
  have hnext := lexerNext_word h.pushed hpos hsp hword hcr false
  rw [if_neg Bool.false_ne_true, htoken] at hnext
  have hstep := @scanLoop_ends host user cur sc fuel _ h.found huser hnext hends (h.next rest token)
  rw [decided_append]
  cases hd : decider host user cur with
  | some e =>
    rw [hd] at hstep
    obtain ⟨hloop, hbufr⟩ := hstep
    rw [reset_isSome] at hbufr
    rw [hloop, hbufr, Bool.true_or, if_pos rfl]
  | none =>
    rw [hd] at hstep
    obtain ⟨sc', hnone, hlexer, hloop⟩ := hstep
    have heof : token ≠ .eof := fun heq => by
      rw [heq] at hkey
      obtain ⟨name, hname, -⟩ := hkey
      cases hname
    rw [hloop, if_neg heof]
    exact hon sc' hnone hlexer

/-- A keyword inside an entry. -/
theorem scanLoop_keyword {sp word rest : Bytes} (h : Tracks host user cur sc)
    (hpos : sc.lexer.pos = sp ++ (word ++ rest)) (hsp : Blank sp) (hword : Word word rest)
    (hcr : CrBeforeLf (sp ++ (word ++ rest))) {token : Token} (hkey : keyword word = token)
    (hends : endsEntry token = false) :
    scanLoop (fuel + 1) sc = (scanToken { sc with lexer := { sc.lexer with
      pos := rest, literal := sc.lexer.literal.reset, token } }).bind (scanOn fuel) := by
  have hnext := lexerNext_word h.pushed hpos hsp hword hcr false
  rw [if_neg Bool.false_ne_true, hkey] at hnext
  exact scanLoop_inside h.found hnext hends

theorem Word.length_pos {word rest : Bytes} (h : Word word rest) : 0 < word.length :=
  List.length_pos_iff.mpr h.ne_nil

/-- The entry of a host name. -/
theorem Tracks.machine {value pos : Bytes} {literal : Dynbuf} (h : Tracks host user none sc)
    (hadded : Added sc.lexer.literal.reset literal value) (hhost : host ≠ []) (token : Token) :
    Tracks host user (some ⟨some value, none, none⟩) { sc with
      lexer := { sc.lexer with pos, literal, token }
      matchesHost := (literal.bufr.map (strequal host)).getD false } := by
  have hmatches : (literal.bufr.map (strequal host)).getD false = strequal host value := by
    rw [hadded.bufr_eq]
    split
    · rfl
    · rename_i hnone
      have hempty : value = [] := by
        by_contra hne
        simp [hne] at hnone
      obtain ⟨c, cs, rfl⟩ := List.exists_cons_of_ne_nil hhost
      rw [hempty]
      rfl
  have hbase := h.literal pos hadded token
  refine ⟨hbase.pushed, hbase.toobig, hbase.hostname, hbase.user_eq, hbase.creds,
    hbase.found, ?_, ?_, ?_, hbase.short, hbase.stored⟩
  · rw [hmatches]
    cases hequal : strequal host value <;> simp [Option.filter, Entry.applies, hequal]
  · rw [hbase.login]
    cases hequal : strequal host value <;> simp [Option.filter, Entry.applies, hequal]
  · rw [hbase.passwd]
    cases hequal : strequal host value <;> simp [Option.filter, Entry.applies, hequal]

theorem Tracks.default (h : Tracks host user none sc) :
    Tracks host user (some ⟨none, none, none⟩) { sc with matchesHost := true } where
  pushed := h.pushed
  toobig := h.toobig
  hostname := h.hostname
  user_eq := h.user_eq
  creds := h.creds
  found := h.found
  matches_eq := rfl
  login := h.login
  passwd := h.passwd
  short := h.short
  stored := h.stored

theorem filter_map_applies (cur : Option Entry) {f : Entry → Entry}
    (hf : ∀ e, (f e).name = e.name) :
    (cur.map f).filter (·.applies host) = (cur.filter (·.applies host)).map f := by
  cases cur with
  | none => rfl
  | some e =>
    have hsame : (f e).applies host = e.applies host := by rw [Entry.applies, hf, Entry.applies]
    rw [Option.map_some, Option.filter_some, Option.filter_some, hsame]
    split <;> rfl

/-- A value of an entry that is not about the host. -/
theorem Tracks.skip (h : Tracks host user cur sc) (hmatches : sc.matchesHost = false)
    {f : Entry → Entry} (hf : ∀ e, (f e).name = e.name) : Tracks host user (cur.map f) sc := by
  have hcur : cur.filter (·.applies host) = none := by
    rw [h.matches_eq] at hmatches
    exact Option.not_isSome_iff_eq_none.mp (by rw [hmatches]; exact Bool.false_ne_true)
  refine ⟨h.pushed, h.toobig, h.hostname, h.user_eq, h.creds, h.found, ?_, ?_, ?_,
    h.short, h.stored⟩
  · rw [filter_map_applies cur hf, hcur, h.matches_eq, hcur]
    rfl
  · rw [filter_map_applies cur hf, hcur, h.login, hcur]
    rfl
  · rw [filter_map_applies cur hf, hcur, h.passwd, hcur]
    rfl

theorem Tracks.storeLogin {value : Bytes} (h : Tracks host user cur sc)
    (hmatches : sc.matchesHost = true) (hfits : value.length < maxNetrcToken)
    (hbufr : sc.lexer.literal.bufr.isSome = true) :
    Tracks host user (cur.map fun e => { e with login := some value })
      { sc with login := some value } := by
  obtain ⟨e, hcur⟩ := Option.isSome_iff_exists.mp (h.matches_eq.symm.trans hmatches)
  have hfilter := @filter_map_applies host cur (fun e => { e with login := some value }) fun _ =>
    rfl
  rw [hcur, Option.map_some] at hfilter
  have hpasswd := h.passwd
  rw [hcur] at hpasswd
  exact ⟨h.pushed, h.toobig, h.hostname, h.user_eq, h.creds, h.found,
    by rw [hfilter]; exact hmatches,
    by rw [hfilter]; rfl, by rw [hfilter]; exact hpasswd, ⟨hfits, h.short.2⟩, fun _ => hbufr⟩

theorem Tracks.storePasswd {value : Bytes} (h : Tracks host user cur sc)
    (hmatches : sc.matchesHost = true) (hfits : value.length < maxNetrcToken)
    (hbufr : sc.lexer.literal.bufr.isSome = true) :
    Tracks host user (cur.map fun e => { e with passwd := some value })
      { sc with passwd := some value } := by
  obtain ⟨e, hcur⟩ := Option.isSome_iff_exists.mp (h.matches_eq.symm.trans hmatches)
  have hfilter := @filter_map_applies host cur (fun e => { e with passwd := some value }) fun _ =>
    rfl
  rw [hcur, Option.map_some] at hfilter
  have hlogin := h.login
  rw [hcur] at hlogin
  exact ⟨h.pushed, h.toobig, h.hostname, h.user_eq, h.creds, h.found,
    by rw [hfilter]; exact hmatches,
    by rw [hfilter]; exact hlogin, by rw [hfilter]; rfl, ⟨h.short.1, hfits⟩, fun _ => hbufr⟩

/-- `login` or `password` with its value, where the scan goes on as it should. -/
theorem scans_value {sp word sp' text value rest : Bytes} {token : Token} {items : List Item}
    {stop : Stop} {store : Scanner → Bytes → Scanner} {f : Entry → Entry}
    (h : Tracks host user cur sc) (hpos : sc.lexer.pos = sp ++ (word ++ (sp' ++ (text ++ rest))))
    (hsp : Blank sp) (hword : Word word (sp' ++ (text ++ rest))) (hkey : keyword word = token)
    (hends : endsEntry token = false) (hsp' : Blank sp') (htext : Literal text value rest)
    (hfits : value.length < maxNetrcToken)
    (hcr : CrBeforeLf (sp ++ (word ++ (sp' ++ (text ++ rest)))))
    (htoken : ∀ lexer, lexer.token = token →
      scanToken { sc with lexer } = scanLiteral { sc with lexer } (some store))
    (hf : ∀ e, (f e).name = e.name)
    (hstore : ∀ sc', Tracks host user cur sc' → sc'.matchesHost = true →
      sc'.lexer.literal.bufr.isSome = true → Tracks host user (cur.map f) (store sc' value) ∧
        (store sc' value).lexer = sc'.lexer)
    (hon : ∀ sc', Tracks host user (cur.map f) sc' → sc'.lexer.pos = rest →
      Scans host user fuel (cur.map f) sc' items stop) :
    (scanLoop (fuel + 1) sc).map finish =
      if sc.lexer.literal.bufr.isSome ||
        (value ≠ [] || !sc.matchesHost && Ready sc.matchesHost items)
      then some (decided (entries (cur.map f) items stop) stop host user) else none := by
  rw [scanLoop_keyword h hpos hsp hword hcr hkey hends, htoken _ rfl]
  obtain ⟨literal, hadded, hscan⟩ := scanLiteral_some (h.next _ token) rfl hsp' htext hfits
    hcr.suffix.suffix store
  have htracks := (h.next (sp' ++ (text ++ rest)) token).literal rest hadded .literal
  have hbufr := hadded.bufr
  simp only [reset_isSome] at hbufr hscan
  rw [hscan]
  cases hmatches : sc.matchesHost with
  | false =>
    have hscans := hon _ (htracks.skip hmatches hf) rfl
    simp only [Scans, hbufr, hmatches, Bool.or_assoc] at hscans
    simp only [if_true, Option.bind_some, scanOn_ok, Bool.not_false, Bool.true_and]
    exact hscans
  | true =>
    simp only [Bool.true_eq_false, if_false, Bool.not_true, Bool.false_and, Bool.or_false]
    cases hready : sc.lexer.literal.bufr.isSome || decide (value ≠ []) with
    | false => rfl
    | true =>
      rw [hready] at hbufr
      obtain ⟨hstored, hlexer⟩ := hstore _ htracks hmatches hbufr
      have hscans := hon _ hstored (by rw [hlexer])
      rw [Scans, hlexer, hbufr, Bool.true_or, hmatches] at hscans
      simp only [if_true, Option.bind_some, scanOn_ok] at hscans ⊢
      exact hscans

theorem Scans.of_ready {items : List Item} {stop : Stop}
    (hready : Ready sc.matchesHost items = true)
    (h : (scanLoop fuel sc).map finish = some (decided (entries cur items stop) stop host user)) :
    Scans host user fuel cur sc items stop := by
  rw [Scans, hready, Bool.or_true, if_pos rfl]
  exact h

/-- A round that finds the end of the file, which the round before it has pushed back. -/
theorem scanLoop_pushed (h : Tracks host user cur sc)
    (huser : (user.getD []).length ≤ curlMaxInputLength) :
    (scanLoop (fuel + 1) { sc with lexer := { sc.lexer with
      pos := [], literal := sc.lexer.literal.reset, token := .eof, pushed := true } }).map finish =
      some (decided cur.toList .eof host user) := by
  refine @scanLoop_eof host user cur _ fuel { sc.lexer with
    pos := [], literal := sc.lexer.literal.reset, token := .eof } h.found huser ?_ rfl
      (h.next [] .eof)
  have hpushed : false = sc.lexer.pushed := h.pushed.symm
  rw [lexerNext, if_pos rfl]
  simp only [hpushed]

/-- A keyword other than `machine` stays in its entry and reads a literal. -/
theorem Key.inside (k : Key) : k = .machine ∨ endsEntry k.token = false ∧ k.bare = .junk ∧
    ∃ store, ∀ sc : Scanner, sc.lexer.token = k.token → scanToken sc = scanLiteral sc store := by
  cases k with
  | machine => exact .inl rfl
  | login | passwd | account =>
    exact .inr ⟨rfl, rfl, _, fun sc htoken => by rw [scanToken, htoken]; rfl⟩

/-- A keyword with nothing behind it. -/
theorem scans_bare (k : Key) {sp word sp' : Bytes} (h : Tracks host user cur sc)
    (huser : (user.getD []).length ≤ curlMaxInputLength)
    (hpos : sc.lexer.pos = sp ++ (word ++ sp')) (hsp : Blank sp) (hword : Word word sp')
    (hkey : IsKeyword k.token word) (hsp' : Blank sp') (hcr : CrBeforeLf (sp ++ (word ++ sp'))) :
    Scans host user (fuel + 2) cur sc [k.bare] .eof := by
  have htoken := keyword_of_isKeyword hkey
  obtain rfl | ⟨hends, hbare, store, hscan⟩ := k.inside
  · refine @scanLoop_boundary host user cur sc _ sp word sp' [] .eof true h huser hpos hsp hword hcr
      _ hkey rfl fun sc' hnone hlexer => ?_
    have hpos' : sc'.lexer.pos = sp' := by rw [hlexer]
    have htok : sc'.lexer.token = .machine := by rw [hlexer]; rfl
    have hscan : scanToken sc' = some ({ sc' with lexer := { sc'.lexer with
        pos := [], literal := sc'.lexer.literal.reset, token := .eof, pushed := true } }, .ok) := by
      have hmatches : false = sc'.matchesHost := hnone.matches_eq.symm
      rw [scanToken, htok]
      simp only [lexerNext_eof hnone.pushed hpos' hsp' hcr.suffix.suffix]
      rw [if_neg (by decide), hmatches]
    rw [hscan, Option.bind_some, scanOn_ok, scanLoop_pushed hnone huser, Bool.or_true, if_pos rfl]
    rfl
  · rw [hbare]
    refine Scans.of_ready rfl ?_
    rw [scanLoop_keyword h hpos hsp hword hcr htoken hends, hscan _ rfl,
      scanLiteral_eof (h.next sp' k.token) rfl hsp' hcr.suffix.suffix store,
        Option.bind_some, scanOn_ok]
    exact scanLoop_pushed (h.next sp' k.token) huser

/-- A keyword with a literal behind it that cannot be read. -/
theorem scans_bad (k : Key) {sp word sp' text : Bytes} (h : Tracks host user cur sc)
    (huser : (user.getD []).length ≤ curlMaxInputLength)
    (hpos : sc.lexer.pos = sp ++ (word ++ (sp' ++ text))) (hsp : Blank sp)
    (hword : Word word (sp' ++ text)) (hkey : IsKeyword k.token word) (hsp' : Blank sp')
    (htext : BadLiteral maxNetrcToken text) (hcr : CrBeforeLf (sp ++ (word ++ (sp' ++ text)))) :
    Scans host user (fuel + 1) cur sc [k.bare] .syntaxError := by
  have htoken := keyword_of_isKeyword hkey
  obtain rfl | ⟨hends, hbare, store, hscan⟩ := k.inside
  · refine @scanLoop_boundary host user cur sc _ sp word (sp' ++ text) [] .syntaxError true h huser
      hpos hsp hword hcr _ hkey rfl fun sc' hnone hlexer => ?_
    have hpos' : sc'.lexer.pos = sp' ++ text := by rw [hlexer]
    have htok : sc'.lexer.token = .machine := by rw [hlexer]; rfl
    have hbad := lexerNext_bad hnone.pushed hpos' hsp' (by rw [hnone.toobig]; exact htext)
      (by rw [hnone.toobig]; decide) hcr.suffix.suffix
    rw [scanToken, htok]
    simp only
    generalize lexerNext sc'.lexer true = next at hbad
    obtain ⟨lexer, rc⟩ := next
    obtain rfl : rc = .syntaxError := hbad
    rw [Bool.or_true, if_pos rfl]
    rfl
  · rw [hbare]
    refine Scans.of_ready rfl ?_
    obtain ⟨sc', herror⟩ := scanLiteral_bad (h.next (sp' ++ text) k.token) rfl hsp' htext
      hcr.suffix.suffix store
    rw [scanLoop_keyword h hpos hsp hword hcr htoken hends, hscan _ rfl, herror]
    rfl

/-- A keyword with its literal. -/
theorem scans_key (k : Key) {sp word sp' text value rest : Bytes} {items : List Item}
    {stop : Stop} (hhost : host ≠ []) (huser : (user.getD []).length ≤ curlMaxInputLength)
    (h : Tracks host user cur sc) (hpos : sc.lexer.pos = sp ++ (word ++ (sp' ++ (text ++ rest))))
    (hsp : Blank sp) (hword : Word word (sp' ++ (text ++ rest))) (hkey : IsKeyword k.token word)
    (hsp' : Blank sp') (htext : Literal text value rest) (hfits : value.length < maxNetrcToken)
    (hcr : CrBeforeLf (sp ++ (word ++ (sp' ++ (text ++ rest)))))
    (hon : ∀ cur sc', Tracks host user cur sc' → sc'.lexer.pos = rest →
      Scans host user fuel cur sc' items stop) :
    Scans host user (fuel + 1) cur sc (k.item value :: items) stop := by
  have htoken := keyword_of_isKeyword hkey
  cases k with
  | machine =>
    refine scanLoop_boundary h huser hpos hsp hword hcr hkey rfl fun sc' hnone hlexer => ?_
    have hpos' : sc'.lexer.pos = sp' ++ (text ++ rest) := by rw [hlexer]
    have htok : sc'.lexer.token = .machine := by rw [hlexer]; rfl
    obtain ⟨literal, hnext, hadded⟩ := lexerNext_literal hnone.pushed hpos' hsp' htext
      (by rw [hnone.toobig]; exact hfits) hcr.suffix.suffix
    have hscans :=
      hon _ _ (@Tracks.machine host user sc' value rest literal hnone hadded hhost .literal)
      rfl
    have hbufr : literal.bufr.isSome = (sc.lexer.literal.bufr.isSome || decide (value ≠ [])) := by
      rw [hadded.bufr, reset_isSome, hlexer, reset_isSome]
    have hscan : scanToken sc' = some ({ sc' with
        lexer := { sc'.lexer with pos := rest, literal, token := .literal }
        matchesHost := (literal.bufr.map (strequal host)).getD false }, .ok) := by
      rw [scanToken, htok]
      simp only [hnext, if_true, hnone.hostname]
    have hready : (sc.lexer.literal.bufr.isSome || Ready sc.matchesHost (.machine value :: items)) =
        (literal.bufr.isSome || Ready false items) := by
      rw [hbufr, Bool.or_assoc]
      rfl
    rw [Scans] at hscans
    rw [hscan, Option.bind_some, scanOn_ok, hscans]
    change _ = if (_ || Ready sc.matchesHost (.machine value :: items)) = true then _ else _
    rw [hready]
    -- without memory for the name, the name is empty and no host
    cases hsome : literal.bufr <;> rfl
  | account =>
    obtain ⟨literal, hadded, hscan⟩ :=
      scanLiteral_none (h.next (sp' ++ (text ++ rest)) .account) rfl
      hsp' htext hfits hcr.suffix.suffix
    have hscans :=
      hon cur _ ((h.next (sp' ++ (text ++ rest)) .account).literal rest hadded .literal) rfl
    have hbufr := hadded.bufr
    simp only [reset_isSome] at hbufr
    rw [Scans, scanLoop_keyword h hpos hsp hword hcr htoken rfl]
    simp only [scanToken, Key.token]
    rw [hscan, Option.bind_some, scanOn_ok]
    simp only [Scans, hbufr, Bool.or_assoc] at hscans
    exact hscans
  | login =>
    exact scans_value (f := fun e => { e with login := some value }) h hpos hsp hword
      htoken rfl hsp'
      htext hfits hcr (fun lexer hlexer => by rw [scanToken, hlexer]; rfl) (fun _ => rfl)
      (fun sc' htracks hmatches hbufr => ⟨htracks.storeLogin hmatches hfits hbufr, rfl⟩) (hon _)
  | passwd =>
    exact scans_value (f := fun e => { e with passwd := some value }) h hpos hsp hword
      htoken rfl hsp'
      htext hfits hcr (fun lexer hlexer => by rw [scanToken, hlexer]; rfl) (fun _ => rfl)
      (fun sc' htracks hmatches hbufr => ⟨htracks.storePasswd hmatches hfits hbufr, rfl⟩) (hon _)

theorem Parses.scans (hhost : host ≠ []) (huser : (user.getD []).length ≤ curlMaxInputLength)
    {content : Bytes} {items : List Item} {stop : Stop}
    (h : Parses maxNetrcToken content items stop) (hcr : CrBeforeLf content)
    (htracks : Tracks host user cur sc) (hpos : sc.lexer.pos = content)
    (hfuel : content.length + 1 < fuel) : Scans host user fuel cur sc items stop := by
  induction h generalizing cur sc fuel with
  | @eof sp hsp =>
    obtain ⟨fuel, rfl⟩ := Nat.exists_eq_add_of_lt hfuel
    exact Scans.of_ready rfl (scanLoop_eof htracks.found huser
      (lexerNext_eof htracks.pushed hpos hsp hcr false) rfl (htracks.next [] .eof))
  | @junk sp word rest items stop hsp hword hkey _ ih =>
    obtain ⟨fuel, rfl⟩ := Nat.exists_eq_add_of_lt hfuel
    have hpositive := hword.length_pos
    have hscans := @ih cur _ (sp.length + (word.length + rest.length) + 1 + fuel) hcr.suffix.suffix
      (htracks.next rest .junk) rfl (by omega)
    rw [Scans, reset_isSome] at hscans
    simp only [List.length_append]
    rw [Scans, scanLoop_keyword htracks hpos hsp hword hcr (keyword_junk hkey) rfl]
    exact hscans
  | @quoted sp body value rest items stop hsp hbody hfits _ ih =>
    obtain ⟨fuel, rfl⟩ := Nat.exists_eq_add_of_lt hfuel
    obtain ⟨literal, hnext, hadded⟩ := lexerNext_quoted htracks.pushed hpos hsp hbody
      (by rw [htracks.toobig]; exact hfits) hcr false
    have hcr' : CrBeforeLf rest := by
      have hsuffix := hcr.suffix
      rw [show 34 :: (body ++ 34 :: rest) = (34 :: (body ++ [34])) ++ rest by simp] at hsuffix
      exact hsuffix.suffix
    have hscans := @ih cur _ (sp.length + (body.length + (rest.length + 1) + 1) + 1 + fuel) hcr'
      (htracks.literal rest hadded .literal) rfl (by omega)
    have hbufr := hadded.bufr
    rw [reset_isSome] at hbufr
    simp only [Scans, hbufr, Bool.or_assoc] at hscans
    simp only [List.length_append, List.length_cons]
    rw [Scans, scanLoop_inside htracks.found hnext rfl]
    exact hscans
  | @badQuoted sp text hsp htext =>
    obtain ⟨fuel, rfl⟩ := Nat.exists_eq_add_of_lt hfuel
    exact Scans.of_ready rfl
      (scanLoop_error htracks.found (lexerNext_badQuoted htracks.pushed hpos hsp
      (by rw [htracks.toobig]; exact htext) (by rw [htracks.toobig]; decide) hcr false))
  | @default sp word rest items stop hsp hword hkey _ ih =>
    obtain ⟨fuel, rfl⟩ := Nat.exists_eq_add_of_lt hfuel
    have hpositive := hword.length_pos
    simp only [List.length_append] at *
    refine scanLoop_boundary htracks huser hpos hsp hword hcr hkey rfl fun sc' hnone hlexer => ?_
    have htok : sc'.lexer.token = .default := by rw [hlexer]
    have hscans := @ih _ _ (sp.length + (word.length + rest.length) + 1 + fuel) hcr.suffix.suffix
      hnone.default (by rw [hlexer]) (by omega)
    simp only [Scans, hlexer, reset_isSome] at hscans
    rw [scanToken, htok]
    rw [← hlexer] at hscans
    exact hscans
  | @macdef sp word text rest items stop hsp hword hkey htext _ ih =>
    obtain ⟨fuel, rfl⟩ := Nat.exists_eq_add_of_lt hfuel
    have hpositive := hword.length_pos
    simp only [List.length_append] at *
    refine scanLoop_boundary htracks huser hpos hsp hword hcr hkey rfl fun sc' hnone hlexer => ?_
    have hscan : scanToken sc' =
        some ({ sc' with lexer := { sc'.lexer with pos := rest } }, .ok) := by
      have htok : sc'.lexer.token = .macdef := by rw [hlexer]
      have hpos' : sc'.lexer.pos = text ++ rest := by rw [hlexer]
      rw [scanToken, htok, hpos', skipToEmptyLine_spec htext]
    have hmacro : Tracks host user none { sc' with lexer := { sc'.lexer with pos := rest } } :=
      ⟨hnone.pushed, hnone.toobig, hnone.hostname, hnone.user_eq, hnone.creds, hnone.found,
        hnone.matches_eq, hnone.login, hnone.passwd, hnone.short, hnone.stored⟩
    have hscans := @ih _ _ (sp.length + (word.length + (text.length + rest.length)) + 1 + fuel)
      hcr.suffix.suffix.suffix hmacro rfl (by omega)
    have hbufr : sc'.lexer.literal.bufr.isSome = sc.lexer.literal.bufr.isSome := by
      rw [hlexer, reset_isSome]
    have hmatches : sc'.matchesHost = false := hnone.matches_eq
    rw [hscan, Option.bind_some, scanOn_ok]
    refine hscans.trans ?_
    change (if (sc'.lexer.literal.bufr.isSome || Ready sc'.matchesHost items) =
      true then _ else _) =
      if (_ || Ready false items) = true then _ else _
    rw [hbufr, hmatches]
  | @key k sp word sp' text value rest items stop hsp hword hkey hsp' htext hfits _ ih =>
    obtain ⟨fuel, rfl⟩ := Nat.exists_eq_add_of_lt hfuel
    have hpositive := hword.length_pos
    simp only [List.length_append]
    refine scans_key k hhost huser htracks hpos hsp hword hkey hsp' htext hfits hcr
      fun cur sc' htracks' hpos' => ih ?_ htracks' hpos' (by omega)
    exact hcr.suffix.suffix.suffix.suffix
  | @keyEof k sp word sp' hsp hword hkey hsp' =>
    obtain ⟨fuel, rfl⟩ := Nat.exists_eq_add_of_lt hfuel
    rw [show (sp ++ (word ++ sp')).length + 1 + fuel + 1 =
      ((sp ++ (word ++ sp')).length + fuel) + 2 by omega]
    exact scans_bare k htracks huser hpos hsp hword hkey hsp' hcr
  | keyBad k hsp hword hkey hsp' htext =>
    obtain ⟨fuel, rfl⟩ := Nat.exists_eq_add_of_lt hfuel
    exact scans_bad k htracks huser hpos hsp hword hkey hsp' htext hcr

theorem tracks_init (content host : Bytes) (user : Option Bytes) :
    Tracks host (user.filter (· ≠ [])) none (scanInit content host user) where
  pushed := rfl
  toobig := rfl
  hostname := rfl
  user_eq := rfl
  creds := rfl
  found := rfl
  matches_eq := rfl
  login := rfl
  passwd := rfl
  short := ⟨show 0 < maxNetrcToken by decide, show 0 < maxNetrcToken by decide⟩
  stored hs := by rcases hs with hs | hs <;> cases hs

theorem length_filter_user (user : Option Bytes) :
    ((user.filter (· ≠ [])).getD []).length ≤ (user.getD []).length := by
  cases user with
  | none => exact le_rfl
  | some u =>
    rw [Option.filter_some]
    split
    · exact le_rfl
    · exact Nat.zero_le _

/-- The result of the scan is what the grammar gives. -/
theorem netrcScan_eq_outcome {content : Bytes} {items : List Item} {stop : Stop}
    (hhost : host ≠ []) (huser : (user.getD []).length ≤ curlMaxInputLength)
    (h : Parses maxNetrcToken content items stop) (hcr : CrBeforeLf content) :
    netrcScan content host user =
      if Ready false items then some (outcome items stop host user) else none := by
  rw [netrcScan_eq]
  exact h.scans hhost ((length_filter_user user).trans huser) hcr
    (tracks_init content host user) rfl
    (Nat.lt_succ_self _)

end Gurl.Netrc
