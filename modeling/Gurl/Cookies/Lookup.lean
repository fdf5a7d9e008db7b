import Gurl.Cookies.Runs

/-! Which domain a header line gives to its cookie: the words of the line, and what
`parse_cookie_header` makes of the domain attributes among them. -/

namespace Gurl.Cookies

open Strcase Strparse

variable {env : Env} {o : Origin} {h h' : Header} {dom last : Option Bytes}

/-! ### The words of a line -/

/-- The words that the loop of `parse_cookie_header` reads. -/
def words : Nat → Bytes → List Attr
  | 0, _ => []
  | fuel + 1, ptr =>
    (nextAttr ptr).1.toList ++
      match strSingle (nextAttr ptr).2 59 with
      | .ok ptr => words fuel ptr
      | .error _ => []

theorem headerLoop_words {fuel : Nat} {ptr : Bytes}
    (hloop : headerLoop env o fuel h ptr = some h') :
    (words fuel ptr).foldlM (headerAttr env o) h = some h' := by
  induction fuel generalizing h ptr with
  | zero => cases hloop
  | succ fuel ih =>
    unfold headerLoop at hloop
    unfold words
    obtain ⟨next, hfirst, hrest⟩ := Option.bind_eq_some_iff.mp hloop
    have hhead : (nextAttr ptr).1.toList.foldlM (headerAttr env o) h = some next := by
      cases hattr : (nextAttr ptr).1 with
      | none =>
        rw [hattr] at hfirst
        exact hfirst
      | some a =>
        rw [hattr] at hfirst
        simpa using hfirst
    rw [List.foldlM_append, hhead]
    cases hsep : strSingle (nextAttr ptr).2 59 with
    | ok ptr' =>
      rw [hsep] at hrest
      exact ih hrest
    | error e =>
      rw [hsep] at hrest
      exact hrest

/-- What a domain attribute says. -/
def Attr.domainText (a : Attr) : Option Bytes :=
  if a.sep && strCasecompare a.name (ascii "domain") && a.val.len ≠ 0 then some (dotless a.val).text
  else none

/-- What the last domain attribute says. -/
def lastDomain (attrs : List Attr) : Option Bytes :=
  attrs.foldl (fun last a => a.domainText.or last) none

/-- The attributes of a line, behind the name and the value of the cookie. -/
def attributes (line : Bytes) : List Attr := (words (line.length + 1) line).tail

/-! ### What is made of them -/

/-- What is known of the domain when `last` is the last domain attribute so far. -/
inductive Taken (env : Env) (dom : Option Bytes) : Option Bytes → Header → Prop
  | unset {h : Header} : h.domain = dom → h.domainPiece.len = 0 → h.co.tailmatch = false →
      Taken env dom none h
  | colon {h : Header} : h.domain = some (ascii ":") → h.domainPiece.text = ascii ":" →
      h.co.tailmatch = true → Taken env dom (some (ascii ":")) h
  | fits {h : Header} {text : Bytes} : badDomain text = false → h.domain = dom →
      h.domainPiece.text = text →
      (∀ host, dom = some host →
        if env.hostIsIpnum host then text = host ∧ h.co.tailmatch = false
        else DotSuffix text host ∧ h.co.tailmatch = true) →
      Taken env dom (some text) h

theorem badDomain_colon : badDomain (ascii ":") = true := by decide

/-- Nothing but a colon is a tail of a colon. -/
theorem eq_colon {text : Bytes} (htail : DotSuffix text (ascii ":")) : text = ascii ":" := by
  rcases htail with heq | ⟨front, heq⟩
  · have hupper : upper (ascii ":") = [58] := by decide
    rw [hupper, upper] at heq
    obtain ⟨c, rfl, hc⟩ := List.map_eq_singleton_iff.mp heq.symm
    rw [(rawToupper_eq_iff (by decide)).mp hc]
    rfl
  · have hmem : (46 : UInt8) ∈ upper (ascii ":") := by
      rw [heq, mem_upper_dot]
      simp
    exact absurd hmem (by decide)

/-- What fits a colon is a colon. -/
theorem domainFits_colon {val : CurlStr} {isIp : Bool}
    (hfits : domainFits isIp val (some (ascii ":")) = true) : val.text = ascii ":" := by
  cases isIp with
  | true => simpa [domainFits] using hfits
  | false => exact eq_colon ((cookieTailmatch_iff _ _).mp hfits)

theorem parseDomain_taken {val : CurlStr} (htaken : Taken env dom last h)
    (hparse : parseDomain env h val = some h') :
    Taken env dom (some (dotless val).text) h' ∧ h'.name = h.name := by
  unfold parseDomain at hparse
  dsimp only at hparse
  split at hparse
  · rename_i hfits
    cases hparse
    refine ⟨?_, rfl⟩
    cases hbad : badDomain (dotless val).text with
    | true =>
      have hdomain : checkedDomain h.domain (dotless val) = some (ascii ":") := if_pos hbad
      rw [hdomain] at hfits ⊢
      have hcolon := domainFits_colon hfits
      rw [hcolon]
      refine .colon rfl hcolon ?_
      simp [Header.withDomain, env.ipnum_colon]
    | false =>
      have hdomain : checkedDomain h.domain (dotless val) = h.domain := if_neg (by simp [hbad])
      rw [hdomain] at hfits ⊢
      have hold : h.domain = dom ∧
          ∀ host, dom = some host → env.hostIsIpnum host = true → h.co.tailmatch = false := by
        cases htaken with
        | unset hdom hlen htail => exact ⟨hdom, fun _ _ _ => htail⟩
        | colon hdom htext htail =>
          rw [hdom] at hfits
          rw [domainFits_colon hfits, badDomain_colon] at hbad
          cases hbad
        | fits hgood hdom htext hhost =>
          refine ⟨hdom, fun host heq hip => ?_⟩
          have hthis := hhost host heq
          rw [if_pos hip] at hthis
          exact hthis.2
      obtain ⟨hdom, htail⟩ := hold
      refine .fits hbad hdom rfl fun host heq => ?_
      rw [hdom, heq] at hfits ⊢
      change domainFits (env.hostIsIpnum host) (dotless val) (some host) = true at hfits
      cases hip : env.hostIsIpnum host with
      | true =>
        rw [hip] at hfits
        have htext : (dotless val).text = host := by simpa [domainFits] using hfits
        exact ⟨htext, by simp [Header.withDomain, htail host heq hip, hip]⟩
      | false =>
        rw [hip] at hfits
        exact ⟨(cookieTailmatch_iff _ _).mp hfits, by simp [Header.withDomain, hip]⟩
  · cases hparse

/-- The other attributes say nothing about the domain. -/
theorem Taken.congr (htaken : Taken env dom last h) (hdomain : h'.domain = h.domain)
    (hpiece : h'.domainPiece = h.domainPiece) (htail : h'.co.tailmatch = h.co.tailmatch) :
    Taken env dom last h' := by
  cases htaken with
  | unset hdom hlen hflag => exact .unset (hdomain.trans hdom) (hpiece ▸ hlen) (htail.trans hflag)
  | colon hdom htext hflag => exact .colon (hdomain.trans hdom) (hpiece ▸ htext) (htail.trans hflag)
  | fits hgood hdom htext hhost =>
    exact .fits hgood (hdomain.trans hdom) (hpiece ▸ htext) (htail ▸ hhost)

theorem not_domain_of_path {name : CurlStr} (h : strCasecompare name (ascii "path") = true) :
    strCasecompare name (ascii "domain") = false := by
  simp only [strCasecompare, Bool.and_eq_true, decide_eq_true_eq] at h ⊢
  have hlen : name.len = 4 := h.1
  have hlong : (ascii "domain").length = 6 := rfl
  simp [hlen, hlong]

theorem parseFlag_taken {name : CurlStr} (htaken : Taken env dom last h)
    (hparse : parseFlag o h name = some h') : Taken env dom last h' ∧ h'.name = h.name := by
  unfold parseFlag at hparse
  split_ifs at hparse <;> cases hparse <;> exact ⟨htaken.congr rfl rfl rfl, rfl⟩

/-- An attribute, behind the name and the value of the cookie. -/
theorem headerAttr_taken {a : Attr} (hname : h.name.len ≠ 0) (htaken : Taken env dom last h)
    (hattr : headerAttr env o h a = some h') :
    Taken env dom (a.domainText.or last) h' ∧ h'.name = h.name := by
  unfold headerAttr at hattr
  unfold Attr.domainText
  rw [if_neg hname] at hattr
  split at hattr
  · cases hattr
  · split at hattr
    · -- a word without a value
      rename_i hsep
      have hnone : a.sep = false := by simpa using hsep
      simpa [hnone] using parseFlag_taken htaken hattr
    · rename_i hsep
      have hsep' : a.sep = true := by simpa using hsep
      split at hattr
      · rename_i hpath
        cases hattr
        rw [if_neg (by simp [not_domain_of_path hpath]), Option.none_or]
        exact ⟨htaken.congr rfl rfl rfl, rfl⟩
      · split at hattr
        · rename_i hdomain
          rw [hsep', Bool.true_and, if_pos hdomain]
          exact parseDomain_taken htaken hattr
        · rename_i hdomain
          rw [hsep', Bool.true_and, if_neg hdomain]
          split_ifs at hattr <;> cases hattr <;> exact ⟨htaken.congr rfl rfl rfl, rfl⟩

theorem attributes_taken {attrs : List Attr} (hname : h.name.len ≠ 0)
    (htaken : Taken env dom last h) (hattrs : attrs.foldlM (headerAttr env o) h = some h') :
    Taken env dom (attrs.foldl (fun last a => a.domainText.or last) last) h' := by
  induction attrs generalizing h last with
  | nil =>
    cases hattrs
    exact htaken
  | cons a attrs ih =>
    rw [List.foldlM_cons] at hattrs
    obtain ⟨next, hfirst, hrest⟩ := Option.bind_eq_some_iff.mp hattrs
    obtain ⟨hnext, hsame⟩ := headerAttr_taken hname htaken hfirst
    exact ih (hsame ▸ hname) hnext hrest

/-- The first word is the name of the cookie. -/
theorem first_taken {a : Attr} (hattr : headerAttr env o (.start dom) a = some h') :
    Taken env dom none h' ∧ h'.name.len ≠ 0 := by
  unfold headerAttr at hattr
  split at hattr
  · cases hattr
  · have hfirst : (Header.start dom).name.len = 0 := rfl
    rw [if_pos hfirst] at hattr
    unfold parseFirstPair at hattr
    split_ifs at hattr with hname hlong
    cases hattr
    have hflag (co : Cookie) (name : Bytes) :
        (co.withPrefix name).tailmatch = co.tailmatch := by
      unfold Cookie.withPrefix
      split_ifs <;> rfl
    refine ⟨.unset rfl rfl (hflag _ _), fun hzero => hname ?_⟩
    change a.name.len = 0 at hzero
    simp [hzero]

/-! ### The domain of the cookie -/

/-- What is known of the domain of a cookie when `last` is the last domain attribute of its line,
and `dom` the host that sent it. -/
inductive Stored (env : Env) (dom : Option Bytes) (co : Cookie) : Option Bytes → Prop
  | unset : co.domain = dom → co.tailmatch = false → Stored env dom co none
  | colon : co.domain = some (ascii ":") → co.tailmatch = true →
    Stored env dom co (some (ascii ":"))
  | fits {text : Bytes} : badDomain text = false → co.domain = some text →
      (∀ host, dom = some host →
        if env.hostIsIpnum host then text = host ∧ co.tailmatch = false
        else DotSuffix text host ∧ co.tailmatch = true) →
      Stored env dom co (some text)

theorem Stored.congr {co co' : Cookie} (h : Stored env dom co last)
    (hdomain : co'.domain = co.domain)
    (htail : co'.tailmatch = co.tailmatch) : Stored env dom co' last := by
  cases h with
  | unset hdom hflag => exact .unset (hdomain.trans hdom) (htail.trans hflag)
  | colon hdom hflag => exact .colon (hdomain.trans hdom) (htail.trans hflag)
  | fits hgood hdom hhost => exact .fits hgood (hdomain.trans hdom) (htail ▸ hhost)

theorem text_eq_nil {val : CurlStr} (hlen : val.len = 0) : val.text = [] := by
  simp [CurlStr.text, hlen]

/-- A header line that is accepted. -/
theorem parseCookieHeader_stored {line : Bytes} {path : Option Bytes} {co : Cookie}
    (hparse : parseCookieHeader env o line dom path = some co) :
    Stored env dom co (lastDomain (attributes line)) := by
  unfold parseCookieHeader at hparse
  split at hparse
  · cases hparse
  · obtain ⟨h, hloop, hstore⟩ := Option.bind_eq_some_iff.mp hparse
    split at hstore
    · rename_i hname
      cases hstore
      have hwords := headerLoop_words hloop
      have htaken : Taken env dom (lastDomain (attributes line)) h := by
        unfold attributes lastDomain
        cases hlist : words (line.length + 1) line with
        | nil =>
          rw [hlist] at hwords
          cases hwords
          exact absurd rfl hname
        | cons a attrs =>
          rw [hlist, List.foldlM_cons] at hwords
          obtain ⟨next, hfirst, hrest⟩ := Option.bind_eq_some_iff.mp hwords
          obtain ⟨hnext, hsome⟩ := first_taken hfirst
          exact attributes_taken hsome hnext hrest
      generalize lastDomain (attributes line) = last at htaken
      cases htaken with
      | unset hdom hlen hflag =>
        refine .unset ?_ hflag
        simpa [storecookie, hlen] using hdom
      | colon hdom htext hflag =>
        have hlen : h.domainPiece.len ≠ 0 := fun hzero => by
          rw [text_eq_nil hzero] at htext
          cases htext
        refine .colon ?_ hflag
        simp [storecookie, hlen, htext]
      | @fits _ text hgood hdom htext hhost =>
        have hlen : h.domainPiece.len ≠ 0 := fun hzero => by
          rw [text_eq_nil hzero] at htext
          rw [← htext] at hgood
          cases hgood
        refine .fits hgood ?_ hhost
        simp [storecookie, hlen, htext]
    · cases hstore

/-- The host that a call is made for. -/
theorem parseLine_stored {ci : CookieInfo} {c : AddCall} {co : Cookie}
    (hheader : c.httpheader = true) (hparse : parseLine env ci c = some co) :
    Stored env c.domain co (lastDomain (attributes c.line)) := by
  unfold parseLine at hparse
  split at hparse
  · cases hparse
  · obtain ⟨co', hline, hrest⟩ := Option.bind_eq_some_iff.mp hparse
    split_ifs at hrest
    cases hrest
    rw [readLine, if_pos hheader] at hline
    exact parseCookieHeader_stored hline

/-! When the lookup in one list finds all cookies of a jar that are to be sent. -/

open Buckets

variable {ci ci' : CookieInfo} {co : Cookie} {r : Request}

/-! ### Properties of all cookies of a jar -/

/-- A property of cookies that does not depend on when they were added. -/
def Timeless (P : Cookie → Prop) : Prop :=
  ∀ co live time, P co → P { co with livecookie := live, creationtime := time }

section

variable {P : Cookie → Prop}

theorem cookieAdd_all (hP : Timeless P) (ho : Ordered env ci) {c : AddCall}
    (hparse : ∀ co, parseLine env ci c = some co → P co)
    (hall : ∀ i, ∀ co ∈ ci.cookielist i, P co) :
    ∀ i, ∀ co ∈ (cookieAdd env ci c).cookielist i, P co := by
  unfold cookieAdd
  cases hline : parseLine env ci c with
  | none => exact hall
  | some co =>
    obtain ⟨hsub, -, -, hprepared⟩ := prepare_spec ho c
    have hkept : ∀ i, ∀ co ∈ (ci.prepare c).cookielist i, P co :=
      fun i co hco => hall i co ((hsub i).subset hco)
    dsimp only
    cases hres : replaceExisting env (ci.stamp co) (ci.prepare c) c.secure with
    | none => exact hkept
    | some res =>
      obtain ⟨co', ci', replaces⟩ := res
      have hr := replaceExisting_spec hprepared c.secure hres
      have hrest : ∀ i, ∀ co ∈ ci'.cookielist i, P co :=
        fun i co hco => hkept i co ((hr.sub i).subset hco)
      have hnew : P co' := by
        cases hr with
        | fresh => exact hP co _ _ (hparse co hline)
        | replaced => exact hP co _ _ (hparse co hline)
      dsimp only
      split
      · intro i a ha
        rcases mem_update_concat ha with hold | ⟨-, rfl⟩
        · exact hrest i a hold
        · exact hnew
      · exact hrest

/-- Whatever happens to a jar, its cookies have a property that all parsed cookies have. -/
theorem step_all (hP : Timeless P) (ho : Ordered env ci) {a : Action}
    (hparse : ∀ c, a = .add c → ∀ co, parseLine env ci c = some co → P co)
    (hall : ∀ i, ∀ co ∈ ci.cookielist i, P co) :
    ∀ i, ∀ co ∈ (step env ci a).cookielist i, P co := by
  have hexpired (now : Int) : ∀ i, ∀ co ∈ (removeExpired now ci).cookielist i, P co := by
    intro i co hco
    rw [(removeExpired_spec now ho.noted).1] at hco
    exact hall i co (List.mem_filter.mp hco).1
  cases a with
  | add c => exact cookieAdd_all hP ho (hparse c rfl) hall
  | removeExpired now => exact hexpired now
  | clearsess =>
    intro i co hco
    rw [step] at hco
    exact hall i co (((clearsess_spec ci).1 i).subset hco)
  | clearall => rintro _ _ ⟨⟩
  | getlist r =>
    unfold step cookieGetlist
    dsimp only
    split
    · exact hall
    · exact hexpired r.now
  | load running newsession => exact hall

theorem foldl_all (hP : Timeless P) (ho : Ordered env ci) {actions : List Action}
    (hparse : ∀ c, .add c ∈ actions → ∀ ci co, parseLine env ci c = some co → P co)
    (hall : ∀ i, ∀ co ∈ ci.cookielist i, P co) :
    ∀ i, ∀ co ∈ (actions.foldl (step env) ci).cookielist i, P co := by
  induction actions generalizing ci with
  | nil => exact hall
  | cons a actions ih =>
    refine ih (step_ordered ho a) (fun c hc => hparse c (List.mem_cons_of_mem a hc)) ?_
    exact step_all hP ho (fun c hc => hparse c (hc ▸ List.mem_cons_self) ci) hall

end

/-! ### Domains that match tails -/

/-- The domain of a cookie that matches tails has a dot, or is `localhost` or a colon. -/
def Tailed (co : Cookie) : Prop :=
  co.tailmatch = true → ∃ d, co.domain = some d ∧
    (46 ∈ d ∨ upper d = upper localhost ∨ d = ascii ":")

theorem Stored.tailed {dom last : Option Bytes} (h : Stored env dom co last) : Tailed co := by
  intro htail
  cases h with
  | unset hdom hflag =>
    rw [hflag] at htail
    cases htail
  | colon hdom => exact ⟨_, hdom, .inr (.inr rfl)⟩
  | fits hgood hdom =>
    rcases dot_of_badDomain hgood with hdot | hlocal
    · exact ⟨_, hdom, .inl hdot⟩
    · exact ⟨_, hdom, .inr (.inl hlocal)⟩

/-- In a run that adds header lines only, this holds of all cookies. -/
theorem run_tailed {actions : List Action}
    (hheader : ∀ c, .add c ∈ actions → c.httpheader = true) :
    ∀ i, ∀ co ∈ (run env actions).cookielist i, Tailed co := by
  refine foldl_all (fun _ _ _ h => h) ordered_init (fun c hc ci co hparse => ?_)
    (fun _ _ hco => nomatch hco)
  exact (parseLine_stored (hheader c hc) hparse).tailed

/-! ### The lookup -/

theorem matchLoop_eq_filter {matched : Nat} {l : List Cookie}
    (h : matched + (l.filter (sends env r)).length ≤ maxCookieSendAmount) :
    matchLoop env r matched l = l.filter (sends env r) := by
  induction l generalizing matched with
  | nil => rfl
  | cons co l ih =>
    unfold matchLoop
    by_cases hsend : sends env r co = true
    · rw [List.filter_cons_of_pos hsend, List.length_cons] at h
      rw [if_pos hsend, List.filter_cons_of_pos hsend]
      by_cases hcut : matched + 1 ≥ maxCookieSendAmount
      · have hnone : l.filter (sends env r) = [] := by
          rw [← List.length_eq_zero_iff]
          omega
        rw [if_pos hcut, hnone]
      · rw [if_neg hcut, ih (by omega)]
    · rw [List.filter_cons_of_neg hsend] at h
      rw [if_neg hsend, List.filter_cons_of_neg hsend, ih h]

/-- A cookie is to be sent, and has not expired. -/
def due (env : Env) (r : Request) (co : Cookie) : Bool := sends env r co && co.alive r.now

/-- There are not too many cookies in the list of the host. -/
def BelowCut (env : Env) (ci : CookieInfo) (r : Request) : Prop :=
  ((ci.cookielist (cookiehash env (some r.host))).filter (due env r)).length ≤
    maxCookieSendAmount

instance : Decidable (BelowCut env ci r) := inferInstanceAs (Decidable (_ ≤ _))

/-- The lookup returns what is due in the list of the host. -/
theorem mem_getlist_iff (ho : Ordered env ci) (hcut : BelowCut env ci r) :
    co ∈ (cookieGetlist env ci r).2 ↔
      co ∈ ci.cookielist (cookiehash env (some r.host)) ∧ due env r co = true := by
  have hdue : ((ci.cookielist (cookiehash env (some r.host))).filter (Cookie.alive r.now)).filter
      (sends env r) = (ci.cookielist (cookiehash env (some r.host))).filter (due env r) := by
    rw [List.filter_filter]
    rfl
  unfold cookieGetlist
  dsimp only
  split
  · rename_i hempty
    simp [hempty]
  · rw [(List.mergeSort_perm _ _).mem_iff, (removeExpired_spec r.now ho.noted).1,
      matchLoop_eq_filter (by rw [Nat.zero_add, hdue]; exact hcut), hdue, List.mem_filter]

/-- The first alternative of the domain rule: the host is in the domain of the cookie. -/
def InDomain (env : Env) (co : Cookie) (host : Bytes) : Prop :=
  co.tailmatch = true ∧ env.hostIsIpnum host = false ∧
    ∃ d, co.domain = some d ∧ cookieTailmatch d host = true

/-- The lookup agrees with a scan of all lists, and a domain has the hash of every host that is in
it. -/
structure LookupAgrees (env : Env) (ci : CookieInfo) (r : Request) : Prop where
  scan : ∀ co, co ∈ (cookieGetlist env ci r).2 ↔ ∃ i, co ∈ ci.cookielist i ∧ due env r co = true
  hash : ∀ i, ∀ co ∈ ci.cookielist i, InDomain env co r.host →
    cookiehash env co.domain = cookiehash env (some r.host)

/-- The cookie has no domain, or one that is not the host and is `localhost`, a colon or an IP
number. -/
def Astray (env : Env) (host : Bytes) (co : Cookie) : Prop :=
  ∀ d, co.domain = some d → upper d ≠ upper host ∧
    (upper d = upper localhost ∨ d = ascii ":" ∨ env.hostIsIpnum d = true)

/-- Other cookies are in the list of the host. -/
theorem hash_of_inDomain (htailed : Tailed co) (hastray : ¬Astray env r.host co)
    (hin : InDomain env co r.host) :
    cookiehash env co.domain = cookiehash env (some r.host) := by
  obtain ⟨hflag, hhost, d, hd, hmatch⟩ := hin
  obtain ⟨d', hd', hkind⟩ := htailed hflag
  obtain rfl : d = d' := Option.some.inj (hd.symm.trans hd')
  have hsuffix := (cookieTailmatch_iff _ _).mp hmatch
  rw [hd]
  by_cases hsame : upper d = upper r.host
  · exact cookiehash_congr env hsame
  · have hother : ¬(upper d = upper localhost ∨ d = ascii ":" ∨ env.hostIsIpnum d = true) := by
      intro hkind'
      refine hastray fun d' hd' => ?_
      obtain rfl : d = d' := Option.some.inj (hd.symm.trans hd')
      exact ⟨hsame, hkind'⟩
    have hdot : 46 ∈ d := hkind.resolve_right fun h => hother (h.imp_right .inl)
    have hname : env.hostIsIpnum d = false := by
      cases hip : env.hostIsIpnum d with
      | true => exact absurd (.inr (.inr hip)) hother
      | false => rfl
    exact (cookiehash_of_dotSuffix hsuffix hdot hname hhost).symm

theorem hash_of_sends (htailed : Tailed co) (hastray : ¬Astray env r.host co)
    (hsends : sends env r co = true) :
    cookiehash env co.domain = cookiehash env (some r.host) := by
  have hrule : domainRule env co r.host = true := by
    simp only [sends, Bool.and_eq_true] at hsends
    exact hsends.1.2
  cases hd : co.domain with
  | none =>
    refine absurd (fun d hd' => ?_) hastray
    rw [hd] at hd'
    cases hd'
  | some d =>
    simp only [domainRule, hd, Bool.or_eq_true, Bool.and_eq_true, Bool.not_eq_true'] at hrule
    rcases hrule with ⟨⟨hflag, hhost⟩, hmatch⟩ | ⟨-, hequal⟩
    · rw [← hd]
      exact hash_of_inDomain htailed hastray ⟨hflag, hhost, d, hd, hmatch⟩
    · exact cookiehash_congr env ((strequal_iff _ _).mp hequal).symm

/-- In a jar that was filled from header lines, the lookup agrees with a scan just when the cookies
without a domain of their own name happen to be in the list of the host. -/
theorem lookup_agrees_iff (env : Env) (actions : List Action) (r : Request)
    (hheader : ∀ c, .add c ∈ actions → c.httpheader = true)
    (hcut : BelowCut env (run env actions) r) :
    LookupAgrees env (run env actions) r ↔
      ∀ i, ∀ co ∈ (run env actions).cookielist i, Astray env r.host co →
        due env r co = true ∨ InDomain env co r.host →
        cookiehash env co.domain = cookiehash env (some r.host) := by
  have ho := run_ordered env actions
  have htailed : ∀ i, ∀ co ∈ (run env actions).cookielist i, Tailed co := run_tailed hheader
  generalize run env actions = ci at hcut ho htailed
  constructor
  · rintro h i co hco - (hdue | hin)
    · have hlist := ((mem_getlist_iff ho hcut).mp ((h.scan co).mpr ⟨i, hco, hdue⟩)).1
      exact ho.placed _ co hlist
    · exact h.hash i co hco hin
  · intro h
    refine ⟨fun co => ?_, fun i co hco hin => ?_⟩
    · rw [mem_getlist_iff ho hcut]
      constructor
      · exact fun ⟨hlist, hdue⟩ => ⟨_, hlist, hdue⟩
      · rintro ⟨i, hco, hdue⟩
        have hhash : cookiehash env co.domain = cookiehash env (some r.host) := by
          by_cases hastray : Astray env r.host co
          · exact h i co hco hastray (.inl hdue)
          · exact hash_of_sends (htailed i co hco) hastray (Bool.and_eq_true_iff.mp hdue).1
        rw [← hhash, ho.placed i co hco]
        exact ⟨hco, hdue⟩
    · by_cases hastray : Astray env r.host co
      · exact h i co hco hastray (.inr hin)
      · exact hash_of_inDomain (htailed i co hco) hastray hin

/-- A running jar with the cookie of one header line, from a host if there is one. -/
def oneLine (line : String) (host : Option Bytes) : List Action :=
  [.load true false, .add { setLine "a" true with line := ascii line, domain := host }]

def requestTo (host : String) : Request where
  host := ascii host
  path := ascii "/"
  xferSecure := false
  now := 0

theorem lookup_agrees_subdomain :
    LookupAgrees .names
      (run .names (oneLine "a=1; domain=example.com" (some (ascii "example.com"))))
      (requestTo "www.example.com") := by
  refine (lookup_agrees_iff .names _ _ (fun c hc => ?_) (by decide +kernel)).mpr ?_
  · rcases List.mem_cons.mp hc with hload | hadd
    · cases hload
    · cases List.mem_singleton.mp hadd
      rfl
  · have hdomain : ∀ i, ∀ co ∈ (run .names (oneLine "a=1; domain=example.com"
        (some (ascii "example.com")))).cookielist i, co.domain = some (ascii "example.com") := by
      decide +kernel
    intro i co hco hastray
    exact absurd (hastray _ (hdomain i co hco)) (by decide)

/-- Cookies for `localhost` and cookies without a domain are not found. -/
theorem lookup_loses_cookies :
    ¬LookupAgrees .names (run .names (oneLine "a=1; domain=localhost" (some (ascii "x.localhost"))))
        (requestTo "x.localhost") ∧
      ¬LookupAgrees .names (run .names (oneLine "a=1" none)) (requestTo "x.localhost") := by
  have hnone : (cookieGetlist .names (run .names (oneLine "a=1" none))
      (requestTo "x.localhost")).2 = [] := by decide +kernel
  have hlocal : (cookieGetlist .names (run .names (oneLine "a=1; domain=localhost"
      (some (ascii "x.localhost")))) (requestTo "x.localhost")).2 = [] := by decide +kernel
  refine ⟨fun h => ?_, fun h => ?_⟩
  · have hmem := (h.scan { setCookie "a" 1 with domain := some localhost, tailmatch := true }).mpr
      ⟨cookiehash .names (some localhost), by decide +kernel, by decide +kernel⟩
    rw [hlocal] at hmem
    cases hmem
  · have hmem := (h.scan { setCookie "a" 1 with domain := none }).mpr
      ⟨cookiehash .names none, by decide +kernel, by decide +kernel⟩
    rw [hnone] at hmem
    cases hmem

end Gurl.Cookies
