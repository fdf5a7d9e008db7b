import Gurl.Cookies.Lookup

/-! To which hosts a cookie is sent that some host has set with a header line. -/

namespace Gurl.Cookies

open Strcase Buckets

variable {env : Env} {ci : CookieInfo} {c : AddCall} {co co₀ : Cookie} {r : Request}
  {host : Bytes}

/-- The cookie that `Curl_cookie_add` adds to a jar, if it adds one. -/
def addedCookie (env : Env) (ci : CookieInfo) (c : AddCall) : Option Cookie := do
  let co ← parseLine env ci c
  let (co, _, _) ← replaceExisting env (ci.stamp co) (ci.prepare c) c.secure
  if c.clone then some co else none

/-- A cookie that `host` has set may be sent to `target`: this is `host` itself, or both are names
in the domain of the cookie, and this has a dot or is `localhost`. -/
def Confined (env : Env) (host target : Bytes) (domain : Option Bytes) : Prop :=
  upper target = upper host ∨ ∃ d, domain = some d ∧ (46 ∈ d ∨ upper d = upper localhost) ∧
    env.hostIsIpnum host = false ∧ env.hostIsIpnum target = false ∧
    DotSuffix d host ∧ DotSuffix d target

/-- The last domain attribute of the line is a colon, or it is an IP number and the host is none. -/
def Widens (env : Env) (host line : Bytes) : Prop :=
  lastDomain (attributes line) = some (ascii ":") ∨
    ∃ text, lastDomain (attributes line) = some text ∧ env.hostIsIpnum text = true ∧
      env.hostIsIpnum host = false

/-- An empty jar. -/
def emptyJar (running newsession : Bool) : CookieInfo := { cookieInit with running, newsession }

/-- Some empty jar takes the line. -/
def Accepted (env : Env) (c : AddCall) : Prop :=
  ∃ running newsession, (addedCookie env (emptyJar running newsession) c).isSome

/-! ### What is sent -/

theorem matchLoop_sends {matched : Nat} {l : List Cookie} (h : co ∈ matchLoop env r matched l) :
    sends env r co = true := by
  induction l generalizing matched with
  | nil => cases h
  | cons a l ih =>
    unfold matchLoop at h
    by_cases hsend : sends env r a = true
    · rw [if_pos hsend] at h
      rcases List.mem_cons.mp h with rfl | hrest
      · exact hsend
      · split at hrest
        · cases hrest
        · exact ih hrest
    · rw [if_neg hsend] at h
      exact ih h

theorem getlist_sends (h : co ∈ (cookieGetlist env ci r).2) : sends env r co = true := by
  unfold cookieGetlist at h
  dsimp only at h
  split at h
  · cases h
  · exact matchLoop_sends ((List.mergeSort_perm _ _).mem_iff.mp h)

/-- The cookie that is added has the domain, the tail match flag, the path and the expiry of its
line. -/
theorem addedCookie_parsed (h : addedCookie env ci c = some co) :
    ∃ co₀, parseLine env ci c = some co₀ ∧ co.domain = co₀.domain ∧ co.tailmatch = co₀.tailmatch ∧
      co.path = co₀.path := by
  obtain ⟨co₀, hparse, hrest⟩ := Option.bind_eq_some_iff.mp h
  obtain ⟨⟨co', ci', replaces⟩, hreplace, hclone⟩ := Option.bind_eq_some_iff.mp hrest
  refine ⟨co₀, hparse, ?_⟩
  dsimp only at hclone
  split at hclone
  · cases hclone
    unfold replaceExisting at hreplace
    obtain ⟨⟨replaceOld, replaceN⟩, -, hres⟩ := Option.bind_eq_some_iff.mp hreplace
    cases replaceN with
    | none =>
      cases hres
      exact ⟨rfl, rfl, rfl⟩
    | some n =>
      obtain ⟨repl, -, hsome⟩ := Option.bind_eq_some_iff.mp hres
      cases hsome
      exact ⟨rfl, rfl, rfl⟩
  · cases hclone

/-- A line that does not widen it keeps its cookie confined. -/
theorem confined_of_sends (hstored : Stored env (some host) co (lastDomain (attributes c.line)))
    (hwidens : ¬Widens env host c.line) (hrule : domainRule env co r.host = true) :
    Confined env host r.host co.domain := by
  unfold Widens at hwidens
  generalize lastDomain (attributes c.line) = last at hstored hwidens
  have hrule' (d : Bytes) (hd : co.domain = some d) :
      (co.tailmatch = true ∧ env.hostIsIpnum r.host = false) ∧ cookieTailmatch d r.host = true ∨
        (co.tailmatch = false ∨ env.hostIsIpnum r.host = true) ∧ strequal r.host d = true := by
    simpa [domainRule, hd] using hrule
  cases hstored with
  | unset hdomain hflag =>
    rcases hrule' host hdomain with ⟨⟨htail, -⟩, -⟩ | ⟨-, hequal⟩
    · rw [hflag] at htail
      cases htail
    · exact .inl ((strequal_iff _ _).mp hequal)
  | colon => exact absurd (.inl rfl) hwidens
  | @fits text hgood hdomain hhost =>
    have hfit := hhost host rfl
    cases hip : env.hostIsIpnum host with
    | true =>
      rw [if_pos hip] at hfit
      obtain ⟨rfl, hflag⟩ := hfit
      rcases hrule' _ hdomain with ⟨⟨htail, -⟩, -⟩ | ⟨-, hequal⟩
      · rw [hflag] at htail
        cases htail
      · exact .inl ((strequal_iff _ _).mp hequal)
    | false =>
      rw [if_neg (by simp [hip])] at hfit
      obtain ⟨hsuffix, hflag⟩ := hfit
      rcases hrule' _ hdomain with ⟨⟨-, htarget⟩, hmatch⟩ | ⟨hkind, hequal⟩
      · exact .inr ⟨text, hdomain, dot_of_badDomain hgood, hip, htarget, hsuffix,
          (cookieTailmatch_iff _ _).mp hmatch⟩
      · have htarget : env.hostIsIpnum r.host = true := by
          rw [hflag] at hkind
          exact hkind.resolve_left (by simp)
        rw [env.ipnum_upper _ _ ((strequal_iff _ _).mp hequal)] at htarget
        exact absurd (.inr ⟨text, rfl, htarget, hip⟩) hwidens

/-! ### A line that widens it -/

theorem emptyJar_ordered (env : Env) (running newsession : Bool) :
    Ordered env (emptyJar running newsession) where
  placed := fun _ _ hco => nomatch hco
  unique := ⟨fun _ => .nil, fun _ _ _ _ ha => nomatch ha⟩
  noted := fun _ _ hco => nomatch hco

theorem emptyJar_prepared (running newsession : Bool) (i : Fin hashSize) :
    ((emptyJar running newsession).prepare c).cookielist i = [] :=
  List.sublist_nil.mp ((prepare_spec (emptyJar_ordered .names running newsession) c).1 i)

/-- A line that any jar takes is taken by an empty one. -/
theorem accepted_of_added (h : addedCookie env ci c = some co) : Accepted env c := by
  obtain ⟨co₀, hparse, hrest⟩ := Option.bind_eq_some_iff.mp h
  obtain ⟨⟨co', ci', replaces⟩, hreplace, hclone⟩ := Option.bind_eq_some_iff.mp hrest
  dsimp only at hclone
  split at hclone
  · rename_i hmem
    refine ⟨ci.running, ci.newsession, ?_⟩
    have hparse' : parseLine env (emptyJar ci.running ci.newsession) c = some co₀ := hparse
    simp [addedCookie, hparse', replaceExisting, emptyJar_prepared, replaceLoop, hmem]
  · cases hclone

/-- The jar after a call that adds a cookie to an empty one. -/
theorem emptyJar_add {running newsession : Bool}
    (h : addedCookie env (emptyJar running newsession) c = some co) :
    (cookieAdd env (emptyJar running newsession) c).cookielist (cookiehash env co.domain) =
      [co] := by
  obtain ⟨co₀, hparse, hrest⟩ := Option.bind_eq_some_iff.mp h
  obtain ⟨⟨co', ci', replaces⟩, hreplace, hclone⟩ := Option.bind_eq_some_iff.mp hrest
  dsimp only at hclone
  split at hclone
  · rename_i hmem
    cases hclone
    obtain ⟨-, -, -, hprepared⟩ := prepare_spec (emptyJar_ordered env running newsession) c
    unfold cookieAdd
    rw [hparse]
    dsimp only
    rw [hreplace]
    dsimp only
    rw [if_pos hmem]
    have hnone : ci'.cookielist (cookiehash env co.domain) = [] := by
      have hr := (replaceExisting_spec hprepared c.secure hreplace).sub (cookiehash env co.domain)
      rw [emptyJar_prepared] at hr
      exact List.sublist_nil.mp hr
    simp [CookieInfo.append, CookieInfo.setList, hnone]
  · cases hclone

/-- A cookie that is alone in its list is returned to a host with the same hash. -/
theorem getlist_single (ho : Ordered env ci)
    (hlist : ci.cookielist (cookiehash env (some r.host)) = [co]) (hsends : sends env r co = true)
    (halive : co.alive r.now = true) : co ∈ (cookieGetlist env ci r).2 := by
  have hdue : due env r co = true := by simp [due, hsends, halive]
  have hcut : BelowCut env ci r := by
    simp [BelowCut, hlist, List.filter_cons_of_pos hdue, maxCookieSendAmount]
  rw [mem_getlist_iff ho hcut, hlist]
  exact ⟨List.mem_singleton_self co, hdue⟩

theorem sanitizeCookiePath_slash (path : Bytes) :
    (sanitizeCookiePath path).head? = some 47 := by
  unfold sanitizeCookiePath
  generalize (if path.head? = some 34 then _ else path) = p
  dsimp only
  split_ifs with hslash hlong
  · rfl
  · obtain ⟨hlen, -⟩ := hlong
    rw [not_not] at hslash
    cases p with
    | nil => cases hslash
    | cons a p =>
      cases p with
      | nil => simp at hlen
      | cons b p => simpa using hslash
  · exact not_not.mp hslash

/-- A path matches itself. -/
theorem pathmatch_self {path : Bytes} (h : path.head? = some 47) :
    pathmatch path path = true := by
  unfold pathmatch
  rw [if_neg (not_not.mpr h)]
  simp

theorem parseLine_path (hheader : c.httpheader = true) (hparse : parseLine env ci c = some co) :
    ∀ path, co.path = some path → path.head? = some 47 := by
  intro path hpath
  unfold parseLine at hparse
  split at hparse
  · cases hparse
  · obtain ⟨co', hline, hrest⟩ := Option.bind_eq_some_iff.mp hparse
    split_ifs at hrest
    cases hrest
    rw [readLine, if_pos hheader, parseCookieHeader] at hline
    split at hline
    · cases hline
    · obtain ⟨h, -, hstore⟩ := Option.bind_eq_some_iff.mp hline
      split at hstore
      · cases hstore
        simp only [storecookie] at hpath
        split at hpath
        · cases hpath
          exact sanitizeCookiePath_slash _
        · obtain ⟨p, -, rfl⟩ := Option.map_eq_some_iff.mp hpath
          exact sanitizeCookiePath_slash _
      · cases hstore

/-- A request to a host for which a cookie is due. -/
def requestFor (target : Bytes) (co : Cookie) : Request where
  host := target
  path := co.path.getD [47]
  xferSecure := true
  now := co.expires

theorem requestFor_sends (hpath : ∀ path, co.path = some path → path.head? = some 47)
    {target : Bytes} (hrule : domainRule env co target = true) :
    sends env (requestFor target co) co = true := by
  have hcontext : secureContext (requestFor target co) = true := rfl
  simp only [sends, hcontext, Bool.or_true, Bool.true_and, Bool.and_eq_true]
  refine ⟨hrule, ?_⟩
  cases hco : co.path with
  | none => rfl
  | some path =>
    simp only [requestFor, hco, Option.getD_some]
    exact pathmatch_self (hpath path hco)

theorem requestFor_alive (target : Bytes) (co : Cookie) :
    co.alive (requestFor target co).now = true := by
  simp [requestFor, Cookie.alive]

/-- A host outside of a domain that widens it, to which the cookie is sent. -/
theorem exists_target (hstored : Stored env (some host) co (lastDomain (attributes c.line)))
    (hwidens : Widens env host c.line) :
    ∃ target, domainRule env co target = true ∧
      cookiehash env (some target) = cookiehash env co.domain ∧
      ¬Confined env host target co.domain := by
  unfold Widens at hwidens
  generalize lastDomain (attributes c.line) = last at hstored hwidens
  rcases hwidens with rfl | ⟨text, rfl, hip, hname⟩
  · cases hstored with
    | fits hgood =>
      rw [badDomain_colon] at hgood
      cases hgood
    | colon hdomain hflag =>
      have hrule (target : Bytes) (hip : env.hostIsIpnum target = false)
          (hmatch : cookieTailmatch (ascii ":") target = true) :
          domainRule env co target = true := by
        simp [domainRule, hdomain, hflag, hip, hmatch]
      have hdotless (target : Bytes) (hne : upper target ≠ upper host) :
          ¬Confined env host target (some (ascii ":")) := by
        rintro (hsame | ⟨d, hd, hkind, -⟩)
        · exact hne hsame
        · cases hd
          exact absurd hkind (by decide)
      rw [hdomain]
      by_cases hhost : upper (ascii ":") = upper host
      · -- the host itself is the colon, and some other name has its hash
        have hip : env.hostIsIpnum (ascii "us.:") = false := by
          cases hnum : env.hostIsIpnum (ascii "us.:") with
          | true => exact absurd (env.ipnum_digits _ hnum 117 (by decide)) (by decide)
          | false => rfl
        refine ⟨ascii "us.:", hrule _ hip (by decide), ?_, hdotless _ ?_⟩
        · simp only [cookiehash, hip, env.ipnum_colon]
          decide +kernel
        · rw [← hhost]
          decide
      · exact ⟨ascii ":", hrule _ env.ipnum_colon (by decide), rfl, hdotless _ hhost⟩
  · cases hstored with
    | colon =>
      rw [env.ipnum_colon] at hip
      cases hip
    | fits hgood hdomain hhost =>
      refine ⟨text, ?_, by rw [hdomain], ?_⟩
      · have hself : strequal text text = true := (strequal_iff _ _).mpr rfl
        simp [domainRule, hdomain, hip, hself]
      · rintro (hsame | ⟨-, -, -, -, htarget, -⟩)
        · rw [env.ipnum_upper _ _ hsame, hname] at hip
          cases hip
        · rw [hip] at htarget
          cases htarget

/-- A cookie that a host has set with a header line stays confined, unless a jar takes the line, and
its last domain attribute widens it. -/
theorem confined_iff (env : Env) (c : AddCall) (host : Bytes) (hheader : c.httpheader = true)
    (hhost : c.domain = some host) :
    (∀ ci co, addedCookie env ci c = some co → ∀ (actions : List Action) r,
      co ∈ (cookieGetlist env (actions.foldl (step env) (cookieAdd env ci c)) r).2 →
        Confined env host r.host co.domain) ↔
      ¬(Accepted env c ∧ Widens env host c.line) := by
  have hstored {ci : CookieInfo} {co : Cookie} (hadded : addedCookie env ci c = some co) :
      Stored env (some host) co (lastDomain (attributes c.line)) ∧
        ∀ path, co.path = some path → path.head? = some 47 := by
    obtain ⟨co₀, hparse, hdomain, hflag, hpath⟩ := addedCookie_parsed hadded
    have hline := parseLine_stored hheader hparse
    rw [hhost] at hline
    refine ⟨hline.congr hdomain hflag, ?_⟩
    rw [hpath]
    exact parseLine_path hheader hparse
  constructor
  · rintro hall ⟨⟨running, newsession, hsome⟩, hwidens⟩
    obtain ⟨co, hadded⟩ := Option.isSome_iff_exists.mp hsome
    obtain ⟨hline, hpath⟩ := hstored hadded
    obtain ⟨target, hrule, hhash, hnot⟩ := exists_target hline hwidens
    have hlist := emptyJar_add hadded
    rw [← hhash] at hlist
    have ho := cookieAdd_ordered (emptyJar_ordered env running newsession) c
    have hmem := getlist_single (r := requestFor target co) ho hlist (requestFor_sends hpath hrule)
      (requestFor_alive target co)
    exact hnot (hall _ co hadded [] _ hmem)
  · intro hcond ci co hadded actions r hmem
    have hrule : domainRule env co r.host = true := by
      have hsends := getlist_sends hmem
      simp only [sends, Bool.and_eq_true] at hsends
      exact hsends.1.2
    have hwidens : ¬Widens env host c.line := fun h => hcond ⟨accepted_of_added hadded, h⟩
    exact confined_of_sends (hstored hadded).1 hwidens hrule

/-- An environment in which one address is an IP number. -/
def Env.address : Env where
  hostIsIpnum := fun s => s = ascii "1.2.3.4"
  ipnum_upper := by
    have hself (s : Bytes) : s = ascii "1.2.3.4" ↔ upper s = ascii "1.2.3.4" :=
      (upper_eq_iff (by decide +kernel)).symm
    intro s t h
    rw [decide_eq_decide, hself s, hself t, h]
  ipnum_digits := by
    intro s hs
    rw [decide_eq_true_eq] at hs
    subst hs
    decide +kernel
  ipnum_colon := by decide
  getdateCapped := fun _ => none

/-- A header line from `www.example.com`, for the whole domain. -/
def lineForDomain : AddCall :=
  { setLine "a" true with
    line := ascii "a=1; domain=.example.com", domain := some (ascii "www.example.com") }

theorem confined_iff_own :
    (addedCookie .address (emptyJar true false) lineForDomain).isSome = true ∧
    ∀ ci co, addedCookie .address ci lineForDomain = some co → ∀ (actions : List Action) r,
      co ∈ (cookieGetlist .address
        (actions.foldl (step .address) (cookieAdd .address ci lineForDomain)) r).2 →
        Confined .address (ascii "www.example.com") r.host co.domain := by
  have hnarrow : ¬(Accepted .address lineForDomain ∧
      Widens .address (ascii "www.example.com") lineForDomain.line) := by
    have hlast : lastDomain (attributes lineForDomain.line) = some (ascii "example.com") := by
      decide +kernel
    rintro ⟨-, hcolon | ⟨text, htext, hip, -⟩⟩
    · exact absurd (hlast.symm.trans hcolon) (by decide +kernel)
    · cases hlast.symm.trans htext
      exact absurd hip (by decide +kernel)
  exact ⟨by decide +kernel,
    (confined_iff .address lineForDomain (ascii "www.example.com") rfl rfl).mpr hnarrow⟩

/-- A header line from `x.1.2.3.4`. -/
def lineFromName (line : String) : AddCall :=
  { setLine "a" true with line := ascii line, domain := some (ascii "x.1.2.3.4") }

/-- A name sets a cookie for an address. -/
theorem address_not_confined :
    ∃ co, addedCookie .address (emptyJar true false) (lineFromName "a=1; domain=1.2.3.4") =
      some co ∧
      co ∈ (cookieGetlist .address (cookieAdd .address (emptyJar true false)
        (lineFromName "a=1; domain=1.2.3.4")) (requestTo "1.2.3.4")).2 ∧
      ¬Confined .address (ascii "x.1.2.3.4") (requestTo "1.2.3.4").host co.domain := by
  refine ⟨{ setCookie "a" 1 with domain := some (ascii "1.2.3.4"), tailmatch := true }, ?_, ?_, ?_⟩
  · decide +kernel
  · decide +kernel
  · rintro (hsame | ⟨-, -, -, -, htarget, -⟩)
    · exact absurd hsame (by decide)
    · exact absurd htarget (by decide)

end Gurl.Cookies
