import Gurl.Cookies.Reload

/-! The cookies of a jar, written to a file and loaded into an empty jar. -/

namespace Gurl.Cookies

open Strcase Strparse Mprintf Buckets

variable {env : Env} {o : Origin} {ci : CookieInfo} {co : Cookie} {c : AddCall} {now : Int}

/-! ### Cookies from header lines -/

/-- The dates that `Curl_getdate_capped` gives are in the range of `time_t`. -/
def Env.DatesFit (env : Env) : Prop := ∀ text date, env.getdateCapped text = some date →
  date ≤ curlOffTMax

theorem capExpires_le {expires : Int} (h : expires ≤ curlOffTMax) :
    capExpires now expires ≤ curlOffTMax := by
  unfold capExpires
  split
  · rename_i hcap
    dsimp only
    split
    · have hroom : now + cookiesMaxage + 30 < timeTMax := by
        have := hcap.2
        omega
      have hmax : timeTMax = (curlOffTMax : Int) := by decide
      by_cases hneg : 0 ≤ now + cookiesMaxage + 30
      · rw [Int.tdiv_eq_ediv_of_nonneg hneg]
        omega
      · have hquot := @Int.tdiv_nonneg (-(now + cookiesMaxage + 30)) 60 (by omega) (by decide)
        rw [Int.neg_tdiv] at hquot
        omega
    · exact h
  · exact h

theorem parseMaxage_le (val : CurlStr) : parseMaxage now val ≤ curlOffTMax := by
  unfold parseMaxage
  apply capExpires_le
  split
  · exact le_refl _
  · decide
  · split
    · decide
    · split <;> omega

theorem parseExpires_le (hdates : env.DatesFit) {val : CurlStr} {expires : Int}
    (h : expires ≤ curlOffTMax) : parseExpires env now val expires ≤ curlOffTMax := by
  unfold parseExpires
  split
  · apply capExpires_le
    split
    · rename_i date hdate
      split
      · decide
      · exact hdates _ _ hdate
    · decide
  · exact h

/-- What holds of a header line while it is read. -/
structure Header.Fine (h : Header) : Prop where
  name : invalidOctets h.name.text = false
  value : invalidOctets h.value.text = false
  expires : h.co.expires ≤ curlOffTMax
  domain : h.domain ≠ none
  secureMark : (ascii "__Secure-").isPrefixOf h.name.str = true → h.co.prefixSecure = true
  hostMark : (ascii "__Host-").isPrefixOf h.name.str = true → h.co.prefixHost = true

theorem start_fine (host : Bytes) : (Header.start (some host)).Fine where
  name := rfl
  value := rfl
  expires := Int.natCast_nonneg _
  domain := by simp [Header.start]
  secureMark := fun h => nomatch h
  hostMark := fun h => nomatch h

/-- A name does not have both marks. -/
theorem marks_differ {name : Bytes} (h : (ascii "__Secure-").isPrefixOf name = true) :
    (ascii "__Host-").isPrefixOf name = false := by
  obtain ⟨tail, rfl⟩ := List.isPrefixOf_iff_prefix.mp h
  rfl

theorem withPrefix_marks (co : Cookie) (name : Bytes) :
    ((ascii "__Secure-").isPrefixOf name = true → (co.withPrefix name).prefixSecure = true) ∧
    ((ascii "__Host-").isPrefixOf name = true → (co.withPrefix name).prefixHost = true) ∧
    (co.withPrefix name).expires = co.expires := by
  unfold Cookie.withPrefix
  by_cases hsecure : (ascii "__Secure-").isPrefixOf name = true
  · rw [if_pos hsecure]
    refine ⟨fun _ => rfl, fun hhost => ?_, rfl⟩
    rw [marks_differ hsecure] at hhost
    cases hhost
  · rw [if_neg hsecure]
    by_cases hhost : (ascii "__Host-").isPrefixOf name = true
    · rw [if_pos hhost]
      exact ⟨fun h => absurd h hsecure, fun _ => rfl, rfl⟩
    · rw [if_neg hhost]
      exact ⟨fun h => absurd h hsecure, fun h => absurd h hhost, rfl⟩

theorem parseDomain_fine {h h' : Header} {val : CurlStr} (hfine : h.Fine)
    (hparse : parseDomain env h val = some h') : h'.Fine := by
  unfold parseDomain at hparse
  dsimp only at hparse
  split at hparse
  · cases hparse
    refine ⟨hfine.name, hfine.value, hfine.expires, ?_, hfine.secureMark, hfine.hostMark⟩
    change checkedDomain h.domain (dotless val) ≠ none
    unfold checkedDomain
    split
    · simp
    · exact hfine.domain
  · cases hparse

/-- A word of the line. -/
theorem headerAttr_fine (hdates : env.DatesFit) {h h' : Header} {a : Attr} (hfine : h.Fine)
    (hattr : headerAttr env o h a = some h') : h'.Fine := by
  unfold headerAttr at hattr
  split at hattr
  · cases hattr
  rename_i hoctets
  rw [Bool.or_eq_true, not_or, Bool.not_eq_true, Bool.not_eq_true] at hoctets
  split at hattr
  · unfold parseFirstPair at hattr
    split_ifs at hattr
    cases hattr
    obtain ⟨hsecure, hhost, hexpires⟩ := withPrefix_marks h.co a.name.str
    exact ⟨hoctets.1, hoctets.2, hexpires ▸ hfine.expires, hfine.domain, hsecure, hhost⟩
  split at hattr
  · unfold parseFlag at hattr
    split_ifs at hattr <;> cases hattr
    · exact ⟨hfine.name, hfine.value, hfine.expires, hfine.domain, hfine.secureMark,
        hfine.hostMark⟩
    · exact ⟨hfine.name, hfine.value, hfine.expires, hfine.domain, hfine.secureMark,
        hfine.hostMark⟩
    · exact hfine
  split at hattr
  · cases hattr
    exact ⟨hfine.name, hfine.value, hfine.expires, hfine.domain, hfine.secureMark, hfine.hostMark⟩
  split at hattr
  · exact parseDomain_fine hfine hattr
  split at hattr
  · cases hattr
    exact ⟨hfine.name, hfine.value, parseMaxage_le _, hfine.domain, hfine.secureMark,
      hfine.hostMark⟩
  split at hattr
  · cases hattr
    exact ⟨hfine.name, hfine.value, parseExpires_le hdates hfine.expires, hfine.domain,
      hfine.secureMark, hfine.hostMark⟩
  · cases hattr
    exact hfine

theorem headerLoop_fine (hdates : env.DatesFit) {fuel : Nat} {h h' : Header} {ptr : Bytes}
    (hfine : h.Fine) (hloop : headerLoop env o fuel h ptr = some h') : h'.Fine := by
  induction fuel generalizing h ptr with
  | zero => cases hloop
  | succ fuel ih =>
    rw [headerLoop] at hloop
    obtain ⟨h1, hattr, hrest⟩ := Option.bind_eq_some_iff.mp hloop
    have hfine1 : h1.Fine := by
      cases hnext : (nextAttr ptr).1 with
      | none =>
        rw [hnext] at hattr
        cases hattr
        exact hfine
      | some a =>
        rw [hnext] at hattr
        exact headerAttr_fine hdates hfine hattr
    split at hrest
    · exact ih hfine1 hrest
    · cases hrest
      exact hfine1

/-- What holds of a cookie that was set with a header line, by a host and for a path. -/
structure Kept (co : Cookie) : Prop where
  domain : ∃ d, co.domain = some d
  path : ∃ p, co.path = some p ∧ p.head? = some 47
  name : invalidOctets co.name = false
  value : invalidOctets co.value = false
  expires : co.expires ≤ curlOffTMax
  fits : prefixFits (reload co) = true

theorem kept_timeless : Timeless Kept := fun _ _ _ h =>
  ⟨h.domain, h.path, h.name, h.value, h.expires, h.fits⟩

theorem isPrefixOf_take {mark str : Bytes} {n : Nat}
    (h : mark.isPrefixOf (str.take n) = true) : mark.isPrefixOf str = true :=
  List.isPrefixOf_iff_prefix.mpr
    ((List.isPrefixOf_iff_prefix.mp h).trans (List.take_prefix n str))

theorem reload_flags (co : Cookie) :
    (reload co).secure = co.secure ∧ (reload co).path = co.path ∧
      (reload co).tailmatch = co.tailmatch := by
  have hview := reload_view co
  simp only [Cookie.view, CookieView.mk.injEq] at hview
  exact ⟨hview.2.2.2.2.2.1, hview.2.2.2.2.1, hview.2.2.2.1⟩

/-- A cookie that keeps to its mark does so when it is loaded. -/
theorem reload_fits (hsecure : (ascii "__Secure-").isPrefixOf co.name = true →
      co.prefixSecure = true)
    (hhost : (ascii "__Host-").isPrefixOf co.name = true → co.prefixHost = true)
    (h : prefixFits co = true) : prefixFits (reload co) = true := by
  obtain ⟨hs, hp, ht⟩ := reload_flags co
  unfold prefixFits at h ⊢
  rw [hs, hp, ht]
  unfold reload Cookie.withPrefix
  by_cases hmark : (ascii "__Secure-").isPrefixOf co.name = true
  · rw [if_pos hmark]
    rw [hsecure hmark] at h
    simp_all [Cookie.zero]
  · rw [if_neg hmark]
    by_cases hmark' : (ascii "__Host-").isPrefixOf co.name = true
    · rw [if_pos hmark']
      rw [hhost hmark'] at h
      simp_all [Cookie.zero]
    · rw [if_neg hmark']
      rfl

theorem parseLine_kept (hdates : env.DatesFit) (hheader : c.httpheader = true) {host path}
    (hdomain : c.domain = some host) (hpath : c.path = some path)
    (hparse : parseLine env ci c = some co) : Kept co := by
  have hslash := parseLine_path hheader hparse
  unfold parseLine at hparse
  split at hparse
  · cases hparse
  obtain ⟨co', hline, hrest⟩ := Option.bind_eq_some_iff.mp hparse
  split_ifs at hrest with hfits
  cases hrest
  rw [readLine, if_pos hheader, parseCookieHeader, hdomain, hpath] at hline
  split at hline
  · cases hline
  obtain ⟨h, hloop, hstore⟩ := Option.bind_eq_some_iff.mp hline
  have hfine := headerLoop_fine hdates (start_fine host) hloop
  split at hstore
  · cases hstore
    refine ⟨?_, ?_, hfine.name, hfine.value, hfine.expires, ?_⟩
    · change ∃ d, (if h.domainPiece.len ≠ 0 then some h.domainPiece.text else h.domain) = some d
      split
      · exact ⟨_, rfl⟩
      · exact Option.ne_none_iff_exists'.mp hfine.domain
    · have hsome : ∃ p, (storecookie h (some path)).path = some p := by
        change ∃ p, (if h.pathPiece.len ≠ 0 then some (sanitizeCookiePath h.pathPiece.text)
          else some (sanitizeCookiePath (upToSlash path))) = some p
        split <;> exact ⟨_, rfl⟩
      obtain ⟨p, hp⟩ := hsome
      exact ⟨p, hp, hslash p hp⟩
    · exact reload_fits (fun hmark => hfine.secureMark (isPrefixOf_take hmark))
        (fun hmark => hfine.hostMark (isPrefixOf_take hmark)) (by simpa using hfits)
  · cases hstore

/-! ### Loading the lines -/

/-- A cookie is in a jar. -/
theorem mem_jarCookies : co ∈ jarCookies ci ↔ ∃ i, co ∈ ci.cookielist i := by
  simp [jarCookies, List.mem_flatMap]

/-- Which cookies are one only depends on what makes them. -/
theorem sameCookie_congr {a b a' b' : Cookie} (ha : a.view = a'.view) (hb : b.view = b'.view)
    (h : SameCookie a b) : SameCookie a' b' := by
  simp only [Cookie.view, CookieView.mk.injEq] at ha hb
  obtain ⟨hname, -, hdomain, htail, hpath, -⟩ := ha
  obtain ⟨hname', -, hdomain', htail', hpath', -⟩ := hb
  unfold SameCookie at h ⊢
  rw [← hname, ← hname', ← hdomain, ← hdomain', ← htail, ← htail', ← hpath, ← hpath']
  exact h

/-- From a secure origin a new cookie is not refused. -/
theorem replaceLoop_new {l : List Cookie} (h : ∀ old ∈ l, ¬SameCookie old co) (pos : Nat) :
    replaceLoop co true l pos false none = some (false, none) := by
  induction l generalizing pos with
  | nil => rfl
  | cons old l ih =>
    obtain ⟨hold, hrest⟩ := List.forall_mem_cons.mp h
    rw [replaceLoop, if_neg (by simp [overlays])]
    split
    · rename_i hname
      have hother : (sameDomain false old co && decide (old.path = co.path)) = false := by
        rw [Bool.eq_false_iff]
        exact fun hsame => hold ((sameDomain_false_iff old co).mp ⟨hsame, hname.2⟩)
      rw [hother]
      exact ih hrest (pos + 1)
    · exact ih hrest (pos + 1)

theorem replaceExisting_new (h : ∀ i, ∀ old ∈ ci.cookielist i, ¬SameCookie old co) :
    replaceExisting env co ci true = some (co, ci, false) := by
  simp [replaceExisting, replaceLoop_new (h _)]

/-- What is in the way of a cookie in a file: its line is too long or looks like a header line or a
comment, its domain starts with a dot, its path ends in a slash, or one of them has a byte that ends
a field. -/
structure Writable (now : Int) (co : Cookie) : Prop where
  domain : ∀ d, co.domain = some d → d.head? ≠ some 46 ∧
    (co.tailmatch = false → d.head? ≠ some 35) ∧ Field d
  path : ∀ p, co.path = some p → (p.getLast? = some 47 → p = [47]) ∧ Field p
  length : (netscapeFormat co).length + 2 ≤ maxCookieLine
  noHeader : strnequal (ascii "Set-Cookie:") (netscapeFormat co ++ [10]) 11 = false
  expires : 0 ≤ co.expires ∨ co.alive now = false

theorem sanitizeCookiePath_self {p : Bytes} (hslash : p.head? = some 47)
    (hlast : p.getLast? = some 47 → p = [47]) : sanitizeCookiePath p = p := by
  have hquote : ¬ p.head? = some 34 := by
    rw [hslash]
    decide
  unfold sanitizeCookiePath
  simp only [if_neg hquote]
  rw [if_neg (not_not.mpr hslash), if_neg]
  rintro ⟨hlong, hend⟩
  rw [hlast hend] at hlong
  exact absurd hlong (by decide)

theorem readable_of_writable (hkept : Kept co) (h : Writable now co) : Readable co := by
  obtain ⟨d, hd⟩ := hkept.domain
  obtain ⟨p, hp, hslash⟩ := hkept.path
  obtain ⟨hdot, hhash, hdbytes⟩ := h.domain d hd
  obtain ⟨hlast, hpbytes⟩ := h.path p hp
  exact ⟨⟨d, hd, hdot, hdbytes, hhash⟩,
    ⟨p, hp, hslash, hpbytes, sanitizeCookiePath_self hslash hlast⟩,
    hkept.name, hkept.value, hkept.expires⟩

/-- The lines of the file fit. -/
theorem lineFits_of_writable (hkept : Kept co) (h : Writable now co) :
    LineFits maxCookieLine (netscapeFormat co) := by
  obtain ⟨d, hd⟩ := hkept.domain
  obtain ⟨p, hp, -⟩ := hkept.path
  have hmark : Field (ascii "#HttpOnly_") := by
    have hall : ((ascii "#HttpOnly_").all fun c => c ≠ 0 ∧ c ≠ 9 ∧ c ≠ 13 ∧ c ≠ 10) = true := by
      decide +kernel
    intro c hc
    simpa using List.all_eq_true.mp hall c hc
  have hall : ∀ c ∈ netscapeFormat co, c = 9 ∨ c ≠ 0 ∧ c ≠ 9 ∧ c ≠ 13 ∧ c ≠ 10 := by
    intro c hc
    simp only [netscapeFormat, hd, hp, Option.getD_some, List.mem_append, List.mem_cons] at hc
    rcases hc with hc | (hc | hc) | rfl | hc | rfl | hc | rfl | hc | rfl | hc | rfl | hc | rfl | hc
    · split at hc
      · exact .inr (hmark c hc)
      · cases hc
    · exact .inr (field_dotFor co c hc)
    · exact .inr ((h.domain d hd).2.2 c hc)
    · exact .inl rfl
    · exact .inr (field_boolText _ c hc)
    · exact .inl rfl
    · exact .inr ((h.path p hp).2 c hc)
    · exact .inl rfl
    · exact .inr (field_boolText _ c hc)
    · exact .inl rfl
    · exact .inr (field_fmtInt _ c hc)
    · exact .inl rfl
    · exact .inr (field_of_valid hkept.name c hc)
    · exact .inl rfl
    · exact .inr (field_of_valid hkept.value c hc)
  refine ⟨fun hmem => ?_, fun hmem => ?_, h.length⟩
  · exact (hall 10 hmem).elim (by decide) fun hne => hne.2.2.2 rfl
  · exact (hall 0 hmem).elim (by decide) fun hne => hne.1 rfl

/-- What a jar has while the file of some cookies is loaded. -/
structure Loading (env : Env) (cookies : List Cookie) (ci : CookieInfo) : Prop where
  ordered : Ordered env ci
  running : ci.running = false
  newsession : ci.newsession = false
  same : ∀ view, (∃ co ∈ jarCookies ci, co.view = view) ↔
    ∃ co ∈ cookies, 0 ≤ co.expires ∧ co.view = view

theorem parseLine_written {setcookies : Nat} (hset : setcookies < maxSetCookieAmount)
    (hkept : Kept co) (hwritable : Writable now co) (hnewsession : ci.newsession = false) :
    parseLine env ci (fileCall now setcookies (netscapeFormat co ++ [10])) =
      if co.expires < 0 then none else some (reload co) := by
  have hread := @parseNetscape_written { running := ci.running, secure := true, clock := now } co
    rfl (readable_of_writable hkept hwritable)
  simp only [parseLine, readLine, fileCall, hwritable.noHeader, Bool.false_eq_true, if_false]
  rw [if_neg (Nat.not_le.mpr hset), hread]
  split
  · rfl
  · simp [hkept.fits, hnewsession]

/-- A cookie that is not in the jar is added to it. -/
theorem mem_append (replaces : Bool) {a : Cookie} :
    a ∈ jarCookies (ci.append env co replaces) ↔ a ∈ jarCookies ci ∨ a = co := by
  simp only [mem_jarCookies]
  constructor
  · rintro ⟨i, ha⟩
    rcases mem_update_concat ha with hold | ⟨-, heq⟩
    · exact .inl ⟨i, hold⟩
    · exact .inr heq
  · have hlist : (ci.append env co replaces).cookielist =
        Function.update ci.cookielist (cookiehash env co.domain)
          (ci.cookielist (cookiehash env co.domain) ++ [co]) := rfl
    rintro (⟨i, ha⟩ | rfl)
    · refine ⟨i, ?_⟩
      rw [hlist]
      by_cases hi : i = cookiehash env co.domain
      · subst hi
        rw [Function.update_self]
        exact List.mem_append_left _ ha
      · rw [Function.update_of_ne hi]
        exact ha
    · refine ⟨cookiehash env a.domain, ?_⟩
      rw [hlist, Function.update_self]
      exact List.mem_append_right _ (List.mem_singleton_self a)

/-- A line that is read adds its cookie. -/
theorem loadLine_written {cookies : List Cookie} {setcookies : Nat}
    (hset : setcookies < maxSetCookieAmount) (hkept : Kept co) (hwritable : Writable now co)
    (hnew : ∀ old ∈ cookies, ¬SameCookie old co) (h : Loading env cookies ci) :
    ∃ ci', loadLine env now (ci, setcookies) (netscapeFormat co ++ [10]) = (ci', setcookies) ∧
      Loading env (cookies ++ [co]) ci' := by
  have hparse := @parseLine_written env ci co now setcookies hset hkept hwritable h.newsession
  refine ⟨cookieAdd env ci (fileCall now setcookies (netscapeFormat co ++ [10])), ?_, ?_⟩
  · simp [loadLine, fileCall, hwritable.noHeader]
  have hordered := cookieAdd_ordered h.ordered (fileCall now setcookies (netscapeFormat co ++ [10]))
  by_cases hneg : co.expires < 0
  · have hadd : cookieAdd env ci (fileCall now setcookies (netscapeFormat co ++ [10])) = ci := by
      rw [cookieAdd, hparse, if_pos hneg]
    rw [hadd]
    refine ⟨h.ordered, h.running, h.newsession, fun view => (h.same view).trans ?_⟩
    simp only [List.mem_append, List.mem_singleton]
    grind
  · rw [if_neg hneg] at hparse
    have hstamp : (ci.stamp (reload co)).view = co.view := by
      rw [← reload_view co]
      rfl
    have hfresh : ∀ i, ∀ old ∈ (ci.prepare (fileCall now setcookies
        (netscapeFormat co ++ [10]))).cookielist i, ¬SameCookie old (ci.stamp (reload co)) := by
      intro i old hold hsame
      obtain ⟨a, ha, -, hview⟩ := (h.same old.view).mp ⟨old, mem_jarCookies.mpr ⟨i, hold⟩, rfl⟩
      exact hnew a ha (sameCookie_congr hview.symm hstamp hsame)
    have hreplace : replaceExisting env (ci.stamp (reload co))
        (ci.prepare (fileCall now setcookies (netscapeFormat co ++ [10]))) true =
        some (ci.stamp (reload co), _, false) := replaceExisting_new hfresh
    have hadd : cookieAdd env ci (fileCall now setcookies (netscapeFormat co ++ [10])) =
        (ci.prepare (fileCall now setcookies (netscapeFormat co ++ [10]))).append env
          (ci.stamp (reload co)) false := by
      rw [cookieAdd, hparse]
      dsimp only
      rw [show (fileCall now setcookies (netscapeFormat co ++ [10])).secure = true from rfl,
        hreplace]
      rfl
    refine ⟨hordered, ?_, ?_, fun view => ?_⟩
    · rw [hadd]
      exact h.running
    · rw [hadd]
      exact h.newsession
    · rw [hadd]
      have hmem : ∀ a, a ∈ jarCookies ((ci.prepare (fileCall now setcookies
          (netscapeFormat co ++ [10]))).append env (ci.stamp (reload co)) false) ↔
          a ∈ jarCookies ci ∨ a = ci.stamp (reload co) := fun a => mem_append false
      simp only [hmem, List.mem_append, List.mem_singleton]
      have hsame := h.same view
      constructor
      · rintro ⟨a, ha | rfl, hview⟩
        · obtain ⟨b, hb, hexp, hbview⟩ := hsame.mp ⟨a, ha, hview⟩
          exact ⟨b, .inl hb, hexp, hbview⟩
        · exact ⟨co, .inr rfl, not_lt.mp hneg, hstamp.symm.trans hview⟩
      · rintro ⟨b, hb | rfl, hexp, hbview⟩
        · obtain ⟨a, ha, hview⟩ := hsame.mpr ⟨b, hb, hexp, hbview⟩
          exact ⟨a, .inl ha, hview⟩
        · exact ⟨_, .inr rfl, hstamp.trans hbview⟩

/-- The lines of some cookies, behind those of others. -/
theorem loadLines_written {cookies : List Cookie} {setcookies : Nat}
    (hset : setcookies < maxSetCookieAmount) {done : List Cookie}
    (hkept : ∀ co ∈ cookies, Kept co) (hwritable : ∀ co ∈ cookies, Writable now co)
    (hdiffer : (done ++ cookies).Pairwise fun a b => ¬SameCookie a b)
    (h : Loading env done ci) :
    ∃ ci', (cookies.map netscapeFormat).foldl
        (fun s line => loadLine env now s (line ++ [10])) (ci, setcookies) = (ci', setcookies) ∧
      Loading env (done ++ cookies) ci' := by
  induction cookies generalizing ci done with
  | nil =>
    rw [List.append_nil]
    exact ⟨ci, rfl, h⟩
  | cons co cookies ih =>
    obtain ⟨hkept1, hkept2⟩ := List.forall_mem_cons.mp hkept
    obtain ⟨hwrite1, hwrite2⟩ := List.forall_mem_cons.mp hwritable
    have hnew : ∀ old ∈ done, ¬SameCookie old co := fun old hold =>
      (List.pairwise_append.mp hdiffer).2.2 old hold co List.mem_cons_self
    obtain ⟨ci1, hline, hloading⟩ := loadLine_written hset hkept1 hwrite1 hnew h
    rw [List.append_cons] at hdiffer ⊢
    obtain ⟨ci2, hlines, hloading2⟩ := ih hkept2 hwrite2 hdiffer hloading
    refine ⟨ci2, ?_, hloading2⟩
    rw [List.map_cons, List.foldl_cons, hline, hlines]

/-- The empty line at the end of the file is no cookie. -/
theorem loadLine_end (ci : CookieInfo) (setcookies : Nat) :
    loadLine env now (ci, setcookies) [10] = (ci, setcookies) := by
  have hheader : strnequal (ascii "Set-Cookie:") [10] 11 = false := by decide
  have hparse : parseLine env ci (fileCall now setcookies [10]) = none := by
    simp only [parseLine, readLine, fileCall, hheader]
    split <;> rfl
  have hadd : cookieAdd env ci (fileCall now setcookies [10]) = ci := by
    rw [cookieAdd, hparse]
  have hcall : (fileCall now setcookies [10]).httpheader = false := hheader
  simp [loadLine, hadd, hcall]

theorem cookieLoad_init (env : Env) (setcookies : Nat) (now : Int) (file : Bytes) :
    (cookieLoad env cookieInit false setcookies now file).1 =
      { removeExpired now
          (readLines maxCookieLine (loadLine env now) (cookieInit, setcookies) file).1.1 with
        running := true } := rfl

theorem jarCookies_differ (h : Ordered env ci) :
    (jarCookies ci).Pairwise fun a b => ¬SameCookie a b := by
  refine List.pairwise_flatMap.mpr ⟨fun i _ => h.unique.1 i, ?_⟩
  exact (List.nodup_finRange hashSize).imp fun {i j} hne a ha b hb => h.unique.2 i j hne a ha b hb

/-- The cookies that were set with header lines are the same when they come back from a file, if
each of them can be written. -/
theorem cookies_reload {env : Env} (hdates : env.DatesFit) {actions : List Action}
    (hheader : ∀ c, .add c ∈ actions →
      c.httpheader = true ∧ c.domain ≠ none ∧ c.path ≠ none)
    {now : Int} {setcookies : Nat} (hset : setcookies < maxSetCookieAmount) {cookies : List Cookie}
    (hperm : cookies.Perm (jarCookies (run env actions)))
    (hwritable : ∀ co ∈ cookies, Writable now co) :
    Reloads env (run env actions) setcookies now cookies := by
  have hordered := run_ordered env actions
  have hkept : ∀ co ∈ cookies, Kept co := by
    intro co hco
    obtain ⟨i, hmem⟩ := mem_jarCookies.mp (hperm.mem_iff.mp hco)
    refine foldl_all kept_timeless ordered_init (fun c hc ci co hparse => ?_)
      (fun _ _ hco => nomatch hco) i co hmem
    obtain ⟨hline, hdomain, hpath⟩ := hheader c hc
    obtain ⟨host, hhost⟩ := Option.ne_none_iff_exists'.mp hdomain
    obtain ⟨path, hpath⟩ := Option.ne_none_iff_exists'.mp hpath
    exact parseLine_kept hdates hline hhost hpath hparse
  have hdiffer : ([] ++ cookies).Pairwise fun a b => ¬SameCookie a b :=
    (hperm.pairwise_iff (fun {a b} => not_same_symm a b)).mpr (jarCookies_differ hordered)
  have hempty : Loading env [] cookieInit :=
    ⟨ordered_init, rfl, rfl, fun view => by simp [jarCookies, cookieInit]⟩
  obtain ⟨ci, hlines, hloading⟩ := loadLines_written hset hkept hwritable hdiffer hempty
  have hfits : ∀ line ∈ cookies.map netscapeFormat, LineFits maxCookieLine line := by
    intro line hline
    obtain ⟨co, hco, rfl⟩ := List.mem_map.mp hline
    exact lineFits_of_writable (hkept co hco) (hwritable co hco)
  have hread : readLines maxCookieLine (loadLine env now) (cookieInit, setcookies)
      (netscapeFile cookies) = ((ci, setcookies), .ok) := by
    rw [netscapeFile, readLines_lines (by decide) _ _ hfits, hlines, loadLine_end]
  have hload : (cookieLoad env cookieInit false setcookies now (netscapeFile cookies)).1 =
      { removeExpired now ci with running := true } := by
    rw [cookieLoad_init, hread]
  intro view
  have halive : ∀ a b : Cookie, a.view = b.view → a.alive now = b.alive now := by
    intro a b hview
    simp only [Cookie.view, CookieView.mk.injEq] at hview
    rw [Cookie.alive, Cookie.alive, hview.2.2.2.2.2.2.2]
  have hmem : ∀ co, co ∈ jarCookies { removeExpired now ci with running := true } ↔
      co ∈ jarCookies ci ∧ co.alive now = true := by
    intro co
    simp only [mem_jarCookies, (removeExpired_spec now hloading.ordered.noted).1, List.mem_filter,
      exists_and_right]
  rw [hload]
  simp only [hmem]
  constructor
  · rintro ⟨a, ⟨ha, haliv⟩, hview⟩
    obtain ⟨b, hb, -, hbview⟩ := (hloading.same view).mp ⟨a, ha, hview⟩
    exact ⟨b, hperm.mem_iff.mp hb, (halive b a (hbview.trans hview.symm)).trans haliv, hbview⟩
  · rintro ⟨b, hb, haliv, hbview⟩
    have hb' := hperm.mem_iff.mpr hb
    have hexp : 0 ≤ b.expires := by
      rcases (hwritable b hb').expires with hexp | hdead
      · exact hexp
      · rw [hdead] at haliv
        cases haliv
    obtain ⟨a, ha, hview⟩ := (hloading.same view).mpr ⟨b, hb', hexp, hbview⟩
    exact ⟨a, ⟨ha, (halive a b (hview.trans hbview.symm)).trans haliv⟩, hview⟩

/-- Three header lines, of which the last is for three seconds. -/
def reloadedLines : List Action :=
  [.load true false, .add { setLine "a" true with line := ascii "a=1; path=/x; Max-Age=60" },
    .add { setLine "b" true with line := ascii "b=1; domain=example.com; HttpOnly" },
    .add { setLine "b" true with line := ascii "b=1; path=/y; Max-Age=3" }]

/-- Their cookies. -/
def reloadedCookies : List Cookie :=
  [{ setCookie "a" 1 with path := some (ascii "/x"), expires := 60 },
    { setCookie "b" 2 with tailmatch := true, httponly := true },
    { setCookie "b" 3 with path := some (ascii "/y"), expires := 3 }]

theorem cookies_reload_three :
    (∀ co ∈ reloadedCookies, Writable 5 co) ∧
      Reloads .names (run .names reloadedLines) 0 5 reloadedCookies := by
  have hwritable : ∀ co ∈ reloadedCookies, Writable 5 co := by
    intro co hco
    have hfield : ∀ co ∈ reloadedCookies, ∀ f ∈ co.domain.toList ++ co.path.toList, Field f := by
      unfold Field
      decide +kernel
    have hrest : ∀ co ∈ reloadedCookies, (∀ d ∈ co.domain, d.head? ≠ some 46 ∧ d.head? ≠ some 35) ∧
        (∀ p ∈ co.path, p.getLast? = some 47 → p = [47]) ∧
        (netscapeFormat co).length + 2 ≤ maxCookieLine ∧
        strnequal (ascii "Set-Cookie:") (netscapeFormat co ++ [10]) 11 = false ∧
          0 ≤ co.expires := by
      decide +kernel
    obtain ⟨hdomain, hpath, hlength, hline, hexp⟩ := hrest co hco
    exact ⟨fun d hd => ⟨(hdomain d hd).1, fun _ => (hdomain d hd).2,
        hfield co hco d (by simp [hd])⟩,
      fun p hp => ⟨hpath p hp, hfield co hco p (by simp [hp])⟩, hlength, hline, .inl hexp⟩
  have hdates : Env.names.DatesFit := by
    intro text date hdate
    cases hdate
  refine ⟨hwritable, cookies_reload hdates (fun c hc => ?_) (by decide) ?_ hwritable⟩
  · simp only [reloadedLines, List.mem_cons, reduceCtorEq, Action.add.injEq, List.not_mem_nil,
      or_false, false_or] at hc
    rcases hc with rfl | rfl | rfl <;> exact ⟨rfl, by decide, by decide⟩
  · have hjar : jarCookies (run .names reloadedLines) = reloadedCookies := by decide +kernel
    rw [hjar]

/-- A path with two slashes at its end loses one in the jar and the other one in the file. -/
theorem slash_lost_in_file :
    (jarCookies (run .names (oneLine "a=1; path=/a//" (some (ascii "example.com"))))).map
        Cookie.view = [{ setCookie "a" 1 with path := some (ascii "/a/") }.view] ∧
      ¬Reloads .names (run .names (oneLine "a=1; path=/a//" (some (ascii "example.com")))) 0 0
        (jarCookies (run .names (oneLine "a=1; path=/a//" (some (ascii "example.com"))))) := by
  have hjar : jarCookies (run .names (oneLine "a=1; path=/a//" (some (ascii "example.com")))) =
      [{ setCookie "a" 1 with path := some (ascii "/a/") }] := by decide +kernel
  have hloaded : ∀ co ∈ jarCookies (cookieLoad .names cookieInit false 0 0
      (netscapeFile [{ setCookie "a" 1 with path := some (ascii "/a/") }])).1,
      co.path = some (ascii "/a") := by decide +kernel
  rw [hjar]
  refine ⟨rfl, fun h => ?_⟩
  have hview := h { setCookie "a" 1 with path := some (ascii "/a/") }.view
  rw [hjar] at hview
  obtain ⟨co, hco, hsame⟩ := hview.mpr ⟨_, List.mem_singleton_self _, rfl, rfl⟩
  have hpath : co.path = some (ascii "/a/") := congrArg CookieView.path hsame
  rw [hloaded co hco] at hpath
  exact absurd hpath (by decide)

end Gurl.Cookies
