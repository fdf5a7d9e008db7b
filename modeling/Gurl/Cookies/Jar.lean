import Gurl.Cookies.Parse
import Gurl.Lib.Buckets

/-! The cookie jar of `lib/cookie.c`: adding cookies, removing them, and looking up those that a
request sends. -/

namespace Gurl.Cookies

open Strcase

/-- `struct CookieInfo`. -/
structure CookieInfo where
  cookielist : Fin hashSize → List Cookie
  nextExpiration : Int
  numcookies : UInt32
  lastct : UInt32
  running : Bool
  newsession : Bool

/-- `Curl_cookie_init`. -/
def cookieInit : CookieInfo where
  cookielist := fun _ => []
  nextExpiration := curlOffTMax
  numcookies := 0
  lastct := 0
  running := false
  newsession := false

def CookieInfo.setList (ci : CookieInfo) (i : Fin hashSize) (l : List Cookie) : CookieInfo :=
  { ci with cookielist := Function.update ci.cookielist i l }

/-! ### Removing cookies -/

/-- The inner loop of `remove_expired`: what is left of a list, `numcookies` and
`next_expiration`. -/
def expireLoop (now : Int) : List Cookie → UInt32 → Int → List Cookie × UInt32 × Int
  | [], num, next => ([], num, next)
  | co :: l, num, next =>
    if co.expires ≠ 0 then
      if co.expires < now then expireLoop now l (num - 1) next
      else
        let next := if co.expires < next then co.expires else next
        (co :: (expireLoop now l num next).1, (expireLoop now l num next).2)
    else (co :: (expireLoop now l num next).1, (expireLoop now l num next).2)

/-- The outer loop of `remove_expired`, for one list. -/
def expireList (now : Int) (ci : CookieInfo) (i : Fin hashSize) : CookieInfo :=
  let (l, num, next) := expireLoop now (ci.cookielist i) ci.numcookies ci.nextExpiration
  { ci.setList i l with numcookies := num, nextExpiration := next }

/-- `remove_expired`. -/
def removeExpired (now : Int) (ci : CookieInfo) : CookieInfo :=
  if now < ci.nextExpiration ∧ ci.nextExpiration ≠ curlOffTMax then ci
  else (List.finRange hashSize).foldl (expireList now) { ci with nextExpiration := curlOffTMax }

/-- The inner loop of `Curl_cookie_clearsess`. -/
def clearsessLoop : List Cookie → UInt32 → List Cookie × UInt32
  | [], num => ([], num)
  | co :: l, num =>
    if co.expires = 0 then clearsessLoop l (num - 1)
    else (co :: (clearsessLoop l num).1, (clearsessLoop l num).2)

def clearsessList (ci : CookieInfo) (i : Fin hashSize) : CookieInfo :=
  let (l, num) := clearsessLoop (ci.cookielist i) ci.numcookies
  { ci.setList i l with numcookies := num }

/-- `Curl_cookie_clearsess`. -/
def cookieClearsess (ci : CookieInfo) : CookieInfo :=
  (List.finRange hashSize).foldl clearsessList ci

/-- `Curl_cookie_clearall`. -/
def cookieClearall (ci : CookieInfo) : CookieInfo :=
  { ci with cookielist := fun _ => [], numcookies := 0 }

/-! ### Adding a cookie -/

/-- The part of a path that a cookie protects: up to the second slash. -/
def firstLabel (path : Bytes) : Bytes :=
  match path with
  | [] => []
  | c :: rest => c :: rest.takeWhile (· ≠ 47)

/-- `matching_domains` in `replace_existing`. -/
def matchingDomains : Option Bytes → Option Bytes → Bool
  | some old, some new => cookieTailmatch old new || cookieTailmatch new old
  | none, none => true
  | _, _ => false

/-- The secure cookie `old` must not be overlaid by `co`. -/
def overlays (old co : Cookie) (secure : Bool) : Bool :=
  matchingDomains old.domain co.domain && old.secure && !co.secure && !secure &&
    match old.path, co.path with
    | some path, some newPath => (firstLabel path).isPrefixOf newPath
    | _, _ => false

/-- The first assignment to `replace_old` in `replace_existing`. -/
def sameDomain (replaceOld : Bool) (old co : Cookie) : Bool :=
  match old.domain, co.domain with
  | some d, some e => if strequal d e && old.tailmatch == co.tailmatch then true else replaceOld
  | none, none => true
  | _, _ => replaceOld

/-- The loop of `replace_existing`: `replace_old` and the position of `replace_n`, unless the new
cookie is refused. -/
def replaceLoop (co : Cookie) (secure : Bool) : List Cookie → Nat → Bool → Option Nat →
    Option (Bool × Option Nat)
  | [], _, replaceOld, replaceN => some (replaceOld, replaceN)
  | old :: l, pos, replaceOld, replaceN =>
    if old.name = co.name ∧ overlays old co secure then none
    else if replaceN = none ∧ old.name = co.name then
      let replaceOld := sameDomain replaceOld old co && decide (old.path = co.path)
      if replaceOld && !co.livecookie && old.livecookie then none
      else replaceLoop co secure l (pos + 1) replaceOld (if replaceOld then some pos else replaceN)
    else replaceLoop co secure l (pos + 1) replaceOld replaceN

/-- `replace_existing`: the cookie with its creation time, the jar without the old cookie, and
`*replacep`. -/
def replaceExisting (env : Env) (co : Cookie) (ci : CookieInfo) (secure : Bool) :
    Option (Cookie × CookieInfo × Bool) := do
  let myhash := cookiehash env co.domain
  let (replaceOld, replaceN) ← replaceLoop co secure (ci.cookielist myhash) 0 false none
  match replaceN with
  | none => some (co, ci, replaceOld)
  | some n => do
    let repl ← (ci.cookielist myhash)[n]?
    some ({ co with creationtime := repl.creationtime },
      ci.setList myhash ((ci.cookielist myhash).eraseIdx n), replaceOld)

/-- What `Curl_cookie_add` is called with: a header line or a line of a file, `req.setcookies`, the
time while it parses and while it removes cookies, and whether there is memory for the cookie. -/
structure AddCall where
  httpheader : Bool
  noexpire : Bool
  line : Bytes
  domain : Option Bytes
  path : Option Bytes
  secure : Bool
  setcookies : Nat
  clock : Int
  now : Int
  clone : Bool

/-- `MAX_SET_COOKIE_AMOUNT`. -/
def maxSetCookieAmount : Nat := 50

/-- The `__Secure-` and `__Host-` names are only for cookies that keep to them. -/
def prefixFits (co : Cookie) : Bool :=
  (!co.prefixSecure || co.secure) &&
    (!co.prefixHost || co.secure && co.path == some [47] && !co.tailmatch)

/-- What a line stands for. -/
def readLine (env : Env) (ci : CookieInfo) (c : AddCall) : Option Cookie :=
  let o : Origin := { running := ci.running, secure := c.secure, clock := c.clock }
  if c.httpheader then parseCookieHeader env o c.line c.domain c.path else parseNetscape o c.line

/-- The cookie that a line stands for, if it is to be added at all. -/
def parseLine (env : Env) (ci : CookieInfo) (c : AddCall) : Option Cookie :=
  if c.setcookies ≥ maxSetCookieAmount then none
  else do
    let co ← readLine env ci c
    if !prefixFits co then none
    else if !ci.running && ci.newsession && co.expires = 0 then none
    else some co

/-- Add a cookie to the list of its domain, and count it. -/
def CookieInfo.append (env : Env) (ci : CookieInfo) (co : Cookie) (replaces : Bool) : CookieInfo :=
  let i := cookiehash env co.domain
  { ci.setList i (ci.cookielist i ++ [co]) with
    numcookies := if replaces then ci.numcookies else ci.numcookies + 1
    nextExpiration := if co.expires ≠ 0 ∧ co.expires < ci.nextExpiration then co.expires
      else ci.nextExpiration }

/-- The jar in which `replace_existing` looks: with a new creation time and without expired
cookies. -/
def CookieInfo.prepare (ci : CookieInfo) (c : AddCall) : CookieInfo :=
  let ci := { ci with lastct := ci.lastct + 1 }
  if c.noexpire then ci else removeExpired c.now ci

/-- The cookie that `replace_existing` is asked about. -/
def CookieInfo.stamp (ci : CookieInfo) (co : Cookie) : Cookie :=
  { co with livecookie := ci.running, creationtime := ci.lastct + 1 }

/-- `Curl_cookie_add`, without libpsl. -/
def cookieAdd (env : Env) (ci : CookieInfo) (c : AddCall) : CookieInfo :=
  match parseLine env ci c with
  | none => ci
  | some co =>
    match replaceExisting env (ci.stamp co) (ci.prepare c) c.secure with
    | none => ci.prepare c
    | some (co, ci, replaces) => if c.clone then ci.append env co replaces else ci

/-! ### Looking up cookies -/

/-- A request: its host, its path, whether the transfer is secure, and the time. -/
structure Request where
  host : Bytes
  path : Bytes
  xferSecure : Bool
  now : Int

/-- `Curl_secure_context`. -/
def secureContext (r : Request) : Bool :=
  r.xferSecure || strequal localhost r.host || r.host = ascii "127.0.0.1" || r.host = ascii "::1"

/-- The domain rule of `Curl_cookie_getlist`. -/
def domainRule (env : Env) (co : Cookie) (host : Bytes) : Bool :=
  match co.domain with
  | none => true
  | some domain =>
    let isIp := env.hostIsIpnum host
    co.tailmatch && !isIp && cookieTailmatch domain host ||
      (!co.tailmatch || isIp) && strequal host domain

/-- A cookie is sent with a request. -/
def sends (env : Env) (r : Request) (co : Cookie) : Bool :=
  (!co.secure || secureContext r) && domainRule env co r.host &&
    match co.path with
    | none => true
    | some path => pathmatch path r.path

/-- `MAX_COOKIE_SEND_AMOUNT`. -/
def maxCookieSendAmount : Nat := 150

/-- The loop of `Curl_cookie_getlist`, behind `matched` cookies. -/
def matchLoop (env : Env) (r : Request) : Nat → List Cookie → List Cookie
  | _, [] => []
  | matched, co :: l =>
    if sends env r co then
      co :: if matched + 1 ≥ maxCookieSendAmount then [] else matchLoop env r (matched + 1) l
    else matchLoop env r matched l

/-- `cookie_sort` is negative. -/
def cookieSort (c1 c2 : Cookie) : Bool :=
  let l1 := (c1.path.map List.length).getD 0
  let l2 := (c2.path.map List.length).getD 0
  let d1 := (c1.domain.map List.length).getD 0
  let d2 := (c2.domain.map List.length).getD 0
  if l1 ≠ l2 then l2 < l1
  else if d1 ≠ d2 then d2 < d1
  else if c1.name.length ≠ c2.name.length then c2.name.length < c1.name.length
  else !(c1.creationtime < c2.creationtime)

/-- `Curl_cookie_getlist`: the jar and the cookies to send. -/
def cookieGetlist (env : Env) (ci : CookieInfo) (r : Request) : CookieInfo × List Cookie :=
  let myhash := cookiehash env (some r.host)
  if ci.cookielist myhash = [] then (ci, [])
  else
    let ci := removeExpired r.now ci
    (ci, (matchLoop env r 0 (ci.cookielist myhash)).mergeSort cookieSort)

/-! ### Everything that happens to a jar -/

/-- A call on the jar, or the flags that `cookie_load` sets. -/
inductive Action where
  | add (call : AddCall)
  | removeExpired (now : Int)
  | clearsess
  | clearall
  | getlist (request : Request)
  | load (running newsession : Bool)

def step (env : Env) (ci : CookieInfo) : Action → CookieInfo
  | .add c => cookieAdd env ci c
  | .removeExpired now => removeExpired now ci
  | .clearsess => cookieClearsess ci
  | .clearall => cookieClearall ci
  | .getlist r => (cookieGetlist env ci r).1
  | .load running newsession => { ci with running, newsession }

/-- The jar after some actions. -/
def run (env : Env) (actions : List Action) : CookieInfo := actions.foldl (step env) cookieInit

/-! What holds of every jar: its count, where its cookies are, that they are different, and the next
time at which one of them expires. -/

open Buckets

variable {env : Env} {ci ci' : CookieInfo} {now : Int} {p : Cookie → Bool}

/-! ### Removing cookies from the lists -/

/-- The count of `ci'` differs from the one of `ci` as the lists do. -/
def Counted (ci ci' : CookieInfo) : Prop :=
  ci'.numcookies + UInt32.ofNat (total ci.cookielist) =
    ci.numcookies + UInt32.ofNat (total ci'.cookielist)

theorem Counted.trans {ci₁ ci₂ ci₃ : CookieInfo} (h : Counted ci₁ ci₂) (h' : Counted ci₂ ci₃) :
    Counted ci₁ ci₃ := by
  unfold Counted at *
  grind

/-- `f` keeps of a list the cookies with `p`, and counts what it removes. -/
structure Filters (p : Cookie → Bool) (f : CookieInfo → Fin hashSize → CookieInfo) : Prop where
  list : ∀ ci i, (f ci i).cookielist =
    Function.update ci.cookielist i ((ci.cookielist i).filter p)
  count : ∀ ci i, (f ci i).numcookies + UInt32.ofNat (ci.cookielist i).length =
    ci.numcookies + UInt32.ofNat ((ci.cookielist i).filter p).length
  lastct : ∀ ci i, (f ci i).lastct = ci.lastct

theorem Filters.counted {f : CookieInfo → Fin hashSize → CookieInfo} (h : Filters p f)
    (ci : CookieInfo) (i : Fin hashSize) : Counted ci (f ci i) := by
  have htotal := congrArg UInt32.ofNat
    (total_update ci.cookielist i ((ci.cookielist i).filter p))
  have hcount := h.count ci i
  rw [UInt32.ofNat_add, UInt32.ofNat_add] at htotal
  rw [Counted, h.list ci i]
  grind

/-- The loop over all lists. -/
theorem Filters.fold {f : CookieInfo → Fin hashSize → CookieInfo} (h : Filters p f)
    (is : List (Fin hashSize)) (ci : CookieInfo) :
    (∀ i, (is.foldl f ci).cookielist i =
      if i ∈ is then (ci.cookielist i).filter p else ci.cookielist i) ∧
    Counted ci (is.foldl f ci) ∧ (is.foldl f ci).lastct = ci.lastct := by
  induction is generalizing ci with
  | nil => exact ⟨fun i => by simp, rfl, rfl⟩
  | cons j is ih =>
    obtain ⟨hlist, hcount, hlast⟩ := ih (f ci j)
    refine ⟨fun i => ?_, (h.counted ci j).trans hcount, hlast.trans (h.lastct ci j)⟩
    rw [List.foldl_cons, hlist i, h.list ci j]
    by_cases hi : i = j
    · subst hi
      simp [List.filter_filter]
    · simp [hi]

theorem mem_all (i : Fin hashSize) : i ∈ List.finRange hashSize := List.mem_finRange i

/-! ### Expired cookies -/

/-- The cookie has not expired. -/
def Cookie.alive (now : Int) (co : Cookie) : Bool := co.expires = 0 || now ≤ co.expires

theorem expireLoop_spec (now : Int) (l : List Cookie) (num : UInt32) (next : Int) :
    (expireLoop now l num next).1 = l.filter (Cookie.alive now) ∧
    (expireLoop now l num next).2.1 + UInt32.ofNat l.length =
      num + UInt32.ofNat (l.filter (Cookie.alive now)).length ∧
    (expireLoop now l num next).2.2 ≤ next ∧
    ∀ co ∈ (expireLoop now l num next).1, co.expires ≠ 0 →
      (expireLoop now l num next).2.2 ≤ co.expires := by
  induction l generalizing num next with
  | nil => simp [expireLoop]
  | cons co l ih =>
    unfold expireLoop
    by_cases hzero : co.expires = 0
    · have halive : co.alive now = true := by simp [Cookie.alive, hzero]
      obtain ⟨hlist, hcount, hle, hnext⟩ := ih num next
      rw [if_neg (not_not.mpr hzero), List.filter_cons_of_pos halive]
      refine ⟨by rw [hlist], ?_, hle, ?_⟩
      · rw [List.length_cons, List.length_cons, UInt32.ofNat_add, UInt32.ofNat_add]
        grind
      · intro co' hco' hne
        rcases List.mem_cons.mp hco' with rfl | hco'
        · exact absurd hzero hne
        · exact hnext co' hco' hne
    · rw [if_pos hzero]
      by_cases hexpired : co.expires < now
      · have halive : ¬co.alive now = true := by simp [Cookie.alive, hzero, hexpired]
        obtain ⟨hlist, hcount, hle, hnext⟩ := ih (num - 1) next
        rw [if_pos hexpired, List.filter_cons_of_neg halive]
        refine ⟨hlist, ?_, hle, hnext⟩
        rw [List.length_cons, UInt32.ofNat_add]
        grind
      · have halive : co.alive now = true := by simpa [Cookie.alive, hzero] using hexpired
        obtain ⟨hlist, hcount, hle, hnext⟩ :=
          ih num (if co.expires < next then co.expires else next)
        rw [if_neg hexpired, List.filter_cons_of_pos halive]
        dsimp only
        have hmin : (if co.expires < next then co.expires else next) ≤ next := by
          split <;> omega
        have hmin' : (if co.expires < next then co.expires else next) ≤ co.expires := by
          split <;> omega
        refine ⟨by rw [hlist], ?_, hle.trans hmin, ?_⟩
        · rw [List.length_cons, List.length_cons, UInt32.ofNat_add, UInt32.ofNat_add]
          grind
        · intro co' hco' hne
          rcases List.mem_cons.mp hco' with rfl | hco'
          · exact hle.trans hmin'
          · exact hnext co' hco' hne

theorem expireList_filters (now : Int) : Filters (Cookie.alive now) (expireList now) where
  list := fun ci i => by
    rw [← (expireLoop_spec now (ci.cookielist i) ci.numcookies ci.nextExpiration).1]
    rfl
  count := fun ci i => (expireLoop_spec now (ci.cookielist i) ci.numcookies ci.nextExpiration).2.1
  lastct := fun _ _ => rfl

/-- No cookie of the list `i` expires before the time that is noted. -/
def Noted (ci : CookieInfo) (i : Fin hashSize) : Prop :=
  ∀ co ∈ ci.cookielist i, co.expires ≠ 0 → ci.nextExpiration ≤ co.expires

theorem expireList_noted (now : Int) (ci : CookieInfo) (i : Fin hashSize) :
    Noted (expireList now ci i) i := by
  intro co hco
  have hlist : (expireList now ci i).cookielist i =
      (expireLoop now (ci.cookielist i) ci.numcookies ci.nextExpiration).1 := by
    exact Function.update_self ..
  rw [hlist] at hco
  exact (expireLoop_spec now _ _ _).2.2.2 co hco

theorem expireList_keeps (now : Int) {i : Fin hashSize} (h : Noted ci i) (j : Fin hashSize) :
    Noted (expireList now ci j) i := by
  intro co hco hne
  have hle := (expireLoop_spec now (ci.cookielist j) ci.numcookies ci.nextExpiration).2.2.1
  rw [(expireList_filters now).list] at hco
  rcases mem_update hco with ⟨rfl, hco⟩ | ⟨-, hco⟩
  · exact hle.trans (h co (List.mem_filter.mp hco).1 hne)
  · exact hle.trans (h co hco hne)

theorem expireFold_noted (now : Int) (is : List (Fin hashSize)) (ci : CookieInfo)
    {i : Fin hashSize} (h : i ∈ is ∨ Noted ci i) :
    Noted (is.foldl (expireList now) ci) i := by
  induction is generalizing ci with
  | nil => exact h.resolve_left List.not_mem_nil
  | cons j is ih =>
    refine ih (expireList now ci j) ?_
    rcases h with h | h
    · rcases List.mem_cons.mp h with rfl | h
      · exact .inr (expireList_noted now ci i)
      · exact .inl h
    · exact .inr (expireList_keeps now h j)

/-- What `remove_expired` does. -/
theorem removeExpired_spec (now : Int) (hnoted : ∀ i, Noted ci i) :
    (∀ i, (removeExpired now ci).cookielist i = (ci.cookielist i).filter (Cookie.alive now)) ∧
    Counted ci (removeExpired now ci) ∧ (removeExpired now ci).lastct = ci.lastct ∧
    ∀ i, Noted (removeExpired now ci) i := by
  unfold removeExpired
  split
  · rename_i hearly
    refine ⟨fun i => ?_, rfl, rfl, hnoted⟩
    refine (List.filter_eq_self.mpr fun co hco => ?_).symm
    by_cases hzero : co.expires = 0
    · simp [Cookie.alive, hzero]
    · have hle := hnoted i co hco hzero
      simp only [Cookie.alive, hzero, decide_false, Bool.false_or, decide_eq_true_eq]
      omega
  · obtain ⟨hlist, hcount, hlast⟩ := (expireList_filters now).fold (List.finRange hashSize)
      { ci with nextExpiration := curlOffTMax }
    refine ⟨fun i => ?_, hcount, hlast, fun i => expireFold_noted now _ _ (.inl (mem_all i))⟩
    rw [hlist i, if_pos (mem_all i)]

/-! ### Session cookies -/

theorem clearsessLoop_spec (l : List Cookie) (num : UInt32) :
    (clearsessLoop l num).1 = l.filter (·.expires ≠ 0) ∧
    (clearsessLoop l num).2 + UInt32.ofNat l.length =
      num + UInt32.ofNat (l.filter (·.expires ≠ 0)).length := by
  induction l generalizing num with
  | nil => simp [clearsessLoop]
  | cons co l ih =>
    unfold clearsessLoop
    by_cases hzero : co.expires = 0
    · obtain ⟨hlist, hcount⟩ := ih (num - 1)
      rw [if_pos hzero, List.filter_cons_of_neg (by simpa using hzero)]
      refine ⟨hlist, ?_⟩
      rw [List.length_cons, UInt32.ofNat_add]
      grind
    · obtain ⟨hlist, hcount⟩ := ih num
      rw [if_neg hzero, List.filter_cons_of_pos (by simpa using hzero)]
      refine ⟨by rw [hlist], ?_⟩
      rw [List.length_cons, List.length_cons, UInt32.ofNat_add, UInt32.ofNat_add]
      grind

theorem clearsessList_filters : Filters (·.expires ≠ 0) clearsessList where
  list := fun ci i => by
    rw [← (clearsessLoop_spec (ci.cookielist i) ci.numcookies).1]
    rfl
  count := fun ci i => (clearsessLoop_spec (ci.cookielist i) ci.numcookies).2
  lastct := fun _ _ => rfl

theorem clearsessFold_next (is : List (Fin hashSize)) (ci : CookieInfo) :
    (is.foldl clearsessList ci).nextExpiration = ci.nextExpiration := by
  induction is generalizing ci with
  | nil => rfl
  | cons i is ih => exact ih (clearsessList ci i)

/-! ### Replacing a cookie -/

/-- The cookies are one for `replace_existing`. -/
def SameCookie (a b : Cookie) : Prop :=
  a.name = b.name ∧ a.path = b.path ∧
    match a.domain, b.domain with
    | some d, some e => upper d = upper e ∧ a.tailmatch = b.tailmatch
    | none, none => True
    | _, _ => False

theorem sameDomain_false_iff (old co : Cookie) :
    (sameDomain false old co && decide (old.path = co.path)) = true ∧ old.name = co.name ↔
      SameCookie old co := by
  unfold sameDomain SameCookie
  cases old.domain <;> cases co.domain <;> simp [strequal_iff] <;> tauto

theorem SameCookie.symm {a b : Cookie} (h : SameCookie a b) : SameCookie b a := by
  obtain ⟨hname, hpath, hdomain⟩ := h
  refine ⟨hname.symm, hpath.symm, ?_⟩
  cases ha : a.domain <;> cases hb : b.domain <;> simp_all

theorem SameCookie.trans {a b c : Cookie} (h : SameCookie a b) (h' : SameCookie b c) :
    SameCookie a c := by
  obtain ⟨hname, hpath, hdomain⟩ := h
  obtain ⟨hname', hpath', hdomain'⟩ := h'
  refine ⟨hname.trans hname', hpath.trans hpath', ?_⟩
  cases ha : a.domain <;> cases hb : b.domain <;> cases hc : c.domain <;> simp_all

/-- Cookies that are one have the same hash. -/
theorem SameCookie.hash {a b : Cookie} (h : SameCookie a b) :
    cookiehash env a.domain = cookiehash env b.domain := by
  have hdomain := h.2.2
  cases ha : a.domain <;> cases hb : b.domain <;> simp only [ha, hb] at hdomain
  · rfl
  · exact cookiehash_congr env hdomain.1

/-- Behind the cookie to replace, the loop only refuses. -/
theorem replaceLoop_found (co : Cookie) (secure : Bool) (l : List Cookie) (pos n : Nat)
    {res : Bool × Option Nat} (h : replaceLoop co secure l pos true (some n) = some res) :
    res = (true, some n) := by
  induction l generalizing pos with
  | nil =>
    cases h
    rfl
  | cons old l ih =>
    rw [replaceLoop] at h
    split_ifs at h with hoverlay hname
    · cases hname.1
    · exact ih (pos + 1) h

/-- What the loop finds: the first cookie that is one with the new cookie. -/
theorem replaceLoop_spec (co : Cookie) (secure : Bool) (l : List Cookie) (pos : Nat)
    {res : Bool × Option Nat} (h : replaceLoop co secure l pos false none = some res) :
    (res = (false, none) ∧ ∀ old ∈ l, ¬SameCookie old co) ∨
    ∃ n old, res = (true, some (pos + n)) ∧ l[n]? = some old ∧ SameCookie old co := by
  induction l generalizing pos with
  | nil =>
    cases h
    exact .inl ⟨rfl, fun old hold => nomatch hold⟩
  | cons old l ih =>
    rw [replaceLoop] at h
    split at h
    · cases h
    by_cases hsame : SameCookie old co
    · obtain ⟨hold, hname⟩ := (sameDomain_false_iff old co).mpr hsame
      rw [if_pos ⟨rfl, hname⟩, hold] at h
      dsimp only at h
      split at h
      · cases h
      · exact .inr ⟨0, old, replaceLoop_found co secure l (pos + 1) pos h, rfl, hsame⟩
    · have hrest : replaceLoop co secure l (pos + 1) false none = some res := by
        split at h
        · rename_i hname
          have hold : (sameDomain false old co && decide (old.path = co.path)) = false := by
            rw [Bool.eq_false_iff]
            exact fun hold => hsame ((sameDomain_false_iff old co).mp ⟨hold, hname.2⟩)
          rw [hold] at h
          exact h
        · exact h
      rcases ih (pos + 1) hrest with ⟨hres, hnone⟩ | ⟨n, found, hres, hget, hsame'⟩
      · refine .inl ⟨hres, fun x hx => ?_⟩
        rcases List.mem_cons.mp hx with rfl | hx
        · exact hsame
        · exact hnone x hx
      · refine .inr ⟨n + 1, found, ?_, hget, hsame'⟩
        rw [hres, Nat.add_assoc, Nat.add_comm 1 n]

end Gurl.Cookies
