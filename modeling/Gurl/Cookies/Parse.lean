import Gurl.Strcase
import Gurl.Strparse

/-! How `lib/cookie.c` compares domains and paths, and how it hashes a domain. -/

namespace Gurl.Cookies

open Strcase

/-- The functions that `lib/cookie.c` relies on: `Curl_host_is_ipnum`, which asks `inet_pton`, and
`Curl_getdate_capped`, which reads some dates. An IP number is written with digits, dots and colons,
the case of its letters does not matter, and a colon alone is none. -/
structure Env where
  hostIsIpnum : Bytes → Bool
  ipnum_upper : ∀ s t, upper s = upper t → hostIsIpnum s = hostIsIpnum t
  ipnum_digits : ∀ s, hostIsIpnum s = true → ∀ c ∈ s, c ∈ ascii "0123456789abcdefABCDEF.:"
  ipnum_colon : hostIsIpnum (ascii ":") = false
  getdateCapped : Bytes → Option Int

/-- `cookie_tailmatch`; 46 is the dot. -/
def cookieTailmatch (cookieDomain hostname : Bytes) : Bool :=
  if hostname.length < cookieDomain.length then false
  else if !strnequal cookieDomain (hostname.drop (hostname.length - cookieDomain.length))
      cookieDomain.length then false
  else if hostname.length = cookieDomain.length then true
  else decide (hostname[hostname.length - cookieDomain.length - 1]? = some 46)

/-- `pathmatch`; 47 is the slash. -/
def pathmatch (cookiePath uriPath : Bytes) : Bool :=
  if cookiePath.length = 1 then true
  else
    let uriPath := if uriPath.head? ≠ some 47 then [47] else uriPath
    if uriPath.length < cookiePath.length then false
    else if cookiePath ≠ uriPath.take cookiePath.length then false
    else if cookiePath.length = uriPath.length then true
    else decide (uriPath[cookiePath.length]? = some 47)

/-- `memrchr`: the index of the last occurrence of a byte. -/
def memrchr (c : UInt8) : Bytes → Option Nat
  | [] => none
  | x :: s => ((memrchr c s).map (· + 1)).or (if x = c then some 0 else none)

/-- `get_top_domain`. -/
def getTopDomain (domain : Bytes) : Bytes :=
  match memrchr 46 domain with
  | none => domain
  | some last =>
    match memrchr 46 (domain.take last) with
    | none => domain
    | some first => domain.drop (first + 1)

/-- `COOKIE_HASH_SIZE`. -/
def hashSize : Nat := 63

/-- A `char` as a `size_t`: a signed byte is extended. -/
def charToSize (c : UInt8) : UInt64 := if c < 128 then c.toUInt64 else c.toUInt64 - 256

/-- `cookie_hash_domain`. -/
def cookieHashDomain (domain : Bytes) : Fin hashSize :=
  let h := domain.foldl (fun (h : UInt64) c => (h + (h <<< 5)) ^^^ charToSize (rawToupper c)) 5381
  ⟨h.toNat % hashSize, Nat.mod_lt _ (by decide)⟩

/-- `cookiehash`. -/
def cookiehash (env : Env) : Option Bytes → Fin hashSize
  | none => ⟨0, by decide⟩
  | some domain =>
    if env.hostIsIpnum domain then ⟨0, by decide⟩ else cookieHashDomain (getTopDomain domain)

def localhost : Bytes := ascii "localhost"

/-- `bad_domain`: the first dot, if there is one, must not be the last byte. -/
def badDomain (domain : Bytes) : Bool :=
  if domain.length = 9 ∧ strnequal domain localhost 9 then false
  else
    match domain.findIdx? (· = 46) with
    | some i => decide (domain.length - i ≤ 1)
    | none => true

/-! ### What tail matching means -/

/-- `tail` is the whole of `s` or stands behind a dot in it, up to the case of letters. -/
def DotSuffix (tail s : Bytes) : Prop :=
  upper s = upper tail ∨ ∃ front, upper s = upper (front ++ 46 :: tail)

theorem upper_dot (s : Bytes) : upper (46 :: s) = 46 :: upper s := rfl

/-- The byte at an index is a dot just when it is one in upper case. -/
theorem getElem?_upper_dot (s : Bytes) (i : Nat) :
    (upper s)[i]? = some 46 ↔ s[i]? = some 46 := by
  rw [upper, List.getElem?_map]
  cases s[i]? with
  | none => simp
  | some c => simp [rawToupper_eq_iff (c := c) (d := 46) (by decide)]

theorem cookieTailmatch_iff (tail s : Bytes) :
    cookieTailmatch tail s = true ↔ DotSuffix tail s := by
  unfold cookieTailmatch
  constructor
  · intro h
    split_ifs at h with hlen hequal hsame
    · have hupper := (strnequal_iff _ _ _).mp (by simpa using hequal)
      rw [List.take_length, hsame, Nat.sub_self, List.drop_zero, ← hsame, List.take_length]
        at hupper
      exact .inl hupper.symm
    · have hupper := (strnequal_iff _ _ _).mp (by simpa using hequal)
      have hdot : s[s.length - tail.length - 1]? = some 46 := by simpa using h
      have hrest : (s.drop (s.length - tail.length)).length = tail.length := by
        rw [List.length_drop]
        omega
      rw [List.take_length, List.take_of_length_le hrest.le] at hupper
      refine .inr ⟨s.take (s.length - tail.length - 1), ?_⟩
      obtain ⟨hlt, hget⟩ := List.getElem?_eq_some_iff.mp hdot
      have hcut : s = s.take (s.length - tail.length - 1) ++
          46 :: s.drop (s.length - tail.length) := by
        have hdrop := List.drop_eq_getElem_cons hlt
        rw [hget, show s.length - tail.length - 1 + 1 = s.length - tail.length by omega] at hdrop
        rw [← hdrop, List.take_append_drop]
      conv_lhs => rw [hcut]
      rw [upper_append, upper_append, upper_dot, upper_dot, hupper]
  · rintro (h | ⟨front, h⟩)
    · have hlen : s.length = tail.length := by
        rw [← length_upper s, h, length_upper]
      have hequal : strnequal tail (s.drop (s.length - tail.length)) tail.length = true := by
        rw [strnequal_iff, hlen, Nat.sub_self, List.drop_zero, List.take_length, ← hlen,
          List.take_length, h]
      rw [if_neg (by omega), if_neg (by simp [hequal]), if_pos hlen]
    · have hlen : s.length = front.length + (tail.length + 1) := by
        rw [← length_upper s, h, length_upper, List.length_append, List.length_cons]
      have hrest : upper (s.drop (s.length - tail.length)) = upper tail := by
        rw [upper_drop, h, show s.length - tail.length = (front ++ [46]).length by simp; omega,
          show front ++ 46 :: tail = (front ++ [46]) ++ tail by simp, upper_append,
          ← length_upper (front ++ [46]), List.drop_left]
      have hequal : strnequal tail (s.drop (s.length - tail.length)) tail.length = true := by
        rw [strnequal_iff, List.take_length, List.take_of_length_le (by
          rw [List.length_drop]
          omega), hrest]
      have hdot : s[s.length - tail.length - 1]? = some 46 := by
        rw [← getElem?_upper_dot, h, upper_append, upper_dot,
          show s.length - tail.length - 1 = (upper front).length by rw [length_upper]; omega]
        simp
      rw [if_neg (by omega), if_neg (by simp [hequal]), if_neg (by omega)]
      simpa using hdot

/-! ### The hash of a domain -/

theorem memrchr_eq_none {c : UInt8} {s : Bytes} (h : c ∉ s) : memrchr c s = none := by
  induction s with
  | nil => rfl
  | cons x s ih =>
    rw [List.mem_cons, not_or] at h
    rw [memrchr, ih h.2, if_neg (Ne.symm h.1)]
    rfl

theorem memrchr_eq_length {c : UInt8} (a : Bytes) {b : Bytes} (h : c ∉ b) :
    memrchr c (a ++ c :: b) = some a.length := by
  induction a with
  | nil => simp [memrchr, memrchr_eq_none h]
  | cons x a ih => simp [memrchr, ih]

/-- A list with a byte in it has a last one of them. -/
theorem exists_last {c : UInt8} {s : Bytes} (h : c ∈ s) :
    ∃ a b, s = a ++ c :: b ∧ c ∉ b := by
  induction s with
  | nil => cases h
  | cons x s ih =>
    by_cases hs : c ∈ s
    · obtain ⟨a, b, rfl, hb⟩ := ih hs
      exact ⟨x :: a, b, rfl, hb⟩
    · obtain rfl : c = x := (List.mem_cons.mp h).resolve_right hs
      exact ⟨[], s, rfl, hs⟩

theorem getTopDomain_of_not_mem {s : Bytes} (h : 46 ∉ s) : getTopDomain s = s := by
  rw [getTopDomain, memrchr_eq_none h]

theorem getTopDomain_one {b d : Bytes} (hb : 46 ∉ b) (hd : 46 ∉ d) :
    getTopDomain (b ++ 46 :: d) = b ++ 46 :: d := by
  simp only [getTopDomain, memrchr_eq_length b hd, List.take_left, memrchr_eq_none hb]

theorem getTopDomain_two (a : Bytes) {b d : Bytes} (hb : 46 ∉ b) (hd : 46 ∉ d) :
    getTopDomain (a ++ 46 :: (b ++ 46 :: d)) = b ++ 46 :: d := by
  have hcut : a ++ 46 :: (b ++ 46 :: d) = (a ++ 46 :: b) ++ 46 :: d := by simp
  rw [hcut]
  simp only [getTopDomain, memrchr_eq_length (a ++ 46 :: b) hd, List.take_left,
    memrchr_eq_length a hb]
  rw [← hcut, List.drop_append, List.drop_of_length_le (Nat.le_succ _), Nat.add_sub_cancel_left]
  rfl

/-- Labels in front of a domain with a dot in it do not change its top domain. -/
theorem getTopDomain_front (front : Bytes) {tail : Bytes} (h : 46 ∈ tail) :
    getTopDomain (front ++ 46 :: tail) = getTopDomain tail := by
  obtain ⟨a, d, rfl, hd⟩ := exists_last h
  by_cases ha : 46 ∈ a
  · obtain ⟨a, b, rfl, hb⟩ := exists_last ha
    rw [List.append_assoc, List.cons_append, getTopDomain_two a hb hd,
      show front ++ 46 :: (a ++ 46 :: (b ++ 46 :: d)) =
        (front ++ 46 :: a) ++ 46 :: (b ++ 46 :: d) by simp, getTopDomain_two _ hb hd]
  · rw [getTopDomain_two front ha hd, getTopDomain_one ha hd]

theorem mem_upper_dot (s : Bytes) : 46 ∈ upper s ↔ 46 ∈ s := by
  rw [upper, List.mem_map]
  constructor
  · rintro ⟨c, hc, hdot⟩
    rwa [(rawToupper_eq_iff (d := 46) (by decide)).mp hdot] at hc
  · exact fun h => ⟨46, h, rfl⟩

theorem upper_getTopDomain (s : Bytes) : upper (getTopDomain s) = getTopDomain (upper s) := by
  by_cases hs : 46 ∈ s
  · obtain ⟨a, d, rfl, hd⟩ := exists_last hs
    have hd' : 46 ∉ upper d := fun h => hd ((mem_upper_dot d).mp h)
    by_cases ha : 46 ∈ a
    · obtain ⟨a, b, rfl, hb⟩ := exists_last ha
      have hb' : 46 ∉ upper b := fun h => hb ((mem_upper_dot b).mp h)
      simp only [List.append_assoc, List.cons_append, getTopDomain_two a hb hd, upper_append,
        upper_dot, getTopDomain_two _ hb' hd']
    · have ha' : 46 ∉ upper a := fun h => ha ((mem_upper_dot a).mp h)
      rw [getTopDomain_one ha hd, upper_append, upper_dot, getTopDomain_one ha' hd']
  · have hs' : 46 ∉ upper s := fun h => hs ((mem_upper_dot s).mp h)
    rw [getTopDomain_of_not_mem hs, getTopDomain_of_not_mem hs']

theorem cookieHashDomain_congr {s t : Bytes} (h : upper s = upper t) :
    cookieHashDomain s = cookieHashDomain t := by
  have hfold (s : Bytes) : s.foldl (fun (h : UInt64) c => (h + (h <<< 5)) ^^^
      charToSize (rawToupper c)) 5381 =
      (upper s).foldl (fun (h : UInt64) c => (h + (h <<< 5)) ^^^ charToSize c) 5381 := by
    rw [upper, List.foldl_map]
  unfold cookieHashDomain
  simp only [hfold, h]

/-- The hash does not depend on the case of letters. -/
theorem cookiehash_congr (env : Env) {s t : Bytes} (h : upper s = upper t) :
    cookiehash env (some s) = cookiehash env (some t) := by
  simp only [cookiehash, env.ipnum_upper s t h]
  split
  · rfl
  · apply cookieHashDomain_congr
    rw [upper_getTopDomain, upper_getTopDomain, h]

/-- A host has the hash of a domain that it tail matches, if this has a dot and neither is an IP
number. -/
theorem cookiehash_of_dotSuffix {env : Env} {tail s : Bytes} (h : DotSuffix tail s)
    (hdot : 46 ∈ tail) (htail : env.hostIsIpnum tail = false) (hs : env.hostIsIpnum s = false) :
    cookiehash env (some s) = cookiehash env (some tail) := by
  rcases h with h | ⟨front, h⟩
  · exact cookiehash_congr env h
  · simp only [cookiehash, htail, hs, Bool.false_eq_true, if_false]
    apply cookieHashDomain_congr
    rw [upper_getTopDomain, h, ← upper_getTopDomain, getTopDomain_front front hdot]

/-- A domain that is not bad has a dot, or is `localhost`. -/
theorem dot_of_badDomain {domain : Bytes} (h : badDomain domain = false) :
    46 ∈ domain ∨ upper domain = upper localhost := by
  unfold badDomain at h
  split_ifs at h with hlocal
  · have hupper := (strnequal_iff _ _ _).mp hlocal.2
    rw [← hlocal.1, List.take_length, hlocal.1] at hupper
    exact .inr hupper
  · refine .inl ?_
    cases hfind : domain.findIdx? (· = 46) with
    | none => simp [hfind] at h
    | some i =>
      obtain ⟨hlt, hget, -⟩ := List.findIdx?_eq_some_iff_getElem.mp hfind
      have heq : domain[i] = 46 := by simpa using hget
      rw [← heq]
      exact List.getElem_mem hlt

/-! How `lib/cookie.c` reads a cookie from a header line or from a line of a cookie file. Memory is
always there. -/

open Strparse

/-- `struct Cookie`. -/
structure Cookie where
  name : Bytes
  value : Bytes
  path : Option Bytes
  domain : Option Bytes
  expires : Int
  creationtime : UInt32
  tailmatch : Bool
  secure : Bool
  livecookie : Bool
  httponly : Bool
  prefixSecure : Bool
  prefixHost : Bool
  deriving DecidableEq

/-- A cleared `struct Cookie`. -/
def Cookie.zero : Cookie where
  name := []
  value := []
  path := none
  domain := none
  expires := 0
  creationtime := 0
  tailmatch := false
  secure := false
  livecookie := false
  httponly := false
  prefixSecure := false
  prefixHost := false

/-! ### Words of a line -/

/-- `struct Curl_str`: a pointer into a line, and a length. -/
structure CurlStr where
  str : Bytes
  len : Nat

/-- The bytes of a word. -/
def CurlStr.text (s : CurlStr) : Bytes := s.str.take s.len

/-- `curlx_str_init`. -/
def CurlStr.init : CurlStr := ⟨[], 0⟩

/-- `strcspn`. -/
def strcspn (s reject : Bytes) : Nat := (s.takeWhile fun c => !reject.contains c).length

/-- `curlx_str_cspn`: the word and the rest of the line, if the word is not empty. -/
def strCspn (line reject : Bytes) : Option (CurlStr × Bytes) :=
  let len := strcspn line reject
  if len ≠ 0 then some (⟨line, len⟩, line.drop len) else none

def isblank (c : UInt8) : Bool := c = 32 || c = 9

def trimFront : Bytes → Nat → CurlStr
  | c :: str, len + 1 => if isblank c then trimFront str len else ⟨c :: str, len + 1⟩
  | str, len => ⟨str, len⟩

def trimBack (str : Bytes) : Nat → Nat
  | 0 => 0
  | len + 1 => if (str[len]?.map isblank).getD false then trimBack str len else len + 1

/-- `curlx_str_trimblanks`. -/
def strTrimblanks (s : CurlStr) : CurlStr :=
  let s := trimFront s.str s.len
  { s with len := trimBack s.str s.len }

/-- `curlx_str_casecompare`. -/
def strCasecompare (s : CurlStr) (check : Bytes) : Bool :=
  s.len = check.length && strnequal s.str check check.length

/-- `curlx_str_nudge`, by one byte. -/
def CurlStr.nudge (s : CurlStr) : CurlStr := if 1 ≤ s.len then ⟨s.str.tail, s.len - 1⟩ else s

/-- `invalid_octets`. -/
def invalidOctets (s : Bytes) : Bool := s.any fun c => c < 0x20 || c = 0x7f

/-- `sanitize_cookie_path`; 34 is the quote, 47 the slash. -/
def sanitizeCookiePath (path : Bytes) : Bytes :=
  let path := if path.head? = some 34 then
      if path.tail.getLast? = some 34 then path.tail.dropLast else path.tail
    else path
  if path.head? ≠ some 47 then [47]
  else if path.length > 1 ∧ path.getLast? = some 47 then path.dropLast
  else path

/-! ### The expiry -/

/-- `TIME_T_MAX`. -/
def timeTMax : Int := 2 ^ 63 - 1

/-- `COOKIES_MAXAGE`: the seconds of 400 days. -/
def cookiesMaxage : Int := 400 * 24 * 3600

/-- `cap_expires`. -/
def capExpires (now expires : Int) : Int :=
  if expires ≠ 0 ∧ timeTMax - cookiesMaxage - 30 > now then
    let cap := now + cookiesMaxage
    if expires > cap then ((cap + 30).tdiv 60) * 60 else expires
  else expires

/-- `parse_maxage`. -/
def parseMaxage (now : Int) (val : CurlStr) : Int :=
  let maxage := if val.str.head? = some 34 then val.str.tail else val.str
  capExpires now <|
    match strNumber maxage curlOffTMax with
    | .error .overflow => curlOffTMax
    | .error _ => 1
    | .ok (n, _) => if n = 0 then 1 else if curlOffTMax - now < n then curlOffTMax else n + now

/-- `MAX_DATE_LENGTH`. -/
def maxDateLength : Nat := 80

/-- `parse_expires`. -/
def parseExpires (env : Env) (now : Int) (val : CurlStr) (expires : Int) : Int :=
  if expires = 0 ∧ val.len < maxDateLength then
    capExpires now <|
      match env.getdateCapped val.text with
      | some date => if date = 0 then 1 else date
      | none => 0
  else expires

/-! ### Header lines -/

/-- What `parse_cookie_header` works on: the cookie, its pieces, and the default domain. -/
structure Header where
  co : Cookie
  name : CurlStr
  value : CurlStr
  domainPiece : CurlStr
  pathPiece : CurlStr
  domain : Option Bytes

/-- What `parse_cookie_header` is called with besides the line: `ci->running`, whether the origin is
secure, and the time. -/
structure Origin where
  running : Bool
  secure : Bool
  clock : Int

/-- `MAX_NAME`. -/
def maxName : Nat := 4096

/-- The flags for the reserved beginnings of a name. -/
def Cookie.withPrefix (co : Cookie) (name : Bytes) : Cookie :=
  if (ascii "__Secure-").isPrefixOf name then { co with prefixSecure := true }
  else if (ascii "__Host-").isPrefixOf name then { co with prefixHost := true }
  else co

/-- `parse_first_pair`. -/
def parseFirstPair (h : Header) (name val : CurlStr) (sep : Bool) : Option Header :=
  if !sep || name.len = 0 then none
  else if name.len + val.len > maxName then none
  else some { h with co := h.co.withPrefix name.str, name := name, value := val }

/-- `parse_flag`. -/
def parseFlag (o : Origin) (h : Header) (name : CurlStr) : Option Header :=
  if strCasecompare name (ascii "secure") then
    if o.secure || !o.running then some { h with co := { h.co with secure := true } } else none
  else if strCasecompare name (ascii "httponly") then
    some { h with co := { h.co with httponly := true } }
  else some h

/-- The domain that `parse_domain` compares with: a bad one makes it `:`. -/
def checkedDomain (domain : Option Bytes) (val : CurlStr) : Option Bytes :=
  if badDomain val.text then some (ascii ":") else domain

/-- The check of `parse_domain`, with `is_ip`. -/
def domainFits (isIp : Bool) (val : CurlStr) : Option Bytes → Bool
  | none => true
  | some domain => if isIp then val.text = domain else cookieTailmatch val.text domain

/-- The word without a dot at its start. -/
def dotless (val : CurlStr) : CurlStr := if val.str.head? = some 46 then val.nudge else val

/-- A domain that was given makes the cookie match tails, unless it is an IP number. -/
def Header.withDomain (h : Header) (domain : Option Bytes) (val : CurlStr) (isIp : Bool) :
    Header :=
  { h with
    domain, domainPiece := val, co := { h.co with tailmatch := h.co.tailmatch || !isIp } }

/-- `parse_domain`. -/
def parseDomain (env : Env) (h : Header) (val : CurlStr) : Option Header :=
  let domain := checkedDomain h.domain (dotless val)
  -- without a default domain, this looks at all of the line behind the word
  let isIp := env.hostIsIpnum (domain.getD (dotless val).str)
  if domainFits isIp (dotless val) domain then some (h.withDomain domain (dotless val) isIp)
  else none

/-- A word of the line: a name, and a value behind `=` if there is one. -/
structure Attr where
  name : CurlStr
  val : CurlStr
  sep : Bool

/-- What the loop of `parse_cookie_header` does with a word. -/
def headerAttr (env : Env) (o : Origin) (h : Header) (a : Attr) : Option Header :=
  if invalidOctets a.name.text || invalidOctets a.val.text then none
  else if h.name.len = 0 then parseFirstPair h a.name a.val a.sep
  else if !a.sep then parseFlag o h a.name
  else if strCasecompare a.name (ascii "path") then some { h with pathPiece := a.val }
  else if strCasecompare a.name (ascii "domain") && a.val.len ≠ 0 then parseDomain env h a.val
  else if strCasecompare a.name (ascii "max-age") && a.val.len ≠ 0 then
    some { h with co := { h.co with expires := parseMaxage o.clock a.val } }
  else if strCasecompare a.name (ascii "expires") && a.val.len ≠ 0 then
    some { h with co := { h.co with expires := parseExpires env o.clock a.val h.co.expires } }
  else some h

/-- The next word of the line, if there is one, and the rest; 61 is `=`. -/
def nextAttr (ptr : Bytes) : Option Attr × Bytes :=
  match strCspn ptr (ascii ";\t\r\n=") with
  | none => (none, ptr)
  | some (name, ptr) =>
    match strSingle ptr 61 with
    | .error _ => (some ⟨strTrimblanks name, .init, false⟩, ptr)
    | .ok ptr =>
      match strCspn ptr (ascii ";\r\n") with
      | none => (some ⟨strTrimblanks name, .init, true⟩, ptr)
      | some (val, ptr) => (some ⟨strTrimblanks name, strTrimblanks val, true⟩, ptr)

/-- The loop of `parse_cookie_header`; 59 is `;`. -/
def headerLoop (env : Env) (o : Origin) : Nat → Header → Bytes → Option Header
  | 0, _, _ => none
  | fuel + 1, h, ptr => do
    let h ← (nextAttr ptr).1.elim (some h) (headerAttr env o h)
    match strSingle (nextAttr ptr).2 59 with
    | .ok ptr => headerLoop env o fuel h ptr
    | .error _ => some h

/-- `strrchr`, behind the last slash. -/
def upToSlash (path : Bytes) : Bytes :=
  match memrchr 47 path with
  | some i => path.take (i + 1)
  | none => path

/-- `storecookie`. -/
def storecookie (h : Header) (path : Option Bytes) : Cookie :=
  { h.co with
    name := h.name.text
    value := h.value.text
    path := if h.pathPiece.len ≠ 0 then some (sanitizeCookiePath h.pathPiece.text)
      else path.map fun path => sanitizeCookiePath (upToSlash path)
    domain := if h.domainPiece.len ≠ 0 then some h.domainPiece.text else h.domain }

/-- `MAX_COOKIE_LINE`. -/
def maxCookieLine : Nat := 5000

/-- A header line that was not read. -/
def Header.start (domain : Option Bytes) : Header where
  co := .zero
  name := .init
  value := .init
  domainPiece := .init
  pathPiece := .init
  domain := domain

/-- `parse_cookie_header`: the cookie, if the line is fine. -/
def parseCookieHeader (env : Env) (o : Origin) (line : Bytes)
    (domain path : Option Bytes) : Option Cookie :=
  if line.length > maxCookieLine then none
  else do
    let h ← headerLoop env o (line.length + 1) (.start domain) line
    if h.name.len ≠ 0 then some (storecookie h path) else none

/-! ### Lines of a cookie file -/

/-- The field of `parse_netscape` that says whether a cookie is secure. -/
def netscapeSecure (o : Origin) (co : Cookie) (ptr : Bytes) (len : Nat) : Option Cookie :=
  if strnequal ptr (ascii "TRUE") len then
    if o.secure || o.running then some { co with secure := true } else none
  else some { co with secure := false }

/-- The `switch` of `parse_netscape`: the cookie and the number of fields. -/
def netscapeField (o : Origin) (co : Cookie) (fields : Nat) (ptr : Bytes) (len : Nat) :
    Option (Cookie × Nat) :=
  match fields with
  | 0 =>
    let domain := ptr.take len
    some ({ co with domain := some (if ptr.head? = some 46 then domain.tail else domain) }, fields)
  | 1 => some ({ co with tailmatch := strnequal ptr (ascii "TRUE") len }, fields)
  | 2 =>
    if (ascii "TRUE").take len ≠ ptr.take len ∧ (ascii "FALSE").take len ≠ ptr.take len then
      some ({ co with path := some (sanitizeCookiePath (ptr.take len)) }, fields)
    else
      -- this does not look like a path, so it is the next field
      (netscapeSecure o { co with path := some [47] } ptr len).map (·, fields + 1)
  | 3 => (netscapeSecure o co ptr len).map (·, fields)
  | 4 =>
    match strNumber ptr curlOffTMax with
    | .ok (n, _) => some ({ co with expires := n }, fields)
    | .error _ => none
  | 5 => some ({ co with name := ptr.take len }.withPrefix (ptr.take len), fields)
  | 6 => some ({ co with value := ptr.take len }, fields)
  | _ => some (co, fields)

/-- The loop of `parse_netscape`; 9 is the tab. -/
def netscapeLoop (o : Origin) : Nat → Cookie → Nat → Bytes → Option (Cookie × Nat)
  | 0, _, _, _ => none
  | fuel + 1, co, fields, ptr => do
    let len := strcspn ptr (ascii "\t\r\n")
    let (co, fields) ← netscapeField o co fields ptr len
    if ptr[len]? = some 9 then netscapeLoop o fuel co (fields + 1) (ptr.drop (len + 1))
    else some (co, fields + 1)

/-- `parse_netscape`; 35 is `#`. -/
def parseNetscape (o : Origin) (line : Bytes) : Option Cookie :=
  let httponly := (ascii "#HttpOnly_").isPrefixOf line
  let line := if httponly then line.drop 10 else line
  if line.head? = some 35 then none
  else do
    let (co, fields) ← netscapeLoop o (line.length + 1) { Cookie.zero with httponly } 0 line
    -- with six fields the value is blank, as it is in a cleared cookie
    if fields ≠ 6 ∧ fields ≠ 7 then none
    else if invalidOctets co.name || invalidOctets co.value then none
    else some co

end Gurl.Cookies
