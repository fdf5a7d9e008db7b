import Gurl.Cookies.Confine
import Gurl.GetLine
import Gurl.Mprintf

/-! The cookie file: how `lib/cookie.c` writes a cookie, and how it loads a file. -/

namespace Gurl.Cookies

open Strcase Strparse Mprintf

def boolText (b : Bool) : Bytes := if b then ascii "TRUE" else ascii "FALSE"

/-- The dot in front of a domain that matches tails. -/
def dotFor (co : Cookie) : Bytes :=
  if co.tailmatch && co.domain.any (fun domain => domain.head? ≠ some 46) then [46] else []

/-- `get_netscape_format`. -/
def netscapeFormat (co : Cookie) : Bytes :=
  (if co.httponly then ascii "#HttpOnly_" else []) ++
    (dotFor co ++ co.domain.getD (ascii "unknown") ++ 9 ::
      (boolText co.tailmatch ++ 9 ::
        (co.path.getD [47] ++ 9 ::
          (boolText co.secure ++ 9 ::
            (fmtInt co.expires ++ 9 ::
              (co.name ++ 9 :: co.value))))))

/-- A file with the cookies, each on a line of its own. -/
def netscapeFile (cookies : List Cookie) : Bytes :=
  (cookies.map netscapeFormat).flatMap (· ++ [10])

/-- The call of `Curl_cookie_add` for a line of the file. -/
def fileCall (now : Int) (setcookies : Nat) (line : Bytes) : AddCall where
  httpheader := strnequal (ascii "Set-Cookie:") line 11
  noexpire := true
  line := if strnequal (ascii "Set-Cookie:") line 11 then (line.drop 11).dropWhile isblank else line
  domain := none
  path := none
  secure := true
  setcookies := setcookies
  clock := now
  now := now
  clone := true

/-- What `cookie_load` does with a line: the jar and `req.setcookies`. -/
def loadLine (env : Env) (now : Int) (s : CookieInfo × Nat) (line : Bytes) :
    CookieInfo × Nat :=
  let call := fileCall now s.2 line
  (cookieAdd env s.1 call,
    if call.httpheader && (addedCookie env s.1 call).isSome then s.2 + 1 else s.2)

/-- `cookie_load`, for a file that is there. -/
def cookieLoad (env : Env) (ci : CookieInfo) (newsession : Bool) (setcookies : Nat) (now : Int)
    (file : Bytes) : CookieInfo × Curlcode :=
  let ci := { ci with newsession, running := false }
  let ((ci, _), result) := readLines maxCookieLine (loadLine env now) (ci, setcookies) file
  ({ removeExpired now ci with running := true }, result)

/-- All cookies of a jar. -/
def jarCookies (ci : CookieInfo) : List Cookie := (List.finRange hashSize).flatMap ci.cookielist

/-- What makes a cookie. -/
structure CookieView where
  name : Bytes
  value : Bytes
  domain : Option Bytes
  tailmatch : Bool
  path : Option Bytes
  secure : Bool
  httponly : Bool
  expires : Int

def Cookie.view (co : Cookie) : CookieView where
  name := co.name
  value := co.value
  domain := co.domain
  tailmatch := co.tailmatch
  path := co.path
  secure := co.secure
  httponly := co.httponly
  expires := co.expires

/-- The file with these cookies, loaded into an empty jar, gives those of the jar that have not
expired. -/
def Reloads (env : Env) (ci : CookieInfo) (setcookies : Nat) (now : Int) (cookies : List Cookie) :
    Prop :=
  ∀ view, (∃ co ∈ jarCookies
      (cookieLoad env cookieInit false setcookies now (netscapeFile cookies)).1, co.view = view) ↔
    ∃ co ∈ jarCookies ci, co.alive now = true ∧ co.view = view

/-! What `parse_netscape` reads from a line that `get_netscape_format` has written. -/

variable {o : Origin} {co : Cookie} {w rest : Bytes}

/-- A field of a line: no zero, no tab and no end of a line is in it. -/
def Field (w : Bytes) : Prop := ∀ c ∈ w, c ≠ 0 ∧ c ≠ 9 ∧ c ≠ 13 ∧ c ≠ 10

theorem field_of_valid (h : invalidOctets w = false) : Field w := by
  intro c hc
  have hvalid := List.any_eq_false.mp h c hc
  refine ⟨?_, ?_, ?_, ?_⟩ <;>
  · rintro rfl
    exact hvalid (by decide)

theorem strcspn_field (h : Field w) {c : UInt8} (hc : c = 9 ∨ c = 10) :
    strcspn (w ++ c :: rest) (ascii "\t\r\n") = w.length := by
  have hstop : ascii "\t\r\n" = [9, 13, 10] := by decide
  unfold strcspn
  rw [hstop, List.takeWhile_append_of_pos fun d hd => by simpa using (h d hd).2,
    List.takeWhile_cons_of_neg (by rcases hc with rfl | rfl <;> simp), List.append_nil]

/-- The loop of `parse_netscape` at a field that a tab ends. -/
theorem netscapeLoop_tab (h : Field w) {fields fields' : Nat} {co' : Cookie}
    (hfield : netscapeField o co fields (w ++ 9 :: rest) w.length = some (co', fields'))
    (fuel : Nat) :
    netscapeLoop o (fuel + 1) co fields (w ++ 9 :: rest) =
      netscapeLoop o fuel co' (fields' + 1) rest := by
  have hdrop : (w ++ 9 :: rest).drop (w.length + 1) = rest := by simp [List.drop_append]
  simp [netscapeLoop, strcspn_field h (.inl rfl), hfield, hdrop]

/-- The loop of `parse_netscape` at the last field. -/
theorem netscapeLoop_end (h : Field w) {fields fields' : Nat} {co' : Cookie}
    (hfield : netscapeField o co fields (w ++ [10]) w.length = some (co', fields')) (fuel : Nat) :
    netscapeLoop o (fuel + 1) co fields (w ++ [10]) = some (co', fields' + 1) := by
  simp [netscapeLoop, strcspn_field h (.inr rfl), hfield]

theorem strnequal_boolText (b : Bool) (rest : Bytes) :
    strnequal (boolText b ++ rest) (ascii "TRUE") (boolText b).length = b := by
  rw [Bool.eq_iff_iff, strnequal_iff, List.take_left]
  cases b <;> decide

theorem field_boolText (b : Bool) : Field (boolText b) := by
  have hall : ∀ b, ((boolText b).all fun c => c ≠ 0 ∧ c ≠ 9 ∧ c ≠ 13 ∧ c ≠ 10) = true := by
    decide +kernel
  intro c hc
  simpa using List.all_eq_true.mp (hall b) c hc

theorem field_fmtInt (n : Int) : Field (fmtInt n) := by
  have hdigits : Field (fmtUint n.natAbs) := by
    intro c hc
    have hdigit := fmtUint_digits _ c hc
    refine ⟨?_, ?_, ?_, ?_⟩ <;>
    · rintro rfl
      cases hdigit
  unfold fmtInt
  split
  · exact List.forall_mem_cons.mpr ⟨by decide, hdigits⟩
  · exact hdigits

theorem field_dotFor (co : Cookie) : Field (dotFor co) := by
  unfold dotFor
  split
  · simp [Field]
  · simp [Field]

/-- What a written cookie is read as. -/
def reload (co : Cookie) : Cookie :=
  Cookie.withPrefix { Cookie.zero with
    name := co.name, value := co.value, path := co.path, domain := co.domain,
    expires := co.expires, tailmatch := co.tailmatch, secure := co.secure,
    httponly := co.httponly } co.name

theorem withPrefix_view (co : Cookie) (name : Bytes) :
    (co.withPrefix name).view = co.view := by
  unfold Cookie.withPrefix
  split
  · rfl
  · split <;> rfl

theorem reload_view (co : Cookie) : (reload co).view = co.view := by
  rw [reload, withPrefix_view]
  rfl

/-- A cookie whose line is read as it was written. -/
structure Readable (co : Cookie) : Prop where
  domain : ∃ d, co.domain = some d ∧ d.head? ≠ some 46 ∧ Field d ∧
    (co.tailmatch = false → d.head? ≠ some 35)
  path : ∃ p, co.path = some p ∧ p.head? = some 47 ∧ Field p ∧ sanitizeCookiePath p = p
  name : invalidOctets co.name = false
  value : invalidOctets co.value = false
  expires : co.expires ≤ curlOffTMax

/-- The line behind its first mark. -/
def fieldsOf (co : Cookie) : Bytes :=
  dotFor co ++ co.domain.getD (ascii "unknown") ++ 9 ::
    (boolText co.tailmatch ++ 9 ::
      (co.path.getD [47] ++ 9 ::
        (boolText co.secure ++ 9 ::
          (fmtInt co.expires ++ 9 ::
            (co.name ++ 9 :: co.value)))))

theorem netscapeFormat_eq (co : Cookie) :
    netscapeFormat co = (if co.httponly then ascii "#HttpOnly_" else []) ++ fieldsOf co := rfl

/-- The field with the domain. -/
theorem domain_field {d : Bytes} (hd : co.domain = some d) (hdot : d.head? ≠ some 46)
    (hhash : co.tailmatch = false → d.head? ≠ some 35) (rest : Bytes) :
    ((dotFor co ++ d ++ 9 :: rest).head? = some 46 ∧ dotFor co = [46] ∨
      (dotFor co ++ d ++ 9 :: rest).head? ≠ some 46 ∧ dotFor co = []) ∧
      (dotFor co ++ d ++ 9 :: rest).head? ≠ some 35 := by
  unfold dotFor
  rw [hd]
  cases htail : co.tailmatch with
  | true => simp [hdot]
  | false =>
    cases d with
    | nil => simp
    | cons c d => simp_all

section

variable {d p : Bytes}

theorem field_domain (hd : co.domain = some d) (hdot : d.head? ≠ some 46)
    (hhash : co.tailmatch = false → d.head? ≠ some 35) (co₀ : Cookie) (rest : Bytes) :
    netscapeField o co₀ 0 (dotFor co ++ d ++ 9 :: rest) (dotFor co ++ d).length =
      some ({ co₀ with domain := some d }, 0) := by
  simp only [netscapeField, List.take_left]
  rcases (domain_field hd hdot hhash rest).1 with ⟨hhead, heq⟩ | ⟨hhead, heq⟩
  · rw [if_pos hhead, heq]
    rfl
  · rw [if_neg hhead, heq]
    rfl

theorem field_tailmatch (b : Bool) (co₀ : Cookie) (rest : Bytes) :
    netscapeField o co₀ 1 (boolText b ++ 9 :: rest) (boolText b).length =
      some ({ co₀ with tailmatch := b }, 1) := by
  rw [netscapeField, strnequal_boolText]

theorem field_path (hslash : p.head? = some 47) (hclean : sanitizeCookiePath p = p) (co₀ : Cookie)
    (rest : Bytes) :
    netscapeField o co₀ 2 (p ++ 9 :: rest) p.length = some ({ co₀ with path := some p }, 2) := by
  have hpath : (ascii "TRUE").take p.length ≠ p ∧ (ascii "FALSE").take p.length ≠ p := by
    cases p with
    | nil => cases hslash
    | cons c p =>
      cases hslash
      constructor <;>
      · intro heq
        cases heq
  rw [netscapeField, List.take_left, if_pos hpath, hclean]

theorem field_secure (ho : o.secure = true) (b : Bool) (co₀ : Cookie) (rest : Bytes) :
    netscapeField o co₀ 3 (boolText b ++ 9 :: rest) (boolText b).length =
      some ({ co₀ with secure := b }, 3) := by
  rw [netscapeField, netscapeSecure, strnequal_boolText]
  cases b <;> simp [ho]

theorem fmtInt_nonneg {n : Int} (h : 0 ≤ n) : fmtInt n = fmtUint n.toNat := by
  rw [fmtInt, if_neg (by omega)]
  congr 1
  omega

theorem field_expires {n : Int} (h : 0 ≤ n) (hle : n ≤ curlOffTMax) (co₀ : Cookie)
    (rest : Bytes) (len : Nat) :
    netscapeField o co₀ 4 (fmtInt n ++ 9 :: rest) len = some ({ co₀ with expires := n }, 4) := by
  have hmax : curlOffTMax < 10 ^ 20 := by decide
  have hnum : strNumber (fmtUint n.toNat ++ 9 :: rest) curlOffTMax =
      .ok (n.toNat, 9 :: rest) :=
    strNumber_fmtUint (by decide) (by omega) (by omega) (by simp [isDigit])
  rw [netscapeField, fmtInt_nonneg h, hnum]
  simp [h]

theorem field_expired {n : Int} (h : n < 0) (co₀ : Cookie) (rest : Bytes) (len : Nat) :
    netscapeField o co₀ 4 (fmtInt n ++ 9 :: rest) len = none := by
  have hnum (line : Bytes) : strNumber (45 :: line) curlOffTMax = .error .noNum := by
    rw [strNumber_eq (by decide)]
    simp [isDigit]
  rw [netscapeField, fmtInt, if_pos h, List.cons_append, hnum]

theorem field_name (co₀ : Cookie) (name rest : Bytes) :
    netscapeField o co₀ 5 (name ++ 9 :: rest) name.length =
      some ({ co₀ with name := name }.withPrefix name, 5) := by
  rw [netscapeField, List.take_left]

theorem field_value (co₀ : Cookie) (value : Bytes) :
    netscapeField o co₀ 6 (value ++ [10]) value.length = some ({ co₀ with value := value }, 6) := by
  rw [netscapeField, List.take_left]

end

/-- The cookie behind the first fields of its line. -/
def readUpTo (co : Cookie) : Nat → Cookie
  | 0 => { Cookie.zero with httponly := co.httponly }
  | 1 => { Cookie.zero with httponly := co.httponly, domain := co.domain }
  | 2 => { Cookie.zero with
      httponly := co.httponly, domain := co.domain, tailmatch := co.tailmatch }
  | 3 => { Cookie.zero with
      httponly := co.httponly, domain := co.domain, tailmatch := co.tailmatch, path := co.path }
  | _ => { Cookie.zero with
      httponly := co.httponly, domain := co.domain, tailmatch := co.tailmatch, path := co.path,
      secure := co.secure }

/-- The fields of a line, with the end of the line. -/
theorem netscapeLoop_fields (ho : o.secure = true) (h : Readable co) (fuel : Nat) :
    netscapeLoop o (fuel + 7) { Cookie.zero with httponly := co.httponly } 0 (fieldsOf co ++ [10]) =
      if co.expires < 0 then none else some (reload co, 7) := by
  obtain ⟨d, hd, hdot, hdfield, hhash⟩ := h.domain
  obtain ⟨p, hp, hslash, hpfield, hclean⟩ := h.path
  have hfirst : Field (dotFor co ++ d) := by
    intro c hc
    rcases List.mem_append.mp hc with hc | hc
    · exact field_dotFor co c hc
    · exact hdfield c hc
  simp only [fieldsOf, hd, hp, Option.getD_some, List.append_assoc, List.cons_append]
  simp only [← List.append_assoc (dotFor co) d]
  have hdomain : ∀ rest, netscapeField o (readUpTo co 0) 0 (dotFor co ++ d ++ 9 :: rest)
      (dotFor co ++ d).length = some (readUpTo co 1, 0) := by
    intro rest
    rw [field_domain hd hdot hhash, ← hd]
    rfl
  have hpath : ∀ rest, netscapeField o (readUpTo co 2) 2 (p ++ 9 :: rest) p.length =
      some (readUpTo co 3, 2) := by
    intro rest
    rw [field_path hslash hclean, ← hp]
    rfl
  change netscapeLoop o (fuel + 7) (readUpTo co 0) 0 _ = _
  rw [netscapeLoop_tab hfirst (hdomain _),
    netscapeLoop_tab (field_boolText _) (field_tailmatch co.tailmatch (readUpTo co 1) _)]
  change netscapeLoop o (fuel + 5) (readUpTo co 2) 2 _ = _
  rw [netscapeLoop_tab hpfield (hpath _),
    netscapeLoop_tab (field_boolText _) (field_secure ho co.secure (readUpTo co 3) _)]
  change netscapeLoop o (fuel + 3) (readUpTo co 4) 4 _ = _
  split
  · rename_i hneg
    simp [netscapeLoop, field_expired hneg]
  · rename_i hpos
    rw [netscapeLoop_tab (field_fmtInt _)
        (field_expires (not_lt.mp hpos) h.expires (readUpTo co 4) _ _),
      netscapeLoop_tab (field_of_valid h.name) (field_name _ co.name _),
      netscapeLoop_end (field_of_valid h.value) (field_value _ co.value)]
    unfold reload Cookie.withPrefix
    split
    · rfl
    · split <;> rfl

/-- `parse_netscape` reads the cookie of a line again, unless it expired before 1970. -/
theorem parseNetscape_written (ho : o.secure = true) (h : Readable co) :
    parseNetscape o (netscapeFormat co ++ [10]) =
      if co.expires < 0 then none else some (reload co) := by
  obtain ⟨d, hd, hdot, hdfield, hhash⟩ := h.domain
  have hhead : (fieldsOf co ++ [10]).head? ≠ some 35 := by
    unfold fieldsOf
    rw [hd, Option.getD_some, List.append_assoc, List.cons_append]
    exact (domain_field hd hdot hhash _).2
  have hstart : (ascii "#HttpOnly_").isPrefixOf (netscapeFormat co ++ [10]) = co.httponly := by
    rw [netscapeFormat_eq, List.append_assoc]
    cases co.httponly with
    | true => exact List.isPrefixOf_iff_prefix.mpr (List.prefix_append _ _)
    | false =>
      rw [Bool.eq_false_iff]
      intro hmark
      obtain ⟨tail, htail⟩ := List.isPrefixOf_iff_prefix.mp hmark
      exact hhead (congrArg List.head? htail).symm
  have hline : (if co.httponly then (netscapeFormat co ++ [10]).drop 10
      else netscapeFormat co ++ [10]) = fieldsOf co ++ [10] := by
    rw [netscapeFormat_eq, List.append_assoc]
    cases co.httponly <;> rfl
  obtain ⟨fuel, hfuel⟩ : ∃ fuel, (fieldsOf co ++ [10]).length + 1 = fuel + 7 := by
    refine ⟨(fieldsOf co ++ [10]).length - 6, ?_⟩
    simp only [fieldsOf, List.length_append, List.length_cons]
    omega
  have hview : invalidOctets (reload co).name = false ∧
    invalidOctets (reload co).value = false := by
    have hsame := reload_view co
    simp only [Cookie.view, CookieView.mk.injEq] at hsame
    rw [hsame.1, hsame.2.1]
    exact ⟨h.name, h.value⟩
  unfold parseNetscape
  rw [hstart]
  dsimp only
  rw [hline, if_neg hhead, hfuel, netscapeLoop_fields ho h]
  split
  · rfl
  · simp [hview]

end Gurl.Cookies
