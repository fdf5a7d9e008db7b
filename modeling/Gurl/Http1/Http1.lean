import Gurl.Dynbuf
import Gurl.Mprintf
import Gurl.Strcase

/-! Heads of HTTP/1 requests: `lib/http1.c`, and what it uses of `lib/dynhds.c` and `lib/http.c`.
Memory that is asked for is there. A pointer into a line is the list of the bytes from there on. -/

namespace Gurl.Http1

open Strcase

/-- `struct dynhds_entry`. -/
structure Entry where
  name : Bytes
  value : Bytes
  deriving DecidableEq

/-- `struct dynhds`; `lowercase` is `DYNHDS_OPT_LOWERCASE`. -/
structure Dynhds where
  hds : List Entry
  maxEntries : Nat
  strsLen : Nat
  maxStrsSize : Nat
  lowercase : Bool
  deriving DecidableEq

namespace Dynhds

/-- `Curl_dynhds_init`. -/
def init (maxEntries maxStrsSize : Nat) : Dynhds :=
  { hds := [], maxEntries, strsLen := 0, maxStrsSize, lowercase := false }

/-- `entry_new`. -/
def entryNew (name value : Bytes) (lowercase : Bool) : Entry :=
  { name := if lowercase then name.map rawTolower else name, value }

/-- `Curl_dynhds_add`. -/
def add (dynhds : Dynhds) (name value : Bytes) : Dynhds × Curlcode :=
  if dynhds.maxEntries ≠ 0 ∧ dynhds.hds.length ≥ dynhds.maxEntries then (dynhds, .outOfMemory)
  else if dynhds.strsLen + name.length + value.length > dynhds.maxStrsSize then
    (dynhds, .outOfMemory)
  else
    ({ dynhds with
      hds := dynhds.hds ++ [entryNew name value dynhds.lowercase]
      strsLen := dynhds.strsLen + (name.length + value.length) }, .ok)

/-- `ISBLANK`. -/
def isBlank (c : UInt8) : Bool := c == 32 || c == 9

/-- `Curl_dynhds_h1_add_line`. -/
def h1AddLine (dynhds : Dynhds) (line : Bytes) (lineLen : Nat) : Dynhds × Curlcode :=
  if lineLen = 0 then (dynhds, .ok)
  else
    let line := line.take lineLen
    if 58 ∉ line then (dynhds, .badFunctionArgument)
    else
      let name := line.takeWhile (· ≠ 58)
      let value := (line.drop (name.length + 1)).dropWhile isBlank
      let value :=
        if 13 ∈ value then value.takeWhile (· ≠ 13)
        else if 10 ∈ value then value.takeWhile (· ≠ 10) else value
      dynhds.add name value

/-- What `%s` prints of a string. -/
def cstr (s : Bytes) : Bytes := s.takeWhile (· ≠ 0)

end Dynhds

/-- `struct httpreq`. -/
structure Httpreq where
  headers : Dynhds
  trailers : Dynhds
  scheme : Option Bytes
  authority : Option Bytes
  path : Option Bytes
  method : Bytes
  deriving DecidableEq

/-- `DYN_HTTP_REQUEST`. -/
def dynHttpRequest : Nat := 1024 * 1024

/-- `Curl_http_req_make`. -/
def httpReqMake (method : Bytes) (scheme authority path : Option Bytes) : Httpreq :=
  { headers := .init 0 dynHttpRequest, trailers := .init 0 dynHttpRequest, scheme, authority, path,
    method }

/-- `struct h1_req_parser`. -/
structure H1ReqParser where
  req : Option Httpreq
  scratch : Dynbuf
  line : Option Bytes
  maxLineLen : Nat
  lineLen : Nat
  done : Bool
  deriving DecidableEq

/-- `Curl_h1_req_parse_init`. -/
def parseInit (maxLineLen : Nat) : H1ReqParser :=
  { req := none, scratch := .init maxLineLen, line := none, maxLineLen, lineLen := 0,
    done := false }

/-- What the caller hands to `Curl_h1_req_parse_read` besides the bytes: `strict` is
`H1_PARSE_OPT_STRICT`. `urlReq` stands for `curl_url_set` with an absolute URL, where `true` allows
spaces, and `Curl_http_req_make2` with the method and the default scheme; when it fails it says
so. -/
structure Call where
  schemeDefault : Option Bytes
  customMethod : Option Bytes
  strict : Bool
  urlReq : Bytes → Bytes → Bool → Option Bytes → Except Curlcode Httpreq
  urlReq_error : ∀ method target space scheme, urlReq method target space scheme ≠ .error .ok

/-- `trim_line`. -/
def trimLine (parser : H1ReqParser) (strict : Bool) : H1ReqParser × Curlcode :=
  let line := parser.line.getD []
  let parser := if parser.lineLen ≠ 0 ∧ line.getD (parser.lineLen - 1) 0 = 10 then
    { parser with lineLen := parser.lineLen - 1 } else parser
  let cr := parser.lineLen ≠ 0 ∧ line.getD (parser.lineLen - 1) 0 = 13
  let parser := if cr then { parser with lineLen := parser.lineLen - 1 } else parser
  if ¬cr ∧ strict then (parser, .urlMalformat)
  else if parser.lineLen > parser.maxLineLen then (parser, .urlMalformat)
  else (parser, .ok)

/-- `detect_line`: the length of the line in front of `buf`. -/
def detectLine (buf : Bytes) : Option Nat :=
  if 10 ∈ buf then some ((buf.takeWhile (· ≠ 10)).length + 1) else none

/-- The line in front of the next one is given up. -/
def dropLine (parser : H1ReqParser) : H1ReqParser :=
  if parser.line.isSome then
    { parser with line := none, lineLen := 0, scratch := parser.scratch.reset }
  else parser

/-- `next_line`: the parser, the bytes that were read, and the result. -/
def nextLine (parser : H1ReqParser) (buf : Bytes) (strict : Bool) :
    H1ReqParser × Nat × Curlcode :=
  let parser := dropLine parser
  match detectLine buf with
  | some lineLen =>
    let parser := { parser with line := some buf, lineLen }
    if parser.scratch.content ≠ [] then
      match parser.scratch.nappend (buf.take lineLen) true with
      | (scratch, .ok) =>
        let (parser, result) := trimLine { parser with
          scratch, line := some scratch.content, lineLen := scratch.content.length } strict
        (parser, lineLen, result)
      | (scratch, result) => ({ parser with scratch }, lineLen, result)
    else
      let (parser, result) := trimLine parser strict
      (parser, lineLen, result)
  | none =>
    let (scratch, result) := parser.scratch.nappend buf true
    ({ parser with scratch }, buf.length, result)

/-- `!strncmp(s, t, n)`. -/
def strncmp : Bytes → Bytes → Nat → Bool
  | _, _, 0 => true
  | s, t, n + 1 =>
    s.headD 0 == t.headD 0 && (s.headD 0 == 0 || strncmp s.tail t.tail n)

/-- The loop of `start_req` that looks for the last space, from `i` down to `mLen`. -/
def lastSpace (line : Bytes) (mLen : Nat) : Nat → Option Nat
  | 0 => none
  | i + 1 =>
    if i + 1 > mLen then
      if line.getD (i + 1) 0 = 32 then some (i + 1) else lastSpace line mLen i
    else none

/-- `Curl_is_absolute_url` with no guessing, up to the scheme that it copies. -/
def isAbsoluteUrl (url : Bytes) : Bool :=
  let isAlpha := fun c : UInt8 => (97 ≤ c && c ≤ 122) || (65 ≤ c && c ≤ 90)
  let inScheme := fun c : UInt8 => isAlpha c || (48 ≤ c && c ≤ 57) || c == 43 || c == 45 || c == 46
  match url with
  | [] => false
  | c :: rest =>
    isAlpha c && rest.getD ((rest.take 39).takeWhile inScheme).length 0 == 58

/-- `"CONNECT"`. -/
def connect : Bytes := ascii "CONNECT"

/-- The length of the method in `start_req`. -/
def methodLen (line : Bytes) (lineLen : Nat) (customMethod : Option Bytes) :
    Option Nat :=
  let custom := customMethod.getD []
  if custom ≠ [] ∧ strncmp custom line custom.length then some custom.length
  else
    let n := ((line.take lineLen).takeWhile (· ≠ 32)).length
    if 32 ∈ line.take lineLen ∧ n ≠ 0 then some n else none

/-- The target forms of `start_req`. -/
def makeReq (call : Call) (m target : Bytes) : Except Curlcode Httpreq :=
  if target = [42] then .ok (httpReqMake m call.schemeDefault none (some target))
  else if strncmp connect m m.length then
    .ok (httpReqMake m call.schemeDefault (some target) none)
  else if target.head? = some 47 then
    .ok (httpReqMake m call.schemeDefault none (some target))
  else if target.length ≥ 8 * 1024 then .error .urlMalformat
  else if isAbsoluteUrl (Dynhds.cstr target) then
    call.urlReq m (Dynhds.cstr target) (!call.strict) call.schemeDefault
  else if call.strict then .error .urlMalformat
  else .ok (httpReqMake m call.schemeDefault none (some target))

/-- `start_req`. -/
def startReq (parser : H1ReqParser) (call : Call) : H1ReqParser × Curlcode :=
  let line := parser.line.getD []
  match methodLen line parser.lineLen call.customMethod with
  | none => (parser, .urlMalformat)
  | some mLen =>
    match lastSpace line mLen parser.lineLen with
    | none => (parser, .urlMalformat)
    | some i =>
      let hvLen := parser.lineLen - i
      let targetLen := i - mLen - 1
      if targetLen = 0 ∨ hvLen = 0 then (parser, .urlMalformat)
      else
        match makeReq call (line.take mLen) ((line.drop (mLen + 1)).take targetLen) with
        | .error result => (parser, result)
        | .ok req => ({ parser with req := some req }, .ok)

/-- What `Curl_h1_req_parse_read` does with a line. -/
def takeLine (call : Call) (parser : H1ReqParser) : H1ReqParser × Curlcode :=
  match parser.req with
  | none => startReq parser call
  | some req =>
    -- last, empty line
    if parser.lineLen = 0 then ({ parser with done := true, scratch := parser.scratch.reset }, .ok)
    else
      let (headers, result) := req.headers.h1AddLine (parser.line.getD []) parser.lineLen
      ({ parser with req := some { req with headers } }, result)

theorem trimLine_line (parser : H1ReqParser) (strict : Bool) :
    (trimLine parser strict).1.line = parser.line := by
  simp only [trimLine]
  split_ifs <;> rfl

theorem detectLine_some {buf : Bytes} {n : Nat} (h : detectLine buf = some n) :
    0 < n ∧ buf ≠ [] := by
  rw [detectLine] at h
  split at h
  · rename_i hmem
    cases h
    exact ⟨Nat.succ_pos _, List.ne_nil_of_mem hmem⟩
  · cases h

/-- A line is read from a buffer that is not empty; without one, all of the buffer is read. -/
theorem nextLine_read {parser p : H1ReqParser} {buf : Bytes} {strict : Bool} {nread : Nat}
    {result : Curlcode} (h : nextLine parser buf strict = (p, nread, result)) :
    (p.line.isSome = true → 0 < nread ∧ buf ≠ []) ∧ (p.line = none → nread = buf.length) := by
  have hline : (dropLine parser).line = none := by
    rw [dropLine]
    split
    · rfl
    · rename_i hnone
      simpa using hnone
  rw [nextLine] at h
  dsimp only at h
  cases hdetect : detectLine buf with
  | none =>
    rw [hdetect] at h
    cases h
    refine ⟨fun hsome => ?_, fun _ => rfl⟩
    dsimp only at hsome
    rw [hline] at hsome
    cases hsome
  | some n =>
    obtain ⟨hpos, hbuf⟩ := detectLine_some hdetect
    rw [hdetect] at h
    dsimp only at h
    have htrim : ∀ q : H1ReqParser, q.line.isSome = true →
        (trimLine q strict).1.line.isSome = true := fun q hq => by rw [trimLine_line]; exact hq
    have hsome : p.line.isSome = true ∧ nread = n := by
      split at h
      · split at h
        · cases h
          exact ⟨htrim _ rfl, rfl⟩
        · cases h
          exact ⟨rfl, rfl⟩
      · cases h
        exact ⟨htrim _ rfl, rfl⟩
    exact ⟨fun _ => ⟨hsome.2 ▸ hpos, hbuf⟩, fun hnone => by rw [hnone] at hsome; cases hsome.1⟩

/-- `Curl_h1_req_parse_read`: the parser, the bytes that were consumed, and the result. -/
def parseRead (call : Call) (parser : H1ReqParser) (buf : Bytes) :
    H1ReqParser × Nat × Curlcode :=
  if parser.done then (parser, 0, .ok)
  else
    match _ : nextLine parser buf call.strict with
    | (parser, nread, .ok) =>
      if parser.line.isNone then
        -- consumed bytes, but line not complete
        if buf.drop nread = [] then (parser, nread, .ok)
        else
          let (parser, n, result) := parseRead call parser (buf.drop nread)
          (parser, nread + n, result)
      else
        match takeLine call parser with
        | (parser, .ok) =>
          let (parser, n, result) := parseRead call parser (buf.drop nread)
          (parser, nread + n, result)
        | (parser, result) => (parser, nread, result)
    | (parser, _, result) => (parser, 0, if result = .again then .ok else result)
termination_by buf.length
decreasing_by
  · rename_i hnext hline hrest
    have hall : nread = buf.length := (nextLine_read hnext).2 (by simpa using hline)
    exact absurd (by rw [hall, List.drop_length]) hrest
  · rename_i hnext hline
    obtain ⟨hpos, hbuf⟩ :=
      (nextLine_read hnext).1 (by simpa [Option.isSome_iff_ne_none] using hline)
    have := List.length_pos_of_ne_nil hbuf
    rw [List.length_drop]
    omega

end Gurl.Http1
