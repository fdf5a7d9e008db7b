import Gurl.Dynbuf
import Gurl.Mprintf
import Gurl.Lib.Odometer

/-! `src/tool_urlglob.c`: the parser of a pattern of URLs, and the counter over its expressions. A C
string is the list of its bytes, without the terminating zero; what is left of it stands for a
pointer into it. -/

namespace Gurl.Urlglob

open Strparse

/-- `MAX_CONFIG_LINE_LENGTH`. -/
def maxConfigLineLength : Nat := 10 * 1024 * 1024

/-- `DYN_APRINTF`. -/
def dynAprintf : Nat := 8000000

/-- `CURL_OFF_T_MAX`. -/
def curlOffTMax : Nat := 2 ^ 63 - 1

/-- `MAX_IP6LEN`. -/
def maxIp6len : Nat := 128

/-- `MAX_GLOBNAME_LEN`. -/
def maxGlobnameLen : Nat := 64

/-- What the tool runs on: whether `char` is signed, and the strings that `curl_url_set` takes for a
URL with `CURLU_GUESS_SCHEME`. -/
structure Env where
  charSigned : Bool
  urlSet : Bytes → Bool

/-- What a failure returns, with what `globerror` notes. -/
structure Failure where
  result : Curlcode
  error : Option String
  pos : Nat
  deriving DecidableEq

/-- The union `c` of `struct URLPattern`, with its type. -/
inductive Content where
  | set (elem : List Bytes) (idx : Nat)
  | ascii (min max letter step : Nat)
  | num (min max idx step npad : Nat)

/-- `struct URLPattern`; the index of a literal, -1, is `none`. -/
structure URLPattern where
  name : Option Bytes
  globindex : Option Nat
  c : Content

/-- `struct URLGlob`. -/
structure URLGlob where
  buf : Dynbuf
  pattern : List URLPattern
  palloc : Nat
  beenhere : Bool

/-- `ISALPHA`. -/
def isAlpha (c : UInt8) : Bool := (97 ≤ c && c ≤ 122) || (65 ≤ c && c ≤ 90)

/-- `ISBLANK`. -/
def isBlank (c : UInt8) : Bool := c == 32 || c == 9

/-- The value of a `char`. -/
def charVal (env : Env) (c : UInt8) : Int :=
  if env.charSigned && 128 ≤ c then c.toNat - 256 else c.toNat

/-- The braces and brackets. -/
def isSpecial (c : UInt8) : Bool := c == 123 || c == 91 || c == 125 || c == 93

/-- `globerror`, with `CURLE_URL_MALFORMAT`. -/
def globerror {α : Type} (error : String) (pos : Nat) : Except Failure α :=
  .error ⟨.urlMalformat, some error, pos⟩

/-- `multiply`: `none` if the product does not fit. -/
def multiply (amount factor : Nat) : Option Nat :=
  if amount * factor ≤ curlOffTMax then some (amount * factor) else none

/-- `curlx_dyn_addn`, when every failure is one of memory. -/
def dynAddn (buf : Dynbuf) (mem : Bytes) : Except Failure Dynbuf :=
  match buf.nappend mem true with
  | (buf, .ok) => .ok buf
  | _ => .error ⟨.outOfMemory, none, 0⟩

/-- The loop of `glob_set`: what is left of the pattern, the position, the amount, the elements and
the buffer. -/
def globSetLoop (opattern : Bytes) (amount : Nat) :
    Bytes → Nat → List Bytes → Dynbuf →
      Except Failure (Bytes × Nat × Nat × List Bytes × Dynbuf)
  | [], pos, _, _ => globerror "unmatched brace" pos
  | c :: pattern, pos, elem, buf =>
    if c = 123 ∨ c = 91 then globerror "nested brace" pos
    else if c = 125 then
      if opattern = c :: pattern then globerror "empty string within braces" pos
      else
        match multiply amount (elem.length + 1) with
        | none => globerror "range overflow" 0
        | some amount =>
          if elem.length ≥ 100000 then globerror "range overflow" 0
          else .ok (pattern, pos, amount, elem ++ [buf.content], buf.reset)
    else if c = 44 then
      if elem.length ≥ 100000 then globerror "range overflow" 0
      else globSetLoop opattern amount pattern (pos + 1) (elem ++ [buf.content]) buf.reset
    else if c = 93 then globerror "unexpected close bracket" pos
    else
      match pattern with
      | d :: rest =>
        -- an escaped byte, whatever it is
        if c = 92 then
          match dynAddn buf [d] with
          | .error e => .error e
          | .ok buf => globSetLoop opattern amount rest (pos + 2) elem buf
        else
          match dynAddn buf [c] with
          | .error e => .error e
          | .ok buf => globSetLoop opattern amount (d :: rest) (pos + 1) elem buf
      | [] =>
        match dynAddn buf [c] with
        | .error e => .error e
        | .ok _ => globerror "unmatched brace" (pos + 1)

/-- `glob_set`. -/
def globSet (pattern : Bytes) (pos amount : Nat) (buf : Dynbuf) :
    Except Failure (Bytes × Nat × Nat × Content × Dynbuf) :=
  match globSetLoop pattern amount pattern pos [] buf with
  | .error e => .error e
  | .ok (pattern, pos, amount, elem, buf) => .ok (pattern, pos, amount, .set elem 0, buf)

/-- The step of a range of letters, with what is left behind it. -/
def letterStep (p : Bytes) : Bytes × Nat :=
  match strNumber p 256 with
  | .error _ => (p, 0)
  | .ok (num, p) =>
    match strSingle p 93 with
    | .error _ => (p, 0)
    | .ok p => (p, num % 256)

/-- The bounds and the step of a range of letters if it has the form of one, and what is left. -/
def letterRange (pattern : Bytes) : Option (UInt8 × UInt8 × Nat) × Bytes :=
  match pattern with
  | minC :: 45 :: maxC :: endC :: rest =>
    if endC = 58 then (some (minC, maxC, (letterStep rest).2), (letterStep rest).1)
    else if endC = 93 then (some (minC, maxC, 1), rest)
    else (none, pattern)
  | _ => (none, pattern)

/-- `glob_range`, behind a letter. -/
def globLetters (env : Env) (pattern : Bytes) (pos amount : Nat) :
    Except Failure (Bytes × Nat × Nat × Content) :=
  let (found, p) := letterRange pattern
  let pos := pos + (pattern.length - p.length)
  match found with
  | none => globerror "bad range" pos
  | some (minC, maxC, step) =>
    let width := charVal env maxC - charVal env minC
    if step = 0 ∨ (width = 0 ∧ step ≠ 1) ∨
        (width ≠ 0 ∧ (width < 0 ∨ (step : Int) > width ∨ width > 25)) then globerror "bad range" pos
    else
      match multiply amount ((maxC.toNat - minC.toNat) / step + 1) with
      | none => globerror "range overflow" pos
      | some amount => .ok (p, pos, amount, .ascii minC.toNat maxC.toNat minC.toNat step)

/-- The step of a range of numbers, with what is left behind it. -/
def numberStep (pattern : Bytes) : Bytes × Nat :=
  match strSingle pattern 93 with
  | .ok pattern => (pattern, 1)
  | .error _ =>
    match strSingle pattern 58 with
    | .error _ => (pattern, 0)
    | .ok pattern =>
      match strNumber pattern curlOffTMax with
      | .error _ => (pattern, 0)
      | .ok (num, pattern) =>
        match strSingle pattern 93 with
        | .error _ => (pattern, 0)
        | .ok pattern => (pattern, num)

/-- The bounds and the step of a range of numbers, and what is left; the step of a range without the
form of one is zero. -/
def numberRange (pattern : Bytes) : Nat × Nat × Nat × Bytes :=
  match strNumber pattern curlOffTMax with
  | .error _ => (0, 0, 0, pattern)
  | .ok (minN, pattern) =>
    match strSingle pattern 45 with
    | .error _ => (minN, 0, 0, pattern)
    | .ok pattern =>
      -- `curlx_str_passblanks`
      let pattern := pattern.dropWhile isBlank
      match strNumber pattern curlOffTMax with
      | .error _ => (minN, 0, 0, pattern)
      | .ok (maxN, pattern) => (minN, maxN, (numberStep pattern).2, (numberStep pattern).1)

/-- `glob_range`, behind a digit. -/
def globNumbers (pattern : Bytes) (pos amount : Nat) :
    Except Failure (Bytes × Nat × Nat × Content) :=
  let npad := if pattern.head? = some 48 then (pattern.takeWhile isDigit).length else 0
  let (minN, maxN, stepN, p) := numberRange pattern
  let pos := pos + (pattern.length - p.length)
  if stepN = 0 ∨ (minN = maxN ∧ stepN ≠ 1) ∨
    (minN ≠ maxN ∧ (minN > maxN ∨ stepN > maxN - minN)) then
    globerror "bad range" pos
  else if curlOffTMax - stepN < maxN then globerror "range end/step overflow" pos
  else
    match multiply amount ((maxN - minN) / stepN + 1) with
    | none => globerror "range overflow" pos
    | some amount => .ok (p, pos, amount, .num minN maxN minN stepN npad)

/-- `glob_range`. -/
def globRange (env : Env) (pattern : Bytes) (pos amount : Nat) :
    Except Failure (Bytes × Nat × Nat × Content) :=
  match pattern with
  | [] => globerror "bad range specification" pos
  | c :: _ =>
    if isAlpha c then globLetters env pattern pos amount
    else if isDigit c then globNumbers pattern pos amount
    else globerror "bad range specification" pos

/-- `peek_ipv6`: the length of the text in brackets if it is the host of a URL. -/
def peekIpv6 (env : Env) (str : Bytes) : Option Nat :=
  let hostname := str.takeWhile (· != 93)
  let hlen := hostname.length + 1
  if hostname.length = str.length ∨ hlen ≥ maxIp6len then none
  else if env.urlSet (hostname ++ [93]) then some hlen else none

/-- How many bytes in front of a pattern that starts with a bracket are a part of the literal. -/
def skipBrackets (env : Env) (pattern : Bytes) : Nat :=
  match peekIpv6 env pattern with
  | some skip => skip
  | none => if pattern[1]? = some 93 then 2 else 0

/-- The inner loop of `glob_parse`, which gets over the next `skip` bytes first. -/
def literalLoop (env : Env) :
    Nat → Bytes → Nat → Dynbuf → Except Failure (Bytes × Nat × Dynbuf)
  | _, [], pos, buf => .ok ([], pos, buf)
  | skip + 1, _ :: pattern, pos, buf => literalLoop env skip pattern pos buf
  | 0, c :: pattern, pos, buf =>
    if c = 123 then .ok (c :: pattern, pos, buf)
    else if c = 91 then
      if skipBrackets env (c :: pattern) = 0 then .ok (c :: pattern, pos, buf)
      else
        match dynAddn buf ((c :: pattern).take (skipBrackets env (c :: pattern))) with
        | .error e => .error e
        | .ok buf => literalLoop env (skipBrackets env (c :: pattern) - 1) pattern pos buf
    else if c = 125 ∨ c = 93 then globerror "unmatched close brace/bracket" pos
    else
      match pattern with
      | d :: rest =>
        if c = 92 ∧ isSpecial d then
          match dynAddn buf [d] with
          | .error e => .error e
          | .ok buf => literalLoop env 0 rest (pos + 2) buf
        else
          match dynAddn buf [c] with
          | .error e => .error e
          | .ok buf => literalLoop env 0 (d :: rest) (pos + 1) buf
      | [] =>
        match dynAddn buf [c] with
        | .error e => .error e
        | .ok buf => .ok ([], pos + 1, buf)

/-- `add_glob`, of the entry at the end. -/
def addGlob (glob : URLGlob) (pat : URLPattern) (pos : Nat) : Except Failure URLGlob :=
  let pnum := glob.pattern.length + 1
  if pnum ≥ glob.palloc then
    if pnum < 255 then
      .ok { glob with pattern := glob.pattern ++ [pat], palloc := glob.palloc * 2 }
    else globerror "too many \x7b\x7d sets" pos
  else .ok { glob with pattern := glob.pattern ++ [pat] }

/-- `curlx_str_until`. -/
def strUntil (line : Bytes) (max : Nat) (delim : UInt8) : Option (Bytes × Bytes) :=
  let word := line.takeWhile (· != delim)
  if word.length > max ∨ word = [] then none else some (word, line.dropWhile (· != delim))

/-- The name of an expression, if it has one. -/
def globName (start : Bytes) : Option (Bytes × Bytes) :=
  match strSingle start 60 with
  | .error _ => none
  | .ok pattern =>
    match strUntil pattern maxGlobnameLen 62 with
    | none => none
    | some (name, pattern) =>
      match strSingle pattern 62 with
      | .error _ => none
      | .ok pattern => some (name, pattern)

/-- An expression behind its name. -/
def globExpr (env : Env) (set : Bool) (pattern : Bytes) (pos amount : Nat) (buf : Dynbuf) :
    Except Failure (Bytes × Nat × Nat × Content × Dynbuf) :=
  if set then globSet pattern pos amount buf
  else
    match globRange env pattern pos amount with
    | .error e => .error e
    | .ok (pattern, pos, amount, c) => .ok (pattern, pos, amount, c, buf)

/-- An expression behind its name, which `glob_find_name` looks for. -/
def globBehindName (env : Env) (ipattern : Bytes) (glob : URLGlob) (set : Bool)
    (name : Option Bytes) (pattern : Bytes) (pos amount globindex : Nat) :
    Except Failure (Bytes × Nat × Nat × URLGlob) :=
  if name ≠ none ∧ glob.pattern.any (·.name = name) then
    globerror "Duplicate glob name" (ipattern.length - pattern.length)
  else
    match globExpr env set pattern pos amount glob.buf with
    | .error e => .error e
    | .ok (pattern, pos, amount, c, buf) =>
      match addGlob { glob with buf } ⟨name, some globindex, c⟩ pos with
      | .error e => .error e
      | .ok glob => .ok (pattern, pos, amount, glob)

/-- An expression behind its opening character. -/
def globNamed (env : Env) (ipattern : Bytes) (glob : URLGlob) (set : Bool) (start : Bytes)
    (pos amount globindex : Nat) : Except Failure (Bytes × Nat × Nat × URLGlob) :=
  match globName start with
  | some (name, pattern) =>
    globBehindName env ipattern glob set (some name) pattern
      (pos + (start.length - pattern.length)) amount
      globindex
  | none => globBehindName env ipattern glob set none start pos amount globindex

/-- The outer loop of `glob_parse`: `none` when the fuel does not do. -/
def globParseLoop (env : Env) (ipattern : Bytes) :
    Nat → URLGlob → Bytes → Nat → Nat → Nat → Option (Except Failure (URLGlob × Nat))
  | 0, _, _, _, _, _ => none
  | fuel + 1, glob, pattern, pos, amount, globindex =>
    if pattern = [] then some (.ok (glob, amount))
    else
      match literalLoop env 0 pattern pos glob.buf with
      | .error e => some (.error e)
      | .ok (pattern, pos, buf) =>
        if buf.content ≠ [] then
          -- `glob_fixed`
          match addGlob { glob with buf := buf.reset } ⟨none, none, .set [buf.content] 0⟩ pos with
          | .error e => some (.error e)
          | .ok glob => globParseLoop env ipattern fuel glob pattern pos amount globindex
        else
          match pattern with
          | [] => some (.ok ({ glob with buf }, amount))
          | c :: start =>
            if c = 123 ∨ c = 91 then
              match globNamed env ipattern { glob with buf } (c = 123) start (pos + 1) amount
                globindex with
              | .error e => some (.error e)
              | .ok (pattern, pos, amount, glob) =>
                globParseLoop env ipattern fuel glob pattern pos amount (globindex + 1)
            else globParseLoop env ipattern fuel { glob with buf } (c :: start) pos amount globindex

/-- `glob_url`: the glob and the number of URLs. -/
def globUrl (env : Env) (url : Bytes) : Option (Except Failure (URLGlob × Nat)) :=
  globParseLoop env url (url.length + 1) ⟨.init maxConfigLineLength, [], 2, false⟩ url 1 1 0

/-- A pattern is counted on; the flag tells that it starts again. -/
def Content.next : Content → Content × Bool
  | .set elem idx =>
    if idx + 1 = elem.length then (.set elem 0, true) else (.set elem (idx + 1), false)
  | .ascii min max letter step =>
    if letter + step > max then (.ascii min max min step, true)
    else (.ascii min max (letter + step) step, false)
  | .num min max idx step npad =>
    if idx + step > max then (.num min max min step npad, true)
    else (.num min max (idx + step) step npad, false)

def URLPattern.next (pat : URLPattern) : URLPattern × Bool :=
  ({ pat with c := pat.c.next.1 }, pat.c.next.2)

/-- The counter of `glob_next_url`, from the rightmost pattern on. -/
def carryLoop : List URLPattern → List URLPattern × Bool
  | [] => ([], true)
  | pat :: pattern =>
    let (pattern, carry) := carryLoop pattern
    if carry then
      let (pat, carry) := pat.next
      (pat :: pattern, carry)
    else (pat :: pattern, false)

/-- `%0*lld`. -/
def fmtPadded (npad num : Nat) : Bytes :=
  List.replicate (npad - (Mprintf.fmtUint num).length) 48 ++ Mprintf.fmtUint num

/-- `curlx_dyn_addf` of the tool, which makes a string first. -/
def dynAddf (buf : Dynbuf) (text : Bytes) : Dynbuf × Curlcode :=
  if text.length + 1 > dynAprintf then (buf.free, .outOfMemory) else buf.nappend text true

/-- A pattern is put into the buffer. -/
def Content.add (buf : Dynbuf) : Content → Dynbuf × Curlcode
  | .set elem idx => buf.nappend (elem.getD idx []) true
  | .ascii _ _ letter _ => buf.nappend [UInt8.ofNat letter] true
  | .num _ _ idx _ npad => dynAddf buf (fmtPadded npad idx)

/-- The loop of `glob_next_url` that makes the URL. -/
def addLoop (buf : Dynbuf) : List URLPattern → Dynbuf × Curlcode
  | [] => (buf, .ok)
  | pat :: pattern =>
    match pat.c.add buf with
    | (buf, .ok) => addLoop buf pattern
    | (buf, _) => (buf, .outOfMemory)

/-- `glob_next_url`. -/
def globNextUrl (glob : URLGlob) : URLGlob × Curlcode × Option Bytes :=
  let (pattern, carry) := if glob.beenhere then carryLoop glob.pattern else (glob.pattern, false)
  let glob := { glob with buf := glob.buf.reset, beenhere := true, pattern }
  if carry then (glob, .ok, none)
  else
    match addLoop glob.buf pattern with
    | (buf, .ok) => ({ glob with buf }, .ok, some buf.content)
    | (buf, result) => ({ glob with buf }, result, none)

/-- The glob after `n` calls, and what they gave. -/
def calls : Nat → URLGlob → URLGlob × List (Curlcode × Option Bytes)
  | 0, glob => (glob, [])
  | n + 1, glob =>
    let (glob, given) := globNextUrl glob
    let (glob, rest) := calls n glob
    (glob, given :: rest)

/-! What a pattern of URLs means: the expressions it is made of, and the strings each of them stands
for. -/

/-- A part of a pattern. -/
inductive Item where
  | literal (text : Bytes)
  | set (elems : List Bytes)
  | letters (min max step : Nat)
  | numbers (min max step width : Nat)

/-- A string for a part of a pattern; a number is printed. -/
structure Piece where
  text : Bytes
  printed : Bool

/-- The numbers from `min` to `max`, in steps. -/
def rangeOf (min max step : Nat) : List Nat :=
  (List.range ((max - min) / step + 1)).map fun k => min + k * step

/-- The strings a part stands for, in their order. -/
def Item.choices : Item → List Piece
  | .literal text => [⟨text, false⟩]
  | .set elems => elems.map (⟨·, false⟩)
  | .letters min max step => (rangeOf min max step).map fun c => ⟨[UInt8.ofNat c], false⟩
  | .numbers min max step width => (rangeOf min max step).map fun n => ⟨fmtPadded width n, true⟩

/-- All combinations, the rightmost part varying fastest. -/
def combinations (items : List Item) : List (List Piece) :=
  Odometer.product (items.map Item.choices)

/-- The string of a combination. -/
def textOf (pieces : List Piece) : Bytes := pieces.flatMap Piece.text

/-- A string fits into the buffers it is made in. -/
def Fits (pieces : List Piece) : Prop :=
  (∀ p ∈ pieces, p.printed = true → p.text.length < dynAprintf) ∧
    (textOf pieces).length < maxConfigLineLength

instance (pieces : List Piece) : Decidable (Fits pieces) := inferInstanceAs (Decidable (_ ∧ _))

/-- What a call gives for a combination. -/
def given (pieces : List Piece) : Curlcode × Option Bytes :=
  if Fits pieces then (.ok, some (textOf pieces)) else (.outOfMemory, none)

/-- The text in brackets in front of a pattern that is a part of a literal: the host of a URL, or
nothing. -/
inductive Brackets (env : Env) : Bytes → Prop where
  | host (name : Bytes) (hend : 93 ∉ name) (hlength : name.length + 2 < maxIp6len)
      (hurl : env.urlSet (91 :: name ++ [93]) = true) : Brackets env (91 :: name ++ [93])
  | empty : Brackets env [91, 93]

/-- A literal ends here. -/
def LiteralEnd (env : Env) (rest : Bytes) : Prop :=
  rest = [] ∨ rest.head? = some 123 ∨
    rest.head? = some 91 ∧ ∀ text, Brackets env text → ¬text <+: rest

/-- A literal is read: its value, and what is left. -/
inductive ReadsLiteral (env : Env) : Bytes → Bytes → Bytes → Prop where
  | nil {rest : Bytes} (h : LiteralEnd env rest) : ReadsLiteral env rest [] rest
  | plain {c : UInt8} {p value rest : Bytes} (hc : isSpecial c = false)
      (hescape : c = 92 → ∀ d ∈ p.head?, isSpecial d = false) (h : ReadsLiteral env p value rest) :
      ReadsLiteral env (c :: p) (c :: value) rest
  | escaped {c : UInt8} {p value rest : Bytes} (hc : isSpecial c = true)
      (h : ReadsLiteral env p value rest) : ReadsLiteral env (92 :: c :: p) (c :: value) rest
  | brackets {text p value rest : Bytes} (ht : Brackets env text)
      (h : ReadsLiteral env p value rest) : ReadsLiteral env (text ++ p) (text ++ value) rest

/-- An element of a set is read, up to the byte that ends it. -/
inductive ReadsElem : Bytes → Bytes → Bytes → Prop where
  | nil {c : UInt8} {p : Bytes} (h : c = 44 ∨ c = 125) : ReadsElem (c :: p) [] (c :: p)
  | plain {c : UInt8} {p value rest : Bytes} (hc : isSpecial c = false) (hcomma : c ≠ 44)
      (hescape : c ≠ 92) (h : ReadsElem p value rest) : ReadsElem (c :: p) (c :: value) rest
  | escaped {c : UInt8} {p value rest : Bytes} (h : ReadsElem p value rest) :
      ReadsElem (92 :: c :: p) (c :: value) rest

/-- The elements of a set are read, with the closing brace. -/
inductive ReadsElems : Bytes → List Bytes → Bytes → Prop where
  | last {p value rest : Bytes} (h : ReadsElem p value (125 :: rest)) :
      ReadsElems p [value] rest
  | cons {p value p' rest : Bytes} {elems : List Bytes}
      (h : ReadsElem p value (44 :: p')) (hs : ReadsElems p' elems rest) :
      ReadsElems p (value :: elems) rest

/-- The text of decimal digits for a number. -/
structure Digits (ds : Bytes) (n : Nat) : Prop where
  nonempty : ds ≠ []
  digit : ∀ c ∈ ds, isDigit c = true
  value : decimal ds = n

/-- The end of a range is read: the step, if there is one, and the closing bracket. -/
inductive ReadsStep : Bytes → Nat → Bytes → Prop where
  | one (rest : Bytes) : ReadsStep (93 :: rest) 1 rest
  | given {ds : Bytes} {step : Nat} (h : Digits ds step) (rest : Bytes) :
      ReadsStep (58 :: ds ++ 93 :: rest) step rest

/-- The bounds and the step of a range fit together. -/
structure IsRange (min max step : Nat) : Prop where
  le : min ≤ max
  pos : 0 < step
  step_le : step ≤ max - min ∨ min = max ∧ step = 1

/-- An expression is read, behind its name. -/
inductive ReadsExpr : Bool → Bytes → Item → Bytes → Prop where
  | set {p rest : Bytes} {elems : List Bytes} (h : ReadsElems p elems rest)
      (hne : p.head? ≠ some 125) : ReadsExpr true p (.set elems) rest
  | letters {min max : UInt8} {p rest : Bytes} {step : Nat} (hmin : isAlpha min = true)
      (h : ReadsStep p step rest) (hrange : IsRange min.toNat max.toNat step)
      (hwidth : max.toNat - min.toNat ≤ 25) :
      ReadsExpr false (min :: 45 :: max :: p) (.letters min.toNat max.toNat step) rest
  | numbers {ds blanks ds' p rest : Bytes} {min max step : Nat} (hmin : Digits ds min)
      (hblanks : ∀ c ∈ blanks, isBlank c = true) (hmax : Digits ds' max) (h : ReadsStep p step rest)
      (hrange : IsRange min max step) (hoverflow : max + step ≤ curlOffTMax) :
      ReadsExpr false (ds ++ 45 :: blanks ++ ds' ++ p)
        (.numbers min max step (if ds.head? = some 48 then ds.length else 0)) rest

/-- A name in front of an expression. -/
def IsName (name : Bytes) : Prop :=
  name ≠ [] ∧ name.length ≤ maxGlobnameLen ∧ 62 ∉ name

/-- The name of an expression is read, if there is one. -/
inductive ReadsName : Bytes → Bytes → Prop where
  | named {name : Bytes} (h : IsName name) (rest : Bytes) :
      ReadsName (60 :: name ++ 62 :: rest) rest
  | unnamed {rest : Bytes} (h : ∀ name, IsName name → ¬60 :: name ++ [62] <+: rest) :
      ReadsName rest rest

/-- The parts of a pattern. -/
inductive Reads (env : Env) : Bytes → List Item → Prop where
  | nil : Reads env [] []
  | literal {p text rest : Bytes} {items : List Item} (h : ReadsLiteral env p text rest)
      (hne : text ≠ []) (hrest : Reads env rest items) : Reads env p (.literal text :: items)
  | set {p p' rest : Bytes} {item : Item} {items : List Item} (hname : ReadsName p p')
      (h : ReadsExpr true p' item rest) (hrest : Reads env rest items) :
      Reads env (123 :: p) (item :: items)
  | range {p p' rest : Bytes} {item : Item} {items : List Item}
      (hend : LiteralEnd env (91 :: p)) (hname : ReadsName p p') (h : ReadsExpr false p' item rest)
      (hrest : Reads env rest items) : Reads env (91 :: p) (item :: items)

end Gurl.Urlglob
