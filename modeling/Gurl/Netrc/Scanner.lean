import Gurl.Dynbuf
import Gurl.Strcase

/-! `lib/netrc.c`: the lexer and the scanner of a netrc file. A C string is the bytes before its
NUL. -/

namespace Gurl.Netrc

open Strcase

/-- `NETRCcode`. -/
inductive Code where
  | ok | noMatch | syntaxError | fileMissing | outOfMemory
  deriving DecidableEq

/-- `MAX_NETRC_TOKEN`. -/
def maxNetrcToken : Nat := 4096

/-- `CURL_MAX_INPUT_LENGTH`. -/
def curlMaxInputLength : Nat := 8000000

/-- `curl2netrc`. -/
def curl2netrc : Curlcode → Code
  | .ok => .ok
  | .outOfMemory => .outOfMemory
  | _ => .syntaxError

/-- `curl_netrc_token`. -/
inductive Token where
  | eof | literal | machine | default | account | login | passwd | macdef | junk
  deriving DecidableEq

/-- `struct netrc_lexer`; `pos` is what is left of the content. -/
structure Lexer where
  pos : Bytes
  literal : Dynbuf
  token : Token
  pushed : Bool

/-- `ISBLANK`. -/
def isblank (c : UInt8) : Bool := c == 32 || c == 9

/-- `ISNEWLINE`. -/
def isnewline (c : UInt8) : Bool := c == 10 || c == 13

/-- The loop of `netrc_skip_blanks`. -/
def skipBlanksLoop : Nat → Bytes → Bytes
  | 0, s => s
  | fuel + 1, s =>
    if s = [] then s
    else
      match (s.dropWhile isblank).dropWhile (· == 13) with
      | 10 :: s => skipBlanksLoop fuel s
      | s => s

/-- `netrc_skip_blanks`. -/
def skipBlanks (s : Bytes) : Bytes := skipBlanksLoop (s.length + 1) s

/-- The loop of `netrc_skip_to_empty_line`. -/
def skipToEmptyLineLoop : Nat → Bytes → Bytes
  | 0, s => s
  | _ + 1, [] => []
  | fuel + 1, c :: s =>
    if c = 13 then skipToEmptyLineLoop fuel s
    else if c = 10 then
      let s := s.dropWhile (· == 13)
      if s.head? = some 10 then s else skipToEmptyLineLoop fuel s
    else skipToEmptyLineLoop fuel s

/-- `netrc_skip_to_empty_line`. -/
def skipToEmptyLine (s : Bytes) : Bytes := skipToEmptyLineLoop (s.length + 1) s

/-- The character that an escaped one stands for. -/
def unescape (c : UInt8) : UInt8 :=
  if c = 110 then 10 else if c = 114 then 13 else if c = 116 then 9 else c

/-- The loop of `netrc_lexer_quoted`, behind the opening quote. -/
def quotedLoop : Dynbuf → Bool → Bytes → Dynbuf × Code × Bytes
  | literal, _, [] => (literal, .syntaxError, [])
  | literal, true, c :: s =>
    match literal.nappend [unescape c] true with
    | (literal, .ok) => quotedLoop literal false s
    | (literal, result) => (literal, curl2netrc result, c :: s)
  | literal, false, c :: s =>
    if c = 92 then quotedLoop literal true s
    else if c = 34 then (literal, .ok, s)
    else
      match literal.nappend [c] true with
      | (literal, .ok) => quotedLoop literal false s
      | (literal, result) => (literal, curl2netrc result, c :: s)

/-- What an unquoted word is where no literal is wanted. -/
def keyword (word : Bytes) : Token :=
  let slen := word.length
  if slen = 7 ∧ strnequal word (ascii "machine") slen then .machine
  else if slen = 7 ∧ strnequal word (ascii "default") slen then .default
  else if slen = 7 ∧ strnequal word (ascii "account") slen then .account
  else if slen = 5 ∧ strnequal word (ascii "login") slen then .login
  else if slen = 8 ∧ strnequal word (ascii "password") slen then .passwd
  else if slen = 6 ∧ strnequal word (ascii "macdef") slen then .macdef
  else .junk

/-- The bytes of an unquoted word. -/
def isword (c : UInt8) : Bool := !isblank c && !isnewline c

/-- `netrc_lexer_next`. -/
def lexerNext (lexer : Lexer) (wantLiteral : Bool) : Lexer × Code :=
  if lexer.pushed then ({ lexer with pushed := false }, .ok)
  else
    let literal := lexer.literal.reset
    match skipBlanks lexer.pos with
    | [] => ({ lexer with pos := [], literal, token := .eof }, .ok)
    | 34 :: s =>
      let (literal, rc, pos) := quotedLoop literal false s
      ({ lexer with pos, literal, token := .literal }, rc)
    | start =>
      let word := start.takeWhile isword
      let pos := start.dropWhile isword
      if wantLiteral then
        let (literal, result) := literal.nappend word true
        ({ lexer with pos, literal, token := .literal }, curl2netrc result)
      else
        let rc := if word.length = 0 then .syntaxError else .ok
        ({ lexer with pos, literal, token := keyword word }, rc)

/-- `struct Curl_creds`, of which a netrc file gives two fields. -/
structure Creds where
  user : Bytes
  passwd : Bytes

/-- `struct netrc_scanner`. -/
structure Scanner where
  lexer : Lexer
  hostname : Bytes
  user : Option Bytes
  login : Option Bytes
  passwd : Option Bytes
  creds : Option Creds
  matchesHost : Bool
  found : Bool

/-- `netrc_scan_init`: an empty user is none. -/
def scanInit (content hostname : Bytes) (user : Option Bytes) : Scanner where
  lexer := ⟨content, .init maxNetrcToken, .eof, false⟩
  hostname
  user := user.filter (· ≠ [])
  login := none
  passwd := none
  creds := none
  matchesHost := false
  found := false

/-- `netrc_scan_reset`. -/
def scanReset (sc : Scanner) : Scanner :=
  { sc with login := none, passwd := none, matchesHost := false }

/-- `netrc_scan_literal`, with the field it stores the literal in. It is `none` where `strdup` gets
a null pointer: the buffer of the literal is only there once something was added to it. -/
def scanLiteral (sc : Scanner) (store : Option (Scanner → Bytes → Scanner)) :
    Option (Scanner × Code) :=
  match lexerNext sc.lexer true with
  | (lexer, .ok) =>
    let sc := { sc with lexer }
    if lexer.token = .literal then
      match store with
      | some store =>
        if sc.matchesHost then lexer.literal.bufr.map fun bytes => (store sc bytes, .ok)
        else some (sc, .ok)
      | none => some (sc, .ok)
    else some ({ sc with lexer := { lexer with pushed := true } }, .ok)
  | (lexer, rc) => some ({ sc with lexer }, rc)

/-- `Curl_creds_create`, with the user and the password of a netrc file. -/
def credsCreate (user passwd : Option Bytes) : Option Creds × Curlcode :=
  if user = none ∧ passwd = none then (none, .ok)
  else if (user.getD []).length > curlMaxInputLength ∨ (passwd.getD []).length > curlMaxInputLength
  then (none, .badFunctionArgument)
  else (some ⟨user.getD [], passwd.getD []⟩, .ok)

/-- Make the credentials of an entry that was found. -/
def scanCreds (sc : Scanner) : Scanner × Code :=
  if sc.found then
    match credsCreate (if sc.user.isSome then sc.user else sc.login) sc.passwd with
    | (creds, .ok) => ({ sc with creds }, .ok)
    | _ => ({ sc with creds := none }, .outOfMemory)
  else (sc, .ok)

/-- What `netrc_scan_end_entry` does before the reset. -/
def scanEntry (sc : Scanner) : Scanner × Code :=
  if sc.matchesHost then
    match sc.login, sc.user with
    | some login, some user =>
      if user ≠ login then (sc, .ok) else scanCreds { sc with found := sc.passwd.isSome }
    | some _, none => scanCreds { sc with found := true }
    | none, _ => scanCreds (if sc.passwd.isSome then { sc with found := true } else sc)
  else (sc, .ok)

/-- `netrc_scan_end_entry`. -/
def scanEndEntry (sc : Scanner) : Scanner × Code := (scanReset (scanEntry sc).1, (scanEntry sc).2)

/-- What the scanner does with a token. -/
def scanToken (sc : Scanner) : Option (Scanner × Code) :=
  match sc.lexer.token with
  | .machine =>
    match lexerNext sc.lexer true with
    | (lexer, .ok) =>
      if lexer.token = .literal then
        -- `curl_strequal` of a name and a null pointer is false
        let matchesHost := (lexer.literal.bufr.map (strequal sc.hostname)).getD false
        some ({ sc with lexer, matchesHost }, .ok)
      else some ({ sc with lexer := { lexer with pushed := true }, matchesHost := false }, .ok)
    | (lexer, rc) => some ({ sc with lexer }, rc)
  | .default => some ({ sc with matchesHost := true }, .ok)
  | .account => scanLiteral sc none
  | .login => scanLiteral sc (some fun sc bytes => { sc with login := some bytes })
  | .passwd => scanLiteral sc (some fun sc bytes => { sc with passwd := some bytes })
  | .macdef =>
    some ({ sc with lexer := { sc.lexer with pos := skipToEmptyLine sc.lexer.pos } }, .ok)
  | _ => some (sc, .ok)

/-- The token ends the entry before it. -/
def endsEntry : Token → Bool
  | .eof | .machine | .default | .macdef => true
  | _ => false

/-- The loop of `netrc_scan`. -/
def scanLoop : Nat → Scanner → Option (Scanner × Code)
  | 0, _ => none
  | fuel + 1, sc =>
    if sc.found then some (sc, .ok)
    else
      match lexerNext sc.lexer false with
      | (lexer, .ok) =>
        let sc := { sc with lexer }
        match if endsEntry lexer.token then scanEndEntry sc else (sc, .ok) with
        | (sc, .ok) =>
          if endsEntry lexer.token ∧ sc.found then some (sc, .ok)
          else if lexer.token = .eof then some (sc, .ok)
          else do
            match ← scanToken sc with
            | (sc, .ok) => scanLoop fuel sc
            | (sc, rc) => some (sc, rc)
        | (sc, rc) => some (sc, rc)
      | (lexer, rc) => some ({ sc with lexer }, rc)

/-- `netrc_scan`, with the credentials it gives. -/
def netrcScan (content hostname : Bytes) (user : Option Bytes) :
    Option (Code × Option Creds) := do
  match ← scanLoop (content.length + 2) (scanInit content hostname user) with
  | (sc, .ok) => if sc.creds.isSome then some (.ok, sc.creds) else some (.noMatch, none)
  | (_, rc) => some (rc, none)

/-! The grammar of netrc files that `lib/netrc.c` gives in its comment, the entries of a file and
the credentials that they give. -/

/-- `QUOTED` without its quotes, and the bytes that it stands for. -/
inductive Quoted : Bytes → Bytes → Prop
  | nil : Quoted [] []
  | plain {body value : Bytes} (c : UInt8) :
    c ≠ 92 → c ≠ 34 → Quoted body value → Quoted (c :: body) (c :: value)
  | newline {body value : Bytes} : Quoted body value → Quoted (92 :: 110 :: body) (10 :: value)
  | cr {body value : Bytes} : Quoted body value → Quoted (92 :: 114 :: body) (13 :: value)
  | tab {body value : Bytes} : Quoted body value → Quoted (92 :: 116 :: body) (9 :: value)
  | other {body value : Bytes} (c : UInt8) :
    c ≠ 110 → c ≠ 114 → c ≠ 116 → Quoted body value → Quoted (92 :: c :: body) (c :: value)

/-- Spaces, tabs and line ends. -/
def Blank (sp : Bytes) : Prop := ∀ c ∈ sp, isword c = false

/-- The word in front of `rest` is a whole one, and does not start a quoted literal. -/
structure Word (word rest : Bytes) : Prop where
  ne_nil : word ≠ []
  bytes : ∀ c ∈ word, isword c = true
  unquoted : word.head? ≠ some 34
  ends : ∀ c ∈ rest.head?, isword c = false

/-- `LITERAL` in front of `rest`, with its value. -/
inductive Literal : Bytes → Bytes → Bytes → Prop
  | word {word rest : Bytes} : Word word rest → Literal word word rest
  | quoted {body value rest : Bytes} :
    Quoted body value → Literal (34 :: (body ++ [34])) value rest

/-- What follows an opening quote has no closing one, or is longer than a literal may be. -/
inductive BadQuoted (limit : Nat) : Bytes → Prop
  | unclosed {body value : Bytes} : Quoted body value → BadQuoted limit body
  | escape {body value : Bytes} : Quoted body value → BadQuoted limit (body ++ [92])
  | long {body value rest : Bytes} :
    Quoted body value → limit ≤ value.length → BadQuoted limit (body ++ rest)

/-- No literal can be read here. -/
inductive BadLiteral (limit : Nat) : Bytes → Prop
  | quoted {text : Bytes} : BadQuoted limit text → BadLiteral limit (34 :: text)
  | word {word rest : Bytes} :
    Word word rest → limit ≤ word.length → BadLiteral limit (word ++ rest)

/-- An empty line follows: `EMPTY_LINE`. -/
def EmptyLine (s : Bytes) : Prop :=
  ∃ crs rest, (∀ c ∈ crs, c = 13) ∧ s = 10 :: (crs ++ 10 :: rest)

/-- `ANYTHING*` in front of `rest`, which starts with the last line end of the first empty line. -/
inductive MacroText : Bytes → Bytes → Prop
  | eof : MacroText [] []
  | empty {crs rest : Bytes} : (∀ c ∈ crs, c = 13) → MacroText (10 :: crs) (10 :: rest)
  | byte {text rest : Bytes} (c : UInt8) :
    ¬EmptyLine (c :: (text ++ rest)) → MacroText text rest → MacroText (c :: text) rest

/-- The name of a keyword. -/
def Token.name : Token → Option Bytes
  | .machine => some (ascii "machine")
  | .default => some (ascii "default")
  | .account => some (ascii "account")
  | .login => some (ascii "login")
  | .passwd => some (ascii "password")
  | .macdef => some (ascii "macdef")
  | _ => none

/-- The word is a keyword, in whatever case. -/
def IsKeyword (token : Token) (word : Bytes) : Prop :=
  ∃ name, token.name = some name ∧ strequal word name = true

/-- The keywords that a literal follows. -/
inductive Key where
  | machine | login | passwd | account

/-- What a netrc file consists of. `unnamed` is `machine` without a name. -/
inductive Item where
  | machine (name : Bytes)
  | default
  | login (value : Bytes)
  | passwd (value : Bytes)
  | account (value : Bytes)
  | macdef
  | literal (value : Bytes)
  | junk
  | unnamed

def Key.token : Key → Token
  | .machine => .machine
  | .login => .login
  | .passwd => .passwd
  | .account => .account

def Key.item : Key → Bytes → Item
  | .machine => .machine
  | .login => .login
  | .passwd => .passwd
  | .account => .account

/-- A keyword that no literal follows. -/
def Key.bare : Key → Item
  | .machine => .unnamed
  | _ => .junk

/-- How the items end. -/
inductive Stop where
  | eof | syntaxError
  deriving DecidableEq

/-- `NETRC`: the items of a content, with less than `limit` bytes in a literal. -/
inductive Parses (limit : Nat) : Bytes → List Item → Stop → Prop
  | eof {sp : Bytes} : Blank sp → Parses limit sp [] .eof
  | junk {sp word rest : Bytes} {items : List Item} {stop : Stop} :
    Blank sp → Word word rest → (∀ token, ¬IsKeyword token word) → Parses limit rest items stop →
    Parses limit (sp ++ (word ++ rest)) (.junk :: items) stop
  | quoted {sp body value rest : Bytes} {items : List Item} {stop : Stop} :
    Blank sp → Quoted body value → value.length < limit → Parses limit rest items stop →
    Parses limit (sp ++ (34 :: (body ++ 34 :: rest))) (.literal value :: items) stop
  | badQuoted {sp text : Bytes} :
    Blank sp → BadQuoted limit text → Parses limit (sp ++ 34 :: text) [] .syntaxError
  | default {sp word rest : Bytes} {items : List Item} {stop : Stop} :
    Blank sp → Word word rest → IsKeyword .default word → Parses limit rest items stop →
    Parses limit (sp ++ (word ++ rest)) (.default :: items) stop
  | macdef {sp word text rest : Bytes} {items : List Item} {stop : Stop} :
    Blank sp → Word word (text ++ rest) → IsKeyword .macdef word → MacroText text rest →
    Parses limit rest items stop →
      Parses limit (sp ++ (word ++ (text ++ rest))) (.macdef :: items) stop
  | key (k : Key) {sp word sp' text value rest : Bytes} {items : List Item} {stop : Stop} :
    Blank sp → Word word (sp' ++ (text ++ rest)) → IsKeyword k.token word → Blank sp' →
    Literal text value rest → value.length < limit → Parses limit rest items stop →
    Parses limit (sp ++ (word ++ (sp' ++ (text ++ rest)))) (k.item value :: items) stop
  | keyEof (k : Key) {sp word sp' : Bytes} :
    Blank sp → Word word sp' → IsKeyword k.token word → Blank sp' →
    Parses limit (sp ++ (word ++ sp')) [k.bare] .eof
  | keyBad (k : Key) {sp word sp' text : Bytes} :
    Blank sp → Word word (sp' ++ text) → IsKeyword k.token word → Blank sp' →
    BadLiteral limit text → Parses limit (sp ++ (word ++ (sp' ++ text))) [k.bare] .syntaxError

/-- `MENTRY` or, without a name, `DENTRY`. -/
structure Entry where
  name : Option Bytes
  login : Option Bytes
  passwd : Option Bytes

/-- The entries of a file, behind the one that has begun. One that a syntax error cuts off is
none. -/
def entries : Option Entry → List Item → Stop → List Entry
  | e, [], .eof => e.toList
  | _, [], .syntaxError => []
  | e, .machine name :: items, stop => e.toList ++ entries (some ⟨some name, none, none⟩) items stop
  | e, .default :: items, stop => e.toList ++ entries (some ⟨none, none, none⟩) items stop
  | e, .login value :: items, stop =>
    entries (e.map fun e => { e with login := some value }) items stop
  | e, .passwd value :: items, stop =>
    entries (e.map fun e => { e with passwd := some value }) items stop
  | e, .account _ :: items, stop | e, .literal _ :: items, stop | e, .junk :: items, stop =>
    entries e items stop
  | e, .macdef :: items, stop | e, .unnamed :: items, stop => e.toList ++ entries none items stop

/-- The entry is about the host. -/
def Entry.applies (host : Bytes) (e : Entry) : Bool :=
  match e.name with
  | some name => strequal host name
  | none => true

/-- The entry gives credentials for the user. -/
def Entry.decides (user : Option Bytes) (e : Entry) : Bool :=
  match e.login, user with
  | some login, some user => user = login && e.passwd.isSome
  | some _, none => true
  | none, _ => e.passwd.isSome

/-- The credentials of an entry. -/
def Entry.creds (user : Option Bytes) (e : Entry) : Creds where
  user := (if user.isSome then user else e.login).getD []
  passwd := e.passwd.getD []

/-- What the first entry that applies and decides gives. -/
def decided (es : List Entry) (stop : Stop) (host : Bytes) (user : Option Bytes) :
    Code × Option Creds :=
  match es.find? fun e => e.applies host && e.decides user with
  | some e => (.ok, some (e.creds user))
  | none => (if stop = .eof then .noMatch else .syntaxError, none)

/-- The result for a host and an optional user. -/
def outcome (items : List Item) (stop : Stop) (host : Bytes) (user : Option Bytes) :
    Code × Option Creds :=
  decided (entries none items stop) stop host (user.filter (· ≠ []))

/-- A CR has an LF behind it. -/
def CrBeforeLf (s : Bytes) : Prop := ∀ p rest, s = p ++ 13 :: rest → rest.head? = some 10

/-- No empty login or password of a default entry comes before every value that is not empty. -/
def Ready : Bool → List Item → Bool
  | _, [] => true
  | _, .machine name :: items => name ≠ [] || Ready false items
  | _, .default :: items => Ready true items
  | dflt, .login value :: items | dflt, .passwd value :: items =>
    value ≠ [] || !dflt && Ready dflt items
  | dflt, .account value :: items | dflt, .literal value :: items => value ≠ [] || Ready dflt items
  | dflt, .junk :: items => Ready dflt items
  | _, .macdef :: items | _, .unnamed :: items => Ready false items

end Gurl.Netrc
