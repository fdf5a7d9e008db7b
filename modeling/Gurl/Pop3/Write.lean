import Gurl.Curlcode
import Gurl.Lib.Feed

/-! The body of a mail in `lib/pop3.c`: `pop3_write` searches for the end of the body, takes away
the dots that the server has put in front of lines, and writes what is left to the client. -/

namespace Gurl.Pop3

/-- `POP3_EOB`. -/
def pop3Eob : Bytes := [13, 10, 46, 13, 10]

/-- The fields of `struct pop3_conn` for the body, with what the client has got and whether the
transfer still receives. -/
structure Pop3Conn where
  eob : Nat
  strip : Nat
  written : Bytes
  receiving : Bool
  deriving DecidableEq

/-- What the client says to a write behind what it has got. -/
abbrev Client := Bytes → Bytes → Curlcode

/-- `Curl_client_write` with `CLIENTWRITE_BODY`. -/
def clientWrite (client : Client) (p : Pop3Conn) (bytes : Bytes) : Pop3Conn × Curlcode :=
  match client p.written bytes with
  | .ok => ({ p with written := p.written ++ bytes }, .ok)
  | result => (p, result)

/-- How much of the marker is matched after another byte, and whether that byte is a dot behind the
dot of the marker. -/
def matchByte (eob : Nat) (c : UInt8) : Nat × Bool :=
  if c = 13 then (if eob = 0 then 1 else if eob = 3 then 4 else 1, false)
  else if c = 10 then (if eob = 1 ∨ eob = 4 then eob + 1 else 0, false)
  else if c = 46 then if eob = 2 then (3, false) else (0, eob = 3)
  else (0, false)

/-- The variables of the loop in `pop3_write`: `held` are the bytes from `last` up to `i`. -/
structure Scan where
  pop3 : Pop3Conn
  stripDot : Bool
  held : Bytes

/-- A CR that starts a match: write what is in front of it. -/
def writeHeld (client : Client) (s : Scan) : Scan × Curlcode :=
  match clientWrite client s.pop3 s.held with
  | (pop3, .ok) => ({ s with pop3, held := [] }, .ok)
  | (pop3, result) => ({ s with pop3 }, result)

/-- Write `prev` bytes of the marker; a dot that the server has put there is left out. -/
def writeMarker (client : Client) (pop3 : Pop3Conn) (stripDot : Bool) (prev : Nat) :
    Pop3Conn × Curlcode :=
  if stripDot = true ∧ prev - 1 > 0 then clientWrite client pop3 (pop3Eob.take (prev - 1))
  else if stripDot = false then clientWrite client pop3 (pop3Eob.take prev)
  else (pop3, .ok)

/-- A match of `prev` bytes that goes no further: these bytes belong to the body, but for those that
are to be stripped. -/
def writeFailed (client : Client) (s : Scan) (prev : Nat) : Scan × Curlcode :=
  let n := min prev s.pop3.strip
  let prev := prev - n
  let pop3 := { s.pop3 with strip := s.pop3.strip - n }
  if prev = 0 then ({ s with pop3 }, .ok)
  else
    let (pop3, result) := writeMarker client pop3 s.stripDot prev
    if result ≠ .ok then ({ s with pop3 }, result) else (⟨pop3, false, []⟩, .ok)

/-- A byte of the loop, up to where it becomes a held one. -/
def scanByte (client : Client) (i : Nat) (s : Scan) (c : UInt8) : Scan × Curlcode :=
  let prev := s.pop3.eob
  let (eob, dot) := matchByte prev c
  let s := { s with pop3 := { s.pop3 with eob }, stripDot := s.stripDot || dot }
  let (s, result) := if c = 13 ∧ prev = 0 ∧ i ≠ 0 then writeHeld client s else (s, .ok)
  if result ≠ .ok then (s, result)
  else if prev ≠ 0 ∧ prev ≥ eob then writeFailed client s prev
  else (s, .ok)

/-- The loop over the bytes. -/
def scanLoop (client : Client) : Nat → Scan → Bytes → Scan × Curlcode
  | _, s, [] => (s, .ok)
  | i, s, c :: cs =>
    match scanByte client i s c with
    | (s, .ok) => scanLoop client (i + 1) { s with held := s.held ++ [c] } cs
    | failure => failure

/-- `pop3_write`. -/
def pop3Write (client : Client) (p : Pop3Conn) (str : Bytes) : Pop3Conn × Curlcode :=
  match scanLoop client 0 ⟨p, false, []⟩ str with
  | (s, .ok) =>
    if s.pop3.eob = 5 then
      -- the CRLF in front of the dot belongs to the body
      let (pop3, result) := clientWrite client s.pop3 (pop3Eob.take 2)
      ({ pop3 with receiving := false, eob := 0 }, result)
    else if s.pop3.eob ≠ 0 then (s.pop3, .ok)
    else if s.held ≠ [] then clientWrite client s.pop3 s.held
    else (s.pop3, .ok)
  | (s, result) => (s.pop3, result)

/-- Where `pop3_state_command_resp` starts: the CRLF of the response is matched already, and it is
not a part of the body. -/
def bodyStart : Pop3Conn where
  eob := 2
  strip := 2
  written := []
  receiving := true

/-- Write some pieces, up to the first that fails. -/
def writeAll (client : Client) : Pop3Conn → List Bytes → Pop3Conn × Curlcode
  | p, [] => (p, .ok)
  | p, piece :: pieces =>
    match pop3Write client p piece with
    | (p, .ok) => writeAll client p pieces
    | failure => failure

/-! ### What the server sends -/

/-- A line without its CRLF. -/
structure Line where
  bytes : Bytes
  whole : ¬ [13, 10] <:+: bytes

/-- The mail with these lines. -/
def message (lines : List Line) : Bytes := lines.flatMap fun l => l.bytes ++ [13, 10]

/-- A line as it is sent: with another dot in front of a dot. -/
def stuffed (l : Line) : Bytes :=
  (if l.bytes.head? = some 46 then [46] else []) ++ l.bytes ++ [13, 10]

/-- The lines as they are sent, and the line that ends them. -/
def stream (lines : List Line) : Bytes := lines.flatMap stuffed ++ [46, 13, 10]

end Gurl.Pop3
