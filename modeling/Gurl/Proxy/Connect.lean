import Gurl.Http.Reset
import Gurl.Ftplist.Parser

/-! The CONNECT tunnel of `lib/cf-h1-proxy.c`: how it reads the response of a proxy, header line by
header line, and how it is made ready for the next one. -/

namespace Gurl.Proxy

open Strcase Strparse
open Urlglob (isBlank)

/-- `enum keeponval`. -/
inductive Keepon where
  | done | connect | ignore
  deriving DecidableEq

/-- `h1_tunnel_state`. -/
inductive TunnelState where
  | init | connect | receive | response | established | failed
  deriving DecidableEq

/-- `struct h1_tunnel_state`; `ch` comes with what it has passed on. -/
structure Tunnel where
  rcvbuf : Dynbuf
  requestData : Bytes
  nsent : Nat
  headerlines : Nat
  ch : Http.Decoder
  keepon : Keepon
  cl : Nat
  tunnelState : TunnelState
  chunkedEncoding : Bool
  closeConnection : Bool
  maybeFolded : Bool
  leadingUnfold : Bool

/-- `DYN_PROXY_CONNECT_HEADERS`. -/
def dynProxyConnectHeaders : Nat := 16384

/-- The tunnel that `Curl_cf_h1_proxy_insert_after` makes. -/
def Tunnel.create : Tunnel where
  rcvbuf := .init dynProxyConnectHeaders
  requestData := []
  nsent := 0
  headerlines := 0
  ch := ⟨.init true, [], [], 0⟩
  keepon := .done
  cl := 0
  tunnelState := .init
  chunkedEncoding := false
  closeConnection := false
  maybeFolded := false
  leadingUnfold := false

/-- `tunnel_reinit`. -/
def tunnelReinit (ts : Tunnel) : Tunnel :=
  { ts with
    rcvbuf := ts.rcvbuf.reset
    requestData := []
    tunnelState := .init
    keepon := .connect
    cl := 0
    closeConnection := false
    maybeFolded := false
    leadingUnfold := false
    nsent := 0
    headerlines := 0 }

/-- A tunnel and the transfer that opens it: `req.httpcode`, `info.httpproxycode`, and the rest. -/
structure Conn (σ : Type*) where
  ts : Tunnel
  httpcode : Nat
  httpproxycode : Nat
  data : σ

/-- What is around the tunnel: the kind of the tunnel, what it looks up in the transfer, and the
functions that it calls with the transfer. -/
structure Host (σ : Type*) where
  udpTunnel : Bool
  headerline : σ → Nat
  authproblem : σ → Bool
  /-- `set.proxyauth`, `state.authproxy.avail` and `req.hd_proxy_auth` are all there. -/
  proxyAuth : σ → Bool
  newurl : σ → Bool
  connClose : σ → Bool
  createTunnelRequest : σ → Except Curlcode (Bytes × σ)
  clientWrite : Bool → Bytes → σ → Except Curlcode σ
  bumpHeadersize : Nat → σ → Except Curlcode σ
  httpInputAuth : Bool → Bytes → σ → Except Curlcode σ
  httpAuthAct : Nat → σ → Except Curlcode σ
  pgrsUpdate : σ → Except Curlcode σ
  reqSoftReset : σ → σ
  transfer : σ → Http.Transfer

/-! ### Reading header lines -/

/-- `ISNEWLINE`. -/
def isNewline (c : UInt8) : Bool := c == 10 || c == 13

/-- `MAX_HTTP_RESP_HEADER_SIZE`. -/
def maxHttpRespHeaderSize : Nat := 300 * 1024

/-- `checkprefix`. -/
def checkPrefix (pre text : Bytes) : Bool := strnequal pre text pre.length

/-- The words of `curlx_str_until` and `curlx_str_untilnl`: the bytes before the first one that
`stops`, at least one and at most `max`, and what is behind them. -/
def wordUntil (stops : UInt8 → Bool) (max : Nat) (line : Bytes) :
    Option (Bytes × Bytes) :=
  let word := line.takeWhile (!stops ·)
  if word.length > max ∨ word = [] then none else some (word, line.dropWhile (!stops ·))

/-- `curlx_str_trimblanks`. -/
def trimblanks (word : Bytes) : Bytes := (word.dropWhile isBlank).rdropWhile isBlank

/-- `Curl_copy_header_value`. -/
def copyHeaderValue (header : Bytes) : Option Bytes :=
  match wordUntil (· == 58) maxHttpRespHeaderSize header with
  | none => none
  | some (_, rest) =>
    match strSingle rest 58 with
    | .error _ => none
    | .ok value =>
      match wordUntil isNewline maxHttpRespHeaderSize value with
      | none => some []
      | some (word, _) => some (trimblanks word)

/-- The loop of `Curl_compareheader` over a list with commas; `len` is a `size_t`. -/
def compareLoop (content : Bytes) : Nat → Bytes → Nat → Bool
  | 0, _, _ => false
  | fuel + 1, p, len =>
    if len < content.length then false
    else if strnequal p content content.length &&
        (p.drop content.length).head?.all (fun c => c == 44 || isBlank c || isNewline c) then true
    else
      match wordUntil (· == 44) maxHttpRespHeaderSize p with
      | none => false
      | some (_, rest) =>
        match strSingle rest 44 with
        | .error _ => false
        | .ok rest =>
          let next := rest.dropWhile fun c => isBlank c || c == 44
          compareLoop content fuel next ((len + 2 ^ 64 - (p.length - next.length)) % 2 ^ 64)

/-- `Curl_compareheader`. -/
def compareheader (headerline header content : Bytes) : Bool :=
  if !strnequal headerline header header.length then false
  else
    match wordUntil isNewline maxHttpRespHeaderSize (headerline.drop header.length) with
    | none => false
    | some (val, _) =>
      let p := (headerline.drop header.length).dropWhile isBlank
      compareLoop content (p.length + 1) p (trimblanks val).length

/-- The code of a line such as `HTTP/1.1 407`. -/
def statusCode (header : Bytes) : Option Nat :=
  match header.drop 7 with
  | v :: sp :: a :: b :: c :: rest =>
    if header.take 7 = ascii "HTTP/1." ∧ (v = 48 ∨ v = 49) ∧ sp = 32 ∧ isDigit a ∧ isDigit b ∧
        isDigit c ∧ !rest.head?.any isDigit then
      some ((a.toNat - 48) * 100 + (b.toNat - 48) * 10 + (c.toNat - 48))
    else none
  | _ => none

section

variable {σ : Type*} (host : Host σ)

/-- The line asks for a login that goes with the status code. -/
def authRequest (httpcode : Nat) (header : Bytes) : Bool :=
  (checkPrefix (ascii "WWW-Authenticate:") header && httpcode == 401) ||
    (checkPrefix (ascii "Proxy-authenticate:") header && httpcode == 407)

/-- The line says that the body is chunked. -/
def saysChunked (header : Bytes) : Bool :=
  compareheader header (ascii "Transfer-Encoding:") (ascii "chunked")

def inputAuth (c : Conn σ) (header : Bytes) : Except Curlcode (Conn σ) :=
  match copyHeaderValue header with
  | none => .error .outOfMemory
  | some auth => do
    let data ← host.httpInputAuth (c.httpcode == 407) auth c.data
    .ok { c with data }

def contentLength (c : Conn σ) (header : Bytes) : Except Curlcode (Conn σ) :=
  match Ftplist.strNumblanks (header.drop (ascii "Content-Length:").length) with
  | .error _ => .error .weirdServerReply
  | .ok (cl, _) => .ok { c with ts := { c.ts with cl } }

/-- The chunked encoding starts with `Curl_httpchunk_reset`. -/
def startChunked (c : Conn σ) : Conn σ :=
  { c with ts := { c.ts with
      chunkedEncoding := true
      ch := { c.ts.ch with ch := Http.httpchunkReset c.ts.ch.ch true } } }

def Conn.close (c : Conn σ) : Conn σ := { c with ts := { c.ts with closeConnection := true } }

/-- `on_resp_header`. -/
def onRespHeader (c : Conn σ) (header : Bytes) : Except Curlcode (Conn σ) :=
  if authRequest c.httpcode header then inputAuth host c header
  else if checkPrefix (ascii "Content-Length:") header then
    if c.httpcode / 100 = 2 then .ok c else contentLength c header
  else if compareheader header (ascii "Connection:") (ascii "close") then .ok c.close
  else if checkPrefix (ascii "Transfer-Encoding:") header then
    if c.httpcode / 100 = 2 then .ok c
    else if saysChunked header then .ok (startChunked c)
    else .ok c
  else if compareheader header (ascii "Proxy-Connection:") (ascii "close") then .ok c.close
  else
    match statusCode header with
    | none => .ok c
    | some code => .ok { c with httpcode := code, httpproxycode := code }

/-- `on_resp_header_udp`. -/
def onRespHeaderUdp (c : Conn σ) (header : Bytes) : Except Curlcode (Conn σ) :=
  if authRequest c.httpcode header then inputAuth host c header
  else if checkPrefix (ascii "Content-Length:") header then
    if c.httpcode / 100 = 2 ∨ c.httpcode = 101 then .ok c else contentLength c header
  else if checkPrefix (ascii "Transfer-Encoding:") header then
    if c.httpcode / 100 = 2 ∨ c.httpcode = 101 then .ok c
    else if saysChunked header then .ok (startChunked c)
    else .ok c
  -- traced only
  else if checkPrefix (ascii "Capsule-protocol:") header then .ok c
  else if compareheader header (ascii "Connection:") (ascii "close") then .ok c.close
  else if compareheader header (ascii "Proxy-Connection:") (ascii "close") then .ok c.close
  else
    match statusCode header with
    | none => .ok c
    | some code => .ok { c with httpcode := code, httpproxycode := code }

def respHeader (c : Conn σ) (header : Bytes) : Except Curlcode (Conn σ) :=
  if host.udpTunnel then onRespHeaderUdp host c header else onRespHeader host c header

/-- What `single_header` makes of the empty line. -/
def endOfHeaders (c : Conn σ) : Conn σ :=
  let keepon :=
    if c.httpcode = 407 ∧ host.authproblem c.data = false then
      if c.ts.cl ≠ 0 then .ignore
      else if c.ts.chunkedEncoding then .ignore
      else .done
    else .done
  { c with ts := { c.ts with keepon } }

/-- `single_header`. -/
def singleHeader (c : Conn σ) : Except Curlcode (Conn σ) :=
  let linep := c.ts.rcvbuf.content
  let c := { c with ts := { c.ts with headerlines := c.ts.headerlines + 1 } }
  let result := Http.verifyHeader (host.headerline c.data) linep
  if result ≠ .ok then .error result
  else do
    let data ← host.clientWrite (c.ts.headerlines == 1) linep c.data
    let data ← host.bumpHeadersize linep.length data
    let c := { c with data }
    if linep.head?.any isNewline then .ok (endOfHeaders host c)
    else
      let c ← respHeader host c linep
      .ok { c with ts := { c.ts with rcvbuf := c.ts.rcvbuf.reset } }

/-- The length that `Curl_http_to_fold` leaves: without the end of the line and the blanks
before. -/
def foldLength (hd : Bytes) : Nat :=
  let hd := if hd.getLast? = some 10 then hd.dropLast else hd
  let hd := if hd.getLast? = some 13 then hd.dropLast else hd
  (hd.rdropWhile isBlank).length

/-- `Curl_http_to_fold`. -/
def httpToFold (bf : Dynbuf) : Dynbuf := (bf.setlen (foldLength bf.content)).1

/-- Add a byte to the line. -/
def addByte (b : UInt8) (c : Conn σ) : Except Curlcode (Conn σ) :=
  match c.ts.rcvbuf.nappend [b] true with
  | (rcvbuf, .ok) => .ok { c with ts := { c.ts with rcvbuf } }
  | _ => .error .recvError

/-- A byte of a line, and the end of the line. -/
def lineByte (b : UInt8) (c : Conn σ) : Except Curlcode (Conn σ) := do
  let c ← addByte b c
  if b ≠ 10 then .ok c
  else if c.ts.rcvbuf.content.head?.any isNewline then singleHeader host c
  else .ok { c with ts := { c.ts with maybeFolded := true } }

/-- The blanks in front of a folded line become one space. -/
def unfoldByte (b : UInt8) (c : Conn σ) : Except Curlcode (Conn σ) :=
  if c.ts.leadingUnfold then
    if isBlank b then .ok c
    else do
      let c ← addByte 32 c
      lineByte host b { c with ts := { c.ts with leadingUnfold := false } }
  else lineByte host b c

/-- A byte of the header block. -/
def headerByte (b : UInt8) (c : Conn σ) : Except Curlcode (Conn σ) :=
  if c.ts.maybeFolded then
    if isBlank b then
      unfoldByte host b { c with ts := { c.ts with
        rcvbuf := httpToFold c.ts.rcvbuf, leadingUnfold := true, maybeFolded := false } }
    else do
      let c ← singleHeader host c
      unfoldByte host b { c with ts := { c.ts with maybeFolded := false } }
  else unfoldByte host b c

/-- A byte of a body that is ignored. -/
def ignoreByte (b : UInt8) (c : Conn σ) : Except Curlcode (Conn σ) :=
  if c.ts.chunkedEncoding then
    match Http.httpchunkReadwrite (host.transfer c.data) c.ts.ch [b] with
    | some (.ok, ch, _) =>
      let keepon := if ch.ch.state = .done then .done else c.ts.keepon
      .ok { c with ts := { c.ts with ch, keepon } }
    | some (result, _, _) => .error result
    | none => .error .recvError
  else if c.ts.cl ≠ 0 then
    let cl := c.ts.cl - 1
    .ok { c with ts := { c.ts with cl, keepon := if cl = 0 then .done else c.ts.keepon } }
  else .ok c

/-- What `Curl_conn_recv` may give, `CURLE_AGAIN` apart. -/
inductive Recv where
  | byte (b : UInt8)
  | eof
  | error (result : Curlcode)
  deriving DecidableEq

/-- The end of the connection right behind a line: the line is complete. -/
def pendingLine (c : Conn σ) : Except Curlcode (Conn σ) :=
  if c.ts.maybeFolded then do
    let c ← singleHeader host c
    .ok { c with ts := { c.ts with maybeFolded := false } }
  else .ok c

/-- The end of the connection, in the middle of a response. -/
def recvEof (c : Conn σ) : Except Curlcode (Conn σ) := do
  let c ← pendingLine host c
  if host.proxyAuth c.data then
    .ok { c with ts := { c.ts with closeConnection := true, keepon := .done } }
  else .error .recvError

/-- One time around the loop of `recv_CONNECT_resp`. An error makes the tunnel fail. -/
def recvStep (r : Recv) (c : Conn σ) : Except Curlcode (Conn σ) :=
  match r with
  | .error result => .error result
  | .eof => do
    let data ← host.pgrsUpdate c.data
    recvEof host { c with data }
  | .byte b => do
    let data ← host.pgrsUpdate c.data
    let c := { c with data }
    if c.ts.keepon = .ignore then ignoreByte host b c else headerByte host b c

/-! ### From request to request -/

/-- `h1_tunnel_go_state`, without what it does to the transfer at the end. -/
def goState (newState : TunnelState) (ts : Tunnel) : Tunnel :=
  if ts.tunnelState = newState then ts
  else
    match newState with
    | .init => tunnelReinit ts
    | .connect =>
      { ts with tunnelState := .connect, keepon := .connect, rcvbuf := ts.rcvbuf.reset }
    | .receive => { ts with tunnelState := .receive }
    | .response => { ts with tunnelState := .response }
    | .established | .failed =>
      { ts with tunnelState := newState, rcvbuf := ts.rcvbuf.reset, requestData := [] }

/-- `start_CONNECT`. -/
def startConnect (c : Conn σ) : Except Curlcode (Conn σ) := do
  let (requestData, data) ← host.createTunnelRequest c.data
  .ok { c with ts := { c.ts with requestData, nsent := 0, headerlines := 0 }, data }

/-- `send_CONNECT`, after `nwritten` bytes more have gone out: also whether that was all. -/
def sendConnect (nwritten : Nat) (ts : Tunnel) : Tunnel × Bool :=
  let nsent := ts.nsent + nwritten
  ({ ts with nsent }, ts.requestData.length ≤ nsent)

/-- The end of `recv_CONNECT_resp`. -/
def endResponse (c : Conn σ) : Except Curlcode (Conn σ) :=
  if c.httpproxycode / 100 ≠ 2 ∧ !(host.udpTunnel && c.httpproxycode == 101) then do
    let data ← host.httpAuthAct c.httpcode c.data
    .ok { c with data }
  else .ok c

/-- What can happen next in `H1_CONNECT`. -/
inductive Event where
  | start
  | send (nwritten : Nat)
  | recv (r : Recv)
  | respond
  | retry
  deriving DecidableEq

/-- `H1_CONNECT`, one event at a time; there is no next state where it fails or comes to its end. -/
def step (c : Conn σ) (e : Event) : Option (Conn σ) :=
  match e, c.ts.tunnelState with
  | .start, .init =>
    (startConnect host c).toOption.map fun c => { c with ts := goState .connect c.ts }
  | .send nwritten, .connect =>
    if nwritten ≤ c.ts.requestData.length - c.ts.nsent then
      let (ts, done) := sendConnect nwritten c.ts
      some { c with ts := if done then goState .receive ts else ts }
    else none
  | .recv r, .receive =>
    if c.ts.keepon = .done then none else (recvStep host r c).toOption
  | .respond, .receive =>
    if c.ts.keepon = .done then
      (endResponse host c).toOption.map fun c => { c with ts := goState .response c.ts }
    else none
  | .retry, .response =>
    if host.newurl c.data && !c.ts.closeConnection &&
        !host.connClose (host.reqSoftReset c.data) then
      some { c with ts := goState .init c.ts, data := host.reqSoftReset c.data }
    else none
  | _, _ => none

end

end Gurl.Proxy
