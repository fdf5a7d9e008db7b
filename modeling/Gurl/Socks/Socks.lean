import Gurl.Curlcode
import Gurl.Lib.Dialogue

/-! The SOCKS5 side of `lib/socks.c`, as it is built without GSSAPI. The buffer `iobuf` has one
chunk of 1024 bytes, more than any request or reply takes, so it is the list of its bytes, and
writing to it does not fail. A function returns `none` where a loop does not end within its fuel. -/

namespace Gurl.Socks

open Dialogue

/-- `CURLproxycode`, in the order of `include/curl/curl.h`. -/
inductive Proxycode where
  | ok | badAddressType | badVersion | closed | gssapi | gssapiPermsg | gssapiProtection | identd
  | identdDiffer | longHostname | longPasswd | longUser | noAuth | recvAddress | recvAuth
  | recvConnect | recvReqack | replyAddressTypeNotSupported | replyCommandNotSupported
  | replyConnectionRefused | replyGeneralServerFailure | replyHostUnreachable
  | replyNetworkUnreachable | replyNotAllowed | replyTtlExpired | replyUnassigned | requestFailed
  | resolveHost | sendAuth | sendConnect | sendRequest | unknownFail | unknownMode | userRejected
  deriving DecidableEq

/-- `enum socks_state_t`, without the states of SOCKS4. -/
inductive SocksState where
  | init | start | req0Send | resp0Recv | gssapiInit | authInit | authSend | authRecv | req1Init
  | resolving | req1Send | resp1Recv | success | failed
  deriving DecidableEq

structure Creds where
  user : Bytes
  passwd : Bytes

/-- The proxy types that speak SOCKS5. -/
inductive ProxyType where
  | socks5 | socks5Hostname
  deriving DecidableEq

inductive Family where
  | inet | inet6

/-- `struct Curl_addrinfo`, by its `ai_family`. -/
inductive Addrinfo where
  | inet (addr : Vector UInt8 4)
  | inet6 (addr : Vector UInt8 16)
  | other

/-- What stays the same in a handshake: the destination, the options, `curlx_inet_pton`, and what
the resolver comes to. -/
structure Setup where
  hostname : Bytes
  port : UInt16
  proxyType : ProxyType
  /-- The bits `CURLAUTH_BASIC` and `CURLAUTH_GSSAPI` of `set.socks5auth`. -/
  authBasic : Bool
  authGssapi : Bool
  /-- `set.ipver` is `CURL_IPRESOLVE_V4`. -/
  ipv4Only : Bool
  inetPton : Bytes → Option (Vector UInt8 4)
  inetPton6 : Bytes → Option (Vector UInt8 16)
  dnsResult : Curlcode
  dnsGetAi : Family → Option Addrinfo

/-- `struct socks_ctx`. -/
structure SocksCtx where
  state : SocksState
  iobuf : Bytes
  creds : Option Creds
  presult : Proxycode
  resolveLocal : Bool
  startResolving : Bool

/-- The context that `Curl_cf_socks_proxy_insert_after` creates. -/
def socksProxyInsert (creds : Option Creds) : SocksCtx where
  state := .init
  iobuf := []
  creds := creds
  presult := .ok
  resolveLocal := false
  startResolving := false

/-! ### The next filter -/

/-- How the next filter answers a call: it moves nothing, as it would block or with success, or it
moves up to `k + 1` bytes. -/
inductive Turn where
  | again
  | zero
  | upTo (k : Nat)

/-- The next filter, with its answers to the calls to come. Without a further answer it blocks. -/
structure Wire where
  line : Line UInt8
  turns : List Turn

def Wire.turn (w : Wire) : Turn × Wire := (w.turns.headD .again, { w with turns := w.turns.tail })

/-- `Curl_conn_cf_send`: the result and the number of bytes sent. -/
def connCfSend (w : Wire) (buf : Bytes) : Wire × Curlcode × Nat :=
  match w.turn with
  | (.again, w) => (w, .again, 0)
  | (.zero, w) => (w, .ok, 0)
  | (.upTo k, w) =>
    let n := min (k + 1) (w.line.room buf.length)
    if n = 0 then (w, .sendError, 0) else ({ w with line := w.line.give (buf.take n) }, .ok, n)

/-- `Curl_conn_cf_recv`: the result and the bytes received, none of them at the end of the
stream. -/
def connCfRecv (w : Wire) (len : Nat) : Wire × Curlcode × Bytes :=
  match w.turn with
  | (.again, w) => (w, .again, [])
  | (.zero, w) => (w, .again, [])
  | (.upTo k, w) =>
    if w.line.incoming = [] then
      match w.line.ending with
      | .silence => (w, .again, [])
      | .closed => (w, .ok, [])
      | .broken => (w, .recvError, [])
    else
      let n := min (k + 1) len
      ({ w with line := w.line.take n }, .ok, w.line.incoming.take n)

/-- The loop of `Curl_bufq_pass`, as `Curl_cf_send_bufq` calls it. -/
def bufqPass : Nat → Wire → Bytes → Nat → Option (Wire × Bytes × Curlcode)
  | 0, _, _, _ => none
  | fuel + 1, w, iobuf, nwritten =>
    if iobuf = [] then some (w, iobuf, .ok)
    else
      match connCfSend w iobuf with
      | (w, .ok, n) =>
        if n = 0 then some (w, iobuf, if nwritten = 0 then .again else .ok)
        else bufqPass fuel w (iobuf.drop n) (nwritten + n)
      | (w, result, _) =>
        some (w, iobuf, if result = .again ∧ nwritten ≠ 0 then .ok else result)

/-- `Curl_cf_send_bufq`, without a further buffer. -/
def cfSendBufq (w : Wire) (iobuf : Bytes) : Option (Wire × Bytes × Curlcode) :=
  bufqPass (iobuf.length + 1) w iobuf 0

/-! ### Requests and replies -/

/-- `socks_failed`. -/
def socksFailed (sx : SocksCtx) (presult : Proxycode) : SocksCtx :=
  { sx with state := .failed, presult }

/-- The loop of `socks_flush`: the result and whether all was sent. -/
def flushLoop : Nat → SocksCtx → Wire → Option (SocksCtx × Wire × Proxycode × Bool)
  | 0, _, _ => none
  | fuel + 1, sx, w =>
    if sx.iobuf = [] then some (sx, w, .ok, true)
    else do
      let (w, iobuf, result) ← cfSendBufq w sx.iobuf
      let sx := { sx with iobuf }
      if result = .again then some (sx, w, .ok, false)
      else if result ≠ .ok then some (socksFailed sx .sendConnect, w, .sendConnect, false)
      else flushLoop fuel sx w

/-- `socks_flush`. -/
def socksFlush (sx : SocksCtx) (w : Wire) : Option (SocksCtx × Wire × Proxycode × Bool) :=
  flushLoop (sx.iobuf.length + 1) sx w

/-- The loop of `socks_recv`: the result and whether there are `minBytes` bytes. -/
def recvLoop (minBytes : Nat) : Nat → SocksCtx → Wire →
    Option (SocksCtx × Wire × Proxycode × Bool)
  | 0, _, _ => none
  | fuel + 1, sx, w =>
    if sx.iobuf.length < minBytes then
      match connCfRecv w (minBytes - sx.iobuf.length) with
      | (w, .again, _) => some (sx, w, .ok, false)
      | (w, .ok, bytes) =>
        -- without a byte the proxy has closed the connection
        if bytes = [] then some (sx, w, .recvConnect, false)
        else recvLoop minBytes fuel { sx with iobuf := sx.iobuf ++ bytes } w
      | (w, _, _) => some (sx, w, .recvConnect, false)
    else some (sx, w, .ok, true)

/-- `socks_recv`. -/
def socksRecv (sx : SocksCtx) (w : Wire) (minBytes : Nat) :
    Option (SocksCtx × Wire × Proxycode × Bool) := recvLoop minBytes (minBytes + 1) sx w

def SocksCtx.write (sx : SocksCtx) (bytes : Bytes) : SocksCtx :=
  { sx with iobuf := sx.iobuf ++ bytes }

/-- `Curl_bufq_skip`. -/
def SocksCtx.skip (sx : SocksCtx) (amount : Nat) : SocksCtx :=
  { sx with iobuf := sx.iobuf.drop amount }

/-- `socks5_req0_init`. -/
def socks5Req0Init (c : Setup) (sx : SocksCtx) : SocksCtx × Proxycode :=
  if !sx.resolveLocal ∧ c.hostname.length > 255 then (sx, .longHostname)
  else
    let sx := if !c.authBasic then { sx with creds := none } else sx
    -- without GSSAPI there are one or two methods
    let methods := if sx.creds.isSome then [0, 2] else [0]
    (sx.write (5 :: UInt8.ofNat methods.length :: methods), .ok)

/-- `socks5_check_resp0`. -/
def socks5CheckResp0 (c : Setup) (sx : SocksCtx) : SocksCtx × Proxycode :=
  match sx.iobuf with
  | version :: authMode :: _ =>
    if version ≠ 5 then (sx, .badVersion)
    else
      let sx := sx.skip 2
      if authMode = 0 then ({ sx with state := .req1Init }, .ok)
      else if authMode = 1 then
        if c.authGssapi then ({ sx with state := .gssapiInit }, .ok) else (sx, .gssapiPermsg)
      else if authMode = 2 then
        if c.authBasic then ({ sx with state := .authInit }, .ok) else (sx, .noAuth)
      else if authMode = 255 then (sx, .noAuth)
      else (sx, .unknownMode)
  | _ => (sx, .recvConnect)

/-- `socks5_auth_init`. -/
def socks5AuthInit (sx : SocksCtx) : SocksCtx × Proxycode :=
  let user := (sx.creds.map Creds.user).getD []
  let passwd := (sx.creds.map Creds.passwd).getD []
  if user.length > 255 then (sx, .longUser)
  else if passwd.length > 255 then (sx, .longPasswd)
  else
    let sx := (sx.write [1, UInt8.ofNat user.length]).write user
    let sx := (sx.write [UInt8.ofNat passwd.length]).write passwd
    ({ sx with state := .authSend }, .ok)

/-- `socks5_check_auth_resp`. -/
def socks5CheckAuthResp (sx : SocksCtx) : SocksCtx × Proxycode :=
  match sx.iobuf with
  | _ :: authStatus :: _ => if authStatus ≠ 0 then (sx, .userRejected) else (sx.skip 2, .ok)
  | _ => (sx, .recvConnect)

/-- The port, most significant byte first. -/
def portBytes (port : UInt16) : Bytes := [(port >>> 8).toUInt8, port.toUInt8]

/-- What to resolve remotely: the header from `desttype` on, and the destination. -/
def remoteDestination (c : Setup) : Option Bytes :=
  if ':'.toUInt8 ∈ c.hostname then (c.inetPton6 c.hostname).map fun addr => 4 :: addr.toList
  else
    match c.inetPton c.hostname with
    | some addr => some (1 :: addr.toList)
    | none => some (3 :: UInt8.ofNat c.hostname.length :: c.hostname)

/-- `socks5_req1_init`. -/
def socks5Req1Init (c : Setup) (sx : SocksCtx) : SocksCtx × Proxycode :=
  if sx.resolveLocal then (sx.write [5, 1, 0], .ok)
  else
    match remoteDestination c with
    | none => (sx, .badAddressType)
    | some destination => (((sx.write [5, 1, 0]).write destination).write (portBytes c.port), .ok)

/-- `ai` in `socks5_resolving`. -/
def resolvedAi (c : Setup) : Option Addrinfo :=
  (if c.ipv4Only then none else c.dnsGetAi .inet6).or (c.dnsGetAi .inet)

/-- The address type and the address of `ai`. -/
def Addrinfo.destination : Addrinfo → Option Bytes
  | .inet addr => some (1 :: addr.toList)
  | .inet6 addr => some (4 :: addr.toList)
  | .other => none

/-- `socks5_resolving`. -/
def socks5Resolving (c : Setup) (dnsDone : Bool) (sx : SocksCtx) : SocksCtx × Proxycode × Bool :=
  let sx := { sx with startResolving := false }
  if !dnsDone then (sx, .ok, false)
  else if c.dnsResult ≠ .ok then (sx, .resolveHost, false)
  else
    match (resolvedAi c).bind Addrinfo.destination with
    | none => (sx, .resolveHost, false)
    | some destination => ((sx.write destination).write (portBytes c.port), .ok, true)

/-- The `lookup` table of `socks5_recv_resp1`. -/
def replyLookup : UInt8 → Proxycode
  | 1 => .replyGeneralServerFailure
  | 2 => .replyNotAllowed
  | 3 => .replyNetworkUnreachable
  | 4 => .replyHostUnreachable
  | 5 => .replyConnectionRefused
  | 6 => .replyTtlExpired
  | 7 => .replyCommandNotSupported
  | 8 => .replyAddressTypeNotSupported
  | _ => .replyUnassigned

/-- What `socks5_recv_resp1` reads from the first bytes of the reply: the length of all of it. -/
def respLen : Bytes → Except Proxycode Nat
  | version :: rep :: _ :: atyp :: len :: _ =>
    if version ≠ 5 then .error .badVersion
    else if rep ≠ 0 then .error (replyLookup rep)
    else if atyp = 1 then .ok (4 + 4 + 2)
    else if atyp = 3 then .ok (4 + 1 + len.toNat + 2)
    else if atyp = 4 then .ok (4 + 16 + 2)
    else .error .badAddressType
  | _ => .error .recvConnect

/-- `socks5_recv_resp1`. -/
def socks5RecvResp1 (sx : SocksCtx) (w : Wire) : Option (SocksCtx × Wire × Proxycode × Bool) := do
  let (sx, w, presult, done) ← socksRecv sx w 8
  if presult ≠ .ok ∨ !done then some (sx, w, presult, false)
  else
    match respLen sx.iobuf with
    | .error presult => some (sx, w, presult, false)
    | .ok len => socksRecv sx w len

/-! ### The states -/

/-- Flush the buffer and go on in the next state: the three states that send. -/
def sending (next : SocksState) (goOn : SocksCtx → Wire → Option (SocksCtx × Wire × Proxycode))
    (sx : SocksCtx) (w : Wire) : Option (SocksCtx × Wire × Proxycode) := do
  let (sx, w, presult, done) ← socksFlush sx w
  if presult ≠ .ok then some (socksFailed sx presult, w, presult)
  else if !done then some (sx, w, .ok)
  else goOn { sx with state := next } w

/-- Receive a reply of two bytes, check it and go on: the two states that wait for one. -/
def receiving (check : SocksCtx → SocksCtx × Proxycode)
    (goOn : SocksCtx → Wire → Option (SocksCtx × Wire × Proxycode))
    (sx : SocksCtx) (w : Wire) : Option (SocksCtx × Wire × Proxycode) := do
  let (sx, w, presult, done) ← socksRecv sx w 2
  if presult ≠ .ok then some (socksFailed sx presult, w, presult)
  else if !done then some (sx, w, .ok)
  else
    let (sx, presult) := check sx
    if presult ≠ .ok then some (socksFailed sx presult, w, presult) else goOn sx w

/-- `case SOCKS5_ST_RESP1_RECV`. -/
def resp1Recv (sx : SocksCtx) (w : Wire) : Option (SocksCtx × Wire × Proxycode) := do
  let (sx, w, presult, done) ← socks5RecvResp1 sx w
  if presult ≠ .ok then some (socksFailed sx presult, w, presult)
  else if !done then some (sx, w, .ok)
  else some ({ sx with state := .success }, w, .ok)

/-- `case SOCKS5_ST_REQ1_SEND`. -/
def req1Send : SocksCtx → Wire → Option (SocksCtx × Wire × Proxycode) :=
  sending .resp1Recv resp1Recv

/-- `case SOCKS5_ST_RESOLVING`. -/
def resolving (c : Setup) (dnsDone : Bool) (sx : SocksCtx) (w : Wire) :
    Option (SocksCtx × Wire × Proxycode) :=
  let (sx, presult, done) := socks5Resolving c dnsDone sx
  if presult ≠ .ok then some (socksFailed sx presult, w, presult)
  else if !done then some (sx, w, .ok)
  else req1Send { sx with state := .req1Send } w

/-- `case SOCKS5_ST_REQ1_INIT`. -/
def req1Init (c : Setup) (dnsDone : Bool) (sx : SocksCtx) (w : Wire) :
    Option (SocksCtx × Wire × Proxycode) :=
  let (sx, presult) := socks5Req1Init c sx
  if presult ≠ .ok then some (socksFailed sx presult, w, presult)
  else if !sx.resolveLocal then req1Send { sx with state := .req1Send } w
  else resolving c dnsDone { sx with state := .resolving, startResolving := true } w

/-- `case SOCKS5_ST_AUTH_RECV`. -/
def authRecv (c : Setup) (dnsDone : Bool) :
    SocksCtx → Wire → Option (SocksCtx × Wire × Proxycode) :=
  receiving socks5CheckAuthResp fun sx w => req1Init c dnsDone { sx with state := .req1Init } w

/-- `case SOCKS5_ST_AUTH_SEND`. -/
def authSend (c : Setup) (dnsDone : Bool) :
    SocksCtx → Wire → Option (SocksCtx × Wire × Proxycode) :=
  sending .authRecv (authRecv c dnsDone)

/-- `case SOCKS5_ST_AUTH_INIT`. -/
def authInit (c : Setup) (dnsDone : Bool) (sx : SocksCtx) (w : Wire) :
    Option (SocksCtx × Wire × Proxycode) :=
  let (sx, presult) := socks5AuthInit sx
  if presult ≠ .ok then some (socksFailed sx presult, w, presult)
  else authSend c dnsDone { sx with state := .authSend } w

/-- `goto process_state` behind `socks5_check_resp0`, which has set one of these states. -/
def afterResp0 (c : Setup) (dnsDone : Bool) (sx : SocksCtx) (w : Wire) :
    Option (SocksCtx × Wire × Proxycode) :=
  match sx.state with
  | .gssapiInit => some (socksFailed sx .gssapiPermsg, w, .gssapiPermsg)
  | .authInit => authInit c dnsDone sx w
  | _ => req1Init c dnsDone sx w

/-- `case SOCKS5_ST_RESP0_RECV`. -/
def resp0Recv (c : Setup) (dnsDone : Bool) :
    SocksCtx → Wire → Option (SocksCtx × Wire × Proxycode) :=
  receiving (socks5CheckResp0 c) (afterResp0 c dnsDone)

/-- `case SOCKS5_ST_REQ0_SEND`. -/
def req0Send (c : Setup) (dnsDone : Bool) :
    SocksCtx → Wire → Option (SocksCtx × Wire × Proxycode) :=
  sending .resp0Recv (resp0Recv c dnsDone)

/-- `case SOCKS5_ST_START`. -/
def start (c : Setup) (dnsDone : Bool) (sx : SocksCtx) (w : Wire) :
    Option (SocksCtx × Wire × Proxycode) :=
  let (sx, presult) := socks5Req0Init c sx
  if presult ≠ .ok then some (socksFailed sx presult, w, presult)
  else req0Send c dnsDone { sx with state := .req0Send } w

/-- `case SOCKS_ST_INIT`, up to the next case. -/
def SocksCtx.begin (c : Setup) (sx : SocksCtx) : SocksCtx :=
  { sx with resolveLocal := decide (c.proxyType = .socks5), state := .start }

/-- `socks5_connect`. The resolver may have finished during the call. -/
def socks5Connect (c : Setup) (dnsDone : Bool) (sx : SocksCtx) (w : Wire) :
    Option (SocksCtx × Wire × Proxycode) :=
  match sx.state with
  | .init => start c dnsDone (sx.begin c) w
  | .start => start c dnsDone sx w
  | .req0Send => req0Send c dnsDone sx w
  | .resp0Recv => resp0Recv c dnsDone sx w
  | .gssapiInit => some (socksFailed sx .gssapiPermsg, w, .gssapiPermsg)
  | .authInit => authInit c dnsDone sx w
  | .authSend => authSend c dnsDone sx w
  | .authRecv => authRecv c dnsDone sx w
  | .req1Init => req1Init c dnsDone sx w
  | .resolving => resolving c dnsDone sx w
  | .req1Send => req1Send sx w
  | .resp1Recv => resp1Recv sx w
  | .success => some (sx, w, .ok)
  | .failed => some (sx, w, sx.presult)

end Gurl.Socks
