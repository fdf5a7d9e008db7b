import Gurl.Vtls.Scache
import Gurl.Splay.Splay

/-! Who a connection talks to and as whom: `lib/peer.c`, `lib/creds.c` and `struct proxy_info`. -/

namespace Gurl.Conn

open Gurl.Strcase Gurl.Vtls

/-- `struct Curl_scheme`; of the protocol's implementation, whether it brings its own check for a
dead connection. Each scheme exists once, so that two pointers are equal when the schemes are. -/
structure Scheme where
  name : Bytes
  protocol : UInt32
  family : UInt32
  flags : UInt32
  connectionIsDead : Bool
  deriving DecidableEq

/-- `struct Curl_peer`. -/
structure Peer where
  scheme : Scheme
  hostname : Bytes
  zoneid : Text
  scopeid : UInt32
  port : UInt16
  unixSocket : Bool
  abstractUds : Bool
  ipv6 : Bool
  deriving DecidableEq

/-- `struct Curl_creds`. -/
structure Creds where
  user : Bytes
  passwd : Bytes
  oauthBearer : Bytes
  saslAuthzid : Bytes
  saslService : Bytes
  deriving DecidableEq

/-- `struct proxy_info`. -/
structure ProxyInfo where
  peer : Option Peer
  creds : Option Creds
  proxytype : UInt8
  deriving DecidableEq

/-- `peer_same_hostname`. -/
def peerSameHostname (p1 p2 : Peer) : Bool :=
  p1.unixSocket == p2.unixSocket &&
  p1.abstractUds == p2.abstractUds &&
  p1.ipv6 == p2.ipv6 &&
  if p1.unixSocket then p1.hostname == p2.hostname else strequal p1.hostname p2.hostname

/-- `Curl_peer_same_destination`; a peer is the same destination as itself, so that comparing the
pointers first only matters when both are `NULL`. -/
def peerSameDestination : Option Peer → Option Peer → Bool
  | none, none => true
  | some p1, some p2 =>
    p1.port == p2.port &&
    peerSameHostname p1 p2 &&
    p1.scopeid == p2.scopeid &&
    (p1.scopeid != 0 || strequalText p1.zoneid p2.zoneid)
  | _, _ => false

/-- `Curl_peer_equal`. -/
def peerEqual : Option Peer → Option Peer → Bool
  | none, none => true
  | some p1, some p2 => p1.scheme == p2.scheme && peerSameDestination (some p1) (some p2)
  | _, _ => false

/-- `Curl_creds_same`. -/
def credsSame : Option Creds → Option Creds → Bool
  | none, none => true
  | some c1, some c2 =>
    !timestrcmp (some c1.user) (some c2.user) &&
    !timestrcmp (some c1.passwd) (some c2.passwd) &&
    !timestrcmp (some c1.oauthBearer) (some c2.oauthBearer) &&
    !timestrcmp (some c1.saslAuthzid) (some c2.saslAuthzid) &&
    !timestrcmp (some c1.saslService) (some c2.saslService)
  | _, _ => false

/-- `proxy_info_matches`. -/
def proxyInfoMatches (data needle : ProxyInfo) : Bool :=
  data.proxytype == needle.proxytype &&
  peerSameDestination data.peer needle.peer &&
  credsSame data.creds needle.creds

theorem credsSame_iff (c1 c2 : Option Creds) : credsSame c1 c2 = true ↔ c1 = c2 := by
  cases c1 with
  | none => cases c2 <;> simp [credsSame]
  | some c1 =>
    cases c2 with
    | none => simp [credsSame]
    | some c2 =>
      obtain ⟨u1, p1, b1, a1, s1⟩ := c1
      obtain ⟨u2, p2, b2, a2, s2⟩ := c2
      simp [credsSame, timestrcmp_iff, and_assoc]

/-- Two peers with the same host up to case, or the same socket path, and the same port and scope,
where `same` says when two zone texts agree. -/
structure SamePlace (same : Text → Text → Prop) (p1 p2 : Peer) : Prop where
  unixSocket : p1.unixSocket = p2.unixSocket
  abstractUds : p1.abstractUds = p2.abstractUds
  ipv6 : p1.ipv6 = p2.ipv6
  host : upper p1.hostname = upper p2.hostname
  path : p1.unixSocket = true → p1.hostname = p2.hostname
  port : p1.port = p2.port
  scopeid : p1.scopeid = p2.scopeid
  zoneid : p1.scopeid = 0 → same p1.zoneid p2.zoneid

/-- The same, for peers that may be missing. -/
def SamePeer (same : Text → Text → Prop) : Option Peer → Option Peer → Prop
  | none, none => True
  | some p1, some p2 => SamePlace same p1 p2
  | _, _ => False

/-- The same proxy, used with the same credentials. -/
structure SameProxy (same : Text → Text → Prop) (p1 p2 : ProxyInfo) : Prop where
  proxytype : p1.proxytype = p2.proxytype
  peer : SamePeer same p1.peer p2.peer
  creds : p1.creds = p2.creds

theorem peerSameHostname_spec {p1 p2 : Peer} (h : peerSameHostname p1 p2 = true) :
    p1.unixSocket = p2.unixSocket ∧ p1.abstractUds = p2.abstractUds ∧ p1.ipv6 = p2.ipv6 ∧
    upper p1.hostname = upper p2.hostname ∧
    (p1.unixSocket = true → p1.hostname = p2.hostname) := by
  simp only [peerSameHostname, Bool.and_eq_true, beq_iff_eq] at h
  obtain ⟨⟨⟨hunix, huds⟩, hipv6⟩, hname⟩ := h
  refine ⟨hunix, huds, hipv6, ?_⟩
  split at hname
  · have hpath := beq_iff_eq.mp hname
    exact ⟨congrArg upper hpath, fun _ => hpath⟩
  · exact ⟨(strequal_iff _ _).mp hname, fun hsocket => absurd hsocket ‹_›⟩

theorem samePeer_of_sameDestination {p1 p2 : Option Peer}
    (h : peerSameDestination p1 p2 = true) : SamePeer SameIgnoringCase p1 p2 := by
  cases p1 with
  | none =>
    cases p2 with
    | none => trivial
    | some p2 => simp [peerSameDestination] at h
  | some p1 =>
    cases p2 with
    | none => simp [peerSameDestination] at h
    | some p2 =>
      simp only [peerSameDestination, Bool.and_eq_true, beq_iff_eq, Bool.or_eq_true, bne_iff_ne,
        strequalText_iff] at h
      obtain ⟨⟨⟨hport, hhost⟩, hscope⟩, hzone⟩ := h
      obtain ⟨hunix, huds, hipv6, hname, hpath⟩ := peerSameHostname_spec hhost
      exact ⟨hunix, huds, hipv6, hname, hpath, hport, hscope,
        fun h0 => hzone.resolve_left fun hne => hne h0⟩

theorem sameProxy_of_matches {p1 p2 : ProxyInfo} (h : proxyInfoMatches p1 p2 = true) :
    SameProxy SameIgnoringCase p1 p2 := by
  simp only [proxyInfoMatches, Bool.and_eq_true, beq_iff_eq, credsSame_iff] at h
  exact ⟨h.1.1, samePeer_of_sameDestination h.1.2, h.2⟩

/-! Looking for a connection to reuse, `lib/url.c`: the checks a pooled connection goes through,
the search over the bundle and what is attached at its end. The build has proxies, HTTP, FTP, SSH,
NTLM and Negotiate (with GSS delegation). -/

open Gurl.Splay (Curltime ptimediffMs)

/-- `curlntlm`. -/
inductive Ntlm
  | none | type1 | type2 | type3 | last
  deriving DecidableEq

/-- `curlnegotiate`. -/
inductive Negotiate
  | none | recv | sent | done | succ
  deriving DecidableEq

/-- `struct ssh_conn`, as far as it is compared. -/
structure SshConn where
  privKey : Text
  pubKey : Text
  deriving DecidableEq

/-- `struct ftp_conn`, as far as it is compared. -/
structure FtpConn where
  account : Text
  alternativeToUser : Text
  ccc : UInt8
  useSsl : UInt8
  deriving DecidableEq

/-- `struct connectdata`, as far as the search reads it. The answers of the connection's filters
(`Curl_conn_is_connected`, `Curl_conn_is_ssl`, `Curl_conn_http_version` and
`Curl_conn_get_max_concurrent`) stand in it as fields. -/
structure Connectdata where
  connectionId : Int
  origin : Peer
  viaPeer : Option Peer
  socksProxy : ProxyInfo
  httpProxy : ProxyInfo
  creds : Option Creds
  credsOrigin : Option Peer
  created : Curltime
  lastused : Curltime
  lastchecked : Curltime
  sslConfig : SslPrimaryConfig
  proxySslConfig : SslPrimaryConfig
  scheme : Scheme
  connectOnly : Bool
  close : Bool
  noReuse : Bool
  upgradeInProgress : Bool
  multiplex : Bool
  originIsProxy : Bool
  protoconnstart : Bool
  attachedMulti : Option Nat
  attachedXfers : Nat
  httpNtlmState : Ntlm
  proxyNtlmState : Ntlm
  httpNegotiateState : Negotiate
  proxyNegotiateState : Negotiate
  localdev : Text
  localport : UInt16
  localportrange : UInt16
  ipVersion : UInt8
  httpversionSeen : UInt8
  gssapiDelegation : UInt8
  ssh : Option SshConn
  ftp : Option FtpConn
  isConnected : Bool
  isSsl : Bool
  httpVersion : UInt8
  maxConcurrent : Nat
  deriving DecidableEq

/-- `struct Curl_easy` with its multi handle, as far as the search reads it. -/
structure Easy where
  multi : Nat
  multiplexing : Bool
  maxConcurrentStreams : Nat
  ipver : UInt8
  useSsl : UInt8
  pipewait : Bool
  connMaxIdleMs : Int
  connMaxAgeMs : Int
  ssl : SslPrimaryConfig
  proxySsl : SslPrimaryConfig
  creds : Option Creds
  origin : Option Peer
  authhostWant : UInt32
  authproxyWant : UInt32
  httpAllowed : UInt8
  now : Curltime

/-- What the network says about an idle connection: the protocol's own check, `Curl_conn_is_alive`
and the input pending it reports. -/
structure Host where
  connectionIsDead : Connectdata → Bool
  isAlive : Connectdata → Bool
  inputPending : Connectdata → Bool

/-- The bits of `struct url_conn_match` that `url_attach_existing` sets and nothing changes. -/
structure Query where
  data : Easy
  needle : Connectdata
  now : Curltime
  mayMultiplex : Bool
  wantNtlmHttp : Bool
  wantProxyNtlmHttp : Bool
  wantNegoHttp : Bool
  wantProxyNegoHttp : Bool
  mayTls : Bool
  requireTls : Bool

/-- `struct url_conn_match`; `terminated` lists the connections that `Curl_conn_seems_dead` reported
and `Curl_conn_terminate` took out of the pool. -/
structure UrlConnMatch extends Query where
  found : Option Connectdata := none
  waitPipe : Bool := false
  forceReuse : Bool := false
  seenPendingConn : Bool := false
  seenSingleUseConn : Bool := false
  seenMultiplexConn : Bool := false
  terminated : List Connectdata := []

def protoFamilyHttp : UInt32 := 0xC0000003
def protoFamilyFtp : UInt32 := 4 ||| 8
def protoFamilySsh : UInt32 := 16 ||| 32
def curlprotoHttp : UInt32 := 1
def protoptSsl : UInt32 := 1
def protoptSslReuse : UInt32 := 0x8000
def curlauthNegotiate : UInt32 := 4
def curlauthNtlm : UInt32 := 8
def curlHttpV1x : UInt8 := 1
def curlHttpV2x : UInt8 := 2
def curlHttpV3x : UInt8 := 4
def curlIpresolveWhatever : UInt8 := 0
def curlusesslNone : UInt8 := 0
def curlusesslControl : UInt8 := 2

/-- `CONN_INUSE`. -/
def Connectdata.inUse (c : Connectdata) : Bool := c.attachedXfers != 0

/-- `CURL_PROXY_IS_HTTPS`. -/
def proxyIsHttps (t : UInt8) : Bool := t == 2 || t == 3 || t == 8

/-- `conn_maxage`. -/
def connMaxage (data : Easy) (conn : Connectdata) (now : Curltime) : Bool :=
  (data.connMaxIdleMs != 0 && decide (ptimediffMs now conn.lastused > data.connMaxIdleMs)) ||
  (data.connMaxAgeMs != 0 && decide (ptimediffMs now conn.created > data.connMaxAgeMs))

/-- `Curl_conn_seems_dead`, with the connection as it leaves it. -/
def connSeemsDead (host : Host) (conn : Connectdata) (data : Easy) (pnow : Curltime) :
    Bool × Connectdata :=
  if !conn.inUse then
    if connMaxage data conn pnow then (true, conn)
    else if ptimediffMs pnow conn.lastchecked < 1000 then (false, conn)
    else if conn.scheme.connectionIsDead then
      (host.connectionIsDead conn, { conn with lastchecked := pnow })
    else (!host.isAlive conn || host.inputPending conn, { conn with lastchecked := pnow })
  else (false, conn)

/-- `xfer_may_multiplex`. -/
def xferMayMultiplex (data : Easy) (conn : Connectdata) : Bool :=
  conn.scheme.protocol &&& protoFamilyHttp != 0 && (!conn.protoconnstart || !conn.close) &&
  data.multiplexing && data.httpAllowed &&& (curlHttpV2x ||| curlHttpV3x) != 0

/-- `ssh_config_matches`. -/
def sshConfigMatches (one two : Connectdata) : Bool :=
  match one.ssh, two.ssh with
  | some s1, some s2 => safecmp s1.privKey s2.privKey && safecmp s1.pubKey s2.pubKey
  | _, _ => false

/-- `Curl_ftp_conns_match`. -/
def ftpConnsMatch (needle conn : Connectdata) : Bool :=
  match needle.ftp, conn.ftp with
  | some n, some c =>
    if timestrcmp n.account c.account || timestrcmp n.alternativeToUser c.alternativeToUser ||
        n.ccc != c.ccc then false
    else if n.useSsl > c.useSsl then false
    else true
  | _, _ => false

/-- `url_match_connect_config`. -/
def urlMatchConnectConfig (conn : Connectdata) (m : Query) : Bool :=
  if conn.connectOnly || conn.close || conn.noReuse then false
  else if m.data.ipver != curlIpresolveWhatever && m.data.ipver != conn.ipVersion then false
  else if (m.needle.localdev.isSome || m.needle.localport != 0) &&
      (conn.localport != m.needle.localport || conn.localportrange != m.needle.localportrange ||
        (m.needle.localdev.isSome &&
          (conn.localdev.isNone || conn.localdev != m.needle.localdev))) then false
  else if m.needle.viaPeer.isNone != conn.viaPeer.isNone then false
  else true

/-- `url_match_fully_connected`. -/
def urlMatchFullyConnected (conn : Connectdata) (m : UrlConnMatch) : Bool × UrlConnMatch :=
  if !conn.isConnected || conn.upgradeInProgress then
    (false, if m.mayMultiplex then { m with seenPendingConn := true } else m)
  else (true, m)

/-- `url_match_multi`. -/
def urlMatchMulti (conn : Connectdata) (m : Query) : Bool :=
  if conn.inUse then conn.attachedMulti == some m.data.multi else true

/-- `url_match_multiplex_needs`. -/
def urlMatchMultiplexNeeds (conn : Connectdata) (m : UrlConnMatch) : Bool × UrlConnMatch :=
  if conn.inUse then
    if !conn.multiplex then (false, { m with seenSingleUseConn := true })
    else (m.mayMultiplex && urlMatchMulti conn m.toQuery, { m with seenMultiplexConn := true })
  else (true, m)

/-- `url_match_multiplex_limits`. -/
def urlMatchMultiplexLimits (conn : Connectdata) (m : Query) : Bool :=
  if conn.inUse && m.mayMultiplex then
    if conn.attachedXfers ≥ m.data.maxConcurrentStreams then false
    else if conn.attachedXfers ≥ conn.maxConcurrent then false
    else true
  else true

/-- `url_match_ssl_use`. -/
def urlMatchSslUse (conn : Connectdata) (m : Query) : Bool :=
  if m.needle.scheme.flags &&& protoptSsl != 0 then conn.isSsl
  else if conn.isSsl then
    m.needle.scheme.flags &&& protoptSslReuse != 0 && conn.scheme.family == m.needle.scheme.protocol
  else !m.requireTls

/-- `url_match_proxy_use`. -/
def urlMatchProxyUse (conn : Connectdata) (m : Query) : Bool :=
  if m.needle.originIsProxy != conn.originIsProxy then false
  else if !proxyInfoMatches m.needle.socksProxy conn.socksProxy then false
  else if !proxyInfoMatches m.needle.httpProxy conn.httpProxy then false
  else if proxyIsHttps m.needle.httpProxy.proxytype then
    matchSslPrimaryConfig m.data.proxySsl conn.proxySslConfig
  else true

/-- `url_match_http_multiplex`. -/
def urlMatchHttpMultiplex (conn : Connectdata) (m : UrlConnMatch) : Bool × UrlConnMatch :=
  if m.mayMultiplex && m.data.httpAllowed &&& (curlHttpV2x ||| curlHttpV3x) != 0 &&
      m.needle.scheme.protocol &&& curlprotoHttp != 0 && conn.httpversionSeen == 0 then
    if m.data.pipewait then (true, { m with found := none, waitPipe := true })
    else (false, m)
  else (true, m)

/-- `url_match_http_version`. -/
def urlMatchHttpVersion (conn : Connectdata) (m : Query) : Bool :=
  if m.needle.scheme.protocol &&& protoFamilyHttp != 0 then
    if conn.httpVersion == 30 then m.data.httpAllowed &&& curlHttpV3x != 0
    else if conn.httpVersion == 20 then m.data.httpAllowed &&& curlHttpV2x != 0
    else m.data.httpAllowed &&& curlHttpV1x != 0
  else true

/-- `url_match_proto_config`. -/
def urlMatchProtoConfig (conn : Connectdata) (m : Query) : Bool :=
  if !urlMatchHttpVersion conn m then false
  else if m.needle.scheme.family &&& protoFamilySsh != 0 then sshConfigMatches m.needle conn
  else if m.needle.scheme.family &&& protoFamilyFtp != 0 then ftpConnsMatch m.needle conn
  else true

/-- `url_match_auth`. -/
def urlMatchAuth (conn : Connectdata) (m : Query) : Bool :=
  if !credsSame m.needle.creds conn.creds &&
      (m.needle.creds.isSome || !credsSame m.data.creds conn.creds) then false
  else m.needle.gssapiDelegation == conn.gssapiDelegation

/-- `url_match_destination`. -/
def urlMatchDestination (conn : Connectdata) (m : Query) : Bool :=
  if !peerSameDestination m.needle.viaPeer conn.viaPeer then false
  else if m.needle.origin.scheme != conn.origin.scheme &&
      conn.origin.scheme.family != m.needle.scheme.protocol then false
  else peerSameDestination (some m.needle.origin) (some conn.origin)

/-- `url_match_ssl_config`. -/
def urlMatchSslConfig (conn : Connectdata) (m : Query) : Bool :=
  if (m.needle.scheme.flags &&& protoptSsl != 0 || m.mayTls) &&
      !matchSslPrimaryConfig m.data.ssl conn.sslConfig then false
  else true

/-- The connection is bound to credentials that are not the transfer's own for its origin. -/
def credsInPlay (conn : Connectdata) (m : Query) : Bool :=
  conn.creds.isSome &&
  (!credsSame conn.creds m.data.creds || !peerEqual conn.credsOrigin m.data.origin)

/-- `url_match_auth_ntlm` and `url_match_auth_nego`, which only differ in what they want and in the
states they look at. A connection that is not in the wanted state yet is kept in `found`, and the
search goes on. -/
def urlMatchAuthState (want wantProxy state proxyState : Bool) (conn : Connectdata)
    (m : UrlConnMatch) : Bool × UrlConnMatch :=
  if (if want then credsInPlay conn m.toQuery else state) then (false, m)
  else if (if wantProxy then
      conn.httpProxy.creds.isNone || !credsSame m.needle.httpProxy.creds conn.httpProxy.creds
      else proxyState) then (false, m)
  else if want || wantProxy then
    if (want && state) || (wantProxy && proxyState) then
      (true, { m with found := some conn, forceReuse := true })
    else (false, { m with found := some conn })
  else (true, m)

/-- `url_match_auth_ntlm`. -/
def urlMatchAuthNtlm (conn : Connectdata) (m : UrlConnMatch) : Bool × UrlConnMatch :=
  urlMatchAuthState m.wantNtlmHttp m.wantProxyNtlmHttp (conn.httpNtlmState != .none)
    (conn.proxyNtlmState != .none) conn m

/-- `url_match_auth_nego`. -/
def urlMatchAuthNego (conn : Connectdata) (m : UrlConnMatch) : Bool × UrlConnMatch :=
  urlMatchAuthState m.wantNegoHttp m.wantProxyNegoHttp (conn.httpNegotiateState != .none)
    (conn.proxyNegotiateState != .none) conn m

/-- The checks of `url_match_conn` from the stream limits on. -/
def urlMatchTail (host : Host) (conn : Connectdata) (m : UrlConnMatch) : Bool × UrlConnMatch :=
  if !urlMatchMultiplexLimits conn m.toQuery then (false, m)
  else if !conn.inUse then
    match connSeemsDead host conn m.data m.now with
    | (true, _) => (false, { m with terminated := m.terminated ++ [conn] })
    | (false, conn) => (true, { m with found := some conn })
  else (true, { m with found := some conn })

/-- The checks of `url_match_conn` from the authentication on. -/
def urlMatchLogin (host : Host) (conn : Connectdata) (m : UrlConnMatch) : Bool × UrlConnMatch :=
  if !urlMatchAuth conn m.toQuery then (false, m)
  else if !urlMatchProtoConfig conn m.toQuery then (false, m)
  else match urlMatchAuthNtlm conn m with
    | (false, m) => (false, m)
    | (true, m) =>
      if m.forceReuse then (true, m)
      else match urlMatchAuthNego conn m with
        | (false, m) => (false, m)
        | (true, m) => if m.forceReuse then (true, m) else urlMatchTail host conn m

/-- The checks of `url_match_conn` from the use of TLS on. -/
def urlMatchUse (host : Host) (conn : Connectdata) (m : UrlConnMatch) : Bool × UrlConnMatch :=
  if !urlMatchSslUse conn m.toQuery then (false, m)
  else if !urlMatchProxyUse conn m.toQuery then (false, m)
  else if !urlMatchSslConfig conn m.toQuery then (false, m)
  else match urlMatchHttpMultiplex conn m with
    | (false, m) => (false, m)
    | (true, m) => if m.waitPipe then (true, m) else urlMatchLogin host conn m

/-- `url_match_conn`. -/
def urlMatchConn (host : Host) (conn : Connectdata) (m : UrlConnMatch) : Bool × UrlConnMatch :=
  if !urlMatchConnectConfig conn m.toQuery then (false, m)
  else if !urlMatchDestination conn m.toQuery then (false, m)
  else match urlMatchFullyConnected conn m with
    | (false, m) => (false, m)
    | (true, m) =>
      match urlMatchMultiplexNeeds conn m with
      | (false, m) => (false, m)
      | (true, m) => urlMatchUse host conn m

/-- `url_match_result`; true when `found` was attached. -/
def urlMatchResult (m : UrlConnMatch) : Bool × UrlConnMatch :=
  if m.found.isSome then (true, m)
  else if m.seenSingleUseConn && !m.seenMultiplexConn then
    (false, { m with waitPipe := false, forceReuse := false })
  else if m.seenPendingConn && m.data.pipewait then
    (false, { m with waitPipe := true, forceReuse := false })
  else (false, { m with forceReuse := false })

/-- The loop of `Curl_cpool_find` over the connections of the bundle. -/
def cpoolWalk (host : Host) : List Connectdata → UrlConnMatch → UrlConnMatch
  | [], m => m
  | conn :: curr, m =>
    match urlMatchConn host conn m with
    | (true, m) => m
    | (false, m) => cpoolWalk host curr m

/-- The connections of a bundle. The list node is part of the connection, which is in the list
once. -/
structure Bundle where
  conns : List Connectdata
  distinct : (conns.map Connectdata.connectionId).Nodup

/-- How `url_attach_existing` ends: the connection it attached, as the pool had it, what it says
about waiting, and the connections that were found dead on the way. -/
structure Attached where
  conn : Option Connectdata
  waitpipe : Bool
  reportedDead : List Connectdata

/-- The record `url_attach_existing` starts from. -/
def query (data : Easy) (needle : Connectdata) : Query where
  data := data
  needle := needle
  now := data.now
  mayMultiplex := xferMayMultiplex data needle
  wantNtlmHttp := data.authhostWant &&& curlauthNtlm != 0 &&
    needle.scheme.protocol &&& protoFamilyHttp != 0
  wantProxyNtlmHttp := needle.httpProxy.creds.isSome && data.authproxyWant &&& curlauthNtlm != 0 &&
    needle.scheme.protocol &&& protoFamilyHttp != 0
  wantNegoHttp := data.authhostWant &&& curlauthNegotiate != 0 &&
    needle.scheme.protocol &&& protoFamilyHttp != 0
  wantProxyNegoHttp := needle.httpProxy.creds.isSome &&
    data.authproxyWant &&& curlauthNegotiate != 0 &&
    needle.scheme.protocol &&& protoFamilyHttp != 0
  requireTls := decide (data.useSsl ≥ curlusesslControl)
  mayTls := decide (data.useSsl > curlusesslNone)

/-- `url_attach_existing`, with `Curl_cpool_find` for the bundle of the needle's destination. -/
def urlAttachExisting (host : Host) (data : Easy) (needle : Connectdata) (bundle : Bundle) :
    Attached :=
  let m := cpoolWalk host bundle.conns { toQuery := query data needle }
  let (attached, m) := urlMatchResult m
  ⟨if attached then m.found else none, m.waitPipe, m.terminated⟩

end Gurl.Conn
