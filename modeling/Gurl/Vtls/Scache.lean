import Gurl.Strcase

/-! The TLS settings of a connection, `lib/vtls/vtls_config.c`, and the string comparisons of
`lib/strcase.c` that look at pointers which may be `NULL`. -/

namespace Gurl.Vtls

open Gurl.Strcase

/-- A `char *` that may be `NULL`. -/
abbrev Text := Option Bytes

/-- `curl_strequal`. -/
def strequalText : Text → Text → Bool
  | some s1, some s2 => strequal s1 s2
  | s1, s2 => s1.isNone && s2.isNone

/-- `Curl_safecmp`. -/
def safecmp : Text → Text → Bool
  | some a, some b => a == b
  | a, b => a.isNone && b.isNone

/-- The loop of `Curl_timestrcmp`: the terminator of the shorter string meets a byte of the
longer one. -/
def timestrcmpLoop : Bytes → Bytes → Bool → Bool
  | [], b, differ => differ || !b.isEmpty
  | _ :: _, [], _ => true
  | c :: a, d :: b, differ => timestrcmpLoop a b (differ || c != d)

/-- `Curl_timestrcmp`, true for a result that is not zero. -/
def timestrcmp : Text → Text → Bool
  | some a, some b => timestrcmpLoop a b false
  | a, b => a.isSome || b.isSome

/-- Two texts that differ in the case of letters at most. -/
def SameIgnoringCase (a b : Text) : Prop := a.map upper = b.map upper

theorem strequalText_iff (a b : Text) : strequalText a b = true ↔ SameIgnoringCase a b := by
  cases a <;> cases b <;> simp [strequalText, SameIgnoringCase, strequal_iff]

theorem safecmp_iff (a b : Text) : safecmp a b = true ↔ a = b := by
  cases a <;> cases b <;> simp [safecmp]

theorem timestrcmpLoop_iff (a b : Bytes) (differ : Bool) :
    timestrcmpLoop a b differ = false ↔ differ = false ∧ a = b := by
  induction a generalizing b differ with
  | nil => cases b <;> simp [timestrcmpLoop]
  | cons c a ih =>
    cases b with
    | nil => simp [timestrcmpLoop]
    | cons d b => simp [timestrcmpLoop, ih, and_assoc]

theorem timestrcmp_iff (a b : Text) : timestrcmp a b = false ↔ a = b := by
  cases a <;> cases b <;> simp [timestrcmp, timestrcmpLoop_iff]

/-- `struct ssl_primary_config`, as far as the comparisons and the session cache read it; a
`struct curl_blob` is its bytes. -/
structure SslPrimaryConfig where
  caPath : Text := none
  caFile : Text := none
  issuercert : Text := none
  clientcert : Text := none
  cipherList : Text := none
  cipherList13 : Text := none
  signatureAlgorithms : Text := none
  pinnedKey : Text := none
  crlFile : Text := none
  certType : Text := none
  key : Text := none
  keyType : Text := none
  keyPasswd : Text := none
  certBlob : Text := none
  caInfoBlob : Text := none
  issuercertBlob : Text := none
  keyBlob : Text := none
  curves : Text := none
  versionMax : UInt32 := 0
  sslOptions : UInt8 := 0
  version : UInt8 := 0
  verifypeer : Bool := true
  verifyhost : Bool := true
  verifystatus : Bool := false
  deriving DecidableEq

/-- `blobcmp`. -/
def blobcmp : Text → Text → Bool
  | none, none => true
  | some first, some second => if first.length ≠ second.length then false else first == second
  | _, _ => false

theorem blobcmp_iff (a b : Text) : blobcmp a b = true ↔ a = b := by
  cases a <;> cases b <;> simp [blobcmp]
  rintro rfl
  rfl

/-- `match_ssl_primary_config`. -/
def matchSslPrimaryConfig (c1 c2 : SslPrimaryConfig) : Bool :=
  c1.version == c2.version &&
  c1.versionMax == c2.versionMax &&
  c1.sslOptions == c2.sslOptions &&
  c1.verifypeer == c2.verifypeer &&
  c1.verifyhost == c2.verifyhost &&
  c1.verifystatus == c2.verifystatus &&
  blobcmp c1.certBlob c2.certBlob &&
  blobcmp c1.caInfoBlob c2.caInfoBlob &&
  blobcmp c1.issuercertBlob c2.issuercertBlob &&
  blobcmp c1.keyBlob c2.keyBlob &&
  safecmp c1.caPath c2.caPath &&
  safecmp c1.caFile c2.caFile &&
  safecmp c1.issuercert c2.issuercert &&
  safecmp c1.clientcert c2.clientcert &&
  strequalText c1.cipherList c2.cipherList &&
  strequalText c1.cipherList13 c2.cipherList13 &&
  strequalText c1.curves c2.curves &&
  strequalText c1.signatureAlgorithms c2.signatureAlgorithms &&
  safecmp c1.crlFile c2.crlFile &&
  safecmp c1.pinnedKey c2.pinnedKey &&
  strequalText c1.certType c2.certType &&
  safecmp c1.key c2.key &&
  strequalText c1.keyType c2.keyType &&
  !timestrcmp c1.keyPasswd c2.keyPasswd

/-- Two settings that agree in everything that is compared, where `same` says when the lists of
algorithms and the names of types agree. -/
structure SameSettings (same : Text → Text → Prop) (c1 c2 : SslPrimaryConfig) : Prop where
  version : c1.version = c2.version
  versionMax : c1.versionMax = c2.versionMax
  sslOptions : c1.sslOptions = c2.sslOptions
  verifypeer : c1.verifypeer = c2.verifypeer
  verifyhost : c1.verifyhost = c2.verifyhost
  verifystatus : c1.verifystatus = c2.verifystatus
  certBlob : c1.certBlob = c2.certBlob
  caInfoBlob : c1.caInfoBlob = c2.caInfoBlob
  issuercertBlob : c1.issuercertBlob = c2.issuercertBlob
  keyBlob : c1.keyBlob = c2.keyBlob
  caPath : c1.caPath = c2.caPath
  caFile : c1.caFile = c2.caFile
  issuercert : c1.issuercert = c2.issuercert
  clientcert : c1.clientcert = c2.clientcert
  cipherList : same c1.cipherList c2.cipherList
  cipherList13 : same c1.cipherList13 c2.cipherList13
  curves : same c1.curves c2.curves
  signatureAlgorithms : same c1.signatureAlgorithms c2.signatureAlgorithms
  crlFile : c1.crlFile = c2.crlFile
  pinnedKey : c1.pinnedKey = c2.pinnedKey
  certType : same c1.certType c2.certType
  key : c1.key = c2.key
  keyType : same c1.keyType c2.keyType
  keyPasswd : c1.keyPasswd = c2.keyPasswd

theorem sameSettings_of_match {c1 c2 : SslPrimaryConfig} (h : matchSslPrimaryConfig c1 c2 = true) :
    SameSettings SameIgnoringCase c1 c2 := by
  simp only [matchSslPrimaryConfig, Bool.and_eq_true, beq_iff_eq, blobcmp_iff, safecmp_iff,
    strequalText_iff, Bool.not_eq_true', timestrcmp_iff, and_assoc] at h
  obtain ⟨h1, h2, h3, h4, h5, h6, h7, h8, h9, h10, h11, h12, h13, h14, h15, h16, h17, h18, h19, h20,
    h21, h22, h23, h24⟩ := h
  exact ⟨h1, h2, h3, h4, h5, h6, h7, h8, h9, h10, h11, h12, h13, h14, h15, h16, h17, h18, h19, h20,
    h21, h22, h23, h24⟩

/-! The TLS session cache, `lib/vtls/vtls_scache.c`: slots for peers, each with the sessions that
can be resumed there. Sessions are not exported or imported, so that no slot has a key known by its
hash only, and the slots hold no object of a TLS backend. -/

/-- `struct Curl_ssl_session`, as far as the cache reads it; `serial` tells the objects apart. -/
structure Session where
  serial : Nat
  ietfTlsId : Nat
  validUntil : Int

/-- The configuration of a connection; `certBlobPtr` is what `%p` prints for the address of the
client certificate's blob. -/
structure ConnConfig where
  primary : SslPrimaryConfig
  certBlobPtr : Bytes := []

/-- `struct Curl_ssl_scache_peer`. -/
structure ScachePeer where
  sslPeerKey : Text := none
  clientcert : Text := none
  keyPasswd : Text := none
  sessions : List Session := []
  maxSessions : Nat
  age : Int := 0

/-- `struct Curl_ssl_scache`. -/
structure Scache where
  peers : List ScachePeer
  defaultLifetimeSecs : Int
  age : Int

def curlIetfProtoTls13 : Nat := 0x0304
def curlScacheMax13LifetimeSec : Int := 60 * 60 * 24 * 7
def curlScacheMax12LifetimeSec : Int := 60 * 60 * 24

/-- `Curl_ssl_scache_create`. -/
def sslScacheCreate (maxPeers maxSessionsPerPeer : Nat) : Scache where
  peers := List.replicate maxPeers { maxSessions := maxSessionsPerPeer }
  defaultLifetimeSecs := 24 * 60 * 60
  age := 1

/-- `cf_scache_session_expired`. -/
def sessionExpired (s : Session) (now : Nat) : Bool :=
  decide (s.validUntil > 0) && decide (s.validUntil < now)

/-- `cf_scache_peer_remove_expired`. -/
def peerRemoveExpired (peer : ScachePeer) (now : Nat) : ScachePeer :=
  { peer with sessions := peer.sessions.filter fun s => !sessionExpired s now }

/-- `cf_scache_peer_remove_non13`. -/
def peerRemoveNon13 (peer : ScachePeer) : ScachePeer :=
  { peer with sessions := peer.sessions.filter fun s => s.ietfTlsId == curlIetfProtoTls13 }

/-- `cf_ssl_scache_clear_peer`. -/
def clearPeer (peer : ScachePeer) : ScachePeer := { maxSessions := peer.maxSessions }

/-- `cf_ssl_scache_peer_init`, for a peer known by its key; without a key it fails. -/
def peerInit (peer : ScachePeer) (key clientcert keyPasswd : Text) : Curlcode × ScachePeer :=
  match key with
  | some key => (.ok, { peer with sslPeerKey := some key, clientcert, keyPasswd })
  | none => (.badFunctionArgument, clearPeer peer)

/-- `cf_ssl_scache_match_auth`. -/
def matchAuth (peer : ScachePeer) : Option ConnConfig → Bool
  | none => !(peer.clientcert.isSome || peer.keyPasswd.isSome)
  | some config =>
    safecmp peer.clientcert config.primary.clientcert &&
    !timestrcmp peer.keyPasswd config.primary.keyPasswd

/-- The test of the first loop of `cf_ssl_find_peer_by_key`. -/
def peerMatches (key : Text) (config : Option ConnConfig) (peer : ScachePeer) : Bool :=
  peer.sslPeerKey.isSome && strequalText key peer.sslPeerKey && matchAuth peer config

/-- `cf_ssl_find_peer_by_key`, the index of the slot. -/
def findPeerByKey (scache : Scache) (key : Text) (config : Option ConnConfig) : Option Nat :=
  scache.peers.findIdx? (peerMatches key config)

/-- The older of the slot remembered so far and slot `i`. -/
def rememberOldest (oldest : Option (Nat × Int)) (i : Nat) (age : Int) : Option (Nat × Int) :=
  match oldest with
  | none => some (i, age)
  | some (j, oldestAge) => if age < oldestAge then some (i, age) else some (j, oldestAge)

/-- The loop of `cf_ssl_get_free_peer` from slot `i` on; `oldest` is the slot remembered so far. -/
def getFreePeerLoop : List ScachePeer → Nat → Option (Nat × Int) → Option Nat
  | [], _, oldest => oldest.map Prod.fst
  | peer :: rest, i, oldest =>
    if peer.sslPeerKey.isNone then some i
    else if peer.sessions.isEmpty then some i
    else getFreePeerLoop rest (i + 1) (rememberOldest oldest i peer.age)

/-- `cf_ssl_get_free_peer`, the index of the slot, which is cleared. -/
def getFreePeer (scache : Scache) : Option Nat × Scache :=
  match getFreePeerLoop scache.peers 0 none with
  | some i => (some i, { scache with peers := scache.peers.modify i clearPeer })
  | none => (none, scache)

/-- The client certificate a new slot is filed under: a blob gets a name of its own. -/
def slotCert (config : Option ConnConfig) : Text :=
  match config with
  | none => none
  | some config =>
    match config.primary.clientcert, config.primary.certBlob with
    | none, some _ => some (ascii "cert-" ++ config.certBlobPtr)
    | clientcert, _ => clientcert

/-- `cf_ssl_add_peer`, the index of the slot. -/
def addPeer (scache : Scache) (key : Text) (config : Option ConnConfig) :
    Curlcode × Option Nat × Scache :=
  match if key.isSome then findPeerByKey scache key config else none with
  | some i => (.ok, some i, scache)
  | none =>
    match getFreePeer scache with
    | (none, scache) => (.ok, none, scache)
    | (some i, scache) =>
      match scache.peers[i]? with
      | none => (.ok, none, scache)
      | some peer =>
        match peerInit peer key (slotCert config) (config.bind fun c => c.primary.keyPasswd) with
        | (.ok, peer) => (.ok, some i, { scache with peers := scache.peers.set i peer })
        | (result, peer) =>
          (result, none, { scache with peers := scache.peers.set i (clearPeer peer) })

/-- Remove from the head until there are at most `maxSessions`. -/
def trimSessions (maxSessions : Nat) : List Session → List Session
  | [] => []
  | s :: rest =>
    if (s :: rest).length > maxSessions then trimSessions maxSessions rest else s :: rest

/-- `cf_scache_peer_add_session`. -/
def peerAddSession (peer : ScachePeer) (s : Session) (now : Nat) : ScachePeer :=
  if s.ietfTlsId != curlIetfProtoTls13 then { peer with sessions := [s] }
  else
    let peer := peerRemoveNon13 (peerRemoveExpired peer now)
    { peer with sessions := trimSessions peer.maxSessions (peer.sessions ++ [s]) }

/-- The lifetime that `cf_scache_add_session` gives a session. -/
def limitLifetime (scache : Scache) (s : Session) (now : Nat) : Session :=
  let validUntil := if s.validUntil ≤ 0 then now + scache.defaultLifetimeSecs else s.validUntil
  let maxLifetime := if s.ietfTlsId == curlIetfProtoTls13 then curlScacheMax13LifetimeSec
    else curlScacheMax12LifetimeSec
  { s with validUntil := if validUntil > now + maxLifetime then now + maxLifetime else validUntil }

/-- `cf_scache_add_session`. -/
def addSession (scache : Scache) (key : Text) (config : Option ConnConfig) (s : Session)
    (now : Nat) : Curlcode × Scache :=
  if scache.peers.length = 0 then (.ok, scache)
  else
    let s := limitLifetime scache s now
    if sessionExpired s now then (.ok, scache)
    else match addPeer scache key config with
      | (.ok, some i, scache) =>
        (.ok, { scache with peers := scache.peers.modify i fun peer => peerAddSession peer s now })
      | (result, _, scache) => (result, scache)

/-- `Curl_ssl_scache_put`; `cacheSession` is the setting of the transfer. -/
def sslScachePut (scache : Scache) (cacheSession : Bool) (key : Text) (config : Option ConnConfig)
    (s : Session) (now : Nat) : Curlcode × Scache :=
  if !cacheSession then (.ok, scache) else addSession scache key config s now

/-- `Curl_ssl_scache_take`. -/
def sslScacheTake (scache : Scache) (key : Text) (config : Option ConnConfig) (now : Nat) :
    Option Session × Scache :=
  match findPeerByKey scache key config with
  | none => (none, scache)
  | some i =>
    let scache := { scache with peers := scache.peers.modify i (peerRemoveExpired · now) }
    match (scache.peers[i]?).bind fun peer => peer.sessions.head? with
    | none => (none, scache)
    | some s =>
      (some s, { scache with
        age := scache.age + 1
        peers := scache.peers.modify i fun peer =>
          { peer with sessions := peer.sessions.tail, age := scache.age + 1 } })

/-- `Curl_ssl_scache_remove_all`. -/
def sslScacheRemoveAll (scache : Scache) (key : Text) (config : Option ConnConfig) : Scache :=
  match findPeerByKey scache key config with
  | none => scache
  | some i => { scache with peers := scache.peers.modify i clearPeer }

end Gurl.Vtls
