import Gurl.Conn.Match
import Gurl.Mprintf
import Gurl.Lib.Tagged

/-! The key under which the sessions of a peer are cached: `ssl_peer_key_build` of
`lib/vtls/vtls_scache.c`, on a system with `realpath`. -/

namespace Gurl.Vtls

open Gurl.Strcase Gurl.Mprintf
open Gurl.Conn (Peer peerEqual)

/-- `struct ssl_peer`, as far as the key is made of it. -/
structure SslPeer where
  origin : Peer
  peer : Option Peer
  transport : UInt8

/-- What the key is made with: `realpath`, which fails for a path that does not exist, and
`Curl_sha256it`. -/
structure KeyHost where
  realpath : Bytes → Option Bytes
  sha256 : Bytes → Bytes

def trnsprtTcp : UInt8 := 3
def trnsprtUdp : UInt8 := 4
def trnsprtQuic : UInt8 := 5
def trnsprtUnix : UInt8 := 6

/-- A digit of `%x`. -/
def hexDigit (n : Nat) : UInt8 := if n < 10 then UInt8.ofNat (48 + n) else UInt8.ofNat (87 + n)

/-- `%02x`. -/
def fmtHex02 (b : UInt8) : Bytes := [hexDigit (b.toNat / 16), hexDigit (b.toNat % 16)]

/-- `%x`, for a number below 256. -/
def fmtHex (b : UInt8) : Bytes := if b < 16 then [hexDigit b.toNat] else fmtHex02 b

/-- `cf_ssl_peer_key_add_path`: what it adds, and whether the path is local. -/
def keyAddPath (host : KeyHost) (name : String) (path : Text) : Bytes × Bool :=
  match path with
  | none | some [] => ([], false)
  | some (c :: rest) =>
    if c ≠ 47 then
      match host.realpath (c :: rest) with
      | some abspath => (ascii ":" ++ ascii name ++ ascii "-" ++ abspath, false)
      | none => (ascii ":" ++ ascii name ++ ascii "-" ++ (c :: rest), true)
    else (ascii ":" ++ ascii name ++ ascii "-" ++ (c :: rest), false)

/-- `cf_ssl_peer_key_add_hash`. -/
def keyAddHash (host : KeyHost) (name : String) (blob : Text) : Bytes :=
  match blob with
  | none | some [] => []
  | some (c :: rest) =>
    ascii ":" ++ ascii name ++ ascii "-" ++ (host.sha256 (c :: rest)).flatMap fmtHex02

/-- `:%s-%s` for a text that is there; an empty one counts only if `empty` says so. -/
def keyAddText (empty : Bool) (name : String) (text : Text) : Bytes :=
  match text with
  | none => []
  | some [] => if empty then ascii ":" ++ ascii name ++ ascii "-" else []
  | some (c :: rest) => ascii ":" ++ ascii name ++ ascii "-" ++ (c :: rest)

/-- `cf_ssl_peer_key_add_mtls`. -/
def keyAddMtls (host : KeyHost) (ssl : SslPrimaryConfig) : Bytes × Bool :=
  let clientcert := keyAddPath host "CCERT" ssl.clientcert
  let key := keyAddPath host "KEY" ssl.key
  (clientcert.1 ++ key.1 ++ keyAddHash host "KEYBlob" ssl.keyBlob ++
    keyAddText false "CT" (ssl.certType.map upper) ++ keyAddText false "KT" (ssl.keyType.map upper),
    clientcert.2 || key.2)

/-- `ssl_peer_key_add_transport`. -/
def keyAddTransport (transport : UInt8) : Bytes :=
  if transport = trnsprtTcp then []
  else if transport = trnsprtUdp then ascii ":UDP"
  else if transport = trnsprtQuic then ascii ":QUIC"
  else if transport = trnsprtUnix then ascii ":UNIX"
  else ascii ":TRNSPRT-" ++ fmtUint transport.toNat

/-- `ssl_peer_key_add_vrfy`. -/
def keyAddVrfy (ssl : SslPrimaryConfig) (peer : SslPeer) : Bytes :=
  (if !ssl.verifypeer then ascii ":NO-VRFY-PEER" else []) ++
  (if !ssl.verifyhost then ascii ":NO-VRFY-HOST" else []) ++
  (if ssl.verifystatus then ascii ":VRFY-STATUS" else []) ++
  match peer.peer with
  | some machine =>
    if (!ssl.verifypeer || !ssl.verifyhost) && !peerEqual (some peer.origin) peer.peer then
      ascii ":CHOST-" ++ machine.hostname ++ ascii ":CPORT-" ++ fmtUint machine.port.toNat
    else []
  | none => []

/-- What `ssl_peer_key_build` has in its buffer before the name of the TLS backend. -/
def keyBody (host : KeyHost) (ssl : SslPrimaryConfig) (peer : SslPeer) : Bytes × Bool :=
  let ca := keyAddPath host "CA" ssl.caFile
  let caPath := keyAddPath host "CApath" ssl.caPath
  let crl := keyAddPath host "CRL" ssl.crlFile
  let issuer := keyAddPath host "Issuer" ssl.issuercert
  let mtls := keyAddMtls host ssl
  (peer.origin.hostname ++ ascii ":" ++ fmtUint peer.origin.port.toNat ++
    keyAddTransport peer.transport ++
    keyAddVrfy ssl peer ++
    (if ssl.version ≠ 0 ∨ ssl.versionMax ≠ 0 then
      ascii ":TLSVER-" ++ fmtUint ssl.version.toNat ++ ascii "-" ++
        fmtUint (ssl.versionMax.toNat / 65536)
      else []) ++
    (if ssl.sslOptions ≠ 0 then ascii ":TLSOPT-" ++ fmtHex ssl.sslOptions else []) ++
    keyAddText true "CIPHER" ssl.cipherList ++
    keyAddText true "CIPHER13" ssl.cipherList13 ++
    keyAddText true "CURVES" ssl.curves ++
    keyAddText true "SIGALGS" ssl.signatureAlgorithms ++
    (if ssl.verifypeer then
      ca.1 ++ caPath.1 ++ crl.1 ++ issuer.1 ++ keyAddHash host "CAInfoBlob" ssl.caInfoBlob ++
        keyAddHash host "IssuerBlob" ssl.issuercertBlob
      else []) ++
    keyAddHash host "CertBlob" ssl.certBlob ++
    keyAddText false "Pinned" ssl.pinnedKey ++
    mtls.1,
    (ssl.verifypeer && (ca.2 || caPath.2 || crl.2 || issuer.2)) || mtls.2)

/-- The room in the buffer of `ssl_peer_key_build`, with the terminator. -/
def keyMax : Nat := 10 * 1024

/-- `ssl_peer_key_build`. An addition fails when the key so far would not fit any more. -/
def sslPeerKeyBuild (host : KeyHost) (ssl : SslPrimaryConfig) (peer : SslPeer)
    (tlsId : Bytes) : Except Curlcode Bytes :=
  let (body, isLocal) := keyBody host ssl peer
  let key := body ++ ascii ":IMPL-" ++ tlsId ++ if isLocal then ascii ":L" else ascii ":G"
  if body.length + 1 > keyMax then .error .tooLarge
  else if tlsId = [] then .error .failedInit
  else if key.length + 1 > keyMax then .error .tooLarge
  else .ok key

/-! The key of a peer as a record of marked texts, and what two equal keys say. -/

open Gurl.Strparse Tagged

open Gurl.Conn (Peer peerEqual)

/-- The marks in the order in which `ssl_peer_key_build` comes to them. -/
def keyMarks : List Bytes :=
  [":UDP", ":QUIC", ":UNIX", ":TRNSPRT-", ":NO-VRFY-PEER", ":NO-VRFY-HOST", ":VRFY-STATUS",
   ":CHOST-", ":CPORT-", ":TLSVER-", ":TLSOPT-", ":CIPHER-", ":CIPHER13-", ":CURVES-", ":SIGALGS-",
   ":CA-", ":CApath-", ":CRL-", ":Issuer-", ":CAInfoBlob-", ":IssuerBlob-", ":CertBlob-",
   ":Pinned-", ":CCERT-", ":KEY-", ":KEYBlob-", ":CT-", ":KT-"].map ascii

/-- The mark of the TLS backend, which is always there. -/
def implMark : Bytes := ascii ":IMPL-"

/-- A text that is there and not empty. -/
def nonEmpty (text : Text) : Text := text.filter (· ≠ [])

/-- A path as it stands in the key. -/
def resolve (host : KeyHost) (path : Bytes) : Bytes :=
  if path.head? = some 47 then path else (host.realpath path).getD path

def pathText (host : KeyHost) (path : Text) : Text := (nonEmpty path).map (resolve host)

def hashText (host : KeyHost) (blob : Text) : Text :=
  (nonEmpty blob).map fun b => (host.sha256 b).flatMap fmtHex02

/-- The machine the key names. -/
def namedPeer (ssl : SslPrimaryConfig) (peer : SslPeer) : Option Peer :=
  peer.peer.filter fun _ =>
    (!ssl.verifypeer || !ssl.verifyhost) && !peerEqual (some peer.origin) peer.peer

/-- A flag, as a text that is there or not. -/
def flagText (b : Bool) : Text := if b then some [] else none

/-- The text behind each mark. -/
def keyTexts (host : KeyHost) (ssl : SslPrimaryConfig) (peer : SslPeer) : List Text :=
  [flagText (peer.transport == trnsprtUdp), flagText (peer.transport == trnsprtQuic),
   flagText (peer.transport == trnsprtUnix),
   if peer.transport = trnsprtTcp ∨ peer.transport = trnsprtUdp ∨ peer.transport = trnsprtQuic ∨
     peer.transport = trnsprtUnix then none else some (fmtUint peer.transport.toNat),
   flagText (!ssl.verifypeer), flagText (!ssl.verifyhost), flagText ssl.verifystatus,
   (namedPeer ssl peer).map (·.hostname), (namedPeer ssl peer).map fun p => fmtUint p.port.toNat,
   if ssl.version ≠ 0 ∨ ssl.versionMax ≠ 0 then
     some (fmtUint ssl.version.toNat ++ ascii "-" ++ fmtUint (ssl.versionMax.toNat / 65536))
     else none,
   if ssl.sslOptions ≠ 0 then some (fmtHex ssl.sslOptions) else none,
   ssl.cipherList, ssl.cipherList13, ssl.curves, ssl.signatureAlgorithms,
   if ssl.verifypeer then pathText host ssl.caFile else none,
   if ssl.verifypeer then pathText host ssl.caPath else none,
   if ssl.verifypeer then pathText host ssl.crlFile else none,
   if ssl.verifypeer then pathText host ssl.issuercert else none,
   if ssl.verifypeer then hashText host ssl.caInfoBlob else none,
   if ssl.verifypeer then hashText host ssl.issuercertBlob else none,
   hashText host ssl.certBlob, nonEmpty ssl.pinnedKey, pathText host ssl.clientcert,
   pathText host ssl.key, hashText host ssl.keyBlob, nonEmpty (ssl.certType.map upper),
   nonEmpty (ssl.keyType.map upper)]

/-- The part of the key in front of the first mark. -/
def keyOrigin (peer : SslPeer) : Bytes :=
  peer.origin.hostname ++ ascii ":" ++ fmtUint peer.origin.port.toNat

/-- A text behind its mark, or nothing. -/
def segment (mark : Bytes) (text : Text) : Bytes :=
  match text with
  | none => []
  | some t => mark ++ t

theorem render_segment (m : Bytes) (marks : List Bytes) (text : Text)
    (texts : List Text) (tail : Bytes) :
    render (m :: marks) (text :: texts) tail = segment m text ++ render marks texts tail := by
  cases text <;> simp [render, segment]

theorem keyAddPath_segment (host : KeyHost) (name : String) (path : Text) :
    (keyAddPath host name path).1 =
      segment (ascii ":" ++ ascii name ++ ascii "-") (pathText host path) := by
  cases path with
  | none => rfl
  | some path =>
    cases path with
    | nil => rfl
    | cons c rest =>
      simp only [keyAddPath, pathText, nonEmpty, Option.filter]
      by_cases hc : c = 47
      · simp [hc, segment, resolve]
      · cases hr : host.realpath (c :: rest) <;> simp [hc, hr, segment, resolve]

theorem keyAddHash_segment (host : KeyHost) (name : String) (blob : Text) :
    keyAddHash host name blob =
      segment (ascii ":" ++ ascii name ++ ascii "-") (hashText host blob) := by
  cases blob with
  | none => rfl
  | some blob => cases blob <;> simp [keyAddHash, hashText, nonEmpty, segment, Option.filter]

theorem keyAddText_segment (name : String) (text : Text) :
    keyAddText true name text = segment (ascii ":" ++ ascii name ++ ascii "-") text := by
  cases text with
  | none => rfl
  | some text => cases text <;> simp [keyAddText, segment]

theorem keyAddText_nonEmpty (name : String) (text : Text) :
    keyAddText false name text =
      segment (ascii ":" ++ ascii name ++ ascii "-") (nonEmpty text) := by
  cases text with
  | none => rfl
  | some text => cases text <;> simp [keyAddText, segment, nonEmpty, Option.filter]

theorem segment_flag (mark : Bytes) (b : Bool) :
    (if b then mark else []) = segment mark (flagText b) := by
  cases b <;> simp [segment, flagText]

theorem keyAddTransport_segment (transport : UInt8) :
    keyAddTransport transport =
      segment (ascii ":UDP") (flagText (transport == trnsprtUdp)) ++
      segment (ascii ":QUIC") (flagText (transport == trnsprtQuic)) ++
      segment (ascii ":UNIX") (flagText (transport == trnsprtUnix)) ++
      segment (ascii ":TRNSPRT-") (if transport = trnsprtTcp ∨ transport = trnsprtUdp ∨
        transport = trnsprtQuic ∨ transport = trnsprtUnix then none
        else some (fmtUint transport.toNat)) := by
  unfold keyAddTransport
  by_cases h3 : transport = trnsprtTcp
  · subst h3
    rfl
  by_cases h4 : transport = trnsprtUdp
  · subst h4
    rfl
  by_cases h5 : transport = trnsprtQuic
  · subst h5
    rfl
  by_cases h6 : transport = trnsprtUnix
  · subst h6
    rfl
  simp [h3, h4, h5, h6, flagText, segment]

theorem keyAddVrfy_segment (ssl : SslPrimaryConfig) (peer : SslPeer) :
    keyAddVrfy ssl peer =
      segment (ascii ":NO-VRFY-PEER") (flagText (!ssl.verifypeer)) ++
      segment (ascii ":NO-VRFY-HOST") (flagText (!ssl.verifyhost)) ++
      segment (ascii ":VRFY-STATUS") (flagText ssl.verifystatus) ++
      segment (ascii ":CHOST-") ((namedPeer ssl peer).map (·.hostname)) ++
      segment (ascii ":CPORT-") ((namedPeer ssl peer).map fun p => fmtUint p.port.toNat) := by
  unfold keyAddVrfy namedPeer
  rw [segment_flag, segment_flag, segment_flag]
  cases peer.peer with
  | none => simp [segment]
  | some machine =>
    simp only [Option.filter]
    split <;> simp [segment]

/-- The key in front of the TLS backend is the record of its texts. -/
theorem keyBody_render (host : KeyHost) (ssl : SslPrimaryConfig) (peer : SslPeer)
    (tail : Bytes) :
    (keyBody host ssl peer).1 ++ tail =
      keyOrigin peer ++ render keyMarks (keyTexts host ssl peer) tail := by
  have hver : (if ssl.version ≠ 0 ∨ ssl.versionMax ≠ 0 then
      ascii ":TLSVER-" ++ fmtUint ssl.version.toNat ++ ascii "-" ++
        fmtUint (ssl.versionMax.toNat / 65536) else []) =
      segment (ascii ":TLSVER-") (if ssl.version ≠ 0 ∨ ssl.versionMax ≠ 0 then
        some (fmtUint ssl.version.toNat ++ ascii "-" ++ fmtUint (ssl.versionMax.toNat / 65536))
        else none) := by
    split <;> simp [segment]
  have hopt : (if ssl.sslOptions ≠ 0 then ascii ":TLSOPT-" ++ fmtHex ssl.sslOptions else []) =
      segment (ascii ":TLSOPT-")
        (if ssl.sslOptions ≠ 0 then some (fmtHex ssl.sslOptions) else none) := by
    split <;> simp [segment]
  have hca (m : Bytes) (t : Text) : (if ssl.verifypeer then segment m t else []) =
      segment m (if ssl.verifypeer then t else none) := by
    cases ssl.verifypeer <;> simp [segment]
  have hsplit (a b : Bytes) : (if ssl.verifypeer then a ++ b else []) =
      (if ssl.verifypeer then a else []) ++ if ssl.verifypeer then b else [] := by
    cases ssl.verifypeer <;> simp
  simp only [keyBody, keyAddMtls, keyAddPath_segment, keyAddHash_segment, keyAddText_segment,
    keyAddText_nonEmpty, keyAddTransport_segment, keyAddVrfy_segment, hver, hopt, hsplit, hca,
    keyOrigin, keyMarks, keyTexts, List.map_cons, List.map_nil, render_segment]
  simp only [render, List.append_assoc]
  rfl

end Gurl.Vtls
