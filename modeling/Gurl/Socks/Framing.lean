import Gurl.Socks.Handshake

/-! What the SOCKS5 handshake sends and takes, when the proxy accepts: the requests of RFC 1928 and
RFC 1929, and the replies to them. -/

namespace Gurl.Socks

open Dialogue

variable {c : Setup} {creds : Option Creds} {l : Line UInt8} {sx sx' : SocksCtx}

/-! ### The bytes of RFC 1928 and RFC 1929 -/

/-- An address as it stands in a request or a reply. -/
inductive Address where
  | ipv4 (addr : Vector UInt8 4)
  | domain (name : Bytes) (le : name.length ≤ 255)
  | ipv6 (addr : Vector UInt8 16)

/-- The type and the bytes of an address. -/
def Address.bytes : Address → Bytes
  | .ipv4 addr => 1 :: addr.toList
  | .domain name _ => 3 :: UInt8.ofNat name.length :: name
  | .ipv6 addr => 4 :: addr.toList

/-- The method that the proxy has selected; a login is accepted with a version byte. -/
inductive Method where
  | noAuth
  | login (version : UInt8)
  deriving DecidableEq

/-- Everything that the proxy replies, when it accepts. -/
structure Replies where
  method : Method
  reserved : UInt8
  bound : Address
  boundPort : UInt16

def Method.replies : Method → Bytes
  | .noAuth => [5, 0]
  | .login version => [5, 2, version, 0]

def Replies.success (r : Replies) : Bytes :=
  [5, 0, r.reserved] ++ r.bound.bytes ++ portBytes r.boundPort

def Replies.bytes (r : Replies) : Bytes := r.method.replies ++ r.success

/-- The credentials that may be used. -/
def Setup.usable (c : Setup) (creds : Option Creds) : Option Creds :=
  if c.authBasic then creds else none

def greeting (creds : Option Creds) : Bytes :=
  if creds.isSome then [5, 2, 0, 2] else [5, 1, 0]

def loginRequest (creds : Creds) : Bytes :=
  [1, UInt8.ofNat creds.user.length] ++ creds.user ++
    [UInt8.ofNat creds.passwd.length] ++ creds.passwd

def Method.requests (creds : Option Creds) : Method → Bytes
  | .noAuth => []
  | .login _ => loginRequest (creds.getD ⟨[], []⟩)

/-- Everything that is to be sent. -/
def requests (c : Setup) (creds : Option Creds) (dest : Address) (method : Method) : Bytes :=
  greeting (c.usable creds) ++ method.requests (c.usable creds) ++
    ([5, 1, 0] ++ dest.bytes ++ portBytes c.port)

def Addrinfo.address : Addrinfo → Option Address
  | .inet addr => some (.ipv4 addr)
  | .inet6 addr => some (.ipv6 addr)
  | .other => none

/-- The address that a host name to be resolved remotely stands for. -/
def Setup.remoteAddress (c : Setup) : Option Address :=
  if h : c.hostname.length ≤ 255 then
    if ':'.toUInt8 ∈ c.hostname then (c.inetPton6 c.hostname).map .ipv6
    else some (((c.inetPton c.hostname).map Address.ipv4).getD (.domain c.hostname h))
  else none

/-- The destination, resolved locally or remotely, if it has an address. -/
def Setup.destination (c : Setup) : Option Address :=
  match c.proxyType with
  | .socks5 => if c.dnsResult = .ok then (resolvedAi c).bind Addrinfo.address else none
  | .socks5Hostname => c.remoteAddress

/-! ### The whole dialogue -/

/-- A line that accepts everything. -/
def openLine (ending : Ending) (sent taken incoming : Bytes) : Line UInt8 where
  incoming := incoming
  ending := ending
  accepts := none
  sent := sent
  taken := taken

section Whole

variable {e : Ending} {s t i a : Bytes} {lost : Outcome} {dest : Address} {r : Replies}

theorem play_send_open (out : Bytes) (next : Script UInt8 Outcome) :
    (Script.send out lost next).play (openLine e s t i) =
      next.play (openLine e (s ++ out) t i) := by
  rw [Script.play]
  exact if_pos rfl

theorem play_recv_open {got : Bytes} {count : Nat} (next : Bytes → Script UInt8 Outcome)
    (h : got.length + a.length = count) :
    (Script.recv got count lost next).play (openLine e s t (a ++ i)) =
      (next (got ++ a)).play (openLine e s (t ++ a) i) := by
  have hneed : count - got.length = a.length := by omega
  have hline : (openLine e s t (a ++ i)).take a.length = openLine e s (t ++ a) i := by
    simp [Line.take, openLine]
  have hbytes : (openLine e s t (a ++ i)).incoming.take a.length = a := List.take_left
  rw [Script.play, hneed, hline, hbytes]
  exact if_pos (by simp [openLine])

theorem remoteDestination_eq (h : c.remoteAddress = some dest) :
    remoteDestination c = some dest.bytes ∧ c.hostname.length ≤ 255 := by
  unfold Setup.remoteAddress at h
  split_ifs at h with hle hcolon
  · obtain ⟨addr, haddr, rfl⟩ := Option.map_eq_some_iff.mp h
    refine ⟨?_, hle⟩
    rw [remoteDestination, if_pos hcolon, haddr]
    rfl
  · refine ⟨?_, hle⟩
    rw [remoteDestination, if_neg hcolon]
    cases h
    cases c.inetPton c.hostname <;> rfl

theorem localDestination_eq {ai : Option Addrinfo} (h : ai.bind Addrinfo.address = some dest) :
    ai.bind Addrinfo.destination = some dest.bytes := by
  obtain ⟨ai, rfl, haddress⟩ := Option.bind_eq_some_iff.mp h
  cases ai <;> cases haddress <;> rfl

/-- The request for the destination is sent. -/
theorem req1Script_play (sx : SocksCtx) (hempty : sx.iobuf = [])
    (hlocal : sx.resolveLocal = decide (c.proxyType = .socks5))
    (hdest : c.destination = some dest) : (req1Script c sx).play (openLine e s t i) =
      (Script.recv [] 8 (.failed .recvConnect) restScript).play
        (openLine e (s ++ ([5, 1, 0] ++ dest.bytes ++ portBytes c.port)) t i) := by
  unfold Setup.destination at hdest
  cases htype : c.proxyType with
  | socks5 =>
    simp only [htype, decide_true] at hlocal hdest
    split_ifs at hdest with hresult
    have hinit : socks5Req1Init c sx = (sx.write [5, 1, 0], .ok) := by
      rw [socks5Req1Init, if_pos hlocal]
    have hresolving : ∀ sx, socks5Resolving c true sx =
        (({ sx with startResolving := false }.write dest.bytes).write (portBytes c.port), .ok,
          true) := by
      intro sx
      simp [socks5Resolving, hresult, localDestination_eq hdest]
    simp only [req1Script, checkedScript, hinit, SocksCtx.write, hlocal,
      resolvingScript, hresolving, hempty, req1SendScript, sendScript, resp1Script, Script.play]
    exact play_send_open _ _
  | socks5Hostname =>
    simp only [htype] at hlocal hdest
    obtain ⟨hremote, -⟩ := remoteDestination_eq hdest
    have hinit : socks5Req1Init c sx =
        (((sx.write [5, 1, 0]).write dest.bytes).write (portBytes c.port), .ok) := by
      simp [socks5Req1Init, hlocal, hremote]
    simp only [req1Script, checkedScript, hinit, SocksCtx.write, hlocal, hempty]
    exact play_send_open _ _

/-- The greeting is sent. -/
theorem socks5Req0Init_eq (sx : SocksCtx) (hempty : sx.iobuf = [])
    (hlocal : sx.resolveLocal = decide (c.proxyType = .socks5))
    (hdest : c.destination = some dest) : socks5Req0Init c sx =
      ({ sx with creds := c.usable sx.creds, iobuf := greeting (c.usable sx.creds) }, .ok) := by
  have hshort : ¬(!sx.resolveLocal ∧ c.hostname.length > 255) := by
    rintro ⟨hremote, hlong⟩
    unfold Setup.destination at hdest
    cases htype : c.proxyType with
    | socks5 => simp [hlocal, htype] at hremote
    | socks5Hostname =>
      simp only [htype] at hdest
      have hle := (remoteDestination_eq hdest).2
      omega
  rw [socks5Req0Init, if_neg hshort]
  unfold Setup.usable greeting
  cases c.authBasic with
  | false => simp [SocksCtx.write, hempty]
  | true => cases hcreds : sx.creds <;> simp [SocksCtx.write, hempty, hcreds]

/-- The login is sent. -/
theorem socks5AuthInit_eq (sx : SocksCtx) (hempty : sx.iobuf = [])
    (hcreds : ∀ k ∈ sx.creds, k.user.length ≤ 255 ∧ k.passwd.length ≤ 255) :
    socks5AuthInit sx =
      ({ sx with state := .authSend, iobuf := loginRequest (sx.creds.getD ⟨[], []⟩) }, .ok) := by
  unfold socks5AuthInit
  cases hk : sx.creds with
  | none => simp [SocksCtx.write, hempty, hk, loginRequest]
  | some k =>
    obtain ⟨huser, hpasswd⟩ := hcreds k hk
    simp [SocksCtx.write, hempty, hk, loginRequest, Nat.not_lt.mpr huser, Nat.not_lt.mpr hpasswd]

theorem checkedScript_ok (goOn : SocksCtx → Script UInt8 Outcome) (sx : SocksCtx) :
    checkedScript goOn (sx, .ok) = goOn sx := rfl

theorem sendScript_play (next : SocksState) (goOn : SocksCtx → Script UInt8 Outcome)
    (sx : SocksCtx) :
    (sendScript next goOn sx).play (openLine e s t i) =
      (goOn { sx with iobuf := [], state := next }).play (openLine e (s ++ sx.iobuf) t i) :=
  play_send_open _ _

theorem recvScript_play {check : SocksCtx → SocksCtx × Proxycode} {x y : UInt8}
    (goOn : SocksCtx → Script UInt8 Outcome) (hempty : sx.iobuf = [])
    (hcheck : check { sx with iobuf := [x, y] } = (sx', .ok)) :
    (recvScript check goOn sx).play (openLine e s t ([x, y] ++ i)) =
      (goOn sx').play (openLine e s (t ++ [x, y]) i) := by
  have hlen : ([] : Bytes).length + [x, y].length = 2 := rfl
  rw [recvScript, hempty, play_recv_open _ hlen, List.nil_append, hcheck, checkedScript_ok]

/-- The login and the request are sent, the reply to the login is taken. -/
theorem authInitScript_play (sx : SocksCtx) (version : UInt8) (hempty : sx.iobuf = [])
    (hlocal : sx.resolveLocal = decide (c.proxyType = .socks5)) (hdest : c.destination = some dest)
    (hcreds : ∀ k ∈ sx.creds, k.user.length ≤ 255 ∧ k.passwd.length ≤ 255) :
    (authInitScript c sx).play (openLine e s t ([version, 0] ++ i)) =
      (Script.recv [] 8 (.failed .recvConnect) restScript).play
        (openLine e (s ++ loginRequest (sx.creds.getD ⟨[], []⟩) ++
          ([5, 1, 0] ++ dest.bytes ++ portBytes c.port)) (t ++ [version, 0]) i) := by
  rw [authInitScript, socks5AuthInit_eq sx hempty hcreds, checkedScript_ok, authSendScript,
    sendScript_play, authRecvScript, recvScript_play _ rfl rfl]
  exact req1Script_play _ rfl hlocal hdest

/-- Behind the greeting, all requests are sent and the replies to them are taken. -/
theorem resp0Script_play (sx : SocksCtx) (m : Method) (hempty : sx.iobuf = [])
    (hlocal : sx.resolveLocal = decide (c.proxyType = .socks5)) (hdest : c.destination = some dest)
    (hcreds : ∀ k ∈ sx.creds, k.user.length ≤ 255 ∧ k.passwd.length ≤ 255)
    (hmethod : m ≠ .noAuth → c.authBasic = true) :
    (resp0Script c sx).play (openLine e s t (m.replies ++ i)) =
      (Script.recv [] 8 (.failed .recvConnect) restScript).play
        (openLine e (s ++ m.requests sx.creds ++ ([5, 1, 0] ++ dest.bytes ++ portBytes c.port))
          (t ++ m.replies) i) := by
  cases m with
  | noAuth =>
    rw [resp0Script, Method.replies, recvScript_play _ hempty rfl, Method.requests, List.append_nil]
    exact req1Script_play _ rfl hlocal hdest
  | login version =>
    have hresp0 : socks5CheckResp0 c { sx with iobuf := [5, 2] } =
        ({ sx with iobuf := [], state := .authInit }, .ok) := by
      simp [socks5CheckResp0, hmethod (by simp), SocksCtx.skip]
    have hreplies : (Method.login version).replies = [5, 2] ++ [version, 0] := rfl
    rw [resp0Script, hreplies, List.append_assoc, recvScript_play _ hempty hresp0,
      ← List.append_assoc t]
    exact authInitScript_play _ version rfl hlocal hdest hcreds

/-- Up to the last reply, the handshake sends all requests and takes the replies to them. -/
theorem handshake_play (m : Method) (hdest : c.destination = some dest)
    (hcreds : ∀ k ∈ creds, k.user.length ≤ 255 ∧ k.passwd.length ≤ 255)
    (hmethod : m ≠ .noAuth → c.authBasic = true) :
    (meaning c (socksProxyInsert creds)).play (openLine e [] [] (m.replies ++ i)) =
      (Script.recv [] 8 (.failed .recvConnect) restScript).play
        (openLine e (requests c creds dest m) m.replies i) := by
  have hreq0 := socks5Req0Init_eq ((socksProxyInsert creds).begin c) rfl rfl hdest
  have hstart : meaning c (socksProxyInsert creds) =
      startScript c ((socksProxyInsert creds).begin c) := rfl
  have husable : ∀ k ∈ c.usable creds, k.user.length ≤ 255 ∧ k.passwd.length ≤ 255 := by
    intro k hk
    unfold Setup.usable at hk
    split at hk
    · exact hcreds k hk
    · cases hk
  rw [hstart, startScript, hreq0, checkedScript_ok, req0SendScript, sendScript_play]
  exact resp0Script_play _ m rfl rfl hdest husable hmethod

/-- The length is read off the last reply. -/
theorem respLen_success (r : Replies) : respLen r.success = .ok r.success.length := by
  unfold Replies.success
  cases r.bound with
  | ipv4 addr =>
    have hlen : addr.toList.length = 4 := Vector.length_toList
    simp only [Address.bytes]
    generalize addr.toList = bytes at hlen
    cases bytes with
    | nil => cases hlen
    | cons b bytes => simpa [respLen, portBytes] using hlen.symm
  | domain name le =>
    simp [respLen, Address.bytes, portBytes, Nat.mod_eq_of_lt (Nat.lt_succ_of_le le)]
    omega
  | ipv6 addr =>
    have hlen : addr.toList.length = 16 := Vector.length_toList
    simp only [Address.bytes]
    generalize addr.toList = bytes at hlen
    cases bytes with
    | nil => cases hlen
    | cons b bytes => simpa [respLen, portBytes] using hlen.symm

/-- Only with an empty bound name is the last reply shorter than what is read first. -/
theorem eight_le_success (r : Replies) :
    8 ≤ r.success.length ↔ ∀ le, r.bound ≠ .domain [] le := by
  unfold Replies.success
  cases r.bound with
  | ipv4 addr => simp [Address.bytes, portBytes]
  | ipv6 addr => simp [Address.bytes, portBytes]
  | domain name le =>
    cases name <;> simp [Address.bytes, portBytes]

/-- When the bound name is not empty, the handshake takes the last reply and nothing more. -/
theorem success_play (hbound : ∀ le, r.bound ≠ .domain [] le) :
    (Script.recv [] 8 (.failed .recvConnect) restScript).play
        (openLine e s t (r.success ++ i)) = (.stop .success, openLine e s (t ++ r.success) i) := by
  have hlong := (eight_le_success r).mpr hbound
  have hfirst : (r.success.take 8).length = 8 := by
    rw [List.length_take]
    omega
  have hlen : respLen (r.success.take 8) = .ok r.success.length :=
    (respLen_of_front hfirst.ge (List.take_prefix 8 _)).symm.trans (respLen_success r)
  have hcut : r.success ++ i = r.success.take 8 ++ (r.success.drop 8 ++ i) := by
    rw [← List.append_assoc, List.take_append_drop]
  rw [hcut, play_recv_open _ (by rw [List.length_nil, hfirst]), List.nil_append]
  have hrest : (r.success.take 8).length + (r.success.drop 8).length = r.success.length := by
    rw [← List.length_append, List.take_append_drop]
  simp only [restScript, hlen]
  rw [play_recv_open _ hrest, List.append_assoc, List.take_append_drop]
  rfl

/-- The handshake is not over with success before eight bytes of the last reply are taken. -/
theorem eight_taken {l' : Line UInt8}
    (h : (Script.recv [] 8 (.failed .recvConnect) restScript).play l = (.stop .success, l')) :
    l.taken.length + 8 ≤ l'.taken.length := by
  rw [Script.play] at h
  split_ifs at h with hall hsilent
  · have hlater := play_later (restScript ([] ++ l.incoming.take 8)) (l.take 8)
    have hlen := length_taken_le hlater
    rw [List.length_nil, Nat.sub_zero] at h hall
    rw [h] at hlen
    simp only [Line.take, List.length_append, List.length_take] at hlen
    omega
  · cases h
  · cases h

end Whole

/-! ### Framing -/

/-- Whatever the schedules: the run sends the requests and takes the replies and not a byte more, it
has succeeded just when the last byte of the replies is taken, and a call with enough answers makes
it succeed. -/
def Framed (c : Setup) (creds : Option Creds) (dest : Address) (r : Replies) (ending : Ending)
    (tunnel : Bytes) : Prop :=
  ∀ schedules, ∃ sx l p,
    connect c creds (openLine ending [] [] (r.bytes ++ tunnel)) schedules = some (sx, l, p) ∧
    p = .ok ∧ l.sent <+: requests c creds dest r.method ∧ l.taken <+: r.bytes ∧
    l.taken ++ l.incoming = r.bytes ++ tunnel ∧
    (sx.state = .success ↔ l.taken = r.bytes) ∧
    (sx.state = .success → l.sent = requests c creds dest r.method) ∧
    ∀ turns : List Turn, (∀ t ∈ turns, ∃ k, t = .upTo k) →
      (requests c creds dest r.method).length + r.bytes.length < turns.length →
      ∃ sx' l' p', connectStep c (sx, l, p) ⟨turns, true⟩ = some (sx', l', p') ∧
        sx'.state = .success ∧ l'.taken = r.bytes

theorem framed_of_end {dest : Address} {r : Replies} {ending : Ending} {tunnel : Bytes}
    (hend : (meaning c (socksProxyInsert creds)).play (openLine ending [] [] (r.bytes ++ tunnel)) =
      (.stop .success, openLine ending (requests c creds dest r.method) r.bytes tunnel)) :
    Framed c creds dest r ending tunnel := by
  intro schedules
  obtain ⟨⟨sx, l, p⟩, hrun, hway⟩ := connect_onTheWay c creds _ schedules
  have hlater := hway.later hend
  obtain ⟨out, hout⟩ := hlater.sent
  obtain ⟨got, hgot⟩ := hlater.taken
  refine ⟨sx, l, p, hrun, ?_, ⟨out, hout.symm⟩, ⟨got, hgot.symm⟩, hlater.stream.symm,
    hway.success_iff hend, ?_, ?_⟩
  · exact hway.result.trans (if_neg (hway.not_failed hend))
  · intro hsuccess
    exact congrArg Line.sent (hway.end_eq (.inl hsuccess) hend).2.symm
  · intro turns hturns hmany
    obtain ⟨⟨sx', l', p'⟩, hstep, hway', hover⟩ := hway.generous hend hturns hmany
    have hsuccess : sx'.state = .success := hover.resolve_right (hway'.not_failed hend)
    exact ⟨sx', l', p', hstep, hsuccess, (hway'.success_iff hend).mp hsuccess⟩

/-- A run that is framed takes eight bytes of the last reply, so there are eight. -/
theorem Framed.eight_le {dest : Address} {r : Replies} {ending : Ending} {tunnel : Bytes}
    (hdest : c.destination = some dest)
    (hcreds : ∀ k ∈ creds, k.user.length ≤ 255 ∧ k.passwd.length ≤ 255)
    (hmethod : r.method ≠ .noAuth → c.authBasic = true)
    (h : Framed c creds dest r ending tunnel) : 8 ≤ r.success.length := by
  obtain ⟨sx, l, p, hrun, -, -, -, -, -, -, hlive⟩ := h []
  cases hrun
  obtain ⟨sx', l', p', hstep, hsuccess, htaken⟩ := hlive
    (List.replicate ((requests c creds dest r.method).length + r.bytes.length + 1) (.upTo 0))
    (fun t ht => ⟨0, List.eq_of_mem_replicate ht⟩) (by rw [List.length_replicate]; omega)
  obtain ⟨b, hstep', hway, -⟩ := (onTheWay_start c creds
    (openLine ending [] [] (r.bytes ++ tunnel))).step ⟨_, true⟩
  rw [hstep] at hstep'
  cases hstep'
  have hend := hway.same
  rw [SocksCtx.Over.meaning_eq (.inl hsuccess), if_neg (by simp [hsuccess]), Replies.bytes,
    List.append_assoc, handshake_play r.method hdest hcreds hmethod] at hend
  have height := eight_taken hend.symm
  rw [htaken, Replies.bytes, List.length_append] at height
  exact Nat.le_of_add_le_add_left height

/-- The SOCKS5 handshake sends what the method and the destination ask for, and takes the replies
and no byte of the tunnel, whatever the schedule, just when the name that the proxy has bound is not
empty. For no line at all does its end depend on the schedule. -/
theorem socks5_framing (c : Setup) (creds : Option Creds) (dest : Address) (r : Replies)
    (ending : Ending) (tunnel : Bytes) (hdest : c.destination = some dest)
    (hcreds : ∀ k ∈ creds, k.user.length ≤ 255 ∧ k.passwd.length ≤ 255)
    (hmethod : r.method ≠ .noAuth → c.authBasic = true) :
    (Framed c creds dest r ending tunnel ↔ ∀ le, r.bound ≠ .domain [] le) ∧
      ∀ line, Independent c creds line := by
  refine ⟨⟨fun h => ?_, fun hbound => framed_of_end ?_⟩, connect_independent c creds⟩
  · exact (eight_le_success r).mp (h.eight_le hdest hcreds hmethod)
  · rw [Replies.bytes, List.append_assoc, handshake_play r.method hdest hcreds hmethod,
      success_play hbound]

/-- A proxy that resolves, with a host name and without any address. -/
def remoteSetup : Setup where
  hostname := [104, 111, 115, 116]
  port := 80
  proxyType := .socks5Hostname
  authBasic := true
  authGssapi := false
  ipv4Only := false
  inetPton := fun _ => none
  inetPton6 := fun _ => none
  dnsResult := .ok
  dnsGetAi := fun _ => none

/-- A login, and a bound IPv4 address. -/
theorem socks5_framing_login :
    (Framed remoteSetup (some ⟨[117], [112, 119]⟩) (.domain [104, 111, 115, 116] (by decide))
      ⟨.login 1, 0, .ipv4 #v[10, 0, 0, 1], 1080⟩ .silence [71, 69, 84] ↔
      ∀ le, Address.ipv4 #v[10, 0, 0, 1] ≠ .domain [] le) ∧
    ∀ line, Independent remoteSetup (some ⟨[117], [112, 119]⟩) line :=
  socks5_framing remoteSetup (some ⟨[117], [112, 119]⟩) (.domain [104, 111, 115, 116] (by decide))
    ⟨.login 1, 0, .ipv4 #v[10, 0, 0, 1], 1080⟩ .silence [71, 69, 84] rfl (by decide) (by decide)

/-- The proxy has bound an empty name: the call that succeeds has taken the first byte of the
tunnel. -/
theorem socks5_takes_tunnel_byte :
    ¬Framed remoteSetup none (.domain [104, 111, 115, 116] (by decide))
      ⟨.noAuth, 0, .domain [] (by decide), 0⟩ .silence [72, 105] := by
  intro h
  obtain ⟨sx, l, p, hrun, -, -, htaken, -⟩ := h [⟨List.replicate 4 (.upTo 99), true⟩]
  have htaken' : (connect remoteSetup none (openLine .silence [] []
      (Replies.bytes ⟨.noAuth, 0, .domain [] (by decide), 0⟩ ++ [72, 105]))
      [⟨List.replicate 4 (.upTo 99), true⟩]).map (fun b => (b.1.state, b.2.1.taken)) =
        some (.success, [5, 0, 5, 0, 0, 3, 0, 0, 0, 72]) := by
    decide +kernel
  rw [hrun, Option.map_some, Option.some.injEq, Prod.mk.injEq] at htaken'
  rw [htaken'.2] at htaken
  exact absurd htaken (by decide)

end Gurl.Socks
