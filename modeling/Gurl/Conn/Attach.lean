import Gurl.Conn.Reuse

/-! What is known of a connection that `url_attach_existing` attaches: it belongs to the security
context of the transfer, and when it has passed every check. -/

namespace Gurl.Conn

open Gurl.Strcase Gurl.Vtls

/-- `c` can carry the transfer without leaving its security context; `same` says when two texts
agree that are not compared byte by byte. -/
structure SameContext (same : Text → Text → Prop) (data : Easy) (needle c : Connectdata) :
    Prop where
  connected : c.isConnected = true ∧ c.upgradeInProgress = false
  reusable : c.connectOnly = false ∧ c.close = false ∧ c.noReuse = false
  origin : SamePlace same needle.origin c.origin
  viaPeer : SamePeer same needle.viaPeer c.viaPeer
  socksProxy : SameProxy same needle.socksProxy c.socksProxy
  httpProxy : SameProxy same needle.httpProxy c.httpProxy
  creds : c.creds ≠ none → c.creds = needle.creds ∨ c.creds = data.creds
  needleCreds : needle.creds ≠ none → c.creds = needle.creds
  tls : needle.scheme.flags &&& protoptSsl ≠ 0 ∨ curlusesslControl ≤ data.useSsl → c.isSsl = true
  settings : needle.scheme.flags &&& protoptSsl ≠ 0 ∨ curlusesslNone < data.useSsl →
    SameSettings same data.ssl c.sslConfig
  proxySettings : proxyIsHttps needle.httpProxy.proxytype = true →
    SameSettings same data.proxySsl c.proxySslConfig

section
variable {data : Easy} {needle c : Connectdata}

theorem connectConfig_spec {q : Query} (h : urlMatchConnectConfig c q = true) :
    c.connectOnly = false ∧ c.close = false ∧ c.noReuse = false := by
  unfold urlMatchConnectConfig at h
  split at h
  · cases h
  · rename_i hbits
    simpa [not_or, and_assoc] using hbits

theorem destination_spec {q : Query} (h : urlMatchDestination c q = true) :
    SamePeer SameIgnoringCase q.needle.viaPeer c.viaPeer ∧
    SamePlace SameIgnoringCase q.needle.origin c.origin := by
  unfold urlMatchDestination at h
  split at h
  · cases h
  · rename_i hvia
    split at h
    · cases h
    · exact ⟨samePeer_of_sameDestination (by simpa using hvia), samePeer_of_sameDestination h⟩

theorem sslUse_spec (h : urlMatchSslUse c (query data needle) = true)
    (htls : needle.scheme.flags &&& protoptSsl ≠ 0 ∨ curlusesslControl ≤ data.useSsl) :
    c.isSsl = true := by
  unfold urlMatchSslUse at h
  split at h
  · exact h
  · rename_i hflag
    split at h
    · assumption
    · have hflag : needle.scheme.flags &&& protoptSsl = 0 := by simpa [query] using hflag
      have hreq := htls.resolve_left (fun hne => hne hflag)
      simp [query] at h
      exact absurd hreq (by simpa using h)

theorem proxyUse_spec (h : urlMatchProxyUse c (query data needle) = true) :
    SameProxy SameIgnoringCase needle.socksProxy c.socksProxy ∧
    SameProxy SameIgnoringCase needle.httpProxy c.httpProxy ∧
    (proxyIsHttps needle.httpProxy.proxytype = true →
      SameSettings SameIgnoringCase data.proxySsl c.proxySslConfig) := by
  unfold urlMatchProxyUse at h
  split at h
  · cases h
  · split at h
    · cases h
    · rename_i hsocks
      split at h
      · cases h
      · rename_i hhttp
        refine ⟨sameProxy_of_matches (by simpa [query] using hsocks),
          sameProxy_of_matches (by simpa [query] using hhttp), fun hs => ?_⟩
        rw [if_pos (show proxyIsHttps (query data needle).needle.httpProxy.proxytype =
          true from hs)]
          at h
        exact sameSettings_of_match h

theorem sslConfig_spec (h : urlMatchSslConfig c (query data needle) = true)
    (htls : needle.scheme.flags &&& protoptSsl ≠ 0 ∨ curlusesslNone < data.useSsl) :
    SameSettings SameIgnoringCase data.ssl c.sslConfig := by
  unfold urlMatchSslConfig at h
  split at h
  · cases h
  · rename_i hno
    apply sameSettings_of_match
    simp only [query, Bool.and_eq_true, Bool.or_eq_true, bne_iff_ne, decide_eq_true_eq,
      Bool.not_eq_true', not_and, Bool.not_eq_false] at hno
    exact hno htls

theorem auth_spec (h : urlMatchAuth c (query data needle) = true) :
    (c.creds ≠ none → c.creds = needle.creds ∨ c.creds = data.creds) ∧
    (needle.creds ≠ none → c.creds = needle.creds) := by
  unfold urlMatchAuth at h
  split at h
  · cases h
  · rename_i hno
    by_cases hsame : credsSame needle.creds c.creds = true
    · have heq := (credsSame_iff _ _).mp hsame
      exact ⟨fun _ => .inl heq.symm, fun _ => heq.symm⟩
    · have hrest : needle.creds = none ∧ credsSame data.creds c.creds = true := by
        simpa [query, hsame] using hno
      have heq := (credsSame_iff _ _).mp hrest.2
      exact ⟨fun _ => .inr heq.symm, fun hne => absurd hrest.1 hne⟩

/-- The checks before those on NTLM and Negotiate keep the search in the security context. -/
theorem sameContext_of_admitted (h : Admitted (query data needle) c) :
    SameContext SameIgnoringCase data needle c := by
  have hfit := h.fits
  simp only [fits, Bool.and_eq_true, Bool.not_eq_true', and_assoc] at hfit
  obtain ⟨hconfig, hdest, hconn, hup, -, huse, hproxy, hssl⟩ := hfit
  obtain ⟨hvia, horigin⟩ := destination_spec hdest
  obtain ⟨hsocks, hhttp, hproxySsl⟩ := proxyUse_spec hproxy
  obtain ⟨hcreds, hneedle⟩ := auth_spec h.auth
  exact ⟨⟨hconn, hup⟩, connectConfig_spec hconfig, horigin, hvia, hsocks, hhttp, hcreds, hneedle,
    sslUse_spec huse, sslConfig_spec hssl, hproxySsl⟩

end

/-- A probe changes nothing but the time of the last check. -/
theorem connSeemsDead_conn (host : Host) (c : Connectdata) (data : Easy) (now : Splay.Curltime) :
    ∃ t, (connSeemsDead host c data now).2 = { c with lastchecked := t } := by
  unfold connSeemsDead
  split
  · split
    · exact ⟨c.lastchecked, rfl⟩
    · split
      · exact ⟨c.lastchecked, rfl⟩
      · split
        · exact ⟨now, rfl⟩
        · exact ⟨now, rfl⟩
  · exact ⟨c.lastchecked, rfl⟩

theorem checked_eq (host : Host) (q : Query) (c : Connectdata) :
    ∃ t, checked host q c = { c with lastchecked := t } := by
  unfold checked
  split
  · exact connSeemsDead_conn host c q.data q.now
  · exact ⟨c.lastchecked, rfl⟩

/-- An attached connection went through all checks, or is where the search for NTLM or Negotiate
ends up. -/
theorem attached_cases {host : Host} {data : Easy} {needle c : Connectdata} {bundle : Bundle}
    (h : (urlAttachExisting host data needle bundle).conn = some c) :
    (∃ c₀ ∈ bundle.conns, verdict host (query data needle) c₀ = .take ∧
      c = checked host (query data needle) c₀) ∨
    EndsWith (query data needle) bundle.conns c := by
  rw [(urlAttachExisting_settled host data needle bundle).1] at h
  rcases settled_some h with h | h | ⟨h, -⟩
  · exact .inl h
  · exact .inr h
  · cases h

/-- The HTTP scheme. -/
def httpScheme : Scheme := ⟨[104, 116, 116, 112], 1, 1, 0, false⟩

/-- The host `fe80::1` at port 80, in the zone `eth0` or, in capitals, `ETH0`. -/
def linkLocal (zone : Bytes) : Peer :=
  ⟨httpScheme, [102, 101, 56, 48, 58, 58, 49], some zone, 0, 80, false, false, true⟩

/-- An idle connection over HTTP/1.1 to a link-local host. -/
def idleConn (zone : Bytes) : Connectdata where
  connectionId := 1
  origin := linkLocal zone
  viaPeer := none
  socksProxy := ⟨none, none, 0⟩
  httpProxy := ⟨none, none, 0⟩
  creds := none
  credsOrigin := none
  created := ⟨0, 0⟩
  lastused := ⟨0, 0⟩
  lastchecked := ⟨0, 0⟩
  sslConfig := {}
  proxySslConfig := {}
  scheme := httpScheme
  connectOnly := false
  close := false
  noReuse := false
  upgradeInProgress := false
  multiplex := false
  originIsProxy := false
  protoconnstart := true
  attachedMulti := none
  attachedXfers := 0
  httpNtlmState := .none
  proxyNtlmState := .none
  httpNegotiateState := .none
  proxyNegotiateState := .none
  localdev := none
  localport := 0
  localportrange := 0
  ipVersion := 0
  httpversionSeen := 11
  gssapiDelegation := 0
  ssh := none
  ftp := none
  isConnected := true
  isSsl := false
  httpVersion := 11
  maxConcurrent := 1

/-- A transfer that asks for nothing special, with the wanted authentication bits `want`. -/
def plainEasy (want : UInt32) : Easy where
  multi := 0
  multiplexing := true
  maxConcurrentStreams := 100
  ipver := 0
  useSsl := 0
  pipewait := false
  connMaxIdleMs := 118000
  connMaxAgeMs := 0
  ssl := {}
  proxySsl := {}
  creds := none
  origin := none
  authhostWant := want
  authproxyWant := 0
  httpAllowed := 1
  now := ⟨5, 0⟩

/-- A network on which every connection is alive. -/
def aliveHost : Host := ⟨fun _ => false, fun _ => true, fun _ => false⟩

/-- The bundle of one connection. -/
def oneConn (c : Connectdata) : Bundle := ⟨[c], by simp⟩

/-- A connection is attached only within the security context of the transfer. -/
theorem attached_same_context (host : Host) (data : Easy) (needle c : Connectdata)
    (bundle : Bundle) (h : (urlAttachExisting host data needle bundle).conn = some c) :
    SameContext SameIgnoringCase data needle c := by
  rcases attached_cases h with ⟨c₀, -, hv, rfl⟩ | hends
  · have hsays := verdict_says host (query data needle) c₀
    rw [hv] at hsays
    have hctx := sameContext_of_admitted hsays.2.1
    obtain ⟨t, ht⟩ := checked_eq host (query data needle) c₀
    rw [ht]
    exact ⟨hctx.connected, hctx.reusable, hctx.origin, hctx.viaPeer, hctx.socksProxy,
      hctx.httpProxy, hctx.creds, hctx.needleCreds, hctx.tls, hctx.settings, hctx.proxySettings⟩
  · exact sameContext_of_admitted hends.kept.2.1

theorem attached_same_context_sample :
    SameContext SameIgnoringCase (plainEasy 0) (idleConn [101, 116, 104, 48])
      { idleConn [101, 116, 104, 48] with lastchecked := ⟨5, 0⟩ } :=
  attached_same_context aliveHost (plainEasy 0) (idleConn [101, 116, 104, 48]) _
    (oneConn (idleConn [101, 116, 104, 48])) (by decide +kernel)

/-- The zones `eth0` and `ETH0` count as one. -/
theorem attached_across_zones :
    ¬∀ (host : Host) (data : Easy) (needle c : Connectdata) (bundle : Bundle),
      (urlAttachExisting host data needle bundle).conn = some c →
        SameContext (· = ·) data needle c := by
  intro hall
  have hctx := hall aliveHost (plainEasy 0) (idleConn [101, 116, 104, 48])
    { idleConn [69, 84, 72, 48] with lastchecked := ⟨5, 0⟩ }
    (oneConn (idleConn [69, 84, 72, 48])) (by decide +kernel)
  exact absurd (hctx.origin.zoneid rfl) (by decide)

/-- `c` passed every check of the search. -/
structure PassedAll (q : Query) (reportedDead : List Connectdata) (c : Connectdata) : Prop where
  capacity : c.inUse = false ∨ (c.multiplex = true ∧
    c.attachedXfers < q.data.maxConcurrentStreams ∧ c.attachedXfers < c.maxConcurrent)
  alive : c.inUse = false → c.connectionId ∉ reportedDead.map Connectdata.connectionId
  ntlm : NtlmWanted q c
  nego : NegoWanted q c

section
variable {q : Query} {c : Connectdata}

theorem capacity_of_limits (hfit : fits q c = true) (hlim : urlMatchMultiplexLimits c q = true) :
    c.inUse = false ∨ (c.multiplex = true ∧ c.attachedXfers < q.data.maxConcurrentStreams ∧
      c.attachedXfers < c.maxConcurrent) := by
  simp only [fits, multiplexNeeds, Bool.and_eq_true, and_assoc] at hfit
  cases huse : c.inUse with
  | false => exact .inl rfl
  | true =>
    have hneeds := hfit.2.2.2.2.1
    simp only [huse, Bool.not_true, Bool.false_or, Bool.and_eq_true] at hneeds
    simp only [urlMatchMultiplexLimits, huse, hneeds.1.2, Bool.and_self, if_true] at hlim
    split at hlim
    · cases hlim
    · split at hlim
      · cases hlim
      · exact .inr ⟨hneeds.1.1, by omega, by omega⟩

theorem limits_of_capacity (h : c.inUse = false ∨ (c.multiplex = true ∧
    c.attachedXfers < q.data.maxConcurrentStreams ∧ c.attachedXfers < c.maxConcurrent)) :
    urlMatchMultiplexLimits c q = true := by
  unfold urlMatchMultiplexLimits
  rcases h with h | ⟨-, h1, h2⟩
  · simp [h]
  · split
    · rw [if_neg (by omega), if_neg (by omega)]
    · rfl

end

/-- Only connections that were given up as dead are reported. -/
theorem mem_reported {host : Host} {q : Query} {conns : List Connectdata} {d : Connectdata}
    (h : d ∈ reported host q conns) : d ∈ conns ∧ verdict host q d = .dead := by
  induction conns with
  | nil => cases h
  | cons c curr ih =>
    unfold reported at h
    rcases List.mem_append.mp h with h | h
    · split at h
      · rename_i hdead
        obtain rfl := List.mem_singleton.mp h
        exact ⟨by simp, hdead⟩
      · cases h
    · split at h
      · cases h
      · exact ⟨List.mem_cons_of_mem _ (ih h).1, (ih h).2⟩

theorem not_reported {host : Host} {data : Easy} {needle c : Connectdata} {bundle : Bundle}
    (hc : c ∈ bundle.conns) (hv : verdict host (query data needle) c ≠ .dead) :
    c.connectionId ∉
      (urlAttachExisting host data needle bundle).reportedDead.map Connectdata.connectionId := by
  rw [(urlAttachExisting_settled host data needle bundle).2]
  intro hmem
  obtain ⟨d, hd, hid⟩ := List.mem_map.mp hmem
  obtain ⟨hd, hdead⟩ := mem_reported hd
  obtain rfl : d = c := List.inj_on_of_nodup_map bundle.distinct hd hc hid
  exact hv hdead

/-- Where the search for NTLM or Negotiate ends up, the checks it left out hold too. -/
def KeptIsChecked (q : Query) (conns : List Connectdata) : Prop :=
  ∀ c, EndsWith q conns c → NegoWanted q c ∧ urlMatchMultiplexLimits c q = true

/-- Every attached connection passed every check exactly when this is so for the connection the
matcher for NTLM or Negotiate kept. -/
theorem attached_passed_iff (host : Host) (data : Easy) (needle : Connectdata) (bundle : Bundle) :
    (∀ c, (urlAttachExisting host data needle bundle).conn = some c →
      PassedAll (query data needle) (urlAttachExisting host data needle bundle).reportedDead c) ↔
    KeptIsChecked (query data needle) bundle.conns := by
  constructor
  · intro hall c hends
    have hconn : (urlAttachExisting host data needle bundle).conn = some c := by
      rw [(urlAttachExisting_settled host data needle bundle).1]
      exact settled_of_endsWith hends none
    have hpass := hall c hconn
    exact ⟨hpass.nego, limits_of_capacity hpass.capacity⟩
  · intro hkept c hconn
    rcases attached_cases hconn with ⟨c₀, hmem, hv, rfl⟩ | hends
    · have hsays := verdict_says host (query data needle) c₀
      rw [hv] at hsays
      obtain ⟨-, hadm, hntlm, hnego, hlim⟩ := hsays
      have halive := @not_reported host _ _ _ _ hmem (by rw [hv]; decide)
      obtain ⟨t, ht⟩ := checked_eq host (query data needle) c₀
      rw [ht]
      exact ⟨capacity_of_limits hadm.fits hlim, fun _ => halive, hntlm, hnego⟩
    · obtain ⟨hmem, hk⟩ := hends.kept
      obtain ⟨hnego, hlim⟩ := hkept c hends
      refine ⟨capacity_of_limits hk.1.fits hlim, fun _ => not_reported hmem ?_,
        ntlmWanted_of_kept hk, hnego⟩
      rw [verdict_of_admitted hk.1]
      rcases hk.2 with hst | hst
      · rw [hst, Option.getD_some]
        decide
      · rw [hst, Option.getD_some]
        decide

/-- A transfer that wants NTLM gets a connection that Negotiate has authenticated. -/
theorem attached_with_negotiate :
    ∃ c, (urlAttachExisting aliveHost (plainEasy curlauthNtlm) (idleConn [101, 116, 104, 48])
        (oneConn { idleConn [101, 116, 104, 48] with httpNegotiateState := .done })).conn = some c ∧
      c.httpNegotiateState = .done ∧
      (query (plainEasy curlauthNtlm) (idleConn [101, 116, 104, 48])).wantNegoHttp = false ∧
      ¬PassedAll (query (plainEasy curlauthNtlm) (idleConn [101, 116, 104, 48]))
        (urlAttachExisting aliveHost (plainEasy curlauthNtlm) (idleConn [101, 116, 104, 48])
          (oneConn { idleConn [101, 116, 104, 48] with httpNegotiateState := .done })).reportedDead
        c := by
  refine ⟨{ idleConn [101, 116, 104, 48] with httpNegotiateState := .done }, by decide +kernel, rfl,
    by decide +kernel, fun h => ?_⟩
  exact absurd (h.nego.1 (by decide)) (by decide +kernel)

end Gurl.Conn
