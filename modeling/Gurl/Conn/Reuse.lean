import Gurl.Conn.Match

/-! What one round of the search does, read off the checks: each connection gets a verdict that
depends on the connection and on the query alone, and the record changes by the verdict. -/

namespace Gurl.Conn

open Gurl.Vtls

/-- What the search does with a connection: go past it, take it out as dead, stop and wait, keep it
and go on, stop with it because it is in the wanted state, or take it after all checks. -/
inductive Verdict
  | skip | dead | wait | keep | force | take
  deriving DecidableEq

def Verdict.stops : Verdict → Bool
  | .wait | .force | .take => true
  | _ => false

def multiplexNeeds (q : Query) (c : Connectdata) : Bool :=
  !c.inUse || (c.multiplex && q.mayMultiplex && urlMatchMulti c q)

/-- The checks up to the one on multiplexing. -/
def fits (q : Query) (c : Connectdata) : Bool :=
  urlMatchConnectConfig c q && urlMatchDestination c q &&
  (c.isConnected && !c.upgradeInProgress) && multiplexNeeds q c && urlMatchSslUse c q &&
  urlMatchProxyUse c q && urlMatchSslConfig c q

/-- It is not known yet whether the connection will multiplex. -/
def undecided (q : Query) (c : Connectdata) : Bool :=
  q.mayMultiplex && q.data.httpAllowed &&& (curlHttpV2x ||| curlHttpV3x) != 0 &&
  q.needle.scheme.protocol &&& curlprotoHttp != 0 && c.httpversionSeen == 0

/-- The verdict of `url_match_auth_ntlm` or `url_match_auth_nego`, if it has one. -/
def stateVerdict (want wantProxy state proxyState : Bool) (q : Query) (c : Connectdata) :
    Option Verdict :=
  if (if want then credsInPlay c q else state) then some .skip
  else if (if wantProxy then
      c.httpProxy.creds.isNone || !credsSame q.needle.httpProxy.creds c.httpProxy.creds
      else proxyState) then some .skip
  else if want || wantProxy then
    if (want && state) || (wantProxy && proxyState) then some .force else some .keep
  else none

def ntlmVerdict (q : Query) (c : Connectdata) : Option Verdict :=
  stateVerdict q.wantNtlmHttp q.wantProxyNtlmHttp (c.httpNtlmState != .none)
    (c.proxyNtlmState != .none) q c

def negoVerdict (q : Query) (c : Connectdata) : Option Verdict :=
  stateVerdict q.wantNegoHttp q.wantProxyNegoHttp (c.httpNegotiateState != .none)
    (c.proxyNegotiateState != .none) q c

def tailVerdict (host : Host) (q : Query) (c : Connectdata) : Verdict :=
  if !urlMatchMultiplexLimits c q then .skip
  else if !c.inUse && (connSeemsDead host c q.data q.now).1 then .dead
  else .take

def loginVerdict (host : Host) (q : Query) (c : Connectdata) : Verdict :=
  if !urlMatchAuth c q || !urlMatchProtoConfig c q then .skip
  else (ntlmVerdict q c).getD ((negoVerdict q c).getD (tailVerdict host q c))

/-- What the search does with `c`. -/
def verdict (host : Host) (q : Query) (c : Connectdata) : Verdict :=
  if !fits q c then .skip
  else if undecided q c then if q.data.pipewait then .wait else .skip
  else loginVerdict host q c

/-- The connection that is attached when all checks were passed: a probe has marked its time. -/
def checked (host : Host) (q : Query) (c : Connectdata) : Connectdata :=
  if !c.inUse then (connSeemsDead host c q.data q.now).2 else c

/-- The candidate after a connection with this verdict. -/
def Verdict.settle (host : Host) (q : Query) (c : Connectdata) (found : Option Connectdata) :
    Verdict → Option Connectdata
  | .skip | .dead => found
  | .wait => none
  | .keep | .force => some c
  | .take => some (checked host q c)

/-- The round `r` on `c` follows the verdict `v`. -/
structure Follows (host : Host) (c : Connectdata) (m : UrlConnMatch) (v : Verdict)
    (r : Bool × UrlConnMatch) : Prop where
  stops : r.1 = v.stops
  query : r.2.toQuery = m.toQuery
  found : r.2.found = v.settle host m.toQuery c m.found
  terminated : r.2.terminated = if v = .dead then m.terminated ++ [c] else m.terminated
  clear : r.1 = false → r.2.waitPipe = false ∧ r.2.forceReuse = false

section
variable {host : Host} {c : Connectdata} {m : UrlConnMatch}

theorem follows_skip (hw : m.waitPipe = false) (hf : m.forceReuse = false) :
    Follows host c m .skip (false, m) :=
  ⟨rfl, rfl, rfl, rfl, fun _ => ⟨hw, hf⟩⟩

theorem urlMatchTail_follows (hw : m.waitPipe = false) (hf : m.forceReuse = false) :
    Follows host c m (tailVerdict host m.toQuery c) (urlMatchTail host c m) := by
  unfold urlMatchTail tailVerdict
  by_cases hlim : urlMatchMultiplexLimits c m.toQuery = true
  · by_cases huse : c.inUse = true
    · simp only [hlim, huse, Bool.not_true, Bool.false_eq_true, if_false, Bool.false_and]
      refine ⟨rfl, rfl, ?_, rfl, fun h => by cases h⟩
      simp [Verdict.settle, checked, huse]
    · have huse : c.inUse = false := by simpa using huse
      simp only [hlim, huse, Bool.not_true, Bool.not_false, Bool.false_eq_true, if_false, if_true,
        Bool.true_and]
      cases hd : connSeemsDead host c m.data m.now with
      | mk dead c' =>
        cases dead with
        | true => exact ⟨rfl, rfl, rfl, rfl, fun _ => ⟨hw, hf⟩⟩
        | false =>
          refine ⟨rfl, rfl, ?_, rfl, fun h => by cases h⟩
          simp [Verdict.settle, checked, huse, hd]
  · have hlim : urlMatchMultiplexLimits c m.toQuery = false := by simpa using hlim
    simp only [hlim, Bool.not_false, if_true]
    exact follows_skip hw hf

/-- A matcher with the verdict `v?` either follows it, or lets the connection through and leaves the
record as it is. -/
def Matcher (host : Host) (c : Connectdata) (m : UrlConnMatch) (r : Bool × UrlConnMatch) :
    Option Verdict → Prop
  | some v => Follows host c m v r ∧ (r.1 = true → r.2.forceReuse = true)
  | none => r = (true, m)

theorem urlMatchAuthState_matcher (want wantProxy state proxyState : Bool)
    (hw : m.waitPipe = false) (hf : m.forceReuse = false) :
    Matcher host c m (urlMatchAuthState want wantProxy state proxyState c m)
      (stateVerdict want wantProxy state proxyState m.toQuery c) := by
  unfold stateVerdict urlMatchAuthState
  by_cases h1 : (if want then credsInPlay c m.toQuery else state) = true
  · rw [if_pos h1, if_pos h1]
    exact ⟨follows_skip hw hf, fun h => by cases h⟩
  · rw [if_neg h1, if_neg h1]
    by_cases h2 : (if wantProxy then c.httpProxy.creds.isNone ||
        !credsSame m.needle.httpProxy.creds c.httpProxy.creds else proxyState) = true
    · rw [if_pos h2, if_pos h2]
      exact ⟨follows_skip hw hf, fun h => by cases h⟩
    · rw [if_neg h2, if_neg h2]
      by_cases h3 : (want || wantProxy) = true
      · rw [if_pos h3, if_pos h3]
        by_cases h4 : ((want && state) || (wantProxy && proxyState)) = true
        · rw [if_pos h4, if_pos h4]
          exact ⟨⟨rfl, rfl, rfl, rfl, fun h => by cases h⟩, fun _ => rfl⟩
        · rw [if_neg h4, if_neg h4]
          exact ⟨⟨rfl, rfl, rfl, rfl, fun _ => ⟨hw, hf⟩⟩, fun h => by cases h⟩
      · rw [if_neg h3, if_neg h3]
        rfl

theorem urlMatchAuthNtlm_matcher (hw : m.waitPipe = false) (hf : m.forceReuse = false) :
    Matcher host c m (urlMatchAuthNtlm c m) (ntlmVerdict m.toQuery c) :=
  urlMatchAuthState_matcher _ _ _ _ hw hf

theorem urlMatchAuthNego_matcher (hw : m.waitPipe = false) (hf : m.forceReuse = false) :
    Matcher host c m (urlMatchAuthNego c m) (negoVerdict m.toQuery c) :=
  urlMatchAuthState_matcher _ _ _ _ hw hf

/-- Two matchers in a row, or a matcher and what comes after it: a verdict ends the round. -/
theorem follows_of_matcher {v? : Option Verdict} {v : Verdict} {r : Bool × UrlConnMatch}
    {next : UrlConnMatch → Bool × UrlConnMatch} (hf : m.forceReuse = false) :
    Matcher host c m r v? → Follows host c m v (next m) →
      Follows host c m (v?.getD v) (match r with
        | (false, m) => (false, m)
        | (true, m) => if m.forceReuse then (true, m) else next m) := by
  intro h hnext
  cases v? with
  | none =>
    rw [show r = (true, m) from h]
    simpa only [hf, Bool.false_eq_true, if_false, Option.getD_none] using hnext
  | some v =>
    obtain ⟨b, m'⟩ := r
    cases b with
    | false => exact h.1
    | true =>
      have hforce : m'.forceReuse = true := h.2 rfl
      simpa only [hforce, if_true, Option.getD_some] using h.1

theorem urlMatchLogin_follows (hw : m.waitPipe = false) (hf : m.forceReuse = false) :
    Follows host c m (loginVerdict host m.toQuery c) (urlMatchLogin host c m) := by
  unfold urlMatchLogin loginVerdict
  by_cases hauth : urlMatchAuth c m.toQuery = true
  · by_cases hproto : urlMatchProtoConfig c m.toQuery = true
    · simp only [hauth, hproto, Bool.not_true, Bool.false_eq_true, if_false, Bool.or_false]
      refine follows_of_matcher hf (urlMatchAuthNtlm_matcher hw hf) ?_
      exact follows_of_matcher hf (urlMatchAuthNego_matcher hw hf) (urlMatchTail_follows hw hf)
    · simp only [hauth, hproto, Bool.not_true, Bool.not_false, Bool.false_eq_true, if_false,
        if_true, Bool.or_true]
      exact follows_skip hw hf
  · simp only [hauth, Bool.not_false, if_true, Bool.true_or]
    exact follows_skip hw hf

theorem urlMatchUse_follows (hw : m.waitPipe = false) (hf : m.forceReuse = false) :
    Follows host c m
      (if !(urlMatchSslUse c m.toQuery && urlMatchProxyUse c m.toQuery &&
          urlMatchSslConfig c m.toQuery) then .skip
        else if undecided m.toQuery c then if m.data.pipewait then .wait else .skip
        else loginVerdict host m.toQuery c)
      (urlMatchUse host c m) := by
  unfold urlMatchUse
  cases urlMatchSslUse c m.toQuery with
  | false => exact follows_skip hw hf
  | true =>
    cases urlMatchProxyUse c m.toQuery with
    | false => exact follows_skip hw hf
    | true =>
      cases urlMatchSslConfig c m.toQuery with
      | false => exact follows_skip hw hf
      | true =>
        simp only [Bool.not_true, Bool.false_eq_true, if_false, Bool.and_self]
        unfold urlMatchHttpMultiplex undecided
        by_cases hu : (m.mayMultiplex &&
          m.data.httpAllowed &&& (curlHttpV2x ||| curlHttpV3x) != 0 &&
            m.needle.scheme.protocol &&& curlprotoHttp != 0 && c.httpversionSeen == 0) = true
        · rw [if_pos hu, if_pos hu]
          cases hp : m.data.pipewait with
          | true => exact ⟨rfl, rfl, rfl, rfl, fun h => by cases h⟩
          | false => exact follows_skip hw hf
        · rw [if_neg hu, if_neg hu]
          simp only [hw, Bool.false_eq_true, if_false]
          exact urlMatchLogin_follows hw hf

/-- The flags `seen_…` say nothing that a verdict depends on. -/
theorem Follows.of_seen {v : Verdict} {m' : UrlConnMatch} {r : Bool × UrlConnMatch}
    (h : Follows host c m' v r) (hq : m'.toQuery = m.toQuery) (hfound : m'.found = m.found)
    (ht : m'.terminated = m.terminated) : Follows host c m v r := by
  refine ⟨h.stops, h.query.trans hq, ?_, ?_, h.clear⟩
  · rw [h.found, hq, hfound]
  · rw [h.terminated, ht]

/-- A round on a connection follows the verdict. -/
theorem urlMatchConn_follows (hw : m.waitPipe = false) (hf : m.forceReuse = false) :
    Follows host c m (verdict host m.toQuery c) (urlMatchConn host c m) := by
  unfold urlMatchConn verdict fits
  cases urlMatchConnectConfig c m.toQuery with
  | false => exact follows_skip hw hf
  | true =>
    cases urlMatchDestination c m.toQuery with
    | false => exact follows_skip hw hf
    | true =>
      simp only [Bool.not_true, Bool.false_eq_true, if_false, Bool.true_and]
      unfold urlMatchFullyConnected
      by_cases hc : (!c.isConnected || c.upgradeInProgress) = true
      · have hnot : (c.isConnected && !c.upgradeInProgress) = false := by
          revert hc
          cases c.isConnected <;> cases c.upgradeInProgress <;> simp
        simp only [hc, if_true, hnot, Bool.false_and, Bool.not_false]
        split
        · exact ⟨rfl, rfl, rfl, rfl, fun _ => ⟨hw, hf⟩⟩
        · exact follows_skip hw hf
      · have hyes : (c.isConnected && !c.upgradeInProgress) = true := by
          revert hc
          cases c.isConnected <;> cases c.upgradeInProgress <;> simp
        simp only [hc, Bool.false_eq_true, if_false, hyes, Bool.true_and]
        unfold urlMatchMultiplexNeeds multiplexNeeds
        cases hu : c.inUse with
        | false => simpa using urlMatchUse_follows hw hf
        | true =>
          cases hm : c.multiplex with
          | false => exact ⟨rfl, rfl, rfl, rfl, fun _ => ⟨hw, hf⟩⟩
          | true =>
            simp only [if_true, Bool.not_true, Bool.false_eq_true, if_false, Bool.false_or,
              Bool.true_and]
            cases hn : (m.mayMultiplex && urlMatchMulti c m.toQuery) with
            | false => exact ⟨rfl, rfl, rfl, rfl, fun _ => ⟨hw, hf⟩⟩
            | true =>
              simp only [Bool.true_and]
              have h := @urlMatchUse_follows host c { m with seenMultiplexConn := true } hw hf
              exact h.of_seen rfl rfl rfl

end

/-- Without a candidate before, what the search ends with; `v` gives the verdicts. -/
def settled (host : Host) (q : Query) :
    List Connectdata → Option Connectdata → Option Connectdata
  | [], found => found
  | c :: curr, found =>
    let found := (verdict host q c).settle host q c found
    if (verdict host q c).stops then found else settled host q curr found

/-- The connections found dead before the search stops. -/
def reported (host : Host) (q : Query) : List Connectdata → List Connectdata
  | [] => []
  | c :: curr =>
    (if verdict host q c = .dead then [c] else []) ++
      if (verdict host q c).stops then [] else reported host q curr

/-- The whole search, told by the verdicts. -/
theorem cpoolWalk_settled (host : Host) (conns : List Connectdata) (m : UrlConnMatch)
    (hw : m.waitPipe = false) (hf : m.forceReuse = false) :
    (cpoolWalk host conns m).toQuery = m.toQuery ∧
    (cpoolWalk host conns m).found = settled host m.toQuery conns m.found ∧
    (cpoolWalk host conns m).terminated = m.terminated ++ reported host m.toQuery conns := by
  induction conns generalizing m with
  | nil => simp [cpoolWalk, settled, reported]
  | cons c curr ih =>
    have h := @urlMatchConn_follows host c m hw hf
    unfold cpoolWalk settled reported
    generalize urlMatchConn host c m = r at h
    obtain ⟨b, m'⟩ := r
    have hstops : b = (verdict host m.toQuery c).stops := h.stops
    cases b with
    | true =>
      simp only [← hstops, if_true, List.append_nil]
      refine ⟨h.query, h.found, ?_⟩
      have ht := h.terminated
      split at ht <;> simp_all
    | false =>
      obtain ⟨hw', hf'⟩ := h.clear rfl
      obtain ⟨iq, ifound, it⟩ := ih m' hw' hf'
      simp only [← hstops, Bool.false_eq_true, if_false]
      have hq : m'.toQuery = m.toQuery := h.query
      have hfound : m'.found = _ := h.found
      have ht : m'.terminated = _ := h.terminated
      refine ⟨iq.trans hq, by rw [ifound, hq, hfound], ?_⟩
      rw [it, hq, ht]
      split <;> simp

/-- `url_attach_existing`, told by the verdicts. -/
theorem urlAttachExisting_settled (host : Host) (data : Easy) (needle : Connectdata)
    (bundle : Bundle) :
    (urlAttachExisting host data needle bundle).conn =
        settled host (query data needle) bundle.conns none ∧
    (urlAttachExisting host data needle bundle).reportedDead =
        reported host (query data needle) bundle.conns := by
  obtain ⟨-, hfound, hterm⟩ :=
    cpoolWalk_settled host bundle.conns { toQuery := query data needle } rfl rfl
  rw [List.nil_append] at hterm
  unfold urlAttachExisting urlMatchResult
  rw [← hfound, ← hterm]
  cases hc : (cpoolWalk host bundle.conns { toQuery := query data needle }).found with
  | some c => simp [hc]
  | none =>
    simp only [hc, Option.isSome_none, Bool.false_eq_true, if_false]
    split
    · simp
    · split <;> simp

/-! Which connection the search ends with: one that went through all checks, or one that the matcher
for NTLM or Negotiate kept. -/

open Gurl.Strcase

/-- The verdict of the two matchers for NTLM and Negotiate, if one of them has one. -/
def stateOf (q : Query) (c : Connectdata) : Option Verdict := (ntlmVerdict q c).or (negoVerdict q c)

/-- `c` passes every check before those on NTLM and Negotiate. -/
structure Admitted (q : Query) (c : Connectdata) : Prop where
  fits : fits q c = true
  decided : undecided q c = false
  auth : urlMatchAuth c q = true
  protoConfig : urlMatchProtoConfig c q = true

/-- The search stops at `c` to wait for it. -/
def Waits (q : Query) (c : Connectdata) : Prop :=
  fits q c = true ∧ undecided q c = true ∧ q.data.pipewait = true

/-- `c` is already in the wanted NTLM or Negotiate state. -/
def InState (q : Query) (c : Connectdata) : Prop := Admitted q c ∧ stateOf q c = some .force

/-- The matcher for the wanted NTLM or Negotiate stores `c` in `found`. -/
def Kept (q : Query) (c : Connectdata) : Prop :=
  Admitted q c ∧ (stateOf q c = some .keep ∨ stateOf q c = some .force)

section
variable {host : Host} {q : Query} {c : Connectdata}

theorem verdict_of_admitted (h : Admitted q c) :
    verdict host q c = (stateOf q c).getD (tailVerdict host q c) := by
  unfold verdict loginVerdict stateOf
  rw [h.fits, h.decided, h.auth, h.protoConfig]
  simp only [Bool.not_true, Bool.false_eq_true, if_false, Bool.or_false]
  cases ntlmVerdict q c <;> simp

theorem verdict_cases (host : Host) (q : Query) (c : Connectdata) :
    verdict host q c = .skip ∨ (Waits q c ∧ verdict host q c = .wait) ∨ Admitted q c := by
  unfold verdict loginVerdict
  cases hfit : fits q c with
  | false => exact .inl rfl
  | true =>
    simp only [Bool.not_true, Bool.false_eq_true, if_false]
    cases hu : undecided q c with
    | true =>
      cases hp : q.data.pipewait with
      | true => exact .inr (.inl ⟨⟨hfit, hu, hp⟩, rfl⟩)
      | false => exact .inl rfl
    | false =>
      cases ha : urlMatchAuth c q with
      | false => exact .inl rfl
      | true =>
        cases hpc : urlMatchProtoConfig c q with
        | false => exact .inl rfl
        | true => exact .inr (.inr ⟨hfit, hu, ha, hpc⟩)

theorem verdict_of_waits (h : Waits q c) : verdict host q c = .wait := by
  unfold verdict
  rw [h.1, h.2.1, h.2.2]
  rfl

theorem tailVerdict_cases (host : Host) (q : Query) (c : Connectdata) :
    tailVerdict host q c = .skip ∨ tailVerdict host q c = .dead ∨
      (tailVerdict host q c = .take ∧ urlMatchMultiplexLimits c q = true) := by
  unfold tailVerdict
  cases urlMatchMultiplexLimits c q with
  | false => exact .inl rfl
  | true =>
    simp only [Bool.not_true, Bool.false_eq_true, if_false, and_true]
    split
    · exact .inr (.inl rfl)
    · exact .inr (.inr rfl)

theorem stateVerdict_cases (want wantProxy state proxyState : Bool) (q : Query)
    (c : Connectdata) :
    stateVerdict want wantProxy state proxyState q c = some .skip ∨
    (((want || wantProxy) = true ∧
        (stateVerdict want wantProxy state proxyState q c = some .force ∨
          stateVerdict want wantProxy state proxyState q c = some .keep) ∨
      (want || wantProxy) = false ∧ stateVerdict want wantProxy state proxyState q c = none) ∧
      (state = true → want = true) ∧ (proxyState = true → wantProxy = true)) := by
  unfold stateVerdict
  by_cases h1 : (if want then credsInPlay c q else state) = true
  · exact .inl (if_pos h1)
  by_cases h2 : (if wantProxy then c.httpProxy.creds.isNone ||
      !credsSame q.needle.httpProxy.creds c.httpProxy.creds else proxyState) = true
  · exact .inl (by rw [if_neg h1, if_pos h2])
  rw [if_neg h1, if_neg h2]
  right
  refine ⟨?_, ?_, ?_⟩
  · cases hw : (want || wantProxy) with
    | true =>
      refine .inl ⟨rfl, ?_⟩
      rw [if_pos rfl]
      split
      · exact .inl rfl
      · exact .inr rfl
    | false => exact .inr ⟨rfl, rfl⟩
  · intro hs
    cases want with
    | true => rfl
    | false => exact absurd hs h1
  · intro hs
    cases wantProxy with
    | true => rfl
    | false => exact absurd hs h2

/-- The transfer wants NTLM or Negotiate of the origin or of the proxy. -/
def Wants (q : Query) : Prop :=
  (q.wantNtlmHttp || q.wantProxyNtlmHttp || (q.wantNegoHttp || q.wantProxyNegoHttp)) = true

/-- `c` is in NTLM states only where NTLM is wanted. -/
def NtlmWanted (q : Query) (c : Connectdata) : Prop :=
  (c.httpNtlmState ≠ .none → q.wantNtlmHttp = true) ∧
  (c.proxyNtlmState ≠ .none → q.wantProxyNtlmHttp = true)

/-- `c` is in Negotiate states only where Negotiate is wanted. -/
def NegoWanted (q : Query) (c : Connectdata) : Prop :=
  (c.httpNegotiateState ≠ .none → q.wantNegoHttp = true) ∧
  (c.proxyNegotiateState ≠ .none → q.wantProxyNegoHttp = true)

/-- What the two matchers say. The one for NTLM has the first word, and when it speaks the one for
Negotiate is not asked. -/
theorem stateOf_cases (q : Query) (c : Connectdata) :
    stateOf q c = some .skip ∨
    (Wants q ∧ (stateOf q c = some .keep ∨ stateOf q c = some .force) ∧ NtlmWanted q c) ∨
    (¬Wants q ∧ stateOf q c = none ∧ NtlmWanted q c ∧ NegoWanted q c) := by
  unfold stateOf Wants
  rcases stateVerdict_cases q.wantNtlmHttp q.wantProxyNtlmHttp (c.httpNtlmState != .none)
    (c.proxyNtlmState != .none) q c with hn | ⟨⟨hw, hn⟩ | ⟨hw, hn⟩, hok⟩
  · simp [ntlmVerdict, hn]
  · have hok' : NtlmWanted q c := by simpa [NtlmWanted] using hok
    refine .inr (.inl ⟨by rw [hw]; rfl, ?_, hok'⟩)
    rcases hn with hn | hn <;> simp [ntlmVerdict, hn]
  · have hok' : NtlmWanted q c := by simpa [NtlmWanted] using hok
    rw [hw, ntlmVerdict, hn, Option.none_or, Bool.false_or]
    rcases stateVerdict_cases q.wantNegoHttp q.wantProxyNegoHttp (c.httpNegotiateState != .none)
      (c.proxyNegotiateState != .none) q c with hg | ⟨⟨hw', hg⟩ | ⟨hw', hg⟩, hgok⟩
    · exact .inl hg
    · exact .inr (.inl ⟨hw', hg.symm, hok'⟩)
    · exact .inr (.inr ⟨by simp [hw'], hg, hok', by simpa [NegoWanted] using hgok⟩)

/-- What each verdict says of the connection. -/
def Verdict.Says (q : Query) (c : Connectdata) : Verdict → Prop
  | .skip => ¬Waits q c ∧ ¬Kept q c
  | .dead => ¬Waits q c ∧ ¬Kept q c ∧ ¬Wants q
  | .wait => Waits q c
  | .keep => ¬Waits q c ∧ Kept q c ∧ ¬InState q c
  | .force => InState q c
  | .take => ¬Wants q ∧ Admitted q c ∧ NtlmWanted q c ∧ NegoWanted q c ∧
      urlMatchMultiplexLimits c q = true

theorem verdict_says (host : Host) (q : Query) (c : Connectdata) :
    (verdict host q c).Says q c := by
  by_cases hwait : Waits q c
  · rw [verdict_of_waits hwait]
    exact hwait
  rcases verdict_cases host q c with hs | ⟨hw, -⟩ | ha
  · rw [hs]
    refine ⟨hwait, fun hk => ?_⟩
    rw [verdict_of_admitted hk.1] at hs
    rcases hk.2 with hk | hk <;> simp [hk] at hs
  · exact absurd hw hwait
  · rw [verdict_of_admitted ha]
    rcases stateOf_cases q c with hst | ⟨-, hst | hst, -⟩ | ⟨hno, hst, hntlm, hnego⟩
    · simp [hst, Verdict.Says, hwait, Kept]
    · simp [hst, Verdict.Says, hwait, Kept, InState, ha]
    · simp [hst, Verdict.Says, InState, ha]
    · rw [hst, Option.getD_none]
      have hk : ¬Kept q c := by simp [Kept, hst]
      rcases tailVerdict_cases host q c with ht | ht | ⟨ht, hlim⟩
      · rw [ht]
        exact ⟨hwait, hk⟩
      · rw [ht]
        exact ⟨hwait, hk, hno⟩
      · rw [ht]
        exact ⟨hno, ha, hntlm, hnego, hlim⟩

theorem kept_of_inState (h : InState q c) : Kept q c := ⟨h.1, .inr h.2⟩

theorem ntlmWanted_of_kept (h : Kept q c) : NtlmWanted q c := by
  rcases stateOf_cases q c with hst | ⟨-, -, hok⟩ | ⟨-, hst, -⟩
  · rcases h.2 with h | h <;> simp [h] at hst
  · exact hok
  · rcases h.2 with h | h <;> simp [h] at hst

theorem wants_of_kept (h : Kept q c) : Wants q := by
  rcases stateOf_cases q c with hst | ⟨hw, -⟩ | ⟨-, hst, -⟩
  · rcases h.2 with h | h <;> simp [h] at hst
  · exact hw
  · rcases h.2 with h | h <;> simp [h] at hst

end

/-- The search for NTLM or Negotiate ends up with a connection: no connection before it makes the
search wait or is in the wanted state, and it is in that state itself, or no later one is kept or
makes the search wait. -/
inductive EndsWith (q : Query) : List Connectdata → Connectdata → Prop
  | inState {c : Connectdata} {curr : List Connectdata} (h : InState q c) : EndsWith q (c :: curr) c
  | last {c : Connectdata} {curr : List Connectdata} (h : Kept q c)
      (hlast : ∀ d ∈ curr, ¬Waits q d ∧ ¬Kept q d) : EndsWith q (c :: curr) c
  | past {b c : Connectdata} {curr : List Connectdata} (hwait : ¬Waits q b) (hstate : ¬InState q b)
      (h : EndsWith q curr c) : EndsWith q (b :: curr) c

theorem EndsWith.kept {q : Query} {conns : List Connectdata} {c : Connectdata}
    (h : EndsWith q conns c) : c ∈ conns ∧ Kept q c := by
  induction h with
  | inState h => exact ⟨by simp, kept_of_inState h⟩
  | last h _ => exact ⟨by simp, h⟩
  | past _ _ _ ih => exact ⟨List.mem_cons_of_mem _ ih.1, ih.2⟩

/-- What `settled` finds went through all checks, or is where the search for NTLM or Negotiate ends
up, or was there before. -/
theorem settled_some {host : Host} {q : Query} {conns : List Connectdata}
    {found : Option Connectdata} {d : Connectdata} (h : settled host q conns found = some d) :
    (∃ c ∈ conns, verdict host q c = .take ∧ d = checked host q c) ∨ EndsWith q conns d ∨
      (found = some d ∧ ∀ b ∈ conns, ¬Waits q b ∧ ¬Kept q b) := by
  induction conns generalizing found with
  | nil => exact .inr (.inr ⟨h, by simp⟩)
  | cons c curr ih =>
    have hsays := verdict_says host q c
    unfold settled at h
    have hpast (hwait : ¬Waits q c) (hstate : ¬InState q c) {found'}
        (h : settled host q curr found' = some d) :
        (∃ c' ∈ c :: curr, verdict host q c' = .take ∧ d = checked host q c') ∨
          EndsWith q (c :: curr) d ∨ (found' = some d ∧ ∀ b ∈ curr, ¬Waits q b ∧ ¬Kept q b) := by
      rcases ih h with ⟨c', hc', hv⟩ | h | h
      · exact .inl ⟨c', List.mem_cons_of_mem _ hc', hv⟩
      · exact .inr (.inl (.past hwait hstate h))
      · exact .inr (.inr h)
    have hstep (hwait : ¬Waits q c) (hkept : ¬Kept q c)
        (h : settled host q curr found = some d) :
        (∃ c' ∈ c :: curr, verdict host q c' = .take ∧ d = checked host q c') ∨
          EndsWith q (c :: curr) d ∨
            (found = some d ∧ ∀ b ∈ c :: curr, ¬Waits q b ∧ ¬Kept q b) := by
      refine (hpast hwait (fun hs => hkept (kept_of_inState hs)) h).imp_right (.imp_right ?_)
      rintro ⟨hd, hall⟩
      exact ⟨hd, List.forall_mem_cons.mpr ⟨⟨hwait, hkept⟩, hall⟩⟩
    cases hv : verdict host q c with
    | skip =>
      rw [hv] at h hsays
      exact hstep hsays.1 hsays.2 h
    | dead =>
      rw [hv] at h hsays
      exact hstep hsays.1 hsays.2.1 h
    | wait =>
      rw [hv] at h
      cases h
    | keep =>
      rw [hv] at h hsays
      rcases hpast hsays.1 hsays.2.2 h with h | h | ⟨hd, hall⟩
      · exact .inl h
      · exact .inr (.inl h)
      · obtain rfl : c = d := Option.some.inj hd
        exact .inr (.inl (.last hsays.2.1 hall))
    | force =>
      rw [hv] at h hsays
      obtain rfl : c = d := Option.some.inj h
      exact .inr (.inl (.inState hsays))
    | take =>
      rw [hv] at h
      exact .inl ⟨c, by simp, hv, (Option.some.inj h).symm⟩

/-- Past connections that are not kept, the candidate stays. -/
theorem settled_eq_found {host : Host} {q : Query} (hw : Wants q) {conns : List Connectdata}
    {found : Option Connectdata} (h : ∀ b ∈ conns, ¬Waits q b ∧ ¬Kept q b) :
    settled host q conns found = found := by
  induction conns with
  | nil => rfl
  | cons c curr ih =>
    obtain ⟨hc, hcurr⟩ := List.forall_mem_cons.mp h
    have hsays := verdict_says host q c
    unfold settled
    cases hv : verdict host q c with
    | skip => exact ih hcurr
    | dead =>
      rw [hv] at hsays
      exact absurd hw hsays.2.2
    | wait =>
      rw [hv] at hsays
      exact absurd hsays hc.1
    | keep =>
      rw [hv] at hsays
      exact absurd hsays.2.1 hc.2
    | force =>
      rw [hv] at hsays
      exact absurd (kept_of_inState hsays) hc.2
    | take =>
      rw [hv] at hsays
      exact absurd hw hsays.1

theorem settled_of_endsWith {host : Host} {q : Query} {conns : List Connectdata}
    {c : Connectdata} (h : EndsWith q conns c) (found : Option Connectdata) :
    settled host q conns found = some c := by
  have hw := wants_of_kept h.kept.2
  induction h generalizing found with
  | @inState c curr h =>
    have hv : verdict host q c = .force := by
      rw [verdict_of_admitted h.1, h.2]
      rfl
    unfold settled
    rw [hv]
    rfl
  | @last c curr h hlast =>
    rcases h.2 with hst | hst
    · have hv : verdict host q c = .keep := by
        rw [verdict_of_admitted h.1, hst]
        rfl
      unfold settled
      rw [hv]
      exact settled_eq_found hw hlast
    · have hv : verdict host q c = .force := by
        rw [verdict_of_admitted h.1, hst]
        rfl
      unfold settled
      rw [hv]
      rfl
  | @past b c curr hwait hstate h ih =>
    have hsays := verdict_says host q b
    unfold settled
    cases hv : verdict host q b with
    | skip => exact ih _
    | dead => exact ih _
    | wait =>
      rw [hv] at hsays
      exact absurd hsays hwait
    | keep => exact ih _
    | force =>
      rw [hv] at hsays
      exact absurd hsays hstate
    | take =>
      rw [hv] at hsays
      exact absurd hw hsays.1

end Gurl.Conn
