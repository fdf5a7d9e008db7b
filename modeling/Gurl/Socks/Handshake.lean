import Gurl.Socks.Moves
import Gurl.Lib.Runs

/-! The handshake as a dialogue: every state stands for what is left to do, and a call of
`socks5_connect` does a part of it, whatever the next filter and the resolver answer. -/

namespace Gurl.Socks

open Dialogue

variable {c : Setup} {dnsDone : Bool} {sx sx' : SocksCtx} {w w' w₁ : Wire}

/-! ### What is left to do in a state -/

/-- Send the buffer and go on. -/
def sendScript (next : SocksState) (goOn : SocksCtx → Script UInt8 Outcome) (sx : SocksCtx) :
    Script UInt8 Outcome :=
  .send sx.iobuf (.failed .sendConnect) (goOn { sx with iobuf := [], state := next })

/-- Go on behind a check. -/
def checkedScript (goOn : SocksCtx → Script UInt8 Outcome) : SocksCtx × Proxycode →
    Script UInt8 Outcome
  | (sx, presult) => if presult ≠ .ok then .stop (.failed presult) else goOn sx

/-- Receive two bytes, check them and go on. -/
def recvScript (check : SocksCtx → SocksCtx × Proxycode) (goOn : SocksCtx → Script UInt8 Outcome)
    (sx : SocksCtx) : Script UInt8 Outcome :=
  .recv sx.iobuf 2 (.failed .recvConnect) fun iobuf => checkedScript goOn (check { sx with iobuf })

/-- Receive the rest of the last reply, of which the first bytes are there. -/
def restScript (iobuf : Bytes) : Script UInt8 Outcome :=
  match respLen iobuf with
  | .error presult => .stop (.failed presult)
  | .ok len => .recv iobuf len (.failed .recvConnect) fun _ => .stop .success

def resp1Script (sx : SocksCtx) : Script UInt8 Outcome :=
  .recv sx.iobuf 8 (.failed .recvConnect) restScript

def req1SendScript : SocksCtx → Script UInt8 Outcome := sendScript .resp1Recv resp1Script

/-- Send the request once the resolver has finished. -/
def resolvingScript (c : Setup) (sx : SocksCtx) : Script UInt8 Outcome :=
  .pause (checkedScript (fun sx => req1SendScript { sx with state := .req1Send })
    ((socks5Resolving c true sx).1, (socks5Resolving c true sx).2.1))

def req1Script (c : Setup) (sx : SocksCtx) : Script UInt8 Outcome :=
  checkedScript (fun sx =>
    if !sx.resolveLocal then req1SendScript { sx with state := .req1Send }
    else resolvingScript c { sx with state := .resolving, startResolving := true })
    (socks5Req1Init c sx)

def authRecvScript (c : Setup) : SocksCtx → Script UInt8 Outcome :=
  recvScript socks5CheckAuthResp fun sx => req1Script c { sx with state := .req1Init }

def authSendScript (c : Setup) : SocksCtx → Script UInt8 Outcome :=
  sendScript .authRecv (authRecvScript c)

def authInitScript (c : Setup) (sx : SocksCtx) : Script UInt8 Outcome :=
  checkedScript (fun sx => authSendScript c { sx with state := .authSend }) (socks5AuthInit sx)

def afterResp0Script (c : Setup) (sx : SocksCtx) : Script UInt8 Outcome :=
  match sx.state with
  | .gssapiInit => .stop (.failed .gssapiPermsg)
  | .authInit => authInitScript c sx
  | _ => req1Script c sx

def resp0Script (c : Setup) : SocksCtx → Script UInt8 Outcome :=
  recvScript (socks5CheckResp0 c) (afterResp0Script c)

def req0SendScript (c : Setup) : SocksCtx → Script UInt8 Outcome :=
  sendScript .resp0Recv (resp0Script c)

def startScript (c : Setup) (sx : SocksCtx) : Script UInt8 Outcome :=
  checkedScript (fun sx => req0SendScript c { sx with state := .req0Send }) (socks5Req0Init c sx)

/-- What is left to do in a state. -/
def meaning (c : Setup) (sx : SocksCtx) : Script UInt8 Outcome :=
  match sx.state with
  | .init => startScript c (sx.begin c)
  | .start => startScript c sx
  | .req0Send => req0SendScript c sx
  | .resp0Recv => resp0Script c sx
  | .gssapiInit => .stop (.failed .gssapiPermsg)
  | .authInit => authInitScript c sx
  | .authSend => authSendScript c sx
  | .authRecv => authRecvScript c sx
  | .req1Init => req1Script c sx
  | .resolving => resolvingScript c sx
  | .req1Send => req1SendScript sx
  | .resp1Recv => resp1Script sx
  | .success => .stop .success
  | .failed => .stop (.failed sx.presult)

/-! ### What a call does -/

/-- The handshake is over. -/
def SocksCtx.Over (sx : SocksCtx) : Prop := sx.state = .success ∨ sx.state = .failed

/-- With this line the handshake cannot come to its end. -/
def Silent (c : Setup) (sx : SocksCtx) (l : Line UInt8) : Prop :=
  ∀ outcome l', (meaning c sx).play l ≠ (.stop outcome, l')

/-- A generous filter has no answer left, or the line is silent. -/
def Halted (c : Setup) (w : Wire) (sx' : SocksCtx) (w' : Wire) : Prop :=
  w.Generous → w'.turns = [] ∧ w.potential ≤ w'.potential ∨ Silent c sx' w'.line

theorem Idle.halted (h : Idle w w') : Halted c w sx' w' :=
  fun hg => .inl ⟨h.2 hg, (h.1 hg).2⟩

theorem Stuck.halted {got : Bytes} {count : Nat} {lost : Outcome}
    {next : Bytes → Script UInt8 Outcome} (h : Stuck w w') (hcount : got.length < count)
    (hplay : (meaning c sx').play w'.line = (Script.recv got count lost next).play w'.line) :
    Halted c w sx' w' := by
  intro hg
  rcases h hg with hidle | ⟨hempty, hsilence⟩
  · exact .inl hidle
  · refine .inr fun outcome l' hstop => ?_
    rw [hplay, play_recv_silent _ hcount hempty hsilence] at hstop
    cases hstop

/-- A call that had `script` to do on `w` has come to `sx'` and `w'`, with the rest to do. -/
structure Did (c : Setup) (dnsDone : Bool) (script : Script UInt8 Outcome) (w : Wire)
    (sx' : SocksCtx) (w' : Wire) (presult : Proxycode) : Prop where
  same : (meaning c sx').play w'.line = script.play w.line
  hungry : sx'.Over ∨ (meaning c sx').Hungry .success
  halted : sx'.Over ∨ (dnsDone = true → Halted c w sx' w')
  result : presult = if sx'.state = .failed then sx'.presult else .ok

/-- A part of the code does a script. -/
def Does (c : Setup) (dnsDone : Bool) (script : Script UInt8 Outcome) (w : Wire)
    (run : Option (SocksCtx × Wire × Proxycode)) : Prop :=
  ∃ sx' w' presult, run = some (sx', w', presult) ∧ Did c dnsDone script w sx' w' presult

variable {script script' : Script UInt8 Outcome} {run : Option (SocksCtx × Wire × Proxycode)}

/-- What was done before comes to the same. -/
theorem Does.before (h : Does c dnsDone script' w₁ run)
    (hsame : script'.play w₁.line = script.play w.line) (hspent : Spent w w₁) :
    Does c dnsDone script w run := by
  obtain ⟨sx', w', presult, hrun, h⟩ := h
  refine ⟨sx', w', presult, hrun, h.same.trans hsame, h.hungry, ?_, h.result⟩
  rcases h.halted with hover | hhalted
  · exact .inl hover
  · refine .inr fun hdns hg => ?_
    obtain ⟨hg1, hle⟩ := hspent hg
    rcases hhalted hdns hg1 with ⟨hturns, hle'⟩ | hsilent
    · exact .inl ⟨hturns, hle.trans hle'⟩
    · exact .inr hsilent

theorem does_failed {presult : Proxycode} (sx : SocksCtx)
    (hsame : (Script.stop (.failed presult)).play w'.line = script.play w.line) :
    Does c dnsDone script w (some (socksFailed sx presult, w', presult)) :=
  ⟨_, _, _, rfl, hsame, .inl (.inr rfl), .inl (.inr rfl), rfl⟩

/-- A check that fails ends the handshake. -/
theorem does_checked {goOn : SocksCtx → Script UInt8 Outcome}
    (code : SocksCtx → Option (SocksCtx × Wire × Proxycode)) (r : SocksCtx × Proxycode)
    (hcode : r.2 = .ok → Does c dnsDone (goOn r.1) w (code r.1)) :
    Does c dnsDone (checkedScript goOn r) w
      (if r.2 ≠ .ok then some (socksFailed r.1 r.2, w, r.2) else code r.1) := by
  unfold checkedScript
  dsimp only
  split
  · exact does_failed r.1 rfl
  · exact hcode (not_not.mp ‹_›)

/-- A state that sends does its script, when it leads to code that does. -/
theorem sending_does {next : SocksState} {goOn : SocksCtx → Script UInt8 Outcome}
    {code : SocksCtx → Wire → Option (SocksCtx × Wire × Proxycode)}
    (sx : SocksCtx) (w : Wire)
    (hcode : ∀ w, Does c dnsDone (goOn { sx with iobuf := [], state := next }) w
      (code { sx with iobuf := [], state := next } w))
    (hmeaning : ∀ iobuf, meaning c { sx with iobuf } = sendScript next goOn { sx with iobuf })
    (hhungry : (goOn { sx with iobuf := [], state := next }).Hungry .success)
    (hstate : sx.state ≠ .failed) :
    Does c dnsDone (sendScript next goOn sx) w (sending next code sx w) := by
  obtain ⟨answer, hflush, hanswer⟩ := socksFlush_spec sx w
  rw [sending, hflush]
  simp only [Option.bind_eq_bind, Option.bind_some]
  cases hanswer with
  | @done w' hsame hspent =>
    refine Does.before (hcode w') ?_ hspent
    rw [sendScript, hsame, play_send_nil]
  | @blocked w' iobuf hsame hne hidle =>
    refine ⟨_, w', _, rfl, ?_, .inr ?_, .inr fun _ => hidle.halted, (if_neg hstate).symm⟩
    · rw [hmeaning]
      exact (hsame _ _).symm
    · rw [hmeaning]
      exact ⟨by simp, hhungry⟩
  | failed hsame hne haccepts =>
    refine does_failed _ ?_
    rw [sendScript, hsame, play_send_fail _ hne haccepts]
    rfl

/-- A state that receives two bytes does its script, when it leads to code that does. -/
theorem receiving_does {check : SocksCtx → SocksCtx × Proxycode}
    {goOn : SocksCtx → Script UInt8 Outcome}
    {code : SocksCtx → Wire → Option (SocksCtx × Wire × Proxycode)}
    (sx : SocksCtx) (w : Wire)
    (hcode : ∀ iobuf w, (check { sx with iobuf }).2 = .ok →
      Does c dnsDone (goOn (check { sx with iobuf }).1) w (code (check { sx with iobuf }).1 w))
    (hmeaning : ∀ iobuf, meaning c { sx with iobuf } = recvScript check goOn { sx with iobuf })
    (hstate : sx.state ≠ .failed) :
    Does c dnsDone (recvScript check goOn sx) w (receiving check code sx w) := by
  obtain ⟨answer, hrecv, hanswer⟩ := socksRecv_spec 2 sx w
  rw [receiving, hrecv]
  simp only [Option.bind_eq_bind, Option.bind_some]
  cases hanswer with
  | @done w' iobuf hsame hcount _ hspent =>
    refine Does.before (does_checked (code · w') (check { sx with iobuf })
      (hcode iobuf w')) ?_ hspent
    rw [recvScript, hsame, play_recv_full _ hcount]
  | @blocked w' iobuf hsame hcount _ hstuck =>
    have hplay := congrArg (Script.play · w'.line) (hmeaning iobuf)
    refine ⟨_, w', _, rfl, hplay.trans (hsame _ _).symm, .inr ?_,
      .inr fun _ => hstuck.halted hcount hplay, (if_neg hstate).symm⟩
    rw [hmeaning]
    exact ⟨by simp, .inl hcount⟩
  | failed hsame hcount hempty hending =>
    refine does_failed _ ?_
    rw [recvScript, hsame, play_recv_lost _ hcount hempty hending]
    rfl

/-! ### The states, from the last one on -/

/-- The length of the reply is read from its first five bytes. -/
theorem respLen_of_front {a b : Bytes} (hlen : 8 ≤ a.length) (h : a <+: b) :
    respLen b = respLen a := by
  obtain ⟨t, rfl⟩ := h
  match a, hlen with
  | _ :: _ :: _ :: _ :: _ :: _, _ => rfl

theorem replyLookup_ne_ok (rep : UInt8) : replyLookup rep ≠ .ok := by
  unfold replyLookup
  split <;> decide

theorem respLen_error {iobuf : Bytes} {presult : Proxycode}
    (h : respLen iobuf = .error presult) : presult ≠ .ok := by
  unfold respLen at h
  split at h
  · split_ifs at h <;> cases h
    · decide
    · exact replyLookup_ne_ok _
    · decide
  · cases h
    decide

theorem resp1Recv_does (w : Wire) (hstate : sx.state = .resp1Recv) :
    Does c dnsDone (resp1Script sx) w (resp1Recv sx w) := by
  have hmeaning (iobuf : Bytes) :
      meaning c { sx with iobuf } = resp1Script { sx with iobuf } := by
    simp only [meaning, hstate]
  have hok (iobuf : Bytes) : Proxycode.ok =
      if { sx with iobuf }.state = .failed then { sx with iobuf }.presult else .ok := by
    simp [hstate]
  obtain ⟨answer, hrecv, hanswer⟩ := socksRecv_spec 8 sx w
  rw [resp1Recv, socks5RecvResp1, hrecv]
  simp only [Option.bind_eq_bind, Option.bind_some]
  cases hanswer with
  | @blocked w' iobuf hsame hcount _ hstuck =>
    have hplay := congrArg (Script.play · w'.line) (hmeaning iobuf)
    refine ⟨_, w', _, rfl, hplay.trans (hsame _ _).symm, .inr ?_,
      .inr fun _ => hstuck.halted hcount hplay, hok iobuf⟩
    rw [hmeaning]
    exact ⟨by simp, .inl hcount⟩
  | failed hsame hcount hempty hending =>
    refine does_failed _ ?_
    rw [resp1Script, hsame, play_recv_lost _ hcount hempty hending]
    rfl
  | @done w1 iobuf hsame hcount _ hspent =>
    have hplay : (restScript iobuf).play w1.line = (resp1Script sx).play w.line := by
      rw [resp1Script, hsame, play_recv_full _ hcount]
    refine Does.before ?_ hplay hspent
    simp only [ne_eq, not_true_eq_false, Bool.not_true, Bool.false_eq_true, or_self, if_false]
    cases hlen : respLen iobuf with
    | error presult =>
      have hrest : restScript iobuf = .stop (.failed presult) := by
        simp only [restScript, hlen]
      simp only [Option.bind_some]
      rw [if_pos (respLen_error hlen), hrest]
      exact does_failed _ rfl
    | ok len =>
      have hrest : restScript iobuf =
          .recv iobuf len (.failed .recvConnect) fun _ => .stop .success := by
        simp only [restScript, hlen]
      obtain ⟨answer, hrecv, hanswer⟩ := socksRecv_spec len { sx with iobuf } w1
      dsimp only
      rw [hrecv, hrest]
      simp only [Option.bind_some]
      cases hanswer with
      | @done w' iobuf' hsame' hcount' _ _ =>
        refine ⟨_, w', _, rfl, ?_, .inl (.inl rfl), .inl (.inl rfl), rfl⟩
        rw [hsame', play_recv_full _ hcount']
        rfl
      | failed hsame' hcount' hempty hending =>
        refine does_failed _ ?_
        rw [hsame', play_recv_lost _ hcount' hempty hending]
        rfl
      | @blocked w' iobuf' hsame' hcount' hpre hstuck =>
        -- the next call looks at the first bytes again
        have hlen' : respLen iobuf' = .ok len := (respLen_of_front hcount hpre).trans hlen
        have hrest' : restScript iobuf' =
            .recv iobuf' len (.failed .recvConnect) fun _ => .stop .success := by
          simp only [restScript, hlen']
        have hfull : 8 ≤ iobuf'.length := hcount.trans hpre.length_le
        have hplay : (meaning c { sx with iobuf := iobuf' }).play w'.line = (Script.recv iobuf' len
            (.failed .recvConnect) fun _ => .stop .success).play w'.line := by
          rw [hmeaning, resp1Script, play_recv_full _ hfull, hrest']
        refine ⟨_, w', _, rfl, hplay.trans (hsame' _ _).symm, .inr ?_,
          .inr fun _ => hstuck.halted hcount' hplay, hok iobuf'⟩
        rw [hmeaning]
        refine ⟨by simp, .inr ?_⟩
        change (restScript iobuf').Hungry _
        rw [hrest']
        exact ⟨by simp, .inl hcount'⟩

theorem checkedScript_hungry {goOn : SocksCtx → Script UInt8 Outcome} (r : SocksCtx × Proxycode)
    (hgoOn : (goOn r.1).Hungry .success) : (checkedScript goOn r).Hungry .success := by
  unfold checkedScript
  dsimp only
  split
  · exact fun h => nomatch h
  · exact hgoOn

theorem recvScript_hungry (check : SocksCtx → SocksCtx × Proxycode)
    (goOn : SocksCtx → Script UInt8 Outcome) (hempty : sx.iobuf = []) :
    (recvScript check goOn sx).Hungry .success :=
  ⟨by simp, .inl (by simp [hempty])⟩

theorem resp1Script_hungry (hempty : sx.iobuf = []) : (resp1Script sx).Hungry .success :=
  ⟨by simp, .inl (by simp [hempty])⟩

theorem req1SendScript_hungry (sx : SocksCtx) : (req1SendScript sx).Hungry .success :=
  ⟨by simp, resp1Script_hungry rfl⟩

theorem req1Send_does (w : Wire) (hstate : sx.state = .req1Send) :
    Does c dnsDone (req1SendScript sx) w (req1Send sx w) := by
  refine sending_does sx w (fun w => resp1Recv_does w rfl) (fun iobuf => ?_)
    (resp1Script_hungry rfl) (by simp [hstate])
  simp only [meaning, hstate]
  rfl

theorem resolvingScript_hungry (sx : SocksCtx) : (resolvingScript c sx).Hungry .success :=
  checkedScript_hungry _ (req1SendScript_hungry _)

theorem socks5Resolving_done (sx : SocksCtx) :
    (socks5Resolving c true sx).2.2 = decide ((socks5Resolving c true sx).2.1 = .ok) := by
  unfold socks5Resolving
  dsimp only
  split_ifs with h1 h2
  · cases h1
  · rfl
  · split <;> rfl

theorem resolving_does (w : Wire) (hstate : sx.state = .resolving) :
    Does c dnsDone (resolvingScript c sx) w (resolving c dnsDone sx w) := by
  cases dnsDone with
  | false =>
    have hmeaning : meaning c { sx with startResolving := false } =
        resolvingScript c { sx with startResolving := false } := by
      simp only [meaning, hstate]
    refine ⟨{ sx with startResolving := false }, w, .ok, rfl, ?_, .inr ?_, .inr ?_, ?_⟩
    · rw [hmeaning]
      rfl
    · rw [hmeaning]
      exact resolvingScript_hungry _
    · rintro ⟨⟩
    · simp [hstate]
  | true =>
    have hpause : Does c true (resolvingScript c sx) w _ :=
      Does.before (does_checked (fun sx => req1Send { sx with state := .req1Send } w)
        ((socks5Resolving c true sx).1, (socks5Resolving c true sx).2.1)
        fun _ => req1Send_does w rfl) rfl (.refl w)
    unfold resolving
    dsimp only at hpause ⊢
    rw [socks5Resolving_done]
    split_ifs at hpause ⊢ with hok hdone
    · exact hpause
    · simp [not_not.mp hok] at hdone
    · exact hpause

theorem req1Init_does (sx : SocksCtx) (w : Wire) :
    Does c dnsDone (req1Script c sx) w (req1Init c dnsDone sx w) := by
  refine does_checked (fun sx => if !sx.resolveLocal then
      req1Send { sx with state := .req1Send } w
    else resolving c dnsDone { sx with state := .resolving, startResolving := true } w)
    (socks5Req1Init c sx) fun _ => ?_
  split
  · exact req1Send_does w rfl
  · exact resolving_does w rfl

theorem authRecv_does (w : Wire) (hstate : sx.state = .authRecv) :
    Does c dnsDone (authRecvScript c sx) w (authRecv c dnsDone sx w) := by
  refine receiving_does sx w (fun iobuf w _ => req1Init_does _ w) (fun iobuf => ?_)
    (by simp [hstate])
  simp only [meaning, hstate]
  rfl

theorem authSend_does (w : Wire) (hstate : sx.state = .authSend) :
    Does c dnsDone (authSendScript c sx) w (authSend c dnsDone sx w) := by
  refine sending_does sx w (fun w => authRecv_does w rfl) (fun iobuf => ?_)
    (recvScript_hungry _ _ rfl) (by simp [hstate])
  simp only [meaning, hstate]
  rfl

theorem authInit_does (sx : SocksCtx) (w : Wire) :
    Does c dnsDone (authInitScript c sx) w (authInit c dnsDone sx w) :=
  does_checked (fun sx => authSend c dnsDone { sx with state := .authSend } w)
    (socks5AuthInit sx) fun _ => authSend_does w rfl

theorem afterResp0_does (sx : SocksCtx) (w : Wire) :
    Does c dnsDone (afterResp0Script c sx) w (afterResp0 c dnsDone sx w) := by
  unfold afterResp0Script afterResp0
  cases sx.state with
  | gssapiInit => exact does_failed sx rfl
  | authInit => exact authInit_does sx w
  | _ => exact req1Init_does sx w

theorem resp0Recv_does (w : Wire) (hstate : sx.state = .resp0Recv) :
    Does c dnsDone (resp0Script c sx) w (resp0Recv c dnsDone sx w) := by
  refine receiving_does sx w (fun iobuf w _ => afterResp0_does _ w) (fun iobuf => ?_)
    (by simp [hstate])
  simp only [meaning, hstate]
  rfl

theorem req0Send_does (w : Wire) (hstate : sx.state = .req0Send) :
    Does c dnsDone (req0SendScript c sx) w (req0Send c dnsDone sx w) := by
  refine sending_does sx w (fun w => resp0Recv_does w rfl) (fun iobuf => ?_)
    (recvScript_hungry _ _ rfl) (by simp [hstate])
  simp only [meaning, hstate]
  rfl

theorem start_does (sx : SocksCtx) (w : Wire) :
    Does c dnsDone (startScript c sx) w (start c dnsDone sx w) :=
  does_checked (fun sx => req0Send c dnsDone { sx with state := .req0Send } w)
    (socks5Req0Init c sx) fun _ => req0Send_does w rfl

theorem startScript_hungry (sx : SocksCtx) : (startScript c sx).Hungry .success :=
  checkedScript_hungry _ ⟨by simp, recvScript_hungry _ _ rfl⟩

/-- A call of `socks5_connect` does what is left to do in its state. -/
theorem socks5Connect_does (c : Setup) (dnsDone : Bool) (sx : SocksCtx) (w : Wire) :
    Does c dnsDone (meaning c sx) w (socks5Connect c dnsDone sx w) := by
  unfold meaning socks5Connect
  cases hstate : sx.state with
  | init => exact start_does _ w
  | start => exact start_does _ w
  | req0Send => exact req0Send_does w hstate
  | resp0Recv => exact resp0Recv_does w hstate
  | gssapiInit => exact does_failed sx rfl
  | authInit => exact authInit_does _ w
  | authSend => exact authSend_does w hstate
  | authRecv => exact authRecv_does w hstate
  | req1Init => exact req1Init_does _ w
  | resolving => exact resolving_does w hstate
  | req1Send => exact req1Send_does w hstate
  | resp1Recv => exact resp1Recv_does w hstate
  | success =>
    refine ⟨sx, w, .ok, rfl, ?_, .inl (.inl hstate), .inl (.inl hstate), by simp [hstate]⟩
    simp only [meaning, hstate]
  | failed =>
    refine ⟨sx, w, sx.presult, rfl, ?_, .inl (.inr hstate), .inl (.inr hstate), by simp [hstate]⟩
    simp only [meaning, hstate]

/-! Repeated calls of `socks5_connect`: the answers of the next filter and of the resolver make no
difference to how the handshake ends. -/

variable {creds : Option Creds} {line l : Line UInt8}

/-- What a call of `socks5_connect` meets: the answers of the next filter, and whether the resolver
has finished. -/
structure Schedule where
  turns : List Turn
  dnsDone : Bool

/-- The context and the line between two calls, and what the last call has returned. -/
abbrev Between := SocksCtx × Line UInt8 × Proxycode

def connectStep (c : Setup) : Between → Schedule → Option Between
  | (sx, l, _), { turns, dnsDone } =>
    (socks5Connect c dnsDone sx ⟨l, turns⟩).map fun (sx, w, presult) => (sx, w.line, presult)

/-- Call `socks5_connect` again and again, from the context that the filter is created with. -/
def connect (c : Setup) (creds : Option Creds) (line : Line UInt8) (schedules : List Schedule) :
    Option Between :=
  Runs.exec (connectStep c) (socksProxyInsert creds, line, .ok) schedules

/-- What holds between two calls: what is left to do comes to the same, and unless the handshake is
over it has to take something yet. -/
structure OnTheWay (c : Setup) (creds : Option Creds) (line : Line UInt8) (b : Between) : Prop where
  same : (meaning c b.1).play b.2.1 = (meaning c (socksProxyInsert creds)).play line
  hungry : b.1.Over ∨ (meaning c b.1).Hungry .success
  result : b.2.2 = if b.1.state = .failed then b.1.presult else .ok

/-- A call keeps on the way, and a generous filter with enough answers gets as far as the line
allows. -/
theorem OnTheWay.step {b : Between} (h : OnTheWay c creds line b) (s : Schedule) :
    ∃ b', connectStep c b s = some b' ∧ OnTheWay c creds line b' ∧
      (b'.1.Over ∨ (s.dnsDone = true → (∀ t ∈ s.turns, ∃ k, t = .upTo k) →
        s.turns.length ≤ b'.2.1.sent.length + b'.2.1.taken.length ∨ Silent c b'.1 b'.2.1)) := by
  obtain ⟨sx', w', presult, hrun, hdid⟩ := socks5Connect_does c s.dnsDone b.1 ⟨b.2.1, s.turns⟩
  refine ⟨(sx', w'.line, presult), ?_, ⟨hdid.same.trans h.same, hdid.hungry, hdid.result⟩, ?_⟩
  · obtain ⟨sx, l, p⟩ := b
    simp only [connectStep, hrun, Option.map_some]
  · rcases hdid.halted with hover | hhalted
    · exact .inl hover
    · refine .inr fun hdns hg => ?_
      rcases hhalted hdns hg with ⟨hturns, hle⟩ | hsilent
      · simp only [Wire.potential, hturns, List.length_nil] at hle
        exact .inl (by dsimp only; omega)
      · exact .inr hsilent

theorem onTheWay_start (c : Setup) (creds : Option Creds) (line : Line UInt8) :
    OnTheWay c creds line (socksProxyInsert creds, line, .ok) where
  same := rfl
  hungry := .inr (startScript_hungry _)
  result := rfl

theorem connect_onTheWay (c : Setup) (creds : Option Creds) (line : Line UInt8)
    (schedules : List Schedule) :
    ∃ b, connect c creds line schedules = some b ∧ OnTheWay c creds line b := by
  unfold connect
  have hstart := onTheWay_start c creds line
  generalize (socksProxyInsert creds, line, Proxycode.ok) = b at hstart
  induction schedules generalizing b with
  | nil => exact ⟨b, rfl, hstart⟩
  | cons s schedules ih =>
    obtain ⟨b1, hstep, hway, -⟩ := hstart.step s
    obtain ⟨b2, hexec, hway2⟩ := ih b1 hway
    exact ⟨b2, by rw [Runs.exec, hstep, Option.bind_some, hexec], hway2⟩

theorem SocksCtx.Over.meaning_eq (h : sx.Over) :
    meaning c sx = .stop (if sx.state = .failed then .failed sx.presult else .success) := by
  rcases h with h | h <;> simp only [meaning, h] <;> rfl

/-- Where the handshake can end at all, every run that is over has ended there. -/
theorem OnTheWay.end_eq {b : Between} {o : Outcome} (h : OnTheWay c creds line b) (hover : b.1.Over)
    (hend : (meaning c (socksProxyInsert creds)).play line = (.stop o, l)) :
    o = (if b.1.state = .failed then .failed b.1.presult else .success) ∧ l = b.2.1 := by
  have hsame := h.same
  rw [hend, hover.meaning_eq] at hsame
  cases hsame
  exact ⟨rfl, rfl⟩

/-- Where the handshake can end at all, a generous call ends it. -/
theorem OnTheWay.generous {b : Between} {o : Outcome} {turns : List Turn}
    (h : OnTheWay c creds line b)
    (hend : (meaning c (socksProxyInsert creds)).play line = (.stop o, l))
    (hturns : ∀ t ∈ turns, ∃ k, t = .upTo k)
    (hmany : l.sent.length + l.taken.length < turns.length) :
    ∃ b', connectStep c b ⟨turns, true⟩ = some b' ∧ OnTheWay c creds line b' ∧ b'.1.Over := by
  obtain ⟨b', hstep, hway, hover | hhalted⟩ := h.step ⟨turns, true⟩
  · exact ⟨b', hstep, hway, hover⟩
  · have hplay := hway.same.trans hend
    have hlater := play_later (meaning c b'.1) b'.2.1
    rw [hplay] at hlater
    rcases hhalted rfl hturns with hfew | hsilent
    · have hsent := length_sent_le hlater
      have htaken := length_taken_le hlater
      dsimp only at hfew hsent htaken
      omega
    · exact absurd hplay (hsilent o l)

/-- When a run is over, every other run that is over has ended in the same way, and every run can be
brought to this end by a call with enough answers. -/
def Independent (c : Setup) (creds : Option Creds) (line : Line UInt8) : Prop :=
  ∀ schedules sx l p, connect c creds line schedules = some (sx, l, p) → sx.Over →
    ∀ schedules', ∃ sx' l' p', connect c creds line schedules' = some (sx', l', p') ∧
      (sx'.Over → sx'.state = sx.state ∧ p' = p ∧ l' = l) ∧
      ∀ turns : List Turn, (∀ t ∈ turns, ∃ k, t = .upTo k) →
        l.sent.length + l.taken.length < turns.length →
        ∃ sx'', connectStep c (sx', l', p') ⟨turns, true⟩ = some (sx'', l, p) ∧
          sx''.state = sx.state

/-- Two contexts that are over with the same outcome. -/
theorem same_end {b b' : Between} (h : OnTheWay c creds line b) (h' : OnTheWay c creds line b')
    (hover : b.1.Over) (hover' : b'.1.Over) :
    b'.1.state = b.1.state ∧ b'.2.2 = b.2.2 ∧ b'.2.1 = b.2.1 := by
  have hend := h.same.symm
  rw [hover.meaning_eq] at hend
  obtain ⟨houtcome, hline⟩ := h'.end_eq hover' hend
  rw [h.result, h'.result, ← hline]
  rcases hover with hs | hs <;> rcases hover' with hs' | hs' <;>
    simp_all

theorem connect_independent (c : Setup) (creds : Option Creds) (line : Line UInt8) :
    Independent c creds line := by
  intro schedules sx l p hrun hover schedules'
  obtain ⟨b, hb, hway⟩ := connect_onTheWay c creds line schedules
  rw [hrun] at hb
  cases hb
  obtain ⟨⟨sx', l', p'⟩, hrun', hway'⟩ := connect_onTheWay c creds line schedules'
  have hend := hway.same.symm
  rw [hover.meaning_eq] at hend
  refine ⟨sx', l', p', hrun', fun hover' => same_end hway hway' hover hover', ?_⟩
  intro turns hturns hmany
  obtain ⟨⟨sx2, l2, p2⟩, hstep, hway2, hover2⟩ := hway'.generous hend hturns hmany
  obtain ⟨hstate, hp, hl⟩ := same_end hway hway2 hover hover2
  dsimp only at hstate hp hl
  exact ⟨sx2, by rw [hstep, hp, hl], hstate⟩

/-! ### On the way to success -/

variable {lf : Line UInt8} {b : Between}

/-- On the way to success nothing has failed. -/
theorem OnTheWay.not_failed (h : OnTheWay c creds line b)
    (hend : (meaning c (socksProxyInsert creds)).play line = (.stop .success, lf)) :
    b.1.state ≠ .failed := by
  intro hfailed
  obtain ⟨houtcome, -⟩ := h.end_eq (.inr hfailed) hend
  rw [if_pos hfailed] at houtcome
  cases houtcome

/-- On the way to success, the context is at its end just when the line is. -/
theorem OnTheWay.success_iff (h : OnTheWay c creds line b)
    (hend : (meaning c (socksProxyInsert creds)).play line = (.stop .success, lf)) :
    b.1.state = .success ↔ b.2.1.taken = lf.taken := by
  constructor
  · intro hsuccess
    rw [(h.end_eq (.inl hsuccess) hend).2]
  · intro htaken
    rcases h.hungry with (hsuccess | hfailed) | hhungry
    · exact hsuccess
    · exact absurd hfailed (h.not_failed hend)
    · have hless := hhungry.takes (h.same.trans hend)
      rw [htaken] at hless
      omega

/-- What is sent and taken on the way to an end is a part of what is sent and taken in the end. -/
theorem OnTheWay.later (h : OnTheWay c creds line b) {o : Outcome}
    (hend : (meaning c (socksProxyInsert creds)).play line = (.stop o, lf)) : Later b.2.1 lf := by
  have hlater := play_later (meaning c b.1) b.2.1
  rw [h.same.trans hend] at hlater
  exact hlater

end Gurl.Socks
