import Gurl.Mqtt.Bodies

/-! A transfer makes the same of a stream however it arrives, except where the body of a SUBACK
packet arrives in more than one piece. -/

namespace Gurl.Mqtt

variable {setup : Setup} {rx rx' : Incoming} {out : Outgoing} {n : Nat}

/-! ### One call -/

/-- The next call reads the body of a SUBACK packet. -/
def AwaitsSuback (rx : Incoming) : Prop :=
  (rx.state = .suback ∨ rx.state = .pubwait) ∧ rx.firstbyte &&& 0xf0 = msgSuback ∧
    rx.remainingLength = subackLen

/-- One receive gives the body of a SUBACK packet, or the stream ends inside of it. -/
def Whole (rx : Incoming) : Prop :=
  match rx.recvs with
  | [] => True
  | none :: _ => rx.stream ≠ [] ∧ rx.stream.length < subackLen
  | some k :: _ => rx.stream.length < subackLen ∨ subackLen ≤ k + 1

theorem awaitsSuback_of_phase (hsteady : Steady rx) (h : rx.phase setup = .suback []) :
    AwaitsSuback rx := by
  have hpacket : enterPacket setup rx.firstbyte rx.remainingLength rx.recvbuf = .suback [] →
      rx.firstbyte &&& 0xf0 = msgSuback ∧ rx.remainingLength = subackLen := by
    unfold enterPacket
    split_ifs with hpublish hsize hsuback hlen hdisconnect
    · exact fun h => (nomatch h)
    · exact fun h => (nomatch h)
    · exact fun h => (nomatch h)
    · exact fun _ => ⟨hsuback, not_not.mp hlen⟩
    · exact fun h => (nomatch h)
    · exact fun h => (nomatch h)
  unfold Incoming.phase at h
  cases hstate : rx.state with
  | suback =>
    rw [hstate] at h
    exact ⟨.inl hstate, hpacket h⟩
  | pubwait =>
    rw [hstate] at h
    exact ⟨.inr hstate, hpacket h⟩
  | connack =>
    rw [hstate] at h
    simp only [enter] at h
    split_ifs at h
  | subackComing => exact absurd hstate hsteady.state
  | first => rw [hstate] at h; cases h
  | remainingLength => rw [hstate] at h; cases h
  | pubRemain => rw [hstate] at h; cases h
  | nostate => rw [hstate] at h; cases h

theorem phase_of_awaitsSuback (hsteady : Steady rx) (h : AwaitsSuback rx) :
    rx.phase setup = .suback [] ∧ rx.recvbuf = [] := by
  obtain ⟨hstate, htype, hlen⟩ := h
  have hrecvbuf : rx.recvbuf = [] := by
    by_contra hne
    have hconnack := (hsteady.recvbuf hne).1
    rcases hstate with hstate | hstate <;> rw [hstate] at hconnack <;> cases hconnack
  refine ⟨?_, hrecvbuf⟩
  rw [phase_packet hstate, enterPacket, htype, if_neg (by decide), if_pos rfl,
    if_neg (by simp [hlen]), hrecvbuf]

/-- A body that does not arrive at once is left in the middle. -/
theorem readPacket_torn (hsteady : Steady rx) (h : AwaitsSuback rx) (htorn : ¬Whole rx) :
    ∃ used : Bytes, (readPacket setup rx).2 = .just .again ∧
      (readPacket setup rx).1.state = .subackComing ∧
      (readPacket setup rx).1.log = rx.log ++ used.map (.suback, ·) ∧
      (readPacket setup rx).1.body = rx.body ∧ 0 < rx.recvs.length := by
  obtain ⟨-, hrecvbuf⟩ := @phase_of_awaitsSuback setup rx hsteady h
  obtain ⟨hstate, htype, hlen⟩ := h
  have hread : readPacket setup rx = readSuback (rx.mqstate .subackComing .nostate) := by
    unfold readPacket
    dsimp only
    rw [htype, if_neg (by decide), if_pos rfl]
  have hverify : verifySuback (rx.mqstate .subackComing .nostate) = _ := if_neg (not_not_intro hlen)
  have hempty : (rx.mqstate .subackComing .nostate).recvbuf = [] := hrecvbuf
  have hatleast : recvAtleast (rx.mqstate .subackComing .nostate) .suback subackLen = _ :=
    if_pos (by rw [hempty]; decide : _ < subackLen)
  rcases hrecvs : rx.recvs with _ | ⟨_ | k, recvs⟩
  · exact absurd (by rw [Whole, hrecvs]; trivial) htorn
  · have hrecv : (rx.mqstate .subackComing .nostate).recv .suback subackLen =
        ((rx.mqstate .subackComing .nostate).skipRecv, none) := by
      rw [Incoming.recv, show (rx.mqstate .subackComing .nostate).recvs = none :: recvs from hrecvs]
    rw [hread, readSuback, hverify]
    erw [hatleast, hempty, hrecv]
    exact ⟨[], rfl, rfl, (List.append_nil _).symm, rfl, by simp⟩
  · have hlong : subackLen ≤ rx.stream.length ∧ k + 1 < subackLen := by
      rw [Whole, hrecvs] at htorn
      omega
    have hmin : min subackLen (k + 1) = k + 1 := by omega
    have hrecv : (rx.mqstate .subackComing .nostate).recv .suback subackLen =
        ((rx.mqstate .subackComing .nostate).take .suback (k + 1),
          some (rx.stream.take (k + 1))) := by
      rw [Incoming.recv, show (rx.mqstate .subackComing .nostate).recvs = some k ::
        recvs from hrecvs]
      simp only [hmin]
      rfl
    have hlength : (rx.stream.take (k + 1)).length = k + 1 := by
      rw [List.length_take]
      omega
    have hne : rx.stream.take (k + 1) ≠ [] := List.length_pos_iff.mp (by omega)
    have hbuf : ((rx.mqstate .subackComing .nostate).take .suback (k + 1)).recvbuf = [] := hrecvbuf
    have hshort : ¬(rx.stream.take (k + 1)).length ≥ subackLen := by omega
    rw [hread, readSuback, hverify]
    erw [hatleast, hempty, hrecv]
    dsimp only
    rw [if_neg hne, hbuf, List.nil_append, if_neg hshort]
    exact ⟨rx.stream.take (k + 1), rfl, rfl, rfl, rfl, by simp⟩

theorem packetsIn_suback (log : List (Role × UInt8)) (xs : Bytes) :
    packetsIn (log ++ xs.map (Role.suback, ·)) = packetsIn log := by
  have hnone : (xs.map (Role.suback, ·)).countP (·.1 == .first) = 0 := by
    rw [List.countP_eq_zero]
    intro e he
    obtain ⟨b, -, rfl⟩ := List.mem_map.mp he
    exact Bool.false_ne_true
  rw [packetsIn, List.countP_append, hnone]
  rfl

/-- What comes of a stream in front of the body of a SUBACK packet. -/
theorem outcome_suback_iff {r : Reader} (h : r.phase = .suback []) (xs : Bytes) :
    r.outcome setup xs = ⟨.ok, true, r.packets, r.body⟩ ↔ xs ≠ [] ∧ xs.length < subackLen := by
  by_cases hlt : xs.length < subackLen
  · have hfold := @foldl_suback setup r _ xs h (by simpa using hlt)
    rw [Reader.outcome, hfold, Reader.observed, Reader.packets, packetsIn_suback]
    by_cases hnil : xs = []
    · simp [hnil, Phase.atEnd]
    · simp [hnil, Phase.atEnd, hlt, Reader.packets]
  · rw [and_iff_right_iff_imp.mpr fun h => absurd h hlt, iff_false_intro hlt, iff_false]
    have hle : subackLen ≤ xs.length := Nat.not_lt.mp hlt
    have hne : xs.take subackLen ≠ [] := by
      refine List.length_pos_iff.mp ?_
      rw [List.length_take_of_le hle]
      decide
    have hfold := @foldl_suback_full setup r _ (xs.take subackLen) h hne
      (by rw [List.length_take_of_le hle]; rfl)
    rw [← List.take_append_drop subackLen xs, Reader.outcome_append, hfold]
    split_ifs with heq
    · rw [outcome_ended rfl]
      intro h
      cases congrArg Observed.result h
    · rw [Reader.packets, ← packetsIn_suback r.log (xs.take subackLen)]
      exact outcome_first_ne rfl _ _

/-! ### Whole runs -/

theorem mqttPing_quiet (state : MqttState) (h : Quiet out) :
    (mqttPing setup state out).2 = .ok ∧ Quiet (mqttPing setup state out).1 := by
  have hnow : Quiet out.now := h
  unfold mqttPing
  split
  · split
    · obtain ⟨hok, hquiet⟩ := sendPacket_quiet hnow pingPacket
      dsimp only
      rw [hok, if_pos rfl]
      exact ⟨rfl, hquiet⟩
    · exact ⟨rfl, hnow⟩
  · exact ⟨rfl, h⟩

/-- A call that comes to what it reads. -/
def Dispatched (setup : Setup) (s : Session) (out : Outgoing) : Prop :=
  mqttDoing setup s =
    ((dispatch setup ⟨out, s.rx⟩).1,
      if (dispatch setup ⟨out, s.rx⟩).2.result = .again then .ok
        else (dispatch setup ⟨out, s.rx⟩).2.result,
      (dispatch setup ⟨out, s.rx⟩).2.done)

theorem Dispatched.go {s : Session} {out : Outgoing} (h : Dispatched setup s out)
    (hgoes : (dispatch setup ⟨out, s.rx⟩).2.goesOn) :
    mqttDoing setup s = ((dispatch setup ⟨out, s.rx⟩).1, .ok, false) := by
  obtain ⟨hdone, hok | hagain⟩ := hgoes
  · rw [h, hdone, hok, if_neg (by decide)]
  · rw [h, hdone, hagain, if_pos rfl]

/-- A state that is not handled ends the transfer. -/
theorem Dispatched.coming {s : Session} {out : Outgoing} (h : Dispatched setup s out)
    (hstate : s.rx.state = .subackComing) : mqttDoing setup s = (⟨out, s.rx⟩, .ok, true) := by
  have hdispatch : dispatch setup ⟨out, s.rx⟩ = (⟨out, s.rx⟩, ⟨.ok, true, false, false⟩) := by
    rw [dispatch, hstate]
  rw [Dispatched, hdispatch] at h
  exact h

/-- A call with nothing to send. -/
theorem mqttDoing_quiet {s : Session} (h : Quiet s.out) :
    ∃ out, Quiet out ∧ Dispatched setup s out := by
  obtain ⟨hok, hquiet⟩ := @mqttPing_quiet setup s.out s.rx.state h
  have hrest : sendRemainder s.out = (s.out, .ok) := by
    rw [sendRemainder, if_neg (by simp [h.2])]
  refine ⟨(mqttPing setup s.rx.state s.out).1, hquiet, ?_⟩
  rw [Dispatched, mqttDoing, hrest]
  dsimp only
  generalize mqttPing setup s.rx.state s.out = p at hok
  obtain ⟨out, result⟩ := p
  cases hok
  rfl

/-- What can be seen of a transfer. -/
def observe (p : Session × Curlcode × Bool) : Observed :=
  ⟨p.2.1, p.2.2, packetsIn p.1.rx.log, p.1.rx.body⟩

/-- The transfer has failed or is done. -/
def Finished (p : Session × Curlcode × Bool) : Prop := p.2.1 ≠ .ok ∨ p.2.2 = true

variable (setup) in
/-- In each of so many calls, the body of a SUBACK packet arrives at once. -/
def Uncut : Nat → Session → Prop
  | 0, _ => True
  | n + 1, s =>
    (AwaitsSuback s.rx → Whole s.rx) ∧
      match mqttDoing setup s with
      | (s, .ok, false) => Uncut n s
      | _ => True

theorem doingLoop_subackComing {s : Session} (hstate : s.rx.state = .subackComing)
    (hq : Quiet s.out) : Finished (doingLoop setup (n + 1) s) ∧
      observe (doingLoop setup (n + 1) s) = ⟨.ok, true, packetsIn s.rx.log, s.rx.body⟩ ∧
      Uncut setup (n + 1) s := by
  obtain ⟨out, -, hdoing⟩ := @mqttDoing_quiet setup s hq
  have hdone := hdoing.coming hstate
  rw [doingLoop, hdone, Uncut, hdone]
  refine ⟨.inr rfl, rfl, ?_, trivial⟩
  rintro ⟨hawaits | hawaits, -⟩ <;> rw [hstate] at hawaits <;> cases hawaits

theorem doingLoop_go {s s' : Session} (h : mqttDoing setup s = (s', .ok, false)) :
    doingLoop setup (n + 1) s = doingLoop setup n s' := by
  rw [doingLoop, h]

theorem doingLoop_stop {s s' : Session} {result : Curlcode} {done : Bool}
    (h : mqttDoing setup s = (s', result, done)) (hend : result = .ok → done = true) :
    doingLoop setup (n + 1) s = (s', result, done) := by
  rw [doingLoop, h]
  split
  · rename_i heq
    cases heq
    cases hend rfl
  · rename_i heq
    rw [heq]

theorem uncut_go {s s' : Session} (h : mqttDoing setup s = (s', .ok, false)) :
    Uncut setup (n + 1) s ↔ (AwaitsSuback s.rx → Whole s.rx) ∧ Uncut setup n s' := by
  rw [Uncut, h]

theorem uncut_stop {s s' : Session} {result : Curlcode} {done : Bool}
    (h : mqttDoing setup s = (s', result, done)) (hend : result = .ok → done = true) :
    Uncut setup (n + 1) s ↔ (AwaitsSuback s.rx → Whole s.rx) := by
  rw [Uncut, h]
  split
  · rename_i heq
    cases heq
    cases hend rfl
  · exact and_iff_left trivial

theorem dispatch_packet {s : Session} (hstate : s.rx.state = .suback ∨ s.rx.state = .pubwait) :
    dispatch setup s = (⟨s.out.answered (readPacket setup s.rx).2, (readPacket setup s.rx).1⟩,
      (readPacket setup s.rx).2) := by
  rcases hstate with hstate | hstate <;> rw [dispatch, hstate]

/-- A body of which a part arrives is all that is left of the stream, or it was cut. -/
theorem whole_iff_of_cut (hcut : Cut rx) :
    Whole rx ↔ rx.stream ≠ [] ∧ rx.stream.length < subackLen := by
  unfold Cut at hcut
  unfold Whole
  rcases hrecvs : rx.recvs with _ | ⟨_ | k, recvs⟩
  · rw [hrecvs] at hcut
    exact ⟨fun _ => hcut, fun _ => trivial⟩
  · exact Iff.rfl
  · rw [hrecvs] at hcut
    dsimp only at hcut ⊢
    constructor
    · intro h
      exact ⟨hcut.1, by omega⟩
    · exact fun h => .inl h.2

theorem not_whole (h : ¬Whole rx) : ¬(rx.stream ≠ [] ∧ rx.stream.length < subackLen) := by
  intro hshort
  refine h ?_
  unfold Whole
  rcases rx.recvs with _ | ⟨_ | k, recvs⟩
  · trivial
  · exact hshort
  · exact .inl hshort.2

/-- From any state between two calls, enough of them come to an end, and what is seen there is what
the reader of single bytes makes of the stream if and only if no body of a SUBACK packet was cut. -/
theorem doingLoop_outcome {s : Session} (hsteady : Steady s.rx) (hq : Quiet s.out)
    (hn : s.rx.left < n) :
    Finished (doingLoop setup n s) ∧
      (observe (doingLoop setup n s) = (s.rx.reader setup).outcome setup s.rx.stream ↔
        Uncut setup n s) := by
  induction n generalizing s with
  | zero => omega
  | succ n ih =>
    obtain ⟨out, hquiet, hdoing⟩ := @mqttDoing_quiet setup s hq
    obtain ⟨hcall, hquiet'⟩ := @dispatch_call setup ⟨out, s.rx⟩ hsteady hquiet
    by_cases htorn : AwaitsSuback s.rx ∧ ¬Whole s.rx
    · -- the next call does not handle the state that this one leaves
      obtain ⟨hawaits, htorn⟩ := htorn
      obtain ⟨hphase, -⟩ := @phase_of_awaitsSuback setup s.rx hsteady hawaits
      obtain ⟨used, hanswer, hstate, hlog, hbody, hrecvs⟩ :=
        @readPacket_torn setup s.rx hsteady hawaits htorn
      have hdispatch := @dispatch_packet setup ⟨out, s.rx⟩ hawaits.1
      rw [Dispatched, hdispatch, hanswer] at hdoing
      have hgo : mqttDoing setup s =
          (⟨out.answered (.just .again), (readPacket setup s.rx).1⟩, .ok, false) := hdoing
      have hleft : 0 < s.rx.left := Nat.lt_of_lt_of_le hrecvs (Nat.le_add_right _ _)
      obtain ⟨n, rfl⟩ := Nat.exists_eq_succ_of_ne_zero (show n ≠ 0 by omega)
      obtain ⟨hfinished, hobserve, -⟩ := @doingLoop_subackComing setup n
        ⟨out.answered (.just .again), (readPacket setup s.rx).1⟩ hstate (hquiet.answered _)
      rw [doingLoop_go hgo, uncut_go hgo]
      refine ⟨hfinished, ?_⟩
      rw [hobserve, hlog, hbody, packetsIn_suback]
      have hne := (@outcome_suback_iff setup (s.rx.reader setup) hphase s.rx.stream).not.mpr
        (not_whole htorn)
      exact ⟨fun h => absurd h.symm hne, fun h => absurd (h.1 hawaits) htorn⟩
    · have hwhole : AwaitsSuback s.rx → Whole s.rx := fun h => not_not.mp fun hn => htorn ⟨h, hn⟩
      cases hcall with
      | go used hstream hreader hsteady' hshrinks hgoes =>
        have hlt := hshrinks.1
        obtain ⟨hfinished, hiff⟩ := ih hsteady' hquiet' (by
          change (dispatch setup ⟨out, s.rx⟩).1.rx.left < s.rx.left at hlt
          omega)
        rw [doingLoop_go (hdoing.go hgoes), uncut_go (hdoing.go hgoes),
          and_iff_right hwhole, ← hiff]
        refine ⟨hfinished, ?_⟩
        rw [hreader, show s.rx.stream = used ++ _ from hstream, Reader.outcome_append]
      | cut used hstream hlen hphase hstate hcut hlog hbody hid hshrinks hgoes =>
        have hlt : (dispatch setup ⟨out, s.rx⟩).1.rx.left < s.rx.left := hshrinks.1
        obtain ⟨n, rfl⟩ := Nat.exists_eq_succ_of_ne_zero (show n ≠ 0 by omega)
        obtain ⟨hfinished, hobserve, huncut⟩ := @doingLoop_subackComing setup n _ hstate hquiet'
        have hawaits := awaitsSuback_of_phase hsteady hphase
        have hshort := (whole_iff_of_cut hcut).mp (hwhole hawaits)
        have hsame := (@outcome_suback_iff setup (s.rx.reader setup) hphase s.rx.stream).mpr hshort
        rw [doingLoop_go (hdoing.go hgoes), uncut_go (hdoing.go hgoes)]
        refine ⟨hfinished, ?_⟩
        rw [hobserve, hlog, hbody, packetsIn_suback, hsame]
        exact ⟨fun _ => ⟨hwhole, huncut⟩, fun _ => rfl⟩
      | stop used result done hstream hlog hbody hend hends =>
        obtain ⟨hresult, hdone, hagain, hok⟩ := hends
        have hstop : mqttDoing setup s = ((dispatch setup ⟨out, s.rx⟩).1, result, done) := by
          rw [hdoing, hresult, hdone, if_neg hagain]
        rw [doingLoop_stop hstop hok, uncut_stop hstop hok]
        have hseen : observe ((dispatch setup ⟨out, s.rx⟩).1, result, done) =
            (s.rx.reader setup).outcome setup s.rx.stream := by
          have hstream' : s.rx.stream = used ++ _ := hstream
          rw [hstream', Reader.outcome_append, observe, hlog, hbody]
          rcases hend with hended | ⟨hnil, hended⟩
          · rw [outcome_ended hended]
            rfl
          · rw [hnil, Reader.outcome, List.foldl_nil, Reader.observed, hended]
            rfl
        refine ⟨?_, fun _ => hwhole, fun _ => hseen⟩
        by_cases hres : result = .ok
        · exact .inr (hok hres)
        · exact .inl hres

/-- A connection that gives all bytes that it is asked for cuts nothing. -/
theorem uncut_of_full {s : Session} (hsteady : Steady s.rx) (hq : Quiet s.out)
    (hrecvs : s.rx.recvs = []) : Uncut setup n s := by
  induction n generalizing s with
  | zero => trivial
  | succ n ih =>
    have hwhole : AwaitsSuback s.rx → Whole s.rx := by
      intro _
      rw [Whole, hrecvs]
      trivial
    obtain ⟨out, hquiet, hdoing⟩ := @mqttDoing_quiet setup s hq
    obtain ⟨hcall, hquiet'⟩ := @dispatch_call setup ⟨out, s.rx⟩ hsteady hquiet
    cases hcall with
    | go used hstream hreader hsteady' hshrinks hgoes =>
      have hsuffix : (dispatch setup ⟨out, s.rx⟩).1.rx.recvs <:+ s.rx.recvs := hshrinks.2
      rw [hrecvs] at hsuffix
      rw [uncut_go (hdoing.go hgoes)]
      exact ⟨hwhole, ih hsteady' hquiet' (List.suffix_nil.mp hsuffix)⟩
    | cut used hstream hlen hphase hstate hcut hlog hbody hid hshrinks hgoes =>
      rw [uncut_go (hdoing.go hgoes)]
      refine ⟨hwhole, ?_⟩
      cases n with
      | zero => trivial
      | succ n => exact (@doingLoop_subackComing setup n _ hstate hquiet').2.2
    | stop used result done hstream hlog hbody hend hends =>
      obtain ⟨hresult, hdone, hagain, hok⟩ := hends
      have hstop : mqttDoing setup s = ((dispatch setup ⟨out, s.rx⟩).1, result, done) := by
        rw [hdoing, hresult, hdone, if_neg hagain]
      rw [uncut_stop hstop hok]
      exact hwhole

variable (setup) in
/-- `mqtt_do`, and `mqtt_doing` until it fails or is done. -/
def mqttComplete (s : Session) : Session × Curlcode × Bool := mqttRun setup (s.rx.left + 1) s

variable (setup) in
/-- In each call of a transfer, the body of a SUBACK packet arrives at once. -/
def NeverCut (s : Session) : Prop :=
  match mqttDo setup s with
  | (s, .ok) => Uncut setup (s.rx.left + 1) s
  | _ => True

theorem connectPacket_error {e : Curlcode} (h : connectPacket setup = .error e) :
    e = .weirdServerReply := by
  unfold connectPacket at h
  dsimp only at h
  split_ifs at h
  all_goals
    cases h
    rfl

/-- What `mqtt_do` leaves for a connection that takes what it is given. -/
theorem mqttDo_start (clock : List Nat) (stream : Bytes) (recvs : List (Option Nat)) :
    (connectPacket setup = .error .weirdServerReply ∧
        (mqttDo setup (setupConn [] clock stream recvs)).2 = .weirdServerReply ∧
        (mqttDo setup (setupConn [] clock stream recvs)).1.rx =
          (setupConn [] clock stream recvs).rx) ∨
      (∃ packet, connectPacket setup = .ok packet) ∧
        ∃ out, Quiet out ∧ mqttDo setup (setupConn [] clock stream recvs) =
          (⟨out, (setupConn [] clock stream recvs).rx.mqstate .first .connack⟩, .ok) := by
  unfold mqttDo
  dsimp only
  cases hpacket : connectPacket setup with
  | error e =>
    rw [connectPacket_error hpacket]
    exact .inl ⟨rfl, rfl, rfl⟩
  | ok packet =>
    right
    have hstart : Quiet ((setupConn [] clock stream recvs).out.touch.setPingsent false) :=
      ⟨rfl, rfl⟩
    obtain ⟨hok, hquiet⟩ := sendPacket_quiet hstart packet
    dsimp only
    generalize sendPacket ((setupConn [] clock stream recvs).out.touch.setPingsent false) packet =
      p at hok hquiet
    obtain ⟨out, result⟩ := p
    cases hok
    exact ⟨⟨packet, rfl⟩, out, hquiet, rfl⟩

theorem start_steady (clock : List Nat) (stream : Bytes) (recvs : List (Option Nat)) :
    Steady ((setupConn [] clock stream recvs).rx.mqstate .first .connack) := by
  refine ⟨fun h => (nomatch h), ?_, fun h => absurd rfl h, fun h => (nomatch h),
    fun h => (nomatch h), fun h => h.elim (fun h => (nomatch h)) fun h => (nomatch h)⟩
  change MqttState.connack ∈ _
  decide

/-- A transfer comes to an end, and it does so as it does with a connection that gives all bytes it
is asked for if and only if no body of a SUBACK packet is cut. -/
theorem received_alike_iff (setup : Setup) (clock clock' : List Nat) (stream : Bytes)
    (recvs : List (Option Nat)) :
    Finished (mqttComplete setup (setupConn [] clock stream recvs)) ∧
      (observe (mqttComplete setup (setupConn [] clock stream recvs)) =
          observe (mqttComplete setup (setupConn [] clock' stream [])) ↔
        NeverCut setup (setupConn [] clock stream recvs)) := by
  unfold mqttComplete mqttRun NeverCut
  rcases @mqttDo_start setup clock stream recvs with ⟨hpacket, hresult, hrx⟩ |
    ⟨⟨packet, hpacket⟩, out, hquiet, hdo⟩
  · rcases @mqttDo_start setup clock' stream [] with ⟨-, hresult', hrx'⟩ | ⟨⟨packet, hok⟩, -⟩
    · generalize mqttDo setup (setupConn [] clock stream recvs) = p at hresult hrx
      generalize mqttDo setup (setupConn [] clock' stream []) = p' at hresult' hrx'
      obtain ⟨s, result⟩ := p
      obtain ⟨s', result'⟩ := p'
      cases hresult
      cases hresult'
      refine ⟨.inl (show Curlcode.weirdServerReply ≠ .ok by decide), fun _ => trivial, fun _ => ?_⟩
      have hs : s.rx = (setupConn [] clock stream recvs).rx := hrx
      have hs' : s'.rx = (setupConn [] clock' stream []).rx := hrx'
      rw [observe, observe, hs, hs']
      rfl
    · rw [hpacket] at hok
      cases hok
  · rcases @mqttDo_start setup clock' stream [] with ⟨herror, -⟩ | ⟨-, out', hquiet', hdo'⟩
    · rw [hpacket] at herror
      cases herror
    · rw [hdo, hdo']
      dsimp only
      have hsteady := start_steady clock stream recvs
      have hsteady' := start_steady clock' stream []
      obtain ⟨hfinished, hiff⟩ := @doingLoop_outcome setup _
        ⟨out, (setupConn [] clock stream recvs).rx.mqstate .first .connack⟩ hsteady hquiet
        (Nat.lt_succ_self _)
      obtain ⟨-, hiff'⟩ := @doingLoop_outcome setup _
        ⟨out', (setupConn [] clock' stream []).rx.mqstate .first .connack⟩ hsteady' hquiet'
        (Nat.lt_succ_self _)
      have hwhole := hiff'.mpr (uncut_of_full hsteady' hquiet' rfl)
      refine ⟨hfinished, ?_⟩
      refine Iff.trans ?_ hiff
      rw [show observe (doingLoop setup ((setupConn [] clock' stream []).rx.left + 1) _) =
        _ from hwhole]
      exact Iff.rfl

/-- A subscription. -/
def subscribeSetup : Setup where
  user := []
  passwd := []
  random := [0x30, 0x31, 0x32, 0x33, 0x34, 0x35, 0x36, 0x37]
  topic := some [0x74]
  post := false
  postfields := none
  maxFilesize := 0
  upkeepIntervalMs := 0

/-- A SUBACK packet of which one byte of the body comes first: the message behind it is not read. -/
theorem suback_in_pieces :
    observe (mqttComplete subscribeSetup
        (setupConn [] [] [0x20, 2, 0, 0, 0x90, 3, 0, 1, 0, 0x30, 3, 0, 0, 0x68, 0xe0, 0]
          [some 0, some 0, some 1, some 0, some 0, some 0])) ≠
      observe (mqttComplete subscribeSetup
        (setupConn [] [] [0x20, 2, 0, 0, 0x90, 3, 0, 1, 0, 0x30, 3, 0, 0, 0x68, 0xe0, 0] [])) := by
  decide +kernel

end Gurl.Mqtt
