import Gurl.Mqtt.Header

/-! The calls of `mqtt_doing` that read the body of a packet. -/

namespace Gurl.Mqtt

variable {setup : Setup} {rx rx' : Incoming} {answer : Answer} {role : Role} {n : Nat}

/-- Some bytes of a body are received. -/
structure Received (rx rx₁ : Incoming) (role : Role) (n : Nat) (bytes : Bytes) : Prop where
  recv : rx.recv role (n - rx.recvbuf.length) = (rx₁, some bytes)
  ne : bytes ≠ []
  le : rx.recvbuf.length + bytes.length ≤ n
  stream : rx.stream = bytes ++ rx₁.stream
  log : rx₁.log = rx.log ++ bytes.map (role, ·)
  left : Shrinks rx rx₁
  take : ∃ m, rx₁ = rx.take role m

/-- What `mqtt_recv_atleast` can do for a body of which less is there. -/
theorem recvAtleast_cases (hlt : rx.recvbuf.length < n) :
    (recvAtleast rx role n = (rx.skipRecv, .again) ∧ ∃ recvs, rx.recvs = none :: recvs) ∨
      (rx.stream = [] ∧ ∃ m, recvAtleast rx role n = (rx.take role m, .recvError)) ∨
      ∃ rx₁ bytes, Received rx rx₁ role n bytes ∧
        recvAtleast rx role n = (rx₁.setRecvbuf (rx.recvbuf ++ bytes),
          if rx.recvbuf.length + bytes.length = n then .ok else .again) := by
  unfold recvAtleast
  rw [if_pos hlt]
  rcases recv_cases rx role (n - rx.recvbuf.length) with ⟨hrecv, hrecvs⟩ | ⟨m, hrecv, hle, hpos, -⟩
  · rw [hrecv]
    exact .inl ⟨rfl, hrecvs⟩
  · rw [hrecv]
    dsimp only
    by_cases hnil : rx.stream.take m = []
    · have hstream : rx.stream = [] := by
        rcases List.take_eq_nil_iff.mp hnil with hzero | hstream
        · omega
        · exact hstream
      rw [if_pos hnil]
      exact .inr (.inl ⟨hstream, m, rfl⟩)
    · rw [if_neg hnil]
      have hne : rx.stream ≠ [] := fun h => hnil (by rw [h, List.take_nil])
      have hlen : (rx.stream.take m).length ≤ m := List.length_take_le ..
      have hreceived : Received rx (rx.take role m) role n (rx.stream.take m) :=
        ⟨hrecv, hnil, by omega, (List.take_append_drop ..).symm, rfl,
          take_left_lt (by omega) hne, m, rfl⟩
      refine .inr (.inr ⟨rx.take role m, rx.stream.take m, hreceived, ?_⟩)
      have hge : ((rx.take role m).recvbuf ++ rx.stream.take m).length ≥ n ↔
          rx.recvbuf.length + (rx.stream.take m).length = n := by
        rw [List.length_append]
        change rx.recvbuf.length + _ ≥ n ↔ _
        omega
      rw [if_congr hge rfl rfl]
      rfl

/-- What the check of a body can do. -/
theorem verifyBody_cases {expected : Bytes} (hlen : rx.remainingLength = expected.length)
    (hlt : rx.recvbuf.length < expected.length) :
    (verifyBody rx role expected = (rx.skipRecv, .again) ∧ ∃ recvs, rx.recvs = none :: recvs) ∨
      (rx.stream = [] ∧ ∃ m, verifyBody rx role expected = (rx.take role m, .recvError)) ∨
      ∃ rx₁ bytes, Received rx rx₁ role expected.length bytes ∧
        (rx.recvbuf.length + bytes.length < expected.length ∧
            verifyBody rx role expected = (rx₁.setRecvbuf (rx.recvbuf ++ bytes), .again) ∨
          rx.recvbuf.length + bytes.length = expected.length ∧
            verifyBody rx role expected = (rx₁.setRecvbuf [],
              if rx.recvbuf ++ bytes ≠ expected then .weirdServerReply else .ok)) := by
  unfold verifyBody
  rw [if_neg (not_not_intro hlen)]
  rcases @recvAtleast_cases rx role _ hlt with ⟨hrecv, hrecvs⟩ | ⟨hstream, m, hrecv⟩ |
    ⟨rx₁, bytes, hreceived, hrecv⟩
  · rw [hrecv]
    exact .inl ⟨rfl, hrecvs⟩
  · rw [hrecv]
    exact .inr (.inl ⟨hstream, m, rfl⟩)
  · rw [hrecv]
    refine .inr (.inr ⟨rx₁, bytes, hreceived, ?_⟩)
    by_cases hfull : rx.recvbuf.length + bytes.length = expected.length
    · right
      refine ⟨hfull, ?_⟩
      have htake : (rx.recvbuf ++ bytes).take expected.length = rx.recvbuf ++ bytes := by
        rw [← hfull, ← List.length_append, List.take_length]
      have hdrop : (rx.recvbuf ++ bytes).drop expected.length = [] := by
        rw [← hfull, ← List.length_append, List.drop_length]
      rw [if_pos hfull]
      dsimp only [Incoming.setRecvbuf, Incoming.recvConsume]
      rw [htake, hdrop]
      by_cases heq : rx.recvbuf ++ bytes ≠ expected
      · rw [if_pos heq, if_pos heq]
      · rw [if_neg heq, if_neg heq]
    · left
      have hle := hreceived.le
      rw [if_neg hfull]
      exact ⟨by omega, rfl⟩

/-- Bytes of the body of a SUBACK packet that are not all of it. -/
theorem Received.cut {rx₁ : Incoming} {bytes : Bytes} (h : Received rx rx₁ role subackLen bytes)
    (hrecvbuf : rx.recvbuf = []) (hshort : bytes.length < subackLen) : Cut rx := by
  have hrecv := h.recv
  have hne : rx.stream ≠ [] := by
    rw [h.stream]
    simp [h.ne]
  rw [hrecvbuf, List.length_nil, Nat.sub_zero] at hrecv
  unfold Cut
  unfold Incoming.recv at hrecv
  rcases hrecvs : rx.recvs with _ | ⟨_ | k, recvs⟩ <;> rw [hrecvs] at hrecv
  · simp only [Prod.mk.injEq, Option.some.injEq] at hrecv
    rw [← hrecv.2, List.length_take] at hshort
    exact ⟨hne, by omega⟩
  · trivial
  · simp only [Prod.mk.injEq, Option.some.injEq] at hrecv
    rw [← hrecv.2, List.length_take] at hshort
    exact ⟨hne, by omega⟩

/-- Nothing is pending and the connection takes what it is given. -/
def Quiet (out : Outgoing) : Prop := out.sends = [] ∧ out.sendbuf.content = []

variable {out : Outgoing}

theorem sendPacket_quiet (h : Quiet out) (packet : Bytes) :
    (sendPacket out packet).2 = .ok ∧ Quiet (sendPacket out packet).1 := by
  obtain ⟨hsends, hcontent⟩ := h
  have htaken : out.taken packet = packet.length := by
    rw [Outgoing.taken, hsends]
  have hkeep : keepRest out.sendbuf packet (out.taken packet) = (out.sendbuf.reset, .ok) := by
    rw [htaken, keepRest, if_neg (not_not_intro rfl)]
  refine ⟨congrArg Prod.snd hkeep, ?_, ?_⟩
  · change out.sends.tail = []
    rw [hsends]
    rfl
  · change (keepRest out.sendbuf packet (out.taken packet)).1.content = []
    rw [hkeep]
    exact Dynbuf.content_reset _

theorem mqttPublish_quiet (h : Quiet out) :
    Quiet (mqttPublish setup out).1 ∧ ∀ {packet}, publishPacket setup = .ok packet →
      (mqttPublish setup out).2 = .ok := by
  unfold mqttPublish
  split
  · rename_i e heq
    exact ⟨h, fun hok => by cases heq.symm.trans hok⟩
  · exact ⟨(sendPacket_quiet h _).2, fun _ => (sendPacket_quiet h _).1⟩

/-- What follows a CONNACK packet that is accepted. -/
theorem connected_cases (hq : Quiet out) (hrecvbuf : rx.recvbuf = []) :
    Quiet (connected setup out rx).1.out ∧
      (connected setup out rx).1.rx.stream = rx.stream ∧
      (connected setup out rx).1.rx.recvs = rx.recvs ∧
      (connected setup out rx).1.rx.log = rx.log ∧ (connected setup out rx).1.rx.body = rx.body ∧
      ((connected setup out rx).2.goesOn ∧ Steady (connected setup out rx).1.rx ∧
          (connected setup out rx).1.rx.phase setup = afterConnack setup ∧
          (connected setup out rx).1.rx.packetid =
            (if !setup.post ∧ (getTopic setup).isOk then rx.packetid + 1 else rx.packetid) ∨
        ∃ result done, (connected setup out rx).2.ends result done ∧
          afterConnack setup = .ended result done) := by
  unfold connected afterConnack
  by_cases hpost : setup.post = true
  · rw [if_pos hpost, if_pos hpost]
    cases hpacket : publishPacket setup with
    | error e =>
      obtain ⟨hok, hagain⟩ := publishPacket_error hpacket
      have hpublish : mqttPublish setup out = (out, e) := by
        rw [mqttPublish, hpacket]
      rw [hpublish]
      cases e with
      | ok => exact absurd rfl hok
      | _ =>
        exact ⟨hq, rfl, rfl, rfl, rfl, .inr ⟨_, _, ⟨rfl, rfl, hagain, fun h => absurd h hok⟩, rfl⟩⟩
    | ok packet =>
      have hpublish := @mqttPublish_quiet setup out hq
      obtain ⟨hquiet, hresult⟩ := hpublish
      have hresult := hresult hpacket
      generalize mqttPublish setup out = p at hquiet hresult
      obtain ⟨out₁, result⟩ := p
      cases hresult
      obtain ⟨hsent, hquiet'⟩ := sendPacket_quiet hquiet disconnectPacket
      refine ⟨hquiet', rfl, rfl, rfl, rfl,
        .inr ⟨.ok, true, ⟨hsent, rfl, by decide, fun _ => rfl⟩, rfl⟩⟩
  · rw [if_neg hpost, if_neg hpost]
    cases htopic : getTopic setup with
    | error e =>
      have hcode := getTopic_error htopic
      subst hcode
      have hsubscribe : ∀ packetid, mqttSubscribe setup packetid out = (out, .urlMalformat) := by
        intro packetid
        rw [mqttSubscribe, htopic]
      simp only [hsubscribe]
      exact ⟨hq, rfl, rfl, rfl, rfl, .inr ⟨.urlMalformat, false,
        ⟨rfl, rfl, by decide, fun h => (nomatch h)⟩, rfl⟩⟩
    | ok topic =>
      have hsubscribe : ∀ packetid, mqttSubscribe setup packetid out =
          sendPacket out (subscribePacket packetid topic) := by
        intro packetid
        rw [mqttSubscribe, htopic]
      simp only [hsubscribe, Except.isOk, Except.toBool, if_true]
      obtain ⟨hsent, hquiet⟩ := sendPacket_quiet hq (subscribePacket (rx.packetid + 1) topic)
      generalize sendPacket out (subscribePacket (rx.packetid + 1) topic) = p at hsent hquiet
      obtain ⟨out₁, result⟩ := p
      cases hsent
      refine ⟨hquiet, rfl, rfl, rfl, rfl, .inl ⟨⟨rfl, .inl rfl⟩, ?_, rfl, ?_⟩⟩
      · refine ⟨fun h => (nomatch h), ?_, fun h => absurd hrecvbuf h, fun h => (nomatch h),
          fun h => (nomatch h), fun h => h.elim (fun h => (nomatch h)) fun h => (nomatch h)⟩
        change MqttState.suback ∈ _
        decide
      · simp [hpost, Incoming.setPacketid, Incoming.mqstate]

theorem Received.fields {rx₁ : Incoming} {bytes : Bytes} (h : Received rx rx₁ role n bytes) :
    rx₁.state = rx.state ∧ rx₁.nextstate = rx.nextstate ∧ rx₁.packetid = rx.packetid ∧
      rx₁.firstbyte = rx.firstbyte ∧ rx₁.remainingLength = rx.remainingLength ∧
      rx₁.body = rx.body := by
  obtain ⟨m, rfl⟩ := h.take
  exact ⟨rfl, rfl, rfl, rfl, rfl, rfl⟩

theorem doConnack_call (hsteady : Steady rx) (hstate : rx.state = .connack) (hq : Quiet out) :
    Call setup rx (doConnack setup out rx).1.rx (doConnack setup out rx).2 ∧
      Quiet (doConnack setup out rx).1.out := by
  unfold doConnack verifyConnack
  by_cases hlen : rx.remainingLength = connackLen
  · have hphase : rx.phase setup = .connack rx.recvbuf := by
      rw [Incoming.phase, hstate]
      simp [enter, hlen]
    have hlt : rx.recvbuf.length < connackLen := by
      by_cases hnil : rx.recvbuf = []
      · rw [hnil]
        decide
      · exact (hsteady.recvbuf hnil).2
    rcases @verifyBody_cases rx .connack [0, 0] hlen hlt with ⟨hverify, recvs, hrecvs⟩ |
      ⟨hstream, m, hverify⟩ | ⟨rx₁, bytes, hreceived, ⟨hpart, hverify⟩ | ⟨hfull, hverify⟩⟩
    · rw [hverify]
      exact ⟨.skipped hsteady hrecvs, hq⟩
    · rw [hverify]
      exact ⟨.closed .recvError false hstream .connack m (by rw [hphase]; rfl)
        ⟨rfl, rfl, by decide, by rintro ⟨⟩⟩, hq⟩
    · -- one of the two bytes
      rw [hverify]
      obtain ⟨hs, hn, hid, hfb, hrl, hbody⟩ := hreceived.fields
      have hpart' : rx.recvbuf.length + bytes.length < connackLen := hpart
      refine ⟨.go bytes hreceived.stream ?_ ?_ hreceived.left ⟨rfl, .inr rfl⟩, hq⟩
      · have hfold := @foldl_connack setup (rx.reader setup) _ _ hphase hpart'
        have hphase₁ : (rx₁.setRecvbuf (rx.recvbuf ++ bytes)).phase setup =
            .connack (rx.recvbuf ++ bytes) := by
          rw [Incoming.phase, show (rx₁.setRecvbuf (rx.recvbuf ++ bytes)).state = .connack from
            hs.trans hstate]
          simp [enter, Incoming.setRecvbuf, hrl, hlen]
        rw [hfold, Incoming.reader, hphase₁]
        change Reader.mk _ rx₁.packetid rx₁.log rx₁.body = _
        rw [hid, hreceived.log, hbody]
        rfl
      · refine ⟨?_, ?_, fun _ => ⟨hs.trans hstate, ?_⟩, ?_, ?_, ?_⟩
        · change rx₁.state ≠ _
          rw [hs]
          exact hsteady.state
        · change rx₁.nextstate ∈ _
          rw [hn]
          exact hsteady.next
        · change (rx.recvbuf ++ bytes).length < connackLen
          rw [List.length_append]
          exact hpart'
        · intro h
          cases (hs.trans hstate).symm.trans h
        · intro h
          cases (hs.trans hstate).symm.trans h
        · rintro (h | h) <;> cases (hs.trans hstate).symm.trans h
    · rw [hverify]
      obtain ⟨hs, hn, hid, hfb, hrl, hbody⟩ := hreceived.fields
      have hfold := @foldl_connack_full setup (rx.reader setup) _ _ hphase hreceived.ne hfull
      by_cases heq : rx.recvbuf ++ bytes ≠ [0, 0]
      · simp only [if_pos heq]
        refine ⟨.stop bytes .weirdServerReply false hreceived.stream ?_ ?_ (.inl ?_)
          ⟨rfl, rfl, by decide, by rintro ⟨⟩⟩, hq⟩
        · rw [hfold]
          exact hreceived.log
        · rw [hfold]
          exact hbody
        · rw [hfold, if_pos heq]
      · simp only [if_neg heq]
        rw [ne_eq, not_not] at heq
        simp only [heq, ne_eq, not_true_eq_false, if_false, true_and] at hfold
        obtain ⟨hquiet, hstr, hrecvs, hlog, hbody', hcases⟩ :=
          @connected_cases setup (rx₁.setRecvbuf []) out hq rfl
        refine ⟨?_, hquiet⟩
        have hstr' : rx.stream =
          bytes ++ (connected setup out (rx₁.setRecvbuf [])).1.rx.stream := by
          rw [hstr]
          exact hreceived.stream
        have hlog' : (connected setup out (rx₁.setRecvbuf [])).1.rx.log =
            rx.log ++ bytes.map (.connack, ·) := by
          rw [hlog]
          exact hreceived.log
        have hbody'' : (connected setup out (rx₁.setRecvbuf [])).1.rx.body = rx.body := by
          rw [hbody']
          exact hbody
        rcases hcases with ⟨hgoes, hsteady', hphase', hid'⟩ | ⟨result, done, hends, hended⟩
        · refine .go bytes hstr' ?_ hsteady' ?_ hgoes
          · rw [hfold, Incoming.reader, hphase', hlog', hbody'', hid']
            change Reader.mk _ (if _ then rx₁.packetid + 1 else rx₁.packetid) _ _ = _
            rw [hid]
            rfl
          · rw [Shrinks, Incoming.left, hstr, hrecvs]
            exact hreceived.left
        · refine .stop bytes result done hstr' ?_ ?_ (.inl ?_) hends
          · rw [hfold]
            exact hlog'
          · rw [hfold]
            exact hbody''
          · rw [hfold]
            exact hended
  · have hphase : rx.phase setup = .ended .weirdServerReply false := by
      rw [Incoming.phase, hstate]
      simp [enter, hlen]
    have hverify : verifyBody rx .connack [0, 0] = (rx, .weirdServerReply) := by
      rw [verifyBody]
      exact if_pos hlen
    rw [hverify]
    exact ⟨.stop [] .weirdServerReply false rfl rfl rfl (.inl hphase)
      ⟨rfl, rfl, by decide, by rintro ⟨⟩⟩, hq⟩

/-- The phase in front of the body of a packet that `mqtt_read_publish` reads. -/
theorem phase_packet (hstate : rx.state = .suback ∨ rx.state = .pubwait) :
    rx.phase setup = enterPacket setup rx.firstbyte rx.remainingLength rx.recvbuf := by
  rcases hstate with hstate | hstate <;> rw [Incoming.phase, hstate] <;> rfl

theorem readSuback_call (hrecvbuf : rx.recvbuf = [])
    (hphase : rx.phase setup =
      if rx.remainingLength ≠ subackLen then .ended .weirdServerReply false else .suback []) :
    Call setup rx (readSuback (rx.mqstate .subackComing .nostate)).1
      (readSuback (rx.mqstate .subackComing .nostate)).2 := by
  unfold readSuback verifySuback
  have hsub : (twoBytes (rx.mqstate .subackComing .nostate).packetid ++ [0]).length = subackLen :=
    rfl
  by_cases hlen : rx.remainingLength = subackLen
  · rw [if_neg (not_not_intro hlen)] at hphase
    have hlt : (rx.mqstate .subackComing .nostate).recvbuf.length <
        (twoBytes (rx.mqstate .subackComing .nostate).packetid ++ [0]).length := by
      change rx.recvbuf.length < subackLen
      rw [hrecvbuf]
      decide
    rcases @verifyBody_cases (rx.mqstate .subackComing .nostate) .suback
        (twoBytes (rx.mqstate .subackComing .nostate).packetid ++ [0])
          (hlen.trans hsub.symm) hlt with
      ⟨hverify, recvs, hrecvs⟩ | ⟨hstream, m, hverify⟩ |
      ⟨rx₁, bytes, hreceived, ⟨hpart, hverify⟩ | ⟨hfull, hverify⟩⟩
    · rw [hverify]
      have hrecvs' : rx.recvs = none :: recvs := hrecvs
      refine .cut [] rfl (by decide) hphase rfl ?_ ?_ rfl rfl (skipRecv_left hrecvs')
        ⟨rfl, .inr rfl⟩
      · rw [Cut, hrecvs']
        trivial
      · exact (List.append_nil _).symm
    · rw [hverify]
      have hstream' : rx.stream = [] := hstream
      refine .stop [] .recvError false ?_ ?_ rfl (.inr ⟨?_, ?_⟩)
        ⟨rfl, rfl, by decide, by rintro ⟨⟩⟩
      · simp [Incoming.take, Incoming.mqstate, hstream']
      · simp [Incoming.take, Incoming.mqstate, hstream', Incoming.reader]
      · simp [Incoming.take, Incoming.mqstate, hstream']
      · change (rx.phase setup).atEnd = _
        rw [hphase]
        rfl
    · -- the rest of the body is not there
      rw [hverify]
      obtain ⟨hs, hn, hid, hfb, hrl, hbody⟩ := hreceived.fields
      have hshort : bytes.length < subackLen := by
        change rx.recvbuf.length + bytes.length < subackLen at hpart
        omega
      exact .cut bytes hreceived.stream hshort hphase hs
        (show Cut (rx.mqstate .subackComing .nostate) from hreceived.cut hrecvbuf hshort)
        hreceived.log hbody hid hreceived.left ⟨rfl, .inr rfl⟩
    · rw [hverify]
      obtain ⟨hs, hn, hid, hfb, hrl, hbody⟩ := hreceived.fields
      have hlen' : ([] : Bytes).length + bytes.length = subackLen := by
        change rx.recvbuf.length + bytes.length = subackLen at hfull
        rwa [hrecvbuf] at hfull
      have hfold := @foldl_suback_full setup (rx.reader setup) _ _ hphase hreceived.ne hlen'
      rw [List.nil_append] at hfold
      change _ = Reader.mk (if bytes ≠ twoBytes rx.packetid ++ [0] then _ else _) _ _ _ at hfold
      have hbytes : (rx.mqstate .subackComing .nostate).recvbuf ++ bytes = bytes := by
        change rx.recvbuf ++ bytes = bytes
        rw [hrecvbuf, List.nil_append]
      rw [hbytes, show (rx.mqstate .subackComing .nostate).packetid = rx.packetid from rfl]
      by_cases heq : bytes ≠ twoBytes rx.packetid ++ [0]
      · rw [if_pos heq] at hfold ⊢
        refine .stop bytes .weirdServerReply false hreceived.stream ?_ ?_ (.inl ?_)
          ⟨rfl, rfl, by decide, by rintro ⟨⟩⟩
        · rw [hfold]
          exact hreceived.log
        · rw [hfold]
          exact hbody
        · rw [hfold]
      · rw [if_neg heq] at hfold ⊢
        refine .go bytes hreceived.stream ?_ ?_ hreceived.left ⟨rfl, .inl rfl⟩
        · rw [hfold]
          change Reader.mk (.first .pubwait) rx₁.packetid rx₁.log rx₁.body = _
          rw [hid, hreceived.log, hbody]
          rfl
        · refine ⟨by rintro ⟨⟩, ?_, fun h => absurd rfl h, by rintro ⟨⟩,
            by rintro ⟨⟩, by rintro (h | h) <;> cases h⟩
          change MqttState.pubwait ∈ _
          decide
  · rw [if_pos hlen] at hphase
    have hverify : verifyBody (rx.mqstate .subackComing .nostate) .suback
        (twoBytes (rx.mqstate .subackComing .nostate).packetid ++ [0]) =
          (rx.mqstate .subackComing .nostate, .weirdServerReply) := by
      rw [verifyBody]
      exact if_pos hlen
    rw [hverify]
    exact .stop [] .weirdServerReply false rfl rfl rfl (.inl hphase)
      ⟨rfl, rfl, by decide, by rintro ⟨⟩⟩

theorem readRemain_call (hsteady : Steady rx) (hstate : rx.state = .pubRemain) :
    Call setup rx (readRemain rx).1 (readRemain rx).2 := by
  have hphase : rx.phase setup = .publish rx.npacket := by
    rw [Incoming.phase, hstate]
  have hnpos := hsteady.publish hstate
  unfold readRemain
  rcases recv_cases rx .publish (min rx.npacket 4096) with ⟨hrecv, recvs, hrecvs⟩ |
    ⟨m, hrecv, hle, hpos, -⟩
  · rw [hrecv]
    exact .skipped hsteady hrecvs
  · rw [hrecv]
    dsimp only
    have hmpos : 0 < m := hpos (by omega)
    by_cases hnil : rx.stream.take m = []
    · have hstream : rx.stream = [] := by
        rcases List.take_eq_nil_iff.mp hnil with hzero | hstream
        · omega
        · exact hstream
      rw [if_pos hnil]
      exact .closed .partialFile false hstream .publish m (by rw [hphase]; rfl)
        ⟨rfl, rfl, by decide, by rintro ⟨⟩⟩
    · rw [if_neg hnil]
      have hne : rx.stream ≠ [] := fun h => hnil (by rw [h, List.take_nil])
      have hlen : (rx.stream.take m).length ≤ rx.npacket := by
        have := List.length_take_le m rx.stream
        omega
      have hfold := @foldl_publish setup (rx.reader setup) _ hphase _ hnil hlen
      have hstr : rx.stream = rx.stream.take m ++ rx.stream.drop m :=
        (List.take_append_drop ..).symm
      have hleft := @take_left_lt rx .publish m hmpos hne
      have hbuf : rx.recvbuf = [] := by
        by_contra hne
        have hconnack := (hsteady.recvbuf hne).1
        rw [hstate] at hconnack
        cases hconnack
      have hnpacket : ((rx.take .publish m).writeBody (rx.stream.take m)).npacket =
          rx.npacket - (rx.stream.take m).length := rfl
      by_cases hzero : rx.npacket - (rx.stream.take m).length = 0
      · -- the end of the packet
        rw [hnpacket, if_pos hzero]
        refine .go (rx.stream.take m) hstr ?_ ?_ hleft ⟨rfl, .inl rfl⟩
        · rw [hfold, Reader.published, if_pos hzero]
          rfl
        · refine ⟨by rintro ⟨⟩, ?_, fun h => absurd hbuf h, by rintro ⟨⟩,
            by rintro ⟨⟩, by rintro (h | h) <;> cases h⟩
          change MqttState.pubwait ∈ _
          decide
      · rw [hnpacket, if_neg hzero]
        refine .go (rx.stream.take m) hstr ?_ ?_ hleft ⟨rfl, .inl rfl⟩
        · have hphase₁ : ((rx.take .publish m).writeBody (rx.stream.take m)).phase setup =
              .publish (rx.npacket - (rx.stream.take m).length) := by
            rw [Incoming.phase, show ((rx.take .publish m).writeBody (rx.stream.take m)).state =
              .pubRemain from hstate]
            rfl
          rw [hfold, Reader.published, if_neg hzero, Incoming.reader, hphase₁]
          rfl
        · refine ⟨hsteady.state, hsteady.next, fun h => absurd hbuf h,
            fun h => (by cases hstate.symm.trans h), fun _ => ?_,
            by rintro (h | h) <;> cases hstate.symm.trans h⟩
          change 0 < rx.npacket - (rx.stream.take m).length
          omega

theorem readPacket_call (hsteady : Steady rx) (hstate : rx.state = .suback ∨ rx.state = .pubwait) :
    Call setup rx (readPacket setup rx).1 (readPacket setup rx).2 := by
  have hrecvbuf : rx.recvbuf = [] := by
    by_contra hne
    have hconnack := (hsteady.recvbuf hne).1
    rcases hstate with hstate | hstate <;> rw [hstate] at hconnack <;> cases hconnack
  have hphase := @phase_packet setup rx hstate
  rw [hrecvbuf] at hphase
  unfold enterPacket at hphase
  unfold readPacket
  dsimp only
  by_cases hpublish : rx.firstbyte &&& 0xf0 = msgPublish
  · rw [if_pos hpublish] at hphase ⊢
    by_cases hsize : setup.maxFilesize ≠ 0 ∧ rx.remainingLength > setup.maxFilesize
    · rw [if_pos hsize] at hphase ⊢
      exact .stop [] .filesizeExceeded false rfl rfl rfl (.inl hphase)
        ⟨rfl, rfl, by decide, by rintro ⟨⟩⟩
    · rw [if_neg hsize] at hphase ⊢
      have hsteady₁ : Steady ((rx.mqstate .pubRemain .nostate).setNpacket rx.remainingLength) :=
        ⟨by rintro ⟨⟩, hsteady.next, fun h => absurd hrecvbuf h, by rintro ⟨⟩,
          fun _ => hsteady.packet hstate, by rintro (h | h) <;> cases h⟩
      have hphase₁ : ((rx.mqstate .pubRemain .nostate).setNpacket rx.remainingLength).phase setup =
          .publish rx.remainingLength := rfl
      refine @Call.after setup rx _ _
        ((rx.mqstate .pubRemain .nostate).setNpacket rx.remainingLength) []
        rfl ?_ (Keeps.refl rx) ?_ (readRemain_call hsteady₁ rfl)
      · rw [List.foldl_nil, Incoming.reader, Incoming.reader, hphase, hphase₁]
        rfl
      · rw [hphase₁]
        rintro ⟨⟩
  rw [if_neg hpublish] at hphase ⊢
  by_cases hsuback : rx.firstbyte &&& 0xf0 = msgSuback
  · rw [if_pos hsuback] at hphase ⊢
    exact readSuback_call hrecvbuf hphase
  rw [if_neg hsuback] at hphase ⊢
  by_cases hdisconnect : rx.firstbyte &&& 0xf0 = msgDisconnect
  · rw [if_pos hdisconnect] at hphase ⊢
    exact .stop [] .ok true rfl rfl rfl (.inl hphase) ⟨rfl, rfl, by decide, fun _ => rfl⟩
  · rw [if_neg hdisconnect] at hphase ⊢
    exact .stop [] .weirdServerReply false rfl rfl rfl (.inl hphase)
      ⟨rfl, rfl, by decide, by rintro ⟨⟩⟩

theorem Quiet.answered (h : Quiet out) (answer : Answer) : Quiet (out.answered answer) := by
  unfold Outgoing.answered
  dsimp only
  split_ifs <;> exact h

theorem dispatch_call {s : Session} (hsteady : Steady s.rx) (hq : Quiet s.out) :
    Call setup s.rx (dispatch setup s).1.rx (dispatch setup s).2 ∧
      Quiet (dispatch setup s).1.out := by
  unfold dispatch
  cases hstate : s.rx.state with
  | first => exact ⟨doFirst_call hsteady hstate, hq.answered _⟩
  | remainingLength => exact ⟨doRemainingLength_call hsteady hstate, hq.answered _⟩
  | connack => exact doConnack_call hsteady hstate hq
  | suback => exact ⟨readPacket_call hsteady (.inl hstate), hq.answered _⟩
  | pubwait => exact ⟨readPacket_call hsteady (.inr hstate), hq.answered _⟩
  | pubRemain => exact ⟨readRemain_call hsteady hstate, hq.answered _⟩
  | subackComing => exact absurd hstate hsteady.state
  | nostate =>
    have hphase : s.rx.phase setup = .ended .ok true := by
      rw [Incoming.phase, hstate]
      rfl
    exact ⟨.stop [] .ok true rfl rfl rfl (.inl hphase) ⟨rfl, rfl, by decide, fun _ => rfl⟩, hq⟩

end Gurl.Mqtt
