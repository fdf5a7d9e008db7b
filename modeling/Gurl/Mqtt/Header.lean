import Gurl.Mqtt.Reader

/-! What a call of `mqtt_doing` can do with the stream from the broker, against a reader of single
bytes, and the calls that read a header. -/

namespace Gurl.Mqtt

variable {setup : Setup} {rx rx' : Incoming} {answer : Answer} {role : Role} {n : Nat}

/-! ### The reader of a transfer -/

variable (setup) in
def Incoming.phase (rx : Incoming) : Phase :=
  match rx.state with
  | .first => .first rx.nextstate
  | .remainingLength => .length rx.nextstate rx.firstbyte (rx.pktHd.take rx.npacket)
  | .pubRemain => .publish rx.npacket
  | state => enter setup state rx.firstbyte rx.remainingLength rx.recvbuf

variable (setup) in
def Incoming.reader (rx : Incoming) : Reader := ⟨rx.phase setup, rx.packetid, rx.log, rx.body⟩

/-- What holds between two calls. -/
structure Steady (rx : Incoming) : Prop where
  state : rx.state ≠ .subackComing
  next : rx.nextstate ∈ [.connack, .suback, .pubwait, .first, .nostate]
  recvbuf : rx.recvbuf ≠ [] → rx.state = .connack ∧ rx.recvbuf.length < connackLen
  header : rx.state = .remainingLength → rx.npacket < 4 ∧ rx.pktHd.length = rx.npacket ∧
    ∀ b ∈ rx.pktHd, b &&& 0x80 ≠ 0
  publish : rx.state = .pubRemain → 0 < rx.npacket
  packet : rx.state = .suback ∨ rx.state = .pubwait → 0 < rx.remainingLength

/-- How much can still be received. -/
def Incoming.left (rx : Incoming) : Nat := rx.recvs.length + rx.stream.length

/-- Less can be received than before, and the receives are the later ones of those that were to
come. -/
def Shrinks (rx rx' : Incoming) : Prop := rx'.left < rx.left ∧ rx'.recvs <:+ rx.recvs

/-- Not more can be received than before. -/
def Keeps (rx rx' : Incoming) : Prop := rx'.left ≤ rx.left ∧ rx'.recvs <:+ rx.recvs

theorem Keeps.refl (rx : Incoming) : Keeps rx rx := ⟨Nat.le_refl _, List.suffix_refl _⟩

theorem Keeps.shrinks {rx₁ : Incoming} (h : Keeps rx rx₁) (h' : Shrinks rx₁ rx') : Shrinks rx rx' :=
  ⟨Nat.lt_of_lt_of_le h'.1 h.1, h'.2.trans h.2⟩

/-- The transfer goes on. -/
def Answer.goesOn (answer : Answer) : Prop :=
  answer.done = false ∧ (answer.result = .ok ∨ answer.result = .again)

/-- The result and `*done`, where they end the transfer. -/
def Answer.ends (answer : Answer) (result : Curlcode) (done : Bool) : Prop :=
  answer.result = result ∧ answer.done = done ∧ result ≠ .again ∧ (result = .ok → done = true)

/-- The body of a SUBACK packet does not arrive at once. -/
def Cut (rx : Incoming) : Prop :=
  match rx.recvs with
  | [] => rx.stream ≠ [] ∧ rx.stream.length < subackLen
  | none :: _ => True
  | some k :: _ => rx.stream ≠ [] ∧ (rx.stream.length < subackLen ∨ k + 1 < subackLen)

variable (setup) in
/-- What a call can do: it goes on with what the reader makes of the bytes that it has used, it
leaves the body of a SUBACK packet in the middle, or it ends the transfer as the reader does. -/
inductive Call (rx rx' : Incoming) (answer : Answer) : Prop
  | go (used : Bytes) : rx.stream = used ++ rx'.stream →
      rx'.reader setup = used.foldl (Reader.step setup) (rx.reader setup) → Steady rx' →
      Shrinks rx rx' → answer.goesOn → Call rx rx' answer
  | cut (used : Bytes) : rx.stream = used ++ rx'.stream → used.length < subackLen →
      rx.phase setup = .suback [] → rx'.state = .subackComing → Cut rx →
      rx'.log = rx.log ++ used.map (.suback, ·) → rx'.body = rx.body → rx'.packetid = rx.packetid →
      Shrinks rx rx' → answer.goesOn → Call rx rx' answer
  | stop (used : Bytes) (result : Curlcode) (done : Bool) : rx.stream = used ++ rx'.stream →
      rx'.log = (used.foldl (Reader.step setup) (rx.reader setup)).log →
      rx'.body = (used.foldl (Reader.step setup) (rx.reader setup)).body →
      ((used.foldl (Reader.step setup) (rx.reader setup)).phase = .ended result done ∨
        rx'.stream = [] ∧
          (used.foldl (Reader.step setup) (rx.reader setup)).phase.atEnd = (result, done)) →
      answer.ends result done → Call rx rx' answer

/-- A call that is like another one behind some bytes. -/
theorem Call.after {rx₁ : Incoming} {used : Bytes} (hstream : rx.stream = used ++ rx₁.stream)
    (hreader : rx₁.reader setup = used.foldl (Reader.step setup) (rx.reader setup))
    (hleft : Keeps rx rx₁) (hcut : rx₁.phase setup = .suback [] → used = [] ∧
      rx₁.recvs = rx.recvs) (h : Call setup rx₁ rx' answer) : Call setup rx rx' answer := by
  cases h with
  | go used' hstream' hreader' hsteady hlt hgoes =>
    refine .go (used ++ used') ?_ ?_ hsteady (hleft.shrinks hlt) hgoes
    · rw [hstream, hstream', List.append_assoc]
    · rw [hreader', hreader, List.foldl_append]
  | cut used' hstream' hlen hphase hstate hcut' hlog hbody hid hlt hgoes =>
    obtain ⟨rfl, hrecvs⟩ := hcut hphase
    rw [List.nil_append] at hstream
    rw [List.foldl_nil] at hreader
    have hlog' := congrArg Reader.log hreader
    have hbody' := congrArg Reader.body hreader
    have hid' := congrArg Reader.packetid hreader
    have hphase' := congrArg Reader.phase hreader
    refine .cut used' (hstream.trans hstream') hlen (hphase'.symm.trans hphase) hstate ?_ ?_ ?_ ?_
      (hleft.shrinks hlt) hgoes
    · unfold Cut at hcut' ⊢
      rwa [hrecvs, ← hstream] at hcut'
    · rw [hlog]
      exact congrArg (· ++ _) hlog'
    · rw [hbody]
      exact hbody'
    · rw [hid]
      exact hid'
  | stop used' result done hstream' hlog hbody hend hends =>
    rw [hreader, ← List.foldl_append] at hlog hbody hend
    refine .stop (used ++ used') result done ?_ hlog hbody hend hends
    rw [hstream, hstream', List.append_assoc]

/-! ### Receives -/

/-- What a receive can do. -/
theorem recv_cases (rx : Incoming) (role : Role) (n : Nat) :
    (rx.recv role n = (rx.skipRecv, none) ∧ ∃ recvs, rx.recvs = none :: recvs) ∨
      ∃ m, rx.recv role n = (rx.take role m, some (rx.stream.take m)) ∧ m ≤ n ∧ (0 < n → 0 < m) ∧
        ∀ {recvs}, rx.recvs ≠ none :: recvs := by
  unfold Incoming.recv
  rcases rx.recvs with _ | ⟨_ | k, recvs⟩
  · exact .inr ⟨n, rfl, Nat.le_refl n, fun h => h, fun h => (nomatch h)⟩
  · exact .inl ⟨rfl, recvs, rfl⟩
  · exact .inr ⟨min n (k + 1), rfl, Nat.min_le_left _ _, fun h => by omega, fun h => (nomatch h)⟩

theorem skipRecv_left {recvs : List (Option Nat)} (h : rx.recvs = none :: recvs) :
    Shrinks rx rx.skipRecv := by
  refine ⟨?_, List.tail_suffix _⟩
  rw [Incoming.left, Incoming.left, Incoming.skipRecv, h]
  simp

theorem take_left (rx : Incoming) (role : Role) (m : Nat) : Keeps rx (rx.take role m) := by
  refine ⟨?_, List.tail_suffix _⟩
  rw [Incoming.left, Incoming.left, Incoming.take]
  simp only [List.length_tail, List.length_drop]
  omega

theorem take_left_lt {m : Nat} (hm : 0 < m) (hne : rx.stream ≠ []) :
    Shrinks rx (rx.take role m) := by
  refine ⟨?_, List.tail_suffix _⟩
  have hpos : 0 < rx.stream.length := List.length_pos_iff.mpr hne
  rw [Incoming.left, Incoming.left, Incoming.take]
  simp only [List.length_tail, List.length_drop]
  omega

/-! ### The header -/

/-- Nothing is received and nothing is written to the client. -/
def Silent (rx rx' : Incoming) : Prop :=
  rx'.stream = rx.stream ∧ rx'.recvs = rx.recvs ∧ rx'.log = rx.log ∧ rx'.body = rx.body ∧
    rx'.packetid = rx.packetid

theorem Silent.shrinks {rx₁ : Incoming} (h : Silent rx₁ rx') (h' : Shrinks rx rx₁) :
    Shrinks rx rx' := by
  rw [Shrinks, Incoming.left, h.1, h.2.1]
  exact h'

/-- The state behind a header. -/
theorem mqstate_next (hnext : rx.nextstate ∈ [.connack, .suback, .pubwait, .first, .nostate])
    (hrecvbuf : rx.recvbuf = []) (hlen : rx.remainingLength ≠ 0) :
    (rx.mqstate rx.nextstate .nostate).phase setup =
        enter setup rx.nextstate rx.firstbyte rx.remainingLength [] ∧
      Steady (rx.mqstate rx.nextstate .nostate) := by
  have hbuf : (rx.mqstate rx.nextstate .nostate).recvbuf = [] := hrecvbuf
  generalize hstate : rx.nextstate = state at hnext hbuf
  simp only [List.mem_cons, List.not_mem_nil, or_false] at hnext
  rcases hnext with rfl | rfl | rfl | rfl | rfl
  all_goals
    refine ⟨by simp [Incoming.phase, Incoming.mqstate, enter, hrecvbuf], ?_, ?_,
      fun h => absurd hbuf h, ?_, ?_, fun _ => Nat.pos_of_ne_zero hlen⟩
    all_goals simp [Incoming.mqstate, hstate]

theorem headerDone_cases (hnext : rx.nextstate ∈ [.connack, .suback, .pubwait, .first, .nostate])
    (hrecvbuf : rx.recvbuf = []) :
    Silent rx (headerDone rx).1 ∧
      ((headerDone rx).2.goesOn ∧ Steady (headerDone rx).1 ∧
          (headerDone rx).1.phase setup =
            afterHeader setup rx.nextstate rx.firstbyte rx.remainingLength ∨
        ∃ result done, (headerDone rx).2.ends result done ∧
          afterHeader setup rx.nextstate rx.firstbyte rx.remainingLength = .ended result done) := by
  have hfirst : ∀ {next : MqttState},
    next ∈ [MqttState.connack, .suback, .pubwait, .first, .nostate] →
      Steady (rx.mqstate .first next) := by
    intro next hmem
    refine ⟨by simp [Incoming.mqstate], hmem, fun h => absurd hrecvbuf h, ?_, ?_, ?_⟩
    · exact fun h => (nomatch h)
    · exact fun h => (nomatch h)
    · exact fun h => h.elim (fun h => (nomatch h)) fun h => (nomatch h)
  unfold headerDone afterHeader
  dsimp only
  by_cases hbad : (rx.firstbyte &&& 0xf0 = msgDisconnect ∨ rx.firstbyte &&& 0xf0 = msgPingresp) ∧
      (rx.remainingLength ≠ 0 ∨ rx.firstbyte &&& 0x0f ≠ 0)
  · rw [if_pos hbad, if_pos hbad]
    exact ⟨⟨rfl, rfl, rfl, rfl, rfl⟩, .inr ⟨.weirdServerReply, false,
      ⟨rfl, rfl, by decide, fun h => (nomatch h)⟩, rfl⟩⟩
  rw [if_neg hbad, if_neg hbad]
  by_cases hlen : rx.remainingLength ≠ 0
  · rw [if_pos hlen, if_pos hlen]
    obtain ⟨hphase, hsteady⟩ := @mqstate_next setup rx hnext hrecvbuf hlen
    exact ⟨⟨rfl, rfl, rfl, rfl, rfl⟩, .inl ⟨⟨rfl, .inl rfl⟩, hsteady, hphase⟩⟩
  rw [if_neg hlen, if_neg hlen]
  by_cases hpong : rx.firstbyte = msgPingresp
  · rw [if_pos hpong, if_pos hpong]
    exact ⟨⟨rfl, rfl, rfl, rfl, rfl⟩, .inl ⟨⟨rfl, .inl rfl⟩, hfirst (by decide), rfl⟩⟩
  rw [if_neg hpong, if_neg hpong]
  by_cases hdisconnect : rx.firstbyte = msgDisconnect
  · rw [if_pos hdisconnect]
    refine ⟨⟨rfl, rfl, rfl, rfl, rfl⟩, .inr ⟨.ok, true, ⟨rfl, ?_, by decide, fun _ => rfl⟩, rfl⟩⟩
    simpa using hdisconnect
  · rw [if_neg hdisconnect]
    refine ⟨⟨rfl, rfl, rfl, rfl, rfl⟩, .inl ⟨⟨?_, .inl rfl⟩, hfirst (by decide), rfl⟩⟩
    simpa using hdisconnect

theorem decodeLoop_truncated {buf : Bytes} (h : ∀ b ∈ buf, b &&& 0x80 ≠ 0) (i len mult : Nat) :
    decodeLoop i len mult buf = none := by
  induction buf generalizing i len mult with
  | nil => rfl
  | cons b buf ih =>
    unfold decodeLoop
    split
    · rfl
    · dsimp only
      rw [if_pos (h b (List.mem_cons_self ..))]
      exact ih (fun c hc => h c (List.mem_cons_of_mem b hc)) _ _ _

/-- The part of `mqtt_doing` behind the loop. -/
def afterLoop : Incoming × Curlcode × Option UInt8 → Incoming × Answer
  | (rx, .ok, last) =>
    if last.any (· &&& 0x80 ≠ 0) then (rx, .just .weirdServerReply)
    else
      match decodeLen (rx.pktHd.take rx.npacket) with
      | none => (rx, .just .weirdServerReply)
      | some len => headerDone (rx.setLength len)
  | (rx, result, _) => (rx, .just result)

theorem doRemainingLength_eq (rx : Incoming) : doRemainingLength rx = afterLoop (lengthLoop 4 rx) :=
  rfl

theorem phase_remainingLength (hstate : rx.state = .remainingLength)
    (hlen : rx.pktHd.length = rx.npacket) :
    rx.phase setup = .length rx.nextstate rx.firstbyte rx.pktHd := by
  rw [Incoming.phase, hstate, ← hlen, List.take_length]

/-- The receiver behind one byte of a length. -/
theorem pushLength_reader {b : UInt8} {rest : Bytes} (hstate : rx.state = .remainingLength)
    (hlen : rx.pktHd.length = rx.npacket) (hstream : rx.stream = b :: rest) :
    (rx.reader setup).step setup b =
      ⟨afterLength setup rx.nextstate rx.firstbyte rx.pktHd b, rx.packetid,
        ((rx.take .length 1).pushLength b).log, rx.body⟩ := by
  have hphase := @phase_remainingLength setup rx hstate hlen
  simp [Reader.step, Reader.next, Reader.nextId, hphase, Phase.role, Incoming.reader, Incoming.take,
    Incoming.pushLength, hstream]

theorem afterLoop_high {b : UInt8} (h : b &&& 0x80 ≠ 0) :
    afterLoop (rx, .ok, some b) = (rx, .just .weirdServerReply) := by
  rw [afterLoop, if_pos]
  simpa using h

theorem afterLoop_low {b : UInt8} (h : ¬b &&& 0x80 ≠ 0) :
    afterLoop (rx, .ok, some b) =
      match decodeLen (rx.pktHd.take rx.npacket) with
      | none => (rx, .just .weirdServerReply)
      | some len => headerDone (rx.setLength len) := by
  rw [afterLoop, if_neg]
  simpa using h

section Byte

variable {b : UInt8} {rest : Bytes} (hsteady : Steady rx) (hstate : rx.state = .remainingLength)
  (hstream : rx.stream = b :: rest)

include hstream in
theorem pushLength_stream : rx.stream = [b] ++ ((rx.take .length 1).pushLength b).stream := by
  simp [Incoming.take, Incoming.pushLength, hstream]

include hsteady hstate in
theorem pushLength_header : ((rx.take .length 1).pushLength b).pktHd = rx.pktHd ++ [b] ∧
    (rx.pktHd ++ [b]).length = ((rx.take .length 1).pushLength b).npacket := by
  obtain ⟨-, hlen, -⟩ := hsteady.header hstate
  constructor
  · simp [Incoming.take, Incoming.pushLength, ← hlen]
  · rw [List.length_append, hlen]
    rfl

include hsteady hstate in
theorem steady_recvbuf : rx.recvbuf = [] := by
  by_contra hne
  have hconnack := (hsteady.recvbuf hne).1
  rw [hstate] at hconnack
  cases hconnack

include hsteady hstate hstream in
/-- A byte behind which the length goes on. -/
theorem lengthMore_call {p : Incoming × Answer}
    (hmore : b &&& 0x80 ≠ 0 ∧ ((rx.take .length 1).pushLength b).npacket < 4)
    (h : Steady ((rx.take .length 1).pushLength b) →
      Call setup ((rx.take .length 1).pushLength b) p.1 p.2) : Call setup rx p.1 p.2 := by
  obtain ⟨-, hlen, hcont⟩ := hsteady.header hstate
  obtain ⟨hhd, hlen₁⟩ := @pushLength_header rx b hsteady hstate
  have hreader := @pushLength_reader setup rx b rest hstate hlen hstream
  have hlength : afterLength setup rx.nextstate rx.firstbyte rx.pktHd b =
      .length rx.nextstate rx.firstbyte (rx.pktHd ++ [b]) := by
    rw [afterLength, if_pos hmore.1, if_pos (by rw [hlen₁]; exact hmore.2)]
  have hphase : ((rx.take .length 1).pushLength b).phase setup =
      .length rx.nextstate rx.firstbyte (rx.pktHd ++ [b]) := by
    have hphase' := @phase_remainingLength setup ((rx.take .length 1).pushLength b) hstate
      (by rw [hhd, hlen₁])
    rw [hphase', hhd]
    rfl
  have hcont₁ : ∀ c ∈ ((rx.take .length 1).pushLength b).pktHd, c &&& 0x80 ≠ 0 := by
    rw [hhd]
    intro c hc
    rcases List.mem_append.mp hc with hc | hc
    · exact hcont c hc
    · rw [List.mem_singleton.mp hc]
      exact hmore.1
  have hsteady₁ : Steady ((rx.take .length 1).pushLength b) :=
    ⟨hsteady.state, hsteady.next, hsteady.recvbuf,
      fun _ => ⟨hmore.2, by rw [hhd, hlen₁], hcont₁⟩, fun h => (nomatch hstate.symm.trans h),
      fun h => h.elim (fun h => (nomatch hstate.symm.trans h)) fun h =>
        (nomatch hstate.symm.trans h)⟩
  refine Call.after (pushLength_stream hstream) ?_ (take_left rx .length 1) ?_ (h hsteady₁)
  · rw [List.foldl_cons, List.foldl_nil, hreader, hlength, Incoming.reader, hphase]
    rfl
  · rw [hphase]
    exact fun h => (nomatch h)

include hsteady hstate hstream in
/-- The last byte of a length. -/
theorem lengthEnd_call (hend : ¬(b &&& 0x80 ≠ 0 ∧ ((rx.take .length 1).pushLength b).npacket < 4)) :
    Call setup rx (afterLoop ((rx.take .length 1).pushLength b, .ok, some b)).1
      (afterLoop ((rx.take .length 1).pushLength b, .ok, some b)).2 := by
  obtain ⟨-, hlen, -⟩ := hsteady.header hstate
  obtain ⟨hhd, hlen₁⟩ := @pushLength_header rx b hsteady hstate
  have hreader := @pushLength_reader setup rx b rest hstate hlen hstream
  have hused := pushLength_stream hstream
  have hleft : Shrinks rx ((rx.take .length 1).pushLength b) :=
    @take_left_lt rx .length 1 Nat.one_pos (by simp [hstream])
  -- a length that is refused ends the transfer
  have hrefused : afterLength setup rx.nextstate rx.firstbyte rx.pktHd b =
      .ended .weirdServerReply false →
      Call setup rx ((rx.take .length 1).pushLength b) (.just .weirdServerReply) := by
    intro hended
    refine .stop [b] .weirdServerReply false hused ?_ ?_ (.inl ?_)
      ⟨rfl, rfl, by decide, fun h => (nomatch h)⟩
    · rw [List.foldl_cons, List.foldl_nil, hreader]
    · rw [List.foldl_cons, List.foldl_nil, hreader]
      rfl
    · rw [List.foldl_cons, List.foldl_nil, hreader, hended]
  by_cases hhigh : b &&& 0x80 ≠ 0
  · have hfull : ¬(rx.pktHd ++ [b]).length < 4 := by
      rw [hlen₁]
      exact fun h => hend ⟨hhigh, h⟩
    rw [afterLoop_high hhigh]
    refine hrefused ?_
    rw [afterLength, if_pos hhigh, if_neg hfull]
  · have htake : ((rx.take .length 1).pushLength b).pktHd.take
        ((rx.take .length 1).pushLength b).npacket = rx.pktHd ++ [b] := by
      rw [← hlen₁, hhd, List.take_length]
    rw [afterLoop_low hhigh, htake]
    cases hdecode : decodeLen (rx.pktHd ++ [b]) with
    | none =>
      refine hrefused ?_
      rw [afterLength, if_neg hhigh, hdecode]
    | some len =>
      have hafter : afterLength setup rx.nextstate rx.firstbyte rx.pktHd b =
          afterHeader setup rx.nextstate rx.firstbyte len := by
        rw [afterLength, if_neg hhigh, hdecode]
      obtain ⟨hsilent, hcases⟩ := @headerDone_cases setup
        (((rx.take .length 1).pushLength b).setLength len) hsteady.next
        (show rx.recvbuf = [] from steady_recvbuf hsteady hstate)
      obtain ⟨hstr, hrecvs, hlog, hbody, hid⟩ := hsilent
      dsimp only
      rcases hcases with ⟨hgoes, hsteady', hphase⟩ | ⟨result, done, hends, hended⟩
      · refine .go [b] ?_ ?_ hsteady' ?_ hgoes
        · rw [hstr]
          exact hused
        · rw [List.foldl_cons, List.foldl_nil, hreader, Incoming.reader, hphase, hlog, hbody, hid,
            hafter]
          rfl
        · exact Silent.shrinks ⟨hstr, hrecvs, hlog, hbody, hid⟩ hleft
      · refine .stop [b] result done ?_ ?_ ?_ (.inl ?_) hends
        · rw [hstr]
          exact hused
        · rw [List.foldl_cons, List.foldl_nil, hreader, hlog]
          rfl
        · rw [List.foldl_cons, List.foldl_nil, hreader, hbody]
          rfl
        · rw [List.foldl_cons, List.foldl_nil, hreader, hafter]
          exact hended

end Byte

theorem Steady.skipRecv (h : Steady rx) : Steady rx.skipRecv :=
  ⟨h.state, h.next, h.recvbuf, h.header, h.publish, h.packet⟩

theorem Call.skipped {recvs : List (Option Nat)} (hsteady : Steady rx)
    (hrecvs : rx.recvs = none :: recvs) : Call setup rx rx.skipRecv (.just .again) :=
  .go [] rfl rfl hsteady.skipRecv (skipRecv_left hrecvs) ⟨rfl, .inr rfl⟩

/-- The stream has ended where bytes were asked for. -/
theorem Call.closed (result : Curlcode) (done : Bool) (hstream : rx.stream = []) (role : Role)
    (m : Nat) (hend : (rx.phase setup).atEnd = (result, done)) (hends : answer.ends result done) :
    Call setup rx (rx.take role m) answer := by
  refine .stop [] result done ?_ ?_ rfl (.inr ⟨?_, hend⟩) hends
  · simp [Incoming.take, hstream]
  · simp [Incoming.take, hstream, Incoming.reader]
  · simp [Incoming.take, hstream]

theorem lengthLoop_call {fuel : Nat} (hsteady : Steady rx) (hstate : rx.state = .remainingLength)
    (hfuel : 4 ≤ fuel + rx.npacket) :
    Call setup rx (afterLoop (lengthLoop fuel rx)).1 (afterLoop (lengthLoop fuel rx)).2 := by
  induction fuel generalizing rx with
  | zero =>
    have := (hsteady.header hstate).1
    omega
  | succ fuel ih =>
    obtain ⟨hlt, hlen, hcont⟩ := hsteady.header hstate
    unfold lengthLoop
    rcases recv_cases rx .length 1 with ⟨hrecv, recvs, hrecvs⟩ | ⟨m, hrecv, hle, hpos, -⟩
    · rw [hrecv]
      exact .skipped hsteady hrecvs
    · obtain rfl : m = 1 := by
        have := hpos Nat.one_pos
        omega
      rw [hrecv]
      rcases hstream : rx.stream with _ | ⟨b, rest⟩
      · -- the stream ends inside of a header
        have htrunc : decodeLen ((rx.take .length 1).pktHd.take (rx.take .length 1).npacket) =
          none := by
          change decodeLen (rx.pktHd.take rx.npacket) = none
          rw [← hlen, List.take_length]
          exact decodeLoop_truncated hcont 0 0 1
        simp only [List.take_nil, afterLoop, Option.any_none, Bool.false_eq_true, if_false, htrunc]
        exact .closed .weirdServerReply false hstream .length 1
          (by rw [phase_remainingLength hstate hlen]; rfl) ⟨rfl, rfl, by decide, by rintro ⟨⟩⟩
      · rw [List.take_succ_cons, List.take_zero]
        dsimp only
        by_cases hmore : b &&& 0x80 ≠ 0 ∧ ((rx.take .length 1).pushLength b).npacket < 4
        · rw [if_pos hmore]
          refine lengthMore_call hsteady hstate hstream hmore fun hsteady₁ => ih hsteady₁ hstate ?_
          change 4 ≤ fuel + (rx.npacket + 1)
          omega
        · rw [if_neg hmore]
          exact lengthEnd_call hsteady hstate hstream hmore

theorem Call.of_answer {answer' : Answer} (h : Call setup rx rx' answer)
    (hresult : answer'.result = answer.result) (hdone : answer'.done = answer.done) :
    Call setup rx rx' answer' := by
  have hgoes : answer.goesOn → answer'.goesOn := by
    rw [Answer.goesOn, Answer.goesOn, hresult, hdone]
    exact id
  cases h with
  | go used hstream hreader hsteady hlt h => exact .go used hstream hreader hsteady hlt (hgoes h)
  | cut used hstream hlen hphase hstate hcut hlog hbody hid hlt h =>
    exact .cut used hstream hlen hphase hstate hcut hlog hbody hid hlt (hgoes h)
  | stop used result done hstream hlog hbody hend h =>
    refine .stop used result done hstream hlog hbody hend ?_
    rw [Answer.ends, hresult, hdone]
    exact h

theorem doRemainingLength_call (hsteady : Steady rx) (hstate : rx.state = .remainingLength) :
    Call setup rx (doRemainingLength rx).1 (doRemainingLength rx).2 := by
  rw [doRemainingLength_eq]
  exact lengthLoop_call hsteady hstate (Nat.le_add_right _ _)

theorem doFirst_call (hsteady : Steady rx) (hstate : rx.state = .first) :
    Call setup rx (doFirst rx).1 (doFirst rx).2 := by
  have hphase : rx.phase setup = .first rx.nextstate := by
    rw [Incoming.phase, hstate]
  unfold doFirst
  rcases recv_cases rx .first 1 with ⟨hrecv, recvs, hrecvs⟩ | ⟨m, hrecv, hle, hpos, -⟩
  · rw [hrecv]
    exact .skipped hsteady hrecvs
  · obtain rfl : m = 1 := by
      have := hpos Nat.one_pos
      omega
    rw [hrecv]
    rcases hstream : rx.stream with _ | ⟨b, rest⟩
    · rw [List.take_nil]
      exact .closed .recvError true hstream .first 1 (by rw [hphase]; rfl)
        ⟨rfl, rfl, by decide, fun _ => rfl⟩
    · rw [List.take_succ_cons, List.take_zero]
      have hsteady₁ : Steady ((rx.take .first 1).startPacket b) := by
        refine ⟨by rintro ⟨⟩, hsteady.next, fun h => ?_, fun _ => ⟨show 0 < 4 by decide, rfl, ?_⟩,
          by rintro ⟨⟩, by rintro (h | h) <;> cases h⟩
        · have hconnack := (hsteady.recvbuf h).1
          rw [hstate] at hconnack
          cases hconnack
        · rintro c ⟨⟩
      have hcall := @doRemainingLength_call setup _ hsteady₁ rfl
      have hafter : Call setup rx (doRemainingLength ((rx.take .first 1).startPacket b)).1
          (doRemainingLength ((rx.take .first 1).startPacket b)).2 := by
        have hleft : Keeps rx ((rx.take .first 1).startPacket b) := take_left rx .first 1
        have hphase₁ : ((rx.take .first 1).startPacket b).phase setup = .length rx.nextstate b [] :=
          rfl
        refine @Call.after setup rx _ _ _ [b] ?_ ?_ hleft ?_ hcall
        · simp [Incoming.take, Incoming.startPacket, Incoming.mqstate, hstream]
        · rw [Incoming.reader, hphase₁]
          simp [Incoming.reader, Reader.step, Reader.next, Reader.nextId, hphase, Phase.role,
            Incoming.take, Incoming.startPacket, Incoming.mqstate, hstream]
        · rw [hphase₁]
          rintro ⟨⟩
      exact hafter.of_answer rfl rfl

end Gurl.Mqtt
