import Gurl.Mqtt.Sending

/-! The stream from a broker, read one byte at a time: what a transfer makes of it when nothing that
is read gets lost between two calls. -/

namespace Gurl.Mqtt

/-- Where a reader is: in front of a packet (with the state behind the next header), in the length
of one, in its body, or at the end of the transfer. -/
inductive Phase where
  | first (next : MqttState)
  | length (next : MqttState) (firstbyte : UInt8) (header : Bytes)
  | connack (got : Bytes)
  | suback (got : Bytes)
  | publish (left : Nat)
  | ended (result : Curlcode) (done : Bool)

/-- What the next byte is taken for. -/
def Phase.role : Phase → Option Role
  | .first _ => some .first
  | .length .. => some .length
  | .connack _ => some .connack
  | .suback _ => some .suback
  | .publish _ => some .publish
  | .ended .. => none

structure Reader where
  phase : Phase
  packetid : Nat
  log : List (Role × UInt8)
  body : Bytes

/-- How many packets have started. -/
def packetsIn (log : List (Role × UInt8)) : Nat := log.countP (·.1 == .first)

def Reader.packets (r : Reader) : Nat := packetsIn r.log

variable (setup : Setup)

/-- The start of a body that `mqtt_read_publish` reads. -/
def enterPacket (firstbyte : UInt8) (len : Nat) (got : Bytes) : Phase :=
  if firstbyte &&& 0xf0 = msgPublish then
    if setup.maxFilesize ≠ 0 ∧ len > setup.maxFilesize then .ended .filesizeExceeded false
    else .publish len
  else if firstbyte &&& 0xf0 = msgSuback then
    if len ≠ subackLen then .ended .weirdServerReply false else .suback got
  else if firstbyte &&& 0xf0 = msgDisconnect then .ended .ok true
  else .ended .weirdServerReply false

/-- The start of a body in a state. -/
def enter (state : MqttState) (firstbyte : UInt8) (len : Nat) (got : Bytes) : Phase :=
  match state with
  | .connack => if len ≠ connackLen then .ended .weirdServerReply false else .connack got
  | .suback | .pubwait => enterPacket setup firstbyte len got
  | .first => .first .nostate
  | _ => .ended .ok true

/-- What follows a complete header. -/
def afterHeader (next : MqttState) (firstbyte : UInt8) (len : Nat) : Phase :=
  if (firstbyte &&& 0xf0 = msgDisconnect ∨ firstbyte &&& 0xf0 = msgPingresp) ∧
      (len ≠ 0 ∨ firstbyte &&& 0x0f ≠ 0) then .ended .weirdServerReply false
  else if len ≠ 0 then enter setup next firstbyte len []
  else if firstbyte = msgPingresp then .first .pubwait
  else if firstbyte = msgDisconnect then .ended .ok true
  else .first .first

/-- What follows a byte of a length. -/
def afterLength (next : MqttState) (firstbyte : UInt8) (header : Bytes) (b : UInt8) : Phase :=
  if b &&& 0x80 ≠ 0 then
    if (header ++ [b]).length < 4 then .length next firstbyte (header ++ [b])
    else .ended .weirdServerReply false
  else
    match decodeLen (header ++ [b]) with
    | none => .ended .weirdServerReply false
    | some len => afterHeader setup next firstbyte len

/-- What follows a CONNACK packet that is accepted. -/
def afterConnack : Phase :=
  if setup.post then
    match publishPacket setup with
    | .error e => .ended e false
    | .ok _ => .ended .ok true
  else
    match getTopic setup with
    | .error e => .ended e false
    | .ok _ => .first .suback

/-- What a byte leads to. -/
def Reader.next (r : Reader) (b : UInt8) : Phase :=
  match r.phase with
  | .first next => .length next b []
  | .length next firstbyte header => afterLength setup next firstbyte header b
  | .connack got =>
    if (got ++ [b]).length < connackLen then .connack (got ++ [b])
    else if got ++ [b] ≠ [0, 0] then .ended .weirdServerReply false
    else afterConnack setup
  | .suback got =>
    if (got ++ [b]).length < subackLen then .suback (got ++ [b])
    else if got ++ [b] ≠ twoBytes r.packetid ++ [0] then .ended .weirdServerReply false
    else .first .pubwait
  | .publish left => if left - 1 = 0 then .first .pubwait else .publish (left - 1)
  | .ended result done => .ended result done

/-- The packet id counts up with a subscription. -/
def Reader.nextId (r : Reader) (b : UInt8) : Nat :=
  match r.phase with
  | .connack got =>
    if got ++ [b] = [0, 0] ∧ !setup.post ∧ (getTopic setup).isOk then r.packetid + 1 else r.packetid
  | _ => r.packetid

/-- One byte. -/
def Reader.step (r : Reader) (b : UInt8) : Reader where
  phase := r.next setup b
  packetid := r.nextId setup b
  log := r.log ++ (r.phase.role.map (·, b)).toList
  body := if r.phase.role = some .publish then r.body ++ [b] else r.body

/-- What the end of the stream leads to. -/
def Phase.atEnd : Phase → Curlcode × Bool
  | .first _ => (.recvError, true)
  | .length .. => (.weirdServerReply, false)
  | .connack _ => (.recvError, false)
  -- bytes of a body that is not complete leave a state that `mqtt_doing` does not handle
  | .suback got => if got = [] then (.recvError, false) else (.ok, true)
  | .publish _ => (.partialFile, false)
  | .ended result done => (result, done)

/-- What can be seen of a transfer: the result, `*done`, how many packets have started, and the
bytes that were written to the client. -/
structure Observed where
  result : Curlcode
  done : Bool
  packets : Nat
  body : Bytes
  deriving DecidableEq

/-- What a reader shows at the end of the stream. -/
def Reader.observed (r : Reader) : Observed :=
  ⟨r.phase.atEnd.1, r.phase.atEnd.2, r.packets, r.body⟩

/-- What comes of a stream. -/
def Reader.outcome (r : Reader) (stream : Bytes) : Observed :=
  (stream.foldl (Reader.step setup) r).observed

variable {setup} {r : Reader}

theorem Reader.outcome_append (xs ys : Bytes) :
    r.outcome setup (xs ++ ys) = (xs.foldl (Reader.step setup) r).outcome setup ys := by
  rw [Reader.outcome, List.foldl_append]
  rfl

/-- Nothing changes behind the end of a transfer. -/
theorem foldl_ended {result : Curlcode} {done : Bool} (h : r.phase = .ended result done)
    (xs : Bytes) : xs.foldl (Reader.step setup) r = r := by
  induction xs with
  | nil => rfl
  | cons b xs ih =>
    have hstep : r.step setup b = r := by
      cases r
      cases h
      simp [Reader.step, Reader.next, Reader.nextId, Phase.role]
    rw [List.foldl_cons, hstep, ih]

theorem outcome_ended {result : Curlcode} {done : Bool} (h : r.phase = .ended result done)
    (xs : Bytes) : r.outcome setup xs = ⟨result, done, r.packets, r.body⟩ := by
  rw [Reader.outcome, foldl_ended h, Reader.observed, h]
  rfl

/-- The reader behind some bytes of a PUBLISH packet. -/
def Reader.published (r : Reader) (left : Nat) (xs : Bytes) : Reader where
  phase := if left - xs.length = 0 then .first .pubwait else .publish (left - xs.length)
  packetid := r.packetid
  log := r.log ++ xs.map (.publish, ·)
  body := r.body ++ xs

theorem foldl_publish {left : Nat} (h : r.phase = .publish left) {xs : Bytes} (hne : xs ≠ [])
    (hle : xs.length ≤ left) : xs.foldl (Reader.step setup) r = r.published left xs := by
  induction xs generalizing r left with
  | nil => exact absurd rfl hne
  | cons b xs ih =>
    have hstep : r.step setup b = r.published left [b] := by
      simp [Reader.step, Reader.next, Reader.nextId, h, Phase.role, Reader.published]
    rw [List.foldl_cons, hstep]
    by_cases hnil : xs = []
    · subst hnil
      rfl
    · have hpos : 0 < xs.length := List.length_pos_iff.mpr hnil
      rw [List.length_cons] at hle
      have hphase : (r.published left [b]).phase = .publish (left - 1) := by
        simp only [Reader.published, List.length_singleton]
        rw [if_neg (by omega)]
      rw [ih hphase hnil (by omega)]
      simp [Reader.published, Nat.sub_sub, Nat.add_comm 1]

/-- Bytes of the body of a CONNACK packet that is not complete. -/
theorem foldl_connack {got xs : Bytes} (h : r.phase = .connack got)
    (hlt : got.length + xs.length < connackLen) :
    xs.foldl (Reader.step setup) r =
      ⟨.connack (got ++ xs), r.packetid, r.log ++ xs.map (.connack, ·), r.body⟩ := by
  induction xs generalizing r got with
  | nil =>
    rw [List.append_nil, ← h]
    simp
  | cons b xs ih =>
    rw [List.length_cons] at hlt
    have hne : got ++ [b] ≠ [0, 0] := by
      intro heq
      have hlen := congrArg List.length heq
      rw [List.length_append] at hlen
      simp only [connackLen, List.length_cons, List.length_nil] at hlt hlen
      omega
    have hstep : r.step setup b =
        ⟨.connack (got ++ [b]), r.packetid, r.log ++ [(.connack, b)], r.body⟩ := by
      have hshort : (got ++ [b]).length < connackLen := by
        rw [List.length_append, List.length_singleton]
        omega
      simp only [Reader.step, Reader.next, Reader.nextId, h, if_pos hshort, hne,
        false_and, if_false, Phase.role]
      simp
    rw [List.foldl_cons, hstep, ih rfl (by rw [List.length_append, List.length_singleton]; omega)]
    simp

/-- Bytes of the body of a SUBACK packet that is not complete. -/
theorem foldl_suback {got xs : Bytes} (h : r.phase = .suback got)
    (hlt : got.length + xs.length < subackLen) :
    xs.foldl (Reader.step setup) r =
      ⟨.suback (got ++ xs), r.packetid, r.log ++ xs.map (.suback, ·), r.body⟩ := by
  induction xs generalizing r got with
  | nil =>
    rw [List.append_nil, ← h]
    simp
  | cons b xs ih =>
    rw [List.length_cons] at hlt
    have hshort : (got ++ [b]).length < subackLen := by
      rw [List.length_append, List.length_singleton]
      omega
    have hstep : r.step setup b =
        ⟨.suback (got ++ [b]), r.packetid, r.log ++ [(.suback, b)], r.body⟩ := by
      simp only [Reader.step, Reader.next, Reader.nextId, h, if_pos hshort, Phase.role]
      simp
    rw [List.foldl_cons, hstep, ih rfl (by rw [List.length_append, List.length_singleton]; omega)]
    simp

/-- The body of a CONNACK packet, complete. -/
theorem foldl_connack_full {got xs : Bytes} (h : r.phase = .connack got) (hne : xs ≠ [])
    (hlen : got.length + xs.length = connackLen) :
    xs.foldl (Reader.step setup) r =
      ⟨if got ++ xs ≠ [0, 0] then .ended .weirdServerReply false else afterConnack setup,
        if got ++ xs = [0, 0] ∧ !setup.post ∧ (getTopic setup).isOk then r.packetid + 1
          else r.packetid,
        r.log ++ xs.map (.connack, ·), r.body⟩ := by
  obtain ⟨pre, b, rfl⟩ : ∃ pre b, xs = pre ++ [b] := ⟨_, _, (List.dropLast_append_getLast hne).symm⟩
  rw [List.length_append, List.length_singleton] at hlen
  have hfull : ¬(got ++ pre ++ [b]).length < connackLen := by
    rw [List.length_append, List.length_append, List.length_singleton]
    omega
  rw [List.foldl_append, foldl_connack h (by omega), List.foldl_cons, List.foldl_nil, Reader.step]
  simp only [Reader.next, Reader.nextId, if_neg hfull, Phase.role, ← List.append_assoc]
  simp

/-- The body of a SUBACK packet, complete. -/
theorem foldl_suback_full {got xs : Bytes} (h : r.phase = .suback got) (hne : xs ≠ [])
    (hlen : got.length + xs.length = subackLen) :
    xs.foldl (Reader.step setup) r =
      ⟨if got ++ xs ≠ twoBytes r.packetid ++ [0] then .ended .weirdServerReply false
        else .first .pubwait, r.packetid, r.log ++ xs.map (.suback, ·), r.body⟩ := by
  obtain ⟨pre, b, rfl⟩ : ∃ pre b, xs = pre ++ [b] := ⟨_, _, (List.dropLast_append_getLast hne).symm⟩
  rw [List.length_append, List.length_singleton] at hlen
  have hfull : ¬(got ++ pre ++ [b]).length < subackLen := by
    rw [List.length_append, List.length_append, List.length_singleton]
    omega
  rw [List.foldl_append, foldl_suback h (by omega), List.foldl_cons, List.foldl_nil, Reader.step]
  simp only [Reader.next, Reader.nextId, if_neg hfull, Phase.role, ← List.append_assoc]
  simp

theorem step_packets (b : UInt8) : r.packets ≤ (r.step setup b).packets := by
  rw [Reader.packets, Reader.packets, Reader.step, packetsIn, packetsIn, List.countP_append]
  exact Nat.le_add_right _ _

theorem foldl_packets (xs : Bytes) :
    r.packets ≤ (xs.foldl (Reader.step setup) r).packets := by
  induction xs generalizing r with
  | nil => exact Nat.le_refl _
  | cons b xs ih => exact Nat.le_trans (step_packets b) ih

/-- In front of a packet, the stream does not just end well there. -/
theorem outcome_first_ne {next : MqttState} (h : r.phase = .first next) (xs : Bytes)
    (body : Bytes) : r.outcome setup xs ≠ ⟨.ok, true, r.packets, body⟩ := by
  cases xs with
  | nil =>
    intro heq
    have hresult := congrArg Observed.result heq
    rw [Reader.outcome, List.foldl_nil, Reader.observed, h] at hresult
    cases hresult
  | cons b xs =>
    intro heq
    have hpackets := congrArg Observed.packets heq
    have hstep : (r.step setup b).packets = r.packets + 1 := by
      simp [Reader.packets, packetsIn, Reader.step, h, Phase.role]
    have hle := @foldl_packets setup (r.step setup b) xs
    rw [hstep] at hle
    change (xs.foldl (Reader.step setup) (r.step setup b)).packets = r.packets at hpackets
    omega

end Gurl.Mqtt
