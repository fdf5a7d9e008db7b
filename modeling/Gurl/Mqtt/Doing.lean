import Gurl.Dynbuf

/-! The packets that `lib/mqtt.c` builds. -/

namespace Gurl.Mqtt

/-- `MQTT_MSG_CONNECT`, and the other first bytes of packets. -/
def msgConnect : UInt8 := 0x10
def msgPublish : UInt8 := 0x30
def msgSubscribe : UInt8 := 0x82
def msgSuback : UInt8 := 0x90
def msgDisconnect : UInt8 := 0xe0
def msgPingreq : UInt8 := 0xc0
def msgPingresp : UInt8 := 0xd0

/-- `MQTT_CLIENTID_LEN`, the sizes of two bodies, and `MAX_MQTT_MESSAGE_SIZE`. -/
def clientidLen : Nat := 12
def connackLen : Nat := 2
def subackLen : Nat := 3
def maxMessageSize : Nat := 0xFFFFFFF

/-- What a transfer is set up with: `topic` is what `Curl_urldecode` makes of the path, if it takes
it, and `random` what `Curl_rand_alnum` puts behind `curl` in the client id. -/
structure Setup where
  user : Bytes
  passwd : Bytes
  random : Bytes
  topic : Option Bytes
  post : Bool
  postfields : Option Bytes
  maxFilesize : Nat
  upkeepIntervalMs : Nat

/-- The loop of `mqtt_encode_len`. -/
def encodeLoop : Nat → Nat → Bytes
  | 0, _ => []
  | i + 1, len =>
    if len = 0 then []
    else
      let encoded := UInt8.ofNat (len % 0x80)
      (if len / 0x80 ≠ 0 then encoded ||| 0x80 else encoded) :: encodeLoop i (len / 0x80)

/-- `mqtt_encode_len`. -/
def encodeLen (len : Nat) : Bytes := encodeLoop 4 len

/-- A length in two bytes. -/
def twoBytes (n : Nat) : Bytes := [UInt8.ofNat (n / 0x100 % 0x100), UInt8.ofNat (n % 0x100)]

/-- The part of a CONNECT packet for a name or a password. -/
def connectField (text : Bytes) : Bytes :=
  if text = [] then [] else twoBytes text.length ++ text

/-- The flags of a CONNECT packet. -/
def connectFlags (setup : Setup) : UInt8 :=
  0x02 ||| (if setup.user = [] then 0 else 0x80) ||| if setup.passwd = [] then 0 else 0x40

/-- The packet of `mqtt_connect`. -/
def connectPacket (setup : Setup) : Except Curlcode Bytes :=
  let clientId := [0x63, 0x75, 0x72, 0x6c] ++ setup.random
  let payloadlen := setup.user.length + setup.passwd.length + clientidLen + 2 +
    (if setup.user = [] then 0 else 2) + if setup.passwd = [] then 0 else 2
  let remain := encodeLen (payloadlen + 10)
  if payloadlen + 10 + remain.length + 1 > 0xFFFFFFF then .error .weirdServerReply
  else if clientId.length ≠ clientidLen then .error .weirdServerReply
  else if setup.user.length > 0xffff ∨ setup.passwd.length > 0xffff then .error .weirdServerReply
  else
    .ok (msgConnect :: remain ++
      [0x00, 0x04, 0x4d, 0x51, 0x54, 0x54, 0x04, connectFlags setup, 0x00, 0x3c] ++
      twoBytes clientidLen ++ clientId ++ connectField setup.user ++ connectField setup.passwd)

/-- `mqtt_get_topic`. -/
def getTopic (setup : Setup) : Except Curlcode Bytes :=
  match setup.topic with
  | none => .error .urlMalformat
  | some topic => if topic.length > 0xffff then .error .urlMalformat else .ok topic

/-- The packet of `mqtt_subscribe`. -/
def subscribePacket (packetid : Nat) (topic : Bytes) : Bytes :=
  msgSubscribe :: encodeLen (topic.length + 5) ++ twoBytes packetid ++ twoBytes topic.length ++
    topic ++ [0]

/-- The packet of `mqtt_publish`. -/
def publishPacket (setup : Setup) : Except Curlcode Bytes :=
  match setup.postfields with
  | none => .error .badFunctionArgument
  | some payload =>
    match getTopic setup with
    | .error e => .error e
    | .ok topic =>
      let remaininglength := payload.length + 2 + topic.length
      let encoded := encodeLen remaininglength
      if remaininglength > maxMessageSize - encoded.length - 1 then .error .tooLarge
      else .ok (msgPublish :: encoded ++ twoBytes topic.length ++ topic ++ payload)

/-- The packets of `mqtt_disconnect` and `mqtt_ping`. -/
def disconnectPacket : Bytes := [msgDisconnect, 0]
def pingPacket : Bytes := [msgPingreq, 0]

theorem getTopic_error {setup : Setup} {e : Curlcode} (h : getTopic setup = .error e) :
    e = .urlMalformat := by
  unfold getTopic at h
  split at h
  · cases h
    rfl
  · split at h
    · cases h
      rfl
    · cases h

/-- A packet that cannot be built is an error of the transfer. -/
theorem publishPacket_error {setup : Setup} {e : Curlcode} (h : publishPacket setup = .error e) :
    e ≠ .ok ∧ e ≠ .again := by
  unfold publishPacket at h
  split at h
  · cases h
    decide
  · split at h
    · rename_i htopic
      cases h
      rw [getTopic_error htopic]
      decide
    · dsimp only at h
      split at h
      · cases h
        decide
      · cases h

/-! `mqtt_doing` of `lib/mqtt.c` and what it calls, over a connection that takes and gives bytes in
pieces of any size. -/

/-- `enum mqttstate`. -/
inductive MqttState where
  | first | remainingLength | connack | suback | subackComing | pubwait | pubRemain | nostate
  deriving DecidableEq

/-! ### Sending -/

/-- A packet that is handed to `mqtt_send`: how many bytes of an earlier one are still in `sendbuf`,
and how many bytes of it are not taken at once. -/
structure Offer where
  pending : Nat
  unsent : Nat

/-- The fields of `struct MQTT` for sending, with the connection they are for: how many bytes each
`Curl_xfer_send` takes at most, the clock, what is on the wire, and the packets that were built. -/
structure Outgoing where
  sendbuf : Dynbuf
  lastTime : Nat
  pingsent : Bool
  sends : List Nat
  clock : List Nat
  time : Nat
  wire : Bytes
  built : List Bytes
  offers : List Offer

/-- `DYN_MQTT_SEND`. -/
def dynMqttSend : Nat := 0xFFFFFFF

/-- How many bytes `Curl_xfer_send` takes: all of them when nothing else is said. -/
def Outgoing.taken (out : Outgoing) (buf : Bytes) : Nat :=
  match out.sends with
  | [] => buf.length
  | k :: _ => min k buf.length

/-- `Curl_xfer_send`. -/
def Outgoing.xferSend (out : Outgoing) (buf : Bytes) : Outgoing :=
  { out with sends := out.sends.tail, wire := out.wire ++ buf.take (out.taken buf) }

/-- `Curl_pgrs_now`: some time may pass before each reading. -/
def Outgoing.now (out : Outgoing) : Outgoing :=
  { out with time := out.time + out.clock.headD 0, clock := out.clock.tail }

/-- Something was sent or received now. -/
def Outgoing.touch (out : Outgoing) : Outgoing := { out.now with lastTime := out.now.time }

/-- What `mqtt_send` keeps of a buffer of which `n` bytes were taken. -/
def keepRest (sendbuf : Dynbuf) (buf : Bytes) (n : Nat) : Dynbuf × Curlcode :=
  if buf.length ≠ n then
    if sendbuf.content.length ≠ 0 then sendbuf.tail (buf.length - n)
    else sendbuf.nappend (buf.drop n) true
  else (sendbuf.reset, .ok)

/-- `mqtt_send`. -/
def mqttSend (out : Outgoing) (buf : Bytes) : Outgoing × Curlcode :=
  let (sendbuf, result) := keepRest out.sendbuf buf (out.taken buf)
  ({ (out.xferSend buf).touch with sendbuf }, result)

/-- A new packet goes to `mqtt_send`. -/
def sendPacket (out : Outgoing) (packet : Bytes) : Outgoing × Curlcode :=
  mqttSend { out with built := out.built ++ [packet],
                      offers := out.offers ++ [⟨out.sendbuf.content.length,
                        packet.length - out.taken packet⟩] } packet

/-- The first part of `mqtt_doing`: the rest of an earlier packet. -/
def sendRemainder (out : Outgoing) : Outgoing × Curlcode :=
  if out.sendbuf.content.length ≠ 0 then mqttSend out out.sendbuf.content else (out, .ok)

def Outgoing.setPingsent (out : Outgoing) (pingsent : Bool) : Outgoing := { out with pingsent }

/-- `mqtt_ping`. -/
def mqttPing (setup : Setup) (state : MqttState) (out : Outgoing) : Outgoing × Curlcode :=
  if state = .first ∧ out.pingsent = false ∧ setup.upkeepIntervalMs > 0 then
    if out.now.time - out.now.lastTime > setup.upkeepIntervalMs then
      let (out, result) := sendPacket out.now pingPacket
      (if result = .ok then out.setPingsent true else out, result)
    else (out.now, .ok)
  else (out, .ok)

/-! ### Receiving -/

/-- What a byte from the broker is taken for. -/
inductive Role where
  | first | length | connack | suback | publish
  deriving DecidableEq

/-- The fields of `struct MQTT` and `struct mqtt_conn` for receiving, with the connection they are
for: the bytes that are still to come, how many of them each `Curl_xfer_recv` gives at most (`none`
is `CURLE_AGAIN`), what every byte was taken for, and what was written to the client. -/
structure Incoming where
  state : MqttState
  nextstate : MqttState
  packetid : Nat
  recvbuf : Bytes
  npacket : Nat
  remainingLength : Nat
  pktHd : Bytes
  firstbyte : UInt8
  stream : Bytes
  recvs : List (Option Nat)
  log : List (Role × UInt8)
  body : Bytes

/-- What a part of `mqtt_doing` returns: the result, `*done`, whether `lastTime` is set, and whether
a ping was answered. -/
structure Answer where
  result : Curlcode
  done : Bool
  heard : Bool
  pong : Bool

/-- A result and nothing else. -/
def Answer.just (result : Curlcode) : Answer := ⟨result, false, false, false⟩

/-- The next `n` bytes, or what there is. -/
def Incoming.take (rx : Incoming) (role : Role) (n : Nat) : Incoming :=
  { rx with recvs := rx.recvs.tail
            stream := rx.stream.drop n
            log := rx.log ++ (rx.stream.take n).map (role, ·) }

def Incoming.skipRecv (rx : Incoming) : Incoming := { rx with recvs := rx.recvs.tail }

/-- `Curl_xfer_recv`: `none` is `CURLE_AGAIN`, no bytes are the end of the stream. A read that gives
something gives one byte at least. -/
def Incoming.recv (rx : Incoming) (role : Role) (n : Nat) : Incoming × Option Bytes :=
  match rx.recvs with
  | [] => (rx.take role n, some (rx.stream.take n))
  | none :: _ => (rx.skipRecv, none)
  | some k :: _ => (rx.take role (min n (k + 1)), some (rx.stream.take (min n (k + 1))))

/-- `mqstate`. -/
def Incoming.mqstate (rx : Incoming) (state nextstate : MqttState) : Incoming :=
  { rx with state, nextstate := if state = .first then nextstate else rx.nextstate }

/-- The loop of `mqtt_decode_len`, at index `i`. -/
def decodeLoop : Nat → Nat → Nat → Bytes → Option Nat
  | _, _, _, [] => none
  | i, len, mult, encoded :: buf =>
    if i = 4 then none
    else
      let len := len + (encoded &&& 127).toNat * mult
      if encoded &&& 128 ≠ 0 then decodeLoop (i + 1) len (mult * 128) buf else some len

/-- `mqtt_decode_len`. -/
def decodeLen (buf : Bytes) : Option Nat := decodeLoop 0 0 1 buf

def Incoming.pushLength (rx : Incoming) (b : UInt8) : Incoming :=
  { rx with pktHd := rx.pktHd.take rx.npacket ++ [b], npacket := rx.npacket + 1 }

/-- The loop of `mqtt_doing` for `MQTT_REMAINING_LENGTH`: the result and the last byte, if there was
one. -/
def lengthLoop : Nat → Incoming → Incoming × Curlcode × Option UInt8
  | 0, rx => (rx, .ok, none)
  | fuel + 1, rx =>
    match rx.recv .length 1 with
    | (rx, none) => (rx, .again, none)
    | (rx, some []) => (rx, .ok, none)
    | (rx, some (b :: _)) =>
      if b &&& 0x80 ≠ 0 ∧ (rx.pushLength b).npacket < 4 then lengthLoop fuel (rx.pushLength b)
      else (rx.pushLength b, .ok, some b)

/-- What `mqtt_doing` does with a complete fixed header. -/
def headerDone (rx : Incoming) : Incoming × Answer :=
  let type := rx.firstbyte &&& 0xf0
  let reserved := rx.firstbyte &&& 0x0f
  if (type = msgDisconnect ∨ type = msgPingresp) ∧ (rx.remainingLength ≠ 0 ∨ reserved ≠ 0) then
    (rx, .just .weirdServerReply)
  else if rx.remainingLength ≠ 0 then (rx.mqstate rx.nextstate .nostate, .just .ok)
  else if rx.firstbyte = msgPingresp then
    (rx.mqstate .first .pubwait, ⟨.ok, false, false, true⟩)
  else (rx.mqstate .first .first, ⟨.ok, rx.firstbyte = msgDisconnect, false, false⟩)

def Incoming.setLength (rx : Incoming) (len : Nat) : Incoming :=
  { rx with remainingLength := len, npacket := 0 }

/-- `mqtt_doing` in `MQTT_REMAINING_LENGTH`. -/
def doRemainingLength (rx : Incoming) : Incoming × Answer :=
  match lengthLoop 4 rx with
  | (rx, .ok, last) =>
    if last.any (· &&& 0x80 ≠ 0) then (rx, .just .weirdServerReply)
    else
      match decodeLen (rx.pktHd.take rx.npacket) with
      | none => (rx, .just .weirdServerReply)
      | some len => headerDone (rx.setLength len)
  | (rx, result, _) => (rx, .just result)

/-- A packet starts: no byte of `pkt_hd` is in use. -/
def Incoming.startPacket (rx : Incoming) (b : UInt8) : Incoming :=
  ({ rx with firstbyte := b, npacket := 0, pktHd := [] } : Incoming).mqstate
    .remainingLength .nostate

/-- `mqtt_doing` in `MQTT_FIRST`. -/
def doFirst (rx : Incoming) : Incoming × Answer :=
  match rx.recv .first 1 with
  | (rx, none) => (rx, .just .again)
  | (rx, some []) => (rx, ⟨.recvError, true, false, false⟩)
  | (rx, some (b :: _)) =>
    let (rx, answer) := doRemainingLength (rx.startPacket b)
    (rx, { answer with heard := true })

def Incoming.setRecvbuf (rx : Incoming) (recvbuf : Bytes) : Incoming := { rx with recvbuf }

/-- `mqtt_recv_atleast`. -/
def recvAtleast (rx : Incoming) (role : Role) (nbytes : Nat) : Incoming × Curlcode :=
  if rx.recvbuf.length < nbytes then
    match rx.recv role (nbytes - rx.recvbuf.length) with
    | (rx, none) => (rx, .again)
    | (rx, some bytes) =>
      if bytes = [] then (rx, .recvError)
      else
        (rx.setRecvbuf (rx.recvbuf ++ bytes),
          if (rx.recvbuf ++ bytes).length ≥ nbytes then .ok else .again)
  else (rx, .ok)

/-- `mqtt_recv_consume`. -/
def Incoming.recvConsume (rx : Incoming) (nbytes : Nat) : Incoming :=
  rx.setRecvbuf (rx.recvbuf.drop nbytes)

/-- `mqtt_verify_connack`, and `mqtt_verify_suback` with another body. -/
def verifyBody (rx : Incoming) (role : Role) (expected : Bytes) : Incoming × Curlcode :=
  if rx.remainingLength ≠ expected.length then (rx, .weirdServerReply)
  else
    match recvAtleast rx role expected.length with
    | (rx, .ok) =>
      if rx.recvbuf.take expected.length ≠ expected then (rx.setRecvbuf [], .weirdServerReply)
      else (rx.recvConsume expected.length, .ok)
    | (rx, result) => (rx, result)

/-- `mqtt_verify_connack`. -/
def verifyConnack (rx : Incoming) : Incoming × Curlcode := verifyBody rx .connack [0, 0]

/-- `mqtt_verify_suback`. -/
def verifySuback (rx : Incoming) : Incoming × Curlcode :=
  verifyBody rx .suback (twoBytes rx.packetid ++ [0])

/-- `mqtt_read_publish` in `MQTT_SUBACK_COMING`. -/
def readSuback (rx : Incoming) : Incoming × Answer :=
  match verifySuback rx with
  | (rx, .ok) => (rx.mqstate .first .pubwait, .just .ok)
  | (rx, result) => (rx, .just result)

/-- Some bytes of the body of a PUBLISH packet. -/
def Incoming.writeBody (rx : Incoming) (bytes : Bytes) : Incoming :=
  { rx with body := rx.body ++ bytes, npacket := rx.npacket - bytes.length }

/-- `mqtt_read_publish` in `MQTT_PUB_REMAIN`, with a client that takes all bytes. -/
def readRemain (rx : Incoming) : Incoming × Answer :=
  match rx.recv .publish (min rx.npacket 4096) with
  | (rx, none) => (rx, .just .again)
  | (rx, some bytes) =>
    if bytes = [] then (rx, .just .partialFile)
    else
      (if (rx.writeBody bytes).npacket = 0 then (rx.writeBody bytes).mqstate .first .pubwait
        else rx.writeBody bytes, ⟨.ok, false, true, false⟩)

def Incoming.setNpacket (rx : Incoming) (npacket : Nat) : Incoming := { rx with npacket }

/-- `mqtt_read_publish` in `MQTT_SUBACK` and `MQTT_PUBWAIT`. -/
def readPacket (setup : Setup) (rx : Incoming) : Incoming × Answer :=
  let packet := rx.firstbyte &&& 0xf0
  if packet = msgPublish then
    if setup.maxFilesize ≠ 0 ∧ rx.remainingLength > setup.maxFilesize then
      (rx.mqstate .pubRemain .nostate, .just .filesizeExceeded)
    else readRemain ((rx.mqstate .pubRemain .nostate).setNpacket rx.remainingLength)
  else if packet = msgSuback then readSuback (rx.mqstate .subackComing .nostate)
  else if packet = msgDisconnect then (rx, ⟨.ok, true, false, false⟩)
  else (rx, .just .weirdServerReply)

/-! ### Both -/

/-- A transfer. -/
structure Session where
  out : Outgoing
  rx : Incoming

/-- `mqtt_publish`. -/
def mqttPublish (setup : Setup) (out : Outgoing) : Outgoing × Curlcode :=
  match publishPacket setup with
  | .error e => (out, e)
  | .ok packet => sendPacket out packet

/-- `mqtt_subscribe`, with the next packet id. -/
def mqttSubscribe (setup : Setup) (packetid : Nat) (out : Outgoing) : Outgoing × Curlcode :=
  match getTopic setup with
  | .error e => (out, e)
  | .ok topic => sendPacket out (subscribePacket packetid topic)

def Incoming.setPacketid (rx : Incoming) (packetid : Nat) : Incoming := { rx with packetid }

def Incoming.setNextstate (rx : Incoming) (nextstate : MqttState) : Incoming :=
  { rx with nextstate }

/-- What `mqtt_doing` does when the broker has accepted the connection. -/
def connected (setup : Setup) (out : Outgoing) (rx : Incoming) : Session × Answer :=
  if setup.post then
    match mqttPublish setup out with
    | (out, .ok) =>
      let (out, result) := sendPacket out disconnectPacket
      (⟨out, rx.setNextstate .first⟩, ⟨result, true, false, false⟩)
    | (out, result) => (⟨out, rx.setNextstate .first⟩, .just result)
  else
    -- the packet id only counts up when there is a topic
    let packetid := if (getTopic setup).isOk then rx.packetid + 1 else rx.packetid
    match mqttSubscribe setup packetid out with
    | (out, .ok) => (⟨out, (rx.setPacketid packetid).mqstate .first .suback⟩, .just .ok)
    | (out, result) => (⟨out, rx.setPacketid packetid⟩, .just result)

/-- `mqtt_doing` in `MQTT_CONNACK`. -/
def doConnack (setup : Setup) (out : Outgoing) (rx : Incoming) : Session × Answer :=
  match verifyConnack rx with
  | (rx, .ok) => connected setup out rx
  | (rx, result) => (⟨out, rx⟩, .just result)

/-- What an answer does to the fields for sending. -/
def Outgoing.answered (out : Outgoing) (answer : Answer) : Outgoing :=
  let out := if answer.heard then out.touch else out
  if answer.pong then out.setPingsent false else out

/-- The `switch` of `mqtt_doing`. -/
def dispatch (setup : Setup) (s : Session) : Session × Answer :=
  match s.rx.state with
  | .first =>
    let (rx, answer) := doFirst s.rx
    (⟨s.out.answered answer, rx⟩, answer)
  | .remainingLength =>
    let (rx, answer) := doRemainingLength s.rx
    (⟨s.out.answered answer, rx⟩, answer)
  | .connack => doConnack setup s.out s.rx
  | .suback | .pubwait =>
    let (rx, answer) := readPacket setup s.rx
    (⟨s.out.answered answer, rx⟩, answer)
  | .pubRemain =>
    let (rx, answer) := readRemain s.rx
    (⟨s.out.answered answer, rx⟩, answer)
  -- a state that is not handled
  | .subackComing | .nostate => (s, ⟨.ok, true, false, false⟩)

/-- `mqtt_doing`: the result and `*done`. -/
def mqttDoing (setup : Setup) (s : Session) : Session × Curlcode × Bool :=
  match sendRemainder s.out with
  | (out, .ok) =>
    match mqttPing setup s.rx.state out with
    | (out, .ok) =>
      let (s, answer) := dispatch setup ⟨out, s.rx⟩
      (s, if answer.result = .again then .ok else answer.result, answer.done)
    | (out, result) => (⟨out, s.rx⟩, result, false)
  | (out, result) => (⟨out, s.rx⟩, result, false)

/-- `mqtt_do`: a failure does not start the receiver. -/
def mqttDo (setup : Setup) (s : Session) : Session × Curlcode :=
  let out := s.out.touch.setPingsent false
  match connectPacket setup with
  | .error e => (⟨out, s.rx⟩, e)
  | .ok packet =>
    match sendPacket out packet with
    | (out, .ok) => (⟨out, s.rx.mqstate .first .connack⟩, .ok)
    | (out, result) => (⟨out, s.rx⟩, result)

/-- What `mqtt_setup_conn` starts with, for a connection that takes and gives bytes in some
pieces. -/
def setupConn (sends clock : List Nat) (stream : Bytes) (recvs : List (Option Nat)) : Session where
  out :=
    { sendbuf := .init dynMqttSend, lastTime := 0, pingsent := false, sends, clock, time := 0,
      wire := [], built := [], offers := [] }
  rx :=
    { state := .first, nextstate := .first, packetid := 0, recvbuf := [], npacket := 0,
      remainingLength := 0, pktHd := [], firstbyte := 0, stream, recvs, log := [], body := [] }

/-- So many calls of `mqtt_doing`, until one fails or is done. -/
def doingLoop (setup : Setup) : Nat → Session → Session × Curlcode × Bool
  | 0, s => (s, .ok, false)
  | n + 1, s =>
    match mqttDoing setup s with
    | (s, .ok, false) => doingLoop setup n s
    | (s, result, done) => (s, result, done)

/-- `mqtt_do`, and so many calls of `mqtt_doing` behind it. -/
def mqttRun (setup : Setup) (n : Nat) (s : Session) : Session × Curlcode × Bool :=
  match mqttDo setup s with
  | (s, .ok) => doingLoop setup n s
  | (s, result) => (s, result, false)

end Gurl.Mqtt
