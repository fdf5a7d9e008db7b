import Gurl.Mprintf
import Gurl.Strcase

/-! `lib/tftp.c`: the state machine of a transfer. All datagrams come from the pinned server; what
the system answers to a call is given by a `Host`, one for each round of the state machine. -/

namespace Gurl.Tftp

open Strcase Strparse

/-- `TFTP_BLKSIZE_DEFAULT`. -/
def blksizeDefault : Nat := 512

/-- `TFTP_BLKSIZE_MIN`. -/
def blksizeMin : Nat := 8

/-- `TFTP_BLKSIZE_MAX`. -/
def blksizeMax : Nat := 65464

/-- `tftp_state_t`. -/
inductive State where
  | start | rx | tx | fin
  deriving DecidableEq

/-- `tftp_event_t`; a packet can have any number of an event. -/
inductive Event where
  | init | rrq | wrq | data | ack | error | oack | timeout
  | other (code : Nat)
  deriving DecidableEq

/-- The event with a number. -/
def Event.ofNat : Nat → Event
  | 0 => .init
  | 1 => .rrq
  | 2 => .wrq
  | 3 => .data
  | 4 => .ack
  | 5 => .error
  | 6 => .oack
  | 7 => .timeout
  | code => .other code

/-- `TFTP_ERR_NONE`. -/
def errNone : Int := -100

/-- `TFTP_ERR_TIMEOUT`. -/
def errTimeout : Int := -99

/-- `TFTP_ERR_NORESPONSE`. -/
def errNoresponse : Int := -98

/-- What the transfer is told: the file and how it is asked for. `filename` is the result of
`Curl_urldecode`. -/
structure Setup where
  upload : Bool
  path : Bytes
  filename : Except Curlcode Bytes
  preferAscii : Bool
  noOptions : Bool
  infilesize : Int

/-- What the system and the callbacks answer in a round: `sendto`, `Curl_client_write`,
`Curl_pgrsUpdate`, `Curl_client_read`, and the retry time and number that `tftp_set_timeouts`
finds. -/
structure Host where
  sendto : Bool
  clientWrite : Curlcode
  pgrsUpdate : Curlcode
  clientRead : Curlcode
  timeouts : Option (Nat × Nat)

/-- `struct tftp_conn`. `input` is what is left of the file that is read and `cut` how much of it a
call gives; `sent` has the packets that were sent and `written` what was passed to the client.
`accepted` notes the blocks that are taken for the next ones, with their numbers. -/
structure Conn where
  state : State
  error : Int
  retries : Nat
  retryTime : Nat
  retryMax : Nat
  rpacket : Bytes
  spacket : Bytes
  sbytes : Nat
  blksize : Nat
  requestedBlksize : Nat
  block : Nat
  input : Bytes
  cut : Nat → Nat
  sent : List Bytes
  written : List Bytes
  accepted : List (Nat × Bytes)

def hi (num : Nat) : UInt8 := UInt8.ofNat (num / 256)

def lo (num : Nat) : UInt8 := UInt8.ofNat (num % 256)

/-- `setpacketevent`. -/
def setpacketevent (packet : Bytes) (num : Nat) : Bytes := hi num :: lo num :: packet.drop 2

/-- `setpacketblock`. -/
def setpacketblock (packet : Bytes) (num : Nat) : Bytes :=
  packet.take 2 ++ hi num :: lo num :: packet.drop 4

def get16 (packet : Bytes) (index : Nat) : Nat :=
  (packet.getD index 0).toNat * 256 + (packet.getD (index + 1) 0).toNat

/-- `getrpacketevent`. -/
def getrpacketevent (packet : Bytes) : Nat := get16 packet 0

/-- `getrpacketblock`. -/
def getrpacketblock (packet : Bytes) : Nat := get16 packet 2

/-- `NEXT_BLOCKNUM`. -/
def nextBlocknum (x : Nat) : Nat := (x + 1) % 65536

/-- `tftp_option_get`: an option, its value and what is left. -/
def optionGet (buf : Bytes) : Option (Bytes × Bytes × Bytes) :=
  let option := buf.takeWhile (· != 0)
  if option.length + 1 ≥ buf.length then none
  else
    let value := (buf.drop (option.length + 1)).takeWhile (· != 0)
    let loc := option.length + 1 + value.length + 1
    if loc > buf.length then none else some (option, value, buf.drop loc)

/-- The loop of `tftp_parse_option_ack`: the block size and the result. -/
def parseOptionLoop (upload : Bool) (requested : Nat) : Nat → Bytes → Nat → Nat × Curlcode
  | 0, _, blksize => (blksize, .ok)
  | fuel + 1, buf, blksize =>
    if buf = [] then (blksize, .ok)
    else
      match optionGet buf with
      | none => (blksize, .tftpIllegal)
      | some (option, value, rest) =>
        if option.length = 7 ∧ strnequal option (ascii "blksize") 7 then
          match strNumber value blksizeMax with
          | .error _ => (blksize, .tftpIllegal)
          | .ok (num, _) =>
            if num = 0 ∨ num < blksizeMin ∨ num > requested then (blksize, .tftpIllegal)
            else parseOptionLoop upload requested fuel rest num
        else if option.length = 5 ∧ strnequal option (ascii "tsize") 5 ∧ !upload then
          match strNumber value (2 ^ 63 - 1) with
          | .error _ => parseOptionLoop upload requested fuel rest blksize
          | .ok (tsize, _) =>
            if tsize = 0 then (blksize, .tftpIllegal)
            else parseOptionLoop upload requested fuel rest blksize
        else parseOptionLoop upload requested fuel rest blksize

/-- `tftp_parse_option_ack`. -/
def parseOptionAck (upload : Bool) (requested : Nat) (buf : Bytes) : Nat × Curlcode :=
  parseOptionLoop upload requested (buf.length + 1) buf blksizeDefault

/-- `tftp_option_add`, behind the packet so far. -/
def optionAdd (blksize : Nat) (packet option : Bytes) : Option Bytes :=
  if blksize ≤ packet.length ∨ option.length + 1 > blksize - packet.length then none
  else some (packet ++ option ++ [0])

/-- The options, each behind the other. -/
def optionsAdd (blksize : Nat) : List Bytes → Bytes → Option Bytes
  | [], packet => some packet
  | option :: rest, packet => (optionAdd blksize packet option).bind (optionsAdd blksize rest)

/-- The bytes of the first packet. -/
def requestPacket (setup : Setup) (c : Conn) : Except Curlcode Bytes :=
  let mode := if setup.preferAscii then ascii "netascii" else ascii "octet"
  let event : Nat := if setup.upload then 2 else 1
  if setup.path = [] then .error .tftpIllegal
  else
    match setup.filename with
    | .error result => .error result
    | .ok filename =>
      if filename.length + mode.length + 4 > c.blksize then .error .tftpIllegal
      else
        let packet := [hi event, lo event] ++ filename ++ [0] ++ mode ++ [0]
        if setup.noOptions then .ok packet
        else
          let tsize := if setup.upload ∧ setup.infilesize ≠ -1 then setup.infilesize else 0
          match optionsAdd c.blksize
              [ascii "tsize", Mprintf.fmtInt tsize, ascii "blksize",
                Mprintf.fmtUint c.requestedBlksize,
                ascii "timeout", Mprintf.fmtUint c.retryTime] packet with
          | none => .error .tftpIllegal
          | some packet => .ok packet

/-- The first bytes of the packet are sent; the flag tells that `sendto` worked. -/
def send (host : Host) (c : Conn) (len : Nat) : Conn × Bool :=
  if host.sendto then ({ c with sent := c.sent ++ [c.spacket.take len] }, true) else (c, false)

/-- The packet is sent, or the call fails. -/
def sendOr (host : Host) (c : Conn) (len : Nat) : Conn × Curlcode :=
  match send host c len with
  | (c, true) => (c, .ok)
  | (c, false) => (c, .sendError)

/-- `tftp_set_timeouts`. -/
def setTimeouts (host : Host) (c : Conn) : Conn × Curlcode :=
  match host.timeouts with
  | none => (c, .operationTimedout)
  | some (retryTime, retryMax) => ({ c with retryTime, retryMax }, .ok)

/-- A packet of type `event` about the current block is sent, for better or worse. -/
def sendHeader (host : Host) (c : Conn) (event : Nat) : Conn :=
  let spacket := setpacketblock (setpacketevent c.spacket event) c.block
  (send host { c with spacket } 4).1

/-- The loop that fills a block: what `Curl_client_read` gives until the block is full or nothing
comes. A call that finds bytes gives at least one. -/
def readLoop (cut : Nat → Nat) : Nat → Nat → Bytes → Bytes × Bytes
  | 0, _, input => ([], input)
  | fuel + 1, room, input =>
    let cb := min (min room input.length) (max 1 (cut input.length))
    if cb < room ∧ cb ≠ 0 then
      let (bytes, rest) := readLoop cut fuel (room - cb) (input.drop cb)
      (input.take cb ++ bytes, rest)
    else (input.take cb, input.drop cb)

/-- The next block is read and sent. -/
def sendBlock (host : Host) (c : Conn) : Conn × Curlcode :=
  if host.clientRead ≠ .ok then ({ c with sbytes := 0 }, host.clientRead)
  else
    let (bytes, input) := readLoop c.cut (c.blksize + 1) c.blksize c.input
    let spacket := c.spacket.take 4 ++ bytes ++ c.spacket.drop (4 + bytes.length)
    let c := { c with sbytes := bytes.length, input, spacket }
    sendOr host c (4 + c.sbytes)

/-- `tftp_tx`, with an acknowledgement: `block` is the number of the next packet. -/
def txNext (host : Host) (c : Conn) (block : Nat) : Conn × Curlcode :=
  let spacket := setpacketblock (setpacketevent c.spacket 3) block
  let c := { c with block, retries := 0, spacket }
  if c.block > 1 ∧ c.sbytes < c.blksize then ({ c with state := .fin }, .ok) else sendBlock host c

/-- `tftp_tx`. -/
def tftpTx (host : Host) (c : Conn) (event : Event) : Conn × Curlcode :=
  match event with
  | .ack =>
    let rblock := getrpacketblock c.rpacket
    -- a server may acknowledge 65535 when the number wraps to 0
    if rblock ≠ c.block ∧ ¬(c.block = 0 ∧ rblock = 65535) then
      let c := { c with retries := c.retries + 1 }
      if c.retries > c.retryMax then (c, .sendError) else sendOr host c (4 + c.sbytes)
    else txNext host c (nextBlocknum c.block)
  | .oack => txNext host c 1
  | .timeout =>
    let c := { c with retries := c.retries + 1 }
    if c.retries > c.retryMax then ({ c with error := errTimeout, state := .fin }, .ok)
    else sendOr host c (4 + c.sbytes)
  | .error => ({ sendHeader host c 5 with state := .fin }, .ok)
  | _ => (c, .ok)

/-- The block is acknowledged, and a short one ends the transfer. -/
def rxAck (host : Host) (c : Conn) (rblock : Nat) : Conn × Curlcode :=
  let spacket := setpacketblock (setpacketevent c.spacket 4) rblock
  match sendOr host { c with block := rblock, spacket } 4 with
  | (c, .ok) =>
    ({ c with state := if c.rpacket.length < c.blksize + 4 then .fin else .rx }, .ok)
  | failure => failure

/-- `tftp_rx`. -/
def tftpRx (host : Host) (c : Conn) (event : Event) : Conn × Curlcode :=
  match event with
  | .data =>
    let rblock := getrpacketblock c.rpacket
    if nextBlocknum c.block = rblock then rxAck host { c with retries := 0 } rblock
    else if c.block = rblock then rxAck host c rblock
    else (c, .ok)
  | .oack =>
    let spacket := setpacketblock (setpacketevent c.spacket 4) 0
    match sendOr host { c with block := 0, retries := 0, spacket } 4 with
    | (c, .ok) => ({ c with state := .rx }, .ok)
    | failure => failure
  | .timeout =>
    let c := { c with retries := c.retries + 1 }
    if c.retries > c.retryMax then ({ c with error := errTimeout, state := .fin }, .ok)
    else sendOr host c 4
  | .error => ({ sendHeader host c 5 with state := .fin }, .ok)
  | _ => (c, .tftpIllegal)

/-- `tftp_connect_for_tx` and `tftp_connect_for_rx`. -/
def connectFor (host : Host) (c : Conn) (state : State)
    (machine : Host → Conn → Event → Conn × Curlcode) (event : Event) : Conn × Curlcode :=
  match setTimeouts host { c with state } with
  | (c, .ok) => machine host c event
  | failure => failure

/-- `tftp_send_first`. -/
def sendFirst (setup : Setup) (host : Host) (c : Conn) (event : Event) : Conn × Curlcode :=
  match event with
  | .init | .timeout =>
    let c := { c with retries := c.retries + 1 }
    if c.retries > c.retryMax then ({ c with error := errNoresponse, state := .fin }, .ok)
    else
      match requestPacket setup c with
      | .error result => (c, result)
      | .ok packet =>
        sendOr host { c with spacket := packet ++ c.spacket.drop packet.length } packet.length
  | .oack =>
    if setup.upload then connectFor host c .tx tftpTx event else connectFor host c .rx tftpRx event
  | .ack => connectFor host c .tx tftpTx event
  | .data => connectFor host c .rx tftpRx event
  | .error => ({ c with state := .fin }, .ok)
  | _ => (c, .tftpIllegal)

/-- `tftp_state_machine`. -/
def stateMachine (setup : Setup) (host : Host) (c : Conn) (event : Event) : Conn × Curlcode :=
  match c.state with
  | .start => sendFirst setup host c event
  | .rx => tftpRx host c event
  | .tx => tftpTx host c event
  | .fin => (c, .ok)

/-- `tftp_translate_code`. -/
def translateCode (error : Int) : Curlcode :=
  if error = errNone then .ok
  else if error = 1 then .tftpNotfound
  else if error = 2 then .tftpPerm
  else if error = 3 then .remoteDiskFull
  else if error = 0 ∨ error = 4 then .tftpIllegal
  else if error = 5 then .tftpUnknownid
  else if error = 6 then .remoteFileExists
  else if error = 7 then .tftpNosuchuser
  else if error = errTimeout then .operationTimedout
  else if error = errNoresponse then .couldntConnect
  else .abortedByCallback

/-- What `tftp_receive_packet` does with a packet, before it updates the progress meter. -/
def dispatch (setup : Setup) (host : Host) (c : Conn) (dgram : Bytes) : Event → Conn × Curlcode
  | .data =>
    if nextBlocknum c.block = getrpacketblock c.rpacket then
      let c := { c with accepted := c.accepted ++ [(getrpacketblock c.rpacket, dgram.drop 4)] }
      if c.rpacket.length > 4 then
        let c := { c with written := c.written ++ [c.rpacket.drop 4] }
        if host.clientWrite ≠ .ok then ((stateMachine setup host c .error).1, host.clientWrite)
        else (c, .ok)
      else (c, .ok)
    else (c, .ok)
  | .error => ({ c with error := getrpacketblock c.rpacket }, .ok)
  | .oack =>
    let (blksize, result) := parseOptionAck setup.upload c.requestedBlksize (c.rpacket.drop 2)
    ({ c with blksize }, result)
  | _ => (c, .ok)

/-- `tftp_receive_packet`: the datagram is cut to the size of a packet. Without one `recvfrom`
failed. -/
def receivePacket (setup : Setup) (host : Host) (c : Conn) (dgram : Option Bytes) :
    Conn × Event × Curlcode :=
  let bytes := dgram.getD []
  let c := { c with rpacket := bytes.take (c.blksize + 4) }
  if c.rpacket.length < 4 then (c, .timeout, .ok)
  else
    let event := Event.ofNat (getrpacketevent c.rpacket)
    match dispatch setup host c bytes event with
    | (c, .ok) =>
      if host.pgrsUpdate ≠ .ok then ((stateMachine setup host c .error).1, event, host.pgrsUpdate)
      else (c, event, .ok)
    | (c, result) => (c, event, result)

/-- What happens before a round: the transfer has taken too long, the server is too slow, or a
datagram is there. -/
inductive Input where
  | expired
  | slow
  | readable (dgram : Option Bytes)

/-- `tftp_multi_statemach`. -/
def multiStatemach (setup : Setup) (host : Host) (c : Conn) : Input → Conn × Curlcode
  | .expired => ({ c with error := errTimeout, state := .fin }, .operationTimedout)
  | .slow => stateMachine setup host c .timeout
  | .readable dgram =>
    match receivePacket setup host c dgram with
    | (c, event, .ok) => stateMachine setup host c event
    | (c, _, result) => (c, result)

/-- A transfer: `ended` has its result once there is one. -/
structure Transfer where
  conn : Conn
  ended : Option Curlcode

/-- The result of a transfer after a round. -/
def Transfer.after : Conn × Curlcode → Transfer
  | (c, .ok) => ⟨c, if c.state = .fin then some (translateCode c.error) else none⟩
  | (c, result) => ⟨c, some result⟩

/-- A round of a transfer. -/
def Transfer.round (setup : Setup) (t : Transfer) (host : Host) (input : Input) : Transfer :=
  if t.ended = none then .after (multiStatemach setup host t.conn input) else t

/-- The connection that `tftp_connect` makes, with the timeouts that it finds. -/
def connect (requestedBlksize retryTime retryMax : Nat) (file : Bytes) (cut : Nat → Nat) :
    Conn where
  state := .start
  error := errNone
  retries := 0
  retryTime := retryTime
  retryMax := retryMax
  rpacket := []
  spacket := List.replicate (max requestedBlksize blksizeDefault + 4) 0
  sbytes := 0
  blksize := blksizeDefault
  requestedBlksize := requestedBlksize
  block := 0
  input := file
  cut := cut
  sent := []
  written := []
  accepted := []

/-- `tftp_perform` starts a transfer. -/
def perform (setup : Setup) (host : Host) (c : Conn) : Transfer :=
  .after (stateMachine setup host c .init)

end Gurl.Tftp
