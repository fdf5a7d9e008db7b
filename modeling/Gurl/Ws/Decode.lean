import Gurl.Buffer.Calls
import Gurl.Lib.Feed

/-! The first byte of a WebSocket frame and the flags that stand for it, of `lib/ws.c`. -/

namespace Gurl.Ws

/-- `CURLWS_TEXT`, and the other flags of a frame. -/
def wsText : UInt32 := 1
def wsBinary : UInt32 := 2
def wsCont : UInt32 := 4
def wsClose : UInt32 := 8
def wsPing : UInt32 := 16
def wsOffset : UInt32 := 32
def wsPong : UInt32 := 64

/-- `WSBIT_FIN`, and the other bits and opcodes of a first byte. -/
def bitFin : UInt8 := 0x80
def opcodeCont : UInt8 := 0x0
def opcodeText : UInt8 := 0x1
def opcodeBin : UInt8 := 0x2
def opcodeClose : UInt8 := 0x8
def opcodePing : UInt8 := 0x9
def opcodePong : UInt8 := 0xa

/-- `WSBIT_MASK`. -/
def bitMask : UInt8 := 0x80

/-- `WS_MAX_CNTRL_LEN`. -/
def maxCntrlLen : Nat := 125

/-- Some of the bits of `mask` are set. -/
def has (flags mask : UInt32) : Bool := flags &&& mask != 0

/-- `ws_frame_firstbyte2flags`: 0 for a byte that is refused. -/
def frameFirstbyte2flags (firstbyte : UInt8) (contFlags : UInt32) : UInt32 :=
  if firstbyte = opcodeCont then
    if !has contFlags wsCont then 0 else contFlags ||| wsCont
  else if firstbyte = opcodeCont ||| bitFin then
    if !has contFlags wsCont then 0 else contFlags &&& ~~~wsCont
  else if firstbyte = opcodeText then
    if has contFlags wsCont then 0 else wsText ||| wsCont
  else if firstbyte = opcodeText ||| bitFin then
    if has contFlags wsCont then 0 else wsText
  else if firstbyte = opcodeBin then
    if has contFlags wsCont then 0 else wsBinary ||| wsCont
  else if firstbyte = opcodeBin ||| bitFin then
    if has contFlags wsCont then 0 else wsBinary
  else if firstbyte = opcodeClose ||| bitFin then wsClose
  else if firstbyte = opcodePing ||| bitFin then wsPing
  else if firstbyte = opcodePong ||| bitFin then wsPong
  -- fragmented control frames, reserved bits and reserved opcodes
  else 0

/-- `ws_frame_flags2firstbyte`. -/
def frameFlags2firstbyte (flags : UInt32) (contfragment : Bool) : Except Curlcode UInt8 :=
  let kind := flags &&& ~~~wsOffset
  if kind = 0 then
    if contfragment then .ok (opcodeCont ||| bitFin) else .error .badFunctionArgument
  else if kind = wsCont then
    if contfragment then .ok opcodeCont else .error .badFunctionArgument
  else if kind = wsText then
    .ok (if contfragment then opcodeCont ||| bitFin else opcodeText ||| bitFin)
  else if kind = wsText ||| wsCont then .ok (if contfragment then opcodeCont else opcodeText)
  else if kind = wsBinary then
    .ok (if contfragment then opcodeCont ||| bitFin else opcodeBin ||| bitFin)
  else if kind = wsBinary ||| wsCont then .ok (if contfragment then opcodeCont else opcodeBin)
  else if kind = wsClose then .ok (opcodeClose ||| bitFin)
  else if kind = wsPing then .ok (opcodePing ||| bitFin)
  else if kind = wsPong then .ok (opcodePong ||| bitFin)
  -- fragmented control frames and unknown flags
  else .error .badFunctionArgument

/-- What a peer keeps of the first bytes: the flags of the last data frame. A byte that
`ws_frame_firstbyte2flags` refuses ends it. -/
def peerStep (contFlags : UInt32) (firstbyte : UInt8) : Option UInt32 :=
  let flags := frameFirstbyte2flags firstbyte contFlags
  if flags = 0 then none
  else some (if has flags (wsText ||| wsBinary) then flags else contFlags)

/-- The first bytes of frames that a peer takes, one after the other. -/
def Legal (firstbytes : Bytes) : Prop := (firstbytes.foldlM peerStep 0).isSome

/-! How `lib/ws.c` reads frames from a receive queue. -/

open Buffer

/-- `enum ws_dec_state`. -/
inductive DecState where
  | init | head | payload
  deriving DecidableEq

/-- `struct ws_decoder`: the first `head_len` bytes of `head` are its list. -/
structure Decoder where
  frameAge : Int
  frameFlags : UInt32
  payloadOffset : Nat
  payloadLen : Nat
  head : Bytes
  headTotal : Nat
  state : DecState
  contFlags : UInt32

/-- `ws_dec_next_frame`. -/
def Decoder.nextFrame (dec : Decoder) : Decoder where
  frameAge := 0
  frameFlags := 0
  payloadOffset := 0
  payloadLen := 0
  head := []
  headTotal := 0
  state := .init
  contFlags := dec.contFlags

/-- `ws_dec_reset`. -/
def Decoder.reset (dec : Decoder) : Decoder := { dec.nextFrame with contFlags := 0 }

/-- `ws_dec_init`. -/
def decInit : Decoder where
  frameAge := 0
  frameFlags := 0
  payloadOffset := 0
  payloadLen := 0
  head := []
  headTotal := 0
  state := .init
  contFlags := 0

/-! ### The head of a frame -/

/-- The number that some bytes stand for, the first one being the highest. -/
def beNat (bytes : Bytes) : Nat := bytes.foldl (fun n b => n * 256 + b.toNat) 0

/-- What `ws_dec_read_head` does with a complete head. -/
def headDone (dec : Decoder) (payloadLen : Nat) : Decoder × Option Curlcode :=
  ({ dec with payloadLen, frameAge := 0, payloadOffset := 0 }, some .ok)

/-- The `switch` of `ws_dec_read_head`. -/
def headComplete (dec : Decoder) : Decoder × Option Curlcode :=
  if dec.headTotal = 2 then headDone dec (beNat (dec.head.drop 1))
  else if dec.headTotal = 4 then headDone dec (beNat (dec.head.drop 2))
  else if dec.headTotal = 10 then
    if (dec.head.getD 2 0).toNat > 127 then (dec, some .recvError)
    else headDone dec (beNat (dec.head.drop 2))
  else (dec, some .recvError)

def Decoder.push (dec : Decoder) (b : UInt8) : Decoder := { dec with head := dec.head ++ [b] }

/-- The first byte of a head. -/
def headFirst (dec : Decoder) (b : UInt8) : Decoder × Option Curlcode :=
  let flags := frameFirstbyte2flags b dec.contFlags
  if flags = 0 then (dec.reset, some .recvError)
  else
    -- control frames do not affect an open message
    let contFlags := if has flags (wsText ||| wsBinary) then flags else dec.contFlags
    ({ dec with frameFlags := flags, contFlags, head := [b] }, none)

/-- The second byte of a head. -/
def headSecond (dec : Decoder) (b : UInt8) : Decoder × Option Curlcode :=
  if b &&& bitMask ≠ 0 then (dec.reset, some .recvError)
  else if has dec.frameFlags (wsPing ||| wsPong ||| wsClose) ∧ b.toNat > maxCntrlLen then
    (dec.reset, some .recvError)
  else if b = 126 then ({ dec.push b with headTotal := 4 }, none)
  else if b = 127 then ({ dec.push b with headTotal := 10 }, none)
  else headComplete { dec.push b with headTotal := 2 }

/-- The bytes behind the first two of a head. -/
def headRest (dec : Decoder) (b : UInt8) : Decoder × Option Curlcode :=
  let dec := if dec.head.length < dec.headTotal then dec.push b else dec
  if dec.head.length < dec.headTotal then (dec, none) else headComplete dec

/-- The loop of `ws_dec_read_head`, for one byte: the result, unless it goes on. -/
def headByte (dec : Decoder) (b : UInt8) : Decoder × Option Curlcode :=
  if dec.head.length = 0 then headFirst dec b
  else if dec.head.length = 1 then headSecond dec b
  else headRest dec b

/-- The byte is taken from the queue. -/
def takesByte (dec : Decoder) : Bool := dec.head.length < 2 || dec.head.length < dec.headTotal

/-- `ws_dec_read_head`. -/
def readHead : Nat → Decoder → State → Option (Decoder × State × Curlcode)
  | 0, _, _ => none
  | fuel + 1, dec, s => do
    let (s, shown) ← bufqPeek s
    match shown with
    | none => some (dec, s, .again)
    | some inbuf => do
      let s ← if takesByte dec then bufqSkip s 1 else some s
      match headByte dec (inbuf.headD 0) with
      | (dec, none) => readHead fuel dec s
      | (dec, some result) => some (dec, s, result)

/-! ### The payload -/

/-- What the write callback is called with. -/
structure Callback where
  buf : Bytes
  frameAge : Int
  frameFlags : UInt32
  payloadOffset : Nat
  payloadLen : Nat

/-- A callback with some bytes of the current frame. -/
def Decoder.callback (dec : Decoder) (buf : Bytes) : Callback where
  buf := buf
  frameAge := dec.frameAge
  frameFlags := dec.frameFlags
  payloadOffset := dec.payloadOffset
  payloadLen := dec.payloadLen

/-- The decoder behind `n` bytes of payload. -/
def Decoder.advance (dec : Decoder) (n : Nat) : Decoder :=
  { dec with payloadOffset := dec.payloadOffset + n }

/-- The decoder behind the last byte of a frame. -/
def Decoder.finish (dec : Decoder) : Decoder := { dec with state := .init }

/-- The decoder behind the head of a frame. -/
def Decoder.enter (dec : Decoder) : Decoder := { dec with state := .payload }

/-- The decoder in front of a frame. -/
def Decoder.start (dec : Decoder) : Decoder := { dec.nextFrame with state := .head }

/-- `ws_dec_pass_payload`, with a callback that takes all bytes. -/
def passPayload : Nat → Decoder → State → List Callback →
    Option (Decoder × State × Curlcode × List Callback)
  | 0, _, _, _ => none
  | fuel + 1, dec, s, out =>
    let remain := dec.payloadLen - dec.payloadOffset
    if remain = 0 then some (dec, s, .ok, out)
    else do
      let (s, shown) ← bufqPeek s
      match shown with
      | none => some (dec, s, .again, out)
      | some inbuf => do
        let buf := inbuf.take remain
        let s ← bufqSkip s buf.length
        passPayload fuel (dec.advance buf.length) s (out ++ [dec.callback buf])

/-- The part of `ws_dec_pass` for the payload. -/
def passRest (fuel : Nat) (dec : Decoder) (s : State) :
    Option (Decoder × State × Curlcode × List Callback) := do
  let (dec, s, result, out) ← passPayload fuel dec s []
  if result = .ok then some (dec.finish, s, .ok, out) else some (dec, s, result, out)

/-- The part of `ws_dec_pass` from the head on. -/
def passHead (fuel : Nat) (dec : Decoder) (s : State) :
    Option (Decoder × State × Curlcode × List Callback) := do
  let (dec, s, result) ← readHead fuel dec s
  if result ≠ .ok then some (dec, s, result, [])
  else if dec.payloadLen = 0 then
    -- an empty frame is passed on once
    some (dec.enter.finish, s, .ok, [dec.enter.callback []])
  else passRest fuel dec.enter s

/-- `ws_dec_pass`. -/
def decPass (dec : Decoder) (s : State) :
    Option (Decoder × State × Curlcode × List Callback) := do
  let len ← bufqLen s
  if ← bufqIsEmpty s then some (dec, s, .again, [])
  else
    match dec.state with
    | .init => passHead (len + 1) dec.start s
    | .head => passHead (len + 1) dec s
    | .payload => passRest (len + 1) dec s

/-- Call `ws_dec_pass` until it does not return `CURLE_OK`. -/
def drain : Nat → Decoder → State → List Callback →
    Option (Decoder × State × Curlcode × List Callback)
  | 0, _, _, _ => none
  | fuel + 1, dec, s, out => do
    let (dec, s, result, new) ← decPass dec s
    if result = .ok then drain fuel dec s (out ++ new) else some (dec, s, result, out ++ new)

/-! ### One byte at a time -/

/-- What a byte of a head does to a decoder. -/
def decHead (dec : Decoder) (b : UInt8) : Decoder × List Callback × Option Curlcode :=
  match headByte dec b with
  | (dec, none) => (dec, [], none)
  | (dec, some result) =>
    if result ≠ .ok then (dec, [], some result)
    else if dec.payloadLen = 0 then (dec.enter.finish, [dec.enter.callback []], none)
    else (dec.enter, [], none)

/-- What a byte does to a decoder. -/
def decByte (dec : Decoder) (b : UInt8) : Decoder × List Callback × Option Curlcode :=
  match dec.state with
  | .init => decHead dec.start b
  | .head => decHead dec b
  | .payload =>
    (if dec.payloadOffset + 1 = dec.payloadLen then (dec.advance 1).finish else dec.advance 1,
      [dec.callback [b]], none)

end Gurl.Ws
