import Gurl.Buffer.Single
import Gurl.Ws.Decode

/-! How the client of `lib/ws.c` answers the PINGs of the server: the decoder with the callback of
`ws_cw_write`. The transfer is not paused. -/

namespace Gurl.Ws

open Buffer

/-- `WS_CHUNK_SIZE`. -/
def wsChunkSize : Nat := 65535

/-! ### The decoder and its callback -/

/-- `ws_write_payload`: the state behind the call, its result and the number of bytes written. -/
abbrev WritePayload (σ : Type) := σ → Callback → σ × Curlcode × Nat

section

variable {σ : Type}

/-- `ws_dec_pass_payload`. -/
def passPayloadTo (writeCb : WritePayload σ) : Nat → Decoder → State → σ →
    Option (Decoder × State × Curlcode × σ)
  | 0, _, _, _ => none
  | fuel + 1, dec, s, ctx =>
    let remain := dec.payloadLen - dec.payloadOffset
    if remain = 0 then some (dec, s, .ok, ctx)
    else do
      let (s, shown) ← bufqPeek s
      match shown with
      | none => some (dec, s, .again, ctx)
      | some inbuf => do
        let (ctx, result, nwritten) := writeCb ctx (dec.callback (inbuf.take remain))
        if result ≠ .ok then some (dec, s, result, ctx)
        else do
          let s ← bufqSkip s nwritten
          passPayloadTo writeCb fuel (dec.advance nwritten) s ctx

/-- The part of `ws_dec_pass` for the payload. -/
def passRestTo (writeCb : WritePayload σ) (fuel : Nat) (dec : Decoder) (s : State) (ctx : σ) :
    Option (Decoder × State × Curlcode × σ) := do
  let (dec, s, result, ctx) ← passPayloadTo writeCb fuel dec s ctx
  if result = .ok then some (dec.finish, s, .ok, ctx) else some (dec, s, result, ctx)

/-- The part of `ws_dec_pass` from the head on. -/
def passHeadTo (writeCb : WritePayload σ) (fuel : Nat) (dec : Decoder) (s : State) (ctx : σ) :
    Option (Decoder × State × Curlcode × σ) := do
  let (dec, s, result) ← readHead fuel dec s
  if result ≠ .ok then some (dec, s, result, ctx)
  else if dec.payloadLen = 0 then
    let (ctx, result, _) := writeCb ctx (dec.enter.callback [])
    if result ≠ .ok then some (dec.enter, s, result, ctx)
    else some (dec.enter.finish, s, .ok, ctx)
  else passRestTo writeCb fuel dec.enter s ctx

/-- `ws_dec_pass`. -/
def decPassTo (writeCb : WritePayload σ) (dec : Decoder) (s : State) (ctx : σ) :
    Option (Decoder × State × Curlcode × σ) := do
  let len ← bufqLen s
  if ← bufqIsEmpty s then some (dec, s, .again, ctx)
  else
    match dec.state with
    | .init => passHeadTo writeCb (len + 1) dec.start s ctx
    | .head => passHeadTo writeCb (len + 1) dec s ctx
    | .payload => passRestTo writeCb (len + 1) dec s ctx

end

/-! ### Control frames -/

/-- `ws->pending`. -/
structure Control where
  type : UInt32
  payload : Bytes

/-- `ws_enc_add_cntrl`, with all control frames that were queued: the last one is `ws->pending`. -/
def encAddCntrl (queued : List Control) (payload : Bytes) (frameType : UInt32) :
    List Control × Curlcode :=
  if payload.length > maxCntrlLen then (queued, .badFunctionArgument)
  else (queued ++ [⟨frameType, payload⟩], .ok)

/-- `ws_payload_remain`. -/
def payloadRemain (payloadTotal payloadOffset payloadBuffered : Nat) : Int :=
  let remain : Int := payloadTotal - payloadOffset
  if remain < 0 then -1 else if remain < payloadBuffered then -1 else remain - payloadBuffered

/-! ### The client writer -/

/-- What `ws_cw_dec_next` changes: the control frames that are queued, and what the next client
writer has got, with the flags of its frames. -/
structure CwDec where
  queued : List Control
  passed : List (UInt32 × Bytes)

/-- `ws_cw_dec_next`, with a next client writer that takes what it gets. -/
def cwDecNext (autoPong : Bool) : WritePayload CwDec := fun ctx cb =>
  let remain := payloadRemain cb.payloadLen cb.payloadOffset cb.buf.length
  if remain < 0 then (ctx, .badFunctionArgument, 0)
  else if (autoPong && has cb.frameFlags wsPing) = true ∧ remain = 0 then
    match encAddCntrl ctx.queued cb.buf wsPong with
    | (queued, .ok) => ({ ctx with queued }, .ok, cb.buf.length)
    | (queued, result) => ({ ctx with queued }, result, 0)
  else if cb.buf ≠ [] ∨ remain = 0 then
    ({ ctx with passed := ctx.passed ++ [(cb.frameFlags, cb.buf)] }, .ok, cb.buf.length)
  else (ctx, .ok, cb.buf.length)

/-- `struct ws_cw_ctx` and the decoder. -/
structure Cw where
  dec : Decoder
  buf : State
  ctx : CwDec

/-- The loop of `ws_cw_write`. -/
def cwLoop (autoPong : Bool) : Nat → Cw → Option (Cw × Curlcode)
  | 0, _ => none
  | fuel + 1, w => do
    if ← bufqIsEmpty w.buf then some (w, .ok)
    else do
      let (dec, buf, result, ctx) ← decPassTo (cwDecNext autoPong) w.dec w.buf w.ctx
      let w : Cw := { dec, buf, ctx }
      if result = .again then some (w, .ok)
      else if result ≠ .ok then some (w, result)
      else cwLoop autoPong fuel w

/-- `ws_cw_write` for bytes of the body, where there is memory for some chunks. -/
def cwWrite (autoPong : Bool) (w : Cw) (piece : Nat × Bytes) : Option (Cw × Curlcode) := do
  let (buf, result, _) ← bufqWrite { w.buf with mallocs := piece.1 } piece.2
  let w := { w with buf }
  if piece.2 ≠ [] ∧ result ≠ .ok then some (w, result)
  else do
    let len ← bufqLen w.buf
    cwLoop autoPong (len + 1) w

/-- All network reads, up to an error. -/
def cwRun (autoPong : Bool) : Cw → List (Nat × Bytes) → Option (Cw × Curlcode)
  | w, [] => some (w, .ok)
  | w, piece :: pieces => do
    let (w, result) ← cwWrite autoPong w piece
    if result ≠ .ok then some (w, result) else cwRun autoPong w pieces

end Gurl.Ws
