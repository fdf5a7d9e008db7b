import Gurl.Buffer.Supply
import Gurl.Sendf.Download

/-! `lib/cw-pause.c`: the client writer that buffers what arrives while the writers behind it are
paused. A function returns `none` where one of the queues would. -/

namespace Gurl.CwPause

open Sendf (Clientwrite)
open Buffer

/-- `CW_PAUSE_BUF_CHUNK`. -/
def bufChunk : Nat := 16 * 1024

/-- `CW_PAUSE_DEC_WRITE_CHUNK`. -/
def decWriteChunk : Nat := 4096

/-- `struct cw_pause_buf`. -/
structure PauseBuf where
  b : State
  type : Clientwrite

/-- `cw_pause_buf_create`. -/
def bufCreate (type : Clientwrite) (buflen : Nat) : PauseBuf where
  b := if type.body then bufqInit2 .empty bufChunk 1 true true
    else bufqInit2 .empty buflen 1 false false
  type := type

/-- `struct cw_pause_ctx` and the writers behind it. -/
structure Ctx where
  /-- the chain, the newest buffer first -/
  buf : List PauseBuf
  bufTotal : Nat
  /-- what `Curl_cwriter_is_paused` returns when it is asked next; it is false after that -/
  answers : List Bool
  /-- what the next writer returns for the next calls; they succeed after that -/
  results : List Curlcode
  /-- what was passed to the next writer -/
  passed : List (Clientwrite × Bytes)

/-- `cw_pause_init`. -/
def init (answers : List Bool) (results : List Curlcode) : Ctx :=
  { buf := [], bufTotal := 0, answers, results, passed := [] }

/-- `Curl_cwriter_is_paused`. -/
def Ctx.isPaused (ctx : Ctx) : Bool := ctx.answers.headD false

/-- The writer was asked whether it is paused. -/
def Ctx.asked (ctx : Ctx) : Ctx := { ctx with answers := ctx.answers.tail }

/-- `Curl_cwriter_write` to the next writer. -/
def Ctx.pass (ctx : Ctx) (type : Clientwrite) (buf : Bytes) : Ctx × Curlcode :=
  ({ ctx with passed := ctx.passed ++ [(type, buf)], results := ctx.results.tail },
    ctx.results.headD .ok)

/-- `Curl_cwriter_flush` of the next writer. -/
def Ctx.flushNext (ctx : Ctx) : Ctx × Curlcode :=
  ({ ctx with results := ctx.results.tail }, ctx.results.headD .ok)

def Ctx.withBuf (ctx : Ctx) (buf : List PauseBuf) (bufTotal : Nat) : Ctx :=
  { ctx with buf, bufTotal }

/-- How much of `blen` bytes is written at once. -/
def pieceLen (decoding : Bool) (type : Clientwrite) (blen : Nat) : Nat :=
  if decoding && type.body then min blen decWriteChunk else blen

/-- The last buffer of the chain after a write from it: it goes when it is empty. -/
def keepLast (last : PauseBuf) : Option (List PauseBuf) := do
  if ← bufqIsEmpty last.b then some [] else some [last]

/-- The body of the loop of `cw_pause_flush`, for the last buffer of the chain and those before:
the result, and whether the function returns it at once. -/
def flushLast (decoding : Bool) (ctx : Ctx) (newer : List PauseBuf) (last : PauseBuf)
    (result : Curlcode) : Option (Ctx × Curlcode × Bool) := do
  match ← bufqPeek last.b with
  | (b, some buf) =>
    let wlen := pieceLen decoding last.type buf.length
    let (ctx, result) := ctx.pass last.type (buf.take wlen)
    let last := { last with b := ← bufqSkip b wlen }
    let bufTotal := ctx.bufTotal - wlen
    if result ≠ .ok then some (ctx.withBuf (newer ++ [last]) bufTotal, result, true)
    else some (ctx.withBuf (newer ++ (← keepLast last)) bufTotal, result, false)
  | (b, none) =>
    let last := { last with b }
    let (ctx, result) := if last.type.eos then ctx.pass last.type [] else (ctx, result)
    some (ctx.withBuf (newer ++ (← keepLast last)) ctx.bufTotal, result, false)

/-- The loop of `cw_pause_flush`: the result, and whether the function has returned. -/
def flushLoop (decoding : Bool) : Nat → Ctx → Curlcode → Option (Ctx × Curlcode × Bool)
  | 0, _, _ => none
  | fuel + 1, ctx, result =>
    match ctx.buf.getLast? with
    | none => some (ctx, result, false)
    | some last =>
      if ctx.isPaused then some (ctx.asked, result, false)
      else do
        match ← flushLast decoding ctx.asked ctx.buf.dropLast last result with
        | (ctx, result, true) => some (ctx, result, true)
        | (ctx, result, false) => flushLoop decoding fuel ctx result

/-- More rounds than the loop of `cw_pause_flush` makes. -/
def Ctx.fuel (ctx : Ctx) : Nat := ctx.bufTotal + ctx.buf.length + 1

/-- `cw_pause_flush`. -/
def cwPauseFlush (decoding : Bool) (ctx : Ctx) : Option (Ctx × Curlcode) := do
  match ← flushLoop decoding ctx.fuel ctx .ok with
  | (ctx, .ok, false) => some ctx.flushNext
  | (ctx, result, _) => some (ctx, result)

/-- The first step of `cw_pause_write`: what is buffered is flushed, unless the writers are
paused. -/
def flushFirst (decoding : Bool) (ctx : Ctx) : Option (Ctx × Curlcode) :=
  if ctx.buf.isEmpty then some (ctx, .ok)
  else if ctx.isPaused then some (ctx.asked, .ok)
  else cwPauseFlush decoding ctx.asked

/-- The loop of `cw_pause_write` that writes through, and what is left to buffer; `none` when the
function has returned. -/
def throughLoop (decoding : Bool) (type : Clientwrite) :
    Nat → Ctx → Bytes → Ctx × Curlcode × Option Bytes
  | 0, ctx, buf => (ctx, .ok, some buf)
  | fuel + 1, ctx, buf =>
    if !ctx.buf.isEmpty then (ctx, .ok, some buf)
    else if ctx.isPaused then (ctx.asked, .ok, some buf)
    else
      let wlen := pieceLen decoding type buf.length
      let wtype := if wlen < buf.length then { type with eos := false } else type
      match ctx.asked.pass wtype (buf.take wlen) with
      | (ctx, .ok) =>
        if (buf.drop wlen).isEmpty then (ctx, .ok, none)
        else throughLoop decoding type fuel ctx (buf.drop wlen)
      | (ctx, result) => (ctx, result, none)

/-- `Curl_bufq_cwrite` to a buffer, with memory for every chunk it asks for. -/
def PauseBuf.cwrite (cwbuf : PauseBuf) (buf : Bytes) :
    Option (PauseBuf × Curlcode × Nat) := do
  let (b, result, nwritten) ← bufqWrite { cwbuf.b with mallocs := buf.length } buf
  some ({ cwbuf with b }, result, nwritten)

/-- The buffer that a write goes to, and the chain behind it: body of the same type is appended. -/
def target (ctx : Ctx) (type : Clientwrite) (blen : Nat) : PauseBuf × List PauseBuf :=
  match ctx.buf with
  | [] => (bufCreate type blen, [])
  | cwbuf :: next =>
    if cwbuf.type = type ∧ type.body then (cwbuf, next)
    else (bufCreate type blen, cwbuf :: next)

/-- The loop of `cw_pause_write` that buffers. -/
def bufferLoop (type : Clientwrite) : Nat → Ctx → Bytes → Option (Ctx × Curlcode)
  | 0, _, _ => none
  | fuel + 1, ctx, buf => do
    let (cwbuf, next) := target ctx type buf.length
    let (cwbuf, result, nwritten) ← cwbuf.cwrite buf
    if result ≠ .ok then some (ctx.withBuf (cwbuf :: next) ctx.bufTotal, result)
    else
      let ctx := ctx.withBuf (cwbuf :: next) (ctx.bufTotal + nwritten)
      if (buf.drop nwritten).isEmpty then some (ctx, .ok)
      else bufferLoop type fuel ctx (buf.drop nwritten)

/-- What `cw_pause_write` does after it has flushed. -/
def writeRest (decoding : Bool) (ctx : Ctx) (type : Clientwrite) (buf : Bytes) :
    Option (Ctx × Curlcode) :=
  match throughLoop decoding type (buf.length + 1) ctx buf with
  | (ctx, result, none) => some (ctx, result)
  | (ctx, _, some rest) => bufferLoop type (rest.length + 1) ctx rest

/-- `cw_pause_write`. -/
def cwPauseWrite (decoding : Bool) (ctx : Ctx) (type : Clientwrite) (buf : Bytes) :
    Option (Ctx × Curlcode) := do
  match ← flushFirst decoding ctx with
  | (ctx, .ok) => writeRest decoding ctx type buf
  | failure => some failure

/-- A call to the writer. -/
inductive Call where
  | write (type : Clientwrite) (buf : Bytes)
  | flush

def step (decoding : Bool) (ctx : Ctx) : Call → Option (Ctx × Curlcode)
  | .write type buf => cwPauseWrite decoding ctx type buf
  | .flush => cwPauseFlush decoding ctx

/-- Calls in a row, up to the first that fails. -/
def run (decoding : Bool) : Ctx → List Call → Option (Ctx × Curlcode)
  | ctx, [] => some (ctx, .ok)
  | ctx, call :: calls => do
    match ← step decoding ctx call with
    | (ctx, .ok) => run decoding ctx calls
    | failure => some failure

end Gurl.CwPause
