import Gurl.Dynbuf

/-! `lib/cw-out.c`: the client writer that hands headers and body bytes to the callbacks of the
application, and keeps what these do not take while the transfer is paused. -/

namespace Gurl.CwOut

/-- `cw_out_type`. -/
inductive OutType where
  | none | body | body0len | hds
  deriving DecidableEq

/-- `CURL_MAX_WRITE_SIZE`. -/
def maxWriteSize : Nat := 16384

/-- `DYN_PAUSE_BUFFER`. -/
def dynPauseBuffer : Nat := 64 * 1024 * 1024

/-- `struct cw_out_buf`. -/
structure Buf where
  b : Dynbuf
  type : OutType

/-- The length of what is in a buffer, `curlx_dyn_len`. -/
def Buf.len (cwbuf : Buf) : Nat := cwbuf.b.content.length

/-- `cw_out_buf_create`. -/
def bufCreate (otype : OutType) : Buf := { b := .init dynPauseBuffer, type := otype }

/-- What a callback returns: the length of what it was given, `CURL_WRITEFUNC_PAUSE`, or any other
number. -/
inductive Answer where
  | took | pause | failed
  deriving DecidableEq

/-- What the writer reads of the transfer. -/
structure Setup where
  /-- `data->set.include_header` -/
  includeHeader : Bool
  /-- `data->set.fwrite_header` is set -/
  fwriteHeader : Bool
  /-- `data->set.writeheader` is set -/
  writeheader : Bool
  /-- the protocol has `PROTOPT_NONETWORK` -/
  nonetwork : Bool
  /-- `data->set.max_filesize` -/
  maxFilesize : Nat

/-- A piece that was given to a callback and that it took. -/
structure Piece where
  type : OutType
  bytes : Bytes

/-- `struct cw_out_ctx` and the callbacks around it. -/
structure Ctx where
  /-- the chain, the newest buffer first -/
  buf : List Buf
  paused : Bool
  errored : Bool
  /-- `data->progress.deliver` -/
  deliver : Nat
  /-- what the callbacks return at the next calls; they take what they get after that -/
  answers : List Answer
  /-- what the callbacks have taken -/
  taken : List Piece

/-- `cw_out_init`. -/
def init (answers : List Answer) : Ctx :=
  { buf := [], paused := false, errored := false, deliver := 0, answers, taken := [] }

/-- `cw_out_bufs_free`. -/
def Ctx.bufsFree (ctx : Ctx) : Ctx := { ctx with buf := [] }

/-- `cw_out_bufs_len`. -/
def Ctx.bufsLen (ctx : Ctx) : Nat := (ctx.buf.map Buf.len).sum

/-- The writer with another chain. -/
def Ctx.withBuf (ctx : Ctx) (buf : List Buf) : Ctx := { ctx with buf }

/-- `cw_get_writefunc`: whether there is a callback, and the most and the least it is given. -/
def cwGetWritefunc (setup : Setup) : OutType → Bool × Nat × Nat
  | .body => (true, maxWriteSize, 0)
  | .body0len => (true, maxWriteSize, 0)
  | .hds => (setup.fwriteHeader || setup.writeheader, 0, 0)
  | .none => (false, maxWriteSize, 0)

/-- `cw_out_cb_write`, with the number of bytes written. -/
def cbWrite (setup : Setup) (ctx : Ctx) (otype : OutType) (buf : Bytes) :
    Ctx × Curlcode × Nat :=
  let rest := { ctx with answers := ctx.answers.tail }
  match ctx.answers.headD .took with
  | .pause =>
    if setup.nonetwork then (rest, .writeError, 0) else ({ rest with paused := true }, .again, 0)
  | .failed => (rest, .writeError, 0)
  | .took => ({ rest with taken := ctx.taken ++ [⟨otype, buf⟩] }, .ok, buf.length)

/-- `Curl_pgrs_deliver_check`. -/
def pgrsDeliverCheck (setup : Setup) (ctx : Ctx) (delta : Nat) : Curlcode :=
  if setup.maxFilesize ≠ 0 ∧ delta + ctx.deliver > setup.maxFilesize then .filesizeExceeded else .ok

/-- `Curl_pgrs_deliver_inc`, which the writer calls for the body only. -/
def pgrsDeliverInc (ctx : Ctx) (otype : OutType) (delta : Nat) : Ctx :=
  if otype = .body then { ctx with deliver := ctx.deliver + delta } else ctx

/-- The loop of `cw_out_ptr_flush`, with the number of bytes consumed. -/
def ptrLoop (setup : Setup) (otype : OutType) (flushAll : Bool) (maxWrite minWrite : Nat) :
    Nat → Ctx → Bytes → Ctx × Curlcode × Nat
  | 0, ctx, _ => (ctx, .ok, 0)
  | fuel + 1, ctx, buf =>
    if buf.isEmpty || ctx.paused then (ctx, .ok, 0)
    else if !flushAll && buf.length < minWrite then (ctx, .ok, 0)
    else
      let wlen := if maxWrite = 0 then buf.length else min buf.length maxWrite
      let check := if otype = .body then pgrsDeliverCheck setup ctx wlen else .ok
      if check ≠ .ok then (ctx, check, 0)
      else
        match cbWrite setup ctx otype (buf.take wlen) with
        | (ctx, .ok, nwritten) =>
          let (ctx, result, consumed) := ptrLoop setup otype flushAll maxWrite minWrite fuel
            (pgrsDeliverInc ctx otype nwritten) (buf.drop nwritten)
          (ctx, result, nwritten + consumed)
        | (ctx, result, _) => (ctx, result, 0)

/-- `cw_out_ptr_flush`, with the number of bytes consumed. -/
def ptrFlush (setup : Setup) (ctx : Ctx) (otype : OutType) (flushAll : Bool) (buf : Bytes) :
    Ctx × Curlcode × Nat :=
  if ctx.errored then (ctx, .writeError, 0)
  else
    let (wcb, maxWrite, minWrite) := cwGetWritefunc setup otype
    if !wcb then (ctx, .ok, buf.length)
    else if otype = .body0len then
      let (ctx, result, _) := cbWrite setup ctx otype buf
      (ctx, result, 0)
    else ptrLoop setup otype flushAll maxWrite minWrite buf.length ctx buf

/-- `cw_out_buf_flush`. -/
def bufFlush (setup : Setup) (ctx : Ctx) (cwbuf : Buf) (flushAll : Bool) : Ctx × Buf × Curlcode :=
  if cwbuf.len ≠ 0 ∨ cwbuf.type = .body0len then
    match ptrFlush setup ctx cwbuf.type flushAll cwbuf.b.content with
    | (ctx, result, consumed) =>
      if result ≠ .ok ∧ result ≠ .again then (ctx, cwbuf, result)
      else if consumed = 0 then (ctx, cwbuf, .ok)
      else if consumed = cwbuf.len then (ctx, { cwbuf with b := cwbuf.b.free }, .ok)
      else
        let (b, result) := cwbuf.b.tail (cwbuf.len - consumed)
        (ctx, { cwbuf with b }, result)
  else (ctx, cwbuf, .ok)

/-- The end of `cw_out_flush_chain`: the buffer is flushed, and freed when nothing is left in it. -/
def flushBuf (setup : Setup) (ctx : Ctx) (cwbuf : Buf) (flushAll : Bool) :
    Ctx × Option Buf × Curlcode :=
  match bufFlush setup ctx cwbuf flushAll with
  | (ctx, cwbuf, .ok) => if cwbuf.len = 0 then (ctx, none, .ok) else (ctx, some cwbuf, .ok)
  | (ctx, cwbuf, result) => (ctx, some cwbuf, result)

/-- The loop of `cw_out_flush_chain` over the buffers behind the first, given from the end of the
chain on. The chain that it calls itself with is the last buffer alone. -/
def flushEnd (setup : Setup) (flushAll : Bool) : Ctx → List Buf → Ctx × List Buf × Curlcode
  | ctx, [] => (ctx, [], .ok)
  | ctx, last :: newer =>
    if ctx.paused then (ctx, last :: newer, .ok)
    else
      match flushBuf setup ctx last flushAll with
      | (ctx, none, .ok) => flushEnd setup flushAll ctx newer
      | (ctx, left, result) => (ctx, left.toList ++ newer, result)

/-- `cw_out_flush_chain` for the whole chain. -/
def flushChain (setup : Setup) (ctx : Ctx) (flushAll : Bool) : Ctx × Curlcode :=
  match ctx.buf with
  | [] => (ctx, .ok)
  | cwbuf :: next =>
    if ctx.paused then (ctx, .ok)
    else
      match flushEnd setup flushAll ctx next.reverse with
      | (ctx, [], .ok) =>
        let (ctx, left, result) := flushBuf setup ctx cwbuf flushAll
        (ctx.withBuf left.toList, result)
      | (ctx, left, result) => (ctx.withBuf (cwbuf :: left.reverse), result)

/-- The buffer that `cw_out_append` adds to, and the chain behind it. A header always gets a buffer
of its own. -/
def target (ctx : Ctx) (otype : OutType) : Buf × List Buf :=
  match ctx.buf with
  | [] => (bufCreate otype, [])
  | cwbuf :: next =>
    if cwbuf.type ≠ otype ∨ otype = OutType.hds then (bufCreate otype, cwbuf :: next)
    else (cwbuf, next)

/-- `cw_out_append`. -/
def append (ctx : Ctx) (otype : OutType) (buf : Bytes) : Ctx × Curlcode :=
  if ctx.bufsLen + buf.length > dynPauseBuffer then (ctx, .tooLarge)
  else
    let (cwbuf, next) := target ctx otype
    let (b, result) := cwbuf.b.nappend buf true
    (ctx.withBuf ({ cwbuf with b } :: next), result)

/-- `out:` in `cw_out_do_write`: the callbacks are not called a second time after an error. -/
def Ctx.failed (ctx : Ctx) : Ctx := { ctx.bufsFree with errored := true }

/-- The state that an operation leaves that goes to `out:` with its result. -/
def outcome : Ctx × Curlcode → Ctx × Curlcode
  | (ctx, .ok) => (ctx, .ok)
  | (ctx, result) => (ctx.failed, result)

/-- The first step of `cw_out_do_write`: try to flush what is buffered for another type. -/
def flushOther (setup : Setup) (ctx : Ctx) (otype : OutType) : Ctx × Curlcode :=
  match ctx.buf with
  | [] => (ctx, .ok)
  | cwbuf :: _ => if cwbuf.type ≠ otype then flushChain setup ctx true else (ctx, .ok)

/-- `cw_out_do_write`. -/
def doWrite (setup : Setup) (ctx : Ctx) (otype : OutType) (flushAll : Bool) (buf : Bytes) :
    Ctx × Curlcode :=
  match flushOther setup ctx otype with
  | (ctx, .ok) =>
    if ctx.buf ≠ [] then
      match append ctx otype buf with
      | (ctx, .ok) => outcome (flushChain setup ctx flushAll)
      | failure => outcome failure
    else
      match ptrFlush setup ctx otype flushAll buf with
      | (ctx, result, consumed) =>
        if result ≠ .ok ∧ result ≠ .again then (ctx, result)
        else if consumed < buf.length then outcome (append ctx otype (buf.drop consumed))
        else (ctx, .ok)
  | failure => outcome failure

/-- The bits of `CLIENTWRITE_*` that the writer looks at. -/
structure WriteType where
  body : Bool
  info : Bool
  header : Bool
  eos : Bool
  zeroLen : Bool

/-- What `cw_out_write` writes, in order. -/
def writes (setup : Setup) (type : WriteType) (buf : Bytes) : List OutType :=
  (if type.body || (type.header && setup.includeHeader) then
    [if buf.isEmpty && type.zeroLen then .body0len else .body] else []) ++
  (if type.header || type.info then [.hds] else [])

/-- Write `buf` once for each type, up to an error. -/
def writeEach (setup : Setup) (flushAll : Bool) (buf : Bytes) :
    Ctx → List OutType → Ctx × Curlcode
  | ctx, [] => (ctx, .ok)
  | ctx, otype :: otypes =>
    match doWrite setup ctx otype flushAll buf with
    | (ctx, .ok) => writeEach setup flushAll buf ctx otypes
    | failure => failure

/-- `cw_out_write`. -/
def cwOutWrite (setup : Setup) (ctx : Ctx) (type : WriteType) (buf : Bytes) : Ctx × Curlcode :=
  writeEach setup type.eos buf ctx (writes setup type buf)

/-- `cw_out_do_flush`. -/
def doFlush (setup : Setup) (ctx : Ctx) (flushAll : Bool) : Ctx × Curlcode :=
  if ctx.errored then (ctx, .writeError)
  else if ctx.paused then (ctx, .ok)
  else outcome (flushChain setup ctx flushAll)

/-- `Curl_cw_out_unpause`. -/
def unpause (ctx : Ctx) : Ctx := { ctx with paused := false }

/-- A call to the writer. -/
inductive Call where
  | write (type : WriteType) (buf : Bytes)
  | unpause
  /-- `cw_out_flush`, and with `flushAll` the flush of `Curl_cw_out_done` -/
  | flush (flushAll : Bool)

def step (setup : Setup) (ctx : Ctx) : Call → Ctx × Curlcode
  | .write type buf => cwOutWrite setup ctx type buf
  | .unpause => (unpause ctx, .ok)
  | .flush flushAll => doFlush setup ctx flushAll

/-- The writer after some calls. -/
def run (setup : Setup) (ctx : Ctx) (calls : List Call) : Ctx :=
  calls.foldl (fun ctx call => (step setup ctx call).1) ctx

/-- After an error nothing is buffered, and a write calls nothing. -/
theorem doWrite_errored {setup : Setup} {ctx : Ctx} {otype : OutType}
    (herrored : ctx.errored = true) (hbuf : ctx.buf = []) (flushAll : Bool) (buf : Bytes) :
    doWrite setup ctx otype flushAll buf = (ctx, .writeError) := by
  unfold doWrite flushOther
  rw [hbuf]
  simp [hbuf, ptrFlush, herrored]

end Gurl.CwOut
