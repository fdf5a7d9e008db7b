import Gurl.Buffer.Calls
import Gurl.Http.Decoding

/-! The reader of `lib/http_chunks.c` that puts the body of a request into chunks. -/

namespace Gurl.Http

open Buffer

/-- What a read from the next reader gives. -/
structure NextRead where
  result : Curlcode
  bytes : Bytes
  eos : Bool
  deriving DecidableEq

/-- `struct chunked_reader`. -/
structure ChunkedReader where
  chunkbuf : Buffer.State
  readEos : Bool
  eos : Bool

/-- What `set.trailer_callback` gives, if it is set: whether it agrees, and the trailers. -/
abbrev TrailerCallback := Option (Bool × List Bytes)

/-- `CURL_CHUNKED_MINLEN`. -/
def curlChunkedMinlen : Nat := 1024

/-- `CURL_CHUNKED_MAXLEN`. -/
def curlChunkedMaxlen : Nat := 64 * 1024

/-- `cr_chunked_init`. -/
def crChunkedInit : ChunkedReader where
  chunkbuf := bufqInit2 .empty curlChunkedMaxlen 2 true false
  readEos := false
  eos := false

/-! ### Numbers in hexadecimal -/

def hexDigit (n : Nat) : UInt8 := UInt8.ofNat (if n < 10 then 48 + n else 87 + n)

/-- The digits of `num` in front of `w`, the last one first. -/
def fmtHexLoop : Nat → Nat → Bytes → Bytes
  | 0, _, w => w
  | fuel + 1, num, w => if num = 0 then w else fmtHexLoop fuel (num / 16) (hexDigit (num % 16) :: w)

/-- `%zx`: a `size_t` has no more than 16 digits. -/
def fmtHex (num : Nat) : Bytes := if num = 0 then [48] else fmtHexLoop 16 num []

/-! ### The reader -/

/-- `Curl_bufq_cwrite` to the chunk buffer. -/
def ChunkedReader.cwrite (ctx : ChunkedReader) (buf : Bytes) :
    Option (ChunkedReader × Curlcode) :=
  (bufqWrite ctx.chunkbuf buf).map fun (chunkbuf, result, _) => ({ ctx with chunkbuf }, result)

/-- Write some strings, up to the first that fails. -/
def ChunkedReader.cwrites : ChunkedReader → List Bytes → Option (ChunkedReader × Curlcode)
  | ctx, [] => some (ctx, .ok)
  | ctx, buf :: bufs => do
    let (ctx, result) ← ctx.cwrite buf
    if result ≠ .ok then some (ctx, result) else ctx.cwrites bufs

/-- A trailer is sent only with a colon and a space behind its name. -/
def trailerFormatted (tr : Bytes) : Bool :=
  match tr.dropWhile (· ≠ 58) with
  | _ :: 32 :: _ => true
  | _ => false

/-- `add_last_chunk`. -/
def addLastChunk (cb : TrailerCallback) (ctx : ChunkedReader) : Option (ChunkedReader × Curlcode) :=
  match cb with
  | none => ctx.cwrite [48, 13, 10, 13, 10]
  | some (agrees, trailers) => do
    let (ctx, result) ← ctx.cwrite [48, 13, 10]
    if result ≠ .ok then some (ctx, result)
    else if !agrees then some (ctx, .abortedByCallback)
    else
      let lines := (trailers.filter trailerFormatted).flatMap fun tr => [tr, [13, 10]]
      ctx.cwrites (lines ++ [[13, 10]])

/-- The size of the read from the next reader, for a caller that asks for `blen` bytes. -/
def addChunkLen (blen : Nat) : Nat :=
  let blen := min blen curlChunkedMaxlen
  if blen < curlChunkedMinlen then curlChunkedMinlen else blen - (8 + 2 + 2)

/-- The line in front of a chunk, in a buffer of 11 bytes. -/
def chunkLine (nread : Nat) : Bytes := (fmtHex nread ++ [13, 10]).take 10

/-- Write the bytes of a read as a chunk, unless there are none. -/
def addData (ctx : ChunkedReader) (bytes : Bytes) : Option (ChunkedReader × Curlcode) :=
  if bytes ≠ [] then ctx.cwrites [chunkLine bytes.length, bytes, [13, 10]] else some (ctx, .ok)

/-- `add_chunk`, with the read that the next reader makes. -/
def addChunk (cb : TrailerCallback) (ctx : ChunkedReader) (read : NextRead) :
    Option (ChunkedReader × Curlcode) :=
  if read.result ≠ .ok then some (ctx, read.result)
  else do
    let (ctx, result) ← addData { ctx with readEos := ctx.readEos || read.eos } read.bytes
    if result ≠ .ok then some (ctx, result)
    else if ctx.readEos then addLastChunk cb ctx
    else some (ctx, .ok)

/-- A call of the reader: the size of the buffer, the number of allocations that succeed during the
call, and the next reader, which returns no more than it is asked for. -/
structure ReadCall where
  blen : Nat
  mallocs : Nat
  next : Nat → NextRead
  bounded : ∀ blen, (next blen).bytes.length ≤ blen

/-- What a call returns, and the read of the next reader, if there was one. -/
structure ReadAnswer where
  result : Curlcode
  bytes : Bytes
  eos : Bool
  read : Option NextRead
  deriving DecidableEq

/-- The second part of `cr_chunked_read`: hand out what is in the buffer. -/
def drainChunkbuf (ctx : ChunkedReader) (blen : Nat) (read : Option NextRead) :
    Option (ChunkedReader × ReadAnswer) := do
  if ← bufqIsEmpty ctx.chunkbuf then some (ctx, ⟨.ok, [], false, read⟩)
  else
    let (chunkbuf, result, bytes) ← bufqRead ctx.chunkbuf blen
    let empty ← bufqIsEmpty chunkbuf
    let eos := result = .ok && ctx.readEos && empty
    some ({ ctx with chunkbuf, eos }, ⟨result, bytes, eos, read⟩)

/-- The reader with the memory that there is for a call. -/
def ChunkedReader.granted (ctx : ChunkedReader) (mallocs : Nat) : ChunkedReader :=
  { ctx with chunkbuf := { ctx.chunkbuf with mallocs } }

/-- `cr_chunked_read`. -/
def crChunkedRead (cb : TrailerCallback) (ctx : ChunkedReader) (c : ReadCall) :
    Option (ChunkedReader × ReadAnswer) :=
  let ctx := ctx.granted c.mallocs
  if ctx.eos then some (ctx, ⟨.ok, [], true, none⟩)
  else do
    let empty ← bufqIsEmpty ctx.chunkbuf
    if !ctx.readEos && empty then
      let read := c.next (addChunkLen c.blen)
      let (ctx, result) ← addChunk cb ctx read
      if result ≠ .ok then some (ctx, ⟨result, [], false, some read⟩)
      else drainChunkbuf ctx c.blen (some read)
    else drainChunkbuf ctx c.blen none

end Gurl.Http
