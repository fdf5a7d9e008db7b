import Gurl.Dynbuf
import Gurl.Strparse

/-! The decoder for chunked transfer encoding of `lib/http_chunks.c`. -/

namespace Gurl.Http

open Strparse

/-- `ChunkyState`. -/
inductive ChunkyState where
  | hex | lf | data | postlf | stop | trailer | trailerCr | trailerPostcr | done | failed
  deriving DecidableEq

/-- `CHUNKcode`. -/
inductive ChunkCode where
  | ok | tooLongHex | illegalHex | badChunk | badEncoding | outOfMemory | passthruError
  deriving DecidableEq

/-- `struct Curl_chunker`; `hexbuffer` holds its first `hexindex` bytes. -/
structure Chunker where
  datasize : Nat
  state : ChunkyState
  lastCode : ChunkCode
  trailer : Dynbuf
  hexbuffer : Bytes
  ignoreBody : Bool
  deriving DecidableEq

/-- `CHUNK_MAXNUM_LEN`. -/
def chunkMaxnumLen : Nat := 16

/-- `DYN_H1_TRAILER`. -/
def dynH1Trailer : Nat := 4096

/-- `Curl_httpchunk_init`. The size is not set before it is read. -/
def Chunker.init (ignoreBody : Bool) : Chunker where
  datasize := 0
  state := .hex
  lastCode := .ok
  trailer := .init dynH1Trailer
  hexbuffer := []
  ignoreBody := ignoreBody

/-- `Curl_httpchunk_reset`. -/
def Chunker.reset (ch : Chunker) : Chunker :=
  { ch with hexbuffer := [], state := .hex, lastCode := .ok, trailer := ch.trailer.reset }

/-- What is passed to `Curl_client_write` or to the next writer. -/
inductive ClientWrite where
  | body (bytes : Bytes)
  | trailer (line : Bytes)

/-- A chunker with what it has passed on, and the number of times that it has called `realloc`. -/
structure Decoder where
  ch : Chunker
  body : Bytes
  trailers : List Bytes
  reallocs : Nat
  deriving DecidableEq

/-- The transfer around a decoder: `set.http_te_skip`, `req.headerline`, the answers to the calls of
`realloc`, and the results of writes to the client. -/
structure Transfer where
  httpTeSkip : Bool
  headerline : Nat
  realloc : Nat → Bool
  write : Decoder → ClientWrite → Curlcode

/-- `Curl_verify_header`. -/
def verifyHeader (headerline : Nat) (hd : Bytes) : Curlcode :=
  if 0 ∈ hd then .weirdServerReply
  else if hd.length > 2 ∧ 13 ∈ hd.take (hd.length - 2) then .weirdServerReply
  else if headerline < 2 then .ok
  else if (hd.head? = some 32 ∨ hd.head? = some 9) ∧ headerline > 2 then .ok
  else if 58 ∈ hd then .ok
  else .weirdServerReply

/-- `ISXDIGIT`. -/
def isXDigit (c : UInt8) : Bool :=
  isDigit c || (97 ≤ c.toNat && c.toNat ≤ 102) || (65 ≤ c.toNat && c.toNat ≤ 70)

/-! ### One pass of the loop -/

/-- How a pass through the loop of `httpchunk_readwrite` ends, and the number of bytes it has
consumed: in the next pass, or with the return of the function. -/
inductive Pass where
  | next (d : Decoder) (n : Nat)
  | ret (result : Curlcode) (d : Decoder) (n : Nat)

def Decoder.enter (d : Decoder) (state : ChunkyState) : Decoder :=
  { d with ch := { d.ch with state } }

/-- Return `result` in the state `CHUNK_FAILED`. -/
def Decoder.fail (d : Decoder) (code : ChunkCode) (result : Curlcode) : Pass :=
  .ret result { d with ch := { d.ch with state := .failed, lastCode := code } } 0

/-- Add bytes to the trailer line. -/
def Decoder.addTrailer (t : Transfer) (d : Decoder) (mem : Bytes) : Decoder × Curlcode :=
  let (trailer, result) := d.ch.trailer.nappend mem (t.realloc d.reallocs)
  ({ d with
      ch := { d.ch with trailer }
      reallocs := if d.ch.trailer.grows mem then d.reallocs + 1 else d.reallocs }, result)

def hexPass (d : Decoder) (b : UInt8) : Pass :=
  if isXDigit b then
    if d.ch.hexbuffer.length ≥ chunkMaxnumLen then d.fail .tooLongHex .recvError
    else .next { d with ch := { d.ch with hexbuffer := d.ch.hexbuffer ++ [b] } } 1
  else if d.ch.hexbuffer = [] then d.fail .illegalHex .recvError
  else
    match strNumBase d.ch.hexbuffer curlOffTMax 16 with
    | .error _ => { d with ch := { d.ch with datasize := 0 } }.fail .illegalHex .recvError
    | .ok (datasize, _) => .next { d with ch := { d.ch with datasize, state := .lf } } 0

def lfPass (d : Decoder) (b : UInt8) : Pass :=
  if b = 10 then .next (d.enter (if d.ch.datasize = 0 then .trailer else .data)) 1
  else .next d 1

def dataPass (t : Transfer) (d : Decoder) (buf : Bytes) : Pass :=
  let piece := buf.take d.ch.datasize
  let pass (d : Decoder) : Pass :=
    let datasize := d.ch.datasize - piece.length
    .next { d with ch := { d.ch with
      datasize, state := if datasize = 0 then .postlf else d.ch.state } } piece.length
  if t.httpTeSkip || d.ch.ignoreBody then pass d
  else
    let result := t.write d (.body piece)
    if result = .ok then pass { d with body := d.body ++ piece }
    else d.fail .passthruError result

def postlfPass (d : Decoder) (b : UInt8) : Pass :=
  if b = 10 then .next { d with ch := d.ch.reset } 1
  else if b ≠ 13 then d.fail .badChunk .recvError
  else .next d 1

/-- The end of a trailer line. -/
def trailerEnd (t : Transfer) (d : Decoder) (b : UInt8) : Pass :=
  let (d, result) := d.addTrailer t [13, 10]
  let line := d.ch.trailer.content
  if result ≠ .ok then d.fail .outOfMemory result
  else
    let result := verifyHeader t.headerline line
    if result ≠ .ok then d.fail .badChunk result
    else
      let result := if t.httpTeSkip then .ok else t.write d (.trailer line)
      if result ≠ .ok then d.fail .passthruError result
      else
        let trailers := if t.httpTeSkip then d.trailers else d.trailers ++ [line]
        -- on a LF, the next pass finds it again
        .next { d with
          ch := { d.ch with trailer := d.ch.trailer.reset, state := .trailerCr }
          trailers } (if b = 10 then 0 else 1)

def trailerPass (t : Transfer) (d : Decoder) (b : UInt8) : Pass :=
  if b = 13 ∨ b = 10 then
    match d.ch.trailer.bufr with
    | some _ => trailerEnd t d b
    | none => .next (d.enter .trailerPostcr) 0
  else
    let (d, result) := d.addTrailer t [b]
    if result ≠ .ok then d.fail .outOfMemory result else .next d 1

def trailerCrPass (d : Decoder) (b : UInt8) : Pass :=
  if b = 10 then .next (d.enter .trailerPostcr) 1 else d.fail .badChunk .recvError

def trailerPostcrPass (d : Decoder) (b : UInt8) : Pass :=
  if b ≠ 13 ∧ b ≠ 10 then .next (d.enter .trailer) 0
  else .next (d.enter .stop) (if b = 13 then 1 else 0)

def stopPass (d : Decoder) (b : UInt8) (rest : Bytes) : Pass :=
  if b = 10 then .ret .ok { d with ch := { d.ch with datasize := rest.length, state := .done } } 1
  else d.fail .badChunk .recvError

/-- A pass of the loop, with the bytes `b :: rest` to go. -/
def pass (t : Transfer) (d : Decoder) (b : UInt8) (rest : Bytes) : Pass :=
  match d.ch.state with
  | .hex => hexPass d b
  | .lf => lfPass d b
  | .data => dataPass t d (b :: rest)
  | .postlf => postlfPass d b
  | .trailer => trailerPass t d b
  | .trailerCr => trailerCrPass d b
  | .trailerPostcr => trailerPostcrPass d b
  | .stop => stopPass d b rest
  | .done => .ret .ok d 0
  | .failed => .ret .recvError d 0

/-! ### The function -/

/-- The loop of `httpchunk_readwrite`, with `n` bytes consumed so far. -/
def readwriteLoop (t : Transfer) : Nat → Decoder → Bytes → Nat →
    Option (Curlcode × Decoder × Nat)
  | _, d, [], n => some (.ok, d, n)
  | 0, _, _ :: _, _ => none
  | fuel + 1, d, b :: rest, n =>
    match pass t d b rest with
    | .ret result d k => some (result, d, n + k)
    | .next d k => readwriteLoop t fuel d ((b :: rest).drop k) (n + k)

/-- `httpchunk_readwrite`: the result, the decoder afterwards, and the number of bytes consumed. -/
def httpchunkReadwrite (t : Transfer) (d : Decoder) (buf : Bytes) :
    Option (Curlcode × Decoder × Nat) :=
  if d.ch.state = .done then some (.ok, d, 0)
  else if d.ch.state = .failed then some (.recvError, d, 0)
  else
    -- no byte takes more than three passes
    let loop (d : Decoder) := readwriteLoop t (3 * buf.length) d buf 0
    if t.httpTeSkip && !d.ch.ignoreBody then
      let result := t.write d (.body buf)
      if result = .ok then loop { d with body := d.body ++ buf }
      else
        some (result, { d with ch := { d.ch with state := .failed, lastCode := .passthruError } },
          0)
    else loop d

end Gurl.Http
