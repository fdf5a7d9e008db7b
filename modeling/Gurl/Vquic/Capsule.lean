import Gurl.Buffer.Calls

/-! UDP datagrams in HTTP capsules, as in `lib/vquic/capsule.c`. -/

namespace Gurl.Vquic

open Buffer

/-- The last `n` bytes of `value`, in network byte order. -/
def networkBytes : Nat → Nat → Bytes
  | 0, _ => []
  | n + 1, value => networkBytes n (value / 256) ++ [UInt8.ofNat value]

/-- `capsule_encode_varint_buf`: the bytes that are written. -/
def capsuleEncodeVarintBuf (value : Nat) : Bytes :=
  if value ≤ 0x3F then [UInt8.ofNat value]
  else if value ≤ 0x3FFF then networkBytes 2 ((value &&& 0x3FFF) ||| 0x4000)
  else if value ≤ 0x3FFFFFFF then networkBytes 4 ((value &&& 0x3FFFFFFF) ||| 0x80000000)
  else networkBytes 8 ((value &&& 0x3FFFFFFFFFFFFFFF) ||| 0xC000000000000000)

/-- `capsule_peek_u8`. -/
def capsulePeekU8 (recvbufq : State) (offset : Nat) : Option (Except Curlcode UInt8) :=
  (bufqPeekAt recvbufq offset).map fun
    | some (byte :: _) => .ok byte
    | _ => .error .again

/-- The loop of `capsule_decode_varint_at`, with `n` bytes to go. -/
def varintLoop (recvbufq : State) : Nat → Nat → Nat → Option (Except Curlcode Nat)
  | 0, _, value => some (.ok value)
  | n + 1, offset, value => do
    match ← capsulePeekU8 recvbufq offset with
    | .error result => some (.error result)
    | .ok byte => varintLoop recvbufq n (offset + 1) (value <<< 8 ||| byte.toNat)

/-- `capsule_decode_varint_at`: the value, and the number of its bytes. -/
def capsuleDecodeVarintAt (recvbufq : State) (offset : Nat) :
    Option (Except Curlcode (Nat × Nat)) := do
  match ← capsulePeekU8 recvbufq offset with
  | .error result => some (.error result)
  | .ok firstByte =>
    let nbytes := 1 <<< (firstByte.toNat >>> 6)
    let value ← varintLoop recvbufq (nbytes - 1) (offset + 1) (firstByte.toNat &&& 0x3F)
    some (value.map (·, nbytes))

/-- `HTTP_CAPSULE_HEADER_MAX_SIZE`. -/
def httpCapsuleHeaderMaxSize : Nat := 10

/-- `capsule_encap_udp_hdr`: the bytes that are written to the header. -/
def capsuleEncapUdpHdr (hdrlen payloadLen : Nat) : Bytes :=
  if hdrlen < httpCapsuleHeaderMaxSize then []
  else 0 :: capsuleEncodeVarintBuf (payloadLen + 1) ++ [0]

/-- A write that must be complete. -/
def writeAll (q : State) (buf : Bytes) : Option (State × Curlcode) :=
  (bufqWrite q buf).map fun (q, result, nwritten) =>
    (q, if result = .ok ∧ nwritten ≠ buf.length then .writeError
      else if result = .again then .writeError else result)

/-- `Curl_capsule_encap_udp_datagram`, with the number of allocations that succeed. -/
def capsuleEncapUdpDatagram (q : State) : Nat × Bytes → Option (State × Curlcode)
  | (mallocs, buf) => do
    let hdr := capsuleEncapUdpHdr httpCapsuleHeaderMaxSize buf.length
    if hdr = [] then some (q, .failedInit)
    else
      let (q, result) ← writeAll { q with mallocs } hdr
      if result ≠ .ok then some (q, result) else writeAll q buf

/-- What `Curl_capsule_process_udp_raw` returns. -/
structure UdpRead where
  err : Curlcode
  bytes : Bytes

/-- Skip some bytes and return an error. -/
def skipping (recvbufq : State) (amount : Nat) (err : Curlcode) : Option (State × UdpRead) :=
  (bufqSkip recvbufq amount).map fun recvbufq => (recvbufq, ⟨err, []⟩)

/-- `SIZE_MAX`. -/
def sizeMax : Nat := 2 ^ 64 - 1

/-- The last part of `Curl_capsule_process_udp_raw`: the payload, behind a header of `offset`
bytes. -/
def processPayload (recvbufq : State) (len offset payloadLen : Nat) :
    Option (State × UdpRead) := do
  if (← bufqLen recvbufq) < offset + payloadLen then some (recvbufq, ⟨.again, []⟩)
  else if payloadLen > len then skipping recvbufq (offset + payloadLen) .recvError
  else
    let recvbufq ← bufqSkip recvbufq offset
    if payloadLen = 0 then some (recvbufq, ⟨.ok, []⟩)
    else
      let (recvbufq, result, bytes) ← bufqRead recvbufq payloadLen
      if result ≠ .ok ∨ bytes.length ≠ payloadLen then some (recvbufq, ⟨.recvError, []⟩)
      else some (recvbufq, ⟨.ok, bytes⟩)

/-- The part behind the capsule type, which `Curl_bufq_peek` has shown to be 0. -/
def processCapsule (recvbufq : State) (len : Nat) : Option (State × UdpRead) := do
  match ← capsuleDecodeVarintAt recvbufq 1 with
  | .error result => some (recvbufq, ⟨if result = .again then .again else .recvError, []⟩)
  | .ok (capsuleLength, varintLen) =>
    let offset := 1 + varintLen
    match ← bufqPeekAt recvbufq offset with
    | some (contextId :: _) =>
      if contextId ≠ 0 then skipping recvbufq (offset + 1) .recvError
      else if capsuleLength = 0 then skipping recvbufq (offset + 1) .recvError
      else if capsuleLength - 1 ≥ sizeMax then some (recvbufq, ⟨.recvError, []⟩)
      else processPayload recvbufq len (offset + 1) (capsuleLength - 1)
    | _ => some (recvbufq, ⟨.again, []⟩)

/-- `Curl_capsule_process_udp_raw`, for a buffer of `len` bytes. -/
def capsuleProcessUdpRaw (recvbufq : State) (len : Nat) : Option (State × UdpRead) := do
  if len = 0 then some (recvbufq, ⟨.badFunctionArgument, []⟩)
  else if ← bufqIsEmpty recvbufq then some (recvbufq, ⟨.again, []⟩)
  else
    match ← bufqPeek recvbufq with
    | (recvbufq, some (capsuleType :: _)) =>
      if capsuleType ≠ 0 then skipping recvbufq 1 .recvError else processCapsule recvbufq len
    | (recvbufq, _) => some (recvbufq, ⟨.again, []⟩)

/-! The receiving side of the filter of `lib/vquic/cf-capsule.c`. -/

def capsuleRecvChunks : Nat := 4

def capsuleChunkSize : Nat := 16 * 1024

/-- `ctx->recvbuf` as `cf_capsule_create` leaves it. -/
def recvbufInit : State := bufqInit2 .empty capsuleChunkSize capsuleRecvChunks true false

/-- What the filter below answers to one call, as far as it was asked for. -/
structure Arrival where
  reply : Nat → Reply
  bounded : ∀ len, (reply len).bytes.length ≤ len

/-- There is nothing to read. -/
def nothing : Arrival := ⟨fun _ => ⟨.again, []⟩, fun _ => Nat.zero_le _⟩

/-- One round of filling: `Curl_cf_recv_bufq` of one chunk at most. -/
def recvBufq (recvbuf : State) (next : Arrival) : Option (State × Curlcode × Option Reply) :=
  bufqSipn recvbuf 0 next.reply

/-- What the loop of `cf_capsule_recv` leaves: the queue, the error that ends the call, and the
replies of the filter below. -/
structure Filled where
  recvbuf : State
  error : Option Curlcode
  replies : List Reply

/-- The loop: the filter below gives these answers, and `CURLE_AGAIN` after them. -/
def fillLoop (recvbuf : State) : List Arrival → Option Filled
  | [] => do
    if ← bufqIsFull recvbuf then some ⟨recvbuf, none, []⟩
    else
      let (recvbuf, result, reply) ← recvBufq recvbuf nothing
      some ⟨recvbuf, if result = .again then none else some result, reply.toList⟩
  | next :: arrivals => do
    if ← bufqIsFull recvbuf then some ⟨recvbuf, none, []⟩
    else
      let (recvbuf, result, reply) ← recvBufq recvbuf next
      let nread := (reply.map fun r => r.bytes.length).getD 0
      if result = .again then some ⟨recvbuf, none, reply.toList⟩
      else if result ≠ .ok then some ⟨recvbuf, some result, reply.toList⟩
      else if nread = 0 then some ⟨recvbuf, none, reply.toList⟩
      else
        let filled ← fillLoop recvbuf arrivals
        some { filled with replies := reply.toList ++ filled.replies }

/-- A call of `cf_capsule_recv`: the allocations that succeed, the size of the caller's buffer, and
the answers of the filter below. -/
structure Call where
  mallocs : Nat
  len : Nat
  arrivals : List Arrival

/-- What a call has done. -/
structure Step where
  before : State
  after : State
  read : UdpRead
  replies : List Reply

/-- `cf_capsule_recv`. -/
def cfCapsuleRecv (recvbuf : State) (call : Call) : Option Step := do
  let filled ← fillLoop { recvbuf with mallocs := call.mallocs } call.arrivals
  match filled.error with
  | some result => some ⟨recvbuf, filled.recvbuf, ⟨result, []⟩, filled.replies⟩
  | none =>
    let (after, read) ← capsuleProcessUdpRaw filled.recvbuf call.len
    some ⟨recvbuf, after, read, filled.replies⟩

/-- The calls one after the other. -/
def recvs : State → List Call → Option (List Step)
  | _, [] => some []
  | recvbuf, call :: calls => do
    let step ← cfCapsuleRecv recvbuf call
    let steps ← recvs step.after calls
    some (step :: steps)

end Gurl.Vquic
