import Gurl.Buffer.Chunk

/-! The queues of `lib/bufq.c`: chunks in a heap, linked to the queue itself, to its list of spare
chunks and to the spare list of a pool. A function returns `none` where the code would follow a
pointer to no chunk or where a loop does not end within its fuel. -/

namespace Gurl.Buffer

open LinkedHeap

/-- `struct bufc_pool`. -/
structure BufcPool where
  spare : Option Ptr
  chunkSize : Nat
  spareCount : Nat
  spareMax : Nat

/-- `struct bufq`, with the bits of `opts`. -/
structure Bufq where
  head : Option Ptr
  tail : Option Ptr
  spare : Option Ptr
  chunkCount : Nat
  maxChunks : Nat
  chunkSize : Nat
  softLimit : Bool
  noSpares : Bool

/-- A queue with the memory that it works on, the pool, if it has one, and the number of allocations
that succeed before one fails. -/
structure State where
  heap : Heap BufChunk
  q : Bufq
  pool : Option BufcPool
  mallocs : Nat

/-- `Curl_bufcp_init`. -/
def bufcpInit (chunkSize spareMax : Nat) : BufcPool where
  spare := none
  chunkSize := chunkSize
  spareCount := 0
  spareMax := spareMax

/-- `bufq_init`, in memory that may hold the chunks of the pool. -/
def bufqInit (heap : Heap BufChunk) (pool : Option BufcPool) (chunkSize maxChunks : Nat)
    (softLimit noSpares : Bool) : State where
  heap := heap
  q := {
    head := none, tail := none, spare := none, chunkCount := 0, maxChunks, chunkSize, softLimit
    noSpares }
  pool := pool
  mallocs := 0

/-- `Curl_bufq_init2`. -/
def bufqInit2 (heap : Heap BufChunk) (chunkSize maxChunks : Nat) (softLimit noSpares : Bool) :
    State := bufqInit heap none chunkSize maxChunks softLimit noSpares

/-- `Curl_bufq_initp`. -/
def bufqInitp (heap : Heap BufChunk) (pool : BufcPool) (maxChunks : Nat)
    (softLimit noSpares : Bool) : State :=
  bufqInit heap (some pool) pool.chunkSize maxChunks softLimit noSpares

def State.setChunk (s : State) (p : Ptr) (c : BufChunk) : State :=
  { s with heap := s.heap.set p c }

/-- No list of chunks is longer. -/
def State.fuel (s : State) : Nat := s.heap.size + 1

/-! ### Chunks that come and go -/

/-- `SIZE_MAX`. -/
def sizeMax : Nat := 2 ^ 64 - 1

/-- `sizeof(struct buf_chunk)`. -/
def chunkHeader : Nat := 40

/-- A chunk of cleared memory. -/
def newChunk (size : Nat) : BufChunk where
  next := none
  dlen := size
  rOffset := 0
  wOffset := 0
  data := List.replicate size 0

/-- Allocate a chunk, unless its size overflows or there is no memory. -/
def State.calloc (s : State) (size : Nat) : State × Option Ptr :=
  if size > sizeMax - chunkHeader ∨ s.mallocs = 0 then (s, none)
  else
    ({ s with heap := s.heap.alloc (newChunk size), mallocs := s.mallocs - 1 }, some s.heap.fresh)

/-- `bufcp_take`. -/
def bufcpTake (pool : BufcPool) (s : State) : Option (State × Option Ptr) :=
  match pool.spare with
  | some p => do
    let c ← s.heap.get p
    let pool := { pool with spare := c.next, spareCount := pool.spareCount - 1 }
    some ({ s.setChunk p (chunkReset c) with pool := some pool }, some p)
  | none => some (s.calloc pool.chunkSize)

/-- `bufcp_put`. -/
def bufcpPut (pool : BufcPool) (p : Ptr) (c : BufChunk) (s : State) : State :=
  if pool.spareCount ≥ pool.spareMax then { s with heap := s.heap.free p }
  else
    { s.setChunk p { chunkReset c with next := pool.spare } with
      pool := some { pool with spare := some p, spareCount := pool.spareCount + 1 } }

/-- Count a chunk that was obtained. -/
def State.countNew : State × Option Ptr → State × Option Ptr
  | (s, some p) => ({ s with q := { s.q with chunkCount := s.q.chunkCount + 1 } }, some p)
  | (s, none) => (s, none)

/-- `get_spare`. -/
def getSpare (s : State) : Option (State × Option Ptr) :=
  match s.q.spare with
  | some p => do
    let c ← s.heap.get p
    some ({ s.setChunk p (chunkReset c) with q := { s.q with spare := c.next } }, some p)
  | none =>
    if s.q.chunkCount ≥ s.q.maxChunks ∧ s.q.softLimit = false then some (s, none)
    else
      match s.pool with
      | some pool => (bufcpTake pool s).map State.countNew
      | none => some (State.countNew (s.calloc s.q.chunkSize))

/-- Take the empty chunk `c` at `p` out of the front of the queue. -/
def State.unlinkHead (s : State) (p : Ptr) (c : BufChunk) : State :=
  { s with q := { s.q with
      head := c.next
      tail := if s.q.tail = some p then c.next else s.q.tail } }

/-- Do not count a chunk any more. -/
def State.countGone (s : State) : State :=
  { s with q := { s.q with chunkCount := s.q.chunkCount - 1 } }

/-- What `prune_head` does with an empty chunk that is no longer in the queue. -/
def State.retire (s : State) (p : Ptr) (c : BufChunk) : State :=
  match s.pool with
  | some pool => (bufcpPut pool p c s).countGone
  | none =>
    if s.q.chunkCount > s.q.maxChunks ∨ s.q.noSpares then
      { s with heap := s.heap.free p }.countGone
    else { s.setChunk p { c with next := s.q.spare } with q := { s.q with spare := some p } }

/-- `prune_head`. -/
def pruneLoop : Nat → State → Option State
  | 0, _ => none
  | fuel + 1, s =>
    match s.q.head with
    | none => some s
    | some p => do
      let c ← s.heap.get p
      if chunkIsEmpty c then pruneLoop fuel ((s.unlinkHead p c).retire p c) else some s

def pruneHead (s : State) : Option State := pruneLoop s.fuel s

/-- Link a new chunk behind the tail. -/
def State.linkTail (s : State) (p : Ptr) : Option State :=
  match s.q.tail with
  | some t => do
    let c ← s.heap.get t
    some { s.setChunk t { c with next := some p } with q := { s.q with tail := some p } }
  | none => some { s with q := { s.q with head := some p, tail := some p } }

/-- Get a spare chunk and make it the tail. -/
def newTail (s : State) : Option (State × Option Ptr) := do
  match ← getSpare s with
  | (s, none) => some (s, none)
  | (s, some p) => do
    let s ← s.linkTail p
    some (s, some p)

/-- `get_non_full_tail`. -/
def getNonFullTail (s : State) : Option (State × Option Ptr) :=
  match s.q.tail with
  | some t => do
    let c ← s.heap.get t
    if !chunkIsFull c then some (s, some t) else newTail s
  | none => newTail s

/-! ### Reading and writing -/

/-- The loop of `Curl_bufq_write`: the result and the number of bytes written. -/
def writeLoop : Nat → State → Bytes → Nat → Option (State × Curlcode × Nat)
  | 0, _, _, _ => none
  | fuel + 1, s, buf, nwritten =>
    let result := if nwritten = 0 ∧ buf ≠ [] then Curlcode.again else .ok
    if buf = [] then some (s, result, nwritten)
    else do
      match ← getNonFullTail s with
      | (s, none) =>
        if s.q.chunkCount < s.q.maxChunks ∨ s.q.softLimit then some (s, .outOfMemory, nwritten)
        else some (s, result, nwritten)
      | (s, some t) => do
        let c ← s.heap.get t
        let (c, n) := chunkAppend c buf
        let s := s.setChunk t c
        if n = 0 then some (s, result, nwritten)
        else writeLoop fuel s (buf.drop n) (nwritten + n)

/-- `Curl_bufq_write`. -/
def bufqWrite (s : State) (buf : Bytes) : Option (State × Curlcode × Nat) :=
  writeLoop (buf.length + 1) s buf 0

/-- The loop of `Curl_bufq_read`. -/
def readLoop : Nat → State → Nat → Bytes → Option (State × Bytes)
  | 0, _, _, _ => none
  | fuel + 1, s, len, out =>
    match s.q.head with
    | none => some (s, out)
    | some p =>
      if len = 0 then some (s, out)
      else do
        let c ← s.heap.get p
        let (c, bytes) := chunkRead c len
        let s ← pruneHead (s.setChunk p c)
        readLoop fuel s (len - bytes.length) (out ++ bytes)

/-- `Curl_bufq_read`: the result and the bytes read. -/
def bufqRead (s : State) (len : Nat) : Option (State × Curlcode × Bytes) := do
  let (s, out) ← readLoop s.fuel s len []
  some (s, if out = [] then .again else .ok, out)

/-- The first step of `Curl_bufq_peek`. -/
def pruneEmptyHead (s : State) : Option State :=
  match s.q.head with
  | some p => do
    let c ← s.heap.get p
    if chunkIsEmpty c then pruneHead s else some s
  | none => some s

/-- The unread bytes of the head, if there are any. -/
def peekHead (s : State) : Option (Option Bytes) :=
  match s.q.head with
  | some p => (s.heap.get p).map fun c => if !chunkIsEmpty c then some (chunkPeek c) else none
  | none => some none

/-- `Curl_bufq_peek`. -/
def bufqPeek (s : State) : Option (State × Option Bytes) := do
  let s ← pruneEmptyHead s
  let shown ← peekHead s
  some (s, shown)

/-- `Curl_bufq_peek_at`, from the chunk at `p` on. -/
def peekLoop (h : Heap BufChunk) : Nat → Option Ptr → Nat → Option (Option Bytes)
  | 0, _, _ => none
  | _ + 1, none, _ => some none
  | fuel + 1, some p, offset => do
    let c ← h.get p
    let clen := chunkLen c
    if clen = 0 then some none
    else if offset ≥ clen then peekLoop h fuel c.next (offset - clen)
    else some (some (chunkPeekAt c offset))

/-- `Curl_bufq_peek_at`. -/
def bufqPeekAt (s : State) (offset : Nat) : Option (Option Bytes) :=
  peekLoop s.heap s.fuel s.q.head offset

/-- The loop of `Curl_bufq_skip`. -/
def skipLoop : Nat → State → Nat → Option State
  | 0, _, _ => none
  | fuel + 1, s, amount =>
    match s.q.head with
    | none => some s
    | some p =>
      if amount = 0 then some s
      else do
        let c ← s.heap.get p
        let (c, n) := chunkSkip c amount
        let s ← pruneHead (s.setChunk p c)
        skipLoop fuel s (amount - n)

/-- `Curl_bufq_skip`. -/
def bufqSkip (s : State) (amount : Nat) : Option State := skipLoop s.fuel s amount

/-! ### Filling the queue from a reader -/

/-- `Curl_bufq_sipn`: the result, and the reader's reply where the reader was called. -/
def bufqSipn (s : State) (maxLen : Nat) (reader : Nat → Reply) :
    Option (State × Curlcode × Option Reply) := do
  match ← getNonFullTail s with
  | (s, none) =>
    some (s, if s.q.chunkCount < s.q.maxChunks then .outOfMemory else .again, none)
  | (s, some t) => do
    let c ← s.heap.get t
    if c.dlen - c.wOffset = 0 then some (s, .again, none)
    else
      let reply := reader (slurpSize c maxLen)
      some (s.setChunk t (chunkSlurpn c reply), reply.result, some reply)

/-- The tail of the queue, if there is one, has room. -/
def State.tailHasRoom (s : State) : Option Bool :=
  match s.q.tail with
  | none => some false
  | some t => (s.heap.get t).map fun c => !chunkIsFull c

/-- The loop of `bufq_slurpn`: the result, the number of bytes read, and what the reader has
replied. -/
def slurpLoop (reader : Reader) : Nat → State → Nat → Nat → List Reply →
    Option (State × Curlcode × Nat × List Reply)
  | 0, _, _, _, _ => none
  | fuel + 1, s, maxLen, nread, replies => do
    let (s, result, reply) ← bufqSipn s maxLen (reader.reply replies.length)
    let n := (reply.map fun r => r.bytes.length).getD 0
    let replies := replies ++ reply.toList
    if result ≠ .ok then
      -- blocked on the first read or a real error, or else the bytes read before are a success
      some (s, if nread = 0 ∨ result ≠ .again then result else .ok, nread, replies)
    else if n = 0 then some (s, result, nread, replies)
    else if maxLen ≠ 0 ∧ maxLen - n = 0 then some (s, result, nread + n, replies)
    else if ← s.tailHasRoom then some (s, result, nread + n, replies)
    else slurpLoop reader fuel s (maxLen - n) (nread + n) replies

/-- `bufq_slurpn`. -/
def bufqSlurpn (s : State) (maxLen : Nat) (reader : Reader) :
    Option (State × Curlcode × Nat × List Reply) :=
  slurpLoop reader (s.fuel + s.mallocs + 1) s maxLen 0 []

/-- `Curl_bufq_slurp`. -/
def bufqSlurp (s : State) (reader : Reader) : Option (State × Curlcode × Nat × List Reply) :=
  bufqSlurpn s 0 reader

/-! ### The whole queue -/

/-- `Curl_bufq_reset`. -/
def resetLoop : Nat → State → Option State
  | 0, _ => none
  | fuel + 1, s =>
    match s.q.head with
    | none => some { s with q := { s.q with tail := none } }
    | some p => do
      let c ← s.heap.get p
      resetLoop fuel { s.setChunk p { c with next := s.q.spare } with
        q := { s.q with head := c.next, spare := some p } }

def bufqReset (s : State) : Option State := resetLoop s.fuel s

/-- `Curl_bufq_len`, from the chunk at `p` on. -/
def lenLoop (h : Heap BufChunk) : Nat → Option Ptr → Option Nat
  | 0, _ => none
  | _ + 1, none => some 0
  | fuel + 1, some p => do
    let c ← h.get p
    let len ← lenLoop h fuel c.next
    some (chunkLen c + len)

def bufqLen (s : State) : Option Nat := lenLoop s.heap s.fuel s.q.head

/-- `Curl_bufq_is_empty`. -/
def bufqIsEmpty (s : State) : Option Bool :=
  match s.q.head with
  | none => some true
  | some p => (s.heap.get p).map chunkIsEmpty

/-- `Curl_bufq_is_full`. -/
def bufqIsFull (s : State) : Option Bool :=
  match s.q.tail, s.q.spare with
  | some t, none =>
    if s.q.chunkCount < s.q.maxChunks then some false
    else if s.q.chunkCount > s.q.maxChunks then some true
    else (s.heap.get t).map chunkIsFull
  | _, _ => some false

/-! What no call changes: the sizes and the options that a queue was set up with. -/

variable {s s' : State} {r : Option Ptr} {fuel : Nat}

/-- What `bufq_init` sets once and for all. -/
def Bufq.options (q : Bufq) : Nat × Nat × Bool × Bool :=
  (q.maxChunks, q.chunkSize, q.softLimit, q.noSpares)

@[simp] theorem setChunk_q (s : State) (p : Ptr) (c : BufChunk) : (s.setChunk p c).q = s.q := rfl

theorem calloc_q (s : State) (size : Nat) : (s.calloc size).1.q = s.q := by
  unfold State.calloc
  split <;> rfl

theorem countNew_options (x : State × Option Ptr) :
    (State.countNew x).1.q.options = x.1.q.options := by
  obtain ⟨s, _ | p⟩ := x <;> rfl

theorem bufcpTake_q {pool : BufcPool} {x : State × Option Ptr} (h : bufcpTake pool s = some x) :
    x.1.q = s.q := by
  unfold bufcpTake at h
  split at h
  · obtain ⟨c, -, h⟩ := Option.bind_eq_some_iff.mp h
    cases h
    rfl
  · cases h
    exact calloc_q s pool.chunkSize

theorem getSpare_options {x : State × Option Ptr} (h : getSpare s = some x) :
    x.1.q.options = s.q.options := by
  unfold getSpare at h
  split at h
  · obtain ⟨c, -, h⟩ := Option.bind_eq_some_iff.mp h
    cases h
    rfl
  · split at h
    · cases h
      rfl
    · split at h
      · obtain ⟨y, hy, rfl⟩ := Option.map_eq_some_iff.mp h
        rw [countNew_options, bufcpTake_q hy]
      · cases h
        rw [countNew_options, calloc_q]

theorem linkTail_options {p : Ptr} (h : s.linkTail p = some s') :
    s'.q.options = s.q.options := by
  unfold State.linkTail at h
  split at h
  · obtain ⟨c, -, h⟩ := Option.bind_eq_some_iff.mp h
    cases h
    rfl
  · cases h
    rfl

theorem newTail_options {x : State × Option Ptr} (h : newTail s = some x) :
    x.1.q.options = s.q.options := by
  unfold newTail at h
  obtain ⟨⟨s1, r⟩, hspare, h⟩ := Option.bind_eq_some_iff.mp h
  have hoptions := getSpare_options hspare
  cases r with
  | none =>
    cases h
    exact hoptions
  | some p =>
    obtain ⟨s2, hlink, h⟩ := Option.bind_eq_some_iff.mp h
    cases h
    exact (linkTail_options hlink).trans hoptions

theorem getNonFullTail_options {x : State × Option Ptr} (h : getNonFullTail s = some x) :
    x.1.q.options = s.q.options := by
  unfold getNonFullTail at h
  split at h
  · obtain ⟨c, -, h⟩ := Option.bind_eq_some_iff.mp h
    split at h
    · cases h
      rfl
    · exact newTail_options h
  · exact newTail_options h

theorem writeLoop_options {buf : Bytes} {n m : Nat} {res : Curlcode}
    (h : writeLoop fuel s buf n = some (s', res, m)) : s'.q.options = s.q.options := by
  induction fuel generalizing s buf n with
  | zero => cases h
  | succ fuel ih =>
    unfold writeLoop at h
    dsimp only at h
    split at h
    · cases h
      rfl
    · obtain ⟨⟨s1, r⟩, htail, h⟩ := Option.bind_eq_some_iff.mp h
      have hoptions := getNonFullTail_options htail
      cases r with
      | none =>
        dsimp only at h
        split at h <;> cases h <;> exact hoptions
      | some t =>
        obtain ⟨c, -, h⟩ := Option.bind_eq_some_iff.mp h
        split at h
        · cases h
          exact hoptions
        · exact (ih h).trans hoptions

theorem retire_options (s : State) (p : Ptr) (c : BufChunk) :
    (s.retire p c).q.options = s.q.options := by
  unfold State.retire
  split
  · unfold bufcpPut
    split <;> rfl
  · split <;> rfl

theorem pruneLoop_options (h : pruneLoop fuel s = some s') : s'.q.options = s.q.options := by
  induction fuel generalizing s with
  | zero => cases h
  | succ fuel ih =>
    unfold pruneLoop at h
    split at h
    · cases h
      rfl
    · obtain ⟨c, -, h⟩ := Option.bind_eq_some_iff.mp h
      split at h
      · exact (ih h).trans (retire_options _ _ c)
      · cases h
        rfl

theorem pruneHead_options (h : pruneHead s = some s') : s'.q.options = s.q.options :=
  pruneLoop_options h

theorem readLoop_options {len : Nat} {out bytes : Bytes}
    (h : readLoop fuel s len out = some (s', bytes)) : s'.q.options = s.q.options := by
  induction fuel generalizing s len out with
  | zero => cases h
  | succ fuel ih =>
    unfold readLoop at h
    split at h
    · cases h
      rfl
    · split at h
      · cases h
        rfl
      · obtain ⟨c, -, h⟩ := Option.bind_eq_some_iff.mp h
        obtain ⟨s1, hprune, h⟩ := Option.bind_eq_some_iff.mp h
        have hoptions := pruneHead_options hprune
        rw [setChunk_q] at hoptions
        exact (ih h).trans hoptions

theorem bufqRead_options {len : Nat} {res : Curlcode} {bytes : Bytes}
    (h : bufqRead s len = some (s', res, bytes)) : s'.q.options = s.q.options := by
  obtain ⟨⟨s1, out⟩, hloop, h⟩ := Option.bind_eq_some_iff.mp h
  cases h
  exact readLoop_options hloop

theorem skipLoop_options {amount : Nat} (h : skipLoop fuel s amount = some s') :
    s'.q.options = s.q.options := by
  induction fuel generalizing s amount with
  | zero => cases h
  | succ fuel ih =>
    unfold skipLoop at h
    split at h
    · cases h
      rfl
    · split at h
      · cases h
        rfl
      · obtain ⟨c, -, h⟩ := Option.bind_eq_some_iff.mp h
        obtain ⟨s1, hprune, h⟩ := Option.bind_eq_some_iff.mp h
        have hoptions := pruneHead_options hprune
        rw [setChunk_q] at hoptions
        exact (ih h).trans hoptions

theorem bufqSkip_options {amount : Nat} (h : bufqSkip s amount = some s') :
    s'.q.options = s.q.options := skipLoop_options h

theorem bufqPeek_options {shown : Option Bytes} (h : bufqPeek s = some (s', shown)) :
    s'.q.options = s.q.options := by
  obtain ⟨s1, hprune, h⟩ := Option.bind_eq_some_iff.mp h
  obtain ⟨shown', -, h⟩ := Option.bind_eq_some_iff.mp h
  cases h
  unfold pruneEmptyHead at hprune
  split at hprune
  · obtain ⟨c, -, hprune⟩ := Option.bind_eq_some_iff.mp hprune
    split at hprune
    · exact pruneHead_options hprune
    · cases hprune
      rfl
  · cases hprune
    rfl

theorem bufqWrite_options {buf : Bytes} {m : Nat} {res : Curlcode}
    (h : bufqWrite s buf = some (s', res, m)) : s'.q.options = s.q.options := writeLoop_options h

theorem softLimit_eq (h : s'.q.options = s.q.options) : s'.q.softLimit = s.q.softLimit :=
  congrArg (fun o => o.2.2.1) h

end Gurl.Buffer
