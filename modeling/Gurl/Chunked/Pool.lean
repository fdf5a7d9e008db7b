import Gurl.Chunked.Probe
import Gurl.Lib.Heap
import Gurl.Lib.Runs
import Mathlib.Logic.Function.Basic

/-! The parallel part of `src/tool_chunked.c` as a step function: `chunk_download` on the calling
thread, up to `CHUNK_STREAMS` threads in `chunk_worker_loop`, and the writer thread in
`chunk_writer_loop`. A section under a mutex is one step, and so is each stretch of code between
two sections, each transfer of bytes into `chunk_write_cb`, and each call of `write`. The actions
say which thread moves and what its environment answers. -/

namespace Gurl.Chunked

open LinkedHeap

/-! ### The state -/

/-- What a job asks the writer to do. `buf` holds `len` bytes, and `idx`, which the source does not
store, is the chunk that they were received for. -/
structure Payload where
  idx : Nat
  offset : Nat
  buf : Bytes

/-- `struct chunk_wjob`. -/
structure Wjob where
  next : Option Ptr
  payload : Payload

/-- One byte in the output file, with the chunk it was received for. -/
structure Write where
  idx : Nat
  offset : Nat
  byte : UInt8

/-- The bytes `buf` from offset `pos` on. -/
def writesAt (idx : Nat) : Nat → Bytes → List Write
  | _, [] => []
  | pos, b :: rest => ⟨idx, pos, b⟩ :: writesAt idx (pos + 1) rest

def Payload.writes (j : Payload) : List Write := writesAt j.idx j.offset j.buf

/-- A `curl_easy_perform` for chunk `idx`: the range it asked for, and the bytes that
`chunk_write_cb` has accepted. -/
structure Fetch where
  idx : Nat
  start : Nat
  stop : Nat
  got : Bytes
  deriving DecidableEq

/-- Where a worker is: at the top of `chunk_worker_loop`, in `chunk_fetch_one`, inside
`curl_easy_perform`, in `chunk_write_cb` with a piece, or on the way out. -/
inductive WorkerPc where
  | idle
  | pull
  | fetch (idx : Nat)
  | perform (f : Fetch)
  | callback (f : Fetch) (piece : Bytes)
  | checkPool (f : Fetch) (piece : Bytes)
  | copy (f : Fetch) (piece : Bytes)
  | enqueue (f : Fetch) (piece : Bytes) (job : Ptr)
  | seek (f : Fetch) (piece : Bytes)
  | writing (f : Fetch) (piece : Bytes) (pos : Nat) (rest : Bytes)
  | bump (f : Fetch) (piece : Bytes)
  | refused (f : Fetch)
  | record (res : Curlcode)
  | finish
  | exited
  deriving DecidableEq

/-- `struct chunk_worker`. -/
structure ChunkWorker where
  pc : WorkerPc
  curOffset : Nat
  written : Nat
  threaded : Bool

/-- `struct chunk_pool`; `writer` tells whether the pointer is set. -/
structure ChunkPool where
  next : Nat
  n : Nat
  base : Nat
  chunkSize : Nat
  total : Nat
  finished : Nat
  result : Curlcode
  writer : Bool

inductive WriterPc where
  | notStarted
  | loop
  | take (job : Ptr)
  | seek (job : Ptr)
  | writing (job : Ptr) (pos : Nat) (rest : Bytes)
  | record (job : Ptr)
  | free (job : Ptr)
  | exited
  deriving DecidableEq

/-- `struct chunk_writer`, with the place of its thread. -/
structure ChunkWriter where
  head : Option Ptr
  tail : Option Ptr
  queued : Int
  done : Bool
  result : Curlcode
  pc : WriterPc

/-- Where `chunk_download` is. -/
inductive MainPc where
  | alloc
  | startWriter
  | openWorkers (opened : Nat)
  | startThreads (i launched : Nat)
  | inlineLoop
  | watch (launched : Nat)
  | joinWorkers (i : Nat)
  | stopWriter (result : Curlcode)
  | joinWriter (result : Curlcode)
  | ret (result : Curlcode)
  deriving DecidableEq

/-- What has happened so far. No step reads it. -/
structure History where
  /-- The chunk indices handed out. -/
  handed : List Nat
  /-- The transfers that returned `CURLE_OK`, with the bytes they handed over. -/
  transfers : List (Nat × Bytes)
  /-- The jobs linked into the queue and the jobs unlinked from it. -/
  enqueued : List Payload
  consumed : List Payload
  /-- The bytes written to the output file. -/
  log : List Write
  /-- A transfer returned an error; a `chunk_write_at` failed. -/
  performFailed : Bool
  writeFailed : Bool

/-- The state of a download with `k` workers. -/
structure State (k : Nat) where
  pool : ChunkPool
  writer : ChunkWriter
  heap : Heap Wjob
  workers : Fin k → ChunkWorker
  main : MainPc
  hist : History

/-- `chunk_download` before its first allocation. -/
def State.init (plan : Plan) : State plan.nworkers where
  pool := { next := 0, n := plan.n, base := plan.base, chunkSize := plan.chunkSize,
            total := plan.total, finished := 0, result := .ok, writer := false }
  writer := { head := none, tail := none, queued := 0, done := false, result := .ok,
              pc := .notStarted }
  heap := .empty
  workers := fun _ => { pc := .idle, curOffset := 0, written := 0, threaded := false }
  main := .alloc
  hist := { handed := [], transfers := [], enqueued := [], consumed := [], log := [],
            performFailed := false, writeFailed := false }

variable {k : Nat}

def State.setWorker (s : State k) (w : Fin k) (x : ChunkWorker) : State k :=
  { s with workers := Function.update s.workers w x }

def State.setPc (s : State k) (w : Fin k) (pc : WorkerPc) : State k :=
  s.setWorker w { s.workers w with pc }

/-! ### The steps -/

/-- What the environment answers: nothing, success or failure, a result code, bytes received, or
the result of a `write`. -/
inductive Choice where
  | go
  | flag (ok : Bool)
  | code (res : Curlcode)
  | bytes (piece : Bytes)
  | count (rc : Int)
  deriving DecidableEq

/-- Link `job` at the tail, as `chunk_write_cb` does under the writer's lock. -/
def State.link (s : State k) (job : Ptr) : Option (State k) := do
  let j ← s.heap.get job
  let writer := { s.writer with tail := some job, queued := s.writer.queued + j.payload.buf.length }
  let hist := { s.hist with enqueued := s.hist.enqueued ++ [j.payload] }
  match s.writer.tail with
  | some t =>
    let last ← s.heap.get t
    some { s with heap := s.heap.set t { last with next := some job }, writer, hist }
  | none => some { s with writer := { writer with head := some job }, hist }

/-- One step of worker `w`. A transfer may return `CURLE_OK` when `reply` allows it for the bytes it
has handed over, and an error at any time between two pieces. -/
def workerStep (reply : Nat → Nat → Bytes → Bool) (s : State k) (w : Fin k) (c : Choice) :
    Option (State k) :=
  let me := s.workers w
  match me.pc, c with
  | .pull, .go =>
    if s.pool.result ≠ .ok ∨ s.pool.next ≥ s.pool.n then some (s.setPc w .finish)
    else some { s.setPc w (.fetch s.pool.next) with
      pool := { s.pool with next := s.pool.next + 1 }
      hist := { s.hist with handed := s.hist.handed ++ [s.pool.next] } }
  | .fetch idx, .go => do
    let (start, stop) ← chunkRange s.pool.base s.pool.chunkSize s.pool.total idx
    some (s.setWorker w { me with
      curOffset := start, pc := .perform { idx, start, stop, got := [] } })
  | .perform f, .bytes piece => some (s.setPc w (.callback f piece))
  | .perform f, .code .ok =>
    if reply f.start f.stop f.got then
      some { s.setPc w .pull with
        hist := { s.hist with transfers := s.hist.transfers ++ [(f.idx, f.got)] } }
    else none
  | .perform _, .code res =>
    some { s.setPc w (.record res) with hist := { s.hist with performFailed := true } }
  | .callback f piece, .go =>
    if piece = [] then some (s.setPc w (.perform f))
    else if s.pool.writer then
      if s.writer.result ≠ .ok then some (s.setPc w (.refused f))
      else some (s.setPc w (.checkPool f piece))
    else some (s.setPc w (.seek f piece))
  | .checkPool f piece, .go =>
    if s.pool.result ≠ .ok then some (s.setPc w (.refused f))
    else some (s.setPc w (.copy f piece))
  | .copy f piece, .flag ok =>
    if ok then
      some { s.setPc w (.enqueue f piece s.heap.fresh) with
        heap := s.heap.alloc { next := none, payload := ⟨f.idx, me.curOffset, piece⟩ } }
    else some (s.setPc w (.refused f))
  | .enqueue f piece job, .go =>
    if s.writer.result ≠ .ok then some { s.setPc w (.refused f) with heap := s.heap.free job }
    else if s.writer.queued < chunkQueueMax then (s.link job).map (·.setPc w (.bump f piece))
    else some s
  | .seek f piece, .flag ok =>
    if ok then some (s.setPc w (.writing f piece me.curOffset piece))
    else some { s.setPc w (.refused f) with hist := { s.hist with writeFailed := true } }
  | .writing f piece pos rest, .count rc =>
    if rest = [] ∨ rc > rest.length then none
    else if rc < 0 then
      some { s.setPc w (.refused f) with hist := { s.hist with writeFailed := true } }
    else some { s.setPc w (.writing f piece (pos + rc.toNat) (rest.drop rc.toNat)) with
      hist := { s.hist with log := s.hist.log ++ writesAt f.idx pos (rest.take rc.toNat) } }
  | .writing f piece _ [], .go => some (s.setPc w (.bump f piece))
  | .bump f piece, .go =>
    some (s.setWorker w { me with
      curOffset := me.curOffset + piece.length
      written := me.written + piece.length
      pc := .perform { f with got := f.got ++ piece } })
  -- `chunk_write_cb` returned less than it was given: libcurl fails the transfer
  | .refused _, .code res =>
    if res = .ok then none
    else some { s.setPc w (.record res) with hist := { s.hist with performFailed := true } }
  | .record res, .go =>
    some { s.setPc w .finish with
      pool := { s.pool with result := if s.pool.result = .ok then res else s.pool.result } }
  | .finish, .go =>
    some { s.setPc w .exited with pool := { s.pool with finished := s.pool.finished + 1 } }
  | _, _ => none

/-- One step of `chunk_writer_loop`, with `chunk_write_at` on the job in hand. -/
def writerStep (s : State k) (c : Choice) : Option (State k) :=
  match s.writer.pc, c with
  | .loop, .go =>
    match s.writer.head with
    | some p => do
      let job ← s.heap.get p
      some { s with
        writer := { s.writer with
          head := job.next
          tail := if job.next = none then none else s.writer.tail
          queued := s.writer.queued - job.payload.buf.length
          pc := .take p }
        hist := { s.hist with consumed := s.hist.consumed ++ [job.payload] } }
    | none =>
      if s.writer.done then some { s with writer := { s.writer with pc := .exited } } else some s
  | .take p, .go =>
    some { s with writer := { s.writer with
      pc := if s.writer.result = .ok then .seek p else .free p } }
  | .seek p, .flag ok => do
    let job ← s.heap.get p
    if ok then
      some { s with writer :=
        { s.writer with pc := .writing p job.payload.offset job.payload.buf } }
    else some { s with
      writer := { s.writer with pc := .record p }, hist := { s.hist with writeFailed := true } }
  | .writing p pos rest, .count rc => do
    let job ← s.heap.get p
    if rest = [] ∨ rc > rest.length then none
    else if rc < 0 then some { s with
      writer := { s.writer with pc := .record p }, hist := { s.hist with writeFailed := true } }
    else some { s with
      writer := { s.writer with pc := .writing p (pos + rc.toNat) (rest.drop rc.toNat) }
      hist := { s.hist with
        log := s.hist.log ++ writesAt job.payload.idx pos (rest.take rc.toNat) } }
  | .writing p _ [], .go => some { s with writer := { s.writer with pc := .free p } }
  | .record p, .go =>
    some { s with writer := { s.writer with
      result := if s.writer.result = .ok then .writeError else s.writer.result, pc := .free p } }
  | .free p, .go =>
    some { s with heap := s.heap.free p, writer := { s.writer with pc := .loop } }
  | _, _ => none

/-- One step of `chunk_download`. -/
def mainStep (s : State k) (c : Choice) : Option (State k) :=
  match s.main, c with
  | .alloc, .flag ok => some { s with main := if ok then .startWriter else .ret .outOfMemory }
  | .startWriter, .flag ok =>
    if ok then some { s with
      pool := { s.pool with writer := true }, writer := { s.writer with pc := .loop }
      main := .openWorkers 0 }
    else some { s with main := .openWorkers 0 }
  | .openWorkers i, .code res =>
    if i < k then
      some { s with main := if res = .ok then .openWorkers (i + 1) else .stopWriter res }
    else none
  | .openWorkers i, .go =>
    if i < k then none
    else some { s with main := if i = 0 then .stopWriter .ok else .startThreads 0 0 }
  | .startThreads i launched, .flag ok =>
    if h : i < k then
      if ok then some
        { s.setWorker ⟨i, h⟩ { s.workers ⟨i, h⟩ with pc := .pull, threaded := true } with
          main := .startThreads (i + 1) (launched + 1) }
      else some { s with main := .startThreads (i + 1) launched }
    else none
  | .startThreads i launched, .go =>
    if i < k then none
    else if launched = 0 then
      if h : 0 < k then some { s.setPc ⟨0, h⟩ .pull with main := .inlineLoop } else none
    else some { s with main := .watch launched }
  | .inlineLoop, .go =>
    if h : 0 < k then
      if (s.workers ⟨0, h⟩).pc = .exited then some { s with main := .joinWorkers 0 } else none
    else none
  | .watch launched, .go =>
    some { s with main := if s.pool.finished ≥ launched then .joinWorkers 0 else .watch launched }
  | .joinWorkers i, .go =>
    if h : i < k then
      if (s.workers ⟨i, h⟩).threaded = true ∧ (s.workers ⟨i, h⟩).pc ≠ .exited then none
      else some { s.setWorker ⟨i, h⟩ { s.workers ⟨i, h⟩ with threaded := false } with
        main := .joinWorkers (i + 1) }
    else some { s with main := .stopWriter s.pool.result }
  | .stopWriter r, .go =>
    if s.pool.writer then
      some { s with writer := { s.writer with done := true }, main := .joinWriter r }
    else some { s with main := .ret r }
  | .joinWriter r, .go =>
    if s.writer.pc = .exited then
      some { s with main := .ret (if r = .ok then s.writer.result else r) }
    else none
  | _, _ => none

inductive Action (k : Nat) where
  | main (c : Choice)
  | worker (w : Fin k) (c : Choice)
  | writer (c : Choice)

/-- One step of the download. -/
def step (reply : Nat → Nat → Bytes → Bool) (s : State k) : Action k → Option (State k)
  | .main c => mainStep s c
  | .worker w c => workerStep reply s w c
  | .writer c => writerStep s c

/-- The states of a download that follows `plan`, against a server that `reply` describes. -/
abbrev Reachable (reply : Nat → Nat → Bytes → Bool) (plan : Plan)
    (s : State plan.nworkers) : Prop :=
  Runs.Reach (step reply) (State.init plan) s

end Gurl.Chunked
