import Gurl.Chunked.Errors

/-! The queue between the workers and the writer thread: the list of jobs from `head` to `tail`, the
jobs that a worker or the writer holds outside of it, and the order in which jobs leave it. -/

namespace Gurl.Chunked

open LinkedHeap

variable {k : Nat} {reply : Nat → Nat → Bytes → Bool} {s s' : State k} {w : Fin k}
  {ps : List Ptr} {p : Ptr}

/-- The job that a worker is about to link. -/
def WorkerPc.job : WorkerPc → Option Ptr
  | .enqueue _ _ p => some p
  | _ => none

/-- The job that the writer has unlinked. -/
def WriterPc.job : WriterPc → Option Ptr
  | .take p | .seek p | .writing p _ _ | .record p | .free p => some p
  | _ => none

/-- What the jobs at `ps` ask for. -/
def payloads (h : Heap Wjob) (ps : List Ptr) : List Payload :=
  ps.filterMap fun p => (h.get p).map Wjob.payload

/-- The bytes that some jobs hold. -/
def bytesOf (js : List Payload) : Nat := (js.map fun j => j.buf.length).sum

/-- The size of the largest job. -/
def largest (js : List Payload) : Nat := (js.map fun j => j.buf.length).foldr max 0

theorem payloads_congr {h h' : Heap Wjob}
    (heq : ∀ p ∈ ps, (h'.get p).map Wjob.payload = (h.get p).map Wjob.payload) :
    payloads h' ps = payloads h ps := List.filterMap_congr heq

theorem payloads_append (h : Heap Wjob) (ps qs : List Ptr) :
    payloads h (ps ++ qs) = payloads h ps ++ payloads h qs := List.filterMap_append

theorem payloads_cons {h : Heap Wjob} {j : Wjob} (hp : h.get p = some j) :
    payloads h (p :: ps) = j.payload :: payloads h ps := by
  simp [payloads, hp]

theorem bytesOf_append (js ks : List Payload) : bytesOf (js ++ ks) = bytesOf js + bytesOf ks := by
  simp [bytesOf]

theorem length_le_largest {js : List Payload} {j : Payload} (hj : j ∈ js) :
    j.buf.length ≤ largest js := by
  induction js with
  | nil => cases hj
  | cons i js ih =>
    rcases List.mem_cons.mp hj with rfl | hj
    · exact Nat.le_max_left _ _
    · exact (ih hj).trans (Nat.le_max_right _ _)

/-! ### The invariant -/

/-- The cells `ps` are the queue. -/
structure Queue (s : State k) (ps : List Ptr) : Prop where
  chain : Chain Wjob.next s.heap s.writer.head ps
  tail : s.writer.tail = ps.getLast?
  fifo : s.hist.enqueued = s.hist.consumed ++ payloads s.heap ps
  queued : s.writer.queued = bytesOf (payloads s.heap ps)
  /-- The job that was linked last found room. -/
  room : ∀ j ∈ (payloads s.heap ps).getLast?, s.writer.queued < chunkQueueMax + j.buf.length
  worker : ∀ w f piece p, (s.workers w).pc = .enqueue f piece p →
    s.heap.get p = some ⟨none, f.idx, (s.workers w).curOffset, piece⟩ ∧ p ∉ ps
  writer : ∀ p, s.writer.pc.job = some p →
    p ∉ ps ∧ ∃ j, s.heap.get p = some j ∧ s.hist.consumed.getLast? = some j.payload
  /-- No job has two owners. -/
  workers : ∀ v w p, (s.workers v).pc.job = some p → (s.workers w).pc.job = some p → v = w
  apart : ∀ w p, (s.workers w).pc.job = some p → s.writer.pc.job ≠ some p

theorem queue_init (plan : Plan) : Queue (State.init plan) [] where
  chain := .nil _
  tail := rfl
  fifo := rfl
  queued := rfl
  room _ h := by simp [payloads] at h
  worker _ _ _ _ h := by simp [State.init] at h
  writer _ h := by simp [State.init, WriterPc.job] at h
  workers _ _ _ h := by simp [State.init, WorkerPc.job] at h
  apart _ _ h := by simp [State.init, WorkerPc.job] at h

theorem WorkerPc.job_eq_some {pc : WorkerPc} :
    pc.job = some p ↔ ∃ f piece, pc = .enqueue f piece p := by
  cases pc <;> simp [WorkerPc.job]

/-- The queue's list is that of the pending jobs, so it is empty where `head` is `NULL`. -/
theorem Queue.head_eq (h : Queue s ps) : s.writer.head = ps.head? := h.chain.start_eq

theorem Queue.queued_lt (h : Queue s ps) :
    s.writer.queued < chunkQueueMax + largest (payloads s.heap ps) := by
  cases hlast : (payloads s.heap ps).getLast? with
  | none =>
    rw [h.queued, List.getLast?_eq_none_iff.mp hlast]
    decide
  | some j =>
    have hroom := h.room j hlast
    have := length_le_largest (List.mem_of_getLast? hlast)
    omega

/-- A step that moves no job keeps the queue. -/
theorem Queue.keep (h : Queue s ps)
    (hheap : ∀ p, p ∈ ps ∨ (∃ w, (s'.workers w).pc.job = some p) ∨ s'.writer.pc.job = some p →
      s'.heap.get p = s.heap.get p)
    (hhead : s'.writer.head = s.writer.head) (htail : s'.writer.tail = s.writer.tail)
    (hqueued : s'.writer.queued = s.writer.queued)
    (henqueued : s'.hist.enqueued = s.hist.enqueued)
    (hconsumed : s'.hist.consumed = s.hist.consumed)
    (hworker : ∀ w f piece p, (s'.workers w).pc = .enqueue f piece p →
      (s.workers w).pc = .enqueue f piece p ∧
        (s'.workers w).curOffset = (s.workers w).curOffset)
    (hwriter : ∀ p, s'.writer.pc.job = some p → s.writer.pc.job = some p) : Queue s' ps := by
  have hjob : ∀ w p, (s'.workers w).pc.job = some p → (s.workers w).pc.job = some p := by
    intro w p hp
    obtain ⟨f, piece, hpc⟩ := WorkerPc.job_eq_some.mp hp
    exact WorkerPc.job_eq_some.mpr ⟨f, piece, (hworker w f piece p hpc).1⟩
  have hpay : payloads s'.heap ps = payloads s.heap ps :=
    payloads_congr fun p hp => by rw [hheap p (.inl hp)]
  refine ⟨?_, htail.trans h.tail, ?_, ?_, ?_, ?_, ?_, ?_, ?_⟩
  · rw [hhead]
    exact h.chain.congr fun p hp => by rw [hheap p (.inl hp)]
  · rw [henqueued, hconsumed, hpay]
    exact h.fifo
  · rw [hqueued, hpay]
    exact h.queued
  · rw [hqueued, hpay]
    exact h.room
  · intro w f piece p hpc
    obtain ⟨hold, hoff⟩ := hworker w f piece p hpc
    rw [hheap p (.inr (.inl ⟨w, by simp [hpc, WorkerPc.job]⟩)), hoff]
    exact h.worker w f piece p hold
  · intro p hp
    rw [hheap p (.inr (.inr hp)), hconsumed]
    exact h.writer p (hwriter p hp)
  · exact fun v w p hv hw => h.workers v w p (hjob v p hv) (hjob w p hw)
  · exact fun w p hw hp => h.apart w p (hjob w p hw) (hwriter p hp)

/-! ### Moving jobs -/

/-- Nobody holds the job at `p`. -/
structure Unowned (s : State k) (p : Ptr) : Prop where
  workers : ∀ w, (s.workers w).pc.job ≠ some p
  writer : s.writer.pc.job ≠ some p

/-- A worker moves on without a job. -/
theorem Queue.moved (hq : Queue s ps) {x : ChunkWorker}
    (hworkers : s'.workers = Function.update s.workers w x) (hx : x.pc.job = none)
    (hheap : s'.heap = s.heap) (hwriter : s'.writer = s.writer)
    (henqueued : s'.hist.enqueued = s.hist.enqueued)
    (hconsumed : s'.hist.consumed = s.hist.consumed) : Queue s' ps := by
  refine hq.keep (fun _ _ => by rw [hheap]) (by rw [hwriter]) (by rw [hwriter]) (by rw [hwriter])
    henqueued hconsumed (fun v f piece p hpc => ?_) fun p hp => by rwa [hwriter] at hp
  rw [hworkers] at hpc ⊢
  by_cases hv : v = w
  · subst hv
    rw [Function.update_self] at hpc
    simp [hpc, WorkerPc.job] at hx
  · rw [Function.update_of_ne hv] at hpc ⊢
    exact ⟨hpc, rfl⟩

theorem Queue.setWorker (hq : Queue s ps) {x : ChunkWorker} (hx : x.pc.job = none) :
    Queue (s.setWorker w x) ps := hq.moved rfl hx rfl rfl rfl rfl

theorem Queue.unowned_setWorker (hq : Queue s ps) {x : ChunkWorker} (hx : x.pc.job = none)
    (hw : (s.workers w).pc.job = some p) : Unowned (s.setWorker w x) p := by
  refine ⟨fun v hv => ?_, hq.apart w p hw⟩
  by_cases hvw : v = w
  · subst hvw
    simp [hx] at hv
  · rw [setWorker_ne s hvw] at hv
    exact hvw (hq.workers v w p hv hw)

/-- A job outside of the queue goes to worker `w`. -/
theorem Queue.own (hq : Queue s ps) {f : Fetch} {piece : Bytes}
    (hp : s.heap.get p = some ⟨none, f.idx, (s.workers w).curOffset, piece⟩) (hps : p ∉ ps)
    (hno : Unowned s p) : Queue (s.setPc w (.enqueue f piece p)) ps := by
  have hjob : ∀ {v q}, ((s.setPc w (.enqueue f piece p)).workers v).pc.job = some q →
      v = w ∧ q = p ∨ v ≠ w ∧ (s.workers v).pc.job = some q := by
    intro v q hv
    by_cases hvw : v = w
    · subst hvw
      simp only [setPc_self, WorkerPc.job, Option.some.injEq] at hv
      exact .inl ⟨rfl, hv.symm⟩
    · rw [setPc_ne s hvw] at hv
      exact .inr ⟨hvw, hv⟩
  refine ⟨hq.chain, hq.tail, hq.fifo, hq.queued, hq.room, ?_, hq.writer, ?_, ?_⟩
  · intro v g piece' q hv
    by_cases hvw : v = w
    · subst hvw
      simp only [setPc_self, WorkerPc.enqueue.injEq] at hv
      obtain ⟨rfl, rfl, rfl⟩ := hv
      simpa using ⟨hp, hps⟩
    · rw [setPc_ne s hvw] at hv ⊢
      exact hq.worker v g piece' q hv
  · intro u v q hu hv
    rcases hjob hu with ⟨rfl, rfl⟩ | ⟨-, hu'⟩ <;> rcases hjob hv with ⟨rfl, hqp⟩ | ⟨-, hv'⟩
    · rfl
    · exact absurd hv' (hno.workers v)
    · exact absurd (hqp ▸ hu') (hno.workers u)
    · exact hq.workers u v q hu' hv'
  · intro v q hv
    rcases hjob hv with ⟨rfl, rfl⟩ | ⟨-, hv⟩
    · exact hno.writer
    · exact hq.apart v q hv

/-- A job that nobody holds and that is not in the queue is freed. -/
theorem Queue.free (hq : Queue s ps) (hps : p ∉ ps) (hno : Unowned s p) :
    Queue { s with heap := s.heap.free p } ps := by
  refine hq.keep (fun q hown => Heap.get_free_ne ?_) rfl rfl rfl rfl rfl
    (fun _ _ _ _ hpc => ⟨hpc, rfl⟩) fun _ h => h
  rintro rfl
  rcases hown with h | ⟨w, h⟩ | h
  · exact hps h
  · exact hno.workers w h
  · exact hno.writer h

/-- Every job of the queue or of a thread is allocated. -/
theorem Queue.get (hq : Queue s ps)
    (hown : p ∈ ps ∨ (∃ w, (s.workers w).pc.job = some p) ∨ s.writer.pc.job = some p) :
    ∃ j, s.heap.get p = some j := by
  rcases hown with h | ⟨w, h⟩ | h
  · exact Seg.get hq.chain h
  · obtain ⟨f, piece, hpc⟩ := WorkerPc.job_eq_some.mp h
    exact ⟨_, (hq.worker w f piece p hpc).1⟩
  · obtain ⟨j, hj, -⟩ := (hq.writer p h).2
    exact ⟨j, hj⟩

theorem Queue.alloc (hq : Queue s ps) (a : Wjob) :
    Queue { s with heap := s.heap.alloc a } ps ∧ s.heap.fresh ∉ ps ∧ Unowned s s.heap.fresh := by
  have hfresh : ∀ q, q ∈ ps ∨ (∃ w, (s.workers w).pc.job = some q) ∨ s.writer.pc.job = some q →
      q ≠ s.heap.fresh := by
    intro q hown
    obtain ⟨j, hj⟩ := hq.get hown
    exact Heap.ne_fresh hj
  refine ⟨?_, fun h => hfresh _ (.inl h) rfl, fun w h => hfresh _ (.inr (.inl ⟨w, h⟩)) rfl,
    fun h => hfresh _ (.inr (.inr h)) rfl⟩
  exact hq.keep (fun q hown => Heap.get_alloc_ne (hfresh q hown)) rfl rfl rfl rfl rfl
    (fun _ _ _ _ hpc => ⟨hpc, rfl⟩) fun _ h => h

/-- What linking a job does to the heap: the cell before it points to it. -/
structure Linked (s : State k) (ps : List Ptr) (p : Ptr) (h : Heap Wjob) : Prop where
  payload : ∀ q, (h.get q).map Wjob.payload = (s.heap.get q).map Wjob.payload
  other : ∀ q, q ∉ ps → h.get q = s.heap.get q
  chain : Chain Wjob.next h (ps ++ [p]).head? (ps ++ [p])

theorem Queue.linked_first (hp : (s.heap.get p).map Wjob.next = some none) :
    Linked s [] p s.heap := by
  obtain ⟨j, hj, hnext⟩ := Option.map_eq_some_iff.mp hp
  refine ⟨fun _ => rfl, fun _ _ => rfl, .cons hj ?_⟩
  rw [hnext]
  exact .nil _

theorem Queue.linked_last (hq : Queue s ps) {t : Ptr} {last : Wjob}
    (htail : s.writer.tail = some t) (hlast : s.heap.get t = some last) (hps : p ∉ ps)
    (hp : (s.heap.get p).map Wjob.next = some none) :
    Linked s ps p (s.heap.set t { last with next := some p }) := by
  obtain ⟨qs, rfl⟩ := List.getLast?_eq_some_iff.mp (hq.tail ▸ htail)
  have hnodup := hq.chain.nodup
  refine ⟨fun q => ?_, fun q hq' => Heap.get_set_ne ?_, ?_⟩
  · by_cases hqt : q = t
    · subst hqt
      rw [Heap.get_set_self hlast, hlast]
      rfl
    · rw [Heap.get_set_ne hqt]
  · rintro rfl
    exact hq' (by simp)
  · have hpt : p ≠ t := by
      rintro rfl
      exact hps (by simp)
    have hchain := hq.chain
    rw [hq.head_eq] at hchain
    have hhead : (qs ++ [t] ++ [p]).head? = (qs ++ [t]).head? := by cases qs <;> rfl
    rw [hhead, List.append_assoc]
    refine Chain.snoc hchain (fun q hqs => ?_) ?_ ?_
    · rw [Heap.get_set_ne]
      rintro rfl
      exact (List.nodup_append.mp hnodup).2.2 q hqs q (by simp) rfl
    · rw [Heap.get_set_self hlast]
      rfl
    · rw [Heap.get_set_ne hpt]
      exact hp

/-- A job that nobody holds becomes the last of the queue. -/
theorem Queue.link (hq : Queue s ps) {h : Heap Wjob} {j : Wjob} (hl : Linked s ps p h)
    (hjob : s.heap.get p = some j) (hno : Unowned s p)
    (hroom : s.writer.queued < chunkQueueMax) :
    Queue { s with
      heap := h
      writer := { s.writer with
        head := (ps ++ [p]).head?, tail := some p
        queued := s.writer.queued + j.payload.buf.length }
      hist := { s.hist with enqueued := s.hist.enqueued ++ [j.payload] } } (ps ++ [p]) := by
  have hpay : payloads h (ps ++ [p]) = payloads s.heap ps ++ [j.payload] := by
    rw [payloads_congr fun q _ => hl.payload q, payloads_append, payloads_cons hjob]
    rfl
  refine ⟨hl.chain, by simp, ?_, ?_, ?_, ?_, ?_, hq.workers, hq.apart⟩
  · simp only [hpay, hq.fifo, List.append_assoc]
  · simp only [hpay, hq.queued, bytesOf_append]
    simp [bytesOf]
  · simp only [hpay, List.getLast?_concat, Option.mem_some_iff]
    rintro _ rfl
    omega
  · intro v f piece q hpc
    obtain ⟨hget, hmem⟩ := hq.worker v f piece q hpc
    refine ⟨(hl.other q hmem).trans hget, ?_⟩
    have hne : q ≠ p := fun heq => hno.workers v (by rw [hpc, ← heq]; rfl)
    simp [hmem, hne]
  · intro q hpc
    obtain ⟨hmem, i, hget, hlast⟩ := hq.writer q hpc
    have hne : q ≠ p := fun heq => hno.writer (heq ▸ hpc)
    exact ⟨by simp [hmem, hne], i, (hl.other q hmem).trans hget, hlast⟩

/-- The first job of the queue goes to the writer. -/
theorem Queue.unlink (hq : Queue s ps) {j : Wjob} (hhead : s.writer.head = some p)
    (hjob : s.heap.get p = some j) :
    Queue { s with
      writer := { s.writer with
        head := j.next
        tail := if j.next = none then none else s.writer.tail
        queued := s.writer.queued - j.payload.buf.length
        pc := .take p }
      hist := { s.hist with consumed := s.hist.consumed ++ [j.payload] } } ps.tail := by
  have hchain := hq.chain
  rw [hhead, chain_some] at hchain
  obtain ⟨i, qs, hi, rfl, hrest⟩ := hchain
  rw [hjob, Option.some.injEq] at hi
  subst hi
  have hpay : payloads s.heap (p :: qs) = j.payload :: payloads s.heap qs := payloads_cons hjob
  have hpqs : p ∉ qs := (List.nodup_cons.mp hq.chain.nodup).1
  refine ⟨hrest, ?_, ?_, ?_, ?_, ?_, ?_, hq.workers, ?_⟩
  · simp only [List.tail_cons, hq.tail]
    rw [hrest.start_eq]
    cases qs <;> simp
  · simp only [List.tail_cons, hq.fifo, hpay, List.append_assoc, List.singleton_append]
  · simp only [List.tail_cons, hq.queued, hpay]
    simp [bytesOf]
  · intro i hi
    have hroom := hq.room i (by
      rw [hpay, List.getLast?_cons]
      rw [List.tail_cons] at hi
      simp [Option.mem_def.mp hi])
    simp only
    omega
  · intro v f piece q hv
    obtain ⟨hget, hmem⟩ := hq.worker v f piece q hv
    exact ⟨hget, fun h => hmem (List.mem_cons_of_mem _ h)⟩
  · intro q hq'
    obtain rfl : p = q := Option.some.inj hq'
    exact ⟨hpqs, j, hjob, by simp⟩
  · intro v q hv hq'
    obtain rfl : p = q := Option.some.inj hq'
    obtain ⟨f, piece, hv⟩ := WorkerPc.job_eq_some.mp hv
    exact (hq.worker v f piece p hv).2 (by simp)

/-! ### Runs -/

theorem WorkerStep.queue (h : WorkerStep reply s w s') (hq : Queue s ps) : ∃ qs, Queue s' qs := by
  cases h
  case copy f piece hpc =>
    obtain ⟨hq1, hps, hno⟩ := hq.alloc ⟨none, f.idx, (s.workers w).curOffset, piece⟩
    exact ⟨ps, hq1.own Heap.get_alloc_self hps ⟨hno.workers, hno.writer⟩⟩
  case abandon f piece job hpc hfail =>
    have hjob : (s.workers w).pc.job = some job := by rw [hpc]; rfl
    exact ⟨ps, (hq.setWorker rfl).free (hq.worker w f piece job hpc).2
      (hq.unowned_setWorker rfl hjob)⟩
  case full => exact ⟨ps, hq⟩
  case linkFirst f piece job j hpc hok hroom hj htail =>
    have hjob : (s.workers w).pc.job = some job := by rw [hpc]; rfl
    obtain rfl : ps = [] := List.getLast?_eq_none_iff.mp (hq.tail ▸ htail)
    have hl : Linked (s.setPc w (.bump f piece)) [] job s.heap :=
      Queue.linked_first (by rw [setPc_heap, (hq.worker w f piece job hpc).1]; rfl)
    exact ⟨_, (hq.setWorker rfl).link hl hj (hq.unowned_setWorker rfl hjob) hroom⟩
  case linkLast f piece job t j last hpc hok hroom hj htail hlast =>
    have hjob : (s.workers w).pc.job = some job := by rw [hpc]; rfl
    obtain ⟨hget, hps⟩ := hq.worker w f piece job hpc
    have hq1 : Queue (s.setPc w (.bump f piece)) ps := hq.setWorker rfl
    have hl := hq1.linked_last htail hlast hps (by rw [setPc_heap, hget]; rfl)
    have hq2 := hq1.link hl hj (hq.unowned_setWorker rfl hjob) hroom
    have hhead : (ps ++ [job]).head? = s.writer.head := by
      rw [hq.head_eq, List.head?_append]
      have hne : ps ≠ [] := by
        rintro rfl
        simp [hq.tail] at htail
      simp [List.head?_eq_some_head hne]
    rw [hhead] at hq2
    exact ⟨_, hq2⟩
  all_goals exact ⟨ps, hq.moved rfl rfl rfl rfl rfl rfl⟩

theorem WriterStep.queue (h : WriterStep s s') (hq : Queue s ps) : ∃ qs, Queue s' qs := by
  cases h
  case unlink hpc hhead hjob => exact ⟨_, hq.unlink hhead hjob⟩
  case wait => exact ⟨ps, hq⟩
  case free p hpc =>
    have hjob : s.writer.pc.job = some p := by rw [hpc]; rfl
    have hq1 : Queue { s with writer := { s.writer with pc := .loop } } ps :=
      hq.keep (fun _ _ => rfl) rfl rfl rfl rfl rfl (fun _ _ _ _ hpc => ⟨hpc, rfl⟩)
        (fun _ h => by simp [WriterPc.job] at h)
    exact ⟨ps, hq1.free (hq.writer p hjob).1
      ⟨fun w hw => hq.apart w p hw hjob, by simp [WriterPc.job]⟩⟩
  case fail p hpc =>
    refine ⟨ps, hq.keep (fun _ _ => rfl) rfl rfl rfl rfl rfl (fun _ _ _ _ hpc => ⟨hpc, rfl⟩) ?_⟩
    intro q hq'
    rcases hpc with hpc | ⟨_, _, hpc⟩ <;> simpa [hpc, WriterPc.job] using hq'
  all_goals
    refine ⟨ps, hq.keep (fun _ _ => rfl) rfl rfl rfl rfl rfl (fun _ _ _ _ hpc => ⟨hpc, rfl⟩) ?_⟩
    intro q hq'
    simp_all [WriterPc.job]

theorem MainStep.queue (h : MainStep s s') (hp : Phases s) (hq : Queue s ps) : Queue s' ps := by
  have hf := h.frame
  refine hq.keep (fun _ _ => by rw [hf.heap]) hf.head hf.tail hf.queued (by rw [hf.hist])
    (by rw [hf.hist]) (fun v f piece p hpc => ⟨?_, h.curOffset v⟩) fun p hpc => ?_
  · rcases h.pc hp.main v with hsame | ⟨-, hpull⟩
    · rwa [hsame] at hpc
    · simp [hpull] at hpc
  · cases h
    case startWriter => simp [WriterPc.job] at hpc
    all_goals exact hpc

theorem queue {plan : Plan} {s : State plan.nworkers} (h : Reachable reply plan s) :
    ∃ ps, Queue s ps := by
  refine h.invariant (P := fun s => ∃ ps, Queue s ps) ⟨[], queue_init plan⟩
    fun hr ⟨ps, hq⟩ hstep => ?_
  rcases step_cases hstep with h | ⟨w, h⟩ | h
  · exact ⟨ps, h.queue (phases hr) hq⟩
  · exact h.queue hq
  · exact h.queue hq

/-- No worker moves after `chunk_download` has set `done`. -/
theorem quiet_of_done (hp : Phases s) (hwp : WriterPhases s) (hdone : s.writer.done = true) :
    (s.workers w).pc.Quiet := by
  have hm := hp.main
  rcases hwp.done hdone with ⟨r, hr⟩ | ⟨r, hr⟩
  · rw [hr] at hm
    exact hm.1 w
  · rw [hr] at hm
    exact hm.1 w

/-- The writer leaves with an empty queue, and it stays empty. -/
theorem head_of_exited {plan : Plan} {s : State plan.nworkers} (h : Reachable reply plan s)
    (hexit : s.writer.pc = .exited) : s.writer.head = none := by
  revert hexit
  refine h.invariant (P := fun s => s.writer.pc = .exited → s.writer.head = none)
    (fun hexit => by simp [State.init] at hexit) fun hr hold hstep hexit => ?_
  rcases step_cases hstep with h | ⟨w, h⟩ | h
  · rw [h.frame.head]
    refine hold ?_
    cases h
    case startWriter => simp at hexit
    all_goals exact hexit
  · rw [h.frame.writerPc] at hexit
    have hdone := (writerPhases hr).exited hexit
    exact absurd (quiet_of_done (phases hr) (writerPhases hr) hdone) h.frame.busy
  · cases h
    case exit hpc hhead hdone => exact hhead
    all_goals simp_all

/-- The writer's queue in every reachable state: it is a list from `head` to `tail`, it holds
`queued` bytes, it is bounded, jobs leave it in the order in which they entered, and the writer
leaves only an empty queue behind. -/
theorem writer_queue_invariant {plan : Plan} {s : State plan.nworkers}
    (hr : Reachable reply plan s) :
    ∃ ps, Chain Wjob.next s.heap s.writer.head ps ∧ s.writer.tail = ps.getLast? ∧
      (s.writer.head = none ↔ s.writer.tail = none) ∧
      s.writer.queued = bytesOf (payloads s.heap ps) ∧
      s.writer.queued < chunkQueueMax + largest (payloads s.heap ps) ∧
      s.hist.enqueued = s.hist.consumed ++ payloads s.heap ps ∧
      (s.writer.pc = .exited →
        s.writer.done = true ∧ s.writer.head = none ∧ s.hist.consumed = s.hist.enqueued) ∧
      (s.pool.writer = true → ∀ r, s.main = .ret r → s.hist.consumed = s.hist.enqueued) := by
  obtain ⟨ps, hq⟩ := queue hr
  have hwp := writerPhases hr
  have hexited : s.writer.pc = .exited →
      s.writer.done = true ∧ s.writer.head = none ∧ s.hist.consumed = s.hist.enqueued := by
    intro hexit
    have hhead := head_of_exited hr hexit
    have hnil : ps = [] := List.head?_eq_none_iff.mp (hq.head_eq ▸ hhead)
    refine ⟨hwp.exited hexit, hhead, ?_⟩
    rw [hq.fifo, hnil]
    simp [payloads]
  refine ⟨ps, hq.chain, hq.tail, ?_, hq.queued, hq.queued_lt, hq.fifo, hexited, ?_⟩
  · rw [hq.head_eq, hq.tail, List.head?_eq_none_iff, List.getLast?_eq_none_iff]
  · intro hwriter r hret
    exact (hexited ((hwp.ret r hret).1 hwriter)).2.2

/-- A run with a writer thread up to the first job in the queue. -/
def queuedRun : List (Action 1) :=
  [.main (.flag true), .main (.flag true), .main (.code .ok), .main .go, .main (.flag true),
   .only .go, .only .go, .only (.bytes [7, 8]), .only .go, .only .go, .only (.flag true), .only .go]

theorem writer_queue_invariant_queuedRun :
    ∃ s, Reachable (fun _ _ _ => true) onePlan s ∧ s.writer.head = some 0 ∧
      s.writer.queued = 2 ∧ ∃ ps, Chain Wjob.next s.heap s.writer.head ps ∧
        s.writer.tail = ps.getLast? := by
  have hr : Reachable (fun _ _ _ => true) onePlan _ :=
    Runs.Reach.of_exec (show Runs.exec (step fun _ _ _ => true) (State.init onePlan) queuedRun =
      some _ from rfl)
  obtain ⟨ps, hchain, htail, -⟩ := writer_queue_invariant hr
  exact ⟨_, hr, rfl, rfl, ps, hchain, htail⟩

end Gurl.Chunked
