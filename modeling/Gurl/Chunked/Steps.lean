import Gurl.Chunked.Pool

/-! What each step of a chunked download can do: one constructor for each transition, with the
state after it. The invariants are proved from these, not from the step functions. -/

namespace Gurl.Chunked

open LinkedHeap

variable {k : Nat} {reply : Nat → Nat → Bytes → Bool} {s s' : State k} {w : Fin k} {c : Choice}

/-- The transitions of a worker. -/
inductive WorkerStep (reply : Nat → Nat → Bytes → Bool) (s : State k) (w : Fin k) :
    State k → Prop
  | drained (hpc : (s.workers w).pc = .pull)
      (h : s.pool.result ≠ .ok ∨ s.pool.n ≤ s.pool.next) :
      WorkerStep reply s w (s.setPc w .finish)
  | pull (hpc : (s.workers w).pc = .pull) (hok : s.pool.result = .ok)
      (hnext : s.pool.next < s.pool.n) :
      WorkerStep reply s w { s.setPc w (.fetch s.pool.next) with
        pool := { s.pool with next := s.pool.next + 1 }
        hist := { s.hist with handed := s.hist.handed ++ [s.pool.next] } }
  | start {idx start stop : Nat} (hpc : (s.workers w).pc = .fetch idx)
      (hrange : chunkRange s.pool.base s.pool.chunkSize s.pool.total idx = some (start, stop)) :
      WorkerStep reply s w (s.setWorker w { s.workers w with
        curOffset := start, pc := .perform { idx, start, stop, got := [] } })
  | deliver {f : Fetch} {piece : Bytes} (hpc : (s.workers w).pc = .perform f) :
      WorkerStep reply s w (s.setPc w (.callback f piece))
  | succeed {f : Fetch} (hpc : (s.workers w).pc = .perform f)
      (hreply : reply f.start f.stop f.got = true) :
      WorkerStep reply s w { s.setPc w .pull with
        hist := { s.hist with transfers := s.hist.transfers ++ [(f.idx, f.got)] } }
  | fail {f : Fetch} {res : Curlcode}
      (hpc : (s.workers w).pc = .perform f ∨ (s.workers w).pc = .refused f) (hres : res ≠ .ok) :
      WorkerStep reply s w { s.setPc w (.record res) with
        hist := { s.hist with performFailed := true } }
  | nothing {f : Fetch} (hpc : (s.workers w).pc = .callback f []) :
      WorkerStep reply s w (s.setPc w (.perform f))
  | refuse {f : Fetch} {piece : Bytes}
      (hpc : (s.workers w).pc = .callback f piece ∨ (s.workers w).pc = .checkPool f piece ∨
        (s.workers w).pc = .copy f piece) :
      WorkerStep reply s w (s.setPc w (.refused f))
  | toCheckPool {f : Fetch} {piece : Bytes} (hpc : (s.workers w).pc = .callback f piece)
      (hwriter : s.pool.writer = true) (hok : s.writer.result = .ok) :
      WorkerStep reply s w (s.setPc w (.checkPool f piece))
  | toSeek {f : Fetch} {piece : Bytes} (hpc : (s.workers w).pc = .callback f piece)
      (hwriter : s.pool.writer = false) :
      WorkerStep reply s w (s.setPc w (.seek f piece))
  | toCopy {f : Fetch} {piece : Bytes} (hpc : (s.workers w).pc = .checkPool f piece)
      (hok : s.pool.result = .ok) :
      WorkerStep reply s w (s.setPc w (.copy f piece))
  | copy {f : Fetch} {piece : Bytes} (hpc : (s.workers w).pc = .copy f piece) :
      WorkerStep reply s w { s.setPc w (.enqueue f piece s.heap.fresh) with
        heap := s.heap.alloc { next := none, payload := ⟨f.idx, (s.workers w).curOffset, piece⟩ } }
  | abandon {f : Fetch} {piece : Bytes} {job : Ptr}
      (hpc : (s.workers w).pc = .enqueue f piece job) (hfail : s.writer.result ≠ .ok) :
      WorkerStep reply s w { s.setPc w (.refused f) with heap := s.heap.free job }
  | full {f : Fetch} {piece : Bytes} {job : Ptr}
      (hpc : (s.workers w).pc = .enqueue f piece job) : WorkerStep reply s w s
  | linkLast {f : Fetch} {piece : Bytes} {job t : Ptr} {j last : Wjob}
      (hpc : (s.workers w).pc = .enqueue f piece job) (hok : s.writer.result = .ok)
      (hroom : s.writer.queued < chunkQueueMax) (hjob : s.heap.get job = some j)
      (htail : s.writer.tail = some t) (hlast : s.heap.get t = some last) :
      WorkerStep reply s w { s.setPc w (.bump f piece) with
        heap := s.heap.set t { last with next := some job }
        writer := { s.writer with
          tail := some job, queued := s.writer.queued + j.payload.buf.length }
        hist := { s.hist with enqueued := s.hist.enqueued ++ [j.payload] } }
  | linkFirst {f : Fetch} {piece : Bytes} {job : Ptr} {j : Wjob}
      (hpc : (s.workers w).pc = .enqueue f piece job) (hok : s.writer.result = .ok)
      (hroom : s.writer.queued < chunkQueueMax) (hjob : s.heap.get job = some j)
      (htail : s.writer.tail = none) :
      WorkerStep reply s w { s.setPc w (.bump f piece) with
        writer := { s.writer with
          head := some job, tail := some job
          queued := s.writer.queued + j.payload.buf.length }
        hist := { s.hist with enqueued := s.hist.enqueued ++ [j.payload] } }
  | seek {f : Fetch} {piece : Bytes} (hpc : (s.workers w).pc = .seek f piece) :
      WorkerStep reply s w (s.setPc w (.writing f piece (s.workers w).curOffset piece))
  | writeFail {f : Fetch} {piece : Bytes}
      (hpc : (s.workers w).pc = .seek f piece ∨
        ∃ pos rest, (s.workers w).pc = .writing f piece pos rest) :
      WorkerStep reply s w { s.setPc w (.refused f) with
        hist := { s.hist with writeFailed := true } }
  | write {f : Fetch} {piece rest : Bytes} {pos n : Nat}
      (hpc : (s.workers w).pc = .writing f piece pos rest) (hn : n ≤ rest.length) :
      WorkerStep reply s w { s.setPc w (.writing f piece (pos + n) (rest.drop n)) with
        hist := { s.hist with log := s.hist.log ++ writesAt f.idx pos (rest.take n) } }
  | written {f : Fetch} {piece : Bytes} {pos : Nat}
      (hpc : (s.workers w).pc = .writing f piece pos []) :
      WorkerStep reply s w (s.setPc w (.bump f piece))
  | bump {f : Fetch} {piece : Bytes} (hpc : (s.workers w).pc = .bump f piece) :
      WorkerStep reply s w (s.setWorker w { s.workers w with
        curOffset := (s.workers w).curOffset + piece.length
        written := (s.workers w).written + piece.length
        pc := .perform { f with got := f.got ++ piece } })
  | record {res : Curlcode} (hpc : (s.workers w).pc = .record res) :
      WorkerStep reply s w { s.setPc w .finish with
        pool := { s.pool with result := if s.pool.result = .ok then res else s.pool.result } }
  | exit (hpc : (s.workers w).pc = .finish) :
      WorkerStep reply s w { s.setPc w .exited with
        pool := { s.pool with finished := s.pool.finished + 1 } }

theorem workerStep_cases (h : workerStep reply s w c = some s') : WorkerStep reply s w s' := by
  unfold workerStep at h
  dsimp only at h
  split at h
  case h_1 hpc =>
    split at h
    · rename_i hstop
      cases h
      exact .drained hpc hstop
    · rename_i hgo
      push Not at hgo
      cases h
      exact .pull hpc hgo.1 hgo.2
  case h_2 hpc =>
    simp only [Option.bind_eq_bind, Option.bind_eq_some_iff] at h
    obtain ⟨⟨start, stop⟩, hrange, h⟩ := h
    cases h
    exact .start hpc hrange
  case h_3 hpc =>
    cases h
    exact .deliver hpc
  case h_4 hpc =>
    split at h
    · rename_i hreply
      cases h
      exact .succeed hpc hreply
    · cases h
  case h_5 hne hpc =>
    cases h
    exact .fail (.inl hpc) hne
  case h_6 hpc =>
    split at h
    · rename_i hempty
      subst hempty
      cases h
      exact .nothing hpc
    · split at h
      · rename_i hwriter
        split at h
        · cases h
          exact .refuse (.inl hpc)
        · rename_i hok
          cases h
          exact .toCheckPool hpc hwriter (not_not.mp hok)
      · rename_i hwriter
        cases h
        exact .toSeek hpc (by simpa using hwriter)
  case h_7 hpc =>
    split at h
    · cases h
      exact .refuse (.inr (.inl hpc))
    · rename_i hok
      cases h
      exact .toCopy hpc (not_not.mp hok)
  case h_8 hpc =>
    split at h
    · cases h
      exact .copy hpc
    · cases h
      exact .refuse (.inr (.inr hpc))
  case h_9 hpc =>
    split at h
    · rename_i hfail
      cases h
      exact .abandon hpc hfail
    · rename_i hok
      split at h
      · rename_i hroom
        obtain ⟨s1, hlink, rfl⟩ := Option.map_eq_some_iff.mp h
        unfold State.link at hlink
        simp only [Option.bind_eq_bind, Option.bind_eq_some_iff] at hlink
        obtain ⟨j, hjob, hlink⟩ := hlink
        cases htail : s.writer.tail with
        | none =>
          simp only [htail] at hlink
          cases hlink
          exact .linkFirst hpc (not_not.mp hok) hroom hjob htail
        | some t =>
          simp only [htail, Option.bind_eq_some_iff] at hlink
          obtain ⟨last, hlast, hlink⟩ := hlink
          cases hlink
          exact .linkLast hpc (not_not.mp hok) hroom hjob htail hlast
      · cases h
        exact .full hpc
  case h_10 hpc =>
    split at h
    · cases h
      exact .seek hpc
    · cases h
      exact .writeFail (.inl hpc)
  case h_11 hpc =>
    split at h
    · cases h
    · rename_i hrc
      push Not at hrc
      split at h
      · cases h
        exact .writeFail (.inr ⟨_, _, hpc⟩)
      · cases h
        exact .write hpc (by omega)
  case h_12 hpc =>
    cases h
    exact .written hpc
  case h_13 hpc =>
    cases h
    exact .bump hpc
  case h_14 hpc =>
    split at h
    · cases h
    · rename_i hres
      cases h
      exact .fail (.inr hpc) hres
  case h_15 hpc =>
    cases h
    exact .record hpc
  case h_16 hpc =>
    cases h
    exact .exit hpc
  case h_17 => cases h

/-- The transitions of the writer thread. -/
inductive WriterStep (s : State k) : State k → Prop
  | unlink {p : Ptr} {job : Wjob} (hpc : s.writer.pc = .loop) (hhead : s.writer.head = some p)
      (hjob : s.heap.get p = some job) :
      WriterStep s { s with
        writer := { s.writer with
          head := job.next
          tail := if job.next = none then none else s.writer.tail
          queued := s.writer.queued - job.payload.buf.length
          pc := .take p }
        hist := { s.hist with consumed := s.hist.consumed ++ [job.payload] } }
  | exit (hpc : s.writer.pc = .loop) (hhead : s.writer.head = none) (hdone : s.writer.done = true) :
      WriterStep s { s with writer := { s.writer with pc := .exited } }
  | wait (hpc : s.writer.pc = .loop) : WriterStep s s
  | skip {p : Ptr} (hpc : s.writer.pc = .take p) (hfail : s.writer.result ≠ .ok) :
      WriterStep s { s with writer := { s.writer with pc := .free p } }
  | toSeek {p : Ptr} (hpc : s.writer.pc = .take p) (hok : s.writer.result = .ok) :
      WriterStep s { s with writer := { s.writer with pc := .seek p } }
  | seek {p : Ptr} {job : Wjob} (hpc : s.writer.pc = .seek p) (hjob : s.heap.get p = some job) :
      WriterStep s { s with
        writer := { s.writer with pc := .writing p job.payload.offset job.payload.buf } }
  | fail {p : Ptr}
      (hpc : s.writer.pc = .seek p ∨ ∃ pos rest, s.writer.pc = .writing p pos rest) :
      WriterStep s { s with
        writer := { s.writer with pc := .record p }, hist := { s.hist with writeFailed := true } }
  | write {p : Ptr} {job : Wjob} {pos n : Nat} {rest : Bytes}
      (hpc : s.writer.pc = .writing p pos rest) (hjob : s.heap.get p = some job)
      (hn : n ≤ rest.length) :
      WriterStep s { s with
        writer := { s.writer with pc := .writing p (pos + n) (rest.drop n) }
        hist := { s.hist with log := s.hist.log ++ writesAt job.payload.idx pos (rest.take n) } }
  | written {p : Ptr} {pos : Nat} (hpc : s.writer.pc = .writing p pos []) :
      WriterStep s { s with writer := { s.writer with pc := .free p } }
  | record {p : Ptr} (hpc : s.writer.pc = .record p) :
      WriterStep s { s with writer := { s.writer with
        result := if s.writer.result = .ok then .writeError else s.writer.result, pc := .free p } }
  | free {p : Ptr} (hpc : s.writer.pc = .free p) :
      WriterStep s { s with heap := s.heap.free p, writer := { s.writer with pc := .loop } }

theorem writerStep_cases (h : writerStep s c = some s') : WriterStep s s' := by
  unfold writerStep at h
  split at h
  case h_1 hpc =>
    split at h
    · rename_i p hhead
      simp only [Option.bind_eq_bind, Option.bind_eq_some_iff] at h
      obtain ⟨job, hjob, h⟩ := h
      cases h
      exact .unlink hpc hhead hjob
    · rename_i hhead
      split at h
      · rename_i hdone
        cases h
        exact .exit hpc hhead hdone
      · cases h
        exact .wait hpc
  case h_2 hpc =>
    cases h
    split
    · rename_i hok
      exact .toSeek hpc hok
    · rename_i hfail
      exact .skip hpc hfail
  case h_3 hpc =>
    simp only [Option.bind_eq_bind, Option.bind_eq_some_iff] at h
    obtain ⟨job, hjob, h⟩ := h
    split at h
    · cases h
      exact .seek hpc hjob
    · cases h
      exact .fail (.inl hpc)
  case h_4 hpc =>
    simp only [Option.bind_eq_bind, Option.bind_eq_some_iff] at h
    obtain ⟨job, hjob, h⟩ := h
    split at h
    · cases h
    · rename_i hrc
      push Not at hrc
      split at h
      · cases h
        exact .fail (.inr ⟨_, _, hpc⟩)
      · cases h
        exact .write hpc hjob (by omega)
  case h_5 hpc =>
    cases h
    exact .written hpc
  case h_6 hpc =>
    cases h
    exact .record hpc
  case h_7 hpc =>
    cases h
    exact .free hpc
  case h_8 => cases h

/-- The transitions of `chunk_download`. -/
inductive MainStep (s : State k) : State k → Prop
  | allocFail (hpc : s.main = .alloc) : MainStep s { s with main := .ret .outOfMemory }
  | alloc (hpc : s.main = .alloc) : MainStep s { s with main := .startWriter }
  | startWriter (hpc : s.main = .startWriter) :
      MainStep s { s with
        pool := { s.pool with writer := true }, writer := { s.writer with pc := .loop }
        main := .openWorkers 0 }
  | noWriter (hpc : s.main = .startWriter) : MainStep s { s with main := .openWorkers 0 }
  | openWorker {i : Nat} (hpc : s.main = .openWorkers i) :
      MainStep s { s with main := .openWorkers (i + 1) }
  | openFail {i : Nat} {res : Curlcode} (hpc : s.main = .openWorkers i) (hres : res ≠ .ok) :
      MainStep s { s with main := .stopWriter res }
  | noChunks (hpc : s.main = .openWorkers 0) (hk : k = 0) :
      MainStep s { s with main := .stopWriter .ok }
  | opened {i : Nat} (hpc : s.main = .openWorkers i) :
      MainStep s { s with main := .startThreads 0 0 }
  | startThread {i launched : Nat} (hpc : s.main = .startThreads i launched) (h : i < k) :
      MainStep s { s.setWorker ⟨i, h⟩ { s.workers ⟨i, h⟩ with pc := .pull, threaded := true } with
        main := .startThreads (i + 1) (launched + 1) }
  | startFail {i launched : Nat} (hpc : s.main = .startThreads i launched) :
      MainStep s { s with main := .startThreads (i + 1) launched }
  | runInline {i : Nat} (hpc : s.main = .startThreads i 0) (h : 0 < k) :
      MainStep s { s.setPc ⟨0, h⟩ .pull with main := .inlineLoop }
  | launched {i launched : Nat} (hpc : s.main = .startThreads i launched) (hpos : 0 < launched) :
      MainStep s { s with main := .watch launched }
  | inlineDone (hpc : s.main = .inlineLoop) (h : 0 < k)
      (hexit : (s.workers ⟨0, h⟩).pc = .exited) : MainStep s { s with main := .joinWorkers 0 }
  | watching {launched : Nat} (hpc : s.main = .watch launched) : MainStep s s
  | allFinished {launched : Nat} (hpc : s.main = .watch launched)
      (hfin : launched ≤ s.pool.finished) : MainStep s { s with main := .joinWorkers 0 }
  | join {i : Nat} (hpc : s.main = .joinWorkers i) (h : i < k)
      (hdone : (s.workers ⟨i, h⟩).threaded = false ∨ (s.workers ⟨i, h⟩).pc = .exited) :
      MainStep s { s.setWorker ⟨i, h⟩ { s.workers ⟨i, h⟩ with threaded := false } with
        main := .joinWorkers (i + 1) }
  | joined {i : Nat} (hpc : s.main = .joinWorkers i) (h : k ≤ i) :
      MainStep s { s with main := .stopWriter s.pool.result }
  | stop {r : Curlcode} (hpc : s.main = .stopWriter r) (hwriter : s.pool.writer = true) :
      MainStep s { s with writer := { s.writer with done := true }, main := .joinWriter r }
  | noStop {r : Curlcode} (hpc : s.main = .stopWriter r) (hwriter : s.pool.writer = false) :
      MainStep s { s with main := .ret r }
  | ret {r : Curlcode} (hpc : s.main = .joinWriter r) (hexit : s.writer.pc = .exited) :
      MainStep s { s with main := .ret (if r = .ok then s.writer.result else r) }

theorem mainStep_cases (h : mainStep s c = some s') : MainStep s s' := by
  unfold mainStep at h
  split at h
  case h_1 hpc =>
    cases h
    split
    · exact .alloc hpc
    · exact .allocFail hpc
  case h_2 hpc =>
    split at h
    · cases h
      exact .startWriter hpc
    · cases h
      exact .noWriter hpc
  case h_3 hpc =>
    split at h
    · cases h
      split
      · exact .openWorker hpc
      · rename_i hres
        exact .openFail hpc hres
    · cases h
  case h_4 i hpc =>
    split at h
    · cases h
    · rename_i hik
      cases h
      split
      · rename_i hzero
        subst hzero
        exact .noChunks hpc (by omega)
      · exact .opened hpc
  case h_5 hpc =>
    split at h
    · rename_i hik
      split at h
      · cases h
        exact .startThread hpc hik
      · cases h
        exact .startFail hpc
    · cases h
  case h_6 hpc =>
    split at h
    · cases h
    · split at h
      · rename_i hzero
        subst hzero
        split at h
        · rename_i hk
          cases h
          exact .runInline hpc hk
        · cases h
      · rename_i hne
        cases h
        exact .launched hpc (Nat.pos_of_ne_zero hne)
  case h_7 hpc =>
    split at h
    · rename_i hk
      split at h
      · rename_i hexit
        cases h
        exact .inlineDone hpc hk hexit
      · cases h
    · cases h
  case h_8 hpc =>
    cases h
    split
    · rename_i hfin
      exact .allFinished hpc hfin
    · rw [← hpc]
      exact .watching hpc
  case h_9 hpc =>
    split at h
    · rename_i hik
      split at h
      · cases h
      · rename_i hdone
        cases h
        refine .join hpc hik ?_
        by_contra hcontra
        push Not at hcontra
        exact hdone ⟨by simpa using hcontra.1, hcontra.2⟩
    · rename_i hik
      cases h
      exact .joined hpc (Nat.not_lt.mp hik)
  case h_10 hpc =>
    split at h
    · rename_i hwriter
      cases h
      exact .stop hpc hwriter
    · rename_i hwriter
      cases h
      exact .noStop hpc (by simpa using hwriter)
  case h_11 hpc =>
    split at h
    · rename_i hexit
      cases h
      exact .ret hpc hexit
    · cases h
  case h_12 => cases h

/-- A step of the download is a step of one of its threads. -/
theorem step_cases {a : Action k} (h : step reply s a = some s') :
    MainStep s s' ∨ (∃ w, WorkerStep reply s w s') ∨ WriterStep s s' := by
  cases a with
  | main c => exact .inl (mainStep_cases h)
  | worker w c => exact .inr (.inl ⟨w, workerStep_cases h⟩)
  | writer c => exact .inr (.inr (writerStep_cases h))

end Gurl.Chunked
