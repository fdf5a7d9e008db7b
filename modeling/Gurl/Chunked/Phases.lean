import Gurl.Chunked.Steps

/-! What the place of `chunk_download` says about its threads, and how errors travel: a transfer or
a write that failed leaves a mark that no later step removes. -/

namespace Gurl.Chunked

open LinkedHeap

variable {k : Nat} {reply : Nat → Nat → Bytes → Bool} {s s' : State k} {w : Fin k}

/-! ### What a step of one thread leaves alone -/

@[simp] theorem setWorker_self (s : State k) (w : Fin k) (x : ChunkWorker) :
    (s.setWorker w x).workers w = x := Function.update_self ..

theorem setWorker_ne (s : State k) {v w : Fin k} (hv : v ≠ w) (x : ChunkWorker) :
    (s.setWorker w x).workers v = s.workers v := Function.update_of_ne hv ..

@[simp] theorem setPc_self (s : State k) (w : Fin k) (pc : WorkerPc) :
    (s.setPc w pc).workers w = { s.workers w with pc } := Function.update_self ..

theorem setPc_ne (s : State k) {v w : Fin k} (hv : v ≠ w) (pc : WorkerPc) :
    (s.setPc w pc).workers v = s.workers v := Function.update_of_ne hv ..

section

variable (s : State k) (w : Fin k) (x : ChunkWorker) (pc : WorkerPc)

@[simp] theorem setWorker_pool : (s.setWorker w x).pool = s.pool := rfl
@[simp] theorem setPc_pool : (s.setPc w pc).pool = s.pool := rfl
@[simp] theorem setWorker_hist : (s.setWorker w x).hist = s.hist := rfl
@[simp] theorem setPc_hist : (s.setPc w pc).hist = s.hist := rfl
@[simp] theorem setPc_heap : (s.setPc w pc).heap = s.heap := rfl

end

/-- A worker thread that has not started or has ended. -/
def WorkerPc.Quiet (pc : WorkerPc) : Prop := pc = .idle ∨ pc = .exited

/-- The parts of the state that a step of worker `w` keeps. -/
structure WorkerFrame (w : Fin k) (s s' : State k) : Prop where
  main : s'.main = s.main
  others : ∀ v, v ≠ w → s'.workers v = s.workers v
  busy : ¬ (s.workers w).pc.Quiet
  started : (s'.workers w).pc ≠ .idle
  threaded : (s'.workers w).threaded = (s.workers w).threaded
  n : s'.pool.n = s.pool.n
  base : s'.pool.base = s.pool.base
  chunkSize : s'.pool.chunkSize = s.pool.chunkSize
  total : s'.pool.total = s.pool.total
  hasWriter : s'.pool.writer = s.pool.writer
  writerPc : s'.writer.pc = s.writer.pc
  done : s'.writer.done = s.writer.done
  writerResult : s'.writer.result = s.writer.result
  consumed : s'.hist.consumed = s.hist.consumed

theorem WorkerStep.frame (h : WorkerStep reply s w s') : WorkerFrame w s s' where
  main := by cases h <;> rfl
  others v hv := by cases h <;> first | rfl | exact setWorker_ne s hv _
  busy := by
    rintro (hq | hq) <;> cases h <;> simp_all
  started := by cases h <;> simp_all
  threaded := by cases h <;> simp
  n := by cases h <;> rfl
  base := by cases h <;> rfl
  chunkSize := by cases h <;> rfl
  total := by cases h <;> rfl
  hasWriter := by cases h <;> rfl
  writerPc := by cases h <;> rfl
  done := by cases h <;> rfl
  writerResult := by cases h <;> rfl
  consumed := by cases h <;> rfl

/-- The parts of the state that a step of the writer thread keeps. -/
structure WriterFrame (s s' : State k) : Prop where
  main : s'.main = s.main
  workers : s'.workers = s.workers
  pool : s'.pool = s.pool
  started : s.writer.pc ≠ .notStarted
  running : s'.writer.pc ≠ .notStarted
  busy : s.writer.pc ≠ .exited
  done : s'.writer.done = s.writer.done
  handed : s'.hist.handed = s.hist.handed
  transfers : s'.hist.transfers = s.hist.transfers
  enqueued : s'.hist.enqueued = s.hist.enqueued
  performFailed : s'.hist.performFailed = s.hist.performFailed

theorem WriterStep.frame (h : WriterStep s s') : WriterFrame s s' where
  main := by cases h <;> rfl
  workers := by cases h <;> rfl
  pool := by cases h <;> rfl
  started := by
    cases h
    case fail hpc => rcases hpc with hpc | ⟨_, _, hpc⟩ <;> simp [hpc]
    all_goals simp_all
  running := by cases h <;> simp_all
  busy := by
    cases h
    case fail hpc => rcases hpc with hpc | ⟨_, _, hpc⟩ <;> simp [hpc]
    all_goals simp_all
  done := by cases h <;> rfl
  handed := by cases h <;> rfl
  transfers := by cases h <;> rfl
  enqueued := by cases h <;> rfl
  performFailed := by cases h <;> rfl

/-- The parts of the state that a step of `chunk_download` keeps. -/
structure MainFrame (s s' : State k) : Prop where
  heap : s'.heap = s.heap
  hist : s'.hist = s.hist
  next : s'.pool.next = s.pool.next
  n : s'.pool.n = s.pool.n
  base : s'.pool.base = s.pool.base
  chunkSize : s'.pool.chunkSize = s.pool.chunkSize
  total : s'.pool.total = s.pool.total
  finished : s'.pool.finished = s.pool.finished
  result : s'.pool.result = s.pool.result
  head : s'.writer.head = s.writer.head
  tail : s'.writer.tail = s.writer.tail
  queued : s'.writer.queued = s.writer.queued
  writerResult : s'.writer.result = s.writer.result

theorem MainStep.frame (h : MainStep s s') : MainFrame s s' := by
  cases h <;> exact ⟨rfl, rfl, rfl, rfl, rfl, rfl, rfl, rfl, rfl, rfl, rfl, rfl, rfl⟩

/-! ### Phases -/

/-- What the place of `chunk_download` says about the workers and the pool's result. -/
def MainPc.Phase (s : State k) : MainPc → Prop
  | .alloc | .startWriter => s.pool.writer = false ∧ ∀ w, (s.workers w).pc = .idle
  | .openWorkers _ => ∀ w, (s.workers w).pc = .idle
  | .startThreads i launched =>
    (∀ w : Fin k, i ≤ w → (s.workers w).pc = .idle) ∧
      (launched = 0 → ∀ w, (s.workers w).pc = .idle)
  | .inlineLoop => ∀ w : Fin k, w.val ≠ 0 → (s.workers w).pc = .idle
  | .watch launched => 0 < launched
  | .joinWorkers i =>
    (∀ w : Fin k, w < i → (s.workers w).pc.Quiet) ∧ ∃ w, (s.workers w).pc = .exited
  | .stopWriter r | .joinWriter r | .ret r =>
    (∀ w, (s.workers w).pc.Quiet) ∧
      (r = .ok → s.pool.result = .ok ∧ (0 < k → ∃ w, (s.workers w).pc = .exited))

/-- The invariant of the threads' places. -/
structure Phases (s : State k) : Prop where
  main : s.main.Phase s
  /-- A worker without a thread runs only inline. -/
  unthreaded : ∀ w, (s.workers w).threaded = false →
    (s.workers w).pc.Quiet ∨ s.main = .inlineLoop
  finished : 0 < s.pool.finished → ∃ w, (s.workers w).pc = .exited
  drained : ∀ w, (s.workers w).pc = .finish ∨ (s.workers w).pc = .exited →
    s.pool.result ≠ .ok ∨ s.pool.n ≤ s.pool.next
  /-- Which path of `chunk_write_cb` the workers take. -/
  direct : ∀ w f piece, ((s.workers w).pc = .seek f piece ∨
    ∃ pos rest, (s.workers w).pc = .writing f piece pos rest) → s.pool.writer = false
  failure : ∀ w res, (s.workers w).pc = .record res → res ≠ .ok
  recorded : s.pool.result ≠ .ok → ∃ w, (s.workers w).pc ≠ .idle

theorem phases_init (plan : Plan) : Phases (State.init plan) where
  main := ⟨rfl, fun _ => rfl⟩
  unthreaded _ _ := .inl (.inl rfl)
  finished h := absurd h (Nat.lt_irrefl 0)
  drained _ h := by simp [State.init] at h
  direct _ _ _ h := by simp [State.init] at h
  failure _ _ h := by simp [State.init] at h
  recorded h := absurd rfl h

theorem WorkerStep.phase (h : WorkerStep reply s w s') (hp : s.main.Phase s) :
    s'.main.Phase s' := by
  have hf := h.frame
  have hother : ∀ {v}, (s.workers v).pc.Quiet → s'.workers v = s.workers v := fun hq =>
    hf.others _ fun hv => hf.busy (hv ▸ hq)
  rw [hf.main]
  generalize s.main = pc at hp
  cases pc with
  | alloc | startWriter => exact absurd (.inl (hp.2 w)) hf.busy
  | openWorkers => exact absurd (.inl (hp w)) hf.busy
  | startThreads i launched =>
    refine ⟨fun v hv => ?_, fun hl => absurd (.inl (hp.2 hl w)) hf.busy⟩
    rw [hother (.inl (hp.1 v hv))]
    exact hp.1 v hv
  | inlineLoop =>
    intro v hv
    rw [hother (.inl (hp v hv))]
    exact hp v hv
  | watch => exact hp
  | joinWorkers i =>
    obtain ⟨hq, v, hv⟩ := hp
    refine ⟨fun u hu => ?_, v, ?_⟩
    · rw [hother (hq u hu)]
      exact hq u hu
    · rw [hother (.inr hv)]
      exact hv
  | stopWriter | joinWriter | ret => exact absurd (hp.1 w) hf.busy

/-- A recorded error stays. -/
theorem WorkerStep.result_ne (h : WorkerStep reply s w s') (hres : s.pool.result ≠ .ok) :
    s'.pool.result ≠ .ok := by
  cases h <;> simp_all

theorem WorkerStep.next_le (h : WorkerStep reply s w s') : s.pool.next ≤ s'.pool.next := by
  cases h <;> simp

theorem WorkerStep.phases (h : WorkerStep reply s w s') (hp : Phases s) : Phases s' := by
  have hf := h.frame
  refine ⟨h.phase hp.main, fun v hv => ?_, fun hpos => ?_, fun v hv => ?_,
    fun v f piece hv => ?_, fun v res hv => ?_, fun _ => ⟨w, hf.started⟩⟩
  · rw [hf.main]
    by_cases hvw : v = w
    · subst hvw
      rw [hf.threaded] at hv
      exact .inr ((hp.unthreaded v hv).resolve_left hf.busy)
    · rw [hf.others v hvw] at hv ⊢
      exact hp.unthreaded v hv
  · by_cases hold : 0 < s.pool.finished
    · obtain ⟨v, hv⟩ := hp.finished hold
      refine ⟨v, ?_⟩
      rw [hf.others v fun hvw => hf.busy (.inr (hvw ▸ hv))]
      exact hv
    · refine ⟨w, ?_⟩
      cases h <;> first | exact absurd hpos hold | simp
  · by_cases hvw : v = w
    · subst hvw
      cases h
      case drained hdone => exact hdone
      case record res hpc =>
        left
        simp only
        split
        · exact hp.failure v res hpc
        · assumption
      case exit hpc => exact hp.drained v (.inl hpc)
      all_goals simp_all
    · rw [hf.others v hvw] at hv
      rcases hp.drained v hv with hres | hdone
      · exact .inl (h.result_ne hres)
      · exact .inr (hf.n ▸ hdone.trans h.next_le)
  · rw [hf.hasWriter]
    by_cases hvw : v = w
    · subst hvw
      cases h
      case seek hpc => exact hp.direct v _ _ (.inl hpc)
      case write hpc hn => exact hp.direct v _ _ (.inr ⟨_, _, hpc⟩)
      all_goals simp_all
    · rw [hf.others v hvw] at hv
      exact hp.direct v f piece hv
  · by_cases hvw : v = w
    · subst hvw
      cases h <;> simp_all
    · rw [hf.others v hvw] at hv
      exact hp.failure v res hv

theorem WriterStep.phases (h : WriterStep s s') (hp : Phases s) : Phases s' := by
  have hf := h.frame
  refine ⟨?_, ?_, ?_, ?_, ?_, ?_, ?_⟩
  · rw [hf.main]
    have := hp.main
    generalize s.main = pc at this ⊢
    cases pc <;> simpa only [MainPc.Phase, hf.workers, hf.pool] using this
  · rw [hf.workers, hf.main]
    exact hp.unthreaded
  · rw [hf.workers, hf.pool]
    exact hp.finished
  · rw [hf.workers, hf.pool]
    exact hp.drained
  · rw [hf.workers, hf.pool]
    exact hp.direct
  · rw [hf.workers]
    exact hp.failure
  · rw [hf.workers, hf.pool]
    exact hp.recorded

/-- `chunk_download` moves a worker only by starting it. -/
theorem MainStep.pc (h : MainStep s s') (hp : s.main.Phase s) (v : Fin k) :
    (s'.workers v).pc = (s.workers v).pc ∨
      (s.workers v).pc = .idle ∧ (s'.workers v).pc = .pull := by
  cases h
  case startThread i launched hpc hi =>
    rw [hpc] at hp
    by_cases hv : v = ⟨i, hi⟩
    · subst hv
      exact .inr ⟨hp.1 _ (Nat.le_refl i), by simp⟩
    · exact .inl (congrArg _ (setWorker_ne s hv _))
  case runInline i hpc hk =>
    rw [hpc] at hp
    by_cases hv : v = ⟨0, hk⟩
    · subst hv
      exact .inr ⟨hp.2 rfl _, by simp⟩
    · exact .inl (congrArg _ (setPc_ne s hv _))
  case join i hpc hi hdone =>
    by_cases hv : v = ⟨i, hi⟩
    · subst hv
      exact .inl (by simp)
    · exact .inl (congrArg _ (setWorker_ne s hv _))
  all_goals exact .inl rfl

theorem MainStep.curOffset (h : MainStep s s') (v : Fin k) :
    (s'.workers v).curOffset = (s.workers v).curOffset := by
  cases h
  case startThread i launched hpc hi =>
    by_cases hv : v = ⟨i, hi⟩
    · subst hv
      simp
    · exact congrArg _ (setWorker_ne s hv _)
  case runInline i hpc hk =>
    by_cases hv : v = ⟨0, hk⟩
    · subst hv
      simp
    · exact congrArg _ (setPc_ne s hv _)
  case join i hpc hi hdone =>
    by_cases hv : v = ⟨i, hi⟩
    · subst hv
      simp
    · exact congrArg _ (setWorker_ne s hv _)
  all_goals rfl

theorem MainStep.phase (h : MainStep s s') (hp : Phases s) : s'.main.Phase s' := by
  have hm := hp.main
  cases h
  case allocFail hpc =>
    rw [hpc] at hm
    exact ⟨fun w => .inl (hm.2 w), by simp⟩
  case alloc hpc =>
    rw [hpc] at hm
    exact hm
  case startWriter hpc | noWriter hpc =>
    rw [hpc] at hm
    exact hm.2
  case openWorker hpc =>
    rw [hpc] at hm
    exact hm
  case openFail hpc hres =>
    rw [hpc] at hm
    exact ⟨fun w => .inl (hm w), fun hok => absurd hok hres⟩
  case noChunks hpc hk =>
    subst hk
    refine ⟨fun w => w.elim0, fun _ => ⟨?_, by simp⟩⟩
    by_contra hres
    obtain ⟨w, -⟩ := hp.recorded hres
    exact w.elim0
  case opened hpc =>
    rw [hpc] at hm
    exact ⟨fun w _ => hm w, fun _ => hm⟩
  case startThread i launched hpc hi =>
    rw [hpc] at hm
    refine ⟨fun w hw => ?_, by simp⟩
    have hne : w ≠ ⟨i, hi⟩ := by
      rintro rfl
      exact absurd hw (Nat.not_succ_le_self i)
    rw [show (State.setWorker s ⟨i, hi⟩ _).workers w = _ from setWorker_ne s hne _]
    exact hm.1 w (by omega)
  case startFail hpc =>
    rw [hpc] at hm
    exact ⟨fun w hw => hm.1 w (by omega), hm.2⟩
  case runInline hpc hk =>
    rw [hpc] at hm
    intro w hw
    have hne : w ≠ ⟨0, hk⟩ := by
      rintro rfl
      exact hw rfl
    rw [show (State.setPc s ⟨0, hk⟩ _).workers w = _ from setPc_ne s hne _]
    exact hm.2 rfl w
  case launched hpc hpos => exact hpos
  case inlineDone hpc hk hexit => exact ⟨fun w hw => absurd hw (Nat.not_lt_zero _), _, hexit⟩
  case watching => exact hm
  case allFinished hpc hfin =>
    rw [hpc] at hm
    exact ⟨fun w hw => absurd hw (Nat.not_lt_zero _), hp.finished (Nat.lt_of_lt_of_le hm hfin)⟩
  case join i hpc hi hdone =>
    rw [hpc] at hm
    have hpcs : ∀ v, ((s.setWorker ⟨i, hi⟩
        { s.workers ⟨i, hi⟩ with threaded := false }).workers v).pc = (s.workers v).pc := by
      intro v
      by_cases hv : v = ⟨i, hi⟩
      · subst hv
        simp
      · rw [setWorker_ne s hv]
    refine ⟨fun w hw => ?_, hm.2.imp fun v hv => (hpcs v).trans hv⟩
    show ((s.setWorker ⟨i, hi⟩ _).workers w).pc.Quiet
    rw [hpcs]
    by_cases hwi : w.val < i
    · exact hm.1 w hwi
    · have hw' : w = ⟨i, hi⟩ := Fin.ext (show w.val = i by omega)
      rw [hw']
      rcases hdone with hthread | hexit
      · exact (hp.unthreaded _ hthread).resolve_right (by simp [hpc])
      · exact .inr hexit
  case joined hpc hi =>
    rw [hpc] at hm
    exact ⟨fun w => hm.1 w (by omega), fun hok => ⟨hok, fun _ => hm.2⟩⟩
  case stop hpc hwriter | noStop hpc hwriter =>
    rw [hpc] at hm
    exact hm
  case ret r hpc hexit =>
    rw [hpc] at hm
    refine ⟨hm.1, fun hok => hm.2 ?_⟩
    by_contra hr
    rw [if_neg hr] at hok
    exact hr hok

theorem MainStep.phases (h : MainStep s s') (hp : Phases s) : Phases s' := by
  have hf := h.frame
  have hpc := h.pc hp.main
  refine ⟨h.phase hp, fun v hv => ?_, fun hpos => ?_, fun v hv => ?_, fun v f piece hv => ?_,
    fun v res hv => ?_, fun hres => ?_⟩
  · cases h
    case startThread i launched hmain hi =>
      by_cases hvi : v = ⟨i, hi⟩
      · subst hvi
        simp at hv
      · replace hv : (s.workers v).threaded = false := by
          rwa [show (State.setWorker s ⟨i, hi⟩ _).workers v = _ from setWorker_ne s hvi _] at hv
        left
        show ((s.setWorker ⟨i, hi⟩ _).workers v).pc.Quiet
        rw [setWorker_ne s hvi]
        exact (hp.unthreaded v hv).resolve_right (by simp [hmain])
    case runInline => exact .inr rfl
    case inlineDone hmain hk hexit =>
      left
      have hm := hp.main
      rw [hmain] at hm
      by_cases hv0 : v.val = 0
      · exact .inr ((congrArg (fun v => (s.workers v).pc) (Fin.ext hv0)).trans hexit)
      · exact .inl (hm v hv0)
    case join i hmain hi hdone =>
      left
      show ((s.setWorker ⟨i, hi⟩ _).workers v).pc.Quiet
      by_cases hvi : v = ⟨i, hi⟩
      · subst hvi
        simp only [setWorker_self]
        rcases hdone with hthread | hexit
        · exact (hp.unthreaded _ hthread).resolve_right (by simp [hmain])
        · exact .inr hexit
      · rw [show (State.setWorker s ⟨i, hi⟩ _).workers v = _ from setWorker_ne s hvi _] at hv
        rw [setWorker_ne s hvi]
        exact (hp.unthreaded v hv).resolve_right (by simp [hmain])
    case watching => exact hp.unthreaded v hv
    all_goals
      rename_i hmain
      refine .inl ((hp.unthreaded v hv).resolve_right ?_)
      simp_all
  · rw [hf.finished] at hpos
    obtain ⟨v, hv⟩ := hp.finished hpos
    exact ⟨v, by rcases hpc v with h | h <;> simp_all⟩
  · rw [hf.result, hf.n, hf.next]
    exact hp.drained v (by rcases hpc v with h | h <;> simp_all)
  · have hold := hp.direct v f piece (by rcases hpc v with h | h <;> simp_all)
    cases h
    case startWriter hmain =>
      have hm := hp.main
      rw [hmain] at hm
      simp [hm.2 v] at hv
    all_goals exact hold
  · exact hp.failure v res (by rcases hpc v with h | h <;> simp_all)
  · rw [hf.result] at hres
    obtain ⟨v, hv⟩ := hp.recorded hres
    exact ⟨v, by rcases hpc v with h | h <;> simp_all⟩

theorem phases {plan : Plan} {s : State plan.nworkers} (h : Reachable reply plan s) :
    Phases s := by
  refine h.invariant (phases_init plan) fun _ hp hstep => ?_
  rcases step_cases hstep with h | ⟨w, h⟩ | h
  · exact h.phases hp
  · exact h.phases hp
  · exact h.phases hp

end Gurl.Chunked
