import Gurl.Chunked.Phases

/-! How errors travel in a chunked download: through `pool.result` for the workers, and through
`writer.result` for the writer thread. -/

namespace Gurl.Chunked

open LinkedHeap

variable {k : Nat} {reply : Nat → Nat → Bytes → Bool} {s s' : State k} {w : Fin k}

/-! ### The writer thread -/

/-- The invariant of the writer thread's place. -/
structure WriterPhases (s : State k) : Prop where
  absent : s.pool.writer = false → s.writer.pc = .notStarted ∧ s.writer.result = .ok
  present : s.pool.writer = true → s.writer.pc ≠ .notStarted
  done : s.writer.done = true → (∃ r, s.main = .joinWriter r) ∨ ∃ r, s.main = .ret r
  exited : s.writer.pc = .exited → s.writer.done = true
  /-- After a failed write the writer no longer writes. -/
  stopped : s.writer.result ≠ .ok →
    (∀ p, s.writer.pc ≠ .seek p) ∧ ∀ p pos rest, s.writer.pc ≠ .writing p pos rest
  ret : ∀ r, s.main = .ret r →
    (s.pool.writer = true → s.writer.pc = .exited) ∧ (r = .ok → s.writer.result = .ok)

theorem writerPhases_init (plan : Plan) : WriterPhases (State.init plan) where
  absent _ := ⟨rfl, rfl⟩
  present h := by simp [State.init] at h
  done h := by simp [State.init] at h
  exited h := by simp [State.init] at h
  stopped h := absurd rfl h
  ret _ h := by simp [State.init] at h

theorem WorkerStep.writerPhases (h : WorkerStep reply s w s') (hp : WriterPhases s) :
    WriterPhases s' := by
  have hf := h.frame
  constructor
  · rw [hf.hasWriter, hf.writerPc, hf.writerResult]
    exact hp.absent
  · rw [hf.hasWriter, hf.writerPc]
    exact hp.present
  · rw [hf.done, hf.main]
    exact hp.done
  · rw [hf.writerPc, hf.done]
    exact hp.exited
  · rw [hf.writerPc, hf.writerResult]
    exact hp.stopped
  · rw [hf.main, hf.hasWriter, hf.writerPc, hf.writerResult]
    exact hp.ret

theorem WriterStep.writerPhases (h : WriterStep s s') (hp : WriterPhases s) : WriterPhases s' := by
  have hf := h.frame
  have hwriter : s.pool.writer = true := by
    by_contra hno
    exact hf.started (hp.absent (by simpa using hno)).1
  constructor
  · rw [hf.pool, hwriter]
    simp
  · exact fun _ => hf.running
  · rw [hf.done, hf.main]
    exact hp.done
  · cases h <;> simp_all
  · have := hp.stopped
    cases h <;> simp_all
  · rw [hf.main, hf.pool]
    intro r hr
    exact absurd ((hp.ret r hr).1 hwriter) hf.busy

theorem MainStep.writerPhases (h : MainStep s s') (hph : s.main.Phase s) (hp : WriterPhases s) :
    WriterPhases s' := by
  have hnot : s.main = .alloc ∨ s.main = .startWriter → s.pool.writer = false := by
    rintro (hm | hm) <;> rw [hm] at hph <;> exact hph.1
  obtain ⟨habsent, hpresent, hdone, hexited, hstopped, hret⟩ := hp
  cases h
  case allocFail hpc =>
    have hw := hnot (.inl hpc)
    refine ⟨habsent, hpresent, ?_, hexited, hstopped, ?_⟩
    · intro hd
      rcases hdone hd with ⟨r, hr⟩ | ⟨r, hr⟩ <;> simp [hpc] at hr
    · simp [hw]
  case startWriter hpc =>
    refine ⟨by simp, by simp, ?_, by simp, by simp, by simp⟩
    intro hd
    rcases hdone hd with ⟨r, hr⟩ | ⟨r, hr⟩ <;> simp [hpc] at hr
  case stop r hpc hw =>
    exact ⟨habsent, hpresent, fun _ => .inl ⟨r, rfl⟩, fun _ => rfl, hstopped, by simp⟩
  case noStop r hpc hw =>
    refine ⟨habsent, hpresent, ?_, hexited, hstopped, ?_⟩
    · exact fun _ => .inr ⟨r, rfl⟩
    · intro _ _
      exact ⟨by simp [hw], fun _ => (habsent hw).2⟩
  case ret r hpc hexit =>
    refine ⟨habsent, hpresent, ?_, hexited, hstopped, ?_⟩
    · exact fun _ => .inr ⟨_, rfl⟩
    · intro r' hr'
      refine ⟨fun _ => hexit, fun hok => ?_⟩
      rw [← MainPc.ret.inj hr'] at hok
      by_contra hres
      split at hok
      · exact hres hok
      · contradiction
  case watching => exact ⟨habsent, hpresent, hdone, hexited, hstopped, hret⟩
  all_goals
    rename_i hpc
    refine ⟨habsent, hpresent, ?_, hexited, hstopped, by simp⟩
    intro hd
    rcases hdone hd with ⟨r, hr⟩ | ⟨r, hr⟩ <;> simp_all

theorem writerPhases {plan : Plan} {s : State plan.nworkers} (h : Reachable reply plan s) :
    WriterPhases s := by
  refine h.invariant (writerPhases_init plan) fun hr hp hstep => ?_
  rcases step_cases hstep with h | ⟨w, h⟩ | h
  · exact h.writerPhases (phases hr).main hp
  · exact h.writerPhases hp
  · exact h.writerPhases hp

/-! ### Marks of a failure -/

/-- A worker whose transfer has failed, before the error is recorded. -/
def WorkerPc.Failing : WorkerPc → Prop
  | .refused _ | .record _ => True
  | _ => False

/-- No error is recorded or about to be. -/
structure Healthy (s : State k) : Prop where
  pool : s.pool.result = .ok
  writer : s.writer.result = .ok
  writing : ∀ p, s.writer.pc ≠ .record p
  workers : ∀ w, ¬ (s.workers w).pc.Failing

/-- A healthy state comes from a healthy one, through a step that no failure was part of. -/
structure HealthyStep (s s' : State k) : Prop where
  before : Healthy s
  performFailed : s'.hist.performFailed = s.hist.performFailed
  writeFailed : s'.hist.writeFailed = s.hist.writeFailed

theorem WorkerStep.healthyStep (h : WorkerStep reply s w s') (hp : Phases s) (hs : Healthy s') :
    HealthyStep s s' := by
  have hf := h.frame
  have hw := hs.workers w
  refine ⟨⟨?_, ?_, ?_, fun v => ?_⟩, ?_, ?_⟩
  · by_contra hres
    exact h.result_ne hres hs.pool
  · rw [← hf.writerResult]
    exact hs.writer
  · rw [← hf.writerPc]
    exact hs.writing
  · by_cases hv : v = w
    · subst hv
      cases h
      case record res hpc =>
        have := hs.pool
        simp only [hpc] at this ⊢
        split at this
        · exact absurd this (hp.failure v res hpc)
        · contradiction
      all_goals simp_all [WorkerPc.Failing]
    · rw [← hf.others v hv]
      exact hs.workers v
  · cases h <;> simp_all [WorkerPc.Failing]
  · cases h <;> simp_all [WorkerPc.Failing]

theorem WriterStep.healthyStep (h : WriterStep s s') (hs : Healthy s') : HealthyStep s s' := by
  have hf := h.frame
  have hres := hs.writer
  refine ⟨⟨?_, ?_, ?_, ?_⟩, hf.performFailed, ?_⟩
  · rw [← hf.pool]
    exact hs.pool
  · by_contra hbad
    cases h <;> simp_all
  · intro p hp
    cases h
    case record hpc =>
      simp only at hres
      split at hres
      · cases hres
      · contradiction
    case fail hpc => simp [hp] at hpc
    all_goals simp_all
  · rw [← hf.workers]
    exact hs.workers
  · have := hs.writing
    cases h <;> simp_all

theorem MainStep.healthyStep (h : MainStep s s') (hp : Phases s) (hwp : WriterPhases s)
    (hs : Healthy s') : HealthyStep s s' := by
  have hf := h.frame
  refine ⟨⟨hf.result ▸ hs.pool, hf.writerResult ▸ hs.writer, ?_, fun v => ?_⟩, by rw [hf.hist],
    by rw [hf.hist]⟩
  · have hnew := hs.writing
    cases h
    case startWriter hpc =>
      have hm := hp.main
      rw [hpc] at hm
      simp [(hwp.absent hm.1).1]
    all_goals exact hnew
  · have hnew := hs.workers v
    rcases h.pc hp.main v with hsame | ⟨hidle, -⟩
    · rwa [hsame] at hnew
    · simp [hidle, WorkerPc.Failing]

theorem healthyStep {plan : Plan} {s s' : State plan.nworkers} {a : Action plan.nworkers}
    (hr : Reachable reply plan s) (hstep : step reply s a = some s') (hs : Healthy s') :
    HealthyStep s s' := by
  rcases step_cases hstep with h | ⟨w, h⟩ | h
  · exact h.healthyStep (phases hr) (writerPhases hr) hs
  · exact h.healthyStep (phases hr) hs
  · exact h.healthyStep hs

theorem no_failure_of_healthy {plan : Plan} {s : State plan.nworkers}
    (hr : Reachable reply plan s) (hs : Healthy s) :
    s.hist.performFailed = false ∧ s.hist.writeFailed = false := by
  induction hr with
  | refl => exact ⟨rfl, rfl⟩
  | snoc hr hstep ih =>
    have hh := healthyStep hr hstep hs
    rw [hh.performFailed, hh.writeFailed]
    exact ih hh.before

/-- Where `chunk_download` returns `CURLE_OK`, nothing has failed. -/
theorem healthy_of_ret_ok {plan : Plan} {s : State plan.nworkers} (hr : Reachable reply plan s)
    (hret : s.main = .ret .ok) : Healthy s := by
  have hm := (phases hr).main
  have hw := (writerPhases hr).ret .ok hret
  rw [hret] at hm
  refine ⟨(hm.2 rfl).1, hw.2 rfl, fun p hp => ?_, fun v => ?_⟩
  · by_cases hwriter : s.pool.writer = true
    · simp [hw.1 hwriter] at hp
    · simp [((writerPhases hr).absent (by simpa using hwriter)).1] at hp
  · rcases hm.1 v with h | h <;> simp [h, WorkerPc.Failing]

/-! ### What an error stops -/

theorem handed_of_failed {a : Action k} (hstep : step reply s a = some s')
    (hres : s.pool.result ≠ .ok) :
    s'.pool.result ≠ .ok ∧ s'.hist.handed = s.hist.handed := by
  rcases step_cases hstep with h | ⟨w, h⟩ | h
  · rw [h.frame.result, h.frame.hist]
    exact ⟨hres, rfl⟩
  · refine ⟨h.result_ne hres, ?_⟩
    cases h <;> first | rfl | contradiction
  · rw [h.frame.pool, h.frame.handed]
    exact ⟨hres, rfl⟩

theorem written_of_failed {plan : Plan} {s s' : State plan.nworkers} {a : Action plan.nworkers}
    (hr : Reachable reply plan s) (hstep : step reply s a = some s')
    (hres : s.writer.result ≠ .ok) :
    s'.writer.result ≠ .ok ∧ s'.hist.enqueued = s.hist.enqueued ∧ s'.hist.log = s.hist.log := by
  have hwp := writerPhases hr
  have hwriter : s.pool.writer ≠ false := fun hno => hres (hwp.absent hno).2
  rcases step_cases hstep with h | ⟨w, h⟩ | h
  · rw [h.frame.writerResult, h.frame.hist]
    exact ⟨hres, rfl, rfl⟩
  · rw [h.frame.writerResult]
    refine ⟨hres, ?_, ?_⟩
    · cases h <;> first | rfl | contradiction
    · cases h
      case write hpc hn => exact absurd ((phases hr).direct w _ _ (.inr ⟨_, _, hpc⟩)) hwriter
      all_goals rfl
  · have hstop := (hwp.stopped hres).2
    rw [h.frame.enqueued]
    refine ⟨?_, rfl, ?_⟩
    · cases h <;> simp_all
    · cases h
      case write hpc hjob hn => exact absurd hpc (hstop _ _ _)
      all_goals rfl

/-- A failed transfer or a failed write makes `chunk_download` fail. An error in the pool ends the
handing out of chunks, and an error of the writer ends the queueing and the writing, in whatever
order the threads go on. -/
theorem failure_reported {plan : Plan} {s : State plan.nworkers} (hr : Reachable reply plan s) :
    (s.hist.performFailed = true ∨ s.hist.writeFailed = true → s.main ≠ .ret .ok) ∧
    (s.pool.result ≠ .ok → ∀ s', Runs.Reach (step reply) s s' →
      s'.pool.result ≠ .ok ∧ s'.hist.handed = s.hist.handed) ∧
    (s.writer.result ≠ .ok → ∀ s', Runs.Reach (step reply) s s' →
      s'.writer.result ≠ .ok ∧ s'.hist.enqueued = s.hist.enqueued ∧
        s'.hist.log = s.hist.log) := by
  refine ⟨fun hfail hret => ?_, fun hres s' hrun => ?_, fun hres s' hrun => ?_⟩
  · have hno := no_failure_of_healthy hr (healthy_of_ret_ok hr hret)
    simp [hno] at hfail
  · refine hrun.invariant (P := fun t => t.pool.result ≠ .ok ∧ t.hist.handed = s.hist.handed)
      ⟨hres, rfl⟩ fun _ hp hstep => ?_
    have hnext := handed_of_failed hstep hp.1
    exact ⟨hnext.1, hnext.2.trans hp.2⟩
  · refine hrun.invariant (P := fun t => t.writer.result ≠ .ok ∧
      t.hist.enqueued = s.hist.enqueued ∧ t.hist.log = s.hist.log)
      ⟨hres, rfl, rfl⟩ fun hrun hp hstep => ?_
    have hnext := written_of_failed (hr.trans hrun) hstep hp.1
    exact ⟨hnext.1, hnext.2.1.trans hp.2.1, hnext.2.2.trans hp.2.2⟩

/-- A plan of one chunk of four bytes. -/
def onePlan : Plan :=
  { base := 0, total := 4, chunkSize := 4, count := 1, n := 1, nworkers := 1 }

/-- A step of the only worker. -/
def Action.only (c : Choice) : Action 1 := .worker 0 c

/-- A run without threads in which the connection breaks after two bytes. -/
def brokenRun : List (Action 1) :=
  [.main (.flag true), .main (.flag false), .main (.code .ok), .main .go, .main (.flag false),
   .main .go, .only .go, .only .go, .only (.bytes [7, 8]), .only .go, .only (.flag true),
   .only (.count 2), .only .go, .only .go, .only (.code .recvError), .only .go, .only .go,
   .main .go, .main .go, .main .go, .main .go]

theorem failure_reported_brokenRun :
    ∃ s, Reachable (fun _ _ _ => false) onePlan s ∧ s.hist.performFailed = true ∧
      s.main = .ret .recvError ∧ s.main ≠ .ret .ok := by
  have hr : Reachable (fun _ _ _ => false) onePlan _ :=
    Runs.Reach.of_exec (show Runs.exec (step fun _ _ _ => false) (State.init onePlan) brokenRun =
      some _ from rfl)
  exact ⟨_, hr, rfl, rfl, (failure_reported hr).1 (.inl rfl)⟩

end Gurl.Chunked
