import Gurl.Chunked.Queue
import Gurl.Lib.Refine
import Mathlib.Algebra.Order.Group.Multiset

/-! The accounts of a chunked download. As long as nothing fails, the chunks handed out are the ones
transferred and the ones in a worker's hands, and the bytes passed on to the output file are the
ones of these transfers, each once. -/

namespace Gurl.Chunked

open LinkedHeap

variable {k : Nat} {reply : Nat → Nat → Bytes → Bool} {s s' : State k} {w : Fin k}

theorem writesAt_append (idx pos : Nat) (xs ys : Bytes) :
    writesAt idx pos (xs ++ ys) = writesAt idx pos xs ++ writesAt idx (pos + xs.length) ys := by
  induction xs generalizing pos with
  | nil => rfl
  | cons x xs ih =>
    rw [List.cons_append, writesAt, writesAt, ih, List.cons_append, List.length_cons,
      Nat.add_right_comm, Nat.add_assoc]

/-! ### A worker's transfer -/

/-- The transfer that a worker is in, up to its failure. -/
def WorkerPc.transfer : WorkerPc → Option Fetch
  | .perform f | .callback f _ | .checkPool f _ | .copy f _ | .enqueue f _ _ | .seek f _
  | .writing f _ _ _ | .bump f _ => some f
  | _ => none

/-- A worker that passes its bytes through the queue. -/
def WorkerPc.Queueing : WorkerPc → Prop
  | .checkPool _ _ | .copy _ _ | .enqueue _ _ _ => True
  | _ => False

/-- What a worker knows about its transfer. -/
structure WorkerSound (pool : ChunkPool) (x : ChunkWorker) : Prop where
  range : ∀ f, x.pc.transfer = some f →
    chunkRange pool.base pool.chunkSize pool.total f.idx = some (f.start, f.stop) ∧
      x.curOffset = f.start + f.got.length
  writing : ∀ f piece pos rest, x.pc = .writing f piece pos rest →
    ∃ front, piece = front ++ rest ∧ pos = x.curOffset + front.length
  queueing : x.pc.Queueing → pool.writer = true

theorem WorkerStep.sound (h : WorkerStep reply s w s') (hs : ∀ v, WorkerSound s.pool (s.workers v))
    (v : Fin k) : WorkerSound s'.pool (s'.workers v) := by
  have hf := h.frame
  have hpool : ∀ x, WorkerSound s.pool x → WorkerSound s'.pool x := by
    intro x hx
    refine ⟨?_, hx.writing, ?_⟩
    · rw [hf.base, hf.chunkSize, hf.total]
      exact hx.range
    · rw [hf.hasWriter]
      exact hx.queueing
  by_cases hv : v = w
  · subst hv
    refine hpool _ ?_
    obtain ⟨hrange, hwriting, hqueueing⟩ := hs v
    cases h
    case start idx start stop hpc hr =>
      refine ⟨?_, by simp, by simp [WorkerPc.Queueing]⟩
      simp only [setWorker_self, WorkerPc.transfer, Option.some.injEq]
      rintro _ rfl
      exact ⟨hr, rfl⟩
    case seek f piece hpc =>
      refine ⟨?_, ?_, by simp [WorkerPc.Queueing]⟩
      · simpa [hpc, WorkerPc.transfer] using hrange
      · simp only [setPc_self, WorkerPc.writing.injEq]
        rintro _ _ _ _ ⟨rfl, rfl, rfl, rfl⟩
        exact ⟨[], rfl, rfl⟩
    case write f piece rest pos n hpc hn =>
      refine ⟨?_, ?_, by simp [WorkerPc.Queueing]⟩
      · simpa [hpc, WorkerPc.transfer] using hrange
      · simp only [setPc_self, WorkerPc.writing.injEq]
        rintro _ _ _ _ ⟨rfl, rfl, rfl, rfl⟩
        obtain ⟨front, hpiece, hpos⟩ := hwriting f piece pos rest hpc
        refine ⟨front ++ rest.take n, ?_, ?_⟩
        · rw [List.append_assoc, List.take_append_drop, hpiece]
        · rw [List.length_append, List.length_take, Nat.min_eq_left hn, hpos, Nat.add_assoc]
    case bump f piece hpc =>
      refine ⟨?_, by simp, by simp [WorkerPc.Queueing]⟩
      obtain ⟨hr, hoff⟩ := hrange f (by rw [hpc]; rfl)
      simp only [setWorker_self, WorkerPc.transfer, Option.some.injEq]
      rintro _ rfl
      exact ⟨hr, by rw [List.length_append, hoff, Nat.add_assoc]⟩
    all_goals
      refine ⟨?_, ?_, ?_⟩ <;> simp_all [WorkerPc.transfer, WorkerPc.Queueing]
  · rw [hf.others v hv]
    exact hpool _ (hs v)

theorem MainStep.sound (h : MainStep s s') (hp : Phases s)
    (hs : ∀ v, WorkerSound s.pool (s.workers v)) (v : Fin k) :
    WorkerSound s'.pool (s'.workers v) := by
  have hf := h.frame
  rcases h.pc hp.main v with hsame | ⟨-, hpull⟩
  · refine ⟨?_, ?_, ?_⟩
    · rw [hsame, h.curOffset v, hf.base, hf.chunkSize, hf.total]
      exact (hs v).range
    · rw [hsame, h.curOffset v]
      exact (hs v).writing
    · rw [hsame]
      have := (hs v).queueing
      cases h
      case startWriter => exact fun _ => rfl
      all_goals exact this
  · refine ⟨?_, ?_, ?_⟩ <;> simp [hpull, WorkerPc.transfer, WorkerPc.Queueing]

theorem workers_sound {plan : Plan} {s : State plan.nworkers} (h : Reachable reply plan s)
    (v : Fin plan.nworkers) : WorkerSound s.pool (s.workers v) := by
  revert v
  refine h.invariant (P := fun s => ∀ v, WorkerSound s.pool (s.workers v)) ?_
    fun hr hs hstep => ?_
  · intro v
    refine ⟨?_, ?_, ?_⟩ <;> simp [State.init, WorkerPc.transfer, WorkerPc.Queueing]
  · rcases step_cases hstep with h | ⟨w, h⟩ | h
    · exact h.sound (phases hr) hs
    · exact h.sound hs
    · rw [h.frame.pool, h.frame.workers]
      exact hs

/-! ### The accounts -/

/-- The chunk in a worker's hands. -/
def ChunkWorker.held (x : ChunkWorker) : Multiset Nat :=
  match x.pc with
  | .fetch idx => {idx}
  | pc => pc.transfer.elim 0 fun f => {f.idx}

/-- The bytes of a worker's transfer that have been passed on. -/
def ChunkWorker.sent (x : ChunkWorker) : Multiset Write :=
  match x.pc with
  | .writing f piece _ rest =>
    writesAt f.idx f.start f.got +
      writesAt f.idx x.curOffset (piece.take (piece.length - rest.length))
  | .bump f piece => writesAt f.idx f.start (f.got ++ piece)
  | pc => pc.transfer.elim 0 fun f => writesAt f.idx f.start f.got

/-- The bytes of the transfers that returned `CURLE_OK`. -/
def State.fetched (s : State k) : List Write :=
  s.hist.transfers.flatMap fun t => writesAt t.1 (Blocks.lo s.pool.base s.pool.chunkSize t.1) t.2

/-- The bytes passed on: to the queue, or to the file where there is no writer. -/
def State.accepted (s : State k) : List Write :=
  if s.pool.writer then s.hist.enqueued.flatMap Payload.writes else s.hist.log

/-- Every chunk handed out is accounted for, and so is every byte. -/
structure Ledger (s : State k) : Prop where
  chunks : (s.hist.transfers.map Prod.fst : Multiset Nat) + ∑ v, (s.workers v).held =
    s.hist.handed
  bytes : (s.fetched : Multiset Write) + ∑ v, (s.workers v).sent = s.accepted

theorem WorkerFrame.workers (hf : WorkerFrame w s s') :
    s'.workers = Function.update s.workers w (s'.workers w) := by
  funext v
  by_cases hv : v = w
  · subst hv
    rw [Function.update_self]
  · rw [Function.update_of_ne hv, hf.others v hv]

theorem WorkerStep.chunk_flow (h : WorkerStep reply s w s') (hh : Healthy s') :
    (s'.hist.transfers.map Prod.fst : Multiset Nat) + (s'.workers w).held + s.hist.handed =
      (s.hist.transfers.map Prod.fst : Multiset Nat) + (s.workers w).held + s'.hist.handed := by
  have hno := hh.workers w
  cases h
  case pull hpc hok hnext =>
    simp [ChunkWorker.held, hpc, WorkerPc.transfer, ← Multiset.coe_add, add_assoc, add_comm]
  case succeed f hpc hreply =>
    simp [ChunkWorker.held, hpc, WorkerPc.transfer, ← Multiset.coe_add]
  all_goals simp_all [ChunkWorker.held, WorkerPc.transfer, WorkerPc.Failing]

theorem chunkRange_start {base chunkSize total idx start stop : Nat}
    (h : chunkRange base chunkSize total idx = some (start, stop)) :
    start = Blocks.lo base chunkSize idx := by
  unfold chunkRange at h
  simp only [Option.bind_eq_bind, Option.bind_eq_some_iff, offT_eq_some, Option.some.injEq,
    Prod.mk.injEq] at h
  obtain ⟨_, ⟨_, rfl⟩, _, ⟨_, rfl⟩, _, -, rfl, -⟩ := h
  rfl

/-- Linking a job passes its piece on. -/
theorem sent_enqueue {x : ChunkWorker} {f : Fetch} {piece : Bytes} {job : Ptr}
    (hpc : x.pc = .enqueue f piece job) (hoff : x.curOffset = f.start + f.got.length) :
    ({ x with pc := .bump f piece } : ChunkWorker).sent =
      x.sent + (⟨f.idx, x.curOffset, piece⟩ : Payload).writes := by
  simp [ChunkWorker.sent, hpc, WorkerPc.transfer, Payload.writes, writesAt_append, hoff]

theorem sent_write {x : ChunkWorker} {f : Fetch} {piece front rest : Bytes} {pos n : Nat}
    (hpc : x.pc = .writing f piece pos rest) (hpiece : piece = front ++ rest)
    (hpos : pos = x.curOffset + front.length) (hn : n ≤ rest.length) :
    ({ x with pc := .writing f piece (pos + n) (rest.drop n) } : ChunkWorker).sent =
      x.sent + writesAt f.idx pos (rest.take n) := by
  subst hpiece hpos
  have hlen : (front ++ rest).length - (rest.drop n).length = front.length + n := by
    simp only [List.length_append, List.length_drop]
    omega
  have hold : (front ++ rest).length - rest.length = front.length := by
    simp
  simp only [ChunkWorker.sent, hpc, hlen, hold, List.take_left, List.take_length_add_append,
    writesAt_append, ← Multiset.coe_add, add_assoc]

/-- A piece that is passed on leaves the worker and reaches the output. -/
theorem flow_of_passed {x : ChunkWorker} {ws : List Write}
    (hfetched : s'.fetched = s.fetched) (hsent : x.sent = (s.workers w).sent + ws)
    (haccepted : s'.accepted = s.accepted ++ ws) :
    (s'.fetched : Multiset Write) + x.sent + s.accepted =
      (s.fetched : Multiset Write) + (s.workers w).sent + s'.accepted := by
  rw [hfetched, hsent, haccepted, ← Multiset.coe_add]
  abel

theorem WorkerStep.byte_flow (h : WorkerStep reply s w s') (hp : Phases s) {ps : List Ptr}
    (hq : Queue s ps) (hsound : WorkerSound s.pool (s.workers w)) (hh : Healthy s') :
    (s'.fetched : Multiset Write) + (s'.workers w).sent + s.accepted =
      (s.fetched : Multiset Write) + (s.workers w).sent + s'.accepted := by
  have hno := hh.workers w
  have hrange := hsound.range
  -- a step that passes nothing on and ends no transfer
  have hquiet : s'.fetched = s.fetched → s'.accepted = s.accepted →
      (s'.workers w).sent = (s.workers w).sent →
      (s'.fetched : Multiset Write) + (s'.workers w).sent + s.accepted =
        (s.fetched : Multiset Write) + (s.workers w).sent + s'.accepted := by
    intro h1 h2 h3
    rw [h1, h2, h3]
  have hlink : ∀ {f piece job j}, (s.workers w).pc = .enqueue f piece job →
      s.heap.get job = some j → s.pool.writer = true ∧
        ({ s.workers w with pc := .bump f piece } : ChunkWorker).sent =
          (s.workers w).sent + j.payload.writes := by
    intro f piece job j hpc hj
    rw [(hq.worker w f piece job hpc).1, Option.some.injEq] at hj
    subst hj
    exact ⟨hsound.queueing (by rw [hpc]; trivial),
      sent_enqueue hpc (hrange f (by rw [hpc]; rfl)).2⟩
  cases h
  case succeed f hpc hreply =>
    have hstart := chunkRange_start (hrange f (by rw [hpc]; rfl)).1
    have hsent : (s.workers w).sent = writesAt f.idx f.start f.got := by
      simp [ChunkWorker.sent, hpc, WorkerPc.transfer]
    have hnone : ({ s.workers w with pc := .pull } : ChunkWorker).sent = 0 := rfl
    rw [setPc_self, hnone, hsent, hstart, add_zero]
    simp only [State.fetched, List.flatMap_append, List.flatMap_singleton, setPc_pool]
    rw [← Multiset.coe_add]
    rfl
  case linkFirst f piece job j hpc hok hroom hj htail =>
    obtain ⟨hwriter, hsent⟩ := hlink hpc hj
    rw [setPc_self]
    refine flow_of_passed rfl hsent ?_
    simp [State.accepted, hwriter]
  case linkLast f piece job t j last hpc hok hroom hj htail hlast =>
    obtain ⟨hwriter, hsent⟩ := hlink hpc hj
    rw [setPc_self]
    refine flow_of_passed rfl hsent ?_
    simp [State.accepted, hwriter]
  case write f piece rest pos n hpc hn =>
    obtain ⟨front, hpiece, hpos⟩ := hsound.writing f piece pos rest hpc
    have hwriter := hp.direct w f piece (.inr ⟨pos, rest, hpc⟩)
    rw [setPc_self]
    refine flow_of_passed rfl (sent_write hpc hpiece hpos hn) ?_
    simp [State.accepted, hwriter]
  case seek f piece hpc =>
    refine hquiet rfl rfl ?_
    simp [ChunkWorker.sent, hpc, WorkerPc.transfer, writesAt]
  case written f piece pos hpc =>
    refine hquiet rfl rfl ?_
    have hoff := (hrange f (by rw [hpc]; rfl)).2
    simp [ChunkWorker.sent, hpc, writesAt_append, hoff]
  all_goals
    refine hquiet rfl rfl ?_
    simp_all [ChunkWorker.sent, WorkerPc.transfer, WorkerPc.Failing, writesAt]

theorem WorkerStep.ledger (h : WorkerStep reply s w s') (hp : Phases s) {ps : List Ptr}
    (hq : Queue s ps) (hsound : WorkerSound s.pool (s.workers w)) (hh : Healthy s')
    (hl : Ledger s) : Ledger s' where
  chunks := Accounts.balance h.frame.workers hl.chunks (h.chunk_flow hh)
  bytes := Accounts.balance h.frame.workers hl.bytes (h.byte_flow hp hq hsound hh)

theorem WriterStep.ledger (h : WriterStep s s') (hwp : WriterPhases s) (hl : Ledger s) :
    Ledger s' := by
  have hf := h.frame
  have hwriter : s.pool.writer = true := by
    by_contra hno
    exact hf.started (hwp.absent (by simpa using hno)).1
  refine ⟨?_, ?_⟩
  · rw [hf.transfers, hf.workers, hf.handed]
    exact hl.chunks
  · have hbytes := hl.bytes
    simp only [State.fetched, State.accepted, hwriter] at hbytes
    simp only [State.fetched, State.accepted, hf.transfers, hf.workers, hf.pool, hf.enqueued,
      hwriter]
    exact hbytes

theorem MainStep.ledger (h : MainStep s s') (hp : Phases s)
    (hfresh : s.main = .startWriter → s.hist.log = [] ∧ s.hist.enqueued = []) (hl : Ledger s) :
    Ledger s' := by
  have hf := h.frame
  have hheld : ∀ v, (s'.workers v).held = (s.workers v).held := by
    intro v
    rcases h.pc hp.main v with hsame | ⟨hidle, hpull⟩
    · simp only [ChunkWorker.held, hsame]
    · simp [ChunkWorker.held, hidle, hpull, WorkerPc.transfer]
  have hsent : ∀ v, (s'.workers v).sent = (s.workers v).sent := by
    intro v
    rcases h.pc hp.main v with hsame | ⟨hidle, hpull⟩
    · simp only [ChunkWorker.sent, hsame, h.curOffset]
    · simp [ChunkWorker.sent, hidle, hpull, WorkerPc.transfer]
  have hfetched : s'.fetched = s.fetched := by
    simp only [State.fetched, hf.hist, hf.base, hf.chunkSize]
  have haccepted : s'.accepted = s.accepted := by
    cases h
    case startWriter hpc =>
      obtain ⟨hlog, henqueued⟩ := hfresh hpc
      simp [State.accepted, hlog, henqueued]
    all_goals rfl
  refine ⟨?_, ?_⟩
  · simp only [hf.hist, hheld]
    exact hl.chunks
  · simp only [hfetched, haccepted, hsent]
    exact hl.bytes

end Gurl.Chunked
