import Gurl.Chunked.Ledger

/-! What the output file holds when `chunk_download` returns `CURLE_OK`. -/

namespace Gurl.Chunked

open LinkedHeap

variable {k : Nat} {reply : Nat → Nat → Bytes → Bool} {plan : Plan}

/-! ### The chunks handed out -/

/-- What `chunk_download` fixes before the threads start, and the counter of chunks. -/
structure Counted (plan : Plan) (s : State k) : Prop where
  n : s.pool.n = plan.n
  base : s.pool.base = plan.base
  chunkSize : s.pool.chunkSize = plan.chunkSize
  total : s.pool.total = plan.total
  next_le : s.pool.next ≤ plan.n
  handed : s.hist.handed = List.range s.pool.next

theorem counted {s : State plan.nworkers} (hr : Reachable reply plan s) : Counted plan s := by
  refine hr.invariant ⟨rfl, rfl, rfl, rfl, Nat.zero_le _, rfl⟩ fun _ hc hstep => ?_
  rcases step_cases hstep with h | ⟨w, h⟩ | h
  · have hf := h.frame
    exact ⟨hf.n ▸ hc.n, hf.base ▸ hc.base, hf.chunkSize ▸ hc.chunkSize, hf.total ▸ hc.total,
      hf.next ▸ hc.next_le, by rw [hf.hist, hf.next, hc.handed]⟩
  · have hf := h.frame
    refine ⟨hf.n ▸ hc.n, hf.base ▸ hc.base, hf.chunkSize ▸ hc.chunkSize, hf.total ▸ hc.total,
      ?_, ?_⟩
    · cases h
      case pull hpc hok hnext => exact hc.n ▸ hnext
      all_goals exact hc.next_le
    · cases h
      case pull hpc hok hnext =>
        simp only [hc.handed, List.range_succ]
      all_goals exact hc.handed
  · have hf := h.frame
    constructor
    all_goals rw [hf.pool]
    · exact hc.n
    · exact hc.base
    · exact hc.chunkSize
    · exact hc.total
    · exact hc.next_le
    · rw [hf.handed]
      exact hc.handed

/-- Every transfer that returned `CURLE_OK` asked for the range of its chunk, and the server gave a
reply to it. -/
theorem transfers_replied {s : State plan.nworkers} (hr : Reachable reply plan s) :
    ∀ t ∈ s.hist.transfers, ∃ start stop,
      chunkRange plan.base plan.chunkSize plan.total t.1 = some (start, stop) ∧
        reply start stop t.2 = true := by
  refine hr.invariant (P := fun s => ∀ t ∈ s.hist.transfers, ∃ start stop,
    chunkRange plan.base plan.chunkSize plan.total t.1 = some (start, stop) ∧
      reply start stop t.2 = true) (by simp [State.init]) fun hr hold hstep => ?_
  rcases step_cases hstep with h | ⟨w, h⟩ | h
  · rw [h.frame.hist]
    exact hold
  · cases h
    case succeed f hpc hreply =>
      intro t ht
      rcases List.mem_append.mp ht with ht | ht
      · exact hold t ht
      · obtain rfl := List.mem_singleton.mp ht
        have hc := counted hr
        have hrange := ((workers_sound hr w).range f (by rw [hpc]; rfl)).1
        rw [hc.base, hc.chunkSize, hc.total] at hrange
        exact ⟨f.start, f.stop, hrange, hreply⟩
    all_goals exact hold
  · rw [h.frame.transfers]
    exact hold

/-! ### The bytes written -/

/-- Nothing is written before the threads start. -/
theorem untouched {s : State plan.nworkers} (hr : Reachable reply plan s)
    (hmain : s.main = .alloc ∨ s.main = .startWriter) :
    s.hist.log = [] ∧ s.hist.enqueued = [] := by
  revert hmain
  refine hr.invariant (P := fun s => s.main = .alloc ∨ s.main = .startWriter →
    s.hist.log = [] ∧ s.hist.enqueued = []) (fun _ => ⟨rfl, rfl⟩) fun hr hold hstep hmain => ?_
  have hidle : ∀ {t : State plan.nworkers}, Phases t → t.main = .alloc ∨ t.main = .startWriter →
      t.pool.writer = false ∧ ∀ w, (t.workers w).pc = .idle := by
    rintro t hp (hm | hm)
    · exact (congrArg (MainPc.Phase t) hm).mp hp.main
    · exact (congrArg (MainPc.Phase t) hm).mp hp.main
  rcases step_cases hstep with h | ⟨w, h⟩ | h
  · rw [h.frame.hist]
    cases h
    case alloc hpc => exact hold (.inl hpc)
    case watching => exact hold hmain
    all_goals simp at hmain
  · rw [h.frame.main] at hmain
    exact absurd (.inl ((hidle (phases hr) hmain).2 w)) h.frame.busy
  · rw [h.frame.main] at hmain
    exact absurd ((writerPhases hr).absent (hidle (phases hr) hmain).1).1 h.frame.started

theorem ledger {s : State plan.nworkers} (hr : Reachable reply plan s) (hh : Healthy s) :
    Ledger s := by
  induction hr with
  | refl =>
    refine ⟨?_, ?_⟩
    · simp [State.init, ChunkWorker.held, WorkerPc.transfer]
    · simp [State.init, ChunkWorker.sent, WorkerPc.transfer, State.fetched, State.accepted]
  | snoc hr hstep ih =>
    have hl := ih (healthyStep hr hstep hh).before
    obtain ⟨ps, hq⟩ := queue hr
    rcases step_cases hstep with h | ⟨w, h⟩ | h
    · exact h.ledger (phases hr) (fun hm => untouched hr (.inr hm)) hl
    · exact h.ledger (phases hr) hq (workers_sound hr w) hh hl
    · exact h.ledger (writerPhases hr) hl

/-- What the writer thread has written: the jobs it has taken, up to the one in its hands. -/
def WriterPc.Written (hist : History) : WriterPc → Prop
  | .take _ | .seek _ =>
    ∃ front j, hist.consumed = front ++ [j] ∧ hist.log = front.flatMap Payload.writes
  | .writing _ pos rest =>
    ∃ front j buf, hist.consumed = front ++ [j] ∧ j.buf = buf ++ rest ∧
      pos = j.offset + buf.length ∧
      hist.log = front.flatMap Payload.writes ++ writesAt j.idx j.offset buf
  | _ => hist.log = hist.consumed.flatMap Payload.writes

theorem WriterStep.written_kept {s s' : State k} {ps : List Ptr} (h : WriterStep s s')
    (hq : Queue s ps) (hh : Healthy s') (hw : s.writer.pc.Written s.hist) :
    s'.writer.pc.Written s'.hist := by
  have hlast : ∀ {p job front j}, s.writer.pc.job = some p → s.heap.get p = some job →
      s.hist.consumed = front ++ [j] → j = job.payload := by
    intro p job front j hjob hget hcons
    obtain ⟨-, i, hi, hlast⟩ := hq.writer p hjob
    rw [hget, Option.some.injEq] at hi
    rw [hcons, List.getLast?_concat, ← hi] at hlast
    exact Option.some.inj hlast
  cases h
  case unlink p job hpc hhead hjob =>
    rw [hpc] at hw
    exact ⟨s.hist.consumed, job.payload, rfl, hw⟩
  case exit hpc hhead hdone =>
    rw [hpc] at hw
    exact hw
  case wait => exact hw
  case skip hfail => exact absurd hh.writer hfail
  case toSeek hpc hok =>
    rw [hpc] at hw
    exact hw
  case seek p job hpc hjob =>
    rw [hpc] at hw
    obtain ⟨front, j, hcons, hlog⟩ := hw
    obtain rfl := hlast (by rw [hpc]; rfl) hjob hcons
    exact ⟨front, job.payload, [], hcons, rfl, rfl, by simp [hlog, writesAt]⟩
  case fail p hpc => exact absurd rfl (hh.writing p)
  case write p job pos n rest hpc hjob hn =>
    rw [hpc] at hw
    obtain ⟨front, j, buf, hcons, hbuf, hpos, hlog⟩ := hw
    obtain rfl := hlast (by rw [hpc]; rfl) hjob hcons
    refine ⟨front, job.payload, buf ++ rest.take n, hcons, ?_, ?_, ?_⟩
    · rw [List.append_assoc, List.take_append_drop, hbuf]
    · rw [List.length_append, List.length_take, Nat.min_eq_left hn, hpos, Nat.add_assoc]
    · rw [writesAt_append, hlog, hpos, List.append_assoc]
  case written p pos hpc =>
    rw [hpc] at hw
    obtain ⟨front, j, buf, hcons, hbuf, -, hlog⟩ := hw
    rw [List.append_nil] at hbuf
    show s.hist.log = s.hist.consumed.flatMap Payload.writes
    rw [hlog, hcons, List.flatMap_append, List.flatMap_singleton, Payload.writes, hbuf]
  case record p hpc =>
    have := hh.writer
    simp only at this
    split at this
    · cases this
    · contradiction
  case free hpc =>
    rw [hpc] at hw
    exact hw

theorem writer_written {s : State plan.nworkers} (hr : Reachable reply plan s) (hh : Healthy s)
    (hwriter : s.pool.writer = true) : s.writer.pc.Written s.hist := by
  induction hr with
  | refl => simp [State.init] at hwriter
  | @snoc s s' a hr hstep ih =>
    have hold := ih (healthyStep hr hstep hh).before
    obtain ⟨ps, hq⟩ := queue hr
    rcases step_cases hstep with h | ⟨w, h⟩ | h
    · rw [h.frame.hist]
      cases h
      case startWriter hpc =>
        obtain ⟨hlog, henqueued⟩ := untouched hr (.inr hpc)
        have hfifo := hq.fifo
        rw [henqueued] at hfifo
        have hcons := (List.append_eq_nil_iff.mp hfifo.symm).1
        show s.hist.log = s.hist.consumed.flatMap Payload.writes
        rw [hlog, hcons]
        rfl
      all_goals exact hold hwriter
    · have hf := h.frame
      rw [hf.hasWriter] at hwriter
      have hlog : s'.hist.log = s.hist.log := by
        cases h
        case write hpc hn =>
          have := (phases hr).direct w _ _ (.inr ⟨_, _, hpc⟩)
          simp [hwriter] at this
        all_goals rfl
      have hw := hold hwriter
      rw [hf.writerPc]
      cases hpc : s.writer.pc <;> rw [hpc] at hw <;>
        simpa only [WriterPc.Written, hlog, hf.consumed] using hw
    · rw [h.frame.pool] at hwriter
      exact h.written_kept hq hh (hold hwriter)

/-! ### The end of a download -/

/-- Where `chunk_download` returns `CURLE_OK`, every chunk was handed out once and transferred once,
and the file holds the bytes of these transfers, each written once. -/
theorem transferred {s : State plan.nworkers} (hr : Reachable reply plan s)
    (hret : s.main = .ret .ok) (hk : plan.nworkers = 0 → plan.n = 0) :
    s.hist.handed = List.range plan.n ∧
      (s.hist.transfers.map Prod.fst).Perm (List.range plan.n) ∧
      s.hist.log.Perm (s.hist.transfers.flatMap fun t =>
        writesAt t.1 (Blocks.lo plan.base plan.chunkSize t.1) t.2) := by
  have hh := healthy_of_ret_ok hr hret
  have hc := counted hr
  have hl := ledger hr hh
  have hwp := writerPhases hr
  have hm := (phases hr).main
  rw [hret] at hm
  obtain ⟨hquiet, hdone⟩ := hm
  have hnext : s.pool.next = plan.n := by
    apply Nat.le_antisymm hc.next_le
    rcases Nat.eq_zero_or_pos plan.nworkers with hzero | hpos
    · rw [hk hzero]
      exact Nat.zero_le _
    · obtain ⟨w, hw⟩ := (hdone rfl).2 hpos
      rcases (phases hr).drained w (.inr hw) with hfail | hle
      · exact absurd (hdone rfl).1 hfail
      · exact hc.n ▸ hle
  have hheld : ∀ w, (s.workers w).held = 0 := fun w => by
    rcases hquiet w with h | h <;> simp [ChunkWorker.held, h, WorkerPc.transfer]
  have hsent : ∀ w, (s.workers w).sent = 0 := fun w => by
    rcases hquiet w with h | h <;> simp [ChunkWorker.sent, h, WorkerPc.transfer]
  have hlog : s.accepted = s.hist.log := by
    unfold State.accepted
    split
    · rename_i hwriter
      have hexit := (hwp.ret .ok hret).1 hwriter
      have hwritten := writer_written hr hh hwriter
      rw [hexit] at hwritten
      obtain ⟨ps, hq⟩ := queue hr
      have hnil : ps = [] := List.head?_eq_none_iff.mp (hq.head_eq ▸ head_of_exited hr hexit)
      rw [hq.fifo, hnil]
      simpa [payloads] using hwritten.symm
    · rfl
  have hchunks := hl.chunks
  have hbytes := hl.bytes
  simp only [hheld, hsent, Finset.sum_const_zero, add_zero] at hchunks hbytes
  rw [hc.handed, hnext] at hchunks ⊢
  rw [hlog] at hbytes
  refine ⟨rfl, Multiset.coe_eq_coe.mp hchunks, ?_⟩
  simpa only [State.fetched, hc.base, hc.chunkSize] using (Multiset.coe_eq_coe.mp hbytes).symm

theorem map_offset_writesAt (idx pos : Nat) (xs : Bytes) :
    (writesAt idx pos xs).map Write.offset = List.range' pos xs.length := by
  induction xs generalizing pos with
  | nil => rfl
  | cons x xs ih =>
    rw [writesAt, List.map_cons, ih, List.length_cons, List.range'_succ]

theorem mem_writesAt {idx pos : Nat} {xs : Bytes} {x : Write} :
    x ∈ writesAt idx pos xs ↔ ∃ i, x.idx = idx ∧ x.offset = pos + i ∧ xs[i]? = some x.byte := by
  induction xs generalizing pos with
  | nil => simp [writesAt]
  | cons b xs ih =>
    rw [writesAt, List.mem_cons, ih]
    constructor
    · rintro (rfl | ⟨i, hidx, hoff, hget⟩)
      · exact ⟨0, rfl, rfl, rfl⟩
      · exact ⟨i + 1, hidx, by omega, by simpa using hget⟩
    · rintro ⟨i, hidx, hoff, hget⟩
      cases i with
      | zero =>
        left
        obtain ⟨_, _, _⟩ := x
        simp_all
      | succ i => exact .inr ⟨i, hidx, by omega, by simpa using hget⟩

/-- The plan of a download whose count of chunks is representable. -/
theorem chunkPlan_fits {base total : Nat} (hplan : chunkPlan base total = some plan)
    (hcount : plan.count < 2 ^ 32) :
    plan.base = base ∧ plan.total = total ∧ 0 < plan.chunkSize ∧
      plan.n = Blocks.count plan.chunkSize (total - base) ∧
      (plan.nworkers = 0 → plan.n = 0) := by
  obtain ⟨_, rfl⟩ := chunkPlan_eq_some.mp hplan
  refine ⟨rfl, rfl, chunkSizeFor_pos _, Nat.mod_eq_of_lt hcount, fun h => ?_⟩
  have hstreams : 0 < chunkStreams := by decide
  simp only at h ⊢
  omega

section

variable {base total : Nat} {s : State plan.nworkers}

/-- A download that has ended well, with a server that sends as many bytes as it is asked for. -/
structure Complete (reply : Nat → Nat → Bytes → Bool) (base total : Nat) (s : State plan.nworkers) :
    Prop where
  planned : chunkPlan base total = some plan
  count : plan.count < 2 ^ 32
  full : ∀ start stop got, reply start stop got = true → got.length = stop + 1 - start
  reachable : Reachable reply plan s
  ret : s.main = .ret .ok

/-- A transfer of a chunk hands over the bytes of its block. -/
theorem transfer_block (h : Complete reply base total s) {t : Nat × Bytes}
    (ht : t ∈ s.hist.transfers) :
    t.1 < plan.n ∧
      t.2.length = Blocks.hi base plan.chunkSize total t.1 - Blocks.lo base plan.chunkSize t.1 ∧
      ∃ stop, stop + 1 = Blocks.hi base plan.chunkSize total t.1 ∧
        reply (Blocks.lo base plan.chunkSize t.1) stop t.2 = true := by
  obtain ⟨hb, ht', hpos, hn, hk⟩ := chunkPlan_fits h.planned h.count
  obtain ⟨-, hperm, -⟩ := transferred h.reachable h.ret hk
  have hlt : t.1 < plan.n := by
    have := hperm.mem_iff.mp (List.mem_map_of_mem ht)
    exact List.mem_range.mp this
  obtain ⟨start, stop, hrange, hreply⟩ := transfers_replied h.reachable t ht
  have hblock : t.1 * plan.chunkSize < total - base := (Blocks.lt_count_iff hpos).mp (hn ▸ hlt)
  rw [hb, ht'] at hrange
  obtain ⟨rfl, hstop⟩ := chunkRange_eq hpos (by omega) hrange
  exact ⟨hlt, by rw [h.full _ _ _ hreply, hstop], stop, hstop, hreply⟩

/-- The offsets written are those of `[base, total)`, each once. -/
theorem offsets_written (hbase : base ≤ total) (h : Complete reply base total s) :
    (s.hist.log.map Write.offset).Perm (List.range' base (total - base)) := by
  obtain ⟨hb, -, hpos, hn, hk⟩ := chunkPlan_fits h.planned h.count
  obtain ⟨-, hperm, hlog⟩ := transferred h.reachable h.ret hk
  let block := fun i =>
    List.range' (Blocks.lo base plan.chunkSize i)
      (Blocks.hi base plan.chunkSize total i - Blocks.lo base plan.chunkSize i)
  have hblocks : (s.hist.transfers.flatMap fun t =>
      writesAt t.1 (Blocks.lo plan.base plan.chunkSize t.1) t.2).map Write.offset =
        (s.hist.transfers.map Prod.fst).flatMap block := by
    rw [List.map_flatMap, List.flatMap_map]
    refine List.flatMap_congr fun t ht => ?_
    rw [map_offset_writesAt, (transfer_block h ht).2.1, hb]
  have hend : min (base + plan.n * plan.chunkSize) total = total := by
    have := Blocks.le_count_mul hpos (total - base)
    rw [hn]
    omega
  calc (s.hist.log.map Write.offset).Perm _ := hlog.map _
    _ = (s.hist.transfers.map Prod.fst).flatMap block := hblocks
    List.Perm _ ((List.range plan.n).flatMap block) := hperm.flatMap_right _
    _ = List.range' base (total - base) := by rw [Blocks.flatMap_range' hbase, hend]

/-- Every byte of the file comes from the transfer of the chunk that its offset is in. -/
theorem write_origin (h : Complete reply base total s) {x : Write} (hx : x ∈ s.hist.log) :
    ∃ t ∈ s.hist.transfers, t.1 = x.idx ∧ x.offset < Blocks.hi base plan.chunkSize total x.idx ∧
      ∃ i, x.offset = Blocks.lo base plan.chunkSize x.idx + i ∧ t.2[i]? = some x.byte := by
  obtain ⟨hb, -, -, -, hk⟩ := chunkPlan_fits h.planned h.count
  obtain ⟨-, -, hlog⟩ := transferred h.reachable h.ret hk
  obtain ⟨t, ht, hxt⟩ := List.mem_flatMap.mp (hlog.mem_iff.mp hx)
  obtain ⟨i, hidx, hoff, hget⟩ := mem_writesAt.mp hxt
  obtain ⟨-, hlength, -⟩ := transfer_block h ht
  have hi : i < t.2.length := (List.getElem?_eq_some_iff.mp hget).1
  rw [hb] at hoff
  rw [hidx]
  exact ⟨t, ht, rfl, by omega, i, hoff, hget⟩

end

/-- A server that answers a range with the bytes of the file `F` in it. -/
def serves (F : Nat → UInt8) (start stop : Nat) (got : Bytes) : Bool :=
  got = (List.range' start (stop + 1 - start)).map F

/-- A chunked download that returns `CURLE_OK` from a server that sends what it is asked for has
handed out every chunk once, and has written every offset of `[base, total)` once, with the byte of
the remote file, and no other offset: for any number of threads that started, and in any order of
their steps. -/
theorem chunk_download_exact {base total : Nat} {F : Nat → UInt8} {s : State plan.nworkers}
    (hbase : base < total) (hplan : chunkPlan base total = some plan)
    (hcount : plan.count < 2 ^ 32) (hr : Reachable (serves F) plan s)
    (hret : s.main = .ret .ok) :
    plan.n = plan.count ∧ s.hist.handed = List.range plan.n ∧
      ∀ o, (s.hist.log.filter (·.offset = o)).map Write.byte =
        if base ≤ o ∧ o < total then [F o] else [] := by
  have hlen : ∀ start stop got, serves F start stop got = true →
      got.length = stop + 1 - start := by
    intro start stop got h
    rw [of_decide_eq_true h, List.length_map, List.length_range']
  have hcomplete : Complete (serves F) base total s := ⟨hplan, hcount, hlen, hr, hret⟩
  have hbyte : ∀ x ∈ s.hist.log, x.byte = F x.offset := by
    intro x hx
    obtain ⟨t, ht, hidx, -, i, hoff, hget⟩ := write_origin hcomplete hx
    obtain ⟨-, -, stop, -, hreply⟩ := transfer_block hcomplete ht
    rw [of_decide_eq_true hreply, hidx, List.getElem?_map, Option.map_eq_some_iff] at hget
    obtain ⟨o, ho, hF⟩ := hget
    rw [List.getElem?_range' (by simpa using (List.getElem?_eq_some_iff.mp ho).1),
      Option.some.injEq] at ho
    rw [← hF, ← ho, hoff, Nat.one_mul]
  obtain ⟨-, -, -, hn, hk⟩ := chunkPlan_fits hplan hcount
  refine ⟨?_, (transferred hr hret hk).1, fun o => ?_⟩
  · obtain ⟨-, rfl⟩ := chunkPlan_eq_some.mp hplan
    exact hn
  have hsame : (s.hist.log.filter (·.offset = o)).map Write.byte =
      List.replicate (s.hist.log.filter (·.offset = o)).length (F o) := by
    rw [List.eq_replicate_iff]
    refine ⟨List.length_map _, fun b hb => ?_⟩
    obtain ⟨x, hx, rfl⟩ := List.mem_map.mp hb
    obtain ⟨hmem, hoff⟩ := List.mem_filter.mp hx
    rw [hbyte x hmem, of_decide_eq_true hoff]
  have hcounts : (s.hist.log.filter (·.offset = o)).length =
      (List.range' base (total - base)).count o := by
    rw [← (offsets_written hbase.le hcomplete).count_eq, List.count_eq_countP,
      List.countP_map, List.countP_eq_length_filter]
    rfl
  rw [hsame, hcounts]
  by_cases ho : base ≤ o ∧ o < total
  · rw [if_pos ho, List.count_eq_one_of_mem List.nodup_range' (by
      rw [List.mem_range'_1]
      omega)]
    rfl
  · rw [if_neg ho, List.count_eq_zero_of_not_mem (by
      rw [List.mem_range'_1]
      omega)]
    rfl

/-- The plan for a file of four bytes. -/
def fourPlan : Plan :=
  { base := 0, total := 4, chunkSize := chunkMin, count := 1, n := 1, nworkers := 1 }

/-- A download of four bytes with one worker thread and the writer thread, which is slower. -/
def fourRun : List (Action 1) :=
  [.main (.flag true), .main (.flag true), .main (.code .ok), .main .go, .main (.flag true),
   .main .go, .only .go, .only .go, .only (.bytes [1, 2]), .only .go, .only .go, .only (.flag true),
   .only .go, .only .go, .writer .go, .only (.bytes [3, 4]), .only .go, .only .go,
   .only (.flag true), .writer .go, .only .go, .only .go, .only (.code .ok), .writer (.flag true),
   .only .go, .only .go, .main .go, .main .go, .main .go, .main .go, .writer (.count 1),
   .writer (.count 1), .writer .go, .writer .go, .writer .go, .writer .go, .writer (.flag true),
   .writer (.count 2), .writer .go, .writer .go, .writer .go, .main .go]

theorem chunk_download_exact_fourRun :
    ∃ s, Reachable (serves fun o => UInt8.ofNat (o + 1)) fourPlan s ∧ s.main = .ret .ok ∧
      s.hist.handed = [0] ∧ (s.hist.log.filter (·.offset = 2)).map Write.byte = [3] := by
  have hr : Reachable (serves fun o => UInt8.ofNat (o + 1)) fourPlan _ :=
    Runs.Reach.of_exec (show Runs.exec (step (serves fun o => UInt8.ofNat (o + 1)))
      (State.init fourPlan) fourRun = some _ from rfl)
  have hexact := chunk_download_exact (show 0 < 4 by decide)
    (show chunkPlan 0 4 = some fourPlan by decide) (by decide) hr rfl
  exact ⟨_, hr, rfl, hexact.2.1, hexact.2.2 2⟩

end Gurl.Chunked
