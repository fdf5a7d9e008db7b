import Gurl.Chunked.Output

/-! `tool_chunk_download`: the probe segment on one stream, and then the rest of the file on the
same stream or in parallel chunks. The server may answer a range with any number of bytes. -/

namespace Gurl.Chunked

variable {reply : Nat → Nat → Bytes → Bool} {total : Nat}

/-- What a single-stream transfer meets: whether `lseek` succeeds, the bytes that were written, and
the result of `curl_easy_perform`. -/
structure StreamAnswer where
  seek : Bool
  got : Bytes
  res : Curlcode

/-- `chunk_stream_range`: the result, and the bytes written from `start` on. -/
def chunkStreamRange (reply : Nat → Nat → Bytes → Bool) (start stop : Nat)
    (a : StreamAnswer) : Option (Curlcode × Bytes) :=
  if !a.seek then some (.writeError, [])
  else if a.res = .ok ∧ reply start stop a.got = false then none
  else some (a.res, a.got)

/-- What `tool_chunk_download` meets. `fast` is the outcome of the throughput measurement, and
`actions` is the schedule of `chunk_download` for each number of workers. -/
structure Environment where
  presized : Bool
  opened : Bool
  probe : StreamAnswer
  fast : Bool
  rest : StreamAnswer
  actions : (k : Nat) → List (Action k)

/-- What a download leaves behind: the bytes of the probe segment and of the rest of the single
stream, or the last state of `chunk_download`. -/
structure Output where
  result : Curlcode
  probeLen : Nat
  probe : Bytes
  rest : Bytes
  chunks : Option ((plan : Plan) × State plan.nworkers)

def toolChunkDownload (reply : Nat → Nat → Bytes → Bool) (total : Nat) (env : Environment) :
    Option Output :=
  let probeLen := if total < chunkProbe then total else chunkProbe
  if !(env.presized && env.opened) then
    some { result := .writeError, probeLen, probe := [], rest := [], chunks := none }
  else do
    let (res, probe) ← chunkStreamRange reply 0 (probeLen - 1) env.probe
    if res ≠ .ok then some { result := res, probeLen, probe, rest := [], chunks := none }
    else if probeLen ≥ total then
      some { result := .ok, probeLen, probe, rest := [], chunks := none }
    else if env.fast then do
      let (res, rest) ← chunkStreamRange reply probeLen (total - 1) env.rest
      some { result := res, probeLen, probe, rest, chunks := none }
    else do
      let plan ← chunkPlan probeLen total
      let s ← Runs.exec (step reply) (State.init plan) (env.actions plan.nworkers)
      match s.main with
      | .ret r => some { result := r, probeLen, probe, rest := [], chunks := some ⟨plan, s⟩ }
      | _ => none

/-- The offsets written by the parallel chunks. -/
def Output.chunkOffsets (out : Output) : List Nat :=
  out.chunks.elim [] fun c => c.2.hist.log.map Write.offset

/-- The offsets of the output file that were written. -/
def Output.offsets (out : Output) : List Nat :=
  List.range' 0 out.probe.length ++ List.range' out.probeLen out.rest.length ++ out.chunkOffsets

/-- A file that starts empty ends behind the last offset written. -/
def fileLength (offsets : List Nat) : Nat := (offsets.map (· + 1)).foldr max 0

/-- Every chunk has received exactly the bytes of its range, every byte was written inside the range
of its chunk, no offset twice, and the file has the size of the remote file. -/
structure Output.Exact (total : Nat) (out : Output) : Prop where
  delivered : ∀ c ∈ out.chunks, ∀ i < c.1.n, ∃ start stop got,
    chunkRange c.1.base c.1.chunkSize c.1.total i = some (start, stop) ∧
      c.2.hist.transfers.filter (·.1 = i) = [(i, got)] ∧ got.length = stop + 1 - start
  owned : ∀ c ∈ out.chunks, ∀ x ∈ c.2.hist.log, ∃ start stop,
    chunkRange c.1.base c.1.chunkSize c.1.total x.idx = some (start, stop) ∧
      start ≤ x.offset ∧ x.offset ≤ stop
  once : out.chunkOffsets.Nodup
  length : fileLength out.offsets = total

theorem fileLength_eq {offsets : List Nat} (h : ∀ o, o ∈ offsets ↔ o < total) :
    fileLength offsets = total := by
  have hle : ∀ offs : List Nat, (∀ o ∈ offs, o < total) → fileLength offs ≤ total := by
    intro offs hoffs
    induction offs with
    | nil => exact Nat.zero_le _
    | cons o offs ih =>
      have ho := hoffs o List.mem_cons_self
      have hrest := ih fun p hp => hoffs p (List.mem_cons_of_mem _ hp)
      exact Nat.max_le.mpr ⟨ho, hrest⟩
  have hge : ∀ offs : List Nat, ∀ o ∈ offs, o + 1 ≤ fileLength offs := by
    intro offs o ho
    induction offs with
    | nil => cases ho
    | cons p offs ih =>
      rcases List.mem_cons.mp ho with rfl | ho
      · exact Nat.le_max_left _ _
      · exact (ih ho).trans (Nat.le_max_right _ _)
  apply Nat.le_antisymm (hle offsets fun o ho => (h o).mp ho)
  cases total with
  | zero => exact Nat.zero_le _
  | succ n => exact hge offsets n ((h n).mpr (Nat.lt_succ_self n))

theorem chunkStreamRange_ok {start stop : Nat} {a : StreamAnswer} {got : Bytes}
    (h : chunkStreamRange reply start stop a = some (.ok, got)) : reply start stop got = true := by
  unfold chunkStreamRange at h
  split at h
  · cases h
  · split at h
    · cases h
    · rename_i hreply
      simp only [Option.some.injEq, Prod.mk.injEq] at h
      obtain ⟨hok, rfl⟩ := h
      simpa [hok] using hreply

/-- The ways to a `CURLE_OK`: the probe alone, a single stream, or parallel chunks. -/
inductive Finished (reply : Nat → Nat → Bytes → Bool) (total : Nat) : Output → Prop
  | whole {probe : Bytes} (hle : total ≤ chunkProbe)
      (hprobe : reply 0 (total - 1) probe = true) :
      Finished reply total ⟨.ok, total, probe, [], none⟩
  | stream {probe rest : Bytes} (hlt : chunkProbe < total)
      (hprobe : reply 0 (chunkProbe - 1) probe = true)
      (hrest : reply chunkProbe (total - 1) rest = true) :
      Finished reply total ⟨.ok, chunkProbe, probe, rest, none⟩
  | parallel {probe : Bytes} {plan : Plan} {s : State plan.nworkers}
      (hlt : chunkProbe < total) (hprobe : reply 0 (chunkProbe - 1) probe = true)
      (hplan : chunkPlan chunkProbe total = some plan) (hr : Reachable reply plan s)
      (hret : s.main = .ret .ok) :
      Finished reply total ⟨.ok, chunkProbe, probe, [], some ⟨plan, s⟩⟩

theorem toolChunkDownload_ok {env : Environment} {out : Output}
    (h : toolChunkDownload reply total env = some out) (hok : out.result = .ok) :
    Finished reply total out := by
  have hlen : (if total < chunkProbe then total else chunkProbe) = min total chunkProbe := by
    split <;> omega
  unfold toolChunkDownload at h
  simp only [hlen, Option.bind_eq_bind] at h
  split at h
  · cases h
    cases hok
  obtain ⟨⟨res, probe⟩, hprobe, h⟩ := Option.bind_eq_some_iff.mp h
  simp only at h
  split at h
  · rename_i hres
    cases h
    exact absurd hok hres
  rename_i hres
  rw [not_not.mp hres] at hprobe
  replace hprobe := chunkStreamRange_ok hprobe
  split at h
  · rename_i hall
    cases h
    rw [Nat.min_eq_left (by omega)] at hprobe ⊢
    exact .whole (by omega) hprobe
  rename_i hmore
  rw [Nat.min_eq_right (by omega)] at hprobe h
  split at h
  · obtain ⟨⟨res', rest⟩, hrest, h⟩ := Option.bind_eq_some_iff.mp h
    cases h
    rw [show res' = .ok from hok] at hrest ⊢
    exact .stream (by omega) hprobe (chunkStreamRange_ok hrest)
  · obtain ⟨plan, hplan, h⟩ := Option.bind_eq_some_iff.mp h
    obtain ⟨s, hexec, h⟩ := Option.bind_eq_some_iff.mp h
    split at h
    · rename_i r hret
      cases h
      rw [show r = .ok from hok] at hret ⊢
      exact .parallel (by omega) hprobe hplan (Runs.Reach.of_exec hexec) hret
    · cases h

/-! ### Servers that send as many bytes as they are asked for -/

section FullReplies

variable {base : Nat} {plan : Plan} {s : State plan.nworkers}

theorem delivered_of_full_replies (h : Complete reply base total s) {i : Nat} (hi : i < plan.n) :
    ∃ start stop got, chunkRange plan.base plan.chunkSize plan.total i = some (start, stop) ∧
      s.hist.transfers.filter (·.1 = i) = [(i, got)] ∧ got.length = stop + 1 - start := by
  obtain ⟨-, -, -, -, hk⟩ := chunkPlan_fits h.planned h.count
  obtain ⟨-, hperm, -⟩ := transferred h.reachable h.ret hk
  -- The indices of the transfers are a permutation of `0 .. n-1`, so `i` occurs once.
  have hone : (s.hist.transfers.filter (·.1 = i)).length = 1 := by
    have := hperm.count_eq i
    rw [List.count_eq_countP, List.countP_map, List.countP_eq_length_filter,
      List.count_eq_one_of_mem List.nodup_range (List.mem_range.mpr hi)] at this
    exact this
  obtain ⟨t, ht⟩ := List.length_eq_one_iff.mp hone
  obtain ⟨hmem, hidx⟩ := List.mem_filter.mp (ht ▸ List.mem_singleton_self t)
  obtain rfl := of_decide_eq_true hidx
  obtain ⟨start, stop, hrange, hreply⟩ := transfers_replied h.reachable t hmem
  exact ⟨start, stop, t.2, hrange, ht, h.full _ _ _ hreply⟩

theorem owned_of_full_replies (h : Complete reply base total s) {x : Write}
    (hx : x ∈ s.hist.log) :
    ∃ start stop, chunkRange plan.base plan.chunkSize plan.total x.idx = some (start, stop) ∧
      start ≤ x.offset ∧ x.offset ≤ stop := by
  obtain ⟨hb, -, -, -, -⟩ := chunkPlan_fits h.planned h.count
  obtain ⟨t, ht, hidx, -, i, hoff, hget⟩ := write_origin h hx
  obtain ⟨start, stop, hrange, hreply⟩ := transfers_replied h.reachable t ht
  have hstart := chunkRange_start hrange
  have hlength := h.full _ _ _ hreply
  have hi : i < t.2.length := (List.getElem?_eq_some_iff.mp hget).1
  rw [hidx, hb] at hstart
  rw [hidx] at hrange
  exact ⟨start, stop, hrange, by omega, by omega⟩

end FullReplies

/-- A download that returns `CURLE_OK` is exact where every transfer that returned `CURLE_OK` has
handed over as many bytes as its range has, and the count of chunks is representable. -/
theorem exact_of_full_replies {env : Environment} {out : Output} (hpos : 0 < total)
    (hsize : total ≤ splitLimit)
    (hlen : ∀ start stop got, reply start stop got = true → got.length = stop + 1 - start)
    (h : toolChunkDownload reply total env = some out) (hok : out.result = .ok) :
    out.Exact total := by
  cases toolChunkDownload_ok h hok with
  | @whole probe hle hprobe =>
    refine ⟨by simp, by simp, by simp [Output.chunkOffsets], fileLength_eq fun o => ?_⟩
    have := hlen _ _ _ hprobe
    simp only [Output.offsets, Output.chunkOffsets, Option.elim_none, List.length_nil,
      List.range'_zero, List.append_nil, List.mem_range'_1]
    omega
  | @stream probe rest hlt hprobe hrest =>
    refine ⟨by simp, by simp, by simp [Output.chunkOffsets], fileLength_eq fun o => ?_⟩
    have hp := hlen _ _ _ hprobe
    have hr := hlen _ _ _ hrest
    simp only [Output.offsets, Output.chunkOffsets, Option.elim_none, List.append_nil,
      List.mem_append, List.mem_range'_1]
    omega
  | @parallel probe plan s hlt hprobe hplan hr hret =>
    have hcount : plan.count < 2 ^ 32 := by
      obtain ⟨-, rfl⟩ := chunkPlan_eq_some.mp hplan
      exact count_lt_of_le hsize
    have hcomplete : Complete reply chunkProbe total s := ⟨hplan, hcount, hlen, hr, hret⟩
    have hoffsets := offsets_written hlt.le hcomplete
    refine ⟨?_, ?_, ?_, fileLength_eq fun o => ?_⟩
    · rintro _ ⟨⟩ i hi
      exact delivered_of_full_replies hcomplete hi
    · rintro _ ⟨⟩ x hx
      exact owned_of_full_replies hcomplete hx
    · exact hoffsets.nodup_iff.mpr List.nodup_range'
    · have hp := hlen _ _ _ hprobe
      have hmem : o ∈ s.hist.log.map Write.offset ↔ chunkProbe ≤ o ∧ o < total := by
        rw [hoffsets.mem_iff, List.mem_range'_1]
        omega
      simp only [Output.offsets, Output.chunkOffsets, Option.elim_some, List.length_nil,
        List.range'_zero, List.append_nil, List.mem_append, List.mem_range'_1, hmem]
      omega

/-- A server that answers every range with as many bytes as it has. -/
def fullReply (start stop : Nat) (got : Bytes) : Bool := got.length = stop + 1 - start

/-- A probe segment, and `fourRun` for the four bytes behind it. -/
def fourBehind (probe : Bytes) : Environment :=
  ⟨true, true, ⟨true, probe, .ok⟩, false, ⟨true, [], .ok⟩, fun | 1 => fourRun | _ => []⟩

theorem toolChunkDownload_four {probe : Bytes} (h : probe.length = chunkProbe) :
    (toolChunkDownload fullReply (chunkProbe + 4) (fourBehind probe)).map
      (fun out => (out.result, out.chunkOffsets)) = some (.ok, List.range' chunkProbe 4) := by
  have hprobe : chunkStreamRange fullReply 0 (chunkProbe - 1) ⟨true, probe, .ok⟩ =
      some (.ok, probe) := by
    simp [chunkStreamRange, fullReply, h, chunkProbe]
  have hle : ¬ chunkProbe + 4 < chunkProbe := by decide
  simp only [toolChunkDownload, fourBehind, hle, if_false, hprobe]
  rfl

/-- Four bytes behind the probe arrive as a chunk, one byte from each worker. -/
theorem exact_of_full_replies_four :
    ∃ out, toolChunkDownload fullReply (chunkProbe + 4)
        (fourBehind (List.replicate chunkProbe 0)) = some out ∧
      out.chunkOffsets = List.range' chunkProbe 4 ∧ out.Exact (chunkProbe + 4) := by
  obtain ⟨out, hout, heq⟩ :=
    Option.map_eq_some_iff.mp (toolChunkDownload_four (List.length_replicate (a := (0 : UInt8))))
  obtain ⟨hok, hoffsets⟩ := Prod.mk.inj heq
  exact ⟨out, hout, hoffsets, exact_of_full_replies (by decide) (by decide)
    (fun _ _ _ h => of_decide_eq_true h) hout hok⟩

/-- A schedule without threads in which every range is answered with an empty body. -/
def emptyReplies : (k : Nat) → List (Action k)
  | 0 => []
  | k + 1 =>
    [.main (.flag true), .main (.flag false)] ++ List.replicate (k + 1) (.main (.code .ok)) ++
      [.main .go] ++ List.replicate (k + 1) (.main (.flag false)) ++ [.main .go] ++
      (List.replicate 16 [.worker 0 .go, .worker 0 .go, .worker 0 (.code .ok)]).flatten ++
      [.worker 0 .go, .worker 0 .go] ++ List.replicate (k + 4) (.main .go)

/-- A server that answers every range of a file of `2^30 + 1` bytes with an empty body makes
`tool_chunk_download` return `CURLE_OK` with an empty file. -/
theorem empty_replies_accepted :
    ∃ out, toolChunkDownload (fun _ _ _ => true) (2 ^ 30 + 1)
        ⟨true, true, ⟨true, [], .ok⟩, false, ⟨true, [], .ok⟩, emptyReplies⟩ = some out ∧
      out.result = .ok ∧ fileLength out.offsets = 0 ∧ ¬ out.Exact (2 ^ 30 + 1) := by
  refine ⟨_, rfl, rfl, rfl, fun hexact => ?_⟩
  have hlength := hexact.length
  cases hlength

end Gurl.Chunked
