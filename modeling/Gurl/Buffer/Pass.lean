import Gurl.Buffer.Calls

/-! `Curl_bufq_pass` and `Curl_bufq_write_pass`: the bytes of a queue on their way to a writer. -/

namespace Gurl.Buffer

open LinkedHeap

/-- What a writer returns: its result and `*pwritten`. -/
structure Written where
  result : Curlcode
  nwritten : Nat

/-- `Curl_bufq_writer`, with the number of calls before: it takes no more than it is given. -/
structure Writer where
  reply : Nat → Bytes → Written
  bounded : ∀ call buf, (reply call buf).nwritten ≤ buf.length

/-- The calls of the writer, with what it was given. -/
abbrev Log := List (Bytes × Written)

/-- The loop of `Curl_bufq_pass`: the result and the number of bytes written. -/
def passLoop (writer : Writer) : Nat → State → Nat → Log → Option (State × Curlcode × Nat × Log)
  | 0, _, _, _ => none
  | fuel + 1, s, nwritten, log => do
    match ← bufqPeek s with
    | (s, none) => some (s, .ok, nwritten, log)
    | (s, some buf) =>
      let reply := writer.reply log.length buf
      let log := log ++ [(buf, reply)]
      if reply.result ≠ .ok then
        -- blocked behind a successful write is a success
        some (s, if reply.result = .again ∧ nwritten ≠ 0 then .ok else reply.result, nwritten, log)
      else if reply.nwritten = 0 then some (s, if nwritten = 0 then .again else .ok, nwritten, log)
      else do
        let s ← bufqSkip s reply.nwritten
        passLoop writer fuel s (nwritten + reply.nwritten) log

/-- `Curl_bufq_pass`, after the calls in the log; each round but the last takes a byte. -/
def bufqPass (s : State) (writer : Writer) (log : Log) :
    Option (State × Curlcode × Nat × Log) := do
  let len ← bufqLen s
  passLoop writer (len + 1) s 0 log

/-- The first step of a round of `Curl_bufq_write_pass`. -/
def makeRoom (s : State) (writer : Writer) (log : Log) : Option (State × Curlcode × Log) := do
  if ← bufqIsFull s then
    let (s, result, _, log) ← bufqPass s writer log
    some (s, result, log)
  else some (s, .ok, log)

/-- The loop of `Curl_bufq_write_pass`. -/
def writePassLoop (writer : Writer) :
    Nat → State → Bytes → Nat → Log → Option (State × Curlcode × Nat × Log)
  | 0, _, _, _, _ => none
  | fuel + 1, s, buf, nwritten, log =>
    let blocked := if nwritten = 0 ∧ buf ≠ [] then Curlcode.again else .ok
    if buf = [] then some (s, blocked, nwritten, log)
    else do
      let (s, result, log) ← makeRoom s writer log
      if result = .again then some (s, blocked, nwritten, log)
      else if result ≠ .ok then some (s, result, nwritten, log)
      else do
        let (s, result, n) ← bufqWrite s buf
        if result = .again then some (s, if nwritten = 0 then .again else .ok, nwritten, log)
        else if result ≠ .ok then some (s, result, nwritten, log)
        else if n = 0 then some (s, blocked, nwritten, log)
        else writePassLoop writer fuel s (buf.drop n) (nwritten + n) log

/-- `Curl_bufq_write_pass`. -/
def bufqWritePass (s : State) (buf : Bytes) (writer : Writer) :
    Option (State × Curlcode × Nat × Log) :=
  writePassLoop writer (buf.length + 1) s buf 0 []

/-- The bytes that a call of the writer has taken. -/
def taken : Bytes × Written → Bytes
  | (buf, reply) => if reply.result = .ok then buf.take reply.nwritten else []

/-- The bytes that the writer has taken. -/
def accepted (log : Log) : Bytes := log.flatMap taken

/-- The calls are the writer's, in their order. -/
def FromWriter (writer : Writer) (log : Log) : Prop :=
  ∀ k buf reply, log[k]? = some (buf, reply) → reply = writer.reply k buf

/-- No call has failed for good. -/
def Soft (log : Log) : Prop := ∀ e ∈ log, e.2.result = .ok ∨ e.2.result = .again

variable {s : State} {xs buf : Bytes} {writer : Writer} {log : Log} {fuel : Nat}

variable (buf) in
theorem FromWriter.concat (h : FromWriter writer log) :
    FromWriter writer (log ++ [(buf, writer.reply log.length buf)]) := by
  intro k buf' reply hk
  rcases Nat.lt_or_ge k log.length with hlt | hge
  · rw [List.getElem?_append_left hlt] at hk
    exact h k buf' reply hk
  · rw [List.getElem?_append_right hge] at hk
    obtain ⟨hk0, rfl, rfl⟩ : k - log.length = 0 ∧ buf = buf' ∧
        writer.reply log.length buf = reply := by
      simpa [List.getElem?_singleton] using hk
    rw [show k = log.length by omega]

theorem accepted_append (log more : Log) :
    accepted (log ++ more) = accepted log ++ accepted more := List.flatMap_append

/-- What passing bytes on leaves: the writer's `more` calls and the bytes still in the queue. -/
structure Passed (writer : Writer) (xs : Bytes) (log : Log) (nwritten : Nat) (s' : State)
    (res : Curlcode) (n : Nat) (more : Log) : Prop where
  rest : ∃ ys, Rep s' ys ∧ accepted more ++ ys = xs
  count : n = nwritten + (accepted more).length
  calls : FromWriter writer (log ++ more)
  again : res = .again → n = 0
  soft : res = .ok ∨ res = .again → Soft more

theorem passLoop_spec (nwritten : Nat) (hrep : Rep s xs) (hcalls : FromWriter writer log)
    (hfuel : xs.length < fuel) :
    ∃ s' res n more, passLoop writer fuel s nwritten log = some (s', res, n, log ++ more) ∧
      Passed writer xs log nwritten s' res n more := by
  induction fuel generalizing s xs nwritten log with
  | zero => omega
  | succ fuel ih =>
    obtain ⟨s1, shown, hpeek, hshows, hrep1⟩ := bufqPeek_spec hrep
    unfold passLoop
    rw [hpeek]
    cases shown with
    | none =>
      refine ⟨s1, .ok, nwritten, [], by simp, ⟨xs, hrep1, rfl⟩, rfl, by simpa using hcalls, nofun,
        nofun⟩
    | some buf =>
      obtain ⟨hne, hprefix⟩ := hshows
      have hcalls1 := hcalls.concat buf
      have hbound := writer.bounded log.length buf
      dsimp only [Option.bind_eq_bind, Option.bind_some]
      generalize writer.reply log.length buf = reply at hcalls1 hbound ⊢
      by_cases hres : reply.result = .ok
      · rw [if_neg (not_not.mpr hres)]
        by_cases hzero : reply.nwritten = 0
        · -- the writer takes nothing: as if it were blocked
          have htaken : accepted [(buf, reply)] = [] := by simp [accepted, taken, hzero]
          rw [if_pos hzero]
          refine ⟨s1, _, nwritten, [(buf, reply)], rfl, ⟨xs, hrep1, ?_⟩, ?_, hcalls1, ?_, ?_⟩
          · rw [htaken, List.nil_append]
          · rw [htaken, List.length_nil, Nat.add_zero]
          · intro hagain
            split at hagain
            · assumption
            · cases hagain
          · intro _ e he
            rw [List.mem_singleton.mp he]
            exact .inl hres
        · rw [if_neg hzero]
          obtain ⟨s2, hskip, hrep2⟩ := bufqSkip_spec reply.nwritten hrep1
          have hxs : xs.take reply.nwritten = buf.take reply.nwritten := by
            obtain ⟨rest, rfl⟩ := hprefix
            rw [List.take_append_of_le_length hbound]
          have htaken : accepted [(buf, reply)] = buf.take reply.nwritten := by
            simp [accepted, taken, hres]
          have hlen : reply.nwritten ≤ xs.length := hbound.trans hprefix.length_le
          have hless : (xs.drop reply.nwritten).length < fuel := by
            rw [List.length_drop]
            omega
          obtain ⟨s', res, n, more, hloop, hpassed⟩ :=
            ih (nwritten + reply.nwritten) hrep2 hcalls1 hless
          refine ⟨s', res, n, (buf, reply) :: more, ?_, ?_, ?_, ?_, hpassed.again, ?_⟩
          · rw [hskip]
            simpa using hloop
          · obtain ⟨ys, hys, hrest⟩ := hpassed.rest
            refine ⟨ys, hys, ?_⟩
            rw [← List.singleton_append, accepted_append, htaken, List.append_assoc, hrest, ← hxs,
              List.take_append_drop]
          · rw [hpassed.count, ← List.singleton_append, accepted_append, htaken,
              List.length_append, List.length_take, Nat.min_eq_left hbound, Nat.add_assoc]
          · simpa using hpassed.calls
          · intro hok e he
            rcases List.mem_cons.mp he with rfl | he
            · exact .inl hres
            · exact hpassed.soft hok e he
      · -- the writer fails, or it blocks
        have htaken : accepted [(buf, reply)] = [] := by simp [accepted, taken, hres]
        rw [if_pos hres]
        refine ⟨s1, _, nwritten, [(buf, reply)], rfl, ⟨xs, hrep1, ?_⟩, ?_, hcalls1, ?_, ?_⟩
        · rw [htaken, List.nil_append]
        · rw [htaken, List.length_nil, Nat.add_zero]
        · intro hagain
          by_contra hsome
          split at hagain
          · cases hagain
          · rename_i hneither
            exact hneither ⟨hagain, hsome⟩
        · intro hok e he
          rw [List.mem_singleton.mp he]
          split at hok
          · rename_i hblocked
            exact .inr hblocked.1
          · exact hok

theorem bufqPass_spec (hrep : Rep s xs) (hcalls : FromWriter writer log) :
    ∃ s' res n more, bufqPass s writer log = some (s', res, n, log ++ more) ∧
      Passed writer xs log 0 s' res n more := by
  obtain ⟨s', res, n, more, hloop, hpassed⟩ :=
    passLoop_spec 0 hrep hcalls (Nat.lt_succ_self xs.length)
  refine ⟨s', res, n, more, ?_, hpassed⟩
  rw [bufqPass, bufqLen_spec hrep]
  exact hloop

/-- What writing and passing leaves: of `buf` the first `n` bytes are counted and `k` have gone
into the queue, where these differ only by the allocation that failed. -/
structure WritePassed (writer : Writer) (xs buf : Bytes) (log : Log) (nwritten : Nat)
    (s' : State) (res : Curlcode) (n : Nat) (more : Log) : Prop where
  rest : ∃ k ys, n ≤ k ∧ k ≤ buf.length ∧ Rep s' ys ∧ accepted more ++ ys = xs ++ buf.take k ∧
    (k ≠ n → res = .outOfMemory ∧ Soft more)
  calls : FromWriter writer (log ++ more)
  again : res = .again → nwritten + n = 0

/-- Making room: nothing happens, or the queue is passed on. -/
theorem makeRoom_spec (hrep : Rep s xs) (hcalls : FromWriter writer log) :
    ∃ s' res more ys, makeRoom s writer log = some (s', res, log ++ more) ∧ Rep s' ys ∧
      accepted more ++ ys = xs ∧ FromWriter writer (log ++ more) ∧
      (res = .ok ∨ res = .again → Soft more) := by
  obtain ⟨full, hfull⟩ := bufqIsFull_spec hrep
  unfold makeRoom
  rw [hfull]
  cases full with
  | false => exact ⟨s, .ok, [], xs, by simp, hrep, rfl, by simpa using hcalls, nofun⟩
  | true =>
    obtain ⟨s', res, n, more, hpass, hpassed⟩ := bufqPass_spec hrep hcalls
    obtain ⟨ys, hys, hrest⟩ := hpassed.rest
    refine ⟨s', res, more, ys, ?_, hys, hrest, hpassed.calls, hpassed.soft⟩
    simp [hpass]

theorem writePassLoop_spec (nwritten : Nat) (hrep : Rep s xs) (hcalls : FromWriter writer log)
    (hfuel : buf.length < fuel) :
    ∃ s' res n more,
      writePassLoop writer fuel s buf nwritten log = some (s', res, nwritten + n, log ++ more) ∧
        WritePassed writer xs buf log nwritten s' res n more := by
  induction fuel generalizing s xs buf nwritten log with
  | zero => omega
  | succ fuel ih =>
    unfold writePassLoop
    dsimp only
    by_cases hbuf : buf = []
    · rw [if_pos hbuf]
      refine ⟨s, _, 0, [], by rw [List.append_nil, Nat.add_zero], ⟨⟨0, xs, le_refl _,
        Nat.zero_le _, hrep, by simp [accepted], ?_⟩, by simpa using hcalls, ?_⟩⟩
      · exact fun hne => absurd rfl hne
      · intro hagain
        split at hagain
        · rename_i hboth
          exact hboth.1
        · cases hagain
    rw [if_neg hbuf]
    obtain ⟨s1, res1, more1, ys1, hroom, hrep1, hrest1, hcalls1, hsoft1⟩ :=
      makeRoom_spec hrep hcalls
    -- what a stop before the next write leaves
    have hstop (res : Curlcode) (hagain : res = .again → nwritten = 0) :
        WritePassed writer xs buf log nwritten s1 res 0 more1 :=
      ⟨⟨0, ys1, le_refl _, Nat.zero_le _, hrep1, by simpa using hrest1, fun hne => absurd rfl hne⟩,
        hcalls1, hagain⟩
    have hblocked : (if nwritten = 0 ∧ buf ≠ [] then Curlcode.again else .ok) = .again →
        nwritten = 0 := by
      intro hagain
      split at hagain
      · rename_i hboth
        exact hboth.1
      · cases hagain
    rw [hroom]
    simp only [Option.bind_eq_bind, Option.bind_some]
    by_cases hagain1 : res1 = .again
    · rw [if_pos hagain1]
      exact ⟨s1, _, 0, more1, rfl, hstop _ hblocked⟩
    rw [if_neg hagain1]
    by_cases hok1 : res1 = .ok
    · rw [if_neg (not_not.mpr hok1)]
      obtain ⟨s2, res2, n, hwrite, hle, hrep2, hres2, -⟩ := bufqWrite_spec buf hrep1
      -- the queue has the first `n` bytes now
      have hqueued : accepted more1 ++ (ys1 ++ buf.take n) = xs ++ buf.take n := by
        rw [← List.append_assoc, hrest1]
      rw [hwrite, Option.bind_some]
      dsimp only
      by_cases hagain2 : res2 = .again
      · have hn : n = 0 := by
          rcases hres2 with hmem | hresult
          · rw [hmem] at hagain2
            cases hagain2
          · rw [hagain2, writeResult] at hresult
            split at hresult
            · rename_i hboth
              exact hboth.1
            · cases hresult
        subst hn
        rw [if_pos hagain2]
        refine ⟨s2, _, 0, more1, rfl, ⟨0, _, le_refl _, Nat.zero_le _, hrep2, hqueued,
          fun hne => absurd rfl hne⟩, hcalls1, fun hagain => ?_⟩
        split at hagain
        · assumption
        · cases hagain
      rw [if_neg hagain2]
      by_cases hok2 : res2 = .ok
      · rw [if_neg (not_not.mpr hok2)]
        by_cases hn : n = 0
        · subst hn
          rw [if_pos rfl]
          exact ⟨s2, _, 0, more1, rfl, ⟨0, _, le_refl _, Nat.zero_le _, hrep2, hqueued,
            fun hne => absurd rfl hne⟩, hcalls1, hblocked⟩
        rw [if_neg hn]
        have hless : (buf.drop n).length < fuel := by
          rw [List.length_drop]
          omega
        obtain ⟨s', res, m, more, hloop, ⟨k, ys, hmk, hk, hys, hrest, hcount⟩, hcalls', hagain⟩ :=
          ih (nwritten + n) hrep2 hcalls1 hless
        refine ⟨s', res, n + m, more1 ++ more, ?_, ⟨n + k, ys, by omega, ?_, hys, ?_, ?_⟩, ?_, ?_⟩
        · rw [hloop, List.append_assoc, Nat.add_assoc]
        · rw [List.length_drop] at hk
          omega
        · rw [accepted_append, List.append_assoc, hrest, ← List.append_assoc, hqueued,
            List.append_assoc, List.take_add]
        · intro hne
          obtain ⟨hres, hsoft⟩ := hcount (by omega)
          refine ⟨hres, fun e he => ?_⟩
          rcases List.mem_append.mp he with he | he
          · exact hsoft1 (.inl hok1) e he
          · exact hsoft e he
        · rwa [← List.append_assoc]
        · rwa [← Nat.add_assoc]
      · -- an allocation of the queue has failed
        have hmem : res2 = .outOfMemory := by
          rcases hres2 with hmem | hresult
          · exact hmem
          · rw [writeResult] at hresult
            split at hresult
            · exact absurd hresult hagain2
            · exact absurd hresult hok2
        rw [if_pos hok2]
        exact ⟨s2, res2, 0, more1, rfl, ⟨n, _, Nat.zero_le _, hle, hrep2, hqueued,
          fun _ => ⟨hmem, hsoft1 (.inl hok1)⟩⟩, hcalls1, fun hagain => absurd hagain hagain2⟩
    · rw [if_pos hok1]
      exact ⟨s1, res1, 0, more1, rfl, hstop _ fun hagain => absurd hagain hagain1⟩

/-- Both calls end, and every byte of the queue and of the buffer is with the writer or in the
queue. Only where an allocation of the queue fails may more of the buffer have gone into it than was
counted. -/
theorem pass_conserves (s : State) (xs buf : Bytes) (writer : Writer) (hrep : Rep s xs) :
    (∃ s' res n log ys, bufqPass s writer [] = some (s', res, n, log) ∧ Rep s' ys ∧
      accepted log ++ ys = xs ∧ n = (accepted log).length ∧ FromWriter writer log ∧
      (res = .again → n = 0)) ∧
    ∃ s' res n log k ys, bufqWritePass s buf writer = some (s', res, n, log) ∧ Rep s' ys ∧
      n ≤ k ∧ k ≤ buf.length ∧ accepted log ++ ys = xs ++ buf.take k ∧
      (k ≠ n → res = .outOfMemory ∧ Soft log) ∧ FromWriter writer log ∧ (res = .again → n = 0) := by
  have hnone : FromWriter writer [] := nofun
  constructor
  · obtain ⟨s', res, n, log, hpass, ⟨ys, hys, hrest⟩, hcount, hcalls, hagain, -⟩ :=
      bufqPass_spec hrep hnone
    rw [Nat.zero_add] at hcount
    exact ⟨s', res, n, log, ys, hpass, hys, hrest, hcount, hcalls, hagain⟩
  · obtain ⟨s', res, n, log, hloop, ⟨k, ys, hn, hk, hys, hrest, hcount⟩, hcalls, hagain⟩ :=
      writePassLoop_spec 0 hrep hnone (Nat.lt_succ_self buf.length)
    rw [Nat.zero_add] at hloop hagain
    exact ⟨s', res, n, log, k, ys, hloop, hys, hn, hk, hrest, hcount, hcalls, hagain⟩

/-- A writer that takes one byte at every other call and blocks in between. -/
def halting : Writer where
  reply call buf := if call % 2 = 0 then ⟨.ok, min 1 buf.length⟩ else ⟨.again, 0⟩
  bounded call buf := by split <;> simp

/-- A queue with one byte, and memory for one more chunk. -/
theorem pass_conserves_sample :
    ∃ s, bufqWrite { bufqInit2 .empty 2 2 false false with mallocs := 2 } [7] =
        some (s, .ok, 1) ∧ s.mallocs = 1 ∧
      (∃ s' res n log ys, bufqPass s halting [] = some (s', res, n, log) ∧ Rep s' ys ∧
        accepted log ++ ys = [7]) ∧
      ∃ s' res n log k ys, bufqWritePass s [1, 2, 3] halting = some (s', res, n, log) ∧
        Rep s' ys ∧ n ≤ k ∧ accepted log ++ ys = [7] ++ [1, 2, 3].take k := by
  have hnew := @rep_init .empty none 2 2 false false (by decide)
    ⟨[], rfl, List.nodup_nil, fun _ hp => by cases hp⟩
  obtain ⟨s, res, n, hwrite, -, hs, -⟩ := bufqWrite_spec [7] (hnew.withMallocs 2)
  have hdone : (some (s, res, n)).map (fun r => (r.2.1, r.2.2, r.1.mallocs)) = some (.ok, 1, 1) :=
    (congrArg (Option.map _) hwrite).symm.trans (by decide)
  obtain ⟨rfl, rfl, hone⟩ : res = .ok ∧ n = 1 ∧ s.mallocs = 1 := by simpa using hdone
  obtain ⟨⟨s', res, n, log, ys, hpass, hys, hrest, -⟩,
      s'', res', n', log', k, ys', hpass', hys', hn, -, hrest', -⟩ :=
    pass_conserves s [7] [1, 2, 3] halting hs
  exact ⟨s, hwrite, hone, ⟨s', res, n, log, ys, hpass, hys, hrest⟩,
    s'', res', n', log', k, ys', hpass', hys', hn, hrest'⟩

/-- One chunk can be allocated, and it is full behind the first two bytes. -/
theorem write_pass_uncounted :
    (bufqWritePass { bufqInit2 .empty 2 2 false false with mallocs := 1 } [1, 2, 3] halting).map
      (fun r => (r.2.1, r.2.2.1, bufqLen r.1)) = some (.outOfMemory, 0, some 2) := by
  decide +kernel

end Gurl.Buffer
