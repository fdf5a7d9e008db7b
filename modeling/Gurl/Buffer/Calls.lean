import Gurl.Buffer.Filling
import Gurl.Lib.Refine

/-! The calls of a queue, all of them together: the queue behaves as a list of bytes. -/

namespace Gurl.Buffer

open LinkedHeap

variable {s s' : State} {qs ss pp : List Ptr} {xs : Bytes} {fuel : Nat}

/-! ### Emptying the queue -/

/-- The loop does not look at the tail, which is wrong once the last chunk has gone. -/
theorem resetLoop_spec (tail : Option Ptr) (hl : Layout s [] qs ss pp) (hfuel : qs.length < fuel) :
    ∃ s', resetLoop fuel { s with q := { s.q with tail } } = some s' ∧ Rep s' [] ∧
      s'.q.options = s.q.options := by
  induction qs generalizing s ss fuel with
  | nil =>
    obtain ⟨fuel, rfl⟩ : ∃ k, fuel = k + 1 := ⟨fuel - 1, by omega⟩
    have hhead : s.q.head = none := hl.head.start_eq
    refine ⟨{ s with q := { s.q with tail := none } }, ?_, ⟨[], ss, pp, ?_, .nil _, rfl⟩, rfl⟩
    · rw [resetLoop]
      simp [hhead]
    · exact ⟨hl.size, hl.head, rfl, hl.spare, hl.pool, hl.nodup, hl.sound, hl.count⟩
  | cons p qs ih =>
    obtain ⟨fuel, rfl⟩ : ∃ k, fuel = k + 1 := ⟨fuel - 1, by omega⟩
    have hhead : s.q.head = some p := hl.head.start_eq
    obtain ⟨c, hc, hsound⟩ := hl.sound p (by simp)
    have hset := (hl.unlinkHead hc).setDetached (c := { c with next := s.q.spare })
      ⟨hsound.dlen, hsound.data, hsound.read, hsound.write, hsound.start⟩
    have hmoved := hset.toSpare (Heap.get_set_self hc) rfl
    obtain ⟨s', hloop, hrep⟩ := ih hmoved (by simpa using hfuel : qs.length < fuel)
    refine ⟨s', ?_, hrep⟩
    rw [← hloop, resetLoop]
    simp [hhead, hc, State.unlinkHead, State.setChunk]

theorem bufqReset_spec (hrep : Rep s xs) :
    ∃ s', bufqReset s = some s' ∧ Rep s' [] ∧ s'.q.options = s.q.options := by
  obtain ⟨qs, ss, pp, hh⟩ := hrep
  exact resetLoop_spec s.q.tail hh.layout hh.layout.length_lt_fuel

/-! ### Calls and answers -/

/-- The calls that use a queue. -/
inductive Call where
  | write (buf : Bytes)
  | read (len : Nat)
  | peek
  | peekAt (offset : Nat)
  | skip (amount : Nat)
  | sipn (maxLen : Nat) (reader : Reader)
  | slurp (reader : Reader)
  | reset

/-- What a call returns. -/
inductive Answer where
  | wrote (result : Curlcode) (nwritten : Nat)
  | read (result : Curlcode) (bytes : Bytes)
  | shown (bytes : Option Bytes)
  | sipped (result : Curlcode) (reply : Option Reply)
  | slurped (result : Curlcode) (nread : Nat) (replies : List Reply)
  | done

/-- Make a call. The first component is the number of allocations that succeed during it. -/
def call (s : State) : Nat × Call → Option (State × Answer)
  | (mallocs, c) =>
    let s := { s with mallocs }
    match c with
    | .write buf => (bufqWrite s buf).map fun (s, result, n) => (s, .wrote result n)
    | .read len => (bufqRead s len).map fun (s, result, bytes) => (s, .read result bytes)
    | .peek => (bufqPeek s).map fun (s, shown) => (s, .shown shown)
    | .peekAt offset => (bufqPeekAt s offset).map fun shown => (s, .shown shown)
    | .skip amount => (bufqSkip s amount).map fun s => (s, .done)
    | .sipn maxLen reader =>
      (bufqSipn s maxLen (reader.reply 0)).map fun (s, result, reply) => (s, .sipped result reply)
    | .slurp reader =>
      (bufqSlurp s reader).map fun (s, result, nread, replies) => (s, .slurped result nread replies)
    | .reset => (bufqReset s).map fun s => (s, .done)

/-- What a list of bytes, in a queue with the limits of `q`, answers to a call, and the list
afterwards. -/
def Fifo (q : Bufq) (xs : Bytes) : Nat × Call → Answer → Bytes → Prop
  | (mallocs, .write buf), .wrote result n, ys =>
    n ≤ buf.length ∧ ys = xs ++ buf.take n ∧
      (result = .outOfMemory ∨ result = writeResult n (buf.drop n)) ∧
      Takes q mallocs buf ys n result
  | (_, .read len), .read result bytes, ys =>
    bytes = xs.take len ∧ ys = xs.drop len ∧ result = if bytes = [] then .again else .ok
  | (_, .peek), .shown bytes, ys => Shows xs bytes ∧ ys = xs
  | (_, .peekAt offset), .shown bytes, ys => Shows (xs.drop offset) bytes ∧ ys = xs
  | (_, .skip amount), .done, ys => ys = xs.drop amount
  | (mallocs, .sipn maxLen reader), .sipped result reply, ys =>
    ys = xs ++ addedBy reply ∧
      (∀ r, reply = some r → result = r.result ∧
        ∃ len, Asked q maxLen len ∧ r = reader.reply 0 len) ∧
      (reply = none → Refused q mallocs 0 xs result)
  | (mallocs, .slurp reader), .slurped result nread replies, ys =>
    ys = xs ++ addedByAll replies ∧ nread = (addedByAll replies).length ∧
      FromReader reader replies ∧
      ∃ last, result = slurpResult nread last ∧ Ends q mallocs nread ys replies last
  | (_, .reset), .done, ys => ys = []
  | _, _, _ => False

theorem Rep.withMallocs (hrep : Rep s xs) (mallocs : Nat) : Rep { s with mallocs } xs := by
  obtain ⟨qs, ss, pp, hh⟩ := hrep
  exact ⟨qs, ss, pp, ⟨hh.layout.size, hh.layout.head, hh.layout.tail, hh.layout.spare,
    hh.layout.pool, hh.layout.nodup, hh.layout.sound, hh.layout.count⟩, hh.filled, hh.bytes⟩

/-- The queue holds the bytes `xs`, and its limits are those of `q`. -/
structure Limited (q : Bufq) (s : State) (xs : Bytes) : Prop where
  rep : Rep s xs
  options : s.q.options = q.options

/-- Every call answers as a list of bytes does. -/
theorem call_fifo {q : Bufq} (mallocs : Nat) (c : Call) (h : Limited q s xs) :
    ∃ s' answer ys, call s (mallocs, c) = some (s', answer) ∧ Fifo q xs (mallocs, c) answer ys ∧
      Limited q s' ys := by
  obtain ⟨hrep, hoptions⟩ := h
  replace hrep := hrep.withMallocs mallocs
  obtain ⟨hmallocs, hoptions⟩ : { s with mallocs }.mallocs = mallocs ∧
      { s with mallocs }.q.options = q.options := ⟨rfl, hoptions⟩
  unfold call
  dsimp only
  generalize { s with mallocs } = s at hrep hoptions hmallocs
  subst hmallocs
  have hspent {chunks n : Nat} (h : Spent s.q chunks n) : Spent q chunks n :=
    h.of_options hoptions.symm
  cases c with
  | write buf =>
    obtain ⟨s', res, n, hwrite, hle, hrep, hres, hmem, hall⟩ := bufqWrite_spec buf hrep
    exact ⟨s', .wrote res n, xs ++ buf.take n, by simp [hwrite],
      ⟨hle, rfl, hres, fun h => ⟨(hmem h).1, hspent (hmem h).2⟩,
        fun h => (hall h).imp id fun hfull => hfull.of_options hoptions.symm⟩,
      hrep, (bufqWrite_options hwrite).trans hoptions⟩
  | read len =>
    obtain ⟨s', hread, hrep⟩ := bufqRead_spec len hrep
    exact ⟨s', .read _ (xs.take len), xs.drop len, by simp only [hread, Option.map_some],
      ⟨rfl, rfl, rfl⟩, hrep, (bufqRead_options hread).trans hoptions⟩
  | peek =>
    obtain ⟨s', shown, hpeek, hshows, hrep⟩ := bufqPeek_spec hrep
    exact ⟨s', .shown shown, xs, by simp [hpeek], ⟨hshows, rfl⟩, hrep,
      (bufqPeek_options hpeek).trans hoptions⟩
  | peekAt offset =>
    obtain ⟨shown, hpeek, hshows⟩ := bufqPeekAt_spec offset hrep
    exact ⟨s, .shown shown, xs, by simp [hpeek], ⟨hshows, rfl⟩, hrep, hoptions⟩
  | skip amount =>
    obtain ⟨s', hskip, hrep⟩ := bufqSkip_spec amount hrep
    exact ⟨s', .done, xs.drop amount, by simp [hskip], rfl, hrep,
      (bufqSkip_options hskip).trans hoptions⟩
  | sipn maxLen reader =>
    obtain ⟨qs, ss, pp, hh⟩ := hrep
    obtain ⟨s', res, reply, qs', ss', pp', hsip, hs⟩ := bufqSipn_spec hh maxLen (reader.bounded 0)
    refine ⟨s', .sipped res reply, xs ++ addedBy reply, by simp [hsip], ⟨rfl, fun r hr => ?_,
      fun hnone => ?_⟩, ⟨qs', ss', pp', hs.holds⟩, (sipn_options hsip).trans hoptions⟩
    · obtain ⟨hres, len, ⟨hpos, hle, hwant⟩, hreply⟩ := hs.called r hr
      exact ⟨hres, len, ⟨hpos, hle.trans_eq (congrArg (fun o => o.2.1) hoptions), hwant⟩, hreply⟩
    · exact (hs.refused hnone).imp hoptions.symm fun h =>
        hspent (h.mono (mallocs_le_supply s ss pp))
  | slurp reader =>
    obtain ⟨s', res, last, replies, hslurp, hrep, hoptions', hfrom, hres, hends⟩ :=
      bufqSlurp_spec reader hrep
    exact ⟨s', .slurped res _ replies, xs ++ addedByAll replies,
      by simp only [hslurp, Option.map_some],
      ⟨rfl, rfl, hfrom, last, hres, hends.imp id fun h => h.imp hoptions.symm hspent⟩,
      hrep, hoptions'.trans hoptions⟩
  | reset =>
    obtain ⟨s', hreset, hrep, hoptions'⟩ := bufqReset_spec hrep
    exact ⟨s', .done, [], by simp [hreset], rfl, hrep, hoptions'.trans hoptions⟩

/-- The pool, if there is one, has a list of sound chunks of the given size. -/
def PoolReady (heap : Heap BufChunk) (size : Nat) (pool : Option BufcPool) : Prop :=
  ∃ pp, PoolChain heap size pool pp ∧ pp.Nodup ∧
    ∀ p ∈ pp, ∃ c, heap.get p = some c ∧ c.Sound size

theorem rep_init {heap : Heap BufChunk} {pool : Option BufcPool} {chunkSize : Nat}
    (maxChunks : Nat) (softLimit noSpares : Bool) (hsize : 0 < chunkSize)
    (hpool : PoolReady heap chunkSize pool) :
    Rep (bufqInit heap pool chunkSize maxChunks softLimit noSpares) [] := by
  obtain ⟨pp, hchain, hnodup, hsound⟩ := hpool
  exact ⟨[], [], pp, ⟨hsize, .nil _, rfl, .nil _, hchain, hnodup, hsound, rfl⟩,
    .nil _, rfl⟩

/-- A queue answers every list of calls as a list of bytes does, and its chunks stay in place. -/
theorem bufq_refines_fifo {heap : Heap BufChunk} {pool : Option BufcPool} {chunkSize : Nat}
    (maxChunks : Nat) (softLimit noSpares : Bool) (hsize : 0 < chunkSize)
    (hpool : PoolReady heap chunkSize pool) (calls : List (Nat × Call)) :
    ∃ s answers xs,
      Refine.calls call (bufqInit heap pool chunkSize maxChunks softLimit noSpares) calls =
        some (s, answers) ∧
      Refine.Allows (Fifo (bufqInit heap pool chunkSize maxChunks softLimit noSpares).q) [] calls
        answers xs ∧
      Rep s xs ∧ bufqLen s = some xs.length ∧ bufqIsEmpty s = some (decide (xs = [])) := by
  have hinit : Limited (bufqInit heap pool chunkSize maxChunks softLimit noSpares).q _ [] :=
    ⟨rep_init maxChunks softLimit noSpares hsize hpool, rfl⟩
  obtain ⟨s, answers, xs, hcalls, hallows, hrep, -⟩ :=
    Refine.calls_allowed (R := Limited _) (fun (mallocs, c) => call_fifo mallocs c) hinit calls
  exact ⟨s, answers, xs, hcalls, hallows, hrep, bufqLen_spec hrep, bufqIsEmpty_spec hrep⟩

/-- A queue with a pool, for chunks of two bytes. -/
theorem bufq_refines_fifo_pooled : ∃ s answers xs,
    Refine.calls call (bufqInitp .empty (bufcpInit 2 1) 3 true false)
      [(2, .write [1, 2, 3]), (0, .read 2), (0, .peekAt 0), (1, .write [4])] = some (s, answers) ∧
    Refine.Allows (Fifo (bufqInitp .empty (bufcpInit 2 1) 3 true false).q) []
      [(2, .write [1, 2, 3]), (0, .read 2), (0, .peekAt 0), (1, .write [4])] answers xs ∧
    Rep s xs ∧ bufqLen s = some xs.length ∧ bufqIsEmpty s = some (decide (xs = [])) :=
  have hpool : PoolReady .empty 2 (some (bufcpInit 2 1)) :=
    ⟨[], ⟨.nil _, rfl, rfl⟩, List.nodup_nil, fun _ hp => nomatch hp⟩
  bufq_refines_fifo 3 true false (by decide) hpool _

end Gurl.Buffer
