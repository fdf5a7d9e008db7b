import Gurl.Buffer.Calls

/-! Writing to a queue while there is memory: everything is taken by a queue with a soft limit, and
by an empty queue that has one chunk for it. -/

namespace Gurl.Buffer

open LinkedHeap

variable {s s' : State} {qs ss pp : List Ptr} {p t : Ptr} {xs : Bytes} {fuel : Nat}

/-- With memory for a chunk for each byte, a queue with a soft limit takes everything. -/
theorem bufqWrite_supplied {buf : Bytes} (hrep : Rep s xs)
    (hsize : s.q.chunkSize ≤ sizeMax - chunkHeader) (hsoft : s.q.softLimit = true)
    (hm : buf.length ≤ s.mallocs) :
    ∃ s', bufqWrite s buf = some (s', .ok, buf.length) ∧ Rep s' (xs ++ buf) := by
  obtain ⟨s', res, n, ys, hwrite, -, hrep', ⟨-, hlt, hspent⟩ | ⟨rfl, rfl, rfl⟩⟩ :=
    bufqWrite_soft buf hrep hsoft
  · obtain ⟨qs, ss, pp, hh⟩ := hrep
    have hle := (Nat.le_mul_of_pos_right s.mallocs hh.layout.size).trans (hspent hsize)
    omega
  · exact ⟨s', hwrite, hrep'⟩

/-! ### Queues with a soft limit -/

/-- A queue with a soft limit holds `xs`. -/
structure Queue (buf : State) (xs : Bytes) : Prop where
  rep : Rep buf xs
  soft : buf.q.softLimit = true
  size : buf.q.chunkSize ≤ sizeMax - chunkHeader

theorem Queue.of_options {buf buf' : State} {xs ys : Bytes} (h : Queue buf xs)
    (hrep : Rep buf' ys) (hoptions : buf'.q.options = buf.q.options) : Queue buf' ys where
  rep := hrep
  soft := (softLimit_eq hoptions).trans h.soft
  size := by
    rw [show buf'.q.chunkSize = buf.q.chunkSize from congrArg (fun o => o.2.1) hoptions]
    exact h.size

theorem queue_init {chunkSize maxChunks : Nat} (hpos : 0 < chunkSize)
    (hsize : chunkSize ≤ sizeMax - chunkHeader) :
    Queue (bufqInit2 .empty chunkSize maxChunks true false) [] :=
  ⟨rep_init maxChunks true false hpos ⟨[], rfl, List.nodup_nil, List.forall_mem_nil _⟩, rfl, hsize⟩

/-- With memory for every chunk that it asks for, a write takes everything. -/
theorem bufqWrite_queue {buf : State} {xs : Bytes} (h : Queue buf xs) (bytes : Bytes) :
    ∃ buf', bufqWrite { buf with mallocs := bytes.length } bytes = some (buf', .ok, bytes.length) ∧
      Queue buf' (xs ++ bytes) := by
  obtain ⟨buf', hwrite, hrep⟩ := bufqWrite_supplied (h.rep.withMallocs bytes.length) h.size h.soft
    (Nat.le_refl bytes.length)
  exact ⟨buf', hwrite, h.of_options hrep ((bufqWrite_options hwrite).trans rfl)⟩

theorem bufqRead_queue {buf : State} {xs : Bytes} (h : Queue buf xs) (len : Nat) :
    ∃ buf', bufqRead buf len =
        some (buf', if xs.take len = [] then .again else .ok, xs.take len) ∧
      Queue buf' (xs.drop len) := by
  obtain ⟨buf', hread, hrep⟩ := bufqRead_spec len h.rep
  exact ⟨buf', hread, h.of_options hrep (bufqRead_options hread)⟩

/-- The queue has all its bytes in one chunk. -/
def OneChunk (s : State) (xs : Bytes) : Prop := ∃ p ss pp, Holds s [p] ss pp xs

theorem OneChunk.rep (h : OneChunk s xs) : Rep s xs := by
  obtain ⟨p, ss, pp, hh⟩ := h
  exact ⟨[p], ss, pp, hh⟩

/-- What fits a chunk goes to the first chunk of an empty queue. -/
theorem bufqWrite_oneChunk {buf : Bytes} (hh : Holds s [] ss pp []) (hg : Growable s)
    (hm : s.mallocs ≠ 0) (hbuf : buf ≠ []) (hfits : buf.length ≤ s.q.chunkSize) :
    ∃ s', bufqWrite s buf = some (s', .ok, buf.length) ∧ OneChunk s' buf := by
  have hpos : 0 < buf.length := List.length_pos_iff.mpr hbuf
  have htailnone : s.q.tail = none := hh.layout.tail
  have hnew : getNonFullTail s = newTail s := by rw [getNonFullTail, htailnone]
  rcases hh.layout.newTail with hnone | ⟨s1, t, ss1, pp1, htail, hl⟩
  · have hzero := hh.supply_eq_zero (hnew.trans hnone) hg
    have := mallocs_le_supply s ss pp
    omega
  obtain ⟨c, hc, hread, hwrite⟩ := hl.empty
  have hsound := hl.layout.sound_of_get (by simp) hc
  have hunread : c.unread = [] := by rw [BufChunk.unread, hread, hwrite]; simp
  have hholds : Holds s1 ([] ++ [t]) ss1 pp1 [] := by
    refine ⟨hl.layout, .single _ t, ?_⟩
    rw [bytesOf_concat hc, hunread]
    rfl
  have hset := hholds.setTail hc (chunkAppend_rewritten hsound buf) (chunkAppend_rOffset c buf)
    (chunkAppend_unread hsound buf)
  have hcount : (chunkAppend c buf).2 = buf.length := by
    rw [chunkAppend_count, hwrite, hsound.dlen, hl.sizes]
    omega
  rw [hcount, List.take_length, List.nil_append, List.nil_append] at hset
  refine ⟨_, ?_, t, ss1, pp1, hset⟩
  unfold bufqWrite writeLoop
  dsimp only
  rw [if_neg hbuf, hnew, htail]
  simp only [Option.bind_eq_bind, Option.bind_some, hc]
  rw [hcount, if_neg (by omega), List.drop_length]
  obtain ⟨n, hn⟩ := Nat.exists_eq_succ_of_ne_zero (Nat.ne_of_gt hpos)
  rw [hn]
  simp [writeLoop]

/-- A peek at one chunk shows everything. -/
theorem bufqPeek_oneChunk (h : OneChunk s xs) (hne : xs ≠ []) :
    bufqPeek s = some (s, some xs) := by
  obtain ⟨p, ss, pp, hh⟩ := h
  obtain ⟨hhead, c, hc, hsound, hxs⟩ := hh.front
  have hbytes : c.unread = xs := (hxs.trans (List.append_nil _)).symm
  have hfilled : chunkIsEmpty c = false := by
    rw [← hbytes, Ne, unread_eq_nil_iff hsound] at hne
    simpa using hne
  simp only [bufqPeek, pruneEmptyHead, peekHead, hhead, hc, hfilled, Option.bind_eq_bind,
    Option.bind_some, Bool.false_eq_true, if_false, Option.map_some, Bool.not_false, if_true]
  rw [← hbytes]
  rfl

end Gurl.Buffer
