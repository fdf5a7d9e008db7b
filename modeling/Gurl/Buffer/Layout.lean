import Gurl.Buffer.Bufq

/-! How the chunks of a queue lie in memory: the queue itself, its spare chunks and those of the
pool are three lists with no chunk in common. -/

namespace Gurl.Buffer

open LinkedHeap

variable {s s' : State} {h h' : Heap BufChunk} {ds qs ss pp : List Ptr} {p t : Ptr}
  {c c' : BufChunk} {size : Nat}

/-- `pp` are the spare chunks of the pool, if there is one. -/
def PoolChain (h : Heap BufChunk) (size : Nat) : Option BufcPool → List Ptr → Prop
  | none, pp => pp = []
  | some pool, pp =>
    Chain BufChunk.next h pool.spare pp ∧ pool.spareCount = pp.length ∧ pool.chunkSize = size

/-- `qs` are the chunks of the queue, `ss` its spare chunks, `pp` those of the pool, and `ds` chunks
on their way from one list to another. -/
structure Layout (s : State) (ds qs ss pp : List Ptr) : Prop where
  size : 0 < s.q.chunkSize
  head : Chain BufChunk.next s.heap s.q.head qs
  tail : s.q.tail = qs.getLast?
  spare : Chain BufChunk.next s.heap s.q.spare ss
  pool : PoolChain s.heap s.q.chunkSize s.pool pp
  nodup : (ds ++ (qs ++ (ss ++ pp))).Nodup
  sound : ∀ p ∈ ds ++ (qs ++ (ss ++ pp)), ∃ c, s.heap.get p = some c ∧ c.Sound s.q.chunkSize
  count : s.q.chunkCount = ds.length + qs.length + ss.length

theorem Layout.sound_of_get (hl : Layout s ds qs ss pp) (hp : p ∈ ds ++ (qs ++ (ss ++ pp)))
    (hc : s.heap.get p = some c) : c.Sound s.q.chunkSize := by
  obtain ⟨c', hc', hsound⟩ := hl.sound p hp
  rw [hc, Option.some.injEq] at hc'
  rw [hc']
  exact hsound

/-- Every chunk but the last is full at its write end and has unread bytes, and nothing was read
from the chunks behind the first one. -/
structure Filled (h : Heap BufChunk) (qs : List Ptr) : Prop where
  full : ∀ p ∈ qs.dropLast, ∀ c, h.get p = some c → c.wOffset = c.dlen ∧ c.rOffset < c.wOffset
  untouched : ∀ p ∈ qs.tail, ∀ c, h.get p = some c → c.rOffset = 0

theorem Filled.nil (h : Heap BufChunk) : Filled h [] := ⟨by simp, by simp⟩

theorem Filled.single (h : Heap BufChunk) (p : Ptr) : Filled h [p] := ⟨by simp, by simp⟩

/-- The unread bytes of the chunk at `p`. -/
def unreadAt (h : Heap BufChunk) (p : Ptr) : Bytes := ((h.get p).map BufChunk.unread).getD []

/-- The unread bytes of some chunks. -/
def bytesOf (h : Heap BufChunk) (qs : List Ptr) : Bytes := qs.flatMap (unreadAt h)

/-- A chunk apart from its place in a list. -/
def BufChunk.content (c : BufChunk) : BufChunk := { c with next := none }

/-- The chunks `qs` are the same in two heaps, but for their links. -/
def SameChunks (h h' : Heap BufChunk) (qs : List Ptr) : Prop :=
  ∀ p ∈ qs, (h'.get p).map BufChunk.content = (h.get p).map BufChunk.content

/-! ### What depends on the contents only -/

theorem SameChunks.get (hsame : SameChunks h h' qs) (hp : p ∈ qs) (hc : h'.get p = some c') :
    ∃ c, h.get p = some c ∧ c'.content = c.content := by
  have heq := hsame p hp
  rw [hc, Option.map_some, eq_comm, Option.map_eq_some_iff] at heq
  obtain ⟨c, hget, heq⟩ := heq
  exact ⟨c, hget, heq.symm⟩

theorem SameChunks.of_eq (heq : ∀ p ∈ qs, h'.get p = h.get p) : SameChunks h h' qs :=
  fun p hp => by rw [heq p hp]

theorem SameChunks.bytesOf (hsame : SameChunks h h' qs) : bytesOf h' qs = bytesOf h qs := by
  have hat : ∀ h : Heap BufChunk, unreadAt h =
      fun p => (((h.get p).map BufChunk.content).map BufChunk.unread).getD [] := by
    intro h
    funext p
    rw [Option.map_map]
    rfl
  unfold Buffer.bytesOf
  rw [hat h, hat h']
  exact List.flatMap_congr fun p hp => by rw [hsame p hp]

theorem Filled.congr (hf : Filled h qs) (hsame : SameChunks h h' qs) : Filled h' qs where
  full p hp c' hc' := by
    obtain ⟨c, hc, heq⟩ := hsame.get (List.dropLast_subset _ hp) hc'
    have hread : c'.rOffset = c.rOffset := congrArg (fun c => c.rOffset) heq
    have hwrite : c'.wOffset = c.wOffset := congrArg (fun c => c.wOffset) heq
    have hdlen : c'.dlen = c.dlen := congrArg (fun c => c.dlen) heq
    rw [hread, hwrite, hdlen]
    exact hf.full p hp c hc
  untouched p hp c' hc' := by
    obtain ⟨c, hc, heq⟩ := hsame.get (List.mem_of_mem_tail hp) hc'
    have hread : c'.rOffset = c.rOffset := congrArg (fun c => c.rOffset) heq
    rw [hread]
    exact hf.untouched p hp c hc

theorem unreadAt_of_get (hc : h.get p = some c) : unreadAt h p = c.unread := by
  rw [unreadAt, hc, Option.map_some, Option.getD_some]

theorem bytesOf_cons (hc : h.get p = some c) : bytesOf h (p :: qs) = c.unread ++ bytesOf h qs := by
  rw [bytesOf, List.flatMap_cons, unreadAt_of_get hc, bytesOf]

theorem bytesOf_concat (hc : h.get t = some c) :
    bytesOf h (qs ++ [t]) = bytesOf h qs ++ c.unread := by
  rw [bytesOf, List.flatMap_append, List.flatMap_singleton, unreadAt_of_get hc, bytesOf]

/-! ### Changes of the heap -/

theorem PoolChain.mono {pool : Option BufcPool} (hp : PoolChain h size pool pp)
    (hchain : ∀ start, Chain BufChunk.next h start pp → Chain BufChunk.next h' start pp) :
    PoolChain h' size pool pp := by
  cases pool with
  | none => exact hp
  | some pool => exact ⟨hchain _ hp.1, hp.2⟩

/-- A layout in another heap with the same links. -/
theorem Layout.withHeap (hl : Layout s ds qs ss pp)
    (hchain : ∀ start ps, ps ⊆ qs ++ (ss ++ pp) → Chain BufChunk.next s.heap start ps →
      Chain BufChunk.next h' start ps)
    (hsound : ∀ p ∈ ds ++ (qs ++ (ss ++ pp)), ∃ c, h'.get p = some c ∧ c.Sound s.q.chunkSize) :
    Layout { s with heap := h' } ds qs ss pp where
  size := hl.size
  head := hchain _ _ (by simp) hl.head
  tail := hl.tail
  spare := hchain _ _ (by simp) hl.spare
  pool := hl.pool.mono fun _ => hchain _ _ (by simp)
  nodup := hl.nodup
  sound := hsound
  count := hl.count

/-- Other bytes in a chunk do not change the layout. -/
theorem Layout.setChunk (hl : Layout s ds qs ss pp) (hc : s.heap.get p = some c)
    (hrw : Rewritten s.q.chunkSize c c') : Layout (s.setChunk p c') ds qs ss pp := by
  refine hl.withHeap (fun _ _ _ hchain => hchain.set_of_next hc hrw.next) fun r hr => ?_
  by_cases hrp : r = p
  · subst hrp
    exact ⟨c', Heap.get_set_self hc, hrw.sound⟩
  · rw [Heap.get_set_ne hrp]
    exact hl.sound r hr

/-- A chunk on its way may be changed in any way. -/
theorem Layout.setDetached (hl : Layout s [p] qs ss pp) (hc : c.Sound s.q.chunkSize) :
    Layout (s.setChunk p c) [p] qs ss pp := by
  obtain ⟨c₀, hc₀, -⟩ := hl.sound p (by simp)
  have hp : p ∉ qs ++ (ss ++ pp) := (List.nodup_cons.mp hl.nodup).1
  refine hl.withHeap (fun _ _ hsub hchain => hchain.set_of_notMem (fun hmem => hp (hsub hmem)) c)
    fun r hr => ?_
  by_cases hrp : r = p
  · subst hrp
    exact ⟨c, Heap.get_set_self hc₀, hc⟩
  · rw [Heap.get_set_ne hrp]
    exact hl.sound r hr

/-- A chunk on its way may be freed, when it is no longer counted. -/
theorem Layout.freeDetached (hl : Layout s [p] qs ss pp) :
    Layout { s with heap := s.heap.free p }.countGone [] qs ss pp := by
  have hp : p ∉ qs ++ (ss ++ pp) := (List.nodup_cons.mp hl.nodup).1
  have hne : ∀ r ∈ qs ++ (ss ++ pp), r ≠ p := fun r hr hrp => hp (hrp ▸ hr)
  exact {
    size := hl.size
    head := hl.head.free_of_notMem (fun hmem => hp (by simp [hmem]))
    tail := hl.tail
    spare := hl.spare.free_of_notMem (fun hmem => hp (by simp [hmem]))
    pool := hl.pool.mono fun _ hchain => hchain.free_of_notMem (fun hmem => hp (by simp [hmem]))
    nodup := (List.nodup_cons.mp hl.nodup).2
    sound := by
      intro r hr
      obtain ⟨c, hc, hsound⟩ := hl.sound r (List.mem_cons_of_mem p hr)
      exact ⟨c, (Heap.get_free_ne (hne r hr)).trans hc, hsound⟩
    count := by
      have hcount := hl.count
      simp only [State.countGone, List.length_cons, List.length_nil] at hcount ⊢
      omega }

/-! ### Chunks that leave the queue -/

theorem Layout.unlinkHead (hl : Layout s [] (p :: qs) ss pp) (hc : s.heap.get p = some c) :
    Layout (s.unlinkHead p c) [p] qs ss pp := by
  have hchain := hl.head.rest hc
  have hp : p ∉ qs := fun hmem => (List.nodup_cons.mp hl.nodup).1 (by simp [hmem])
  refine ⟨hl.size, hchain, ?_, hl.spare, hl.pool, hl.nodup, hl.sound, ?_⟩
  · -- the tail moves only where the chunk was the last one
    have htail := hl.tail
    dsimp only [State.unlinkHead]
    cases qs with
    | nil =>
      rw [List.getLast?_singleton] at htail
      rw [if_pos htail, List.getLast?_nil]
      exact hchain.start_eq
    | cons q qs =>
      rw [List.getLast?_cons_cons] at htail
      rw [if_neg, htail]
      intro heq
      rw [htail] at heq
      exact hp (List.mem_of_getLast? heq)
  · have hcount := hl.count
    simp only [State.unlinkHead, List.length_cons, List.length_nil] at hcount ⊢
    omega

theorem perm_toSpare (p : Ptr) (qs ss pp : List Ptr) :
    ([] ++ (qs ++ ((p :: ss) ++ pp))).Perm ([p] ++ (qs ++ (ss ++ pp))) := List.perm_middle

theorem perm_toPool (p : Ptr) (qs ss pp : List Ptr) :
    ([] ++ (qs ++ (ss ++ (p :: pp)))).Perm ([p] ++ (qs ++ (ss ++ pp))) := by
  have hmid : ((qs ++ ss) ++ p :: pp).Perm (p :: ((qs ++ ss) ++ pp)) := List.perm_middle
  rw [List.append_assoc, List.append_assoc] at hmid
  exact hmid

theorem Layout.toSpare (hl : Layout s [p] qs ss pp) (hget : s.heap.get p = some c)
    (hnext : c.next = s.q.spare) :
    Layout { s with q := { s.q with spare := some p } } [] qs (p :: ss) pp where
  size := hl.size
  head := hl.head
  tail := hl.tail
  spare := chain_some.mpr ⟨c, ss, hget, rfl, hnext ▸ hl.spare⟩
  pool := hl.pool
  nodup := (perm_toSpare p qs ss pp).nodup_iff.mpr hl.nodup
  sound r hr := hl.sound r ((perm_toSpare p qs ss pp).mem_iff.mp hr)
  count := by
    have hcount := hl.count
    simp only [List.length_cons, List.length_nil] at hcount ⊢
    omega

theorem Layout.toPool {pool : BufcPool} (hl : Layout s [p] qs ss pp) (hpool : s.pool = some pool)
    (hget : s.heap.get p = some c) (hnext : c.next = pool.spare) :
    Layout { s with
      pool := some { pool with spare := some p, spareCount := pool.spareCount + 1 } }.countGone
      [] qs ss (p :: pp) where
  size := hl.size
  head := hl.head
  tail := hl.tail
  spare := hl.spare
  pool := by
    have hchain := hl.pool
    rw [hpool] at hchain
    obtain ⟨hspare, hcount, hsize⟩ := hchain
    exact ⟨chain_some.mpr ⟨c, pp, hget, rfl, hnext ▸ hspare⟩, congrArg (· + 1) hcount, hsize⟩
  nodup := (perm_toPool p qs ss pp).nodup_iff.mpr hl.nodup
  sound r hr := hl.sound r ((perm_toPool p qs ss pp).mem_iff.mp hr)
  count := by
    have hcount := hl.count
    simp only [State.countGone, List.length_cons, List.length_nil] at hcount ⊢
    omega

/-- An empty chunk becomes a spare one of the queue or of the pool, or it is freed. -/
theorem Layout.retire (hl : Layout s [p] qs ss pp) (hc : s.heap.get p = some c) :
    ∃ ss' pp', Layout (s.retire p c) [] qs ss' pp' ∧
      ∀ r ∈ qs, (s.retire p c).heap.get r = s.heap.get r := by
  have hp : p ∉ qs ++ (ss ++ pp) := (List.nodup_cons.mp hl.nodup).1
  have hne : ∀ r ∈ qs, r ≠ p := fun r hr hrp => hp (by simp [← hrp, hr])
  have hsound := hl.sound_of_get (by simp) hc
  unfold State.retire
  split
  · rename_i pool hpool
    unfold bufcpPut
    split
    · exact ⟨ss, pp, hl.freeDetached, fun r hr => Heap.get_free_ne (hne r hr)⟩
    · have hset := hl.setDetached (c := { chunkReset c with next := pool.spare })
        ⟨hsound.dlen, hsound.data, Nat.le_refl 0, Nat.zero_le _, fun _ => rfl⟩
      exact ⟨ss, p :: pp, hset.toPool hpool (Heap.get_set_self hc) rfl,
        fun r hr => Heap.get_set_ne (hne r hr)⟩
  · split
    · exact ⟨ss, pp, hl.freeDetached, fun r hr => Heap.get_free_ne (hne r hr)⟩
    · have hset := hl.setDetached (c := { c with next := s.q.spare })
        ⟨hsound.dlen, hsound.data, hsound.read, hsound.write, hsound.start⟩
      exact ⟨p :: ss, pp, hset.toSpare (Heap.get_set_self hc) rfl,
        fun r hr => Heap.get_set_ne (hne r hr)⟩

/-! ### Chunks that join the queue -/

/-- The number of chunks that can still be obtained. -/
def supply (s : State) (ss pp : List Ptr) : Nat := ss.length + pp.length + s.mallocs

/-- The chunk at `p` is on its way into the queue, and nothing is in it. -/
structure Obtained (s s' : State) (p : Ptr) (qs ss pp ss' pp' : List Ptr) : Prop where
  layout : Layout s' [p] qs ss' pp'
  empty : ∃ c, s'.heap.get p = some c ∧ c.next = none ∧ c.rOffset = 0 ∧ c.wOffset = 0
  frame : ∀ r ∈ qs, s'.heap.get r = s.heap.get r
  supply : supply s ss pp = supply s' ss' pp' + 1
  sizes : s'.q.chunkSize = s.q.chunkSize

/-- Once it is out of its list, a spare chunk is reset. -/
theorem Layout.reset {ss' pp' : List Ptr} (hl : Layout s' [p] qs ss' pp')
    (hheap : s'.heap = s.heap) (hc : s.heap.get p = some c) (hsize : s'.q.chunkSize = s.q.chunkSize)
    (hsupply : supply s ss pp = supply s' ss' pp' + 1) :
    Obtained s (s'.setChunk p (chunkReset c)) p qs ss pp ss' pp' := by
  have hp : p ∉ qs := fun hmem => (List.nodup_cons.mp hl.nodup).1 (by simp [hmem])
  have hsound := hl.sound_of_get (by simp) (hheap ▸ hc)
  refine ⟨hl.setDetached ⟨hsound.dlen, hsound.data, Nat.le_refl 0, Nat.zero_le _, fun _ => rfl⟩,
    ?_, ?_, hsupply, hsize⟩
  · exact ⟨chunkReset c, Heap.get_set_self (hheap ▸ hc), rfl, rfl, rfl⟩
  · intro r hr
    rw [← hheap]
    exact Heap.get_set_ne (ne_of_mem_of_not_mem hr hp)

theorem Layout.fromSpare (hl : Layout s [] qs (p :: ss) pp) (hc : s.heap.get p = some c) :
    Obtained s { s.setChunk p (chunkReset c) with q := { s.q with spare := c.next } } p qs
      (p :: ss) pp ss pp := by
  have hunlinked : Layout { s with q := { s.q with spare := c.next } } [p] qs ss pp := {
    size := hl.size
    head := hl.head
    tail := hl.tail
    spare := hl.spare.rest hc
    pool := hl.pool
    nodup := (perm_toSpare p qs ss pp).nodup_iff.mp hl.nodup
    sound := fun r hr => hl.sound r ((perm_toSpare p qs ss pp).mem_iff.mpr hr)
    count := by
      have hcount := hl.count
      simp only [List.length_cons, List.length_nil] at hcount ⊢
      omega }
  refine hunlinked.reset rfl hc rfl ?_
  simp only [supply, List.length_cons]
  omega

theorem Layout.fromPool {pool : BufcPool} (hl : Layout s [] qs ss (p :: pp))
    (hpool : s.pool = some pool) (hc : s.heap.get p = some c) :
    Obtained s (State.countNew ({ s.setChunk p (chunkReset c) with pool := some { pool with
      spare := c.next, spareCount := pool.spareCount - 1 } }, some p)).1 p qs ss
        (p :: pp) ss pp := by
  have hchain := hl.pool
  rw [hpool] at hchain
  obtain ⟨hspare, hspareCount, hsize⟩ := hchain
  have hunlinked : Layout { s with
      q := { s.q with chunkCount := s.q.chunkCount + 1 }
      pool := some { pool with spare := c.next, spareCount := pool.spareCount - 1 } }
      [p] qs ss pp := {
    size := hl.size
    head := hl.head
    tail := hl.tail
    spare := hl.spare
    pool := ⟨hspare.rest hc, by simp [hspareCount], hsize⟩
    nodup := (perm_toPool p qs ss pp).nodup_iff.mp hl.nodup
    sound := fun r hr => hl.sound r ((perm_toPool p qs ss pp).mem_iff.mpr hr)
    count := by
      have hcount := hl.count
      simp only [List.length_cons, List.length_nil] at hcount ⊢
      omega }
  refine hunlinked.reset rfl hc rfl ?_
  simp only [supply, List.length_cons]
  omega

theorem newChunk_sound (size : Nat) : (newChunk size).Sound size :=
  ⟨rfl, List.length_replicate, Nat.le_refl 0, Nat.zero_le size, fun _ => rfl⟩

theorem Layout.fromHeap (hl : Layout s [] qs ss pp) (hmallocs : s.mallocs ≠ 0) :
    Obtained s (State.countNew ({ s with heap := s.heap.alloc (newChunk s.q.chunkSize)
                                         mallocs := s.mallocs - 1 }, some s.heap.fresh)).1
      s.heap.fresh qs ss pp ss pp := by
  have hfresh : s.heap.fresh ∉ qs ++ (ss ++ pp) := by
    intro hmem
    obtain ⟨c, hc, -⟩ := hl.sound _ hmem
    exact Heap.ne_fresh hc rfl
  refine ⟨⟨hl.size, hl.head.alloc _, hl.tail, hl.spare.alloc _, hl.pool.mono fun _ => (·.alloc _),
    List.nodup_cons.mpr ⟨hfresh, hl.nodup⟩, ?_, ?_⟩, ?_, ?_, ?_, rfl⟩
  · intro r hr
    rcases List.mem_cons.mp hr with rfl | hr
    · exact ⟨_, Heap.get_alloc_self, newChunk_sound _⟩
    · obtain ⟨c, hc, hsound⟩ := hl.sound r hr
      exact ⟨c, Heap.get_alloc hc, hsound⟩
  · have hcount := hl.count
    simp only [State.countNew, List.length_cons, List.length_nil] at hcount ⊢
    omega
  · exact ⟨_, Heap.get_alloc_self, rfl, rfl, rfl⟩
  · intro r hr
    exact Heap.get_alloc_ne fun heq => hfresh (by simp [← heq, hr])
  · simp only [supply, State.countNew]
    omega

/-- What `get_spare` returns: nothing, or a chunk that is on its way into the queue. -/
def SpareOutcome (s : State) (qs ss pp : List Ptr) (r : State × Option Ptr) : Prop :=
  r = (s, none) ∨ ∃ s' p ss' pp', r = (s', some p) ∧ Obtained s s' p qs ss pp ss' pp'

theorem Layout.calloc (hl : Layout s [] qs ss pp) :
    SpareOutcome s qs ss pp (State.countNew (s.calloc s.q.chunkSize)) := by
  unfold State.calloc
  split
  · exact .inl rfl
  · rename_i hok
    exact .inr ⟨_, _, ss, pp, rfl, hl.fromHeap fun hz => hok (.inr hz)⟩

theorem Layout.getSpare (hl : Layout s [] qs ss pp) :
    ∃ r, getSpare s = some r ∧ SpareOutcome s qs ss pp r := by
  unfold Buffer.getSpare
  cases hspare : s.q.spare with
  | some p =>
    have hchain := hl.spare
    rw [hspare] at hchain
    obtain ⟨c, rest, hc, rfl, -⟩ := chain_some.mp hchain
    dsimp only
    rw [hc]
    exact ⟨_, rfl, .inr ⟨_, _, rest, pp, rfl, hl.fromSpare hc⟩⟩
  | none =>
    dsimp only
    split
    · exact ⟨_, rfl, .inl rfl⟩
    cases hpool : s.pool with
    | none => exact ⟨_, rfl, hl.calloc⟩
    | some pool =>
      have hchain := hl.pool
      rw [hpool] at hchain
      obtain ⟨hchain, -, hsize⟩ := hchain
      dsimp only
      cases hfirst : pool.spare with
      | none =>
        have htake : bufcpTake pool s = some (s.calloc s.q.chunkSize) := by
          rw [bufcpTake, hfirst, hsize]
        rw [htake]
        exact ⟨_, rfl, hl.calloc⟩
      | some p =>
        rw [hfirst] at hchain
        obtain ⟨c, rest, hc, rfl, -⟩ := chain_some.mp hchain
        have htake : bufcpTake pool s = some ({ s.setChunk p (chunkReset c) with
            pool := some { pool with spare := c.next, spareCount := pool.spareCount - 1 } },
            some p) := by
          rw [bufcpTake, hfirst]
          dsimp only
          rw [hc]
          rfl
        rw [htake]
        exact ⟨_, rfl, .inr ⟨_, _, ss, rest, rfl, hl.fromPool hpool hc⟩⟩

/-- A chunk on its way becomes the tail. -/
theorem Layout.linkTail (hl : Layout s [p] qs ss pp) (hc : s.heap.get p = some c)
    (hnext : c.next = none) :
    ∃ s', s.linkTail p = some s' ∧ Layout s' [] (qs ++ [p]) ss pp ∧
      SameChunks s.heap s'.heap (qs ++ [p]) ∧ s'.mallocs = s.mallocs ∧
      s'.q.chunkSize = s.q.chunkSize := by
  have hp : p ∉ qs ++ (ss ++ pp) := (List.nodup_cons.mp hl.nodup).1
  have hperm : ([] ++ ((qs ++ [p]) ++ (ss ++ pp))).Perm ([p] ++ (qs ++ (ss ++ pp))) := by
    rw [List.append_assoc]
    exact List.perm_middle
  have hcount : s.q.chunkCount = 0 + (qs ++ [p]).length + ss.length := by
    have hcount := hl.count
    simp only [List.length_append, List.length_cons, List.length_nil] at hcount ⊢
    omega
  unfold State.linkTail
  rcases List.eq_nil_or_concat qs with rfl | ⟨rest, t, rfl⟩
  · have htail : s.q.tail = none := hl.tail
    rw [htail]
    refine ⟨_, rfl, ⟨hl.size, ?_, rfl, hl.spare, hl.pool, hperm.nodup_iff.mpr hl.nodup,
      fun r hr => hl.sound r (hperm.mem_iff.mp hr), hcount⟩, fun _ _ => rfl, rfl, rfl⟩
    exact chain_some.mpr ⟨c, [], hc, rfl, by simp [hnext]⟩
  · rw [List.concat_eq_append] at *
    have htail : s.q.tail = some t := by rw [hl.tail, List.getLast?_concat]
    obtain ⟨ct, hct, hsound⟩ := hl.sound t (by simp)
    have htp : t ≠ p := fun heq => hp (by simp [← heq])
    have hnodup : (rest ++ [t] ++ (ss ++ pp)).Nodup := (List.nodup_cons.mp hl.nodup).2
    rw [List.append_assoc, List.nodup_append, List.singleton_append, List.nodup_cons] at hnodup
    obtain ⟨-, ⟨htothers, -⟩, hdisjoint⟩ := hnodup
    have htrest : t ∉ rest := fun hmem => hdisjoint t hmem t (by simp) rfl
    have hself : (s.heap.set t { ct with next := some p }).get t =
      some { ct with next := some p } :=
      Heap.get_set_self hct
    have hother : ∀ r, r ≠ t → (s.heap.set t { ct with next := some p }).get r = s.heap.get r :=
      fun r hr => Heap.get_set_ne hr
    rw [htail]
    dsimp only
    rw [hct]
    refine ⟨_, rfl, ⟨hl.size, ?_, ?_, ?_, ?_, hperm.nodup_iff.mpr hl.nodup, ?_, hcount⟩, ?_, rfl,
      rfl⟩
    · rw [List.append_assoc]
      refine Chain.snoc hl.head (fun r hr => ?_) ?_ ?_
      · dsimp only [State.setChunk]
        rw [hother r (ne_of_mem_of_not_mem hr htrest)]
      · dsimp only [State.setChunk]
        rw [hself, Option.map_some]
      · dsimp only [State.setChunk]
        rw [hother p htp.symm, hc, Option.map_some, hnext]
    · rw [List.getLast?_concat]
    · exact hl.spare.set_of_notMem (fun hmem => htothers (by simp [hmem])) _
    · exact hl.pool.mono fun _ hchain =>
        hchain.set_of_notMem (fun hmem => htothers (by simp [hmem])) _
    · intro r hr
      by_cases hrt : r = t
      · subst hrt
        exact ⟨_, hself, hsound.dlen, hsound.data, hsound.read, hsound.write, hsound.start⟩
      · obtain ⟨cr, hcr, hs⟩ := hl.sound r (hperm.mem_iff.mp hr)
        exact ⟨cr, (hother r hrt).trans hcr, hs⟩
    · intro r _
      by_cases hrt : r = t
      · subst hrt
        dsimp only [State.setChunk]
        rw [hself, hct]
        rfl
      · dsimp only [State.setChunk]
        rw [hother r hrt]

/-- A new tail, with nothing in it. -/
structure NewTail (s s' : State) (p : Ptr) (qs ss pp ss' pp' : List Ptr) : Prop where
  layout : Layout s' [] (qs ++ [p]) ss' pp'
  empty : ∃ c, s'.heap.get p = some c ∧ c.rOffset = 0 ∧ c.wOffset = 0
  frame : SameChunks s.heap s'.heap qs
  supply : supply s ss pp = supply s' ss' pp' + 1
  sizes : s'.q.chunkSize = s.q.chunkSize

theorem Layout.newTail (hl : Layout s [] qs ss pp) :
    newTail s = some (s, none) ∨
      ∃ s' p ss' pp', newTail s = some (s', some p) ∧ NewTail s s' p qs ss pp ss' pp' := by
  obtain ⟨r, hspare, rfl | ⟨s1, p, ss', pp', rfl, hobtained⟩⟩ := hl.getSpare
  · left
    rw [Buffer.newTail, hspare]
    rfl
  · right
    obtain ⟨c, hc, hnext, hread, hwrite⟩ := hobtained.empty
    obtain ⟨s2, hlink, hl2, hsame, hmallocs, hsizes⟩ := hobtained.layout.linkTail hc hnext
    refine ⟨s2, p, ss', pp', ?_, hl2, ?_, ?_, ?_, hsizes.trans hobtained.sizes⟩
    · rw [Buffer.newTail, hspare]
      dsimp only [Option.bind_eq_bind, Option.bind_some]
      rw [hlink]
      rfl
    · obtain ⟨c', hc', -⟩ := hl2.sound p (by simp)
      obtain ⟨c₀, hc₀, heq⟩ := hsame.get (by simp) hc'
      rw [hc, Option.some.injEq] at hc₀
      subst hc₀
      exact ⟨c', hc', (congrArg (fun c => c.rOffset) heq).trans hread,
        (congrArg (fun c => c.wOffset) heq).trans hwrite⟩
    · intro r hr
      rw [hsame r (by simp [hr]), hobtained.frame r hr]
    · rw [hobtained.supply, Buffer.supply, Buffer.supply, hmallocs]

end Gurl.Buffer
