import Gurl.Buffer.Fifo

/-! How many bytes a full queue holds: all that its chunks have room for, but for the bytes of the
first chunk that were read already. -/

namespace Gurl.Buffer

open LinkedHeap

variable {s s' : State} {h : Heap BufChunk} {qs ss pp : List Ptr} {p t : Ptr} {c c' : BufChunk}
  {xs : Bytes}

/-- The bytes of the first chunk that were read already. -/
def headOffset (s : State) : Nat :=
  match s.q.head with
  | some p => ((s.heap.get p).map BufChunk.rOffset).getD 0
  | none => 0

theorem headOffset_cons (hl : Layout s [] (p :: qs) ss pp) (hc : s.heap.get p = some c) :
    headOffset s = c.rOffset := by
  have hhead : s.q.head = some p := hl.head.start_eq
  rw [headOffset, hhead]
  dsimp only
  rw [hc]
  rfl

theorem headOffset_nil (hl : Layout s [] [] ss pp) : headOffset s = 0 := by
  have hhead : s.q.head = none := hl.head.start_eq
  rw [headOffset, hhead]

/-- The same chunks, and the same first bytes read, with others behind them. -/
theorem headOffset_append (hl : Layout s [] (p :: qs) ss pp) {more ss' pp' : List Ptr}
    (hl' : Layout s' [] (p :: qs ++ more) ss' pp') (hsame : SameChunks s.heap s'.heap [p]) :
    headOffset s' = headOffset s := by
  obtain ⟨c', hc', -⟩ := hl'.sound p List.mem_cons_self
  obtain ⟨c, hc, heq⟩ := hsame.get List.mem_cons_self hc'
  rw [headOffset_cons hl hc, headOffset_cons hl' hc']
  exact congrArg (fun c => c.rOffset) heq

theorem headOffset_newTail {r : Option Ptr} (hl : Layout s [] qs ss pp)
    (h : newTail s = some (s', r)) : headOffset s' = headOffset s := by
  rcases hl.newTail with hnone | ⟨s1, t, ss1, pp1, hnew, hl1⟩
  · rw [hnone] at h
    cases h
    rfl
  · rw [hnew] at h
    cases h
    cases qs with
    | nil =>
      obtain ⟨c, hc, hread, -⟩ := hl1.empty
      rw [headOffset_nil hl, headOffset_cons hl1.layout hc, hread]
    | cons p qs =>
      exact headOffset_append hl hl1.layout fun r hr =>
        hl1.frame r (List.mem_cons.mpr (.inl (List.mem_singleton.mp hr)))

theorem headOffset_nonFullTail {r : Option Ptr} (hl : Layout s [] qs ss pp)
    (h : getNonFullTail s = some (s', r)) : headOffset s' = headOffset s := by
  unfold getNonFullTail at h
  split at h
  · obtain ⟨c, -, h⟩ := Option.bind_eq_some_iff.mp h
    split at h
    · cases h
      rfl
    · exact headOffset_newTail hl h
  · exact headOffset_newTail hl h

/-- Writing to a chunk does not read from the first one. -/
theorem headOffset_setChunk (hc : s.heap.get t = some c) (hread : c'.rOffset = c.rOffset) :
    headOffset (s.setChunk t c') = headOffset s := by
  unfold headOffset
  cases hhead : s.q.head with
  | none =>
    rw [show (s.setChunk t c').q.head = none from hhead]
  | some p =>
    rw [show (s.setChunk t c').q.head = some p from hhead]
    by_cases hpt : p = t
    · subst hpt
      have hset : (s.setChunk p c').heap.get p = some c' := Heap.get_set_self hc
      dsimp only
      rw [hset, hc]
      exact hread
    · have hset : (s.setChunk t c').heap.get p = s.heap.get p := Heap.get_set_ne hpt
      dsimp only
      rw [hset]

theorem headOffset_sipn {maxLen : Nat} {reader : Nat → Reply} {res : Curlcode}
    {reply : Option Reply} (hl : Layout s [] qs ss pp)
    (h : bufqSipn s maxLen reader = some (s', res, reply)) : headOffset s' = headOffset s := by
  obtain ⟨⟨s1, r⟩, htail, h⟩ := Option.bind_eq_some_iff.mp h
  have hoffset := headOffset_nonFullTail hl htail
  cases r with
  | none =>
    cases h
    exact hoffset
  | some t =>
    obtain ⟨c, hc, h⟩ := Option.bind_eq_some_iff.mp h
    split at h
    · cases h
      exact hoffset
    · cases h
      exact (headOffset_setChunk hc (chunkSlurpn_rOffset c _)).trans hoffset

theorem sipn_options {maxLen : Nat} {reader : Nat → Reply} {res : Curlcode} {reply : Option Reply}
    (h : bufqSipn s maxLen reader = some (s', res, reply)) : s'.q.options = s.q.options := by
  obtain ⟨⟨s1, r⟩, htail, h⟩ := Option.bind_eq_some_iff.mp h
  have hoptions := getNonFullTail_options htail
  cases r with
  | none =>
    cases h
    exact hoptions
  | some t =>
    obtain ⟨c, -, h⟩ := Option.bind_eq_some_iff.mp h
    split at h
    · cases h
      exact hoptions
    · cases h
      exact hoptions

/-- Of the first chunk no more was read than it holds. -/
theorem headOffset_le (hl : Layout s [] qs ss pp) : headOffset s ≤ s.q.chunkSize := by
  cases qs with
  | nil =>
    rw [headOffset_nil hl]
    exact Nat.zero_le _
  | cons p qs =>
    obtain ⟨c, hc, hsound⟩ := hl.sound p (by simp)
    rw [headOffset_cons hl hc]
    exact Nat.le_trans hsound.read hsound.write

/-! ### The bytes of a full queue -/

/-- Chunks that are full at their write ends. -/
theorem length_bytesOf_full {size : Nat} (hsound : ∀ p ∈ qs, ∃ c, h.get p = some c ∧ c.Sound size)
    (hfull : ∀ p ∈ qs, ∀ c, h.get p = some c → c.wOffset = c.dlen ∧ c.rOffset = 0) :
    (bytesOf h qs).length = qs.length * size := by
  induction qs with
  | nil => exact (Nat.zero_mul size).symm
  | cons p qs ih =>
    obtain ⟨c, hc, hs⟩ := hsound p List.mem_cons_self
    obtain ⟨hwrite, hread⟩ := hfull p List.mem_cons_self c hc
    rw [bytesOf_cons hc, List.length_append, unread_length hs, chunkLen, hwrite, hread, hs.dlen,
      ih (fun r hr => hsound r (List.mem_cons_of_mem _ hr))
        fun r hr => hfull r (List.mem_cons_of_mem _ hr),
      List.length_cons, Nat.succ_mul, Nat.sub_zero, Nat.add_comm]

theorem bufqIsFull_spec (hrep : Rep s xs) : ∃ full, bufqIsFull s = some full := by
  obtain ⟨qs, ss, pp, hh⟩ := hrep
  unfold bufqIsFull
  cases htail : s.q.tail with
  | none => exact ⟨false, rfl⟩
  | some t =>
    obtain ⟨c, hc⟩ := hh.back htail
    cases s.q.spare with
    | some _ => exact ⟨false, rfl⟩
    | none =>
      dsimp only
      rw [hc]
      split
      · exact ⟨false, rfl⟩
      · split
        · exact ⟨true, rfl⟩
        · exact ⟨_, rfl⟩

/-- As many full chunks at the front of the queue as it may have. -/
theorem length_of_prefix {us vs : List Ptr} (hh : Holds s (us ++ vs) ss pp xs)
    (hfull : ∀ p ∈ us, ∀ c, s.heap.get p = some c → c.wOffset = c.dlen) :
    us.length * s.q.chunkSize ≤ headOffset s + xs.length := by
  cases us with
  | nil =>
    rw [List.length_nil, Nat.zero_mul]
    exact Nat.zero_le _
  | cons p us =>
    have hl := hh.layout
    have hu := hh.filled.untouched
    obtain ⟨c, hc, hsound⟩ := hl.sound p (by simp)
    have hwrite := hfull p List.mem_cons_self c hc
    have hrest : (bytesOf s.heap us).length = us.length * s.q.chunkSize := by
      apply length_bytesOf_full
      · intro r hr
        exact hl.sound r (by simp [hr])
      · intro r hr cr hcr
        exact ⟨hfull r (List.mem_cons_of_mem _ hr) cr hcr,
          hu r (List.mem_append_left _ hr) cr hcr⟩
    have hlen : xs.length = c.unread.length + us.length * s.q.chunkSize +
        (bytesOf s.heap vs).length := by
      rw [← hh.bytes, bytesOf, List.flatMap_append, List.length_append]
      change (bytesOf s.heap (p :: us)).length + _ = _
      rw [bytesOf_cons hc, List.length_append, hrest]
      rfl
    have hread := hsound.read
    rw [headOffset_cons hl hc, hlen, unread_length hsound, chunkLen, hwrite, hsound.dlen,
      List.length_cons, Nat.succ_mul]
    rw [hwrite, hsound.dlen] at hread
    omega

/-- A full queue has no room left: what is missing was read from its first chunk. -/
theorem length_of_full (hrep : Rep s xs) (hfull : bufqIsFull s = some true) :
    s.q.maxChunks * s.q.chunkSize ≤ headOffset s + xs.length := by
  obtain ⟨qs, ss, pp, hh⟩ := hrep
  have hl := hh.layout
  unfold bufqIsFull at hfull
  split at hfull
  · rename_i t htail hspare
    have hss : ss = [] := by
      have hchain := hl.spare
      rw [hspare] at hchain
      exact chain_none.mp hchain
    have hcount := hl.count
    rw [hss, List.length_nil] at hcount
    obtain ⟨rest, rfl⟩ : ∃ rest, qs = rest ++ [t] :=
      List.getLast?_eq_some_iff.mp (hl.tail.symm.trans htail)
    rw [List.length_append, List.length_singleton] at hcount
    have hrest : ∀ p ∈ rest, ∀ c, s.heap.get p = some c → c.wOffset = c.dlen := fun p hp c hc =>
      (hh.filled.full p (by simpa using hp) c hc).1
    split at hfull
    · cases hfull
    · split at hfull
      · -- more chunks than it may have: the last one need not be full
        have hlen := length_of_prefix hh hrest
        exact Nat.le_trans (Nat.mul_le_mul_right _ (by omega)) hlen
      · obtain ⟨c, hc, hcfull⟩ := Option.map_eq_some_iff.mp hfull
        have hsound := hl.sound_of_get (by simp) hc
        have hall : ∀ p ∈ rest ++ [t], ∀ c, s.heap.get p = some c → c.wOffset = c.dlen := by
          intro p hp c' hc'
          rcases List.mem_append.mp hp with hp | hp
          · exact hrest p hp c' hc'
          · obtain rfl := List.mem_singleton.mp hp
            rw [hc, Option.some.injEq] at hc'
            exact hc' ▸ (hsound.lt_of_full hl.size hcfull).1
        have hh' : Holds s (rest ++ [t] ++ []) ss pp xs := by rwa [List.append_nil]
        have hlen := length_of_prefix hh' hall
        rw [List.length_append, List.length_singleton] at hlen
        exact Nat.le_trans (Nat.mul_le_mul_right _ (by omega)) hlen
  · cases hfull

end Gurl.Buffer
