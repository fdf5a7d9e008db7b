import Gurl.Buffer.Layout
import Gurl.Lib.Runs

/-! A queue is a FIFO of bytes: what each call does to the unread bytes of the chunks. -/

namespace Gurl.Buffer

open LinkedHeap

variable {s s' : State} {h h' : Heap BufChunk} {qs ss pp : List Ptr} {p t : Ptr} {c c' : BufChunk}
  {xs : Bytes} {fuel : Nat}

/-- The chunks of a queue are in place and hold the bytes `xs`. -/
structure Holds (s : State) (qs ss pp : List Ptr) (xs : Bytes) : Prop where
  layout : Layout s [] qs ss pp
  filled : Filled s.heap qs
  bytes : bytesOf s.heap qs = xs

/-- The queue holds the bytes `xs`. -/
def Rep (s : State) (xs : Bytes) : Prop := ∃ qs ss pp, Holds s qs ss pp xs

theorem Holds.front (hh : Holds s (p :: qs) ss pp xs) : s.q.head = some p ∧
    ∃ c, s.heap.get p = some c ∧ c.Sound s.q.chunkSize ∧ xs = c.unread ++ bytesOf s.heap qs := by
  obtain ⟨c, hc, hsound⟩ := hh.layout.sound p (by simp)
  exact ⟨hh.layout.head.start_eq, c, hc, hsound, by rw [← hh.bytes, bytesOf_cons hc]⟩

theorem Holds.back (hh : Holds s qs ss pp xs) (htail : s.q.tail = some t) :
    ∃ c, s.heap.get t = some c := by
  have hmem : t ∈ qs := List.mem_of_getLast? (hh.layout.tail.symm.trans htail)
  obtain ⟨c, hc, -⟩ := hh.layout.sound t (by simp [hmem])
  exact ⟨c, hc⟩

/-! ### Empty chunks at the front -/

/-- Apart from its first chunk, which may have been read, the queue is filled. -/
structure Ready (h : Heap BufChunk) (qs : List Ptr) : Prop where
  full : ∀ p ∈ qs.dropLast, ∀ c, h.get p = some c → chunkIsEmpty c = false → c.wOffset = c.dlen
  rest : ∀ p ∈ qs.tail.dropLast, ∀ c, h.get p = some c → chunkIsEmpty c = false
  untouched : ∀ p ∈ qs.tail, ∀ c, h.get p = some c → c.rOffset = 0

theorem chunkIsEmpty_eq_false : chunkIsEmpty c = false ↔ c.rOffset < c.wOffset := by
  simp [chunkIsEmpty]

theorem Filled.ready (hf : Filled h qs) : Ready h qs where
  full p hp c hc _ := (hf.full p hp c hc).1
  rest p hp c hc := by
    have hmem : p ∈ qs.dropLast := by
      cases qs with
      | nil => cases hp
      | cons q qs =>
        cases qs with
        | nil => cases hp
        | cons r qs => exact List.mem_cons_of_mem _ hp
    exact chunkIsEmpty_eq_false.mpr (hf.full p hmem c hc).2
  untouched := hf.untouched

/-- With a first chunk that is not empty, the queue is filled. -/
theorem Ready.filled (hr : Ready h (p :: qs)) (hc : h.get p = some c)
    (hne : chunkIsEmpty c = false) : Filled h (p :: qs) := by
  refine ⟨fun r hr' cr hcr => ?_, hr.untouched⟩
  have hsome : chunkIsEmpty cr = false := by
    cases qs with
    | nil => cases hr'
    | cons q qs =>
      rcases List.mem_cons.mp hr' with rfl | hmem
      · rw [hc, Option.some.injEq] at hcr
        exact hcr ▸ hne
      · exact hr.rest r hmem cr hcr
  exact ⟨hr.full r hr' cr hcr hsome, chunkIsEmpty_eq_false.mp hsome⟩

/-- Without its first chunk, the queue is filled. -/
theorem Ready.tail (hr : Ready h (p :: qs)) : Filled h qs := by
  refine ⟨fun r hr' cr hcr => ?_, fun r hr' => hr.untouched r (List.mem_of_mem_tail hr')⟩
  cases qs with
  | nil => cases hr'
  | cons q qs =>
    have hsome := hr.rest r hr' cr hcr
    exact ⟨hr.full r (List.mem_cons_of_mem p hr') cr hcr hsome, chunkIsEmpty_eq_false.mp hsome⟩

/-- Only the last chunk of a queue may be empty. -/
theorem Filled.eq_nil_of_empty (hf : Filled h (p :: qs)) (hc : h.get p = some c)
    (hempty : chunkIsEmpty c = true) : qs = [] := by
  by_contra hne
  have hmem : p ∈ (p :: qs).dropLast := by
    rw [List.dropLast_cons_of_ne_nil hne]
    exact List.mem_cons_self
  have hsome := chunkIsEmpty_eq_false.mpr (hf.full p hmem c hc).2
  rw [hempty] at hsome
  cases hsome

/-- The front chunk of the queue, if any, is not empty. -/
def FrontFilled (s : State) : Prop :=
  ∀ p, s.q.head = some p → ∃ c, s.heap.get p = some c ∧ chunkIsEmpty c = false

theorem prune_spec (hl : Layout s [] qs ss pp) (hready : Ready s.heap qs)
    (hfuel : qs.length < fuel) :
    ∃ s' qs' ss' pp', pruneLoop fuel s = some s' ∧
      Holds s' qs' ss' pp' (bytesOf s.heap qs) ∧ FrontFilled s' ∧ qs'.length ≤ qs.length ∧
      (∀ p c, s.q.head = some p → s.heap.get p = some c → chunkIsEmpty c = true →
        qs'.length < qs.length) := by
  induction qs generalizing s ss pp fuel with
  | nil =>
    have hhead : s.q.head = none := hl.head.start_eq
    obtain ⟨fuel, rfl⟩ : ∃ k, fuel = k + 1 := ⟨fuel - 1, by omega⟩
    refine ⟨s, [], ss, pp, ?_, ⟨hl, .nil _, rfl⟩, ?_, Nat.le_refl _, ?_⟩
    · rw [pruneLoop, hhead]
    · simp [FrontFilled, hhead]
    · simp [hhead]
  | cons p qs ih =>
    have hhead : s.q.head = some p := hl.head.start_eq
    obtain ⟨c, hc, hsound⟩ := hl.sound p (by simp)
    obtain ⟨fuel, rfl⟩ : ∃ k, fuel = k + 1 := ⟨fuel - 1, by omega⟩
    cases hempty : chunkIsEmpty c with
    | false =>
      refine ⟨s, p :: qs, ss, pp, ?_, ⟨hl, hready.filled hc hempty, rfl⟩, ?_, Nat.le_refl _, ?_⟩
      · rw [pruneLoop, hhead]
        simp [hc, hempty]
      · simp [FrontFilled, hhead, hc, hempty]
      · intro p' c' hp' hc' hempty'
        rw [hhead, Option.some.injEq] at hp'
        rw [← hp', hc, Option.some.injEq] at hc'
        simp [← hc', hempty] at hempty'
    | true =>
      -- the empty chunk goes, and what is left is filled
      have hgone := hl.unlinkHead hc
      obtain ⟨ss1, pp1, hl1, hframe⟩ := hgone.retire hc
      have hsame : SameChunks s.heap ((s.unlinkHead p c).retire p c).heap qs :=
        SameChunks.of_eq hframe
      have hfilled := hready.tail.congr hsame
      obtain ⟨s', qs', ss', pp', hprune, hholds, hfront, hlen, -⟩ :=
        ih hl1 hfilled.ready (by simpa using hfuel : qs.length < fuel)
      refine ⟨s', qs', ss', pp', ?_, ?_, hfront, by simp; omega, fun _ _ _ _ _ => by simp; omega⟩
      · rw [pruneLoop, hhead]
        simp [hc, hempty, hprune]
      · rw [bytesOf_cons hc, (unread_eq_nil_iff hsound).mpr hempty, List.nil_append,
          ← hsame.bytesOf]
        exact hholds

theorem Layout.length_lt_fuel (hl : Layout s [] qs ss pp) : qs.length < s.fuel :=
  Nat.lt_succ_of_le hl.head.length_le

/-! ### The bytes at either end -/

/-- The chunk at the tail takes other bytes. -/
theorem Holds.setTail (hh : Holds s (qs ++ [t]) ss pp xs) (hc : s.heap.get t = some c)
    (hrw : Rewritten s.q.chunkSize c c') (hread : c'.rOffset = c.rOffset) {ys : Bytes}
    (hadd : c'.unread = c.unread ++ ys) : Holds (s.setChunk t c') (qs ++ [t]) ss pp (xs ++ ys) := by
  have hnodup : (qs ++ [t] ++ (ss ++ pp)).Nodup := hh.layout.nodup
  have ht : t ∉ qs := fun hmem =>
    (List.nodup_append.mp (List.nodup_append.mp hnodup).1).2.2 t hmem t (by simp) rfl
  have hframe : ∀ r ∈ qs, (s.setChunk t c').heap.get r = s.heap.get r := fun r hr =>
    Heap.get_set_ne (ne_of_mem_of_not_mem hr ht)
  refine ⟨hh.layout.setChunk hc hrw, ⟨?_, ?_⟩, ?_⟩
  · intro r hr cr hcr
    have hmem : r ∈ qs := by simpa using hr
    rw [hframe r hmem] at hcr
    exact hh.filled.full r hr cr hcr
  · intro r hr cr hcr
    by_cases hrt : r = t
    · subst hrt
      rw [show (s.setChunk r c').heap.get r = _ from Heap.get_set_self hc, Option.some.injEq] at hcr
      rw [← hcr, hread]
      exact hh.filled.untouched r hr c hc
    · rw [show (s.setChunk t c').heap.get r = _ from Heap.get_set_ne hrt] at hcr
      exact hh.filled.untouched r hr cr hcr
  · rw [bytesOf_concat (show (s.setChunk t c').heap.get t = some c' from Heap.get_set_self hc),
      (SameChunks.of_eq hframe).bytesOf, hadd, ← List.append_assoc, ← bytesOf_concat hc, hh.bytes]

/-- The chunk at the head loses bytes; where some are left, its write end stays. -/
theorem Holds.setHead (hh : Holds s (p :: qs) ss pp xs) (hc : s.heap.get p = some c)
    (hrw : Rewritten s.q.chunkSize c c')
    (hwrite : chunkIsEmpty c' = false → c'.wOffset = c.wOffset) :
    Layout (s.setChunk p c') [] (p :: qs) ss pp ∧ Ready (s.setChunk p c').heap (p :: qs) ∧
      bytesOf (s.setChunk p c').heap (p :: qs) = c'.unread ++ bytesOf s.heap qs := by
  have hp : p ∉ qs := fun hmem => (List.nodup_cons.mp hh.layout.nodup).1 (by simp [hmem])
  have hself : (s.setChunk p c').heap.get p = some c' := Heap.get_set_self hc
  have hframe : ∀ r ∈ qs, (s.setChunk p c').heap.get r = s.heap.get r := fun r hr =>
    Heap.get_set_ne (ne_of_mem_of_not_mem hr hp)
  have hsound := hh.layout.sound_of_get (by simp) hc
  refine ⟨hh.layout.setChunk hc hrw, ⟨?_, ?_, ?_⟩, ?_⟩
  · intro r hr cr hcr hsome
    by_cases hrp : r = p
    · subst hrp
      rw [hself, Option.some.injEq] at hcr
      subst hcr
      rw [hwrite hsome, (hh.filled.full r hr c hc).1, hsound.dlen, hrw.sound.dlen]
    · have hmem : r ∈ qs := List.mem_of_ne_of_mem hrp (List.dropLast_subset _ hr)
      rw [hframe r hmem] at hcr
      exact (hh.filled.full r hr cr hcr).1
  · intro r hr cr hcr
    rw [hframe r (List.dropLast_subset _ hr)] at hcr
    exact hh.filled.ready.rest r hr cr hcr
  · intro r hr cr hcr
    rw [hframe r hr] at hcr
    exact hh.filled.untouched r hr cr hcr
  · rw [bytesOf_cons hself, (SameChunks.of_eq hframe).bytesOf]

/-- A full chunk has unread bytes. -/
theorem BufChunk.Sound.lt_of_full {size : Nat} (hs : c.Sound size) (hpos : 0 < size)
    (hfull : chunkIsFull c = true) : c.wOffset = c.dlen ∧ c.rOffset < c.wOffset := by
  have hdlen := hs.dlen
  have hread := hs.read
  have hwrite := hs.write
  have hstart := hs.start
  simp only [chunkIsFull, ge_iff_le, decide_eq_true_eq] at hfull
  omega

/-- The tail has room, or there is none that has. -/
def TailFull (s : State) : Prop :=
  ∀ t c, s.q.tail = some t → s.heap.get t = some c → chunkIsFull c = true

theorem Holds.filled_of_tailFull (hh : Holds s qs ss pp xs) (hfull : TailFull s) (hp : p ∈ qs)
    (hc : s.heap.get p = some c) : c.wOffset = c.dlen ∧ c.rOffset < c.wOffset := by
  have hsound := hh.layout.sound_of_get (by simp [hp]) hc
  rcases List.eq_nil_or_concat qs with rfl | ⟨rest, t, rfl⟩
  · cases hp
  · rw [List.concat_eq_append] at *
    by_cases hpt : p = t
    · subst hpt
      have htail : s.q.tail = some p := by rw [hh.layout.tail, List.getLast?_concat]
      exact hsound.lt_of_full hh.layout.size (hfull p c htail hc)
    · exact hh.filled.full p (by simpa [hpt] using hp) c hc

/-- What `get_non_full_tail` returns: nothing, or a tail with room. -/
structure OpenTail (s' : State) (t : Ptr) (c : BufChunk) (qs' ss' pp' : List Ptr) (xs : Bytes) :
    Prop where
  holds : Holds s' (qs' ++ [t]) ss' pp' xs
  get : s'.heap.get t = some c
  sound : c.Sound s'.q.chunkSize
  room : c.wOffset < c.dlen

theorem Holds.newTail (hh : Holds s qs ss pp xs) (hfull : TailFull s) :
    Buffer.newTail s = some (s, none) ∨
      ∃ s' t c ss' pp', Buffer.newTail s = some (s', some t) ∧ OpenTail s' t c qs ss' pp' xs ∧
        c.dlen - c.wOffset = s'.q.chunkSize ∧ supply s ss pp = supply s' ss' pp' + 1 := by
  rcases hh.layout.newTail with hnone | ⟨s', t, ss', pp', hnew, hl⟩
  · exact .inl hnone
  obtain ⟨c, hc, hread, hwrite⟩ := hl.empty
  have hsound := hl.layout.sound_of_get (by simp) hc
  have hpos := hl.layout.size
  have hroom : c.dlen - c.wOffset = s'.q.chunkSize := by
    rw [hwrite, hsound.dlen]
    rfl
  refine .inr ⟨s', t, c, ss', pp', hnew, ⟨⟨hl.layout, ⟨?_, ?_⟩, ?_⟩, hc, hsound, by omega⟩, hroom,
    hl.supply⟩
  · intro r hr cr hcr
    rw [List.dropLast_concat] at hr
    obtain ⟨c, hc, heq⟩ := hl.frame.get hr hcr
    have hfields := hh.filled_of_tailFull hfull hr hc
    have hread : cr.rOffset = c.rOffset := congrArg (fun c => c.rOffset) heq
    have hwrite : cr.wOffset = c.wOffset := congrArg (fun c => c.wOffset) heq
    have hdlen : cr.dlen = c.dlen := congrArg (fun c => c.dlen) heq
    rw [hread, hwrite, hdlen]
    exact hfields
  · intro r hr cr hcr
    cases qs with
    | nil => cases hr
    | cons q qs =>
      rcases List.mem_append.mp hr with hr | hr
      · exact (hh.filled.congr hl.frame).untouched r hr cr hcr
      · obtain rfl := List.mem_singleton.mp hr
        rw [hc, Option.some.injEq] at hcr
        rw [← hcr, hread]
  · have hnil : c.unread = [] := by
      rw [BufChunk.unread, hwrite, Nat.zero_sub, List.take_zero]
    rw [bytesOf_concat hc, hnil, List.append_nil, hl.frame.bytesOf, hh.bytes]

/-- The chunk that is taken from the supply is room at the tail. -/
theorem Holds.nonFullTail (hh : Holds s qs ss pp xs) :
    getNonFullTail s = some (s, none) ∨
      ∃ s' t c qs' ss' pp', getNonFullTail s = some (s', some t) ∧
        OpenTail s' t c qs' ss' pp' xs ∧
        (supply s ss pp = supply s' ss' pp' ∧ ¬TailFull s ∨
          supply s ss pp = supply s' ss' pp' + 1 ∧ c.dlen - c.wOffset = s'.q.chunkSize) := by
  by_cases hfull : TailFull s
  · have hnew : getNonFullTail s = Buffer.newTail s := by
      unfold getNonFullTail
      cases htail : s.q.tail with
      | none => rfl
      | some t =>
        obtain ⟨c, hc⟩ := hh.back htail
        simp [hc, hfull t c htail hc]
    rw [hnew]
    rcases hh.newTail hfull with hnone | ⟨s', t, c, ss', pp', htail, hopen, hroom, hsupply⟩
    · exact .inl hnone
    · exact .inr ⟨s', t, c, qs, ss', pp', htail, hopen, .inr ⟨hsupply, hroom⟩⟩
  · have hopen := hfull
    unfold TailFull at hopen
    push Not at hopen
    obtain ⟨t, c, htail, hc, hroom⟩ := hopen
    obtain ⟨rest, rfl⟩ : ∃ rest, qs = rest ++ [t] :=
      List.getLast?_eq_some_iff.mp (hh.layout.tail.symm.trans htail)
    have hsound := hh.layout.sound_of_get (by simp) hc
    have hlt : c.wOffset < c.dlen := by simpa [chunkIsFull] using hroom
    refine .inr ⟨s, t, c, rest, ss, pp, ?_, ⟨hh, hc, hsound, hlt⟩, .inl ⟨rfl, hfull⟩⟩
    unfold getNonFullTail
    rw [htail]
    simp [hc, hroom]

/-! ### Reading -/

/-- The chunk at the head loses its first bytes, and then the empty chunks go. -/
theorem Holds.consume (hh : Holds s (p :: qs) ss pp xs) (hc : s.heap.get p = some c)
    (hrw : Rewritten s.q.chunkSize c c')
    (hwrite : chunkIsEmpty c' = false → c'.wOffset = c.wOffset) {len : Nat}
    (hdrop : c'.unread = c.unread.drop len) :
    ∃ s' qs' ss' pp', pruneHead (s.setChunk p c') = some s' ∧
      Holds s' qs' ss' pp' (c.unread.drop len ++ bytesOf s.heap qs) ∧
      qs'.length ≤ qs.length + 1 ∧ (c.unread.length ≤ len → qs'.length ≤ qs.length) := by
  obtain ⟨hl, hready, hbytes⟩ := hh.setHead hc hrw hwrite
  obtain ⟨s', qs', ss', pp', hprune, hholds, -, hlen, hless⟩ :=
    prune_spec hl hready hl.length_lt_fuel
  rw [hbytes, hdrop] at hholds
  refine ⟨s', qs', ss', pp', hprune, hholds, hlen, fun hall => ?_⟩
  have hempty : chunkIsEmpty c' = true := by
    rw [← unread_eq_nil_iff hrw.sound, hdrop, List.drop_eq_nil_iff]
    exact hall
  exact Nat.le_of_lt_succ (hless p c' hl.head.start_eq (Heap.get_set_self hc) hempty)

theorem readLoop_zero (out : Bytes) (hfuel : 0 < fuel) :
    readLoop fuel s 0 out = some (s, out) := by
  obtain ⟨fuel, rfl⟩ : ∃ k, fuel = k + 1 := ⟨fuel - 1, by omega⟩
  rw [readLoop]
  cases s.q.head <;> rfl

theorem skipLoop_zero (hfuel : 0 < fuel) : skipLoop fuel s 0 = some s := by
  obtain ⟨fuel, rfl⟩ : ∃ k, fuel = k + 1 := ⟨fuel - 1, by omega⟩
  rw [skipLoop]
  cases s.q.head <;> rfl

/-- Reading takes the first bytes, and skipping leaves the same queue. -/
theorem readLoop_spec (len : Nat) (out : Bytes) (hh : Holds s qs ss pp xs)
    (hfuel : qs.length < fuel) :
    ∃ s', readLoop fuel s len out = some (s', out ++ xs.take len) ∧
      skipLoop fuel s len = some s' ∧ Rep s' (xs.drop len) := by
  induction fuel generalizing s qs ss pp xs len out with
  | zero => omega
  | succ fuel ih =>
    by_cases hlen : len = 0
    · subst hlen
      rw [readLoop_zero out (Nat.succ_pos fuel), skipLoop_zero (Nat.succ_pos fuel), List.take_zero,
        List.append_nil, List.drop_zero]
      exact ⟨s, rfl, rfl, qs, ss, pp, hh⟩
    cases qs with
    | nil =>
      have hhead : s.q.head = none := hh.layout.head.start_eq
      have hnil : xs = [] := hh.bytes.symm
      subst hnil
      rw [readLoop, skipLoop, hhead, List.take_nil, List.append_nil, List.drop_nil]
      exact ⟨s, rfl, rfl, [], ss, pp, hh⟩
    | cons p qs =>
      obtain ⟨hhead, c, hc, hsound, hxs⟩ := hh.front
      obtain ⟨s1, qs1, ss1, pp1, hprune, hholds, hle, hless⟩ := hh.consume hc
        (chunkRead_rewritten hsound len) (chunkRead_offset c len) (chunkRead_unread c len)
      have hstep : readLoop (fuel + 1) s len out =
          readLoop fuel s1 (len - (c.unread.take len).length) (out ++ c.unread.take len) := by
        rw [readLoop, hhead]
        simp [hlen, hc, hprune, chunkRead_bytes]
      have hskip : skipLoop (fuel + 1) s len =
        skipLoop fuel s1 (len - (c.unread.take len).length) := by
        rw [skipLoop, hhead]
        simp [hlen, hc, hprune, chunkSkip_eq hsound]
      rw [hstep, hskip, hxs, List.take_append, List.drop_append, List.length_take]
      rw [List.length_cons] at hfuel
      by_cases hall : c.unread.length ≤ len
      · -- the chunk is read to its end
        rw [List.drop_eq_nil_of_le hall, List.nil_append] at hholds ⊢
        rw [Nat.min_eq_right hall, ← List.append_assoc]
        exact ih (len - c.unread.length) (out ++ c.unread.take len) hholds
          (by have := hless hall; omega)
      · -- bytes are left in the chunk
        rw [Nat.min_eq_left (by omega), Nat.sub_self, readLoop_zero _ (by omega),
          skipLoop_zero (by omega), Nat.sub_eq_zero_of_le (by omega), List.take_zero,
          List.append_nil, List.drop_zero]
        exact ⟨s1, rfl, rfl, qs1, ss1, pp1, hholds⟩

theorem bufqRead_spec (len : Nat) (hrep : Rep s xs) :
    ∃ s', bufqRead s len =
        some (s', if xs.take len = [] then .again else .ok, xs.take len) ∧
      Rep s' (xs.drop len) := by
  obtain ⟨qs, ss, pp, hh⟩ := hrep
  obtain ⟨s', hread, -, hrep⟩ := readLoop_spec len [] hh hh.layout.length_lt_fuel
  rw [List.nil_append] at hread
  refine ⟨s', ?_, hrep⟩
  rw [bufqRead, hread]
  rfl

theorem bufqSkip_spec (amount : Nat) (hrep : Rep s xs) :
    ∃ s', bufqSkip s amount = some s' ∧ Rep s' (xs.drop amount) := by
  obtain ⟨qs, ss, pp, hh⟩ := hrep
  obtain ⟨s', -, hskip, hrep⟩ := readLoop_spec amount [] hh hh.layout.length_lt_fuel
  exact ⟨s', hskip, hrep⟩

/-! ### Looking -/

/-- What a peek shows of the bytes `xs`: some of them, unless there are none. -/
def Shows (xs : Bytes) : Option Bytes → Prop
  | none => xs = []
  | some bytes => bytes ≠ [] ∧ bytes <+: xs

/-- After the empty chunks are gone, the head is empty only where the queue is. -/
theorem pruneEmptyHead_spec (hh : Holds s qs ss pp xs) :
    ∃ s' qs' ss' pp', pruneEmptyHead s = some s' ∧ Holds s' qs' ss' pp' xs ∧ FrontFilled s' ∧
      qs'.length ≤ qs.length := by
  unfold pruneEmptyHead
  cases qs with
  | nil =>
    have hhead : s.q.head = none := hh.layout.head.start_eq
    rw [hhead]
    exact ⟨s, [], ss, pp, rfl, hh, by simp [FrontFilled, hhead], Nat.le_refl _⟩
  | cons p qs =>
    obtain ⟨hhead, c, hc, -, -⟩ := hh.front
    rw [hhead]
    cases hempty : chunkIsEmpty c with
    | false =>
      refine ⟨s, p :: qs, ss, pp, ?_, hh, by simp [FrontFilled, hhead, hc, hempty], Nat.le_refl _⟩
      simp [hc, hempty]
    | true =>
      obtain ⟨s1, qs1, ss1, pp1, hprune, hholds, hfilled, hlen, -⟩ :=
        prune_spec hh.layout hh.filled.ready hh.layout.length_lt_fuel
      refine ⟨s1, qs1, ss1, pp1, ?_, hh.bytes ▸ hholds, hfilled, hlen⟩
      simp [hc, hempty, pruneHead, hprune]

theorem peekHead_spec (hh : Holds s qs ss pp xs) (hfront : FrontFilled s) :
    ∃ shown, peekHead s = some shown ∧ Shows xs shown := by
  unfold peekHead
  cases qs with
  | nil =>
    have hhead : s.q.head = none := hh.layout.head.start_eq
    rw [hhead]
    exact ⟨none, rfl, hh.bytes.symm⟩
  | cons p qs =>
    have hhead : s.q.head = some p := hh.layout.head.start_eq
    obtain ⟨c, hc, hsome⟩ := hfront p hhead
    have hsound := hh.layout.sound_of_get (by simp) hc
    rw [hhead]
    refine ⟨some (chunkPeek c), by simp [hc, hsome], ?_, ?_⟩
    · intro hnil
      rw [(unread_eq_nil_iff hsound).mp hnil] at hsome
      cases hsome
    · rw [← hh.bytes, bytesOf_cons hc]
      exact List.prefix_append _ _

theorem bufqPeek_spec (hrep : Rep s xs) :
    ∃ s' shown, bufqPeek s = some (s', shown) ∧ Shows xs shown ∧ Rep s' xs := by
  obtain ⟨qs, ss, pp, hh⟩ := hrep
  obtain ⟨s', qs', ss', pp', hprune, hholds, hfront, -⟩ := pruneEmptyHead_spec hh
  obtain ⟨shown, hpeek, hshows⟩ := peekHead_spec hholds hfront
  refine ⟨s', shown, ?_, hshows, qs', ss', pp', hholds⟩
  simp [bufqPeek, hprune, hpeek]

theorem peekLoop_spec {start : Option Ptr} {size : Nat} (offset : Nat)
    (hchain : Chain BufChunk.next h start qs) (hfilled : Filled h qs)
    (hsound : ∀ p ∈ qs, ∃ c, h.get p = some c ∧ c.Sound size) (hfuel : qs.length < fuel) :
    ∃ shown, peekLoop h fuel start offset = some shown ∧
      Shows ((bytesOf h qs).drop offset) shown := by
  induction qs generalizing start fuel offset with
  | nil =>
    obtain ⟨fuel, rfl⟩ : ∃ k, fuel = k + 1 := ⟨fuel - 1, by omega⟩
    have hstart : start = none := hchain.start_eq
    subst hstart
    exact ⟨none, rfl, List.drop_nil⟩
  | cons p qs ih =>
    obtain ⟨fuel, rfl⟩ : ∃ k, fuel = k + 1 := ⟨fuel - 1, by omega⟩
    have hstart : start = some p := hchain.start_eq
    subst hstart
    obtain ⟨c, hc, hs⟩ := hsound p (by simp)
    have hnext := hchain.rest hc
    rw [bytesOf_cons hc, List.drop_append, peekLoop]
    simp only [Option.bind_eq_bind, hc, Option.bind_some, ← unread_length hs]
    by_cases hempty : c.unread.length = 0
    · have hnil := List.length_eq_zero_iff.mp hempty
      obtain rfl := hfilled.eq_nil_of_empty hc ((unread_eq_nil_iff hs).mp hnil)
      rw [if_pos hempty, hnil]
      exact ⟨none, rfl, by simp [Shows, bytesOf]⟩
    rw [if_neg hempty]
    split
    · rename_i hge
      rw [List.drop_eq_nil_of_le hge, List.nil_append]
      exact ih (offset - c.unread.length) hnext hfilled.ready.tail
        (fun q hq => hsound q (by simp [hq]))
        (by simpa using hfuel)
    · rename_i hlt
      refine ⟨_, rfl, ?_, ?_⟩
      · rw [chunkPeekAt_eq]
        exact fun hnil => hlt (List.drop_eq_nil_iff.mp hnil)
      · rw [chunkPeekAt_eq]
        exact List.prefix_append _ _

theorem bufqPeekAt_spec (offset : Nat) (hrep : Rep s xs) :
    ∃ shown, bufqPeekAt s offset = some shown ∧ Shows (xs.drop offset) shown := by
  obtain ⟨qs, ss, pp, hh⟩ := hrep
  rw [← hh.bytes]
  exact peekLoop_spec offset hh.layout.head hh.filled
    (fun p hp => hh.layout.sound p (by simp [hp])) hh.layout.length_lt_fuel

theorem lenLoop_spec {start : Option Ptr} {size : Nat} (hchain : Chain BufChunk.next h start qs)
    (hsound : ∀ p ∈ qs, ∃ c, h.get p = some c ∧ c.Sound size) (hfuel : qs.length < fuel) :
    lenLoop h fuel start = some (bytesOf h qs).length := by
  induction qs generalizing start fuel with
  | nil =>
    obtain ⟨fuel, rfl⟩ : ∃ k, fuel = k + 1 := ⟨fuel - 1, by omega⟩
    have hstart : start = none := hchain.start_eq
    subst hstart
    rfl
  | cons p qs ih =>
    obtain ⟨fuel, rfl⟩ : ∃ k, fuel = k + 1 := ⟨fuel - 1, by omega⟩
    have hstart : start = some p := hchain.start_eq
    subst hstart
    obtain ⟨c, hc, hs⟩ := hsound p (by simp)
    have hnext := hchain.rest hc
    have hrec :=
      ih hnext (fun q hq => hsound q (by simp [hq])) (by simpa using hfuel : qs.length < fuel)
    rw [bytesOf_cons hc, List.length_append, unread_length hs, lenLoop]
    simp [hc, hrec]

theorem bufqLen_spec (hrep : Rep s xs) : bufqLen s = some xs.length := by
  obtain ⟨qs, ss, pp, hh⟩ := hrep
  rw [← hh.bytes]
  exact lenLoop_spec hh.layout.head (fun p hp => hh.layout.sound p (by simp [hp]))
    hh.layout.length_lt_fuel

/-- A queue holds no other bytes than those it holds. -/
theorem Rep.unique {ys : Bytes} (hrep : Rep s xs) (hrep' : Rep s ys) : xs = ys := by
  have hlen := bufqLen_spec hrep
  obtain ⟨s1, hread, -⟩ := bufqRead_spec xs.length hrep
  obtain ⟨s2, hread', -⟩ := bufqRead_spec xs.length hrep'
  rw [bufqLen_spec hrep', Option.some.injEq] at hlen
  rw [hread] at hread'
  simp only [Option.some.injEq, Prod.mk.injEq, List.take_length] at hread'
  rw [hread'.2.2, ← hlen, List.take_length]

theorem bufqIsEmpty_spec (hrep : Rep s xs) : bufqIsEmpty s = some (decide (xs = [])) := by
  obtain ⟨qs, ss, pp, hh⟩ := hrep
  unfold bufqIsEmpty
  cases qs with
  | nil =>
    have hhead : s.q.head = none := hh.layout.head.start_eq
    have hnil : xs = [] := hh.bytes.symm
    rw [hhead, hnil]
    rfl
  | cons p qs =>
    obtain ⟨hhead, c, hc, hsound, hxs⟩ := hh.front
    rw [hhead]
    dsimp only
    rw [hc, Option.map_some, Option.some.injEq]
    cases hempty : chunkIsEmpty c with
    | false =>
      have hne : xs ≠ [] := by
        intro hnil
        rw [hxs, List.append_eq_nil_iff] at hnil
        rw [(unread_eq_nil_iff hsound).mp hnil.1] at hempty
        cases hempty
      simp [hne]
    | true =>
      have hnil : xs = [] := by
        rw [hxs, (unread_eq_nil_iff hsound).mpr hempty, hh.filled.eq_nil_of_empty hc hempty]
        rfl
      simp [hnil]

end Gurl.Buffer
