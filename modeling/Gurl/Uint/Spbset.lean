import Gurl.Uint.Bset

/-! uint-spbset.c: sparse sets of numbers, as a list of chunks of 256 numbers each. -/

namespace Gurl.Uint

open Enumerate

/-- `CURL_UINT32_SPBSET_CH_SLOTS`. -/
def chSlots : Nat := 4

/-- `CURL_UINT32_SPBSET_CH_MASK`. -/
def chMask : Nat := chSlots * 64 - 1

/-- `uint32_spbset_chunk`: the numbers from `offset` on. -/
structure Chunk where
  slots : List (BitVec 64)
  offset : Nat
  size : slots.length = chSlots

/-- An empty chunk, as calloc gives it, at an offset. -/
def Chunk.zero (offset : Nat) : Chunk :=
  ⟨List.replicate chSlots 0#64, offset, List.length_replicate⟩

/-- `uint32_spbset`: the embedded chunk, and those that it leads to. -/
structure Spbset where
  head : Chunk
  chunks : List Chunk

/-- `i & ~CURL_UINT32_SPBSET_CH_MASK`. -/
def chOffset (i : Nat) : Nat := i &&& (UINT32_MAX - chMask)

/-- Where the search for an offset stops: at a chunk, or in front of one. -/
inductive Place where
  | chunk (k : Nat)
  | gap (k : Nat)

def findChunk (offset : Nat) : Nat → List Chunk → Place
  | k, [] => .gap k
  | k, chunk :: rest =>
    if chunk.offset = offset then .chunk k
    else if offset < chunk.offset then .gap k
    else findChunk offset (k + 1) rest

def Chunk.addBit (chunk : Chunk) (i : Nat) : Chunk :=
  ⟨setBit chunk.slots (i - chunk.offset), chunk.offset, by rw [length_setBit, chunk.size]⟩

def Chunk.removeBit (chunk : Chunk) (i : Nat) : Chunk :=
  ⟨clearBit chunk.slots (i - chunk.offset), chunk.offset, by rw [length_clearBit, chunk.size]⟩

namespace Spbset

def init : Spbset where
  head := .zero 0
  chunks := []

def clear (_bset : Spbset) : Spbset where
  head := .zero 0
  chunks := []

/-- All chunks in the order of the list. -/
def all (bset : Spbset) : List Chunk := bset.head :: bset.chunks

/-- Change chunk `k`. -/
def update (bset : Spbset) (k : Nat) (f : Chunk → Chunk) : Spbset :=
  match k with
  | 0 => { bset with head := f bset.head }
  | k + 1 => { bset with chunks := bset.chunks.modify k f }

/-- A new chunk in front of chunk `k`, and where it is. -/
def insertAt (bset : Spbset) (k : Nat) (offset : Nat) : Spbset × Nat :=
  match k with
  | k + 1 => ({ bset with chunks := bset.chunks.insertIdx k (.zero offset) }, k + 1)
  | 0 =>
    -- prepend to head, switching places
    (⟨.zero 0, { bset.head with offset := offset } :: bset.chunks⟩, 1)

/-- The set, with the chunk for `i` in it when `grow`, and where that is; `granted` is whether
calloc has memory. -/
def getChunk (bset : Spbset) (i : Nat) (grow granted : Bool) : Spbset × Option Nat :=
  match findChunk (chOffset i) 0 bset.all with
  | .chunk k => (bset, some k)
  | .gap k =>
    if grow && granted then
      let (bset, k) := bset.insertAt k (chOffset i)
      (bset, some k)
    else (bset, none)

def countChunks : Nat → List Chunk → Nat
  | n, [] => n
  | n, chunk :: rest => countChunks (countSlots n chunk.slots) rest

def count (bset : Spbset) : Nat := countChunks 0 bset.all

def add (bset : Spbset) (i : Nat) (granted : Bool) : Bool × Spbset :=
  match bset.getChunk i true granted with
  | (bset, some k) => (true, bset.update k (·.addBit i))
  | (bset, none) => (false, bset)

def remove (bset : Spbset) (i : Nat) : Spbset :=
  match bset.getChunk i false false with
  | (bset, some k) => bset.update k (·.removeBit i)
  | (bset, none) => bset

def contains (bset : Spbset) (i : Nat) : Bool :=
  match bset.getChunk i false false with
  | (bset, some k) =>
    match bset.all[k]? with
    | some chunk => hasBit chunk.slots (i - chunk.offset)
    | none => false
  | (_, none) => false

/-- The loop over the chunks that looks for the first number. -/
def firstIn : List Chunk → Option Nat
  | [] => none
  | chunk :: rest =>
    match firstUsed 0 chunk.slots with
    | some (i, x) => some ((chunk.offset + (i * 64 + ctz64 x)) % 2 ^ 32)
    | none => firstIn rest

/-- What is returned, and what `*pfirst` becomes. -/
def first (bset : Spbset) : Bool × Nat :=
  match firstIn bset.all with
  | some n => (true, n)
  | none => (false, 0) -- give it a defined value even if it should not be used

end Spbset

/-- `uint32_spbset_chunk_next`. -/
def Chunk.next (chunk : Chunk) (last : Nat) : Bool × Nat :=
  if chunk.offset ≤ last then
    let i := (last - chunk.offset) / 64
    if i < chSlots then
      let x := chunk.slots.getD i 0#64 >>> (last % 64)
      if x ≠ 0#64 then (true, (last + ctz64 x) % 2 ^ 32)
      else
        match firstUsed (i + 1) (chunk.slots.drop (i + 1)) with
        | some (i, x) => (true, (chunk.offset + (i * 64 + ctz64 x)) % 2 ^ 32)
        | none => (false, UINT32_MAX)
    else (false, UINT32_MAX)
  else (false, UINT32_MAX)

/-- What is returned, and what `*pnext` becomes. -/
def Spbset.next (bset : Spbset) (last : Nat) : Bool × Nat :=
  let last := (last + 1) % 2 ^ 32
  let lastOffset := chOffset last
  match bset.all.dropWhile (·.offset < lastOffset) with
  | [] => (false, UINT32_MAX)
  | chunk :: rest =>
    if chunk.offset = lastOffset then
      -- is there a number higher than last in this chunk?
      match chunk.next last with
      | (true, n) => (true, n)
      | (false, _) => found (firstIn rest)
    else found (firstIn (chunk :: rest))

/-! ### The set that it stands for -/

namespace Spbset

/-- The calls, with numbers below `UINT32_MAX` as members. -/
inductive Op where
  | add (i : Fin UINT32_MAX)
  | remove (i : UInt32)
  | contains (i : UInt32)
  | count
  | first
  | next (last : UInt32)
  | clear

def step (bset : Spbset) : Op → Spbset × Answer
  | .add i =>
    let r := bset.add i true
    (r.2, .bool r.1)
  | .remove i => (bset.remove i.toNat, .done)
  | .contains i => (bset, .bool (bset.contains i.toNat))
  | .count => (bset, .number bset.count)
  | .first => (bset, .found bset.first)
  | .next last => (bset, .found (bset.next last.toNat))
  | .clear => (bset.clear, .done)

/-- The calls on the set itself. -/
def setStep (S : Finset Nat) : Op → Finset Nat × Answer
  | .add i => (insert i.val S, .bool true)
  | .remove i => (S.erase i.toNat, .done)
  | .contains i => (S, .bool (decide (i.toNat ∈ S)))
  | .count => (S, .number S.card)
  | .first => (S, .found (match least S with | some n => (true, n) | none => (false, 0)))
  | .next last => (S, .found (found (least (above S last.toNat))))
  | .clear => (∅, .done)

end Spbset

/-- The numbers of a chunk. -/
def Chunk.members (chunk : Chunk) : Finset Nat :=
  (Uint.members chunk.slots).image (chunk.offset + ·)

/-- The numbers of a list of chunks. -/
def allMembers : List Chunk → Finset Nat
  | [] => ∅
  | chunk :: rest => chunk.members ∪ allMembers rest

/-- The chunks are in order, each at a multiple of its size. -/
structure Ordered (chunks : List Chunk) : Prop where
  aligned : ∀ chunk ∈ chunks, chunk.offset % 256 = 0 ∧ chunk.offset < 2 ^ 32
  sorted : chunks.Pairwise fun c d => c.offset < d.offset

/-- The chunks hold the set, in order and from 0 on. -/
structure Spbset.Holds (bset : Spbset) (S : Finset Nat) : Prop where
  ordered : Ordered bset.all
  head : bset.head.offset = 0
  members : allMembers bset.all = S
  bounded : ∀ n ∈ S, n < UINT32_MAX

/-! The chunks of a sparse set stay in order, and hold what the set holds. -/

open BitFields

variable {chunk c : Chunk} {cs pre post : List Chunk} {bset : Spbset} {S : Finset Nat}
  {i n o k : Nat}

/-! ### One chunk -/

theorem chOffset_eq (hi : i < 2 ^ 32) : chOffset i = i / 256 * 256 := by
  have hsplit := land_append (i / 2 ^ 8) (2 ^ 24 - 1) (Nat.mod_lt i (Nat.two_pow_pos 8))
    (Nat.two_pow_pos 8)
  have hmask : UINT32_MAX - chMask = 2 ^ 8 * (2 ^ 24 - 1) + 0 := by decide
  rw [Nat.div_add_mod, Nat.and_two_pow_sub_one_eq_mod, Nat.and_zero,
    Nat.mod_eq_of_lt (by omega)] at hsplit
  rw [chOffset, hmask, hsplit]
  omega

theorem mem_chunk : n ∈ chunk.members ↔ chunk.offset ≤ n ∧ has chunk.slots (n - chunk.offset) := by
  unfold Chunk.members
  rw [Finset.mem_image]
  constructor
  · rintro ⟨m, hm, rfl⟩
    rw [Nat.add_sub_cancel_left]
    exact ⟨Nat.le_add_right _ _, mem_members.mp hm⟩
  · rintro ⟨hle, hhas⟩
    exact ⟨n - chunk.offset, mem_members.mpr hhas, Nat.add_sub_cancel' hle⟩

theorem chunk_bounds (h : n ∈ chunk.members) : chunk.offset ≤ n ∧ n < chunk.offset + 256 := by
  obtain ⟨hle, hhas⟩ := mem_chunk.mp h
  have hlt := has_lt hhas
  rw [chunk.size, chSlots] at hlt
  omega

theorem members_zero (o : Nat) : (Chunk.zero o).members = ∅ := by
  refine Finset.eq_empty_of_forall_notMem fun n hn => ?_
  have hzero : has ((List.replicate chSlots 0#64).map fun _ => 0#64) (n - o) = false :=
    has_zeros (n - o)
  rw [List.map_replicate] at hzero
  have := (mem_chunk.mp hn).2
  rw [Chunk.zero, hzero] at this
  exact Bool.noConfusion this

theorem members_addBit (hle : chunk.offset ≤ i) (hlt : i < chunk.offset + 256) :
    (chunk.addBit i).members = insert i chunk.members := by
  ext n
  rw [mem_chunk, Finset.mem_insert, mem_chunk, Chunk.addBit]
  dsimp only
  rw [has_setBit (by rw [chunk.size, chSlots]; omega), Bool.or_eq_true, decide_eq_true_iff]
  constructor
  · rintro ⟨hn, heq | hhas⟩
    · exact .inl (by omega)
    · exact .inr ⟨hn, hhas⟩
  · rintro (rfl | ⟨hn, hhas⟩)
    · exact ⟨hle, .inl rfl⟩
    · exact ⟨hn, .inr hhas⟩

theorem members_removeBit (hle : chunk.offset ≤ i) (hlt : i < chunk.offset + 256) :
    (chunk.removeBit i).members = chunk.members.erase i := by
  ext n
  rw [mem_chunk, Finset.mem_erase, mem_chunk, Chunk.removeBit]
  dsimp only
  rw [has_clearBit (by rw [chunk.size, chSlots]; omega), Bool.and_eq_true, Bool.not_eq_true',
    decide_eq_false_iff_not]
  constructor
  · rintro ⟨hn, hne, hhas⟩
    exact ⟨by omega, hn, hhas⟩
  · rintro ⟨hne, hn, hhas⟩
    exact ⟨hn, by omega, hhas⟩

/-! ### The list of chunks -/

theorem mem_allMembers : n ∈ allMembers cs ↔ ∃ c ∈ cs, n ∈ c.members := by
  induction cs with
  | nil => simp [allMembers]
  | cons c cs ih => simp [allMembers, ih]

theorem allMembers_append (pre post : List Chunk) :
    allMembers (pre ++ post) = allMembers pre ∪ allMembers post := by
  ext n
  simp only [Finset.mem_union, mem_allMembers, List.mem_append, or_and_right, exists_or]

/-- Only the offsets matter for the order. -/
theorem Ordered.congr {ds : List Chunk} (h : Ordered cs)
    (hoffsets : ds.map (·.offset) = cs.map (·.offset)) : Ordered ds := by
  constructor
  · intro d hd
    obtain ⟨c, hc, heq⟩ := List.mem_map.mp (hoffsets ▸ List.mem_map_of_mem hd)
    have := h.aligned c hc
    rwa [heq] at this
  · have := List.pairwise_map.mpr h.sorted
    rw [← hoffsets] at this
    exact List.pairwise_map.mp this

theorem Ordered.tail (h : Ordered (c :: cs)) : Ordered cs :=
  ⟨fun d hd => h.aligned d (List.mem_cons_of_mem _ hd), (List.pairwise_cons.mp h.sorted).2⟩

/-- What is in later chunks is above all of this one. -/
theorem Ordered.later (h : Ordered (c :: cs)) (hn : n ∈ allMembers cs) : c.offset + 256 ≤ n := by
  obtain ⟨d, hd, hn⟩ := mem_allMembers.mp hn
  have hlt := (List.pairwise_cons.mp h.sorted).1 d hd
  have hc := (h.aligned c List.mem_cons_self).1
  have hd := (h.aligned d (List.mem_cons_of_mem _ hd)).1
  have := (chunk_bounds hn).1
  omega

theorem Ordered.below (h : Ordered (c :: cs)) : ∀ a ∈ c.members, ∀ b ∈ allMembers cs, a < b := by
  intro a ha b hb
  have := (chunk_bounds ha).2
  have := h.later hb
  omega

theorem Ordered.lt (h : Ordered cs) (hn : n ∈ allMembers cs) : n < 2 ^ 32 := by
  obtain ⟨c, hc, hn⟩ := mem_allMembers.mp hn
  have := h.aligned c hc
  have := (chunk_bounds hn).2
  omega

/-- A number in the range of a chunk is in none of the others. -/
theorem Ordered.only (h : Ordered (pre ++ c :: post)) (hle : c.offset ≤ n)
    (hlt : n < c.offset + 256) : n ∉ allMembers pre ∧ n ∉ allMembers post := by
  constructor
  · intro hn
    obtain ⟨d, hd, hn⟩ := mem_allMembers.mp hn
    have hdc := (List.pairwise_append.mp h.sorted).2.2 d hd c List.mem_cons_self
    have hd := (h.aligned d (List.mem_append_left _ hd)).1
    have hc := (h.aligned c (by simp)).1
    have := (chunk_bounds hn).2
    omega
  · intro hn
    have htail : Ordered (c :: post) :=
      ⟨fun d hd => h.aligned d (List.mem_append_right _ hd), (List.pairwise_append.mp h.sorted).2.1⟩
    have := htail.later hn
    omega

/-- The search finds the chunk with the offset, or the place that it belongs to. -/
theorem findChunk_spec (h : Ordered cs) (o k : Nat) :
    (∃ pre c post, cs = pre ++ c :: post ∧ c.offset = o ∧
        findChunk o k cs = .chunk (k + pre.length)) ∨
      ∃ pre post, cs = pre ++ post ∧ (∀ c ∈ pre, c.offset < o) ∧ (∀ c ∈ post, o < c.offset) ∧
        findChunk o k cs = .gap (k + pre.length) := by
  induction cs generalizing k with
  | nil => exact .inr ⟨[], [], rfl, by simp, by simp, rfl⟩
  | cons c cs ih =>
    have hsorted := (List.pairwise_cons.mp h.sorted).1
    unfold findChunk
    split_ifs with heq hgt
    · exact .inl ⟨[], c, cs, rfl, heq, rfl⟩
    · refine .inr ⟨[], c :: cs, rfl, by simp, ?_, rfl⟩
      intro d hd
      rcases List.mem_cons.mp hd with rfl | hd
      · exact hgt
      · exact hgt.trans (hsorted d hd)
    · rcases ih h.tail (k + 1) with ⟨pre, d, post, rfl, hd, hfind⟩ | ⟨pre, post, rfl,
        hpre, hpost, hfind⟩
      · refine .inl ⟨c :: pre, d, post, rfl, hd, ?_⟩
        rw [hfind, List.length_cons]
        congr 1
        omega
      · refine .inr ⟨c :: pre, post, rfl, ?_, hpost, ?_⟩
        · intro d hd
          rcases List.mem_cons.mp hd with rfl | hd
          · omega
          · exact hpre d hd
        · rw [hfind, List.length_cons]
          congr 1
          omega

/-- No new chunk goes in front of a head that starts at 0. -/
theorem findChunk_ne_gap_zero (h : Ordered bset.all) (hhead : bset.head.offset = 0) (o : Nat) :
    findChunk o 0 bset.all ≠ .gap 0 := by
  intro hgap
  unfold Spbset.all findChunk at hgap
  rw [hhead] at hgap
  rw [Nat.zero_add] at hgap
  split_ifs at hgap with hfound hbelow
  · exact absurd hbelow (Nat.not_lt_zero o)
  rcases findChunk_spec h.tail o 1 with ⟨pre, c, post, _, _, hfind⟩ | ⟨pre, post, _, _, _, hfind⟩
  · rw [hfind] at hgap
    cases hgap
  · rw [hfind] at hgap
    injection hgap with hk
    omega

/-! ### Changing -/

theorem modify_middle {α : Type*} (f : α → α) (xs ys : List α) (a : α) :
    (xs ++ a :: ys).modify xs.length f = xs ++ f a :: ys := by
  induction xs with
  | nil => rfl
  | cons x xs ih => simp [ih]

theorem insertIdx_middle {α : Type*} (xs ys : List α) (a : α) :
    (xs ++ ys).insertIdx xs.length a = xs ++ a :: ys := by
  induction xs with
  | nil => rfl
  | cons x xs ih => simp [ih]

theorem all_update (bset : Spbset) (k : Nat) (f : Chunk → Chunk) :
    (bset.update k f).all = bset.all.modify k f := by
  cases k <;> rfl

theorem allMembers_middle (pre post : List Chunk) (c : Chunk) :
    allMembers (pre ++ c :: post) = allMembers pre ∪ (c.members ∪ allMembers post) :=
  allMembers_append pre (c :: post)

/-- A chunk that stays where it is can hold other numbers. -/
theorem update_holds (h : bset.Holds S) (hall : bset.all = pre ++ c :: post) (f : Chunk → Chunk)
    (hf : ∀ d : Chunk, (f d).offset = d.offset) {T : Finset Nat}
    (hT : allMembers pre ∪ ((f c).members ∪ allMembers post) = T) (hbound : ∀ n ∈ T,
    n < UINT32_MAX) : (bset.update pre.length f).Holds T := by
  have hnew : (bset.update pre.length f).all = pre ++ f c :: post := by
    rw [all_update, hall, modify_middle]
  refine ⟨?_, ?_, ?_, hbound⟩
  · refine h.ordered.congr ?_
    rw [hnew, hall]
    simp [hf]
  · rw [← h.head]
    cases pre.length with
    | zero => exact hf bset.head
    | succ k => rfl
  · rw [hnew, allMembers_middle, hT]

theorem getChunk_stay (h : bset.Holds S) (hi : i < 2 ^ 32) :
    (∃ pre c post, bset.all = pre ++ c :: post ∧ c.offset = i / 256 * 256 ∧
        bset.getChunk i false false = (bset, some pre.length)) ∨
      (i ∉ S ∧ bset.getChunk i false false = (bset, none)) := by
  unfold Spbset.getChunk
  rw [chOffset_eq hi]
  rcases findChunk_spec h.ordered (i / 256 * 256) 0 with
    ⟨pre, c, post, hall, hoffset, hfind⟩ | ⟨pre, post, hall, hpre, hpost, hfind⟩
  · refine .inl ⟨pre, c, post, hall, hoffset, ?_⟩
    rw [hfind, Nat.zero_add]
  · refine .inr ⟨fun hiS => ?_, by rw [hfind]; rfl⟩
    rw [← h.members, mem_allMembers] at hiS
    obtain ⟨d, hd, hid⟩ := hiS
    have haligned := (h.ordered.aligned d hd).1
    have := chunk_bounds hid
    rw [hall, List.mem_append] at hd
    rcases hd with hd | hd
    · have := hpre d hd
      omega
    · have := hpost d hd
      omega

theorem getChunk_grow (h : bset.Holds S) (hi : i < 2 ^ 32) :
    ∃ b pre c post, bset.getChunk i true true = (b, some pre.length) ∧ b.Holds S ∧
      b.all = pre ++ c :: post ∧ c.offset = i / 256 * 256 := by
  have hne := findChunk_ne_gap_zero h.ordered h.head (i / 256 * 256)
  unfold Spbset.getChunk
  rw [chOffset_eq hi]
  rcases findChunk_spec h.ordered (i / 256 * 256) 0 with
    ⟨pre, c, post, hall, hoffset, hfind⟩ | ⟨pre, post, hall, hpre, hpost, hfind⟩
  · refine ⟨bset, pre, c, post, ?_, h, hall, hoffset⟩
    rw [hfind, Nat.zero_add]
  · rw [hfind, Nat.zero_add]
    cases pre with
    | nil => exact absurd hfind hne
    | cons d pre =>
      have hhead : bset.head = d := (List.cons.inj hall).1
      have hchunks : bset.chunks = pre ++ post := (List.cons.inj hall).2
      let b : Spbset :=
        { bset with chunks := bset.chunks.insertIdx pre.length (.zero (i / 256 * 256)) }
      have hb : b.all = d :: pre ++ .zero (i / 256 * 256) :: post := by
        show bset.head :: bset.chunks.insertIdx pre.length _ = _
        rw [hchunks, insertIdx_middle, hhead]
        rfl
      refine ⟨b, d :: pre, .zero (i / 256 * 256), post, rfl, ⟨?_, h.head, ?_, h.bounded⟩, hb, rfl⟩
      · have hold := h.ordered
        rw [hall] at hold
        rw [hb]
        have hsplit := List.pairwise_append.mp hold.sorted
        refine ⟨fun e he => ?_, List.pairwise_append.mpr ⟨hsplit.1, ?_, ?_⟩⟩
        · rcases List.mem_append.mp he with he | he
          · exact hold.aligned e (List.mem_append_left _ he)
          · rcases List.mem_cons.mp he with rfl | he
            · dsimp only [Chunk.zero]
              omega
            · exact hold.aligned e (List.mem_append_right _ he)
        · exact List.pairwise_cons.mpr ⟨hpost, hsplit.2.1⟩
        · intro e he e' he'
          rcases List.mem_cons.mp he' with rfl | he'
          · exact hpre e he
          · exact hsplit.2.2 e he e' he'
      · rw [hb, allMembers_middle, members_zero, Finset.empty_union, ← allMembers_append, ← hall]
        exact h.members

theorem add_spec (h : bset.Holds S) (hi : i < UINT32_MAX) :
    (bset.add i true).1 = true ∧ (bset.add i true).2.Holds (insert i S) := by
  have hmax : UINT32_MAX = 4294967295 := rfl
  obtain ⟨b, pre, c, post, hget, hb, hall, hoffset⟩ := getChunk_grow h (i := i) (by omega)
  unfold Spbset.add
  rw [hget]
  refine ⟨rfl, update_holds hb hall (·.addBit i) (fun _ => rfl) ?_ ?_⟩
  · rw [members_addBit (by omega) (by omega), ← hb.members, hall, allMembers_middle]
    simp only [Finset.insert_union, Finset.union_insert]
  · intro n hn
    rcases Finset.mem_insert.mp hn with rfl | hn
    · exact hi
    · exact h.bounded n hn

theorem remove_spec (h : bset.Holds S) (hi : i < 2 ^ 32) : (bset.remove i).Holds (S.erase i) := by
  unfold Spbset.remove
  rcases getChunk_stay h hi with ⟨pre, c, post, hall, hoffset, hget⟩ | ⟨hiS, hget⟩
  · rw [hget]
    have hordered := h.ordered
    rw [hall] at hordered
    obtain ⟨hpre, hpost⟩ := hordered.only (n := i) (by omega) (by omega)
    refine update_holds h hall (·.removeBit i) (fun _ => rfl) ?_
      fun n hn => h.bounded n (Finset.mem_of_mem_erase hn)
    rw [members_removeBit (by omega) (by omega), ← h.members, hall, allMembers_middle,
      Finset.erase_union_distrib, Finset.erase_union_distrib, Finset.erase_eq_of_notMem hpre,
      Finset.erase_eq_of_notMem hpost]
  · rw [hget, Finset.erase_eq_of_notMem hiS]
    exact h

/-! ### Looking -/

theorem Spbset.contains_eq (h : bset.Holds S) (hi : i < 2 ^ 32) :
    bset.contains i = decide (i ∈ S) := by
  unfold Spbset.contains
  rcases getChunk_stay h hi with ⟨pre, c, post, hall, hoffset, hget⟩ | ⟨hiS, hget⟩
  · have hordered := h.ordered
    rw [hall] at hordered
    obtain ⟨hpre, hpost⟩ := hordered.only (n := i) (by omega) (by omega)
    have hmem : i ∈ S ↔ has c.slots (i - c.offset) = true := by
      rw [← h.members, hall, allMembers_middle, Finset.mem_union, Finset.mem_union, mem_chunk]
      exact ⟨fun hi => by tauto, fun hi => .inr (.inl ⟨by omega, hi⟩)⟩
    have hat : bset.all[pre.length]? = some c := by
      rw [hall]
      simp
    rw [hget]
    dsimp only
    rw [hat]
    dsimp only
    rw [hasBit_eq, eq_comm, Bool.eq_iff_iff, decide_eq_true_iff]
    exact hmem
  · rw [hget, decide_eq_false hiS]

theorem countChunks_eq (h : Ordered cs) (hn : n < 2 ^ 32) :
    Spbset.countChunks n cs = (n + (allMembers cs).card) % 2 ^ 32 := by
  induction cs generalizing n with
  | nil => exact (Nat.mod_eq_of_lt hn).symm
  | cons c cs ih =>
    have hdisjoint : Disjoint c.members (allMembers cs) := by
      rw [Finset.disjoint_left]
      exact fun a ha hb => (h.below a ha a hb).ne rfl
    have hchunk : c.members.card = (c.slots.map popcount64).sum := by
      rw [Chunk.members, Finset.card_image_of_injective _ (add_right_injective _), card_members]
    rw [Spbset.countChunks, countSlots_sum hn, ih h.tail (Nat.mod_lt _ (by decide)),
      Nat.mod_add_mod, allMembers, Finset.card_union_of_disjoint hdisjoint, hchunk, Nat.add_assoc]

theorem Spbset.count_eq (h : bset.Holds S) : bset.count = S.card := by
  have hcard : S.card ≤ UINT32_MAX := by
    have hsub : S ⊆ Finset.range UINT32_MAX := fun n hn => Finset.mem_range.mpr (h.bounded n hn)
    simpa using Finset.card_le_card hsub
  have hmax : UINT32_MAX = 4294967295 := rfl
  rw [Spbset.count, countChunks_eq h.ordered (by decide), h.members, Nat.zero_add,
    Nat.mod_eq_of_lt (by omega)]

/-- The first number in the slots of a chunk. -/
theorem least_chunk (c : Chunk) :
    least c.members = (firstUsed 0 c.slots).map fun p => c.offset + (p.1 * 64 + ctz64 p.2) := by
  have hspec := firstUsed_spec (rfl : c.slots.drop 0 = c.slots)
  rw [Finset.filter_true_of_mem fun n _ => by omega] at hspec
  rw [Chunk.members, least_image (fun a b hab => by simpa using hab), ← hspec, Option.map_map]
  rfl

theorem firstIn_eq (h : Ordered cs) : Spbset.firstIn cs = least (allMembers cs) := by
  induction cs with
  | nil => rfl
  | cons c cs ih =>
    have hleast := least_chunk c
    rw [allMembers, least_union h.below, Spbset.firstIn, ih h.tail]
    cases hused : firstUsed 0 c.slots with
    | none =>
      rw [hleast, hused]
      rfl
    | some p =>
      rw [hused] at hleast
      have hlt := h.lt (Finset.mem_union_left _ (least_eq_some.mp hleast).1)
      rw [hleast, Option.map_some, Option.some_or]
      dsimp only
      rw [Nat.mod_eq_of_lt hlt]

/-- The first number from `last` on in the chunk that `last` belongs to. -/
theorem chunk_next_eq (haligned : c.offset % 256 = 0 ∧ c.offset < 2 ^ 32) (hle : c.offset ≤ n)
    (hlt : n < c.offset + 256) : c.next n = found (least (c.members.filter (n ≤ ·))) := by
  have hsub : c.members.filter (n ≤ ·)
      = ((members c.slots).filter (n - c.offset ≤ ·)).image (c.offset + ·) := by
    ext m
    simp only [Chunk.members, Finset.mem_filter, Finset.mem_image]
    constructor
    · rintro ⟨⟨a, ha, rfl⟩, hna⟩
      exact ⟨a, ⟨ha, by omega⟩, rfl⟩
    · rintro ⟨a, ⟨ha, hna⟩, rfl⟩
      exact ⟨⟨a, ha, rfl⟩, by omega⟩
  have hfit : ∀ {m}, m ∈ (members c.slots).filter (n - c.offset ≤ ·) →
      (c.offset + m) % 2 ^ 32 = c.offset + m := by
    intro m hm
    have := has_lt (mem_members.mp (Finset.mem_filter.mp hm).1)
    rw [c.size, chSlots] at this
    exact Nat.mod_eq_of_lt (by omega)
  have hbit : n % 64 = (n - c.offset) % 64 := by omega
  rw [hsub, least_image (fun a b hab => by simpa using hab)]
  unfold Chunk.next
  rw [if_pos hle]
  dsimp only
  rw [if_pos (by rw [chSlots]; omega), hbit]
  split_ifs with hx
  · have hspec := least_shifted rfl hx
    have hmem := hfit (least_eq_some.mp hspec).1
    rw [hspec, Option.map_some, ← hmem]
    congr 2
    omega
  · have hspec := firstUsed_spec (rfl : c.slots.drop ((n - c.offset) / 64 + 1) = _)
    rw [← filter_shifted (not_not.mp hx)] at hspec
    rw [← hspec]
    cases hused : firstUsed ((n - c.offset) / 64 + 1) (c.slots.drop ((n - c.offset) / 64 + 1)) with
    | none => rfl
    | some p =>
      rw [hused] at hspec
      have hmem := hfit (least_eq_some.mp hspec.symm).1
      dsimp only at hmem ⊢
      rw [hmem]
      rfl

theorem nextIn_eq (h : Ordered cs) (hn : n < 2 ^ 32) :
    (match cs.dropWhile (·.offset < chOffset n) with
      | [] => (false, UINT32_MAX)
      | chunk :: rest =>
        if chunk.offset = chOffset n then
          match chunk.next n with
          | (true, n) => (true, n)
          | (false, _) => found (Spbset.firstIn rest)
        else found (Spbset.firstIn (chunk :: rest)))
      = found (least ((allMembers cs).filter (n ≤ ·))) := by
  have hoffset := chOffset_eq hn
  induction cs with
  | nil => rfl
  | cons c cs ih =>
    have haligned := h.aligned c List.mem_cons_self
    rw [List.dropWhile_cons, allMembers, Finset.filter_union]
    by_cases hbefore : c.offset < chOffset n
    · have hnone : c.members.filter (n ≤ ·) = ∅ := by
        rw [Finset.filter_eq_empty_iff]
        intro m hm
        have := (chunk_bounds hm).2
        omega
      rw [if_pos (by simpa using hbefore), hnone, Finset.empty_union]
      exact ih h.tail
    · have hlater : (allMembers cs).filter (n ≤ ·) = allMembers cs := by
        refine Finset.filter_true_of_mem fun m hm => ?_
        have := h.later hm
        omega
      rw [if_neg (by simpa using hbefore), hlater]
      dsimp only
      split_ifs with hat
      · have hbelow : ∀ a ∈ c.members.filter (n ≤ ·), ∀ b ∈ allMembers cs, a < b :=
          fun a ha => h.below a (Finset.mem_filter.mp ha).1
        rw [chunk_next_eq haligned (by omega) (by omega), least_union hbelow, firstIn_eq h.tail]
        cases least (c.members.filter (n ≤ ·)) <;> rfl
      · have hall : c.members.filter (n ≤ ·) = c.members := by
          refine Finset.filter_true_of_mem fun m hm => ?_
          have := (chunk_bounds hm).1
          omega
        rw [firstIn_eq h, hall, allMembers]

theorem Spbset.next_eq (h : bset.Holds S) (last : Nat) :
    bset.next last = found (least (S.filter ((last + 1) % 2 ^ 32 ≤ ·))) := by
  have hnext := nextIn_eq h.ordered (Nat.mod_lt (last + 1) (Nat.two_pow_pos 32))
  rw [h.members] at hnext
  exact hnext

end Gurl.Uint

/-! Whole lists of calls on a sparse set. -/

namespace Gurl.Uint.Spbset

open Enumerate Refine

variable {bset : Spbset} {S : Finset Nat}

/-- The numbers that a loop with `first` and `next` meets. -/
def iterate (bset : Spbset) (fuel : Nat) : Option (List Nat) :=
  visits (number bset.first) (fun last => number (bset.next last)) fuel

theorem init_holds : init.Holds ∅ := by
  refine ⟨⟨?_, List.pairwise_singleton _ _⟩, rfl, ?_, by simp⟩
  · intro c hc
    rw [List.mem_singleton.mp hc]
    decide
  · show (Chunk.zero 0).members ∪ ∅ = ∅
    rw [members_zero, Finset.union_empty]

theorem first_eq (h : bset.Holds S) :
    bset.first = match least S with | some n => (true, n) | none => (false, 0) := by
  have hleast : firstIn bset.all = least S := by rw [firstIn_eq h.ordered, h.members]
  cases heq : least S with
  | none => simp only [first, hleast, heq]
  | some n => simp only [first, hleast, heq]

/-- The calls that are answered as by the set. -/
def Answerable (S : Finset Nat) : Op → Prop
  | .next last => last.toNat = UINT32_MAX → S = ∅
  | _ => True

theorem step_holds (op : Op) (h : bset.Holds S) : (bset.step op).1.Holds (setStep S op).1 := by
  cases op with
  | add i => exact (add_spec h i.isLt).2
  | remove i => exact remove_spec h i.toNat_lt
  | contains i => exact h
  | count => exact h
  | first => exact h
  | next last => exact h
  | clear => exact init_holds

theorem step_answer (op : Op) (h : bset.Holds S) :
    (bset.step op).2 = (setStep S op).2 ↔ Answerable S op := by
  cases op with
  | add i => exact iff_of_true (congrArg Answer.bool (add_spec h i.isLt).1) trivial
  | remove i => exact iff_of_true rfl trivial
  | contains i => exact iff_of_true (congrArg Answer.bool (contains_eq h i.toNat_lt)) trivial
  | count => exact iff_of_true (congrArg Answer.number (count_eq h)) trivial
  | first => exact iff_of_true (congrArg Answer.found (first_eq h)) trivial
  | next last =>
    refine Iff.trans ?_ (least_wrapped h.bounded last.toNat_lt)
    rw [← found_inj, ← next_eq h]
    exact ⟨fun h0 => Answer.found.inj h0, fun h0 => congrArg Answer.found h0⟩
  | clear => exact iff_of_true rfl trivial

/-- A loop over the set meets every member, in increasing order, and stops. -/
theorem iterate_spec (h : bset.Holds S) {fuel : Nat} (hfuel : S.card ≤ fuel) :
    ∃ l, bset.iterate fuel = some l ∧ l.Pairwise (· < ·) ∧ ∀ n, n ∈ l ↔ n ∈ S := by
  have hfirst : number bset.first = least S := by
    rw [first_eq h]
    cases least S <;> rfl
  unfold iterate
  rw [hfirst]
  refine visits_spec (fun n hn => ?_) hfuel
  have hlt := h.bounded n hn
  have hmax : UINT32_MAX = 4294967295 := rfl
  rw [next_eq h, number_found, Nat.mod_eq_of_lt (by omega), filter_succ]

/-- After the calls, all of which have been answered as by the set, a loop goes through the set; the
chunks are in order from 0 on, and no search ends in front of the head. -/
structure RefinesSet (ops : List Op) : Prop where
  answers : answers step init ops = answers setStep ∅ ops
  loop : ∀ fuel, (after setStep ∅ ops).card ≤ fuel →
    ∃ l, (after step init ops).iterate fuel = some l ∧ l.Pairwise (· < ·) ∧
      ∀ n, n ∈ l ↔ n ∈ after setStep ∅ ops
  sorted : (after step init ops).all.Pairwise fun c d => c.offset < d.offset
  head : (after step init ops).head.offset = 0
  never_prepends : ∀ i, findChunk (chOffset i) 0 (after step init ops).all ≠ .gap 0

/-- A sparse set is the set of its numbers as long as nobody asks a set that is not empty for the
number behind `UINT32_MAX`. -/
theorem spbset_refines_iff (ops : List Op) :
    RefinesSet ops ↔ Along setStep Answerable ∅ ops := by
  have hanswers := answers_eq_iff (fun op h => step_holds op h) (fun op h => step_answer op h)
    init_holds ops
  have hend := after_related (fun op h => step_holds op h) init_holds ops
  constructor
  · exact fun h => hanswers.mp h.answers
  · intro h
    exact ⟨hanswers.mpr h, fun fuel => iterate_spec hend, hend.ordered.sorted, hend.head,
      fun i => findChunk_ne_gap_zero hend.ordered hend.head _⟩

/-- The number behind the last one is the first one. -/
theorem spbset_next_starts_over :
    ¬RefinesSet [.add ⟨5, by decide⟩, .add ⟨700, by decide⟩, .next 4294967295] := by
  intro h
  have := h.answers
  revert this
  decide +kernel

end Gurl.Uint.Spbset
