import Gurl.Curlcode
import Gurl.Lib.Refine
import Gurl.Uint.Slots

/-! uint-bset.c: sets of numbers below a capacity, with a hint at where the first one may be. -/

namespace Gurl.Uint

open Enumerate

/-- `uint32_bset`; `nslots` is the length of `slots`. -/
structure Bset where
  slots : List (BitVec 64)
  firstSlotUsed : Nat

namespace Bset

/-- `Curl_uint32_bset_init`. -/
def init : Bset where
  slots := []
  firstSlotUsed := 0

/-- How many slots hold the numbers below `nmax`. -/
def slotsFor (nmax : Nat) : Nat :=
  if nmax < UINT32_MAX - 63 then (nmax + 63) / 64 else UINT32_MAX / 64

/-- `granted` is whether calloc has memory for the slots. -/
def resize (bset : Bset) (nmax : Nat) (granted : Bool) : Curlcode × Bset :=
  let nslots := slotsFor nmax
  if nslots ≠ bset.slots.length then
    if granted then
      let kept := bset.slots.take nslots
      (.ok, ⟨kept ++ List.replicate (nslots - kept.length) 0#64, 0⟩)
    else (.outOfMemory, bset)
  else (.ok, bset)

def count (bset : Bset) : Nat := countSlots 0 bset.slots

def empty (bset : Bset) : Bool :=
  (firstUsed bset.firstSlotUsed (bset.slots.drop bset.firstSlotUsed)).isNone

def clear (bset : Bset) : Bset :=
  if bset.slots.length ≠ 0 then ⟨bset.slots.map fun _ => 0#64, UINT32_MAX⟩ else bset

def add (bset : Bset) (i : Nat) : Bool × Bset :=
  let islot := i / 64
  if bset.slots.length ≤ islot then (false, bset)
  else
    (true, ⟨setBit bset.slots i,
      if islot < bset.firstSlotUsed then islot else bset.firstSlotUsed⟩)

def remove (bset : Bset) (i : Nat) : Bset :=
  if i / 64 < bset.slots.length then { bset with slots := clearBit bset.slots i } else bset

def contains (bset : Bset) (i : Nat) : Bool :=
  if bset.slots.length ≤ i / 64 then false else hasBit bset.slots i

/-- What is returned, what `*pfirst` becomes, and the set. -/
def first (bset : Bset) : (Bool × Nat) × Bset :=
  match firstUsed bset.firstSlotUsed (bset.slots.drop bset.firstSlotUsed) with
  | some (i, x) => ((true, (i * 64 + ctz64 x) % 2 ^ 32), { bset with firstSlotUsed := i })
  | none => ((false, UINT32_MAX), { bset with firstSlotUsed := UINT32_MAX })

/-- What is returned, and what `*pnext` becomes. -/
def next (bset : Bset) (last : Nat) : Bool × Nat :=
  let last := (last + 1) % 2 ^ 32
  let islot := last / 64
  if islot < bset.slots.length then
    let x := bset.slots.getD islot 0#64 >>> (last % 64)
    if x ≠ 0#64 then (true, (last + ctz64 x) % 2 ^ 32)
    else
      -- no more bits set in the last slot, scan forward
      match firstUsed (islot + 1) (bset.slots.drop (islot + 1)) with
      | some (i, x) => (true, (i * 64 + ctz64 x) % 2 ^ 32)
      | none => (false, UINT32_MAX)
  else (false, UINT32_MAX)

end Bset

/-! ### The set that it stands for -/

/-- What a call of `first` or `next` gives, `UINT32_MAX` being no number of a set. -/
def found : Option Nat → Bool × Nat
  | some n => (true, n)
  | none => (false, UINT32_MAX)

/-- The calls. -/
inductive Op where
  | resize (nmax : UInt32) (granted : Bool)
  | clear
  | add (i : UInt32)
  | remove (i : UInt32)
  | contains (i : UInt32)
  | count
  | empty
  | first
  | next (last : UInt32)

inductive Answer where
  | code (result : Curlcode)
  | bool (b : Bool)
  | number (n : Nat)
  | found (r : Bool × Nat)
  | done
  deriving DecidableEq

def Bset.step (bset : Bset) : Op → Bset × Answer
  | .resize nmax granted =>
    let r := bset.resize nmax.toNat granted
    (r.2, .code r.1)
  | .clear => (bset.clear, .done)
  | .add i =>
    let r := bset.add i.toNat
    (r.2, .bool r.1)
  | .remove i => (bset.remove i.toNat, .done)
  | .contains i => (bset, .bool (bset.contains i.toNat))
  | .count => (bset, .number bset.count)
  | .empty => (bset, .bool bset.empty)
  | .first =>
    let r := bset.first
    (r.2, .found r.1)
  | .next last => (bset, .found (bset.next last.toNat))

/-- A set of numbers below a capacity. -/
structure NumberSet where
  capacity : Nat
  members : Finset Nat

/-- The next multiple of 64, as far as the slots can be counted. -/
def capacityFor (nmax : Nat) : Nat := min ((nmax + 63) / 64 * 64) (2 ^ 32 - 64)

/-- The calls on the set itself. -/
def NumberSet.step (s : NumberSet) : Op → NumberSet × Answer
  | .resize nmax granted =>
    let capacity := capacityFor nmax.toNat
    if capacity = s.capacity then (s, .code .ok)
    else if granted then (⟨capacity, s.members.filter (· < capacity)⟩, .code .ok)
    else (s, .code .outOfMemory)
  | .clear => (⟨s.capacity, ∅⟩, .done)
  | .add i =>
    if i.toNat < s.capacity then (⟨s.capacity, insert i.toNat s.members⟩, .bool true)
    else (s, .bool false)
  | .remove i => (⟨s.capacity, s.members.erase i.toNat⟩, .done)
  | .contains i => (s, .bool (decide (i.toNat ∈ s.members)))
  | .count => (s, .number s.members.card)
  | .empty => (s, .bool (decide (s.members = ∅)))
  | .first => (s, .found (found (least s.members)))
  | .next last => (s, .found (found (least (above s.members last.toNat))))

/-- The array holds the set, and no member is in a slot in front of the first used one. -/
structure Holds (bset : Bset) (s : NumberSet) : Prop where
  capacity : s.capacity = 64 * bset.slots.length
  countable : bset.slots.length ≤ UINT32_MAX / 64
  members : members bset.slots = s.members
  hint : ∀ n ∈ s.members, bset.firstSlotUsed ≤ n / 64

/-! Every call on the array answers as the set does, but for `next` behind the last number. -/

open Refine

variable {bset : Bset} {s : NumberSet} {slots : List (BitVec 64)} {n : Nat}

theorem members_lt (h : Holds bset s) (hn : n ∈ s.members) :
    n < s.capacity ∧ n < UINT32_MAX := by
  rw [← h.members, mem_members] at hn
  have := has_lt hn
  have := h.countable
  have := h.capacity
  omega

/-! ### Looking -/

theorem contains_eq (h : Holds bset s) (i : Nat) :
    bset.contains i = decide (i ∈ s.members) := by
  have hmem : (i ∈ s.members) = (has bset.slots i = true) := by
    rw [← h.members]
    exact propext mem_members
  simp only [hmem, Bool.decide_eq_true]
  unfold Bset.contains
  split_ifs with hout
  · rw [eq_comm, ← Bool.not_eq_true]
    intro hhas
    have := has_lt hhas
    omega
  · exact hasBit_eq _ _

theorem count_eq (h : Holds bset s) : bset.count = s.members.card := by
  have hcard : s.members.card ≤ 64 * bset.slots.length := by
    rw [← h.members]
    exact (Finset.card_filter_le _ _).trans_eq (Finset.card_range _)
  have hmax : UINT32_MAX = 4294967295 := rfl
  have := h.countable
  rw [Bset.count, countSlots_eq, h.members, Nat.mod_eq_of_lt (by omega)]

/-- Nothing is missed by starting at the first used slot. -/
theorem filter_hint (h : Holds bset s) :
    (members bset.slots).filter (bset.firstSlotUsed * 64 ≤ ·) = s.members := by
  rw [h.members, Finset.filter_eq_self]
  intro n hn
  have := h.hint n hn
  omega

theorem empty_eq (h : Holds bset s) : bset.empty = decide (s.members = ∅) := by
  have hspec := firstUsed_spec (rfl : bset.slots.drop bset.firstSlotUsed = _)
  rw [filter_hint h] at hspec
  unfold Bset.empty
  cases hfu : firstUsed bset.firstSlotUsed (bset.slots.drop bset.firstSlotUsed) with
  | none =>
    rw [hfu] at hspec
    rw [decide_eq_true (least_eq_none.mp hspec.symm)]
    rfl
  | some p =>
    rw [hfu] at hspec
    rw [decide_eq_false]
    · rfl
    · rw [← least_eq_none, ← hspec]
      exact Option.some_ne_none _

theorem first_eq (h : Holds bset s) :
    bset.first.1 = found (least s.members) ∧ Holds bset.first.2 s := by
  have hspec := firstUsed_spec (rfl : bset.slots.drop bset.firstSlotUsed = _)
  rw [filter_hint h] at hspec
  unfold Bset.first
  cases hfu : firstUsed bset.firstSlotUsed (bset.slots.drop bset.firstSlotUsed) with
  | none =>
    rw [hfu] at hspec
    have hempty := least_eq_none.mp hspec.symm
    rw [← hspec]
    exact ⟨rfl, h.capacity, h.countable, h.members, by simp [hempty]⟩
  | some p =>
    obtain ⟨i, x⟩ := p
    rw [hfu] at hspec
    obtain ⟨hmem, hle⟩ := least_eq_some.mp hspec.symm
    have hmax : UINT32_MAX = 4294967295 := rfl
    have hlt := (members_lt h hmem).2
    rw [← hspec]
    dsimp only at hmem hle hlt ⊢
    refine ⟨?_, h.capacity, h.countable, h.members, ?_⟩
    · rw [Nat.mod_eq_of_lt (by omega)]
      rfl
    · intro n hn
      have := hle n hn
      dsimp only
      omega

theorem next_eq (h : Holds bset s) (last : Nat) :
    bset.next last = found (least (s.members.filter ((last + 1) % 2 ^ 32 ≤ ·))) := by
  have hmax : UINT32_MAX = 4294967295 := rfl
  have hfit : ∀ {m}, m ∈ s.members → m % 2 ^ 32 = m := by
    intro m hm
    have := (members_lt h hm).2
    exact Nat.mod_eq_of_lt (by omega)
  unfold Bset.next
  dsimp only
  generalize (last + 1) % 2 ^ 32 = start
  split_ifs with hin hx
  · have hspec := least_shifted rfl hx
    rw [h.members] at hspec
    have hmem := (Finset.mem_filter.mp (least_eq_some.mp hspec).1).1
    rw [hspec, hfit hmem]
    rfl
  · have hspec := firstUsed_spec (rfl : bset.slots.drop (start / 64 + 1) = _)
    rw [← filter_shifted (not_not.mp hx), h.members] at hspec
    rw [← hspec]
    cases hfu : firstUsed (start / 64 + 1) (bset.slots.drop (start / 64 + 1)) with
    | none => rfl
    | some p =>
      rw [hfu] at hspec
      have hmem := (Finset.mem_filter.mp (least_eq_some.mp hspec.symm).1).1
      dsimp only at hmem ⊢
      rw [hfit hmem]
      rfl
  · have hnone : s.members.filter (start ≤ ·) = ∅ := by
      rw [Finset.filter_eq_empty_iff]
      intro n hn
      have := (members_lt h hn).1
      have := h.capacity
      omega
    rw [hnone]
    rfl

/-! ### Changing -/

theorem add_holds (h : Holds bset s) (i : Nat) :
    (bset.add i).1 = decide (i < s.capacity) ∧
      Holds (bset.add i).2
        (if i < s.capacity then ⟨s.capacity, insert i s.members⟩ else s) := by
  have hcap := h.capacity
  unfold Bset.add
  dsimp only
  by_cases hin : i < s.capacity
  · rw [if_neg (by omega), if_pos hin, decide_eq_true hin]
    refine ⟨rfl, by simpa using hcap, by simpa using h.countable, ?_, ?_⟩
    · rw [members_setBit (by omega), h.members]
    · intro n hn
      dsimp only
      rcases Finset.mem_insert.mp hn with rfl | hn
      · split <;> omega
      · have := h.hint n hn
        split <;> omega
  · rw [if_pos (by omega), if_neg hin, decide_eq_false hin]
    exact ⟨rfl, h⟩

theorem remove_holds (h : Holds bset s) (i : Nat) :
    Holds (bset.remove i) ⟨s.capacity, s.members.erase i⟩ := by
  unfold Bset.remove
  split_ifs with hin
  · refine ⟨by simpa using h.capacity, by simpa using h.countable, ?_, ?_⟩
    · rw [members_clearBit hin, h.members]
    · exact fun n hn => h.hint n (Finset.mem_of_mem_erase hn)
  · have hself : s.members.erase i = s.members := by
      refine Finset.erase_eq_of_notMem fun hi => ?_
      have := (members_lt h hi).1
      have := h.capacity
      omega
    rw [hself]
    exact h

theorem has_zeros (n : Nat) : has (slots.map fun _ => 0#64) n = false := by
  unfold has
  rw [List.getD_eq_getElem?_getD, List.getElem?_map]
  cases slots[n / 64]? with
  | none => simp
  | some x => simp

theorem clear_holds (h : Holds bset s) : Holds bset.clear ⟨s.capacity, ∅⟩ := by
  unfold Bset.clear
  split_ifs with hslots
  · refine ⟨by simpa using h.capacity, by simpa using h.countable, ?_, by simp⟩
    ext n
    rw [mem_members, has_zeros]
    simp
  · have hnone : s.members = ∅ := by
      refine Finset.eq_empty_of_forall_notMem fun n hn => ?_
      have := (members_lt h hn).1
      have := h.capacity
      omega
    rw [← hnone]
    exact h

theorem slotsFor_spec (nmax : Nat) :
    64 * Bset.slotsFor nmax = capacityFor nmax ∧ Bset.slotsFor nmax ≤ UINT32_MAX / 64 := by
  have hmax : UINT32_MAX = 4294967295 := rfl
  unfold Bset.slotsFor capacityFor
  split_ifs with hsmall <;> omega

theorem has_resized (k n : Nat) :
    has (slots.take k ++ List.replicate (k - (slots.take k).length) 0#64) n
      = (decide (n < 64 * k) && has slots n) := by
  unfold has
  rw [getD_resized]
  by_cases hk : n / 64 < k
  · rw [if_pos hk, decide_eq_true (by omega), Bool.true_and]
  · rw [if_neg hk, decide_eq_false (by omega), Bool.false_and]
    simp

theorem resize_holds (h : Holds bset s) (nmax : Nat) (granted : Bool) :
    (bset.resize nmax granted).1
        = (if capacityFor nmax = s.capacity ∨ granted then .ok else .outOfMemory) ∧
      Holds (bset.resize nmax granted).2
        (if capacityFor nmax ≠ s.capacity ∧ granted then
          ⟨capacityFor nmax, s.members.filter (· < capacityFor nmax)⟩ else s) := by
  obtain ⟨hcapacity, hcountable⟩ := slotsFor_spec nmax
  have hcap := h.capacity
  have hsame : Bset.slotsFor nmax ≠ bset.slots.length ↔ capacityFor nmax ≠ s.capacity := by omega
  unfold Bset.resize
  simp only [hsame]
  by_cases hne : capacityFor nmax = s.capacity
  · simp [hne, h]
  cases granted with
  | false => simp [hne, h]
  | true =>
    rw [if_pos hne, if_pos rfl, if_pos (.inr rfl), if_pos ⟨hne, rfl⟩]
    have hlen : (bset.slots.take (Bset.slotsFor nmax) ++ List.replicate
        (Bset.slotsFor nmax - (bset.slots.take (Bset.slotsFor nmax)).length) 0#64).length
          = Bset.slotsFor nmax := by
      simp only [List.length_append, List.length_take, List.length_replicate]
      omega
    refine ⟨rfl, ?_, ?_, ?_, ?_⟩
    · rw [hlen, hcapacity]
    · rw [hlen]
      exact hcountable
    · ext n
      rw [mem_members, has_resized, hcapacity, ← h.members]
      simp [and_comm]
    · exact fun n _ => Nat.zero_le _

/-! Whole lists of calls on a bit set. -/

variable {S : Finset Nat} {x : BitVec 64}

/-- What a caller knows after `first` or `next`. -/
def number (r : Bool × Nat) : Option Nat := if r.1 then some r.2 else none

@[simp]
theorem number_found (o : Option Nat) : number (found o) = o := by
  cases o <;> rfl

/-- The numbers that a loop with `first` and `next` meets. -/
def Bset.iterate (bset : Bset) (fuel : Nat) : Option (List Nat) :=
  visits (number bset.first.1) (fun last => number (bset.first.2.next last)) fuel

theorem found_inj {o o' : Option Nat} : found o = found o' ↔ o = o' := by
  constructor
  · intro h
    have := congrArg number h
    simpa using this
  · rintro rfl
    rfl

theorem filter_succ (last : Nat) : S.filter (last + 1 ≤ ·) = above S last := rfl

/-- Behind the last number there is none, and a search from there starts at the first one again. -/
theorem least_wrapped {last : Nat} (hS : ∀ n ∈ S, n < UINT32_MAX) (hlast : last < 2 ^ 32) :
    least (S.filter ((last + 1) % 2 ^ 32 ≤ ·)) = least (above S last) ↔
      (last = UINT32_MAX → S = ∅) := by
  have hmax : UINT32_MAX = 4294967295 := rfl
  by_cases hend : last = UINT32_MAX
  · have hnone : above S last = ∅ := by
      rw [above, Finset.filter_eq_empty_iff]
      intro n hn
      have := hS n hn
      omega
    have hall : S.filter ((last + 1) % 2 ^ 32 ≤ ·) = S := by
      rw [hend]
      exact Finset.filter_true_of_mem fun n _ => Nat.zero_le n
    rw [hnone, hall, least_eq_none.mpr rfl, least_eq_none]
    exact ⟨fun h0 _ => h0, fun h0 => h0 hend⟩
  · rw [Nat.mod_eq_of_lt (by omega), filter_succ]
    exact iff_of_true rfl fun h0 => absurd h0 hend

/-- The calls that are answered as by the set. -/
def Answerable (s : NumberSet) : Op → Prop
  | .next last => last.toNat = UINT32_MAX → s.members = ∅
  | _ => True

theorem step_holds (op : Op) (h : Holds bset s) : Holds (bset.step op).1 (s.step op).1 := by
  cases op with
  | resize nmax granted =>
    have hnew := (resize_holds h nmax.toNat granted).2
    simp only [NumberSet.step]
    by_cases hsame : capacityFor nmax.toNat = s.capacity
    · rw [if_pos hsame]
      rwa [if_neg fun h0 => h0.1 hsame] at hnew
    · rw [if_neg hsame]
      cases granted with
      | false =>
        rw [if_neg fun h0 => Bool.noConfusion h0.2] at hnew
        exact hnew
      | true => rwa [if_pos ⟨hsame, rfl⟩] at hnew
  | clear => exact clear_holds h
  | add i =>
    have hnew := (add_holds h i.toNat).2
    simp only [NumberSet.step]
    by_cases hin : i.toNat < s.capacity
    · rw [if_pos hin]
      rwa [if_pos hin] at hnew
    · rw [if_neg hin]
      rwa [if_neg hin] at hnew
  | remove i => exact remove_holds h i.toNat
  | contains i => exact h
  | count => exact h
  | empty => exact h
  | first => exact (first_eq h).2
  | next last => exact h

theorem step_answer (op : Op) (h : Holds bset s) :
    (bset.step op).2 = (s.step op).2 ↔ Answerable s op := by
  cases op with
  | resize nmax granted =>
    refine iff_of_true ?_ trivial
    unfold Bset.step NumberSet.step
    dsimp only
    rw [(resize_holds h nmax.toNat granted).1]
    split_ifs <;> simp_all
  | clear => exact iff_of_true rfl trivial
  | add i =>
    refine iff_of_true ?_ trivial
    unfold Bset.step NumberSet.step
    dsimp only
    rw [(add_holds h i.toNat).1]
    split_ifs with hin
    · rw [decide_eq_true hin]
    · rw [decide_eq_false hin]
  | remove i => exact iff_of_true rfl trivial
  | contains i => exact iff_of_true (congrArg Answer.bool (contains_eq h i.toNat)) trivial
  | count => exact iff_of_true (congrArg Answer.number (count_eq h)) trivial
  | empty => exact iff_of_true (congrArg Answer.bool (empty_eq h)) trivial
  | first => exact iff_of_true (congrArg Answer.found (first_eq h).1) trivial
  | next last =>
    refine Iff.trans ?_ (least_wrapped (fun n hn => (members_lt h hn).2) last.toNat_lt)
    rw [← found_inj, ← next_eq h]
    exact ⟨fun h0 => Answer.found.inj h0, fun h0 => congrArg Answer.found h0⟩

theorem init_holds : Holds Bset.init ⟨0, ∅⟩ where
  capacity := rfl
  countable := Nat.zero_le _
  members := rfl
  hint := by simp

/-- A loop over the set meets every member, in increasing order, and stops. -/
theorem iterate_spec (h : Holds bset s) {fuel : Nat} (hfuel : s.members.card ≤ fuel) :
    ∃ l, bset.iterate fuel = some l ∧ l.Pairwise (· < ·) ∧ ∀ n, n ∈ l ↔ n ∈ s.members := by
  obtain ⟨hfirst, hholds⟩ := first_eq h
  unfold Bset.iterate
  rw [hfirst, number_found]
  refine visits_spec (fun n hn => ?_) hfuel
  have hlt := (members_lt h hn).2
  have hmax : UINT32_MAX = 4294967295 := rfl
  rw [next_eq hholds, number_found, Nat.mod_eq_of_lt (by omega), filter_succ]

/-! ### Bits -/

/-- How many bits are one. -/
def oneBits (x : BitVec 64) : Nat := ((Finset.range 64).filter fun i => x.getLsbD i).card

/-- How many bits are zero with no one bit below them. -/
def trailingZeros (x : BitVec 64) : Nat :=
  ((Finset.range 64).filter fun i => ∀ j ≤ i, x.getLsbD j = false).card

theorem popcount64_spec (x : BitVec 64) : popcount64 x = oneBits x := popcount64_eq_ones x

theorem ctz64_eq_trailingZeros (x : BitVec 64) : ctz64 x = trailingZeros x := by
  by_cases hx : x = 0#64
  · subst hx
    simp [ctz64, trailingZeros]
  · obtain ⟨hbit, hbelow⟩ := ctz64_spec hx
    have hlt := ctz64_lt hx
    have hzeros : (Finset.range 64).filter (fun i => ∀ j ≤ i, x.getLsbD j = false)
        = Finset.range (ctz64 x) := by
      ext i
      rw [Finset.mem_filter, Finset.mem_range, Finset.mem_range]
      constructor
      · rintro ⟨_, hi⟩
        by_contra hge
        have := hi _ (not_lt.mp hge)
        rw [BitVec.getLsbD, hbit] at this
        exact Bool.noConfusion this
      · intro hi
        exact ⟨hi.trans hlt, fun j hj => hbelow j (by omega)⟩
    rw [trailingZeros, hzeros, Finset.card_range]

/-! ### Runs -/

/-- After the calls, all of which have been answered as by the set, the array has no member in
front of the first used slot, and a loop over it goes through the set. -/
structure RefinesSet (ops : List Op) : Prop where
  answers : answers Bset.step Bset.init ops = answers NumberSet.step ⟨0, ∅⟩ ops
  hint : ∀ n, (after Bset.step Bset.init ops).contains n = true →
    (after Bset.step Bset.init ops).firstSlotUsed ≤ n / 64
  loop : ∀ fuel, (after NumberSet.step ⟨0, ∅⟩ ops).members.card ≤ fuel →
    ∃ l, (after Bset.step Bset.init ops).iterate fuel = some l ∧ l.Pairwise (· < ·) ∧
      ∀ n, n ∈ l ↔ n ∈ (after NumberSet.step ⟨0, ∅⟩ ops).members
  popcount : ∀ x, popcount64 x = oneBits x
  ctz : ∀ x, ctz64 x = trailingZeros x

/-- A bit set is the set of its numbers as long as nobody asks a set that is not empty for the
number behind `UINT32_MAX`. -/
theorem bset_refines_iff (ops : List Op) :
    RefinesSet ops ↔ Along NumberSet.step Answerable ⟨0, ∅⟩ ops := by
  have hanswers := answers_eq_iff (fun op h => step_holds op h) (fun op h => step_answer op h)
    init_holds ops
  have hend := after_related (fun op h => step_holds op h) init_holds ops
  constructor
  · exact fun h => hanswers.mp h.answers
  · intro h
    refine ⟨hanswers.mpr h, ?_, fun fuel => iterate_spec hend, popcount64_spec,
      ctz64_eq_trailingZeros⟩
    intro n hn
    rw [contains_eq hend] at hn
    exact hend.hint n (of_decide_eq_true hn)

/-- The number behind the last one is the first one. -/
theorem bset_next_starts_over : ¬RefinesSet [.resize 64 true, .add 5, .next 4294967295] := by
  intro h
  have := h.answers
  revert this
  decide +kernel

end Gurl.Uint
