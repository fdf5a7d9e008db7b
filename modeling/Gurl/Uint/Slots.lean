import Gurl.Lib.Enumerate
import Gurl.Uint.Bits

/-! Arrays of 64-bit slots as sets of numbers: number `n` is bit `n % 64` of slot `n / 64`. -/

namespace Gurl.Uint

open BitFields Enumerate

/-- `UINT32_MAX`. -/
def UINT32_MAX : Nat := 2 ^ 32 - 1

variable {slots rest : List (BitVec 64)} {i j k n : Nat} {x : BitVec 64}

def has (slots : List (BitVec 64)) (n : Nat) : Bool := (slots.getD (n / 64) 0#64).getLsbD (n % 64)

/-- The numbers in the slots. -/
def members (slots : List (BitVec 64)) : Finset Nat :=
  (Finset.range (64 * slots.length)).filter fun n => has slots n

def setBit (slots : List (BitVec 64)) (i : Nat) : List (BitVec 64) :=
  slots.modify (i / 64) (· ||| (1#64 <<< (i % 64)))

def clearBit (slots : List (BitVec 64)) (i : Nat) : List (BitVec 64) :=
  slots.modify (i / 64) (· &&& ~~~(1#64 <<< (i % 64)))

def hasBit (slots : List (BitVec 64)) (i : Nat) : Bool :=
  (slots.getD (i / 64) 0#64 &&& (1#64 <<< (i % 64))) ≠ 0#64

/-- The loop that counts the bits of all slots, in 32 bits. -/
def countSlots : Nat → List (BitVec 64) → Nat
  | n, [] => n
  | n, x :: rest => countSlots (if x ≠ 0#64 then (n + popcount64 x) % 2 ^ 32 else n) rest

/-- The loop that goes on from slot `i` to the next one with a bit in it. -/
def firstUsed : Nat → List (BitVec 64) → Option (Nat × BitVec 64)
  | _, [] => none
  | i, x :: rest => if x ≠ 0#64 then some (i, x) else firstUsed (i + 1) rest

/-! ### Single numbers -/

theorem has_lt (h : has slots n = true) : n < 64 * slots.length := by
  by_contra hge
  have hout : slots.length ≤ n / 64 := by omega
  rw [has, List.getD_eq_getElem?_getD, List.getElem?_eq_none hout] at h
  simp at h

@[simp]
theorem mem_members : n ∈ members slots ↔ has slots n = true := by
  unfold members
  rw [Finset.mem_filter, Finset.mem_range]
  exact and_iff_right_of_imp has_lt

theorem getLsbD_one_shift {a b : Nat} (ha : a < 64) :
    (1#64 <<< a).getLsbD b = decide (b = a) := by
  rw [BitVec.getLsbD_shiftLeft, BitVec.getLsbD_one]
  by_cases hab : b = a
  · simp [hab, ha]
  · rw [decide_eq_false hab]
    by_cases hlt : b < a
    · simp [hlt]
    · rw [decide_eq_false (p := b - a = 0) (by omega)]
      simp

theorem hasBit_eq (slots : List (BitVec 64)) (i : Nat) : hasBit slots i = has slots i := by
  unfold hasBit has
  generalize slots.getD (i / 64) 0#64 = x
  have hbit : (x &&& (1#64 <<< (i % 64))).getLsbD (i % 64) = x.getLsbD (i % 64) := by
    rw [BitVec.getLsbD_and, getLsbD_one_shift (by omega), decide_eq_true rfl, Bool.and_true]
  cases hx : x.getLsbD (i % 64) with
  | true =>
    refine decide_eq_true fun h0 => ?_
    rw [h0, hx] at hbit
    simp at hbit
  | false =>
    refine decide_eq_false (not_not.mpr ?_)
    apply BitVec.eq_of_getLsbD_eq
    intro j hj
    rw [BitVec.getLsbD_and, getLsbD_one_shift (by omega)]
    by_cases hji : j = i % 64
    · simp [hji, hx]
    · simp [hji]

theorem getD_modify (f : BitVec 64 → BitVec 64) (hi : i < slots.length) (k : Nat) :
    (slots.modify i f).getD k 0#64
      = if k = i then f (slots.getD k 0#64) else slots.getD k 0#64 := by
  simp only [List.getD_eq_getElem?_getD, List.getElem?_modify]
  split_ifs with h1 h2 h2
  · subst h1
    simp [hi]
  · exact absurd h1.symm h2
  · exact absurd h2.symm h1
  · simp

theorem has_setBit (hi : i / 64 < slots.length) :
    has (setBit slots i) n = (decide (n = i) || has slots n) := by
  unfold has setBit
  rw [getD_modify _ hi]
  split_ifs with hslot
  · rw [BitVec.getLsbD_or, getLsbD_one_shift (by omega), Bool.or_comm]
    congr 1
    exact decide_eq_decide.mpr (by omega)
  · rw [decide_eq_false (by omega), Bool.false_or]

theorem has_clearBit (hi : i / 64 < slots.length) :
    has (clearBit slots i) n = (!decide (n = i) && has slots n) := by
  unfold has clearBit
  rw [getD_modify _ hi]
  split_ifs with hslot
  · rw [BitVec.getLsbD_and, BitVec.getLsbD_not, getLsbD_one_shift (by omega),
      Bool.and_comm, decide_eq_true (p := n % 64 < 64) (by omega), Bool.true_and]
    congr 2
    exact decide_eq_decide.mpr (by omega)
  · rw [decide_eq_false (by omega), Bool.not_false, Bool.true_and]

@[simp]
theorem length_setBit : (setBit slots i).length = slots.length := by simp [setBit]

@[simp]
theorem length_clearBit : (clearBit slots i).length = slots.length := by simp [clearBit]

theorem members_setBit (hi : i / 64 < slots.length) :
    members (setBit slots i) = insert i (members slots) := by
  ext n
  simp [has_setBit hi]

theorem members_clearBit (hi : i / 64 < slots.length) :
    members (clearBit slots i) = (members slots).erase i := by
  ext n
  simp [has_clearBit hi]

/-- An array of another size: what fits of the old one, and fresh elements behind. -/
theorem getD_resized {β : Type*} (l : List β) (d : β) (n k : Nat) :
    (l.take n ++ List.replicate (n - (l.take n).length) d).getD k d
      = if k < n then l.getD k d else d := by
  simp only [List.getD_eq_getElem?_getD, List.getElem?_append, List.length_take,
    List.getElem?_take, List.getElem?_replicate]
  by_cases hk : k < n
  · rw [if_pos hk]
    split_ifs with h1 h2
    · rfl
    · rw [List.getElem?_eq_none (by omega)]
      rfl
    · omega
  · rw [if_neg hk]
    split_ifs with h1 h2
    · omega
    · omega
    · rfl

/-! ### All numbers -/

theorem has_eq_testBit (slots : List (BitVec 64)) (n : Nat) :
    has slots n = (pack 64 (slots.map BitVec.toNat)).testBit n := by
  have hfields : ∀ a ∈ slots.map BitVec.toNat, a < 2 ^ 64 :=
    List.forall_mem_map.mpr fun x _ => x.isLt
  rw [testBit_pack (by decide) hfields, has]
  simp only [List.getD_eq_getElem?_getD, List.getElem?_map]
  cases slots[n / 64]? with
  | none => rfl
  | some x => rfl

theorem card_members (slots : List (BitVec 64)) :
    (members slots).card = (slots.map popcount64).sum := by
  have hfields : ∀ a ∈ slots.map BitVec.toNat, a < 2 ^ 64 :=
    List.forall_mem_map.mpr fun x _ => x.isLt
  calc (members slots).card = ones (64 * slots.length) (pack 64 (slots.map BitVec.toNat)) := by
        simp only [members, ones, has_eq_testBit]
    _ = ((slots.map BitVec.toNat).map (ones 64)).sum := by
        rw [← ones_pack hfields, List.length_map]
    _ = (slots.map popcount64).sum := by
        rw [List.map_map]
        exact congrArg List.sum (List.map_congr_left fun x _ => (popcount64_eq_ones x).symm)

theorem countSlots_sum (hn : n < 2 ^ 32) :
    countSlots n slots = (n + (slots.map popcount64).sum) % 2 ^ 32 := by
  induction slots generalizing n with
  | nil => exact (Nat.mod_eq_of_lt hn).symm
  | cons x rest ih =>
    rw [List.map_cons, List.sum_cons, countSlots]
    split_ifs with hx
    · rw [ih (Nat.mod_lt _ (by decide)), Nat.mod_add_mod, Nat.add_assoc]
    · have hzero : popcount64 x = 0 := by
        rw [not_not.mp hx]
        decide
      rw [ih hn, hzero, Nat.zero_add]

theorem countSlots_eq (slots : List (BitVec 64)) :
    countSlots 0 slots = (members slots).card % 2 ^ 32 := by
  rw [countSlots_sum (by decide), Nat.zero_add, card_members]

/-! ### Scans -/

theorem has_slot (hx : slots.getD k 0#64 = x) (hj : j < 64) :
    has slots (k * 64 + j) = x.toNat.testBit j := by
  rw [has, show (k * 64 + j) / 64 = k by omega, show (k * 64 + j) % 64 = j by omega, hx]
  rfl

/-- The lowest number of a slot that has any. -/
theorem least_slot (hx : slots.getD k 0#64 = x) (hx0 : x ≠ 0#64) :
    least ((members slots).filter (k * 64 ≤ ·)) = some (k * 64 + ctz64 x) := by
  have hlt := ctz64_lt hx0
  obtain ⟨hbit, hbelow⟩ := ctz64_spec hx0
  rw [least_eq_some]
  constructor
  · rw [Finset.mem_filter, mem_members, has_slot hx hlt]
    exact ⟨hbit, Nat.le_add_right _ _⟩
  · intro n hn
    obtain ⟨hn, hle⟩ := Finset.mem_filter.mp hn
    by_contra hn'
    obtain ⟨j, rfl⟩ := Nat.exists_eq_add_of_le hle
    rw [mem_members, has_slot hx (by omega), hbelow j (by omega)] at hn
    exact Bool.noConfusion hn

/-- The scan over the slots from `k` on finds the smallest number there. -/
theorem firstUsed_spec (hrest : slots.drop k = rest) :
    (firstUsed k rest).map (fun p => p.1 * 64 + ctz64 p.2)
      = least ((members slots).filter (k * 64 ≤ ·)) := by
  induction rest generalizing k with
  | nil =>
    have hlen := List.drop_eq_nil_iff.mp hrest
    symm
    rw [firstUsed, Option.map_none, least_eq_none, Finset.filter_eq_empty_iff]
    intro n hn
    have := has_lt (mem_members.mp hn)
    omega
  | cons x rest ih =>
    have hx : slots.getD k 0#64 = x := by
      rw [List.getD_eq_getElem?_getD, ← Nat.add_zero k, ← List.getElem?_drop, hrest]
      rfl
    have hrest' : slots.drop (k + 1) = rest := by
      rw [← List.drop_drop, hrest]
      rfl
    rw [firstUsed]
    split_ifs with hx0
    · exact (least_slot hx hx0).symm
    · rw [ih hrest']
      congr 1
      ext n
      simp only [Finset.mem_filter, mem_members, and_congr_right_iff]
      intro hn
      refine ⟨fun h => by omega, fun h => ?_⟩
      by_contra hn'
      obtain ⟨j, rfl⟩ := Nat.exists_eq_add_of_le h
      rw [has_slot hx (by omega), not_not.mp hx0] at hn
      simp at hn

/-- What is left of a slot when the numbers below `i` have been shifted away. -/
theorem has_shifted (hx : slots.getD (i / 64) 0#64 >>> (i % 64) = x) (hj : i % 64 + j < 64) :
    has slots (i + j) = x.toNat.testBit j := by
  rw [← hx, BitVec.toNat_ushiftRight, Nat.testBit_shiftRight, has,
    show (i + j) / 64 = i / 64 by omega, show (i + j) % 64 = i % 64 + j by omega]
  rfl

theorem least_shifted (hx : slots.getD (i / 64) 0#64 >>> (i % 64) = x) (hx0 : x ≠ 0#64) :
    least ((members slots).filter (i ≤ ·)) = some (i + ctz64 x) := by
  obtain ⟨hbit, hbelow⟩ := ctz64_spec hx0
  have hfit : i % 64 + ctz64 x < 64 := by
    rw [← hx, BitVec.toNat_ushiftRight, Nat.testBit_shiftRight] at hbit
    rw [← hx]
    by_contra hge
    rw [Nat.testBit_lt_two_pow ((slots.getD (i / 64) 0#64).isLt.trans_le
      (Nat.pow_le_pow_right (by decide) (not_lt.mp hge)))] at hbit
    exact Bool.noConfusion hbit
  rw [least_eq_some]
  constructor
  · rw [Finset.mem_filter, mem_members, has_shifted hx hfit]
    exact ⟨hbit, Nat.le_add_right _ _⟩
  · intro n hn
    obtain ⟨hn, hle⟩ := Finset.mem_filter.mp hn
    by_contra hn'
    obtain ⟨j, rfl⟩ := Nat.exists_eq_add_of_le hle
    rw [mem_members, has_shifted hx (by omega), hbelow j (by omega)] at hn
    exact Bool.noConfusion hn

theorem filter_shifted (hx : slots.getD (i / 64) 0#64 >>> (i % 64) = 0#64) :
    (members slots).filter (i ≤ ·) = (members slots).filter ((i / 64 + 1) * 64 ≤ ·) := by
  ext n
  simp only [Finset.mem_filter, mem_members, and_congr_right_iff]
  intro hn
  refine ⟨fun h => ?_, fun h => by omega⟩
  by_contra hn'
  obtain ⟨j, rfl⟩ := Nat.exists_eq_add_of_le h
  rw [has_shifted hx (by omega)] at hn
  simp at hn

end Gurl.Uint
