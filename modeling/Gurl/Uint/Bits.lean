import Mathlib.Tactic.Linarith
import Gurl.Lib.BitFields

/-! uint-bset.c: the portable Curl_popcount64 and Curl_ctz64, for compilers without builtins. -/

namespace Gurl.Uint

open BitFields

def m1 : BitVec 64 := 0x5555555555555555#64
def m2 : BitVec 64 := 0x3333333333333333#64
def m4 : BitVec 64 := 0x0f0f0f0f0f0f0f0f#64
def h01 : BitVec 64 := 0x0101010101010101#64

def popcount64 (x : BitVec 64) : Nat :=
  let x := x - ((x >>> 1) &&& m1)
  let x := (x &&& m2) + ((x >>> 2) &&& m2)
  let x := (x + (x >>> 4)) &&& m4
  ((x * h01) >>> 56).toNat

def ml32 : BitVec 64 := 0xFFFFFFFF#64
def ml16 : BitVec 64 := 0x0000FFFF#64
def ml8 : BitVec 64 := 0x000000FF#64
def ml4 : BitVec 64 := 0x0000000F#64
def ml2 : BitVec 64 := 0x00000003#64

/-- One of the five halvings: `n` and `x` when the lower `w` bits have been looked at. -/
def ctzStep (w : Nat) (mask : BitVec 64) (s : Nat × BitVec 64) : Nat × BitVec 64 :=
  if s.2 &&& mask = 0#64 then (s.1 + w, s.2 >>> w) else s

def ctz64 (x : BitVec 64) : Nat :=
  if x = 0#64 then 64
  else
    let s := ctzStep 32 ml32 (1, x)
    let s := ctzStep 16 ml16 s
    let s := ctzStep 8 ml8 s
    let s := ctzStep 4 ml4 s
    let s := ctzStep 2 ml2 s
    s.1 - (s.2 &&& 1#64).toNat

/-! ### One bits -/

/-- The three steps of the count within one byte. -/
def byteStep1 (a : Nat) : Nat := a - (a / 2 ^ 1 &&& 0x55)

def byteStep2 (a : Nat) : Nat := (a &&& 0x33) + (a / 2 ^ 2 &&& 0x33)

def byteStep3 (a : Nat) : Nat := (a + a / 2 ^ 4) &&& 0x0f

theorem byteStep1_spec : ∀ a < 256, a / 2 ^ 1 &&& 0x55 ≤ a ∧ byteStep1 a < 256 := by
  decide +kernel

theorem byteStep2_spec : ∀ a < 256,
    byteStep2 (byteStep1 a) % 2 ^ 4 ≤ 4 ∧ byteStep2 (byteStep1 a) ≤ 0x44 := by
  decide +kernel

theorem byteStep3_spec : ∀ a < 256, byteStep3 (byteStep2 (byteStep1 a)) = ones 8 a := by
  decide +kernel

section Bytes

variable {x : BitVec 64} {as : List Nat}

/-- A mask that repeats one byte. -/
theorem toNat_mask {m : BitVec 64} (b : Nat) (hm : m.toNat = pack 8 (List.replicate 8 b))
    (hlen : as.length = 8) : m.toNat = pack 8 (as.map fun _ => b) := by
  rw [hm, List.map_const', hlen]

theorem toNat_step1 (hlen : as.length = 8) (hx : x.toNat = pack 8 as) (h : ∀ a ∈ as, a < 256) :
    (x - ((x >>> 1) &&& m1)).toNat = pack 8 (as.map byteStep1) := by
  have hhigh : ((x >>> 1) &&& m1).toNat = pack 8 (as.map fun a => a / 2 ^ 1 &&& 0x55) := by
    rw [BitVec.toNat_and, BitVec.toNat_ushiftRight, Nat.shiftRight_eq_div_pow, hx,
      toNat_mask 0x55 (by decide) hlen]
    exact land_shift_pack (by omega) (by decide) h
  have hself : as.map (fun a => byteStep1 a + (a / 2 ^ 1 &&& 0x55)) = as := by
    conv_rhs => rw [← List.map_id' as]
    exact List.map_congr_left fun a ha => Nat.sub_add_cancel (byteStep1_spec a (h a ha)).1
  have hsum : pack 8 (as.map fun a => byteStep1 a + (a / 2 ^ 1 &&& 0x55))
      = pack 8 (as.map byteStep1) + pack 8 (as.map fun a => a / 2 ^ 1 &&& 0x55) :=
    pack_map_add _ _
  rw [hself] at hsum
  have hle : ((x >>> 1) &&& m1) ≤ x := by
    rw [BitVec.le_def, hhigh, hx]
    omega
  rw [BitVec.toNat_sub_of_le hle, hhigh, hx]
  omega

theorem toNat_step2 (hlen : as.length = 8) (hx : x.toNat = pack 8 as) (h : ∀ a ∈ as, a < 256)
    (hfit : ∀ a ∈ as, byteStep2 a < 256) :
    ((x &&& m2) + ((x >>> 2) &&& m2)).toNat = pack 8 (as.map byteStep2) := by
  have hlow : (x &&& m2).toNat = pack 8 (as.map fun a => a &&& 0x33) := by
    rw [BitVec.toNat_and, hx, toNat_mask 0x33 (by decide) hlen]
    exact land_pack (by decide) h
  have hhigh : ((x >>> 2) &&& m2).toNat = pack 8 (as.map fun a => a / 2 ^ 2 &&& 0x33) := by
    rw [BitVec.toNat_and, BitVec.toNat_ushiftRight, Nat.shiftRight_eq_div_pow, hx,
      toNat_mask 0x33 (by decide) hlen]
    exact land_shift_pack (by omega) (by decide) h
  have hlt : pack 8 (as.map byteStep2) < 2 ^ (8 * (as.map byteStep2).length) :=
    pack_lt fun b hb => by
      obtain ⟨a, ha, rfl⟩ := List.mem_map.mp hb
      exact hfit a ha
  rw [List.length_map, hlen] at hlt
  rw [BitVec.toNat_add, hlow, hhigh, ← pack_map_add]
  exact Nat.mod_eq_of_lt hlt

theorem toNat_step3 (hlen : as.length = 8) (hx : x.toNat = pack 8 as)
    (h : ∀ a ∈ as, a % 2 ^ 4 ≤ 4 ∧ a ≤ 0x44) :
    ((x + (x >>> 4)) &&& m4).toNat = pack 8 (as.map byteStep3) := by
  have hlow : ∀ a ∈ as, a % 2 ^ 4 ≤ 4 := fun a ha => (h a ha).1
  have hroom : ∀ a ∈ as, 2 ^ (8 - 4) * 4 + (a + a / 2 ^ 4) < 2 ^ 8 := by
    intro a ha
    have := (h a ha).2
    omega
  rw [BitVec.toNat_and, BitVec.toNat_add,
    ← land_above ((x.toNat + (x >>> 4).toNat) / 2 ^ 64) _ m4.isLt, Nat.div_add_mod,
    BitVec.toNat_ushiftRight, Nat.shiftRight_eq_div_pow, hx, toNat_mask 0x0f (by decide) hlen]
  exact land_add_shift_pack (by omega) (by decide) hlow hroom

/-- The product has the sum of all bytes in its top byte. -/
theorem toNat_sum (hlen : as.length = 8) (hx : x.toNat = pack 8 as) (h : ∀ a ∈ as, a ≤ 8) :
    ((x * h01) >>> 56).toNat = as.sum := by
  obtain ⟨a, b, c, d, e, f, g, i, rfl⟩ : ∃ a b c d e f g i, as = [a, b, c, d, e, f, g, i] := by
    match as, hlen with
    | [a, b, c, d, e, f, g, i], _ => exact ⟨a, b, c, d, e, f, g, i, rfl⟩
  have hh01 : h01.toNat = 0x0101010101010101 := by decide
  simp only [List.mem_cons, forall_eq_or_imp, List.not_mem_nil, false_implies, implies_true,
    and_true] at h
  -- what is above the top byte of the product, and what is below it
  obtain ⟨high, low, hsplit, hlow⟩ : ∃ high low,
      pack 8 [a, b, c, d, e, f, g, i] * 0x0101010101010101
        = 2 ^ 64 * high + (2 ^ 56 * (a + b + c + d + e + f + g + i) + low) ∧
      low < 2 ^ 56 := by
    refine ⟨b + 0x101 * c + 0x10101 * d + 0x1010101 * e + 0x101010101 * f + 0x10101010101 * g
        + 0x1010101010101 * i,
      0x1010101010101 * a + 0x1010101010100 * b + 0x1010101010000 * c + 0x1010101000000 * d
        + 0x1010100000000 * e + 0x1010000000000 * f + 0x1000000000000 * g, ?_, by omega⟩
    simp only [pack]
    ring
  have htop : 2 ^ 56 * (a + b + c + d + e + f + g + i) + low < 2 ^ 64 := by omega
  rw [BitVec.toNat_ushiftRight, Nat.shiftRight_eq_div_pow, BitVec.toNat_mul, hx, hh01, hsplit,
    Nat.mul_add_mod, Nat.mod_eq_of_lt htop, Nat.mul_add_div (by decide), Nat.div_eq_of_lt hlow]
  simp only [List.sum_cons, List.sum_nil]
  omega

end Bytes

theorem ones_le (n x : Nat) : ones n x ≤ n := by
  have := Finset.card_filter_le (Finset.range n) fun i => x.testBit i
  rwa [Finset.card_range] at this

/-- `Curl_popcount64` is the number of one bits, for every value. -/
theorem popcount64_eq_ones (x : BitVec 64) : popcount64 x = ones 64 x.toNat := by
  have hlen : (fields 8 8 x.toNat).length = 8 := length_fields
  have hx : pack 8 (fields 8 8 x.toNat) = x.toNat := pack_fields x.isLt
  have hbyte : ∀ a ∈ fields 8 8 x.toNat, a < 256 := fun a ha => fields_lt ha
  generalize fields 8 8 x.toNat = as at hlen hx hbyte
  have h1 := toNat_step1 hlen hx.symm hbyte
  have h2 := toNat_step2 (by rwa [List.length_map]) h1
    (List.forall_mem_map.mpr fun a ha => (byteStep1_spec a (hbyte a ha)).2)
    (List.forall_mem_map.mpr fun a ha => by
      have := (byteStep2_spec a (hbyte a ha)).2
      omega)
  have h3 := toNat_step3 (by rwa [List.length_map, List.length_map]) h2
    (List.forall_mem_map.mpr <| List.forall_mem_map.mpr fun a ha => byteStep2_spec a (hbyte a ha))
  have hcount : (((as.map byteStep1).map byteStep2).map byteStep3) = as.map (ones 8) := by
    rw [List.map_map, List.map_map]
    exact List.map_congr_left fun a ha => byteStep3_spec a (hbyte a ha)
  rw [hcount] at h3
  calc popcount64 x = (as.map (ones 8)).sum :=
        toNat_sum (by rwa [List.length_map]) h3 (List.forall_mem_map.mpr fun a _ => ones_le 8 a)
    _ = ones (8 * as.length) (pack 8 as) := (ones_pack hbyte).symm
    _ = ones 64 x.toNat := by rw [hlen, hx]

/-! ### Trailing zeros -/

/-- `x` has been reached from `x₀` by shifts over `n - 1` zeros, and has a one in its lower `w`
bits. -/
structure Halved (x₀ : BitVec 64) (w : Nat) (s : Nat × BitVec 64) : Prop where
  pos : 0 < s.1
  value : x₀.toNat = 2 ^ (s.1 - 1) * s.2.toNat
  low : s.2.toNat % 2 ^ w ≠ 0

theorem Halved.step {x₀ : BitVec 64} {s : Nat × BitVec 64} (w : Nat) (mask : BitVec 64)
    (hmask : mask.toNat = 2 ^ w - 1) (h : Halved x₀ (w + w) s) :
    Halved x₀ w (ctzStep w mask s) := by
  obtain ⟨n, x⟩ := s
  obtain ⟨hpos, hvalue, hlow⟩ := h
  dsimp only at hpos hvalue hlow
  have hzero : x &&& mask = 0#64 ↔ x.toNat % 2 ^ w = 0 := by
    rw [← BitVec.toNat_inj, BitVec.toNat_and, hmask, Nat.and_two_pow_sub_one_eq_mod]
    rfl
  have hsplit := Nat.div_add_mod x.toNat (2 ^ w)
  unfold ctzStep
  split_ifs with hskip
  · rw [hzero] at hskip
    have hhalf : x.toNat = 2 ^ w * (x.toNat / 2 ^ w) := by omega
    refine ⟨Nat.add_pos_left hpos w, ?_, ?_⟩
    · dsimp only
      rw [BitVec.toNat_ushiftRight, Nat.shiftRight_eq_div_pow, Nat.sub_add_comm hpos, Nat.pow_add,
        Nat.mul_assoc, ← hhalf]
      exact hvalue
    · dsimp only
      rw [BitVec.toNat_ushiftRight, Nat.shiftRight_eq_div_pow]
      rw [hhalf, Nat.pow_add, Nat.mul_mod_mul_left] at hlow
      exact fun h0 => hlow (by rw [h0, Nat.mul_zero])
  · exact ⟨hpos, hvalue, fun h0 => hskip (hzero.mpr h0)⟩

theorem lowest_bit {x t z : Nat} (hx : x = 2 ^ t * z) (hodd : z % 2 = 1) :
    x.testBit t = true ∧ ∀ j < t, x.testBit j = false := by
  subst hx
  constructor
  · rw [Nat.testBit_two_pow_mul, Nat.sub_self, Nat.testBit_zero]
    simp [hodd]
  · intro j hj
    rw [Nat.testBit_two_pow_mul, decide_eq_false (by omega), Bool.false_and]

/-- `Curl_ctz64` is the place of the lowest one bit. -/
theorem ctz64_spec {x : BitVec 64} (hx : x ≠ 0#64) :
    x.toNat.testBit (ctz64 x) = true ∧ ∀ j < ctz64 x, x.toNat.testBit j = false := by
  have h64 : Halved x (32 + 32) (1, x) := by
    refine ⟨Nat.one_pos, by simp, ?_⟩
    rw [Nat.mod_eq_of_lt x.isLt]
    exact fun h0 => hx (BitVec.eq_of_toNat_eq h0)
  have h32 := h64.step 32 ml32 (by decide)
  have h16 := Halved.step 16 ml16 (by decide) h32
  have h8 := Halved.step 8 ml8 (by decide) h16
  have h4 := Halved.step 4 ml4 (by decide) h8
  have h2 := Halved.step 2 ml2 (by decide) h4
  unfold ctz64
  rw [if_neg hx]
  dsimp only
  generalize ctzStep 2 ml2 _ = s at h2 ⊢
  obtain ⟨hpos, hvalue, hlow⟩ := h2
  have hone : (s.2 &&& 1#64).toNat = s.2.toNat % 2 := by
    rw [BitVec.toNat_and]
    exact Nat.and_two_pow_sub_one_eq_mod s.2.toNat 1
  rw [hone]
  rcases Nat.mod_two_eq_zero_or_one s.2.toNat with heven | hodd
  · have hhalf : s.2.toNat = 2 * (s.2.toNat / 2) := by omega
    have hshift : x.toNat = 2 ^ s.1 * (s.2.toNat / 2) := by
      rw [hvalue, hhalf, ← Nat.mul_assoc, ← Nat.pow_succ, ← hhalf, Nat.succ_eq_add_one,
        Nat.sub_add_cancel hpos]
    rw [heven, Nat.sub_zero]
    exact lowest_bit hshift (by omega)
  · rw [hodd]
    exact lowest_bit hvalue hodd

theorem ctz64_lt {x : BitVec 64} (hx : x ≠ 0#64) : ctz64 x < 64 := by
  have hbit := (ctz64_spec hx).1
  by_contra hge
  rw [Nat.testBit_lt_two_pow (x.isLt.trans_le (Nat.pow_le_pow_right (by omega) (by omega)))] at hbit
  exact Bool.noConfusion hbit

end Gurl.Uint
