import Gurl.Http.Roundtrip
import Gurl.Mprintf

/-! `lib/curlx/inet_pton.c`: addresses from text to bytes. -/

namespace Gurl.Inet

open Strparse
open Http (isXDigit hexFrom Hex)

/-- The address families that `curlx_inet_pton` and `curlx_inet_ntop` tell apart. -/
inductive Family where
  | inet | inet6 | other

/-- The loop of `inet_pton4`: the octets before `*tp`, the octet at `*tp`, and the text that is
left. -/
def pton4Loop (tmp : Bytes) (tp octets : Nat) (sawDigit : Bool) :
    Bytes → Option Bytes
  | [] => if octets < 4 then none else some (tmp ++ [UInt8.ofNat tp])
  | ch :: src =>
    if isDigit ch then
      let val := tp * 10 + (ch.toNat - 48)
      if sawDigit && tp == 0 then none
      else if val > 255 then none
      else if sawDigit then pton4Loop tmp val octets true src
      else if octets + 1 > 4 then none
      else pton4Loop tmp val (octets + 1) true src
    else if ch == 46 && sawDigit then
      if octets = 4 then none else pton4Loop (tmp ++ [UInt8.ofNat tp]) 0 octets false src
    else none

/-- `inet_pton4`: the result, and `dst` afterwards. -/
def inetPton4 (src dst : Bytes) : Int × Bytes :=
  match pton4Loop [] 0 0 false src with
  | some tmp => (1, tmp ++ dst.drop 4)
  | none => (0, dst)

/-- The variables of `inet_pton6`; `tp` and `colonp` are positions in `tmp`. -/
structure Pton6 where
  tmp : Bytes
  tp : Nat
  colonp : Option Nat
  curtok : Bytes
  sawXdigit : Nat
  val : Nat
  deriving DecidableEq

/-- Store the group that was read. -/
def Pton6.putWord (p : Pton6) : Option Pton6 :=
  if p.tp + 2 > 16 then none
  else
    some { p with
      tmp := (p.tmp.set p.tp (UInt8.ofNat ((p.val >>> 8) &&& 0xff))).set (p.tp + 1)
        (UInt8.ofNat (p.val &&& 0xff))
      tp := p.tp + 2 }

/-- The loop of `inet_pton6`. -/
def pton6Loop (p : Pton6) : Bytes → Option Pton6
  | [] => some p
  | ch :: src =>
    if isXDigit ch then
      let val := p.val <<< 4 ||| hexval ch
      if p.sawXdigit + 1 > 4 then none
      else pton6Loop { p with val, sawXdigit := p.sawXdigit + 1 } src
    else if ch == 58 then
      if p.sawXdigit = 0 then
        if p.colonp.isSome then none
        else pton6Loop { p with curtok := src, colonp := some p.tp } src
      else
        match { p with curtok := src }.putWord with
        | none => none
        | some p => pton6Loop { p with sawXdigit := 0, val := 0 } src
    else if ch == 46 && p.tp + 4 ≤ 16 then
      match inetPton4 p.curtok (p.tmp.drop p.tp) with
      | (1, bytes) =>
        some { p with tmp := p.tmp.take p.tp ++ bytes, tp := p.tp + 4, sawXdigit := 0 }
      | _ => none
    else none

/-- The shift by hand: `i` of the `n` bytes behind `colonp` are moved to the end. -/
def shift (colonp n : Nat) (tmp : Bytes) : Nat → Bytes
  | 0 => tmp
  | i + 1 =>
    let tmp := shift colonp n tmp i
    (tmp.set (16 - (i + 1)) (tmp.getD (colonp + n - (i + 1)) 0)).set (colonp + n - (i + 1)) 0

/-- What `inet_pton6` does behind its loop: the bytes of the address. -/
def Pton6.finish (p : Pton6) : Option Bytes :=
  match p.colonp with
  | some colonp =>
    if p.tp = 16 then none else some (shift colonp (p.tp - colonp) p.tmp (p.tp - colonp))
  | none => if p.tp ≠ 16 then none else some p.tmp

/-- The group in front of the end is stored too. -/
def Pton6.flush (p : Pton6) : Option Pton6 := if p.sawXdigit = 0 then some p else p.putWord

def Pton6.start (src : Bytes) : Pton6 :=
  { tmp := List.replicate 16 0, tp := 0, colonp := none, curtok := src, sawXdigit := 0, val := 0 }

/-- The bytes that `inet_pton6` finds in the text. -/
def pton6Bytes (src : Bytes) : Option Bytes :=
  -- a leading `::` loses its first colon
  let src? := if src.head? = some 58 then
      if src.tail.head? = some 58 then some src.tail else none
    else some src
  src?.bind fun src => ((pton6Loop (.start src) src).bind Pton6.flush).bind Pton6.finish

/-- `inet_pton6`. -/
def inetPton6 (src dst : Bytes) : Int × Bytes :=
  match pton6Bytes src with
  | some tmp => (1, tmp ++ dst.drop 16)
  | none => (0, dst)

/-- `curlx_inet_pton`. -/
def inetPton (af : Family) (src dst : Bytes) : Int × Bytes :=
  match af with
  | .inet => inetPton4 src dst
  | .inet6 => inetPton6 src dst
  | .other => (-1, dst)

/-! ### Dotted quads -/

/-- The text of four octets. -/
def dottedQuad (a b c d : UInt8) : Bytes :=
  Mprintf.fmtUint a.toNat ++ 46 :: (Mprintf.fmtUint b.toNat ++ 46 :: (Mprintf.fmtUint c.toNat ++
    46 :: Mprintf.fmtUint d.toNat))

/-! `inet_pton4` accepts the texts of four octets, and no others. -/

open Mprintf

variable {tmp src ds rest q : Bytes} {tp octets : Nat} {c : UInt8}

/-! ### Decimal numbers without zeros in front -/

theorem digit_of_isDigit (h : isDigit c = true) : ∃ n < 10, c = UInt8.ofNat (48 + n) := by
  simp only [isDigit, Bool.and_eq_true, decide_eq_true_eq] at h
  refine ⟨c.toNat - 48, by omega, ?_⟩
  rw [show 48 + (c.toNat - 48) = c.toNat by omega, UInt8.ofNat_toNat]

theorem decimal_append (ds : Bytes) (c : UInt8) :
    decimal (ds ++ [c]) = decimal ds * 10 + (c.toNat - 48) := by
  simp [decimal, decimalFrom]

theorem decimal_pos (hc : isDigit c = true) (hlead : c ≠ 48) (ds : Bytes) :
    0 < decimal (c :: ds) := by
  have hle := le_decimalFrom (0 * 10 + (c.toNat - 48)) ds
  have hne : c.toNat ≠ 48 := fun h => hlead (UInt8.toNat_inj.mp h)
  simp only [isDigit, Bool.and_eq_true, decide_eq_true_eq] at hc
  change 0 < decimalFrom (0 * 10 + (c.toNat - 48)) ds
  omega

/-- Printing gives the digits back that a number was read from. -/
theorem decLoop_decimal (hds : ∀ c ∈ ds, isDigit c = true) (hlead : ds.head? ≠ some 48)
    {fuel : Nat} (hfuel : ds.length ≤ fuel) (w : Bytes) :
    decLoop fuel (decimal ds) w = ds ++ w := by
  induction ds using List.reverseRecOn generalizing fuel w with
  | nil => cases fuel <;> rfl
  | append_singleton ds c ih =>
    have hc := hds c (by simp)
    have hrest : ∀ c ∈ ds, isDigit c = true := fun c hc => hds c (by simp [hc])
    have hpos : 0 < decimal (ds ++ [c]) := by
      cases ds with
      | nil => exact decimal_pos hc (fun h => hlead (by rw [h]; rfl)) []
      | cons d ds => exact decimal_pos (hrest d (by simp)) (fun h => hlead (by rw [h]; rfl)) _
    have hlead' : ds.head? ≠ some 48 := by
      cases ds with
      | nil => exact nofun
      | cons d ds => exact hlead
    obtain ⟨n, hn, rfl⟩ := digit_of_isDigit hc
    have hvalue : decimal (ds ++ [UInt8.ofNat (48 + n)]) = decimal ds * 10 + n := by
      rw [decimal_append, (digit_spec n hn).1]
    rw [List.length_append, List.length_singleton] at hfuel
    obtain ⟨fuel, rfl⟩ := Nat.exists_eq_succ_of_ne_zero (show fuel ≠ 0 by omega)
    rw [decLoop, if_neg (by omega), hvalue, show (decimal ds * 10 + n) / 10 = decimal ds by omega,
      show (decimal ds * 10 + n) % 10 = n by omega, ih hrest hlead' (by omega),
      List.append_assoc]
    rfl

theorem fmtUint_decimal (hds : ∀ c ∈ ds, isDigit c = true) (hne : ds ≠ [])
    (hlead : ds.head? = some 48 → ds = [48]) (hlength : ds.length ≤ 20) :
    fmtUint (decimal ds) = ds := by
  by_cases hzero : ds.head? = some 48
  · rw [hlead hzero]
    rfl
  · obtain ⟨c, ds, rfl⟩ := List.exists_cons_of_ne_nil hne
    have hpos := decimal_pos (hds c (by simp)) (fun h => hzero (by rw [h]; rfl)) ds
    rw [fmtUint, if_neg (by omega), decLoop_decimal hds hzero hlength, List.append_nil]

theorem pow_le_decimalFrom (n : Nat) (ds : Bytes) :
    n * 10 ^ ds.length ≤ decimalFrom n ds := by
  induction ds generalizing n with
  | nil => exact Nat.le_of_eq (Nat.mul_one n)
  | cons c ds ih =>
    have hle := ih (n * 10 + (c.toNat - 48))
    calc n * 10 ^ (ds.length + 1) = (n * 10) * 10 ^ ds.length := by
          rw [Nat.pow_succ, Nat.mul_comm (10 ^ ds.length), Nat.mul_assoc]
      _ ≤ (n * 10 + (c.toNat - 48)) * 10 ^ ds.length := Nat.mul_le_mul_right _ (by omega)
      _ ≤ decimalFrom (n * 10 + (c.toNat - 48)) ds := hle

/-- A value that fits in a byte has no more than three digits, when there is no zero in front. -/
theorem digits_length (hds : ∀ c ∈ ds, isDigit c = true) (hne : ds ≠ [])
    (hlead : ds.head? = some 48 → ds = [48]) (hvalue : decimal ds ≤ 255) : ds.length ≤ 20 := by
  by_cases hzero : ds.head? = some 48
  · rw [hlead hzero]
    decide
  · obtain ⟨c, ds, rfl⟩ := List.exists_cons_of_ne_nil hne
    have hpos := decimal_pos (hds c (by simp)) (fun h => hzero (by rw [h]; rfl)) []
    have hle := pow_le_decimalFrom (decimal [c]) ds
    change decimalFrom (decimal [c]) ds ≤ 255 at hvalue
    rw [List.length_cons]
    by_contra hlong
    have hpow : 10 ^ 20 ≤ 10 ^ ds.length := Nat.pow_le_pow_right (by decide) (by omega)
    have := Nat.le_mul_of_pos_left (10 ^ ds.length) hpos
    omega

/-- A number that is printed has no zero in front. -/
theorem fmtUint_lead : ∀ n < 256, (fmtUint n).head? = some 48 → fmtUint n = [48] := by
  decide +kernel

/-! ### One octet -/

theorem pton4Loop_digit (hc : isDigit c = true) (tmp : Bytes) (tp octets : Nat)
    (src : Bytes) :
    pton4Loop tmp tp octets true (c :: src) =
      if tp = 0 ∨ tp * 10 + (c.toNat - 48) > 255 then none
      else pton4Loop tmp (tp * 10 + (c.toNat - 48)) octets true src := by
  rw [pton4Loop, if_pos hc]
  simp only [Bool.true_and, beq_iff_eq, ite_or, if_true]

/-- Digits behind the first one. -/
theorem pton4Loop_digits (hds : ∀ c ∈ ds, isDigit c = true) (tmp : Bytes) {tp : Nat}
    (htp : tp ≤ 255) (octets : Nat) (rest : Bytes) :
    pton4Loop tmp tp octets true (ds ++ rest) =
      if (ds = [] ∨ tp ≠ 0) ∧ decimalFrom tp ds ≤ 255 then
        pton4Loop tmp (decimalFrom tp ds) octets true rest
      else none := by
  induction ds generalizing tp with
  | nil => rw [if_pos ⟨.inl rfl, htp⟩]; rfl
  | cons c ds ih =>
    have hstep : decimalFrom tp (c :: ds) = decimalFrom (tp * 10 + (c.toNat - 48)) ds := rfl
    have hle := le_decimalFrom (tp * 10 + (c.toNat - 48)) ds
    rw [List.cons_append, pton4Loop_digit (hds c (by simp)), hstep]
    by_cases hstop : tp = 0 ∨ tp * 10 + (c.toNat - 48) > 255
    · rw [if_pos hstop, if_neg]
      rintro ⟨hlead, hsmall⟩
      simp only [reduceCtorEq, false_or] at hlead
      omega
    · rw [if_neg hstop, ih (fun c hc => hds c (by simp [hc])) (by omega)]
      have hgo : (ds = [] ∨ tp * 10 + (c.toNat - 48) ≠ 0) ↔ (c :: ds = [] ∨ tp ≠ 0) := by
        simp only [reduceCtorEq, false_or]
        omega
      simp only [hgo]

/-- An octet, up to what is no digit. -/
theorem pton4Loop_octet (hds : ∀ c ∈ ds, isDigit c = true) (hne : ds ≠ []) (tmp : Bytes)
    {octets : Nat} (hoctets : octets < 4) (rest : Bytes) :
    pton4Loop tmp 0 octets false (ds ++ rest) =
      if (ds.head? = some 48 → ds = [48]) ∧ decimal ds ≤ 255 then
        pton4Loop tmp (decimal ds) (octets + 1) true rest
      else none := by
  obtain ⟨c, ds, rfl⟩ := List.exists_cons_of_ne_nil hne
  have hc := hds c (by simp)
  have hsmall : c.toNat - 48 ≤ 9 := by
    simp only [isDigit, Bool.and_eq_true, decide_eq_true_eq] at hc
    omega
  rw [List.cons_append, pton4Loop, if_pos hc]
  simp only [Bool.false_and, Bool.false_eq_true, if_false, Nat.zero_mul, Nat.zero_add]
  rw [if_neg (by omega), if_neg (by omega),
    pton4Loop_digits (fun c hc => hds c (by simp [hc])) tmp (by omega)]
  have hvalue : decimal (c :: ds) = decimalFrom (c.toNat - 48) ds := by
    rw [decimal, decimalFrom, List.foldl_cons, Nat.zero_mul, Nat.zero_add]
    rfl
  have hlead : (ds = [] ∨ c.toNat - 48 ≠ 0) ↔ ((c :: ds).head? = some 48 → c :: ds = [48]) := by
    have hzero : c.toNat - 48 = 0 ↔ c = 48 := by
      simp only [isDigit, Bool.and_eq_true, decide_eq_true_eq] at hc
      rw [← UInt8.toNat_inj]
      change c.toNat - 48 = 0 ↔ c.toNat = 48
      omega
    rw [ne_eq, hzero, List.head?_cons, Option.some_inj, List.cons.injEq]
    by_cases h : c = 48 <;> simp [h]
  simp only [hvalue, hlead]

/-- Where an octet is read, the text of an octet stands. -/
theorem octet_of_pton4Loop (h : pton4Loop tmp 0 octets false src = some q) (hoctets : octets < 4) :
    ∃ (v : UInt8) (rest : Bytes), src = fmtUint v.toNat ++ rest ∧
      (∀ c ∈ rest.head?, isDigit c = false) ∧
      pton4Loop tmp v.toNat (octets + 1) true rest = some q := by
  have hsplit := (List.takeWhile_append_dropWhile (p := isDigit) (l := src)).symm
  have hds : ∀ c ∈ src.takeWhile isDigit, isDigit c = true := fun c hc => List.mem_takeWhile_imp hc
  have hrest : ∀ c ∈ (src.dropWhile isDigit).head?, isDigit c = false := by
    intro c hc
    have := List.head?_dropWhile_not isDigit src
    rw [Option.mem_def.mp hc] at this
    exact this
  by_cases hne : src.takeWhile isDigit = []
  · cases src with
    | nil =>
      rw [pton4Loop, if_pos hoctets] at h
      cases h
    | cons c src =>
      have hc : isDigit c = false := by
        by_contra hc
        rw [Bool.not_eq_false] at hc
        rw [List.takeWhile_cons_of_pos hc] at hne
        cases hne
      rw [pton4Loop, if_neg (by rw [hc]; decide)] at h
      simp at h
  · rw [hsplit, pton4Loop_octet hds hne tmp hoctets] at h
    split at h
    · rename_i hok
      have hv : (UInt8.ofNat (decimal (src.takeWhile isDigit))).toNat =
          decimal (src.takeWhile isDigit) := by
        rw [UInt8.toNat_ofNat', Nat.mod_eq_of_lt]
        omega
      refine ⟨UInt8.ofNat (decimal (src.takeWhile isDigit)), src.dropWhile isDigit, ?_, hrest, ?_⟩
      · rw [hv, fmtUint_decimal hds hne hok.1 (digits_length hds hne hok.1 hok.2)]
        exact hsplit
      · rw [hv]
        exact h
    · cases h

/-- Behind an octet there is a dot, or the end of the text. -/
theorem dot_of_pton4Loop (h : pton4Loop tmp tp octets true rest = some q)
    (hrest : ∀ c ∈ rest.head?, isDigit c = false) :
    (rest = [] ∧ 4 ≤ octets ∧ q = tmp ++ [UInt8.ofNat tp]) ∨
      ∃ src, rest = 46 :: src ∧ octets ≠ 4 ∧
        pton4Loop (tmp ++ [UInt8.ofNat tp]) 0 octets false src = some q := by
  cases rest with
  | nil =>
    rw [pton4Loop] at h
    split at h
    · cases h
    · exact .inl ⟨rfl, by omega, (Option.some.inj h).symm⟩
  | cons c src =>
    rw [pton4Loop, if_neg (by rw [hrest c rfl]; decide)] at h
    split at h
    · rename_i hdot
      rw [Bool.and_true, beq_iff_eq] at hdot
      subst hdot
      split at h
      · cases h
      · rename_i hne
        exact .inr ⟨src, rfl, hne, h⟩
    · cases h

theorem pton4Loop_fmtUint (v : UInt8) (tmp : Bytes) (hoctets : octets < 4)
    (rest : Bytes) :
    pton4Loop tmp 0 octets false (fmtUint v.toNat ++ rest) =
      pton4Loop tmp v.toNat (octets + 1) true rest := by
  have hlt := v.toNat_lt
  have hvalue := decimal_fmtUint (show v.toNat < 10 ^ 20 by omega)
  rw [pton4Loop_octet (fmtUint_digits _) (fmtUint_ne_nil (by omega)) tmp hoctets, hvalue,
    if_pos ⟨fmtUint_lead _ hlt, by omega⟩]

theorem pton4Loop_dot (v : UInt8) (tmp : Bytes) (hoctets : octets ≠ 4) (src : Bytes) :
    pton4Loop tmp v.toNat octets true (46 :: src) =
      pton4Loop (tmp ++ [v]) 0 octets false src := by
  rw [pton4Loop, if_neg (by decide), if_pos (by decide), if_neg hoctets, UInt8.ofNat_toNat]

/-- `inet_pton4` accepts the texts of four octets. -/
theorem pton4Loop_iff :
    pton4Loop [] 0 0 false src = some q ↔
      ∃ a b c d, src = dottedQuad a b c d ∧ q = [a, b, c, d] := by
  constructor
  · intro h
    obtain ⟨a, src, rfl, hrest, h⟩ := octet_of_pton4Loop h (by decide)
    obtain ⟨-, habs, -⟩ | ⟨src, rfl, -, h⟩ := dot_of_pton4Loop h hrest
    · exact absurd habs (by decide)
    obtain ⟨b, src, rfl, hrest, h⟩ := octet_of_pton4Loop h (by decide)
    obtain ⟨-, habs, -⟩ | ⟨src, rfl, -, h⟩ := dot_of_pton4Loop h hrest
    · exact absurd habs (by decide)
    obtain ⟨c, src, rfl, hrest, h⟩ := octet_of_pton4Loop h (by decide)
    obtain ⟨-, habs, -⟩ | ⟨src, rfl, -, h⟩ := dot_of_pton4Loop h hrest
    · exact absurd habs (by decide)
    obtain ⟨d, src, rfl, hrest, h⟩ := octet_of_pton4Loop h (by decide)
    obtain ⟨rfl, -, rfl⟩ | ⟨src, rfl, habs, -⟩ := dot_of_pton4Loop h hrest
    · refine ⟨a, b, c, d, ?_, ?_⟩
      · simp only [dottedQuad, List.append_nil]
      · simp only [UInt8.ofNat_toNat]
        rfl
    · exact absurd rfl habs
  · rintro ⟨a, b, c, d, rfl, rfl⟩
    have hend := pton4Loop_fmtUint d [a, b, c] (show 3 < 4 by decide) []
    rw [List.append_nil] at hend
    rw [dottedQuad, pton4Loop_fmtUint a _ (by decide), pton4Loop_dot a _ (by decide),
      pton4Loop_fmtUint b _ (by decide), pton4Loop_dot b _ (by decide),
      pton4Loop_fmtUint c _ (by decide), pton4Loop_dot c _ (by decide)]
    change pton4Loop [a, b, c] 0 3 false (fmtUint d.toNat) = some [a, b, c, d]
    rw [hend, pton4Loop, if_neg (by decide), UInt8.ofNat_toNat]
    rfl

/-- `inet_pton4` says what it has found, or leaves `dst` alone. -/
theorem inetPton4_spec (src dst : Bytes) :
    (∃ a b c d, src = dottedQuad a b c d ∧ inetPton4 src dst = (1, [a, b, c, d] ++ dst.drop 4)) ∨
      ((∀ a b c d, src ≠ dottedQuad a b c d) ∧ inetPton4 src dst = (0, dst)) := by
  rw [inetPton4]
  cases hloop : pton4Loop [] 0 0 false src with
  | some q =>
    obtain ⟨a, b, c, d, hsrc, rfl⟩ := pton4Loop_iff.mp hloop
    exact .inl ⟨a, b, c, d, hsrc, rfl⟩
  | none =>
    refine .inr ⟨fun a b c d hsrc => ?_, rfl⟩
    have := pton4Loop_iff.mpr ⟨a, b, c, d, hsrc, rfl⟩
    rw [hloop] at this
    cases this

end Gurl.Inet
