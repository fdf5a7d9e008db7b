import Gurl.Strcase
import Mathlib.Tactic.Ring

/-! `lib/curlx/base64.c`: encoding and decoding, with a check of every index into a buffer. -/

namespace Gurl.Base64

open Strcase

/-- What ends the work early: a bad symbol, or an access outside of a buffer. -/
inductive Stop where
  | bad | outside

def getAt (buf : Bytes) (i : Nat) : Except Stop UInt8 :=
  match buf[i]? with
  | some c => .ok c
  | none => .error .outside

def putAt (buf : Bytes) (i : Nat) (b : UInt8) : Except Stop Bytes :=
  if i < buf.length then .ok (buf.set i b) else .error .outside

/-- `curlx_base64encdec`. -/
def curlxBase64encdec : Bytes :=
  ascii "ABCDEFGHIJKLMNOPQRSTUVWXYZabcdefghijklmnopqrstuvwxyz0123456789+/"

def decodetable : List Nat :=
  [62,  255, 255, 255, 63,  52,  53, 54, 55, 56, 57, 58, 59, 60, 61, 255,
   255, 255, 255, 255, 255, 255, 0,  1,  2,  3,  4,  5,  6,  7,  8,  9,
   10,  11,  12,  13,  14,  15,  16, 17, 18, 19, 20, 21, 22, 23, 24, 25,
   255, 255, 255, 255, 255, 255, 26, 27, 28, 29, 30, 31, 32, 33, 34, 35,
   36,  37,  38,  39,  40,  41,  42, 43, 44, 45, 46, 47, 48, 49, 50, 51]

/-- `lookup`: all ones, with `decodetable` from `'+'` on. -/
def lookup (c : UInt8) : Nat :=
  if 43 ≤ c.toNat then decodetable.getD (c.toNat - 43) 255 else 255

/-! ### Decoding -/

/-- The loop that counts padding characters; it stops before its third round ends. -/
def countPadding (mem : Bytes) (srclen : Nat) : Nat → Nat → Except Stop Nat
  | 0, _ => .error .outside
  | fuel + 1, padding => do
    let c ← getAt mem (srclen - 1 - padding)
    if c = 61 then
      if padding + 1 > 2 then .error .bad else countPadding mem srclen fuel (padding + 1)
    else .ok padding

/-- The symbols of a complete quantum. -/
def readQuantum (mem : Bytes) : Nat → Nat → Nat → Except Stop Nat
  | 0, _, x => .ok x
  | j + 1, src, x => do
    let c ← getAt mem src
    let val := lookup c
    if val = 255 then .error .bad else readQuantum mem j (src + 1) (x <<< 6 ||| val)

/-- The complete quantums: `newstr`, `src` and `pos` behind them. -/
def fullQuantums (mem : Bytes) :
    Nat → Nat → Nat → Bytes → Except Stop (Bytes × Nat × Nat)
  | 0, src, pos, newstr => .ok (newstr, src, pos)
  | n + 1, src, pos, newstr => do
    let x ← readQuantum mem 4 src 0
    let newstr ← putAt newstr (pos + 2) (UInt8.ofNat (x &&& 0xff))
    let newstr ← putAt newstr (pos + 1) (UInt8.ofNat ((x >>> 8) &&& 0xff))
    let newstr ← putAt newstr pos (UInt8.ofNat ((x >>> 16) &&& 0xff))
    fullQuantums mem n (src + 4) (pos + 3) newstr

/-- The symbols of the quantum with the padding. -/
def readPadded (mem : Bytes) (padding : Nat) : Nat → Nat → Nat → Nat → Except Stop Nat
  | 0, _, _, x => .ok x
  | j + 1, src, padc, x => do
    let c ← getAt mem src
    if c = 61 then
      if padc + 1 > padding then .error .bad
      else readPadded mem padding j (src + 1) (padc + 1) (x <<< 6)
    else
      let val := lookup c
      if val = 255 then .error .bad else readPadded mem padding j (src + 1) padc (x <<< 6 ||| val)

/-- The quantum with the padding: `newstr` and `pos` behind it. -/
def paddedQuantum (mem : Bytes) (padding src pos : Nat) (newstr : Bytes) :
    Except Stop (Bytes × Nat) := do
  let x ← readPadded mem padding 4 src 0 0
  let newstr ←
    if padding = 1 then putAt newstr (pos + 1) (UInt8.ofNat ((x >>> 8) &&& 0xff)) else .ok newstr
  let newstr ← putAt newstr pos (UInt8.ofNat ((x >>> 16) &&& 0xff))
  .ok (newstr, pos + 3 - padding)

/-- `curlx_base64_decode` up to its label `bad`: the decoded bytes. -/
def decodeString (src : Bytes) : Except Stop Bytes := do
  let srclen := src.length
  -- the string and its zero
  let mem := src ++ [0]
  if srclen = 0 ∨ srclen % 4 ≠ 0 then .error .bad
  else
    let padding ← countPadding mem srclen 3 0
    let numQuantums := srclen / 4
    let full := numQuantums - if padding ≠ 0 then 1 else 0
    let rawlen := numQuantums * 3 - padding
    let (newstr, src, pos) ← fullQuantums mem full 0 0 (List.replicate (rawlen + 1) 0)
    let (newstr, pos) ←
      if padding ≠ 0 then paddedQuantum mem padding src pos newstr else .ok (newstr, pos)
    let newstr ← putAt newstr pos 0
    .ok (newstr.take rawlen)

/-- `curlx_base64_decode`: the result and the decoded data. Nothing comes out of an access outside
of a buffer. -/
def curlxBase64Decode (src : Bytes) : Option (Curlcode × Bytes) :=
  match decodeString src with
  | .ok out => some (.ok, out)
  | .error .bad => some (.badContentEncoding, [])
  | .error .outside => none

/-! ### Encoding -/

/-- `CURL_MAX_BASE64_INPUT`. -/
def curlMaxBase64Input : Nat := 16000000

/-- Write symbols with these positions in `table64`. -/
def putSymbols (table64 : Bytes) : List Nat → Nat → Bytes → Except Stop (Bytes × Nat)
  | [], output, data => .ok (data, output)
  | i :: is, output, data => do
    let c ← getAt table64 i
    let data ← putAt data output c
    putSymbols table64 is (output + 1) data

/-- Write padding bytes. -/
def putPadding (padbyte : UInt8) : Nat → Nat → Bytes → Except Stop (Bytes × Nat)
  | 0, output, data => .ok (data, output)
  | n + 1, output, data => do
    let data ← putAt data output padbyte
    putPadding padbyte n (output + 1) data

/-- The loop of `base64_encode` and what is behind it; `inp` is the position in the input. -/
def encodeLoop (table64 : Bytes) (padbyte : UInt8) (input : Bytes) :
    Nat → Nat → Nat → Bytes → Except Stop (Bytes × Nat)
  | insize + 3, inp, output, data => do
    let a := (← getAt input inp).toNat
    let b := (← getAt input (inp + 1)).toNat
    let c := (← getAt input (inp + 2)).toNat
    let (data, output) ← putSymbols table64
      [a >>> 2, (a &&& 0x03) <<< 4 ||| b >>> 4, (b &&& 0x0f) <<< 2 ||| (c &&& 0xc0) >>> 6,
        c &&& 0x3f]
      output data
    encodeLoop table64 padbyte input insize (inp + 3) output data
  | 2, inp, output, data => do
    let a := (← getAt input inp).toNat
    let b := (← getAt input (inp + 1)).toNat
    let (data, output) ← putSymbols table64
      [a >>> 2, (a &&& 0x03) <<< 4 ||| (b &&& 0xf0) >>> 4, (b &&& 0x0f) <<< 2] output data
    putPadding padbyte (if padbyte ≠ 0 then 1 else 0) output data
  | 1, inp, output, data => do
    let a := (← getAt input inp).toNat
    let (data, output) ← putSymbols table64 [a >>> 2, (a &&& 0x03) <<< 4] output data
    putPadding padbyte (if padbyte ≠ 0 then 2 else 0) output data
  | 0, _, output, data => .ok (data, output)

/-- `base64_encode`: the result and the text, if there is one. -/
def base64Encode (table64 : Bytes) (padbyte : UInt8) (input : Bytes) :
    Option (Curlcode × Option Bytes) :=
  let insize := input.length
  if insize = 0 then some (.ok, none)
  else if insize > curlMaxBase64Input then some (.tooLarge, none)
  else
    let data := List.replicate ((insize + 2) / 3 * 4 + 1) 0
    let text := do
      let (data, output) ← encodeLoop table64 padbyte input insize 0 0 data
      let data ← putAt data output 0
      .ok (data.take output)
    match text with
    | .ok text => some (.ok, some text)
    | .error _ => none

/-- `curlx_base64_encode`. -/
def curlxBase64Encode (input : Bytes) : Option (Curlcode × Option Bytes) :=
  base64Encode curlxBase64encdec 61 input

/-! ### Symbols and bytes -/

variable {A B cs out rest s x body : Bytes} {n padding : Nat}

/-- In the alphabet. -/
def isSymbol (c : UInt8) : Bool := lookup c != 255

/-- The number that some symbols make behind `x`. -/
def value (x : Nat) (cs : Bytes) : Nat := cs.foldl (fun x c => x * 64 + lookup c) x

set_option maxRecDepth 4000 in
theorem symbol_table : ∀ n < 256, isSymbol (UInt8.ofNat n) = true →
    lookup (UInt8.ofNat n) < 64 := by
  decide

theorem lookup_lt {c : UInt8} (h : isSymbol c = true) : lookup c < 64 := by
  have hc := symbol_table c.toNat c.toNat_lt
  rw [UInt8.ofNat_toNat] at hc
  exact hc h

set_option maxRecDepth 4000 in
/-- The decoding table undoes the encoding table. -/
theorem encdec_spec : ∀ n < 64, ∃ c, curlxBase64encdec[n]? = some c ∧ lookup c = n ∧
    isSymbol c = true ∧ c ≠ 61 := by
  have hall : ((List.range 64).all fun n => curlxBase64encdec[n]?.any fun c =>
      lookup c == n && isSymbol c && c != 61) = true := by decide
  intro n hn
  have h := List.all_eq_true.mp hall n (List.mem_range.mpr hn)
  cases hc : curlxBase64encdec[n]? with
  | none => simp [hc] at h
  | some c =>
    simp only [hc, Option.any_some, Bool.and_eq_true, beq_iff_eq, bne_iff_ne] at h
    exact ⟨c, rfl, h.1.1, h.1.2, h.2⟩

set_option maxRecDepth 4000 in
theorem isSymbol_iff (c : UInt8) : isSymbol c = true ↔ c ∈ curlxBase64encdec := by
  have hall : ∀ n < 256, isSymbol (UInt8.ofNat n) = true →
      curlxBase64encdec[lookup (UInt8.ofNat n)]? = some (UInt8.ofNat n) := by decide
  have hsymbols : (curlxBase64encdec.all isSymbol) = true := by decide
  constructor
  · intro h
    have hc := hall c.toNat c.toNat_lt
    rw [UInt8.ofNat_toNat] at hc
    exact List.mem_of_getElem? (hc h)
  · exact List.all_eq_true.mp hsymbols c

theorem isSymbol_pad : isSymbol 61 = false := by decide

theorem getAt_mid (A B : Bytes) (c : UInt8) : getAt (A ++ c :: B) A.length = .ok c := by
  rw [getAt, List.getElem?_append_right (Nat.le_refl _), Nat.sub_self]
  rfl

theorem putAt_mid (A B : Bytes) (y c : UInt8) :
    putAt (A ++ y :: B) A.length c = .ok (A ++ c :: B) := by
  have hlt : A.length < (A ++ y :: B).length := by simp
  rw [putAt, if_pos hlt, List.set_append_right _ _ (Nat.le_refl _), Nat.sub_self,
    List.set_cons_zero]

theorem shift_or (v : Nat) {c : UInt8} (h : isSymbol c = true) :
    v <<< 6 ||| lookup c = v * 64 + lookup c := by
  rw [← Nat.shiftLeft_add_eq_or_of_lt (lookup_lt h), Nat.shiftLeft_eq]

theorem isSymbol_false {c : UInt8} : isSymbol c = false ↔ lookup c = 255 := by
  rw [isSymbol, bne_eq_false_iff_eq]

/-! ### Complete quantums -/

theorem readQuantum_eq (A cs B : Bytes) (v : Nat) :
    readQuantum (A ++ (cs ++ B)) cs.length A.length v =
      if cs.all isSymbol then .ok (value v cs) else .error .bad := by
  induction cs generalizing A v with
  | nil => rfl
  | cons c cs ih =>
    have hsplit : A ++ ((c :: cs) ++ B) = (A ++ [c]) ++ (cs ++ B) := by simp
    have hnext := ih (A ++ [c])
    rw [List.length_append, List.length_singleton, ← hsplit] at hnext
    rw [List.length_cons, readQuantum, List.cons_append, getAt_mid]
    rw [List.cons_append] at hnext
    change (if lookup c = 255 then .error .bad
      else readQuantum (A ++ c :: (cs ++ B)) cs.length (A.length + 1) (v <<< 6 ||| lookup c)) = _
    rw [List.all_cons]
    cases hc : isSymbol c with
    | false => rw [if_pos (isSymbol_false.mp hc)]; rfl
    | true =>
      rw [if_neg (by simpa [isSymbol] using hc), shift_or v hc, hnext]
      rfl

/-- The bytes of 24 bits. -/
def bytesOf (x : Nat) : Bytes :=
  [UInt8.ofNat ((x >>> 16) &&& 0xff), UInt8.ofNat ((x >>> 8) &&& 0xff), UInt8.ofNat (x &&& 0xff)]

/-- The bytes that symbols make; there are three or two in a last quantum with padding. -/
def decodeText : Bytes → Bytes
  | c0 :: c1 :: c2 :: c3 :: rest => bytesOf (value 0 [c0, c1, c2, c3]) ++ decodeText rest
  | [c0, c1, c2] => (bytesOf (value 0 [c0, c1, c2] * 64)).take 2
  | [c0, c1] => (bytesOf (value 0 [c0, c1] * 4096)).take 1
  | _ => []

theorem four_first {n : Nat} {body : Bytes} (h : body.length = 4 * (n + 1)) :
    ∃ c0 c1 c2 c3 rest, body = c0 :: c1 :: c2 :: c3 :: rest ∧ rest.length = 4 * n := by
  match body, h with
  | c0 :: c1 :: c2 :: c3 :: rest, h =>
    refine ⟨c0, c1, c2, c3, rest, rfl, ?_⟩
    simp only [List.length_cons] at h
    omega

theorem three_first (h : 3 * (n + 1) ≤ rest.length) :
    ∃ r0 r1 r2 rest', rest = r0 :: r1 :: r2 :: rest' ∧ 3 * n ≤ rest'.length := by
  match rest, h with
  | r0 :: r1 :: r2 :: rest', h =>
    refine ⟨r0, r1, r2, rest', rfl, ?_⟩
    simp only [List.length_cons] at h
    omega

theorem fullQuantums_eq (A B out rest : Bytes) (hbody : body.length = 4 * n)
    (hrest : 3 * n ≤ rest.length) :
    fullQuantums (A ++ (body ++ B)) n A.length out.length (out ++ rest) =
      if body.all isSymbol then
        .ok (out ++ decodeText body ++ rest.drop (3 * n), A.length + 4 * n, out.length + 3 * n)
      else .error .bad := by
  induction n generalizing A out rest body with
  | zero =>
    obtain rfl : body = [] := List.length_eq_zero_iff.mp hbody
    simp [fullQuantums, decodeText]
  | succ n ih =>
    obtain ⟨c0, c1, c2, c3, body, rfl, hlength⟩ := four_first hbody
    obtain ⟨r0, r1, r2, rest, rfl, hroom⟩ := three_first hrest
    have hread : readQuantum (A ++ ([c0, c1, c2, c3] ++ (body ++ B))) 4 A.length 0 = _ :=
      readQuantum_eq A [c0, c1, c2, c3] (body ++ B) 0
    have hall : (c0 :: c1 :: c2 :: c3 :: body).all isSymbol =
        ([c0, c1, c2, c3].all isSymbol && body.all isSymbol) := by
      simp [Bool.and_assoc]
    have hmem : A ++ ((c0 :: c1 :: c2 :: c3 :: body) ++ B) =
        A ++ ([c0, c1, c2, c3] ++ (body ++ B)) := rfl
    rw [fullQuantums, hmem, hread, hall]
    cases hsymbols : [c0, c1, c2, c3].all isSymbol with
    | false => rfl
    | true =>
      rw [if_pos rfl, Bool.true_and]
      generalize hx : value 0 [c0, c1, c2, c3] = x
      have hput2 := putAt_mid (out ++ [r0, r1]) rest r2 (UInt8.ofNat (x &&& 0xff))
      have hput1 := putAt_mid (out ++ [r0]) (UInt8.ofNat (x &&& 0xff) :: rest) r1
        (UInt8.ofNat ((x >>> 8) &&& 0xff))
      have hput0 :=
        putAt_mid out (UInt8.ofNat ((x >>> 8) &&& 0xff) :: UInt8.ofNat (x &&& 0xff) :: rest)
        r0 (UInt8.ofNat ((x >>> 16) &&& 0xff))
      simp only [List.append_assoc, List.length_append, List.length_cons, List.length_nil,
        List.cons_append, List.nil_append, Nat.zero_add] at hput2 hput1
      have hnext := ih (A ++ [c0, c1, c2, c3]) (out ++ bytesOf x) rest hlength hroom
      simp only [List.append_assoc, List.length_append, List.length_cons, List.length_nil,
        Nat.zero_add, bytesOf] at hnext
      change (do
        let newstr ← putAt (out ++ r0 :: r1 :: r2 :: rest) (out.length + 2)
          (UInt8.ofNat (x &&& 0xff))
        let newstr ← putAt newstr (out.length + 1) (UInt8.ofNat ((x >>> 8) &&& 0xff))
        let newstr ← putAt newstr out.length (UInt8.ofNat ((x >>> 16) &&& 0xff))
        fullQuantums (A ++ ([c0, c1, c2, c3] ++ (body ++ B))) n (A.length + 4)
          (out.length + 3) newstr) = _
      rw [hput2]
      change (do
        let newstr ← putAt (out ++ r0 :: r1 :: UInt8.ofNat (x &&& 0xff) :: rest) (out.length + 1)
          (UInt8.ofNat ((x >>> 8) &&& 0xff))
        let newstr ← putAt newstr out.length (UInt8.ofNat ((x >>> 16) &&& 0xff))
        fullQuantums (A ++ ([c0, c1, c2, c3] ++ (body ++ B))) n (A.length + 4)
          (out.length + 3) newstr) = _
      rw [hput1]
      change (do
        let newstr ← putAt (out ++ r0 :: UInt8.ofNat ((x >>> 8) &&& 0xff) ::
          UInt8.ofNat (x &&& 0xff) :: rest) out.length (UInt8.ofNat ((x >>> 16) &&& 0xff))
        fullQuantums (A ++ ([c0, c1, c2, c3] ++ (body ++ B))) n (A.length + 4)
          (out.length + 3) newstr) = _
      rw [hput0]
      refine hnext.trans ?_
      simp only [decodeText, hx, bytesOf, List.append_assoc, List.cons_append, List.nil_append,
        Nat.mul_succ, List.drop_succ_cons, Nat.add_assoc, Nat.add_comm 4, Nat.add_comm 3]

/-! ### The quantum with the padding -/

variable {c0 c1 c2 c3 : UInt8} {pre : Bytes}

/-- `value`, with nothing for a padding byte. -/
def paddedValue (x : Nat) (cs : Bytes) : Nat :=
  cs.foldl (fun x c => x * 64 + if c = 61 then 0 else lookup c) x

theorem readPadded_eq (A cs B : Bytes) (padding padc v : Nat) (hpadc : padc ≤ padding) :
    readPadded (A ++ (cs ++ B)) padding cs.length A.length padc v =
      if (cs.all fun c => c == 61 || isSymbol c) ∧ padc + cs.count 61 ≤ padding then
        .ok (paddedValue v cs)
      else .error .bad := by
  induction cs generalizing A padc v with
  | nil =>
    rw [if_pos ⟨rfl, hpadc⟩]
    rfl
  | cons c cs ih =>
    have hsplit : A ++ c :: (cs ++ B) = (A ++ [c]) ++ (cs ++ B) := by simp
    have hstep := ih (A ++ [c])
    rw [List.length_append, List.length_singleton, ← hsplit] at hstep
    rw [List.length_cons, readPadded, List.cons_append, getAt_mid]
    change (if c = 61 then _ else _) = _
    by_cases hc : c = 61
    · subst hc
      rw [if_pos rfl]
      by_cases hmore : padc + 1 > padding
      · rw [if_pos hmore, if_neg]
        rintro ⟨-, hcount⟩
        rw [List.count_cons_self] at hcount
        omega
      · rw [if_neg hmore, hstep _ _ (by omega), Nat.shiftLeft_eq]
        simp [paddedValue, Nat.add_assoc, Nat.add_comm 1]
    · rw [if_neg hc]
      cases hsymbol : isSymbol c with
      | false =>
        rw [if_pos (isSymbol_false.mp hsymbol), if_neg]
        rintro ⟨hall, -⟩
        simp [hc, hsymbol] at hall
      | true =>
        have hval : ¬ lookup c = 255 := by simpa [isSymbol] using hsymbol
        rw [if_neg hval, shift_or v hsymbol, hstep _ _ hpadc, List.count_cons_of_ne hc]
        simp [paddedValue, hc, hsymbol]

theorem isSymbol_ne_pad {c : UInt8} (h : isSymbol c = true) : c ≠ 61 := by
  rintro rfl
  exact Bool.false_ne_true (isSymbol_pad.symm.trans h)

/-- A quantum that ends with all its padding: the bytes before it are symbols. -/
theorem readPadded_padded (A cs B : Bytes) (padding v : Nat) :
    readPadded (A ++ ((cs ++ List.replicate padding 61) ++ B)) padding
      (cs.length + padding) A.length
        0 v =
      if cs.all isSymbol then .ok (paddedValue v (cs ++ List.replicate padding 61))
      else .error .bad := by
  have hread := readPadded_eq A (cs ++ List.replicate padding 61) B padding 0 v (Nat.zero_le _)
  rw [List.length_append, List.length_replicate] at hread
  rw [hread]
  refine if_congr ?_ rfl rfl
  simp only [List.all_append, List.count_append, List.count_replicate_self, Bool.and_eq_true,
    List.all_eq_true, Bool.or_eq_true, beq_iff_eq]
  constructor
  · rintro ⟨⟨hcs, -⟩, hcount⟩ c hc
    refine (hcs c hc).resolve_left fun hpad => ?_
    have := List.count_pos_iff.mpr (hpad ▸ hc)
    omega
  · intro hall
    have hnone : cs.count 61 = 0 := List.count_eq_zero.mpr fun hmem =>
      isSymbol_ne_pad (hall 61 hmem) rfl
    exact ⟨⟨fun c hc => .inr (hall c hc), fun c hc => .inl (List.eq_of_mem_replicate hc)⟩, by omega⟩

/-- One padding byte: the other three are symbols. -/
theorem paddedQuantum_one (c0 c1 c2 : UInt8) (A B out rest : Bytes) (r0 r1 : UInt8) :
    paddedQuantum (A ++ ([c0, c1, c2, 61] ++ B)) 1 A.length out.length (out ++ r0 :: r1 :: rest) =
      if [c0, c1, c2].all isSymbol then
        .ok (out ++ decodeText [c0, c1, c2] ++ rest, out.length + 2)
      else .error .bad := by
  have hread : readPadded (A ++ ([c0, c1, c2, 61] ++ B)) 1 4 A.length 0 0 = _ :=
    readPadded_padded A [c0, c1, c2] B 1 0
  rw [paddedQuantum, hread]
  by_cases hall : [c0, c1, c2].all isSymbol = true
  · rw [if_pos hall, if_pos hall]
    simp only [List.all_cons, List.all_nil, Bool.and_true, Bool.and_eq_true] at hall
    have hc0 := isSymbol_ne_pad hall.1
    have hc1 := isSymbol_ne_pad hall.2.1
    have hc2 := isSymbol_ne_pad hall.2.2
    have hput1 := putAt_mid (out ++ [r0]) rest r1
      (UInt8.ofNat ((paddedValue 0 [c0, c1, c2, 61] >>> 8) &&& 0xff))
    have hput0 := putAt_mid out
      (UInt8.ofNat ((paddedValue 0 [c0, c1, c2, 61] >>> 8) &&& 0xff) :: rest) r0
      (UInt8.ofNat ((paddedValue 0 [c0, c1, c2, 61] >>> 16) &&& 0xff))
    simp only [List.append_assoc, List.length_append, List.length_cons, List.length_nil,
      List.cons_append, List.nil_append, Nat.zero_add] at hput1
    have hvalue : paddedValue 0 [c0, c1, c2, 61] = value 0 [c0, c1, c2] * 64 := by
      simp [paddedValue, value, hc0, hc1, hc2]
    change (do
      let newstr ← putAt (out ++ r0 :: r1 :: rest) (out.length + 1)
        (UInt8.ofNat ((paddedValue 0 [c0, c1, c2, 61] >>> 8) &&& 0xff))
      let newstr ← putAt newstr out.length
        (UInt8.ofNat ((paddedValue 0 [c0, c1, c2, 61] >>> 16) &&& 0xff))
      .ok (newstr, out.length + 3 - 1)) = _
    rw [hput1]
    change (do
      let newstr ← putAt (out ++ r0 ::
        UInt8.ofNat ((paddedValue 0 [c0, c1, c2, 61] >>> 8) &&& 0xff) :: rest) out.length
        (UInt8.ofNat ((paddedValue 0 [c0, c1, c2, 61] >>> 16) &&& 0xff))
      .ok (newstr, out.length + 3 - 1)) = _
    rw [hput0, hvalue]
    simp [decodeText, bytesOf, bind, Except.bind]
  · rw [if_neg hall, if_neg hall]
    rfl

/-- Two padding bytes: the other two are symbols. -/
theorem paddedQuantum_two (c0 c1 : UInt8) (A B out rest : Bytes) (r0 : UInt8) :
    paddedQuantum (A ++ ([c0, c1, 61, 61] ++ B)) 2 A.length out.length (out ++ r0 :: rest) =
      if [c0, c1].all isSymbol then .ok (out ++ decodeText [c0, c1] ++ rest, out.length + 1)
      else .error .bad := by
  have hread : readPadded (A ++ ([c0, c1, 61, 61] ++ B)) 2 4 A.length 0 0 = _ :=
    readPadded_padded A [c0, c1] B 2 0
  rw [paddedQuantum, hread]
  by_cases hall : [c0, c1].all isSymbol = true
  · rw [if_pos hall, if_pos hall]
    simp only [List.all_cons, List.all_nil, Bool.and_true, Bool.and_eq_true] at hall
    have hc0 := isSymbol_ne_pad hall.1
    have hc1 := isSymbol_ne_pad hall.2
    have hput0 := putAt_mid out rest r0
      (UInt8.ofNat ((paddedValue 0 [c0, c1, 61, 61] >>> 16) &&& 0xff))
    have hvalue : paddedValue 0 [c0, c1, 61, 61] = value 0 [c0, c1] * 4096 := by
      simp [paddedValue, value, hc0, hc1, Nat.mul_assoc]
    change (do
      let newstr ← putAt (out ++ r0 :: rest) out.length
        (UInt8.ofNat ((paddedValue 0 [c0, c1, 61, 61] >>> 16) &&& 0xff))
      .ok (newstr, out.length + 3 - 2)) = _
    rw [hput0, hvalue]
    simp [decodeText, bytesOf, bind, Except.bind]
  · rw [if_neg hall, if_neg hall]
    rfl

/-! ### The string -/

theorem decodeText_append (t : Bytes) (hpre : pre.length = 4 * n) :
    decodeText (pre ++ t) = decodeText pre ++ decodeText t := by
  induction n generalizing pre with
  | zero =>
    obtain rfl : pre = [] := List.length_eq_zero_iff.mp hpre
    rfl
  | succ n ih =>
    obtain ⟨c0, c1, c2, c3, rest, rfl, hrest⟩ := four_first hpre
    simp only [List.cons_append, decodeText, ih hrest, List.append_assoc]

/-- What `countPadding` reads of the last quantum. -/
theorem countPadding_last (pre : Bytes) (c0 c1 c2 c3 : UInt8) :
    countPadding (pre ++ ([c0, c1, c2, c3] ++ [0])) (pre.length + 4) 3 0 =
      if c3 = 61 then if c2 = 61 then if c1 = 61 then .error .bad else .ok 2 else .ok 1
      else .ok 0 := by
  have h3 := getAt_mid (pre ++ [c0, c1, c2]) [0] c3
  have h2 := getAt_mid (pre ++ [c0, c1]) [c3, 0] c2
  have h1 := getAt_mid (pre ++ [c0]) [c2, c3, 0] c1
  simp only [List.append_assoc, List.length_append, List.length_cons, List.length_nil,
    List.cons_append, List.nil_append, Nat.zero_add] at h3 h2 h1
  simp only [countPadding, List.cons_append, List.nil_append, Nat.zero_add,
    show pre.length + 4 - 1 - 0 = pre.length + 3 by omega,
    show pre.length + 4 - 1 - 1 = pre.length + 2 by omega,
    show pre.length + 4 - 1 - (1 + 1) = pre.length + 1 by omega, h3, h2, h1, bind, Except.bind]
  rfl

variable {last : Bytes}

/-- The decoding, with the padding counted. -/
theorem decodeString_counted (hlength : s.length = 4 * n + 4)
    (hcount : countPadding (s ++ [0]) (4 * n + 4) 3 0 = .ok padding) :
    decodeString s = (do
      let (newstr, src, pos) ← fullQuantums (s ++ [0]) (n + 1 - if padding ≠ 0 then 1 else 0) 0 0
        (List.replicate ((n + 1) * 3 - padding + 1) 0)
      let (newstr, pos) ←
        if padding ≠ 0 then paddedQuantum (s ++ [0]) padding src pos newstr else .ok (newstr, pos)
      let newstr ← putAt newstr pos 0
      .ok (newstr.take ((n + 1) * 3 - padding))) := by
  have hbad : ¬ (4 * n + 4 = 0 ∨ (4 * n + 4) % 4 ≠ 0) := by omega
  have hquantums : (4 * n + 4) / 4 = n + 1 := by omega
  rw [decodeString, hlength]
  change (if 4 * n + 4 = 0 ∨ (4 * n + 4) % 4 ≠ 0 then _ else _) = _
  rw [if_neg hbad, hcount, hquantums]
  rfl

theorem decodeText_length (hbody : body.length = 4 * n) : (decodeText body).length = 3 * n := by
  induction n generalizing body with
  | zero =>
    obtain rfl : body = [] := List.length_eq_zero_iff.mp hbody
    rfl
  | succ n ih =>
    obtain ⟨c0, c1, c2, c3, rest, rfl, hrest⟩ := four_first hbody
    rw [decodeText, List.length_append, ih hrest]
    change 3 + 3 * n = 3 * (n + 1)
    omega

/-- The zero behind the decoded bytes. -/
theorem terminate (hout : out.length = n) :
    (do let newstr ← putAt (out ++ [0]) n 0
        .ok (newstr.take n)) = (.ok out : Except Stop Bytes) := by
  subst hout
  rw [putAt_mid]
  change Except.ok _ = _
  rw [List.take_left]

theorem decodeString_none (hpre : pre.length = 4 * n) (hc3 : c3 ≠ 61) :
    decodeString (pre ++ [c0, c1, c2, c3]) =
      if (pre ++ [c0, c1, c2, c3]).all isSymbol then
        .ok (decodeText (pre ++ [c0, c1, c2, c3]))
      else .error .bad := by
  have hcount := countPadding_last pre c0 c1 c2 c3
  rw [if_neg hc3, ← List.append_assoc, hpre] at hcount
  have hbody : (pre ++ [c0, c1, c2, c3]).length = 4 * (n + 1) := by simp [hpre]; omega
  have hfull :=
    fullQuantums_eq [] [0] [] (List.replicate ((n + 1) * 3 + 1) 0) hbody (by simp; omega)
  rw [decodeString_counted (by simp [hpre]) hcount]
  generalize pre ++ [c0, c1, c2, c3] = body at hbody hfull
  have hroom : (List.replicate ((n + 1) * 3 + 1) (0 : UInt8)).drop (3 * (n + 1)) = [0] := by
    rw [List.drop_replicate, show (n + 1) * 3 + 1 - 3 * (n + 1) = 1 by omega]
    rfl
  rw [hroom] at hfull
  change fullQuantums (body ++ [0]) (n + 1) 0 0 (List.replicate ((n + 1) * 3 + 1) 0) =
    if body.all isSymbol then .ok (decodeText body ++ [0], 0 + 4 * (n + 1), 0 + 3 * (n + 1))
    else .error .bad at hfull
  change (do
    let (newstr, _, pos) ← fullQuantums (body ++ [0]) (n + 1) 0 0
      (List.replicate ((n + 1) * 3 + 1) 0)
    let newstr ← putAt newstr pos 0
    .ok (newstr.take ((n + 1) * 3))) = _
  rw [hfull]
  cases body.all isSymbol with
  | false => rfl
  | true =>
    rw [if_pos rfl, if_pos rfl, Nat.zero_add, Nat.zero_add, Nat.mul_comm (n + 1) 3]
    exact terminate (decodeText_length hbody)

/-- With padding, given what comes of the last quantum and its used symbols. -/
theorem decodeString_padded {used : Bytes} (hpre : pre.length = 4 * n) (hlength : last.length = 4)
    (hpadding : padding = 1 ∨ padding = 2)
    (hcount : countPadding (pre ++ last ++ [0]) (4 * n + 4) 3 0 = .ok padding)
    (hlast : paddedQuantum (pre ++ (last ++ [0])) padding (4 * n) (3 * n)
        (decodeText pre ++ List.replicate (4 - padding) 0) =
      if used.all isSymbol then .ok (decodeText pre ++ decodeText used ++ [0],
        3 * n + (3 - padding))
      else .error .bad)
    (hused : (decodeText used).length = 3 - padding) :
    decodeString (pre ++ last) =
      if (pre ++ used).all isSymbol then .ok (decodeText (pre ++ used)) else .error .bad := by
  have hfull := fullQuantums_eq [] (last ++ [0]) []
    (List.replicate ((n + 1) * 3 - padding + 1) 0) hpre (by simp; omega)
  have hroom : (List.replicate ((n + 1) * 3 - padding + 1) (0 : UInt8)).drop (3 * n) =
      List.replicate (4 - padding) 0 := by
    rw [List.drop_replicate, show (n + 1) * 3 - padding + 1 - 3 * n = 4 - padding by omega]
  have hnonzero : padding ≠ 0 := by omega
  rw [hroom] at hfull
  rw [decodeString_counted (by simp [hpre, hlength]) hcount, List.append_assoc, if_pos hnonzero]
  change fullQuantums (pre ++ (last ++ [0])) n 0 0
      (List.replicate ((n + 1) * 3 - padding + 1) 0) =
    if pre.all isSymbol then
      .ok (decodeText pre ++ List.replicate (4 - padding) 0, 0 + 4 * n, 0 + 3 * n)
    else .error .bad at hfull
  rw [Nat.add_sub_cancel, hfull, List.all_append]
  cases pre.all isSymbol with
  | false => rfl
  | true =>
    rw [if_pos rfl, Nat.zero_add, Nat.zero_add, Bool.true_and]
    change (do
      let (newstr, pos) ←
        if padding ≠ 0 then
          paddedQuantum (pre ++ (last ++ [0])) padding (4 * n) (3 * n)
            (decodeText pre ++ List.replicate (4 - padding) 0)
        else .ok (decodeText pre ++ List.replicate (4 - padding) 0, 3 * n)
      let newstr ← putAt newstr pos 0
      .ok (newstr.take ((n + 1) * 3 - padding))) = _
    rw [if_pos hnonzero, hlast]
    cases used.all isSymbol with
    | false => rfl
    | true =>
      rw [if_pos rfl, if_pos rfl, decodeText_append _ hpre,
        show (n + 1) * 3 - padding = 3 * n + (3 - padding) by omega]
      apply terminate
      rw [List.length_append, decodeText_length hpre, hused]

theorem decodeString_one (hpre : pre.length = 4 * n) (hc2 : c2 ≠ 61) :
    decodeString (pre ++ [c0, c1, c2, 61]) =
      if (pre ++ [c0, c1, c2]).all isSymbol then .ok (decodeText (pre ++ [c0, c1, c2]))
      else .error .bad := by
  have hcount := countPadding_last pre c0 c1 c2 61
  have hlast := paddedQuantum_one c0 c1 c2 pre [0] (decodeText pre) [0] 0 0
  rw [if_pos rfl, if_neg hc2, ← List.append_assoc, hpre] at hcount
  rw [decodeText_length hpre, hpre] at hlast
  exact decodeString_padded hpre rfl (.inl rfl) hcount hlast rfl

theorem decodeString_two (hpre : pre.length = 4 * n) (hc1 : c1 ≠ 61) :
    decodeString (pre ++ [c0, c1, 61, 61]) =
      if (pre ++ [c0, c1]).all isSymbol then .ok (decodeText (pre ++ [c0, c1]))
      else .error .bad := by
  have hcount := countPadding_last pre c0 c1 61 61
  have hlast := paddedQuantum_two c0 c1 pre [0] (decodeText pre) [0] 0
  rw [if_pos rfl, if_pos rfl, if_neg hc1, ← List.append_assoc, hpre] at hcount
  rw [decodeText_length hpre, hpre] at hlast
  exact decodeString_padded hpre rfl (.inr rfl) hcount hlast rfl

/-- A text of complete quantums: symbols, then at most two padding bytes. -/
structure Accepted (s body : Bytes) (padding : Nat) : Prop where
  nonempty : s ≠ []
  quantums : s.length % 4 = 0
  atMostTwo : padding ≤ 2
  text : s = body ++ List.replicate padding 61
  alphabet : ∀ c ∈ body, c ∈ curlxBase64encdec

theorem all_isSymbol : body.all isSymbol = true ↔ ∀ c ∈ body, c ∈ curlxBase64encdec := by
  rw [List.all_eq_true]
  exact forall₂_congr fun c _ => isSymbol_iff c

/-- The last quantum of a string. -/
theorem last_quantum (hnonempty : s ≠ []) (hquantums : s.length % 4 = 0) :
    ∃ pre c0 c1 c2 c3, s = pre ++ [c0, c1, c2, c3] ∧ pre.length = 4 * (s.length / 4 - 1) := by
  have hpos : 0 < s.length := List.length_pos_iff.mpr hnonempty
  obtain ⟨c0, c1, c2, c3, rest, hdrop, hrest⟩ :=
    four_first (n := 0) (show (s.drop (4 * (s.length / 4 - 1))).length = 4 * (0 + 1) by simp; omega)
  obtain rfl : rest = [] := List.length_eq_zero_iff.mp hrest
  refine ⟨s.take (4 * (s.length / 4 - 1)), c0, c1, c2, c3, ?_, ?_⟩
  · rw [← hdrop, List.take_append_drop]
  · rw [List.length_take]
    omega

/-- Where the padding of a text begins. -/
theorem Accepted.split (h : Accepted (pre ++ [c0, c1, c2, c3]) body padding) :
    body = pre ++ [c0, c1, c2, c3] ∨ (body = pre ++ [c0, c1, c2] ∧ c3 = 61) ∨
      (body = pre ++ [c0, c1] ∧ c2 = 61 ∧ c3 = 61) := by
  obtain rfl | rfl | rfl : padding = 0 ∨ padding = 1 ∨ padding = 2 := by
    have := h.atMostTwo
    omega
  · left
    simpa using h.text.symm
  · right; left
    have htext : (pre ++ [c0, c1, c2]) ++ [c3] = body ++ [61] := by simpa using h.text
    obtain ⟨hbody, hc3⟩ := List.append_inj' htext rfl
    exact ⟨hbody.symm, List.singleton_inj.mp hc3⟩
  · right; right
    have htext : (pre ++ [c0, c1]) ++ [c2, c3] = body ++ [61, 61] := by simpa using h.text
    obtain ⟨hbody, hlast⟩ := List.append_inj' htext rfl
    simp only [List.cons.injEq, and_true] at hlast
    exact ⟨hbody.symm, hlast⟩

theorem Accepted.symbol (h : Accepted s body padding) {c : UInt8} (hc : c ∈ body) :
    isSymbol c = true ∧ c ≠ 61 := by
  have hsymbol := (isSymbol_iff c).mpr (h.alphabet c hc)
  exact ⟨hsymbol, isSymbol_ne_pad hsymbol⟩

/-- The string is a text and its symbols are decoded, or it is refused. -/
theorem decodeString_cases (s : Bytes) :
    (∃ body padding, Accepted s body padding ∧ decodeString s = .ok (decodeText body)) ∨
      (∀ body padding, ¬ Accepted s body padding) ∧ decodeString s = .error .bad := by
  by_cases hlength : s ≠ [] ∧ s.length % 4 = 0
  swap
  · right
    refine ⟨fun body padding h => hlength ⟨h.nonempty, h.quantums⟩, ?_⟩
    have hbad : s.length = 0 ∨ s.length % 4 ≠ 0 := by
      by_contra hcon
      apply hlength
      rw [ne_eq, ← List.length_eq_zero_iff]
      omega
    rw [decodeString]
    exact if_pos hbad
  obtain ⟨hnonempty, hquantums⟩ := hlength
  obtain ⟨pre, c0, c1, c2, c3, hs, hpre⟩ := last_quantum hnonempty hquantums
  generalize s.length / 4 - 1 = n at hpre
  subst hs
  by_cases hc3 : c3 = 61
  swap
  · -- no padding
    rw [decodeString_none hpre hc3]
    by_cases hall : (pre ++ [c0, c1, c2, c3]).all isSymbol = true
    · left
      rw [if_pos hall]
      exact ⟨_, 0, ⟨hnonempty, hquantums, by decide, by simp, all_isSymbol.mp hall⟩, rfl⟩
    · right
      rw [if_neg hall]
      refine ⟨fun body padding h => ?_, rfl⟩
      obtain rfl | ⟨-, hpad⟩ | ⟨-, -, hpad⟩ := h.split
      · exact hall (all_isSymbol.mpr h.alphabet)
      · exact hc3 hpad
      · exact hc3 hpad
  subst hc3
  by_cases hc2 : c2 = 61
  swap
  · -- one padding byte
    rw [decodeString_one hpre hc2]
    by_cases hall : (pre ++ [c0, c1, c2]).all isSymbol = true
    · left
      rw [if_pos hall]
      exact ⟨_, 1, ⟨hnonempty, hquantums, by decide, by simp, all_isSymbol.mp hall⟩, rfl⟩
    · right
      rw [if_neg hall]
      refine ⟨fun body padding h => ?_, rfl⟩
      obtain rfl | ⟨rfl, -⟩ | ⟨-, hpad, -⟩ := h.split
      · exact (h.symbol (c := 61) (by simp)).2 rfl
      · exact hall (all_isSymbol.mpr h.alphabet)
      · exact hc2 hpad
  subst hc2
  by_cases hc1 : c1 = 61
  swap
  · -- two padding bytes
    rw [decodeString_two hpre hc1]
    by_cases hall : (pre ++ [c0, c1]).all isSymbol = true
    · left
      rw [if_pos hall]
      exact ⟨_, 2, ⟨hnonempty, hquantums, by decide, by simp, all_isSymbol.mp hall⟩, rfl⟩
    · right
      rw [if_neg hall]
      refine ⟨fun body padding h => ?_, rfl⟩
      obtain rfl | ⟨rfl, -⟩ | ⟨rfl, -⟩ := h.split
      · exact (h.symbol (c := 61) (by simp)).2 rfl
      · exact (h.symbol (c := 61) (by simp)).2 rfl
      · exact hall (all_isSymbol.mpr h.alphabet)
  subst hc1
  right
  constructor
  · intro body padding h
    obtain rfl | ⟨rfl, -⟩ | ⟨rfl, -⟩ := h.split
    all_goals exact (h.symbol (c := 61) (by simp)).2 rfl
  · have hcount := countPadding_last pre c0 61 61 61
    rw [if_pos rfl, if_pos rfl, if_pos rfl, ← List.append_assoc] at hcount
    have hbad : ¬ ((pre ++ [c0, 61, 61, 61]).length = 0 ∨
      (pre ++ [c0, 61, 61, 61]).length % 4 ≠ 0) := by
      simp [hpre]
    have hlength : (pre ++ [c0, 61, 61, 61]).length = pre.length + 4 := by simp
    rw [decodeString]
    change (if (pre ++ [c0, 61, 61, 61]).length = 0 ∨ _ then _ else _) = _
    rw [if_neg hbad, hlength, hcount]
    rfl

/-- How many bytes the symbols of a text make. -/
theorem Accepted.length (h : Accepted s body padding) :
    (decodeText body).length = 3 * (s.length / 4) - padding := by
  obtain ⟨pre, c0, c1, c2, c3, hs, hpre⟩ := last_quantum h.nonempty h.quantums
  have hlength : s.length = body.length + padding := by simp [h.text]
  subst hs
  obtain rfl | ⟨rfl, -⟩ | ⟨rfl, -⟩ := h.split
  all_goals
    rw [decodeText_append _ hpre, List.length_append, decodeText_length hpre]
    simp only [List.length_append, List.length_cons, List.length_nil] at *
  · change 3 * _ + 3 = _
    omega
  · change 3 * _ + 2 = _
    omega
  · change 3 * _ + 1 = _
    omega

/-! ### The text of some bytes -/

variable {a b c : UInt8}

/-- The symbol of six bits. -/
def symbolOf (n : Nat) : UInt8 := curlxBase64encdec.getD n 0

theorem symbolOf_spec {n : Nat} (hn : n < 64) :
    getAt curlxBase64encdec n = .ok (symbolOf n) ∧ lookup (symbolOf n) = n ∧
      symbolOf n ∈ curlxBase64encdec := by
  obtain ⟨c, hc, hlookup, hsymbol, -⟩ := encdec_spec n hn
  have hof : symbolOf n = c := by rw [symbolOf, List.getD_eq_getElem?_getD, hc]; rfl
  refine ⟨?_, by rw [hof, hlookup], by rw [hof]; exact (isSymbol_iff c).mp hsymbol⟩
  rw [getAt, hc, hof]

/-- Three bytes as four numbers of six bits. -/
def sextets (a b c : UInt8) : List Nat :=
  [a.toNat / 4, a.toNat % 4 * 16 + b.toNat / 16, b.toNat % 16 * 4 + c.toNat / 64, c.toNat % 64]

theorem sextets_lt (a b c : UInt8) : ∀ i ∈ sextets a b c, i < 64 := by
  have ha := a.toNat_lt
  have hb := b.toNat_lt
  have hc := c.toNat_lt
  intro i hi
  simp only [sextets, List.mem_cons, List.not_mem_nil, or_false] at hi
  omega

/-- The symbols of the text; a byte that is missing counts as zero. -/
def symbols : Bytes → Bytes
  | a :: b :: c :: rest => (sextets a b c).map symbolOf ++ symbols rest
  | [a, b] => ((sextets a b 0).take 3).map symbolOf
  | [a] => ((sextets a 0 0).take 2).map symbolOf
  | [] => []

/-- How much padding there is behind the symbols. -/
def padsOf (x : Bytes) : Nat := (3 - x.length % 3) % 3

def encodeText (x : Bytes) : Bytes := symbols x ++ List.replicate (padsOf x) 61

theorem putSymbols_eq (is : List Nat) (out rest : Bytes) (hlt : ∀ i ∈ is, i < 64)
    (hroom : is.length ≤ rest.length) :
    putSymbols curlxBase64encdec is out.length (out ++ rest) =
      .ok (out ++ is.map symbolOf ++ rest.drop is.length, out.length + is.length) := by
  induction is generalizing out rest with
  | nil => simp [putSymbols]
  | cons i is ih =>
    cases rest with
    | nil => simp at hroom
    | cons r rest =>
      have hget := (symbolOf_spec (hlt i (List.mem_cons_self))).1
      have hnext := ih (out ++ [symbolOf i]) rest (fun i hi => hlt i (List.mem_cons_of_mem _ hi))
        (by simpa using hroom)
      rw [putSymbols, hget]
      change (do
        let data ← putAt (out ++ r :: rest) out.length (symbolOf i)
        putSymbols curlxBase64encdec is (out.length + 1) data) = _
      rw [putAt_mid]
      change putSymbols curlxBase64encdec is (out.length + 1) (out ++ symbolOf i :: rest) = _
      simpa [Nat.add_assoc, Nat.add_comm 1] using hnext

theorem putPadding_eq (out rest : Bytes) (hroom : n ≤ rest.length) :
    putPadding 61 n out.length (out ++ rest) =
      .ok (out ++ List.replicate n 61 ++ rest.drop n, out.length + n) := by
  induction n generalizing out rest with
  | zero => simp [putPadding]
  | succ n ih =>
    cases rest with
    | nil => simp at hroom
    | cons r rest =>
      have hnext := ih (out ++ [61]) rest (by simpa using hroom)
      rw [putPadding, putAt_mid]
      change putPadding 61 n (out.length + 1) (out ++ 61 :: rest) = _
      simpa [List.replicate_succ, Nat.add_assoc, Nat.add_comm 1] using hnext

/-- The bit operations of the encoder. -/
theorem byte_bits : ∀ n < 256, n >>> 2 = n / 4 ∧ (n &&& 0x03) <<< 4 = n % 4 * 16 ∧
    n >>> 4 = n / 16 ∧
    (n &&& 0xf0) >>> 4 = n / 16 ∧ (n &&& 0x0f) <<< 2 = n % 16 * 4 ∧ (n &&& 0xc0) >>> 6 = n / 64 ∧
    n &&& 0x3f = n % 64 := by
  intro n hn
  have h2 (m : Nat) : m &&& 0x03 = m % 4 := Nat.and_two_pow_sub_one_eq_mod m 2
  have h4 (m : Nat) : m &&& 0x0f = m % 16 := Nat.and_two_pow_sub_one_eq_mod m 4
  have hhigh : (n &&& 0xf0) >>> 4 = n / 16 := by
    rw [Nat.shiftRight_and_distrib, Nat.shiftRight_eq_div_pow]
    exact (h4 _).trans (Nat.mod_eq_of_lt (by omega))
  have htop : (n &&& 0xc0) >>> 6 = n / 64 := by
    rw [Nat.shiftRight_and_distrib, Nat.shiftRight_eq_div_pow]
    exact (h2 _).trans (Nat.mod_eq_of_lt (by omega))
  exact ⟨Nat.shiftRight_eq_div_pow n 2,
    by rw [h2, Nat.shiftLeft_eq], Nat.shiftRight_eq_div_pow n 4, hhigh,
    by rw [h4, Nat.shiftLeft_eq], htop, Nat.and_two_pow_sub_one_eq_mod n 6⟩

theorem join_bits (m : Nat) {k n : Nat} (hn : n < 2 ^ k) : m * 2 ^ k ||| n = m * 2 ^ k + n := by
  rw [← Nat.shiftLeft_eq, Nat.shiftLeft_add_eq_or_of_lt hn]

theorem sextets_bits (a b c : UInt8) :
    [a.toNat >>> 2, (a.toNat &&& 0x03) <<< 4 ||| b.toNat >>> 4,
      (b.toNat &&& 0x0f) <<< 2 ||| (c.toNat &&& 0xc0) >>> 6, c.toNat &&& 0x3f] = sextets a b c := by
  have ha := byte_bits a.toNat a.toNat_lt
  have hb := byte_bits b.toNat b.toNat_lt
  have hc := byte_bits c.toNat c.toNat_lt
  have hab : a.toNat % 4 * 16 ||| b.toNat / 16 = a.toNat % 4 * 16 + b.toNat / 16 := by
    apply join_bits (k := 4)
    have := b.toNat_lt
    omega
  have hbc : b.toNat % 16 * 4 ||| c.toNat / 64 = b.toNat % 16 * 4 + c.toNat / 64 := by
    apply join_bits (k := 2)
    have := c.toNat_lt
    omega
  rw [ha.1, ha.2.1, hb.2.2.1, hb.2.2.2.2.1, hc.2.2.2.2.2.1, hc.2.2.2.2.2.2, hab, hbc, sextets]

theorem encodeText_three (a b c : UInt8) (x : Bytes) :
    encodeText (a :: b :: c :: x) = (sextets a b c).map symbolOf ++ encodeText x := by
  have hpads : padsOf (a :: b :: c :: x) = padsOf x := by
    simp only [padsOf, List.length_cons]
    omega
  rw [encodeText, hpads, symbols, List.append_assoc, encodeText]

theorem getAt_three (A x : Bytes) (a b c : UInt8) :
    getAt (A ++ a :: b :: c :: x) A.length = .ok a ∧
      getAt (A ++ a :: b :: c :: x) (A.length + 1) = .ok b ∧
      getAt (A ++ a :: b :: c :: x) (A.length + 2) = .ok c := by
  refine ⟨getAt_mid A _ a, ?_, ?_⟩
  · simpa using getAt_mid (A ++ [a]) (c :: x) b
  · simpa using getAt_mid (A ++ [a, b]) x c

theorem encodeLoop_eq (A x out rest : Bytes) (hroom : (encodeText x).length ≤ rest.length) :
    encodeLoop curlxBase64encdec 61 (A ++ x) x.length A.length out.length (out ++ rest) =
      .ok (out ++ encodeText x ++ rest.drop (encodeText x).length,
        out.length + (encodeText x).length) := by
  induction x using symbols.induct generalizing A out rest with
  | case1 a b c x ih =>
    obtain ⟨hget0, hget1, hget2⟩ := getAt_three A x a b c
    rw [encodeText_three, List.length_append] at hroom
    have hput := putSymbols_eq (sextets a b c) out rest (sextets_lt a b c)
      (by simp [sextets] at hroom ⊢; omega)
    have hnext := ih (A ++ [a, b, c]) (out ++ (sextets a b c).map symbolOf)
      (rest.drop (sextets a b c).length) (by simp [sextets] at hroom ⊢; omega)
    change encodeLoop _ _ _ (x.length + 3) _ _ _ = _
    rw [encodeLoop, hget0, hget1, hget2]
    change (do
      let (data, output) ← putSymbols curlxBase64encdec
        [a.toNat >>> 2, (a.toNat &&& 0x03) <<< 4 ||| b.toNat >>> 4,
          (b.toNat &&& 0x0f) <<< 2 ||| (c.toNat &&& 0xc0) >>> 6, c.toNat &&& 0x3f]
        out.length (out ++ rest)
      encodeLoop curlxBase64encdec 61 (A ++ a :: b :: c :: x) x.length (A.length + 3) output data) =
        _
    rw [sextets_bits, hput]
    change encodeLoop curlxBase64encdec 61 (A ++ a :: b :: c :: x) x.length (A.length + 3) _ _ = _
    simpa [encodeText_three, sextets, Nat.add_assoc, Nat.add_comm 4] using hnext
  | case2 a b =>
    have hget0 : getAt (A ++ [a, b]) A.length = .ok a := getAt_mid A [b] a
    have hget1 : getAt (A ++ [a, b]) (A.length + 1) = .ok b := by
      simpa using getAt_mid (A ++ [a]) [] b
    have hput := putSymbols_eq ((sextets a b 0).take 3) out rest
      (fun i hi => sextets_lt a b 0 i (List.mem_of_mem_take hi)) (by
        simp [encodeText, symbols, padsOf, sextets] at hroom ⊢; omega)
    have hpads :=
      putPadding_eq (n := 1) (out ++ ((sextets a b 0).take 3).map symbolOf) (rest.drop 3)
      (by simp [encodeText, symbols, padsOf, sextets] at hroom ⊢; omega)
    have hbits := congrArg (List.take 3) (sextets_bits a b 0)
    have hb := byte_bits b.toNat b.toNat_lt
    change [a.toNat >>> 2, (a.toNat &&& 0x03) <<< 4 ||| b.toNat >>> 4,
      (b.toNat &&& 0x0f) <<< 2 ||| 0] = _ at hbits
    rw [Nat.or_zero, hb.2.2.1, ← hb.2.2.2.1] at hbits
    change encodeLoop _ _ _ 2 _ _ _ = _
    rw [encodeLoop, hget0, hget1]
    change (do
      let (data, output) ← putSymbols curlxBase64encdec
        [a.toNat >>> 2, (a.toNat &&& 0x03) <<< 4 ||| (b.toNat &&& 0xf0) >>> 4,
          (b.toNat &&& 0x0f) <<< 2] out.length (out ++ rest)
      putPadding 61 1 output data) = _
    rw [hbits, hput]
    change putPadding 61 _ _ _ = _
    simpa [encodeText, symbols, padsOf, sextets, Nat.add_assoc] using hpads
  | case3 a =>
    have hget0 : getAt (A ++ [a]) A.length = .ok a := getAt_mid A [] a
    have hput := putSymbols_eq ((sextets a 0 0).take 2) out rest
      (fun i hi => sextets_lt a 0 0 i (List.mem_of_mem_take hi)) (by
        simp [encodeText, symbols, padsOf, sextets] at hroom ⊢; omega)
    have hpads :=
      putPadding_eq (n := 2) (out ++ ((sextets a 0 0).take 2).map symbolOf) (rest.drop 2)
      (by simp [encodeText, symbols, padsOf, sextets] at hroom ⊢; omega)
    have hbits := congrArg (List.take 2) (sextets_bits a 0 0)
    change [a.toNat >>> 2, (a.toNat &&& 0x03) <<< 4 ||| 0] = _ at hbits
    rw [Nat.or_zero] at hbits
    change encodeLoop _ _ _ 1 _ _ _ = _
    rw [encodeLoop, hget0]
    change (do
      let (data, output) ← putSymbols curlxBase64encdec [a.toNat >>> 2, (a.toNat &&& 0x03) <<< 4]
        out.length (out ++ rest)
      putPadding 61 2 output data) = _
    rw [hbits, hput]
    change putPadding 61 _ _ _ = _
    simpa [encodeText, symbols, padsOf, sextets, Nat.add_assoc] using hpads
  | case4 => simp [encodeLoop, encodeText, symbols, padsOf]

theorem bytesOf_three (a b c : UInt8) :
    bytesOf (a.toNat * 65536 + b.toNat * 256 + c.toNat) = [a, b, c] := by
  have ha := a.toNat_lt
  have hb := b.toNat_lt
  have hc := c.toNat_lt
  have hmask (n : Nat) : n &&& 0xff = n % 256 := Nat.and_two_pow_sub_one_eq_mod n 8
  rw [bytesOf, hmask, hmask, hmask, Nat.shiftRight_eq_div_pow, Nat.shiftRight_eq_div_pow,
    show (a.toNat * 65536 + b.toNat * 256 + c.toNat) / 2 ^ 16 % 256 = a.toNat by omega,
    show (a.toNat * 65536 + b.toNat * 256 + c.toNat) / 2 ^ 8 % 256 = b.toNat by omega,
    show (a.toNat * 65536 + b.toNat * 256 + c.toNat) % 256 = c.toNat by omega,
    UInt8.ofNat_toNat, UInt8.ofNat_toNat, UInt8.ofNat_toNat]

/-- The numbers of six bits make the number of the three bytes. -/
theorem value_symbols (is : List Nat) (hlt : ∀ i ∈ is, i < 64) (v : Nat) :
    value v (is.map symbolOf) = is.foldl (fun x i => x * 64 + i) v := by
  induction is generalizing v with
  | nil => rfl
  | cons i is ih =>
    have hi := (symbolOf_spec (hlt i List.mem_cons_self)).2.1
    have hnext := ih (fun i hi => hlt i (List.mem_cons_of_mem _ hi)) (v * 64 + i)
    rw [List.map_cons, value, List.foldl_cons, hi]
    exact hnext

/-- Decoding the symbols gives the bytes back. -/
theorem decodeText_symbols (x : Bytes) : decodeText (symbols x) = x := by
  induction x using symbols.induct with
  | case1 a b c x ih =>
    have hvalue := value_symbols _ (sextets_lt a b c) 0
    have hbytes := bytesOf_three a b c
    have hnumber : (sextets a b c).foldl (fun x i => x * 64 + i) 0 =
        a.toNat * 65536 + b.toNat * 256 + c.toNat := by
      simp only [sextets, List.foldl_cons, List.foldl_nil]
      omega
    rw [hnumber] at hvalue
    rw [symbols]
    change bytesOf (value 0 ((sextets a b c).map symbolOf)) ++ decodeText (symbols x) = _
    rw [hvalue, hbytes, ih]
    rfl
  | case2 a b =>
    have hvalue := value_symbols ((sextets a b 0).take 3)
      (fun i hi => sextets_lt a b 0 i (List.mem_of_mem_take hi)) 0
    have hnumber : ((sextets a b 0).take 3).foldl (fun x i => x * 64 + i) 0 * 64 =
        a.toNat * 65536 + b.toNat * 256 + (0 : UInt8).toNat := by
      change (((0 * 64 + a.toNat / 4) * 64 + (a.toNat % 4 * 16 + b.toNat / 16)) * 64 +
        (b.toNat % 16 * 4 + 0)) * 64 = _ + 0
      omega
    rw [symbols]
    change (bytesOf (value 0 (((sextets a b 0).take 3).map symbolOf) * 64)).take 2 = _
    rw [hvalue, hnumber, bytesOf_three]
    rfl
  | case3 a =>
    have hvalue := value_symbols ((sextets a 0 0).take 2)
      (fun i hi => sextets_lt a 0 0 i (List.mem_of_mem_take hi)) 0
    have hnumber : ((sextets a 0 0).take 2).foldl (fun x i => x * 64 + i) 0 * 4096 =
        a.toNat * 65536 + (0 : UInt8).toNat * 256 + (0 : UInt8).toNat := by
      change ((0 * 64 + a.toNat / 4) * 64 + (a.toNat % 4 * 16 + 0)) * 4096 = _ + 0 * 256 + 0
      omega
    rw [symbols]
    change (bytesOf (value 0 (((sextets a 0 0).take 2).map symbolOf) * 4096)).take 1 = _
    rw [hvalue, hnumber, bytesOf_three]
    rfl
  | case4 => rfl

theorem symbols_length (x : Bytes) :
    (symbols x).length + padsOf x = (x.length + 2) / 3 * 4 := by
  induction x using symbols.induct with
  | case1 a b c x ih =>
    rw [symbols, List.length_append]
    change 4 + (symbols x).length + (3 - (x.length + 3) % 3) % 3 = (x.length + 3 + 2) / 3 * 4
    rw [padsOf] at ih
    omega
  | case2 a b => simp [symbols, sextets, padsOf]
  | case3 a => simp [symbols, sextets, padsOf]
  | case4 => rfl

theorem symbols_alphabet (x : Bytes) : ∀ c ∈ symbols x, c ∈ curlxBase64encdec := by
  have hmap : ∀ (is : List Nat), (∀ i ∈ is, i < 64) → ∀ c ∈ is.map symbolOf,
      c ∈ curlxBase64encdec := by
    intro is his c hc
    obtain ⟨i, hi, rfl⟩ := List.mem_map.mp hc
    exact (symbolOf_spec (his i hi)).2.2
  induction x using symbols.induct with
  | case1 a b c x ih =>
    intro d hd
    rw [symbols, List.mem_append] at hd
    cases hd with
    | inl hd => exact hmap _ (sextets_lt a b c) d hd
    | inr hd => exact ih d hd
  | case2 a b =>
    exact hmap _ fun i hi => sextets_lt a b 0 i (List.mem_of_mem_take hi)
  | case3 a =>
    exact hmap _ fun i hi => sextets_lt a 0 0 i (List.mem_of_mem_take hi)
  | case4 => exact List.forall_mem_nil _

/-- The encoder writes texts only. -/
theorem encodeText_accepted {x : Bytes} (hx : x ≠ []) :
    Accepted (encodeText x) (symbols x) (padsOf x) := by
  have hpos : 0 < x.length := List.length_pos_iff.mpr hx
  have hlength : (encodeText x).length = (x.length + 2) / 3 * 4 := by
    rw [encodeText, List.length_append, List.length_replicate, symbols_length]
  refine ⟨?_, ?_, ?_, rfl, symbols_alphabet x⟩
  · rw [← List.length_pos_iff, hlength]
    omega
  · omega
  · rw [padsOf]
    omega

theorem curlxBase64Encode_eq {x : Bytes} (hx : x ≠ []) (hmax : x.length ≤ curlMaxBase64Input) :
    curlxBase64Encode x = some (.ok, some (encodeText x)) := by
  have hpos : ¬ x.length = 0 := mt List.length_eq_zero_iff.mp hx
  have hlength : (encodeText x).length = (x.length + 2) / 3 * 4 := by
    rw [encodeText, List.length_append, List.length_replicate, symbols_length]
  have hloop := encodeLoop_eq [] x [] (List.replicate ((x.length + 2) / 3 * 4 + 1) 0)
    (by simp [hlength])
  have hroom : (List.replicate ((x.length + 2) / 3 * 4 + 1) (0 : UInt8)).drop
    (encodeText x).length =
      [0] := by
    rw [List.drop_replicate, hlength, Nat.add_sub_cancel_left]
    rfl
  rw [hroom, List.nil_append, List.nil_append, List.nil_append, List.length_nil, Nat.zero_add]
    at hloop
  rw [curlxBase64Encode, base64Encode, if_neg hpos, if_neg (Nat.not_lt.mpr hmax)]
  dsimp only
  rw [hloop]
  change (match (do
      let data ← putAt (encodeText x ++ [0]) (encodeText x).length 0
      .ok (data.take (encodeText x).length) : Except Stop Bytes) with
    | .ok text => some (Curlcode.ok, some text)
    | .error _ => none) = _
  rw [terminate rfl]

theorem curlxBase64Decode_cases (s : Bytes) :
    (∃ body padding, Accepted s body padding ∧
        curlxBase64Decode s = some (.ok, decodeText body)) ∨
      (∀ body padding, ¬ Accepted s body padding) ∧
        curlxBase64Decode s = some (.badContentEncoding, []) := by
  rw [curlxBase64Decode]
  obtain ⟨body, padding, haccepted, hdecode⟩ | ⟨hrefused, hdecode⟩ := decodeString_cases s
  · left
    exact ⟨body, padding, haccepted, by rw [hdecode]⟩
  · right
    exact ⟨hrefused, by rw [hdecode]⟩

/-- The parts of a text are what they are. -/
theorem Accepted.body_eq {body' : Bytes} {padding' : Nat} (h : Accepted s body padding)
    (h' : Accepted s body' padding') : body' = body := by
  have hfilter : ∀ {body padding}, Accepted s body padding → s.filter (· != 61) = body := by
    intro body padding h
    rw [h.text, List.filter_append, List.filter_eq_self.mpr, List.filter_eq_nil_iff.mpr,
      List.append_nil]
    · simp [List.mem_replicate]
    · intro c hc
      exact bne_iff_ne.mpr (h.symbol hc).2
  exact (hfilter h').symm.trans (hfilter h)

/-- What is encoded is decoded again. -/
theorem decode_encodeText {x : Bytes} (hx : x ≠ []) :
    curlxBase64Decode (encodeText x) = some (.ok, x) := by
  have htext := encodeText_accepted hx
  obtain ⟨body, padding, haccepted, hdecode⟩ | ⟨hrefused, -⟩ :=
    curlxBase64Decode_cases (encodeText x)
  · rw [hdecode, htext.body_eq haccepted, decodeText_symbols]
  · exact absurd htext (hrefused _ _)

/-- The encoder and the decoder: what is encoded comes back, exactly the texts are accepted, with
the length that follows from the padding, and no index is outside of a buffer. -/
theorem base64_roundTrips :
    (∀ x, x ≠ [] → x.length ≤ curlMaxBase64Input →
      ∃ text, curlxBase64Encode x = some (.ok, some text) ∧
        curlxBase64Decode text = some (.ok, x)) ∧
      (∀ s, (∃ out, curlxBase64Decode s = some (.ok, out)) ↔ ∃ body padding,
        Accepted s body padding) ∧
      (∀ s body padding out, Accepted s body padding → curlxBase64Decode s = some (.ok, out) →
        out.length = 3 * (s.length / 4) - padding) ∧
      (∀ s, curlxBase64Decode s ≠ none) ∧ ∀ x, curlxBase64Encode x ≠ none := by
  refine ⟨fun x hx hmax => ?_, fun s => ⟨?_, ?_⟩, ?_, fun s => ?_, fun x => ?_⟩
  · exact ⟨encodeText x, curlxBase64Encode_eq hx hmax, decode_encodeText hx⟩
  · rintro ⟨out, hout⟩
    obtain ⟨body, padding, haccepted, -⟩ | ⟨-, hdecode⟩ := curlxBase64Decode_cases s
    · exact ⟨body, padding, haccepted⟩
    · rw [hdecode] at hout
      simp at hout
  · rintro ⟨body, padding, haccepted⟩
    obtain ⟨body', -, -, hdecode⟩ | ⟨hrefused, -⟩ := curlxBase64Decode_cases s
    · exact ⟨decodeText body', hdecode⟩
    · exact absurd haccepted (hrefused _ _)
  · intro s body padding out haccepted hout
    obtain ⟨body', padding', haccepted', hdecode⟩ | ⟨hrefused, -⟩ := curlxBase64Decode_cases s
    · rw [hdecode, Option.some.injEq, Prod.mk.injEq] at hout
      rw [← hout.2, haccepted.body_eq haccepted', haccepted.length]
    · exact absurd haccepted (hrefused _ _)
  · obtain ⟨_, _, -, hdecode⟩ | ⟨-, hdecode⟩ := curlxBase64Decode_cases s
    all_goals
      rw [hdecode]
      exact Option.some_ne_none _
  · by_cases hx : x = []
    · subst hx
      decide
    by_cases hmax : x.length ≤ curlMaxBase64Input
    · rw [curlxBase64Encode_eq hx hmax]
      exact Option.some_ne_none _
    · have hpos : ¬ x.length = 0 := mt List.length_eq_zero_iff.mp hx
      rw [curlxBase64Encode, base64Encode, if_neg hpos, if_pos (Nat.lt_of_not_le hmax)]
      exact Option.some_ne_none _

end Gurl.Base64

