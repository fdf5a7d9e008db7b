import Gurl.Inet.Conforms

/-! `lib/curlx/inet_ntop.c`: addresses from bytes to text. What is printed is a text form of the
address, whichever run of zeros is left out. -/

namespace Gurl.Inet

open Http (isXDigit hexDigit hexFrom Hex hexDigit_spec)
open Strparse (hexval)

/-- `inet_ntop4`. -/
def inetNtop4 (src : Bytes) (size : Nat) : Option Bytes :=
  -- `snprintf` into 16 bytes
  let tmp := (dottedQuad (src.getD 0 0) (src.getD 1 0) (src.getD 2 0) (src.getD 3 0)).take 15
  if tmp.length = 0 ∨ tmp.length ≥ size then none else some tmp

/-- A run of zero words. -/
structure ZeroRun where
  base : Nat
  len : Nat

/-- The words of the address. -/
def wordsOf (src : Bytes) : List Nat :=
  (List.range 8).map fun i => (src.getD (2 * i) 0).toNat <<< 8 ||| (src.getD (2 * i + 1) 0).toNat

/-- `cur` is better than `best`. -/
def better (best : Option ZeroRun) (cur : ZeroRun) : Bool := best.all fun b => cur.len > b.len

/-- The search for the longest run: `best`, `cur` and the position. -/
def searchLoop (best cur : Option ZeroRun) (i : Nat) : List Nat → Option ZeroRun
  | [] =>
    match cur with
    | some c => if better best c then some c else best
    | none => best
  | w :: ws =>
    if w = 0 then
      match cur with
      | none => searchLoop best (some ⟨i, 1⟩) (i + 1) ws
      | some c => searchLoop best (some { c with len := c.len + 1 }) (i + 1) ws
    else
      match cur with
      | none => searchLoop best none (i + 1) ws
      | some c => searchLoop (if better best c then some c else best) none (i + 1) ws

/-- The run that `::` stands for. -/
def bestRun (words : List Nat) : Option ZeroRun :=
  match searchLoop none none 0 words with
  | some b => if b.len < 2 then none else some b
  | none => none

/-- Lower-case digits of a word, without zeros in front. -/
def hexWord (w : Nat) : Bytes :=
  (if w &&& 0xf000 ≠ 0 then [hexDigit ((w &&& 0xf000) >>> 12)] else []) ++
  (if w &&& 0xff00 ≠ 0 then [hexDigit ((w &&& 0x0f00) >>> 8)] else []) ++
  (if w &&& 0xfff0 ≠ 0 then [hexDigit ((w &&& 0x00f0) >>> 4)] else []) ++
  [hexDigit (w &&& 0x000f)]

/-- The address holds an IPv4 address. -/
def embedded (words : List Nat) (best : Option ZeroRun) : Bool :=
  best.any fun b => b.base == 0 && (b.len == 6 || (b.len == 5 && words.getD 5 0 == 0xffff))

def insideRun (best : Option ZeroRun) (i : Nat) : Bool :=
  best.any fun b => b.base ≤ i && i < b.base + b.len

/-- The loop that writes to `tmp`; `tp` is what was written. -/
def formatLoop (src : Bytes) (best : Option ZeroRun) (i : Nat) :
    List Nat → Bytes → Option Bytes
  | [], tp => some tp
  | w :: ws, tp =>
    if insideRun best i then
      formatLoop src best (i + 1) ws (if best.any (·.base == i) then tp ++ [58] else tp)
    else
      let tp := if i ≠ 0 then tp ++ [58] else tp
      if i = 6 ∧ embedded (wordsOf src) best then
        (inetNtop4 (src.drop 12) (46 - tp.length)).map (tp ++ ·)
      else formatLoop src best (i + 1) ws (tp ++ hexWord w)

/-- `inet_ntop6`. -/
def inetNtop6 (src : Bytes) (size : Nat) : Option Bytes :=
  let words := wordsOf src
  let best := bestRun words
  match formatLoop src best 0 words [] with
  | none => none
  | some tmp =>
    let tmp := if best.any (fun b => b.base + b.len == 8) then tmp ++ [58] else tmp
    if tmp.length ≥ size then none else some tmp

/-- `curlx_inet_ntop`. -/
def inetNtop (af : Family) (src : Bytes) (size : Nat) : Option Bytes :=
  match af with
  | .inet => inetNtop4 src size
  | .inet6 => inetNtop6 src size
  | .other => none

/-! ### Words -/

variable {w : Nat} {ws words : List Nat} {src tp t bs : Bytes} {best : Option ZeroRun}

theorem and_shiftLeft (w m k : Nat) : w &&& (m <<< k) = ((w >>> k) &&& m) <<< k := by
  apply Nat.eq_of_testBit_eq
  intro i
  rw [Nat.testBit_and, Nat.testBit_shiftLeft, Nat.testBit_shiftLeft, Nat.testBit_and,
    Nat.testBit_shiftRight]
  by_cases hk : k ≤ i
  · rw [Nat.add_sub_cancel' hk]
    simp [hk]
  · simp [hk]

theorem and_mask (w k m : Nat) (n : Nat) (hm : m = (2 ^ n - 1) <<< k) :
    w &&& m = (w / 2 ^ k % 2 ^ n) * 2 ^ k := by
  rw [hm, and_shiftLeft, Nat.and_two_pow_sub_one_eq_mod, Nat.shiftLeft_eq,
    Nat.shiftRight_eq_div_pow]

theorem hexWord_eq (hw : w < 65536) :
    hexWord w =
      (if w / 4096 ≠ 0 then [hexDigit (w / 4096)] else []) ++
      (if w / 256 ≠ 0 then [hexDigit (w / 256 % 16)] else []) ++
      (if w / 16 ≠ 0 then [hexDigit (w / 16 % 16)] else []) ++ [hexDigit (w % 16)] := by
  have h1 : w &&& 0xf000 = w / 4096 * 4096 := by
    rw [and_mask w 12 0xf000 4 rfl]
    omega
  have h2 : w &&& 0xff00 = w / 256 * 256 := by
    rw [and_mask w 8 0xff00 8 rfl]
    omega
  have h3 : w &&& 0xfff0 = w / 16 * 16 := by
    rw [and_mask w 4 0xfff0 12 rfl]
    omega
  have h4 : w &&& 0x0f00 = w / 256 % 16 * 256 := and_mask w 8 0x0f00 4 rfl
  have h5 : w &&& 0x00f0 = w / 16 % 16 * 16 := and_mask w 4 0x00f0 4 rfl
  have h6 : w &&& 0x000f = w % 16 := Nat.and_two_pow_sub_one_eq_mod w 4
  simp only [hexWord, h1, h2, h3, h4, h5, h6, Nat.shiftRight_eq_div_pow]
  simp

/-- The digits of a word are a group. -/
theorem hexWord_hex (hw : w < 65536) : Hex w 4 (hexWord w) := by
  have h0 := hexDigit_spec (w % 16) (Nat.mod_lt _ (by decide))
  have h1 := hexDigit_spec (w / 16 % 16) (Nat.mod_lt _ (by decide))
  have h2 := hexDigit_spec (w / 256 % 16) (Nat.mod_lt _ (by decide))
  have h3 := hexDigit_spec (w / 4096) (by omega)
  rw [hexWord_eq hw]
  constructor
  · intro c hc
    simp only [List.mem_append, List.mem_ite_nil_right, List.mem_singleton] at hc
    rcases hc with ((⟨-, rfl⟩ | ⟨-, rfl⟩) | ⟨-, rfl⟩) | rfl
    · exact h3.2
    · exact h2.2
    · exact h1.2
    · exact h0.2
  · simp
  · split_ifs <;> simp
  · by_cases a3 : w / 4096 = 0
    · by_cases a2 : w / 256 = 0
      · by_cases a1 : w / 16 = 0
        · simp [a1, a2, a3, hexFrom, h0.1]
          omega
        · simp [a1, a2, a3, hexFrom, h0.1, h1.1]
          omega
      · have a1 : ¬w / 16 = 0 := by omega
        simp [a1, a2, a3, hexFrom, h0.1, h1.1, h2.1]
        omega
    · have a2 : ¬w / 256 = 0 := by omega
      have a1 : ¬w / 16 = 0 := by omega
      simp [a1, a2, a3, hexFrom, h0.1, h1.1, h2.1, h3.1]
      omega

/-! ### The run of zeros -/

/-- All words of the run are there and are zero. -/
def Zeros (words : List Nat) (r : ZeroRun) : Prop :=
  ∃ A B, words = A ++ List.replicate r.len 0 ++ B ∧ A.length = r.base

theorem searchLoop_zeros {pre : List Nat} {cur : Option ZeroRun}
    (hbest : ∀ b ∈ best, Zeros (pre ++ ws) b)
    (hcur : ∀ c ∈ cur, ∃ A, pre = A ++ List.replicate c.len 0 ∧ A.length = c.base) :
    ∀ b ∈ searchLoop best cur pre.length ws, Zeros (pre ++ ws) b := by
  -- a run that has ended is a run of zeros, and so is the better one of two
  have hend : ∀ {pre ws : List Nat} {best : Option ZeroRun} {c : ZeroRun},
      (∀ b ∈ best, Zeros (pre ++ ws) b) →
      (∃ A, pre = A ++ List.replicate c.len 0 ∧ A.length = c.base) →
      ∀ b ∈ (if better best c then some c else best), Zeros (pre ++ ws) b := by
    rintro pre ws best c hbest ⟨A, hpre, hA⟩ b hb
    split at hb
    · cases hb
      exact ⟨A, ws, by rw [hpre], hA⟩
    · exact hbest b hb
  induction ws generalizing pre best cur with
  | nil =>
    cases cur with
    | none => exact hbest
    | some c => exact hend hbest (hcur c rfl)
  | cons w ws ih =>
    have hnext : pre ++ w :: ws = (pre ++ [w]) ++ ws := by simp
    have hlength : pre.length + 1 = (pre ++ [w]).length := by simp
    cases cur with
    | none =>
      rw [searchLoop, hlength, hnext]
      rw [hnext] at hbest
      by_cases hw : w = 0
      · subst hw
        rw [if_pos rfl]
        apply ih hbest
        rintro c ⟨rfl⟩
        exact ⟨pre, rfl, rfl⟩
      · rw [if_neg hw]
        exact ih hbest nofun
    | some c =>
      obtain ⟨A, hpre, hA⟩ := hcur c rfl
      have hbest' := hend hbest ⟨A, hpre, hA⟩
      rw [searchLoop, hlength, hnext]
      rw [hnext] at hbest hbest'
      by_cases hw : w = 0
      · subst hw
        rw [if_pos rfl]
        apply ih hbest
        rintro c' ⟨rfl⟩
        exact ⟨A, by rw [hpre, List.replicate_succ', List.append_assoc], hA⟩
      · rw [if_neg hw]
        exact ih hbest' nofun

/-- The run that is left out: at least two zero words. -/
theorem bestRun_spec {b : ZeroRun} (h : bestRun words = some b) : Zeros words b ∧ 2 ≤ b.len := by
  have hzeros := @searchLoop_zeros words none [] none nofun nofun
  rw [bestRun] at h
  rw [List.length_nil, List.nil_append] at hzeros
  cases hsearch : searchLoop none none 0 words with
  | none =>
    rw [hsearch] at h
    cases h
  | some c =>
    rw [hsearch] at h hzeros
    simp only at h
    split at h
    · cases h
    · rename_i hlen
      cases h
      exact ⟨hzeros b rfl, by omega⟩

/-! ### The text -/

/-- Words with a colon in front of each. -/
def colonWords (ws : List Nat) : Bytes := ws.flatMap fun w => 58 :: hexWord w

/-- Words with colons between them. -/
def joinWords (ws : List Nat) : Bytes := (colonWords ws).tail

/-- The bytes of words. -/
def wordsBytes (ws : List Nat) : Bytes := ws.flatMap wordBytes

theorem joinWords_cons (w : Nat) (ws : List Nat) :
    joinWords (w :: ws) = hexWord w ++ colonWords ws := rfl

theorem colonWords_eq (h : ws ≠ []) : colonWords ws = 58 :: joinWords ws := by
  obtain ⟨w, ws, rfl⟩ := List.exists_cons_of_ne_nil h
  rfl

theorem groups_joinWords (hws : ∀ w ∈ ws, w < 65536) (hne : ws ≠ []) :
    Groups (joinWords ws) (wordsBytes ws) := by
  induction ws with
  | nil => exact absurd rfl hne
  | cons w ws ih =>
    have hw := hexWord_hex (hws w List.mem_cons_self)
    by_cases hnil : ws = []
    · subst hnil
      rw [joinWords_cons, wordsBytes, List.flatMap_singleton]
      change Groups (hexWord w ++ []) (wordBytes w)
      rw [List.append_nil]
      exact .last hw
    · rw [joinWords_cons, colonWords_eq hnil]
      exact .cons hw (ih (fun w hw => hws w (List.mem_cons_of_mem _ hw)) hnil)

/-- Before and behind the run, and where there is none, word after word is written. -/
theorem formatLoop_words (i : Nat) (ws' : List Nat)
    (houtside : ∀ j, i ≤ j → j < i + ws.length → insideRun best j = false)
    (hplain : embedded (wordsOf src) best = false ∨ i + ws.length ≤ 6) (tp : Bytes) :
    formatLoop src best i (ws ++ ws') tp =
      formatLoop src best (i + ws.length) ws'
        (tp ++ if i = 0 then joinWords ws else colonWords ws) := by
  induction ws generalizing i tp with
  | nil =>
    have hnil : (if i = 0 then joinWords [] else colonWords []) = [] := by split <;> rfl
    rw [hnil, List.append_nil]
    rfl
  | cons w ws ih =>
    rw [List.length_cons] at houtside hplain ⊢
    have hplain' : ¬(i = 6 ∧ embedded (wordsOf src) best = true) := by
      rintro ⟨hi, hembedded⟩
      rcases hplain with hplain | hplain
      · rw [hplain] at hembedded
        cases hembedded
      · omega
    have hhere : insideRun best i = false := houtside i (Nat.le_refl i) (by omega)
    rw [List.cons_append, formatLoop, hhere, if_neg Bool.false_ne_true]
    simp only [if_neg hplain']
    rw [ih (i + 1) (fun j h1 h2 => houtside j (by omega) (by omega)) (hplain.imp_right (by omega)),
      if_neg (Nat.succ_ne_zero i), show i + 1 + ws.length = i + (ws.length + 1) by omega]
    congr 1
    by_cases hi : i = 0
    · simp only [hi, ne_eq, not_true_eq_false, if_false, if_true, joinWords_cons, List.append_assoc]
    · simp only [hi, ne_eq, not_false_eq_true, if_true, if_false, List.append_assoc]
      rfl

/-- Of the run, one colon is written. -/
theorem formatLoop_run {b : ZeroRun} (hb : best = some b) (k : Nat) (ws' tp : List _)
    (i : Nat) (hi : b.base ≤ i) (hlast : i + k ≤ b.base + b.len) :
    formatLoop src best i (List.replicate k 0 ++ ws') tp =
      formatLoop src best (i + k) ws' (if i = b.base ∧ 0 < k then tp ++ [58] else tp) := by
  induction k generalizing i tp with
  | zero => rw [if_neg (by omega)]; rfl
  | succ k ih =>
    have hinside : insideRun best i = true := by
      rw [hb]
      simp only [insideRun, Option.any_some, Bool.and_eq_true, decide_eq_true_eq]
      omega
    rw [List.replicate_succ, List.cons_append, formatLoop, hinside, if_pos rfl,
      ih _ _ (by omega) (by omega), if_neg (by omega), show i + 1 + k = i + (k + 1) by omega, hb]
    have hcomm : (b.base = i) = (i = b.base) := propext eq_comm
    simp only [Option.any_some, beq_iff_eq, hcomm, Nat.succ_pos, and_true]

theorem getD_take {n i : Nat} (h : i < n) (l : Bytes) : (l.take n).getD i 0 = l.getD i 0 := by
  rw [List.getD_eq_getElem?_getD, List.getD_eq_getElem?_getD, List.getElem?_take_of_lt h]

theorem take_eq_map {n : Nat} {l : Bytes} (h : n ≤ l.length) :
    l.take n = (List.range n).map fun i => l.getD i 0 := by
  apply List.ext_getElem
  · rw [List.length_take_of_le h, List.length_map, List.length_range]
  · intro i h1 h2
    rw [List.getElem_take, List.getElem_map, List.getElem_range, List.getD_eq_getElem _ _ (by
      rw [List.length_take_of_le h] at h1
      omega)]

theorem wordBytes_word (a b : UInt8) : wordBytes (a.toNat <<< 8 ||| b.toNat) = [a, b] := by
  have hb := b.toNat_lt
  have hsum : a.toNat <<< 8 ||| b.toNat = a.toNat * 256 + b.toNat := by
    rw [← Nat.shiftLeft_add_eq_or_of_lt hb, Nat.shiftLeft_eq]
  have hhigh : (a.toNat * 256 + b.toNat) / 256 = a.toNat := by omega
  have hlow : (a.toNat * 256 + b.toNat) % 256 = b.toNat := by omega
  rw [hsum, wordBytes, hhigh, hlow, UInt8.ofNat_toNat, UInt8.ofNat_toNat]

theorem wordsOf_bytes (h : 16 ≤ src.length) : wordsBytes (wordsOf src) = src.take 16 := by
  rw [take_eq_map h, wordsBytes, wordsOf, List.flatMap_map]
  simp only [wordBytes_word]
  rfl

theorem wordsOf_lt (src : Bytes) : ∀ w ∈ wordsOf src, w < 65536 := by
  intro w hw
  obtain ⟨i, -, rfl⟩ := List.mem_map.mp hw
  have ha := (src.getD (2 * i) 0).toNat_lt
  have hb := (src.getD (2 * i + 1) 0).toNat_lt
  rw [← Nat.shiftLeft_add_eq_or_of_lt hb, Nat.shiftLeft_eq]
  omega

theorem wordsBytes_length (ws : List Nat) : (wordsBytes ws).length = 2 * ws.length := by
  induction ws with
  | nil => rfl
  | cons w ws ih =>
    rw [wordsBytes, List.flatMap_cons, List.length_append, wordBytes_length, List.length_cons]
    rw [wordsBytes] at ih
    omega

theorem wordsBytes_append (A B : List Nat) : wordsBytes (A ++ B) = wordsBytes A ++ wordsBytes B :=
  List.flatMap_append

theorem wordsBytes_zeros (k : Nat) :
    wordsBytes (List.replicate k 0) = List.replicate (2 * k) 0 := by
  induction k with
  | zero => rfl
  | succ k ih =>
    rw [List.replicate_succ, wordsBytes, List.flatMap_cons, ← wordsBytes, ih, Nat.mul_succ,
      Nat.add_comm, List.replicate_add]
    rfl

theorem colonWords_length (h : ∀ w ∈ ws, w < 65536) : (colonWords ws).length ≤ 5 * ws.length := by
  induction ws with
  | nil => exact Nat.le_refl 0
  | cons w ws ih =>
    have hw := (hexWord_hex (h w List.mem_cons_self)).length
    have hrest := ih fun w hw => h w (List.mem_cons_of_mem _ hw)
    rw [colonWords] at hrest
    rw [colonWords, List.flatMap_cons, List.length_append, List.length_cons, List.length_cons]
    omega

theorem joinWords_length (h : ∀ w ∈ ws, w < 65536) : (joinWords ws).length ≤ 5 * ws.length := by
  rw [joinWords, List.length_tail]
  exact (Nat.sub_le _ _).trans (colonWords_length h)

/-! ### Dotted quads -/

theorem dottedQuad_length (a b c d : UInt8) : (dottedQuad a b c d).length ≤ 15 := by
  have hbound : ∀ x : UInt8, (Mprintf.fmtUint x.toNat).length ≤ 3 := fun x =>
    Mprintf.fmtUint_length (by decide) (Nat.lt_of_lt_of_le x.toNat_lt (by decide))
  have ha := hbound a
  have hb := hbound b
  have hc := hbound c
  have hd := hbound d
  simp only [dottedQuad, List.length_append, List.length_cons]
  omega

theorem dottedQuad_pos (a b c d : UInt8) : 0 < (dottedQuad a b c d).length := by
  simp only [dottedQuad, List.length_append, List.length_cons]
  omega

theorem inetNtop4_eq (src : Bytes) (size : Nat) :
    inetNtop4 src size =
      if (dottedQuad (src.getD 0 0) (src.getD 1 0) (src.getD 2 0) (src.getD 3 0)).length < size then
        some (dottedQuad (src.getD 0 0) (src.getD 1 0) (src.getD 2 0) (src.getD 3 0))
      else none := by
  have hlength := dottedQuad_length (src.getD 0 0) (src.getD 1 0) (src.getD 2 0) (src.getD 3 0)
  have hpos := dottedQuad_pos (src.getD 0 0) (src.getD 1 0) (src.getD 2 0) (src.getD 3 0)
  simp only [inetNtop4, List.take_of_length_le hlength]
  by_cases hsize :
      (dottedQuad (src.getD 0 0) (src.getD 1 0) (src.getD 2 0) (src.getD 3 0)).length < size
  · rw [if_pos hsize, if_neg (by omega)]
  · rw [if_neg hsize, if_pos (by omega)]

/-! ### What is printed -/

/-- What the loop writes, and the colon behind a run at the end. -/
def textOf (src : Bytes) : Option Bytes :=
  (formatLoop src (bestRun (wordsOf src)) 0 (wordsOf src) []).map fun tmp =>
    if (bestRun (wordsOf src)).any (fun b => b.base + b.len == 8) then tmp ++ [58] else tmp

theorem inetNtop6_eq {text : Bytes} (h : textOf src = some text) (size : Nat) :
    inetNtop6 src size = if text.length < size then some text else none := by
  obtain ⟨tmp, hloop, rfl⟩ := Option.map_eq_some_iff.mp h
  simp only [inetNtop6, hloop]
  by_cases hsize : (if (bestRun (wordsOf src)).any (fun b => b.base + b.len == 8) = true then
      tmp ++ [58] else tmp).length < size
  · rw [if_pos hsize, if_neg (by omega)]
  · rw [if_neg hsize, if_pos (by omega)]

theorem wordsOf_length (src : Bytes) : (wordsOf src).length = 8 := rfl

theorem textOf_words (h : bestRun (wordsOf src) = none) :
    textOf src = some (joinWords (wordsOf src)) := by
  have hloop := @formatLoop_words (wordsOf src) src none 0 [] (fun _ _ _ => rfl) (.inl rfl) []
  rw [List.append_nil, if_pos rfl, List.nil_append] at hloop
  rw [textOf, h, hloop]
  rfl

section

variable {A B : List Nat} {b : ZeroRun}

/-- The loop up to the end of the run. -/
theorem formatLoop_front (hwords : wordsOf src = A ++ List.replicate b.len 0 ++ B)
    (hA : A.length = b.base) (hlen : 2 ≤ b.len) :
    formatLoop src (some b) 0 (wordsOf src) [] =
      formatLoop src (some b) (b.base + b.len) B (joinWords A ++ [58]) := by
  have hsum := congrArg List.length hwords
  rw [wordsOf_length, List.length_append, List.length_append, List.length_replicate, hA] at hsum
  have houtside : ∀ j, 0 ≤ j → j < 0 + A.length → insideRun (some b) j = false := by
    intro j _ hj
    simp only [insideRun, Option.any_some, Bool.and_eq_false_iff, decide_eq_false_iff_not]
    omega
  have hfront := @formatLoop_words A src (some b) 0 (List.replicate b.len 0 ++ B) houtside
    (.inr (by omega)) []
  rw [if_pos rfl, List.nil_append, Nat.zero_add, hA] at hfront
  rw [hwords, List.append_assoc, hfront,
    formatLoop_run rfl _ _ _ _ (Nat.le_refl _) (Nat.le_refl _), if_pos ⟨rfl, by omega⟩]

theorem outside_behind (i : Nat) (h : b.base + b.len ≤ i) : insideRun (some b) i = false := by
  simp only [insideRun, Option.any_some, Bool.and_eq_false_iff, decide_eq_false_iff_not]
  omega

theorem textOf_run (hbest : bestRun (wordsOf src) = some b)
    (hwords : wordsOf src = A ++ List.replicate b.len 0 ++ B) (hA : A.length = b.base)
    (hlen : 2 ≤ b.len) (hplain : embedded (wordsOf src) (some b) = false) :
    textOf src = some (joinWords A ++ 58 :: 58 :: joinWords B) := by
  have hsum := congrArg List.length hwords
  rw [wordsOf_length, List.length_append, List.length_append, List.length_replicate, hA] at hsum
  have hback := @formatLoop_words B src (some b) (b.base + b.len) []
    (fun j hj _ => outside_behind j hj) (.inl hplain) (joinWords A ++ [58])
  rw [List.append_nil, if_neg (by omega)] at hback
  rw [textOf, hbest, formatLoop_front hwords hA hlen, hback, formatLoop, Option.map_some,
    Option.any_some]
  by_cases hB : B = []
  · subst hB
    rw [if_pos (by simp at hsum; simp [← hsum])]
    simp [colonWords, joinWords]
  · have hpos := List.length_pos_iff.mpr hB
    rw [if_neg (by simp; omega), colonWords_eq hB]
    simp

end

/-- The four bytes that are printed as an IPv4 address. -/
def tailQuad (src : Bytes) : Bytes :=
  dottedQuad (src.getD 12 0) (src.getD 13 0) (src.getD 14 0) (src.getD 15 0)

theorem getD_drop (l : Bytes) (n i : Nat) : (l.drop n).getD i 0 = l.getD (n + i) 0 := by
  rw [List.getD_eq_getElem?_getD, List.getD_eq_getElem?_getD, List.getElem?_drop]

theorem inetNtop4_tail (src : Bytes) (size : Nat) :
    inetNtop4 (src.drop 12) size =
      if (tailQuad src).length < size then some (tailQuad src) else none := by
  rw [inetNtop4_eq]
  simp only [getD_drop]
  rfl

theorem textOf_quad {b : ZeroRun} {C : List Nat} {x y : Nat}
    (hbest : bestRun (wordsOf src) = some b)
    (hwords : wordsOf src = List.replicate b.len 0 ++ (C ++ [x, y])) (hbase : b.base = 0)
    (hlen : 2 ≤ b.len) (hembedded : embedded (wordsOf src) (some b) = true)
    (hC : (∀ w ∈ C, w < 65536)) :
    textOf src = some (58 :: (colonWords C ++ 58 :: tailQuad src)) := by
  have hsum := congrArg List.length hwords
  rw [wordsOf_length, List.length_append, List.length_append, List.length_replicate] at hsum
  simp only [List.length_cons, List.length_nil] at hsum
  have hfront := @formatLoop_front src [] (C ++ [x, y]) b (by simpa using hwords) hbase.symm hlen
  have hmiddle := @formatLoop_words C src (some b) (b.base + b.len) [x, y]
    (fun j hj _ => outside_behind j hj) (.inr (by omega)) (joinWords [] ++ [58])
  have hsix : b.base + b.len + C.length = 6 := by omega
  rw [if_neg (by omega), hsix] at hmiddle
  have hcolons := colonWords_length hC
  have hquad := dottedQuad_length (src.getD 12 0) (src.getD 13 0) (src.getD 14 0) (src.getD 15 0)
  have houtside : insideRun (some b) 6 = false := outside_behind 6 (by omega)
  have hrest : formatLoop src (some b) 6 [x, y] (joinWords [] ++ [58] ++ colonWords C) =
      some (58 :: (colonWords C ++ 58 :: tailQuad src)) := by
    have hroom : (tailQuad src).length <
        46 - (joinWords [] ++ [58] ++ colonWords C ++ [58]).length := by
      have hnil : joinWords [] = [] := rfl
      rw [hnil, List.nil_append, List.length_append, List.length_append, tailQuad]
      simp only [List.length_cons, List.length_nil]
      omega
    rw [formatLoop, houtside, if_neg Bool.false_ne_true, if_pos ⟨rfl, hembedded⟩, inetNtop4_tail,
      if_pos (show 6 ≠ 0 by decide), if_pos hroom]
    simp [joinWords, colonWords]
  rw [textOf, hbest, hfront, hmiddle, hrest, Option.map_some, Option.any_some, if_neg]
  simp
  omega

/-- The last four bytes. -/
def tailBytes (src : Bytes) : Bytes :=
  [src.getD 12 0, src.getD 13 0, src.getD 14 0, src.getD 15 0]

theorem tailBytes_eq (h : 16 ≤ src.length) : tailBytes src = (src.take 16).drop 12 := by
  rw [take_eq_map h]
  rfl

/-- Words in front of the IPv4 address. -/
theorem pieces_quad {C : List Nat} (hC : ∀ w ∈ C, w < 65536) (src : Bytes) :
    ∃ u, colonWords C ++ 58 :: tailQuad src = 58 :: u ∧
      Pieces u (wordsBytes C ++ tailBytes src) := by
  induction C with
  | nil => exact ⟨tailQuad src, rfl, .quad _ _ _ _⟩
  | cons w C ih =>
    obtain ⟨u, htext, hpieces⟩ := ih fun w hw => hC w (List.mem_cons_of_mem _ hw)
    refine ⟨hexWord w ++ 58 :: u, ?_, ?_⟩
    · rw [← htext, colonWords, List.flatMap_cons, List.cons_append, List.cons_append,
        List.append_assoc]
      rfl
    · rw [wordsBytes, List.flatMap_cons, List.append_assoc]
      exact .cons (hexWord_hex (hC w List.mem_cons_self)) hpieces

theorem maybe_groups (h : ∀ w ∈ ws, w < 65536) : Maybe Groups (joinWords ws) (wordsBytes ws) := by
  by_cases hws : ws = []
  · subst hws
    exact .inl ⟨rfl, rfl⟩
  · exact .inr (groups_joinWords h hws)

theorem maybe_pieces (h : Maybe Groups t bs) : Maybe Pieces t bs := h.imp_right groups_pieces

theorem two_last {B : List Nat} (h : 2 ≤ B.length) : ∃ C x y, B = C ++ [x, y] := by
  rcases List.eq_nil_or_concat B with rfl | ⟨B, y, rfl⟩
  · exact absurd h (by decide)
  · rcases List.eq_nil_or_concat B with rfl | ⟨C, x, rfl⟩
    · exact absurd h (by simp)
    · exact ⟨C, x, y, by simp⟩

/-- What is printed is a text form of the address. -/
theorem textOf_form (h : 16 ≤ src.length) :
    ∃ text, textOf src = some text ∧ TextForm text (src.take 16) ∧ text.length < 46 := by
  have hbytes := wordsOf_bytes h
  have hlt := wordsOf_lt src
  cases hbest : bestRun (wordsOf src) with
  | none =>
    have hne : wordsOf src ≠ [] :=
      List.ne_nil_of_length_pos (Nat.lt_of_lt_of_eq (by decide) (wordsOf_length src).symm)
    have hgroups := groups_joinWords hlt hne
    have hlength := joinWords_length hlt
    rw [wordsOf_length] at hlength
    rw [hbytes] at hgroups
    exact ⟨_, textOf_words hbest, .full (groups_pieces hgroups) (List.length_take_of_le h),
      by omega⟩
  | some b =>
    obtain ⟨⟨A, B, hwords, hA⟩, hlen⟩ := bestRun_spec hbest
    have hsum := congrArg List.length hwords
    rw [wordsOf_length, List.length_append, List.length_append, List.length_replicate] at hsum
    rw [hwords, wordsBytes_append, wordsBytes_append, wordsBytes_zeros] at hbytes
    rw [hwords] at hlt
    have hltA : ∀ w ∈ A, w < 65536 := fun w hw => hlt w (by simp [hw])
    have hltB : ∀ w ∈ B, w < 65536 := fun w hw => hlt w (by simp [hw])
    cases hembedded : embedded (wordsOf src) (some b) with
    | false =>
      have hroom : (wordsBytes A).length + (wordsBytes B).length ≤ 14 := by
        rw [wordsBytes_length, wordsBytes_length]
        omega
      have hzeros : 16 - ((wordsBytes A).length + (wordsBytes B).length) = 2 * b.len := by
        rw [wordsBytes_length, wordsBytes_length]
        omega
      have hform := TextForm.short (maybe_groups hltA) (maybe_pieces (maybe_groups hltB)) hroom
      rw [hzeros, hbytes] at hform
      refine ⟨_, textOf_run hbest hwords hA hlen hembedded, hform, ?_⟩
      have hlengthA := joinWords_length hltA
      have hlengthB := joinWords_length hltB
      simp only [List.length_append, List.length_cons]
      omega
    | true =>
      -- `::` and at most one word stand before the IPv4 address
      have hshape : b.base = 0 ∧ (b.len = 6 ∨ b.len = 5) := by
        simp only [embedded, Option.any_some, Bool.and_eq_true, Bool.or_eq_true, beq_iff_eq]
          at hembedded
        exact ⟨hembedded.1, hembedded.2.imp_right And.left⟩
      obtain ⟨hbase, hfive⟩ := hshape
      obtain rfl : A = [] := List.length_eq_zero_iff.mp (hA.trans hbase)
      obtain ⟨C, x, y, rfl⟩ := two_last (show 2 ≤ B.length by rw [List.length_nil] at hsum; omega)
      rw [List.length_nil, List.length_append] at hsum
      simp only [List.length_cons, List.length_nil] at hsum
      have hltC : ∀ w ∈ C, w < 65536 := fun w hw => hltB w (by simp [hw])
      have htail : wordsBytes [x, y] = tailBytes src := by
        rw [tailBytes_eq h, ← hbytes, wordsBytes_append, ← List.append_assoc,
          List.drop_left']
        rw [List.length_append, List.length_append, wordsBytes_length, wordsBytes_length,
          List.length_replicate, List.length_nil]
        omega
      rw [wordsBytes_append, htail] at hbytes
      obtain ⟨u, htext, hpieces⟩ := pieces_quad hltC src
      have hlengthC : (wordsBytes C ++ tailBytes src).length = 2 * C.length + 4 := by
        rw [List.length_append, wordsBytes_length]
        rfl
      have hform := @TextForm.short [] u [] _ (.inl ⟨rfl, rfl⟩) (.inr hpieces)
        (by rw [hlengthC, List.length_nil]; omega)
      have hzeros : 16 - (([] : Bytes).length + (wordsBytes C ++ tailBytes src).length) =
          2 * b.len := by
        rw [hlengthC, List.length_nil]
        omega
      have hnil : wordsBytes [] = [] := rfl
      rw [hnil] at hbytes
      rw [hzeros, hbytes, List.nil_append, ← htext] at hform
      refine ⟨_, textOf_quad hbest (by simpa using hwords) hbase hlen hembedded hltC, hform, ?_⟩
      have hcolons := colonWords_length hltC
      have hquad :=
        dottedQuad_length (src.getD 12 0) (src.getD 13 0) (src.getD 14 0) (src.getD 15 0)
      rw [List.length_cons, List.length_append, List.length_cons, tailQuad]
      omega

/-! ### There and back -/

theorem wordsOf_take (src : Bytes) : wordsOf (src.take 16) = wordsOf src := by
  rw [wordsOf, wordsOf]
  apply List.map_congr_left
  intro i hi
  have hlt := List.mem_range.mp hi
  rw [getD_take (by omega), getD_take (by omega)]

theorem formatLoop_take (best : Option ZeroRun) (i : Nat) (ws : List Nat) (tp : Bytes) :
    formatLoop (src.take 16) best i ws tp = formatLoop src best i ws tp := by
  have hquad : ∀ size, inetNtop4 ((src.take 16).drop 12) size = inetNtop4 (src.drop 12) size := by
    intro size
    rw [inetNtop4_eq, inetNtop4_eq]
    simp only [getD_drop]
    rw [getD_take (by decide), getD_take (by decide), getD_take (by decide), getD_take (by decide)]
  induction ws generalizing i tp with
  | nil => rfl
  | cons w ws ih =>
    rw [formatLoop, formatLoop]
    simp only [ih, wordsOf_take, hquad]

/-- Only the first sixteen bytes are printed. -/
theorem inetNtop6_take (src : Bytes) (size : Nat) :
    inetNtop6 (src.take 16) size = inetNtop6 src size := by
  rw [inetNtop6, inetNtop6, wordsOf_take]
  simp only [formatLoop_take]

theorem inetNtop4_take (src : Bytes) (size : Nat) :
    inetNtop4 (src.take 4) size = inetNtop4 src size := by
  rw [inetNtop4_eq, inetNtop4_eq, getD_take (by decide), getD_take (by decide),
    getD_take (by decide), getD_take (by decide)]

/-- For addresses of `n` bytes, the texts of which are shorter than `room`: printing and reading
again gives the address, and all spellings of an address are printed alike. -/
structure RoundTrips (af : Family) (n room : Nat) : Prop where
  print : ∀ a : Bytes, a.length = n → ∃ text, text.length < room ∧
    (∀ size, inetNtop af a size = if text.length < size then some text else none) ∧
    ∀ dst, inetPton af text dst = (1, a ++ dst.drop n)
  spelling : ∀ s dst out, inetPton af s dst = (1, out) →
    ∃ a text, a.length = n ∧ out = a ++ dst.drop n ∧ text.length < room ∧
      (∀ size, inetNtop af out size = if text.length < size then some text else none) ∧
      inetPton af text dst = (1, out)
  same : ∀ s dst out s' dst' out', inetPton af s dst = (1, out) → inetPton af s' dst' = (1, out') →
    out.take n = out'.take n → ∀ size, inetNtop af out size = inetNtop af out' size

/-- What is read has as many bytes as an address, and what is printed of an address is read. -/
theorem roundTrips_of {af : Family} {n room : Nat}
    (hread : ∀ s dst out, inetPton af s dst = (1, out) →
      ∃ a : Bytes, a.length = n ∧ out = a ++ dst.drop n)
    (hprint : ∀ a : Bytes, a.length = n → ∃ text, text.length < room ∧
      (∀ size, inetNtop af a size = if text.length < size then some text else none) ∧
      ∀ dst, inetPton af text dst = (1, a ++ dst.drop n))
    (htake : ∀ src size, inetNtop af (src.take n) size = inetNtop af src size) :
    RoundTrips af n room := by
  refine ⟨hprint, ?_, ?_⟩
  · intro s dst out hout
    obtain ⟨a, ha, rfl⟩ := hread s dst out hout
    obtain ⟨text, hroom, hntop, hpton⟩ := hprint a ha
    refine ⟨a, text, ha, rfl, hroom, fun size => ?_, hpton dst⟩
    rw [← htake, List.take_left' ha]
    exact hntop size
  · intro s dst out s' dst' out' _ _ heq size
    rw [← htake out, ← htake out', heq]

theorem roundTrips_inet : RoundTrips .inet 4 16 := by
  apply roundTrips_of
  · intro s dst out hout
    obtain ⟨a, b, c, d, -, hpton⟩ | ⟨-, hpton⟩ := inetPton4_spec s dst
    · rw [inetPton, hpton] at hout
      exact ⟨[a, b, c, d], rfl, (congrArg Prod.snd hout).symm⟩
    · rw [inetPton, hpton] at hout
      exact absurd (congrArg Prod.fst hout) (show (0 : Int) ≠ 1 by decide)
  · intro a ha
    obtain ⟨x, y, z, w, rfl⟩ : ∃ x y z w, a = [x, y, z, w] := by
      rcases a with _ | ⟨x, _ | ⟨y, _ | ⟨z, _ | ⟨w, _ | _⟩⟩⟩⟩ <;> simp at ha
      exact ⟨x, y, z, w, rfl⟩
    refine ⟨dottedQuad x y z w, Nat.lt_succ_of_le (dottedQuad_length x y z w), ?_, ?_⟩
    · intro size
      exact inetNtop4_eq _ size
    · intro dst
      have hloop := pton4Loop_iff.mpr ⟨x, y, z, w, rfl, rfl⟩
      rw [inetPton, inetPton4, hloop]
  · exact inetNtop4_take

theorem textForm_length (h : TextForm t bs) : bs.length = 16 := by
  cases h with
  | full _ hlength => exact hlength
  | short _ _ hlength =>
    rw [List.length_append, List.length_append, List.length_replicate]
    omega

theorem roundTrips_inet6 : RoundTrips .inet6 16 46 := by
  apply roundTrips_of
  · intro s dst out hout
    rw [inetPton, inetPton6] at hout
    cases hbytes : pton6Bytes s with
    | none =>
      rw [hbytes] at hout
      exact absurd (congrArg Prod.fst hout) (show (0 : Int) ≠ 1 by decide)
    | some a =>
      rw [hbytes] at hout
      refine ⟨a, ?_, (congrArg Prod.snd hout).symm⟩
      rcases form_of_accepted hbytes with hform | ⟨t, -, hform, -⟩
      · exact textForm_length hform
      · exact textForm_length hform
  · intro a ha
    obtain ⟨text, htext, hform, hroom⟩ := textOf_form (Nat.le_of_eq ha.symm)
    rw [List.take_of_length_le (Nat.le_of_eq ha)] at hform
    refine ⟨text, hroom, inetNtop6_eq htext, fun dst => ?_⟩
    rw [inetPton, inetPton6, accepts_form hform]
  · exact inetNtop6_take

/-- Addresses of both families survive printing and reading. -/
theorem inet_roundTrips : RoundTrips .inet 4 16 ∧ RoundTrips .inet6 16 46 :=
  ⟨roundTrips_inet, roundTrips_inet6⟩

end Gurl.Inet
