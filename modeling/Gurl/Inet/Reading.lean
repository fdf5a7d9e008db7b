import Gurl.Inet.Pton

/-! The text forms of an IPv6 address, and what `inet_pton6` accepts: these forms, and those that
end in a group with one more colon behind it. -/

namespace Gurl.Inet

open Strparse
open Http (isXDigit hexFrom Hex)

/-- The two bytes of a group. -/
def wordBytes (v : Nat) : Bytes := [UInt8.ofNat (v / 256), UInt8.ofNat (v % 256)]

/-! ### Text forms -/

/-- Groups with colons between them, and the bytes they stand for. -/
inductive Groups : Bytes → Bytes → Prop
  | last {g : Bytes} {v : Nat} : Hex v 4 g → Groups g (wordBytes v)
  | cons {g t bs : Bytes} {v : Nat} :
      Hex v 4 g → Groups t bs → Groups (g ++ 58 :: t) (wordBytes v ++ bs)

/-- Groups that may end in a dotted quad. -/
inductive Pieces : Bytes → Bytes → Prop
  | last {g : Bytes} {v : Nat} : Hex v 4 g → Pieces g (wordBytes v)
  | quad (a b c d : UInt8) : Pieces (dottedQuad a b c d) [a, b, c, d]
  | cons {g t bs : Bytes} {v : Nat} :
      Hex v 4 g → Pieces t bs → Pieces (g ++ 58 :: t) (wordBytes v ++ bs)

/-- Something of a kind, or nothing. -/
def Maybe (P : Bytes → Bytes → Prop) (t bs : Bytes) : Prop :=
  (t = [] ∧ bs = []) ∨ P t bs

/-- The text forms: all of the groups, or fewer with a `::` for the zeros that are left out. -/
inductive TextForm : Bytes → Bytes → Prop
  | full {t bs : Bytes} : Pieces t bs → bs.length = 16 → TextForm t bs
  | short {t u bs cs : Bytes} : Maybe Groups t bs → Maybe Pieces u cs →
      bs.length + cs.length ≤ 14 →
      TextForm (t ++ 58 :: 58 :: u) (bs ++ List.replicate (16 - (bs.length + cs.length)) 0 ++ cs)

/-! ### One group -/

variable {g t rest out bs tmp : Bytes} {v n : Nat} {colonp : Option Nat} {p : Pton6}

/-- What has been stored, and the zeros behind it. -/
def padded (out : Bytes) : Bytes := out ++ List.replicate (16 - out.length) 0

/-- `inet_pton6` in front of a group. -/
def boundary (out : Bytes) (colonp : Option Nat) (rest : Bytes) : Pton6 :=
  { tmp := padded out, tp := out.length, colonp, curtok := rest, sawXdigit := 0, val := 0 }

theorem shift_or_hexval (val : Nat) {c : UInt8} (hc : isXDigit c = true) :
    val <<< 4 ||| hexval c = val * 16 + hexval c := by
  have hall : ∀ n < 256, isXDigit (UInt8.ofNat n) = true → hexval (UInt8.ofNat n) < 2 ^ 4 := by
    decide +kernel
  have hlt := hall c.toNat c.toNat_lt
  rw [UInt8.ofNat_toNat] at hlt
  rw [← Nat.shiftLeft_add_eq_or_of_lt (hlt hc), Nat.shiftLeft_eq]

/-- Digits in front of something else. -/
theorem pton6Loop_digits (hg : ∀ c ∈ g, isXDigit c = true) (rest : Bytes) (p : Pton6) :
    pton6Loop p (g ++ rest) =
      if g = [] ∨ p.sawXdigit + g.length ≤ 4 then
        pton6Loop { p with val := hexFrom p.val g, sawXdigit := p.sawXdigit + g.length } rest
      else none := by
  induction g generalizing p with
  | nil => rw [if_pos (.inl rfl)]; rfl
  | cons c g ih =>
    have hc := hg c List.mem_cons_self
    rw [List.cons_append, pton6Loop, if_pos hc]
    simp only [shift_or_hexval p.val hc, List.length_cons, reduceCtorEq, false_or]
    by_cases hmany : p.sawXdigit + 1 > 4
    · rw [if_pos hmany, if_neg (by omega)]
    · have hassoc : p.sawXdigit + 1 + g.length = p.sawXdigit + (g.length + 1) := by omega
      have hfits : (g = [] ∨ p.sawXdigit + (g.length + 1) ≤ 4) ↔
          p.sawXdigit + (g.length + 1) ≤ 4 := by
        cases g with
        | nil => simp only [List.length_nil, true_or, true_iff]; omega
        | cons d g => simp only [reduceCtorEq, false_or]
      rw [if_neg hmany, ih fun c hc => hg c (List.mem_cons_of_mem _ hc)]
      simp only [hassoc, hfits]
      rfl

theorem set_padded (out : Bytes) (x : UInt8) {k : Nat} (hk : 0 < k) :
    (out ++ List.replicate k 0).set out.length x = (out ++ [x]) ++ List.replicate (k - 1) 0 := by
  obtain ⟨k, rfl⟩ := Nat.exists_eq_add_one_of_ne_zero (Nat.ne_of_gt hk)
  rw [List.set_append_right _ _ (Nat.le_refl _), Nat.sub_self, List.replicate_succ,
    List.set_cons_zero, List.append_assoc]
  rfl

theorem putWord_boundary {val : Nat} {curtok : Bytes} {saw : Nat} (hval : val < 2 ^ 16) :
    ({ boundary out colonp curtok with val, sawXdigit := saw } : Pton6).putWord =
      if out.length + 2 ≤ 16 then
        some { boundary (out ++ wordBytes val) colonp curtok with val, sawXdigit := saw }
      else none := by
  have hhigh : (val >>> 8) &&& 0xff = val / 256 := by
    rw [Nat.and_two_pow_sub_one_eq_mod _ 8, Nat.shiftRight_eq_div_pow, Nat.mod_eq_of_lt]
    omega
  have hlow : val &&& 0xff = val % 256 := Nat.and_two_pow_sub_one_eq_mod _ 8
  simp only [Pton6.putWord, boundary, hhigh, hlow]
  by_cases hroom : out.length + 2 ≤ 16
  · rw [if_neg (by omega), if_pos hroom]
    have hset := set_padded (out ++ [UInt8.ofNat (val / 256)]) (UInt8.ofNat (val % 256))
      (show 0 < 16 - out.length - 1 by omega)
    rw [List.length_append, List.length_singleton] at hset
    rw [padded, set_padded out _ (by omega), hset]
    simp only [padded, wordBytes, List.append_assoc, List.cons_append, List.nil_append,
      List.length_append, List.length_cons, List.length_nil, Nat.sub_sub, Nat.zero_add]
  · rw [if_pos (by omega), if_neg hroom]

theorem hexFrom_lt (n : Nat) (hg : ∀ c ∈ g, isXDigit c = true) :
    hexFrom n g < (n + 1) * 16 ^ g.length := by
  induction g generalizing n with
  | nil => simp [hexFrom]
  | cons c g ih =>
    have hall : ∀ n < 256, isXDigit (UInt8.ofNat n) = true → hexval (UInt8.ofNat n) < 16 := by
      decide +kernel
    have hlt := hall c.toNat c.toNat_lt
    rw [UInt8.ofNat_toNat] at hlt
    have hc := hlt (hg c List.mem_cons_self)
    calc hexFrom n (c :: g) = hexFrom (n * 16 + hexval c) g := rfl
      _ < (n * 16 + hexval c + 1) * 16 ^ g.length := ih _ fun c hc =>
        hg c (List.mem_cons_of_mem _ hc)
      _ ≤ ((n + 1) * 16) * 16 ^ g.length := Nat.mul_le_mul_right _ (by omega)
      _ = (n + 1) * 16 ^ (g.length + 1) := by rw [Nat.pow_succ, Nat.mul_assoc, Nat.mul_comm 16]

theorem hex_lt (h : Hex v 4 g) : v < 2 ^ 16 := by
  have hlt := hexFrom_lt 0 h.digits
  rw [h.value, Nat.zero_add, Nat.one_mul] at hlt
  exact Nat.lt_of_lt_of_le hlt (Nat.pow_le_pow_right (by decide) h.length)

theorem hex_of_digits (hg : ∀ c ∈ g, isXDigit c = true) (hne : g ≠ []) (hlength : g.length ≤ 4) :
    Hex (hexFrom 0 g) 4 g := ⟨hg, hne, hlength, rfl⟩

/-- The digits of a group. -/
theorem loop_hex (h : Hex v 4 g) (curtok rest : Bytes) :
    pton6Loop (boundary out colonp curtok) (g ++ rest) =
      pton6Loop { boundary out colonp curtok with val := v, sawXdigit := g.length } rest := by
  have hlength : (boundary out colonp curtok).sawXdigit + g.length ≤ 4 := by
    change 0 + g.length ≤ 4
    rw [Nat.zero_add]
    exact h.length
  have hvalue : hexFrom (boundary out colonp curtok).val g = v := h.value
  rw [pton6Loop_digits h.digits, if_pos (.inr hlength), hvalue]
  change pton6Loop { boundary out colonp curtok with val := v, sawXdigit := 0 + g.length } rest = _
  rw [Nat.zero_add]

theorem length_ne_zero (h : Hex v 4 g) : g.length ≠ 0 :=
  fun h0 => h.some (List.length_eq_zero_iff.mp h0)

theorem loop_group (h : Hex v 4 g) (curtok rest : Bytes) :
    pton6Loop (boundary out colonp curtok) (g ++ 58 :: rest) =
      if out.length + 2 ≤ 16 then pton6Loop (boundary (out ++ wordBytes v) colonp rest) rest
      else none := by
  rw [loop_hex h, pton6Loop, if_neg (by decide), if_pos (by decide)]
  simp only [length_ne_zero h, if_false]
  have hput := @putWord_boundary out colonp v rest g.length (hex_lt h)
  erw [hput]
  by_cases hroom : out.length + 2 ≤ 16
  · rw [if_pos hroom, if_pos hroom]
    rfl
  · rw [if_neg hroom, if_neg hroom]

theorem loop_last (h : Hex v 4 g) (curtok : Bytes) :
    (pton6Loop (boundary out colonp curtok) g).bind Pton6.flush =
      if out.length + 2 ≤ 16 then
        some { boundary (out ++ wordBytes v) colonp curtok with val := v, sawXdigit := g.length }
      else none := by
  have hloop := @loop_hex g out v colonp h curtok []
  rw [List.append_nil] at hloop
  rw [hloop, pton6Loop, Option.bind_some, Pton6.flush]
  simp only [length_ne_zero h, if_false]
  exact putWord_boundary (hex_lt h)

theorem loop_gap (curtok rest : Bytes) :
    pton6Loop (boundary out colonp curtok) (58 :: rest) =
      if colonp.isSome then none
      else pton6Loop (boundary out (some out.length) rest) rest := by
  rw [pton6Loop, if_neg (by decide), if_pos (by decide)]
  rfl

/-- What was stored, and where the `::` was. -/
structure Stored (p : Pton6) (out : Bytes) (colonp : Option Nat) : Prop where
  tmp : p.tmp = padded out
  tp : p.tp = out.length
  colonp : p.colonp = colonp

theorem padded_quad (a b c d : UInt8) :
    (padded out).take out.length ++ ([a, b, c, d] ++ ((padded out).drop out.length).drop 4) =
      padded (out ++ [a, b, c, d]) := by
  rw [padded, List.take_left, List.drop_left, List.drop_replicate, padded, List.length_append,
    List.append_assoc, Nat.sub_sub]
  rfl

/-- A dot is accepted when the text since the last colon is a dotted quad. -/
theorem loop_dot {q : Pton6} (hq : Stored q out colonp) (rest : Bytes) :
    pton6Loop q (46 :: rest) = some p ↔
      ∃ a b c d, q.curtok = dottedQuad a b c d ∧ out.length + 4 ≤ 16 ∧
        p = { q with
          tmp := padded (out ++ [a, b, c, d]), tp := out.length + 4, sawXdigit := 0 } := by
  rw [pton6Loop, if_neg (by decide), if_neg (by decide), hq.tmp, hq.tp, beq_self_eq_true,
    Bool.true_and]
  by_cases hroom : out.length + 4 ≤ 16
  · rw [if_pos (decide_eq_true hroom)]
    obtain ⟨a, b, c, d, hquad, hpton⟩ | ⟨hno, hpton⟩ :=
      inetPton4_spec q.curtok ((padded out).drop out.length)
    · rw [hpton]
      simp only [padded_quad a b c d]
      constructor
      · intro h
        exact ⟨a, b, c, d, hquad, hroom, (Option.some.inj h).symm⟩
      · rintro ⟨a', b', c', d', hquad', -, rfl⟩
        have hsame : [a, b, c, d] = [a', b', c', d'] := by
          have h1 := pton4Loop_iff.mpr ⟨a, b, c, d, hquad, rfl⟩
          have h2 := pton4Loop_iff.mpr ⟨a', b', c', d', hquad', rfl⟩
          exact Option.some.inj (h1.symm.trans h2)
        rw [hsame]
    · rw [hpton]
      constructor
      · exact nofun
      · rintro ⟨a, b, c, d, hquad, -⟩
        exact absurd hquad (hno a b c d)
  · rw [if_neg (by simp [hroom])]
    constructor
    · exact nofun
    · rintro ⟨a, b, c, d, -, habs, -⟩
      exact absurd habs hroom

/-! ### The whole text -/

/-- What `inet_pton6` reads group by group, the bytes, and where the `::` is among them. Nothing has
to stand behind the last colon. -/
inductive Parsed : Bytes → Bytes → Option Nat → Prop
  | nil : Parsed [] [] none
  | last {g : Bytes} {v : Nat} : Hex v 4 g → Parsed g (wordBytes v) none
  | quad (a b c d : UInt8) : Parsed (dottedQuad a b c d) [a, b, c, d] none
  | cons {g t bs : Bytes} {v : Nat} {k : Option Nat} :
      Hex v 4 g → Parsed t bs k → Parsed (g ++ 58 :: t) (wordBytes v ++ bs) (k.map (2 + ·))
  | gap {t bs : Bytes} : Parsed t bs none → Parsed (58 :: t) bs (some 0)

/-- `inet_pton6` up to the end of the text. -/
def run (out : Bytes) (colonp : Option Nat) (text : Bytes) : Option Pton6 :=
  (pton6Loop (boundary out colonp text) text).bind Pton6.flush

/-- The place of the `::`, if it is before `out` or among the bytes behind it. -/
def place (out : Bytes) (colonp k : Option Nat) : Option Nat :=
  k.elim colonp fun j => some (out.length + j)

/-- A text and the bytes that are read of it behind `out`. -/
structure Reads (out : Bytes) (colonp : Option Nat) (text : Bytes) (p : Pton6)
    (bs : Bytes) (k : Option Nat) : Prop where
  parsed : Parsed text bs k
  once : k = none ∨ colonp = none
  room : (out ++ bs).length ≤ 16
  stored : Stored p (out ++ bs) (place out colonp k)

theorem wordBytes_length (v : Nat) : (wordBytes v).length = 2 := rfl

theorem place_cons (out : Bytes) (colonp : Option Nat) (v : Nat) (k : Option Nat) :
    place out colonp (k.map (2 + ·)) = place (out ++ wordBytes v) colonp k := by
  cases k with
  | none => rfl
  | some j =>
    simp only [place, Option.map_some, Option.elim_some, List.length_append, wordBytes_length,
      Nat.add_assoc]

/-- A group in front. -/
theorem Reads.cons (h : Hex v 4 g) {k : Option Nat}
    (hreads : Reads (out ++ wordBytes v) colonp t p bs k) :
    Reads out colonp (g ++ 58 :: t) p (wordBytes v ++ bs) (k.map (2 + ·)) := by
  refine ⟨.cons h hreads.parsed, ?_, ?_, ?_⟩
  · exact hreads.once.imp_left fun hk => by rw [hk]; rfl
  · rw [← List.append_assoc]
    exact hreads.room
  · rw [← List.append_assoc, place_cons]
    exact hreads.stored

/-- A `::` in front. -/
theorem Reads.gap (hreads : Reads out (some out.length) t p bs none) :
    Reads out none (58 :: t) p bs (some 0) :=
  ⟨.gap hreads.parsed, .inr rfl, hreads.room, hreads.stored⟩

theorem not_xdigit_head (rest : Bytes) :
    ∀ c ∈ (rest.dropWhile isXDigit).head?, isXDigit c = false := by
  intro c hc
  have := List.head?_dropWhile_not isXDigit rest
  rw [Option.mem_def.mp hc] at this
  exact this

theorem dottedQuad_head (a b c d : UInt8) :
    ∃ x t, dottedQuad a b c d = x :: t ∧ isDigit x = true := by
  have hlt := a.toNat_lt
  obtain ⟨x, t, heq⟩ := List.exists_cons_of_ne_nil
    (Mprintf.fmtUint_ne_nil (show a.toNat < 10 ^ 20 by omega))
  refine ⟨x, _, by rw [dottedQuad, heq]; rfl, ?_⟩
  exact Mprintf.fmtUint_digits a.toNat x (by rw [heq]; exact List.mem_cons_self)

theorem boundary_stored (out : Bytes) (colonp : Option Nat) (curtok : Bytes)
    (val saw : Nat) : Stored { boundary out colonp curtok with val, sawXdigit := saw } out colonp :=
  ⟨rfl, rfl, rfl⟩

/-- A dot behind the digits `g`: the end of the text is a dotted quad. -/
theorem run_dot {val saw : Nat} (h : (pton6Loop { boundary out colonp t with
    val, sawXdigit := saw } (46 :: rest)).bind Pton6.flush = some p) :
    ∃ bs, Reads out colonp t p bs none := by
  obtain ⟨q, hq, hflush⟩ := Option.bind_eq_some_iff.mp h
  obtain ⟨a, b, c, d, hquad, hroom, rfl⟩ :=
    (loop_dot (boundary_stored out colonp t val saw) rest).mp hq
  obtain rfl := Option.some.inj hflush
  have hlength : (out ++ [a, b, c, d]).length = out.length + 4 := by rw [List.length_append]; rfl
  refine ⟨[a, b, c, d], ?_, .inl rfl, hlength ▸ hroom, rfl, hlength.symm, rfl⟩
  have ht : t = dottedQuad a b c d := hquad
  rw [ht]
  exact .quad a b c d

theorem run_nil : run out colonp [] = some (boundary out colonp []) := rfl

/-- What is accepted has been read group by group. -/
theorem reads_of_run (hroom : out.length ≤ 16) (h : run out colonp t = some p) :
    ∃ bs k, Reads out colonp t p bs k := by
  induction hlen : t.length using Nat.strongRecOn generalizing out colonp t with
  | ind n ih =>
    have hsplit := (List.takeWhile_append_dropWhile (p := isXDigit) (l := t)).symm
    have hdigits : ∀ c ∈ t.takeWhile isXDigit, isXDigit c = true :=
      fun c hc => List.mem_takeWhile_imp hc
    have hrest := not_xdigit_head t
    generalize t.takeWhile isXDigit = g at hsplit hdigits
    generalize t.dropWhile isXDigit = rest at hsplit hrest
    subst hsplit
    by_cases hg : g = []
    · -- no digits: the end of the text, or a `::`
      subst hg
      rw [List.nil_append] at h hlen ⊢
      cases rest with
      | nil =>
        rw [run_nil] at h
        obtain rfl := Option.some.inj h
        exact ⟨[], none, .nil, .inl rfl, by rw [List.append_nil]; exact hroom, by
          rw [List.append_nil]; exact ⟨rfl, rfl, rfl⟩⟩
      | cons c rest =>
        have hc := hrest c rfl
        by_cases hcolon : c = 58
        · subst hcolon
          rw [run, loop_gap] at h
          cases colonp with
          | some j => exact nomatch h
          | none =>
            obtain ⟨bs, k, hreads⟩ := ih rest.length (by rw [← hlen]; exact Nat.lt_succ_self _)
              hroom h rfl
            obtain rfl : k = none := hreads.once.resolve_right nofun
            exact ⟨bs, some 0, hreads.gap⟩
        · by_cases hdot : c = 46
          · subst hdot
            obtain ⟨bs, hreads⟩ := run_dot h
            exact ⟨bs, none, hreads⟩
          · rw [run, pton6Loop, if_neg (by rw [hc]; decide), if_neg (by simpa using hcolon),
              if_neg (by simp [hdot])] at h
            cases h
    · by_cases hlength : g.length ≤ 4
      · have hhex := hex_of_digits hdigits hg hlength
        cases rest with
        | nil =>
          rw [List.append_nil] at h ⊢
          rw [run, loop_last hhex] at h
          split at h
          · rename_i hfits
            obtain rfl := Option.some.inj h
            refine ⟨wordBytes (hexFrom 0 g), none, .last hhex, .inl rfl, ?_, rfl, rfl, rfl⟩
            rw [List.length_append, wordBytes_length]
            exact hfits
          · cases h
        | cons c rest =>
          have hc := hrest c rfl
          by_cases hcolon : c = 58
          · subst hcolon
            rw [run, loop_group hhex] at h
            split at h
            · rename_i hfits
              have hshort : rest.length < n := by
                rw [← hlen, List.length_append, List.length_cons]
                omega
              obtain ⟨bs, k, hreads⟩ := ih rest.length hshort
                (by rw [List.length_append, wordBytes_length]; exact hfits) h rfl
              exact ⟨_, _, hreads.cons hhex⟩
            · cases h
          · by_cases hdot : c = 46
            · subst hdot
              rw [run, loop_hex hhex] at h
              obtain ⟨bs, hreads⟩ := run_dot h
              exact ⟨bs, none, hreads⟩
            · rw [run, loop_hex hhex, pton6Loop, if_neg (by rw [hc]; decide),
                if_neg (by simpa using hcolon), if_neg (by simp [hdot])] at h
              cases h
      · rw [run, pton6Loop_digits hdigits, if_neg] at h
        · cases h
        · rw [not_or]
          exact ⟨hg, by change ¬0 + g.length ≤ 4; omega⟩

theorem dottedQuad_split (a b c d : UInt8) :
    ∃ ds rest, dottedQuad a b c d = ds ++ 46 :: rest ∧ ds.length ≤ 4 ∧
      ∀ c ∈ ds, isXDigit c = true := by
  have hlt := a.toNat_lt
  refine ⟨Mprintf.fmtUint a.toNat, _, rfl, ?_, fun c hc => ?_⟩
  · exact (Mprintf.fmtUint_length (show 1 ≤ 3 by decide) (by omega)).trans (by decide)
  · have hdigit := Mprintf.fmtUint_digits a.toNat c hc
    rw [isXDigit, hdigit]
    rfl

/-- What can be read group by group is accepted, if there is room for it. -/
theorem run_of_parsed {k : Option Nat} (h : Parsed t bs k) (out : Bytes)
    (colonp : Option Nat) (honce : k = none ∨ colonp = none) (hroom : (out ++ bs).length ≤ 16) :
    ∃ p, run out colonp t = some p ∧ Stored p (out ++ bs) (place out colonp k) := by
  induction h generalizing out colonp with
  | nil => exact ⟨boundary out colonp [], rfl, by rw [List.append_nil]; exact ⟨rfl, rfl, rfl⟩⟩
  | last hhex =>
    rw [List.length_append, wordBytes_length] at hroom
    exact ⟨_, by rw [run, loop_last hhex, if_pos hroom], rfl, rfl, rfl⟩
  | quad a b c d =>
    obtain ⟨ds, rest, hsplit, hlength, hdigits⟩ := dottedQuad_split a b c d
    have hloop : pton6Loop (boundary out colonp (dottedQuad a b c d)) (dottedQuad a b c d) =
        some { boundary (out ++ [a, b, c, d]) colonp (dottedQuad a b c d) with
          val := hexFrom 0 ds } := by
      have hfits : out.length + 4 ≤ 16 := by
        rw [List.length_append] at hroom
        exact hroom
      have hdot := (loop_dot (boundary_stored out colonp (dottedQuad a b c d) (hexFrom 0 ds)
        (0 + ds.length)) rest).mpr ⟨a, b, c, d, rfl, hfits, rfl⟩
      have hdigits :=
        pton6Loop_digits hdigits (46 :: rest) (boundary out colonp (dottedQuad a b c d))
      rw [if_pos (.inr (by change 0 + ds.length ≤ 4; omega)), ← hsplit] at hdigits
      have hlen : (out ++ [a, b, c, d]).length = out.length + 4 := by rw [List.length_append]; rfl
      refine hdigits.trans (hdot.trans ?_)
      simp only [boundary, hlen]
    exact ⟨_, by rw [run, hloop]; rfl, rfl, rfl, rfl⟩
  | @cons g t bs v k hhex _ ih =>
    rw [← List.append_assoc] at hroom ⊢
    have hfits : out.length + 2 ≤ 16 := by
      rw [List.length_append, List.length_append, wordBytes_length] at hroom
      omega
    obtain ⟨p, hrun, hstored⟩ := ih (out ++ wordBytes v) colonp
      (honce.imp_left fun h => Option.map_eq_none_iff.mp h) hroom
    refine ⟨p, ?_, ?_⟩
    · rw [run, loop_group hhex, if_pos hfits]
      exact hrun
    · rw [place_cons]
      exact hstored
  | gap _ ih =>
    obtain rfl : colonp = none := honce.resolve_left nofun
    obtain ⟨p, hrun, hstored⟩ := ih out (some out.length) (.inl rfl) hroom
    exact ⟨p, by rw [run, loop_gap]; exact hrun, hstored⟩

/-! `curlx_inet_pton` for IPv6: it accepts the text forms, and the ones that end in a group with a
colon too many behind it. -/

open Http (isXDigit Hex)

variable {s u w cs a dst : Bytes} {k : Nat}

/-! ### The shift by hand -/

theorem set_mid (A B : Bytes) (y x : UInt8) : (A ++ y :: B).set A.length x = A ++ x :: B := by
  rw [List.set_append_right _ _ (Nat.le_refl _), Nat.sub_self, List.set_cons_zero]

/-- One byte `x` of `A ++ [x]` goes behind the zeros. -/
theorem shift_step (A B : Bytes) (x : UInt8) (z : Nat) :
    (((A ++ [x]) ++ List.replicate (z + 1) 0 ++ B).set (A.length + (z + 1)) x).set A.length 0 =
      A ++ List.replicate (z + 1) 0 ++ x :: B := by
  have hsplit : (A ++ [x]) ++ List.replicate (z + 1) 0 ++ B =
      (A ++ x :: List.replicate z 0) ++ 0 :: B := by
    simp [List.replicate_succ', List.append_assoc]
  have hlength : A.length + (z + 1) = (A ++ x :: List.replicate z 0).length := by simp
  rw [hsplit, hlength, set_mid, List.append_assoc, List.cons_append, set_mid]
  simp [List.replicate_succ]

theorem shift_spec (hk : k + n = out.length) (hroom : out.length < 16) (i : Nat) (hi : i ≤ n) :
    shift k n (padded out) i =
      out.take (out.length - i) ++ List.replicate (16 - out.length) 0 ++
        out.drop (out.length - i) := by
  induction i with
  | zero => simp [shift, padded]
  | succ i ih =>
    obtain ⟨m, hm⟩ : ∃ m, m + 1 = out.length - i := ⟨out.length - (i + 1), by omega⟩
    obtain ⟨z, hz⟩ : ∃ z, z + 1 = 16 - out.length := ⟨15 - out.length, by omega⟩
    have hlt : m < out.length := by omega
    have hA : (out.take m).length = m := List.length_take_of_le (by omega)
    have htake : out.take (m + 1) = out.take m ++ [out[m]] := List.take_succ_eq_append_getElem hlt
    have hdrop : out.drop m = out[m] :: out.drop (m + 1) := List.drop_eq_getElem_cons hlt
    have hget : (out.take (m + 1) ++ List.replicate (z + 1) 0 ++ out.drop (m + 1)).getD m 0 =
        out[m] := by
      rw [htake, List.append_assoc, List.append_assoc, List.getD_append_right _ _ _ _ (by rw [hA]),
        hA, Nat.sub_self]
      rfl
    have hsub : out.length - (i + 1) = m := by omega
    have h16 : 16 - (i + 1) = m + (z + 1) := by omega
    have hkn : k + n - (i + 1) = m := by omega
    rw [shift, ih (by omega), ← hm, ← hz, hsub, h16, hkn, hget]
    have hstep := shift_step (out.take m) (out.drop (m + 1)) out[m] z
    rw [hA, ← htake, ← hdrop] at hstep
    exact hstep

/-- The bytes of the address, when there was a `::`. -/
theorem finish_some (h : Stored p out (some k)) (hk : k ≤ out.length) (hroom : out.length ≤ 16) :
    p.finish =
      if out.length = 16 then none
      else some (out.take k ++ List.replicate (16 - out.length) 0 ++ out.drop k) := by
  rw [Pton6.finish, h.colonp]
  simp only [h.tp, h.tmp]
  by_cases hfull : out.length = 16
  · rw [if_pos hfull, if_pos hfull]
  · have hspec := shift_spec (Nat.add_sub_cancel' hk) (by omega) (out.length - k) (Nat.le_refl _)
    rw [if_neg hfull, if_neg hfull, hspec, Nat.sub_sub_self hk]

theorem finish_none (h : Stored p out none) :
    p.finish = if out.length = 16 then some out else none := by
  rw [Pton6.finish, h.colonp]
  simp only [h.tp, h.tmp]
  by_cases hfull : out.length = 16
  · rw [if_neg (not_not_intro hfull), if_pos hfull, padded, hfull]
    exact congrArg some (List.append_nil out)
  · rw [if_pos hfull, if_neg hfull]

/-! ### Groups and pieces -/

theorem hex_first (h : Hex v 4 g) : ∃ c ds, g = c :: ds ∧ isXDigit c = true := by
  obtain ⟨c, ds, rfl⟩ := List.exists_cons_of_ne_nil h.some
  exact ⟨c, ds, rfl, h.digits c List.mem_cons_self⟩

/-- What has neither a dot nor a colon at its end. -/
structure Bare (t : Bytes) : Prop where
  dot : 46 ∉ t
  last : t.getLast? ≠ some 58

theorem hex_last (h : Hex v 4 g) : g.getLast? ≠ some 58 := by
  intro hlast
  exact absurd (h.digits 58 (List.mem_of_getLast? hlast)) (by decide)

theorem hex_dot (h : Hex v 4 g) : 46 ∉ g := fun hmem => absurd (h.digits 46 hmem) (by decide)

theorem groups_pieces (h : Groups t bs) : Pieces t bs := by
  induction h with
  | last hhex => exact .last hhex
  | cons hhex _ ih => exact .cons hhex ih

theorem pieces_ne_nil (h : Pieces t bs) : t ≠ [] := by
  cases h with
  | last hhex => exact hhex.some
  | quad a b c d => exact fun h => by simp [dottedQuad] at h
  | cons hhex _ => exact fun h => by simp at h

theorem getLast_append_cons (h : t ≠ []) (g : Bytes) (c : UInt8) :
    (g ++ c :: t).getLast? = t.getLast? := by
  rw [List.getLast?_append, List.getLast?_cons]
  obtain ⟨x, hx⟩ := Option.isSome_iff_exists.mp (List.getLast?_isSome.mpr h)
  rw [hx]
  rfl

theorem quad_last (a b c d : UInt8) {x : UInt8} (hx : isDigit x = false) :
    (dottedQuad a b c d).getLast? ≠ some x := by
  have hlt := d.toNat_lt
  have hne : Mprintf.fmtUint d.toNat ≠ [] := Mprintf.fmtUint_ne_nil (by omega)
  rw [dottedQuad, getLast_append_cons (by simp), getLast_append_cons (by simp),
    getLast_append_cons hne]
  intro hlast
  exact Bool.false_ne_true (hx.symm.trans (Mprintf.fmtUint_digits _ x (List.mem_of_getLast? hlast)))

/-- No piece ends in a colon. -/
theorem pieces_last (h : Pieces t bs) : t.getLast? ≠ some 58 := by
  induction h with
  | last hhex => exact hex_last hhex
  | quad a b c d => exact quad_last a b c d (by decide)
  | cons hhex hrest ih => rwa [getLast_append_cons (pieces_ne_nil hrest)]

/-- No piece begins with a colon. -/
theorem pieces_first (h : Pieces t bs) : t.head? ≠ some 58 := by
  cases h with
  | last hhex =>
    obtain ⟨c, ds, rfl, hc⟩ := hex_first hhex
    rintro ⟨rfl⟩
    exact absurd hc (by decide)
  | quad a b c d =>
    obtain ⟨x, r, heq, hx⟩ := dottedQuad_head a b c d
    rw [heq]
    rintro ⟨rfl⟩
    exact absurd hx (by decide)
  | cons hhex _ =>
    obtain ⟨c, ds, rfl, hc⟩ := hex_first hhex
    rintro ⟨rfl⟩
    exact absurd hc (by decide)

theorem groups_bare (h : Groups t bs) : Bare t := by
  refine ⟨?_, pieces_last (groups_pieces h)⟩
  induction h with
  | last hhex => exact hex_dot hhex
  | cons hhex _ ih =>
    rw [List.mem_append, List.mem_cons, not_or, not_or]
    exact ⟨hex_dot hhex, by decide, ih⟩

/-- Without a dot there is no dotted quad. -/
theorem groups_of_pieces (h : Pieces t bs) (hdot : 46 ∉ t) : Groups t bs := by
  induction h with
  | last hhex => exact .last hhex
  | quad a b c d => exact absurd (by simp [dottedQuad]) hdot
  | cons hhex _ ih => exact .cons hhex (ih fun hmem => hdot (by simp [hmem]))

/-! ### What is read, as a form -/

theorem pieces_parsed (h : Pieces t bs) : Parsed t bs none := by
  induction h with
  | last hhex => exact .last hhex
  | quad a b c d => exact .quad a b c d
  | cons hhex _ ih => exact .cons hhex ih

theorem maybe_parsed (h : Maybe Pieces t bs) : Parsed t bs none := by
  rcases h with ⟨rfl, rfl⟩ | h
  · exact .nil
  · exact pieces_parsed h

/-- Groups in front of a colon. -/
theorem groups_append_parsed {j : Option Nat} (h : Groups t bs) (hu : Parsed u cs j) :
    Parsed (t ++ 58 :: u) (bs ++ cs) (j.map (bs.length + ·)) := by
  induction h with
  | last hhex => exact .cons hhex hu
  | @cons g t bs v hhex _ ih =>
    have hcons := Parsed.cons hhex ih
    rw [← List.append_assoc, ← List.cons_append, ← List.append_assoc, Option.map_map] at hcons
    convert hcons using 2
    funext j
    simp only [Function.comp_apply, List.length_append, wordBytes_length, Nat.add_assoc]

theorem parsed_none (h : Parsed t bs none) :
    Maybe Pieces t bs ∨ ∃ u, t = u ++ [58] ∧ Groups u bs := by
  generalize hj : (none : Option Nat) = j at h
  induction h with
  | nil => exact .inl (.inl ⟨rfl, rfl⟩)
  | last hhex => exact .inl (.inr (.last hhex))
  | quad a b c d => exact .inl (.inr (.quad a b c d))
  | @cons g t bs v k hhex _ ih =>
    obtain (⟨rfl, rfl⟩ | h) | ⟨u, rfl, h⟩ := ih (Option.map_eq_none_iff.mp hj.symm).symm
    · exact .inr ⟨g, rfl, by rw [List.append_nil]; exact .last hhex⟩
    · exact .inl (.inr (.cons hhex h))
    · exact .inr ⟨g ++ 58 :: u, by simp, .cons hhex h⟩
  | gap => exact nomatch hj

/-- Where a `::` was read, groups stand before it, or nothing does. -/
theorem parsed_some {j : Nat} (h : Parsed t bs (some j)) :
    ∃ u w cs ds, bs = cs ++ ds ∧ j = cs.length ∧ Parsed w ds none ∧
      ((u = [] ∧ cs = [] ∧ t = 58 :: w) ∨ (Groups u cs ∧ t = u ++ 58 :: 58 :: w)) := by
  generalize hj : some j = k at h
  induction h generalizing j with
  | nil | last | quad => exact nomatch hj
  | @cons g t bs v k hhex _ ih =>
    obtain ⟨i, hi, rfl⟩ := Option.map_eq_some_iff.mp hj.symm
    obtain ⟨u, w, cs, ds, rfl, rfl, hw, hu⟩ := ih hi.symm
    refine ⟨if u = [] then g else g ++ 58 :: u, w, wordBytes v ++ cs, ds,
      (List.append_assoc _ _ _).symm, by rw [List.length_append]; rfl, hw, .inr ?_⟩
    obtain ⟨rfl, rfl, rfl⟩ | ⟨hu, rfl⟩ := hu
    · rw [if_pos rfl, List.append_nil]
      exact ⟨.last hhex, rfl⟩
    · rw [if_neg (pieces_ne_nil (groups_pieces hu))]
      exact ⟨.cons hhex hu, by simp⟩
  | @gap t bs ht =>
    obtain rfl := Option.some.inj hj
    exact ⟨[], t, [], bs, rfl, rfl, ht, .inl ⟨rfl, rfl, rfl⟩⟩

theorem parsed_even {j : Option Nat} (h : Parsed t bs j) : 2 ∣ bs.length := by
  induction h with
  | nil => exact Nat.dvd_zero 2
  | last => exact Nat.dvd_refl 2
  | quad a b c d => exact ⟨2, rfl⟩
  | cons _ _ ih =>
    rw [List.length_append, wordBytes_length]
    exact (Nat.dvd_add_right (Nat.dvd_refl 2)).mpr ih
  | gap _ ih => exact ih

end Gurl.Inet
