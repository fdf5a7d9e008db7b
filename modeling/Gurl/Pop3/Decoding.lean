import Gurl.Pop3.Write

/-! What `pop3_write` makes of the bytes one by one, and that it makes the same of them however they
are cut into pieces. -/

namespace Gurl.Pop3

open Feed

variable {c : UInt8} {eob strip : Nat} {held xs ys out : Bytes} {p : Pop3Conn}

/-- The client takes everything. -/
def accepts : Client := fun _ _ => .ok

theorem clientWrite_accepts (p : Pop3Conn) (bytes : Bytes) :
    clientWrite accepts p bytes = ({ p with written := p.written ++ bytes }, .ok) := rfl

/-! ### Byte by byte -/

/-- The matched and the stripped bytes after another byte, and what is known to belong to the body
then. It ends with the marker. -/
def bodyStep (m : Nat × Nat) (c : UInt8) : (Nat × Nat) × Bytes × Option Unit :=
  let (eob, dot) := matchByte m.1 c
  let own := if eob = 0 then [c] else []
  let stop := if eob = 5 then some () else none
  if m.1 ≠ 0 ∧ m.1 ≥ eob then
    let n := m.1 - min m.1 m.2
    ((eob, m.2 - min m.1 m.2), pop3Eob.take (if dot then n - 1 else n) ++ own, stop)
  else ((eob, m.2), own, stop)

theorem matchByte_dot (h : (matchByte eob c).2 = true) : eob = 3 ∧ (matchByte eob c).1 = 0 := by
  unfold matchByte at h ⊢
  split_ifs at h ⊢
  all_goals simp_all

theorem matchByte_zero (c : UInt8) : matchByte 0 c = (if c = 13 then 1 else 0, false) := by
  unfold matchByte
  split_ifs
  all_goals simp_all

/-- Bytes are stripped from the first match only, with nothing held in front of it. -/
def Stripping (eob strip : Nat) (held : Bytes) : Prop :=
  strip = 0 ∨ strip = 2 ∧ 2 ≤ eob ∧ (eob = 2 → held = [])

/-- What of the held bytes is known to belong to the body. -/
def known (eob : Nat) (held : Bytes) : Bytes := if eob = 0 then held else []

/-- The loop does to a byte what the byte alone says. -/
structure Scanned (i : Nat) (p : Pop3Conn) (held : Bytes) (c : UInt8) (m : Nat × Nat)
    (out : Bytes) : Prop where
  scan : ∃ written held',
    scanByte accepts i ⟨p, false, held⟩ c =
      (⟨{ p with eob := m.1, strip := m.2, written }, false, held'⟩, .ok) ∧
    Stripping m.1 m.2 (held' ++ [c]) ∧
    written ++ known m.1 (held' ++ [c]) = p.written ++ known p.eob held ++ out

/-- A byte behind no match. -/
theorem scanned_zero (i : Nat) (written : Bytes) (receiving : Bool) (c : UInt8)
    (hfirst : i = 0 → held = []) :
    Scanned i ⟨0, 0, written, receiving⟩ held c (if c = 13 then 1 else 0, 0)
      (if c = 13 then [] else [c]) := by
  constructor
  rw [scanByte]
  dsimp only
  rw [matchByte_zero]
  by_cases hc : c = 13
  · subst hc
    by_cases hi : i = 0
    · obtain rfl := hfirst hi
      refine ⟨written, [], ?_, .inl rfl, by simp [known]⟩
      simp [hi]
    · refine ⟨written ++ held, [], ?_, .inl rfl, by simp [known]⟩
      simp [hi, writeHeld, clientWrite_accepts]
  · refine ⟨written, held, ?_, .inl rfl, by simp [known, hc]⟩
    simp [hc]

theorem scanByte_failed {client : Client} {i : Nat} {s : Scan} {dot : Bool}
    (hmatch : matchByte s.pop3.eob c = (eob, dot)) (heob : s.pop3.eob ≠ 0)
    (hle : s.pop3.eob ≥ eob) : scanByte client i s c = writeFailed client
      { s with pop3 := { s.pop3 with eob }, stripDot := s.stripDot || dot } s.pop3.eob := by
  have hnot : ¬ (c = 13 ∧ s.pop3.eob = 0 ∧ i ≠ 0) := fun h => heob h.2.1
  rw [scanByte]
  dsimp only
  rw [hmatch]
  dsimp only
  rw [if_neg hnot]
  dsimp only
  rw [if_neg (not_not.mpr rfl), if_pos ⟨heob, hle⟩]

theorem scanByte_more {client : Client} {i : Nat} {s : Scan}
    (hmatch : matchByte s.pop3.eob c = (eob, false)) (heob : s.pop3.eob ≠ 0)
    (hlt : ¬ s.pop3.eob ≥ eob) (hdot : s.stripDot = false) :
    scanByte client i s c = ({ s with pop3 := { s.pop3 with eob } }, .ok) := by
  have hnot : ¬ (c = 13 ∧ s.pop3.eob = 0 ∧ i ≠ 0) := fun h => heob h.2.1
  rw [scanByte]
  dsimp only
  rw [hmatch]
  dsimp only
  rw [if_neg hnot]
  dsimp only
  rw [if_neg (not_not.mpr rfl), if_neg fun h => hlt h.2, hdot]
  rfl

theorem writeMarker_accepts (pop3 : Pop3Conn) (dot : Bool) (prev : Nat) :
    writeMarker accepts pop3 dot prev =
      ({ pop3 with
          written := pop3.written ++ pop3Eob.take (if dot then prev - 1 else prev) }, .ok) := by
  rw [writeMarker]
  cases dot with
  | false =>
    rw [if_neg fun h => Bool.false_ne_true h.1, if_pos rfl]
    rfl
  | true =>
    by_cases hmore : prev - 1 > 0
    · rw [if_pos ⟨rfl, hmore⟩]
      rfl
    · have hnone : prev - 1 = 0 := by omega
      rw [if_neg fun h => hmore h.2, if_neg Bool.noConfusion, if_pos rfl, hnone,
        List.take_zero, List.append_nil]

/-- The marker is written as far as it was matched, but for the stripped bytes. -/
theorem writeFailed_accepts (pop3 : Pop3Conn) (dot : Bool) (held : Bytes) {prev : Nat}
    (hprev : prev - min prev pop3.strip ≠ 0) :
    writeFailed accepts ⟨pop3, dot, held⟩ prev =
      (⟨{ pop3 with
          strip := pop3.strip - min prev pop3.strip
          written := pop3.written ++ pop3Eob.take (if dot then prev - min prev pop3.strip - 1
            else prev - min prev pop3.strip) }, false, []⟩, .ok) := by
  rw [writeFailed]
  dsimp only
  rw [if_neg hprev, writeMarker_accepts]
  rfl

/-- A byte that ends a match. -/
theorem scanned_failed (i : Nat) (written : Bytes) (receiving : Bool) {prev : Nat} {dot : Bool}
    (hmatch : matchByte prev c = (eob, dot)) (hprev : prev ≠ 0) (hle : prev ≥ eob)
    (hstrip : Stripping prev strip held) :
    Scanned i ⟨prev, strip, written, receiving⟩ held c (eob, strip - min prev strip)
      (pop3Eob.take (if dot then prev - min prev strip - 1 else prev - min prev strip) ++
        if eob = 0 then [c] else []) := by
  have hdot : dot = true → prev = 3 := fun h => (matchByte_dot (by rw [hmatch]; exact h)).1
  have hzero : strip - min prev strip = 0 := by
    obtain hs | ⟨hs, hge, -⟩ := hstrip
    all_goals omega
  constructor
  rw [scanByte_failed hmatch hprev hle, Bool.false_or]
  dsimp only
  by_cases hall : prev - min prev strip = 0
  · -- all of the match is stripped, and nothing is held
    have hdot' : dot = false := by
      cases dot with
      | false => rfl
      | true =>
        have := hdot rfl
        obtain hs | ⟨hs, -⟩ := hstrip
        all_goals omega
    have hheld : held = [] := by
      obtain hs | ⟨hs, hge, hheld⟩ := hstrip
      · omega
      · exact hheld (by omega)
    subst hdot' hheld
    refine ⟨written, [], ?_, .inl hzero, by simp [hall, known, hprev]⟩
    rw [writeFailed]
    exact if_pos hall
  · rw [writeFailed_accepts ⟨eob, strip, written, receiving⟩ dot held hall]
    refine ⟨_, [], rfl, .inl hzero, ?_⟩
    simp [known, hprev]

/-- A byte that goes on with a match. -/
theorem scanned_more (i : Nat) (written : Bytes) (receiving : Bool) {prev : Nat} {dot : Bool}
    (hmatch : matchByte prev c = (eob, dot)) (hprev : prev ≠ 0) (hlt : ¬ prev ≥ eob)
    (hstrip : Stripping prev strip held) :
    Scanned i ⟨prev, strip, written, receiving⟩ held c (eob, strip) [] := by
  have hdot : dot = false := by
    cases dot with
    | false => rfl
    | true =>
      have hzero : (matchByte prev c).1 = 0 := (matchByte_dot (by rw [hmatch])).2
      rw [hmatch] at hzero
      exact absurd (Nat.zero_le prev) ((show eob = 0 from hzero) ▸ hlt)
  subst hdot
  constructor
  refine ⟨written, held, scanByte_more hmatch hprev hlt rfl, ?_, ?_⟩
  · obtain hs | ⟨hs, hge, -⟩ := hstrip
    · exact .inl hs
    · exact .inr ⟨hs, by omega, fun h => by omega⟩
  · simp [known, hprev, show eob ≠ 0 by omega]

/-- The loop does to every byte what the byte alone says. -/
theorem scanByte_spec {i : Nat} (p : Pop3Conn) (c : UInt8) (hstrip : Stripping p.eob p.strip held)
    (hfirst : i = 0 → held = []) :
    Scanned i p held c (bodyStep (p.eob, p.strip) c).1 (bodyStep (p.eob, p.strip) c).2.1 := by
  obtain ⟨prev, strip, written, receiving⟩ := p
  rcases hmatch : matchByte prev c with ⟨eob, dot⟩
  rw [bodyStep, hmatch]
  dsimp only
  by_cases hprev : prev = 0
  · subst hprev
    obtain rfl : strip = 0 := by
      obtain hs | ⟨-, hge, -⟩ := hstrip
      · exact hs
      · exact absurd hge (Nat.not_succ_le_zero 1)
    have hzero := scanned_zero i written receiving c hfirst
    rw [matchByte_zero, Prod.mk.injEq] at hmatch
    rw [if_neg fun h => h.1 rfl, ← hmatch.1]
    by_cases hc : c = 13
    · simpa [hc] using hzero
    · simpa [hc] using hzero
  · by_cases hle : prev ≥ eob
    · rw [if_pos ⟨hprev, hle⟩]
      exact scanned_failed i written receiving hmatch hprev hle hstrip
    · rw [if_neg fun h => hle h.2, if_neg (show eob ≠ 0 by omega)]
      exact scanned_more i written receiving hmatch hprev hle hstrip

/-! ### Pieces -/

/-- The machine stops with the whole marker. -/
theorem bodyStep_stop (m : Nat × Nat) (c : UInt8) :
    (bodyStep m c).2.2 = if (bodyStep m c).1.1 = 5 then some () else none := by
  unfold bodyStep
  dsimp only
  split
  all_goals rfl

/-- As long as it goes on, the marker is not complete. -/
theorem feed_part {m : Nat × Nat} {str : Bytes} (hm : m.1 ≠ 5)
    (hpart : (feed bodyStep m str).error = none) : (feed bodyStep m str).state.1 ≠ 5 := by
  induction str generalizing m with
  | nil => exact hm
  | cons c cs ih =>
    have hstop := bodyStep_stop m c
    rcases hstep : bodyStep m c with ⟨m', out, _ | e⟩
    · rw [feed_cons_ok hstep] at hpart ⊢
      rw [hstep] at hstop
      refine ih (fun hfive => ?_) hpart
      rw [if_pos hfive] at hstop
      cases hstop
    · rw [feed_cons_error hstep] at hpart
      cases hpart

/-- The loop does to a piece what the machine does, if nothing is behind the marker. -/
theorem scanLoop_spec {i : Nat} (p : Pop3Conn) (held : Bytes) (str : Bytes)
    (hstrip : Stripping p.eob p.strip held) (hfirst : i = 0 → held = [])
    (hrest : (feed bodyStep (p.eob, p.strip) str).rest = []) :
    ∃ written held',
      scanLoop accepts i ⟨p, false, held⟩ str =
        (⟨{ p with eob := (feed bodyStep (p.eob, p.strip) str).state.1,
                   strip := (feed bodyStep (p.eob, p.strip) str).state.2, written }, false, held'⟩,
                     .ok) ∧
      Stripping (feed bodyStep (p.eob, p.strip) str).state.1
        (feed bodyStep (p.eob, p.strip) str).state.2 held' ∧
      written ++ known (feed bodyStep (p.eob, p.strip) str).state.1 held' =
        p.written ++ known p.eob held ++ (feed bodyStep (p.eob, p.strip) str).out := by
  induction str generalizing i p held with
  | nil => exact ⟨p.written, held, rfl, hstrip, (List.append_nil _).symm⟩
  | cons c cs ih =>
    obtain ⟨written, held', hscan, hstrip', htext⟩ := (scanByte_spec p c hstrip hfirst).scan
    rw [scanLoop, hscan]
    dsimp only
    rcases hstep : bodyStep (p.eob, p.strip) c with ⟨m, out, _ | _⟩
    · rw [hstep] at hstrip' htext
      rw [feed_cons_ok hstep] at hrest ⊢
      obtain ⟨written', held'', hloop, hstrip'', htext'⟩ :=
        ih (i := i + 1) { p with eob := m.1, strip := m.2, written }
          (held' ++ [c]) hstrip' nofun hrest
      refine ⟨written', held'', hloop, hstrip'', ?_⟩
      rw [htext', htext, List.append_assoc]
    · rw [hstep] at hstrip' htext
      rw [feed_cons_error hstep] at hrest ⊢
      obtain rfl : cs = [] := hrest
      exact ⟨written, held' ++ [c], rfl, hstrip', htext⟩

theorem stripping_nil (h : strip = 0 ∨ strip = 2 ∧ 2 ≤ eob) : Stripping eob strip [] :=
  h.imp_right fun h => ⟨h.1, h.2, fun _ => rfl⟩

theorem Stripping.short (h : Stripping eob strip held) : strip = 0 ∨ strip = 2 ∧ 2 ≤ eob :=
  h.imp_right fun h => ⟨h.1, h.2.1⟩

/-- Between two calls: what can be stripped, and the marker is not complete. -/
structure Between (p : Pop3Conn) : Prop where
  strip : p.strip = 0 ∨ p.strip = 2 ∧ 2 ≤ p.eob
  part : p.eob ≠ 5

/-- A piece without the end of the marker. -/
theorem pop3Write_part (hp : Between p) {str : Bytes}
    (hpart : (feed bodyStep (p.eob, p.strip) str).error = none) :
    ∃ p', pop3Write accepts p str = (p', .ok) ∧ Between p' ∧
      (p'.eob, p'.strip) = (feed bodyStep (p.eob, p.strip) str).state ∧
      p'.written = p.written ++ (feed bodyStep (p.eob, p.strip) str).out ∧
      p'.receiving = p.receiving := by
  obtain ⟨written, held, hloop, hstrip, htext⟩ :=
    scanLoop_spec (i := 0) p [] str (stripping_nil hp.strip) (fun _ => rfl) (feed_rest hpart)
  have hnone : known p.eob [] = [] := ite_self _
  have hfive := feed_part hp.part hpart
  rw [hnone, List.append_nil] at htext
  rw [pop3Write, hloop]
  dsimp only
  rw [if_neg hfive]
  generalize (feed bodyStep (p.eob, p.strip) str).state = m at *
  by_cases hzero : m.1 = 0
  · rw [known, if_pos hzero] at htext
    rw [if_neg (not_not.mpr hzero)]
    by_cases hheld : held = []
    · rw [if_neg (not_not.mpr hheld)]
      rw [hheld, List.append_nil] at htext
      exact ⟨_, rfl, ⟨hstrip.short, hfive⟩, rfl, htext, rfl⟩
    · rw [if_pos hheld]
      exact ⟨_, rfl, ⟨hstrip.short, hfive⟩, rfl, htext, rfl⟩
  · rw [known, if_neg hzero, List.append_nil] at htext
    rw [if_pos hzero]
    exact ⟨_, rfl, ⟨hstrip.short, hfive⟩, rfl, htext, rfl⟩

/-- A piece with the end of the marker as its last byte. -/
theorem pop3Write_end (hp : Between p) {str : Bytes}
    (hend : (feed bodyStep (p.eob, p.strip) str).error = some ())
    (hrest : (feed bodyStep (p.eob, p.strip) str).rest = []) :
    ∃ p', pop3Write accepts p str = (p', .ok) ∧ p'.eob = 0 ∧
      p'.written = p.written ++ (feed bodyStep (p.eob, p.strip) str).out ++ [13, 10] ∧
      p'.receiving = false := by
  obtain ⟨written, held, hloop, -, htext⟩ :=
    scanLoop_spec (i := 0) p [] str (stripping_nil hp.strip) (fun _ => rfl) hrest
  have hnone : known p.eob [] = [] := ite_self _
  have hfive : (feed bodyStep (p.eob, p.strip) str).state.1 = 5 := by
    obtain ⟨pre, c, post, last, -, -, hstep, -⟩ := feed_error hend
    have hstop := bodyStep_stop (feed bodyStep (p.eob, p.strip) pre).state c
    rw [hstep] at hstop
    by_contra hnot
    rw [if_neg hnot] at hstop
    cases hstop
  rw [hnone, List.append_nil, known, if_neg (by rw [hfive]; decide), List.append_nil] at htext
  rw [pop3Write, hloop]
  dsimp only
  rw [if_pos hfive]
  exact ⟨_, rfl, rfl, congrArg (· ++ [13, 10]) htext, rfl⟩

/-- Behind the marker, empty pieces change nothing. -/
theorem pop3Write_nil (heob : p.eob = 0) : pop3Write accepts p [] = (p, .ok) := by
  rw [pop3Write, scanLoop]
  dsimp only
  rw [if_neg (by rw [heob]; decide), if_neg (not_not.mpr heob), if_neg (not_not.mpr rfl)]

theorem writeAll_nil (heob : p.eob = 0) (pieces : List Bytes) (hnil : pieces.flatten = []) :
    writeAll accepts p pieces = (p, .ok) := by
  induction pieces with
  | nil => rfl
  | cons piece pieces ih =>
    rw [List.flatten_cons, List.append_eq_nil_iff] at hnil
    rw [writeAll, hnil.1, pop3Write_nil heob]
    exact ih hnil.2

/-- Pieces without the end of the marker. -/
theorem writeAll_part (hp : Between p) (pieces : List Bytes)
    (hpart : (feed bodyStep (p.eob, p.strip) pieces.flatten).error = none) :
    ∃ p', writeAll accepts p pieces = (p', .ok) ∧ Between p' ∧
      p'.written = p.written ++ (feed bodyStep (p.eob, p.strip) pieces.flatten).out ∧
      p'.receiving = p.receiving := by
  induction pieces generalizing p with
  | nil => exact ⟨p, rfl, hp, (List.append_nil _).symm, rfl⟩
  | cons piece pieces ih =>
    rw [List.flatten_cons] at hpart ⊢
    cases hpiece : (feed bodyStep (p.eob, p.strip) piece).error with
    | some e =>
      rw [feed_append_error hpiece] at hpart
      cases hpart.symm.trans hpiece
    | none =>
      obtain ⟨p1, hwrite, hp1, hstate, htext, hreceiving⟩ := pop3Write_part hp hpiece
      rw [feed_append hpiece, ← hstate] at hpart ⊢
      obtain ⟨p2, hall, hp2, htext2, hreceiving2⟩ := ih hp1 hpart
      refine ⟨p2, ?_, hp2, ?_, hreceiving2.trans hreceiving⟩
      · rw [writeAll, hwrite]
        exact hall
      · rw [htext2, htext, List.append_assoc]

/-- Pieces that the marker ends. -/
theorem writeAll_end (hp : Between p) (pieces : List Bytes)
    (hend : (feed bodyStep (p.eob, p.strip) pieces.flatten).error = some ())
    (hrest : (feed bodyStep (p.eob, p.strip) pieces.flatten).rest = []) :
    ∃ p', writeAll accepts p pieces = (p', .ok) ∧
      p'.written = p.written ++ (feed bodyStep (p.eob, p.strip) pieces.flatten).out ++ [13, 10] ∧
      p'.receiving = false := by
  induction pieces generalizing p with
  | nil => cases hend
  | cons piece pieces ih =>
    rw [List.flatten_cons] at hend hrest ⊢
    cases hpiece : (feed bodyStep (p.eob, p.strip) piece).error with
    | some e =>
      rw [feed_append_error hpiece] at hrest ⊢
      rw [List.append_eq_nil_iff] at hrest
      obtain ⟨p1, hwrite, heob, htext, hreceiving⟩ := pop3Write_end hp hpiece hrest.1
      refine ⟨p1, ?_, htext, hreceiving⟩
      rw [writeAll, hwrite]
      exact writeAll_nil heob pieces hrest.2
    | none =>
      obtain ⟨p1, hwrite, hp1, hstate, htext, -⟩ := pop3Write_part hp hpiece
      rw [feed_append hpiece, ← hstate] at hend hrest ⊢
      obtain ⟨p2, hall, htext2, hreceiving2⟩ := ih hp1 hend hrest
      refine ⟨p2, ?_, ?_, hreceiving2⟩
      · rw [writeAll, hwrite]
        exact hall
      · rw [htext2, htext]
        simp only [List.append_assoc]

/-! ### Lines -/

/-- The CR that a match of one byte holds back. -/
def pending (eob : Nat) : Bytes := if eob = 1 then [13] else []

/-- A byte inside of a line. -/
theorem bodyStep_inside (heob : eob = 0 ∨ eob = 1) (hwhole : ¬ (eob = 1 ∧ c = 10)) :
    ∃ out, bodyStep (eob, 0) c = ((if c = 13 then 1 else 0, 0), out, none) ∧
      out ++ pending (if c = 13 then 1 else 0) = pending eob ++ [c] := by
  unfold bodyStep matchByte
  obtain rfl | rfl := heob
  · by_cases hc : c = 13
    · subst hc
      exact ⟨[], rfl, rfl⟩
    · refine ⟨[c], ?_, by simp [pending, hc]⟩
      split_ifs <;> simp_all
  · by_cases hc : c = 13
    · subst hc
      exact ⟨[13], rfl, rfl⟩
    · refine ⟨[13, c], ?_, by simp [pending, hc]⟩
      split_ifs <;> simp_all [pop3Eob]

/-- The rest of a line: its CRLF is held back. -/
theorem feed_inside (heob : eob = 0 ∨ eob = 1) (hwhole : ¬ [13, 10] <:+: pending eob ++ xs) :
    feed bodyStep (eob, 0) (xs ++ [13, 10]) = ⟨(2, 0), pending eob ++ xs, none, []⟩ := by
  induction xs generalizing eob with
  | nil =>
    obtain rfl | rfl := heob
    all_goals rfl
  | cons c cs ih =>
    have hnot : ¬ (eob = 1 ∧ c = 10) := by
      rintro ⟨rfl, rfl⟩
      exact hwhole ⟨[], cs, rfl⟩
    obtain ⟨out, hstep, hout⟩ := bodyStep_inside heob hnot
    have hrest : ¬ [13, 10] <:+: pending (if c = 13 then 1 else 0) ++ cs := by
      intro h
      apply hwhole
      have hsuffix : pending (if c = 13 then 1 else 0) ++ cs <:+ pending eob ++ c :: cs := by
        refine ⟨out, ?_⟩
        rw [← List.append_assoc, hout, List.append_assoc]
        rfl
      exact h.trans hsuffix.isInfix
    rw [List.cons_append, feed_cons_ok hstep, ih (by split <;> simp) hrest,
      ← List.append_assoc, hout, List.append_assoc]
    rfl

/-- The first byte of a line, if it is not a dot. -/
theorem bodyStep_first (hstrip : strip = 0 ∨ strip = 2) (hc : c ≠ 46) :
    ∃ own, bodyStep (2, strip) c =
        ((if c = 13 then 1 else 0, 0), pop3Eob.take (2 - strip) ++ own, none) ∧
      own ++ pending (if c = 13 then 1 else 0) = [c] := by
  unfold bodyStep matchByte
  by_cases hcr : c = 13
  · subst hcr
    refine ⟨[], ?_, rfl⟩
    obtain rfl | rfl := hstrip
    all_goals rfl
  · refine ⟨[c], ?_, by simp [pending, hcr]⟩
    obtain rfl | rfl := hstrip
    · split_ifs
      all_goals simp_all
    · split_ifs
      all_goals simp_all

/-- A line as it is sent: the CRLF in front of it and its bytes belong to the body. -/
theorem feed_line (l : Line) (hstrip : strip = 0 ∨ strip = 2) :
    feed bodyStep (2, strip) (stuffed l) =
      ⟨(2, 0), pop3Eob.take (2 - strip) ++ l.bytes, none, []⟩ := by
  obtain ⟨bytes, hwhole⟩ := l
  cases bytes with
  | nil =>
    obtain rfl | rfl := hstrip
    all_goals rfl
  | cons c cs =>
    by_cases hdot : c = 46
    · subst hdot
      have hrest : ¬ [13, 10] <:+: pending 0 ++ cs := fun h =>
        hwhole (h.trans (List.suffix_cons 46 cs).isInfix)
      have hline : stuffed ⟨46 :: cs, hwhole⟩ = 46 :: 46 :: (cs ++ [13, 10]) := rfl
      have hfirst : bodyStep (2, strip) 46 = ((3, strip), [], none) := by
        obtain rfl | rfl := hstrip
        all_goals rfl
      have hsecond : bodyStep (3, strip) 46 = ((0, 0), pop3Eob.take (2 - strip) ++ [46], none) := by
        obtain rfl | rfl := hstrip
        all_goals rfl
      rw [hline, feed_cons_ok hfirst, feed_cons_ok hsecond, feed_inside (.inl rfl) hrest]
      simp [pending]
    · obtain ⟨own, hstep, hown⟩ := bodyStep_first hstrip hdot
      have hline : stuffed ⟨c :: cs, hwhole⟩ = c :: (cs ++ [13, 10]) := by simp [stuffed, hdot]
      have hrest : ¬ [13, 10] <:+: pending (if c = 13 then 1 else 0) ++ cs := by
        intro h
        apply hwhole
        have hsuffix : pending (if c = 13 then 1 else 0) ++ cs <:+ c :: cs := by
          refine ⟨own, ?_⟩
          rw [← List.append_assoc, hown]
          rfl
        exact h.trans hsuffix.isInfix
      rw [hline, feed_cons_ok hstep, feed_inside (by split <;> simp) hrest]
      have hbytes : own ++ (pending (if c = 13 then 1 else 0) ++ cs) = c :: cs := by
        rw [← List.append_assoc, hown]
        rfl
      simp only [List.append_assoc, hbytes]

theorem message_cons (l : Line) (lines : List Line) :
    message (l :: lines) = l.bytes ++ [13, 10] ++ message lines := List.flatMap_cons

/-- Lines behind a line. -/
theorem feed_lines (lines : List Line) :
    ∃ out, feed bodyStep (2, 0) (lines.flatMap stuffed) = ⟨(2, 0), out, none, []⟩ ∧
      out ++ [13, 10] = [13, 10] ++ message lines := by
  induction lines with
  | nil => exact ⟨[], rfl, rfl⟩
  | cons l lines ih =>
    obtain ⟨out, hfeed, hout⟩ := ih
    have hline := feed_line l (.inl rfl)
    have hnone : (feed bodyStep (2, 0) (stuffed l)).error = none := by rw [hline]
    refine ⟨[13, 10] ++ l.bytes ++ out, ?_, ?_⟩
    · rw [List.flatMap_cons, feed_append hnone, hline, hfeed]
      rfl
    · rw [List.append_assoc, hout, message_cons]
      simp

/-- The machine on everything that the server sends for a mail with a line. -/
theorem feed_stream (line : Line) (lines : List Line) :
    ∃ out, feed bodyStep (2, 2) (stream (line :: lines)) = ⟨(5, 0), out, some (), []⟩ ∧
      out ++ [13, 10] = message (line :: lines) := by
  obtain ⟨out, hfeed, hout⟩ := feed_lines lines
  have hline := feed_line line (.inr rfl)
  have hfirst : (feed bodyStep (2, 2) (stuffed line)).error = none := by rw [hline]
  have hlines : (feed bodyStep (2, 0) (lines.flatMap stuffed)).error = none := by rw [hfeed]
  have hdot : feed bodyStep (2, 0) [46, 13, 10] = ⟨(5, 0), [], some (), []⟩ := rfl
  refine ⟨line.bytes ++ out, ?_, ?_⟩
  · rw [stream, List.flatMap_cons, List.append_assoc, feed_append hfirst, hline, feed_append hlines,
      hfeed, hdot]
    simp
  · rw [List.append_assoc, hout, message_cons, List.append_assoc]

/-- However the bytes of a mail are cut into pieces: what is written is the mail, and receiving is
switched off by the piece with the last byte. -/
theorem pop3Write_decodes (line : Line) (lines : List Line) (pre post : List Bytes)
    (hcut : (pre ++ post).flatten = stream (line :: lines)) :
    ∃ p, writeAll accepts bodyStart pre = (p, .ok) ∧ p.written <+: message (line :: lines) ∧
      (p.receiving = false ↔ post.flatten = []) ∧
      (post.flatten = [] → p.written = message (line :: lines)) := by
  obtain ⟨out, hfeed, hout⟩ := feed_stream line lines
  have hstart : Between bodyStart := ⟨.inr ⟨rfl, Nat.le_refl 2⟩, by decide⟩
  rw [List.flatten_append] at hcut
  cases herror : (feed bodyStep (2, 2) pre.flatten).error with
  | some e =>
    have hall := feed_append_error herror post.flatten
    rw [hcut, hfeed] at hall
    simp only [Fed.mk.injEq] at hall
    obtain ⟨-, hout', -, hrest⟩ := hall
    have hnil := List.append_eq_nil_iff.mp hrest.symm
    obtain ⟨p, hwrite, htext, hreceiving⟩ := writeAll_end hstart pre herror hnil.1
    have hmessage : p.written = message (line :: lines) := by
      rw [htext, ← hout, hout']
      rfl
    exact ⟨p, hwrite, ⟨[], by rw [hmessage, List.append_nil]⟩, by simp [hreceiving, hnil.2],
      fun _ => hmessage⟩
  | none =>
    obtain ⟨p, hwrite, -, htext, hreceiving⟩ := writeAll_part hstart pre herror
    have hall := feed_append herror post.flatten
    rw [hcut, hfeed] at hall
    simp only [Fed.mk.injEq] at hall
    obtain ⟨-, hout', herror', -⟩ := hall
    have hpost : post.flatten ≠ [] := by
      intro hnil
      rw [hnil] at herror'
      cases herror'
    refine ⟨p, hwrite, ?_, ?_, fun hnil => absurd hnil hpost⟩
    · rw [← hout, hout', htext]
      exact ⟨_, (List.append_assoc _ _ _).symm⟩
    · rw [hreceiving]
      exact ⟨nofun, fun hnil => absurd hnil hpost⟩

/-- The mail that is a line with a dot, in three pieces. -/
theorem pop3Write_decodes_dot : ∃ p,
    writeAll accepts bodyStart [[46], [46, 13], [10, 46, 13, 10]] = (p, .ok) ∧
      p.written = [46, 13, 10] ∧ p.receiving = false := by
  obtain ⟨p, hwrite, -, hreceiving, htext⟩ :=
    pop3Write_decodes ⟨[46], by decide⟩ [] [[46], [46, 13], [10, 46, 13, 10]] [] (by decide)
  exact ⟨p, hwrite, htext rfl, hreceiving.mpr rfl⟩

end Gurl.Pop3
