import Gurl.Urlglob.Parse

/-! `glob_next_url` goes through all combinations of the parts of a pattern. -/

namespace Gurl.Urlglob

/-! ### The positions of a part -/

/-- A part that can be counted through. -/
def Item.Valid : Item → Prop
  | .literal _ => True
  | .set elems => elems ≠ []
  | .letters min max step => IsRange min max step ∧ max + step ≤ 255
  | .numbers min max step _ => IsRange min max step ∧ max + step ≤ curlOffTMax

/-- The positions of a part, in their order. -/
def Item.positions : Item → List Content
  | .literal text => [.set [text] 0]
  | .set elems => (List.range elems.length).map (.set elems ·)
  | .letters min max step => (rangeOf min max step).map (.ascii min max · step)
  | .numbers min max step width => (rangeOf min max step).map (.num min max · step width)

/-- What a position puts into the URL. -/
def Content.piece : Content → Piece
  | .set elem idx => ⟨elem.getD idx [], false⟩
  | .ascii _ _ letter _ => ⟨[UInt8.ofNat letter], false⟩
  | .num _ _ idx _ npad => ⟨fmtPadded npad idx, true⟩

/-- A position is inside its bounds, and a step from it stays in its type: a byte for a letter,
which is an `int`, and a `curl_off_t` for a number. -/
def Content.InRange : Content → Prop
  | .set elem idx => idx < elem.length
  | .ascii min max letter step => min ≤ letter ∧ letter ≤ max ∧ max + step ≤ 255
  | .num min max idx step _ => min ≤ idx ∧ idx ≤ max ∧ max + step ≤ curlOffTMax

theorem ReadsExpr.valid {set : Bool} {p rest : Bytes} {item : Item}
    (h : ReadsExpr set p item rest) : item.Valid := by
  cases h with
  | set h =>
    cases h with
    | last => exact List.cons_ne_nil _ _
    | cons => exact List.cons_ne_nil _ _
  | letters hmin _ hrange hwidth =>
    refine ⟨hrange, ?_⟩
    have hlt := isAlpha_lt hmin
    have hstep := hrange.step_le
    omega
  | numbers _ _ _ _ hrange hoverflow => exact ⟨hrange, hoverflow⟩

theorem Reads.valid {env : Env} {p : Bytes} {items : List Item} (h : Reads env p items) :
    ∀ item ∈ items, item.Valid := by
  induction h with
  | nil => exact fun item hitem => (List.not_mem_nil hitem).elim
  | literal _ _ _ ih =>
    intro item hitem
    rcases List.mem_cons.mp hitem with rfl | hitem
    · exact trivial
    · exact ih item hitem
  | set _ h _ ih | range _ _ h _ ih =>
    intro item hitem
    rcases List.mem_cons.mp hitem with rfl | hitem
    · exact h.valid
    · exact ih item hitem

theorem IsRange.step_lt_iff {min max step k : Nat} (h : IsRange min max step) :
    min + k * step + step > max ↔ (max - min) / step ≤ k := by
  have hle := h.le
  rw [← Nat.lt_succ_iff, Nat.div_lt_iff_lt_mul h.pos, Nat.succ_mul]
  omega

/-- A range is counted through. -/
theorem IsRange.isCycle {min max step : Nat} {f : Nat → Content} (h : IsRange min max step)
    (hlast : ∀ idx, idx + step > max → (f idx).next = (f min, true))
    (hnext : ∀ idx, ¬idx + step > max → (f idx).next = (f (idx + step), false)) :
    Odometer.IsCycle Content.next ((rangeOf min max step).map f) := by
  rw [rangeOf, List.map_map]
  refine Odometer.isCycle_range (fun k hk => ?_) ?_
  · have hmore : ¬min + k * step + step > max := by
      rw [h.step_lt_iff]
      omega
    simp only [Function.comp_apply, hnext _ hmore, Nat.succ_mul, Nat.add_assoc]
  · have hend : min + (max - min) / step * step + step > max := h.step_lt_iff.mpr (Nat.le_refl _)
    simp only [Function.comp_apply, hlast _ hend, Nat.zero_mul, Nat.add_zero]

/-- Every part is counted through. -/
theorem Item.isCycle_positions {item : Item} (h : item.Valid) :
    Odometer.IsCycle Content.next item.positions := by
  cases item with
  | literal text => exact ⟨_, [], rfl, rfl⟩
  | set elems =>
    have hlength : elems.length - 1 + 1 = elems.length :=
      Nat.sub_add_cancel (List.length_pos_iff.mpr h)
    rw [Item.positions, ← hlength]
    refine Odometer.isCycle_range (fun k hk => ?_) ?_
    · exact if_neg (by omega)
    · exact if_pos hlength
  | letters min max step =>
    exact h.1.isCycle (fun idx hend => if_pos hend) fun idx hmore => if_neg hmore
  | numbers min max step width =>
    exact h.1.isCycle (fun idx hend => if_pos hend) fun idx hmore => if_neg hmore

theorem Item.head_positions {item : Item} (h : item.Valid) :
    ∃ rest, item.positions = item.start :: rest := by
  cases item with
  | literal text => exact ⟨[], rfl⟩
  | set elems =>
    obtain ⟨elem, elems, rfl⟩ := List.exists_cons_of_ne_nil h
    exact ⟨_, by rw [positions, List.length_cons, List.range_succ_eq_map, List.map_cons]; rfl⟩
  | letters min max step =>
    exact ⟨_, by rw [positions, rangeOf, List.range_succ_eq_map, List.map_cons, List.map_cons,
      Nat.zero_mul]; rfl⟩
  | numbers min max step width =>
    exact ⟨_, by rw [positions, rangeOf, List.range_succ_eq_map, List.map_cons, List.map_cons,
      Nat.zero_mul]; rfl⟩

theorem Item.map_piece_positions (item : Item) :
    item.positions.map Content.piece = item.choices := by
  cases item with
  | literal text => rfl
  | set elems =>
    rw [positions, choices, List.map_map]
    refine List.ext_getElem (by simp) fun i hi hi' => ?_
    have hlt : i < elems.length := by simpa using hi'
    simp [Content.piece, hlt]
  | letters min max step => rw [positions, choices, List.map_map]; rfl
  | numbers min max step width => rw [positions, choices, List.map_map]; rfl

theorem Item.inRange_start {item : Item} (h : item.Valid) : item.start.InRange := by
  cases item with
  | literal text => exact Nat.one_pos
  | set elems => exact List.length_pos_iff.mpr h
  | letters min max step => exact ⟨Nat.le_refl _, h.1.le, h.2⟩
  | numbers min max step width => exact ⟨Nat.le_refl _, h.1.le, h.2⟩

theorem Content.InRange.next {c : Content} (h : c.InRange) : c.next.1.InRange := by
  cases c with
  | set elem idx =>
    have hlt : idx < elem.length := h
    rw [Content.next]
    split
    · exact Nat.zero_lt_of_lt hlt
    · exact show idx + 1 < elem.length by omega
  | ascii min max letter step =>
    obtain ⟨hmin, hmax, hstep⟩ := h
    rw [Content.next]
    split
    · exact ⟨Nat.le_refl _, hmin.trans hmax, hstep⟩
    · exact ⟨by omega, by omega, hstep⟩
  | num min max idx step npad =>
    obtain ⟨hmin, hmax, hstep⟩ := h
    rw [Content.next]
    split
    · exact ⟨Nat.le_refl _, hmin.trans hmax, hstep⟩
    · exact ⟨by omega, by omega, hstep⟩

/-! ### The calls -/

def contents (pattern : List URLPattern) : List Content := pattern.map (·.c)

theorem carryLoop_contents (pattern : List URLPattern) :
    Odometer.advance Content.next (contents pattern) =
      (contents (carryLoop pattern).1, (carryLoop pattern).2) := by
  induction pattern with
  | nil => rfl
  | cons pat pattern ih =>
    rcases hcarry : carryLoop pattern with ⟨rest, carry⟩
    rw [hcarry] at ih
    rw [contents, List.map_cons, Odometer.advance, carryLoop, hcarry]
    rw [contents] at ih
    rw [ih]
    cases carry <;> rfl

/-- Pieces fit into a buffer in which some bytes are used. -/
def FitsAt (toobig used : Nat) (ps : List Piece) : Prop :=
  (∀ p ∈ ps, p.printed = true → p.text.length < dynAprintf) ∧ (textOf ps).length + used < toobig

theorem fitsAt_cons {toobig used : Nat} {p : Piece} {ps : List Piece} :
    FitsAt toobig used (p :: ps) ↔
      FitsAt toobig used [p] ∧ FitsAt toobig (p.text.length + used) ps := by
  simp only [FitsAt, textOf, List.forall_mem_cons, List.flatMap_cons, List.flatMap_nil,
    List.length_append, List.length_nil]
  constructor
  · rintro ⟨⟨hprinted, hrest⟩, hlength⟩
    exact ⟨⟨⟨hprinted, fun p hp => (List.not_mem_nil hp).elim⟩, by omega⟩, hrest, by omega⟩
  · rintro ⟨⟨⟨hprinted, -⟩, -⟩, hrest, hlength⟩
    exact ⟨⟨hprinted, hrest⟩, by omega⟩

/-- What adding to a buffer does: all of it is added, or the call fails. -/
structure Adds (buf : Dynbuf) (ps : List Piece) (r : Dynbuf × Curlcode) : Prop where
  toobig : r.1.toobig = buf.toobig
  ok : FitsAt buf.toobig buf.content.length ps → r.2 = .ok ∧ r.1.content = buf.content ++ textOf ps
  error : ¬FitsAt buf.toobig buf.content.length ps → r.2 ≠ .ok

theorem adds_nappend (buf : Dynbuf) {p : Piece} (h : p.printed = true →
    p.text.length < dynAprintf) : Adds buf [p] (buf.nappend p.text true) := by
  have htext : textOf [p] = p.text := List.append_nil _
  have hfits : FitsAt buf.toobig buf.content.length [p] ↔
    p.text.length + buf.content.length < buf.toobig := by
    rw [FitsAt, htext, List.forall_mem_singleton, and_iff_right h]
  by_cases hfit : p.text.length + buf.content.length < buf.toobig
  · obtain ⟨hok, hcontent, htoobig⟩ := Dynbuf.nappend_ok (Nat.succ_le_of_lt hfit)
    exact ⟨htoobig, fun _ => ⟨hok, htext.symm ▸ hcontent⟩, fun hnot => (hnot (hfits.mpr hfit)).elim⟩
  · rw [Dynbuf.nappend_error (by omega)]
    exact ⟨rfl, fun hyes => (hfit (hfits.mp hyes)).elim, fun _ hok => nomatch hok⟩

theorem Content.adds (buf : Dynbuf) (c : Content) : Adds buf [c.piece] (c.add buf) := by
  cases c with
  | set elem idx => exact adds_nappend buf fun hprinted => nomatch hprinted
  | ascii min max letter step => exact adds_nappend buf fun hprinted => nomatch hprinted
  | num min max idx step npad =>
    rw [Content.add, dynAddf]
    split
    · rename_i hlong
      refine ⟨rfl, fun hfits => ?_, fun _ hok => nomatch hok⟩
      have hshort : (fmtPadded npad idx).length < dynAprintf := hfits.1 _ List.mem_cons_self rfl
      omega
    · rename_i hshort
      exact @adds_nappend buf ⟨fmtPadded npad idx, true⟩ fun _ => by simp only; omega

/-- The pieces of a URL. -/
def pieces (pattern : List URLPattern) : List Piece := (contents pattern).map Content.piece

theorem addLoop_adds {buf : Dynbuf} (hbuf : buf.content.length < buf.toobig)
    (pattern : List URLPattern) : Adds buf (pieces pattern) (addLoop buf pattern) ∧
      ((addLoop buf pattern).2 = .ok ∨ (addLoop buf pattern).2 = .outOfMemory) := by
  induction pattern generalizing buf with
  | nil =>
    have hfits : FitsAt buf.toobig buf.content.length [] :=
      ⟨fun p hp => (List.not_mem_nil hp).elim, (Nat.zero_add _).symm ▸ hbuf⟩
    exact ⟨⟨rfl, fun _ => ⟨rfl, (List.append_nil _).symm⟩, fun hnot => (hnot hfits).elim⟩, .inl rfl⟩
  | cons pat pattern ih =>
    have hpieces : pieces (pat :: pattern) = pat.c.piece :: pieces pattern := rfl
    obtain ⟨htoobig, hok, herror⟩ := Content.adds buf pat.c
    rcases hcall : pat.c.add buf with ⟨buf1, code⟩
    rw [hcall] at htoobig hok herror
    rw [addLoop, hcall, hpieces]
    by_cases hfirst : FitsAt buf.toobig buf.content.length [pat.c.piece]
    · obtain ⟨rfl : code = .ok, hcontent⟩ := hok hfirst
      replace hcontent : buf1.content = buf.content ++ pat.c.piece.text :=
        hcontent.trans (congrArg _ (List.append_nil _))
      have hlength : buf1.content.length = pat.c.piece.text.length + buf.content.length := by
        rw [hcontent, List.length_append, Nat.add_comm]
      have hroom : buf1.content.length < buf1.toobig := by
        have hfit := hfirst.2
        rw [show textOf [pat.c.piece] = pat.c.piece.text from List.append_nil _, ← hlength] at hfit
        exact htoobig ▸ hfit
      obtain ⟨⟨htoobig', hok', herror'⟩, hcode⟩ := ih hroom
      rw [htoobig, hlength] at hok' herror'
      refine ⟨⟨htoobig'.trans htoobig, fun hfits => ?_, fun hnot => ?_⟩, hcode⟩
      · obtain ⟨hdone, htext⟩ := hok' (fitsAt_cons.mp hfits).2
        refine ⟨hdone, htext.trans ?_⟩
        rw [hcontent, List.append_assoc]
        rfl
      · exact herror' fun hrest => hnot (fitsAt_cons.mpr ⟨hfirst, hrest⟩)
    · have hne : code ≠ .ok := herror hfirst
      cases code with
      | ok => exact (hne rfl).elim
      | _ => exact ⟨⟨htoobig, fun hfits => (hfirst (fitsAt_cons.mp hfits).1).elim,
        fun _ hok => nomatch hok⟩, .inr rfl⟩

/-- What a call gives for the pieces, and what it leaves of the buffer. -/
theorem addLoop_reset {buf : Dynbuf} (h : buf.toobig = maxConfigLineLength)
    (pattern : List URLPattern) :
    ∃ buf' code, addLoop buf.reset pattern = (buf', code) ∧ buf'.toobig = maxConfigLineLength ∧
      (code, if code = .ok then some buf'.content else none) = given (pieces pattern) := by
  have htoobig : buf.reset.toobig = maxConfigLineLength := h
  obtain ⟨⟨hsame, hok, herror⟩, hcode⟩ :=
    @addLoop_adds buf.reset (by rw [htoobig, buf.content_reset]; decide) pattern
  rw [htoobig, buf.content_reset] at hok
  rw [htoobig, buf.content_reset] at herror
  refine ⟨_, _, rfl, hsame.trans htoobig, ?_⟩
  rw [given]
  by_cases hfits : Fits (pieces pattern)
  · obtain ⟨hdone, htext⟩ := hok hfits
    rw [if_pos hfits, hdone, htext, if_pos rfl]
    rfl
  · rw [if_neg hfits, hcode.resolve_left (herror hfits)]
    rfl

/-- What a call gives for a position of the counter. -/
def answer (step : List Content × Bool) : Curlcode × Option Bytes :=
  if step.2 then (.ok, none) else given (step.1.map Content.piece)

/-- A call steps the counter unless it is the first one. -/
theorem globNextUrl_spec {glob : URLGlob} (h : glob.buf.toobig = maxConfigLineLength)
    {step : List Content × Bool}
    (hstep : step = if glob.beenhere then Odometer.advance Content.next (contents glob.pattern)
      else (contents glob.pattern, false)) :
    (globNextUrl glob).2 = answer step ∧ contents (globNextUrl glob).1.pattern = step.1 ∧
      (globNextUrl glob).1.beenhere = true ∧
      (globNextUrl glob).1.buf.toobig = maxConfigLineLength := by
  have hpattern : ∃ pattern carry,
    (if glob.beenhere then carryLoop glob.pattern else (glob.pattern, false)) =
      (pattern, carry) ∧ step = (contents pattern, carry) := by
    rw [carryLoop_contents] at hstep
    cases hbeen : glob.beenhere with
    | true =>
      rw [hbeen] at hstep
      exact ⟨_, _, rfl, hstep⟩
    | false =>
      rw [hbeen] at hstep
      exact ⟨_, _, rfl, hstep⟩
  obtain ⟨pattern, carry, hcall, rfl⟩ := hpattern
  obtain ⟨buf', code, hadd, htoobig, hgiven⟩ := addLoop_reset h pattern
  simp only [globNextUrl, hcall]
  cases carry with
  | true => exact ⟨rfl, rfl, rfl, h⟩
  | false =>
    simp only [Bool.false_eq_true, if_false, hadd, answer]
    rw [show (contents pattern).map Content.piece = pieces pattern from rfl, ← hgiven]
    cases code with
    | ok => exact ⟨rfl, rfl, rfl, htoobig⟩
    | _ => exact ⟨rfl, rfl, rfl, htoobig⟩

/-- The calls follow the counter. -/
theorem calls_trace {glob : URLGlob} (n : Nat) (h : glob.buf.toobig = maxConfigLineLength)
    (hbeen : glob.beenhere = true) :
    (calls n glob).2 =
      (Odometer.trace (Odometer.advance Content.next) n (contents glob.pattern)).map answer := by
  induction n generalizing glob with
  | zero => rfl
  | succ n ih =>
    obtain ⟨hgiven, hcontents, hbeen', htoobig⟩ := @globNextUrl_spec glob h _ rfl
    rw [hbeen, if_pos rfl] at hgiven hcontents
    rw [Odometer.trace, List.map_cons, ← hcontents, ← ih htoobig hbeen', ← hgiven]
    rfl

theorem product_positions (items : List Item) (h : ∀ item ∈ items, item.Valid) :
    ∃ rest, Odometer.product (items.map Item.positions) = items.map Item.start :: rest := by
  induction items with
  | nil => exact ⟨[], rfl⟩
  | cons item items ih =>
    obtain ⟨rest, hrest⟩ := ih fun x hx => h x (List.mem_cons_of_mem _ hx)
    obtain ⟨tail, htail⟩ := Item.head_positions (h item List.mem_cons_self)
    rw [List.map_cons, Odometer.product, hrest, htail, List.flatMap_cons]
    exact ⟨_, rfl⟩

theorem map_piece_product (items : List Item) :
    (Odometer.product (items.map Item.positions)).map (List.map Content.piece) =
      combinations items := by
  rw [Odometer.map_product, List.map_map, combinations]
  congr 1
  exact List.map_congr_left fun item _ => item.map_piece_positions

/-- A glob that was not used yet gives all combinations of its parts and then ends. -/
theorem calls_combinations {glob : URLGlob} {items : List Item} (h : Idle glob)
    (hstart : contents glob.pattern = items.map Item.start) (hvalid : ∀ item ∈ items, item.Valid) :
    (calls ((combinations items).length + 1) glob).2 =
      (combinations items).map given ++ [(.ok, none)] := by
  obtain ⟨rest, hproduct⟩ := product_positions items hvalid
  obtain ⟨w, ws, hcycle,
    hturns⟩ := @Odometer.isCycle_product _ Content.next (items.map Item.positions) (by
      intro ws hws
      obtain ⟨item, hitem, rfl⟩ := List.mem_map.mp hws
      exact Item.isCycle_positions (hvalid item hitem))
  rw [hproduct] at hcycle
  obtain ⟨rfl, rfl⟩ := List.cons.inj hcycle
  rw [hproduct] at hturns
  obtain ⟨hgiven, hcontents, hbeen, htoobig⟩ := @globNextUrl_spec glob h.toobig _ rfl
  rw [h.beenhere] at hgiven hcontents
  rw [← map_piece_product, hproduct, List.length_map, List.length_cons, calls]
  simp only
  rw [calls_trace _ htoobig hbeen, hcontents, hgiven]
  simp only [Bool.false_eq_true, if_false, hstart]
  rw [hturns.trace_eq, List.map_append, List.map_map, List.map_cons, List.map_map, List.map_cons]
  rfl

/-! ### No position overflows -/

theorem carryLoop_inRange {pattern : List URLPattern} (h : ∀ c ∈ contents pattern, c.InRange) :
    ∀ c ∈ contents (carryLoop pattern).1, c.InRange := by
  induction pattern with
  | nil => exact h
  | cons pat pattern ih =>
    obtain ⟨hpat, hpattern⟩ := List.forall_mem_cons.mp h
    rcases hcarry : carryLoop pattern with ⟨rest, carry⟩
    have hrest := ih hpattern
    rw [hcarry] at hrest
    rw [carryLoop, hcarry]
    cases carry with
    | true => exact List.forall_mem_cons.mpr ⟨hpat.next, hrest⟩
    | false => exact List.forall_mem_cons.mpr ⟨hpat, hrest⟩

theorem globNextUrl_inRange {glob : URLGlob} (h : ∀ c ∈ contents glob.pattern, c.InRange) :
    ∀ c ∈ contents (globNextUrl glob).1.pattern, c.InRange := by
  have hpattern : (globNextUrl glob).1.pattern =
      (if glob.beenhere then carryLoop glob.pattern else (glob.pattern, false)).1 := by
    rcases hstep : (if glob.beenhere then carryLoop glob.pattern else (glob.pattern, false)) with
      ⟨pattern, carry⟩
    simp only [globNextUrl, hstep]
    cases carry with
    | true => rfl
    | false =>
      simp only [Bool.false_eq_true, if_false]
      rcases addLoop glob.buf.reset pattern with ⟨buf, code⟩
      cases code <;> rfl
  rw [hpattern]
  split
  · exact carryLoop_inRange h
  · exact h

theorem calls_inRange {glob : URLGlob} (n : Nat) (h : ∀ c ∈ contents glob.pattern, c.InRange) :
    ∀ c ∈ contents (calls n glob).1.pattern, c.InRange := by
  induction n generalizing glob with
  | zero => exact h
  | succ n ih => exact ih (globNextUrl_inRange h)

/-! The URLs that a pattern stands for, from `glob_url` to the last call of `glob_next_url`. -/

/-! ### Escaped braces and brackets -/

/-- Each brace and bracket has a backslash before it. -/
def Escaped (s : Bytes) : Prop :=
  ∀ i c, s[i]? = some c → isSpecial c = true → ∃ j, i = j + 1 ∧ s[j]? = some 92

/-- The string without the backslashes before braces and brackets. -/
def unescape : Bytes → Bytes
  | [] => []
  | c :: s =>
    match s with
    | d :: rest => if c = 92 ∧ isSpecial d then d :: unescape rest else c :: unescape (d :: rest)
    | [] => [c]

theorem Escaped.head {c : UInt8} {s : Bytes} (h : Escaped (c :: s)) : isSpecial c = false := by
  by_contra hc
  obtain ⟨j, hj, -⟩ := h 0 c rfl (by simpa using hc)
  cases hj

theorem Escaped.tail {c : UInt8} {s : Bytes} (h : Escaped (c :: s))
    (hhead : ∀ d ∈ s.head?, isSpecial d = false) : Escaped s := by
  intro i d hd hspecial
  cases i with
  | zero =>
    rw [← List.head?_eq_getElem?] at hd
    rw [hhead d hd] at hspecial
    cases hspecial
  | succ i =>
    obtain ⟨j, hj, hbackslash⟩ := h (i + 2) d hd hspecial
    obtain rfl : j = i + 1 := by omega
    exact ⟨i, rfl, hbackslash⟩

/-- Behind a byte that is escaped. -/
theorem Escaped.behind {c d : UInt8} {s : Bytes} (h : Escaped (c :: d :: s))
    (hd : isSpecial d = true) : Escaped s := by
  intro i e he hspecial
  obtain ⟨j, hj, hbackslash⟩ := h (i + 2) e he hspecial
  obtain rfl : j = i + 1 := by omega
  cases i with
  | zero =>
    obtain rfl : d = 92 := Option.some.inj hbackslash
    cases hd
  | succ i => exact ⟨i, rfl, hbackslash⟩

theorem not_special {c : UInt8} (h : isSpecial c = false) :
    c ≠ 123 ∧ c ≠ 91 ∧ ¬(c = 125 ∨ c = 93) := by
  simp only [isSpecial, Bool.or_eq_false_iff, beq_eq_false_iff_ne] at h
  exact ⟨h.1.1.1, h.1.1.2, not_or.mpr ⟨h.1.2, h.2⟩⟩

theorem dynAddn_fits {buf : Dynbuf} {mem : Bytes}
    (h : mem.length + buf.content.length + 1 ≤ buf.toobig) :
    ∃ buf', dynAddn buf mem = .ok buf' ∧ buf'.content = buf.content ++ mem ∧
      buf'.toobig = buf.toobig := by
  obtain ⟨hok, hcontent, htoobig⟩ := Dynbuf.nappend_ok h
  rcases hcall : buf.nappend mem true with ⟨buf', code⟩
  rw [hcall] at hok hcontent htoobig
  obtain rfl : code = .ok := hok
  exact ⟨buf', by rw [dynAddn, hcall], hcontent, htoobig⟩

/-- A string whose braces and brackets are escaped is a literal. -/
theorem literalLoop_escaped {env : Env} {s : Bytes} {pos : Nat} {buf : Dynbuf} (h : Escaped s)
    (hfit : (unescape s).length + buf.content.length + 1 ≤ buf.toobig) :
    ∃ pos' buf', literalLoop env 0 s pos buf = .ok ([], pos', buf') ∧
      buf'.content = buf.content ++ unescape s ∧ buf'.toobig = buf.toobig := by
  fun_induction unescape s generalizing pos buf with
  | case1 => exact ⟨pos, buf, rfl, (List.append_nil _).symm, rfl⟩
  | case2 c d rest hescape ih =>
    obtain ⟨hopen, hopen', hclose⟩ := not_special h.head
    rw [List.length_cons] at hfit
    obtain ⟨buf1, hadd, hcontent, htoobig⟩ :=
      @dynAddn_fits buf [d] (by rw [List.length_singleton]; omega)
    obtain ⟨pos', buf', hcall, hcontent', htoobig'⟩ := @ih (pos + 2) buf1 (h.behind hescape.2)
      (by rw [hcontent, htoobig, List.length_append, List.length_singleton]; omega)
    refine ⟨pos', buf', ?_, ?_, htoobig'.trans htoobig⟩
    · rw [literalLoop, if_neg hopen, if_neg hopen', if_neg hclose, if_pos hescape, hadd]
      exact hcall
    · rw [hcontent', hcontent, List.append_assoc]
      rfl
  | case3 c d rest hescape ih =>
    obtain ⟨hopen, hopen', hclose⟩ := not_special h.head
    have hd : isSpecial d = false := by
      by_contra hd
      have hd : isSpecial d = true := by simpa using hd
      obtain ⟨j, hj, hbackslash⟩ := h 1 d rfl hd
      obtain rfl : j = 0 := by omega
      exact hescape ⟨Option.some.inj hbackslash, hd⟩
    rw [List.length_cons] at hfit
    obtain ⟨buf1, hadd, hcontent, htoobig⟩ :=
      @dynAddn_fits buf [c] (by rw [List.length_singleton]; omega)
    obtain ⟨pos', buf', hcall, hcontent', htoobig'⟩ := @ih (pos + 1) buf1
      (h.tail fun x hx => by obtain rfl : d = x := Option.some.inj hx; exact hd)
      (by rw [hcontent, htoobig, List.length_append, List.length_singleton]; omega)
    refine ⟨pos', buf', ?_, ?_, htoobig'.trans htoobig⟩
    · rw [literalLoop, if_neg hopen, if_neg hopen', if_neg hclose, if_neg hescape, hadd]
      exact hcall
    · rw [hcontent', hcontent, List.append_assoc]
      rfl
  | case4 c =>
    obtain ⟨hopen, hopen', hclose⟩ := not_special h.head
    obtain ⟨buf1, hadd, hcontent, htoobig⟩ := @dynAddn_fits buf [c] hfit
    refine ⟨pos + 1, buf1, ?_, hcontent, htoobig⟩
    rw [literalLoop, if_neg hopen, if_neg hopen', if_neg hclose, hadd]

theorem unescape_ne_nil {s : Bytes} (h : s ≠ []) : unescape s ≠ [] := by
  fun_cases unescape s with
  | case1 => exact (h rfl).elim
  | case2 => exact List.cons_ne_nil _ _
  | case3 => exact List.cons_ne_nil _ _
  | case4 => exact List.cons_ne_nil _ _

/-- The glob before anything is read. -/
def freshGlob : URLGlob := ⟨.init maxConfigLineLength, [], 2, false⟩

theorem idle_freshGlob : Idle freshGlob := ⟨rfl, rfl, rfl⟩

/-- `glob_url` makes one literal of it. -/
theorem globUrl_escaped {env : Env} {s : Bytes} (h : Escaped s)
    (hfit : (unescape s).length < maxConfigLineLength) :
    ∃ glob items, globUrl env s = some (.ok (glob, 1)) ∧ Idle glob ∧
      contents glob.pattern = items.map Item.start ∧ (∀ item ∈ items, item.Valid) ∧
      combinations items = [items.map fun _ => ⟨unescape s, false⟩] ∧
      textOf (items.map fun _ => ⟨unescape s, false⟩) = unescape s := by
  by_cases hs : s = []
  · subst hs
    exact ⟨freshGlob, [], rfl, idle_freshGlob, rfl, fun item hitem => (List.not_mem_nil hitem).elim,
      rfl, rfl⟩
  obtain ⟨pos', buf', hcall, hcontent, htoobig⟩ := @literalLoop_escaped env s 1 freshGlob.buf h hfit
  have hcontent : buf'.content = unescape s := hcontent
  have hne : buf'.content ≠ [] := hcontent ▸ unescape_ne_nil hs
  refine ⟨⟨buf'.reset, [⟨none, none, .set [unescape s] 0⟩], 2, false⟩, [.literal (unescape s)], ?_,
    ⟨buf'.content_reset, htoobig, rfl⟩, rfl, ?_, rfl, List.append_nil _⟩
  · obtain ⟨c, t, rfl⟩ := List.exists_cons_of_ne_nil hs
    have hparse : globParseLoop env (c :: t) ((c :: t).length + 1) freshGlob (c :: t) 1 1 0 =
        globParseLoop env (c :: t) (c :: t).length
          ⟨buf'.reset, [⟨none, none, .set [buf'.content] 0⟩], 2, false⟩ [] pos' 1 0 := by
      rw [globParseLoop, if_neg hs, hcall]
      simp only [if_pos hne]
      rfl
    rw [globUrl]
    refine hparse.trans ?_
    rw [hcontent, List.length_cons, globParseLoop, if_pos rfl]
  · intro item hitem
    obtain rfl := List.mem_singleton.mp hitem
    exact trivial

/-! ### The main result -/

/-- `glob_url` always ends. The pattern it accepts is a sequence of literals and expressions, and it
tells the number of their combinations; that many calls of `glob_next_url` give the combinations in
their order, a call whose URL is too long for the buffers fails alone, and the next call gives none.
No position ever leaves its range. A string whose braces and brackets are all escaped stands for
itself without the backslashes. -/
theorem glob_url_combinations (env : Env) (url : Bytes) :
    (∃ r, globUrl env url = some r) ∧
    (∀ glob n, globUrl env url = some (.ok (glob, n)) →
      (∃ items, Reads env url items ∧ n = (combinations items).length ∧ n ≤ curlOffTMax ∧
        (calls (n + 1) glob).2 = (combinations items).map given ++ [(.ok, none)]) ∧
      ∀ k, ∀ pat ∈ (calls k glob).1.pattern, pat.c.InRange) ∧
    (Escaped url → (unescape url).length < maxConfigLineLength →
      ∃ glob, globUrl env url = some (.ok (glob, 1)) ∧
        (calls 2 glob).2 = [(.ok, some (unescape url)), (.ok, none)]) := by
  obtain ⟨r, hcall, hspec⟩ :=
    @globParseLoop_spec env url url (url.length + 1) freshGlob 1 1 0 idle_freshGlob
      (by omega) (by decide)
  refine ⟨⟨r, hcall⟩, fun glob n hok => ?_, fun hescaped hfit => ?_⟩
  · obtain ⟨items, hparsed⟩ := hspec glob n (Option.some.inj (hcall.symm.trans hok))
    have hstart : contents glob.pattern = items.map Item.start := hparsed.start
    have hvalid := hparsed.reads.valid
    have hcount : n = (combinations items).length := by
      rw [hparsed.count, Nat.one_mul, combinations, Odometer.length_product, List.map_map]
      rfl
    refine ⟨⟨items, hparsed.reads, hcount, hparsed.count_le, ?_⟩, fun k pat hpat => ?_⟩
    · rw [hcount]
      exact calls_combinations hparsed.idle hstart hvalid
    · refine calls_inRange k (fun c hc => ?_) pat.c (List.mem_map_of_mem hpat)
      rw [hstart] at hc
      obtain ⟨item, hitem, rfl⟩ := List.mem_map.mp hc
      exact Item.inRange_start (hvalid item hitem)
  · obtain ⟨glob, items, hurl, hidle, hstart, hvalid, hone, htext⟩ :=
      @globUrl_escaped env url hescaped hfit
    refine ⟨glob, hurl, ?_⟩
    have hcalls := calls_combinations hidle hstart hvalid
    have hfits : Fits (items.map fun _ => ⟨unescape url, false⟩) := by
      refine ⟨fun p hp hprinted => ?_, by rw [htext]; exact hfit⟩
      obtain ⟨item, -, rfl⟩ := List.mem_map.mp hp
      cases hprinted
    rw [hone, List.map_singleton, given, if_pos hfits, htext] at hcalls
    exact hcalls

/-- `x[1-5:2]` and a set of `a` and `b`. -/
def rangeAndSet : Bytes := [120, 91, 49, 45, 53, 58, 50, 93, 123, 97, 44, 98, 125]

/-- A pattern with a range in steps of two and a set, and one with an escaped brace. -/
theorem glob_url_combinations_set :
    (∃ glob items, globUrl ⟨true, fun _ => false⟩ rangeAndSet = some (.ok (glob, 6)) ∧
      Reads ⟨true, fun _ => false⟩ rangeAndSet items ∧ 6 = (combinations items).length ∧
      (calls 7 glob).2 = (combinations items).map given ++ [(.ok, none)]) ∧
    ∃ glob, globUrl ⟨true, fun _ => false⟩ [92, 123] = some (.ok (glob, 1)) ∧
      (calls 2 glob).2 = [(.ok, some [123]), (.ok, none)] := by
  constructor
  · have hmap : (globUrl ⟨true, fun _ => false⟩ rangeAndSet).map
      (fun r => r.toOption.map Prod.snd) =
        some (some 6) := by decide +kernel
    obtain ⟨_ | ⟨glob, _⟩, hglob, hsix⟩ := Option.map_eq_some_iff.mp hmap
    · cases hsix
    cases hsix
    obtain ⟨⟨items, hreads, hcount, -, hcalls⟩, -⟩ :=
      (glob_url_combinations ⟨true, fun _ => false⟩ rangeAndSet).2.1 glob 6 hglob
    exact ⟨glob, items, hglob, hreads, hcount, hcalls⟩
  · refine (glob_url_combinations ⟨true, fun _ => false⟩ [92, 123]).2.2
      (fun i c hc hspecial => ?_) (by decide)
    match i with
    | 0 =>
      obtain rfl : 92 = c := Option.some.inj hc
      cases hspecial
    | 1 => exact ⟨0, rfl, rfl⟩

/-! ### The limit -/

theorem literalLoop_long {env : Env} {n pos : Nat} {buf : Dynbuf}
    (hbuf : buf.content.length < buf.toobig) (h : n + buf.content.length ≥ buf.toobig) :
    literalLoop env 0 (List.replicate n 97) pos buf = .error ⟨.outOfMemory, none, 0⟩ := by
  induction n generalizing pos buf with
  | zero => omega
  | succ n ih =>
    by_cases hfit : buf.content.length + 2 ≤ buf.toobig
    · obtain ⟨buf', hadd, hcontent, htoobig⟩ :=
        @dynAddn_fits buf [97] (by rw [List.length_singleton]; omega)
      have hlength : buf'.content.length = buf.content.length + 1 := by
        rw [hcontent, List.length_append, List.length_singleton]
      have hrest := @ih (pos + 1) buf' (by omega) (by omega)
      cases n with
      | zero => omega
      | succ n =>
        rw [List.replicate_succ, List.replicate_succ, literalLoop, if_neg (by decide),
          if_neg (by decide), if_neg (by decide), if_neg (by decide), hadd]
        exact hrest
    · have hadd : dynAddn buf [97] = .error ⟨.outOfMemory, none, 0⟩ := by
        rw [dynAddn, Dynbuf.nappend_error (by rw [List.length_singleton]; omega)]
      cases n with
      | zero =>
        rw [List.replicate_succ, List.replicate_zero, literalLoop, if_neg (by decide),
          if_neg (by decide), if_neg (by decide), hadd]
      | succ n =>
        rw [List.replicate_succ, List.replicate_succ, literalLoop, if_neg (by decide),
          if_neg (by decide), if_neg (by decide), if_neg (by decide), hadd]

theorem escaped_replicate (n : Nat) : Escaped (List.replicate n 97) := by
  intro i c hc hspecial
  obtain rfl := List.eq_of_mem_replicate (List.mem_of_getElem? hc)
  cases hspecial

theorem globUrl_long {env : Env} {n : Nat} (h : n ≥ maxConfigLineLength) :
    globUrl env (List.replicate n 97) = some (.error ⟨.outOfMemory, none, 0⟩) := by
  have hne : List.replicate n (97 : UInt8) ≠ [] := by
    rw [Ne, List.replicate_eq_nil_iff]
    intro hzero
    rw [hzero] at h
    exact absurd h (by decide)
  rw [globUrl, globParseLoop, if_neg hne, literalLoop_long]
  · exact show 0 < maxConfigLineLength by decide
  · exact h

/-- A string without a brace or bracket that is as long as the buffer is not taken. -/
theorem long_literal_rejected :
    Escaped (List.replicate maxConfigLineLength 97) ∧
      globUrl ⟨true, fun _ => false⟩ (List.replicate maxConfigLineLength 97) =
        some (.error ⟨.outOfMemory, none, 0⟩) :=
  ⟨escaped_replicate maxConfigLineLength, globUrl_long (Nat.le_refl _)⟩

end Gurl.Urlglob
