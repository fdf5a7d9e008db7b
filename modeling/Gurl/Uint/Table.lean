import Gurl.Uint.Spbset

/-! uint-table.c: tables that give out keys for their entries. -/

namespace Gurl.Uint

open Enumerate

variable {α : Type*}

/-- `uint32_tbl`; `nrows` is the length of `rows`. -/
structure Tbl (α : Type*) where
  rows : List (Option α)
  nentries : Nat
  lastKeyAdded : Nat

namespace Tbl

/-- `Curl_uint32_tbl_init`. -/
def init : Tbl α where
  rows := []
  nentries := 0
  lastKeyAdded := UINT32_MAX

/-- The loop over `n` rows from row `i` on, and what the destructor gets, if there is one. -/
def clearLoop : Nat → Nat → Tbl α → Tbl α × List (Nat × α)
  | 0, _, tbl => (tbl, [])
  | n + 1, i, tbl =>
    match tbl.rows[i]? with
    | some (some entry) =>
      let r := clearLoop n (i + 1)
        ⟨tbl.rows.set i none, (tbl.nentries + (2 ^ 32 - 1)) % 2 ^ 32, tbl.lastKeyAdded⟩
      (r.1, (i, entry) :: r.2)
    | _ => clearLoop n (i + 1) tbl

def clearRows (tbl : Tbl α) (start uptoExcluding : Nat) : Tbl α × List (Nat × α) :=
  clearLoop (min uptoExcluding tbl.rows.length - start) start tbl

/-- `granted` is whether calloc has memory for the rows. -/
def resize (tbl : Tbl α) (nrows : Nat) (granted : Bool) : Curlcode × Tbl α :=
  if nrows = 0 then (.badFunctionArgument, tbl)
  else if nrows ≠ tbl.rows.length then
    if granted then
      let rows := tbl.rows.take nrows
      let rows := rows ++ List.replicate (nrows - rows.length) none
      let tbl :=
        if nrows < tbl.rows.length then (tbl.clearRows nrows tbl.rows.length).1 else tbl
      (.ok, { tbl with rows := rows })
    else (.outOfMemory, tbl)
  else (.ok, tbl)

def clear (tbl : Tbl α) : Tbl α :=
  { (tbl.clearRows 0 tbl.rows.length).1 with lastKeyAdded := UINT32_MAX }

def get (tbl : Tbl α) (key : Nat) : Option α :=
  if key < tbl.rows.length then tbl.rows.getD key none else none

/-- The loop over `n` rows from row `key` on, until one is free; `none` when it reads a row that the
table does not have. -/
def freeFrom (rows : List (Option α)) : Nat → Nat → Option (Option Nat)
  | 0, _ => some none
  | n + 1, key =>
    match rows[key]? with
    | none => none
    | some none => some (some key)
    | some (some _) => freeFrom rows n (key + 1)

/-- Put an entry into a free row. -/
def put (tbl : Tbl α) (key : Nat) (entry : α) : Tbl α where
  rows := tbl.rows.set key (some entry)
  nentries := (tbl.nentries + 1) % 2 ^ 32
  lastKeyAdded := key

/-- The search for a free row behind the last key added, and from 0 on when there is none. -/
def freeKey (tbl : Tbl α) : Option (Option Nat) :=
  let startPos := (min tbl.lastKeyAdded tbl.rows.length + 1) % 2 ^ 32
  match freeFrom tbl.rows (tbl.rows.length - startPos) startPos with
  | some none => freeFrom tbl.rows startPos 0
  | found => found

/-- What is returned with the table, and what `*pkey` becomes; `none` when a row is read that the
table does not have. -/
def add (tbl : Tbl α) (entry : Option α) : Option (Tbl α × Bool × Option Nat) :=
  match entry with
  | none => some (tbl, false, none)
  | some entry =>
    if tbl.nentries = tbl.rows.length then some (tbl, false, some UINT32_MAX)
    else
      match tbl.freeKey with
      | none => none
      | some (some key) => some (tbl.put key entry, true, some key)
      | some none => some (tbl, false, some UINT32_MAX)

def remove (tbl : Tbl α) (key : Nat) : Tbl α :=
  (tbl.clearRows key ((key + 1) % 2 ^ 32)).1

/-- The loop of `uint32_tbl_next_at` over the rows from row `key` on. -/
def nextAt : Nat → List (Option α) → Option (Nat × α)
  | _, [] => none
  | key, none :: rest => nextAt (key + 1) rest
  | key, some entry :: _ => some (key, entry)

def first (tbl : Tbl α) : Option (Nat × α) :=
  if tbl.nentries ≠ 0 then nextAt 0 tbl.rows else none

def next (tbl : Tbl α) (lastKey : Nat) : Option (Nat × α) :=
  let key := (lastKey + 1) % 2 ^ 32
  nextAt key (tbl.rows.drop key)

/-! ### The table that it stands for -/

/-- The calls; an entry of `add` may be NULL. -/
inductive Op (α : Type*) where
  | resize (nrows : UInt32) (granted : Bool)
  | add (entry : Option α)
  | remove (key : UInt32)
  | clear

inductive Answer where
  | code (result : Curlcode)
  | added (r : Bool × Option Nat)
  | done

def step (tbl : Tbl α) : Op α → Option (Tbl α × Answer)
  | .resize nrows granted =>
    let r := tbl.resize nrows.toNat granted
    some (r.2, .code r.1)
  | .add entry => (tbl.add entry).map fun r => (r.1, .added r.2)
  | .remove key => some (tbl.remove key.toNat, .done)
  | .clear => some (tbl.clear, .done)

end Tbl

/-- Entries at keys below a size, with the last key that has been given out since the table was
cleared. -/
structure Keys (α : Type*) where
  size : Nat
  entry : Nat → Option α
  last : Option Nat

namespace Keys

def occupied (x : Keys α) : Finset Nat := (Finset.range x.size).filter fun k => (x.entry k).isSome

/-- After how many keys it is the turn of key `k`, going round from the last key given out. -/
def turn (x : Keys α) (k : Nat) : Nat :=
  match x.last with
  | some last => if last < x.size then if last < k then k - last else k + x.size - last else k
  | none => k

/-- What may be answered, and what becomes of the table. -/
def Allows (x : Keys α) : Tbl.Op α → Tbl.Answer → Keys α → Prop
  | .resize nrows granted, .code result, y =>
    if nrows.toNat = 0 then result = .badFunctionArgument ∧ y = x
    else if nrows.toNat = x.size then result = .ok ∧ y = x
    else if granted then
      result = .ok ∧
        y = ⟨nrows.toNat, fun k => if k < nrows.toNat then x.entry k else none, x.last⟩
    else result = .outOfMemory ∧ y = x
  | .add none, .added r, y => r = (false, none) ∧ y = x
  | .add (some entry), .added r, y =>
    if x.occupied.card < x.size then
      ∃ key < x.size, x.entry key = none ∧
        (∀ k < x.size, x.entry k = none → x.turn key ≤ x.turn k) ∧
        r = (true, some key) ∧
        y = ⟨x.size, Function.update x.entry key (some entry), some key⟩
    else r = (false, some UINT32_MAX) ∧ y = x
  | .remove key, .done, y => y = { x with entry := Function.update x.entry key.toNat none }
  | .clear, .done, y => y = ⟨x.size, fun _ => none, none⟩
  | _, _, _ => False

end Keys

/-- The keys of the rows with an entry. -/
def occupiedRows (rows : List (Option α)) : Finset Nat :=
  (Finset.range rows.length).filter fun k => (rows.getD k none).isSome

/-- A table that counts its entries. -/
structure Tbl.Counted (tbl : Tbl α) : Prop where
  small : tbl.rows.length ≤ UINT32_MAX
  count : tbl.nentries = (occupiedRows tbl.rows).card

/-- The table has the entries, counts them, and knows the last key. -/
structure Tbl.Holds (tbl : Tbl α) (x : Keys α) : Prop where
  counted : tbl.Counted
  size : x.size = tbl.rows.length
  entry : ∀ k, x.entry k = tbl.rows.getD k none
  last : tbl.lastKeyAdded = x.last.getD UINT32_MAX
  last_lt : ∀ k ∈ x.last, k < UINT32_MAX

end Gurl.Uint

/-! The table counts its entries, and finds a free row for the next one. -/

namespace Gurl.Uint.Tbl

open Enumerate

variable {α : Type*} {tbl : Tbl α} {x : Keys α} {rows : List (Option α)} {i k n key : Nat}

/-! ### Rows -/

theorem mem_occupiedRows : k ∈ occupiedRows rows ↔ (rows.getD k none).isSome = true := by
  unfold occupiedRows
  rw [Finset.mem_filter, Finset.mem_range]
  refine and_iff_right_of_imp fun h => ?_
  by_contra hge
  rw [List.getD_eq_getElem?_getD, List.getElem?_eq_none (not_lt.mp hge)] at h
  exact Bool.noConfusion h

theorem occupiedRows_congr {rows' : List (Option α)}
    (h : ∀ k, rows'.getD k none = rows.getD k none) : occupiedRows rows' = occupiedRows rows := by
  ext k
  rw [mem_occupiedRows, mem_occupiedRows, h]

theorem getD_outside (hk : rows.length ≤ k) : rows.getD k none = none := by
  rw [List.getD_eq_getElem?_getD, List.getElem?_eq_none hk]
  rfl

theorem getD_set (hi : i < rows.length) (a : Option α) (k : Nat) :
    (rows.set i a).getD k none = Function.update (fun k => rows.getD k none) i a k := by
  simp only [List.getD_eq_getElem?_getD, List.getElem?_set, Function.update_apply]
  by_cases hk : k = i
  · subst hk
    simp [hi]
  · rw [if_neg (fun h => hk h.symm), if_neg hk]

theorem occupiedRows_set_none (hi : i < rows.length) :
    occupiedRows (rows.set i none) = (occupiedRows rows).erase i := by
  ext k
  rw [mem_occupiedRows, Finset.mem_erase, mem_occupiedRows, getD_set hi, Function.update_apply]
  split_ifs with hk <;> simp [hk]

theorem occupiedRows_set_some (hi : i < rows.length) (entry : α) :
    occupiedRows (rows.set i (some entry)) = insert i (occupiedRows rows) := by
  ext k
  rw [mem_occupiedRows, Finset.mem_insert, mem_occupiedRows, getD_set hi, Function.update_apply]
  split_ifs with hk <;> simp [hk]

theorem card_occupiedRows_le (rows : List (Option α)) :
    (occupiedRows rows).card ≤ rows.length :=
  (Finset.card_filter_le _ _).trans_eq (Finset.card_range _)

/-! ### Clearing -/

/-- What the loop leaves behind. -/
theorem clearLoop_spec (h : tbl.Counted) (n i : Nat) (hin : i + n ≤ tbl.rows.length) :
    (Tbl.clearLoop n i tbl).1.Counted ∧
      (Tbl.clearLoop n i tbl).1.rows.length = tbl.rows.length ∧
      (Tbl.clearLoop n i tbl).1.lastKeyAdded = tbl.lastKeyAdded ∧
      ∀ k, (Tbl.clearLoop n i tbl).1.rows.getD k none
        = if i ≤ k ∧ k < i + n then none else tbl.rows.getD k none := by
  have hmax : UINT32_MAX = 4294967295 := rfl
  induction n generalizing i tbl with
  | zero =>
    refine ⟨h, rfl, rfl, fun k => ?_⟩
    rw [if_neg (by omega)]
    rfl
  | succ n ih =>
    have hi : i < tbl.rows.length := by omega
    unfold Tbl.clearLoop
    rw [List.getElem?_eq_getElem hi]
    cases hrow : tbl.rows[i] with
    | none =>
      obtain ⟨hcounted, hlen, hlast, hrows⟩ := ih h (i + 1) (by omega)
      refine ⟨hcounted, hlen, hlast, fun k => (hrows k).trans ?_⟩
      by_cases hk : k = i
      · subst hk
        rw [if_neg (by omega), if_pos (by omega)]
        simp [hi, hrow]
      · exact if_congr (by omega) rfl rfl
    | some entry =>
      have hmem : i ∈ occupiedRows tbl.rows := by
        rw [mem_occupiedRows]
        simp [hi, hrow]
      have hpos := Finset.card_pos.mpr ⟨i, hmem⟩
      have hle := card_occupiedRows_le tbl.rows
      have hcount := h.count
      have hsmall := h.small
      have hone : Tbl.Counted ⟨tbl.rows.set i none, (tbl.nentries + (2 ^ 32 - 1)) % 2 ^ 32,
          tbl.lastKeyAdded⟩ := by
        refine ⟨by simpa using hsmall, ?_⟩
        dsimp only
        rw [occupiedRows_set_none hi, Finset.card_erase_of_mem hmem]
        omega
      obtain ⟨hcounted, hlen, hlast, hrows⟩ := ih hone (i + 1) (by rw [List.length_set]; omega)
      refine ⟨hcounted, by rw [hlen, List.length_set], hlast, fun k => (hrows k).trans ?_⟩
      dsimp only
      rw [getD_set hi, Function.update_apply]
      by_cases hk : k = i
      · rw [if_neg (by omega), if_pos hk, if_pos (by omega)]
      · rw [if_neg hk]
        exact if_congr (by omega) rfl rfl

/-- A range of keys loses its entries, the others keep theirs. -/
theorem clearRows_spec (h : tbl.Counted) (start upto : Nat) :
    (tbl.clearRows start upto).1.Counted ∧
      (tbl.clearRows start upto).1.rows.length = tbl.rows.length ∧
      (tbl.clearRows start upto).1.lastKeyAdded = tbl.lastKeyAdded ∧
      ∀ k, (tbl.clearRows start upto).1.rows.getD k none
        = if start ≤ k ∧ k < upto then none else tbl.rows.getD k none := by
  unfold Tbl.clearRows
  by_cases hstart : start < min upto tbl.rows.length
  · obtain ⟨hcounted, hlen, hlast, hrows⟩ :=
      clearLoop_spec h (min upto tbl.rows.length - start) start (by omega)
    refine ⟨hcounted, hlen, hlast, fun k => (hrows k).trans ?_⟩
    by_cases hk : k < tbl.rows.length
    · exact if_congr (by omega) rfl rfl
    · rw [getD_outside (not_lt.mp hk), ite_self, ite_self]
  · rw [show min upto tbl.rows.length - start = 0 by omega]
    refine ⟨h, rfl, rfl, fun k => ?_⟩
    by_cases hk : k < tbl.rows.length
    · rw [if_neg (by omega)]
      rfl
    · rw [getD_outside (not_lt.mp hk), ite_self]
      exact getD_outside (not_lt.mp hk)

/-! ### The search for a free row -/

/-- What the loop has found out about the rows from `key` on. -/
inductive Searched (rows : List (Option α)) (key n : Nat) : Option (Option Nat) → Prop
  | free {k : Nat} : key ≤ k → k < key + n → k < rows.length → rows.getD k none = none →
      (∀ j, key ≤ j → j < k → rows.getD j none ≠ none) → Searched rows key n (some (some k))
  | full : (∀ j, key ≤ j → j < key + n → rows.getD j none ≠ none) →
      Searched rows key n (some none)
  | outside : (∀ j, key ≤ j → j < rows.length → rows.getD j none ≠ none) →
      0 < n → rows.length < key + n → Searched rows key n none

theorem freeFrom_spec (rows : List (Option α)) (n key : Nat) :
    Searched rows key n (Tbl.freeFrom rows n key) := by
  induction n generalizing key with
  | zero => exact .full fun j h1 h2 => absurd h2 (by omega)
  | succ n ih =>
    unfold Tbl.freeFrom
    cases hrow : rows[key]? with
    | none =>
      have hlen := List.getElem?_eq_none_iff.mp hrow
      exact .outside (fun j h1 h2 => absurd h2 (by omega)) (by omega) (by omega)
    | some row =>
      have hlt : key < rows.length := (List.getElem?_eq_some_iff.mp hrow).1
      have hget : rows.getD key none = row := by
        rw [List.getD_eq_getElem?_getD, hrow]
        rfl
      cases row with
      | none => exact .free le_rfl (by omega) hlt hget fun j h1 h2 => absurd h2 (by omega)
      | some entry =>
        have hkey : ∀ j, key ≤ j → (key + 1 ≤ j → rows.getD j none ≠ none) →
            rows.getD j none ≠ none := by
          intro j hj hrest
          rcases hj.eq_or_lt with rfl | hj
          · rw [hget]
            exact Option.some_ne_none _
          · exact hrest hj
        dsimp only
        have hrest := ih (key + 1)
        generalize Tbl.freeFrom rows n (key + 1) = found at hrest ⊢
        cases hrest with
        | free h1 h2 h3 h4 h5 =>
          exact .free (by omega) (by omega) h3 h4 fun j hj hjk => hkey j hj fun h => h5 j h hjk
        | full hfull => exact .full fun j hj hjn => hkey j hj fun h => hfull j h (by omega)
        | outside hout hpos hlen =>
          exact .outside (fun j hj hjn => hkey j hj fun h => hout j h hjn) (by omega) (by omega)

theorem occupied_eq (h : tbl.Holds x) : x.occupied = occupiedRows tbl.rows := by
  unfold Keys.occupied occupiedRows
  rw [h.size]
  exact Finset.filter_congr fun k _ => by rw [h.entry]

theorem turn_of_last {last : Nat} (h : tbl.Holds x) (hlast : x.last = some last)
    (hin : last < tbl.rows.length) (k : Nat) :
    x.turn k = if last < k then k - last else k + tbl.rows.length - last := by
  unfold Keys.turn
  rw [hlast, h.size]
  exact if_pos hin

theorem turn_of_gone (h : tbl.Holds x) (hgone : ∀ last, x.last = some last → tbl.rows.length ≤ last)
    (k : Nat) : x.turn k = k := by
  unfold Keys.turn
  rw [h.size]
  cases hlast : x.last with
  | none => rfl
  | some last => exact if_neg (not_lt.mpr (hgone last hlast))

/-- With fewer entries than rows, one row is free. -/
theorem exists_free (hcount : (occupiedRows rows).card < rows.length) :
    ∃ k < rows.length, rows.getD k none = none := by
  by_contra hall
  push Not at hall
  have hevery : occupiedRows rows = Finset.range rows.length := by
    refine Finset.filter_true_of_mem fun k hk => ?_
    exact Option.isSome_iff_ne_none.mpr (hall k (Finset.mem_range.mp hk))
  rw [hevery, Finset.card_range] at hcount
  omega

/-- Where the search starts: behind the last key, if the table still has that. -/
theorem startPos_cases (h : tbl.Holds x) :
    (∃ last, x.last = some last ∧ last < tbl.rows.length ∧
        (min tbl.lastKeyAdded tbl.rows.length + 1) % 2 ^ 32 = last + 1) ∨
      ((∀ last, x.last = some last → tbl.rows.length ≤ last) ∧
        ((min tbl.lastKeyAdded tbl.rows.length + 1) % 2 ^ 32 = tbl.rows.length + 1 ∨
          (min tbl.lastKeyAdded tbl.rows.length + 1) % 2 ^ 32 = 0)) := by
  have hmax : UINT32_MAX = 4294967295 := rfl
  have hsmall := h.counted.small
  have hlast := h.last
  cases hx : x.last with
  | none =>
    rw [hx, Option.getD_none] at hlast
    exact .inr ⟨fun last h0 => absurd h0.symm (Option.some_ne_none _), by omega⟩
  | some last =>
    rw [hx, Option.getD_some] at hlast
    by_cases hin : last < tbl.rows.length
    · exact .inl ⟨last, rfl, hin, by omega⟩
    · refine .inr ⟨fun last' h0 => ?_, by omega⟩
      cases h0
      omega

/-- The search finds the free row that is next, and stays within the table. -/
theorem freeKey_spec (h : tbl.Holds x) (hroom : x.occupied.card < x.size) :
    ∃ key, tbl.freeKey = some (some key) ∧ key < x.size ∧ x.entry key = none ∧
      ∀ k < x.size, x.entry k = none → x.turn key ≤ x.turn k := by
  simp only [h.entry, h.size]
  rw [occupied_eq h, h.size] at hroom
  obtain ⟨k₀, hk₀, hfree₀⟩ := exists_free hroom
  have hstart := startPos_cases h
  unfold Tbl.freeKey
  dsimp only
  generalize (min tbl.lastKeyAdded tbl.rows.length + 1) % 2 ^ 32 = start at hstart ⊢
  have hfirst := freeFrom_spec tbl.rows (tbl.rows.length - start) start
  generalize Tbl.freeFrom tbl.rows (tbl.rows.length - start) start = found at hfirst ⊢
  cases hfirst with
  | @free key h1 h2 h3 h4 h5 =>
    refine ⟨key, rfl, h3, h4, fun k hk hfree => ?_⟩
    -- nothing free between the start and the key
    have hnot : ¬(start ≤ k ∧ k < key) := fun hbetween => h5 k hbetween.1 hbetween.2 hfree
    rcases hstart with ⟨last, hlast, hin, rfl⟩ | ⟨hgone, rfl | rfl⟩
    · rw [turn_of_last h hlast hin, turn_of_last h hlast hin, if_pos (by omega)]
      split_ifs <;> omega
    · omega
    · rw [turn_of_gone h hgone, turn_of_gone h hgone]
      omega
  | outside hout hpos hlen => exact absurd hlen (by omega)
  | full hfull =>
    have hbelow : k₀ < start := by
      by_contra hge
      exact hfull k₀ (by omega) (by omega) hfree₀
    have hsecond := freeFrom_spec tbl.rows start 0
    dsimp only
    generalize Tbl.freeFrom tbl.rows start 0 = found at hsecond ⊢
    cases hsecond with
    | full hfull' => exact absurd hfree₀ (hfull' k₀ (by omega) (by omega))
    | outside hout hpos hlen => exact absurd hfree₀ (hout k₀ (by omega) hk₀)
    | @free key h1 h2 h3 h4 h5 =>
      refine ⟨key, rfl, h3, h4, fun k hk hfree => ?_⟩
      have hge : key ≤ k := by
        by_contra hlt
        exact h5 k (by omega) (by omega) hfree
      have hstart' : k < start := by
        by_contra hge
        exact hfull k (by omega) (by omega) hfree
      rcases hstart with ⟨last, hlast, hin, rfl⟩ | ⟨hgone, rfl | rfl⟩
      · rw [turn_of_last h hlast hin, turn_of_last h hlast hin, if_neg (by omega),
          if_neg (by omega)]
        omega
      · rw [turn_of_gone h hgone, turn_of_gone h hgone]
        exact hge
      · omega

/-! ### The calls -/

theorem resize_spec (h : tbl.Holds x) (nrows : Nat) (hnrows : nrows ≤ UINT32_MAX)
    (hne : nrows ≠ tbl.rows.length) (hpos : nrows ≠ 0) :
    (tbl.resize nrows true).1 = .ok ∧
      (tbl.resize nrows true).2.Holds
        ⟨nrows, fun k => if k < nrows then x.entry k else none, x.last⟩ := by
  have hlen : (tbl.rows.take nrows ++
      List.replicate (nrows - (tbl.rows.take nrows).length) none).length = nrows := by
    simp only [List.length_append, List.length_take, List.length_replicate]
    omega
  unfold Tbl.resize
  rw [if_neg hpos, if_pos hne, if_pos rfl]
  refine ⟨rfl, ⟨by rwa [hlen], ?_⟩, hlen.symm, ?_, ?_, h.last_lt⟩
  · -- what is cleared is what does not fit
    dsimp only
    split_ifs with hshrink
    · obtain ⟨hcounted, _, _, hrows⟩ := clearRows_spec h.counted nrows tbl.rows.length
      rw [hcounted.count]
      refine congrArg Finset.card (occupiedRows_congr fun k => ?_)
      rw [hrows, getD_resized]
      by_cases hk : k < nrows
      · rw [if_neg (by omega), if_pos hk]
      · rw [if_neg hk]
        split_ifs with hin
        · rfl
        · exact getD_outside (by omega)
    · rw [h.counted.count]
      refine congrArg Finset.card (occupiedRows_congr fun k => ?_)
      rw [getD_resized]
      split_ifs with hk
      · rfl
      · exact getD_outside (by omega)
  · intro k
    rw [getD_resized]
    dsimp only
    rw [h.entry]
  · dsimp only
    split_ifs with hshrink
    · rw [(clearRows_spec h.counted nrows tbl.rows.length).2.2.1]
      exact h.last
    · exact h.last

theorem remove_holds (h : tbl.Holds x) (hkey : key < 2 ^ 32) :
    (tbl.remove key).Holds { x with entry := Function.update x.entry key none } := by
  have hmax : UINT32_MAX = 4294967295 := rfl
  have hsmall := h.counted.small
  obtain ⟨hcounted, hlen, hlast, hrows⟩ := clearRows_spec h.counted key ((key + 1) % 2 ^ 32)
  unfold Tbl.remove
  refine ⟨hcounted, h.size.trans hlen.symm, fun k => ?_, hlast.trans h.last, h.last_lt⟩
  rw [hrows]
  dsimp only
  rw [Function.update_apply, h.entry]
  by_cases hk : k = key
  · rw [if_pos hk]
    split_ifs with hin
    · rfl
    · -- `key + 1` has wrapped around, and there is no such row
      exact (getD_outside (by omega)).symm
  · rw [if_neg hk, if_neg (by omega)]

theorem clear_holds (h : tbl.Holds x) : tbl.clear.Holds ⟨x.size, fun _ => none, none⟩ := by
  obtain ⟨hcounted, hlen, _, hrows⟩ := clearRows_spec h.counted 0 tbl.rows.length
  unfold Tbl.clear
  refine ⟨⟨hcounted.small, hcounted.count⟩, h.size.trans hlen.symm, fun k => ?_, rfl, by simp⟩
  dsimp only
  rw [hrows]
  split_ifs with hin
  · rfl
  · exact (getD_outside (by omega)).symm

theorem put_holds (h : tbl.Holds x) (hkey : key < tbl.rows.length)
    (hfree : tbl.rows.getD key none = none) (entry : α) :
    (tbl.put key entry).Holds
      ⟨x.size, Function.update x.entry key (some entry), some key⟩ := by
  have hmax : UINT32_MAX = 4294967295 := rfl
  have hsmall := h.counted.small
  have hcount := h.counted.count
  have hentry : x.entry = fun k => tbl.rows.getD k none := funext h.entry
  have hnew : key ∉ occupiedRows tbl.rows := by
    rw [mem_occupiedRows, hfree]
    simp
  have hcard := card_occupiedRows_le (tbl.rows.set key (some entry))
  rw [occupiedRows_set_some hkey, Finset.card_insert_of_notMem hnew, List.length_set] at hcard
  refine ⟨⟨?_, ?_⟩, ?_, ?_, rfl, ?_⟩
  · rw [Tbl.put, List.length_set]
    exact hsmall
  · unfold Tbl.put
    rw [occupiedRows_set_some hkey, Finset.card_insert_of_notMem hnew]
    dsimp only
    omega
  · rw [Tbl.put, List.length_set]
    exact h.size
  · intro k
    rw [Tbl.put, getD_set hkey, hentry]
  · intro k hk
    cases hk
    omega

/-- Every call is answered as it may be, and none reads outside the table. -/
theorem step_allowed (op : Tbl.Op α) (h : tbl.Holds x) :
    ∃ tbl' r y, tbl.step op = some (tbl', r) ∧ x.Allows op r y ∧ tbl'.Holds y := by
  cases op with
  | resize nrows granted =>
    have hnrows : nrows.toNat ≤ UINT32_MAX := Nat.le_of_lt_succ nrows.toNat_lt
    by_cases hzero : nrows.toNat = 0
    · refine ⟨tbl, .code .badFunctionArgument, x, ?_, ?_, h⟩
      · simp only [Tbl.step, Tbl.resize, if_pos hzero]
      · simp only [Keys.Allows, if_pos hzero, and_self]
    by_cases hsame : nrows.toNat = x.size
    · have hsame' := hsame.trans h.size
      refine ⟨tbl, .code .ok, x, ?_, ?_, h⟩
      · simp only [Tbl.step, Tbl.resize, if_neg hzero, if_neg (not_not.mpr hsame')]
      · simp only [Keys.Allows, if_neg hzero, if_pos hsame, and_self]
    have hne : nrows.toNat ≠ tbl.rows.length := fun h0 => hsame (h0.trans h.size.symm)
    cases granted with
    | false =>
      refine ⟨tbl, .code .outOfMemory, x, ?_, ?_, h⟩
      · simp only [Tbl.step, Tbl.resize, if_neg hzero, if_pos hne, Bool.false_eq_true, if_false]
      · simp only [Keys.Allows, if_neg hzero, if_neg hsame, Bool.false_eq_true, if_false, and_self]
    | true =>
      obtain ⟨hok, hholds⟩ := resize_spec h nrows.toNat hnrows hne hzero
      refine ⟨_, _, _, rfl, ?_, hholds⟩
      simp only [Keys.Allows, if_neg hzero, if_neg hsame, if_true]
      exact ⟨hok, trivial⟩
  | add entry =>
    cases entry with
    | none => exact ⟨tbl, _, x, rfl, ⟨rfl, rfl⟩, h⟩
    | some entry =>
      have hcount := h.counted.count
      rw [← occupied_eq h] at hcount
      by_cases hroom : x.occupied.card < x.size
      · obtain ⟨key, hfind, hlt, hfree, hturn⟩ := freeKey_spec h hroom
        refine ⟨tbl.put key entry, .added (true, some key),
          ⟨x.size, Function.update x.entry key (some entry), some key⟩, ?_, ?_, ?_⟩
        · unfold Tbl.step Tbl.add
          dsimp only
          rw [if_neg (by have := h.size; omega), hfind]
          rfl
        · simp only [Keys.Allows, if_pos hroom]
          exact ⟨key, hlt, hfree, hturn, rfl, rfl⟩
        · exact put_holds h (h.size ▸ hlt) (h.entry key ▸ hfree) entry
      · have hle := card_occupiedRows_le tbl.rows
        rw [← occupied_eq h, ← h.size] at hle
        refine ⟨tbl, .added (false, some UINT32_MAX), x, ?_, ?_, h⟩
        · unfold Tbl.step Tbl.add
          dsimp only
          rw [if_pos (by have := h.size; omega)]
          rfl
        · simp only [Keys.Allows, if_neg hroom, and_self]
  | remove key => exact ⟨_, _, _, rfl, rfl, remove_holds h key.toNat_lt⟩
  | clear => exact ⟨_, _, _, rfl, rfl, clear_holds h⟩

/-! Whole lists of calls on a table. -/

open Refine

variable {rest : List (Option α)}

/-- The keys that a loop with `first` and `next` meets. -/
def iterate (tbl : Tbl α) (fuel : Nat) : Option (List Nat) :=
  visits (tbl.first.map (·.1)) (fun last => (tbl.next last).map (·.1)) fuel

/-- The loop over the rows from `k` on finds the smallest key there. -/
theorem nextAt_spec (hrest : rows.drop k = rest) :
    (nextAt k rest).map (·.1) = least ((occupiedRows rows).filter (k ≤ ·)) := by
  induction rest generalizing k with
  | nil =>
    have hlen := List.drop_eq_nil_iff.mp hrest
    symm
    rw [nextAt, Option.map_none, least_eq_none, Finset.filter_eq_empty_iff]
    intro n hn hle
    rw [mem_occupiedRows, getD_outside (by omega)] at hn
    exact Bool.noConfusion hn
  | cons row rest ih =>
    have hrow : rows.getD k none = row := by
      rw [List.getD_eq_getElem?_getD, ← Nat.add_zero k, ← List.getElem?_drop, hrest]
      rfl
    have hrest' : rows.drop (k + 1) = rest := by
      rw [← List.drop_drop, hrest]
      rfl
    cases row with
    | none =>
      rw [nextAt, ih hrest']
      congr 1
      ext n
      simp only [Finset.mem_filter, mem_occupiedRows, and_congr_right_iff]
      intro hn
      refine ⟨fun h => by omega, fun h => ?_⟩
      rcases h.eq_or_lt with rfl | hlt
      · rw [hrow] at hn
        exact Bool.noConfusion hn
      · exact hlt
    | some entry =>
      symm
      rw [nextAt, Option.map_some, least_eq_some, Finset.mem_filter, mem_occupiedRows, hrow]
      exact ⟨⟨rfl, le_rfl⟩, fun n hn => (Finset.mem_filter.mp hn).2⟩

/-- A loop over the table meets every key with an entry, in increasing order, and stops. -/
theorem iterate_spec (h : tbl.Holds x) {fuel : Nat} (hfuel : x.occupied.card ≤ fuel) :
    ∃ l, tbl.iterate fuel = some l ∧ l.Pairwise (· < ·) ∧ ∀ n, n ∈ l ↔ n ∈ x.occupied := by
  have hmax : UINT32_MAX = 4294967295 := rfl
  have hoccupied := occupied_eq h
  have hfirst : tbl.first.map (·.1) = least x.occupied := by
    unfold first
    split_ifs with hcount
    · have hspec : (nextAt 0 tbl.rows).map (·.1) = least ((occupiedRows tbl.rows).filter (0 ≤ ·)) :=
        nextAt_spec (rfl : tbl.rows.drop 0 = tbl.rows)
      rw [hspec, hoccupied]
      exact congrArg least (Finset.filter_true_of_mem fun n _ => Nat.zero_le n)
    · have hnone := Finset.card_eq_zero.mp (h.counted.count.symm.trans (not_not.mp hcount))
      rw [hoccupied, hnone]
      rfl
  unfold iterate
  rw [hfirst]
  refine visits_spec (fun n hn => ?_) hfuel
  have hlt : n < x.size := Finset.mem_range.mp (Finset.mem_filter.mp hn).1
  have hsmall := h.counted.small
  have hsize := h.size
  unfold next
  dsimp only
  rw [nextAt_spec rfl, Nat.mod_eq_of_lt (by omega), filter_succ, hoccupied]

theorem init_holds : (init : Tbl α).Holds ⟨0, fun _ => none, none⟩ :=
  ⟨⟨Nat.zero_le _, rfl⟩, rfl, fun _ => rfl, rfl, by simp⟩

/-- Any calls are answered as a table of entries may answer them, with keys given out in turn; no
row outside the table is read, `nentries` is the number of rows with an entry, and a loop goes
through their keys. -/
theorem tbl_refines (ops : List (Op α)) :
    ∃ tbl answers y, calls step init ops = some (tbl, answers) ∧
      Allows Keys.Allows ⟨0, fun _ => none, none⟩ ops answers y ∧
      tbl.rows.length = y.size ∧ (∀ key, tbl.get key = y.entry key) ∧
      tbl.nentries = (occupiedRows tbl.rows).card ∧
      ∀ fuel, tbl.nentries ≤ fuel → ∃ l, tbl.iterate fuel = some l ∧ l.Pairwise (· < ·) ∧
        ∀ key, key ∈ l ↔ (tbl.get key).isSome = true := by
  obtain ⟨tbl, answers, y, hcalls, hallows, hholds⟩ :=
    calls_allowed (fun op h => step_allowed op h) init_holds ops
  have hget : ∀ key, tbl.get key = y.entry key := by
    intro key
    unfold get
    split_ifs with hin
    · exact (hholds.entry key).symm
    · rw [hholds.entry key, getD_outside (not_lt.mp hin)]
  refine ⟨tbl, answers, y, hcalls, hallows, hholds.size.symm, hget, hholds.counted.count, ?_⟩
  intro fuel hfuel
  have hcount := hholds.counted.count
  rw [← occupied_eq hholds] at hcount
  obtain ⟨l, hiterate, hsorted, hall⟩ := iterate_spec hholds (hcount ▸ hfuel)
  refine ⟨l, hiterate, hsorted, fun key => ?_⟩
  rw [hall, occupied_eq hholds, mem_occupiedRows, hget, hholds.entry]

/-- When the last of some calls has freed a key, an `add` hands that out only if no later key is
free. -/
def LaterFirst (ops : List (Op α)) (freed : UInt32) (entry : α) : Prop :=
  ∀ tbl answers tbl' key, calls step init ops = some (tbl, answers) →
    (tbl.get freed.toNat).isSome = true →
    (tbl.remove freed.toNat).add (some entry) = some (tbl', true, some key) →
    key = freed.toNat → ∀ later, freed.toNat < later → later < tbl.rows.length →
      (tbl.get later).isSome = true

/-- Behind the last key of the table the search goes round, and comes to the key that has just been
freed before it comes to a later one that is free. -/
theorem add_freed_key : ¬LaterFirst [.resize 3 true, .add (some 1), .add (some 2), .add (some 3),
    .remove 1] 0 (4 : Nat) := by
  intro h
  have hcalls : ∃ answers, calls step init [.resize 3 true, .add (some 1), .add (some 2),
      .add (some 3), .remove 1] = some ((⟨[some 1, none, some 3], 2, 2⟩ : Tbl Nat), answers) :=
    ⟨_, rfl⟩
  obtain ⟨answers, hcalls⟩ := hcalls
  have hlater := h _ answers ⟨[some 4, none, some 3], 2, 0⟩ 0 hcalls rfl rfl rfl 1
    (by decide) (by decide)
  exact absurd hlater (by decide)

end Gurl.Uint.Tbl
