import Mathlib
import Gurl.Lib.Refine
import Gurl.Lib.Buckets

/-! hash.c: tables from byte strings to values that are destroyed when they leave the table. -/

namespace Gurl.Hash

abbrev Key := List UInt8

/-- The hash and compare functions of a table with `n` slots; keys that compare equal have the same
slot. -/
structure Methods (n : Nat) where
  hashFunc : Key → Fin n
  compFunc : Key → Key → Bool
  equivalence : Equivalence fun a b => compFunc a b = true
  respects : ∀ {a b}, compFunc a b = true → hashFunc a = hashFunc b

/-- `Curl_hash_element`: `ptr` may be NULL, and `dtor` is the destructor of this element, if it has
one of its own. -/
structure Element (β δ : Type*) where
  key : Key
  ptr : Option β
  dtor : Option δ

/-- A call of a destructor: of the element's own, or of that of the table. -/
inductive DtorCall (β δ : Type*) where
  | element (dtor : δ) (key : Key) (ptr : β)
  | table (ptr : β)

/-- `Curl_hash`: there is no `table` before the first value. -/
structure Table (n : Nat) (β δ : Type*) where
  table : Option (Fin n → List (Element β δ))
  size : Nat

variable {n : Nat} {β δ : Type*}

/-- `Curl_hash_init`. -/
def init : Table n β δ where
  table := none
  size := 0

/-- `hash_elem_clear_ptr`, `hash_elem_destroy`. -/
def clearPtr (he : Element β δ) : List (DtorCall β δ) :=
  match he.ptr with
  | none => []
  | some p =>
    match he.dtor with
    | some dtor => [.element dtor he.key p]
    | none => [.table p]

/-- The loop that looks for the key in a slot and puts the new value there. -/
def overwrite (m : Methods n) (key : Key) (p : Option β) (dtor : Option δ) :
    List (Element β δ) → Option (List (Element β δ) × List (DtorCall β δ))
  | [] => none
  | he :: rest =>
    if m.compFunc he.key key then some (⟨he.key, p, dtor⟩ :: rest, clearPtr he)
    else (overwrite m key p dtor rest).map fun r => (he :: r.1, r.2)

/-- What is returned, the destructors that are called, and the table. `tableMem` and `elemMem` are
whether there is memory for the table and for a new element. -/
def add2 (m : Methods n) (h : Table n β δ) (key : Key) (p : Option β) (dtor : Option δ)
    (tableMem elemMem : Bool) : Option β × List (DtorCall β δ) × Table n β δ :=
  if h.table.isNone && !tableMem then (none, [], h)
  else
    let table := h.table.getD fun _ => []
    let slot := m.hashFunc key
    match overwrite m key p dtor (table slot) with
    | some (chain, calls) => (p, calls, ⟨some (Function.update table slot chain), h.size⟩)
    | none =>
      if elemMem then
        (p, [], ⟨some (Function.update table slot (⟨key, p, dtor⟩ :: table slot)), h.size + 1⟩)
      else (none, [], ⟨some table, h.size⟩)

/-- `Curl_hash_add`. -/
def add (m : Methods n) (h : Table n β δ) (key : Key) (p : Option β) (tableMem elemMem : Bool) :
    Option β × List (DtorCall β δ) × Table n β δ :=
  add2 m h key p none tableMem elemMem

/-- The loop that takes the element with the key out of a slot. -/
def unlink (m : Methods n) (key : Key) :
    List (Element β δ) → Option (List (Element β δ) × List (DtorCall β δ))
  | [] => none
  | he :: rest =>
    if m.compFunc he.key key then some (rest, clearPtr he)
    else (unlink m key rest).map fun r => (he :: r.1, r.2)

def delete (m : Methods n) (h : Table n β δ) (key : Key) :
    Nat × List (DtorCall β δ) × Table n β δ :=
  match h.table with
  | none => (1, [], h)
  | some table =>
    let slot := m.hashFunc key
    match unlink m key (table slot) with
    | some (chain, calls) => (0, calls, ⟨some (Function.update table slot chain), h.size - 1⟩)
    | none => (1, [], h)

/-- The element for a key. -/
def find (m : Methods n) (h : Table n β δ) (key : Key) : Option (Element β δ) :=
  match h.table with
  | none => none
  | some table => (table (m.hashFunc key)).find? fun he => m.compFunc he.key key

def pick (m : Methods n) (h : Table n β δ) (key : Key) : Option β :=
  match find m h key with
  | some he => he.ptr
  | none => none

/-- The loop over a slot that takes out some elements: what is left, the destructors called, and how
many are gone. -/
def sweep (remove : Element β δ → Bool) :
    List (Element β δ) → List (Element β δ) × List (DtorCall β δ) × Nat
  | [] => ([], [], 0)
  | he :: rest =>
    let r := sweep remove rest
    if remove he then (r.1, clearPtr he ++ r.2.1, r.2.2 + 1) else (he :: r.1, r.2)

/-- The loop over all slots. -/
def sweepAll (remove : Element β δ → Bool) (h : Table n β δ) : List (DtorCall β δ) × Table n β δ :=
  match h.table with
  | none => ([], h)
  | some table =>
    ((List.finRange n).flatMap fun i => (sweep remove (table i)).2.1,
      ⟨some fun i => (sweep remove (table i)).1,
        h.size - ((List.finRange n).map fun i => (sweep remove (table i)).2.2).sum⟩)

/-- `Curl_hash_clean`. -/
def clean (h : Table n β δ) : List (DtorCall β δ) × Table n β δ := sweepAll (fun _ => true) h

/-- What the callback says; without one, everything goes. -/
def criterium (comp : Option (Option β → Bool)) (p : Option β) : Bool :=
  match comp with
  | none => true
  | some comp => comp p

/-- `Curl_hash_clean_with_criterium`. -/
def cleanWithCriterium (comp : Option (Option β → Bool)) (h : Table n β δ) :
    List (DtorCall β δ) × Table n β δ :=
  sweepAll (fun he => criterium comp he.ptr) h

/-- `Curl_hash_destroy`, but for the number of slots. -/
def destroy (h : Table n β δ) : List (DtorCall β δ) × Table n β δ :=
  match h.table with
  | none => ([], h)
  | some _ => ((clean h).1, ⟨none, (clean h).2.size⟩)

/-- `Curl_hash_iterator`: `current` is the element pointed to with those behind it, empty for
NULL. -/
structure Iterator (β δ : Type*) where
  slotIndex : Nat
  current : List (Element β δ)

/-- `Curl_hash_start_iterate`. -/
def startIterate : Iterator β δ where
  slotIndex := 0
  current := []

/-- The loop over `k` slots from slot `i` on to one that is not empty. -/
def nextSlot (table : Fin n → List (Element β δ)) :
    Nat → Nat → Option (Nat × List (Element β δ))
  | 0, _ => none
  | k + 1, i =>
    if hi : i < n then
      if (table ⟨i, hi⟩).isEmpty then nextSlot table k (i + 1) else some (i, table ⟨i, hi⟩)
    else none

/-- `Curl_hash_next_element`; what is returned is what `current` points to. -/
def nextElement (h : Table n β δ) (iter : Iterator β δ) : Option (Element β δ) × Iterator β δ :=
  match h.table with
  | none => (none, iter)
  | some table =>
    let iter := { iter with current := iter.current.tail }
    if iter.current.isEmpty then
      match nextSlot table (n - iter.slotIndex) iter.slotIndex with
      | some (i, chain) => (chain.head?, ⟨i + 1, chain⟩)
      | none => (none, iter)
    else (iter.current.head?, iter)

/-- A loop over the elements until there is no next one; `none` when the fuel runs out. -/
def elements (h : Table n β δ) : Nat → Iterator β δ → Option (List (Element β δ))
  | 0, _ => none
  | fuel + 1, iter =>
    match nextElement h iter with
    | (none, _) => some []
    | (some he, iter) => (elements h fuel iter).map (he :: ·)

/-! ### Calls -/

inductive Op (β δ : Type*) where
  | add2 (key : Key) (p : Option β) (dtor : Option δ) (tableMem elemMem : Bool)
  | delete (key : Key)
  | pick (key : Key)
  | clean
  | cleanWithCriterium (comp : Option (Option β → Bool))
  | count
  | iterate

/-- What a call gives back. -/
inductive Answer (β δ : Type*) where
  | pointer (p : Option β)
  | code (rc : Nat)
  | number (n : Nat)
  | elements (l : Option (List (Element β δ)))
  | done

/-- The table after a call, with the answer and the destructors called. -/
def step (m : Methods n) (h : Table n β δ) :
    Op β δ → Table n β δ × Answer β δ × List (DtorCall β δ)
  | .add2 key p dtor tableMem elemMem =>
    let r := add2 m h key p dtor tableMem elemMem
    (r.2.2, .pointer r.1, r.2.1)
  | .delete key =>
    let r := delete m h key
    (r.2.2, .code r.1, r.2.1)
  | .pick key => (h, .pointer (pick m h key), [])
  | .clean =>
    let r := clean h
    (r.2, .done, r.1)
  | .cleanWithCriterium comp =>
    let r := cleanWithCriterium comp h
    (r.2, .done, r.1)
  | .count => (h, .number h.size, [])
  | .iterate => (h, .elements (elements h (h.size + 1) startIterate), [])

/-! The dictionary that a hash table stands for. -/

variable {m : Methods n} {h : Table n β δ}
  {c pre post : List (Element β δ)} {he : Element β δ} {key k : Key}

/-- The value of each key that has one; a value may be NULL. -/
abbrev Dict (β : Type*) := Key → Option (Option β)

/-- Keys that compare equal get the same value. -/
def Dict.put (m : Methods n) (x : Dict β) (key : Key) (v : Option (Option β)) : Dict β :=
  fun k => if m.compFunc key k then v else x k

/-- Each key with a value is in the list, once. -/
def Dict.Lists (m : Methods n) (x : Dict β) (keys : List Key) : Prop :=
  (keys.Pairwise fun a b => m.compFunc a b = false) ∧
    ∀ k, (x k).isSome = true ↔ ∃ key ∈ keys, m.compFunc key k = true

/-- What may be answered, and what becomes of the dictionary. -/
def Dict.Allows (m : Methods n) (x : Dict β) :
    Op β δ → Answer β δ × List (DtorCall β δ) → Dict β → Prop
  | .add2 key p _ tableMem elemMem, (.pointer r, _), y =>
    (r = p ∧ y = x.put m key (some p)) ∨
      ((tableMem = false ∨ elemMem = false) ∧ r = none ∧ y = x)
  | .delete key, (.code rc, _), y =>
    rc = (if (x key).isSome then 0 else 1) ∧ y = x.put m key none
  | .pick key, (.pointer r, _), y => r = (x key).join ∧ y = x
  | .clean, (.done, _), y => y = fun _ => none
  | .cleanWithCriterium comp, (.done, _), y =>
    y = fun k => (x k).filter fun p => !criterium comp p
  | .count, (.number size, _), y => (∃ keys, x.Lists m keys ∧ size = keys.length) ∧ y = x
  | .iterate, (.elements r, _), y =>
    (∃ l, r = some l ∧ x.Lists m (l.map (·.key)) ∧ ∀ he ∈ l, x he.key = some he.ptr) ∧ y = x
  | _, _, _ => False

/-- The chains, all of them empty before there is a table. -/
def Table.chains (h : Table n β δ) : Fin n → List (Element β δ) := h.table.getD fun _ => []

/-- Every element is in its slot, none is there twice, and `size` counts them. -/
structure Table.Sound (m : Methods n) (h : Table n β δ) : Prop where
  home : ∀ i, ∀ he ∈ h.chains i, m.hashFunc he.key = i
  apart : ∀ i, (h.chains i).Pairwise fun a b => m.compFunc a.key b.key = false
  count : h.size = Buckets.total h.chains

/-- A sound table has the values of the dictionary. -/
structure Table.Holds (m : Methods n) (h : Table n β δ) (x : Dict β) : Prop where
  sound : h.Sound m
  value : ∀ k, x k = (find m h k).map (·.ptr)

/-! ### Keys -/

theorem comp_refl (m : Methods n) (a : Key) : m.compFunc a a = true := m.equivalence.refl a

theorem comp_comm (m : Methods n) (a b : Key) : m.compFunc a b = m.compFunc b a := by
  rw [Bool.eq_iff_iff]
  exact ⟨fun h => m.equivalence.symm h, fun h => m.equivalence.symm h⟩

/-- Equal keys compare alike. -/
theorem comp_congr {a b : Key} (hab : m.compFunc a b = true) (k : Key) :
    m.compFunc a k = m.compFunc b k := by
  rw [Bool.eq_iff_iff]
  exact ⟨fun h => m.equivalence.trans (m.equivalence.symm hab) h,
    fun h => m.equivalence.trans hab h⟩

/-! ### One chain -/

/-- The first element of a chain with a key. -/
def chainFind (m : Methods n) (c : List (Element β δ)) (k : Key) : Option (Element β δ) :=
  c.find? fun he => m.compFunc he.key k

theorem find_eq (h : Table n β δ) (k : Key) :
    find m h k = chainFind m (h.chains (m.hashFunc k)) k := by
  unfold find Table.chains
  cases h.table <;> rfl

theorem overwrite_cases (p : Option β) (dtor : Option δ) (c : List (Element β δ)) :
    (overwrite m key p dtor c = none ∧ ∀ he ∈ c, m.compFunc he.key key = false) ∨
      ∃ pre he post, c = pre ++ he :: post ∧ m.compFunc he.key key = true ∧
        overwrite m key p dtor c = some (pre ++ ⟨he.key, p, dtor⟩ :: post, clearPtr he) := by
  induction c with
  | nil => exact .inl ⟨rfl, by simp⟩
  | cons he rest ih =>
    unfold overwrite
    cases hcomp : m.compFunc he.key key with
    | true => exact .inr ⟨[], he, rest, rfl, hcomp, rfl⟩
    | false =>
      rcases ih with ⟨hnone, hall⟩ | ⟨pre, he', post, rfl, hcomp', hsome⟩
      · refine .inl ⟨by simp [hnone], ?_⟩
        simpa [hcomp] using hall
      · exact .inr ⟨he :: pre, he', post, rfl, hcomp', by simp [hsome]⟩

theorem unlink_cases (c : List (Element β δ)) :
    (unlink m key c = none ∧ ∀ he ∈ c, m.compFunc he.key key = false) ∨
      ∃ pre he post, c = pre ++ he :: post ∧ m.compFunc he.key key = true ∧
        unlink m key c = some (pre ++ post, clearPtr he) := by
  induction c with
  | nil => exact .inl ⟨rfl, by simp⟩
  | cons he rest ih =>
    unfold unlink
    cases hcomp : m.compFunc he.key key with
    | true => exact .inr ⟨[], he, rest, rfl, hcomp, rfl⟩
    | false =>
      rcases ih with ⟨hnone, hall⟩ | ⟨pre, he', post, rfl, hcomp', hsome⟩
      · refine .inl ⟨by simp [hnone], ?_⟩
        simpa [hcomp] using hall
      · exact .inr ⟨he :: pre, he', post, rfl, hcomp', by simp [hsome]⟩

theorem sweep_eq (remove : Element β δ → Bool) (c : List (Element β δ)) :
    sweep remove c = (c.filter fun he => !remove he, (c.filter remove).flatMap clearPtr,
      (c.filter remove).length) := by
  induction c with
  | nil => rfl
  | cons he rest ih =>
    unfold sweep
    rw [ih]
    cases hr : remove he <;> simp [hr]

/-- The elements around one with a key have other keys. -/
theorem others_differ
    (hapart : (pre ++ he :: post).Pairwise fun a b => m.compFunc a.key b.key = false)
    (hcomp : m.compFunc he.key key = true) :
    ∀ a ∈ pre ++ post, m.compFunc a.key key = false := by
  obtain ⟨_, hpost, hpre⟩ := List.pairwise_append.mp hapart
  have hhe : ∀ a : Element β δ, m.compFunc a.key key = m.compFunc he.key a.key := by
    intro a
    rw [comp_congr hcomp, comp_comm]
  intro a ha
  rcases List.mem_append.mp ha with ha | ha
  · rw [hhe, comp_comm]
    exact hpre a ha he List.mem_cons_self
  · rw [hhe]
    exact (List.pairwise_cons.mp hpost).1 a ha

theorem chainFind_none (hall : ∀ a ∈ c, m.compFunc a.key key = false)
    (hk : m.compFunc key k = true) : chainFind m c k = none := by
  rw [chainFind, List.find?_eq_none]
  intro a ha
  rw [comp_comm, ← comp_congr hk, comp_comm, hall a ha]
  exact Bool.false_ne_true

/-- A chain that has another element in the place of one with a key. -/
theorem chainFind_replace
    (hapart : (pre ++ he :: post).Pairwise fun a b => m.compFunc a.key b.key = false)
    (hcomp : m.compFunc he.key key = true) (p : Option β) (dtor : Option δ) (k : Key) :
    chainFind m (pre ++ ⟨he.key, p, dtor⟩ :: post) k
      = if m.compFunc key k then some ⟨he.key, p, dtor⟩ else chainFind m (pre ++ he :: post) k := by
  have hothers := others_differ hapart hcomp
  have hhe : m.compFunc he.key k = m.compFunc key k := comp_congr hcomp k
  unfold chainFind
  rw [List.find?_append, List.find?_append, List.find?_cons, List.find?_cons, hhe]
  cases hk : m.compFunc key k with
  | true =>
    have hpre := chainFind_none (c := pre) (fun a ha => hothers a (List.mem_append_left _ ha)) hk
    rw [chainFind] at hpre
    rw [hpre]
    rfl
  | false => rfl

/-- A chain without the element with a key. -/
theorem chainFind_remove
    (hapart : (pre ++ he :: post).Pairwise fun a b => m.compFunc a.key b.key = false)
    (hcomp : m.compFunc he.key key = true) (k : Key) :
    chainFind m (pre ++ post) k
      = if m.compFunc key k then none else chainFind m (pre ++ he :: post) k := by
  cases hk : m.compFunc key k with
  | true => exact chainFind_none (others_differ hapart hcomp) hk
  | false =>
    have hhe : m.compFunc he.key k = false := (comp_congr hcomp k).trans hk
    unfold chainFind
    rw [List.find?_append, List.find?_append, List.find?_cons, hhe]
    rfl

/-- Of a chain without two elements of one key, taking some out. -/
theorem chainFind_filter (hapart : c.Pairwise fun a b => m.compFunc a.key b.key = false)
    (keep : Element β δ → Bool) (k : Key) :
    chainFind m (c.filter keep) k = (chainFind m c k).filter keep := by
  induction c with
  | nil => rfl
  | cons he rest ih =>
    obtain ⟨hhe, hrest⟩ := List.pairwise_cons.mp hapart
    have hrest := ih hrest
    unfold chainFind at hrest ⊢
    rw [List.find?_cons, List.filter_cons]
    cases hk : m.compFunc he.key k with
    | false =>
      rw [← hrest]
      cases keep he with
      | true => simp [hk]
      | false => rfl
    | true =>
      cases hkeep : keep he with
      | true => simp [hk, hkeep, Option.filter_some]
      | false =>
        have hnone := chainFind_none (c := rest) (fun a ha => (comp_comm m _ _).trans (hhe a ha)) hk
        rw [chainFind] at hnone
        rw [Option.filter_some, hkeep, if_neg Bool.false_ne_true, if_neg Bool.false_ne_true, hrest,
          hnone]
        rfl

/-! ### The table -/

/-- A table with another chain in the slot of a key. -/
theorem find_update {h' : Table n β δ} (hchains : h'.chains
      = Function.update h.chains (m.hashFunc key) c) (r : Option (Element β δ))
    (hc : ∀ k, chainFind m c k
      = if m.compFunc key k then r else chainFind m (h.chains (m.hashFunc key)) k) (k : Key) :
    find m h' k = if m.compFunc key k then r else find m h k := by
  rw [find_eq, find_eq, hchains]
  by_cases hslot : m.hashFunc k = m.hashFunc key
  · rw [hslot, Function.update_self]
    exact hc k
  · rw [Function.update_of_ne hslot, if_neg]
    exact fun hk => hslot (m.respects hk).symm

/-- A change of one chain keeps the table sound. -/
theorem sound_update {h' : Table n β δ} {slot : Fin n} (hs : h.Sound m)
    (hchains : h'.chains = Function.update h.chains slot c)
    (hhome : ∀ he ∈ c, m.hashFunc he.key = slot)
    (hapart : c.Pairwise fun a b => m.compFunc a.key b.key = false)
    (hcount : h'.size + (h.chains slot).length = h.size + c.length) : h'.Sound m := by
  refine ⟨fun i he hhe => ?_, fun i => ?_, ?_⟩
  · rw [hchains] at hhe
    rcases Buckets.mem_update hhe with ⟨rfl, hc⟩ | ⟨_, hold⟩
    · exact hhome he hc
    · exact hs.home i he hold
  · rw [hchains]
    by_cases hi : i = slot
    · subst hi
      rwa [Function.update_self]
    · rw [Function.update_of_ne hi]
      exact hs.apart i
  · have htotal := Buckets.total_update h.chains slot c
    rw [hchains]
    have := hs.count
    omega

theorem chains_some (t : Fin n → List (Element β δ)) (size : Nat) :
    (⟨some t, size⟩ : Table n β δ).chains = t := rfl

theorem init_holds (m : Methods n) : (init : Table n β δ).Holds m fun _ => none := by
  refine ⟨⟨fun i he hhe => ?_, fun i => .nil, ?_⟩, fun k => rfl⟩
  · cases hhe
  · symm
    exact Finset.sum_eq_zero fun i _ => rfl

theorem add2_holds {x : Dict β} (hh : h.Holds m x) (key : Key) (p : Option β) (dtor : Option δ)
    (tableMem elemMem : Bool) :
    ((add2 m h key p dtor tableMem elemMem).1 = p ∧
        (add2 m h key p dtor tableMem elemMem).2.2.Holds m (x.put m key (some p))) ∨
      ((tableMem = false ∨ elemMem = false) ∧
        (add2 m h key p dtor tableMem elemMem).1 = none ∧
        (add2 m h key p dtor tableMem elemMem).2.2.Holds m x) := by
  have hs := hh.sound
  unfold add2
  by_cases htable : (h.table.isNone && !tableMem) = true
  · rw [if_pos htable]
    rw [Bool.and_eq_true, Bool.not_eq_true'] at htable
    exact .inr ⟨.inl htable.2, rfl, hh⟩
  rw [if_neg htable]
  dsimp only
  rw [show h.table.getD (fun _ => []) = h.chains from rfl]
  have hput : ∀ {h' : Table n β δ} (new : Element β δ), new.ptr = p → h'.Sound m →
      (∀ k, find m h' k = if m.compFunc key k then some new else find m h k) →
      h'.Holds m (x.put m key (some p)) := by
    rintro h' new rfl hsound hfind
    refine ⟨hsound, fun k => ?_⟩
    rw [hfind, Dict.put, hh.value]
    split_ifs <;> rfl
  rcases overwrite_cases p dtor (h.chains (m.hashFunc key)) with
    ⟨hnone, hall⟩ | ⟨pre, he, post, hchain, hcomp, hsome⟩
  · rw [hnone]
    cases elemMem with
    | true =>
      refine .inl ⟨rfl, hput ⟨key, p, dtor⟩ rfl (sound_update hs rfl ?_ ?_ ?_)
        (find_update rfl _ fun k => ?_)⟩
      · intro he hhe
        rcases List.mem_cons.mp hhe with rfl | hhe
        · rfl
        · exact hs.home _ he hhe
      · refine List.pairwise_cons.mpr ⟨fun he hhe => ?_, hs.apart _⟩
        rw [comp_comm]
        exact hall he hhe
      · rw [List.length_cons]
        exact Nat.add_right_comm h.size 1 _
      · unfold chainFind
        rw [List.find?_cons]
        cases m.compFunc key k <;> rfl
    | false =>
      refine .inr ⟨.inr rfl, rfl, ⟨⟨hs.home, hs.apart, hs.count⟩, fun k => ?_⟩⟩
      rw [hh.value, find_eq, find_eq]
      rfl
  · rw [hsome]
    have hapart := hs.apart (m.hashFunc key)
    have hhome := hs.home (m.hashFunc key)
    rw [hchain] at hapart hhome
    refine .inl ⟨rfl, hput ⟨he.key, p, dtor⟩ rfl (sound_update hs rfl ?_ ?_ ?_)
      (find_update rfl _ fun k => ?_)⟩
    · intro a ha
      rcases List.mem_append.mp ha with ha | ha
      · exact hhome a (List.mem_append_left _ ha)
      · rcases List.mem_cons.mp ha with rfl | ha
        · exact hhome he (by simp)
        · exact hhome a (List.mem_append_right _ (List.mem_cons_of_mem _ ha))
    · simp only [List.pairwise_append, List.pairwise_cons, List.mem_cons, forall_eq_or_imp]
        at hapart ⊢
      exact hapart
    · rw [hchain]
      simp
    · rw [hchain]
      exact chainFind_replace hapart hcomp p dtor k

theorem delete_holds {x : Dict β} (hh : h.Holds m x) (key : Key) :
    (delete m h key).1 = (if (x key).isSome then 0 else 1) ∧
      (delete m h key).2.2.Holds m (x.put m key none) := by
  have hs := hh.sound
  -- a key that is not there stays so
  have hstay : find m h key = none → x.put m key none = x := by
    intro hnone
    funext k
    unfold Dict.put
    split_ifs with hk
    · rw [hh.value, find_eq, ← m.respects hk]
      rw [find_eq] at hnone
      have hall := List.find?_eq_none.mp hnone
      rw [chainFind_none (fun a ha => Bool.not_eq_true _ ▸ hall a ha) hk]
      rfl
    · rfl
  unfold delete
  cases htable : h.table with
  | none =>
    have hnone : find m h key = none := by
      unfold find
      rw [htable]
    rw [hh.value, hnone, hstay hnone]
    exact ⟨rfl, hh⟩
  | some t =>
    have ht : h.chains = t := by
      unfold Table.chains
      rw [htable]
      rfl
    dsimp only
    rw [← ht]
    rcases unlink_cases (h.chains (m.hashFunc key)) with
      ⟨hnone, hall⟩ | ⟨pre, he, post, hchain, hcomp, hsome⟩
    · have hfind : find m h key = none := by
        rw [find_eq]
        exact chainFind_none hall (comp_refl m key)
      rw [hnone, hh.value, hfind, hstay hfind]
      exact ⟨rfl, hh⟩
    · have hapart := hs.apart (m.hashFunc key)
      have hhome := hs.home (m.hashFunc key)
      rw [hchain] at hapart hhome
      have hfind : (find m h key).isSome = true := by
        rw [find_eq, hchain, chainFind, List.find?_isSome]
        exact ⟨he, by simp, hcomp⟩
      rw [hsome, hh.value, Option.isSome_map, hfind, if_pos rfl]
      refine ⟨rfl, sound_update hs rfl ?_ ?_ ?_, fun k => ?_⟩
      · intro a ha
        refine hhome a ?_
        rcases List.mem_append.mp ha with ha | ha
        · exact List.mem_append_left _ ha
        · exact List.mem_append_right _ (List.mem_cons_of_mem _ ha)
      · exact hapart.sublist (by simp)
      · have hpos : 0 < h.size := by
          have htotal : (h.chains (m.hashFunc key)).length ≤ Buckets.total h.chains :=
            Finset.single_le_sum (f := fun i => (h.chains i).length) (fun _ _ => Nat.zero_le _)
              (Finset.mem_univ _)
          rw [hchain] at htotal
          simp at htotal
          have := hs.count
          omega
        rw [hchain]
        simp only [List.length_append, List.length_cons]
        omega
      · rw [find_update (h := h) rfl none fun k => by
          rw [hchain]
          exact chainFind_remove hapart hcomp k, Dict.put, hh.value]
        split_ifs <;> rfl

end Gurl.Hash
