import Gurl.Hash.Hash

/-! Whole lists of calls on a hash table: values are found under their keys, and every value that
leaves the table goes to its destructor. -/

namespace Gurl.Hash

open Refine Accounts

variable {n : Nat} {β δ : Type*} {m : Methods n} {h : Table n β δ} {x : Dict β}
  {t : Fin n → List (Element β δ)} {remove : Element β δ → Bool}

/-! ### Taking elements out -/

theorem chains_of_some (htable : h.table = some t) : h.chains = t := by
  unfold Table.chains
  rw [htable]
  rfl

theorem chains_of_none (htable : h.table = none) : h.chains = fun _ => [] := by
  unfold Table.chains
  rw [htable]
  rfl

theorem chains_sweepAll (remove : Element β δ → Bool) (h : Table n β δ) (i : Fin n) :
    (sweepAll remove h).2.chains i = (h.chains i).filter fun he => !remove he := by
  unfold sweepAll
  cases htable : h.table with
  | none =>
    dsimp only
    rw [chains_of_none htable]
    rfl
  | some t =>
    dsimp only
    rw [chains_some, chains_of_some htable, sweep_eq]

theorem size_sweepAll (hs : h.Sound m) :
    (sweepAll remove h).2.size = Buckets.total (sweepAll remove h).2.chains := by
  have hsplit : Buckets.total h.chains = Buckets.total (sweepAll remove h).2.chains
      + ∑ i, ((h.chains i).filter remove).length := by
    unfold Buckets.total
    rw [← Finset.sum_add_distrib]
    refine Finset.sum_congr rfl fun i _ => ?_
    rw [chains_sweepAll, Nat.add_comm]
    exact List.length_eq_length_filter_add remove
  have hcount := hs.count
  have hsize : (sweepAll remove h).2.size
      = h.size - ∑ i, ((h.chains i).filter remove).length := by
    unfold sweepAll
    cases htable : h.table with
    | none =>
      rw [chains_of_none htable]
      simp
    | some t =>
      rw [chains_of_some htable, Fin.sum_univ_def]
      simp only [sweep_eq]
  omega

theorem sweepAll_holds (hh : h.Holds m x) (r : Option β → Bool)
    (hremove : ∀ he, remove he = r he.ptr) :
    (sweepAll remove h).2.Holds m fun k => (x k).filter fun p => !r p := by
  have hs := hh.sound
  refine ⟨⟨fun i he hhe => ?_, fun i => ?_, size_sweepAll hs⟩, fun k => ?_⟩
  · rw [chains_sweepAll] at hhe
    exact hs.home i he (List.mem_filter.mp hhe).1
  · rw [chains_sweepAll]
    exact (hs.apart i).sublist List.filter_sublist
  · rw [find_eq, chains_sweepAll, chainFind_filter (hs.apart _), ← find_eq, hh.value]
    cases find m h k with
    | none => rfl
    | some he =>
      rw [Option.map_some, Option.filter_some, Option.filter_some, hremove]
      split_ifs <;> rfl

/-! ### Iteration -/

/-- All elements in the order of the slots. -/
def allElements (h : Table n β δ) : List (Element β δ) := (List.finRange n).flatMap h.chains

/-- What an iterator has not given out yet. -/
def Iterator.rest (iter : Iterator β δ) (t : Fin n → List (Element β δ)) : List (Element β δ) :=
  iter.current.tail ++ ((List.finRange n).drop iter.slotIndex).flatMap t

theorem drop_slots {i : Nat} (hi : i < n) :
    ((List.finRange n).drop i).flatMap t
      = t ⟨i, hi⟩ ++ ((List.finRange n).drop (i + 1)).flatMap t := by
  rw [List.drop_eq_getElem_cons (by simpa using hi), List.flatMap_cons]
  simp

theorem nextSlot_spec (t : Fin n → List (Element β δ)) {k i : Nat} (hk : k = n - i) :
    (nextSlot t k i = none ∧ ((List.finRange n).drop i).flatMap t = []) ∨
      ∃ j he l, nextSlot t k i = some (j, he :: l) ∧
        ((List.finRange n).drop i).flatMap t
          = he :: l ++ ((List.finRange n).drop (j + 1)).flatMap t := by
  induction k generalizing i with
  | zero =>
    refine .inl ⟨rfl, ?_⟩
    rw [List.drop_eq_nil_of_le (by rw [List.length_finRange]; omega)]
    rfl
  | succ k ih =>
    have hi : i < n := by omega
    unfold nextSlot
    rw [dif_pos hi, drop_slots hi]
    cases hchain : t ⟨i, hi⟩ with
    | nil => exact ih (by omega)
    | cons he l => exact .inr ⟨i, he, l, rfl, rfl⟩

/-- The next element is the first one that has not been given out. -/
theorem nextElement_spec (htable : h.table = some t) (iter : Iterator β δ) :
    (nextElement h iter).1 = (iter.rest t).head? ∧
      (iter.rest t ≠ [] → (nextElement h iter).2.rest t = (iter.rest t).tail) := by
  unfold nextElement Iterator.rest
  rw [htable]
  dsimp only
  cases hcurrent : iter.current.tail with
  | cons he l => exact ⟨rfl, fun _ => rfl⟩
  | nil =>
    rw [List.nil_append, List.isEmpty_nil, if_pos rfl]
    rcases nextSlot_spec t (rfl : n - iter.slotIndex = _) with ⟨hnone, hnil⟩ | ⟨j, he,
      l, hsome, hrest⟩
    · rw [hnone, hnil]
      exact ⟨rfl, fun h0 => absurd rfl h0⟩
    · rw [hsome, hrest]
      exact ⟨rfl, fun _ => rfl⟩

theorem elements_spec (htable : h.table = some t) {fuel : Nat} {iter : Iterator β δ}
    (hfuel : (iter.rest t).length < fuel) : elements h fuel iter = some (iter.rest t) := by
  induction fuel generalizing iter with
  | zero => omega
  | succ fuel ih =>
    obtain ⟨hnext, hrest⟩ := nextElement_spec htable iter
    unfold elements
    rcases hnew : nextElement h iter with ⟨he, iter'⟩
    rw [hnew] at hnext hrest
    cases hlist : iter.rest t with
    | nil =>
      rw [hlist] at hnext
      cases hnext
      rfl
    | cons he' l =>
      rw [hlist] at hnext hfuel hrest
      cases hnext
      have hl : iter'.rest t = l := hrest (List.cons_ne_nil _ _)
      rw [List.length_cons] at hfuel
      dsimp only
      rw [ih (by rw [hl]; omega), hl]
      rfl

theorem length_allElements (hs : h.Sound m) : (allElements h).length = h.size := by
  rw [hs.count, allElements, List.length_flatMap, Buckets.total, Fin.sum_univ_def]

theorem iterate_spec (hs : h.Sound m) :
    elements h (h.size + 1) startIterate = some (allElements h) := by
  cases htable : h.table with
  | none =>
    have hnil : allElements h = [] := by
      unfold allElements
      rw [chains_of_none htable]
      simp
    rw [hnil]
    unfold elements nextElement
    rw [htable]
  | some t =>
    have hrest : (startIterate : Iterator β δ).rest t = allElements h := by
      unfold allElements
      rw [chains_of_some htable]
      rfl
    rw [elements_spec htable, hrest]
    rw [hrest, length_allElements hs]
    exact Nat.lt_succ_self _

/-- No two elements of all slots have the same key. -/
theorem apart_allElements (hs : h.Sound m) :
    (allElements h).Pairwise fun a b => m.compFunc a.key b.key = false := by
  rw [allElements, List.pairwise_flatMap]
  refine ⟨fun i _ => hs.apart i, (List.nodup_finRange n).imp fun {i j} hij a ha b hb => ?_⟩
  rw [← Bool.not_eq_true]
  intro hab
  exact hij ((hs.home i a ha).symm.trans ((m.respects hab).trans (hs.home j b hb)))

theorem mem_allElements {he : Element β δ} : he ∈ allElements h ↔ ∃ i, he ∈ h.chains i := by
  simp [allElements]

theorem lists_allElements (hh : h.Holds m x) :
    x.Lists m ((allElements h).map (·.key)) := by
  refine ⟨List.pairwise_map.mpr (apart_allElements hh.sound), fun k => ?_⟩
  rw [hh.value, Option.isSome_map, find_eq, chainFind, List.find?_isSome]
  constructor
  · rintro ⟨he, hhe, hk⟩
    exact ⟨he.key, List.mem_map_of_mem (mem_allElements.mpr ⟨_, hhe⟩), hk⟩
  · rintro ⟨key, hkey, hk⟩
    obtain ⟨he, hhe, rfl⟩ := List.mem_map.mp hkey
    obtain ⟨i, hhe⟩ := mem_allElements.mp hhe
    refine ⟨he, ?_, hk⟩
    rw [← m.respects hk, hh.sound.home i he hhe]
    exact hhe

/-- An element has the value of its key. -/
theorem value_element (hh : h.Holds m x) {he : Element β δ} (hhe : he ∈ allElements h) :
    x he.key = some he.ptr := by
  obtain ⟨i, hhe⟩ := mem_allElements.mp hhe
  have hi := hh.sound.home i he hhe
  have hapart := hh.sound.apart i
  obtain ⟨pre, post, hchain⟩ := List.append_of_mem hhe
  rw [hchain] at hapart
  have hfind := chainFind_replace hapart (comp_refl m he.key) he.ptr he.dtor he.key
  rw [if_pos (comp_refl m he.key)] at hfind
  rw [hh.value, find_eq, hi, hchain, hfind]
  rfl

/-! Every value that has been stored is in the table, or has gone to its destructor once. -/

/-- Which destructor was called with what; `none` is that of the table. -/
def DtorCall.value : DtorCall β δ → Option δ × β
  | .element dtor _ p => (some dtor, p)
  | .table p => (none, p)

/-- The values of a chain that are not NULL, each with the destructor it is for. -/
def held (c : List (Element β δ)) : Multiset (Option δ × β) :=
  ↑(c.filterMap fun he => he.ptr.map fun p => (he.dtor, p))

/-- The values in the table. -/
def contents (h : Table n β δ) : Multiset (Option δ × β) := ∑ i, held (h.chains i)

/-- The values given to a destructor. -/
def given (calls : List (DtorCall β δ)) : Multiset (Option δ × β) := ↑(calls.map DtorCall.value)

/-- The values that a call destroys. -/
def destroyed (_op : Op β δ) (r : Answer β δ × List (DtorCall β δ)) : Multiset (Option δ × β) :=
  given r.2

/-- The value that a call stores: `Curl_hash_add2` returns it unless there was no memory. -/
def stored (op : Op β δ) (r : Answer β δ × List (DtorCall β δ)) : Multiset (Option δ × β) :=
  match op, r.1 with
  | .add2 _ (some p) dtor _ _, .pointer (some _) => {(dtor, p)}
  | _, _ => 0

/-! ### Chains -/

theorem given_append (c d : List (DtorCall β δ)) : given (c ++ d) = given c + given d := by
  simp [given]

theorem held_append (c d : List (Element β δ)) : held (c ++ d) = held c + held d := by
  simp [held]

theorem held_cons (he : Element β δ) (c : List (Element β δ)) :
    held (he :: c) = given (clearPtr he) + held c := by
  obtain ⟨key, ptr, dtor⟩ := he
  unfold held given clearPtr
  cases ptr with
  | none => simp
  | some p => cases dtor <;> simp [DtorCall.value]

theorem held_sweep (remove : Element β δ → Bool) (c : List (Element β δ)) :
    given (sweep remove c).2.1 + held (sweep remove c).1 = held c := by
  induction c with
  | nil => rfl
  | cons he rest ih =>
    unfold sweep
    rw [held_cons]
    split_ifs
    · rw [given_append, add_assoc, ih]
    · rw [held_cons, add_left_comm, ih]

theorem given_flatMap {ι : Type*} (l : List ι) (f : ι → List (DtorCall β δ)) :
    given (l.flatMap f) = (l.map fun i => given (f i)).sum := by
  induction l with
  | nil => rfl
  | cons i l ih => rw [List.flatMap_cons, given_append, ih, List.map_cons, List.sum_cons]

/-! ### Calls -/

/-- A change of one chain that keeps the balance there keeps it for the table. -/
theorem contents_update {h' : Table n β δ} {slot : Fin n} {c : List (Element β δ)}
    {out new : Multiset (Option δ × β)} (hchains : h'.chains = Function.update h.chains slot c)
    (hlocal : out + held c = held (h.chains slot) + new) :
    out + contents h' = contents h + new := by
  have hsum := sum_update held h.chains slot c
  rw [← hchains] at hsum
  apply add_left_cancel (a := held (h.chains slot))
  calc held (h.chains slot) + (out + contents h')
      = out + (held (h.chains slot) + contents h') := add_left_comm _ _ _
    _ = out + (held c + contents h) := by rw [contents, hsum, contents]
    _ = out + held c + contents h := (add_assoc _ _ _).symm
    _ = held (h.chains slot) + (contents h + new) := by rw [hlocal, add_assoc, add_comm new]

theorem sweepAll_balance (remove : Element β δ → Bool) (h : Table n β δ) :
    given (sweepAll remove h).1 + contents (sweepAll remove h).2 = contents h := by
  unfold sweepAll contents
  cases htable : h.table with
  | none => exact zero_add _
  | some t =>
    dsimp only
    rw [chains_some, chains_of_some htable, given_flatMap, ← Fin.sum_univ_def,
      ← Finset.sum_add_distrib]
    exact Finset.sum_congr rfl fun i _ => held_sweep remove (t i)

theorem add2_balance (key : Key) (p : Option β) (dtor : Option δ) (tableMem elemMem : Bool) :
    destroyed (.add2 key p dtor tableMem elemMem) (step m h (.add2 key p dtor tableMem elemMem)).2
        + contents (step m h (.add2 key p dtor tableMem elemMem)).1
      = contents h + stored (.add2 key p dtor tableMem elemMem)
          (step m h (.add2 key p dtor tableMem elemMem)).2 := by
  -- what is stored with a new value, the answer being that value
  have hnew : ∀ (key' : Key) (calls : List (DtorCall β δ)),
      stored (.add2 key p dtor tableMem elemMem) (.pointer p, calls)
        = given (clearPtr ⟨key', p, dtor⟩) := by
    intro key' calls
    unfold stored clearPtr given
    cases p with
    | none => rfl
    | some p => cases dtor <;> rfl
  have hfailed : ∀ calls : List (DtorCall β δ),
      stored (.add2 key p dtor tableMem elemMem) (.pointer none, calls) = 0 := by
    intro calls
    unfold stored
    cases p <;> rfl
  unfold step destroyed add2
  dsimp only
  by_cases htable : (h.table.isNone && !tableMem) = true
  · rw [if_pos htable, hfailed]
    exact add_comm _ _
  rw [if_neg htable, show h.table.getD (fun _ => []) = h.chains from rfl]
  rcases overwrite_cases p dtor (h.chains (m.hashFunc key)) with
    ⟨hnone, hall⟩ | ⟨pre, he, post, hchain, hcomp, hsome⟩
  · rw [hnone]
    cases elemMem with
    | true =>
      refine (contents_update (h := h) rfl ?_).trans (congrArg (contents h + ·) (hnew key _).symm)
      rw [held_cons]
      exact (zero_add _).trans (add_comm _ _)
    | false =>
      refine Eq.trans ?_ (congrArg (contents h + ·) (hfailed _).symm)
      exact add_comm _ _
  · rw [hsome]
    refine (contents_update (h := h) rfl ?_).trans (congrArg (contents h + ·) (hnew he.key _).symm)
    rw [hchain, held_append, held_append, held_cons, held_cons]
    abel

theorem delete_balance (key : Key) :
    given (delete m h key).2.1 + contents (delete m h key).2.2 = contents h := by
  unfold delete
  cases htable : h.table with
  | none => exact zero_add _
  | some t =>
    dsimp only
    rcases unlink_cases (t (m.hashFunc key)) with
      ⟨hnone, hall⟩ | ⟨pre, he, post, hchain, hcomp, hsome⟩
    · rw [hnone]
      exact zero_add _
    · rw [hsome]
      have ht := chains_of_some htable
      refine (contents_update (h := h) (by rw [ht]; rfl) ?_).trans (add_zero _)
      rw [ht, hchain, held_append, held_append, held_cons]
      abel

/-- What goes to a destructor, and what is in the table after a call, is what was in the table and
what has been stored. -/
theorem step_balance (h : Table n β δ) (op : Op β δ) :
    destroyed op (step m h op).2 + contents (step m h op).1
      = contents h + stored op (step m h op).2 := by
  cases op with
  | add2 key p dtor tableMem elemMem => exact add2_balance key p dtor tableMem elemMem
  | delete key => exact (delete_balance key).trans (add_zero _).symm
  | clean => exact (sweepAll_balance _ h).trans (add_zero _).symm
  | cleanWithCriterium comp => exact (sweepAll_balance _ h).trans (add_zero _).symm
  | pick key => exact add_comm _ _
  | count => exact add_comm _ _
  | iterate => exact add_comm _ _

theorem destroy_balance (h : Table n β δ) : given (destroy h).1 = contents h := by
  unfold destroy
  cases htable : h.table with
  | none =>
    unfold contents
    rw [chains_of_none htable]
    exact (Finset.sum_eq_zero fun i _ => rfl).symm
  | some t =>
    have hsweep := sweepAll_balance (fun _ => true) h
    have hempty : contents (sweepAll (fun _ => true) h).2 = 0 := by
      refine Finset.sum_eq_zero fun i _ => ?_
      rw [chains_sweepAll]
      simp [held]
    rw [hempty, add_zero] at hsweep
    exact hsweep

/-! ### Runs -/

theorem step_allowed {x : Dict β} (op : Op β δ) (hh : h.Holds m x) :
    ∃ y, x.Allows m op (step m h op).2 y ∧ (step m h op).1.Holds m y := by
  cases op with
  | add2 key p dtor tableMem elemMem =>
    rcases add2_holds hh key p dtor tableMem elemMem with ⟨hr, hholds⟩ | ⟨hmem, hr, hholds⟩
    · exact ⟨_, .inl ⟨hr, rfl⟩, hholds⟩
    · exact ⟨x, .inr ⟨hmem, hr, rfl⟩, hholds⟩
  | delete key =>
    obtain ⟨hrc, hholds⟩ := delete_holds hh key
    exact ⟨_, ⟨hrc, rfl⟩, hholds⟩
  | pick key =>
    refine ⟨x, ⟨?_, rfl⟩, hh⟩
    rw [hh.value, pick]
    cases find m h key <;> rfl
  | clean =>
    refine ⟨_, ?_, sweepAll_holds hh (fun _ => true) fun _ => rfl⟩
    funext k
    cases x k <;> rfl
  | cleanWithCriterium comp => exact ⟨_, rfl, sweepAll_holds hh (criterium comp) fun _ => rfl⟩
  | count =>
    refine ⟨x, ⟨⟨_, lists_allElements hh, ?_⟩, rfl⟩, hh⟩
    rw [List.length_map, length_allElements hh.sound]
  | iterate =>
    exact ⟨x, ⟨⟨_, iterate_spec hh.sound, lists_allElements hh, fun he hhe => value_element hh hhe⟩,
      rfl⟩, hh⟩

/-- Any calls are answered as by a dictionary. There is one element for a key at most, `size` is the
number of elements, and each value that was stored is in the table, or has gone to its destructor
once; when the table is destroyed, all others follow. -/
theorem hash_refines (m : Methods n) (ops : List (Op β δ)) :
    (∃ y, Allows (Dict.Allows m) (fun _ => none) ops (answers (step m) init ops) y ∧
        ∀ k, y k = (find m (after (step m) init ops) k).map (·.ptr)) ∧
      ((allElements (after (step m) init ops)).Pairwise fun a b =>
        m.compFunc a.key b.key = false) ∧
      (after (step m) init ops).size = (allElements (after (step m) init ops)).length ∧
      flow destroyed ops (answers (step m) init ops) + contents (after (step m) init ops)
        = flow stored ops (answers (step m) init ops) ∧
      flow destroyed ops (answers (step m) init ops) + given (destroy (after (step m) init ops)).1
        = flow stored ops (answers (step m) init ops) := by
  obtain ⟨y, hallows, hholds⟩ :=
    answers_allowed (fun op hh => step_allowed op hh) (init_holds m) ops
  have hbalance := run_balance (fun h op => step_balance (m := m) h op) init ops
  have hinit : contents (init : Table n β δ) = 0 := Finset.sum_eq_zero fun i _ => rfl
  rw [hinit, zero_add] at hbalance
  refine ⟨⟨y, hallows, hholds.value⟩, apart_allElements hholds.sound,
    (length_allElements hholds.sound).symm, hbalance, ?_⟩
  rw [destroy_balance]
  exact hbalance

/-! ### Byte strings -/

/-- `Curl_hash_str`, with the sign of a `char` extended. -/
def hashStr (key : Key) (slotsNum : Nat) : Nat :=
  (key.foldl (fun (h : BitVec 64) c => (h + (h <<< 5)) ^^^ c.toBitVec.signExtend 64) 5381#64).toNat
    % slotsNum

/-- `curlx_str_key_compare`. -/
def strKeyCompare (k1 k2 : Key) : Bool := k1.length = k2.length && k1 == k2

/-- The functions that curl gives to its own tables. -/
def strMethods (n : Nat) (hn : 0 < n) : Methods n where
  hashFunc key := ⟨hashStr key n, Nat.mod_lt _ hn⟩
  compFunc := strKeyCompare
  equivalence := by
    refine ⟨fun a => by simp [strKeyCompare], fun {a b} h => ?_, fun {a b c} h1 h2 => ?_⟩
    · simp_all [strKeyCompare]
    · simp_all [strKeyCompare]
  respects := by
    intro a b h
    have hab : a = b := by simp_all [strKeyCompare]
    rw [hab]

example :
    let m := strMethods 7 (by decide)
    let h : Table 7 Nat Unit := (add m init [107, 101, 121] (some 5) true true).2.2
    pick m h [107, 101, 121] = some 5 ∧ pick m h [107] = none := by
  decide +kernel

end Gurl.Hash
