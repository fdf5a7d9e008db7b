import Mathlib.Data.List.Nodup
import Mathlib.Data.List.Perm.Subperm
import Mathlib.Data.List.Range

/-! Singly linked lists in a heap of cells. A cell is reached through its address, and which field
links it to the next cell is a parameter. -/

namespace LinkedHeap

abbrev Ptr := Nat

/-- A heap of cells. A cell that has been freed holds nothing, and its address is not used
again. -/
structure Heap (α : Type*) where
  cells : List (Option α)

namespace Heap

variable {α : Type*} {h : Heap α} {p q : Ptr} {a b : α}

def empty : Heap α := ⟨[]⟩

def size (h : Heap α) : Nat := h.cells.length

def get (h : Heap α) (p : Ptr) : Option α := h.cells[p]?.join

def set (h : Heap α) (p : Ptr) (a : α) : Heap α := ⟨h.cells.set p (some a)⟩

def free (h : Heap α) (p : Ptr) : Heap α := ⟨h.cells.set p none⟩

/-- The address of the cell that `alloc` makes. -/
def fresh (h : Heap α) : Ptr := h.cells.length

def alloc (h : Heap α) (a : α) : Heap α := ⟨h.cells ++ [some a]⟩

theorem lt_size (hp : h.get p = some a) : p < h.size := by
  unfold get at hp
  by_contra hlt
  rw [List.getElem?_eq_none (Nat.not_lt.mp hlt)] at hp
  cases hp

theorem get_set_self (hp : h.get p = some b) : (h.set p a).get p = some a := by
  have := lt_size hp
  simp [get, set, List.getElem?_set_self this]

theorem get_set_ne (hne : q ≠ p) : (h.set p a).get q = h.get q := by
  simp [get, set, List.getElem?_set_ne (Ne.symm hne)]

theorem get_free_ne (hne : q ≠ p) : (h.free p).get q = h.get q := by
  simp [get, free, List.getElem?_set_ne (Ne.symm hne)]

theorem get_free_self : (h.free p).get p = none := by
  unfold get free
  rcases Nat.lt_or_ge p h.cells.length with hlt | hge
  · simp [List.getElem?_set_self hlt]
  · rw [List.getElem?_eq_none (by simpa using hge)]
    rfl

theorem get_fresh : h.get h.fresh = none := by
  simp [get, fresh]

theorem get_alloc_self : (h.alloc a).get h.fresh = some a := by
  simp [get, alloc, fresh]

theorem ne_fresh (hp : h.get p = some b) : p ≠ h.fresh :=
  Nat.ne_of_lt (lt_size hp)

theorem get_alloc_ne (hne : p ≠ h.fresh) : (h.alloc a).get p = h.get p := by
  unfold get alloc
  rcases Nat.lt_or_gt_of_ne hne with hlt | hgt
  · rw [List.getElem?_append_left hlt]
  · rw [List.getElem?_eq_none (by simpa [Nat.succ_le_iff, fresh] using hgt),
      List.getElem?_eq_none (Nat.le_of_lt hgt)]

theorem get_alloc (hp : h.get p = some b) : (h.alloc a).get p = some b := by
  rw [get_alloc_ne (ne_fresh hp), hp]

end Heap

/-- `ps` are the cells on the way from `start` to `stop`. -/
inductive Seg {α : Type*} (next : α → Option Ptr) (h : Heap α) :
    Option Ptr → List Ptr → Option Ptr → Prop
  | nil (stop : Option Ptr) : Seg next h stop [] stop
  | cons {p : Ptr} {a : α} {ps : List Ptr} {stop : Option Ptr} :
      h.get p = some a → Seg next h (next a) ps stop → Seg next h (some p) (p :: ps) stop

/-- `ps` are the cells of the list that starts at `start`. -/
abbrev Chain {α : Type*} (next : α → Option Ptr) (h : Heap α) (start : Option Ptr)
    (ps : List Ptr) : Prop :=
  Seg next h start ps none

section

variable {α : Type*} {next : α → Option Ptr} {h h' : Heap α} {start mid stop : Option Ptr}
  {ps qs : List Ptr} {p q t : Ptr} {a : α}

theorem Seg.append (h1 : Seg next h start ps mid) (h2 : Seg next h mid qs stop) :
    Seg next h start (ps ++ qs) stop := by
  induction h1 with
  | nil => exact h2
  | cons hp _ ih => exact .cons hp (ih h2)

theorem Seg.split (hs : Seg next h start (ps ++ qs) stop) :
    ∃ mid, Seg next h start ps mid ∧ Seg next h mid qs stop := by
  induction ps generalizing start with
  | nil => exact ⟨start, .nil _, hs⟩
  | cons p ps ih =>
    cases hs with
    | cons hp hrest =>
      obtain ⟨mid, h1, h2⟩ := ih hrest
      exact ⟨mid, .cons hp h1, h2⟩

/-- A segment depends only on the links of its cells. -/
theorem Seg.congr (hs : Seg next h start ps stop)
    (heq : ∀ p ∈ ps, (h'.get p).map next = (h.get p).map next) : Seg next h' start ps stop := by
  induction hs with
  | nil => exact .nil _
  | @cons p a ps stop hp _ ih =>
    have hnext := heq p (by simp)
    rw [hp, Option.map_some, Option.map_eq_some_iff] at hnext
    obtain ⟨b, hb, hlink⟩ := hnext
    refine .cons hb ?_
    rw [hlink]
    exact ih fun q hq => heq q (by simp [hq])

theorem Seg.set_of_notMem (hs : Seg next h start ps stop) (hp : p ∉ ps) (a : α) :
    Seg next (h.set p a) start ps stop :=
  hs.congr fun q hq => by rw [Heap.get_set_ne (ne_of_mem_of_not_mem hq hp)]

theorem Seg.free_of_notMem (hs : Seg next h start ps stop) (hp : p ∉ ps) :
    Seg next (h.free p) start ps stop :=
  hs.congr fun q hq => by rw [Heap.get_free_ne (ne_of_mem_of_not_mem hq hp)]

/-- Another cell with the same link does not change a list. -/
theorem Seg.set_of_next {b : α} (hs : Seg next h start ps stop) (hp : h.get p = some b)
    (hnext : next a = next b) : Seg next (h.set p a) start ps stop := by
  refine hs.congr fun q _ => ?_
  by_cases hq : q = p
  · subst hq
    rw [Heap.get_set_self hp, hp, Option.map_some, Option.map_some, hnext]
  · rw [Heap.get_set_ne hq]

theorem Seg.get (hs : Seg next h start ps stop) (hp : p ∈ ps) : ∃ a, h.get p = some a := by
  induction hs with
  | nil => cases hp
  | @cons q a ps stop hq _ ih =>
    rcases List.mem_cons.mp hp with rfl | hp
    · exact ⟨a, hq⟩
    · exact ih hp

theorem Seg.alloc (hs : Seg next h start ps stop) (a : α) : Seg next (h.alloc a) start ps stop := by
  induction hs with
  | nil => exact .nil _
  | cons hp _ ih => exact .cons (Heap.get_alloc hp) ih

@[simp] theorem chain_none : Chain next h none ps ↔ ps = [] := by
  constructor
  · intro hc
    cases hc
    rfl
  · rintro rfl
    exact .nil _

theorem chain_some : Chain next h (some p) ps ↔
    ∃ a qs, h.get p = some a ∧ ps = p :: qs ∧ Chain next h (next a) qs := by
  constructor
  · intro hc
    cases hc with
    | cons hp hrest => exact ⟨_, _, hp, rfl, hrest⟩
  · rintro ⟨a, qs, hp, rfl, hrest⟩
    exact .cons hp hrest

/-- A list starts at its first cell. -/
theorem Chain.start_eq (hc : Chain next h start ps) : start = ps.head? := by
  cases hc <;> rfl

/-- The rest of a list, from what its first cell holds. -/
theorem Chain.rest (hc : Chain next h start (p :: ps)) (hp : h.get p = some a) :
    Chain next h (next a) ps := by
  cases hc with
  | cons hp' hrest =>
    rw [hp, Option.some.injEq] at hp'
    rw [hp']
    exact hrest

theorem Chain.unique (h1 : Chain next h start ps) (h2 : Chain next h start qs) : ps = qs := by
  induction ps generalizing start qs with
  | nil =>
    cases h1
    exact (chain_none.mp h2).symm
  | cons p ps ih =>
    cases h1 with
    | cons hp hrest =>
      obtain ⟨a, rs, ha, rfl, hrest'⟩ := chain_some.mp h2
      rw [hp, Option.some.injEq] at ha
      subst ha
      rw [ih hrest hrest']

/-- A list that ends has no cell twice. -/
theorem Chain.nodup (hc : Chain next h start ps) : ps.Nodup := by
  induction ps generalizing start with
  | nil => exact List.nodup_nil
  | cons p ps ih =>
    cases hc with
    | cons hp hrest =>
      refine List.nodup_cons.mpr ⟨fun hmem => ?_, ih hrest⟩
      -- the cells from the second occurrence on would be both `ps` and a proper part of it
      obtain ⟨s, t, rfl⟩ := List.append_of_mem hmem
      obtain ⟨mid, -, h2⟩ := Seg.split hrest
      cases h2 with
      | cons hp' hrest' =>
        rw [hp, Option.some.injEq] at hp'
        subst hp'
        have := congrArg List.length (Chain.unique hrest hrest')
        simp at this
        omega

/-- No more different cells than the heap has. -/
theorem length_le_size (hnodup : ps.Nodup) (hget : ∀ p ∈ ps, ∃ a, h.get p = some a) :
    ps.length ≤ h.size := by
  have hsub : ps ⊆ List.range h.size := by
    intro p hp
    obtain ⟨a, ha⟩ := hget p hp
    exact List.mem_range.mpr (Heap.lt_size ha)
  have := (List.subperm_of_subset hnodup hsub).length_le
  simpa using this

theorem Chain.length_le (hc : Chain next h start ps) : ps.length ≤ h.size :=
  length_le_size hc.nodup fun _ => Seg.get hc

/-- A cell linked behind the last one becomes the last one. -/
theorem Chain.snoc (hc : Chain next h start (ps ++ [t]))
    (hkeep : ∀ p ∈ ps, (h'.get p).map next = (h.get p).map next)
    (ht : (h'.get t).map next = some (some q)) (hq : (h'.get q).map next = some none) :
    Chain next h' start (ps ++ [t, q]) := by
  obtain ⟨mid, h1, h2⟩ := Seg.split hc
  refine (h1.congr hkeep).append ?_
  cases h2 with
  | cons hp hrest =>
    obtain ⟨a, ha, hlink⟩ := Option.map_eq_some_iff.mp ht
    obtain ⟨b, hb, hlast⟩ := Option.map_eq_some_iff.mp hq
    refine .cons ha ?_
    rw [hlink]
    refine .cons hb ?_
    rw [hlast]
    exact .nil _

end

end LinkedHeap

/-! Binary trees in a heap of cells. Which fields of a cell point to its subtrees is a parameter,
and what holds on one side of a tree holds on the other. -/

namespace HeapTree

open LinkedHeap

inductive Side where
  | smaller | larger
  deriving DecidableEq

def Side.other : Side → Side
  | .smaller => .larger
  | .larger => .smaller

@[simp] theorem Side.other_other (s : Side) : s.other.other = s := by cases s <;> rfl

/-- A tree of cells. -/
inductive CellTree where
  | leaf
  | node (smaller : CellTree) (p : Ptr) (larger : CellTree)

namespace CellTree

def inorder : CellTree → List Ptr
  | leaf => []
  | node a p b => a.inorder ++ p :: b.inorder

/-- The tree with the cell `p` at its root, and `a` on the side `s`. -/
def join : Side → CellTree → Ptr → CellTree → CellTree
  | .smaller, a, p, b => node a p b
  | .larger, a, p, b => node b p a

/-- The cells on the way through the tree to the side `s`. -/
def walk : Side → CellTree → List Ptr
  | .smaller, t => t.inorder.reverse
  | .larger, t => t.inorder

theorem join_inj {s : Side} {a a' b b' : CellTree} {p p' : Ptr}
    (h : join s a p b = join s a' p' b') : a = a' ∧ p = p' ∧ b = b' := by
  cases s <;> cases h <;> exact ⟨rfl, rfl, rfl⟩

theorem join_ne_leaf (s : Side) (a : CellTree) (p : Ptr) (b : CellTree) : join s a p b ≠ leaf := by
  cases s <;> nofun

theorem mem_join {s : Side} {a b : CellTree} {p q : Ptr} :
    q ∈ (join s a p b).inorder ↔ q = p ∨ q ∈ a.inorder ∨ q ∈ b.inorder := by
  cases s <;> simp [join, inorder] <;> tauto

theorem walk_join (s : Side) (a : CellTree) (p : Ptr) (b : CellTree) :
    (join s a p b).walk s = b.walk s ++ p :: a.walk s := by
  cases s <;> simp [join, walk, inorder]

theorem walk_other (s : Side) (t : CellTree) : t.walk s.other = (t.walk s).reverse := by
  cases s <;> simp [walk, Side.other]

theorem nodup_walk (s : Side) (t : CellTree) : (t.walk s).Nodup ↔ t.inorder.Nodup := by
  cases s <;> simp [walk]

@[simp] theorem mem_walk {s : Side} {t : CellTree} {p : Ptr} : p ∈ t.walk s ↔ p ∈ t.inorder := by
  cases s <;> simp [walk]

end CellTree

section

variable {α : Type*} {child : Side → α → Option Ptr} {h h' : Heap α} {s : Side} {p : Ptr} {a : α}
  {root : Option Ptr} {t u : CellTree}

/-- The heap holds the tree `t` at `root`. -/
inductive Shape (child : Side → α → Option Ptr) (h : Heap α) : Option Ptr → CellTree → Prop
  | leaf : Shape child h none .leaf
  | node {p : Ptr} {a : α} {t u : CellTree} : h.get p = some a →
    Shape child h (child .smaller a) t →
      Shape child h (child .larger a) u → Shape child h (some p) (.node t p u)

theorem Shape.none_eq (hs : Shape child h none t) : t = .leaf := by
  cases hs
  rfl

theorem Shape.join (hp : h.get p = some a) (ht : Shape child h (child s a) t)
    (hu : Shape child h (child s.other a) u) : Shape child h (some p) (.join s t p u) := by
  cases s with
  | smaller => exact .node hp ht hu
  | larger => exact .node hp hu ht

/-- The root of a tree and its subtrees, seen from the side `s`. -/
theorem Shape.split (hs : Shape child h (some p) t) (s : Side) :
    ∃ a u v, h.get p = some a ∧ t = .join s u p v ∧ Shape child h (child s a) u ∧
      Shape child h (child s.other a) v := by
  cases hs with
  | @node _ a u v hp hu hv =>
    cases s with
    | smaller => exact ⟨a, u, v, hp, rfl, hu, hv⟩
    | larger => exact ⟨a, v, u, hp, rfl, hv, hu⟩

theorem Shape.of_join (hs : Shape child h root (.join s t p u)) :
    root = some p ∧ ∃ a, h.get p = some a ∧ Shape child h (child s a) t ∧
      Shape child h (child s.other a) u := by
  cases s with
  | smaller =>
    cases hs with
    | node hp ht hu => exact ⟨rfl, _, hp, ht, hu⟩
  | larger =>
    cases hs with
    | node hp hu ht => exact ⟨rfl, _, hp, ht, hu⟩

/-- Two heaps link a cell to the same subtrees. -/
def SameChild (child : Side → α → Option Ptr) (h h' : Heap α) (s : Side) (p : Ptr) : Prop :=
  (h'.get p).map (child s) = (h.get p).map (child s)

theorem SameChild.get {s : Side} (hsame : SameChild child h h' s p) (hp : h.get p = some a) :
    ∃ a', h'.get p = some a' ∧ child s a' = child s a := by
  rw [SameChild, hp, Option.map_some, Option.map_eq_some_iff] at hsame
  exact hsame

/-- A tree depends only on the links of its cells. -/
theorem Shape.congr (hs : Shape child h root t)
    (hsame : ∀ p ∈ t.inorder, ∀ s, SameChild child h h' s p) : Shape child h' root t := by
  induction hs with
  | leaf => exact .leaf
  | @node p a t u hp _ _ iht ihu =>
    obtain ⟨a', hp', hsmaller⟩ := (hsame p (by simp [CellTree.inorder]) .smaller).get hp
    obtain ⟨b', hb', hlarger⟩ := (hsame p (by simp [CellTree.inorder]) .larger).get hp
    rw [hp', Option.some.injEq] at hb'
    subst hb'
    refine .node hp' (hsmaller ▸ iht fun q hq => ?_) (hlarger ▸ ihu fun q hq => ?_)
    · exact hsame q (by simp [CellTree.inorder, hq])
    · exact hsame q (by simp [CellTree.inorder, hq])

/-- The cells from `first` to `last` along the links to the side `s`, each with its subtree on the
other side. The link of `last` is open, and so is the other side of `first`. -/
inductive Spine (child : Side → α → Option Ptr) (h : Heap α) (s : Side) (first : Ptr) :
    Ptr → List Ptr → Prop
  | nil : Spine child h s first first []
  | snoc {last p : Ptr} {xs : List Ptr} {a b : α} {t : CellTree} : Spine child h s first last xs →
      h.get last = some a → child s a = some p → h.get p = some b →
      Shape child h (child s.other b) t → Spine child h s first p (xs ++ t.walk s ++ [p])

variable {first last : Ptr} {xs : List Ptr}

theorem Spine.last_mem (hs : Spine child h s first last xs) : last ∈ first :: xs := by
  cases hs with
  | nil => simp
  | snoc => simp

/-- A spine depends on all links of its cells but the two open ones. -/
theorem Spine.congr (hs : Spine child h s first last xs) (hnodup : (first :: xs).Nodup)
    (hlink : ∀ q ∈ first :: xs, q ≠ last → SameChild child h h' s q)
    (hother : ∀ q ∈ xs, SameChild child h h' s.other q) : Spine child h' s first last xs := by
  induction hs with
  | nil => exact .nil
  | @snoc last p xs a b t hspine hlast hnext hp ht ih =>
    have hp_notMem : p ∉ first :: xs ∧ p ∉ t.inorder := by
      rw [← List.cons_append, ← List.cons_append, List.nodup_append] at hnodup
      have hdisjoint := hnodup.2.2
      refine ⟨fun hmem => hdisjoint p (by simp at hmem ⊢; tauto) p (by simp) rfl, fun hmem => ?_⟩
      exact hdisjoint p (by simp [hmem]) p (by simp) rfl
    have hfront : (first :: xs).Nodup := by
      rw [← List.cons_append, ← List.cons_append, List.append_assoc, List.nodup_append] at hnodup
      exact hnodup.1
    have hne : ∀ q ∈ first :: xs, q ≠ p := fun q hq heq => hp_notMem.1 (heq ▸ hq)
    have hmem : ∀ q ∈ first :: xs, q ∈ first :: (xs ++ t.walk s ++ [p]) := fun q hq => by
      simp at hq ⊢
      tauto
    have hspine' := ih hfront (fun q hq _ => hlink q (hmem q hq) (hne q hq))
      fun q hq => hother q (by simp [hq])
    obtain ⟨a', hlast', hlink'⟩ :=
      (hlink last (hmem last hspine.last_mem) (hne last hspine.last_mem)).get hlast
    obtain ⟨b', hp', hother'⟩ := (hother p (by simp)).get hp
    refine .snoc hspine' hlast' (hlink'.trans hnext) hp' ?_
    rw [hother']
    refine ht.congr fun q hq s' => ?_
    have hqp : q ≠ p := fun heq => hp_notMem.2 (heq ▸ hq)
    have hq1 := hlink q (by simp [hq]) hqp
    have hq2 := hother q (by simp [hq])
    cases s <;> cases s' <;> assumption

/-- A tree at the open link of the last cell closes a spine to a tree. -/
theorem Spine.close (hs : Spine child h s first last xs) (hlast : h.get last = some a)
    (ht : Shape child h (child s a) t) :
    ∃ b u, h.get first = some b ∧ Shape child h (child s b) u ∧ u.walk s = xs ++ t.walk s := by
  induction hs generalizing a t with
  | nil => exact ⟨a, t, hlast, ht, rfl⟩
  | @snoc last p xs b c u hspine hlink hnext hp hu ih =>
    rw [hlast, Option.some.injEq] at hp
    subst hp
    obtain ⟨d, v, hfirst, hv, hwalk⟩ := ih hlink (hnext ▸ Shape.join hlast ht hu)
    refine ⟨d, v, hfirst, hv, ?_⟩
    rw [hwalk, CellTree.walk_join]
    simp

end

end HeapTree
