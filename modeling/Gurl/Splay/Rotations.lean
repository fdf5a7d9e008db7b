import Gurl.Splay.Splay

/-! Splaying keeps the nodes in order, and brings the place of a key to the root. -/

namespace Gurl.Splay

open LinkedHeap HeapTree

variable {h h' h'' : Heap Node} {key : Curltime} {s : Side} {p q y : Ptr} {n m : Node}
  {v v' : Splaying}

/-! ### Nodes -/

@[simp] theorem Node.child_setChild (s : Side) (q : Option Ptr) (n : Node) :
    (n.setChild s q).child s = q := by
  cases s <;> rfl

@[simp] theorem Node.child_other_setChild (s : Side) (q : Option Ptr) (n : Node) :
    (n.setChild s q).child s.other = n.child s.other := by
  cases s <;> rfl

@[simp] theorem Node.child_setChild_other (s : Side) (q : Option Ptr) (n : Node) :
    (n.setChild s.other q).child s = n.child s := by
  cases s <;> rfl

theorem update_eq (hp : h.get p = some n) (f : Node → Node) :
    update h p f = some (h.set p (f n)) := by
  simp [update, hp]

/-- All that is not a link between trees stays. -/
structure Node.Kept (n n' : Node) : Prop where
  key : n'.key = n.key
  samen : n'.samen = n.samen
  samep : n'.samep = n.samep

theorem Node.kept_setChild (s : Side) (q : Option Ptr) (n : Node) : n.Kept (n.setChild s q) := by
  cases s <;> exact ⟨rfl, rfl, rfl⟩

/-- In all nodes, only links between trees change. -/
def Kept (h h' : Heap Node) : Prop :=
  ∀ p n, h.get p = some n → ∃ n', h'.get p = some n' ∧ n.Kept n'

theorem Kept.refl (h : Heap Node) : Kept h h := fun _ n hp => ⟨n, hp, rfl, rfl, rfl⟩

theorem Kept.trans (h1 : Kept h h') (h2 : Kept h' h'') : Kept h h'' := by
  intro p n hp
  obtain ⟨n1, hp1, hk1⟩ := h1 p n hp
  obtain ⟨n2, hp2, hk2⟩ := h2 p n1 hp1
  exact ⟨n2, hp2, hk2.key.trans hk1.key, hk2.samen.trans hk1.samen, hk2.samep.trans hk1.samep⟩

theorem Kept.set (hp : h.get p = some n) (hkept : n.Kept m) : Kept h (h.set p m) := by
  intro q n' hq
  by_cases hqp : q = p
  · subst hqp
    rw [hp, Option.some.injEq] at hq
    subst hq
    exact ⟨m, Heap.get_set_self hp, hkept⟩
  · exact ⟨n', (Heap.get_set_ne hqp).trans hq, rfl, rfl, rfl⟩

/-- The heaps agree on the cells outside `ps`. -/
def SameOff (ps : List Ptr) (h h' : Heap Node) : Prop := ∀ q ∉ ps, h'.get q = h.get q

theorem SameOff.child {ps : List Ptr} (hsame : SameOff ps h h') (hq : q ∉ ps) :
    SameChild Node.child h h' s q := by
  rw [SameChild, hsame q hq]

theorem SameOff.shape {ps : List Ptr} {root : Option Ptr} {t : CellTree} (hsame : SameOff ps h h')
    (hs : Shape Node.child h root t) (hout : ∀ q ∈ t.inorder, q ∉ ps) :
    Shape Node.child h' root t :=
  hs.congr fun q hq _ => hsame.child (hout q hq)

theorem SameOff.set (p : Ptr) (m : Node) : SameOff [p] h (h.set p m) :=
  fun q hq => Heap.get_set_ne (by simpa using hq)

/-! ### Rotating and linking -/

/-- The cells of a tree are different from each other. -/
theorem join_nodup {a c : CellTree} (hnodup : (CellTree.join s a p c).inorder.Nodup) :
    (∀ q ∈ a.inorder, q ≠ p) ∧ (∀ q ∈ c.inorder, q ≠ p) ∧ a.inorder.Nodup ∧
      ∀ q ∈ a.inorder, q ∉ c.inorder := by
  rw [← CellTree.nodup_walk s, CellTree.walk_join, List.nodup_append, List.nodup_cons] at hnodup
  obtain ⟨-, ⟨hp, ha⟩, hdisjoint⟩ := hnodup
  refine ⟨fun q hq heq => hp (by simp [← heq, hq]), fun q hq heq => ?_,
    (CellTree.nodup_walk s a).mp ha, fun q hq hqc => ?_⟩
  · exact hdisjoint q (by simp [hq]) p (by simp) heq
  · exact hdisjoint q (by simp [hqc]) q (by simp [hq]) rfl

@[simp] theorem Splaying.linked_heap (v : Splaying) (heap : Heap Node) (next : Ptr) (s : Side) :
    (v.linked heap next s).heap = heap := by
  cases s <;> rfl

@[simp] theorem Splaying.linked_t (v : Splaying) (heap : Heap Node) (next : Ptr) (s : Side) :
    (v.linked heap next s).t = next := by
  cases s <;> rfl

@[simp] theorem Splaying.last_linked (v : Splaying) (heap : Heap Node) (next : Ptr) (s : Side) :
    (v.linked heap next s).last s = v.t := by
  cases s <;> rfl

@[simp] theorem Splaying.last_other_linked (v : Splaying) (heap : Heap Node) (next : Ptr)
    (s : Side) : (v.linked heap next s).last s.other = v.last s.other := by
  cases s <;> rfl

/-- A rotation keeps the order of the nodes. -/
theorem rotate_spec {a b c : CellTree}
    (hs : Shape Node.child v.heap (some v.t) (.join s (.join s a y b) v.t c))
    (hnodup : (CellTree.join s (.join s a y b) v.t c).inorder.Nodup) :
    ∃ heap, rotate s v y = some { v with heap, t := y } ∧
      Shape Node.child heap (some y) (.join s a y (.join s b v.t c)) ∧
      SameOff [v.t, y] v.heap heap ∧ Kept v.heap heap := by
  obtain ⟨-, n, hn, hab, hc⟩ := hs.of_join
  obtain ⟨hroot, m, hm, ha, hb⟩ := hab.of_join
  obtain ⟨hne, hcne, hnodup', hdisjoint⟩ := join_nodup hnodup
  obtain ⟨hane, hbne, -, -⟩ := join_nodup hnodup'
  have hmem : ∀ q, q ∈ (CellTree.join s a y b).inorder ↔ q = y ∨ q ∈ a.inorder ∨ q ∈ b.inorder := by
    intro q
    rw [← CellTree.mem_walk (s := s), CellTree.walk_join]
    simp
    tauto
  have hyt : y ≠ v.t := hne y ((hmem y).mpr (.inl rfl))
  have hm1 : (v.heap.set v.t (n.setChild s (m.child s.other))).get y = some m := by
    rw [Heap.get_set_ne hyt, hm]
  have hn1 : (v.heap.set v.t (n.setChild s (m.child s.other))).get v.t =
      some (n.setChild s (m.child s.other)) := Heap.get_set_self hn
  have hoff : SameOff [v.t, y] v.heap
      ((v.heap.set v.t (n.setChild s (m.child s.other))).set y
        (m.setChild s.other (some v.t))) := by
    intro q hq
    simp only [List.mem_cons, List.not_mem_nil, or_false, not_or] at hq
    rw [Heap.get_set_ne hq.2, Heap.get_set_ne hq.1]
  refine ⟨_, ?_, ?_, hoff, ?_⟩
  · simp only [rotate, hm, update_eq hn, update_eq hm1, Option.bind_eq_bind, Option.bind_some]
  · have ha' := hoff.shape ha fun q hq => by
      simp [hane q hq, hne q ((hmem q).mpr (.inr (.inl hq)))]
    have hb' := hoff.shape hb fun q hq => by
      simp [hbne q hq, hne q ((hmem q).mpr (.inr (.inr hq)))]
    have hc' := hoff.shape hc fun q hq => by
      simp only [List.mem_cons, List.not_mem_nil, or_false, not_or]
      exact ⟨hcne q hq, fun heq => hdisjoint y ((hmem y).mpr (.inl rfl)) (heq ▸ hq)⟩
    have ht' : ((v.heap.set v.t (n.setChild s (m.child s.other))).set y
        (m.setChild s.other (some v.t))).get v.t = some (n.setChild s (m.child s.other)) := by
      rw [Heap.get_set_ne (Ne.symm hyt), hn1]
    refine Shape.join (Heap.get_set_self hm1) (by simpa using ha') ?_
    rw [Node.child_setChild]
    exact Shape.join ht' (by simpa using hb') (by simpa using hc')
  · exact (Kept.set hn (Node.kept_setChild _ _ _)).trans (Kept.set hm1 (Node.kept_setChild _ _ _))

/-! ### The loop -/

/-- A list of nodes in the order of the side `s`. -/
def oriented : Side → List Ptr → List Ptr
  | .smaller, ps => ps.reverse
  | .larger, ps => ps

theorem oriented_other (s : Side) (ps : List Ptr) :
    oriented s.other ps = (oriented s ps).reverse := by
  cases s <;> simp [oriented, Side.other]

/-- The loop is at the tree `t`. The nodes `xs s` are linked aside on the way to the side `s`, and
all nodes together are still in the order of `whole`. -/
structure Looping (header : Ptr) (whole : List Ptr) (v : Splaying) (t : CellTree)
    (xs : Side → List Ptr) : Prop where
  shape : Shape Node.child v.heap (some v.t) t
  spine : ∀ s, Spine Node.child v.heap s header (v.last s) (xs s)
  order : ∀ s, xs s ++ t.walk s ++ (xs s.other).reverse = oriented s whole
  nodup : (header :: whole).Nodup
  there : ∃ n, v.heap.get header = some n

variable {header : Ptr} {whole : List Ptr} {t : CellTree} {xs : Side → List Ptr}

/-- The order needs to be checked from one side only. -/
theorem order_of_side {s : Side}
    (h : xs s ++ t.walk s ++ (xs s.other).reverse = oriented s whole) (s' : Side) :
    xs s' ++ t.walk s' ++ (xs s'.other).reverse = oriented s' whole := by
  by_cases heq : s' = s
  · rw [heq]
    exact h
  · obtain rfl : s' = s.other := by
      cases s <;> cases s' <;> simp [Side.other] at heq ⊢
    rw [oriented_other, ← h, Side.other_other, CellTree.walk_other]
    simp

theorem Looping.mem_whole (h : Looping header whole v t xs) (q : Ptr) :
    q ∈ whole ↔ q ∈ xs s ∨ q ∈ t.inorder ∨ q ∈ xs s.other := by
  have hmem : q ∈ oriented s whole ↔ q ∈ whole := by cases s <;> simp [oriented]
  rw [← hmem, ← h.order s]
  simp

/-- The header and the nodes of the three parts are all different. -/
theorem Looping.nodup_parts (h : Looping header whole v t xs) (s : Side) :
    (header :: xs s).Nodup ∧ t.inorder.Nodup ∧ (∀ q ∈ t.inorder, q ≠ header ∧ q ∉ xs s) ∧
      ∀ q ∈ xs s, q ≠ header ∧ q ∉ xs s.other := by
  have hnodup : (header :: (xs s ++ t.walk s ++ (xs s.other).reverse)).Nodup := by
    rw [h.order s]
    cases s
    · simpa [oriented] using h.nodup
    · exact h.nodup
  simp only [List.nodup_cons, List.nodup_append, List.mem_append, List.mem_reverse, not_or,
    CellTree.mem_walk, CellTree.nodup_walk] at hnodup
  obtain ⟨⟨⟨hx, ht⟩, hy⟩, ⟨hxs, htree, hxt⟩, -, hall⟩ := hnodup
  refine ⟨List.nodup_cons.mpr ⟨hx, hxs⟩, htree,
    fun q hq => ⟨fun heq => ht (heq ▸ hq), fun hqx => ?_⟩,
    fun q hq => ⟨fun heq => hx (heq ▸ hq), fun hqy => ?_⟩⟩
  · exact hxt q hqx q hq rfl
  · exact hall q (.inl hq) q hqy rfl

/-- Nodes of the tree can change without a change to the nodes linked aside. -/
theorem Looping.replace (h : Looping header whole v t xs) {ps : List Ptr} {heap : Heap Node}
    {u : CellTree} (hoff : SameOff ps v.heap heap) (hin : ∀ q ∈ ps, q ∈ t.inorder)
    (hshape : Shape Node.child heap (some p) u) (hwalk : u.walk s = t.walk s) :
    Looping header whole { v with heap, t := p } u xs where
  shape := hshape
  spine s := by
    obtain ⟨hnodup, -, hout, -⟩ := h.nodup_parts s
    have hoff' : ∀ q ∈ header :: xs s, q ∉ ps := fun q hq hqp => by
      obtain ⟨hne, hnot⟩ := hout q (hin q hqp)
      exact (List.mem_cons.mp hq).elim hne hnot
    have hspine : Spine Node.child heap s header (v.last s) (xs s) :=
      (h.spine s).congr hnodup (fun q hq _ => hoff.child (hoff' q hq))
        fun q hq => hoff.child (hoff' q (List.mem_cons_of_mem _ hq))
    cases s <;> exact hspine
  order := order_of_side (s := s) (hwalk ▸ h.order s)
  nodup := h.nodup
  there := by
    obtain ⟨n, hn⟩ := h.there
    refine ⟨n, (hoff header fun hmem => ?_).trans hn⟩
    exact ((h.nodup_parts .larger).2.2.1 header (hin header hmem)).1 rfl

theorem Looping.get_last (h : Looping header whole v t xs) (s : Side) :
    ∃ n, v.heap.get (v.last s) = some n := by
  have hspine := h.spine s
  generalize v.last s = last at hspine
  generalize xs s = ys at hspine
  cases hspine with
  | nil => exact h.there
  | snoc _ _ _ hp _ => exact ⟨_, hp⟩

theorem Looping.last_notMem (h : Looping header whole v t xs) (s : Side) :
    v.last s ∉ t.inorder := by
  intro hin
  obtain ⟨-, -, hout, -⟩ := h.nodup_parts s
  obtain ⟨hne, hnot⟩ := hout _ hin
  exact (List.mem_cons.mp (h.spine s).last_mem).elim hne hnot

/-- The last node that is linked aside, with another node behind its open link. -/
def Splaying.openLink (v : Splaying) (s : Side) (n : Node) (q : Option Ptr) : Splaying :=
  { v with heap := v.heap.set (v.last s) (n.setChild s q) }

theorem Splaying.openLink_other (hn : v.heap.get (v.last s) = some n) (o : Option Ptr) (q : Ptr) :
    SameChild Node.child v.heap (v.openLink s n o).heap s.other q := by
  by_cases hlast : q = v.last s
  · rw [hlast, SameChild, hn, Splaying.openLink, Heap.get_set_self hn, Option.map_some,
      Option.map_some, Node.child_other_setChild]
  · exact (SameOff.set (v.last s) (n.setChild s o)).child (by simpa using hlast)

/-- The open link of a list does not matter. -/
theorem Looping.openLink (h : Looping header whole v t xs)
    (hn : v.heap.get (v.last s) = some n) (q : Option Ptr) :
    Looping header whole (v.openLink s n q) t xs := by
  have hoff : SameOff [v.last s] v.heap (v.openLink s n q).heap := SameOff.set _ _
  have hkeep := Splaying.openLink_other hn q
  refine ⟨?_, fun s' => ?_, h.order, h.nodup, ?_⟩
  · refine hoff.shape h.shape fun q' hq' => ?_
    rw [List.mem_singleton]
    exact fun heq => h.last_notMem s (heq ▸ hq')
  · have hlast : (v.openLink s n q).last s' = v.last s' := by cases s' <;> rfl
    obtain ⟨hnodup, -, -, hxs⟩ := h.nodup_parts s'
    rw [hlast]
    by_cases heq : s' = s
    · subst heq
      exact (h.spine s').congr hnodup (fun q' _ hne => hoff.child (by simpa using hne))
        fun q' _ => hkeep q'
    · obtain rfl : s' = s.other := by
        cases s <;> cases s' <;> simp [Side.other] at heq ⊢
      refine (h.spine s.other).congr hnodup (fun q' _ _ => hkeep q') fun q' hq' => ?_
      refine hoff.child ?_
      rw [List.mem_singleton]
      rintro rfl
      obtain ⟨hne, hnot⟩ := hxs _ hq'
      rw [Side.other_other] at hnot
      exact (List.mem_cons.mp (h.spine s).last_mem).elim hne hnot
  · obtain ⟨m, hm⟩ := h.there
    by_cases hheader : header = v.last s
    · rw [hheader]
      exact ⟨_, Heap.get_set_self hn⟩
    · exact ⟨m, (Heap.get_set_ne hheader).trans hm⟩

/-- What the loop does to the heap. -/
structure Moved (header : Ptr) (whole : List Ptr) (h h' : Heap Node) : Prop where
  kept : Kept h h'
  off : SameOff (header :: whole) h h'

theorem Moved.refl (h : Heap Node) : Moved header whole h h := ⟨.refl h, fun _ _ => rfl⟩

theorem Moved.trans (h1 : Moved header whole h h') (h2 : Moved header whole h' h'') :
    Moved header whole h h'' :=
  ⟨h1.kept.trans h2.kept, fun q hq => (h2.off q hq).trans (h1.off q hq)⟩

theorem Moved.set (hp : h.get p = some n) (hkept : n.Kept m) (hmem : p ∈ header :: whole) :
    Moved header whole h (h.set p m) :=
  ⟨.set hp hkept, fun _ hq => Heap.get_set_ne fun heq => hq (heq ▸ hmem)⟩

theorem Looping.last_mem (h : Looping header whole v t xs) (s : Side) :
    v.last s ∈ header :: whole := by
  rcases List.mem_cons.mp (h.spine s).last_mem with heq | hx
  · exact heq ▸ List.mem_cons_self
  · exact List.mem_cons_of_mem _ ((h.mem_whole (s := s) _).mpr (.inl hx))

theorem Looping.openLink_moved (h : Looping header whole v t xs)
    (hn : v.heap.get (v.last s) = some n) (q : Option Ptr) :
    Moved header whole v.heap (v.openLink s n q).heap :=
  .set hn (Node.kept_setChild _ _ _) (h.last_mem s)

/-- A node with its other subtree is linked aside, and the loop goes on in the subtree on the side
`s`. -/
theorem link_spec {a c : CellTree} {next : Ptr} (h : Looping header whole v (.join s a v.t c) xs)
    (hnext : Shape Node.child v.heap (some next) a) :
    ∃ v', link s v next = some v' ∧ Moved header whole v.heap v'.heap ∧
      Looping header whole v' a (Function.update xs s (xs s ++ c.walk s ++ [v.t])) := by
  obtain ⟨n, hn⟩ := h.get_last s
  have hmoved := h.openLink_moved hn (some v.t)
  have h1 := h.openLink hn (some v.t)
  have hlast : (v.openLink s n (some v.t)).heap.get (v.last s) =
      some (n.setChild s (some v.t)) := Heap.get_set_self hn
  have ha : Shape Node.child (v.openLink s n (some v.t)).heap (some next) a := by
    refine (SameOff.set (v.last s) (n.setChild s (some v.t))).shape hnext fun q hq => ?_
    rw [List.mem_singleton]
    rintro rfl
    refine h.last_notMem s ?_
    cases s <;> simp [CellTree.join, CellTree.inorder, hq]
  have hlinked : link s v next =
      some (v.linked (v.openLink s n (some v.t)).heap next s) := by
    simp only [link, update_eq hn, Option.bind_eq_bind, Option.bind_some]
    rfl
  obtain ⟨-, b, hb, -, hc⟩ := h1.shape.of_join
  refine ⟨_, hlinked, ?_, ?_, fun s' => ?_, ?_, h.nodup, ?_⟩
  · rw [Splaying.linked_heap]
    exact hmoved
  · rw [Splaying.linked_heap, Splaying.linked_t]
    exact ha
  · have hspine : Spine Node.child (v.openLink s n (some v.t)).heap s' header
      (v.last s') (xs s') := by
      cases s' <;> exact h1.spine _
    rw [Splaying.linked_heap]
    by_cases heq : s' = s
    · subst heq
      rw [Splaying.last_linked, Function.update_self]
      exact .snoc hspine hlast (Node.child_setChild _ _ _) hb hc
    · obtain rfl : s' = s.other := by
        cases s <;> cases s' <;> simp [Side.other] at heq ⊢
      rw [Splaying.last_other_linked, Function.update_of_ne heq]
      exact hspine
  · refine order_of_side (s := s) ?_
    have hne : s.other ≠ s := by cases s <;> simp [Side.other]
    rw [Function.update_self, Function.update_of_ne hne, ← h.order s, CellTree.walk_join]
    simp
  · rw [Splaying.linked_heap]
    exact h1.there

/-- The nodes are in the order of their keys: `sd p` is the side of `p` on which a key lies. -/
def Sorted (sd : Ptr → Option Side) (whole : List Ptr) : Prop :=
  ∀ s : Side, (oriented s whole).Pairwise fun p q => sd q ≠ some s.other → sd p = some s

variable {sd : Ptr → Option Side}

/-- The subtree on a side where the key is not lies on the other side of the key. -/
theorem Looping.subtree {a c : CellTree} (h : Looping header whole v (.join s a v.t c) xs)
    (hsorted : Sorted sd whole) (ht : sd v.t ≠ some s) : ∀ q ∈ a.inorder, sd q = some s.other := by
  intro q hq
  have hpairwise := hsorted s.other
  have hflip : CellTree.join s a v.t c = CellTree.join s.other c v.t a := by cases s <;> rfl
  rw [← h.order s.other, hflip, CellTree.walk_join] at hpairwise
  have hpair := (List.pairwise_append.mp (List.pairwise_append.mp hpairwise).1).2.1
  refine (List.pairwise_append.mp hpair).2.2 q (by simp [hq]) v.t (by simp) ?_
  rw [Side.other_other]
  exact ht

/-- The state of the loop, with the sides of all nodes. -/
structure Splayed (key : Curltime) (sd : Ptr → Option Side) (header : Ptr) (whole : List Ptr)
    (v : Splaying) (t : CellTree) (xs : Side → List Ptr) : Prop where
  looping : Looping header whole v t xs
  sides : ∀ p ∈ whole, ∃ n, v.heap.get p = some n ∧ side key n = sd p
  aside : ∀ s, ∀ q ∈ xs s, sd q = some s

theorem Splayed.sides_kept (h : Splayed key sd header whole v t xs) (hkept : Kept v.heap h') :
    ∀ p ∈ whole, ∃ n, h'.get p = some n ∧ side key n = sd p := by
  intro p hp
  obtain ⟨n, hn, hside⟩ := h.sides p hp
  obtain ⟨n', hn', hk⟩ := hkept p n hn
  exact ⟨n', hn', by rw [← hside, side, side, hk.key]⟩

theorem Looping.root_mem (h : Looping header whole v t xs) : v.t ∈ t.inorder := by
  obtain ⟨n, a, c, -, rfl, -⟩ := h.shape.split .smaller
  simp [CellTree.join, CellTree.inorder]

theorem Splayed.root_mem (h : Splayed key sd header whole v t xs) : v.t ∈ whole := by
  obtain ⟨n, a, c, -, rfl, -⟩ := h.looping.shape.split .smaller
  rw [h.looping.mem_whole (s := .smaller)]
  exact .inr (.inl (by simp [CellTree.join, CellTree.inorder]))

/-- A node that lies on a side of the key is linked aside with its other subtree. -/
theorem Splayed.link {a c : CellTree} {next : Ptr}
    (h : Splayed key sd header whole v (.join s a v.t c) xs) (hsorted : Sorted sd whole)
    (ht : sd v.t = some s) (hnext : Shape Node.child v.heap (some next) a) :
    ∃ v' xs', Splay.link s v next = some v' ∧ Moved header whole v.heap v'.heap ∧
      Splayed key sd header whole v' a xs' := by
  obtain ⟨v', hlink, hmoved, hloop⟩ := link_spec h.looping hnext
  refine ⟨v', _, hlink, hmoved, hloop, h.sides_kept hmoved.kept, fun s' q hq => ?_⟩
  by_cases heq : s' = s
  · subst heq
    rw [Function.update_self] at hq
    have hflip : CellTree.join s' a v.t c = CellTree.join s'.other c v.t a := by cases s' <;> rfl
    have hloop' := h.looping
    rw [hflip] at hloop'
    have hsub := hloop'.subtree hsorted (by rw [ht]; cases s' <;> simp [Side.other])
    rw [Side.other_other] at hsub
    simp only [List.mem_append, CellTree.mem_walk, List.mem_singleton] at hq
    rcases hq with (hq | hq) | rfl
    · exact h.aside s' q hq
    · exact hsub q hq
    · exact ht
  · rw [Function.update_of_ne heq] at hq
    exact h.aside s' q hq

/-- A pass of the loop. -/
theorem descend_spec (h : Splayed key sd header whole v t xs) (hsorted : Sorted sd whole)
    (ht : sd v.t = some s) :
    ∃ v' more t' xs', descend key s v = some (v', more) ∧ Moved header whole v.heap v'.heap ∧
      Splayed key sd header whole v' t' xs' ∧
      (more = true → t'.inorder.length < t.inorder.length) ∧
      (more = false → sd v'.t = some s ∧ ∃ c, t' = .join s .leaf v'.t c) ∧
      (∀ c, t = .join s .leaf v.t c → v'.t = v.t ∧ more = false) ∧
      ∀ u c, t = .join s u v.t c → u ≠ .leaf →
        v'.t ∈ u.inorder ∧ (more = true → t'.inorder ⊆ u.inorder) := by
  obtain ⟨n, u, c, hn, rfl, hu, hc⟩ := h.looping.shape.split s
  have hlength : ∀ (a b : CellTree) (p : Ptr), (CellTree.join s a p b).inorder.length =
      a.inorder.length + b.inorder.length + 1 := by
    intro a b p
    cases s <;> simp [CellTree.join, CellTree.inorder] <;> omega
  unfold descend
  simp only [hn, Option.bind_eq_bind, Option.bind_some]
  cases hchild : n.child s with
  | none =>
    rw [hchild] at hu
    obtain rfl := hu.none_eq
    refine ⟨v, false, _, xs, rfl, .refl _, h, by simp, fun _ => ⟨ht, c, rfl⟩, fun _ _ => ⟨rfl, rfl⟩,
      fun u c' heq hne => ?_⟩
    exact absurd (CellTree.join_inj heq).1.symm hne
  | some y =>
    rw [hchild] at hu
    obtain ⟨m, a, b, hm, rfl, ha, hb⟩ := hu.split s
    have hy : y ∈ whole := by
      rw [h.looping.mem_whole (s := s)]
      refine .inr (.inl ?_)
      cases s <;> simp [CellTree.join, CellTree.inorder]
    obtain ⟨m', hm', hside⟩ := h.sides y hy
    rw [hm, Option.some.injEq] at hm'
    subst hm'
    simp only [hm, Option.bind_some, hside]
    split
    · -- two nodes in a row on the same side
      rename_i hsame
      have hnodup := (h.looping.nodup_parts s).2.1
      obtain ⟨heap, hrotate, hshape, hoff, hkept⟩ := rotate_spec h.looping.shape hnodup
      have hin : ∀ q ∈ [v.t, y], q ∈ (CellTree.join s (.join s a y b) v.t c).inorder := by
        intro q hq
        cases s <;> simp [CellTree.join, CellTree.inorder] at hq ⊢ <;> tauto
      have hwalk : (CellTree.join s a y (.join s b v.t c)).walk s =
          (CellTree.join s (.join s a y b) v.t c).walk s := by
        simp [CellTree.walk_join]
      have hmoved : Moved header whole v.heap heap := by
        refine ⟨hkept, fun q hq => hoff q fun hmem => hq ?_⟩
        exact List.mem_cons_of_mem _
          ((h.looping.mem_whole (s := s) q).mpr (.inr (.inl (hin q hmem))))
      have h1 : Splayed key sd header whole { v with heap, t := y }
          (.join s a y (.join s b v.t c)) xs :=
        ⟨h.looping.replace hoff hin hshape hwalk, h.sides_kept hkept, h.aside⟩
      obtain ⟨-, m1, hm1, ha1, -⟩ := hshape.of_join
      simp only [hrotate, Option.bind_some, hm1]
      cases hchild1 : m1.child s with
      | none =>
        rw [hchild1] at ha1
        obtain rfl := ha1.none_eq
        refine ⟨_, false, _, xs, rfl, hmoved, h1,
          by simp, fun _ => ⟨hsame, _, rfl⟩, fun c' heq => ?_, fun u c' heq _ => ?_⟩
        · exact absurd (CellTree.join_inj heq).1 (CellTree.join_ne_leaf _ _ _ _)
        · obtain ⟨rfl, -⟩ := CellTree.join_inj heq
          exact ⟨CellTree.mem_join.mpr (.inl rfl), by simp⟩
      | some next =>
        rw [hchild1] at ha1
        obtain ⟨v', xs', hlink, hmoved', h2⟩ := h1.link hsorted hsame ha1
        refine ⟨v', true, a, xs', by simp [hlink], hmoved.trans hmoved', h2, fun _ => ?_, by simp,
          fun c' heq => ?_, fun u c' heq _ => ?_⟩
        · rw [hlength, hlength]
          omega
        · exact absurd (CellTree.join_inj heq).1 (CellTree.join_ne_leaf _ _ _ _)
        · obtain ⟨rfl, -⟩ := CellTree.join_inj heq
          have hsub : a.inorder ⊆ (CellTree.join s a y b).inorder := fun q hq =>
            CellTree.mem_join.mpr (.inr (.inl hq))
          exact ⟨hsub h2.looping.root_mem, fun _ => hsub⟩
    · obtain ⟨v', xs', hlink, hmoved', h2⟩ := h.link hsorted ht hu
      refine ⟨v', true, _, xs',
        by simp [hlink], hmoved', h2, fun _ => ?_, by simp, fun c' heq => ?_, fun u c' heq _ => ?_⟩
      · rw [hlength (.join s a y b)]
        omega
      · exact absurd (CellTree.join_inj heq).1 (CellTree.join_ne_leaf _ _ _ _)
      · obtain ⟨rfl, -⟩ := CellTree.join_inj heq
        exact ⟨h2.looping.root_mem, fun _ => List.Subset.refl _⟩

/-- At the end of the loop, the key lies between the subtrees of the root. -/
theorem splayLoop_spec {fuel : Nat} (h : Splayed key sd header whole v t xs)
    (hsorted : Sorted sd whole) (hfuel : t.inorder.length < fuel) :
    ∃ v' t' xs', splayLoop key fuel v = some v' ∧ Moved header whole v.heap v'.heap ∧
      Splayed key sd header whole v' t' xs' ∧
      (∀ s a c, t' = .join s a v'.t c → ∀ q ∈ a.inorder, sd q = some s.other) ∧
      v'.t ∈ t.inorder ∧
      (v'.t = v.t ↔ ∀ s u c, sd v.t = some s → t = .join s u v.t c → u = .leaf) := by
  induction fuel generalizing v t xs with
  | zero => omega
  | succ fuel ih =>
    obtain ⟨n, hn, hside⟩ := h.sides v.t h.root_mem
    rw [splayLoop]
    simp only [hn, Option.bind_eq_bind, Option.bind_some, hside]
    cases ht : sd v.t with
    | none =>
      refine ⟨v, t, xs, rfl, .refl _, h, ?_, h.looping.root_mem, by simp⟩
      rintro s a c rfl
      exact h.looping.subtree hsorted (by simp [ht])
    | some s =>
      obtain ⟨v1, more, t1, xs1, hdescend, hmoved, h1, hmore, hlast, hleaf, hbelow⟩ :=
        descend_spec h hsorted ht
      obtain ⟨n', u, c, -, rfl, -⟩ := h.looping.shape.split s
      have hne : ∀ q ∈ u.inorder, q ≠ v.t := (join_nodup (h.looping.nodup_parts s).2.1).1
      -- the root stays if there is nothing on the side of the key
      have hroot {q : Ptr} (hstays : u = .leaf → q = v.t) (hgoes : u ≠ .leaf → q ∈ u.inorder) :
          q ∈ (CellTree.join s u v.t c).inorder ∧ (q = v.t ↔ ∀ s' u' c', some s = some s' →
            CellTree.join s u v.t c = .join s' u' v.t c' → u' = .leaf) := by
        by_cases hu : u = .leaf
        · refine ⟨CellTree.mem_join.mpr (.inl (hstays hu)), ⟨fun _ => ?_, fun _ => hstays hu⟩⟩
          rintro s' u' c' heqs heq
          cases heqs
          exact (CellTree.join_inj heq).1.symm.trans hu
        · refine ⟨CellTree.mem_join.mpr (.inr (.inl (hgoes hu))), ⟨fun heq => ?_, fun hall => ?_⟩⟩
          · exact absurd heq (hne q (hgoes hu))
          · exact absurd (hall s u c rfl rfl) hu
      simp only [hdescend, Option.bind_some]
      cases more with
      | true =>
        have := hmore rfl
        obtain ⟨v2, t2, xs2, hloop, hmoved2, h2, hsides, hmem, -⟩ := ih h1 (by omega)
        refine ⟨v2, t2, xs2, by simpa using hloop, hmoved.trans hmoved2, h2, hsides,
          hroot (fun hu => ?_) fun hu => (hbelow u c rfl hu).2 rfl hmem⟩
        cases (hleaf c (by rw [hu])).2
      | false =>
        obtain ⟨ht1, c', rfl⟩ := hlast rfl
        refine ⟨v1, _, xs1, by simp, hmoved, h1, ?_,
          hroot (fun hu => (hleaf c (by rw [hu])).1) fun hu => (hbelow u c rfl hu).1⟩
        intro s' a c' heq
        by_cases hs : s' = s
        · -- nothing is left on the side of the key
          subst hs
          obtain rfl : a = .leaf := by
            cases s' <;> cases heq <;> rfl
          exact fun q hq => nomatch hq
        · have hloop := h1.looping
          rw [heq] at hloop
          exact hloop.subtree hsorted (by rw [ht1]; simpa using Ne.symm hs)

/-! ### The whole function -/

/-- A tree at the open link of a list, and all nodes that are linked aside. -/
theorem Looping.close (h : Looping header whole v t xs) {a : CellTree}
    (hn : v.heap.get (v.last s) = some n) (ha : Shape Node.child v.heap (n.child s) a) :
    ∃ b u, v.heap.get header = some b ∧ Shape Node.child v.heap (b.child s) u ∧
      u.walk s = xs s ++ a.walk s :=
  (h.spine s).close hn ha

/-- The two lists are closed to the subtrees of the root. -/
theorem assemble_spec {a c : CellTree} (h : Looping header whole v (.node a v.t c) xs) :
    ∃ heap u w, assemble v header = some heap ∧ Shape Node.child heap (some v.t) (.node u v.t w) ∧
      u.inorder = xs .larger ++ a.inorder ∧ w.inorder = c.inorder ++ (xs .smaller).reverse ∧
      Moved header whole v.heap heap := by
  obtain ⟨-, n, hn, ha, hc⟩ := Shape.of_join (s := .smaller) h.shape
  obtain ⟨nl, hl⟩ := h.get_last .larger
  have h1 := h.openLink hl n.smaller
  have hmoved1 := h.openLink_moved hl n.smaller
  obtain ⟨nr, hr⟩ := h1.get_last .smaller
  have h2 := h1.openLink hr n.larger
  have hmoved2 := h1.openLink_moved hr n.larger
  have hroot : v.t ∈ (CellTree.node a v.t c).inorder := by simp [CellTree.inorder]
  have hnl : v.t ≠ v.l := fun heq => h.last_notMem .larger (heq ▸ hroot)
  have hnr : v.t ≠ v.r := fun heq => h.last_notMem .smaller (heq ▸ hroot)
  have hn1 : (v.openLink .larger nl n.smaller).heap.get v.t = some n :=
    (Heap.get_set_ne hnl).trans hn
  have hl1 : (v.openLink .larger nl n.smaller).heap.get v.l =
      some (nl.setChild .larger n.smaller) := Heap.get_set_self hl
  obtain ⟨nl2, hl2, hlarger⟩ := (Splaying.openLink_other hr n.larger v.l).get hl1
  have hn2 : ((v.openLink .larger nl n.smaller).openLink .smaller nr n.larger).heap.get v.t =
      some n := (Heap.get_set_ne hnr).trans hn1
  have hr2 : ((v.openLink .larger nl n.smaller).openLink .smaller nr n.larger).heap.get v.r =
      some (nr.setChild .smaller n.larger) := Heap.get_set_self hr
  obtain ⟨-, m, hm, ha2, hc2⟩ := Shape.of_join (s := .smaller) h2.shape
  rw [show m = n from Option.some.inj (hm.symm.trans hn2)] at ha2 hc2
  obtain ⟨b, u, hb, hu, huwalk⟩ := h2.close (s := .larger) hl2 (hlarger ▸ ha2)
  obtain ⟨b', w, hb', hw, hwwalk⟩ := h2.close (s := .smaller) hr2 hc2
  rw [hb, Option.some.injEq] at hb'
  subst hb'
  have hassemble : assemble v header =
      some (((v.openLink .larger nl n.smaller).openLink .smaller nr n.larger).heap.set v.t
        { n with smaller := b.larger, larger := b.smaller }) := by
    have hl' : v.heap.get v.l = some nl := hl
    have hr' : (v.heap.set v.l (nl.setChild .larger n.smaller)).get v.r = some nr := hr
    simp only [assemble, hn, Option.bind_eq_bind, Option.bind_some, update_eq hl', update_eq hr']
    simp only [Splaying.openLink, Splaying.last] at hb hn2 ⊢
    rw [hb, Option.bind_some, update_eq hn2]
  have huorder : u.inorder = xs .larger ++ a.inorder := huwalk
  have hworder : w.inorder = c.inorder ++ (xs .smaller).reverse := by
    have := congrArg List.reverse hwwalk
    simpa [CellTree.walk] using this
  obtain ⟨-, htree, hout, -⟩ := h.nodup_parts .larger
  obtain ⟨-, -, hout', -⟩ := h.nodup_parts .smaller
  obtain ⟨hane, hcne, -, -⟩ := join_nodup (s := .smaller) htree
  have hset := SameOff.set (h := ((v.openLink .larger nl n.smaller).openLink .smaller nr
    n.larger).heap) v.t { n with smaller := b.larger, larger := b.smaller }
  refine ⟨_, u, w, hassemble, .node (Heap.get_set_self hn2) (hset.shape hu fun q hq => ?_)
    (hset.shape hw fun q hq => ?_), huorder, hworder, ?_⟩
  · rw [List.mem_singleton]
    rintro rfl
    rw [huorder, List.mem_append] at hq
    exact hq.elim (hout _ hroot).2 fun hqa => hane _ hqa rfl
  · rw [List.mem_singleton]
    rintro rfl
    rw [hworder, List.mem_append, List.mem_reverse] at hq
    exact hq.elim (fun hqc => hcne _ hqc rfl) (hout' _ hroot).2
  · refine (hmoved1.trans hmoved2).trans (.set hn2 ⟨rfl, rfl, rfl⟩ (List.mem_cons_of_mem _ ?_))
    exact (h.mem_whole (s := .larger) v.t).mpr (.inr (.inl hroot))

/-- Splaying keeps all nodes in order. The key lies between the subtrees of the new root. -/
theorem splay_spec {root : Ptr} {t : CellTree} {sd : Ptr → Option Side}
    (hs : Shape Node.child h (some root) t) (hnodup : t.inorder.Nodup)
    (hsides : ∀ p ∈ t.inorder, ∃ n, h.get p = some n ∧ side key n = sd p)
    (hsorted : Sorted sd t.inorder) :
    ∃ h' q a c, splay h key (some root) = some (h', some q) ∧
      Shape Node.child h' (some q) (.node a q c) ∧ a.inorder ++ q :: c.inorder = t.inorder ∧
      (∀ p ∈ a.inorder, sd p = some .larger) ∧ (∀ p ∈ c.inorder, sd p = some .smaller) ∧
      Kept h h' ∧ SameOff t.inorder h h' ∧
      (q = root ↔ ∀ s u c, sd root = some s → t = .join s u root c → u = .leaf) := by
  have hfresh : ∀ p ∈ t.inorder, p ≠ h.fresh := fun p hp => by
    obtain ⟨n, hn, -⟩ := hsides p hp
    exact Heap.ne_fresh hn
  have hkept : Kept h (h.alloc ⟨none, none, none, none, ⟨0, 0⟩⟩) := fun p n hp =>
    ⟨n, Heap.get_alloc hp, rfl, rfl, rfl⟩
  have hlooping : Looping h.fresh t.inorder
      ⟨h.alloc ⟨none, none, none, none, ⟨0, 0⟩⟩, root, h.fresh, h.fresh⟩ t fun _ => [] := by
    refine ⟨?_, fun s => ?_, fun s => ?_, ?_, ⟨_, Heap.get_alloc_self⟩⟩
    · refine hs.congr fun p hp s => ?_
      rw [SameChild, Heap.get_alloc_ne (hfresh p hp)]
    · cases s <;> exact .nil
    · cases s <;> simp [CellTree.walk, oriented]
    · exact List.nodup_cons.mpr ⟨fun hmem => hfresh _ hmem rfl, hnodup⟩
  have hstart : Splayed key sd h.fresh t.inorder
      ⟨h.alloc ⟨none, none, none, none, ⟨0, 0⟩⟩, root, h.fresh, h.fresh⟩ t fun _ => [] := by
    refine ⟨hlooping, fun p hp => ?_, fun _ _ hq => by cases hq⟩
    obtain ⟨n, hn, hside⟩ := hsides p hp
    exact ⟨n, Heap.get_alloc hn, hside⟩
  have hfuel : t.inorder.length < (h.alloc ⟨none, none, none, none, ⟨0, 0⟩⟩).size + 1 := by
    have hle := length_le_size hnodup fun p hp => by
      obtain ⟨n, hn, -⟩ := hstart.sides p hp
      exact ⟨n, hn⟩
    exact Nat.lt_succ_of_le hle
  obtain ⟨v, t', xs, hloop, hmoved, hend, hbetween, -, hstays⟩ :=
    splayLoop_spec hstart hsorted hfuel
  obtain ⟨m, a, c, -, rfl, -⟩ := hend.looping.shape.split .smaller
  obtain ⟨heap, u, w, hassemble, hshape, huorder, hworder, hmoved'⟩ :=
    assemble_spec hend.looping
  have hall : u.inorder ++ v.t :: w.inorder = t.inorder := by
    have horder := hend.looping.order .larger
    rw [huorder, hworder]
    simpa [CellTree.join, CellTree.walk, CellTree.inorder, oriented, Side.other] using horder
  have hmem : ∀ p ∈ (CellTree.node u v.t w).inorder, p ∈ t.inorder := fun p hp => by
    rw [← hall]
    exact hp
  refine ⟨heap.free h.fresh, v.t, u, w, ?_, ?_, hall, fun p hp => ?_, fun p hp => ?_,
    ?_, ?_, hstays⟩
  · simp only [splay, hloop, hassemble, Option.bind_eq_bind, Option.bind_some]
  · refine hshape.congr fun p hp s => ?_
    rw [SameChild, Heap.get_free_ne (hfresh p (hmem p hp))]
  · rw [huorder, List.mem_append] at hp
    exact hp.elim (hend.aside .larger p) (hbetween .smaller a c rfl p)
  · rw [hworder, List.mem_append, List.mem_reverse] at hp
    exact hp.elim (hbetween .larger c a rfl p) (hend.aside .smaller p)
  · intro p n hp
    obtain ⟨n', hp', hk⟩ := (hkept.trans (hmoved.kept.trans hmoved'.kept)) p n hp
    exact ⟨n', (Heap.get_free_ne (Heap.ne_fresh hp)).trans hp', hk⟩
  · intro p hp
    by_cases heq : p = h.fresh
    · rw [heq, Heap.get_free_self, Heap.get_fresh]
    · have hout : p ∉ h.fresh :: t.inorder := by simp [heq, hp]
      rw [Heap.get_free_ne heq, hmoved'.off p hout, hmoved.off p hout, Heap.get_alloc_ne heq]

end Gurl.Splay
