import Gurl.Splay.Removal

/-! Runs of calls on the tree: it is a queue of timers. -/

namespace Gurl.Splay

open LinkedHeap

/-- The nodes of all timers, and the root of the tree. -/
structure TimerTree where
  heap : Heap Node
  root : Option Ptr

inductive Call where
  | splayinsert (key : Curltime) (node : Ptr)
  | splaygetbest (key : Curltime)
  | splayremove (removenode : Ptr)

/-- What a call returns beside the new root. -/
inductive Answer where
  | inserted
  | best (removed : Option Ptr)
  | removed (code : Nat)

/-- Make a call, and keep the new root. -/
def TimerTree.call (s : TimerTree) : Call → Option (TimerTree × Answer)
  | .splayinsert key node =>
    (splayinsert s.heap key s.root node).map fun (heap, root) => (⟨heap, root⟩, .inserted)
  | .splaygetbest key =>
    (splaygetbest s.heap key s.root).map fun (heap, root, removed) => (⟨heap, root⟩, .best removed)
  | .splayremove removenode =>
    (splayremove s.heap s.root removenode).map fun (heap, root, code) =>
      (⟨heap, root⟩, .removed code)

/-! ### The queue -/

/-- What the queue of timers does at a call, and what it answers. -/
def Pending.call (pending : Pending) : Call → Pending × Answer
  | .splayinsert key node => (pending ++ [(key.us, node)], .inserted)
  | .splaygetbest key => ((pending.best key.us).1, .best (pending.best key.us).2)
  | .splayremove removenode => (pending.without removenode, .removed 0)

/-- A call that the users of the tree make: keys are not negative, a node is put in only when it is
not in, and taken out only when it is. -/
def Pending.Legal (nodes : Heap Node) (pending : Pending) : Call → Prop
  | .splayinsert key node =>
    key.Valid ∧ (∃ n, nodes.get node = some n) ∧ node ∉ pending.map Prod.snd
  | .splaygetbest key => key.Valid
  | .splayremove removenode => removenode ∈ pending.map Prod.snd

/-- The queue after some calls, and its answers. -/
def Pending.run : Pending → List Call → Pending × List Answer
  | pending, [] => (pending, [])
  | pending, c :: cs =>
    ((Pending.run (pending.call c).1 cs).1,
      (pending.call c).2 :: (Pending.run (pending.call c).1 cs).2)

/-- All calls of a run are legal when they are made. -/
def Pending.LegalRun (nodes : Heap Node) : Pending → List Call → Prop
  | _, [] => True
  | pending, c :: cs => pending.Legal nodes c ∧ Pending.LegalRun nodes (pending.call c).1 cs

variable {nodes : Heap Node} {s : TimerTree} {pending : Pending}

/-- A legal call does to the tree what it does to the queue. -/
theorem call_spec {c : Call} (ht : Timers s.heap s.root pending) (hlive : Live nodes s.heap)
    (hlegal : pending.Legal nodes c) :
    ∃ s', s.call c = some (s', (pending.call c).2) ∧ Timers s'.heap s'.root (pending.call c).1 ∧
      Live nodes s'.heap := by
  cases c with
  | splayinsert key node =>
    obtain ⟨hkey, ⟨n, hn⟩, hnew⟩ := hlegal
    obtain ⟨m, hm⟩ := hlive node n hn
    obtain ⟨h', root', hcall, ht', hlive'⟩ := splayinsert_spec ht hkey hm hnew
    exact ⟨⟨h', root'⟩, by simp [TimerTree.call, hcall, Pending.call], ht', hlive.trans hlive'⟩
  | splaygetbest key =>
    obtain ⟨h', root', hcall, ht', hlive'⟩ := splaygetbest_spec ht hlegal
    exact ⟨⟨h', root'⟩, by simp [TimerTree.call, hcall, Pending.call], ht', hlive.trans hlive'⟩
  | splayremove removenode =>
    obtain ⟨h', root', hcall, ht', hlive'⟩ := splayremove_spec ht hlegal
    exact ⟨⟨h', root'⟩, by simp [TimerTree.call, hcall, Pending.call], ht', hlive.trans hlive'⟩

theorem timers_nil (h : Heap Node) : Timers h none [] :=
  ⟨.leaf, .leaf, List.Pairwise.nil, fun _ hp => (nomatch hp), fun _ he => (nomatch he),
    List.nodup_nil⟩

/-- A run of calls from a tree that holds some timers. -/
theorem run_spec {cs : List Call} (ht : Timers s.heap s.root pending) (hlive : Live nodes s.heap)
    (hlegal : pending.LegalRun nodes cs) :
    ∃ s', Refine.calls TimerTree.call s cs = some (s', (pending.run cs).2) ∧
      Timers s'.heap s'.root (pending.run cs).1 := by
  induction cs generalizing s pending with
  | nil => exact ⟨s, rfl, ht⟩
  | cons c cs ih =>
    obtain ⟨s1, hcall, ht1, hlive1⟩ := call_spec ht hlive hlegal.1
    obtain ⟨s2, hcalls, ht2⟩ := ih ht1 hlive1 hlegal.2
    exact ⟨s2, by simp [Refine.calls, hcall, hcalls, Pending.run], ht2⟩

/-- On every run the tree answers as the queue of timers does: the soonest timer comes out first,
and timers with the same key in the order in which they went in. After the run it holds the timers
of the queue, as a search tree on their keys with a circle for each key. -/
theorem splay_tree_is_queue {cs : List Call}
    (hlegal : Pending.LegalRun nodes [] cs) :
    ∃ s, Refine.calls TimerTree.call ⟨nodes, none⟩ cs = some (s, (Pending.run [] cs).2) ∧
      Timers s.heap s.root (Pending.run [] cs).1 :=
  run_spec (timers_nil nodes) (fun _ n hn => ⟨n, hn⟩) hlegal

/-- Three nodes that are not in use. -/
def threeNodes : Heap Node := ⟨List.replicate 3 (some ⟨none, none, none, none, ⟨0, 0⟩⟩)⟩

/-- Two timers with the key 7 and one with the key 5; the first one with the key 7 is removed. -/
theorem splay_tree_is_queue_three : ∃ s, Refine.calls TimerTree.call ⟨threeNodes, none⟩
    [.splayinsert ⟨0, 7⟩ 0, .splayinsert ⟨0, 7⟩ 1, .splayinsert ⟨0, 5⟩ 2, .splaygetbest ⟨0, 6⟩,
      .splayremove 0, .splaygetbest ⟨0, 6⟩, .splaygetbest ⟨1, 0⟩] =
      some (s, [.inserted, .inserted, .inserted, .best (some 2), .removed 0, .best none,
        .best (some 1)]) ∧ Timers s.heap s.root [] := by
  have hvalid : ∀ sec usec : Int, 0 ≤ sec → 0 ≤ usec → usec < 1000000 →
      (⟨sec, usec⟩ : Curltime).Valid := fun _ _ h1 h2 h3 => ⟨h1, h2, h3⟩
  refine splay_tree_is_queue ⟨⟨hvalid _ _ ?_ ?_ ?_, ⟨_, rfl⟩, ?_⟩,
    ⟨hvalid _ _ ?_ ?_ ?_, ⟨_, rfl⟩, ?_⟩,
    ⟨hvalid _ _ ?_ ?_ ?_, ⟨_, rfl⟩, ?_⟩, hvalid _ _ ?_ ?_ ?_, (?_ : (0 : Ptr) ∈ [0, 1]),
    hvalid _ _ ?_ ?_ ?_, hvalid _ _ ?_ ?_ ?_, trivial⟩
  all_goals decide

/-! `Curl_splayremove` for a node that is not to be removed. -/

open HeapTree

variable {h h' : Heap Node} {key : Curltime} {p q r : Ptr} {n m : Node}
  {root : Option Ptr} {t u : CellTree}

/-- The nodes that `smaller` and `larger` lead to. -/
inductive TreeNode (h : Heap Node) (root : Option Ptr) : Ptr → Prop
  | root {p : Ptr} {n : Node} : root = some p → h.get p = some n → TreeNode h root p
  | child {p q : Ptr} {n m : Node} (s : Side) : TreeNode h root p → h.get p = some n →
      n.child s = some q → h.get q = some m → TreeNode h root q

/-- The nodes that `samen` leads to. -/
inductive SameList (h : Heap Node) (p : Ptr) : Ptr → Prop
  | refl : SameList h p p
  | next {q r : Ptr} {n : Node} : SameList h p q → h.get q = some n → n.samen = some r →
      SameList h p r

/-- The nodes that can be reached from a root: those of the tree, and those of the lists of nodes
with the same key. -/
def Reached (h : Heap Node) (root : Option Ptr) (q : Ptr) : Prop :=
  ∃ p, TreeNode h root p ∧ SameList h p q

/-- `Curl_splayremove` with the pointer in which it leaves the new root: it is written only when the
function returns zero. -/
def splayremoveTo (h : Heap Node) (t : Option Ptr) (removenode : Ptr) (newroot : Option Ptr) :
    Option (Heap Node × Option Ptr × Nat) :=
  (splayremove h t removenode).map fun (h, root, rc) => (h, if rc = 0 then root else newroot, rc)

/-- The root of a tree stays at the root when it is splayed for the key of a node: there is nothing
on the side of the key. For a subnode, the tree is not splayed. -/
def RootStays (h : Heap Node) (root : Option Ptr) (n : Node) : Prop :=
  ptimediffUs splaySubnode n.key = 0 ∨ ∀ r ∈ root, ∀ m ∈ h.get r, ∀ s ∈ side n.key m,
    m.child s = none

/-! ### What can be reached -/

theorem shape_child_mem {s : Side} (hs : Shape Node.child h root t) (hp : p ∈ t.inorder)
    (hn : h.get p = some n) (hq : n.child s = some q) : q ∈ t.inorder := by
  have hroot_mem {r : Ptr} {u : CellTree} (hu : Shape Node.child h (some r) u) : r ∈ u.inorder := by
    obtain ⟨_, _, _, _, rfl, _⟩ := hu.split .smaller
    exact CellTree.mem_join.mpr (.inl rfl)
  induction hs with
  | leaf => cases hp
  | @node p' n' t u hp' ht hu iht ihu =>
    simp only [CellTree.inorder, List.mem_append, List.mem_cons] at hp ⊢
    rcases hp with hp | rfl | hp
    · exact .inl (iht hp)
    · obtain rfl : n' = n := Option.some.inj (hp'.symm.trans hn)
      cases s with
      | smaller => exact .inl (hroot_mem (hq ▸ ht))
      | larger => exact .inr (.inr (hroot_mem (hq ▸ hu)))
    · exact .inr (.inr (ihu hp))

theorem shape_treeNode (hs : Shape Node.child h root t) : TreeNode h root p ↔ p ∈ t.inorder := by
  constructor
  · intro hp
    induction hp with
    | root heq hn =>
      subst heq
      obtain ⟨_, _, _, _, rfl, _⟩ := hs.split .smaller
      exact CellTree.mem_join.mpr (.inl rfl)
    | child s _ hn hq _ ih => exact shape_child_mem hs ih hn hq
  · have hall {sub : Option Ptr} {u : CellTree} (hu : Shape Node.child h sub u)
        (hsub : ∀ r n, sub = some r → h.get r = some n → TreeNode h root r) :
        ∀ p ∈ u.inorder, TreeNode h root p := by
      induction hu with
      | leaf => nofun
      | @node p' n' t u hp' ht hu iht ihu =>
        have htree := hsub p' n' rfl hp'
        intro p hp
        simp only [CellTree.inorder, List.mem_append, List.mem_cons] at hp
        rcases hp with hp | rfl | hp
        · exact iht (fun r n hr hn => htree.child .smaller hp' hr hn) p hp
        · exact htree
        · exact ihu (fun r n hr hn => htree.child .larger hp' hr hn) p hp
    exact hall hs (fun r n hr hn => .root hr hn) p

/-- A node of a tree is the root of a part of it. -/
theorem shape_subtree (hs : Shape Node.child h root t) (hp : p ∈ t.inorder) :
    ∃ u, Shape Node.child h (some p) u ∧ u.inorder ⊆ t.inorder := by
  induction hs with
  | leaf => cases hp
  | @node p' n' t u hp' ht hu iht ihu =>
    simp only [CellTree.inorder, List.mem_append, List.mem_cons] at hp
    rcases hp with hp | rfl | hp
    · obtain ⟨w, hw, hsub⟩ := iht hp
      exact ⟨w, hw, fun q hq => by simp [CellTree.inorder, hsub hq]⟩
    · exact ⟨.node t p u, .node hp' ht hu, List.Subset.refl _⟩
    · obtain ⟨w, hw, hsub⟩ := ihu hp
      exact ⟨w, hw, fun q hq => by simp [CellTree.inorder, hsub hq]⟩

/-- In a circle, the list of a node is the circle. -/
theorem ring_sameList {qs : List Ptr} (hr : Ring Node.samen Node.samep h (p :: qs)) :
    SameList h p q ↔ q ∈ p :: qs := by
  constructor
  · intro hq
    induction hq with
    | refl => exact List.mem_cons_self
    | @next q r n _ hn hnext ih =>
      obtain ⟨as, cs, hsplit⟩ := List.append_of_mem ih
      have hforth : h.follow Node.samen q = some r := by rw [Heap.follow_eq hn, hnext]
      cases cs with
      | nil =>
        have hback := hr.closed q (by rw [hsplit]; simp) p rfl
        rw [hback.forth, Option.some.injEq] at hforth
        exact hforth ▸ List.mem_cons_self
      | cons c cs =>
        have hchain := hr.chain
        rw [hsplit] at hchain
        have hback := (List.isChain_cons_cons.mp (List.isChain_append.mp hchain).2.1).1
        rw [hback.forth, Option.some.injEq] at hforth
        rw [hsplit]
        simp [hforth]
  · have hwalk {x : Ptr} {xs : List Ptr}
      (hchain : (x :: xs).IsChain (Behind Node.samen Node.samep h))
        (hx : SameList h p x) : ∀ q ∈ x :: xs, SameList h p q := by
      induction xs generalizing x with
      | nil =>
        intro q hq
        rw [List.mem_singleton] at hq
        exact hq ▸ hx
      | cons y ys ih =>
        obtain ⟨hxy, hys⟩ := List.isChain_cons_cons.mp hchain
        obtain ⟨n, hn, hnext⟩ := Option.bind_eq_some_iff.mp hxy.forth
        intro q hq
        rcases List.mem_cons.mp hq with rfl | hq
        · exact hx
        · exact ih hys (hx.next hn hnext) q hq
    exact hwalk hr.chain .refl q

/-- From the root of a tree of timers, all timers can be reached. -/
theorem reached_iff (hs : Shape Node.child h root t) (hg : Grouped h t.inorder pending) :
    Reached h root q ↔ q ∈ pending.map Prod.snd := by
  constructor
  · rintro ⟨p, hp, hq⟩
    obtain ⟨n, qs, hd⟩ := hg.heads p ((shape_treeNode hs).mp hp)
    exact List.mem_map.mpr ⟨_, hd.mem ((ring_sameList hd.ring).mp hq), rfl⟩
  · intro hq
    obtain ⟨as, r, cs, n, qs, hsplit, hd, hmem⟩ := hg.find hq
    refine ⟨r, (shape_treeNode hs).mpr ?_, (ring_sameList hd.ring).mpr hmem⟩
    rw [hsplit]
    simp

/-- From another node of the tree, the root cannot be reached. -/
theorem not_reached {a c : CellTree} (hs : Shape Node.child h (some q) (.node a q c))
    (hg : Grouped h (a.inorder ++ q :: c.inorder) pending) (hr : r ∈ a.inorder ++ q :: c.inorder)
    (hne : q ≠ r) : ¬ Reached h (some r) q := by
  rintro ⟨p, hp, hq⟩
  obtain ⟨n, hn, ha, hc⟩ := shape_node hs
  have hnodup := hg.nodup_nodes
  rw [List.nodup_append, List.nodup_cons] at hnodup
  obtain ⟨-, ⟨hqc, -⟩, hdisjoint⟩ := hnodup
  have hpart : ∃ u, Shape Node.child h (some r) u ∧ u.inorder ⊆ a.inorder ++ q :: c.inorder ∧
      q ∉ u.inorder := by
    rw [List.mem_append, List.mem_cons] at hr
    rcases hr with hr | rfl | hr
    · obtain ⟨u, hu, hsub⟩ := shape_subtree ha hr
      refine ⟨u, hu, fun x hx => List.mem_append_left _ (hsub hx), fun hqu => ?_⟩
      exact hdisjoint q (hsub hqu) q List.mem_cons_self rfl
    · exact absurd rfl hne
    · obtain ⟨u, hu, hsub⟩ := shape_subtree hc hr
      refine ⟨u, hu, fun x hx => ?_, fun hqu => hqc (hsub hqu)⟩
      exact List.mem_append_right _ (List.mem_cons_of_mem _ (hsub hx))
  obtain ⟨u, hu, hsub, hqu⟩ := hpart
  have hpu := (shape_treeNode hu).mp hp
  obtain ⟨np, qs, hd⟩ := hg.heads p (hsub hpu)
  rcases List.mem_cons.mp ((ring_sameList hd.ring).mp hq) with rfl | hmem
  · exact hqu hpu
  · exact hg.sub_notMem hd hmem (by simp)

/-! ### The call -/

/-- The smaller of two keys, too, is below a key that the larger one is not above. -/
theorem ptimediffUs_order {x y : Curltime} (hx : x.Valid) (hy : y.Valid) (hlt : x.us < y.us)
    (hle : 0 ≤ ptimediffUs key y) : 0 < ptimediffUs key x := by
  have hmax : timediffTMax = 9223372036854775807 := rfl
  have hmin : timediffTMin = -9223372036854775808 := rfl
  have hmaxdiv : timediffTMax.tdiv 1000000 = 9223372036854 := by decide
  have hmindiv : timediffTMin.tdiv 1000000 = -9223372036854 := by decide
  obtain ⟨-, hx0, hx1⟩ := hx
  obtain ⟨-, hy0, hy1⟩ := hy
  unfold Curltime.us at hlt
  unfold ptimediffUs at hle ⊢
  rw [hmaxdiv, hmindiv, hmax, hmin] at hle ⊢
  dsimp only at hle ⊢
  split_ifs at hle ⊢ <;> omega

/-- For a key of any value, nodes with growing keys lie on its sides in this order. -/
theorem sorted_side {ps : List Ptr} (hg : Grouped h ps pending) (key : Curltime) :
    Sorted (fun p => (h.get p).bind (side key)) ps := by
  have hsides : ps.Pairwise fun p q => ∃ n m, h.get p = some n ∧ h.get q = some m ∧ n.key.Valid ∧
      m.key.Valid ∧ n.key.us < m.key.us := by
    refine hg.sorted.imp_of_mem fun {p q} hp hq hlt => ?_
    obtain ⟨n, _, hd⟩ := hg.heads p hp
    obtain ⟨m, _, hd'⟩ := hg.heads q hq
    rw [hd.keyOf, hd'.keyOf] at hlt
    exact ⟨n, m, hd.get, hd'.get, hd.valid, hd'.valid, hlt⟩
  intro s
  cases s with
  | smaller =>
    rw [oriented, List.pairwise_reverse]
    refine hsides.imp ?_
    rintro p q ⟨n, m, hn, hm, hnv, hmv, hlt⟩ hside
    simp only [hn, hm, Option.bind_some, side] at hside ⊢
    rw [if_pos]
    by_contra hle
    have := ptimediffUs_order hnv hmv hlt (Int.not_lt.mp hle)
    rw [if_neg (by omega), if_pos (by omega)] at hside
    exact hside rfl
  | larger =>
    refine hsides.imp ?_
    rintro p q ⟨n, m, hn, hm, hnv, hmv, hlt⟩ hside
    simp only [hn, hm, Option.bind_some, side] at hside ⊢
    have hle : 0 ≤ ptimediffUs key m.key := by
      by_contra hneg
      rw [if_pos (by omega)] at hside
      exact hside rfl
    have := ptimediffUs_order hnv hmv hlt hle
    rw [if_neg (by omega), if_pos (by omega)]

/-- What the call does when it does not return zero: the root that is not there, the node that is
marked as a subnode but not in a list, and the node that does not come to the root. -/
theorem splayremove_failed (hn : h.get p = some n) {root' : Option Ptr} {rc : Nat}
    (hcall : splayremove h root p = some (h', root', rc)) (hrc : rc ≠ 0) :
    (root = none ∧ h' = h) ∨ (ptimediffUs splaySubnode n.key = 0 ∧ h' = h) ∨
      (ptimediffUs splaySubnode n.key ≠ 0 ∧ ∃ r q, root = some r ∧
        splay h n.key (some r) = some (h', q)) := by
  unfold splayremove at hcall
  cases root with
  | none =>
    cases hcall
    exact .inl ⟨rfl, rfl⟩
  | some r =>
    simp only [hn, Option.bind_eq_bind, Option.bind_some] at hcall
    by_cases hsub : ptimediffUs splaySubnode n.key = 0
    · rw [if_pos hsub] at hcall
      obtain ⟨next, -, hcall⟩ := Option.bind_eq_some_iff.mp hcall
      by_cases hself : next = p
      · rw [if_pos hself] at hcall
        cases hcall
        exact .inr (.inl ⟨hsub, rfl⟩)
      · rw [if_neg hself] at hcall
        obtain ⟨_, -, hcall⟩ := Option.bind_eq_some_iff.mp hcall
        obtain ⟨_, -, hcall⟩ := Option.bind_eq_some_iff.mp hcall
        obtain ⟨_, -, hcall⟩ := Option.bind_eq_some_iff.mp hcall
        obtain ⟨_, -, hcall⟩ := Option.bind_eq_some_iff.mp hcall
        cases hcall
        exact absurd rfl hrc
    · rw [if_neg hsub] at hcall
      obtain ⟨⟨h1, q⟩, hsplay, hcall⟩ := Option.bind_eq_some_iff.mp hcall
      dsimp only at hcall
      by_cases hq : q ≠ some p
      · rw [if_pos hq] at hcall
        cases hcall
        exact .inr (.inr ⟨hsub, r, q, rfl, hsplay⟩)
      · rw [if_neg hq] at hcall
        obtain ⟨node, -, hcall⟩ := Option.bind_eq_some_iff.mp hcall
        obtain ⟨x, -, hcall⟩ := Option.bind_eq_some_iff.mp hcall
        split_ifs at hcall
        · obtain ⟨_, -, hcall⟩ := Option.bind_eq_some_iff.mp hcall
          cases hcall
          exact absurd rfl hrc
        · cases hcall
          exact absurd rfl hrc
        · obtain ⟨_, -, hcall⟩ := Option.bind_eq_some_iff.mp hcall
          obtain ⟨_, -, hcall⟩ := Option.bind_eq_some_iff.mp hcall
          obtain ⟨_, -, hcall⟩ := Option.bind_eq_some_iff.mp hcall
          cases hcall
          exact absurd rfl hrc

/-- What can be reached from the old root after the tree was splayed: all, if the root is still at
the root. -/
theorem splay_reached_iff (ht : Timers h (some r) pending) {q : Option Ptr}
    (hsplay : splay h key (some r) = some (h', q)) :
    (∀ x, Reached h' (some r) x ↔ Reached h (some r) x) ↔
      ∀ m ∈ h.get r, ∀ s ∈ side key m, m.child s = none := by
  obtain ⟨t, hs, hg⟩ := ht
  have hsides (p : Ptr) (hp : p ∈ t.inorder) :
      ∃ n, h.get p = some n ∧ side key n = (h.get p).bind (side key) := by
    obtain ⟨n, hn⟩ := hg.get hp
    exact ⟨n, hn, by rw [hn]; rfl⟩
  obtain ⟨h1, q1, a, c, hsplay1, hshape, hall, -, -, hkept, -, hstays⟩ :=
    splay_spec hs hg.nodup_nodes hsides (sorted_side hg key)
  rw [hsplay, Option.some.injEq, Prod.mk.injEq] at hsplay1
  obtain ⟨rfl, rfl⟩ := hsplay1
  have hg' : Grouped h' (CellTree.node a q1 c).inorder pending := by
    show Grouped h' (a.inorder ++ q1 :: c.inorder) pending
    rw [hall]
    exact hg.kept hkept
  obtain ⟨m, u, w, hm, rfl, hu, hw⟩ := hs.split .smaller
  have hchild (s : Side) : m.child s = none ↔ ∀ u' w',
    CellTree.join .smaller u r w = .join s u' r w' →
      u' = .leaf := by
    obtain ⟨m', u', w', hm', heq, hu', -⟩ := hs.split s
    obtain rfl : m' = m := Option.some.inj (hm'.symm.trans hm)
    constructor
    · rintro hnone u'' w'' heq'
      rw [heq] at heq'
      obtain ⟨rfl, -⟩ := CellTree.join_inj heq'
      rw [hnone] at hu'
      exact hu'.none_eq
    · intro hleaf
      have := hleaf u' w' heq
      subst this
      cases hc : m'.child s with
      | none => rfl
      | some x =>
        rw [hc] at hu'
        cases hu'
  have hroot : q1 = r ↔ ∀ m ∈ h.get r, ∀ s ∈ side key m, m.child s = none := by
    rw [hstays]
    constructor
    · intro hall m' hm' s hside
      obtain rfl : m = m' := Option.some.inj (hm.symm.trans hm')
      exact (hchild s).mpr fun u' w' heq => hall s u' w' (by rw [hm]; exact hside) heq
    · intro hall s u' w' hside heq
      rw [hm, Option.bind_some] at hside
      exact (hchild s).mp (hall m hm s hside) u' w' heq
  rw [← hroot]
  constructor
  · intro hreach
    by_contra hne
    have hr : r ∈ a.inorder ++ q1 :: c.inorder := by
      rw [hall]
      exact CellTree.mem_join.mpr (.inl rfl)
    refine not_reached hshape hg' hr hne ((hreach q1).mpr ((reached_iff hs hg).mpr ?_))
    exact (reached_iff hshape hg').mp ⟨q1, (shape_treeNode hshape).mpr (by simp [CellTree.inorder]),
      .refl⟩
  · rintro rfl x
    rw [reached_iff hshape hg', reached_iff hs hg]

/-- A call that does not return zero leaves the new root and all that can be reached from the root
as they were, if and only if the root stays at the root. -/
theorem splayremove_failure_iff (ht : Timers h root pending) (hn : h.get p = some n)
    {newroot newroot' : Option Ptr} {rc : Nat}
    (hcall : splayremoveTo h root p newroot = some (h', newroot', rc)) (hrc : rc ≠ 0) :
    (newroot' = newroot ∧ ∀ x, Reached h' root x ↔ Reached h root x) ↔ RootStays h root n := by
  obtain ⟨⟨h1, root', rc'⟩, hremove, heq⟩ := Option.map_eq_some_iff.mp hcall
  simp only [Prod.mk.injEq] at heq
  obtain ⟨rfl, rfl, rfl⟩ := heq
  rw [if_neg hrc, eq_self_iff_true, true_and]
  rcases splayremove_failed hn hremove hrc with ⟨rfl, rfl⟩ | ⟨hsub, rfl⟩ |
    ⟨hsub, r, q, rfl, hsplay⟩
  · exact ⟨fun _ => .inr nofun, fun _ x => Iff.rfl⟩
  · exact ⟨fun _ => .inl hsub, fun _ x => Iff.rfl⟩
  · rw [splay_reached_iff ht hsplay]
    constructor
    · intro hnone
      refine .inr fun r' hr' => ?_
      obtain rfl : r = r' := Option.some.inj hr'
      exact hnone
    · rintro (hsub' | hnone)
      · exact absurd hsub' hsub
      · exact hnone r rfl

/-- Two timers, the earlier one below the root, and two nodes that are in no tree. -/
def twoTimers : Heap Node := ⟨[
  some ⟨some 1, none, some 0, some 0, ⟨5, 0⟩⟩, some ⟨none, none, some 1, some 1, ⟨2, 0⟩⟩,
  some ⟨none, none, some 2, some 2, ⟨3, 0⟩⟩, some ⟨none, none, some 3, some 3, ⟨9, 0⟩⟩]⟩

theorem timers_two : Timers twoTimers (some 0) [(2000000, 1), (5000000, 0)] := by
  have hvalid (sec : Int) (h : 0 ≤ sec) : (⟨sec, 0⟩ : Curltime).Valid := ⟨h, by simp, by simp⟩
  have hring (p : Ptr) (n : Node) (hn : twoTimers.get p = some n) (hnext : n.samen = some p)
      (hprev : n.samep = some p) : Ring Node.samen Node.samep twoTimers [p] := by
    refine ⟨List.isChain_singleton _, ?_⟩
    rintro x hx y hy
    obtain rfl : p = x := by simpa using hx
    obtain rfl : p = y := by simpa using hy
    exact ⟨(Heap.follow_eq hn).trans hnext, (Heap.follow_eq hn).trans hprev⟩
  refine ⟨.node (.node .leaf 1 .leaf) 0 .leaf, .node rfl (.node rfl .leaf .leaf) .leaf, ?_⟩
  refine ⟨by decide, ?_, by decide, by decide⟩
  intro p hp
  obtain rfl | rfl : p = 1 ∨ p = 0 := by simpa [CellTree.inorder] using hp
  · exact ⟨_, [], rfl, hvalid 2 (by decide), rfl, hring 1 _ rfl rfl rfl, by simp⟩
  · exact ⟨_, [], rfl, hvalid 5 (by decide), rfl, hring 0 _ rfl rfl rfl, by simp⟩

theorem splayremove_failure_two : ∃ h' newroot', splayremoveTo twoTimers (some 0) 3 (some 1) =
    some (h', newroot', 2) ∧ newroot' = some 1 ∧
      ∀ x, Reached h' (some 0) x ↔ Reached twoTimers (some 0) x := by
  have hcall : ∃ h', splayremoveTo twoTimers (some 0) 3 (some 1) = some (h', some 1, 2) := ⟨_, rfl⟩
  obtain ⟨h', hcall⟩ := hcall
  have hn : twoTimers.get 3 = some ⟨none, none, some 3, some 3, ⟨9, 0⟩⟩ := rfl
  refine ⟨h', some 1, hcall,
    (splayremove_failure_iff timers_two hn hcall (by decide)).mpr (.inr ?_)⟩
  intro r hr m hm s hs
  cases hr
  cases hm
  cases hs
  rfl

/-- A node with a key between those of the two timers: the earlier one cannot be reached any
more. -/
theorem splayremove_loses_timer : ∃ h' newroot', splayremoveTo twoTimers (some 0) 2 (some 1) =
    some (h', newroot', 2) ∧ ¬ ∀ x, Reached h' (some 0) x ↔ Reached twoTimers (some 0) x := by
  have hcall : ∃ h', splayremoveTo twoTimers (some 0) 2 (some 1) = some (h', some 1, 2) ∧
      splay twoTimers ⟨3, 0⟩ (some 0) = some (h', some 1) := ⟨_, rfl, rfl⟩
  obtain ⟨h', hcall, hsplay⟩ := hcall
  refine ⟨h', some 1, hcall, fun hreach => ?_⟩
  cases (splay_reached_iff timers_two hsplay).mp hreach _ rfl .smaller rfl

end Gurl.Splay
