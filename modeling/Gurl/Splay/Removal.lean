import Gurl.Splay.Operations

/-! Timers come out of the tree: the soonest one, or a given one. -/

namespace Gurl.Splay

open LinkedHeap HeapTree

variable {h h' : Heap Node} {key : Curltime} {p q r x : Ptr} {n m : Node} {pending : Pending}
  {ps qs as cs : List Ptr} {root : Option Ptr} {t : CellTree} {k : Int}

/-! ### The timers without one of them -/

/-- The timers without `p`. -/
def Pending.without (pending : Pending) (p : Ptr) : Pending := pending.filter (·.2 ≠ p)

theorem Pending.same_without (pending : Pending) (p : Ptr) (k : Int) :
    (pending.without p).same k = (pending.same k).filter (· ≠ p) := by
  unfold Pending.same Pending.without
  rw [List.filter_map, List.filter_filter, List.filter_filter]
  congr 2
  funext e
  simp [Bool.and_comm]

theorem Pending.same_without_ne (hnodup : (pending.map Prod.snd).Nodup) (hp : (k, p) ∈ pending)
    {k' : Int} (hne : k' ≠ k) : (pending.without p).same k' = pending.same k' := by
  rw [Pending.same_without, List.filter_eq_self]
  intro x hx
  rw [Pending.mem_same] at hx
  rw [decide_eq_true_eq]
  rintro rfl
  exact hne (Pending.key_unique hnodup hx hp)

theorem Pending.same_without_self {xs ys : List Ptr} (hnodup : (pending.map Prod.snd).Nodup)
    (hsame : pending.same k = xs ++ p :: ys) : (pending.without p).same k = xs ++ ys := by
  have hnd := Pending.nodup_same hnodup k
  rw [hsame, List.nodup_append, List.nodup_cons] at hnd
  obtain ⟨-, ⟨hys, -⟩, hxs⟩ := hnd
  rw [Pending.same_without, hsame, List.filter_append, List.filter_cons_of_neg (by simp)]
  congr 1
  · rw [List.filter_eq_self]
    exact fun x hx => decide_eq_true fun heq => hxs x hx p (by simp) heq
  · rw [List.filter_eq_self]
    exact fun y hy => decide_eq_true fun heq => hys (heq ▸ hy)

theorem Pending.nodup_without (hnodup : (pending.map Prod.snd).Nodup) (p : Ptr) :
    ((pending.without p).map Prod.snd).Nodup :=
  hnodup.sublist (List.Sublist.map Prod.snd List.filter_sublist)

/-! ### Groups without one of their nodes -/

/-- The keys before and behind a node. -/
theorem Grouped.around (hg : Grouped h (as ++ [p] ++ cs) pending) :
    (∀ a ∈ as, keyOf h a < keyOf h p) ∧ ∀ c ∈ cs, keyOf h p < keyOf h c := by
  obtain ⟨hap, -, hcs⟩ := List.pairwise_append.mp hg.sorted
  obtain ⟨-, -, has⟩ := List.pairwise_append.mp hap
  exact ⟨fun a ha => has a ha p (by simp), fun c hc => hcs p (by simp) c hc⟩

/-- A node without subnodes goes away. -/
theorem Grouped.drop (hg : Grouped h (as ++ [p] ++ cs) pending) (hd : Headed h pending p n []) :
    Grouped h (as ++ cs) (pending.without p) := by
  obtain ⟨hbelow, habove⟩ := hg.around
  rw [hd.keyOf] at hbelow habove
  have hnone : (pending.without p).same n.key.us = [] := by
    rw [Pending.same_without, hd.same]
    simp
  have hgone : Grouped h (as ++ (none : Option Ptr).toList ++ cs) (pending.without p) := by
    refine hg.replace none hbelow habove (by simpa using hd.keyOf) nofun
      (fun e _ _ m hm => ⟨m, hm, rfl, rfl, rfl⟩) ?_ ?_ (Pending.nodup_without hg.nodup p)
    · exact fun k' hk' => Pending.same_without_ne hg.nodup (hd.mem List.mem_cons_self) hk'
    · intro q hq
      rw [← Pending.mem_same, hnone] at hq
      cases hq
  simpa using hgone

/-- The first subnode takes the place of its node. -/
theorem promote_spec (hg : Grouped h (as ++ [p] ++ cs) pending)
    (hd : Headed h pending p n (x :: qs)) :
    ∃ h' nx, promote h p x = some h' ∧ Grouped h' (as ++ [x] ++ cs) (pending.without p) ∧
      Live h h' ∧ h'.get x = some nx ∧ (∀ s, nx.child s = n.child s) ∧
      ∀ r ≠ x, RelinkedAt h h' r := by
  obtain ⟨hbelow, habove⟩ := hg.around
  rw [hd.keyOf] at hbelow habove
  obtain ⟨last, ml, hlast, hsamep, hl, -⟩ := hd.last
  rw [List.getLast?_cons_cons] at hlast
  have hmem : last ∈ x :: qs := List.mem_of_getLast? hlast
  have hnodup := hd.nodup hg.nodup
  have hnodup' : (x :: qs).Nodup := hnodup.of_cons
  obtain ⟨nx, hx, -⟩ := hd.subs x List.mem_cons_self
  -- the node `x`, the link from the last node
  obtain ⟨h1, hu1, hs1⟩ := update_setTo hx fun m => { m with
    key := n.key, larger := n.larger, smaller := n.smaller, samep := some last }
  obtain ⟨ml1, hl1⟩ := hs1.live last ml hl
  obtain ⟨h2, hu2, hs2⟩ := update_setTo hl1 fun n => { n with samen := some x }
  have hnext : ∀ a, h2.follow Node.samen a =
      if a = last then some x else h.follow Node.samen a := fun a => by
    rw [hs2.follow, hs1.follow_same rfl]
  have hprev : ∀ a, h2.follow Node.samep a =
      if a = x then some last else h.follow Node.samep a := fun a => by
    rw [hs2.follow_same rfl, hs1.follow]
  have hre2 : ∀ a, RelinkedAt h1 h2 a := hs2.relinkedAt ⟨rfl, fun s => by cases s <;> rfl⟩
  have hre : ∀ a ≠ x, RelinkedAt h h2 a := fun a ha =>
    (.of_eq (hs1.off a ha) : RelinkedAt h h1 a).trans (hre2 a)
  have hring : Ring Node.samen Node.samep h2 (x :: qs) := by
    refine hd.ring.tail hnodup' hlast (fun a _ hne => ?_) (fun b hb => ?_) ⟨?_, ?_⟩
    · rw [hnext, if_neg hne]
    · have hbx : b ≠ x := fun heq => (List.nodup_cons.mp hnodup').1 (heq ▸ hb)
      rw [hprev, if_neg hbx]
    · rw [hnext, if_pos rfl]
    · rw [hprev, if_pos rfl]
  obtain ⟨n2, hn2, hrn⟩ := hre2 x _ hs1.new
  have hsub : ∀ y ∈ qs, ∃ m, h2.get y = some m ∧ m.key = splaySubnode := by
    intro y hy
    obtain ⟨m, hm, hkey⟩ := hd.subs y (List.mem_cons_of_mem _ hy)
    have hyx : y ≠ x := fun heq => (List.nodup_cons.mp hnodup').1 (heq ▸ hy)
    obtain ⟨m2, hm2, hrm⟩ := hre y hyx m hm
    exact ⟨m2, hm2, hrm.key.trans hkey⟩
  have hhead : Headed h2 (pending.without p) x n2 qs := by
    refine ⟨hn2, ?_, ?_, hring, hsub⟩
    · rw [hrn.key]
      exact hd.valid
    · have hsame : pending.same n.key.us = [] ++ p :: x :: qs := hd.same
      rw [hrn.key]
      exact Pending.same_without_self hg.nodup hsame
  refine ⟨h2, n2, ?_, ?_, hs1.live.trans hs2.live, hn2, ?_, hre⟩
  · simp only [promote, hd.get, hsamep, hu1, hu2, Option.bind_eq_bind, Option.bind_some]
  · refine hg.replace (some x) hbelow habove (by simpa using hd.keyOf) ?_ ?_ ?_ nofun
      (Pending.nodup_without hg.nodup p)
    · rintro y ⟨⟩
      exact ⟨n2, qs, hhead, by rw [hrn.key]⟩
    · intro e he hne m hm
      have hex := hd.ne_of_key hg.nodup he hne (List.mem_cons_of_mem _ List.mem_cons_self)
      have hel := hd.ne_of_key hg.nodup he hne (List.mem_cons_of_mem _ hmem)
      exact ⟨m, ((hs2.off _ hel).trans (hs1.off _ hex)).trans hm, rfl, rfl, rfl⟩
    · exact fun k' hk' => Pending.same_without_ne hg.nodup (hd.mem List.mem_cons_self) hk'
  · intro s
    rw [hrn.child]
    cases s <;> rfl

/-- A subnode leaves its circle. -/
theorem unlink_spec {xs ys : List Ptr} (hg : Grouped h (as ++ [r] ++ cs) pending)
    (hd : Headed h pending r n (xs ++ p :: ys)) (hp : h.get p = some m) :
    ∃ h1 h2 h3 next prev, m.samen = some next ∧ m.samep = some prev ∧ next ≠ p ∧
      update h prev (fun n => { n with samen := some next }) = some h1 ∧
      update h1 next (fun n => { n with samep := some prev }) = some h2 ∧
      update h2 p (fun n => { n with samen := some p }) = some h3 ∧
      Grouped h3 (as ++ [r] ++ cs) (pending.without p) ∧ Live h h3 ∧ ∀ x, RelinkedAt h h3 x := by
  obtain ⟨hbelow, habove⟩ := hg.around
  rw [hd.keyOf] at hbelow habove
  have hnodup := hd.nodup hg.nodup
  -- the circle, read from `p` on
  have hturn : Ring Node.samen Node.samep h (p :: ys ++ r :: xs) := by
    have hring : Ring Node.samen Node.samep h (r :: xs ++ p :: ys) := hd.ring
    exact hring.rotate
  have hperm : (p :: ys ++ r :: xs).Perm (r :: (xs ++ p :: ys)) := List.perm_append_comm
  have hnodup' : (p :: (ys ++ r :: xs)).Nodup := hperm.nodup_iff.mpr hnodup
  have hne : ys ++ r :: xs ≠ [] := by simp
  rw [List.cons_append] at hturn hperm
  obtain ⟨y, zs, hrest⟩ := List.exists_cons_of_ne_nil hne
  rw [hrest] at hturn hnodup' hperm
  obtain ⟨last, hlast⟩ := Option.ne_none_iff_exists'.mp (show (y :: zs).getLast? ≠ none by simp)
  have hmem : last ∈ y :: zs := List.mem_of_getLast? hlast
  have hin : ∀ a ∈ p :: y :: zs, a ∈ r :: (xs ++ p :: ys) := fun a ha => hperm.mem_iff.mp ha
  have hpout : ∀ a ∈ y :: zs, a ≠ p := fun a ha heq => (List.nodup_cons.mp hnodup').1 (heq ▸ ha)
  have hforth := (List.isChain_cons_cons.mp hturn.chain).1.forth
  have hback := (hturn.closed last (by rw [List.getLast?_cons_cons]; exact hlast) p rfl).back
  rw [Heap.follow_eq hp] at hforth hback
  obtain ⟨ml, hl⟩ := hd.get_ring last (hin last (List.mem_cons_of_mem _ hmem))
  obtain ⟨ny, hy⟩ := hd.get_ring y (hin y (by simp))
  obtain ⟨h1, hu1, hs1⟩ := update_setTo hl fun n => { n with samen := some y }
  obtain ⟨ny1, hy1⟩ := hs1.live y ny hy
  obtain ⟨h2, hu2, hs2⟩ := update_setTo hy1 fun n => { n with samep := some last }
  obtain ⟨np2, hp2⟩ := (hs1.live.trans hs2.live) p m hp
  obtain ⟨h3, hu3, hs3⟩ := update_setTo hp2 fun n => { n with samen := some p }
  have hnext : ∀ a, h3.follow Node.samen a =
      if a = p then some p else if a = last then some y else h.follow Node.samen a := fun a => by
    rw [hs3.follow, hs2.follow_same rfl, hs1.follow]
  have hprev : ∀ a, h3.follow Node.samep a =
      if a = y then some last else h.follow Node.samep a := fun a => by
    rw [hs3.follow_same rfl, hs2.follow, hs1.follow_same rfl]
  have hre : ∀ a, RelinkedAt h h3 a := fun a =>
    ((hs1.relinkedAt ⟨rfl, fun s => by cases s <;> rfl⟩ a).trans
      (hs2.relinkedAt ⟨rfl, fun s => by cases s <;> rfl⟩ a)).trans
      (hs3.relinkedAt ⟨rfl, fun s => by cases s <;> rfl⟩ a)
  have hring : Ring Node.samen Node.samep h3 (y :: zs) := by
    refine hturn.tail hnodup'.of_cons hlast (fun a ha hne => ?_) (fun b hb => ?_) ⟨?_, ?_⟩
    · rw [hnext, if_neg (hpout a ha), if_neg hne]
    · have hby : b ≠ y := fun heq => (List.nodup_cons.mp hnodup'.of_cons).1 (heq ▸ hb)
      rw [hprev, if_neg hby]
    · rw [hnext, if_neg (hpout last hmem), if_pos rfl]
    · rw [hprev, if_pos rfl]
  rw [← hrest] at hring
  obtain ⟨n3, hn3, hrn⟩ := hre r n hd.get
  have hhead : Headed h3 (pending.without p) r n3 (xs ++ ys) := by
    refine ⟨hn3, hrn.key ▸ hd.valid, ?_, hring.rotate, fun a ha => ?_⟩
    · have hsame : pending.same n.key.us = (r :: xs) ++ p :: ys := hd.same
      rw [hrn.key]
      exact Pending.same_without_self hg.nodup hsame
    · obtain ⟨ma, hma, hkey⟩ := hd.subs a (by simp at ha ⊢; tauto)
      obtain ⟨m3, hm3, hrm⟩ := hre a ma hma
      exact ⟨m3, hm3, hrm.key.trans hkey⟩
  refine ⟨h1, h2, h3, y, last, hforth, hback, hpout y List.mem_cons_self, hu1, hu2, hu3, ?_,
    (hs1.live.trans hs2.live).trans hs3.live, hre⟩
  refine hg.replace (some r) hbelow habove (by simpa using hd.keyOf) ?_ ?_ ?_ nofun
    (Pending.nodup_without hg.nodup p)
  · rintro a ⟨⟩
    exact ⟨n3, _, hhead, by rw [hrn.key]⟩
  · intro e he hkey ma hma
    have hout : ∀ a ∈ p :: y :: zs, e.2 ≠ a := fun a ha => hd.ne_of_key hg.nodup he hkey (hin a ha)
    have heq : h3.get e.2 = h.get e.2 := by
      rw [hs3.off _ (hout p (by simp)), hs2.off _ (hout y (by simp)),
        hs1.off _ (hout last (List.mem_cons_of_mem _ hmem))]
    exact ⟨ma, heq.trans hma, rfl, rfl, rfl⟩
  · exact fun k' hk' => Pending.same_without_ne hg.nodup (hd.mem (by simp)) hk'

/-! ### The soonest timer -/

/-- The first of the timers with the smallest key. -/
def Pending.soonest (pending : Pending) : Option (Int × Ptr) :=
  pending.find? fun e => pending.all fun e' => e.1 ≤ e'.1

/-- The timers without the soonest one, if it is not later than `k`, and this one. -/
def Pending.best (pending : Pending) (k : Int) : Pending × Option Ptr :=
  match pending.soonest with
  | none => (pending, none)
  | some (k', p) => if k' ≤ k then (pending.without p, some p) else (pending, none)

theorem Grouped.soonest (hg : Grouped h (q :: cs) pending) :
    pending.soonest = some (keyOf h q, q) := by
  obtain ⟨n, qs, hd⟩ := hg.heads q List.mem_cons_self
  have hmin : ∀ e ∈ pending, keyOf h q ≤ e.1 := by
    intro e he
    obtain ⟨r, hr, hk⟩ := hg.covers e he
    rw [← hk]
    rcases List.mem_cons.mp hr with rfl | hr
    · exact le_rfl
    · exact ((List.pairwise_cons.mp hg.sorted).1 r hr).le
  have hmem := hd.mem (q := q) List.mem_cons_self
  rw [← hd.keyOf] at hmem
  have hfilter : pending.filter (fun e => pending.all fun e' => e.1 ≤ e'.1) =
      pending.filter (·.1 = keyOf h q) := by
    refine List.filter_congr fun e he => ?_
    rw [Bool.eq_iff_iff, List.all_eq_true, decide_eq_true_eq]
    refine ⟨fun hall => ?_, fun heq e' he' => ?_⟩
    · exact le_antisymm (by simpa using hall _ hmem) (hmin e he)
    · simpa [heq] using hmin e' he'
  have hsame := hd.same
  rw [← hd.keyOf, Pending.same] at hsame
  rw [Pending.soonest, ← List.head?_filter, hfilter]
  cases hlist : pending.filter (·.1 = keyOf h q) with
  | nil =>
    rw [hlist] at hsame
    cases hsame
  | cons e es =>
    rw [hlist, List.map_cons, List.cons.injEq] at hsame
    have he : e ∈ pending.filter (·.1 = keyOf h q) := by rw [hlist]; simp
    have hkey : e.1 = keyOf h q := by simpa using (List.mem_filter.mp he).2
    rw [List.head?_cons, ← hkey, ← hsame.1]

/-- The next node with the same key is the node itself, or the first subnode. -/
theorem Headed.samen (hd : Headed h pending p n qs) : n.samen = some (qs.headD p) := by
  rw [← Heap.follow_eq (f := Node.samen) hd.get]
  cases qs with
  | nil => exact (hd.ring.closed p rfl p rfl).forth
  | cons x qs => exact (List.isChain_cons_cons.mp hd.ring.chain).1.forth

/-- A node of the tree is not a subnode. -/
theorem Grouped.sub_notMem (hg : Grouped h ps pending) (hd : Headed h pending p n qs)
    (hq : q ∈ qs) : q ∉ ps := by
  intro hqs
  obtain ⟨m, rs, hd'⟩ := hg.heads q hqs
  obtain ⟨m', hm', hsub⟩ := hd.subs q hq
  obtain rfl : m = m' := Option.some.inj (hd'.get.symm.trans hm')
  have hnonneg := hd'.valid.sec
  rw [hsub] at hnonneg
  exact absurd hnonneg (by decide)

/-- The tree after its root has been replaced. -/
theorem shape_promote {a c : CellTree} {nx : Node}
    (hs : Shape Node.child h (some p) (.node a p c)) (hp : h.get p = some n)
    (hx : h'.get x = some nx) (hchild : ∀ s, nx.child s = n.child s)
    (hxt : x ∉ (CellTree.node a p c).inorder) (hre : ∀ r ≠ x, RelinkedAt h h' r)
    (hget : ∀ r ∈ (CellTree.node a p c).inorder, ∃ m, h.get r = some m) :
    Shape Node.child h' (some x) (.node a x c) := by
  obtain ⟨n', hn', ha, hc⟩ := shape_node hs
  obtain rfl : n' = n := Option.some.inj (hn'.symm.trans hp)
  have hmove : ∀ {o : Option Ptr} {u : CellTree}, Shape Node.child h o u →
      (∀ r ∈ u.inorder, r ∈ (CellTree.node a p c).inorder) → Shape Node.child h' o u := by
    intro o u hu hin
    refine hu.congr fun r hr s => ?_
    obtain ⟨m, hm⟩ := hget r (hin r hr)
    exact (hre r fun heq => hxt (heq ▸ hin r hr)).sameChild hm s
  refine .node hx ?_ ?_
  · rw [hchild]
    exact hmove ha fun r hr => by simp [CellTree.inorder, hr]
  · rw [hchild]
    exact hmove hc fun r hr => by simp [CellTree.inorder, hr]

theorem Grouped.pending_nil (hg : Grouped h [] pending) : pending = [] := by
  refine List.eq_nil_iff_forall_not_mem.mpr fun e he => ?_
  obtain ⟨p, hp, -⟩ := hg.covers e he
  cases hp

theorem inorder_nil {a : CellTree} (ha : a.inorder = []) : a = .leaf := by
  cases a with
  | leaf => rfl
  | node a p c => simp [CellTree.inorder] at ha

/-- `Curl_splaygetbest` takes out the soonest timer, if it is not later than the key. -/
theorem splaygetbest_spec (ht : Timers h root pending) (hkey : key.Valid) :
    ∃ h' root', splaygetbest h key root = some (h', root', (pending.best key.us).2) ∧
      Timers h' root' (pending.best key.us).1 ∧ Live h h' := by
  obtain ⟨t, hs, hg⟩ := ht
  unfold splaygetbest
  cases root with
  | none =>
    obtain rfl := hs.none_eq
    have hnil := hg.pending_nil
    subst hnil
    exact ⟨h, none, rfl, ⟨.leaf, .leaf, hg⟩, fun p n hp => ⟨n, hp⟩⟩
  | some r =>
    have hzero : (⟨0, 0⟩ : Curltime).Valid := ⟨le_rfl, le_rfl, by decide⟩
    obtain ⟨h1, q, a, c, hsplay, hs1, -, hg1, hbelow, -, hkept⟩ := hg.splay hs hzero
    -- no key is below zero
    have hnil : a.inorder = [] := by
      refine List.eq_nil_iff_forall_not_mem.mpr fun x hx => ?_
      obtain ⟨n, qs, hd⟩ := hg1.heads x (by simp [hx])
      have hlt := hbelow x hx
      have hnonneg := hd.valid.us_nonneg
      rw [hd.keyOf] at hlt
      exact absurd hlt (by simpa [Curltime.us] using hnonneg)
    obtain rfl := inorder_nil hnil
    obtain ⟨nq, hq, -, hc⟩ := shape_node hs1
    obtain ⟨n, qs, hd⟩ := hg1.heads q (by simp)
    obtain rfl : n = nq := Option.some.inj (hd.get.symm.trans hq)
    obtain ⟨hlt, -, -⟩ := ptimediffUs_sign hkey.range hd.valid.range
    have hsoonest : pending.soonest = some (n.key.us, q) := by
      rw [← hd.keyOf]
      exact hg1.soonest
    simp only [hsplay, hq, Option.bind_eq_bind, Option.bind_some, hlt, Pending.best, hsoonest]
    split
    · rename_i hlater
      rw [if_neg (by omega)]
      exact ⟨h1, some q, rfl, ⟨_, hs1, hg1⟩, hkept.live⟩
    rename_i hdue
    rw [if_pos (by omega), hd.samen, Option.bind_some]
    cases qs with
    | nil => exact ⟨h1, n.larger, by simp, ⟨c, hc, hg1.drop hd⟩, hkept.live⟩
    | cons x qs =>
      have hxt : x ∉ [] ++ [q] ++ c.inorder :=
        hg1.sub_notMem hd List.mem_cons_self
      have hxq : x ≠ q := fun heq => hxt (by simp [heq])
      obtain ⟨h2, nx, hpromote, hg2, hlive, hx2, hchild, hre⟩ := promote_spec hg1 hd
      refine ⟨h2, some x, by simp [hxq, hpromote], ⟨.node .leaf x c, ?_, hg2⟩,
        hkept.live.trans hlive⟩
      exact shape_promote hs1 hq hx2 hchild hxt hre fun r hr => hg1.get hr

/-! ### A given timer -/

/-- A timer is a node of the tree or a subnode of one. -/
theorem Grouped.find (hg : Grouped h ps pending) (hp : p ∈ pending.map Prod.snd) :
    ∃ as r cs n qs, ps = as ++ [r] ++ cs ∧ Headed h pending r n qs ∧ p ∈ r :: qs := by
  obtain ⟨⟨k, p'⟩, he, rfl⟩ := List.mem_map.mp hp
  obtain ⟨r, hr, hk⟩ := hg.covers _ he
  obtain ⟨as, cs, rfl⟩ := List.append_of_mem hr
  obtain ⟨n, qs, hd⟩ := hg.heads r hr
  refine ⟨as, r, cs, n, qs, by simp, hd, ?_⟩
  rw [← hd.same, Pending.mem_same, ← hd.keyOf, hk]
  exact he

/-- The node with a key that is in the tree comes to the root. -/
theorem Grouped.splay_node {r : Ptr} (hg : Grouped h t.inorder pending)
    (hs : Shape Node.child h (some r) t) (hp : p ∈ t.inorder) (hd : Headed h pending p n qs) :
    ∃ h' a c n', Splay.splay h n.key (some r) = some (h', some p) ∧
      Shape Node.child h' (some p) (.node a p c) ∧
      Grouped h' (a.inorder ++ [p] ++ c.inorder) pending ∧ Headed h' pending p n' qs ∧
      n'.key = n.key ∧ Kept h h' := by
  obtain ⟨h', q, a, c, hsplay, hshape, hall, hg', hbelow, habove, hkept⟩ := hg.splay hs hd.valid
  have hsame : pending.same n.key.us = pending.same n.key.us := rfl
  obtain ⟨n', hd', hkey⟩ := hd.congr hsame fun q _ => hkept.at q
  have hkeyp : keyOf h' p = n.key.us := by rw [hd'.keyOf, hkey]
  obtain rfl : p = q := by
    rw [← hall] at hp
    rcases List.mem_append.mp hp with hp | hp
    · rcases List.mem_append.mp hp with hp | hp
      · exact absurd hkeyp (hbelow p hp).ne
      · exact List.mem_singleton.mp hp
    · exact absurd hkeyp (habove p hp).ne'
  exact ⟨h', a, c, n', hsplay, hshape, hg', hd', hkey, hkept⟩

/-- The tree without its root: the last node on the smaller side takes its place. -/
theorem removeRoot_spec {a c : CellTree} {y : Ptr}
    (hs : Shape Node.child h (some p) (.node a p c))
    (hg : Grouped h (a.inorder ++ [p] ++ c.inorder) pending) (hd : Headed h pending p n [])
    (hsmaller : n.smaller = some y) :
    ∃ h1 h2 x, splay h n.key n.smaller = some (h1, some x) ∧
      update h1 x (fun m => { m with larger := n.larger }) = some h2 ∧
      Timers h2 (some x) (pending.without p) ∧ Live h h2 := by
  obtain ⟨n', hn', ha, hc⟩ := shape_node hs
  obtain rfl : n' = n := Option.some.inj (hn'.symm.trans hd.get)
  obtain ⟨hbelow, -⟩ := hg.around
  have hpart : a.inorder.Sublist (a.inorder ++ [p] ++ c.inorder) := by
    rw [List.append_assoc]
    exact List.sublist_append_left _ _
  rw [hsmaller] at ha ⊢
  obtain ⟨h1, x, u, w, hsplay, hs1, hall, -, habove1, hkept1, hoff1⟩ :=
    hg.splay_part hpart ha hd.valid
  have hin : ∀ r ∈ u.inorder ++ [x] ++ w.inorder, r ∈ a.inorder := fun r hr => hall ▸ hr
  -- all keys of the subtree are below the key
  have hnil : w.inorder = [] := by
    refine List.eq_nil_iff_forall_not_mem.mpr fun r hr => ?_
    have hra := hin r (by simp [hr])
    obtain ⟨nr, hnr⟩ := hg.get (hpart.subset hra)
    have hlt := habove1 r hr
    rw [hkept1.keyOf hnr] at hlt
    have hlt' := hbelow r hra
    rw [hd.keyOf] at hlt'
    omega
  obtain rfl := inorder_nil hnil
  obtain ⟨nx, hx, hu, -⟩ := shape_node hs1
  obtain ⟨h2, hu2, hset2⟩ := update_setTo hx fun m => { m with larger := n'.larger }
  have hkept2 : Kept h1 h2 := hset2.kept ⟨rfl, rfl, rfl⟩
  have hnodup := hg.nodup_nodes
  rw [← hall] at hnodup
  have hux : ∀ r ∈ u.inorder, r ≠ x := by
    rintro r hr rfl
    simp only [List.nodup_append] at hnodup
    exact hnodup.1.1.1.2.2 r hr r (by simp) rfl
  have hca : ∀ r ∈ c.inorder, r ∉ a.inorder := by
    intro r hr hra
    rw [← hall] at hra
    rw [List.nodup_append] at hnodup
    exact hnodup.2.2 r (List.mem_append_left _ hra) r hr rfl
  refine ⟨h1, h2, x, hsplay, hu2, ⟨.node u x c, .node hset2.new ?_ ?_, ?_⟩,
    hkept1.live.trans hset2.live⟩
  · exact hset2.sameOff.shape hu fun r hr => by simpa using hux r hr
  · refine hset2.sameOff.shape (hoff1.shape hc hca) fun r hr => ?_
    rw [List.mem_singleton]
    rintro rfl
    exact hca r hr (hin r (by simp))
  · have hg2 := ((hg.drop hd).kept hkept1).kept hkept2
    rw [← hall] at hg2
    simpa [CellTree.inorder] using hg2

/-- `Curl_splayremove` takes out a timer that is in the tree. -/
theorem splayremove_spec (ht : Timers h root pending) (hp : p ∈ pending.map Prod.snd) :
    ∃ h' root', splayremove h root p = some (h', root', 0) ∧ Timers h' root' (pending.without p) ∧
      Live h h' := by
  obtain ⟨t, hs, hg⟩ := ht
  obtain ⟨as, r, cs, n, qs, hps, hd, hmem⟩ := hg.find hp
  obtain ⟨r0, rfl⟩ : ∃ r0, root = some r0 := by
    cases root with
    | none =>
      rw [hs.none_eq] at hps
      simp [CellTree.inorder] at hps
    | some r0 => exact ⟨r0, rfl⟩
  unfold splayremove
  rcases List.mem_cons.mp hmem with rfl | hsub
  · -- a node of the tree
    obtain ⟨h1, a, c, n1, hsplay, hs1, hg1, hd1, hkey, hkept⟩ :=
      hg.splay_node hs (by rw [hps]; simp) hd
    simp only [hd.get, Option.bind_eq_bind, Option.bind_some, subnode_ne hd.valid, if_false, hsplay,
      ne_eq, not_true_eq_false, hd1.get, hd1.samen]
    cases qs with
    | cons x qs =>
      have hxt : x ∉ a.inorder ++ [p] ++ c.inorder := hg1.sub_notMem hd1 List.mem_cons_self
      have hxp : x ≠ p := fun heq => hxt (by simp [heq])
      obtain ⟨h2, nx, hpromote, hg2, hlive, hx2, hchild, hre⟩ := promote_spec hg1 hd1
      refine ⟨h2, some x, by simp [hxp, hpromote], ⟨.node a x c, ?_, ?_⟩, hkept.live.trans hlive⟩
      · refine shape_promote hs1 hd1.get hx2 hchild ?_ hre fun r hr => ?_
        · simpa [CellTree.inorder] using hxt
        · exact hg1.get (by simpa [CellTree.inorder] using hr)
      · simpa [CellTree.inorder] using hg2
    | nil =>
      obtain ⟨n', hn', ha, hc⟩ := shape_node hs1
      obtain rfl : n' = n1 := Option.some.inj (hn'.symm.trans hd1.get)
      cases hsmaller : n'.smaller with
      | none =>
        rw [hsmaller] at ha
        obtain rfl := ha.none_eq
        exact ⟨h1, n'.larger, by simp, ⟨c, hc, hg1.drop hd1⟩, hkept.live⟩
      | some y =>
        obtain ⟨h2, h3, x, hsplay2, hupdate, htimers, hlive⟩ :=
          removeRoot_spec hs1 hg1 hd1 hsmaller
        rw [hsmaller] at hsplay2
        exact ⟨h3, some x, by simp [hsplay2, hupdate], htimers, hkept.live.trans hlive⟩
  · -- a subnode
    obtain ⟨xs, ys, rfl⟩ := List.append_of_mem hsub
    obtain ⟨m, hm, hkey⟩ := hd.subs p hsub
    have hzero : ptimediffUs splaySubnode m.key = 0 := by
      rw [hkey]
      decide
    rw [hps] at hg
    obtain ⟨h1, h2, h3, next, prev, hnext, hprev, hne, hu1, hu2, hu3, hg3, hlive, hre⟩ :=
      unlink_spec hg hd hm
    refine ⟨h3, some r0, ?_, ⟨t, ?_, hps ▸ hg3⟩, hlive⟩
    · simp [hm, hzero, hnext, hprev, hne, hu1, hu2, hu3]
    · refine hs.congr fun x hx s => ?_
      obtain ⟨nx, hx'⟩ := hg.get (hps ▸ hx)
      exact (hre x).sameChild hx' s

end Gurl.Splay
