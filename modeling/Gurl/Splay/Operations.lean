import Gurl.Splay.Timers

/-! The operations on the tree do to the timers what their names say. -/

namespace Gurl.Splay

open LinkedHeap HeapTree

variable {h h' h'' : Heap Node} {key : Curltime} {p q r x : Ptr} {n m : Node} {pending : Pending}
  {ps qs as cs : List Ptr} {root : Option Ptr} {t : CellTree}

/-- No node goes away. -/
def Live (h h' : Heap Node) : Prop := ∀ p n, h.get p = some n → ∃ n', h'.get p = some n'

theorem Live.trans (h1 : Live h h') (h2 : Live h' h'') : Live h h'' := by
  intro p n hp
  obtain ⟨n', hp'⟩ := h1 p n hp
  exact h2 p n' hp'

theorem Kept.live (hkept : Kept h h') : Live h h' := by
  intro p n hp
  obtain ⟨n', hp', -⟩ := hkept p n hp
  exact ⟨n', hp'⟩

/-- Only links between nodes with the same key change. -/
structure Node.Relinked (n n' : Node) : Prop where
  key : n'.key = n.key
  child : ∀ s, n'.child s = n.child s

/-- Only such links of the node `p` change. -/
def RelinkedAt (h h' : Heap Node) (p : Ptr) : Prop :=
  ∀ n, h.get p = some n → ∃ n', h'.get p = some n' ∧ n.Relinked n'

theorem RelinkedAt.trans (h1 : RelinkedAt h h' p) (h2 : RelinkedAt h' h'' p) :
    RelinkedAt h h'' p := by
  intro n hp
  obtain ⟨n1, hp1, hr1⟩ := h1 n hp
  obtain ⟨n2, hp2, hr2⟩ := h2 n1 hp1
  exact ⟨n2, hp2, hr2.key.trans hr1.key, fun s => (hr2.child s).trans (hr1.child s)⟩

theorem RelinkedAt.of_eq (heq : h'.get p = h.get p) : RelinkedAt h h' p :=
  fun n hn => ⟨n, heq.trans hn, rfl, fun _ => rfl⟩

theorem RelinkedAt.sameChild (hre : RelinkedAt h h' p) (hp : h.get p = some n) (s : Side) :
    SameChild Node.child h h' s p := by
  obtain ⟨n', hp', hr⟩ := hre n hp
  rw [SameChild, hp, hp', Option.map_some, Option.map_some, hr.child s]

/-- The heap `h'` is `h` with `m` in the place of the node `n` at `p`. -/
structure SetTo (h : Heap Node) (p : Ptr) (n m : Node) (h' : Heap Node) : Prop where
  old : h.get p = some n
  new : h'.get p = some m
  off : ∀ x ≠ p, h'.get x = h.get x

theorem update_setTo (hp : h.get p = some n) (f : Node → Node) :
    ∃ h', update h p f = some h' ∧ SetTo h p n (f n) h' :=
  ⟨_, update_eq hp f, hp, Heap.get_set_self hp, fun _ hne => Heap.get_set_ne hne⟩

theorem SetTo.live (hs : SetTo h p n m h') : Live h h' := by
  intro q n' hq
  by_cases heq : q = p
  · exact ⟨m, heq ▸ hs.new⟩
  · exact ⟨n', (hs.off q heq).trans hq⟩

theorem SetTo.relinkedAt (hs : SetTo h p n m h') (hre : n.Relinked m) (q : Ptr) :
    RelinkedAt h h' q := by
  intro n' hq
  by_cases heq : q = p
  · subst heq
    rw [hs.old, Option.some.injEq] at hq
    subst hq
    exact ⟨m, hs.new, hre⟩
  · exact ⟨n', (hs.off q heq).trans hq, rfl, fun _ => rfl⟩

theorem SetTo.follow (hs : SetTo h p n m h') (f : Node → Option Ptr) (q : Ptr) :
    h'.follow f q = if q = p then f m else h.follow f q := by
  split
  · rename_i heq
    rw [heq, Heap.follow_eq hs.new]
  · rename_i hne
    rw [Heap.follow, hs.off q hne, Heap.follow]

/-- A field that has not changed. -/
theorem SetTo.follow_same (hs : SetTo h p n m h') {f : Node → Option Ptr} (hf : f m = f n)
    (q : Ptr) : h'.follow f q = h.follow f q := by
  rw [hs.follow]
  split
  · rename_i heq
    rw [heq, Heap.follow_eq hs.old, hf]
  · rfl

/-! ### Timers go in -/

theorem Pending.same_concat (k : Int) (p : Ptr) :
    Pending.same (pending ++ [(k, p)]) k = pending.same k ++ [p] := by
  simp [Pending.same]

theorem Pending.same_concat_ne {k k' : Int} (hne : k' ≠ k) (p : Ptr) :
    Pending.same (pending ++ [(k, p)]) k' = pending.same k' := by
  simp [Pending.same, Ne.symm hne]

theorem Pending.nodup_concat (hnodup : (pending.map Prod.snd).Nodup)
    (hnew : p ∉ pending.map Prod.snd) (k : Int) :
    ((pending ++ [(k, p)]).map Prod.snd).Nodup := by
  rw [List.map_append, List.map_singleton, ← List.concat_eq_append]
  exact hnodup.concat hnew

/-- The circle of a group, and the link from its first node to its last one. -/
theorem Headed.last (hd : Headed h pending p n qs) :
    ∃ last m, (p :: qs).getLast? = some last ∧ n.samep = some last ∧ h.get last = some m ∧
      last ∈ p :: qs := by
  obtain ⟨last, hlast⟩ := Option.ne_none_iff_exists'.mp
    (show (p :: qs).getLast? ≠ none by simp)
  have hmem := List.mem_of_getLast? hlast
  obtain ⟨m, hm⟩ := hd.get_ring last hmem
  refine ⟨last, m, hlast, ?_, hm, hmem⟩
  rw [← Heap.follow_eq (f := Node.samep) hd.get]
  exact (hd.ring.closed last hlast p rfl).back

theorem Headed.nodup (hd : Headed h pending p n qs) (hnodup : (pending.map Prod.snd).Nodup) :
    (p :: qs).Nodup := by
  rw [← hd.same]
  exact Pending.nodup_same hnodup _

/-- A timer with a key that is in the tree. -/
theorem insertSame_spec (hg : Grouped h (as ++ [q] ++ cs) pending) (hd : Headed h pending q n qs)
    (hbelow : ∀ a ∈ as, keyOf h a < n.key.us) (habove : ∀ c ∈ cs, n.key.us < keyOf h c)
    (hp : h.get p = some m) (hnew : p ∉ pending.map Prod.snd) :
    ∃ h', insertSame h q p = some h' ∧
      Grouped h' (as ++ [q] ++ cs) (pending ++ [(n.key.us, p)]) ∧ Live h h' ∧
      ∀ r ≠ p, RelinkedAt h h' r := by
  obtain ⟨last, ml, hlast, hsamep, hl, hmem⟩ := hd.last
  have hnodup := hd.nodup hg.nodup
  have hout : ∀ x ∈ q :: qs, x ≠ p := fun x hx heq =>
    hnew (List.mem_map_of_mem (f := Prod.snd) (heq ▸ hd.mem hx))
  have hlp : last ≠ p := hout last hmem
  have hqp : q ≠ p := hout q List.mem_cons_self
  -- the new node, the link from the last node, the link from the first node
  obtain ⟨h1, hu1, hs1⟩ := update_setTo hp fun n =>
    { n with key := splaySubnode, samen := some q, samep := some last }
  have hl1 : h1.get last = some ml := (hs1.off last hlp).trans hl
  obtain ⟨h2, hu2, hs2⟩ := update_setTo hl1 fun n => { n with samen := some p }
  obtain ⟨nq, hq2⟩ := hs2.live q n ((hs1.off q hqp).trans hd.get)
  obtain ⟨h3, hu3, hs3⟩ := update_setTo hq2 fun n => { n with samep := some p }
  have hnext : ∀ x, h3.follow Node.samen x =
      if x = last then some p else if x = p then some q else h.follow Node.samen x := fun x => by
    rw [hs3.follow_same rfl, hs2.follow, hs1.follow]
  have hprev : ∀ x, h3.follow Node.samep x =
      if x = q then some p else if x = p then some last else h.follow Node.samep x := fun x => by
    rw [hs3.follow, hs2.follow_same rfl, hs1.follow]
  have hre23 : ∀ x, RelinkedAt h1 h3 x := fun x =>
    (hs2.relinkedAt ⟨rfl, fun s => by cases s <;> rfl⟩ x).trans
      (hs3.relinkedAt ⟨rfl, fun s => by cases s <;> rfl⟩ x)
  have hre : ∀ x ≠ p,
    RelinkedAt h h3 x := fun x hx => (.of_eq (hs1.off x hx) : RelinkedAt h h1 x).trans (hre23 x)
  have hring : Ring Node.samen Node.samep h3 (q :: qs ++ [p]) := by
    refine hd.ring.append hnodup hlast (fun a ha hne => ?_) (fun b hb => ?_) ⟨?_, ?_⟩ ⟨?_, ?_⟩
    · rw [hnext, if_neg hne, if_neg (hout a ha)]
    · have hbq : b ≠ q := fun heq => (List.nodup_cons.mp hnodup).1 (heq ▸ hb)
      rw [hprev, if_neg hbq, if_neg (hout b (List.mem_cons_of_mem _ hb))]
    · rw [hnext, if_pos rfl]
    · rw [hprev, if_neg (Ne.symm hqp), if_pos rfl]
    · rw [hnext, if_neg (Ne.symm hlp), if_pos rfl]
    · rw [hprev, if_pos rfl]
  obtain ⟨n3, hn3, hrn⟩ := hre q hqp n hd.get
  have hsub : ∀ x ∈ qs ++ [p], ∃ m, h3.get x = some m ∧ m.key = splaySubnode := by
    intro x hx
    rcases List.mem_append.mp hx with hx | hx
    · obtain ⟨m', hm', hkey⟩ := hd.subs x hx
      obtain ⟨m3, hm3, hrm⟩ := hre x (hout x (List.mem_cons_of_mem _ hx)) m' hm'
      exact ⟨m3, hm3, hrm.key.trans hkey⟩
    · rw [List.mem_singleton.mp hx]
      obtain ⟨m3, hm3, hrm⟩ := hre23 p _ hs1.new
      exact ⟨m3, hm3, hrm.key⟩
  have hhead : Headed h3 (pending ++ [(n.key.us, p)]) q n3 (qs ++ [p]) := by
    refine ⟨hn3, hrn.key ▸ hd.valid, ?_, hring, hsub⟩
    rw [hrn.key, Pending.same_concat, hd.same]
    rfl
  refine ⟨h3, ?_, ?_, (hs1.live.trans hs2.live).trans hs3.live, hre⟩
  · simp only [insertSame, hd.get, hsamep, hu1, hu2, hu3, Option.bind_eq_bind, Option.bind_some]
  · refine hg.replace (some q) hbelow habove ?_ ?_ ?_ ?_ nofun
      (Pending.nodup_concat hg.nodup hnew _)
    · simpa using hd.keyOf
    · rintro x ⟨⟩
      exact ⟨n3, qs ++ [p], hhead, by rw [hrn.key]⟩
    · intro e he hne
      have hep : e.2 ≠ p := fun heq => hnew (heq ▸ List.mem_map_of_mem (f := Prod.snd) he)
      have heq : h3.get e.2 = h.get e.2 := by
        rw [hs3.off _ (hd.ne_of_key hg.nodup he hne List.mem_cons_self),
          hs2.off _ (hd.ne_of_key hg.nodup he hne hmem), hs1.off _ hep]
      exact fun m hm => ⟨m, heq.trans hm, rfl, rfl, rfl⟩
    · exact fun k' hk' => Pending.same_concat_ne hk' p

theorem Grouped.notMem_of_new (hg : Grouped h ps pending) (hnew : p ∉ pending.map Prod.snd) :
    p ∉ ps := by
  intro hp
  obtain ⟨n, qs, hd⟩ := hg.heads p hp
  exact hnew (List.mem_map_of_mem (f := Prod.snd) (hd.mem List.mem_cons_self))

/-- A timer with a key that is not in the tree. -/
theorem insertKey_spec (smaller larger : Option Ptr) (hg : Grouped h (as ++ cs) pending)
    (hkey : key.Valid) (hbelow : ∀ a ∈ as, keyOf h a < key.us)
    (habove : ∀ c ∈ cs, key.us < keyOf h c) (hp : h.get p = some m)
    (hnew : p ∉ pending.map Prod.snd) :
    ∃ h', insertKey h key smaller larger p = some h' ∧
      Grouped h' (as ++ [p] ++ cs) (pending ++ [(key.us, p)]) ∧
      SetTo h p m ⟨smaller, larger, some p, some p, key⟩ h' := by
  obtain ⟨h1, hu1, hs1⟩ := update_setTo hp fun _ =>
    { smaller, larger, key, samen := some p, samep := some p }
  refine ⟨h1, hu1, ?_, hs1⟩
  have hnone : pending.same key.us = [] := by
    refine List.eq_nil_iff_forall_not_mem.mpr fun q hq => ?_
    obtain ⟨r, hr, hk⟩ := hg.covers _ (Pending.mem_same.mp hq)
    rcases List.mem_append.mp hr with hr | hr
    · exact (hbelow r hr).ne hk
    · exact (habove r hr).ne' hk
  have hbehind : Behind Node.samen Node.samep h1 p p :=
    ⟨Heap.follow_eq hs1.new, Heap.follow_eq hs1.new⟩
  have hhead : Headed h1 (pending ++ [(key.us, p)]) p
      ⟨smaller, larger, some p, some p, key⟩ [] := by
    refine ⟨hs1.new, hkey, ?_, ⟨List.isChain_singleton p, ?_⟩, fun _ hq => nomatch hq⟩
    · rw [Pending.same_concat, hnone]
      rfl
    · rintro x ⟨⟩ y ⟨⟩
      exact hbehind
  have hg' : Grouped h (as ++ [] ++ cs) pending := by simpa using hg
  refine hg'.replace (some p) hbelow habove (by simp) ?_ ?_ ?_ nofun
    (Pending.nodup_concat hg.nodup hnew _)
  · rintro x ⟨⟩
    exact ⟨_, [], hhead, rfl⟩
  · intro e he _ m' hm'
    have hep : e.2 ≠ p := fun heq => hnew (heq ▸ List.mem_map_of_mem (f := Prod.snd) he)
    exact ⟨m', (hs1.off _ hep).trans hm', rfl, rfl, rfl⟩
  · exact fun k' hk' => Pending.same_concat_ne hk' p

theorem SetTo.sameOff (hs : SetTo h p n m h') : SameOff [p] h h' :=
  fun x hx => hs.off x (by simpa using hx)

theorem SetTo.kept (hs : SetTo h p n m h') (hkept : n.Kept m) : Kept h h' := by
  intro q n' hq
  by_cases heq : q = p
  · subst heq
    rw [hs.old, Option.some.injEq] at hq
    subst hq
    exact ⟨m, hs.new, hkept⟩
  · exact ⟨n', (hs.off q heq).trans hq, rfl, rfl, rfl⟩

/-- The root of a tree and its subtrees. -/
theorem shape_node {a c : CellTree} (hs : Shape Node.child h (some q) (.node a q c)) :
    ∃ n, h.get q = some n ∧ Shape Node.child h n.smaller a ∧ Shape Node.child h n.larger c := by
  cases hs with
  | node hq ha hc => exact ⟨_, hq, ha, hc⟩

/-- The new node `p` takes one subtree of the root `q`, and `q` with the other one. -/
theorem shape_beside {s : Side} {a c : CellTree} {n n2 m2 m3 : Node}
    (hs : Shape Node.child h (some q) (.join s a q c)) (hq : SetTo h q n n2 h')
    (hp : SetTo h' p m2 m3 h'') (hpt : p ∉ (CellTree.join s a q c).inorder)
    (hnodup : (CellTree.join s a q c).inorder.Nodup) (hopen : n2.child s = none)
    (hkeep : n2.child s.other = n.child s.other) (htake : m3.child s = n.child s)
    (hroot : m3.child s.other = some q) :
    Shape Node.child h'' (some p) (.join s a p (.join s .leaf q c)) := by
  obtain ⟨-, n', hn', ha, hc⟩ := hs.of_join
  obtain rfl : n' = n := Option.some.inj (hn'.symm.trans hq.old)
  obtain ⟨hane, hcne, -, -⟩ := join_nodup hnodup
  have hmem : ∀ x, x ∈ a.inorder ∨ x = q ∨ x ∈ c.inorder → x ∈ (CellTree.join s a q c).inorder := by
    intro x hx
    cases s <;> simp [CellTree.join, CellTree.inorder] <;> tauto
  have hmove : ∀ {o : Option Ptr} {u : CellTree}, Shape Node.child h o u →
      (∀ x ∈ u.inorder, x ≠ q ∧ x ≠ p) → Shape Node.child h'' o u := by
    intro o u hu hout
    refine hu.congr fun x hx s => ?_
    rw [SameChild, hp.off x (hout x hx).2, hq.off x (hout x hx).1]
  have hqp : q ≠ p := fun heq => hpt (heq ▸ hmem q (.inr (.inl rfl)))
  have ha' := hmove ha fun x hx => ⟨hane x hx, fun heq => hpt (heq ▸ hmem x (.inl hx))⟩
  have hc' := hmove hc fun x hx => ⟨hcne x hx, fun heq => hpt (heq ▸ hmem x (.inr (.inr hx)))⟩
  refine Shape.join hp.new (htake ▸ ha') ?_
  rw [hroot]
  refine Shape.join ((hp.off q hqp).trans hq.new) ?_ (hkeep ▸ hc')
  rw [hopen]
  exact .leaf

/-- `Curl_splayinsert` adds a timer. -/
theorem splayinsert_spec (ht : Timers h root pending) (hkey : key.Valid) (hp : h.get p = some m)
    (hnew : p ∉ pending.map Prod.snd) :
    ∃ h' root', splayinsert h key root p = some (h', root') ∧
      Timers h' root' (pending ++ [(key.us, p)]) ∧ Live h h' := by
  obtain ⟨t, hs, hg⟩ := ht
  unfold splayinsert
  cases root with
  | none =>
    obtain rfl := hs.none_eq
    have hg0 : Grouped h ([] ++ []) pending := hg
    obtain ⟨h1, hinsert, hg1, hset⟩ := insertKey_spec none none hg0 hkey
      (fun _ ha => nomatch ha) (fun _ hc => nomatch hc) hp hnew
    refine ⟨h1, some p, ?_, ⟨.node .leaf p .leaf, .node hset.new .leaf .leaf, hg1⟩, hset.live⟩
    simp only [splay, hinsert, Option.bind_eq_bind, Option.bind_some]
  | some r =>
    obtain ⟨h1, q, a, c, hsplay, hs1, hall, hg1, hbelow, habove, hkept⟩ := hg.splay hs hkey
    obtain ⟨nq, hq, ha, hc⟩ := shape_node hs1
    obtain ⟨n, qs, hd⟩ := hg1.heads q (by simp)
    obtain rfl : n = nq := Option.some.inj (hd.get.symm.trans hq)
    obtain ⟨m1, hp1, -⟩ := hkept p m hp
    obtain ⟨hlt, hgt, heq⟩ := ptimediffUs_sign hkey.range hd.valid.range
    have hpt := hg1.notMem_of_new hnew
    have htree : p ∉ (CellTree.node a q c).inorder ∧ (CellTree.node a q c).inorder.Nodup := by
      have hnodup := hg1.nodup_nodes
      rw [List.append_assoc] at hpt hnodup
      exact ⟨hpt, hnodup⟩
    simp only [hsplay, hq, Option.bind_eq_bind, Option.bind_some, hlt, heq]
    split
    · rename_i hsame
      rw [hsame] at hbelow habove
      obtain ⟨h2, hinsert, hg2, hlive, hre⟩ := insertSame_spec hg1 hd hbelow habove hp1 hnew
      refine ⟨h2, some q, by simp [hinsert], ⟨.node a q c, ?_, ?_⟩, hkept.live.trans hlive⟩
      · refine hs1.congr fun x hx s => ?_
        obtain ⟨nx, hx1⟩ := hg1.get (p := x) (by simpa [CellTree.inorder] using hx)
        refine (hre x fun hxp => hpt ?_).sameChild hx1 s
        simpa [CellTree.inorder, hxp] using hx
      · simpa [CellTree.inorder, hsame] using hg2
    rename_i hne
    split
    · -- the old root goes to the larger side
      rename_i hless
      obtain ⟨h2, hu2, hset2⟩ := update_setTo hq fun n => { n with smaller := none }
      have hkept2 : Kept h1 h2 := hset2.kept ⟨rfl, rfl, rfl⟩
      have hkeys : ∀ x ∈ a.inorder ++ [q] ++ c.inorder, keyOf h2 x = keyOf h1 x := fun x hx => by
        obtain ⟨nx, hx1⟩ := hg1.get hx
        exact hkept2.keyOf hx1
      have hg2 : Grouped h2 (a.inorder ++ ([q] ++ c.inorder)) pending := by
        rw [← List.append_assoc]
        exact hg1.kept hkept2
      obtain ⟨m2, hp2, -⟩ := hkept2 p m1 hp1
      have hbelow2 : ∀ x ∈ a.inorder, keyOf h2 x < key.us := fun x hx => by
        rw [hkeys x (by simp [hx])]
        exact hbelow x hx
      have habove2 : ∀ x ∈ [q] ++ c.inorder, key.us < keyOf h2 x := fun x hx => by
        rw [hkeys x (by simp at hx ⊢; tauto)]
        rcases List.mem_append.mp hx with hx | hx
        · rw [List.mem_singleton.mp hx, hd.keyOf]
          exact hless
        · exact habove x hx
      obtain ⟨h3, hinsert, hg3, hset3⟩ := insertKey_spec n.smaller (some q) hg2 hkey hbelow2
        habove2 hp2 hnew
      refine ⟨h3, some p, by simp [hu2, hinsert], ⟨.node a p (.node .leaf q c), ?_, ?_⟩, ?_⟩
      · exact shape_beside (s := .smaller) hs1 hset2 hset3 htree.1 htree.2 rfl rfl rfl rfl
      · simpa [CellTree.inorder] using hg3
      · exact (hkept.live.trans hset2.live).trans hset3.live
    · -- the old root goes to the smaller side
      rename_i hmore
      obtain ⟨h2, hu2, hset2⟩ := update_setTo hq fun n => { n with larger := none }
      have hkept2 : Kept h1 h2 := hset2.kept ⟨rfl, rfl, rfl⟩
      have hkeys : ∀ x ∈ a.inorder ++ [q] ++ c.inorder, keyOf h2 x = keyOf h1 x := fun x hx => by
        obtain ⟨nx, hx1⟩ := hg1.get hx
        exact hkept2.keyOf hx1
      obtain ⟨m2, hp2, -⟩ := hkept2 p m1 hp1
      have hbelow2 : ∀ x ∈ a.inorder ++ [q], keyOf h2 x < key.us := fun x hx => by
        rw [hkeys x (List.mem_append_left _ hx)]
        rcases List.mem_append.mp hx with hx | hx
        · exact hbelow x hx
        · rw [List.mem_singleton.mp hx, hd.keyOf]
          omega
      have habove2 : ∀ x ∈ c.inorder, key.us < keyOf h2 x := fun x hx => by
        rw [hkeys x (List.mem_append_right _ hx)]
        exact habove x hx
      obtain ⟨h3, hinsert, hg3, hset3⟩ := insertKey_spec (some q) n.larger (hg1.kept hkept2) hkey
        hbelow2 habove2 hp2 hnew
      refine ⟨h3, some p, by simp [hu2, hinsert], ⟨.node (.node a q .leaf) p c, ?_, ?_⟩, ?_⟩
      · exact shape_beside (s := .larger) hs1 hset2 hset3 htree.1 htree.2 rfl rfl rfl rfl
      · simpa [CellTree.inorder] using hg3
      · exact (hkept.live.trans hset2.live).trans hset3.live

end Gurl.Splay
