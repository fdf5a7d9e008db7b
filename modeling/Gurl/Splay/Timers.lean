import Gurl.Lib.Refine
import Gurl.Lib.Ring
import Gurl.Splay.Rotations

/-! The tree as a queue of timers: a timer with the smallest key comes out first, and timers with
the same key come out in the order in which they went in. -/

namespace Gurl.Splay

open LinkedHeap HeapTree

variable {h h' : Heap Node} {key : Curltime} {p q r : Ptr} {n m : Node}

/-! ### Keys -/

/-- A time in microseconds. -/
def Curltime.us (k : Curltime) : Int := k.tvSec * 1000000 + k.tvUsec

/-- A time that is not negative, as `curlx_now` returns it. -/
structure Curltime.Valid (k : Curltime) : Prop where
  sec : 0 ≤ k.tvSec
  usec : 0 ≤ k.tvUsec
  usec_lt : k.tvUsec < 1000000

theorem Curltime.Valid.us_nonneg {k : Curltime} (h : k.Valid) : 0 ≤ k.us := by
  have := h.sec
  have := h.usec
  unfold Curltime.us
  omega

/-- The difference has the sign of the difference in microseconds, also where it is cut off. -/
theorem ptimediffUs_sign {a b : Curltime} (ha : -1 ≤ a.tvUsec ∧ a.tvUsec < 1000000)
    (hb : -1 ≤ b.tvUsec ∧ b.tvUsec < 1000000) :
    (ptimediffUs a b < 0 ↔ a.us < b.us) ∧ (ptimediffUs a b > 0 ↔ b.us < a.us) ∧
      (ptimediffUs a b = 0 ↔ a.us = b.us) := by
  have hmax : timediffTMax.tdiv 1000000 = 9223372036854 := by decide
  have hmin : timediffTMin.tdiv 1000000 = -9223372036854 := by decide
  unfold ptimediffUs Curltime.us
  rw [hmax, hmin]
  unfold timediffTMax timediffTMin
  dsimp only
  split
  · omega
  · split <;> omega

theorem Curltime.Valid.range {k : Curltime} (h : k.Valid) :
    -1 ≤ k.tvUsec ∧ k.tvUsec < 1000000 := ⟨by have := h.usec; omega, h.usec_lt⟩

/-- The side of a number on which another one lies. -/
def sideOf (k x : Int) : Option Side :=
  if k < x then some .smaller else if x < k then some .larger else none

theorem side_eq (hkey : key.Valid) (hn : n.key.Valid) : side key n = sideOf key.us n.key.us := by
  obtain ⟨hlt, hgt, -⟩ := ptimediffUs_sign hkey.range hn.range
  simp only [side, sideOf, hlt, hgt]

theorem subnode_ne (hn : n.key.Valid) : ptimediffUs splaySubnode n.key ≠ 0 := by
  have hrange : -1 ≤ splaySubnode.tvUsec ∧ splaySubnode.tvUsec < 1000000 := by decide
  rw [ne_eq, (ptimediffUs_sign hrange hn.range).2.2]
  have hus : splaySubnode.us = -1000001 := by decide
  have := hn.us_nonneg
  omega

/-- The key of a node, in microseconds. -/
def keyOf (h : Heap Node) (p : Ptr) : Int := ((h.get p).map fun n => n.key.us).getD 0

theorem keyOf_eq (hp : h.get p = some n) : keyOf h p = n.key.us := by simp [keyOf, hp]

/-- Nodes with growing keys lie on the sides of any key in this order. -/
theorem sorted_sideOf {ps : List Ptr} (hsorted : ps.Pairwise fun p q => keyOf h p < keyOf h q)
    (k : Int) : Sorted (fun p => sideOf k (keyOf h p)) ps := by
  have hside : ∀ x y : Int, x < y → sideOf k y ≠ some .smaller → sideOf k x = some .larger := by
    intro x y hxy hne
    unfold sideOf at hne ⊢
    split at hne
    · contradiction
    · rw [if_neg (by omega), if_pos (by omega)]
  have hside' : ∀ x y : Int, x < y → sideOf k x ≠ some .larger → sideOf k y = some .smaller := by
    intro x y hxy hne
    unfold sideOf at hne ⊢
    rw [if_pos]
    by_contra hle
    rw [if_neg (by omega), if_pos (by omega)] at hne
    contradiction
  intro s
  cases s with
  | smaller =>
    rw [oriented, List.pairwise_reverse]
    exact hsorted.imp fun hlt => hside' _ _ hlt
  | larger => exact hsorted.imp fun hlt => hside _ _ hlt

/-! ### The timers -/

/-- Timers with their keys, in the order in which they went in. -/
abbrev Pending := List (Int × Ptr)

variable {pending pending' : Pending} {ps qs : List Ptr} {root : Option Ptr} {t : CellTree}

/-- The timers with the key `k`. -/
def Pending.same (pending : Pending) (k : Int) : List Ptr := (pending.filter (·.1 = k)).map Prod.snd

theorem Pending.mem_same {k : Int} : p ∈ pending.same k ↔ (k, p) ∈ pending := by
  simp [Pending.same]

/-- A node of the tree is the first timer with its key. All timers with this key are in a circle,
and all but the first are marked as subnodes. -/
structure Headed (h : Heap Node) (pending : Pending) (p : Ptr) (n : Node) (qs : List Ptr) :
    Prop where
  get : h.get p = some n
  valid : n.key.Valid
  same : pending.same n.key.us = p :: qs
  ring : Ring Node.samen Node.samep h (p :: qs)
  subs : ∀ q ∈ qs, ∃ m, h.get q = some m ∧ m.key = splaySubnode

/-- The nodes `ps` of the tree, in order, and the timers. -/
structure Grouped (h : Heap Node) (ps : List Ptr) (pending : Pending) : Prop where
  sorted : ps.Pairwise fun p q => keyOf h p < keyOf h q
  heads : ∀ p ∈ ps, ∃ n qs, Headed h pending p n qs
  covers : ∀ e ∈ pending, ∃ p ∈ ps, keyOf h p = e.1
  nodup : (pending.map Prod.snd).Nodup

/-- The tree at `root` holds the timers. -/
def Timers (h : Heap Node) (root : Option Ptr) (pending : Pending) : Prop :=
  ∃ t, Shape Node.child h root t ∧ Grouped h t.inorder pending

/-- A node keeps all but its links between trees. -/
def KeptAt (h h' : Heap Node) (p : Ptr) : Prop :=
  ∀ n, h.get p = some n → ∃ n', h'.get p = some n' ∧ n.Kept n'

theorem KeptAt.follow (hkept : KeptAt h h' p) (hp : h.get p = some n) :
    h'.follow Node.samen p = h.follow Node.samen p ∧
      h'.follow Node.samep p = h.follow Node.samep p := by
  obtain ⟨n', hn', hk⟩ := hkept n hp
  rw [Heap.follow_eq hp, Heap.follow_eq hn', Heap.follow_eq hp, Heap.follow_eq hn']
  exact ⟨hk.samen, hk.samep⟩

theorem Headed.get_ring (hd : Headed h pending p n qs) : ∀ q ∈ p :: qs, ∃ m, h.get q = some m := by
  intro q hq
  rcases List.mem_cons.mp hq with rfl | hq
  · exact ⟨n, hd.get⟩
  · obtain ⟨m, hm, -⟩ := hd.subs q hq
    exact ⟨m, hm⟩

/-- A group depends on its own nodes and timers. -/
theorem Headed.congr (hd : Headed h pending p n qs)
    (hsame : pending'.same n.key.us = pending.same n.key.us)
    (hkept : ∀ q ∈ p :: qs, KeptAt h h' q) :
    ∃ n', Headed h' pending' p n' qs ∧ n'.key = n.key := by
  obtain ⟨n', hn', hk⟩ := hkept p List.mem_cons_self n hd.get
  refine ⟨n', ⟨hn', hk.key ▸ hd.valid, ?_, ?_, fun q hq => ?_⟩, hk.key⟩
  · rw [hk.key, hsame, hd.same]
  · refine hd.ring.congr (fun q hq => ?_) fun q hq => ?_
    · obtain ⟨m, hm⟩ := hd.get_ring q hq
      exact ((hkept q hq).follow hm).1
    · obtain ⟨m, hm⟩ := hd.get_ring q hq
      exact ((hkept q hq).follow hm).2
  · obtain ⟨m, hm, hsub⟩ := hd.subs q hq
    obtain ⟨m', hm', hk'⟩ := hkept q (List.mem_cons_of_mem _ hq) m hm
    exact ⟨m', hm', hk'.key.trans hsub⟩

theorem Headed.keyOf (hd : Headed h pending p n qs) : Splay.keyOf h p = n.key.us := keyOf_eq hd.get

/-- The nodes of a group are timers with its key. -/
theorem Headed.mem (hd : Headed h pending p n qs) (hq : q ∈ p :: qs) : (n.key.us, q) ∈ pending := by
  rw [← hd.same] at hq
  exact Pending.mem_same.mp hq

/-- A timer has one key. -/
theorem Pending.key_unique {k k' : Int} (hnodup : (pending.map Prod.snd).Nodup)
    (hp : (k, p) ∈ pending) (hp' : (k', p) ∈ pending) : k = k' :=
  congrArg Prod.fst (List.inj_on_of_nodup_map hnodup hp hp' rfl)

theorem Pending.nodup_same (hnodup : (pending.map Prod.snd).Nodup) (k : Int) :
    (pending.same k).Nodup :=
  hnodup.sublist (List.Sublist.map Prod.snd List.filter_sublist)

/-- A timer with another key is not in the group. -/
theorem Headed.ne_of_key (hd : Headed h pending p n qs) (hnodup : (pending.map Prod.snd).Nodup)
    {e : Int × Ptr} (he : e ∈ pending) (hkey : e.1 ≠ n.key.us) (hq : q ∈ p :: qs) : e.2 ≠ q := by
  rintro rfl
  exact hkey (Pending.key_unique hnodup he (hd.mem hq))

/-- One group changes, and the others stay where they are. -/
theorem Grouped.replace {as old cs : List Ptr} {k : Int} (mid : Option Ptr)
    (hg : Grouped h (as ++ old ++ cs) pending) (hbelow : ∀ a ∈ as, keyOf h a < k)
    (habove : ∀ c ∈ cs, k < keyOf h c) (hold : ∀ p ∈ old, keyOf h p = k)
    (hmid : ∀ x ∈ mid, ∃ n qs, Headed h' pending' x n qs ∧ n.key.us = k)
    (hothers : ∀ e ∈ pending, e.1 ≠ k → KeptAt h h' e.2)
    (hsame : ∀ k' ≠ k, pending'.same k' = pending.same k')
    (hcover : ∀ p, (k, p) ∈ pending' → mid ≠ none) (hnodup : (pending'.map Prod.snd).Nodup) :
    Grouped h' (as ++ mid.toList ++ cs) pending' := by
  have hother : ∀ r ∈ as ++ cs, ∃ n qs, Headed h' pending' r n qs ∧ n.key.us = keyOf h r := by
    intro r hr
    obtain ⟨n, qs, hd⟩ := hg.heads r (by simp at hr ⊢; tauto)
    have hne : n.key.us ≠ k := by
      rw [← hd.keyOf]
      rcases List.mem_append.mp hr with hr | hr
      · exact (hbelow r hr).ne
      · exact (habove r hr).ne'
    obtain ⟨n', hd', hk⟩ := hd.congr (hsame _ hne) fun q hq => hothers _ (hd.mem hq) hne
    exact ⟨n', qs, hd', by rw [hk, hd.keyOf]⟩
  have hkey : ∀ r ∈ as ++ cs, keyOf h' r = keyOf h r := by
    intro r hr
    obtain ⟨n, qs, hd, hk⟩ := hother r hr
    rw [hd.keyOf, hk]
  have hkeymid : ∀ x ∈ mid, keyOf h' x = k := by
    intro x hx
    obtain ⟨n, qs, hd, hk⟩ := hmid x hx
    rw [hd.keyOf, hk]
  obtain ⟨hao, hcs, hbetween⟩ := List.pairwise_append.mp hg.sorted
  obtain ⟨has, -, -⟩ := List.pairwise_append.mp hao
  refine ⟨?_, ?_, ?_, hnodup⟩
  · refine List.pairwise_append.mpr ⟨List.pairwise_append.mpr ⟨?_, ?_, ?_⟩, ?_, ?_⟩
    · refine has.imp_of_mem fun {a b} ha hb hlt => ?_
      rw [hkey a (by simp [ha]), hkey b (by simp [hb])]
      exact hlt
    · cases mid <;> simp
    · intro a ha x hx
      rw [hkey a (by simp [ha]), hkeymid x (by simpa using hx)]
      exact hbelow a ha
    · refine hcs.imp_of_mem fun {a b} ha hb hlt => ?_
      rw [hkey a (by simp [ha]), hkey b (by simp [hb])]
      exact hlt
    · intro a ha c hc
      rw [hkey c (by simp [hc])]
      rcases List.mem_append.mp ha with ha | ha
      · rw [hkey a (by simp [ha])]
        exact (hbelow a ha).trans (habove c hc)
      · rw [hkeymid a (by simpa using ha)]
        exact habove c hc
  · intro r hr
    by_cases hmem : r ∈ mid
    · obtain ⟨n, qs, hd, -⟩ := hmid r hmem
      exact ⟨n, qs, hd⟩
    · obtain ⟨n, qs, hd, -⟩ := hother r (by simp at hr hmem ⊢; tauto)
      exact ⟨n, qs, hd⟩
  · rintro ⟨k', p⟩ he
    by_cases hk : k' = k
    · subst hk
      obtain ⟨x, hx⟩ := Option.ne_none_iff_exists'.mp (hcover p he)
      exact ⟨x, by simp [hx], hkeymid x hx⟩
    · rw [← Pending.mem_same, hsame k' hk, Pending.mem_same] at he
      obtain ⟨r, hr, hrk⟩ := hg.covers _ he
      have hr' : r ∈ as ++ cs := by
        have : r ∉ old := fun hro => hk (by rw [← hold r hro, hrk])
        simp at hr ⊢
        tauto
      refine ⟨r, by simp at hr' ⊢; tauto, ?_⟩
      rw [hkey r hr', hrk]

theorem Kept.at (hkept : Kept h h') (p : Ptr) : KeptAt h h' p := hkept p

theorem Kept.keyOf (hkept : Kept h h') (hp : h.get p = some n) :
    Splay.keyOf h' p = Splay.keyOf h p := by
  obtain ⟨n', hn', hk⟩ := hkept p n hp
  rw [keyOf_eq hp, keyOf_eq hn', hk.key]

theorem Grouped.get (hg : Grouped h ps pending) (hp : p ∈ ps) : ∃ n, h.get p = some n := by
  obtain ⟨n, qs, hd⟩ := hg.heads p hp
  exact ⟨n, hd.get⟩

/-- Splaying changes no group. -/
theorem Grouped.kept (hg : Grouped h ps pending) (hkept : Kept h h') : Grouped h' ps pending := by
  have hkey : ∀ p ∈ ps, keyOf h' p = keyOf h p := fun p hp => by
    obtain ⟨n, hn⟩ := hg.get hp
    exact hkept.keyOf hn
  refine ⟨hg.sorted.imp_of_mem fun {a b} ha hb hlt => ?_, fun p hp => ?_, fun e he => ?_, hg.nodup⟩
  · rw [hkey a ha, hkey b hb]
    exact hlt
  · obtain ⟨n, qs, hd⟩ := hg.heads p hp
    obtain ⟨n', hd', -⟩ := hd.congr rfl fun q _ => hkept.at q
    exact ⟨n', qs, hd'⟩
  · obtain ⟨p, hp, hk⟩ := hg.covers e he
    exact ⟨p, hp, (hkey p hp).trans hk⟩

theorem Grouped.nodup_nodes (hg : Grouped h ps pending) : ps.Nodup :=
  hg.sorted.imp fun hlt heq => by
    rw [heq] at hlt
    exact lt_irrefl _ hlt

/-- What `Curl_splay` gives on a part of a tree of timers. -/
theorem Grouped.splay_part {r : Ptr} (hg : Grouped h ps pending) (hpart : t.inorder.Sublist ps)
    (hs : Shape Node.child h (some r) t) (hkey : key.Valid) :
    ∃ h' q a c, Splay.splay h key (some r) = some (h', some q) ∧
      Shape Node.child h' (some q) (.node a q c) ∧ a.inorder ++ [q] ++ c.inorder = t.inorder ∧
      (∀ p ∈ a.inorder, keyOf h' p < key.us) ∧ (∀ p ∈ c.inorder, key.us < keyOf h' p) ∧
      Kept h h' ∧ SameOff t.inorder h h' := by
  have hsides : ∀ p ∈ t.inorder, ∃ n, h.get p = some n ∧
      side key n = sideOf key.us (keyOf h p) := by
    intro p hp
    obtain ⟨n, qs, hd⟩ := hg.heads p (hpart.subset hp)
    exact ⟨n, hd.get, by rw [side_eq hkey hd.valid, hd.keyOf]⟩
  obtain ⟨h', q, a, c, hsplay, hshape, hall, hsmaller, hlarger, hkept, hoff, -⟩ :=
    splay_spec hs (hg.nodup_nodes.sublist hpart) hsides
      (sorted_sideOf (hg.sorted.sublist hpart) key.us)
  have hkeys : ∀ p ∈ t.inorder, keyOf h' p = keyOf h p := fun p hp => by
    obtain ⟨n, hn⟩ := hg.get (hpart.subset hp)
    exact hkept.keyOf hn
  refine ⟨h', q, a, c, hsplay, hshape, by simpa using hall, fun p hp => ?_, fun p hp => ?_, hkept,
    hoff⟩
  · have hside := hsmaller p hp
    rw [hkeys p (by rw [← hall]; simp [hp])]
    unfold sideOf at hside
    split at hside
    · cases hside
    · split at hside
      · assumption
      · cases hside
  · have hside := hlarger p hp
    rw [hkeys p (by rw [← hall]; simp [hp])]
    unfold sideOf at hside
    split at hside
    · assumption
    · split at hside <;> cases hside

/-- What `Curl_splay` gives on a tree of timers. -/
theorem Grouped.splay {r : Ptr} (hg : Grouped h t.inorder pending)
    (hs : Shape Node.child h (some r) t) (hkey : key.Valid) :
    ∃ h' q a c, Splay.splay h key (some r) = some (h', some q) ∧
      Shape Node.child h' (some q) (.node a q c) ∧ a.inorder ++ [q] ++ c.inorder = t.inorder ∧
      Grouped h' (a.inorder ++ [q] ++ c.inorder) pending ∧
      (∀ p ∈ a.inorder, keyOf h' p < key.us) ∧ (∀ p ∈ c.inorder, key.us < keyOf h' p) ∧
      Kept h h' := by
  obtain ⟨h', q, a, c, hsplay, hshape, hall, hbelow, habove, hkept, -⟩ :=
    hg.splay_part (List.Sublist.refl _) hs hkey
  exact ⟨h', q, a, c, hsplay, hshape, hall, hall ▸ hg.kept hkept, hbelow, habove, hkept⟩

end Gurl.Splay
