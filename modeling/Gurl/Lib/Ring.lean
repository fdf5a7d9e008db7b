import Gurl.Lib.Heap
import Mathlib.Data.List.Chain

/-! Circular lists in a heap of cells, linked in both directions. -/

namespace LinkedHeap

variable {α : Type*} {next prev : α → Option Ptr} {h h' : Heap α} {p q : Ptr}
  {ps qs : List Ptr}

/-- What a link of a cell points to. -/
def Heap.follow (h : Heap α) (f : α → Option Ptr) (p : Ptr) : Option Ptr := (h.get p).bind f

theorem Heap.follow_eq {a : α} {f : α → Option Ptr} (hp : h.get p = some a) :
    h.follow f p = f a := by
  simp [Heap.follow, hp]

/-- The cell `q` is behind `p`. -/
structure Behind (next prev : α → Option Ptr) (h : Heap α) (p q : Ptr) : Prop where
  forth : h.follow next p = some q
  back : h.follow prev q = some p

/-- The cells `ps` are linked in a circle. -/
structure Ring (next prev : α → Option Ptr) (h : Heap α) (ps : List Ptr) : Prop where
  chain : ps.IsChain (Behind next prev h)
  closed : ∀ x ∈ ps.getLast?, ∀ y ∈ ps.head?, Behind next prev h x y

/-- A circle can be read from any of its cells on. -/
theorem Ring.rotate (hr : Ring next prev h (ps ++ qs)) : Ring next prev h (qs ++ ps) := by
  cases ps with
  | nil => simpa using hr
  | cons p ps =>
    cases qs with
    | nil => simpa using hr
    | cons q qs =>
      obtain ⟨hps, hqs, hjoin⟩ := List.isChain_append.mp hr.chain
      have hclosed := hr.closed
      rw [List.getLast?_append_cons, List.cons_append, List.head?_cons] at hclosed
      refine ⟨List.isChain_append.mpr ⟨hqs, hps, ?_⟩, ?_⟩
      · simpa using hclosed
      · rw [List.getLast?_append_cons, List.cons_append, List.head?_cons]
        simpa using hjoin

/-- A chain depends on all links but the one behind its end and the one before its start. -/
theorem isChain_congr (hchain : (p :: qs).IsChain (Behind next prev h)) (hnodup : (p :: qs).Nodup)
    (hnext : ∀ a ∈ p :: qs, a ∉ (p :: qs).getLast? → h'.follow next a = h.follow next a)
    (hprev : ∀ b ∈ qs, h'.follow prev b = h.follow prev b) :
    (p :: qs).IsChain (Behind next prev h') := by
  induction qs generalizing p with
  | nil => exact List.isChain_singleton p
  | cons q qs ih =>
    obtain ⟨hpq, hrest⟩ := List.isChain_cons_cons.mp hchain
    have hlast : ∀ a ∈ q :: qs, a ≠ p := fun a ha heq => (List.nodup_cons.mp hnodup).1 (heq ▸ ha)
    rw [List.getLast?_cons_cons] at hnext
    refine List.isChain_cons_cons.mpr ⟨⟨?_, ?_⟩, ih hrest hnodup.of_cons ?_ ?_⟩
    · rw [hnext p List.mem_cons_self fun hmem => hlast p (List.mem_of_getLast? hmem) rfl]
      exact hpq.forth
    · rw [hprev q List.mem_cons_self]
      exact hpq.back
    · exact fun a ha hne => hnext a (List.mem_cons_of_mem _ ha) hne
    · exact fun b hb => hprev b (List.mem_cons_of_mem _ hb)

/-- A circle depends on the links of its cells. -/
theorem Ring.congr (hr : Ring next prev h ps)
    (hnext : ∀ a ∈ ps, h'.follow next a = h.follow next a)
    (hprev : ∀ a ∈ ps, h'.follow prev a = h.follow prev a) : Ring next prev h' ps := by
  have hbehind : ∀ {x y}, x ∈ ps → y ∈ ps → Behind next prev h x y → Behind next prev h' x y :=
    fun hx hy hb => ⟨(hnext _ hx).trans hb.forth, (hprev _ hy).trans hb.back⟩
  refine ⟨hr.chain.imp_of_mem_imp fun x y hx hy hb => hbehind hx hy hb, fun x hx y hy => ?_⟩
  exact hbehind (List.mem_of_getLast? hx) (List.mem_of_head? hy) (hr.closed x hx y hy)

/-- A cell behind the last one of a circle becomes the last one. -/
theorem Ring.append {last : Ptr} (hr : Ring next prev h (p :: qs)) (hnodup : (p :: qs).Nodup)
    (hlast : (p :: qs).getLast? = some last)
    (hnext : ∀ a ∈ p :: qs, a ≠ last → h'.follow next a = h.follow next a)
    (hprev : ∀ b ∈ qs, h'.follow prev b = h.follow prev b)
    (hin : Behind next prev h' last q) (hout : Behind next prev h' q p) :
    Ring next prev h' (p :: qs ++ [q]) := by
  have hchain := isChain_congr hr.chain hnodup
    (fun a ha hne => hnext a ha fun heq => hne (heq ▸ hlast)) hprev
  refine ⟨List.isChain_append.mpr ⟨hchain, List.isChain_singleton q, ?_⟩, ?_⟩
  · rw [hlast]
    simpa using hin
  · rw [List.getLast?_concat, List.cons_append, List.head?_cons]
    simpa using hout

/-- A circle without its first cell. -/
theorem Ring.tail {last : Ptr} (hr : Ring next prev h (p :: q :: qs)) (hnodup : (q :: qs).Nodup)
    (hlast : (q :: qs).getLast? = some last)
    (hnext : ∀ a ∈ q :: qs, a ≠ last → h'.follow next a = h.follow next a)
    (hprev : ∀ b ∈ qs, h'.follow prev b = h.follow prev b) (hbehind : Behind next prev h' last q) :
    Ring next prev h' (q :: qs) := by
  refine ⟨isChain_congr (List.isChain_cons_cons.mp hr.chain).2 hnodup ?_ hprev, ?_⟩
  · exact fun a ha hne => hnext a ha fun heq => hne (heq ▸ hlast)
  · rw [hlast, List.head?_cons]
    simpa using hbehind

end LinkedHeap
