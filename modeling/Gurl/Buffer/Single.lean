import Gurl.Buffer.Calls

/-! A queue whose bytes lie in one chunk: what a peek shows is then all of them. -/

namespace Gurl.Buffer

open LinkedHeap

variable {s s' : State} {qs ss pp : List Ptr} {xs : Bytes} {size : Nat}

/-- The queue holds the bytes `xs`, all of them in one chunk of `size` bytes. -/
def Single (s : State) (size : Nat) (xs : Bytes) : Prop :=
  (∃ qs ss pp, Holds s qs ss pp xs ∧ qs.length ≤ 1) ∧ s.q.chunkSize = size

theorem Single.rep (h : Single s size xs) : Rep s xs := by
  obtain ⟨⟨qs, ss, pp, hh, -⟩, -⟩ := h
  exact ⟨qs, ss, pp, hh⟩

/-- A queue without bytes has at most an empty tail. -/
theorem Holds.length_le_of_nil (hh : Holds s qs ss pp []) : qs.length ≤ 1 := by
  cases qs with
  | nil => exact Nat.zero_le 1
  | cons p qs =>
    obtain ⟨-, c, hc, hsound, hxs⟩ := hh.front
    have hnil : c.unread = [] := (List.append_eq_nil_iff.mp hxs.symm).1
    have hempty := (unread_eq_nil_iff hsound).mp hnil
    rw [hh.filled.eq_nil_of_empty hc hempty]
    exact Nat.le_refl 1

theorem Rep.single (h : Rep s []) : Single s s.q.chunkSize [] := by
  obtain ⟨qs, ss, pp, hh⟩ := h
  exact ⟨⟨qs, ss, pp, hh, hh.length_le_of_nil⟩, rfl⟩

theorem bufqPeek_single (h : Single s size xs) :
    ∃ s', bufqPeek s = some (s', if xs = [] then none else some xs) ∧ Single s' size xs := by
  obtain ⟨⟨qs, ss, pp, hh, hone⟩, hsize⟩ := h
  obtain ⟨s', qs', ss', pp', hprune, hholds, hfront, hlen⟩ := pruneEmptyHead_spec hh
  have hone' : qs'.length ≤ 1 := hlen.trans hone
  have hpeek : peekHead s' = some (if xs = [] then none else some xs) := by
    rw [peekHead, hholds.layout.head.start_eq]
    cases qs' with
    | nil =>
      have hnil : xs = [] := hholds.bytes.symm
      rw [if_pos hnil]
      rfl
    | cons p qs' =>
      obtain ⟨c, hc, hsome⟩ := hfront p hholds.layout.head.start_eq
      have hsound := hholds.layout.sound_of_get (by simp) hc
      have hrest : qs' = [] :=
        List.length_eq_zero_iff.mp (Nat.le_zero.mp (Nat.le_of_succ_le_succ hone'))
      have hxs : xs = c.unread := by
        rw [← hholds.bytes, bytesOf_cons hc, hrest]
        exact List.append_nil _
      have hne : xs ≠ [] := by
        rw [hxs]
        intro hnil
        rw [(unread_eq_nil_iff hsound).mp hnil] at hsome
        cases hsome
      rw [if_neg hne, hxs]
      simp only [List.head?_cons, hc, Option.map_some, hsome, Bool.not_false, if_true]
      rfl
  have hall : bufqPeek s = some (s', if xs = [] then none else some xs) := by
    rw [bufqPeek, hprune, Option.bind_eq_bind, Option.bind_some, hpeek]
    rfl
  exact ⟨s', hall, ⟨qs', ss', pp', hholds, hone'⟩,
    (chunkSize_eq (bufqPeek_options hall)).trans hsize⟩

/-- A skip that does not go behind the bytes. -/
theorem bufqSkip_single (h : Single s size xs) (amount : Nat) (hle : amount ≤ xs.length) :
    ∃ s', bufqSkip s amount = some s' ∧ Single s' size (xs.drop amount) := by
  obtain ⟨⟨qs, ss, pp, hh, hone⟩, hsize⟩ := h
  by_cases hzero : amount = 0
  · subst hzero
    refine ⟨s, skipLoop_zero (Nat.succ_pos _), ⟨qs, ss, pp, ?_, hone⟩, hsize⟩
    rw [List.drop_zero]
    exact hh
  cases qs with
  | nil =>
    have hnil : xs = [] := hh.bytes.symm
    rw [hnil, List.length_nil] at hle
    exact absurd (Nat.le_zero.mp hle) hzero
  | cons p qs =>
    obtain ⟨hhead, c, hc, hsound, hxs⟩ := hh.front
    have hrest : qs = [] :=
      List.length_eq_zero_iff.mp (Nat.le_zero.mp (Nat.le_of_succ_le_succ hone))
    subst hrest
    replace hxs : xs = c.unread := hxs.trans (List.append_nil _)
    obtain ⟨s1, qs1, ss1, pp1, hprune, hholds, hlen, -⟩ := hh.consume hc
      (chunkRead_rewritten hsound amount) (chunkRead_offset c amount) (chunkRead_unread c amount)
    have hsame : chunkSkip c amount = ((chunkRead c amount).1, amount) := by
      rw [chunkSkip_eq hsound, ← hxs, List.length_take, Nat.min_eq_left hle]
    have hskip : bufqSkip s amount = some s1 := by
      have hfuel : 0 < s.heap.size := by
        have hlt := hh.layout.length_lt_fuel
        rw [State.fuel, List.length_singleton] at hlt
        omega
      obtain ⟨fuel, hsize⟩ := Nat.exists_eq_succ_of_ne_zero (Nat.ne_of_gt hfuel)
      rw [bufqSkip, State.fuel, hsize, Nat.succ_eq_add_one, skipLoop, hhead]
      simp only [hzero, if_false, hc, Option.bind_eq_bind, Option.bind_some, hsame, hprune,
        Nat.sub_self]
      exact skipLoop_zero (Nat.succ_pos _)
    refine ⟨s1, hskip, ⟨qs1, ss1, pp1, ?_, hlen⟩,
      (chunkSize_eq (bufqSkip_options hskip)).trans hsize⟩
    rw [hxs]
    have hbytes : bytesOf s.heap [] = [] := rfl
    rw [hbytes, List.append_nil] at hholds
    exact hholds

/-- The tail that is found in an empty queue has room for a whole chunk. -/
theorem nonFullTail_empty (h : Rep s []) :
    getNonFullTail s = some (s, none) ∨
      ∃ s' t ss pp c, getNonFullTail s = some (s', some t) ∧ Holds s' [t] ss pp [] ∧
        s'.heap.get t = some c ∧ c.Sound s'.q.chunkSize ∧ c.wOffset = 0 ∧
        s'.q.chunkSize = s.q.chunkSize := by
  obtain ⟨qs, ss, pp, hh⟩ := h
  rcases hh.nonFullTail with hnone | ⟨s1, t, c, qs1, ss1, pp1, htail, hopen, -⟩
  · exact .inl hnone
  · have hc := hopen.get
    have hsound := hopen.sound
    have hholds := hopen.holds
    have hone := hholds.length_le_of_nil
    rw [List.length_append, List.length_singleton] at hone
    have hrest : qs1 = [] := List.length_eq_zero_iff.mp (by omega)
    subst hrest
    have hnil : c.unread = [] := by
      have hbytes := hholds.bytes
      rw [List.nil_append, bytesOf_cons hc] at hbytes
      exact (List.append_eq_nil_iff.mp hbytes).1
    have hempty : c.rOffset = c.wOffset := by
      have hge := (unread_eq_nil_iff hsound).mp hnil
      rw [chunkIsEmpty, decide_eq_true_eq] at hge
      exact Nat.le_antisymm hsound.read hge
    exact .inr ⟨s1, t, ss1, pp1, c, htail, hholds, hc, hsound, hsound.start hempty,
      chunkSize_eq (getNonFullTail_options htail)⟩

/-- Bytes that fit into a chunk get into one, where the queue is empty. -/
theorem bufqWrite_single {buf : Bytes} (h : Rep s []) (hlen : buf.length ≤ s.q.chunkSize)
    {n : Nat} (hwrite : bufqWrite s buf = some (s', .ok, n)) :
    Single s' s.q.chunkSize buf ∧ n = buf.length := by
  by_cases hbuf : buf = []
  · subst hbuf
    rw [bufqWrite, writeLoop] at hwrite
    dsimp only at hwrite
    rw [if_pos rfl] at hwrite
    cases hwrite
    exact ⟨h.single, rfl⟩
  rw [bufqWrite, writeLoop] at hwrite
  dsimp only at hwrite
  rw [if_neg hbuf] at hwrite
  rcases nonFullTail_empty h with hnone | ⟨s1, t, ss, pp, c, htail, hholds, hc,
    hsound, hzero, hsize⟩
  · rw [hnone, Option.bind_eq_bind, Option.bind_some] at hwrite
    dsimp only at hwrite
    by_cases hlimit : s.q.chunkCount < s.q.maxChunks ∨ s.q.softLimit = true
    · rw [if_pos hlimit] at hwrite
      cases hwrite
    · rw [if_neg hlimit, if_pos ⟨rfl, hbuf⟩] at hwrite
      cases hwrite
  · have hcount : (chunkAppend c buf).2 = buf.length := by
      rw [chunkAppend_count, hzero, hsound.dlen, hsize, Nat.sub_zero, Nat.min_eq_right hlen]
    have hpos : buf.length ≠ 0 := fun hnil => hbuf (List.length_eq_zero_iff.mp hnil)
    have hset : Holds (s1.setChunk t (chunkAppend c buf).1) ([] ++ [t]) ss pp
        ([] ++ buf.take (chunkAppend c buf).2) :=
      Holds.setTail hholds hc (chunkAppend_rewritten hsound buf) (chunkAppend_rOffset c buf)
        (chunkAppend_unread hsound buf)
    rw [hcount, List.take_length] at hset
    rw [htail] at hwrite
    simp only [Option.bind_eq_bind, Option.bind_some, hc, hcount, if_neg hpos, List.drop_length,
      Nat.zero_add] at hwrite
    obtain ⟨fuel, hfuel⟩ := Nat.exists_eq_succ_of_ne_zero hpos
    rw [hfuel, Nat.succ_eq_add_one, writeLoop] at hwrite
    simp only [if_true, Option.some.injEq, Prod.mk.injEq] at hwrite
    obtain ⟨rfl, -, rfl⟩ := hwrite
    exact ⟨⟨⟨_, ss, pp, hset, Nat.le_refl 1⟩, hsize⟩, hfuel.symm⟩

end Gurl.Buffer
