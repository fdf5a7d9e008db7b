import Gurl.Buffer.Room

/-! Filling a queue, by a write or from a reader: how much it takes, and why it takes no more. -/

namespace Gurl.Buffer

open LinkedHeap

variable {s s' : State} {qs ss pp : List Ptr} {p : Ptr} {xs : Bytes} {fuel : Nat} {r : Option Ptr}

/-! ### Why there is no chunk -/

/-- The queue may have no more chunks, and less than one chunk's room is left in those it has. -/
def Full (q : Bufq) (xs : Bytes) : Prop :=
  q.softLimit = false ∧ q.maxChunks * q.chunkSize ≤ q.chunkSize + xs.length

/-- All the memory there was, for `chunks` chunks, holds bytes of the `n` that were taken. -/
def Spent (q : Bufq) (chunks n : Nat) : Prop :=
  q.chunkSize ≤ sizeMax - chunkHeader → chunks * q.chunkSize ≤ n

theorem chunkSize_eq (h : s'.q.options = s.q.options) : s'.q.chunkSize = s.q.chunkSize :=
  congrArg (fun o => o.2.1) h

theorem Full.of_options {q q' : Bufq} (h : Full q xs) (hoptions : q'.options = q.options) :
    Full q' xs := by
  simp only [Bufq.options, Prod.mk.injEq] at hoptions
  rw [Full, hoptions.1, hoptions.2.1, hoptions.2.2.1]
  exact h

theorem Spent.of_options {q q' : Bufq} {chunks n : Nat} (h : Spent q chunks n)
    (hoptions : q'.options = q.options) : Spent q' chunks n := by
  rw [Spent, show q'.chunkSize = q.chunkSize from congrArg (fun o => o.2.1) hoptions]
  exact h

/-- Another chunk of the queue's size can be allocated, and the queue may have one. -/
structure Growable (s : State) : Prop where
  size : s.q.chunkSize ≤ sizeMax - chunkHeader
  limit : s.q.chunkCount < s.q.maxChunks ∨ s.q.softLimit = true

theorem calloc_some (hm : s.mallocs ≠ 0) (hsize : s.q.chunkSize ≤ sizeMax - chunkHeader) :
    ∃ s', State.countNew (s.calloc s.q.chunkSize) = (s', some s.heap.fresh) := by
  rw [State.calloc, if_neg (by omega)]
  exact ⟨_, rfl⟩

theorem getSpare_supplied (hl : Layout s [] qs ss pp) (hg : Growable s)
    (hm : supply s ss pp ≠ 0) : ∃ s' p, getSpare s = some (s', some p) := by
  unfold getSpare
  have hspares := hl.spare
  cases hspare : s.q.spare with
  | some p =>
    rw [hspare] at hspares
    obtain ⟨c, rest, hc, -⟩ := chain_some.mp hspares
    dsimp only
    rw [hc]
    exact ⟨_, p, rfl⟩
  | none =>
    rw [hspare] at hspares
    obtain rfl := chain_none.mp hspares
    dsimp only
    rw [if_neg (by rcases hg.limit with h | h <;> simp [h])]
    have hchain := hl.pool
    cases hpool : s.pool with
    | none =>
      rw [hpool] at hchain
      obtain rfl : pp = [] := hchain
      obtain ⟨s', hnew⟩ := calloc_some (by simpa [supply] using hm) hg.size
      dsimp only
      rw [hnew]
      exact ⟨s', _, rfl⟩
    | some pool =>
      rw [hpool] at hchain
      obtain ⟨hchain, -, hsize⟩ := hchain
      dsimp only
      unfold bufcpTake
      cases hfirst : pool.spare with
      | none =>
        rw [hfirst] at hchain
        obtain rfl := chain_none.mp hchain
        obtain ⟨s', hnew⟩ := calloc_some (by simpa [supply] using hm) hg.size
        dsimp only
        rw [hsize, Option.map_some, hnew]
        exact ⟨s', _, rfl⟩
      | some p =>
        rw [hfirst] at hchain
        obtain ⟨c, rest, hc, -⟩ := chain_some.mp hchain
        dsimp only
        rw [hc]
        exact ⟨_, p, rfl⟩

/-- There is no new tail only where there is no spare chunk. -/
theorem newTail_none (h : newTail s = some (s', none)) :
    s.q.spare = none ∧ ∃ s1, getSpare s = some (s1, none) := by
  obtain ⟨⟨s1, r⟩, hget, h⟩ := Option.bind_eq_some_iff.mp h
  cases r with
  | some p =>
    obtain ⟨s2, -, h⟩ := Option.bind_eq_some_iff.mp h
    cases h
  | none =>
    refine ⟨?_, s1, hget⟩
    unfold getSpare at hget
    split at hget
    · obtain ⟨c, -, hget⟩ := Option.bind_eq_some_iff.mp hget
      cases hget
    · assumption

theorem getNonFullTail_none (h : getNonFullTail s = some (s', none)) :
    newTail s = some (s', none) ∧ TailFull s := by
  unfold getNonFullTail at h
  split at h
  · rename_i t htail
    obtain ⟨c, hc, h⟩ := Option.bind_eq_some_iff.mp h
    split at h
    · cases h
    · rename_i hfull
      refine ⟨h, fun t' c' ht hc' => ?_⟩
      rw [htail, Option.some.injEq] at ht
      rw [← ht, hc, Option.some.injEq] at hc'
      simpa [← hc'] using hfull
  · rename_i htail
    exact ⟨h, fun t c ht => by simp [htail] at ht⟩

/-- Where the queue may grow, it lacks a chunk only when there is none. -/
theorem Holds.supply_eq_zero (hh : Holds s qs ss pp xs)
    (h : getNonFullTail s = some (s', none)) (hg : Growable s) : supply s ss pp = 0 := by
  by_contra hm
  obtain ⟨-, s1, hnone⟩ := newTail_none (getNonFullTail_none h).1
  obtain ⟨s2, p, hsome⟩ := getSpare_supplied hh.layout hg hm
  rw [hsome] at hnone
  cases hnone

/-- Where the queue may not grow, it lacks a chunk only when it is full. -/
theorem Holds.full (hh : Holds s qs ss pp xs) (h : getNonFullTail s = some (s', none))
    (hlimit : ¬(s.q.chunkCount < s.q.maxChunks ∨ s.q.softLimit = true)) : Full s.q xs := by
  obtain ⟨hnew, hfull⟩ := getNonFullTail_none h
  obtain ⟨hspare, -⟩ := newTail_none hnew
  obtain ⟨hcount, hhard⟩ := not_or.mp hlimit
  refine ⟨by simpa using hhard, ?_⟩
  have hl := hh.layout
  cases htail : s.q.tail with
  | none =>
    have hss := hl.spare
    rw [hspare] at hss
    obtain rfl := chain_none.mp hss
    obtain rfl : qs = [] := List.getLast?_eq_none_iff.mp (hl.tail.symm.trans htail)
    have hzero : s.q.chunkCount = 0 := hl.count
    rw [Nat.eq_zero_of_le_zero (show s.q.maxChunks ≤ 0 by omega), Nat.zero_mul]
    exact Nat.zero_le _
  | some t =>
    have hmem : t ∈ qs := List.mem_of_getLast? (hl.tail.symm.trans htail)
    obtain ⟨c, hc, -⟩ := hl.sound t (by simp [hmem])
    have hisfull : bufqIsFull s = some true := by
      rw [bufqIsFull, htail, hspare]
      dsimp only
      rw [if_neg hcount, hc, Option.map_some, hfull t c htail hc, ite_self]
    exact (length_of_full ⟨qs, ss, pp, hh⟩ hisfull).trans
      (Nat.add_le_add_right (headOffset_le hl) _)

/-! ### Writing -/

/-- The result of a write that has taken `n` bytes and leaves `rest`. -/
def writeResult (n : Nat) (rest : Bytes) : Curlcode :=
  if n = 0 ∧ rest ≠ [] then .again else .ok

/-- How much of `buf` a write takes, into a queue that holds `ys` then. -/
def Takes (q : Bufq) (chunks : Nat) (buf ys : Bytes) (n : Nat) (res : Curlcode) : Prop :=
  (res = .outOfMemory → n < buf.length ∧ Spent q chunks n) ∧
    (res ≠ .outOfMemory → n = buf.length ∨ Full q ys)

theorem writeResult_ne (n : Nat) (rest : Bytes) : writeResult n rest ≠ .outOfMemory := by
  unfold writeResult
  split <;> decide

theorem writeLoop_spec {buf : Bytes} (n₀ : Nat) (hh : Holds s qs ss pp xs)
    (hfuel : buf.length < fuel) :
    ∃ s' res n, writeLoop fuel s buf n₀ = some (s', res, n₀ + n) ∧ n ≤ buf.length ∧
      Rep s' (xs ++ buf.take n) ∧
      (res = .outOfMemory ∨ res = writeResult (n₀ + n) (buf.drop n)) ∧
      Takes s.q (supply s ss pp) buf (xs ++ buf.take n) n res := by
  induction fuel generalizing s qs ss pp xs buf n₀ with
  | zero => omega
  | succ fuel ih =>
    have hstop : Rep s (xs ++ buf.take 0) := by
      rw [List.take_zero, List.append_nil]
      exact ⟨qs, ss, pp, hh⟩
    unfold writeLoop
    dsimp only
    by_cases hbuf : buf = []
    · rw [if_pos hbuf]
      refine ⟨s, _, 0, rfl, Nat.zero_le _, hstop, .inr (by rw [List.drop_zero]; rfl), ?_, ?_⟩
      · exact fun hmem => absurd hmem (writeResult_ne n₀ buf)
      · exact fun _ => .inl (by rw [hbuf]; rfl)
    have hpos : 0 < buf.length := List.length_pos_iff.mpr hbuf
    rw [if_neg hbuf]
    rcases hh.nonFullTail with hnone | ⟨s1, t, c, qs1, ss1, pp1, htail, hopen, hsupply⟩
    · -- no chunk can be had
      rw [hnone]
      dsimp only [Option.bind_eq_bind, Option.bind_some]
      split
      · rename_i hlimit
        refine ⟨s, _, 0, rfl, Nat.zero_le _, hstop, .inl rfl, fun _ => ⟨hpos, fun hsize => ?_⟩,
          fun hne => absurd rfl hne⟩
        rw [hh.supply_eq_zero hnone ⟨hsize, hlimit⟩, Nat.zero_mul]
      · rename_i hlimit
        refine ⟨s, _, 0, rfl, Nat.zero_le _, hstop, .inr (by rw [List.drop_zero]; rfl), ?_, ?_⟩
        · exact fun hmem => absurd hmem (writeResult_ne n₀ buf)
        · rw [List.take_zero, List.append_nil]
          exact fun _ => .inr (hh.full hnone hlimit)
    · have hc := hopen.get
      have hroom := hopen.room
      have hcount := chunkAppend_count c buf
      have hoptions := getNonFullTail_options htail
      have hchunk : s1.q.chunkSize = s.q.chunkSize := chunkSize_eq hoptions
      have hholds := hopen.holds.setTail hc (chunkAppend_rewritten hopen.sound buf)
        (chunkAppend_rOffset c buf) (chunkAppend_unread hopen.sound buf)
      have hless : (buf.drop (chunkAppend c buf).2).length < fuel := by
        rw [List.length_drop]
        omega
      obtain ⟨s2, res, n, hloop, hle, hrep, hres, hmem, hall⟩ :=
        ih (n₀ + (chunkAppend c buf).2) hholds hless
      rw [List.length_drop] at hle hmem hall
      rw [List.append_assoc, ← List.take_add] at hrep hall
      refine ⟨s2, res, (chunkAppend c buf).2 + n, ?_, by omega, hrep, ?_, fun hres => ?_,
        fun hres => ?_⟩
      · rw [htail]
        simp only [Option.bind_eq_bind, Option.bind_some, hc]
        rw [if_neg (by omega), hloop, Nat.add_assoc]
      · rw [List.drop_drop, Nat.add_assoc] at hres
        exact hres
      · -- the chunk was filled to its end
        obtain ⟨hlt, hspent⟩ := hmem hres
        refine ⟨by omega, fun hsize => ?_⟩
        have hrest : supply s1 ss1 pp1 * s.q.chunkSize ≤ n := by
          have := hspent (by rw [setChunk_q, hchunk]; exact hsize)
          rwa [setChunk_q, hchunk] at this
        rcases hsupply with ⟨hsame, -⟩ | ⟨hone, hwhole⟩
        · rw [hsame]
          omega
        · rw [hone, Nat.succ_mul]
          omega
      · rcases hall hres with hn | hfull
        · exact .inl (by omega)
        · exact .inr (hfull.of_options hoptions.symm)

theorem mallocs_le_supply (s : State) (ss pp : List Ptr) : s.mallocs ≤ supply s ss pp :=
  Nat.le_add_left ..

theorem Spent.mono {q : Bufq} {chunks chunks' n : Nat} (h : Spent q chunks n)
    (hle : chunks' ≤ chunks) : Spent q chunks' n :=
  fun hsize => (Nat.mul_le_mul_right _ hle).trans (h hsize)

theorem bufqWrite_spec (buf : Bytes) (hrep : Rep s xs) :
    ∃ s' res n, bufqWrite s buf = some (s', res, n) ∧ n ≤ buf.length ∧
      Rep s' (xs ++ buf.take n) ∧ (res = .outOfMemory ∨ res = writeResult n (buf.drop n)) ∧
      Takes s.q s.mallocs buf (xs ++ buf.take n) n res := by
  obtain ⟨qs, ss, pp, hh⟩ := hrep
  obtain ⟨s', res, n, hloop, hle, hrep, hres, hmem, hall⟩ :=
    writeLoop_spec 0 hh (Nat.lt_succ_self buf.length)
  rw [Nat.zero_add] at hloop hres
  refine ⟨s', res, n, hloop, hle, hrep, hres, fun hout => ?_, hall⟩
  obtain ⟨hlt, hspent⟩ := hmem hout
  exact ⟨hlt, hspent.mono (mallocs_le_supply s ss pp)⟩

/-- A queue with a soft limit takes everything, unless there is no memory. -/
theorem bufqWrite_soft (buf : Bytes) (hrep : Rep s xs) (hsoft : s.q.softLimit = true) :
    ∃ s' res n ys, bufqWrite s buf = some (s', res, n) ∧ s'.q.softLimit = true ∧ Rep s' ys ∧
      (res = .outOfMemory ∧ n < buf.length ∧ Spent s.q s.mallocs n ∨
        res = .ok ∧ n = buf.length ∧ ys = xs ++ buf) := by
  obtain ⟨s', res, n, hwrite, hle, hrep', hres, hmem, hall⟩ := bufqWrite_spec buf hrep
  refine ⟨s', res, n, _, hwrite, (softLimit_eq (bufqWrite_options hwrite)).trans hsoft, hrep', ?_⟩
  rcases hres with hout | hres
  · exact .inl ⟨hout, hmem hout⟩
  rcases hall (hres ▸ writeResult_ne _ _) with rfl | hfull
  · refine .inr ⟨?_, rfl, by rw [List.take_length]⟩
    rw [hres, writeResult, List.drop_length, if_neg (by simp)]
  · exact absurd (hfull.1.symm.trans hsoft) (by decide)

/-! ### Reading into the queue -/

/-- The bytes that a call of the reader has added, if it was called. -/
def addedBy (reply : Option Reply) : Bytes := (reply.map Reply.added).getD []

/-- A reader may be asked for `len` bytes: no more than a chunk holds, nor than the caller wants. -/
def Asked (q : Bufq) (maxLen len : Nat) : Prop :=
  0 < len ∧ len ≤ q.chunkSize ∧ (maxLen ≠ 0 → len ≤ maxLen)

/-- Why the reader is not called, after `n` bytes were added to a queue that holds `ys` then. -/
def Refused (q : Bufq) (chunks n : Nat) (ys : Bytes) (res : Curlcode) : Prop :=
  res = .outOfMemory ∧ Spent q chunks n ∨
    res = .again ∧ (Full q ys ∨ q.softLimit = true ∧ Spent q chunks n)

theorem Refused.result {q : Bufq} {chunks n : Nat} {ys : Bytes} {res : Curlcode}
    (h : Refused q chunks n ys res) : res = .again ∨ res = .outOfMemory := by
  rcases h with ⟨hres, -⟩ | ⟨hres, -⟩
  · exact .inr hres
  · exact .inl hres

theorem Refused.imp {q q' : Bufq} {chunks chunks' n n' : Nat} {ys : Bytes} {res : Curlcode}
    (h : Refused q chunks n ys res) (hoptions : q'.options = q.options)
    (hspent : Spent q chunks n → Spent q' chunks' n') : Refused q' chunks' n' ys res := by
  rcases h with ⟨hres, hmem⟩ | ⟨hres, hfull | ⟨hsoft, hmem⟩⟩
  · exact .inl ⟨hres, hspent hmem⟩
  · exact .inr ⟨hres, .inl (hfull.of_options hoptions)⟩
  · exact .inr ⟨hres, .inr ⟨(congrArg (fun o => o.2.2.1) hoptions).trans hsoft, hspent hmem⟩⟩

/-- What a call of `Curl_bufq_sipn` leaves. -/
structure Sipped (s s' : State) (ss pp qs' ss' pp' : List Ptr) (xs : Bytes) (maxLen : Nat)
    (res : Curlcode) (reply : Option Reply) (reader : Nat → Reply) : Prop where
  holds : Holds s' qs' ss' pp' (xs ++ addedBy reply)
  supply_le : supply s' ss' pp' ≤ supply s ss pp
  supply_lt : TailFull s → res = .ok → supply s' ss' pp' < supply s ss pp
  filled : TailFull s' → supply s ss pp * s.q.chunkSize ≤
    supply s' ss' pp' * s.q.chunkSize + (addedBy reply).length
  called : ∀ r, reply = some r → res = r.result ∧ ∃ len, Asked s.q maxLen len ∧ r = reader len
  refused : reply = none → Refused s.q (supply s ss pp) 0 xs res

theorem slurpSize_asked {c : BufChunk} (hsound : c.Sound s.q.chunkSize) (hroom : c.wOffset < c.dlen)
    (maxLen : Nat) : Asked s.q maxLen (slurpSize c maxLen) := by
  have hdlen := hsound.dlen
  unfold slurpSize Asked
  dsimp only
  split <;> omega

/-- The reader has filled the chunk that is full behind it. -/
theorem chunkSlurpn_full {c : BufChunk} {reply : Reply} (hroom : c.wOffset < c.dlen)
    (hfull : chunkIsFull (chunkSlurpn c reply) = true) :
    c.dlen - c.wOffset ≤ reply.added.length := by
  unfold chunkSlurpn at hfull
  unfold Reply.added
  dsimp only at hfull
  split at hfull
  · rename_i hok
    simp only [chunkIsFull, ge_iff_le, decide_eq_true_eq] at hfull
    rw [if_pos hok]
    omega
  · simp only [chunkIsFull, ge_iff_le, decide_eq_true_eq] at hfull
    omega

theorem bufqSipn_spec (hh : Holds s qs ss pp xs) (maxLen : Nat) {reader : Nat → Reply}
    (hbound : ∀ len, (reader len).bytes.length ≤ len) :
    ∃ s' res reply qs' ss' pp', bufqSipn s maxLen reader = some (s', res, reply) ∧
      Sipped s s' ss pp qs' ss' pp' xs maxLen res reply reader := by
  unfold bufqSipn
  rcases hh.nonFullTail with hnone | ⟨s1, t, c, qs1, ss1, pp1, htail, hopen, hsupply⟩
  · rw [hnone]
    refine ⟨s, _, none, qs, ss, pp, rfl, ?_, Nat.le_refl _, ?_,
      fun _ => Nat.le_add_right _ _, by simp, ?_⟩
    · simpa [addedBy] using hh
    · intro _ hok
      split at hok <;> cases hok
    · intro _
      have hspent (hlimit : s.q.chunkCount < s.q.maxChunks ∨ s.q.softLimit = true) :
          Spent s.q (supply s ss pp) 0 := fun hsize => by
        rw [hh.supply_eq_zero hnone ⟨hsize, hlimit⟩, Nat.zero_mul]
      split
      · rename_i hcount
        exact .inl ⟨rfl, hspent (.inl hcount)⟩
      · rename_i hcount
        refine .inr ⟨rfl, ?_⟩
        cases hsoft : s.q.softLimit with
        | true => exact .inr ⟨rfl, hspent (.inr hsoft)⟩
        | false => exact .inl (hh.full hnone (by simp [hcount, hsoft]))
  · have hc := hopen.get
    have hroom := hopen.room
    have hchunk : s1.q.chunkSize = s.q.chunkSize := chunkSize_eq (getNonFullTail_options htail)
    have hle : (reader (slurpSize c maxLen)).bytes.length ≤ c.dlen - c.wOffset :=
      (hbound _).trans (slurpSize_le c maxLen)
    have hholds := hopen.holds.setTail hc (chunkSlurpn_rewritten hopen.sound hle)
      (chunkSlurpn_rOffset c _) (chunkSlurpn_unread hopen.sound hle)
    refine ⟨_, (reader (slurpSize c maxLen)).result, some (reader (slurpSize c maxLen)), qs1 ++ [t],
      ss1, pp1, ?_, hholds, ?_, ?_, fun hfull => ?_, ?_, by simp⟩
    · rw [htail]
      simp only [Option.bind_eq_bind, Option.bind_some, hc]
      rw [if_neg (by omega)]
    · change supply s1 ss1 pp1 ≤ _
      omega
    · intro hfull _
      change supply s1 ss1 pp1 < _
      rcases hsupply with ⟨-, hnot⟩ | ⟨hone, -⟩
      · exact absurd hfull hnot
      · omega
    · have htail1 : s1.q.tail = some t := by rw [hopen.holds.layout.tail, List.getLast?_concat]
      have hadded := chunkSlurpn_full hroom (hfull t _ htail1 (Heap.get_set_self hc))
      change _ ≤ supply s1 ss1 pp1 * _ + (reader (slurpSize c maxLen)).added.length
      rcases hsupply with ⟨hsame, -⟩ | ⟨hone, hwhole⟩
      · rw [hsame]
        exact Nat.le_add_right _ _
      · rw [hone, Nat.succ_mul]
        omega
    · rintro _ ⟨⟩
      exact ⟨rfl, _, slurpSize_asked (hchunk ▸ hopen.sound) hroom maxLen, rfl⟩

variable {ss' pp' qs' : List Ptr} {maxLen : Nat} {res : Curlcode} {reply : Option Reply}
  {reader : Nat → Reply}

/-- A successful call has added what the reader returned. -/
theorem Sipped.length_added (h : Sipped s s' ss pp qs' ss' pp' xs maxLen res reply reader)
    (hok : res = .ok) :
    (reply.map fun r => r.bytes.length).getD 0 = (addedBy reply).length := by
  cases reply with
  | none => rfl
  | some r =>
    have hresult : r.result = .ok := (h.called r rfl).1.symm.trans hok
    simp [addedBy, Reply.added, hresult]

/-- A call that failed has added nothing. -/
theorem Sipped.added_nil (h : Sipped s s' ss pp qs' ss' pp' xs maxLen res reply reader)
    (hfail : res ≠ .ok) : addedBy reply = [] := by
  cases reply with
  | none => rfl
  | some r =>
    have hresult : r.result ≠ .ok := fun hok => hfail ((h.called r rfl).1.trans hok)
    simp [addedBy, Reply.added, hresult]

/-- The replies are the reader's, in the order of its calls. -/
def FromReader (reader : Reader) (replies : List Reply) : Prop :=
  ∀ k r, replies[k]? = some r → ∃ len, r = reader.reply k len

theorem FromReader.concat {reader : Reader} {replies : List Reply} {reply : Option Reply}
    (h : FromReader reader replies)
    (hreply : ∀ r, reply = some r → ∃ len, r = reader.reply replies.length len) :
    FromReader reader (replies ++ reply.toList) := by
  intro k r hk
  rcases Nat.lt_or_ge k replies.length with hlt | hge
  · rw [List.getElem?_append_left hlt] at hk
    exact h k r hk
  · rw [List.getElem?_append_right hge] at hk
    cases reply with
    | none => simp at hk
    | some r' =>
      obtain ⟨hk', rfl⟩ : k - replies.length = 0 ∧ r' = r := by
        simpa [List.getElem?_singleton] using hk
      rw [show k = replies.length by omega]
      exact hreply r' rfl

/-- The bytes that the reader has added to the queue. -/
def addedByAll (replies : List Reply) : Bytes := replies.flatMap Reply.added

theorem addedByAll_concat (replies : List Reply) (reply : Option Reply) :
    addedByAll (replies ++ reply.toList) = addedByAll replies ++ addedBy reply := by
  cases reply <;> simp [addedByAll, addedBy]

theorem tailHasRoom_spec (hh : Holds s qs ss pp xs) :
    ∃ room, s.tailHasRoom = some room ∧ (room = false → TailFull s) := by
  unfold State.tailHasRoom
  cases htail : s.q.tail with
  | none => exact ⟨false, rfl, fun _ t c ht => by simp [htail] at ht⟩
  | some t =>
    obtain ⟨c, hc⟩ := hh.back htail
    refine ⟨!chunkIsFull c, by simp [hc], fun hfull t' c' ht hc' => ?_⟩
    rw [htail, Option.some.injEq] at ht
    rw [← ht, hc, Option.some.injEq] at hc'
    simpa [← hc'] using hfull

/-- After bytes were added, a reader that has none is no failure. -/
def slurpResult (nread : Nat) (res : Curlcode) : Curlcode :=
  if nread = 0 ∨ res ≠ .again then res else .ok

/-- A slurp of `n` bytes ends with the result of the last reply, or for want of a chunk. -/
def Ends (q : Bufq) (chunks n : Nat) (ys : Bytes) (replies : List Reply) (res : Curlcode) : Prop :=
  (∃ reply, replies.getLast? = some reply ∧ res = reply.result) ∨ Refused q chunks n ys res

theorem Sipped.ends (h : Sipped s s' ss pp qs' ss' pp' xs maxLen res reply reader) :
    Ends s.q (supply s ss pp) (addedBy reply).length (xs ++ addedBy reply) reply.toList res := by
  cases reply with
  | none =>
    rw [show addedBy none = [] from rfl, List.append_nil]
    exact .inr (h.refused rfl)
  | some r => exact .inl ⟨r, rfl, (h.called r rfl).1⟩

theorem slurpLoop_spec {reader : Reader} (maxLen nread : Nat) (replies : List Reply)
    (hh : Holds s qs ss pp xs) (hfrom : FromReader reader replies)
    (hfuel : supply s ss pp + 1 < fuel ∨ TailFull s ∧ supply s ss pp < fuel) :
    ∃ s' res last n more, slurpLoop reader fuel s maxLen nread replies =
        some (s', res, nread + n, replies ++ more) ∧
      Rep s' (xs ++ addedByAll more) ∧ s'.q.options = s.q.options ∧ n = (addedByAll more).length ∧
      FromReader reader (replies ++ more) ∧ res = slurpResult (nread + n) last ∧
      Ends s.q (supply s ss pp) n (xs ++ addedByAll more) more last := by
  induction fuel generalizing s qs ss pp xs maxLen nread replies with
  | zero => omega
  | succ fuel ih =>
    obtain ⟨s1, res, reply, qs1, ss1, pp1, hsip, hs⟩ :=
      bufqSipn_spec hh maxLen (reader.bounded replies.length)
    have hoptions := sipn_options hsip
    have hfrom1 : FromReader reader (replies ++ reply.toList) :=
      hfrom.concat fun r hr => by
        obtain ⟨-, len, -, hreply⟩ := hs.called r hr
        exact ⟨len, hreply⟩
    have hbytes : addedByAll reply.toList = addedBy reply := addedByAll_concat [] reply
    have hends := hs.ends
    rw [← hbytes] at hends
    have hrep : Rep s1 (xs ++ addedByAll reply.toList) := by
      rw [hbytes]
      exact ⟨qs1, ss1, pp1, hs.holds⟩
    rw [slurpLoop, hsip]
    simp only [Option.bind_eq_bind, Option.bind_some]
    by_cases hok : res = .ok
    · -- the reader has returned bytes, or it is at its end
      have hdone (n : Nat) : res = slurpResult n res := by
        rw [hok, slurpResult, if_pos (.inr (by decide))]
      have hlen := hs.length_added hok
      rw [if_neg (not_not.mpr hok), hlen, ← hbytes]
      by_cases hzero : (addedByAll reply.toList).length = 0
      · rw [if_pos hzero]
        exact ⟨s1, res, res, 0, reply.toList, rfl, hrep, hoptions, hzero.symm, hfrom1, hdone _,
          hzero ▸ hends⟩
      rw [if_neg hzero]
      split
      · exact ⟨s1, res, res, _, reply.toList, rfl, hrep, hoptions, rfl, hfrom1, hdone _, hends⟩
      obtain ⟨room, hroom, hfull⟩ := tailHasRoom_spec hs.holds
      rw [hroom, Option.bind_some]
      cases room with
      | true =>
        exact ⟨s1, res, res, _, reply.toList, rfl, hrep, hoptions, rfl, hfrom1, hdone _, hends⟩
      | false =>
        -- the next call needs another chunk, and this one was filled
        have hle := hs.supply_le
        have hless : supply s1 ss1 pp1 < fuel := by
          rcases hfuel with hmore | ⟨htail, hmore⟩
          · omega
          · have := hs.supply_lt htail hok
            omega
        have hfilled := hs.filled (hfull rfl)
        obtain ⟨s2, res2, last, n, more, hloop, hrep2, hoptions2, hn, hfrom2, hres2, hends2⟩ :=
          ih (maxLen - (addedByAll reply.toList).length) (nread + (addedByAll reply.toList).length)
            (replies ++ reply.toList) hs.holds hfrom1 (.inr ⟨hfull rfl, hless⟩)
        have hall : addedByAll (reply.toList ++ more) = addedByAll reply.toList ++
          addedByAll more :=
          List.flatMap_append
        rw [List.append_assoc, ← hbytes, ← hall] at hrep2 hends2
        rw [Nat.add_assoc] at hres2
        refine ⟨s2, res2, last, (addedByAll reply.toList).length + n,
          reply.toList ++ more, ?_, hrep2, hoptions2.trans hoptions, ?_, ?_, hres2, ?_⟩
        · rw [if_neg (by simp), hloop, Nat.add_assoc, List.append_assoc]
        · rw [hall, List.length_append, hn]
        · rw [← List.append_assoc]
          exact hfrom2
        · rcases hends2 with ⟨r, hlast, hres⟩ | hrefused
          · exact .inl ⟨r, by rw [List.getLast?_append, hlast]; rfl, hres⟩
          · refine .inr (hrefused.imp hoptions.symm fun hspent hsize => ?_)
            have hrest := hspent ((chunkSize_eq hoptions).symm ▸ hsize)
            rw [chunkSize_eq hoptions] at hrest
            rw [hbytes]
            omega
    · rw [if_pos hok]
      have hnil : addedByAll reply.toList = [] := by rw [hbytes, hs.added_nil hok]
      refine ⟨s1, _, res, 0, reply.toList, rfl, hrep, hoptions, by rw [hnil]; rfl, hfrom1, rfl, ?_⟩
      rw [hnil] at hends ⊢
      exact hends

theorem Layout.supply_lt_fuel (hl : Layout s [] qs ss pp) :
    supply s ss pp + 1 < s.fuel + s.mallocs + 1 := by
  have hall : (qs ++ (ss ++ pp)).Nodup := hl.nodup
  have hnodup : (ss ++ pp).Nodup := (List.nodup_append.mp hall).2.1
  have hlen := length_le_size hnodup fun p hp => by
    obtain ⟨c, hc, -⟩ := hl.sound p (List.mem_append_right qs hp)
    exact ⟨c, hc⟩
  rw [List.length_append] at hlen
  unfold supply State.fuel
  omega

theorem bufqSlurp_spec (reader : Reader) (hrep : Rep s xs) :
    ∃ s' res last replies, bufqSlurp s reader =
        some (s', res, (addedByAll replies).length, replies) ∧
      Rep s' (xs ++ addedByAll replies) ∧ s'.q.options = s.q.options ∧ FromReader reader replies ∧
      res = slurpResult (addedByAll replies).length last ∧
      Ends s.q s.mallocs (addedByAll replies).length (xs ++ addedByAll replies) replies last := by
  obtain ⟨qs, ss, pp, hh⟩ := hrep
  have hstart : FromReader reader [] := fun k r hk => by simp at hk
  obtain ⟨s', res, last, n, replies, hslurp, hrep, hoptions, rfl, hfrom, hres, hends⟩ :=
    slurpLoop_spec 0 0 [] hh hstart (.inl hh.layout.supply_lt_fuel)
  rw [Nat.zero_add, List.nil_append] at hslurp
  rw [Nat.zero_add] at hres
  refine ⟨s', res, last, replies, hslurp, hrep, hoptions, hfrom, hres, ?_⟩
  exact hends.imp id fun h => h.imp rfl fun hspent => hspent.mono (mallocs_le_supply s ss pp)

end Gurl.Buffer
