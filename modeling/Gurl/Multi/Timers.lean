import Gurl.Multi.Expire

/-! A transfer with a timeout is in the timer tree, and it comes out when its time has passed. -/

namespace Gurl.Multi

open LinkedHeap Splay

variable {nodes : Heap Node} {m : CurlMulti} {pending pending' : Pending} {p : Ptr} {out : List Ptr}
  {data : UrlState} {list list' : List TimeNode} {node : TimeNode} {now ts a b : Curltime} {k : Int}

/-! ### The list of a transfer -/

theorem tdiv_thousand (x : Int) :
    0 ≤ x ∧ 1000 * x.tdiv 1000 ≤ x ∧ x < 1000 * x.tdiv 1000 + 1000 ∨
      x < 0 ∧ x ≤ 1000 * x.tdiv 1000 ∧ 1000 * x.tdiv 1000 < x + 1000 := by
  rcases lt_or_ge x 0 with hneg | hpos
  · have htdiv : x.tdiv 1000 = -(-x / 1000) := by
      rw [← Int.tdiv_eq_ediv_of_nonneg (by omega), Int.neg_tdiv, neg_neg]
    omega
  · rw [Int.tdiv_eq_ediv_of_nonneg hpos]
    omega

/-- The difference is cut off below a millisecond. -/
theorem ptimediffMs_sign (ha : a.Valid) (hb : b.Valid) :
    (ptimediffMs a b ≤ 0 → a.us < b.us + 1000) ∧ (0 < ptimediffMs a b → b.us < a.us) := by
  have := ha.usec
  have := ha.usec_lt
  have := hb.usec
  have := hb.usec_lt
  have := tdiv_thousand (a.tvUsec - b.tvUsec)
  have hmax : timediffTMax.tdiv 1000 = 9223372036854775 := by decide
  have hmin : timediffTMin.tdiv 1000 = -9223372036854775 := by decide
  unfold ptimediffMs Curltime.us
  rw [hmax, hmin]
  unfold timediffTMax timediffTMin
  dsimp only
  split
  · omega
  · split <;> omega

/-- One timeout for each id, in order up to a millisecond. -/
structure Listed (list : List TimeNode) : Prop where
  times : ∀ node ∈ list, node.time.Valid ∧ node.time ≠ ⟨0, 0⟩
  ids : (list.map TimeNode.eid).Nodup
  order : list.Pairwise fun x y => x.time.us < y.time.us + 1000

theorem Listed.sublist (h : Listed list) (hsub : list'.Sublist list) : Listed list' :=
  ⟨fun node hnode => h.times node (hsub.subset hnode), h.ids.sublist (hsub.map _),
    h.order.sublist hsub⟩

theorem deltimeout_new (h : (list.map TimeNode.eid).Nodup) (id : ExpireId) :
    id ∉ (deltimeout list id).map TimeNode.eid := by
  induction list with
  | nil => exact List.not_mem_nil
  | cons node list ih =>
    rw [List.map_cons, List.nodup_cons] at h
    by_cases hid : node.eid = id
    · rw [deltimeout, List.eraseP_cons_of_pos (by simpa using hid)]
      exact hid ▸ h.1
    · rw [deltimeout, List.eraseP_cons_of_neg (by simpa using hid), List.map_cons, List.mem_cons,
        not_or]
      exact ⟨fun heq => hid heq.symm, ih h.2⟩

theorem Listed.addtimeout (h : Listed list) (hnode : node.time.Valid ∧ node.time ≠ ⟨0, 0⟩)
    (hnew : node.eid ∉ list.map TimeNode.eid) : Listed (addtimeout list node) := by
  let before : TimeNode → Bool := fun check => ptimediffMs check.time node.time ≤ 0
  have hperm : (Multi.addtimeout list node).Perm (node :: list) := by
    have hmid := @List.perm_middle _ node (list.takeWhile before) (list.dropWhile before)
    rwa [List.takeWhile_append_dropWhile] at hmid
  have horder := h.order
  rw [← List.takeWhile_append_dropWhile (p := before) (l := list), List.pairwise_append] at horder
  obtain ⟨hfront, hback, hcross⟩ := horder
  refine ⟨fun x hx => ?_, ?_, ?_⟩
  · obtain rfl | hx := List.mem_cons.mp (hperm.mem_iff.mp hx)
    · exact hnode
    · exact h.times x hx
  · rw [(hperm.map TimeNode.eid).nodup_iff, List.map_cons, List.nodup_cons]
    exact ⟨hnew, h.ids⟩
  · -- behind the node, the first is later, and the others are at most a millisecond sooner than
    -- that
    have hlater : ∀ y ∈ list.dropWhile before, node.time.us < y.time.us + 1000 := by
      cases hdrop : list.dropWhile before with
      | nil => exact fun y hy => (nomatch hy)
      | cons e rest =>
        have hmem : e ∈ list := (List.dropWhile_sublist before).subset (hdrop ▸ List.mem_cons_self)
        have hstop := List.head?_dropWhile_not before list
        rw [hdrop] at hstop hback
        have hpos : 0 < ptimediffMs e.time node.time := by simpa [before] using hstop
        have hlt := (ptimediffMs_sign (h.times e hmem).1 hnode.1).2 hpos
        intro y hy
        obtain rfl | hy := List.mem_cons.mp hy
        · omega
        · have := (List.pairwise_cons.mp hback).1 y hy
          omega
    refine List.pairwise_append.mpr ⟨hfront, List.pairwise_cons.mpr ⟨hlater, hback⟩, ?_⟩
    intro x hx y hy
    obtain rfl | hy := List.mem_cons.mp hy
    · have hle : ptimediffMs x.time y.time ≤ 0 := by simpa [before] using List.mem_takeWhile_imp hx
      have hmem : x ∈ list := (List.takeWhile_sublist before).subset hx
      exact (ptimediffMs_sign (h.times x hmem).1 hnode.1).1 hle
    · exact hcross x hx y hy

/-- A transfer with a timeout has a time in the tree. -/
structure UrlState.Sound (data : UrlState) : Prop where
  listed : Listed data.timeoutlist
  valid : data.expiretime.Valid
  armed : data.timeoutlist ≠ [] → data.expiretime ≠ ⟨0, 0⟩

theorem sound_nil : UrlState.Sound ⟨⟨0, 0⟩, []⟩ :=
  ⟨⟨fun _ hnode => (nomatch hnode), List.nodup_nil, List.Pairwise.nil⟩, ⟨le_rfl, le_rfl, by decide⟩,
    fun h => absurd rfl h⟩

/-- The next timeout is later than `ts`, or there is none. -/
theorem next_spec (h : data.Sound) (hts : ts.Valid) :
    data.next ts = ⟨⟨0, 0⟩, []⟩ ∨
      (data.next ts).Sound ∧ (data.next ts).timeoutlist ≠ [] ∧
        (data.next ts).expiretime ≠ ⟨0, 0⟩ ∧ ts.us < (data.next ts).expiretime.us := by
  unfold UrlState.next
  have hstop := List.head?_dropWhile_not (fun node => ptimediffUs node.time ts ≤ 0) data.timeoutlist
  have hsub := List.dropWhile_sublist (l := data.timeoutlist) fun node =>
    ptimediffUs node.time ts ≤ 0
  cases hdrop : data.timeoutlist.dropWhile fun node => ptimediffUs node.time ts ≤ 0 with
  | nil => exact .inl rfl
  | cons node list =>
    rw [hdrop] at hstop hsub
    have hlisted := h.listed.sublist hsub
    obtain ⟨hvalid, hne⟩ := hlisted.times node List.mem_cons_self
    have hpos : ptimediffUs node.time ts > 0 := by simpa using hstop
    exact .inr ⟨⟨hlisted, hvalid, fun _ => hne⟩, List.cons_ne_nil _ _, hne,
      (ptimediffUs_sign hvalid.range hts.range).2.1.mp hpos⟩

/-- What is left behind the first timeout that is to come has not passed by a millisecond. -/
theorem next_later (h : data.Sound) (hts : ts.Valid) :
    ∀ node ∈ (data.next ts).timeoutlist, ts.us < node.time.us + 1000 := by
  intro node hnode
  obtain hnil | ⟨hsound, -, -, hlt⟩ := next_spec h hts
  · rw [hnil] at hnode
    cases hnode
  · unfold UrlState.next at hnode hlt hsound
    cases hdrop : data.timeoutlist.dropWhile fun node => ptimediffUs node.time ts ≤ 0 with
    | nil =>
      rw [hdrop] at hnode
      cases hnode
    | cons first list =>
      rw [hdrop] at hnode hlt hsound
      obtain rfl | hmem := List.mem_cons.mp hnode
      · dsimp only at hlt
        omega
      · exact hlt.trans ((List.pairwise_cons.mp hsound.listed.order).1 node hmem)

theorem later_us (hnow : now.Valid) {milli : Int} (h : 0 ≤ milli) :
    (later now milli).Valid ∧ (later now milli).us = now.us + milli * 1000 := by
  have := hnow.sec
  have := hnow.usec
  have := hnow.usec_lt
  unfold later Curltime.us
  rw [Int.tdiv_eq_ediv_of_nonneg h, Int.tmod_eq_emod_of_nonneg h]
  dsimp only
  split
  all_goals
    exact ⟨⟨by dsimp only; omega, by dsimp only; omega, by dsimp only; omega⟩, by dsimp only; omega⟩

/-! ### The tree -/

/-- The tree holds a node for each transfer that has a time, with this time as its key; the
transfers `out` are being moved. -/
structure Scheduled (nodes : Heap Node) (out : List Ptr) (m : CurlMulti) (pending : Pending) :
    Prop where
  timers : Timers m.timetree.heap m.timetree.root pending
  live : Live nodes m.timetree.heap
  entries : ∀ k p, (k, p) ∈ pending ↔
    p ∉ out ∧ (m.state p).expiretime ≠ ⟨0, 0⟩ ∧ k = (m.state p).expiretime.us
  sound : ∀ p, (m.state p).Sound
  placed : ∀ p, (m.state p).expiretime ≠ ⟨0, 0⟩ → ∃ n, nodes.get p = some n

/-- A transfer gets another time, and its node another place. -/
theorem Scheduled.update (h : Scheduled nodes out m pending) (hout : ∀ q ≠ p, q ∉ out)
    {tree : TimerTree} (ht : Timers tree.heap tree.root pending') (hlive : Live nodes tree.heap)
    (hothers : ∀ k, ∀ q ≠ p, (k, q) ∈ pending' ↔ (k, q) ∈ pending)
    (hself : ∀ k, (k, p) ∈ pending' ↔ data.expiretime ≠ ⟨0, 0⟩ ∧ k = data.expiretime.us)
    (hdata : data.Sound) (hplaced : data.expiretime ≠ ⟨0, 0⟩ → ∃ n, nodes.get p = some n) :
    Scheduled nodes [] { m.set p data with timetree := tree } pending' := by
  have hstate : ∀ q, (m.set p data).state q = if q = p then data else m.state q := by
    intro q
    exact Function.update_apply m.state p data q
  refine ⟨ht, hlive, fun k q => ?_, fun q => ?_, fun q => ?_⟩ <;> dsimp only <;> rw [hstate] <;>
    split
  · rename_i hq
    simp [hq, hself]
  · rename_i hq
    simp [hothers k q hq, h.entries k q, hout q hq]
  · exact hdata
  · exact h.sound q
  · rename_i hq
    exact hq ▸ hplaced
  · exact h.placed q

theorem Scheduled.mem (h : Scheduled nodes [] m pending) (hset : (m.state p).expiretime ≠ ⟨0, 0⟩) :
    p ∈ pending.map Prod.snd :=
  List.mem_map.mpr ⟨_, (h.entries _ p).mpr ⟨List.not_mem_nil, hset, rfl⟩, rfl⟩

theorem mem_without (k : Int) (q : Ptr) :
    (k, q) ∈ pending.without p ↔ (k, q) ∈ pending ∧ q ≠ p := by
  simp [Pending.without]

/-- The node of a transfer is taken out. -/
theorem Scheduled.without (h : Scheduled nodes [] m pending) {tree : TimerTree}
    (ht : Timers tree.heap tree.root (pending.without p)) (hlive : Live nodes tree.heap) :
    Scheduled nodes [p] { m with timetree := tree } (pending.without p) := by
  refine ⟨ht, hlive, fun k q => ?_, h.sound, h.placed⟩
  rw [mem_without, h.entries, List.mem_singleton]
  simp only [List.not_mem_nil, not_false_eq_true, true_and]
  exact and_comm

theorem Scheduled.remove (h : Scheduled nodes [] m pending)
    (hset : (m.state p).expiretime ≠ ⟨0, 0⟩) :
    ∃ tree, m.timetree.call (.splayremove p) = some (tree, .removed 0) ∧
      Scheduled nodes [p] { m with timetree := tree } (pending.without p) := by
  obtain ⟨tree, hcall, ht, hlive⟩ := call_spec (c := .splayremove p) h.timers h.live (h.mem hset)
  exact ⟨tree, hcall, h.without ht hlive⟩

theorem notMem_timers : p ∉ pending.map Prod.snd ↔ ∀ k, (k, p) ∉ pending := by
  simp

/-- The node of a transfer goes in. -/
theorem Scheduled.enter (h : Scheduled nodes out m pending) (hout : ∀ q ≠ p, q ∉ out)
    (hfree : p ∉ pending.map Prod.snd) (hp : ∃ n, nodes.get p = some n) (hdata : data.Sound)
    (hset : data.expiretime ≠ ⟨0, 0⟩) :
    ∃ tree, Multi.enter m p data = some { m.set p data with timetree := tree } ∧
      Scheduled nodes [] { m.set p data with timetree := tree }
        (pending ++ [(data.expiretime.us, p)]) := by
  obtain ⟨tree, hcall, ht, hlive⟩ := call_spec (c := .splayinsert data.expiretime p) h.timers h.live
    ⟨hdata.valid, hp, hfree⟩
  refine ⟨tree, by rw [Multi.enter, hcall]; rfl, h.update hout ht hlive ?_ ?_ hdata fun _ => hp⟩
  · intro k q hq
    simp [hq]
  · intro k
    simp [notMem_timers.mp hfree k, hset]

theorem Scheduled.free (h : Scheduled nodes [p] m pending) : p ∉ pending.map Prod.snd :=
  notMem_timers.mpr fun k hmem => ((h.entries k p).mp hmem).1 List.mem_cons_self

/-- A transfer that is out of the tree has no time any more. -/
theorem Scheduled.unset (h : Scheduled nodes [p] m pending) :
    Scheduled nodes [] (m.set p ⟨⟨0, 0⟩, []⟩) pending := by
  refine h.update (by simp) h.timers h.live (fun _ _ _ => Iff.rfl) (fun k => ?_) sound_nil
    fun hne => absurd rfl hne
  simp [notMem_timers.mp h.free k]

/-- Another list, and the same time. -/
theorem Scheduled.relist (h : Scheduled nodes [] m pending) (hlist : Listed list)
    (harmed : list ≠ [] → (m.state p).expiretime ≠ ⟨0, 0⟩) :
    Scheduled nodes [] (m.set p ⟨(m.state p).expiretime, list⟩) pending := by
  refine h.update (fun _ _ => List.not_mem_nil) h.timers h.live (fun _ _ _ => Iff.rfl) (fun k => ?_)
    ⟨hlist, (h.sound p).valid, harmed⟩ (h.placed p)
  simp [h.entries k p]

/-! ### The calls -/

theorem expireEx_spec (h : Scheduled nodes [] m pending) (hnow : now.Valid) (hpos : 0 < now.us)
    {milli : Int} (hmilli : 0 ≤ milli) (hp : ∃ n, nodes.get p = some n) (id : ExpireId) :
    ∃ m' pending', expireEx m p now milli id = some m' ∧ Scheduled nodes [] m' pending' := by
  obtain ⟨hvalid, hus⟩ := later_us hnow hmilli
  have hne : later now milli ≠ ⟨0, 0⟩ := by
    intro heq
    rw [heq] at hus
    simp only [Curltime.us] at hus hpos
    omega
  have hlist := (h.sound p).listed
  have hkept : Listed (deltimeout (m.state p).timeoutlist id) := hlist.sublist List.eraseP_sublist
  have hadded : Listed (addtimeout _ ⟨later now milli, id⟩) :=
    hkept.addtimeout ⟨hvalid, hne⟩ (deltimeout_new hlist.ids id)
  have hdata : UrlState.Sound ⟨later now milli, _⟩ := ⟨hadded, hvalid, fun _ => hne⟩
  rw [expireEx]
  dsimp only
  by_cases hset : (m.state p).expiretime = ⟨0, 0⟩
  · rw [if_neg (not_not.mpr hset)]
    have hfree : p ∉ pending.map Prod.snd :=
      notMem_timers.mpr fun k hmem => ((h.entries k p).mp hmem).2.1 hset
    obtain ⟨tree, henter, hafter⟩ := h.enter (fun _ _ => List.not_mem_nil) hfree hp hdata hne
    exact ⟨_, _, henter, hafter⟩
  · rw [if_pos hset]
    split
    · exact ⟨_, _, rfl, h.relist hadded fun _ => hset⟩
    · obtain ⟨tree, hcall, hout⟩ := h.remove hset
      obtain ⟨tree', henter, hafter⟩ := hout.enter (by simp) hout.free hp hdata hne
      exact ⟨_, _, by rw [hcall]; exact henter, hafter⟩

theorem expireClear_spec (h : Scheduled nodes [] m pending) (p : Ptr) :
    ∃ m' pending', expireClear m p = some m' ∧ Scheduled nodes [] m' pending' := by
  rw [expireClear]
  split
  · rename_i hset
    obtain ⟨tree, hcall, hout⟩ := h.remove hset
    exact ⟨_, _, by rw [hcall]; rfl, hout.unset⟩
  · exact ⟨_, _, rfl, h⟩

theorem addNextTimeout_spec (h : Scheduled nodes [p] m pending) (hts : ts.Valid)
    (hp : ∃ n, nodes.get p = some n) :
    ∃ tree pending', addNextTimeout m p ts =
        some { m.set p ((m.state p).next ts) with timetree := tree } ∧
      Scheduled nodes [] { m.set p ((m.state p).next ts) with timetree := tree } pending' ∧
      pending'.filter (·.1 ≤ ts.us) = pending.filter (·.1 ≤ ts.us) := by
  rw [addNextTimeout]
  dsimp only
  obtain hnil | ⟨hsound, hlist, hset, hlt⟩ := next_spec (h.sound p) hts
  · rw [hnil, if_pos rfl]
    exact ⟨m.timetree, pending, rfl, h.unset, rfl⟩
  · rw [if_neg hlist]
    obtain ⟨tree, henter, hafter⟩ := h.enter (by simp) h.free hp hsound hset
    exact ⟨tree, _, henter, hafter, by simp [hlt]⟩

/-! ### The timers that are due -/

theorem best_some (hbest : (pending.best k).2 = some p) :
    (pending.best k).1 = pending.without p ∧ ∃ k', (k', p) ∈ pending ∧ k' ≤ k := by
  unfold Pending.best at hbest ⊢
  split at hbest
  · cases hbest
  · rename_i k' q hsoonest
    split at hbest
    · rename_i hle
      cases hbest
      rw [if_pos hle]
      exact ⟨rfl, k', List.mem_of_find?_eq_some hsoonest, hle⟩
    · cases hbest

theorem soonest_least {h : Heap Node} {root : Option Ptr} (ht : Timers h root pending)
    {e : Int × Ptr} (he : e ∈ pending) :
    ∃ e', pending.soonest = some e' ∧ e'.1 ≤ e.1 := by
  obtain ⟨t, -, hg⟩ := ht
  obtain ⟨q, hq, -⟩ := hg.covers e he
  cases ht : t.inorder with
  | nil =>
    rw [ht] at hq
    cases hq
  | cons r rest =>
    rw [ht] at hg
    refine ⟨_, hg.soonest, ?_⟩
    have hfind := List.find?_some hg.soonest
    simpa using List.all_eq_true.mp hfind e he

/-- Without a timer that is due, the tree stays as it is. -/
theorem best_none {h : Heap Node} {root : Option Ptr} (ht : Timers h root pending)
    (hbest : (pending.best k).2 = none) :
    (pending.best k).1 = pending ∧ ∀ e ∈ pending, k < e.1 := by
  unfold Pending.best at hbest ⊢
  cases hsoonest : pending.soonest with
  | none =>
    refine ⟨rfl, fun e he => ?_⟩
    obtain ⟨e', heq, -⟩ := soonest_least ht he
    rw [hsoonest] at heq
    cases heq
  | some e' =>
    rw [hsoonest] at hbest
    dsimp only at hbest ⊢
    by_cases hle : e'.1 ≤ k
    · rw [if_pos hle] at hbest
      cases hbest
    · rw [if_neg hle]
      refine ⟨rfl, fun e he => ?_⟩
      obtain ⟨e'', heq, hleast⟩ := soonest_least ht he
      obtain rfl := Option.some.inj (hsoonest.symm.trans heq)
      omega

theorem due_without {k' : Int} (hmem : (k', p) ∈ pending) (hle : k' ≤ k) :
    ((pending.without p).filter (·.1 ≤ k)).length < (pending.filter (·.1 ≤ k)).length := by
  rw [Pending.without, List.filter_comm]
  refine List.length_filter_lt_length_iff_exists.mpr ⟨(k', p), ?_, by simp⟩
  exact List.mem_filter.mpr ⟨hmem, by simpa using hle⟩

theorem Scheduled.length_le (h : Scheduled nodes out m pending) :
    pending.length ≤ m.timetree.heap.size := by
  obtain ⟨t, -, hg⟩ := h.timers
  rw [← List.length_map (f := Prod.snd)]
  refine length_le_size hg.nodup fun p hp => ?_
  obtain ⟨⟨k, q⟩, hentry, rfl⟩ := List.mem_map.mp hp
  obtain ⟨n, hn⟩ := h.placed q ((h.entries k q).mp hentry).2.1
  obtain ⟨n', hn'⟩ := h.live q n hn
  exact ⟨n', hn'⟩

/-- The time of the transfer in the tree has passed. -/
def CurlMulti.Due (m : CurlMulti) (ts : Curltime) (p : Ptr) : Prop :=
  (m.state p).expiretime ≠ ⟨0, 0⟩ ∧ (m.state p).expiretime.us ≤ ts.us

/-- The transfers whose time has passed are dirty and have their next timeout; nothing else
changed. -/
structure Marked (ts : Curltime) (m m' : CurlMulti) : Prop where
  due : ∀ p, m.Due ts p → m'.state p = (m.state p).next ts
  others : ∀ p, ¬ m.Due ts p → m'.state p = m.state p
  dirty : ∀ p, p ∈ m'.dirty ↔ p ∈ m.dirty ∨ m.Due ts p

theorem not_due_next (h : data.Sound) (hts : ts.Valid) (hstate : m.state p = data.next ts) :
    ¬ m.Due ts p := by
  rintro ⟨hset, hle⟩
  rw [hstate] at hset hle
  obtain hnil | ⟨-, -, -, hlt⟩ := next_spec h hts
  · exact hset (congrArg UrlState.expiretime hnil)
  · omega

theorem mem_markDirty {q : Ptr} : q ∈ (markDirty m p).dirty ↔ q = p ∨ q ∈ m.dirty := by
  unfold markDirty
  dsimp only
  split
  · rename_i hmem
    exact ⟨.inr, fun h => h.elim (· ▸ hmem) id⟩
  · exact List.mem_orderedInsert (· ≤ ·)

/-- One transfer more. -/
theorem Marked.cons {m1 m' : CurlMulti} (h : Marked ts m1 m') (hdue : m.Due ts p)
    (hnot : ¬ m1.Due ts p) (hself : m1.state p = (m.state p).next ts)
    (hothers : ∀ q ≠ p, m1.state q = m.state q)
    (hdirty : ∀ q, q ∈ m1.dirty ↔ q = p ∨ q ∈ m.dirty) :
    Marked ts m m' := by
  have hsame : ∀ q ≠ p, (m1.Due ts q ↔ m.Due ts q) := by
    intro q hq
    rw [CurlMulti.Due, hothers q hq]
    rfl
  refine ⟨fun q hq => ?_, fun q hq => ?_, fun q => ?_⟩
  · by_cases heq : q = p
    · rw [heq, h.others p hnot, hself]
    · rw [h.due q ((hsame q heq).mpr hq), hothers q heq]
  · have hne : q ≠ p := fun heq => hq (heq ▸ hdue)
    rw [h.others q fun hd => hq ((hsame q hne).mp hd), hothers q hne]
  · rw [h.dirty, hdirty]
    by_cases heq : q = p
    · simp [heq, hdue]
    · simp [heq, hsame q heq]

theorem markLoop_spec (hts : ts.Valid) {fuel : Nat} (h : Scheduled nodes [] m pending)
    (hfuel : (pending.filter (·.1 ≤ ts.us)).length < fuel) :
    ∃ m' pending', markLoop ts fuel m = some m' ∧ Scheduled nodes [] m' pending' ∧
      Marked ts m m' ∧ ∀ p, ¬ m'.Due ts p := by
  induction fuel generalizing m pending with
  | zero => omega
  | succ fuel ih =>
    obtain ⟨tree, hcall, ht, hlive⟩ := call_spec (c := .splaygetbest ts) h.timers h.live hts
    rw [markLoop]
    simp only [Pending.call] at hcall ht
    simp only [hcall, Option.bind_eq_bind, Option.bind_some]
    cases hbest : (pending.best ts.us).2 with
    | none =>
      obtain ⟨hsame, hnone⟩ := best_none h.timers hbest
      have hdue : ∀ p, ¬ m.Due ts p := by
        rintro p ⟨hset, hle⟩
        have hlt := hnone _ ((h.entries _ p).mpr ⟨List.not_mem_nil, hset, rfl⟩)
        dsimp only at hlt
        omega
      rw [hsame] at ht
      exact ⟨_, _, rfl, ⟨ht, hlive, h.entries, h.sound, h.placed⟩,
        ⟨fun p hp => absurd hp (hdue p), fun _ _ => rfl, fun p => by simp [hdue p]⟩, hdue⟩
    | some p =>
      obtain ⟨hwithout, k, hmem, hle⟩ := best_some hbest
      obtain ⟨-, hset, hkey⟩ := (h.entries k p).mp hmem
      rw [hwithout] at ht
      obtain ⟨tree', pending1, hadd, hafter, hsame⟩ :=
        addNextTimeout_spec (h.without ht hlive) hts (h.placed p hset)
      have hfewer := due_without hmem hle
      rw [← hsame] at hfewer
      dsimp only at hadd ⊢
      rw [hadd]
      simp only [Option.bind_some]
      let m1 := markDirty { m.set p ((m.state p).next ts) with timetree := tree' } p
      have hself : m1.state p = (m.state p).next ts := Function.update_self ..
      obtain ⟨m', pending', hloop, hscheduled, hmarked, hnone⟩ := ih (m := m1)
        ⟨hafter.timers, hafter.live, hafter.entries, hafter.sound, hafter.placed⟩ (by omega)
      refine ⟨m', pending', hloop, hscheduled, hmarked.cons (p := p) ⟨hset, hkey ▸ hle⟩
        (not_due_next (h.sound p) hts hself) hself (fun q hq => ?_)
        (fun q => mem_markDirty), hnone⟩
      exact Function.update_of_ne hq ..

theorem markExpiredAsDirty_spec (hts : ts.Valid) (h : Scheduled nodes [] m pending) :
    ∃ m' pending', markExpiredAsDirty m ts = some m' ∧ Scheduled nodes [] m' pending' ∧
      Marked ts m m' ∧ ∀ p, ¬ m'.Due ts p :=
  markLoop_spec hts h (Nat.lt_succ_of_le ((List.length_filter_le _ _).trans h.length_le))

/-! ### The time until the first timer -/

/-- `multi_timeout` answers with the first key and with the milliseconds until then. -/
structure First (m : CurlMulti) (now key : Curltime) (ms : Int) (p : Ptr) : Prop where
  set : (m.state p).expiretime ≠ ⟨0, 0⟩
  first : (m.state p).expiretime.us = key.us
  least : ∀ q, (m.state q).expiretime ≠ ⟨0, 0⟩ → key.us ≤ (m.state q).expiretime.us
  passed : key.us ≤ now.us → ms = 0
  left : now.us < key.us → key.tvSec - now.tvSec < timediffTMax.tdiv 1000 →
    key.us ≤ now.us + 1000 * ms ∧ now.us + 1000 * ms < key.us + 2000

theorem timediffCeilMs_spec (ha : a.Valid) (hb : b.Valid) (hlt : b.us < a.us)
    (hfar : a.tvSec - b.tvSec < timediffTMax.tdiv 1000) :
    a.us ≤ b.us + 1000 * timediffCeilMs a b ∧ b.us + 1000 * timediffCeilMs a b < a.us + 2000 := by
  have := ha.usec
  have := ha.usec_lt
  have := hb.usec
  have := hb.usec_lt
  have := tdiv_thousand (a.tvUsec - b.tvUsec + 999)
  have hmin : timediffTMin.tdiv 1000 = -9223372036854775 := by decide
  unfold timediffCeilMs
  unfold Curltime.us at hlt ⊢
  dsimp only
  rw [if_neg (by omega), hmin, if_neg (by omega)]
  omega

theorem firstTimeout_spec (h : Scheduled nodes [] m pending) (hnow : now.Valid) :
    ∃ m' key ms, firstTimeout m now = some (m', key, ms) ∧ Scheduled nodes [] m' pending ∧
      (ms = -1 ∧ (∀ p, (m.state p).expiretime = ⟨0, 0⟩) ∨ ∃ p, First m now key ms p) := by
  obtain ⟨t, hs, hg⟩ := h.timers
  unfold firstTimeout
  cases hroot : m.timetree.root with
  | none =>
    rw [hroot] at hs
    obtain rfl := hs.none_eq
    have hnil := hg.pending_nil
    refine ⟨_, _, _, rfl, h, .inl ⟨rfl, fun p => ?_⟩⟩
    by_contra hset
    have hmem := (h.entries _ p).mpr ⟨List.not_mem_nil, hset, rfl⟩
    rw [hnil] at hmem
    cases hmem
  | some r =>
    rw [hroot] at hs
    obtain ⟨h1, q, a, c, hsplay, hs1, -, hg1, hbelow, -, hkept⟩ := hg.splay hs sound_nil.valid
    obtain ⟨n, qs, hd⟩ := hg1.heads q (by simp)
    obtain ⟨-, hset, hkey⟩ := (h.entries _ q).mp (hd.mem List.mem_cons_self)
    have hleast : ∀ q', (m.state q').expiretime ≠ ⟨0, 0⟩ →
      n.key.us ≤ (m.state q').expiretime.us := by
      intro q' hset'
      obtain ⟨r', hr', hk⟩ := hg1.covers _ ((h.entries _ q').mpr ⟨List.not_mem_nil, hset', rfl⟩)
      dsimp only at hk
      rw [← hk, ← hd.keyOf]
      obtain hr' | hr' := List.mem_append.mp hr'
      · obtain hr' | hr' := List.mem_append.mp hr'
        · -- no key is below zero
          have hlt := hbelow r' hr'
          rw [hk] at hlt
          have hnonneg := (h.sound q').valid.us_nonneg
          exact absurd hlt (by simpa [Curltime.us] using hnonneg)
        · rw [List.mem_singleton.mp hr']
      · exact ((List.pairwise_append.mp hg1.sorted).2.2 q (by simp) r' hr').le
    refine ⟨{ m with timetree := ⟨h1, some q⟩ }, n.key,
      if ptimediffUs n.key now > 0 then timediffCeilMs n.key now else 0, ?_,
      ⟨⟨_, hs1, by simpa [HeapTree.CellTree.inorder] using hg1⟩, h.live.trans hkept.live, h.entries,
        h.sound, h.placed⟩,
      .inr ⟨q, hset, hkey.symm, hleast, fun hle => ?_, fun hlt hfar => ?_⟩⟩
    · simp only [hsplay, hd.get, Option.bind_eq_bind, Option.bind_some]
    · rw [if_neg (by rw [(ptimediffUs_sign hd.valid.range hnow.range).2.1]; omega)]
    · rw [if_pos ((ptimediffUs_sign hd.valid.range hnow.range).2.1.mpr hlt)]
      exact timediffCeilMs_spec hd.valid hnow hlt hfar

/-- A transfer that is processed is dirty. -/
def CurlMulti.Busy (m : CurlMulti) : Prop := ∃ p ∈ m.dirty, m.process p = true

theorem hasDirties_iff : (hasDirties m).2 = true ↔ m.Busy := by
  simp [hasDirties, CurlMulti.Busy]

/-- A change of what is not about timeouts. -/
theorem Scheduled.congr {m' : CurlMulti} (h : Scheduled nodes out m pending)
    (htree : m'.timetree = m.timetree) (hstate : m'.state = m.state) :
    Scheduled nodes out m' pending := by
  cases m
  cases m'
  cases htree
  cases hstate
  exact ⟨h.timers, h.live, h.entries, h.sound, h.placed⟩

theorem multiTimeout_spec (h : Scheduled nodes [] m pending) (hnow : now.Valid) :
    ∃ m' key ms, multiTimeout m now = some (m', key, ms) ∧ Scheduled nodes [] m' pending ∧
      (m.Busy ∧ key = now ∧ ms = 0 ∨ ¬m.Busy ∧
        (ms = -1 ∧ (∀ p, (m.state p).expiretime = ⟨0, 0⟩) ∨ ∃ p, First m now key ms p)) := by
  have hclean : Scheduled nodes [] (hasDirties m).1 pending := h.congr rfl rfl
  rw [multiTimeout]
  dsimp only
  by_cases hdirties : (hasDirties m).2 = true
  · rw [if_pos hdirties]
    exact ⟨_, _, _, rfl, hclean, .inl ⟨hasDirties_iff.mp hdirties, rfl, rfl⟩⟩
  · rw [if_neg hdirties]
    obtain ⟨m', key, ms, hfirst, hafter, hanswer⟩ := firstTimeout_spec hclean hnow
    refine ⟨m', key, ms, hfirst, hafter, .inr ⟨mt hasDirties_iff.mpr hdirties, ?_⟩⟩
    exact hanswer.imp_right fun ⟨p, hp⟩ => ⟨p, hp.set, hp.first, hp.least, hp.passed, hp.left⟩

/-! ### Runs -/

/-- The clock is past zero where a timeout is set, no timeout is negative, and the transfer has a
node. -/
def Op.Legal (nodes : Heap Node) : Op → Prop
  | .expireEx p now milli _ => now.Valid ∧ 0 < now.us ∧ 0 ≤ milli ∧ ∃ n, nodes.get p = some n
  | .markExpiredAsDirty ts => ts.Valid
  | .multiTimeout now => now.Valid
  | _ => True

theorem step_spec (h : Scheduled nodes [] m pending) {op : Op} (hlegal : op.Legal nodes) :
    ∃ m' pending', step m op = some m' ∧ Scheduled nodes [] m' pending' := by
  cases op with
  | expireEx p now milli id =>
    obtain ⟨hnow, hpos, hmilli, hp⟩ := hlegal
    exact expireEx_spec h hnow hpos hmilli hp id
  | expireDone p id =>
    have hlist := (h.sound p).listed.sublist (List.eraseP_sublist (p := (·.eid = id)))
    refine ⟨_, _, rfl, h.relist hlist fun hne => (h.sound p).armed fun hnil => hne ?_⟩
    rw [hnil]
    rfl
  | expireClear p => exact expireClear_spec h p
  | markExpiredAsDirty ts =>
    obtain ⟨m', pending', hmark, hscheduled, -⟩ := markExpiredAsDirty_spec hlegal h
    exact ⟨m', pending', hmark, hscheduled⟩
  | multiTimeout now =>
    obtain ⟨m', key, ms, htimeout, hscheduled, -⟩ := multiTimeout_spec h hlegal
    exact ⟨m', pending, by rw [step, htimeout]; rfl, hscheduled⟩
  | markDirty p => exact ⟨_, pending, rfl, h.congr rfl rfl⟩
  | clearDirty p => exact ⟨_, pending, rfl, h.congr rfl rfl⟩
  | process p on => exact ⟨_, pending, rfl, h.congr rfl rfl⟩

theorem start_scheduled (nodes : Heap Node) : Scheduled nodes [] (start nodes) [] :=
  ⟨timers_nil nodes, fun _ n hn => ⟨n, hn⟩, fun _ _ => by simp [start], fun _ => sound_nil,
    fun _ hset => absurd rfl hset⟩

theorem run_spec {ops : List Op} (hlegal : ∀ op ∈ ops, op.Legal nodes) :
    ∃ m pending, run nodes ops = some m ∧ Scheduled nodes [] m pending := by
  suffices hfrom : ∀ m pending, Scheduled nodes [] m pending →
      ∃ m' pending', ops.foldlM step m = some m' ∧ Scheduled nodes [] m' pending' from
    hfrom _ _ (start_scheduled nodes)
  induction ops with
  | nil => exact fun m pending h => ⟨m, pending, rfl, h⟩
  | cons op ops ih =>
    intro m pending h
    obtain ⟨m1, pending1, hstep, h1⟩ := step_spec h (hlegal op List.mem_cons_self)
    rw [List.foldlM_cons, hstep]
    exact ih (fun op hop => hlegal op (List.mem_cons_of_mem _ hop)) m1 pending1 h1

/-- The first transfer has two timeouts, of which one passes, the second has one that is dropped. -/
def sampleOps : List Op := [.process 0 true, .expireEx 0 ⟨1, 0⟩ 5 .timeout,
  .expireEx 0 ⟨1, 0⟩ 2 .quic, .expireEx 1 ⟨1, 0⟩ 9 .speedcheck, .expireDone 1 .speedcheck,
  .markExpiredAsDirty ⟨1, 3000⟩, .multiTimeout ⟨1, 3000⟩, .clearDirty 0]

theorem sampleOps_legal : ∀ op ∈ sampleOps, op.Legal threeNodes := by
  have hnow : (⟨1, 0⟩ : Curltime).Valid ∧ 0 < (⟨1, 0⟩ : Curltime).us :=
    ⟨⟨by decide, by decide, by decide⟩, by decide⟩
  have hlater : (⟨1, 3000⟩ : Curltime).Valid := ⟨by decide, by decide, by decide⟩
  simp only [sampleOps, List.forall_mem_cons]
  exact ⟨trivial, ⟨hnow.1, hnow.2, by decide, _, rfl⟩, ⟨hnow.1, hnow.2, by decide, _, rfl⟩,
    ⟨hnow.1, hnow.2, by decide, _, rfl⟩, trivial, hlater, hlater, trivial,
    fun _ hop => nomatch hop⟩

/-- On every run the timer tree holds each transfer that has a time, with this time as its key, and
every transfer with a timeout in its list has one. -/
theorem timers_scheduled {ops : List Op} (hlegal : ∀ op ∈ ops, op.Legal nodes) :
    ∃ m pending, run nodes ops = some m ∧ Scheduled nodes [] m pending := run_spec hlegal

theorem timers_scheduled_sample :
    ∃ m pending, run threeNodes sampleOps = some m ∧ Scheduled threeNodes [] m pending :=
  timers_scheduled sampleOps_legal

/-- After every run, exactly the transfers whose time has passed become dirty; they are in the tree
again if they have a timeout, of which none has passed by a millisecond. -/
theorem expired_marked {ops : List Op} (hlegal : ∀ op ∈ ops, op.Legal nodes) (hts : ts.Valid) :
    ∃ m m' pending, run nodes ops = some m ∧ markExpiredAsDirty m ts = some m' ∧
      Scheduled nodes [] m' pending ∧ Marked ts m m' ∧ (∀ p, ¬ m'.Due ts p) ∧
      ∀ p, m.Due ts p → ∀ node ∈ (m'.state p).timeoutlist, ts.us < node.time.us + 1000 := by
  obtain ⟨m, _, hrun, h⟩ := run_spec hlegal
  obtain ⟨m', pending, hmark, h', hmarked, hnone⟩ := markExpiredAsDirty_spec hts h
  refine ⟨m, m', pending, hrun, hmark, h', hmarked, hnone, fun p hp node hnode => ?_⟩
  rw [hmarked.due p hp] at hnode
  exact next_later (h.sound p) hts node hnode

theorem expired_marked_sample : ∃ m m' pending, run threeNodes sampleOps = some m ∧
    markExpiredAsDirty m ⟨1, 6000⟩ = some m' ∧ Scheduled threeNodes [] m' pending ∧
    Marked ⟨1, 6000⟩ m m' ∧ (∀ p, ¬ m'.Due ⟨1, 6000⟩ p) ∧ ∀ p, m.Due ⟨1, 6000⟩ p →
      ∀ node ∈ (m'.state p).timeoutlist, (⟨1, 6000⟩ : Curltime).us < node.time.us + 1000 :=
  expired_marked sampleOps_legal ⟨by decide, by decide, by decide⟩

/-- After every run, `multi_timeout` gives 0 when a transfer that is processed is dirty, -1 when no
transfer has a time, and else the milliseconds until the first time, rounded up. -/
theorem first_timeout {ops : List Op} (hlegal : ∀ op ∈ ops, op.Legal nodes) (hnow : now.Valid) :
    ∃ m m' key ms, run nodes ops = some m ∧ multiTimeout m now = some (m', key, ms) ∧
      (m.Busy ∧ key = now ∧ ms = 0 ∨ ¬m.Busy ∧
        (ms = -1 ∧ (∀ p, m.state p = ⟨⟨0, 0⟩, []⟩) ∨ ∃ p, First m now key ms p)) := by
  obtain ⟨m, pending, hrun, h⟩ := run_spec hlegal
  obtain ⟨m', key, ms, htimeout, -, hanswer⟩ := multiTimeout_spec h hnow
  refine ⟨m, m', key, ms, hrun, htimeout, hanswer.imp_right fun ⟨hidle, hfirst⟩ =>
    ⟨hidle, hfirst.imp_left fun ⟨hms, hnone⟩ => ⟨hms, fun p => ?_⟩⟩⟩
  have hlist : (m.state p).timeoutlist = [] := by
    by_contra hne
    exact (h.sound p).armed hne (hnone p)
  rw [← hnone p, ← hlist]

theorem first_timeout_sample : ∃ m m' key ms, run threeNodes sampleOps = some m ∧
    multiTimeout m ⟨1, 3500⟩ = some (m', key, ms) ∧
    (m.Busy ∧ key = ⟨1, 3500⟩ ∧ ms = 0 ∨ ¬m.Busy ∧
      (ms = -1 ∧ (∀ p, m.state p = ⟨⟨0, 0⟩, []⟩) ∨ ∃ p, First m ⟨1, 3500⟩ key ms p)) :=
  first_timeout sampleOps_legal ⟨by decide, by decide, by decide⟩

end Gurl.Multi
