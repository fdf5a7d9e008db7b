import Gurl.Threads.Thrdpool
import Gurl.Lib.Runs

/-! The ledger of the items: each one that was accepted is in one place, and is processed at most
once. -/

namespace Gurl.Threads

/-- The item a thread has. -/
def Slot.item? (slot : Slot) : Option Item :=
  match slot.pc with
  | .processing item => some item
  | _ => none

/-- The items the threads have. -/
def held (slots : List Slot) : List Item := slots.filterMap Slot.item?

theorem held_set {slots : List Slot} {i : Nat} (hi : i < slots.length) (slot : Slot) :
    (held (slots.set i slot)).Perm (slot.item?.toList ++ held (slots.eraseIdx i)) := by
  have h := (List.set_perm_cons_eraseIdx hi slot).filterMap Slot.item?
  cases hitem : slot.item? with
  | none => simpa [held, List.filterMap_cons, hitem] using h
  | some item => simpa [held, List.filterMap_cons, hitem] using h

theorem held_eraseIdx {slots : List Slot} {i : Nat} {slot : Slot} (hi : slots[i]? = some slot) :
    (held slots).Perm (slot.item?.toList ++ held (slots.eraseIdx i)) := by
  obtain ⟨hlt, rfl⟩ := List.getElem?_eq_some_iff.mp hi
  have h := held_set hlt slots[i]
  rwa [List.set_getElem_self] at h

theorem held_forall₂ {slots slots' : List Slot} (h : List.Forall₂ Slot.MaySignal slots slots') :
    held slots' = held slots := by
  induction h with
  | nil => rfl
  | @cons slot slot' rest rest' hs _ ih =>
    have hitem : slot'.item? = slot.item? := by
      rcases hs with rfl | rfl
      · rfl
      · cases hpc : slot.pc <;> simp [Slot.signal, Slot.item?, hpc]
    have ih : rest'.filterMap Slot.item? = rest.filterMap Slot.item? := ih
    simp only [held, List.filterMap_cons, hitem, ih]

/-- Rousing threads moves no item. -/
theorem Roused.held {p p' : Pool} (h : Roused p p') : held p'.slots = held p.slots := by
  obtain ⟨⟨base, extra, hslots, hbase, hextra⟩, -⟩ := h
  have hnone : Threads.held extra = [] := by
    rw [Threads.held, List.filterMap_eq_nil_iff]
    intro slot hin
    simp [Slot.item?, (hextra slot hin).1]
  rw [hslots, ← held_forall₂ hbase]
  simp only [Threads.held, List.filterMap_append] at hnone ⊢
  rw [hnone, List.append_nil]

/-- Each item that was accepted is in one place; the threads have `threads`. -/
def Thrdq.Balanced (q : Thrdq) (threads : List Item) : Prop :=
  ∀ x, q.sendq.count x + threads.count x + q.recvq.count x + q.received.count x + q.freed.count x =
    q.accepted.count x

section
variable {q : Thrdq} {threads threads' : List Item}

theorem Thrdq.Balanced.perm (h : q.Balanced threads) (hp : threads'.Perm threads) :
    q.Balanced threads' := by
  intro x
  rw [hp.count_eq]
  exact h x

theorem Thrdq.Balanced.recv (h : q.Balanced threads) : q.recv.2.Balanced threads := by
  intro x
  have hx := h x
  unfold Thrdq.recv
  split
  · exact hx
  · split
    · rename_i item rest heq
      rw [heq, List.count_cons] at hx
      simp only [List.count_append, List.count_singleton]
      omega
    · exact hx

theorem Thrdq.Balanced.clear (h : q.Balanced threads) (fnMatch : Item → Bool) :
    (q.clear fnMatch).Balanced threads := by
  intro x
  have hx := h x
  have hsplit (list : List Item) : (list.filter fun item => !fnMatch item).count x +
      (list.filter fnMatch).count x = list.count x := by
    induction list with
    | nil => rfl
    | cons item rest ih => cases hm : fnMatch item <;> simp [hm, List.count_cons] <;> omega
  unfold Thrdq.clear
  split
  · exact hx
  · have hs := hsplit q.sendq
    have hr := hsplit q.recvq
    simp only [cleanMatches, List.count_append]
    omega

theorem Thrdq.Balanced.destroyLists (h : q.Balanced threads) : q.destroyLists.Balanced threads := by
  intro x
  have hx := h x
  simp only [Thrdq.destroyLists, List.count_append, List.count_reverse, List.count_nil]
  omega

theorem Thrdq.Balanced.tpoolReturn {item : Item} (h : q.Balanced (item :: threads)) (gone : Bool) :
    (q.tpoolReturn item gone).Balanced threads := by
  intro x
  have hx := h x
  rw [List.count_cons] at hx
  unfold Thrdq.tpoolReturn
  split
  · simp only [List.count_append, List.count_singleton]
    omega
  · simp only [List.count_append, List.count_singleton]
    omega

theorem takeLoop_spec (now : Nat) (sendq recvq : List Item) :
    (∀ x, (takeLoop now sendq recvq).2.1.count x + (takeLoop now sendq recvq).1.toList.count x +
      (takeLoop now sendq recvq).2.2.count x = sendq.count x + recvq.count x) ∧
    ∀ item, (takeLoop now sendq recvq).1 = some item → item ∈ sendq ∧ item.expired now = false := by
  induction sendq generalizing recvq with
  | nil => simp [takeLoop]
  | cons item rest ih =>
    unfold takeLoop
    split
    · obtain ⟨hcount, hitem⟩ := ih (recvq ++ [item])
      refine ⟨fun x => ?_, fun item' h => ?_⟩
      · have := hcount x
        simp only [List.count_append, List.count_cons, List.count_nil] at this ⊢
        omega
      · obtain ⟨hmem, hnot⟩ := hitem item' h
        exact ⟨List.mem_cons_of_mem _ hmem, hnot⟩
    · rename_i hexp
      refine ⟨fun x => ?_, fun item' h => ?_⟩
      · simp [List.count_cons]
      · cases h
        exact ⟨List.mem_cons_self, by simpa using hexp⟩

/-- What a thread takes was queued and has not timed out. -/
theorem tpoolTake_spec (q : Thrdq) (now : Nat) (h : q.Balanced threads) :
    (q.tpoolTake now).2.Balanced ((q.tpoolTake now).1.toList ++ threads) ∧
    ∀ item, (q.tpoolTake now).1 = some item → item ∈ q.sendq ∧ item.expired now = false := by
  obtain ⟨hcount, hitem⟩ := takeLoop_spec now q.sendq q.recvq
  unfold Thrdq.tpoolTake
  split
  · exact ⟨h, by simp⟩
  · generalize takeLoop now q.sendq q.recvq = r at hcount hitem
    obtain ⟨item, sendq, recvq⟩ := r
    refine ⟨fun x => ?_, hitem⟩
    have hx := h x
    have hc := hcount x
    dsimp only at hc ⊢
    rw [List.count_append]
    omega

end

/-- The items that were processed. -/
def System.done (sys : System) : List Item := sys.processed.map fun entry => entry.2.1

/-- The ledger is in order; `threads` is what the threads have. -/
structure InOrder (sys : System) (threads : List Item) : Prop where
  balanced : sys.queue.Balanced threads
  nodup : sys.queue.accepted.Nodup
  ids : ∀ item ∈ sys.queue.accepted, item.id < sys.queue.accepted.length
  once : sys.done.Nodup
  known : ∀ item ∈ sys.done, item ∈ sys.queue.accepted
  fresh : ∀ item ∈ sys.queue.sendq, item ∉ sys.done
  timely : ∀ entry ∈ sys.processed, entry.2.1.expired entry.2.2 = false

/-- How far the end has come. -/
structure Ended (sys : System) : Prop where
  callers : sys.destroyer ≠ none → sys.callers = [] ∧ sys.queue.aborted = true
  aborted : ∀ join phase, sys.destroyer = some (join, phase) → phase ≠ .queueAborted →
    sys.pool.aborted = true
  joined : ∀ phase, sys.destroyer = some (true, phase) → phase ≠ .queueAborted → phase ≠ .waiting →
    phase ≠ .woken → sys.pool.slots = []
  emptied : ∀ join, sys.destroyer = some (join, .returned) →
    sys.queue.sendq = [] ∧ sys.queue.recvq = []

section
variable {sys sys' : System} {i : Nat} {slot : Slot} {threads threads' : List Item}

theorem InOrder.congr (h : InOrder sys threads) (hq : sys'.queue = sys.queue)
    (hp : sys'.processed = sys.processed) (ht : threads'.Perm threads) : InOrder sys' threads' := by
  have hd : sys'.done = sys.done := by rw [System.done, hp, System.done]
  constructor
  · rw [hq]
    exact h.balanced.perm ht
  · rw [hq]
    exact h.nodup
  · rw [hq]
    exact h.ids
  · rw [hd]
    exact h.once
  · rw [hd, hq]
    exact h.known
  · rw [hd, hq]
    exact h.fresh
  · rw [hp]
    exact h.timely

/-- The queue moves items, and queues none. -/
theorem InOrder.withQueue (h : InOrder sys threads) {queue : Thrdq} (hb : queue.Balanced threads')
    (hq : sys.queue.Drained queue) : InOrder { sys with queue } threads' := by
  refine ⟨hb, ?_, ?_, h.once, fun item hin => ?_, fun item hin => h.fresh item (hq.sendq hin),
    h.timely⟩
  · rw [hq.accepted]
    exact h.nodup
  · rw [hq.accepted]
    exact h.ids
  · rw [hq.accepted]
    exact h.known item hin

theorem signalAwait_queue (sys : System) : sys.signalAwait.queue = sys.queue ∧
    sys.signalAwait.processed = sys.processed ∧ sys.signalAwait.pool = sys.pool ∧
    sys.signalAwait.callers = sys.callers := by
  unfold System.signalAwait
  split <;> exact ⟨rfl, rfl, rfl, rfl⟩

theorem slotDone_order (h : InOrder sys (held (sys.pool.slots.eraseIdx i))) :
    InOrder (sys.slotDone i slot) (held (sys.slotDone i slot).pool.slots) := by
  unfold System.slotDone
  obtain ⟨hq, hp, hpool, -⟩ := signalAwait_queue { sys with pool := { sys.pool with
    slots := sys.pool.slots.eraseIdx i, zombies := sys.pool.zombies ++ [slot.id] } }
  refine h.congr hq hp ?_
  rw [hpool]

theorem setSlot_order (slot : Slot)
    (h : InOrder sys (slot.item?.toList ++ held (sys.pool.slots.eraseIdx i)))
    (hi : i < sys.pool.slots.length) :
    InOrder (sys.setSlot i slot) (held (sys.setSlot i slot).pool.slots) :=
  h.congr rfl rfl (held_set hi slot)

theorem goIdle_order (hi : i < sys.pool.slots.length)
    (h : InOrder sys (held (sys.pool.slots.eraseIdx i))) :
    InOrder (sys.goIdle i slot) (held (sys.goIdle i slot).pool.slots) := by
  obtain ⟨hslots, -⟩ := sys.pool.joinZombies_slots
  simp only [System.goIdle]
  split
  · refine setSlot_order _ (h.congr rfl rfl ?_) (by rw [hslots]; exact hi)
    dsimp only
    rw [hslots]
    exact .refl _
  · obtain ⟨hq, hp, hpool, -⟩ := signalAwait_queue { sys with pool := sys.pool.joinZombies.2 }
    refine setSlot_order _ (h.congr hq hp ?_) (by rw [hpool, hslots]; exact hi)
    rw [hpool, hslots]
    exact .refl _

/-- An item that was taken is processed. -/
theorem InOrder.process (h : InOrder sys threads) {id : Nat} {item : Item}
    (haccepted : item ∈ sys.queue.accepted) (hnew : item ∉ sys.done)
    (hgone : item ∉ sys.queue.sendq) (htimely : item.expired sys.now = false) :
    InOrder { sys with processed := sys.processed ++ [(id, item, sys.now)] } threads := by
  have hdone : System.done { sys with processed := sys.processed ++ [(id, item, sys.now)] } =
      sys.done ++ [item] := by
    simp [System.done]
  refine ⟨h.balanced, h.nodup, h.ids, ?_, fun x hx => ?_, fun x hx => ?_, fun entry hin => ?_⟩
  · rw [hdone]
    exact List.nodup_append.mpr ⟨h.once, List.nodup_singleton _, fun x hx y hy heq => by
      rw [List.mem_singleton.mp hy] at heq
      exact hnew (heq ▸ hx)⟩
  · rw [hdone, List.mem_append, List.mem_singleton] at hx
    rcases hx with hx | rfl
    · exact h.known x hx
    · exact haccepted
  · rw [hdone, List.mem_append, List.mem_singleton, not_or]
    refine ⟨h.fresh x hx, ?_⟩
    rintro rfl
    exact hgone hx
  · rcases List.mem_append.mp hin with hin | hin
    · exact h.timely entry hin
    · rw [List.mem_singleton.mp hin]
      exact htimely

/-- A thread asks for work; the item it had is back. -/
theorem workLoop_order (hi : i < sys.pool.slots.length)
    (h : InOrder sys (held (sys.pool.slots.eraseIdx i))) :
    InOrder (sys.workLoop i slot) (held (sys.workLoop i slot).pool.slots) := by
  simp only [System.workLoop]
  split
  · exact slotDone_order h
  · obtain ⟨hb, hitem⟩ := tpoolTake_spec sys.queue sys.now h.balanced
    have h1 := h.withQueue hb (sys.queue.tpoolTake_drained sys.now)
    split
    · rename_i item heq
      rw [heq] at h1 hb
      obtain ⟨hqueued, htimely⟩ := hitem item heq
      have hcount := hb item
      rw [List.count_append, Option.toList_some, List.count_singleton_self] at hcount
      have hone : (sys.queue.tpoolTake sys.now).2.accepted.count item ≤ 1 :=
        List.nodup_iff_count_le_one.mp h1.nodup item
      have h2 := setSlot_order { slot with pc := .processing item, idle := false, started := true }
        h1 hi
      refine h2.process ?_ (h.fresh item hqueued) ?_ htimely
      · have hpos : 0 < (sys.queue.tpoolTake sys.now).2.accepted.count item := by omega
        exact List.count_pos_iff.mp hpos
      · -- an item that is taken is not in the queue any more
        have hzero : (sys.queue.tpoolTake sys.now).2.sendq.count item = 0 := by omega
        exact List.count_eq_zero.mp hzero
    · rename_i heq
      rw [heq] at h1
      split
      · exact slotDone_order h1
      · exact goIdle_order hi h1

theorem worker_order (h : InOrder sys (held sys.pool.slots)) (hstep : sys.worker i = some sys') :
    InOrder sys' (held sys'.pool.slots) := by
  obtain ⟨slot, hi, hstep⟩ := Option.bind_eq_some_iff.mp hstep
  have hlt : i < sys.pool.slots.length := (List.getElem?_eq_some_iff.mp hi).1
  have hbefore := (held_eraseIdx hi).symm
  -- a thread that is not at work has nothing
  have hidle (hnone : slot.item? = none) : InOrder sys (held (sys.pool.slots.eraseIdx i)) := by
    rw [hnone] at hbefore
    exact h.congr rfl rfl hbefore
  cases hpc : slot.pc with
  | starting | signalled =>
    rw [hpc] at hstep
    cases hstep
    exact workLoop_order hlt (hidle (by simp [Slot.item?, hpc]))
  | processing item =>
    rw [hpc] at hstep
    cases hstep
    have hitem : slot.item? = some item := by simp [Slot.item?, hpc]
    rw [hitem] at hbefore
    exact workLoop_order hlt (h.withQueue ((h.balanced.perm hbefore).tpoolReturn _)
      (sys.queue.tpoolReturn_drained _ _))
  | joining zombie =>
    rw [hpc] at hstep
    cases hstep
    exact goIdle_order hlt (hidle (by simp [Slot.item?, hpc]))
  | waiting timed =>
    rw [hpc] at hstep
    cases hstep
  | timedOut =>
    have hrest := hidle (by simp [Slot.item?, hpc])
    simp only [hpc] at hstep
    split at hstep
    · cases hstep
      exact slotDone_order hrest
    · cases hstep
      exact workLoop_order hlt hrest

theorem timeout_order (h : InOrder sys (held sys.pool.slots)) (hstep : sys.timeout i = some sys') :
    InOrder sys' (held sys'.pool.slots) := by
  obtain ⟨slot, hi, hstep⟩ := Option.bind_eq_some_iff.mp hstep
  split at hstep
  · rename_i hpc
    cases hstep
    have hbefore := (held_eraseIdx hi).symm
    rw [show slot.item? = none by simp [Slot.item?, hpc]] at hbefore
    exact setSlot_order { slot with pc := .timedOut } (h.congr rfl rfl hbefore)
      (List.getElem?_eq_some_iff.mp hi).1
  · cases hstep

theorem afterJoin_order (h : InOrder sys (held sys.pool.slots)) (join : Bool) :
    InOrder (sys.afterJoin join) (held (sys.afterJoin join).pool.slots) := by
  obtain ⟨hslots, -⟩ := sys.pool.joinZombies_slots
  unfold System.afterJoin
  generalize sys.pool.joinZombies = j at hslots
  obtain ⟨_ | zombie, p⟩ := j
  · refine h.congr rfl rfl ?_
    dsimp only at hslots ⊢
    rw [hslots]
  · refine h.congr rfl rfl ?_
    dsimp only at hslots ⊢
    rw [hslots]

theorem destroyerStep_order (h : InOrder sys (held sys.pool.slots))
    (hstep : sys.destroyerStep = some sys') : InOrder sys' (held sys'.pool.slots) := by
  have hwake : held (sys.pool.slots.map Slot.signal) = held sys.pool.slots :=
    held_forall₂ (List.forall₂_map_right_iff.mpr (List.forall₂_same.mpr fun _ _ => .inr rfl))
  have h1 : InOrder { sys with pool := { sys.pool with aborted := true } } (held sys.pool.slots) :=
    h.congr rfl rfl (.refl _)
  unfold System.destroyerStep at hstep
  split at hstep
  case h_1 | h_2 =>
    dsimp only at hstep
    split at hstep
    · cases hstep
      dsimp only
      rw [hwake]
      exact h.congr rfl rfl (.refl _)
    · cases hstep
      exact afterJoin_order h1 _
  case h_3 =>
    cases hstep
    exact afterJoin_order h _
  case h_4 =>
    cases hstep
    exact (h.withQueue h.balanced.destroyLists ⟨rfl, rfl, List.nil_subset _⟩).congr
      rfl rfl (.refl _)
  all_goals cases hstep

/-- Every step keeps the ledger in order. -/
theorem step_order (h : InOrder sys (held sys.pool.slots)) {action : Action}
    (hstep : sys.step action = some sys') : InOrder sys' (held sys'.pool.slots) := by
  cases action with
  | tick ms =>
    cases hstep
    exact h.congr rfl rfl (.refl _)
  | send timeoutMs =>
    obtain rfl | ⟨-, item, hid, rfl⟩ := System.send_step hstep
    · exact h
    · have hnew : item ∉ sys.queue.accepted := fun hin => by
        have := h.ids item hin
        omega
      refine ⟨fun x => ?_, ?_, fun x hx => ?_, h.once, fun x hx => ?_, fun x hx => ?_, h.timely⟩
      · have hx := h.balanced x
        simp only [List.count_append]
        omega
      · exact List.nodup_append.mpr ⟨h.nodup, List.nodup_singleton _, fun x hx y hy heq => by
          rw [List.mem_singleton.mp hy] at heq
          exact hnew (heq ▸ hx)⟩
      · rw [List.length_append, List.length_singleton]
        rcases List.mem_append.mp hx with hx | hx
        · have := h.ids x hx
          omega
        · rw [List.mem_singleton.mp hx]
          omega
      · exact List.mem_append_left _ (h.known x hx)
      · rcases List.mem_append.mp hx with hx | hx
        · exact h.fresh x hx
        · rw [List.mem_singleton.mp hx]
          exact fun hin => hnew (h.known item hin)
  | recv =>
    obtain ⟨-, ⟨⟩⟩ := Option.ite_none_left_eq_some.mp hstep
    exact h.withQueue h.balanced.recv sys.queue.recv_drained
  | clear fnMatch =>
    obtain ⟨-, ⟨⟩⟩ := Option.ite_none_left_eq_some.mp hstep
    exact h.withQueue (h.balanced.clear fnMatch) (sys.queue.clear_drained fnMatch)
  | setProps maxLen minThreads maxThreads idleTimeMs =>
    obtain ⟨-, ⟨⟩⟩ := Option.ite_none_left_eq_some.mp hstep
    exact ⟨h.balanced, h.nodup, h.ids, h.once, h.known, h.fresh, h.timely⟩
  | caller i limit =>
    obtain ⟨caller, -, rfl⟩ := Option.map_eq_some_iff.mp hstep
    refine h.congr rfl rfl ?_
    dsimp only
    rw [(callerStep_roused sys.pool limit caller).held]
  | worker i => exact worker_order h hstep
  | timeout i => exact timeout_order h hstep
  | destroy join =>
    obtain ⟨-, ⟨⟩⟩ := Option.ite_none_left_eq_some.mp hstep
    exact ⟨h.balanced, h.nodup, h.ids, h.once, h.known, h.fresh, h.timely⟩
  | destroyer => exact destroyerStep_order h hstep

end

/-- What a thread leaves alone in a step. -/
structure SlotStep (sys sys' : System) : Prop where
  callers : sys'.callers = sys.callers
  queue : sys'.queue.aborted = sys.queue.aborted
  pool : sys'.pool.aborted = sys.pool.aborted
  destroyer : sys'.destroyer = sys.destroyer ∨
    ∃ join, sys.destroyer = some (join, .waiting) ∧ sys'.destroyer = some (join, .woken)
  lists : sys.pool.aborted = true →
    sys'.queue.sendq = sys.queue.sendq ∧ sys'.queue.recvq = sys.queue.recvq

section
variable {sys sys' : System} {i : Nat} {slot : Slot}

theorem signalAwait_step {sys0 : System} (hc : sys.callers = sys0.callers)
    (hq : sys.queue = sys0.queue)
    (hp : sys.pool.aborted = sys0.pool.aborted) (hd : sys.destroyer = sys0.destroyer) :
    SlotStep sys0 sys.signalAwait := by
  unfold System.signalAwait
  split
  · rename_i join heq
    exact ⟨hc, by rw [hq], hp, .inr ⟨join, by rw [← hd, heq], rfl⟩, fun _ => by simp [hq]⟩
  · exact ⟨hc, by rw [hq], hp, .inl hd, fun _ => by simp [hq]⟩

theorem slotDone_step : SlotStep sys (sys.slotDone i slot) :=
  signalAwait_step rfl rfl rfl rfl

theorem goIdle_step : SlotStep sys (sys.goIdle i slot) := by
  obtain ⟨-, haborted, -⟩ := sys.pool.joinZombies_slots
  simp only [System.goIdle]
  split
  · exact ⟨rfl, rfl, haborted, .inl rfl, fun _ => ⟨rfl, rfl⟩⟩
  · have h : SlotStep sys (System.signalAwait { sys with pool := sys.pool.joinZombies.2 }) :=
      signalAwait_step rfl rfl haborted rfl
    exact ⟨h.callers, h.queue, h.pool, h.destroyer, h.lists⟩

theorem workLoop_step (sys : System) (i : Nat) (slot : Slot) :
    SlotStep sys (sys.workLoop i slot) := by
  have htake := (sys.queue.tpoolTake_drained sys.now).aborted
  have hqueue {s : System} (hpool : ¬sys.pool.aborted = true)
      (h : SlotStep { sys with queue := (sys.queue.tpoolTake sys.now).2 } s) : SlotStep sys s :=
    ⟨h.callers, h.queue.trans htake, h.pool, h.destroyer, fun ha => absurd ha hpool⟩
  simp only [System.workLoop]
  split
  · exact slotDone_step
  · rename_i hpool
    apply hqueue hpool
    split
    · exact ⟨rfl, rfl, rfl, .inl rfl, fun _ => ⟨rfl, rfl⟩⟩
    · split
      · exact slotDone_step
      · exact goIdle_step

theorem worker_step (hstep : sys.worker i = some sys') :
    sys.pool.slots ≠ [] ∧ SlotStep sys sys' := by
  obtain ⟨slot, hi, hstep⟩ := Option.bind_eq_some_iff.mp hstep
  refine ⟨fun hnil => by simp [hnil] at hi, ?_⟩
  cases hpc : slot.pc with
  | starting | signalled =>
    rw [hpc] at hstep
    cases hstep
    exact workLoop_step sys i slot
  | processing item =>
    rw [hpc] at hstep
    cases hstep
    have h := workLoop_step { sys with queue := sys.queue.tpoolReturn item sys.pool.aborted } i slot
    have ha := (sys.queue.tpoolReturn_drained item sys.pool.aborted).aborted
    refine ⟨h.callers, h.queue.trans ha, h.pool, h.destroyer, fun hp => ?_⟩
    obtain ⟨hs, hr⟩ := h.lists hp
    rw [hs, hr]
    simp [Thrdq.tpoolReturn, hp]
  | joining zombie =>
    rw [hpc] at hstep
    cases hstep
    exact goIdle_step
  | waiting timed =>
    rw [hpc] at hstep
    cases hstep
  | timedOut =>
    simp only [hpc] at hstep
    split at hstep
    · cases hstep
      exact slotDone_step
    · cases hstep
      exact workLoop_step sys i slot

theorem timeout_step (hstep : sys.timeout i = some sys') :
    sys.pool.slots ≠ [] ∧ SlotStep sys sys' := by
  obtain ⟨slot, hi, hstep⟩ := Option.bind_eq_some_iff.mp hstep
  refine ⟨fun hnil => by simp [hnil] at hi, ?_⟩
  split at hstep
  · cases hstep
    exact ⟨rfl, rfl, rfl, .inl rfl, fun _ => ⟨rfl, rfl⟩⟩
  · cases hstep

/-- A thread does not change how far the end has come. -/
theorem Ended.slotStep (h : Ended sys) (hs : sys.pool.slots ≠ []) (hstep : SlotStep sys sys') :
    Ended sys' := by
  have hkind {join : Bool} {phase : Phase} (hd : sys'.destroyer = some (join, phase))
      (hne : phase ≠ .woken) : sys.destroyer = some (join, phase) := by
    rcases hstep.destroyer with heq | ⟨join', -, heq⟩
    · rw [← heq, hd]
    · rw [heq] at hd
      cases hd
      exact absurd rfl hne
  refine ⟨fun hd => ?_, fun join phase hd hne => ?_, fun phase hd hq hw hwo => ?_,
    fun join hd => ?_⟩
  · rw [hstep.callers, hstep.queue]
    apply h.callers
    rcases hstep.destroyer with heq | ⟨join', heq, -⟩
    · rwa [← heq]
    · simp [heq]
  · rw [hstep.pool]
    rcases hstep.destroyer with heq | ⟨join', heq, -⟩
    · exact h.aborted join phase (heq ▸ hd) hne
    · exact h.aborted join' .waiting heq (by simp)
  · exact absurd (h.joined phase (hkind hd hwo) hq hw hwo) hs
  · have hd := hkind hd (by simp)
    obtain ⟨hsendq, hrecvq⟩ := hstep.lists (h.aborted join _ hd (by simp))
    rw [hsendq, hrecvq]
    exact h.emptied join hd

/-- Before the end. -/
theorem Ended.of_none (h : sys.destroyer = none) : Ended sys := by
  refine ⟨fun hd => absurd h hd, ?_, ?_, ?_⟩ <;> simp [h]

theorem Ended.afterJoin (hc : sys.callers = [] ∧ sys.queue.aborted = true)
    (hp : sys.pool.aborted = true) {join : Bool} (hj : join = true → sys.pool.slots = []) :
    Ended (sys.afterJoin join) := by
  obtain ⟨hslots, haborted, -⟩ := sys.pool.joinZombies_slots
  unfold System.afterJoin
  generalize sys.pool.joinZombies = j at hslots haborted
  obtain ⟨_ | zombie, p⟩ := j
  · refine ⟨fun _ => hc, fun _ _ _ _ => haborted.trans hp, fun phase hd _ _ _ => ?_, by simp⟩
    cases hd
    exact hslots.trans (hj rfl)
  · refine ⟨fun _ => hc, fun _ _ _ _ => haborted.trans hp, fun phase hd _ _ _ => ?_, by simp⟩
    cases hd
    exact hslots.trans (hj rfl)

theorem Ended.destroyerStep (h : Ended sys) (hstep : sys.destroyerStep = some sys') :
    Ended sys' := by
  cases hd : sys.destroyer with
  | none => simp [System.destroyerStep, hd] at hstep
  | some d =>
    obtain ⟨join, phase⟩ := d
    have hc := h.callers (by simp [hd])
    simp only [System.destroyerStep, hd] at hstep
    cases phase with
    | queueAborted | woken =>
      dsimp only at hstep
      split at hstep
      · cases hstep
        exact ⟨fun _ => hc, fun _ _ _ _ => rfl, fun _ hd _ hw _ => by cases hd; exact absurd rfl hw,
          by simp⟩
      · rename_i hcond
        cases hstep
        refine Ended.afterJoin ?_ ?_ fun hjoin => ?_
        · exact hc
        · rfl
        · simpa [hjoin] using hcond
    | waiting | returned => cases hstep
    | joining zombie =>
      cases hstep
      refine Ended.afterJoin hc (h.aborted join _ hd (by simp)) fun hjoin => ?_
      subst hjoin
      exact h.joined _ hd (by simp) (by simp) (by simp)
    | poolDestroyed =>
      cases hstep
      refine ⟨fun _ => hc, fun _ _ _ _ => h.aborted join _ hd (by simp), fun phase hd' _ _ _ => ?_,
        fun _ _ => ⟨rfl, rfl⟩⟩
      cases hd'
      exact h.joined _ hd (by simp) (by simp) (by simp)

theorem Ended.step (h : Ended sys) {action : Action} (hstep : sys.step action = some sys') :
    Ended sys' := by
  -- no call is made once the end has begun
  have hcall {s : System} (hs : (if sys.destroyer.isSome then none else some s) = some sys')
      (heq : s.destroyer = sys.destroyer) : Ended sys' := by
    split at hs
    · cases hs
    · rename_i hnone
      cases hs
      exact .of_none (by simpa [heq] using hnone)
  cases action with
  | tick ms =>
    cases hstep
    exact ⟨h.callers, h.aborted, h.joined, h.emptied⟩
  | send timeoutMs => exact hcall hstep rfl
  | recv => exact hcall hstep rfl
  | clear fnMatch => exact hcall hstep rfl
  | setProps maxLen minThreads maxThreads idleTimeMs => exact hcall hstep rfl
  | caller i limit =>
    obtain ⟨caller, hi, rfl⟩ := Option.map_eq_some_iff.mp hstep
    refine .of_none ?_
    by_contra hd
    rw [(h.callers hd).1] at hi
    cases hi
  | worker i =>
    obtain ⟨hs, hstep⟩ := worker_step hstep
    exact h.slotStep hs hstep
  | timeout i =>
    obtain ⟨hs, hstep⟩ := timeout_step hstep
    exact h.slotStep hs hstep
  | destroy join =>
    obtain ⟨hcond, ⟨⟩⟩ := Option.ite_none_left_eq_some.mp hstep
    have hcallers : sys.callers = [] := by
      by_contra hne
      exact hcond (.inr hne)
    refine ⟨fun _ => ⟨hcallers, rfl⟩, fun _ _ hd hne => ?_, fun _ hd hq _ _ => ?_, by simp⟩
    · cases hd
      exact absurd rfl hne
    · cases hd
      exact absurd rfl hq
  | destroyer => exact h.destroyerStep hstep

end

/-- A send in a state keeps the queue within its bound: it appends an item to a queue that is
shorter, or it changes nothing. -/
theorem send_bounded {sys sys' : System} {timeoutMs : Int}
    (hstep : sys.step (.send timeoutMs) = some sys') :
    sys'.queue = sys.queue ∨ (∃ item, sys'.queue.accepted = sys.queue.accepted ++ [item] ∧
      sys'.queue.sendq = sys.queue.sendq ++ [item]) ∧
      (sys.queue.sendMaxLen = 0 ∨ sys'.queue.sendq.length ≤ sys.queue.sendMaxLen) := by
  obtain rfl | ⟨hroom, item, -, rfl⟩ := System.send_step hstep
  · exact .inl rfl
  · refine .inr ⟨⟨item, rfl, rfl⟩, ?_⟩
    dsimp only
    rw [List.length_append, List.length_singleton]
    omega

/-- In how many places an item is. -/
def System.places (sys : System) (item : Item) : Nat :=
  sys.queue.sendq.count item + (held sys.pool.slots).count item + sys.queue.recvq.count item +
    sys.queue.received.count item + sys.queue.freed.count item

/-- In every run each item that was accepted is in one place and is processed once at most, by one
thread and not after it has timed out in the queue. When `Curl_thrdq_destroy` has waited for the
threads and returned, it was received or freed. -/
theorem items_accounted (maxLen minThreads maxThreads idleTimeMs : Nat) (sys sys' : System)
    (actions : List Action) (hcreate : create maxLen minThreads maxThreads idleTimeMs = some sys)
    (hrun : Runs.exec System.step sys actions = some sys') :
    (∀ item ∈ sys'.queue.accepted, sys'.places item = 1) ∧
    (sys'.processed.map fun entry => entry.2.1).Nodup ∧
    (∀ entry ∈ sys'.processed, entry.2.1.expired entry.2.2 = false) ∧
    (sys'.destroyer = some (true, .returned) → ∀ item ∈ sys'.queue.accepted,
      sys'.queue.received.count item + sys'.queue.freed.count item = 1) ∧
    ∀ timeoutMs sys'', sys'.step (.send timeoutMs) = some sys'' →
      sys''.queue = sys'.queue ∨ (∃ item, sys''.queue.accepted = sys'.queue.accepted ++ [item] ∧
        sys''.queue.sendq = sys'.queue.sendq ++ [item]) ∧
        (sys'.queue.sendMaxLen = 0 ∨ sys''.queue.sendq.length ≤ sys'.queue.sendMaxLen) := by
  have hstart : InOrder sys (held sys.pool.slots) ∧ Ended sys := by
    unfold create at hcreate
    split at hcreate
    · cases hcreate
    · cases hcreate
      dsimp only
      rw [(Pool.signal_roused _ _ _).held]
      exact ⟨⟨by simp [Thrdq.Balanced, held], by simp, by simp, by simp [System.done],
        by simp [System.done], by simp, by simp⟩, .of_none rfl⟩
  obtain ⟨horder, hended⟩ : InOrder sys' (held sys'.pool.slots) ∧ Ended sys' :=
    (Runs.Reach.of_exec hrun).invariant
      (P := fun s => InOrder s (held s.pool.slots) ∧ Ended s) hstart
      fun _ h hstep => ⟨step_order h.1 hstep, h.2.step hstep⟩
  have hplaces (item : Item) (hin : item ∈ sys'.queue.accepted) : sys'.places item = 1 :=
    (horder.balanced item).trans (List.count_eq_one_of_mem horder.nodup hin)
  refine ⟨hplaces, horder.once, horder.timely, fun hd item hin => ?_, fun _ _ => send_bounded⟩
  have hone := hplaces item hin
  have hslots := hended.joined _ hd (by simp) (by simp) (by simp)
  obtain ⟨hsendq, hrecvq⟩ := hended.emptied true hd
  simpa [System.places, hslots, hsendq, hrecvq, held] using hone

/-- An item is received, one times out in the queue, one is at work when the end comes, and a fourth
does not fit. For the first no thread can be created. -/
def sampleItems : List Action :=
  [.send 0, .caller 0 (some 0), .send 5, .caller 0 none, .worker 0, .tick 10, .send 0,
    .caller 0 none,
    .send 0, .worker 0, .recv, .destroy true, .destroyer, .worker 0, .destroyer,
      .destroyer, .destroyer]

theorem items_accounted_sample :
    ∃ sys sys', create 2 0 1 0 = some sys ∧ Runs.exec System.step sys sampleItems = some sys' ∧
      sys'.queue.accepted.map Item.id = [0, 1, 2] ∧ sys'.queue.received.map Item.id = [0] ∧
      sys'.queue.freed.map Item.id = [2, 1] ∧ sys'.done.map Item.id = [0, 2] ∧
      ∀ item ∈ sys'.queue.accepted,
        sys'.queue.received.count item + sys'.queue.freed.count item = 1 := by
  have hrun : ((create 2 0 1 0).bind fun sys => Runs.exec System.step sys sampleItems).map
      (fun s => ([s.queue.accepted.map Item.id, s.queue.received.map Item.id,
        s.queue.freed.map Item.id, s.done.map Item.id], s.destroyer)) =
      some ([[0, 1, 2], [0], [2, 1], [0, 2]], some (true, Phase.returned)) := by
    decide +kernel
  obtain ⟨sys', hrun, heq⟩ := Option.map_eq_some_iff.mp hrun
  obtain ⟨sys, hcreate, hrun⟩ := Option.bind_eq_some_iff.mp hrun
  simp only [Prod.mk.injEq, List.cons.injEq, and_true] at heq
  obtain ⟨⟨haccepted, hreceived, hfreed, hdone⟩, hreturned⟩ := heq
  obtain ⟨-, -, -, hall, -⟩ := items_accounted 2 0 1 0 sys sys' sampleItems hcreate hrun
  exact ⟨sys, sys', hcreate, hrun, haccepted, hreceived, hfreed, hdone, hall hreturned⟩

end Gurl.Threads
