import Gurl.Threads.Thrdpool
import Gurl.Lib.Runs

/-! Wake-ups: a thread that is marked idle but does not wait misses its signal. Where no signal is
missed, there is always a thread or a call that looks after the items in the queue. -/

namespace Gurl.Threads

/-- The thread is between marking itself idle and its wait, for it joins another. -/
def Slot.joins (slot : Slot) : Bool :=
  match slot.pc with
  | .joining _ => true
  | _ => false

/-- A signal to the slot has an effect if the slot is marked idle. -/
def Slot.hears (slot : Slot) : Bool := !slot.joins && slot.pc != .timedOut

def Slot.waits (slot : Slot) : Bool :=
  match slot.pc with
  | .waiting _ => true
  | _ => false

/-- The call is between its item and its signals. -/
def Caller.sends : Caller → Bool
  | .signal _ | .signalJoining _ _ => true
  | .props _ _ _ _ | .propsJoining _ _ _ => false

/-- No signal of the step is missed: if `Curl_thrdpool_signal` walks over the slots, no idle thread
is on its way to its wait or back from it, and threads can be created. -/
def System.heard (sys : System) : Action → Bool
  | .caller i limit =>
    match sys.callers[i]? with
    | some (.signal _) | some (.signalJoining _ _) =>
      sys.pool.joinZombies.1.isSome || limit.isNone && sys.pool.slots.all Slot.hears
    | _ => true
  | _ => true

def System.heardStep (sys : System) (action : Action) : Option System :=
  if sys.heard action then sys.step action else none

/-- An item is queued, and nobody will take it: the queue is in use, no call is between its item and
its signals, and every thread that is left waits. -/
def System.Starved (sys : System) : Prop :=
  sys.queue.aborted = false ∧ sys.queue.sendq ≠ [] ∧
    (∀ caller ∈ sys.callers, caller.sends = false) ∧
    ∀ slot ∈ sys.pool.slots, slot.waits = true

/-- `Curl_thrdpool_destroy` waits for threads that all wait. -/
def System.Hung (sys : System) : Prop :=
  sys.destroyer = some (true, .waiting) ∧ ∀ slot ∈ sys.pool.slots, slot.waits = true

instance (sys : System) : Decidable sys.Starved := inferInstanceAs (Decidable (_ ∧ _ ∧ _ ∧ _))

/-- The call is about to signal some threads. -/
def Caller.rouses : Caller → Bool
  | .signal n | .signalJoining n _ => n != 0
  | .props _ _ _ _ | .propsJoining _ _ _ => false

/-- Nobody waits for a thread that waits, and somebody looks after the queue if the signals are
`heard`. -/
structure Awake (heard : Prop) (sys : System) : Prop where
  ok : ∀ slot ∈ sys.pool.slots, slot.Ok
  max : 0 < sys.pool.maxThreads
  aborted : sys.pool.aborted = true → sys.queue.aborted = true
  final : sys.destroyer ≠ none → sys.queue.aborted = true
  served : heard → sys.queue.aborted = false → sys.queue.sendq ≠ [] →
    (∃ caller ∈ sys.callers, caller.rouses = true) ∨ ∃ slot ∈ sys.pool.slots, slot.active = true
  destroy : sys.destroyer = some (true, .waiting) → sys.pool.aborted = true ∧ sys.pool.slots ≠ [] ∧
    ∀ slot ∈ sys.pool.slots, slot.waits = false

theorem Slot.active_not_waits {slot : Slot} (h : slot.active) : slot.waits = false := by
  cases hpc : slot.pc <;> simp_all [Slot.active, Slot.waits]

theorem Caller.sends_of_rouses {caller : Caller} (h : caller.rouses) : caller.sends = true := by
  cases caller <;> simp_all [Caller.rouses, Caller.sends]

theorem Awake.not_starved {sys : System} (h : Awake True sys) : ¬sys.Starved := by
  rintro ⟨habort, hsendq, hcallers, hslots⟩
  rcases h.served trivial habort hsendq with ⟨caller, hin, hrouses⟩ | ⟨slot, hin, hact⟩
  · exact absurd (Caller.sends_of_rouses hrouses) (by simp [hcallers caller hin])
  · exact absurd (hslots slot hin) (by simp [Slot.active_not_waits hact])

theorem Awake.not_hung {sys : System} {heard : Prop} (h : Awake heard sys) : ¬sys.Hung := by
  rintro ⟨hwaiting, hslots⟩
  obtain ⟨-, hne, hall⟩ := h.destroy hwaiting
  obtain ⟨slot, hin⟩ := List.exists_mem_of_ne_nil _ hne
  exact absurd (hslots slot hin) (by simp [hall slot hin])

/-- A signal that is heard makes a thread look. -/
theorem signal_active {p : Pool} {n : Nat} (hok : ∀ slot ∈ p.slots, slot.Ok)
    (hears : ∀ slot ∈ p.slots, slot.hears = true) (hn : n ≠ 0) (hmax : 0 < p.maxThreads) :
    ∃ slot ∈ (p.signal none n).2.slots, slot.active = true := by
  obtain ⟨m, rfl⟩ := Nat.exists_eq_succ_of_ne_zero hn
  cases hslots : p.slots with
  | nil =>
    simp only [Pool.signal, hslots, signalSlots]
    obtain ⟨extra, heq, hnew, hsome, -⟩ := startSlots_spec none (m + 1) { p with slots := [] }
    obtain ⟨slot, hin⟩ := List.exists_mem_of_ne_nil _ (hsome (by simp) hmax rfl)
    rw [heq]
    exact ⟨slot, List.mem_append_right _ hin, by simp [Slot.active, (hnew slot hin).1]⟩
  | cons slot rest =>
    have hin : slot ∈ p.slots := by simp [hslots]
    have hears := hears slot hin
    simp only [Pool.signal, hslots]
    obtain ⟨extra, heq, -⟩ := startSlots_spec none (signalSlots (m + 1) (slot :: rest)).1
      { p with slots := (signalSlots (m + 1) (slot :: rest)).2 }
    rw [heq]
    -- the first slot is idle and hears its signal, or it looks anyway
    have hhead : ∃ slot' ∈ (signalSlots (m + 1) (slot :: rest)).2, slot'.active = true := by
      unfold signalSlots
      cases hpc : slot.pc <;> simp_all [Slot.Ok, Slot.hears, Slot.joins, Slot.active, Slot.signal]
    obtain ⟨slot', hin', hact⟩ := hhead
    exact ⟨slot', List.mem_append_left _ hin', hact⟩

section
variable {heard : Prop} {sys sys' : System} {i : Nat} {slot slot' : Slot}

theorem Awake.withPool (h : Awake heard sys) {pool : Pool} (hslots : pool.slots = sys.pool.slots)
    (hmax : pool.maxThreads = sys.pool.maxThreads) (haborted : pool.aborted = sys.pool.aborted) :
    Awake heard { sys with pool } := by
  constructor
  · rw [hslots]
    exact h.ok
  · rw [hmax]
    exact h.max
  · rw [haborted]
    exact h.aborted
  · exact h.final
  · rw [hslots]
    exact h.served
  · rw [hslots, haborted]
    exact h.destroy

theorem Awake.withQueue (h : Awake heard sys) {queue : Thrdq} (hq : sys.queue.Drained queue) :
    Awake heard { sys with queue } := by
  refine ⟨h.ok, h.max, ?_, ?_, fun hb ha hs => ?_, h.destroy⟩
  · rw [hq.aborted]
    exact h.aborted
  · rw [hq.aborted]
    exact h.final
  · rw [hq.aborted] at ha
    exact h.served hb ha fun hnil => hs (List.subset_nil.mp (hnil ▸ hq.sendq))

theorem signalAwait_destroyer (sys : System) (join : Bool) :
    sys.signalAwait.destroyer ≠ some (join, .waiting) := by
  unfold System.signalAwait
  split
  · simp
  · rename_i hne
    exact fun heq => hne join heq

theorem Awake.signalAwait (h : Awake heard sys) : Awake heard sys.signalAwait := by
  unfold System.signalAwait
  split
  · rename_i join hd
    exact ⟨h.ok, h.max, h.aborted, fun _ => h.final (by simp [hd]), h.served, by simp⟩
  · exact h

/-- A slot is replaced: the old thread did not look after the queue, or the new one does. -/
theorem Awake.setSlot (h : Awake heard sys) (hi : sys.pool.slots[i]? = some slot) (hok : slot'.Ok)
    (hserved : slot.active = true → sys.queue.aborted = false → sys.queue.sendq ≠ [] →
      slot'.active = true)
    (hdestroy : sys.destroyer = some (true, .waiting) → slot'.waits = false) :
    Awake heard (sys.setSlot i slot') := by
  have hlt : i < sys.pool.slots.length := (List.getElem?_eq_some_iff.mp hi).1
  constructor
  · intro x hx
    rcases List.mem_or_eq_of_mem_set hx with hx | rfl
    · exact h.ok x hx
    · exact hok
  · exact h.max
  · exact h.aborted
  · exact h.final
  · intro hb ha hs
    rcases h.served hb ha hs with hcaller | ⟨x, hx, hact⟩
    · exact .inl hcaller
    · right
      obtain ⟨j, hj⟩ := List.mem_iff_getElem?.mp hx
      by_cases hij : i = j
      · subst hij
        rw [hi] at hj
        cases hj
        exact ⟨slot', List.mem_set hlt slot', hserved hact ha hs⟩
      · refine ⟨x, List.mem_iff_getElem?.mpr ⟨j, ?_⟩, hact⟩
        exact (List.getElem?_set_ne hij).trans hj
  · intro hd
    obtain ⟨ha, -, hall⟩ := h.destroy hd
    refine ⟨ha, fun hnil => ?_, fun x hx => ?_⟩
    · have hlen := congrArg List.length hnil
      simp only [System.setSlot, List.length_set, List.length_nil] at hlen
      omega
    · rcases List.mem_or_eq_of_mem_set hx with hx | rfl
      · exact hall x hx
      · exact hdestroy hd

/-- A thread leaves: it did not look after the queue, or there is nothing in it. -/
theorem Awake.slotDone (h : Awake heard sys) (hi : sys.pool.slots[i]? = some slot)
    (hserved : slot.active = true → sys.queue.aborted = false → sys.queue.sendq = []) :
    Awake heard (sys.slotDone i slot) := by
  unfold System.slotDone
  -- once the end of the thread is signalled, nobody waits for it
  suffices hrest : ∀ d, d ≠ some (true, Phase.waiting) → (d ≠ none → sys.queue.aborted = true) →
      Awake heard { sys with
        pool := { sys.pool with
          slots := sys.pool.slots.eraseIdx i, zombies := sys.pool.zombies ++ [slot.id] }
        destroyer := d } by
    unfold System.signalAwait
    split
    · rename_i join hd
      exact hrest _ (by simp) fun _ => h.final (by rw [show sys.destroyer = _ from hd]; simp)
    · rename_i hne
      exact hrest sys.destroyer (hne true) h.final
  intro d hd hfinal
  refine ⟨fun x hx => h.ok x (List.mem_of_mem_eraseIdx hx), h.max, h.aborted, hfinal,
    fun hb ha hs => ?_, fun heq => absurd heq hd⟩
  rcases h.served hb ha hs with hcaller | ⟨x, hx, hact⟩
  · exact .inl hcaller
  · right
    obtain ⟨j, hj⟩ := List.mem_iff_getElem?.mp hx
    by_cases hij : j = i
    · subst hij
      rw [hi] at hj
      cases hj
      exact absurd (hserved hact ha) hs
    · exact ⟨x, List.mem_eraseIdx_iff_getElem?.mpr ⟨j, hij, hj⟩, hact⟩

theorem Awake.goIdle (h : Awake heard sys) {slot0 : Slot}
    (hi : sys.pool.slots[i]? = some slot0)
    (hserved : slot0.active = true → sys.queue.aborted = false → sys.queue.sendq = [])
    (hidle : slot.idle = true) (hstarted : slot.started = true) :
    Awake heard (sys.goIdle i slot) := by
  obtain ⟨hslots, haborted, -, hmax⟩ := sys.pool.joinZombies_slots
  have hnone (x : Slot) : slot0.active = true → sys.queue.aborted = false → sys.queue.sendq ≠ [] →
      x.active = true := fun hact ha hs => absurd (hserved hact ha) hs
  have h1 := h.withPool hslots hmax haborted
  have hi1 : sys.pool.joinZombies.2.slots[i]? = some slot0 := by rw [hslots, hi]
  simp only [System.goIdle]
  split
  · exact h1.setSlot hi1 (by simp [Slot.Ok, hidle, hstarted]) (hnone _) fun _ => rfl
  · have h2 := h1.signalAwait
    have hpool : (System.signalAwait { sys with pool := sys.pool.joinZombies.2 }).pool =
        sys.pool.joinZombies.2 := by
      unfold System.signalAwait
      split <;> rfl
    have hqueue : (System.signalAwait { sys with pool := sys.pool.joinZombies.2 }).queue =
        sys.queue := by
      unfold System.signalAwait
      split <;> rfl
    have hi2 : (System.signalAwait { sys with pool := sys.pool.joinZombies.2 }).pool.slots[i]? =
        some slot0 := by rw [hpool, hi1]
    refine h2.setSlot hi2 (by simp [Slot.Ok, hidle, hstarted]) ?_
      fun heq => absurd heq (signalAwait_destroyer _ true)
    rw [hqueue]
    exact hnone _

theorem takeLoop_sendq (now : Nat) (sendq recvq : List Item) :
    (takeLoop now sendq recvq).1 = none → (takeLoop now sendq recvq).2.1 = [] := by
  induction sendq generalizing recvq with
  | nil => simp [takeLoop]
  | cons item rest ih =>
    unfold takeLoop
    split
    · exact ih _
    · simp

/-- `thrdq_tpool_take` finds nothing only when nothing is left to send. -/
theorem tpoolTake_sendq (q : Thrdq) (now : Nat) (hnone : (q.tpoolTake now).1 = none)
    (ha : q.aborted = false) : (q.tpoolTake now).2.sendq = [] := by
  simp only [Thrdq.tpoolTake, ha, Bool.false_eq_true, if_false] at hnone ⊢
  exact takeLoop_sendq now q.sendq q.recvq hnone

theorem Awake.workLoop (h : Awake heard sys) (hi : sys.pool.slots[i]? = some slot) :
    Awake heard (sys.workLoop i slot) := by
  simp only [System.workLoop]
  by_cases haborted : sys.pool.aborted = true
  · rw [if_pos haborted]
    refine h.slotDone hi fun _ ha => ?_
    rw [h.aborted haborted] at ha
    cases ha
  · rw [if_neg haborted]
    have hq := sys.queue.tpoolTake_drained sys.now
    have h1 := h.withQueue hq
    split
    · rename_i item _
      have hok : Slot.Ok { slot with pc := .processing item, idle := false, started := true } :=
        ⟨rfl, rfl⟩
      have h2 := h1.setSlot hi hok (fun _ _ _ => rfl) fun _ => rfl
      exact ⟨h2.ok, h2.max, h2.aborted, h2.final, h2.served, h2.destroy⟩
    · rename_i hitem
      have hempty : slot.active = true → (sys.queue.tpoolTake sys.now).2.aborted = false →
          (sys.queue.tpoolTake sys.now).2.sendq = [] := by
        intro _ ha
        exact tpoolTake_sendq _ _ hitem (hq.aborted.symm.trans ha)
      split
      · exact h1.slotDone hi hempty
      · exact h1.goIdle hi hempty rfl rfl

theorem Awake.worker (h : Awake heard sys) (hstep : sys.worker i = some sys') :
    Awake heard sys' := by
  obtain ⟨slot, hi, hstep⟩ := Option.bind_eq_some_iff.mp hstep
  have hok := h.ok slot (List.mem_of_getElem? hi)
  cases hpc : slot.pc with
  | starting | signalled =>
    rw [hpc] at hstep
    cases hstep
    exact h.workLoop hi
  | processing item =>
    rw [hpc] at hstep
    cases hstep
    exact Awake.workLoop (h.withQueue (sys.queue.tpoolReturn_drained _ _)) hi
  | joining zombie =>
    rw [hpc] at hstep
    cases hstep
    refine h.goIdle hi ?_ ?_ ?_
    · simp [Slot.active, hpc]
    · simpa [Slot.Ok, hpc] using hok.1
    · simpa [Slot.Ok, hpc] using hok.2
  | waiting timed =>
    rw [hpc] at hstep
    cases hstep
  | timedOut =>
    simp only [hpc] at hstep
    split at hstep
    · cases hstep
      exact h.slotDone hi (by simp [Slot.active, hpc])
    · cases hstep
      exact h.workLoop hi

theorem Awake.timeout (h : Awake heard sys) (hstep : sys.timeout i = some sys') :
    Awake heard sys' := by
  obtain ⟨slot, hi, hstep⟩ := Option.bind_eq_some_iff.mp hstep
  have hok := h.ok slot (List.mem_of_getElem? hi)
  split at hstep
  · rename_i hpc
    cases hstep
    refine h.setSlot hi ?_ ?_ fun _ => rfl
    · simpa [Slot.Ok, hpc] using hok
    · simp [Slot.active, hpc]
  · cases hstep

/-- A call goes on; if it is about to signal threads, they hear it. -/
theorem Awake.caller {limit : Option Nat} (h : Awake heard sys)
    (hheard : heard → sys.heard (.caller i limit) = true)
    (hstep : sys.caller i limit = some sys') : Awake heard sys' := by
  obtain ⟨caller, hi, rfl⟩ := Option.map_eq_some_iff.mp hstep
  have hroused := callerStep_roused sys.pool limit caller
  refine ⟨hroused.ok h.ok, hroused.max h.max, ?_, h.final, fun hb ha hs => ?_, fun hd => ?_⟩
  · rw [hroused.aborted]
    exact h.aborted
  · by_cases hrouses : caller.rouses = true
    · -- it goes on to join another thread, or it signals
      have hsignal (n : Nat) (hn : n ≠ 0)
          (hall : sys.pool.joinZombies.1.isSome || limit.isNone && sys.pool.slots.all Slot.hears) :
          (∃ c ∈ (callerStep sys.pool limit (.signal n)).1, c.rouses = true) ∨
          ∃ slot ∈ (callerStep sys.pool limit (.signal n)).2.slots, slot.active = true := by
        obtain ⟨hslots, -, -, hmax⟩ := sys.pool.joinZombies_slots
        unfold callerStep Pool.joinThenSignal
        generalize hj : sys.pool.joinZombies = j at hslots hmax hall
        obtain ⟨_ | zombie, p⟩ := j
        · obtain ⟨rfl, hears⟩ : limit = none ∧ ∀ slot ∈ p.slots, slot.hears = true := by
            rw [hslots]
            simpa using hall
          right
          exact signal_active (by rw [hslots]; exact h.ok) hears hn (by rw [hmax]; exact h.max)
        · exact .inl ⟨_, List.mem_singleton_self _, by simpa [Caller.rouses] using hn⟩
      have hres : (∃ c ∈ (callerStep sys.pool limit caller).1, c.rouses = true) ∨
          ∃ slot ∈ (callerStep sys.pool limit caller).2.slots, slot.active = true := by
        have hheard := hheard hb
        simp only [System.heard, hi] at hheard
        cases caller with
        | signal n | signalJoining n z =>
          exact hsignal n (by simpa [Caller.rouses] using hrouses) hheard
        | props _ _ _ _ | propsJoining _ _ _ => simp [Caller.rouses] at hrouses
      rcases hres with ⟨c, hc, hcr⟩ | hact
      · exact .inl ⟨c, List.mem_append_right _ hc, hcr⟩
      · exact .inr hact
    · rcases h.served hb ha hs with ⟨c, hc, hcr⟩ | ⟨slot, hin, hact⟩
      · obtain ⟨j, hj⟩ := List.mem_iff_getElem?.mp hc
        have hij : j ≠ i := by
          rintro rfl
          rw [hi] at hj
          cases hj
          exact hrouses hcr
        exact .inl ⟨c, List.mem_append_left _ (List.mem_eraseIdx_iff_getElem?.mpr ⟨j, hij, hj⟩),
          hcr⟩
      · exact .inr (hroused.active hin hact)
  · obtain ⟨ha, hne, hall⟩ := h.destroy hd
    refine ⟨hroused.aborted.trans ha, ?_, fun slot' hin => ?_⟩
    · obtain ⟨⟨base, extra, hslots, hbase, -⟩, -⟩ := hroused
      intro hnil
      dsimp only at hnil
      rw [hslots, List.append_eq_nil_iff] at hnil
      exact hne (List.length_eq_zero_iff.mp (by rw [hbase.length_eq, hnil.1]; rfl))
    · rcases hroused.mem hin with ⟨slot, hin0, hs⟩ | ⟨hpc, -⟩
      · rcases hs with rfl | rfl
        · exact hall slot' hin0
        · have := hall slot hin0
          cases hpc : slot.pc <;> simp_all [Slot.signal, Slot.waits]
      · simp [Slot.waits, hpc]

theorem Awake.afterJoin (h : Awake heard sys) (hq : sys.queue.aborted = true) (join : Bool) :
    Awake heard (sys.afterJoin join) := by
  obtain ⟨hslots, haborted, -, hmax⟩ := sys.pool.joinZombies_slots
  have h1 := h.withPool hslots hmax haborted
  unfold System.afterJoin
  generalize sys.pool.joinZombies = j at h1
  obtain ⟨_ | zombie, p⟩ := j
  · exact ⟨h1.ok, h1.max, h1.aborted, fun _ => hq, h1.served, by simp⟩
  · exact ⟨h1.ok, h1.max, h1.aborted, fun _ => hq, h1.served, by simp⟩

theorem Awake.destroyerStep (h : Awake heard sys)
    (hstep : sys.destroyerStep = some sys') : Awake heard sys' := by
  cases hd : sys.destroyer with
  | none =>
    simp [System.destroyerStep, hd] at hstep
  | some d =>
    obtain ⟨join, phase⟩ := d
    have hq : sys.queue.aborted = true := h.final (by simp [hd])
    have hserved : sys.queue.aborted = false → False := fun ha => by
      rw [hq] at ha
      cases ha
    simp only [System.destroyerStep, hd] at hstep
    have h1 : Awake heard { sys with pool := { sys.pool with aborted := true } } :=
      ⟨h.ok, h.max, fun _ => hq, h.final, fun _ ha => (hserved ha).elim, fun hw => by
        obtain ⟨-, hne, hall⟩ := h.destroy hw
        exact ⟨rfl, hne, hall⟩⟩
    cases phase with
    | queueAborted | woken =>
      dsimp only at hstep
      split at hstep
      · rename_i hcond
        cases hstep
        obtain ⟨-, hne⟩ := Bool.and_eq_true_iff.mp hcond
        refine ⟨fun slot' hin => ?_, h.max, fun _ => hq, fun _ => hq, fun _ ha => (hserved ha).elim,
          fun _ => ⟨rfl, by simpa using hne, fun slot' hin => ?_⟩⟩
        · obtain ⟨slot, hin0, rfl⟩ := List.mem_map.mp hin
          exact (h.ok slot hin0).signal
        · obtain ⟨slot, hin0, rfl⟩ := List.mem_map.mp hin
          cases hpc : slot.pc <;> simp [Slot.signal, Slot.waits, hpc]
      · cases hstep
        exact h1.afterJoin hq join
    | waiting | returned => cases hstep
    | joining zombie =>
      cases hstep
      exact h.afterJoin hq join
    | poolDestroyed =>
      cases hstep
      exact ⟨h.ok, h.max, h.aborted, fun _ => hq, fun _ ha => (hserved ha).elim, by simp⟩

theorem Awake.step (h : Awake heard sys) {action : Action} (hheard : heard →
    sys.heard action = true) (hstep : sys.step action = some sys') : Awake heard sys' := by
  cases action with
  | tick ms =>
    cases hstep
    exact ⟨h.ok, h.max, h.aborted, h.final, h.served, h.destroy⟩
  | send timeoutMs =>
    obtain rfl | ⟨-, item, -, rfl⟩ := System.send_step hstep
    · exact h
    · refine ⟨h.ok, h.max, h.aborted, h.final, fun hb ha _ => ?_, h.destroy⟩
      by_cases hmod : (sys.queue.sendq.length + 1) % 2 ^ 32 = 0
      · -- with so many items queued somebody was awake before
        have hne : sys.queue.sendq ≠ [] := by
          intro hnil
          simp [hnil] at hmod
        rcases h.served hb ha hne with ⟨c, hc, hcr⟩ | hact
        · exact .inl ⟨c, List.mem_append_left _ hc, hcr⟩
        · exact .inr hact
      · left
        refine ⟨.signal ((sys.queue.sendq.length + 1) % 2 ^ 32), ?_, ?_⟩
        · simp
        · simpa [Caller.rouses] using hmod
  | recv =>
    obtain ⟨-, ⟨⟩⟩ := Option.ite_none_left_eq_some.mp hstep
    exact h.withQueue sys.queue.recv_drained
  | clear fnMatch =>
    obtain ⟨-, ⟨⟩⟩ := Option.ite_none_left_eq_some.mp hstep
    exact h.withQueue (sys.queue.clear_drained fnMatch)
  | setProps maxLen minThreads maxThreads idleTimeMs =>
    obtain ⟨-, ⟨⟩⟩ := Option.ite_none_left_eq_some.mp hstep
    refine ⟨h.ok, h.max, h.aborted, h.final, fun hb ha hs => ?_, h.destroy⟩
    rcases h.served hb ha hs with ⟨c, hc, hcr⟩ | hact
    · exact .inl ⟨c, List.mem_append_left _ hc, hcr⟩
    · exact .inr hact
  | caller i limit => exact h.caller hheard hstep
  | worker i => exact h.worker hstep
  | timeout i => exact h.timeout hstep
  | destroy join =>
    obtain ⟨-, ⟨⟩⟩ := Option.ite_none_left_eq_some.mp hstep
    exact ⟨h.ok, h.max, fun _ => rfl, fun _ => rfl, fun _ ha => Bool.noConfusion ha, by simp⟩
  | destroyer => exact h.destroyerStep hstep

theorem create_awake {maxLen minThreads maxThreads idleTimeMs : Nat}
    (h : create maxLen minThreads maxThreads idleTimeMs = some sys) : Awake heard sys := by
  unfold create at h
  split at h
  · cases h
  · rename_i hvalid
    cases h
    have hroused := Pool.signal_roused
      ⟨[], [], minThreads, maxThreads, idleTimeMs, 0, false, false⟩ none minThreads
    refine ⟨hroused.ok (by simp), hroused.max (by dsimp only; omega), ?_, by simp, by simp, by simp⟩
    rw [hroused.aborted]
    simp

/-- The end of the pool is never waited for in vain, and in a run whose signals are all heard no
item is left to nobody. -/
theorem wakeups (maxLen minThreads maxThreads idleTimeMs : Nat) (sys : System)
    (hcreate : create maxLen minThreads maxThreads idleTimeMs = some sys) :
    (∀ actions sys', Runs.exec System.step sys actions = some sys' → ¬sys'.Hung) ∧
      ∀ actions sys', Runs.exec System.heardStep sys actions = some sys' →
        ¬sys'.Starved ∧ ¬sys'.Hung := by
  refine ⟨fun actions sys' hrun => ?_, fun actions sys' hrun => ?_⟩
  · have h : Awake False sys' := (Runs.Reach.of_exec hrun).invariant (create_awake hcreate)
      fun _ h hstep => h.step False.elim hstep
    exact h.not_hung
  · have h : Awake True sys' := (Runs.Reach.of_exec hrun).invariant (create_awake hcreate)
      fun {t a t'} _ h hstep => by
        unfold System.heardStep at hstep
        split at hstep
        · rename_i hheard
          exact h.step (fun _ => hheard) hstep
        · cases hstep
    exact ⟨h.not_starved, h.not_hung⟩

end

/-- A pool of one thread at least and two at most. -/
def samplePool : System :=
  ⟨0, ⟨[], [], 0, false, [], [], []⟩,
    ⟨[⟨0, .starting, false, false⟩], [], 1, 2, 10, 1, false, false⟩, [], none, []⟩

/-- Two items are sent and done by two threads, and the second thread leaves when its wait times
out. The first one joins it before it waits. -/
def sampleRun : List Action :=
  [.send 0, .caller 0 none, .send 0, .caller 0 none, .worker 0, .worker 1, .worker 1,
    .timeout 1, .worker 1, .worker 0]

theorem wakeups_sample :
    ∃ sys, Runs.exec System.heardStep samplePool
        (sampleRun ++ [.worker 0, .send 0, .caller 0 none, .worker 0, .worker 0,
          .destroy true, .destroyer, .worker 0, .destroyer]) = some sys ∧
      (¬sys.Starved ∧ ¬sys.Hung) ∧ sys.pool.slots = [] := by
  have hrun : (Runs.exec System.heardStep samplePool
      (sampleRun ++ [.worker 0, .send 0, .caller 0 none, .worker 0, .worker 0,
        .destroy true, .destroyer,
        .worker 0, .destroyer])).map (fun sys => sys.pool.slots) = some [] := by
    decide +kernel
  obtain ⟨sys, hsys, hslots⟩ := Option.map_eq_some_iff.mp hrun
  have hheard := (wakeups 0 1 2 10 samplePool (by decide +kernel)).2 _ sys hsys
  exact ⟨sys, hsys, hheard, hslots⟩

/-- The signal to a thread that joins another one is missed, and an item is left in the queue. So is
the signal to a thread whose wait has just timed out. -/
theorem signals_missed : create 0 1 2 10 = some samplePool ∧
    (∃ sys, Runs.exec System.step samplePool
      (sampleRun ++ [.send 0, .caller 0 none, .worker 0]) = some sys ∧ sys.Starved) ∧
    ∃ sys, Runs.exec System.step samplePool
      [.send 0, .caller 0 none, .send 0, .caller 0 none, .worker 0, .worker 1, .worker 0,
        .worker 1, .timeout 0, .send 0, .caller 0 none, .worker 0] = some sys ∧ sys.Starved := by
  have hfind {actions : List Action} {P : System → Prop} [DecidablePred P]
      (h : (Runs.exec System.step samplePool actions).any (fun sys => P sys) = true) :
      ∃ sys, Runs.exec System.step samplePool actions = some sys ∧ P sys := by
    obtain ⟨sys, hsys, hP⟩ := (Option.any_eq_true _ _).mp h
    exact ⟨sys, hsys, of_decide_eq_true hP⟩
  exact ⟨by decide +kernel, hfind (by decide +kernel), hfind (by decide +kernel)⟩

end Gurl.Threads
