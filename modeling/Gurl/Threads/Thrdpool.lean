import Gurl.Curlcode

/-! A queue of work for threads, `lib/thrdqueue.c`: what is done under `tqueue->lock`, with memory
always granted. The ledger of the items is kept beside the two lists. -/

namespace Gurl.Threads

/-- An item with its `struct thrdq_item`; `id` tells it from the others. -/
structure Item where
  id : Nat
  start : Nat
  timeoutMs : Int
  deriving DecidableEq

/-- The item has timed out. -/
def Item.expired (item : Item) (now : Nat) : Bool :=
  decide ((if item.timeoutMs = 0 then 0 else item.timeoutMs - ((now : Int) - item.start)) < 0)

/-- `struct curl_thrdq`. In `accepted` are the items of the sends that returned `CURLE_OK`, in
`received` those that `Curl_thrdq_recv` gave out, in `freed` the calls of `fn_free`. -/
structure Thrdq where
  sendq : List Item
  recvq : List Item
  sendMaxLen : Nat
  aborted : Bool
  accepted : List Item
  received : List Item
  freed : List Item
  deriving DecidableEq

/-- `Curl_thrdq_send` up to the release of the lock, with the number of threads to signal then. -/
def Thrdq.send (q : Thrdq) (now : Nat) (timeoutMs : Int) : Curlcode × Nat × Thrdq :=
  if q.aborted then (.sendError, 0, q)
  else if timeoutMs < 0 then (.operationTimedout, 0, q)
  else if q.sendMaxLen = 0 ∨ q.sendq.length < q.sendMaxLen then
    let item : Item := ⟨q.accepted.length, if timeoutMs = 0 then 0 else now, timeoutMs⟩
    let q := { q with sendq := q.sendq ++ [item], accepted := q.accepted ++ [item] }
    (.ok, q.sendq.length, q)
  else (.again, 0, q)

/-- `Curl_thrdq_recv`. -/
def Thrdq.recv (q : Thrdq) : Curlcode × Thrdq :=
  if q.aborted then (.recvError, q)
  else match q.recvq with
    | item :: rest => (.ok, { q with recvq := rest, received := q.received ++ [item] })
    | [] => (.again, q)

/-- `thrdq_llist_clean_matches`: what is left, and what is freed. -/
def cleanMatches (fnMatch : Item → Bool) (list : List Item) : List Item × List Item :=
  (list.filter fun item => !fnMatch item, list.filter fnMatch)

/-- `Curl_thrdq_clear`. -/
def Thrdq.clear (q : Thrdq) (fnMatch : Item → Bool) : Thrdq :=
  if q.aborted then q
  else
    let (sendq, freedS) := cleanMatches fnMatch q.sendq
    let (recvq, freedR) := cleanMatches fnMatch q.recvq
    { q with sendq, recvq, freed := q.freed ++ freedS ++ freedR }

/-- The loop of `thrdq_tpool_take`: the first item that has not timed out; those before it go to the
receive queue. -/
def takeLoop (now : Nat) : List Item → List Item → Option Item × List Item × List Item
  | [], recvq => (none, [], recvq)
  | item :: rest, recvq =>
    if item.expired now then takeLoop now rest (recvq ++ [item]) else (some item, rest, recvq)

/-- `thrdq_tpool_take`. -/
def Thrdq.tpoolTake (q : Thrdq) (now : Nat) : Option Item × Thrdq :=
  if q.aborted then (none, q)
  else
    let (item, sendq, recvq) := takeLoop now q.sendq q.recvq
    (item, { q with sendq, recvq })

/-- `thrdq_tpool_return`; `gone` if it is called without the queue. -/
def Thrdq.tpoolReturn (q : Thrdq) (item : Item) (gone : Bool) : Thrdq :=
  if gone || q.aborted then { q with freed := q.freed ++ [item] }
  else { q with recvq := q.recvq ++ [item] }

/-- What `thrdq_unlink` does to the lists. -/
def Thrdq.destroyLists (q : Thrdq) : Thrdq :=
  { q with sendq := [], recvq := [], freed := q.freed ++ q.sendq.reverse ++ q.recvq.reverse }

/-- A call that queues no item. -/
structure Thrdq.Drained (q q' : Thrdq) : Prop where
  aborted : q'.aborted = q.aborted
  accepted : q'.accepted = q.accepted
  sendq : q'.sendq ⊆ q.sendq

theorem Thrdq.recv_drained (q : Thrdq) : q.Drained q.recv.2 := by
  unfold Thrdq.recv
  split
  · exact ⟨rfl, rfl, .refl _⟩
  · split <;> exact ⟨rfl, rfl, .refl _⟩

theorem Thrdq.clear_drained (q : Thrdq) (fnMatch : Item → Bool) : q.Drained (q.clear fnMatch) := by
  unfold Thrdq.clear
  split
  · exact ⟨rfl, rfl, .refl _⟩
  · exact ⟨rfl, rfl, List.filter_sublist.subset⟩

theorem takeLoop_subset (now : Nat) (sendq recvq : List Item) :
    (takeLoop now sendq recvq).2.1 ⊆ sendq := by
  induction sendq generalizing recvq with
  | nil => exact .refl _
  | cons item rest ih =>
    unfold takeLoop
    split
    · exact List.subset_cons_of_subset _ (ih _)
    · exact List.subset_cons_self _ _

theorem Thrdq.tpoolTake_drained (q : Thrdq) (now : Nat) : q.Drained (q.tpoolTake now).2 := by
  unfold Thrdq.tpoolTake
  split
  · exact ⟨rfl, rfl, .refl _⟩
  · exact ⟨rfl, rfl, takeLoop_subset now q.sendq q.recvq⟩

theorem Thrdq.tpoolReturn_drained (q : Thrdq) (item : Item) (gone : Bool) :
    q.Drained (q.tpoolReturn item gone) := by
  unfold Thrdq.tpoolReturn
  split <;> exact ⟨rfl, rfl, .refl _⟩

/-- A send that is accepted appends its item, and a send that is not leaves the queue alone. -/
theorem Thrdq.send_cases (q : Thrdq) (now : Nat) (timeoutMs : Int) :
    (∃ result, result ≠ .ok ∧ q.send now timeoutMs = (result, 0, q)) ∨
      q.aborted = false ∧ 0 ≤ timeoutMs ∧
        (q.sendMaxLen = 0 ∨ q.sendq.length < q.sendMaxLen) ∧
        ∃ item : Item, item.id = q.accepted.length ∧ item.timeoutMs = timeoutMs ∧
          q.send now timeoutMs = (.ok, q.sendq.length + 1,
            { q with sendq := q.sendq ++ [item], accepted := q.accepted ++ [item] }) := by
  by_cases ha : q.aborted = true
  · exact .inl ⟨.sendError, by simp, by simp [Thrdq.send, ha]⟩
  · by_cases htime : timeoutMs < 0
    · exact .inl ⟨.operationTimedout, by simp, by simp [Thrdq.send, ha, htime]⟩
    · by_cases hroom : q.sendMaxLen = 0 ∨ q.sendq.length < q.sendMaxLen
      · right
        refine ⟨by simpa using ha, by omega, hroom,
          ⟨q.accepted.length, if timeoutMs = 0 then 0 else now, timeoutMs⟩, rfl, rfl, ?_⟩
        simp only [Thrdq.send, ha, htime, hroom, Bool.false_eq_true, if_true, if_false,
          List.length_append, List.length_singleton]
      · exact .inl ⟨.again, by simp, by simp [Thrdq.send, ha, htime, hroom]⟩

/-! The threads that work on a queue, `lib/thrdpool.c`, with their queue. What is done between
taking `tpool->lock` and releasing it or waiting is one step, and so is what is done under
`tqueue->lock` alone. `Curl_thrdq_destroy` is the last call, made when no other is under way. -/

/-- Where a thread is when it does not hold `tpool->lock`. -/
inductive Pc
  | starting
  | processing (item : Item)
  /-- In `thrdpool_join_zombies`, for the thread of a slot that is done. -/
  | joining (zombie : Nat)
  | waiting (timed : Bool)
  /-- Its `await` was signalled. -/
  | signalled
  /-- Its wait returned `CURLE_OPERATION_TIMEDOUT`. -/
  | timedOut
  deriving DecidableEq

/-- `struct thrdslot`; `started` if `starttime` is set. -/
structure Slot where
  id : Nat
  pc : Pc
  idle : Bool
  started : Bool
  deriving DecidableEq

/-- `struct curl_thrdpool`. -/
structure Pool where
  slots : List Slot
  zombies : List Nat
  minThreads : Nat
  maxThreads : Nat
  idleTimeMs : Nat
  nextId : Nat
  aborted : Bool
  detached : Bool
  deriving DecidableEq

/-- A call that is under way, in `Curl_thrdpool_signal` or `Curl_thrdpool_set_props`. -/
inductive Caller
  | signal (nthreads : Nat)
  | signalJoining (nthreads zombie : Nat)
  | props (minThreads maxThreads idleTimeMs signals : Nat)
  | propsJoining (nthreads signals zombie : Nat)
  deriving DecidableEq

/-- How far `Curl_thrdq_destroy` is. -/
inductive Phase
  | queueAborted
  | waiting
  /-- `tpool->await` was signalled. -/
  | woken
  | joining (zombie : Nat)
  | poolDestroyed
  | returned
  deriving DecidableEq

/-- The queue, its pool, the calls under way and the final `Curl_thrdq_destroy`, with its `join`. In
`processed` are the calls of `fn_process`: the slot, the item and when it was taken. -/
structure System where
  now : Nat
  queue : Thrdq
  pool : Pool
  callers : List Caller
  destroyer : Option (Bool × Phase)
  processed : List (Nat × Item × Nat)
  deriving DecidableEq

/-- `Curl_cond_signal` on a slot's `await`. -/
def Slot.signal (slot : Slot) : Slot :=
  match slot.pc with
  | .waiting _ => { slot with pc := .signalled }
  | _ => slot

/-- The first loop of `thrdpool_signal`, with the threads still needed. -/
def signalSlots : Nat → List Slot → Nat × List Slot
  | nthreads, [] => (nthreads, [])
  | 0, slots => (0, slots)
  | n + 1, slot :: rest =>
    if slot.idle then
      let (n, rest) := signalSlots n rest
      (n, slot.signal :: rest)
    else if !slot.started then
      let (n, rest) := signalSlots n rest
      (n, slot :: rest)
    else
      let (n, rest) := signalSlots (n + 1) rest
      (n, slot :: rest)

/-- `thrdslot_start`. -/
def Pool.start (p : Pool) : Pool :=
  { p with slots := p.slots ++ [⟨p.nextId, .starting, false, false⟩], nextId := p.nextId + 1 }

/-- The second loop of `thrdpool_signal`, with whether it was without error: `limit` tells how many
threads can be created, `none` if there is no limit. -/
def startSlots : Option Nat → Nat → Pool → Bool × Pool
  | _, 0, p => (true, p)
  | limit, n + 1, p =>
    if p.slots.length < p.maxThreads then
      -- a thread that is not created uses up its number
      if limit = some 0 then (false, { p with nextId := p.nextId + 1 })
      else startSlots (limit.map (· - 1)) n p.start
    else (true, p)

/-- `thrdpool_signal`, when there is no zombie. -/
def Pool.signal (p : Pool) (limit : Option Nat) (nthreads : Nat) : Bool × Pool :=
  let (n, slots) := signalSlots nthreads p.slots
  startSlots limit n { p with slots }

/-- `thrdpool_join_zombies` up to the join of a thread, if it comes to that. -/
def Pool.joinZombies (p : Pool) : Option Nat × Pool :=
  if p.detached then (none, { p with zombies := [] })
  else match p.zombies with
    | [] => (none, p)
    | zombie :: rest => (some zombie, { p with zombies := rest })

/-- `Curl_cond_signal` on `tpool->await`. -/
def System.signalAwait (sys : System) : System :=
  match sys.destroyer with
  | some (join, .waiting) => { sys with destroyer := some (join, .woken) }
  | _ => sys

/-- `thrdslot_done` for the `i`-th slot. -/
def System.slotDone (sys : System) (i : Nat) (slot : Slot) : System :=
  System.signalAwait { sys with pool := { sys.pool with
    slots := sys.pool.slots.eraseIdx i, zombies := sys.pool.zombies ++ [slot.id] } }

def System.setSlot (sys : System) (i : Nat) (slot : Slot) : System :=
  { sys with pool := { sys.pool with slots := sys.pool.slots.set i slot } }

/-- `thrdslot_run` from `thrdpool_join_zombies` on: the `i`-th slot is idle. -/
def System.goIdle (sys : System) (i : Nat) (slot : Slot) : System :=
  let (zombie, pool) := sys.pool.joinZombies
  let sys := { sys with pool }
  match zombie with
  | some zombie => sys.setSlot i { slot with pc := .joining zombie }
  | none =>
    let timed := decide (0 < pool.idleTimeMs ∧ pool.minThreads < pool.slots.length)
    sys.signalAwait.setSlot i { slot with pc := .waiting timed }

/-- The loop of `thrdslot_run` from its head on. -/
def System.workLoop (sys : System) (i : Nat) (slot : Slot) : System :=
  if sys.pool.aborted then sys.slotDone i slot
  else
    let (item, queue) := sys.queue.tpoolTake sys.now
    let sys := { sys with queue }
    match item with
    | some item =>
      { sys.setSlot i { slot with pc := .processing item, idle := false, started := true } with
        processed := sys.processed ++ [(slot.id, item, sys.now)] }
    | none =>
      if sys.pool.maxThreads < sys.pool.slots.length then sys.slotDone i slot
      else sys.goIdle i { slot with idle := true, started := true }

/-- A step of the thread of the `i`-th slot, which takes `tpool->lock` in it. -/
def System.worker (sys : System) (i : Nat) : Option System :=
  (sys.pool.slots[i]?).bind fun slot =>
    match slot.pc with
    | .starting => some (sys.workLoop i slot)
    | .processing item =>
      some (System.workLoop
        { sys with queue := sys.queue.tpoolReturn item sys.pool.aborted } i slot)
    | .joining _ => some (sys.goIdle i slot)
    | .waiting _ => none
    | .signalled => some (sys.workLoop i slot)
    | .timedOut =>
      if sys.pool.minThreads < sys.pool.slots.length then some (sys.slotDone i slot)
      else some (sys.workLoop i slot)

/-- The wait of the `i`-th slot times out. -/
def System.timeout (sys : System) (i : Nat) : Option System :=
  (sys.pool.slots[i]?).bind fun slot =>
    if slot.pc = .waiting true then some (sys.setSlot i { slot with pc := .timedOut }) else none

/-- `thrdpool_signal`: a thread to join first, or what it does to the slots. -/
def Pool.joinThenSignal (p : Pool) (limit : Option Nat) (nthreads : Nat) :
    Option Nat × Bool × Pool :=
  match p.joinZombies with
  | (some zombie, p) => (some zombie, true, p)
  | (none, p) => (none, p.signal limit nthreads)

/-- The end of `Curl_thrdpool_set_props`, and the start of the signals of `Curl_thrdq_set_props`. -/
def afterProps (ok : Bool) (signals : Nat) : List Caller :=
  if ok = false ∨ signals = 0 then [] else [.signal (signals % 2 ^ 32)]

/-- A step of a call, which takes `tpool->lock` in it, and the calls that are left of it. -/
def callerStep (p : Pool) (limit : Option Nat) : Caller → List Caller × Pool
  | .signal nthreads | .signalJoining nthreads _ =>
    match p.joinThenSignal limit nthreads with
    | (some zombie, _, p) => ([.signalJoining nthreads zombie], p)
    | (none, _, p) => ([], p)
  | .props minThreads maxThreads idleTimeMs signals =>
    if maxThreads = 0 ∨ maxThreads < minThreads then ([], p)
    else
      let p := { p with minThreads, maxThreads, idleTimeMs }
      if p.slots.length < minThreads then
        let nthreads := minThreads - p.slots.length
        match p.joinThenSignal limit nthreads with
        | (some zombie, _, p) => ([.propsJoining nthreads signals zombie], p)
        | (none, ok, p) => (afterProps ok signals, p)
      else (afterProps true signals, p)
  | .propsJoining nthreads signals _ =>
    match p.joinThenSignal limit nthreads with
    | (some zombie, _, p) => ([.propsJoining nthreads signals zombie], p)
    | (none, ok, p) => (afterProps ok signals, p)

def System.caller (sys : System) (i : Nat) (limit : Option Nat) : Option System :=
  (sys.callers[i]?).map fun caller =>
    let (callers, pool) := callerStep sys.pool limit caller
    { sys with pool, callers := sys.callers.eraseIdx i ++ callers }

/-- `Curl_thrdpool_destroy` after its loop, up to the join of a thread. -/
def System.afterJoin (sys : System) (join : Bool) : System :=
  match sys.pool.joinZombies with
  | (some zombie, pool) => { sys with pool, destroyer := some (join, .joining zombie) }
  | (none, pool) =>
    { sys with pool := { pool with detached := !pool.slots.isEmpty }
               destroyer := some (join, .poolDestroyed) }

/-- A step of `Curl_thrdq_destroy`. -/
def System.destroyerStep (sys : System) : Option System :=
  match sys.destroyer with
  | some (join, .queueAborted) | some (join, .woken) =>
    let sys := { sys with pool := { sys.pool with aborted := true } }
    if join && !sys.pool.slots.isEmpty then
      some { sys with pool := { sys.pool with slots := sys.pool.slots.map Slot.signal }
                      destroyer := some (join, .waiting) }
    else some (sys.afterJoin join)
  | some (join, .joining _) => some (sys.afterJoin join)
  | some (join, .poolDestroyed) =>
    some { sys with queue := sys.queue.destroyLists, destroyer := some (join, .returned) }
  | some (_, .waiting) | some (_, .returned) | none => none

inductive Action
  | tick (ms : Nat)
  | send (timeoutMs : Int)
  | recv
  | clear (fnMatch : Item → Bool)
  | setProps (maxLen minThreads maxThreads idleTimeMs : Nat)
  | caller (i : Nat) (limit : Option Nat)
  | worker (i : Nat)
  | timeout (i : Nat)
  | destroy (join : Bool)
  | destroyer

def System.step (sys : System) : Action → Option System
  | .tick ms => some { sys with now := sys.now + ms }
  | .send timeoutMs =>
    if sys.destroyer.isSome then none
    else
      let (result, signals, queue) := sys.queue.send sys.now timeoutMs
      some { sys with queue, callers := sys.callers ++
        if result = .ok ∧ signals ≠ 0 then [.signal (signals % 2 ^ 32)] else [] }
  | .recv => if sys.destroyer.isSome then none else some { sys with queue := sys.queue.recv.2 }
  | .clear fnMatch =>
    if sys.destroyer.isSome then none else some { sys with queue := sys.queue.clear fnMatch }
  | .setProps maxLen minThreads maxThreads idleTimeMs =>
    if sys.destroyer.isSome then none
    else some { sys with
      queue := { sys.queue with sendMaxLen := maxLen }
      callers := sys.callers ++
        [.props minThreads maxThreads idleTimeMs sys.queue.sendq.length] }
  | .caller i limit => sys.caller i limit
  | .worker i => sys.worker i
  | .timeout i => sys.timeout i
  | .destroy join =>
    if sys.destroyer.isSome ∨ sys.callers ≠ [] then none
    else some { sys with
      queue := { sys.queue with aborted := true }
      destroyer := some (join, .queueAborted) }
  | .destroyer => sys.destroyerStep

/-- A send that is accepted appends its item and signals the pool, another changes nothing. -/
theorem System.send_step {sys sys' : System} {timeoutMs : Int}
    (hstep : sys.step (.send timeoutMs) = some sys') :
    sys' = sys ∨ (sys.queue.sendMaxLen = 0 ∨ sys.queue.sendq.length < sys.queue.sendMaxLen) ∧
      ∃ item : Item, item.id = sys.queue.accepted.length ∧ sys' = { sys with
        queue := { sys.queue with
          sendq := sys.queue.sendq ++ [item], accepted := sys.queue.accepted ++ [item] }
        callers := sys.callers ++ [.signal ((sys.queue.sendq.length + 1) % 2 ^ 32)] } := by
  simp only [System.step, Option.ite_none_left_eq_some] at hstep
  obtain ⟨result, hresult, heq⟩ | ⟨-, -, hroom, item, hid, -, heq⟩ :=
    sys.queue.send_cases sys.now timeoutMs
  · left
    simp only [heq, hresult, false_and, if_false, List.append_nil, Option.some.injEq] at hstep
    exact hstep.2.symm
  · right
    refine ⟨hroom, item, hid, ?_⟩
    simpa [heq, eq_comm] using hstep.2

/-- `Curl_thrdq_create`, where all threads can be created. -/
def create (maxLen minThreads maxThreads idleTimeMs : Nat) : Option System :=
  if maxThreads = 0 ∨ maxThreads < minThreads then none
  else
    let pool : Pool := ⟨[], [], minThreads, maxThreads, idleTimeMs, 0, false, false⟩
    some ⟨0, ⟨[], [], maxLen, false, [], [], []⟩, (pool.signal none minThreads).2, [], none, []⟩

/-! What signals do to the slots of a pool: the threads that wait are woken, others are started. -/

/-- The thread will ask for work before it waits or leaves. -/
def Slot.active (slot : Slot) : Bool :=
  match slot.pc with
  | .starting | .processing _ | .signalled => true
  | .joining _ | .waiting _ | .timedOut => false

/-- The flags of a slot tell where its thread is. -/
def Slot.Ok (slot : Slot) : Prop :=
  (slot.idle = match slot.pc with
    | .starting | .processing _ => false
    | _ => true) ∧
  (slot.started = match slot.pc with
    | .starting => false
    | _ => true)

/-- A slot that was not touched, or signalled. -/
def Slot.MaySignal (slot slot' : Slot) : Prop := slot' = slot ∨ slot' = slot.signal

theorem Slot.Ok.signal {slot : Slot} (h : slot.Ok) : slot.signal.Ok := by
  unfold Slot.signal
  split
  · rename_i timed hpc
    simpa [Slot.Ok, hpc] using h
  · exact h

theorem Slot.active_signal {slot : Slot} (h : slot.active) : slot.signal.active := by
  unfold Slot.signal
  split
  · rfl
  · exact h

theorem Slot.Ok.of_maySignal {slot slot' : Slot} (h : slot.Ok) (hs : slot.MaySignal slot') :
    slot'.Ok := by
  rcases hs with rfl | rfl
  · exact h
  · exact h.signal

theorem Slot.active_of_maySignal {slot slot' : Slot} (h : slot.active) (hs : slot.MaySignal slot') :
    slot'.active := by
  rcases hs with rfl | rfl
  · exact h
  · exact Slot.active_signal h

theorem signalSlots_forall₂ (n : Nat) (slots : List Slot) :
    List.Forall₂ Slot.MaySignal slots (signalSlots n slots).2 := by
  induction slots generalizing n with
  | nil => exact .nil
  | cons slot rest ih =>
    cases n with
    | zero => exact List.forall₂_same.mpr fun _ _ => .inl rfl
    | succ n =>
      unfold signalSlots
      split
      · exact .cons (.inr rfl) (ih n)
      · split
        · exact .cons (.inl rfl) (ih n)
        · exact .cons (.inl rfl) (ih (n + 1))

/-- The slots of `p'` are those of `p`, signalled or not, and new ones. -/
structure Roused (p p' : Pool) : Prop where
  slots : ∃ base extra, p'.slots = base ++ extra ∧ List.Forall₂ Slot.MaySignal p.slots base ∧
    ∀ slot ∈ extra, slot.pc = .starting ∧ slot.idle = false ∧ slot.started = false
  aborted : p'.aborted = p.aborted
  detached : p'.detached = p.detached
  max : 0 < p.maxThreads → 0 < p'.maxThreads

theorem Roused.of_slots {p p' : Pool} (hslots : p'.slots = p.slots)
    (haborted : p'.aborted = p.aborted)
    (hdetached : p'.detached = p.detached) (hmax : 0 < p.maxThreads → 0 < p'.maxThreads) :
    Roused p p' :=
  ⟨⟨p.slots, [], by simp [hslots], List.forall₂_same.mpr fun _ _ => .inl rfl, by simp⟩, haborted,
    hdetached, hmax⟩

theorem startSlots_spec (limit : Option Nat) (n : Nat) (p : Pool) :
    ∃ extra, (startSlots limit n p).2.slots = p.slots ++ extra ∧
      (∀ slot ∈ extra, slot.pc = .starting ∧ slot.idle = false ∧ slot.started = false) ∧
      (n ≠ 0 → p.slots.length < p.maxThreads → limit = none → extra ≠ []) ∧
      (startSlots limit n p).2.aborted = p.aborted ∧
        (startSlots limit n p).2.detached = p.detached ∧
      (startSlots limit n p).2.maxThreads = p.maxThreads := by
  induction n generalizing limit p with
  | zero => exact ⟨[], by simp [startSlots]⟩
  | succ n ih =>
    unfold startSlots
    by_cases hroom : p.slots.length < p.maxThreads
    · rw [if_pos hroom]
      by_cases hlimit : limit = some 0
      · rw [if_pos hlimit]
        exact ⟨[], by simp [hlimit]⟩
      obtain ⟨extra, hslots, hnew, -, haborted, hdetached, hmax⟩ := ih (limit.map (· - 1)) p.start
      rw [if_neg hlimit]
      refine ⟨⟨p.nextId, .starting, false, false⟩ :: extra, ?_, ?_, by simp, haborted, hdetached,
        hmax⟩
      · rw [hslots]
        simp [Pool.start]
      · intro slot hslot
        rcases List.mem_cons.mp hslot with rfl | hslot
        · exact ⟨rfl, rfl, rfl⟩
        · exact hnew slot hslot
    · rw [if_neg hroom]
      exact ⟨[], by simp [hroom]⟩

theorem Pool.signal_roused (p : Pool) (limit : Option Nat) (n : Nat) :
    Roused p (p.signal limit n).2 := by
  simp only [Pool.signal]
  obtain ⟨extra, hslots, hnew, -, haborted, hdetached, hmax⟩ :=
    startSlots_spec limit (signalSlots n p.slots).1 { p with slots := (signalSlots n p.slots).2 }
  refine ⟨⟨_, extra, hslots, signalSlots_forall₂ n p.slots, hnew⟩, haborted, hdetached, ?_⟩
  rw [hmax]
  exact id

theorem exists_of_forall₂ {α β : Type*} {R : α → β → Prop} {xs : List α} {ys : List β}
    (h : List.Forall₂ R xs ys) {x : α} (hx : x ∈ xs) : ∃ y ∈ ys, R x y := by
  induction h with
  | nil => cases hx
  | cons hxy _ ih =>
    rcases List.mem_cons.mp hx with rfl | hx
    · exact ⟨_, List.mem_cons_self, hxy⟩
    · obtain ⟨y, hy, hR⟩ := ih hx
      exact ⟨y, List.mem_cons_of_mem _ hy, hR⟩

section
variable {p p' : Pool}

/-- Where a slot comes from. -/
theorem Roused.mem (h : Roused p p') {slot' : Slot} (hslot : slot' ∈ p'.slots) :
    (∃ slot ∈ p.slots, slot.MaySignal slot') ∨
      slot'.pc = .starting ∧ slot'.idle = false ∧ slot'.started = false := by
  obtain ⟨⟨base, extra, hslots, hbase, hextra⟩, -⟩ := h
  rw [hslots] at hslot
  rcases List.mem_append.mp hslot with hslot | hslot
  · exact .inl (exists_of_forall₂ hbase.flip hslot)
  · exact .inr (hextra slot' hslot)

theorem Roused.ok (h : Roused p p') (hok : ∀ slot ∈ p.slots, slot.Ok) :
    ∀ slot ∈ p'.slots, slot.Ok := by
  intro slot' hslot
  rcases h.mem hslot with ⟨slot, hin, hs⟩ | ⟨hpc, hidle, hstarted⟩
  · exact (hok slot hin).of_maySignal hs
  · simp [Slot.Ok, hpc, hidle, hstarted]

theorem Roused.active (h : Roused p p') {slot : Slot} (hin : slot ∈ p.slots) (hact : slot.active) :
    ∃ slot' ∈ p'.slots, slot'.active := by
  obtain ⟨⟨base, extra, hslots, hbase, -⟩, -⟩ := h
  obtain ⟨slot', hin', hs⟩ := exists_of_forall₂ hbase hin
  rw [hslots]
  exact ⟨slot', List.mem_append_left _ hin', Slot.active_of_maySignal hact hs⟩

theorem Pool.joinZombies_slots (p : Pool) : p.joinZombies.2.slots = p.slots ∧
    p.joinZombies.2.aborted = p.aborted ∧ p.joinZombies.2.detached = p.detached ∧
    p.joinZombies.2.maxThreads = p.maxThreads := by
  unfold Pool.joinZombies
  split
  · exact ⟨rfl, rfl, rfl, rfl⟩
  · split <;> exact ⟨rfl, rfl, rfl, rfl⟩

theorem Roused.trans_slots {p1 : Pool} (h : Roused p1 p') (hslots : p1.slots = p.slots)
    (haborted : p1.aborted = p.aborted) (hdetached : p1.detached = p.detached)
    (hmax : 0 < p.maxThreads → 0 < p1.maxThreads) : Roused p p' := by
  obtain ⟨hs, ha, hd, hm⟩ := h
  rw [hslots] at hs
  exact ⟨hs, ha.trans haborted, hd.trans hdetached, fun h => hm (hmax h)⟩

theorem Pool.joinThenSignal_roused (p : Pool) (limit : Option Nat) (n : Nat) :
    Roused p (p.joinThenSignal limit n).2.2 := by
  obtain ⟨hslots, haborted, hdetached, hmax⟩ := p.joinZombies_slots
  unfold Pool.joinThenSignal
  split
  · rename_i zombie p1 heq
    rw [heq] at hslots haborted hdetached hmax
    exact .of_slots hslots haborted hdetached (by rw [hmax]; exact id)
  · rename_i p1 heq
    rw [heq] at hslots haborted hdetached hmax
    exact (p1.signal_roused limit n).trans_slots hslots haborted hdetached (by rw [hmax]; exact id)

/-- A step of a call rouses threads. -/
theorem callerStep_roused (p : Pool) (limit : Option Nat) (caller : Caller) :
    Roused p (callerStep p limit caller).2 := by
  have hjoin {p q : Pool} {n : Nat} {z : Option Nat} {ok : Bool}
      (h : p.joinThenSignal limit n = (z, ok, q)) : Roused p q := by
    have := p.joinThenSignal_roused limit n
    rwa [h] at this
  cases caller with
  | signal n | signalJoining n z =>
    simp only [callerStep]
    split <;> exact hjoin ‹_›
  | props minThreads maxThreads idleTimeMs signals =>
    simp only [callerStep]
    split
    · exact .of_slots rfl rfl rfl id
    · rename_i hvalid
      have hmax : 0 < maxThreads := by omega
      split
      · split
        · rename_i heq
          exact (hjoin heq).trans_slots rfl rfl rfl fun _ => hmax
        · rename_i heq
          exact (hjoin heq).trans_slots rfl rfl rfl fun _ => hmax
      · exact .of_slots rfl rfl rfl fun _ => hmax
  | propsJoining n signals z =>
    simp only [callerStep]
    split <;> exact hjoin ‹_›

end

end Gurl.Threads
