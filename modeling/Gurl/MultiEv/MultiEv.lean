import Gurl.Curlcode

/-! Telling the application which sockets to supervise, `lib/multi_ev.c`, with a socket callback
that is set throughout, returns 0 and does not call back. Memory is always granted. -/

namespace Gurl.MultiEv

/-- `CURL_POLL_IN`, `CURL_POLL_OUT`, both or none. -/
structure Poll where
  pollIn : Bool
  pollOut : Bool
  deriving DecidableEq

def Poll.none : Poll := ⟨false, false⟩

/-- What the socket callback is told: what to watch, or `CURL_POLL_REMOVE`. -/
inductive Told
  | watch (action : Poll)
  | remove
  deriving DecidableEq

/-- A transfer, by its `mid`, or a connection. -/
inductive User
  | xfer (mid : Nat)
  | conn (id : Nat)
  deriving DecidableEq

/-- A socket; only valid ones are put into pollsets. -/
abbrev Socket := Nat

/-- `struct easy_pollset`: a socket is listed once and with an action. -/
structure Pollset where
  sockets : List (Socket × Poll)
  distinct : (sockets.map Prod.fst).Nodup
  actions : ∀ x ∈ sockets, x.2 ≠ Poll.none

def Pollset.empty : Pollset := ⟨[], List.nodup_nil, by simp⟩

/-- `struct mev_sh_entry`, without the data of the application. -/
structure Entry where
  xfers : Finset Nat := ∅
  conn : Option Nat := none
  action : Poll := Poll.none
  readers : Nat := 0
  writers : Nat := 0
  announced : Bool := false

/-- The socket hash, and the calls of the socket callback. -/
structure Sh where
  entries : Socket → Option Entry
  calls : List (Socket × Told)

def Sh.set (sh : Sh) (s : Socket) (entry : Option Entry) : Sh :=
  { sh with entries := Function.update sh.entries s entry }

def Sh.call (sh : Sh) (s : Socket) (told : Told) : Sh :=
  { sh with calls := sh.calls ++ [(s, told)] }

/-- `mev_sh_entry_user_count`. -/
def Entry.userCount (e : Entry) : Nat := e.xfers.card + if e.conn.isSome then 1 else 0

/-- `mev_sh_entry_xfer_known` and `mev_sh_entry_conn_known`. -/
def Entry.known (e : Entry) : User → Bool
  | .xfer mid => mid ∈ e.xfers
  | .conn id => e.conn == some id

/-- `mev_sh_entry_xfer_add` and `mev_sh_entry_conn_add`; a second connection is refused. -/
def Entry.add (e : Entry) : User → Option Entry
  | .xfer mid => some { e with xfers := insert mid e.xfers }
  | .conn id => if e.conn.isSome then none else some { e with conn := some id }

/-- `mev_sh_entry_xfer_remove` and `mev_sh_entry_conn_remove`, for a user that is known. -/
def Entry.drop (e : Entry) : User → Entry
  | .xfer mid => { e with xfers := e.xfers.erase mid }
  | .conn _ => { e with conn := none }

/-- `mev_forget_socket`. -/
def forgetSocket (sh : Sh) (s : Socket) : Sh :=
  match sh.entries s with
  | none => sh
  | some entry => (if entry.announced then sh.call s .remove else sh).set s none

/-- A counter that a user's wish goes out of and another into; it is unsigned. -/
def count (counter : Nat) (last cur : Bool) : Nat :=
  if last then if !cur then if counter = 0 then 2 ^ 32 - 1 else counter - 1 else counter
  else if cur then counter + 1 else counter

/-- `mev_sh_entry_update`; `entry` is the one of `s`. -/
def shEntryUpdate (sh : Sh) (entry : Entry) (s : Socket) (lastAction curAction : Poll) : Sh :=
  if lastAction = curAction then sh.set s (some entry)
  else
    let entry := { entry with
      readers := count entry.readers lastAction.pollIn curAction.pollIn
      writers := count entry.writers lastAction.pollOut curAction.pollOut }
    let comboaction : Poll := ⟨entry.readers != 0, entry.writers != 0⟩
    if entry.action = comboaction then sh.set s (some entry)
    else (sh.call s (.watch comboaction)).set s
      (some { entry with announced := true, action := comboaction })

/-- The action a pollset has for a socket, if it lists it. -/
def lookup (sockets : List (Socket × Poll)) (s : Socket) : Poll :=
  match sockets.find? fun x => x.1 == s with
  | some x => x.2
  | none => Poll.none

/-- A round of the first loop of `mev_pollset_diff`: `user` wants `s`. -/
def want (user : User) (prev : List (Socket × Poll)) (sh : Sh) (x : Socket × Poll) : Option Sh :=
  match sh.entries x.1 with
  | none =>
    match Entry.add {} user with
    | none => none
    | some entry => some (shEntryUpdate sh entry x.1 Poll.none x.2)
  | some entry =>
    if !entry.known user then
      match entry.add user with
      | none => none
      | some entry => some (shEntryUpdate sh entry x.1 Poll.none x.2)
    else some (shEntryUpdate sh entry x.1 (lookup prev x.1) x.2)

/-- A round of the second loop of `mev_pollset_diff`: `user` had wanted `s`. -/
def unwant (user : User) (sockets : List (Socket × Poll)) (sh : Sh) (x : Socket × Poll) : Sh :=
  if sockets.any fun y => x.1 == y.1 then sh
  else match sh.entries x.1 with
    | none => sh
    | some entry =>
      if !entry.known user then sh
      else
        let entry := entry.drop user
        if entry.userCount ≠ 0 then shEntryUpdate sh entry x.1 x.2 Poll.none
        else forgetSocket (sh.set x.1 (some entry)) x.1

/-- The first loop of `mev_pollset_diff`. -/
def wantAll (user : User) (prev : List (Socket × Poll)) : List (Socket × Poll) → Sh → Option Sh
  | [], sh => some sh
  | x :: rest, sh => (want user prev sh x).bind (wantAll user prev rest)

/-- `mev_pollset_diff`. -/
def pollsetDiff (sh : Sh) (user : User) (ps prev : List (Socket × Poll)) : Option Sh :=
  (wantAll user prev ps sh).map fun sh => prev.foldl (unwant user ps) sh

/-- The multi handle and its users: the socket hash, the pollset each user has left, and the calls
of the socket callback before the last call. -/
structure Multi where
  sh : Sh
  pollsets : User → Option Pollset
  past : List (Socket × Told)

/-- `mev_assess`, for a user with the pollset `ps`. -/
def Multi.assess (m : Multi) (user : User) (ps : Pollset) : Option Multi :=
  match m.pollsets user, ps.sockets with
  | none, [] => some m
  | last, sockets =>
    (pollsetDiff m.sh user sockets ((last.map Pollset.sockets).getD [])).map fun sh =>
      { m with sh, pollsets := Function.update m.pollsets user (some ps) }

/-- `Curl_multi_ev_xfer_done` and `Curl_multi_ev_conn_done`: the pollset is empty then. -/
def Multi.done (m : Multi) (user : User) : Option Multi :=
  (m.assess user Pollset.empty).map fun m =>
    { m with pollsets := Function.update m.pollsets user none }

/-- A call from the rest of libcurl. -/
inductive Call
  | assessXfer (mid : Nat) (ps : Pollset)
  | assessConn (id : Nat) (ps : Pollset)
  | xferDone (mid : Nat)
  | connDone (id : Nat)
  | socketDone (s : Socket)

def Multi.start : Multi := ⟨⟨fun _ => none, []⟩, fun _ => none, []⟩

/-- No other connection than `id` uses a socket of `ps`. -/
def Multi.free (m : Multi) (id : Nat) (ps : Pollset) : Bool :=
  ps.sockets.all fun x =>
    match m.sh.entries x.1 with
    | some entry => entry.conn.isNone || entry.conn == some id
    | none => true

/-- A call, in runs with one connection for a socket at most. The calls of the socket callback are
those of this call then. -/
def Multi.step (m : Multi) (call : Call) : Option Multi :=
  let m : Multi := { m with sh := { m.sh with calls := [] }, past := m.past ++ m.sh.calls }
  match call with
  | .assessXfer mid ps => m.assess (.xfer mid) ps
  | .assessConn id ps => if m.free id ps then m.assess (.conn id) ps else none
  | .xferDone mid => m.done (.xfer mid)
  | .connDone id => m.done (.conn id)
  | .socketDone s => some { m with sh := forgetSocket m.sh s }

/-! What one round of `mev_pollset_diff` does to a socket: the users registered for it, the counters
and what the application was told last. -/

/-- The users registered for a socket. -/
def Entry.users (e : Entry) : Finset User :=
  e.xfers.image .xfer ∪ match e.conn with
    | some id => {.conn id}
    | none => ∅

@[simp] theorem mem_users_xfer (e : Entry) (mid : Nat) : .xfer mid ∈ e.users ↔ mid ∈ e.xfers := by
  unfold Entry.users
  cases e.conn <;> simp

@[simp] theorem mem_users_conn (e : Entry) (id : Nat) : .conn id ∈ e.users ↔ e.conn = some id := by
  unfold Entry.users
  cases e.conn <;> simp [eq_comm]

theorem known_iff (e : Entry) (u : User) : e.known u = true ↔ u ∈ e.users := by
  cases u <;> simp [Entry.known]

theorem userCount_eq (e : Entry) : e.userCount = e.users.card := by
  have hinj : Set.InjOn User.xfer e.xfers := fun a _ b _ h => User.xfer.inj h
  unfold Entry.userCount Entry.users
  cases e.conn with
  | none => simp [Finset.card_image_of_injOn hinj]
  | some id =>
    rw [Finset.card_union_of_disjoint (by simp), Finset.card_image_of_injOn hinj]
    simp

/-- Registering a user changes the users only. -/
theorem add_spec {e e' : Entry} {u : User} (h : e.add u = some e') :
    e'.users = insert u e.users ∧ e'.action = e.action ∧ e'.readers = e.readers ∧
      e'.writers = e.writers ∧ e'.announced = e.announced := by
  cases u with
  | xfer mid =>
    cases h
    refine ⟨?_, rfl, rfl, rfl, rfl⟩
    ext v
    cases v <;> simp
  | conn id =>
    cases hconn : e.conn with
    | some _ => simp [Entry.add, hconn] at h
    | none =>
      simp only [Entry.add, hconn, Option.isSome_none, Bool.false_eq_true, if_false,
        Option.some.injEq] at h
      subst h
      refine ⟨?_, rfl, rfl, rfl, rfl⟩
      ext v
      cases v <;> simp [hconn, eq_comm]

theorem drop_spec {e : Entry} {u : User} (hu : u ∈ e.users) :
    (e.drop u).users = e.users.erase u ∧ (e.drop u).action = e.action ∧
      (e.drop u).readers = e.readers ∧ (e.drop u).writers = e.writers ∧
      (e.drop u).announced = e.announced := by
  cases u with
  | xfer mid =>
    refine ⟨?_, rfl, rfl, rfl, rfl⟩
    ext v
    cases v <;> simp [Entry.drop]
  | conn id =>
    refine ⟨?_, rfl, rfl, rfl, rfl⟩
    have hconn : e.conn = some id := by simpa using hu
    ext v
    cases v with
    | xfer mid => simp [Entry.drop]
    | conn id' =>
      simp only [Entry.drop, mem_users_conn, hconn, Finset.mem_erase, ne_eq, Option.some.injEq,
        User.conn.injEq, reduceCtorEq, false_iff, not_and]
      exact fun hne heq => hne heq.symm

/-- How many of the users have a wish. -/
def tally (wish : Poll → Bool) (w : User → Poll) (users : Finset User) : Nat :=
  (users.filter fun u => wish (w u) = true).card

section
variable {wish : Poll → Bool} {w : User → Poll} {users : Finset User} {u : User} {a : Poll}

theorem tally_congr {w' : User → Poll} (h : ∀ v ∈ users, w' v = w v) :
    tally wish w' users = tally wish w users := by
  unfold tally
  congr 1
  exact Finset.filter_congr fun v hv => by rw [h v hv]

theorem tally_update_of_not_mem (hu : u ∉ users) :
    tally wish (Function.update w u a) users = tally wish w users :=
  tally_congr fun v hv => Function.update_of_ne (by rintro rfl; exact hu hv) _ _

theorem tally_insert (hu : u ∉ users) :
    tally wish w (insert u users) = tally wish w users + if wish (w u) then 1 else 0 := by
  unfold tally
  rw [Finset.filter_insert]
  split
  · rw [Finset.card_insert_of_notMem (by simp [hu])]
  · rfl

theorem tally_erase (hu : u ∈ users) :
    tally wish w users = tally wish w (users.erase u) + if wish (w u) then 1 else 0 := by
  conv_lhs => rw [← Finset.insert_erase hu]
  exact tally_insert (Finset.notMem_erase u users)

theorem tally_pos_iff : tally wish w users ≠ 0 ↔ ∃ v ∈ users, wish (w v) = true := by
  unfold tally
  rw [Ne, Finset.card_eq_zero, ← Ne, ← Finset.nonempty_iff_ne_empty]
  simp [Finset.Nonempty, Finset.mem_filter]

/-- A counter of the wishes stays one when a user joins. -/
theorem count_join (hu : u ∉ users) (wish : Poll → Bool) (hnone : wish Poll.none = false) :
    count (tally wish w users) (wish Poll.none) (wish a) =
      tally wish (Function.update w u a) (insert u users) := by
  rw [tally_insert hu, tally_update_of_not_mem hu, Function.update_self, hnone]
  cases wish a <;> simp [count]

/-- And when a user changes its mind. -/
theorem count_change (hu : u ∈ users) (wish : Poll → Bool) :
    count (tally wish w users) (wish (w u)) (wish a) =
      tally wish (Function.update w u a) users := by
  rw [tally_erase hu, tally_erase hu (w := Function.update w u a),
    tally_update_of_not_mem (Finset.notMem_erase u users), Function.update_self]
  cases wish (w u) <;> cases wish a <;> simp [count]

/-- And when a user leaves. -/
theorem count_leave (hu : u ∈ users) (wish : Poll → Bool) (hnone : wish Poll.none = false) :
    count (tally wish w users) (wish (w u)) (wish Poll.none) =
      tally wish (Function.update w u a) (users.erase u) := by
  rw [tally_erase hu, tally_update_of_not_mem (Finset.notMem_erase u users), hnone]
  cases wish (w u) <;> simp [count]

end

/-- What the application was told about a socket. -/
def tolds (log : List (Socket × Told)) (s : Socket) : List Told :=
  (log.filter fun x => x.1 == s).map Prod.snd

@[simp] theorem tolds_append (log log' : List (Socket × Told)) (s : Socket) :
    tolds (log ++ log') s = tolds log s ++ tolds log' s := by
  simp [tolds]

@[simp] theorem tolds_self (s : Socket) (t : Told) : tolds [(s, t)] s = [t] := by
  simp [tolds]

theorem tolds_other {s s' : Socket} (h : s ≠ s') (t : Told) : tolds [(s, t)] s' = [] := by
  simp [tolds, h]

/-- The application was told news each time, and to forget only what it watches. -/
def AllNews (told : List Told) : Prop :=
  told.IsChain (· ≠ ·) ∧ told.head? ≠ some .remove

theorem AllNews.watch {told : List Told} (h : AllNews told) {a : Poll}
    (ha : told.getLast? ≠ some (.watch a)) : AllNews (told ++ [.watch a]) := by
  obtain ⟨hchain, hhead⟩ := h
  refine ⟨List.isChain_append.mpr ⟨hchain, List.isChain_singleton _, ?_⟩, ?_⟩
  · rintro x hx y hy rfl
    cases hy
    exact ha hx
  · cases told with
    | nil => simp
    | cons t rest => exact hhead

theorem AllNews.remove {told : List Told} (h : AllNews told) {a : Poll}
    (ha : told.getLast? = some (.watch a)) : AllNews (told ++ [.remove]) := by
  obtain ⟨hchain, hhead⟩ := h
  refine ⟨List.isChain_append.mpr ⟨hchain, List.isChain_singleton _, ?_⟩, ?_⟩
  · rintro x hx y hy rfl
    cases hy
    rw [ha] at hx
    cases hx
  · cases told with
    | nil => cases ha
    | cons t rest => exact hhead

/-- The action of a socket, from what its users want of it. -/
def union (w : User → Poll) (users : Finset User) : Poll :=
  ⟨tally Poll.pollIn w users != 0, tally Poll.pollOut w users != 0⟩

/-- The books about a socket are right: `w` is what each user wants of it, `told` what the
application was told about it. -/
def SocketOk (w : User → Poll) (told : List Told) (entry : Option Entry) : Prop :=
  AllNews told ∧ match entry with
    | none => (∀ u, w u = Poll.none) ∧ (told.getLast? = none ∨ told.getLast? = some .remove)
    | some e => e.users.Nonempty ∧ (∀ u, u ∈ e.users ↔ w u ≠ Poll.none) ∧
        e.readers = tally Poll.pollIn w e.users ∧ e.writers = tally Poll.pollOut w e.users ∧
        e.announced = true ∧ e.action = union w e.users ∧
        told.getLast? = some (.watch e.action)

/-- Users that want something make an action. -/
theorem union_ne_none {w : User → Poll} {users : Finset User} (hne : users.Nonempty)
    (hw : ∀ u ∈ users, w u ≠ Poll.none) : union w users ≠ Poll.none := by
  obtain ⟨u, hu⟩ := hne
  intro heq
  have hin : ¬(w u).pollIn = true := fun h => by
    have := tally_pos_iff.mpr ⟨u, hu, h⟩
    simp [union, Poll.none, this] at heq
  have hout : ¬(w u).pollOut = true := fun h => by
    have := tally_pos_iff.mpr ⟨u, hu, h⟩
    simp [union, Poll.none, this] at heq
  apply hw u hu
  cases hwu : w u with
  | mk i o => simp_all [Poll.none]

/-- What is known about a socket, and what the application is told about it. -/
def Sh.about (sh : Sh) (s : Socket) : Option Entry × List Told := (sh.entries s, tolds sh.calls s)

/-- What becomes of a socket: its books are right for the wishes `w'`, and the application is told
to forget it if its entry goes. -/
structure Follows (past : List (Socket × Told)) (w' : User → Poll) (s : Socket) (sh sh' : Sh) :
    Prop where
  ok : SocketOk w' (tolds (past ++ sh'.calls) s) (sh'.entries s)
  removed : .remove ∈ tolds sh'.calls s ↔
    .remove ∈ tolds sh.calls s ∨ (sh.entries s).isSome ∧ sh'.entries s = none

section
variable {past : List (Socket × Told)} {w w' : User → Poll} {s s' : Socket} {sh sh1 sh2 sh' : Sh}

theorem Follows.congr (h : Follows past w' s sh1 sh2) (h1 : sh1.about s = sh.about s)
    (h2 : sh'.about s = sh2.about s) : Follows past w' s sh sh' := by
  obtain ⟨he1, ht1⟩ := Prod.ext_iff.mp h1
  obtain ⟨he2, ht2⟩ := Prod.ext_iff.mp h2
  simp only [Sh.about] at he1 ht1 he2 ht2
  obtain ⟨hok, hremoved⟩ := h
  rw [tolds_append, ← ht2, ← he2, ← tolds_append] at hok
  rw [← ht2, ht1, he1, ← he2] at hremoved
  exact ⟨hok, hremoved⟩

/-- A socket nothing happens to. -/
theorem Follows.same (h : SocketOk w (tolds (past ++ sh.calls) s) (sh.entries s))
    (heq : sh'.about s = sh.about s) : Follows past w s sh sh' := by
  refine Follows.congr ⟨h, ?_⟩ rfl heq
  cases sh.entries s <;> simp

theorem shEntryUpdate_other (h : s ≠ s') (e : Entry) (last cur : Poll) :
    (shEntryUpdate sh e s last cur).about s' = sh.about s' := by
  have hset (sh : Sh) (e : Option Entry) : (sh.set s e).about s' = sh.about s' := by
    simp [Sh.about, Sh.set, Function.update_of_ne h.symm]
  have hcall (t : Told) : (sh.call s t).about s' = sh.about s' := by
    simp [Sh.about, Sh.call, tolds_other h]
  simp only [shEntryUpdate]
  split
  · exact hset _ _
  · split
    · exact hset _ _
    · rw [hset, hcall]

/-- An update of an entry that has its new users makes the books right: its counters and its action
are those of before. -/
theorem shEntryUpdate_ok {e : Entry} {last cur : Poll}
    (hnews : AllNews (tolds (past ++ sh.calls) s))
    (hne : e.users.Nonempty) (husers : ∀ u, u ∈ e.users ↔ w' u ≠ Poll.none)
    (hr : count e.readers last.pollIn cur.pollIn = tally Poll.pollIn w' e.users)
    (hw : count e.writers last.pollOut cur.pollOut = tally Poll.pollOut w' e.users)
    (hsame : last = cur → e.action = union w' e.users)
    (hact : (e.announced = true ∧ (tolds (past ++ sh.calls) s).getLast? = some (.watch e.action)) ∨
      (e.action = Poll.none ∧ ((tolds (past ++ sh.calls) s).getLast? = none ∨
        (tolds (past ++ sh.calls) s).getLast? = some .remove))) :
    Follows past w' s sh (shEntryUpdate sh e s last cur) := by
  have hsome : union w' e.users ≠ Poll.none :=
    union_ne_none hne fun u hu => (husers u).mp hu
  simp only [shEntryUpdate]
  by_cases hlc : last = cur
  · rw [if_pos hlc]
    have hact' := hsame hlc
    subst hlc
    have hcount (c : Nat) (b : Bool) : count c b b = c := by cases b <;> rfl
    rw [hcount] at hr hw
    obtain ⟨hann, hlast⟩ := hact.resolve_right fun h => hsome (hact'.symm.trans h.1)
    refine ⟨⟨hnews, ?_⟩, by simp [Sh.set]⟩
    simp only [Sh.set, Function.update_self]
    exact ⟨hne, husers, hr, hw, hann, hact', hlast⟩
  · rw [if_neg hlc, hr, hw]
    change Follows past w' s sh (if e.action = union w' e.users then _ else _)
    split
    · rename_i hcombo
      obtain ⟨hann, hlast⟩ := hact.resolve_right fun h => hsome (hcombo.symm.trans h.1)
      refine ⟨⟨hnews, ?_⟩, by simp [Sh.set]⟩
      simp only [Sh.set, Function.update_self]
      exact ⟨hne, husers, rfl, rfl, hann, hcombo, hlast⟩
    · rename_i hcombo
      have hfresh : (tolds (past ++ sh.calls) s).getLast? ≠ some (.watch (union w' e.users)) := by
        intro heq
        rcases hact with ⟨-, hlast⟩ | ⟨-, hlast | hlast⟩
        · rw [hlast] at heq
          exact hcombo (Told.watch.inj (Option.some.inj heq))
        · rw [hlast] at heq
          cases heq
        · rw [hlast] at heq
          cases heq
      refine ⟨⟨?_, ?_⟩, by simp [Sh.set, Sh.call]⟩
      · simpa [Sh.set, Sh.call, union] using hnews.watch hfresh
      · simp only [Sh.set, Sh.call, Function.update_self]
        exact ⟨hne, husers, rfl, rfl, trivial, rfl, by simp⟩

end

end Gurl.MultiEv
