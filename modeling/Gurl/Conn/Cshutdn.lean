import Gurl.Splay.Splay

/-! `cshutdn_perform` of `lib/cshutdn.c`: one round over the connections that are shut down, and the
timer of the admin handle that stands for all of them. -/

namespace Gurl.Cshutdn

open Splay (Curltime ptimediffMs)

/-- The two sockets of a connection, `FIRSTSOCKET` and `SECONDARYSOCKET`. -/
inductive Sockindex where
  | first | secondary
  deriving DecidableEq

/-- `struct Curl_cfilter`, the bits that a shutdown reads. -/
structure Cfilter where
  connected : Bool
  shutdown : Bool

/-- `struct connectdata`, the part that a shutdown uses. -/
structure Connectdata where
  connectionId : Nat
  cfilter : Sockindex → List Cfilter
  /-- `shutdown.start`. -/
  start : Sockindex → Curltime
  /-- `shutdown.timeout_ms`. -/
  timeoutMs : Int
  /-- `scheme->flags & PROTOPT_NONETWORK`. -/
  nonetwork : Bool
  /-- `scheme->run->disconnect` exists. -/
  hasDisconnect : Bool
  connectOnly : Bool
  shutdownHandler : Bool
  shutdownFilters : Bool

/-- What the code calls outside of it: the clock, the `disconnect` of a protocol, which may shut
filters down or discard them, the `do_shutdown` of a filter, and the end of a connection. -/
structure Outside (σ : Type) where
  pgrsNow : σ → Curltime × σ
  disconnect : Connectdata → σ → (Sockindex → List Cfilter) × (Sockindex → Curltime) × σ
  doShutdown : Connectdata → Sockindex → Cfilter → σ → Curlcode × Bool × σ
  connFree : Connectdata → σ → σ

/-- `struct Curl_easy`, with the world outside and the times that `Curl_expire_ex` was called with
for `EXPIRE_SHUTDOWN`. -/
structure Easy (σ : Type) where
  mid : Nat
  /-- `set.shutdowntimeout`. -/
  shutdowntimeout : Int
  world : σ
  expires : List Int

/-- `DEFAULT_SHUTDOWN_TIMEOUT_MS`. -/
def defaultShutdownTimeoutMs : Int := 2 * 1000

section
variable {σ : Type} (out : Outside σ)

/-- `Curl_expire_ex` for `EXPIRE_SHUTDOWN`. -/
def expireEx (data : Easy σ) (milli : Int) : Easy σ :=
  { data with expires := data.expires ++ [milli] }

/-- `Curl_pgrs_now`. -/
def pgrsNow (data : Easy σ) : Curltime × Easy σ :=
  ((out.pgrsNow data.world).1, { data with world := (out.pgrsNow data.world).2 })

/-- `Curl_shutdown_started`. -/
def shutdownStarted (conn : Connectdata) (sockindex : Sockindex) : Bool :=
  decide ((conn.start sockindex).tvSec > 0) || decide ((conn.start sockindex).tvUsec > 0)

/-- `Curl_shutdown_start`. -/
def shutdownStart (data : Easy σ) (conn : Connectdata) (sockindex : Sockindex) (timeoutMs : Int) :
    Connectdata × Easy σ :=
  let (now, data) := pgrsNow out data
  let conn :=
    { conn with
      start := Function.update conn.start sockindex now
      timeoutMs :=
        if timeoutMs > 0 then timeoutMs
        else if data.shutdowntimeout > 0 then data.shutdowntimeout
        else defaultShutdownTimeoutMs }
  (conn, if data.mid ≠ 0 then expireEx data conn.timeoutMs else data)

/-- `Curl_shutdown_timeleft`. -/
def shutdownTimeleft (data : Easy σ) (conn : Connectdata) (sockindex : Sockindex) :
    Int × Easy σ :=
  if (conn.start sockindex).tvSec = 0 ∨ conn.timeoutMs ≤ 0 then (0, data)
  else
    let (now, data) := pgrsNow out data
    let leftMs := conn.timeoutMs - ptimediffMs now (conn.start sockindex)
    (if leftMs ≠ 0 then leftMs else -1, data)

/-- A round of the loop of `Curl_conn_shutdown_timeleft`. -/
def timeleftOf (conn : Connectdata) (p : Int × Easy σ) (i : Sockindex) : Int × Easy σ :=
  if conn.timeoutMs = 0 then p
  else if (conn.start i).tvSec = 0 then p
  else
    let (ms, data) := shutdownTimeleft out p.2 conn i
    (if ms ≠ 0 ∧ (p.1 = 0 ∨ ms < p.1) then ms else p.1, data)

/-- `Curl_conn_shutdown_timeleft`. -/
def connShutdownTimeleft (data : Easy σ) (conn : Connectdata) : Int × Easy σ :=
  [Sockindex.first, Sockindex.secondary].foldl (timeleftOf out conn) (0, data)

/-- `Curl_conn_is_connected`. -/
def connIsConnected (conn : Connectdata) (sockindex : Sockindex) : Bool :=
  match conn.cfilter sockindex with
  | cf :: _ => cf.connected
  | [] => conn.nonetwork

/-- The filters that `Curl_conn_shutdown` shuts down, one after the other, with its result, whether
it is done, and the filters that it leaves. -/
def shutdownChain (conn : Connectdata) (sockindex : Sockindex) (data : Easy σ) :
    List Cfilter → Curlcode × Bool × List Cfilter × Easy σ
  | [] => (.ok, true, [], data)
  | cf :: next =>
    if cf.shutdown then
      let (result, done, next, data) := shutdownChain conn sockindex data next
      (result, done, cf :: next, data)
    else
      let (result, cfdone, world) := out.doShutdown conn sockindex cf data.world
      let data := { data with world := world }
      if result ≠ .ok then (result, false, cf :: next, data)
      else if !cfdone then (.ok, false, cf :: next, data)
      else
        let (result, done, next, data) := shutdownChain conn sockindex data next
        (result, done, { cf with shutdown := true } :: next, data)

/-- Whether the time of `Curl_conn_shutdown` is over, where the first call starts it. -/
def shutdownExpired (data : Easy σ) (conn : Connectdata) (sockindex : Sockindex) :
    Bool × Connectdata × Easy σ :=
  if !shutdownStarted conn sockindex then (false, shutdownStart out data conn sockindex 0)
  else
    let (timeoutMs, data) := shutdownTimeleft out data conn sockindex
    (decide (timeoutMs < 0), conn, data)

/-- `Curl_conn_shutdown`. -/
def connShutdown (data : Easy σ) (conn : Connectdata) (sockindex : Sockindex) :
    Curlcode × Bool × Connectdata × Easy σ :=
  let skipped := fun cf : Cfilter => !cf.connected || cf.shutdown
  match (conn.cfilter sockindex).dropWhile skipped with
  | [] => (.ok, true, conn, data)
  | cf :: next =>
    let (expired, conn, data) := shutdownExpired out data conn sockindex
    if expired then (.operationTimedout, false, conn, data)
    else
      let (result, done, chain, data) := shutdownChain out conn sockindex data (cf :: next)
      (result, done,
        { conn with
          cfilter := Function.update conn.cfilter sockindex
            ((conn.cfilter sockindex).takeWhile skipped ++ chain) },
        data)

/-- `cshutdn_run_conn_handler`. -/
def runConnHandler (data : Easy σ) (conn : Connectdata) : Connectdata × Easy σ :=
  if conn.shutdownHandler then (conn, data)
  else if conn.hasDisconnect then
    let (cfilter, start, world) := out.disconnect conn data.world
    ({ conn with cfilter := cfilter, start := start, shutdownHandler := true },
      { data with world := world })
  else ({ conn with shutdownHandler := true }, data)

/-- The attempt of `cshutdn_run_once` to shut down one socket. -/
def shutdownSocket (data : Easy σ) (conn : Connectdata) (sockindex : Sockindex) :
    Curlcode × Bool × Connectdata × Easy σ :=
  if !conn.connectOnly && connIsConnected conn sockindex then connShutdown out data conn sockindex
  else (.ok, true, conn, data)

/-- `Curl_cshutdn_run_once`: whether the connection is done. -/
def runOnce (data : Easy σ) (conn : Connectdata) : Bool × Connectdata × Easy σ :=
  let (conn, data) :=
    if !shutdownStarted conn .first then shutdownStart out data conn .first 0 else (conn, data)
  let (conn, data) := runConnHandler out data conn
  if conn.shutdownFilters then (true, conn, data)
  else
    let (r1, done1, conn, data) := shutdownSocket out data conn .first
    let (r2, done2, conn, data) := shutdownSocket out data conn .secondary
    let done := r1 ≠ .ok || r2 ≠ .ok || (done1 && done2)
    (done, if done then { conn with shutdownFilters := true } else conn, data)

/-- `Curl_cshutdn_terminate` without a last attempt to shut down. -/
def terminate (data : Easy σ) (conn : Connectdata) : Easy σ :=
  let (conn, data) := runConnHandler out data conn
  { data with world := out.connFree conn data.world }

/-- The variables of the loop of `cshutdn_perform`: the list as far as it is walked, and the
connections that were terminated. -/
structure Loop (σ : Type) where
  data : Easy σ
  list : List Connectdata
  terminated : List Connectdata
  nextExpireMs : Int

/-- A round of the loop of `cshutdn_perform`. -/
def round (l : Loop σ) (conn : Connectdata) : Loop σ :=
  let (done, conn, data) := runOnce out l.data conn
  if done then
    { l with data := terminate out data conn, terminated := l.terminated ++ [conn] }
  else
    let (ms, data) := connShutdownTimeleft out data conn
    { l with
      data := data
      list := l.list ++ [conn]
      nextExpireMs := if ms ≠ 0 ∧ ms < l.nextExpireMs then ms else l.nextExpireMs }

/-- `cshutdn_perform`. -/
def perform (data : Easy σ) (list : List Connectdata) : Loop σ :=
  let l := list.foldl (round out) { data := data, list := [], terminated := [], nextExpireMs := 0 }
  if l.nextExpireMs ≠ 0 then { l with data := expireEx l.data l.nextExpireMs } else l

/-- How an attempt ended: `left` is the time left of a connection that was not done. -/
structure Outcome where
  conn : Connectdata
  left : Option Int

/-- One connection, apart from the lists and the minimum that the loop keeps. -/
def attempt (data : Easy σ) (conn : Connectdata) : Outcome × Easy σ :=
  let (done, conn, data) := runOnce out data conn
  if done then (⟨conn, none⟩, terminate out data conn)
  else
    let (ms, data) := connShutdownTimeleft out data conn
    (⟨conn, some ms⟩, data)

/-- The attempts for the connections of a list, one after the other. -/
def attempts (data : Easy σ) : List Connectdata → List Outcome
  | [] => []
  | conn :: list => (attempt out data conn).1 :: attempts (attempt out data conn).2 list

end

/-- The times left of the connections that were not done. -/
def lefts (os : List Outcome) : List Int := os.filterMap Outcome.left

/-- The smaller of two times left, if the second is one. -/
def sooner (next ms : Int) : Int := if ms ≠ 0 ∧ ms < next then ms else next

section
variable {σ : Type} {out : Outside σ} {data : Easy σ} {conn : Connectdata} {l : Loop σ}

/-- A round is an attempt and the bookkeeping of its outcome. -/
theorem round_eq : round out l conn =
    { data := (attempt out l.data conn).2
      list := l.list ++
        if (attempt out l.data conn).1.left.isSome then [(attempt out l.data conn).1.conn] else []
      terminated := l.terminated ++
        if (attempt out l.data conn).1.left.isNone then [(attempt out l.data conn).1.conn] else []
      nextExpireMs := (lefts [(attempt out l.data conn).1]).foldl sooner l.nextExpireMs } := by
  simp only [round, attempt]
  generalize runOnce out l.data conn = r
  obtain ⟨done, conn', data'⟩ := r
  cases done with
  | true => simp [lefts]
  | false => simp [lefts, sooner]

/-- What a step keeps of a connection and of the handle: on the admin handle no timer is set. -/
structure Keeps (conn : Connectdata) (data : Easy σ) (conn' : Connectdata) (data' : Easy σ) :
    Prop where
  id : conn'.connectionId = conn.connectionId
  mid : data'.mid = data.mid
  expires : data.mid = 0 → data'.expires = data.expires

section
variable {conn' conn'' : Connectdata} {data' data'' : Easy σ} {i : Sockindex}

theorem Keeps.refl : Keeps conn data conn data := ⟨rfl, rfl, fun _ => rfl⟩

theorem Keeps.trans (h1 : Keeps conn data conn' data') (h2 : Keeps conn' data' conn'' data'') :
    Keeps conn data conn'' data'' :=
  ⟨h2.id.trans h1.id, h2.mid.trans h1.mid,
    fun h => (h2.expires (h1.mid.trans h)).trans (h1.expires h)⟩

variable (out)

theorem shutdownStart_keeps (ms : Int) :
    Keeps conn data (shutdownStart out data conn i ms).1 (shutdownStart out data conn i ms).2 := by
  unfold shutdownStart
  dsimp only [pgrsNow]
  refine ⟨rfl, ?_, fun h => ?_⟩
  · split <;> rfl
  · rw [if_neg (not_not.mpr h)]

theorem shutdownTimeleft_keeps :
    Keeps conn data conn (shutdownTimeleft out data conn i).2 := by
  unfold shutdownTimeleft
  split
  · exact .refl
  · exact ⟨rfl, rfl, fun _ => rfl⟩

theorem timeleftOf_keeps (p : Int × Easy σ) :
    Keeps conn p.2 conn (timeleftOf out conn p i).2 := by
  unfold timeleftOf
  split
  · exact .refl
  split
  · exact .refl
  · exact shutdownTimeleft_keeps out

theorem connShutdownTimeleft_keeps :
    Keeps conn data conn (connShutdownTimeleft out data conn).2 := by
  have h1 : Keeps conn data conn (timeleftOf out conn (0, data) .first).2 :=
    timeleftOf_keeps out (0, data)
  exact h1.trans (timeleftOf_keeps out (timeleftOf out conn (0, data) .first))

theorem shutdownChain_keeps (chain : List Cfilter) :
    Keeps conn data conn (shutdownChain out conn i data chain).2.2.2 := by
  induction chain generalizing data with
  | nil => exact .refl
  | cons cf next ih =>
    simp only [shutdownChain]
    split
    · exact ih
    · split
      · exact ⟨rfl, rfl, fun _ => rfl⟩
      split
      · exact ⟨rfl, rfl, fun _ => rfl⟩
      · refine Keeps.trans ?_ ih
        exact ⟨rfl, rfl, fun _ => rfl⟩

theorem shutdownExpired_keeps :
    Keeps conn data (shutdownExpired out data conn i).2.1
      (shutdownExpired out data conn i).2.2 := by
  unfold shutdownExpired
  split
  · exact shutdownStart_keeps out 0
  · exact shutdownTimeleft_keeps out

theorem connShutdown_keeps :
    Keeps conn data (connShutdown out data conn i).2.2.1 (connShutdown out data conn i).2.2.2 := by
  simp only [connShutdown]
  split
  · exact .refl
  split
  · exact shutdownExpired_keeps out
  · rename_i cf next _ _
    have hexpired : Keeps conn data _ _ := shutdownExpired_keeps out (i := i)
    have hchain := hexpired.trans (shutdownChain_keeps out (i := i) (cf :: next))
    exact ⟨hchain.id, hchain.mid, hchain.expires⟩

theorem runConnHandler_keeps :
    Keeps conn data (runConnHandler out data conn).1 (runConnHandler out data conn).2 := by
  unfold runConnHandler
  split
  · exact .refl
  split
  · exact ⟨rfl, rfl, fun _ => rfl⟩
  · exact ⟨rfl, rfl, fun _ => rfl⟩

theorem shutdownSocket_keeps :
    Keeps conn data (shutdownSocket out data conn i).2.2.1
      (shutdownSocket out data conn i).2.2.2 := by
  unfold shutdownSocket
  split
  · exact connShutdown_keeps out
  · exact .refl

theorem runOnce_keeps :
    Keeps conn data (runOnce out data conn).2.1 (runOnce out data conn).2.2 := by
  have hstart : ∀ p : Connectdata × Easy σ,
      p = (if !shutdownStarted conn .first then shutdownStart out data conn .first 0
        else (conn, data)) → Keeps conn data p.1 p.2 := by
    rintro p rfl
    split
    · exact shutdownStart_keeps out 0
    · exact .refl
  simp only [runOnce]
  generalize hp : (if !shutdownStarted conn .first then shutdownStart out data conn .first 0
    else (conn, data)) = p
  have hhandler := (hstart p hp.symm).trans (runConnHandler_keeps out)
  split
  · exact hhandler
  · have hsockets := (hhandler.trans (shutdownSocket_keeps out (i := .first))).trans
      (shutdownSocket_keeps out (i := .secondary))
    split
    · exact ⟨hsockets.id, hsockets.mid, hsockets.expires⟩
    · exact hsockets

theorem terminate_keeps : Keeps conn data conn (terminate out data conn) :=
  have h : Keeps conn data _ _ := runConnHandler_keeps out
  ⟨rfl, h.mid, h.expires⟩

/-- An attempt stays with its connection, and sets no timer. -/
theorem attempt_keeps :
    Keeps conn data (attempt out data conn).1.conn (attempt out data conn).2 := by
  have h : Keeps conn data _ _ := runOnce_keeps out
  simp only [attempt]
  split
  · exact h.trans (terminate_keeps out)
  · exact h.trans (connShutdownTimeleft_keeps out)

end

/-- The connections that were not done. -/
def kept (os : List Outcome) : List Connectdata :=
  (os.filter fun o => o.left.isSome).map Outcome.conn

/-- The connections that were done. -/
def ended (os : List Outcome) : List Connectdata :=
  (os.filter fun o => o.left.isNone).map Outcome.conn

/-- The timer of the loop is never later than where it started. -/
theorem foldl_sooner_le (ms : List Int) : ∀ next : Int, ms.foldl sooner next ≤ next := by
  induction ms with
  | nil => exact fun next => le_refl next
  | cons m ms ih =>
    intro next
    have hm : sooner next m ≤ next := by
      unfold sooner
      split <;> omega
    exact (ih _).trans hm

variable (out) in
/-- The loop: every connection is attempted once, and goes to one of the two lists. -/
theorem loop_eq (list : List Connectdata) : ∀ l : Loop σ, ∃ data : Easy σ,
    (l.data.mid = 0 → data.mid = 0 ∧ data.expires = l.data.expires) ∧
    list.foldl (round out) l =
      { data := data
        list := l.list ++ kept (attempts out l.data list)
        terminated := l.terminated ++ ended (attempts out l.data list)
        nextExpireMs := (lefts (attempts out l.data list)).foldl sooner l.nextExpireMs } := by
  induction list with
  | nil =>
    intro l
    exact ⟨l.data, fun h => ⟨h, rfl⟩, by simp [attempts, kept, ended, lefts]⟩
  | cons conn list ih =>
    intro l
    obtain ⟨data, hquiet, heq⟩ := ih (round out l conn)
    have hkeeps : Keeps conn l.data _ _ := attempt_keeps out
    have hdata : (round out l conn).data = (attempt out l.data conn).2 := by rw [round_eq]
    refine ⟨data, fun h => ?_, ?_⟩
    · have hround := hquiet (by rw [hdata, hkeeps.mid, h])
      exact ⟨hround.1, by rw [hround.2, hdata, hkeeps.expires h]⟩
    · rw [List.foldl_cons, heq, hdata, round_eq]
      cases hleft : (attempt out l.data conn).1.left with
      | none => simp [attempts, kept, ended, lefts, hleft]
      | some ms => simp [attempts, kept, ended, lefts, hleft]

theorem attempts_ids (list : List Connectdata) : ∀ data : Easy σ,
    (attempts out data list).map (fun o => o.conn.connectionId) =
      list.map Connectdata.connectionId := by
  induction list with
  | nil => exact fun _ => rfl
  | cons conn list ih =>
    intro data
    have hkeeps : Keeps conn data _ _ := attempt_keeps out
    have h := hkeeps.id
    simp [attempts, ih, h]

variable (out) in
/-- The new calls of `Curl_expire_ex`: at most one, with a time that is over. -/
theorem perform_expires (list : List Connectdata) (hmid : data.mid = 0) :
    ∃ calls : List Int, (perform out data list).data.expires = data.expires ++ calls ∧
      ∀ ms ∈ calls, ms < 0 := by
  obtain ⟨data', hquiet, heq⟩ := loop_eq out list
    { data := data, list := [], terminated := [], nextExpireMs := 0 }
  have hexpires := (hquiet hmid).2
  have hle := foldl_sooner_le (lefts (attempts out data list)) 0
  simp only [perform, heq]
  split
  · rename_i hne
    refine ⟨[(lefts (attempts out data list)).foldl sooner 0], by simp [expireEx, hexpires], ?_⟩
    intro ms hms
    rw [List.mem_singleton.mp hms]
    omega
  · exact ⟨[], by simp [hexpires], by simp⟩

theorem perform_lists {list : List Connectdata} :
    (perform out data list).list = kept (attempts out data list) ∧
    (perform out data list).terminated = ended (attempts out data list) := by
  obtain ⟨data', -, heq⟩ := loop_eq out list
    { data := data, list := [], terminated := [], nextExpireMs := 0 }
  simp only [perform, heq]
  split <;> simp

end

section
variable {σ : Type}

/-- What is asked of the timer: where a connection that is left has time left, the timer of the
admin handle is set to the least of such times. -/
def TimerSet (out : Outside σ) (data : Easy σ) (list : List Connectdata) : Prop :=
  (∃ ms ∈ lefts (attempts out data list), 0 < ms) →
    ∃ calls : List Int, (perform out data list).data.expires = data.expires ++ calls ∧
      ∃ ms ∈ calls, IsLeast {ms | ms ∈ lefts (attempts out data list) ∧ 0 < ms} ms

/-- Every connection is attempted once. Those that are done are terminated, each once and no other,
and the others are the list that is left. The timer is set for them only when none has time left. -/
theorem pending_without_timer (out : Outside σ) (data : Easy σ) (list : List Connectdata)
    (hadmin : data.mid = 0) :
    ((attempts out data list).map (fun o => o.conn.connectionId) =
        list.map Connectdata.connectionId ∧
      (perform out data list).list = kept (attempts out data list) ∧
      (perform out data list).terminated = ended (attempts out data list)) ∧
    (TimerSet out data list ↔ ∀ ms ∈ lefts (attempts out data list), ms ≤ 0) := by
  refine ⟨⟨attempts_ids list data, perform_lists⟩, fun hset ms hms => ?_, fun hnone hsome => ?_⟩
  · by_contra hpos
    obtain ⟨calls, hcalls, m, hm, hleast⟩ := hset ⟨ms, hms, by omega⟩
    obtain ⟨calls', hcalls', hneg⟩ := perform_expires out list hadmin
    have hsame : calls = calls' := List.append_cancel_left (hcalls.symm.trans hcalls')
    have hm0 := hneg m (hsame ▸ hm)
    have hm1 := hleast.1.2
    omega
  · obtain ⟨ms, hms, hpos⟩ := hsome
    have := hnone ms hms
    omega

end

/-- A world with a clock that stands at five seconds, and filters that are never done. -/
def standing : Outside Unit where
  pgrsNow _ := (⟨5, 0⟩, ())
  disconnect conn _ := (conn.cfilter, conn.start, ())
  doShutdown _ _ _ _ := (.ok, false, ())
  connFree _ _ := ()

/-- A connection whose one filter still waits for its peer. -/
def waiting : Connectdata where
  connectionId := 7
  cfilter := fun i => match i with
    | .first => [⟨true, false⟩]
    | .secondary => []
  start := fun _ => ⟨0, 0⟩
  timeoutMs := 0
  nonetwork := false
  hasDisconnect := false
  connectOnly := false
  shutdownHandler := false
  shutdownFilters := false

/-- Three connections, with two, three and one seconds left. -/
def waitings : List Connectdata :=
  [waiting, { waiting with connectionId := 8, start := fun _ => ⟨1, 0⟩, timeoutMs := 7000 },
    { waiting with connectionId := 9, start := fun _ => ⟨4, 0⟩, timeoutMs := 2000 }]

theorem pending_without_timer_waiting :
    ¬TimerSet standing ⟨0, 0, (), []⟩ waitings ∧
      (perform standing ⟨0, 0, (), []⟩ waitings).data.expires = [] := by
  have h := pending_without_timer standing ⟨0, 0, (), []⟩ waitings rfl
  have hlefts : lefts (attempts standing ⟨0, 0, (), []⟩ waitings) = [2000, 3000, 1000] := by
    decide +kernel
  refine ⟨fun hset => ?_, by decide +kernel⟩
  have := h.2.mp hset 2000 (by simp [hlefts])
  omega

/-- A connection that waits for its peer is left without a timer. -/
theorem waiting_lingers :
    ¬∀ (out : Outside Unit) (data : Easy Unit) (list : List Connectdata), data.mid = 0 →
      TimerSet out data list := by
  intro hall
  have hset := hall standing ⟨0, 0, (), []⟩ [waiting] rfl
  have hlefts : lefts (attempts standing ⟨0, 0, (), []⟩ [waiting]) = [2000] := by decide +kernel
  obtain ⟨calls, hcalls, ms, hms, -⟩ := hset ⟨2000, by simp [hlefts], by decide⟩
  have hnone : (perform standing ⟨0, 0, (), []⟩ [waiting]).data.expires = [] := by decide +kernel
  rw [hnone, List.nil_append] at hcalls
  rw [← hcalls] at hms
  exact absurd hms (List.not_mem_nil)

end Gurl.Cshutdn
