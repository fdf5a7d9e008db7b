import Gurl.Conn.Cshutdn
import Gurl.Splay.Failure

/-! The timeouts of transfers in `lib/multi.c`: a list of them in each transfer, and one node for
each transfer in the timer tree of the multi handle. -/

namespace Gurl.Multi

open LinkedHeap Splay

/-- `expire_id`. -/
inductive ExpireId where
  | timeout100 | asyncName | connecttimeout | dnsPerName | dnsPerName2 | happyEyeballsDns
  | happyEyeballs | multiPending | speedcheck | timeout | toofast | quic | ftpAccept | alpnEyeballs
  | shutdown
  deriving DecidableEq

/-- `struct time_node`. -/
structure TimeNode where
  time : Curltime
  eid : ExpireId

/-- The timeouts of `struct UrlState`. The nodes of `expires` are those of the list. -/
structure UrlState where
  expiretime : Curltime
  timeoutlist : List TimeNode

/-- `struct Curl_multi`. A transfer goes by the address of its `timenode`, for which the transfers
are numbered by their `mid`; `process` are those that the handle knows and processes. -/
structure CurlMulti where
  timetree : TimerTree
  state : Ptr → UrlState
  process : Ptr → Bool
  dirty : List Ptr

def CurlMulti.set (m : CurlMulti) (p : Ptr) (data : UrlState) : CurlMulti :=
  { m with state := Function.update m.state p data }

/-- `multi_deltimeout`. -/
def deltimeout (list : List TimeNode) (eid : ExpireId) : List TimeNode := list.eraseP (·.eid = eid)

/-- `multi_addtimeout`. -/
def addtimeout (list : List TimeNode) (node : TimeNode) : List TimeNode :=
  let before : TimeNode → Bool := fun check => ptimediffMs check.time node.time ≤ 0
  list.takeWhile before ++ node :: list.dropWhile before

/-- The time in `milli` milliseconds. -/
def later (now : Curltime) (milli : Int) : Curltime :=
  let set : Curltime := ⟨now.tvSec + milli.tdiv 1000, now.tvUsec + milli.tmod 1000 * 1000⟩
  if set.tvUsec ≥ 1000000 then ⟨set.tvSec + 1, set.tvUsec - 1000000⟩ else set

/-- The node of a transfer goes into the tree, under its `expiretime`. -/
def enter (m : CurlMulti) (p : Ptr) (data : UrlState) : Option CurlMulti := do
  let (timetree, _) ← m.timetree.call (.splayinsert data.expiretime p)
  some { m.set p data with timetree }

/-- `Curl_expire_ex`. -/
def expireEx (m : CurlMulti) (p : Ptr) (now : Curltime) (milli : Int) (id : ExpireId) :
    Option CurlMulti :=
  let data := m.state p
  let set := later now milli
  let timeoutlist := addtimeout (deltimeout data.timeoutlist id) ⟨set, id⟩
  if data.expiretime ≠ ⟨0, 0⟩ then
    if ptimediffMs set data.expiretime > 0 then some (m.set p { data with timeoutlist })
    else do
      let (timetree, _) ← m.timetree.call (.splayremove p)
      enter { m with timetree } p ⟨set, timeoutlist⟩
  else enter m p ⟨set, timeoutlist⟩

/-- `Curl_expire_done`. -/
def expireDone (m : CurlMulti) (p : Ptr) (id : ExpireId) : CurlMulti :=
  m.set p { m.state p with timeoutlist := deltimeout (m.state p).timeoutlist id }

/-- `Curl_expire_clear`. -/
def expireClear (m : CurlMulti) (p : Ptr) : Option CurlMulti :=
  if (m.state p).expiretime ≠ ⟨0, 0⟩ then do
    let (timetree, _) ← m.timetree.call (.splayremove p)
    some { m.set p ⟨⟨0, 0⟩, []⟩ with timetree }
  else some m

/-- The timeouts that are still to come. -/
def UrlState.next (data : UrlState) (pnow : Curltime) : UrlState :=
  match data.timeoutlist.dropWhile fun node => ptimediffUs node.time pnow ≤ 0 with
  | [] => ⟨⟨0, 0⟩, []⟩
  | node :: list => ⟨node.time, node :: list⟩

/-- `add_next_timeout`. -/
def addNextTimeout (m : CurlMulti) (p : Ptr) (pnow : Curltime) : Option CurlMulti :=
  let data := (m.state p).next pnow
  if data.timeoutlist = [] then some (m.set p data) else enter m p data

/-- `Curl_multi_mark_dirty`; the set is in the order of the transfers. -/
def markDirty (m : CurlMulti) (p : Ptr) : CurlMulti :=
  { m with dirty := if p ∈ m.dirty then m.dirty else m.dirty.orderedInsert (· ≤ ·) p }

/-- `Curl_multi_clear_dirty`. -/
def clearDirty (m : CurlMulti) (p : Ptr) : CurlMulti := { m with dirty := m.dirty.erase p }

/-- `multi_has_dirties`: up to the first dirty transfer that is processed, the others are
dropped. -/
def hasDirties (m : CurlMulti) : CurlMulti × Bool :=
  let dirty := m.dirty.dropWhile (!m.process ·)
  ({ m with dirty }, !dirty.isEmpty)

/-- The loop of `multi_mark_expired_as_dirty`. -/
def markLoop (ts : Curltime) : Nat → CurlMulti → Option CurlMulti
  | 0, _ => none
  | fuel + 1, m => do
    let (timetree, answer) ← m.timetree.call (.splaygetbest ts)
    match answer with
    | .best (some p) =>
      let m ← addNextTimeout { m with timetree } p ts
      markLoop ts fuel (markDirty m p)
    | _ => some { m with timetree }

/-- `multi_mark_expired_as_dirty`: each turn takes a node out of the tree for good. -/
def markExpiredAsDirty (m : CurlMulti) (ts : Curltime) : Option CurlMulti :=
  markLoop ts (m.timetree.heap.size + 1) m

/-- `curlx_timediff_ceil_ms`. -/
def timediffCeilMs (newer older : Curltime) : Int :=
  let diff := newer.tvSec - older.tvSec
  if diff ≥ timediffTMax.tdiv 1000 then timediffTMax
  else if diff ≤ timediffTMin.tdiv 1000 then timediffTMin
  else diff * 1000 + (newer.tvUsec - older.tvUsec + 999).tdiv 1000

/-- `multi_timeout`, when no transfer is dirty. -/
def firstTimeout (m : CurlMulti) (now : Curltime) : Option (CurlMulti × Curltime × Int) :=
  match m.timetree.root with
  | none => some (m, ⟨0, 0⟩, -1)
  | some root => do
    let (heap, root) ← splay m.timetree.heap ⟨0, 0⟩ (some root)
    let node ← heap.get (← root)
    some ({ m with timetree := ⟨heap, root⟩ }, node.key,
      if ptimediffUs node.key now > 0 then timediffCeilMs node.key now else 0)

/-- `multi_timeout`, when the handle is not dead: `expire_time` and `timeout_ms`. -/
def multiTimeout (m : CurlMulti) (now : Curltime) : Option (CurlMulti × Curltime × Int) :=
  let (m, dirties) := hasDirties m
  if dirties then some (m, now, 0) else firstTimeout m now

/-- The calls that change the timeouts, and what becomes of the transfers between them: they get
dirty and clean, and the handle begins and ends to process them. -/
inductive Op where
  | expireEx (p : Ptr) (now : Curltime) (milli : Int) (id : ExpireId)
  | expireDone (p : Ptr) (id : ExpireId)
  | expireClear (p : Ptr)
  | markExpiredAsDirty (ts : Curltime)
  | multiTimeout (now : Curltime)
  | markDirty (p : Ptr)
  | clearDirty (p : Ptr)
  | process (p : Ptr) (on : Bool)

def step (m : CurlMulti) : Op → Option CurlMulti
  | .expireEx p now milli id => expireEx m p now milli id
  | .expireDone p id => some (expireDone m p id)
  | .expireClear p => expireClear m p
  | .markExpiredAsDirty ts => markExpiredAsDirty m ts
  | .multiTimeout now => (multiTimeout m now).map Prod.fst
  | .markDirty p => some (markDirty m p)
  | .clearDirty p => some (clearDirty m p)
  | .process p on => some { m with process := Function.update m.process p on }

/-- A multi handle whose transfers have no timeout. -/
def start (nodes : Heap Node) : CurlMulti :=
  ⟨⟨nodes, none⟩, fun _ => ⟨⟨0, 0⟩, []⟩, fun _ => false, []⟩

def run (nodes : Heap Node) (ops : List Op) : Option CurlMulti := ops.foldlM step (start nodes)

end Gurl.Multi
