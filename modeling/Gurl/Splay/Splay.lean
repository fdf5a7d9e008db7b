import Gurl.Curlcode
import Gurl.Lib.Heap

/-! The splay tree of `lib/splay.c`, which holds the timers of a multi handle. -/

namespace Gurl.Splay

open LinkedHeap HeapTree

/-- `struct curltime`. -/
structure Curltime where
  tvSec : Int
  tvUsec : Int
  deriving DecidableEq

/-- `TIMEDIFF_T_MAX`. -/
def timediffTMax : Int := 2 ^ 63 - 1

/-- `TIMEDIFF_T_MIN`. -/
def timediffTMin : Int := -2 ^ 63

/-- `curlx_ptimediff_us`. -/
def ptimediffUs (newer older : Curltime) : Int :=
  let diff := newer.tvSec - older.tvSec
  if diff ≥ timediffTMax.tdiv 1000000 then timediffTMax
  else if diff ≤ timediffTMin.tdiv 1000000 then timediffTMin
  else diff * 1000000 + newer.tvUsec - older.tvUsec

/-- `curlx_ptimediff_ms`. -/
def ptimediffMs (newer older : Curltime) : Int :=
  let diff := newer.tvSec - older.tvSec
  if diff ≥ timediffTMax.tdiv 1000 then timediffTMax
  else if diff ≤ timediffTMin.tdiv 1000 then timediffTMin
  else diff * 1000 + (newer.tvUsec - older.tvUsec).tdiv 1000

/-- `struct Curl_tree`, without the payload. -/
structure Node where
  smaller : Option Ptr
  larger : Option Ptr
  samen : Option Ptr
  samep : Option Ptr
  key : Curltime

namespace Node

def child : Side → Node → Option Ptr
  | .smaller, n => n.smaller
  | .larger, n => n.larger

def setChild : Side → Option Ptr → Node → Node
  | .smaller, q, n => { n with smaller := q }
  | .larger, q, n => { n with larger := q }

end Node

/-- Change a node. -/
def update (h : Heap Node) (p : Ptr) (f : Node → Node) : Option (Heap Node) :=
  (h.get p).map fun n => h.set p (f n)

/-- The side of a node on which `key` lies, if the keys are different. -/
def side (key : Curltime) (n : Node) : Option Side :=
  if ptimediffUs key n.key < 0 then some .smaller
  else if ptimediffUs key n.key > 0 then some .larger
  else none

/-! ### Splaying -/

/-- The variables of `Curl_splay`: `r` is the last node that was linked to the larger nodes, `l` the
last one that was linked to the smaller nodes. -/
structure Splaying where
  heap : Heap Node
  t : Ptr
  l : Ptr
  r : Ptr

/-- The end of the list to which a node is linked on the way to the side `s`. -/
def Splaying.last (v : Splaying) : Side → Ptr
  | .smaller => v.r
  | .larger => v.l

/-- `t` is linked aside, and the loop goes on at `next`. -/
def Splaying.linked (v : Splaying) (heap : Heap Node) (next : Ptr) : Side → Splaying
  | .smaller => { heap, t := next, l := v.l, r := v.t }
  | .larger => { heap, t := next, l := v.t, r := v.r }

/-- "rotate smaller" and "rotate larger": `y` takes the place of its parent. -/
def rotate (s : Side) (v : Splaying) (y : Ptr) : Option Splaying := do
  let node ← v.heap.get y
  let heap ← update v.heap v.t (Node.setChild s (node.child s.other))
  let heap ← update heap y (Node.setChild s.other (some v.t))
  some { v with heap, t := y }

/-- "link smaller" and "link larger": go on with the subtree at `next`. -/
def link (s : Side) (v : Splaying) (next : Ptr) : Option Splaying := do
  let heap ← update v.heap (v.last s) (Node.setChild s (some v.t))
  some (v.linked heap next s)

/-- A pass of the loop towards the side `s`; `false` means that the loop ends. -/
def descend (key : Curltime) (s : Side) (v : Splaying) : Option (Splaying × Bool) := do
  let node ← v.heap.get v.t
  match node.child s with
  | none => some (v, false)
  | some y =>
    let below ← v.heap.get y
    if side key below = some s then
      let v ← rotate s v y
      let node ← v.heap.get v.t
      match node.child s with
      | none => some (v, false)
      | some next => some (← link s v next, true)
    else some (← link s v y, true)

def splayLoop (key : Curltime) : Nat → Splaying → Option Splaying
  | 0, _ => none
  | fuel + 1, v => do
    let node ← v.heap.get v.t
    match side key node with
    | none => some v
    | some s =>
      let (v, more) ← descend key s v
      if more then splayLoop key fuel v else some v

/-- "assemble". -/
def assemble (v : Splaying) (header : Ptr) : Option (Heap Node) := do
  let node ← v.heap.get v.t
  let heap ← update v.heap v.l (Node.setChild .larger node.smaller)
  let heap ← update heap v.r (Node.setChild .smaller node.larger)
  let n ← heap.get header
  update heap v.t fun node => { node with smaller := n.larger, larger := n.smaller }

/-- `Curl_splay`. The node `N` exists during the call only, and holds no key. -/
def splay (h : Heap Node) (key : Curltime) (t : Option Ptr) : Option (Heap Node × Option Ptr) :=
  match t with
  | none => some (h, none)
  | some t => do
    let header := h.fresh
    let heap := h.alloc ⟨none, none, none, none, ⟨0, 0⟩⟩
    let v ← splayLoop key (heap.size + 1) { heap, t, l := header, r := header }
    let heap ← assemble v header
    some (heap.free header, some v.t)

/-! ### The operations -/

/-- `SPLAY_SUBNODE`. -/
def splaySubnode : Curltime := ⟨-1, -1⟩

/-- Add a node to the end of the list of nodes with the key of `t`. -/
def insertSame (h : Heap Node) (t node : Ptr) : Option (Heap Node) := do
  let root ← h.get t
  let last ← root.samep
  let h ← update h node fun n =>
    { n with key := splaySubnode, samen := some t, samep := some last }
  let h ← update h last fun n => { n with samen := some node }
  update h t fun n => { n with samep := some node }

/-- The last part of `Curl_splayinsert`: a key that is not in the tree. -/
def insertKey (h : Heap Node) (key : Curltime) (smaller larger : Option Ptr) (node : Ptr) :
    Option (Heap Node) :=
  update h node fun _ => { smaller, larger, key, samen := some node, samep := some node }

/-- `Curl_splayinsert`: the heap and the new root. -/
def splayinsert (h : Heap Node) (key : Curltime) (t : Option Ptr) (node : Ptr) :
    Option (Heap Node × Option Ptr) := do
  let (h, t) ← splay h key t
  match t with
  | none => some (← insertKey h key none none node, some node)
  | some t =>
    let root ← h.get t
    if ptimediffUs key root.key = 0 then some (← insertSame h t node, some t)
    else if ptimediffUs key root.key < 0 then
      let h ← update h t fun n => { n with smaller := none }
      some (← insertKey h key root.smaller (some t) node, some node)
    else
      let h ← update h t fun n => { n with larger := none }
      some (← insertKey h key (some t) root.larger node, some node)

/-- The node `x` takes the place of `t`, which has the same key. -/
def promote (h : Heap Node) (t x : Ptr) : Option (Heap Node) := do
  let root ← h.get t
  let last ← root.samep
  let h ← update h x fun n => { n with
    key := root.key, larger := root.larger, smaller := root.smaller, samep := some last }
  update h last fun n => { n with samen := some x }

/-- `Curl_splaygetbest`: the heap, the new root, and the node that was removed. -/
def splaygetbest (h : Heap Node) (key : Curltime) (t : Option Ptr) :
    Option (Heap Node × Option Ptr × Option Ptr) := do
  let (h, t) ← splay h ⟨0, 0⟩ t
  match t with
  | none => some (h, none, none)
  | some t =>
    let root ← h.get t
    if ptimediffUs key root.key < 0 then some (h, some t, none)
    else
      let x ← root.samen
      if x ≠ t then some (← promote h t x, some x, some t)
      else some (h, root.larger, some t)

/-- `Curl_splayremove`: the heap, the new root, and the return code. -/
def splayremove (h : Heap Node) (t : Option Ptr) (removenode : Ptr) :
    Option (Heap Node × Option Ptr × Nat) :=
  match t with
  | none => some (h, none, 1)
  | some root => do
    let node ← h.get removenode
    if ptimediffUs splaySubnode node.key = 0 then
      let next ← node.samen
      if next = removenode then some (h, t, 3)
      else
        let prev ← node.samep
        let h ← update h prev fun n => { n with samen := some next }
        let h ← update h next fun n => { n with samep := some prev }
        let h ← update h removenode fun n => { n with samen := some removenode }
        some (h, t, 0)
    else
      let (h, splayed) ← splay h node.key (some root)
      if splayed ≠ some removenode then some (h, t, 2)
      else
        let node ← h.get removenode
        let x ← node.samen
        if x ≠ removenode then some (← promote h removenode x, some x, 0)
        else if node.smaller = none then some (h, node.larger, 0)
        else
          let (h, x) ← splay h node.key node.smaller
          let x ← x
          let h ← update h x fun n => { n with larger := node.larger }
          some (h, some x, 0)

end Gurl.Splay
