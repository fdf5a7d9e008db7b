import Gurl.Curlcode

/-! `lib/curlx/dynbuf.c`: a buffer that grows with what is added to it, up to a limit. -/

namespace Gurl

/-- `struct dynbuf`: `bufr` holds the `leng` bytes of the content, without the zero behind them. -/
structure Dynbuf where
  bufr : Option Bytes
  allc : Nat
  toobig : Nat
  deriving DecidableEq

namespace Dynbuf

/-- `curlx_dyn_init`. -/
def init (toobig : Nat) : Dynbuf := { bufr := none, allc := 0, toobig }

/-- `curlx_dyn_free`. -/
def free (s : Dynbuf) : Dynbuf := { s with bufr := none, allc := 0 }

/-- `curlx_dyn_reset`: the allocation stays. -/
def reset (s : Dynbuf) : Dynbuf := { s with bufr := s.bufr.map fun _ => [] }

/-- The bytes in the buffer. -/
def content (s : Dynbuf) : Bytes := s.bufr.getD []

/-- `curlx_dyn_tail`: keep the last `trail` bytes. -/
def tail (s : Dynbuf) (trail : Nat) : Dynbuf × Curlcode :=
  if trail > s.content.length then (s, .badFunctionArgument)
  else if trail = s.content.length then (s, .ok)
  else ({ s with bufr := s.bufr.map fun bytes => bytes.drop (bytes.length - trail) }, .ok)

/-- `curlx_dyn_setlen`: keep the first `set` bytes. -/
def setlen (s : Dynbuf) (set : Nat) : Dynbuf × Curlcode :=
  if set > s.content.length then (s, .badFunctionArgument)
  else ({ s with bufr := s.bufr.map (·.take set) }, .ok)

/-- Double `a` until it reaches `fit`. -/
def doubleTo (fit : Nat) : Nat → Nat → Nat
  | 0, a => a
  | fuel + 1, a => if a < fit then doubleTo fit fuel (a * 2) else a

/-- The size of the allocation that holds `fit` bytes. -/
def allocSize (s : Dynbuf) (fit : Nat) : Nat :=
  if s.allc = 0 then if 32 > s.toobig then s.toobig else if fit < 32 then 32 else fit
  else min (doubleTo fit fit s.allc) s.toobig

/-- The buffer has to grow for `mem`. -/
def grows (s : Dynbuf) (mem : Bytes) : Bool :=
  let fit := mem.length + s.content.length + 1
  fit ≤ s.toobig && s.allocSize fit != s.allc

/-- `dyn_nappend`; `granted` tells whether `realloc` finds the memory. -/
def nappend (s : Dynbuf) (mem : Bytes) (granted : Bool) : Dynbuf × Curlcode :=
  let fit := mem.length + s.content.length + 1
  if fit > s.toobig then (s.free, .tooLarge)
  else if s.grows mem && !granted then (s.free, .outOfMemory)
  else ({ s with bufr := some (s.content ++ mem), allc := s.allocSize fit }, .ok)

theorem content_reset (s : Dynbuf) : s.reset.content = [] := by
  unfold reset content
  cases s.bufr <;> rfl

theorem content_free (s : Dynbuf) : s.free.content = [] := rfl

/-- `curlx_dyn_tail` with what is there. -/
theorem tail_spec (s : Dynbuf) {trail : Nat} (h : trail ≤ s.content.length) :
    (s.tail trail).2 = .ok ∧ (s.tail trail).1.content = s.content.drop (s.content.length - trail) ∧
      (s.tail trail).1.toobig = s.toobig := by
  unfold tail
  rw [if_neg (Nat.not_lt.mpr h)]
  by_cases hall : trail = s.content.length
  · rw [if_pos hall, hall, Nat.sub_self]
    exact ⟨rfl, rfl, rfl⟩
  · rw [if_neg hall]
    refine ⟨rfl, ?_, rfl⟩
    unfold content
    cases s.bufr with
    | none => simp
    | some bytes => rfl

/-- `curlx_dyn_setlen` with what is there. -/
theorem setlen_spec (s : Dynbuf) {set : Nat} (h : set ≤ s.content.length) :
    (s.setlen set).1.content = s.content.take set ∧ (s.setlen set).1.toobig = s.toobig := by
  unfold setlen
  rw [if_neg (Nat.not_lt.mpr h)]
  refine ⟨?_, rfl⟩
  unfold content
  cases s.bufr with
  | none => exact List.take_nil.symm
  | some bytes => rfl

/-- Bytes that fit, with the zero behind them, get to the end of the content. -/
theorem nappend_ok {s : Dynbuf} {mem : Bytes}
    (h : mem.length + s.content.length + 1 ≤ s.toobig) :
    (s.nappend mem true).2 = .ok ∧ (s.nappend mem true).1.content = s.content ++ mem ∧
      (s.nappend mem true).1.toobig = s.toobig := by
  unfold nappend
  simp only [if_neg (Nat.not_lt.mpr h), Bool.not_true, Bool.and_false, Bool.false_eq_true,
    if_false]
  exact ⟨trivial, rfl, trivial⟩

/-- Bytes that do not fit make the buffer lose all of its content. -/
theorem nappend_error {s : Dynbuf} {mem : Bytes}
    (h : mem.length + s.content.length + 1 > s.toobig) (granted : Bool) :
    s.nappend mem granted = (s.free, .tooLarge) := if_pos h

end Dynbuf

end Gurl
