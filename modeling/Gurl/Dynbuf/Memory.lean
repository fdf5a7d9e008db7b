import Gurl.Dynbuf

/-! `lib/curlx/dynbuf.c` over the memory that it allocates: what each call reads and writes. -/

namespace Gurl.Dynbuf

/-- `SIZE_MAX`. -/
def sizeMax : Nat := 2 ^ 64 - 1

/-- `MAX_DYNBUF_SIZE`. -/
def maxDynbufSize : Nat := sizeMax / 2

/-- `struct dynbuf`, where `bufr` is all of the memory that `s->bufr` points to. -/
structure Raw where
  bufr : Option Bytes
  leng : Nat
  allc : Nat
  toobig : Nat

/-- Write bytes from an index on. There has to be memory there. -/
def store (bufr : Option Bytes) (i : Nat) (bytes : Bytes) : Option Bytes :=
  match bufr with
  | none => none
  | some m =>
    if i + bytes.length ≤ m.length then some (m.take i ++ bytes ++ m.drop (i + bytes.length))
    else none

/-- Read `n` bytes from an index on. -/
def load (bufr : Option Bytes) (i n : Nat) : Option Bytes :=
  match bufr with
  | none => none
  | some m => if i + n ≤ m.length then some ((m.drop i).take n) else none

/-- `realloc`, where it finds the memory. What the new bytes hold is not known. -/
def realloc (bufr : Option Bytes) (a : Nat) (junk : Nat → UInt8) : Bytes :=
  let old := (bufr.getD []).take a
  old ++ (List.range (a - old.length)).map junk

namespace Raw

/-- `curlx_dyn_init`. -/
def init (toobig : Nat) : Raw := { bufr := none, leng := 0, allc := 0, toobig }

/-- `curlx_dyn_free`. -/
def free (s : Raw) : Raw := { s with bufr := none, leng := 0, allc := 0 }

/-- `while(a < fit) a *= 2`. -/
def double (fit : Nat) : Nat → Nat → Nat
  | 0, a => a
  | fuel + 1, a => if a < fit then double fit fuel (a * 2 % 2 ^ 64) else a

/-- The size that `dyn_nappend` asks for. -/
def newSize (s : Raw) (fit : Nat) : Nat :=
  if s.allc = 0 then if 32 > s.toobig then s.toobig else if fit < 32 then 32 else fit
  else
    let a := double fit fit s.allc
    if a > s.toobig then s.toobig else a

/-- `dyn_nappend`; `granted` tells whether `realloc` finds the memory. -/
def nappend (s : Raw) (mem : Bytes) (granted : Bool) (junk : Nat → UInt8) :
    Option (Raw × Curlcode) :=
  let idx := s.leng
  let fit := (mem.length + idx + 1) % 2 ^ 64
  if fit > s.toobig then some (s.free, .tooLarge)
  else
    let a := s.newSize fit
    if a ≠ s.allc ∧ !granted then some (s.free, .outOfMemory)
    else
      let bufr := if a ≠ s.allc then some (realloc s.bufr a junk) else s.bufr
      let bufr := if mem ≠ [] then store bufr idx mem else bufr
      (store bufr (idx + mem.length) [0]).map fun m =>
        ({ s with bufr := some m, leng := idx + mem.length, allc := a }, .ok)

/-- `curlx_dyn_reset`. -/
def reset (s : Raw) : Option Raw :=
  if s.leng ≠ 0 then (store s.bufr 0 [0]).map fun m => { s with bufr := some m, leng := 0 }
  else some { s with leng := 0 }

/-- `curlx_dyn_tail`. -/
def tail (s : Raw) (trail : Nat) : Option (Raw × Curlcode) :=
  if trail > s.leng then some (s, .badFunctionArgument)
  else if trail = s.leng then some (s, .ok)
  else if trail = 0 then s.reset.map fun s => (s, .ok)
  else do
    let bytes ← load s.bufr (s.leng - trail) trail
    let m ← store s.bufr 0 bytes
    let m ← store (some m) trail [0]
    some ({ s with bufr := some m, leng := trail }, .ok)

/-- `curlx_dyn_setlen`. -/
def setlen (s : Raw) (set : Nat) : Option (Raw × Curlcode) :=
  if set > s.leng then some (s, .badFunctionArgument)
  else (store s.bufr set [0]).map fun m => ({ s with bufr := some m, leng := set }, .ok)

/-- `curlx_dyn_take`: the memory and the length of what it holds. -/
def take (s : Raw) : (Option Bytes × Nat) × Raw :=
  ((s.bufr, s.leng), { s with bufr := none, leng := 0, allc := 0 })

end Raw

/-- A call on a buffer. `add` is given the memory that its string lies in. -/
inductive Op where
  | addn (mem : Bytes) (granted : Bool) (junk : Nat → UInt8)
  | add (str : Bytes) (granted : Bool) (junk : Nat → UInt8)
  | reset
  | tail (trail : Nat)
  | setlen (set : Nat)
  | take
  | free

/-- A call, where it only uses memory that is there. -/
def Raw.call (s : Raw) : Op → Option (Raw × Curlcode)
  | .addn mem granted junk => s.nappend mem granted junk
  | .add str granted junk => s.nappend (str.takeWhile (· ≠ 0)) granted junk
  | .reset => s.reset.map fun s => (s, .ok)
  | .tail trail => s.tail trail
  | .setlen set => s.setlen set
  | .take => some (s.take.2, .ok)
  | .free => some (s.free, .ok)

/-- The bytes that a call adds, and whether it is granted memory for them. -/
def Op.appends : Op → Option (Bytes × Bool)
  | .addn mem granted _ => some (mem, granted)
  | .add str granted _ => some (str.takeWhile (· ≠ 0), granted)
  | _ => none

/-- The lengths that the program can pass. -/
def Op.Sized (op : Op) : Prop := ∀ mem granted, op.appends = some (mem, granted) →
  mem.length < sizeMax / 2

/-- What holds of a buffer between calls. -/
def Raw.Sound (s : Raw) : Prop :=
  (s.bufr = none ∧ s.leng = 0) ∨
    ∃ m, s.bufr = some m ∧ m.length = s.allc ∧ s.leng + 1 ≤ s.allc ∧ s.allc ≤ s.toobig ∧
      m[s.leng]? = some 0

/-- An append succeeds where it fits and finds memory, and a buffer that it fails on is empty. -/
def AppendRight (s : Raw) (op : Op) (s' : Raw) (result : Curlcode) : Prop :=
  ∀ mem granted, op.appends = some (mem, granted) →
    (result = .ok → s.leng + mem.length + 1 ≤ s.toobig) ∧
    (granted = true → s.leng + mem.length + 1 ≤ s.toobig → result = .ok) ∧
    (result ≠ .ok → s'.bufr = none ∧ s'.leng = 0)

/-- All the calls of a run use memory that is there, leave the buffer sound, and append what
fits. -/
def SafeRun (s : Raw) : List Op → Prop
  | [] => s.Sound
  | op :: ops => s.Sound ∧ ∃ s' result, s.call op = some (s', result) ∧ AppendRight s op s' result ∧
      SafeRun s' ops

/-- No call of a run sets the length of a buffer that is not allocated to zero. -/
def Guarded (s : Raw) : List Op → Prop
  | [] => True
  | op :: ops => ¬(s.bufr = none ∧ op = .setlen 0) ∧
      ∀ s' result, s.call op = some (s', result) → Guarded s' ops

section
variable {m pre old bytes post content mem : Bytes} {i n a fit toobig : Nat} {s s' : Raw}
  {granted : Bool} {junk : Nat → UInt8} {result : Curlcode}

variable (pre old bytes post) in
/-- A write over as many bytes as there are. -/
theorem store_over (hi : pre.length = i) (hlen : old.length = bytes.length) :
    store (some (pre ++ old ++ post)) i bytes = some (pre ++ bytes ++ post) := by
  subst hi
  have hfits : pre.length + bytes.length ≤ (pre ++ old ++ post).length := by
    simp only [List.length_append]
    omega
  have hdrop : (pre ++ old ++ post).drop (pre.length + bytes.length) = post := by
    rw [← hlen, ← List.length_append, List.drop_left]
  have htake : (pre ++ old ++ post).take pre.length = pre := by
    rw [List.append_assoc, List.take_left]
  simp only [store]
  rw [if_pos hfits, hdrop, htake]

theorem realloc_length : (realloc (some m) a junk).length = a := by
  simp only [realloc, Option.getD_some, List.length_append, List.length_take, List.length_map,
    List.length_range]
  omega

theorem realloc_none_length : (realloc none a junk).length = a := by
  simp [realloc]

variable (junk) in
/-- A larger allocation begins with what was there. -/
theorem realloc_larger (h : m.length ≤ a) : ∃ rest, realloc (some m) a junk = m ++ rest := by
  refine ⟨(List.range (a - m.length)).map junk, ?_⟩
  simp only [realloc, Option.getD_some]
  rw [List.take_of_length_le h]

/-- The doubling does not overflow, as far as it is needed. -/
theorem double_eq (hfit : fit ≤ maxDynbufSize) (fuel : Nat) : ∀ a, Raw.double fit fuel a =
    doubleTo fit fuel a := by
  induction fuel with
  | zero => exact fun _ => rfl
  | succ fuel ih =>
    intro a
    simp only [Raw.double, doubleTo]
    split
    · have hmax : maxDynbufSize = 9223372036854775807 := by decide
      rw [Nat.mod_eq_of_lt (by omega), ih]
    · rfl

variable (fit) in
theorem le_doubleTo (fuel : Nat) : ∀ a, a ≤ doubleTo fit fuel a := by
  induction fuel with
  | zero => exact fun a => le_refl a
  | succ fuel ih =>
    intro a
    simp only [doubleTo]
    split
    · exact le_trans (by omega) (ih (a * 2))
    · exact le_refl a

variable (fit) in
/-- The doubling gets as far as it is needed. -/
theorem fit_le_doubleTo (fuel : Nat) : ∀ a, 0 < a → fit ≤ a + fuel → fit ≤ doubleTo fit fuel a := by
  induction fuel with
  | zero => exact fun a _ h => h
  | succ fuel ih =>
    intro a ha h
    simp only [doubleTo]
    split
    · apply ih
      · omega
      · omega
    · omega

/-- What holds of a buffer between calls, as it lies in memory: there is none, or it is the content
and a zero, with the rest of the allocation behind. -/
inductive Raw.Ok : Raw → Prop
  | empty (toobig : Nat) : toobig ≤ maxDynbufSize → Raw.Ok ⟨none, 0, 0, toobig⟩
  | filled (content rest : Bytes) (toobig : Nat) : toobig ≤ maxDynbufSize →
      content.length + 1 + rest.length ≤ toobig →
      Raw.Ok ⟨some (content ++ 0 :: rest), content.length, content.length + 1 + rest.length, toobig⟩

theorem Raw.Ok.sound (h : s.Ok) : s.Sound := by
  cases h with
  | empty toobig hbig => exact .inl ⟨rfl, rfl⟩
  | filled content rest toobig hbig hfits =>
    refine .inr ⟨_, rfl, ?_, ?_, hfits, ?_⟩
    · simp only [List.length_append, List.length_cons]
      omega
    · dsimp only
      omega
    · simp

theorem Raw.Ok.freed (h : s.Ok) : s.free.Ok := by
  cases h with
  | empty toobig hbig => exact .empty toobig hbig
  | filled content rest toobig hbig hfits => exact .empty toobig hbig

/-- The content with its zero, and the size that is asked for. -/
theorem newSize_fits (h : s.Ok) (hfit : 0 < fit) (hbig : fit ≤ s.toobig) :
    fit ≤ s.newSize fit ∧ s.newSize fit ≤ s.toobig ∧ s.allc ≤ s.newSize fit := by
  cases h with
  | empty toobig hmax =>
    simp only [Raw.newSize, if_true]
    split
    · exact ⟨hbig, le_refl _, Nat.zero_le _⟩
    split <;> dsimp only at * <;> omega
  | filled content rest toobig hmax hroom =>
    have hdouble := double_eq (hbig.trans hmax) fit (content.length + 1 + rest.length)
    have hself := le_doubleTo fit fit (content.length + 1 + rest.length)
    have henough := fit_le_doubleTo fit fit (content.length + 1 + rest.length) (by omega)
      (by omega)
    dsimp only at hbig
    simp only [Raw.newSize, hdouble]
    rw [if_neg (by omega)]
    split <;> omega

/-- The two writes of `dyn_nappend`, where there is room behind the content. -/
theorem append_stores (content : Bytes) {room : Bytes} (h : mem.length + 1 ≤ room.length) :
    ∃ rest, mem.length + 1 + rest.length = room.length ∧
      store (if mem ≠ [] then store (some (content ++ room)) content.length mem
        else some (content ++ room)) (content.length + mem.length) [0] =
          some (content ++ mem ++ 0 :: rest) := by
  obtain ⟨x, rest, hbehind⟩ := List.exists_cons_of_length_pos
    (show 0 < (room.drop mem.length).length by rw [List.length_drop]; omega)
  have hover : (room.take mem.length).length = mem.length := by
    rw [List.length_take]
    omega
  have hroom : room = room.take mem.length ++ x :: rest := by
    rw [← hbehind, List.take_append_drop]
  have hlen : mem.length + 1 + rest.length = room.length := by
    have := congrArg List.length hroom
    rw [List.length_append, hover, List.length_cons] at this
    omega
  have hfirst : (if mem ≠ [] then store (some (content ++ room)) content.length mem
      else some (content ++ room)) = some (content ++ mem ++ x :: rest) := by
    split
    · rw [hroom, ← List.append_assoc]
      exact store_over _ _ _ _ rfl hover
    · rename_i hnil
      rw [not_not.mp hnil] at hbehind ⊢
      rw [List.length_nil, List.drop_zero] at hbehind
      rw [hbehind, List.append_nil]
  refine ⟨rest, hlen, ?_⟩
  have hsecond := store_over (content ++ mem) [x] [0] rest (i := content.length + mem.length)
    List.length_append rfl
  rw [hfirst]
  simpa only [List.append_assoc, List.singleton_append] using hsecond

/-- The buffer as what it holds. -/
def Raw.view (s : Raw) : Dynbuf :=
  { bufr := s.bufr.map (·.take s.leng), allc := s.allc, toobig := s.toobig }

theorem Raw.Ok.view_length (h : s.Ok) : s.view.content.length = s.leng := by
  cases h with
  | empty toobig hbig => rfl
  | filled content rest toobig hbig hroom => simp [Raw.view, Dynbuf.content]

theorem Raw.Ok.toobig_le (h : s.Ok) : s.toobig ≤ maxDynbufSize ∧ s.leng ≤ s.toobig := by
  cases h with
  | empty toobig hbig => exact ⟨hbig, Nat.zero_le _⟩
  | filled content rest toobig hbig hroom => exact ⟨hbig, by dsimp only; omega⟩

theorem Raw.Ok.view_allocSize (h : s.Ok) (hbig : fit ≤ s.toobig) :
    s.view.allocSize fit = s.newSize fit := by
  have hmax := h.toobig_le.1
  have hallc : s.view.allc = s.allc := rfl
  have htoobig : s.view.toobig = s.toobig := rfl
  simp only [allocSize, Raw.newSize, hallc, htoobig, double_eq (hbig.trans hmax)]
  by_cases hallc : s.allc = 0
  · rw [if_pos hallc, if_pos hallc]
  · rw [if_neg hallc, if_neg hallc]
    split <;> omega

/-- The size that an append asks for does not overflow. -/
theorem Raw.Ok.fit_eq (h : s.Ok) (hsized : mem.length < sizeMax / 2) :
    (mem.length + s.leng + 1) % 2 ^ 64 = mem.length + s.leng + 1 := by
  obtain ⟨hbig, hleng⟩ := h.toobig_le
  have hmax : maxDynbufSize = 9223372036854775807 := by decide
  have hhalf : sizeMax / 2 = 9223372036854775807 := by decide
  exact Nat.mod_eq_of_lt (by omega)

/-- An append does to the memory what it does to the content. -/
theorem nappend_memory (h : s.Ok) (hsized : mem.length < sizeMax / 2) :
    ∃ s' result, s.nappend mem granted junk = some (s', result) ∧ s'.Ok ∧
      s.view.nappend mem granted = (s'.view, result) := by
  obtain ⟨hbig, hleng⟩ := h.toobig_le
  have hview : s.view.toobig = s.toobig := rfl
  simp only [Raw.nappend, Dynbuf.nappend, h.fit_eq hsized, h.view_length, hview]
  split
  · exact ⟨_, _, rfl, h.freed, rfl⟩
  rename_i hfits
  obtain ⟨hfit, hle, hallc⟩ := newSize_fits h (show 0 < mem.length + s.leng + 1 by omega)
    (by omega)
  have hsize := h.view_allocSize (show mem.length + s.leng + 1 ≤ s.toobig by omega)
  have hgrows : s.view.grows mem = decide (s.newSize (mem.length + s.leng + 1) ≠ s.allc) := by
    have hroom : mem.length + s.leng + 1 ≤ s.toobig := by omega
    have hallc' : s.view.allc = s.allc := rfl
    simp only [grows, h.view_length, hsize, hview, hallc', hroom, decide_true, Bool.true_and, bne,
      beq_eq_decide, ne_eq, decide_not]
  rw [hgrows, hsize]
  generalize s.newSize (mem.length + s.leng + 1) = a at *
  have hboth : (decide (a ≠ s.allc) && !granted) = true ↔ a ≠ s.allc ∧ (!granted) = true := by
    simp only [Bool.and_eq_true, decide_eq_true_eq]
  by_cases hrefused : a ≠ s.allc ∧ (!granted) = true
  · rw [if_pos hrefused, if_pos (hboth.mpr hrefused)]
    exact ⟨_, _, rfl, h.freed, rfl⟩
  rw [if_neg hrefused, if_neg (mt hboth.mp hrefused)]
  have hblock : ∃ room, s.view.content.length = s.leng ∧ s.leng + room.length = a ∧
      (if a ≠ s.allc then some (realloc s.bufr a junk) else s.bufr) =
        some (s.view.content ++ room) := by
    cases h with
    | empty toobig hmax =>
      dsimp only at *
      refine ⟨realloc none a junk, rfl, by rw [realloc_none_length, Nat.zero_add], ?_⟩
      rw [if_pos (by omega)]
      rfl
    | filled content rest toobig hmax hroom =>
      dsimp only at *
      have hcontent : (Raw.view ⟨some (content ++ 0 :: rest), content.length,
          content.length + 1 + rest.length, toobig⟩).content = content := by
        simp [Raw.view, Dynbuf.content]
      rw [hcontent]
      by_cases hgrow : a = content.length + 1 + rest.length
      · exact ⟨0 :: rest, rfl, by rw [List.length_cons]; omega, if_neg (not_not.mpr hgrow)⟩
      · obtain ⟨more, hmore⟩ := realloc_larger junk (show (content ++ 0 :: rest).length ≤ a by
          simp only [List.length_append, List.length_cons]
          omega)
        have hlen := congrArg List.length hmore
        rw [realloc_length] at hlen
        simp only [List.length_append, List.length_cons] at hlen
        refine ⟨0 :: rest ++ more, rfl, ?_, ?_⟩
        · simp only [List.length_append, List.length_cons]
          omega
        · rw [if_pos hgrow, hmore]
          simp
  obtain ⟨room, hleng, hroom, heq⟩ := hblock
  obtain ⟨rest, hrest, hstores⟩ := append_stores s.view.content
    (show mem.length + 1 ≤ room.length by omega)
  rw [hleng] at hstores
  rw [heq, hstores]
  have hok := Raw.Ok.filled (s.view.content ++ mem) rest s.toobig hbig
    (by rw [List.length_append, hleng]; omega)
  rw [List.length_append, hleng, show s.leng + mem.length + 1 + rest.length = a by omega] at hok
  have htake : (s.view.content ++ mem ++ 0 :: rest).take (s.leng + mem.length) =
      s.view.content ++ mem := by
    rw [← hleng, ← List.length_append, List.take_left]
  refine ⟨_, _, rfl, hok, ?_⟩
  change _ = (Dynbuf.mk (some (List.take _ _)) _ _, _)
  rw [htake]

/-- The content with its zero cut after `n` bytes. -/
theorem store_zero (content rest : Bytes) (h : n ≤ content.length) :
    ∃ rest', store (some (content ++ 0 :: rest)) n [0] = some (content.take n ++ 0 :: rest') ∧
      n + 1 + rest'.length = content.length + 1 + rest.length := by
  obtain ⟨x, behind, hbehind⟩ := List.exists_cons_of_length_pos
    (show 0 < ((content ++ 0 :: rest).drop n).length by
      rw [List.length_drop, List.length_append, List.length_cons]; omega)
  have hsplit : content ++ 0 :: rest = content.take n ++ [x] ++ behind := by
    rw [List.append_assoc, List.singleton_append, ← hbehind, ← List.take_append_of_le_length h,
      List.take_append_drop]
  have htake : (content.take n).length = n := List.length_take_of_le h
  refine ⟨behind, ?_, ?_⟩
  · have hstore := store_over _ [x] [0] behind htake rfl
    rw [hsplit, hstore, List.append_assoc, List.singleton_append]
  · have := congrArg List.length hsplit
    simp only [List.length_append, List.length_cons, List.length_nil, htake] at this
    omega

theorem view_filled (content rest : Bytes) (allc toobig : Nat) :
    Raw.view ⟨some (content ++ 0 :: rest), content.length, allc, toobig⟩ =
      ⟨some content, allc, toobig⟩ := by
  simp [Raw.view]

/-- A buffer that keeps the first `n` bytes of its content. -/
theorem cut_ok {content rest : Bytes} (hbig : toobig ≤ maxDynbufSize)
    (hroom : content.length + 1 + rest.length ≤ toobig) (h : n ≤ content.length) :
    ∃ m, store (some (content ++ 0 :: rest)) n [0] = some m ∧
      Raw.Ok ⟨some m, n, content.length + 1 + rest.length, toobig⟩ ∧
      Raw.view ⟨some m, n, content.length + 1 + rest.length, toobig⟩ =
        ⟨some (content.take n), content.length + 1 + rest.length, toobig⟩ := by
  obtain ⟨rest', hstore, hlen⟩ := store_zero content rest h
  have htake : (content.take n).length = n := List.length_take_of_le h
  have hok := Raw.Ok.filled (content.take n) rest' toobig hbig (by omega)
  have hview := view_filled (content.take n) rest' (content.length + 1 + rest.length) toobig
  rw [htake, hlen] at hok
  rw [htake] at hview
  exact ⟨_, hstore, hok, hview⟩

theorem reset_memory (h : s.Ok) :
    ∃ s', s.reset = some s' ∧ s'.Ok ∧ s.view.reset = s'.view := by
  cases h with
  | empty toobig hbig => exact ⟨_, rfl, .empty toobig hbig, rfl⟩
  | filled content rest toobig hbig hroom =>
    obtain ⟨m, hstore, hok, hview⟩ := cut_ok hbig hroom (Nat.zero_le _)
    simp only [Raw.reset]
    split
    · rw [hstore, view_filled]
      exact ⟨_, rfl, hok, hview.symm⟩
    · rename_i hnil
      have hcontent := List.eq_nil_of_length_eq_zero (not_not.mp hnil)
      subst hcontent
      exact ⟨_, rfl, .filled [] rest toobig hbig hroom, rfl⟩

/-- Where there is no memory, the length cannot be set, not even to zero. -/
theorem setlen_memory (h : s.Ok) (hguard : ¬(s.bufr = none ∧ n = 0)) :
    ∃ s' result, s.setlen n = some (s', result) ∧ s'.Ok ∧
      s.view.setlen n = (s'.view, result) := by
  simp only [Raw.setlen, Dynbuf.setlen, h.view_length]
  split
  · exact ⟨_, _, rfl, h, rfl⟩
  rename_i hle
  cases h with
  | empty toobig hbig => exact absurd ⟨rfl, by simpa using hle⟩ hguard
  | filled content rest toobig hbig hroom =>
    obtain ⟨m, hstore, hok, hview⟩ := cut_ok hbig hroom (Nat.not_lt.mp hle)
    rw [hstore, view_filled]
    exact ⟨_, _, rfl, hok, Prod.ext hview.symm rfl⟩

/-- The last `n` bytes are moved to the front. -/
theorem move_ok {content rest : Bytes} (hbig : toobig ≤ maxDynbufSize)
    (hroom : content.length + 1 + rest.length ≤ toobig) (h : n < content.length) :
    ∃ m m', load (some (content ++ 0 :: rest)) (content.length - n) n =
        some (content.drop (content.length - n)) ∧
      store (some (content ++ 0 :: rest)) 0 (content.drop (content.length - n)) = some m ∧
      store (some m) n [0] = some m' ∧
      Raw.Ok ⟨some m', n, content.length + 1 + rest.length, toobig⟩ ∧
      Raw.view ⟨some m', n, content.length + 1 + rest.length, toobig⟩ =
        ⟨some (content.drop (content.length - n)), content.length + 1 + rest.length, toobig⟩ := by
  have hkept : (content.drop (content.length - n)).length = n := by
    rw [List.length_drop]
    omega
  have hload : load (some (content ++ 0 :: rest)) (content.length - n) n =
      some (content.drop (content.length - n)) := by
    simp only [load]
    rw [if_pos (by rw [List.length_append]; omega),
      List.drop_append_of_le_length (by omega : content.length - n ≤ content.length),
      List.take_left' hkept]
  generalize hkeep : content.drop (content.length - n) = kept at *
  obtain ⟨x, behind, hbehind⟩ := List.exists_cons_of_length_pos
    (show 0 < (content.drop n).length by rw [List.length_drop]; omega)
  have hsplit : content ++ 0 :: rest = [] ++ content.take n ++ (x :: behind ++ 0 :: rest) := by
    rw [List.nil_append, ← hbehind, ← List.append_assoc, List.take_append_drop]
  have hmove := store_over [] (content.take n) kept (x :: behind ++ 0 :: rest) rfl
    (by rw [List.length_take_of_le h.le, hkept])
  rw [← hsplit, List.nil_append] at hmove
  have hzero := store_over kept [x] [0] (behind ++ 0 :: rest) hkept rfl
  have hlen := congrArg List.length hbehind
  rw [List.length_drop, List.length_cons] at hlen
  have hok := Raw.Ok.filled kept (behind ++ 0 :: rest) toobig hbig
    (by rw [hkept, List.length_append, List.length_cons]; omega)
  have hallc : n + 1 + (behind ++ 0 :: rest).length = content.length + 1 + rest.length := by
    rw [List.length_append, List.length_cons]
    omega
  have hview := view_filled kept (behind ++ 0 :: rest) (content.length + 1 + rest.length) toobig
  rw [hkept, hallc] at hok
  rw [hkept] at hview
  refine ⟨_, kept ++ 0 :: (behind ++ 0 :: rest), hload, hmove, ?_, hok, hview⟩
  simpa only [List.append_assoc, List.singleton_append, List.cons_append, List.nil_append] using
    hzero

theorem tail_memory (h : s.Ok) :
    ∃ s' result, s.tail n = some (s', result) ∧ s'.Ok ∧ s.view.tail n = (s'.view, result) := by
  simp only [Raw.tail, Dynbuf.tail, h.view_length]
  split
  · exact ⟨_, _, rfl, h, rfl⟩
  split
  · exact ⟨_, _, rfl, h, rfl⟩
  rename_i hle hne
  split
  · rename_i hzero
    subst hzero
    obtain ⟨s', hreset, hok, hview⟩ := reset_memory h
    rw [hreset]
    refine ⟨_, _, rfl, hok, ?_⟩
    have hdrop : (s.view.bufr.map fun bytes => bytes.drop (bytes.length - 0)) =
        s.view.bufr.map fun _ => [] := by simp
    rw [hdrop, ← hview]
    rfl
  · cases h with
    | empty toobig hbig => exact absurd (Nat.not_lt.mp hle) (by simpa using hne)
    | filled content rest toobig hbig hroom =>
      obtain ⟨m, m', hload, hmove, hzero, hok, hview⟩ := move_ok hbig hroom
        (lt_of_le_of_ne (Nat.not_lt.mp hle) hne)
      simp only [hload, hmove, hzero, Option.bind_eq_bind, Option.bind_some, view_filled]
      exact ⟨_, _, rfl, hok, Prod.ext hview.symm rfl⟩

/-- The call on what the buffer holds. -/
def call (s : Dynbuf) : Op → Dynbuf × Curlcode
  | .addn mem granted _ => s.nappend mem granted
  | .add str granted _ => s.nappend (str.takeWhile (· ≠ 0)) granted
  | .reset => (s.reset, .ok)
  | .tail trail => s.tail trail
  | .setlen set => s.setlen set
  | .take => (s.free, .ok)
  | .free => (s.free, .ok)

/-- The memory follows the content: a call uses memory that is there, and does to it what it does to
the content, except where it sets the length of no buffer at all. -/
theorem call_memory {op : Op} (h : s.Ok) (hsized : op.Sized)
    (hguard : ¬(s.bufr = none ∧ op = .setlen 0)) :
    ∃ s' result, s.call op = some (s', result) ∧ s'.Ok ∧ s.view.call op = (s'.view, result) := by
  cases op with
  | addn mem granted junk => exact nappend_memory h (hsized mem granted rfl)
  | add str granted junk => exact nappend_memory h (hsized _ granted rfl)
  | reset =>
    obtain ⟨s', hreset, hok, hview⟩ := reset_memory h
    simp only [Raw.call, call, hreset, hview]
    exact ⟨_, _, rfl, hok, rfl⟩
  | tail trail => exact tail_memory h
  | setlen set => exact setlen_memory h fun hboth => hguard ⟨hboth.1, by rw [hboth.2]⟩
  | take => exact ⟨_, _, rfl, h.freed, rfl⟩
  | free => exact ⟨_, _, rfl, h.freed, rfl⟩

theorem call_unallocated (hnone : s.bufr = none) : s.call (.setlen 0) = none := by
  simp [Raw.call, Raw.setlen, hnone, store]

/-- An append, seen from what the buffer holds. -/
theorem nappend_right (h : s.Ok) (hok : s'.Ok)
    (hview : s.view.nappend mem granted = (s'.view, result)) :
    (result = .ok → s.leng + mem.length + 1 ≤ s.toobig) ∧
      (granted = true → s.leng + mem.length + 1 ≤ s.toobig → result = .ok) ∧
      (result ≠ .ok → s'.bufr = none ∧ s'.leng = 0) := by
  have hempty (hfree : s.view.free = s'.view) : s'.bufr = none ∧ s'.leng = 0 := by
    have hbufr : s'.view.bufr = none := by rw [← hfree]; rfl
    cases hok with
    | empty toobig hbig => exact ⟨rfl, rfl⟩
    | filled content rest toobig hbig hroom => cases hbufr
  have htoobig : s.view.toobig = s.toobig := rfl
  simp only [Dynbuf.nappend, h.view_length, htoobig] at hview
  split at hview
  · obtain ⟨hs, rfl⟩ := Prod.mk.inj hview
    exact ⟨nofun, fun _ hfits => by omega, fun _ => hempty hs⟩
  split at hview
  · obtain ⟨hs, rfl⟩ := Prod.mk.inj hview
    refine ⟨nofun, fun hgranted _ => ?_, fun _ => hempty hs⟩
    simp_all
  · obtain ⟨-, rfl⟩ := Prod.mk.inj hview
    exact ⟨fun _ => by omega, fun _ _ => rfl, fun hne => absurd rfl hne⟩

theorem appendRight_of_view {op : Op} (h : s.Ok) (hok : s'.Ok)
    (hview : s.view.call op = (s'.view, result)) : AppendRight s op s' result := by
  intro mem granted happends
  cases op with
  | addn mem' granted' junk =>
    cases happends
    exact nappend_right h hok hview
  | add str granted' junk =>
    cases happends
    exact nappend_right h hok hview
  | reset => cases happends
  | tail trail => cases happends
  | setlen set => cases happends
  | take => cases happends
  | free => cases happends

/-- A run from a buffer in order. -/
theorem safeRun_iff (ops : List Op) : ∀ {s : Raw}, s.Ok → (∀ op ∈ ops, op.Sized) →
    (SafeRun s ops ↔ Guarded s ops) := by
  induction ops with
  | nil => exact fun h _ => ⟨fun _ => trivial, fun _ => h.sound⟩
  | cons op ops ih =>
    intro s h hsized
    obtain ⟨hop, hops⟩ := List.forall_mem_cons.mp hsized
    constructor
    · rintro ⟨-, s', result, hcall, -, hrest⟩
      have hguard : ¬(s.bufr = none ∧ op = .setlen 0) := by
        rintro ⟨hnone, rfl⟩
        rw [call_unallocated hnone] at hcall
        cases hcall
      refine ⟨hguard, fun t result' ht => ?_⟩
      obtain ⟨s1, result1, hcall1, hok, -⟩ := call_memory h hop hguard
      rw [hcall] at hcall1 ht
      obtain ⟨rfl, rfl⟩ := Prod.mk.inj (Option.some.inj hcall1)
      obtain ⟨rfl, rfl⟩ := Prod.mk.inj (Option.some.inj ht)
      exact (ih hok hops).mp hrest
    · rintro ⟨hguard, hnext⟩
      obtain ⟨s', result, hcall, hok, hview⟩ := call_memory h hop hguard
      exact ⟨h.sound, s', result, hcall, appendRight_of_view h hok hview,
        (ih hok hops).mpr (hnext s' result hcall)⟩

end

/-- A run of calls on a new buffer only uses memory that is there, keeps the buffer sound and
appends just what fits, if and only if it never sets the length of a buffer that is not allocated to
zero. -/
theorem dynbuf_safe_iff (toobig : Nat) (hbig : toobig ≤ maxDynbufSize) (ops : List Op)
    (hsized : ∀ op ∈ ops, op.Sized) :
    SafeRun (.init toobig) ops ↔ Guarded (.init toobig) ops :=
  safeRun_iff ops (.empty toobig hbig) hsized

/-- A buffer that gets content, is cut to nothing and gets content again. -/
theorem dynbuf_safe_iff_reset :
    SafeRun (.init 10)
      [.addn [97, 98, 99] true fun _ => 0, .setlen 0, .addn [100] true fun _ => 0] :=
  (dynbuf_safe_iff 10 (by decide) _ (by
    simp only [List.forall_mem_cons, List.not_mem_nil, false_imp_iff, implies_true, and_true]
    refine ⟨?_, ?_, ?_⟩ <;> rintro mem granted (⟨⟩ | ⟨⟩) <;> decide)).mpr
    ⟨by simp, by
      rintro _ _ ⟨⟩
      exact ⟨by simp, by rintro _ _ ⟨⟩; exact ⟨by simp, fun _ _ _ => trivial⟩⟩⟩

/-- The length of a new buffer is set to zero, where its memory would be. -/
theorem setlen_unallocated :
    ¬∀ (toobig : Nat) (ops : List Op), toobig ≤ maxDynbufSize → (∀ op ∈ ops, op.Sized) →
      SafeRun (.init toobig) ops := by
  intro hall
  obtain ⟨-, s', result, hcall, -⟩ := hall 10 [.setlen 0] (by decide) (by
    intro op hop mem granted happends
    rw [List.mem_singleton.mp hop] at happends
    cases happends)
  cases hcall

end Gurl.Dynbuf
