import Gurl.CwOut.Calls
import Gurl.CwOut.Pausing

/-! Empty pieces of a body: a callback that pauses takes each of them once and in its place, when no
pause hits one of them and no two of them are buffered one behind the other. -/

namespace Gurl.CwOut

/-- What the callback for the body gets: the bytes one by one, and the calls without any. -/
inductive Event where
  | byte (b : UInt8)
  | empty
  deriving DecidableEq

def events : OutType → Bytes → List Event
  | .body, bytes => bytes.map .byte
  | .body0len, _ => [.empty]
  | .hds, _ => []
  | .none, _ => []

def Buf.events (cwbuf : Buf) : List Event := CwOut.events cwbuf.type cwbuf.b.content

/-- What the callback has accepted. -/
def Ctx.accepted (ctx : Ctx) : List Event := ctx.taken.flatMap fun p => events p.type p.bytes

/-- What is buffered, the oldest first. -/
def Ctx.pending (ctx : Ctx) : List Event := ctx.buf.reverse.flatMap Buf.events

/-- What a call asks to be handed to the callback for the body. -/
def Call.events (setup : Setup) : Call → List Event
  | .write type buf => (writes setup type buf).flatMap fun otype => CwOut.events otype buf
  | .unpause => []
  | .flush _ => []

/-- A call that writes to the body only. -/
def Call.OfBody : Call → Prop
  | .write type _ => type.body = true ∧ type.header = false ∧ type.info = false
  | .unpause => True
  | .flush _ => True

/-- The protocol can be paused, and the size of the file is not limited. -/
structure Setup.Pausable (setup : Setup) : Prop where
  nonetwork : setup.nonetwork = false
  maxFilesize : setup.maxFilesize = 0

/-- The number of calls that hand on `n` bytes of a body. -/
def bodyCalls (n : Nat) : Nat := (n + maxWriteSize - 1) / maxWriteSize

/-- The types of the calls that hand on a buffer. -/
def Buf.pieces (cwbuf : Buf) : List OutType :=
  if cwbuf.type = .body0len then [.body0len] else List.replicate (bodyCalls cwbuf.len) cwbuf.type

def Ctx.pieces (ctx : Ctx) : List OutType := ctx.buf.reverse.flatMap Buf.pieces

/-- The first pause does not come at an empty piece. -/
def Spares (answers : List Answer) (pieces : List OutType) : Prop :=
  ∀ j, pieces[j]? = some .body0len → Taking answers j → answers.getD j .took ≠ .pause

/-- A write that loses no empty piece: it is not behind another one in the buffer, and the calls
that the write makes do not pause at one. -/
structure Spared (setup : Setup) (ctx : Ctx) (otype : OutType) (flushAll : Bool) (buf : Bytes) :
    Prop where
  apart : otype = .body0len → ∀ cwbuf ∈ ctx.buf.head?, cwbuf.type ≠ .body0len
  pause : ctx.paused = false ∨ ctx.buf = [] →
    Spares ctx.answers (ctx.pieces ++ if otype = .body0len then [otype] else [])
  room : HasRoom setup ctx otype flushAll buf

def Call.Spared (setup : Setup) (ctx : Ctx) : Call → Prop
  | .write type buf => ∀ otype ∈ writes setup type buf, CwOut.Spared setup ctx otype type.eos buf
  | .unpause => True
  | .flush _ => ctx.paused = false → Spares ctx.answers ctx.pieces

section

variable {setup : Setup} {ctx ctx' ctx1 ctx2 : Ctx} {otype : OutType} {answers : List Answer}
  {es fs left : List Event} {m n : Nat} {buf : Bytes}

theorem taking_append (hm : Taking answers m) (hn : Taking (answers.drop m) n) :
    Taking answers (m + n) := by
  intro i hi
  by_cases hlt : i < m
  · exact hm i hlt
  · have hrest := hn (i - m) (by omega)
    rw [List.getD_eq_getElem?_getD, List.getElem?_drop, Nat.add_sub_cancel' (Nat.le_of_not_lt hlt)]
      at hrest
    exact hrest

theorem spares_nil (pieces : List OutType) : Spares [] pieces := by
  intro j _ _
  rw [List.getD_nil]
  decide

theorem spares_append_left {ps qs : List OutType} (h : Spares answers (ps ++ qs)) :
    Spares answers ps := by
  intro j hj
  apply h j
  rw [List.getElem?_append_left (List.getElem?_eq_some_iff.mp hj).1]
  exact hj

theorem spares_append_right {ps qs : List OutType} (h : Spares answers (ps ++ qs))
    (htaking : Taking answers ps.length) : Spares (answers.drop ps.length) qs := by
  intro j hj hrest
  have hthere := h (ps.length + j)
    (by rw [List.getElem?_append_right (Nat.le_add_right _ _), Nat.add_sub_cancel_left]; exact hj)
    (taking_append htaking hrest)
  rw [List.getD_eq_getElem?_getD, List.getElem?_drop]
  exact hthere

/-- Bytes behind the empty pieces do not matter. -/
theorem spares_append_body {ps : List OutType} (h : Spares answers ps) (n : Nat) :
    Spares answers (ps ++ List.replicate n .body) := by
  intro j hj
  rcases Nat.lt_or_ge j ps.length with hlt | hge
  · rw [List.getElem?_append_left hlt] at hj
    exact h j hj
  · rw [List.getElem?_append_right hge] at hj
    have hbody := List.eq_of_mem_replicate (List.mem_of_getElem? hj)
    cases hbody

/-- `k` calls that hand on all events. -/
structure Through (ctx : Ctx) (es : List Event) (k : Nat) (ctx' : Ctx) : Prop where
  taking : Taking ctx.answers k
  answers : ctx'.answers = ctx.answers.drop k
  accepted : ctx'.accepted = ctx.accepted ++ es
  paused : ctx'.paused = ctx.paused
  errored : ctx'.errored = ctx.errored
  buf : ctx'.buf = ctx.buf

/-- Calls that hand on events up to a pause. -/
structure Held (ctx : Ctx) (es left : List Event) (ctx' : Ctx) : Prop where
  paused : ctx'.paused = true
  answers : ∃ k, ctx'.answers = ctx.answers.drop k
  accepted : ctx'.accepted ++ left = ctx.accepted ++ es
  errored : ctx'.errored = ctx.errored
  buf : ctx'.buf = ctx.buf

theorem Through.none (ctx : Ctx) : Through ctx [] 0 ctx :=
  ⟨fun i hi => absurd hi (Nat.not_lt_zero i), rfl, (List.append_nil _).symm, rfl, rfl, rfl⟩

theorem Through.trans (h1 : Through ctx es m ctx1) (h2 : Through ctx1 fs n ctx2) :
    Through ctx (es ++ fs) (m + n) ctx2 where
  taking := taking_append h1.taking (h1.answers ▸ h2.taking)
  answers := by rw [h2.answers, h1.answers, List.drop_drop]
  accepted := by rw [h2.accepted, h1.accepted, List.append_assoc]
  paused := h2.paused.trans h1.paused
  errored := h2.errored.trans h1.errored
  buf := h2.buf.trans h1.buf

theorem Through.held (h1 : Through ctx es m ctx1) (h2 : Held ctx1 fs left ctx2) :
    Held ctx (es ++ fs) left ctx2 where
  paused := h2.paused
  answers := by
    obtain ⟨k, hk⟩ := h2.answers
    exact ⟨m + k, by rw [hk, h1.answers, List.drop_drop]⟩
  accepted := by rw [h2.accepted, h1.accepted, List.append_assoc]
  errored := h2.errored.trans h1.errored
  buf := h2.buf.trans h1.buf

theorem Held.more (h : Held ctx es left ctx') (more : List Event) :
    Held ctx (es ++ more) (left ++ more) ctx' where
  paused := h.paused
  answers := h.answers
  accepted := by rw [← List.append_assoc, h.accepted, List.append_assoc]
  errored := h.errored
  buf := h.buf

/-! ### One call -/

theorem cbWrite_took (h : ctx.answers.headD .took = .took) (otype : OutType) (buf : Bytes) :
    ∃ ctx', cbWrite setup ctx otype buf = (ctx', .ok, buf.length) ∧
      Through ctx (events otype buf) 1 ctx' := by
  refine ⟨{ ctx with answers := ctx.answers.tail, taken := ctx.taken ++ [⟨otype, buf⟩] }, ?_, ?_⟩
  · rw [cbWrite, h]
  · refine ⟨fun i hi => ?_, List.drop_one.symm, ?_, rfl, rfl, rfl⟩
    · obtain rfl : i = 0 := Nat.lt_one_iff.mp hi
      cases hanswers : ctx.answers with
      | nil => rfl
      | cons a as =>
        rw [hanswers] at h
        exact h
    · rw [Ctx.accepted, List.flatMap_append, List.flatMap_singleton]
      rfl

theorem cbWrite_pause (hs : setup.Pausable) (h : ctx.answers.headD .took = .pause) (otype : OutType)
    (buf : Bytes) :
    ∃ ctx', cbWrite setup ctx otype buf = (ctx', .again, 0) ∧
      Held ctx (events otype buf) (events otype buf) ctx' := by
  refine ⟨{ ctx with answers := ctx.answers.tail, paused := true }, ?_,
    ⟨rfl, ⟨1, List.drop_one.symm⟩, rfl, rfl, rfl⟩⟩
  rw [cbWrite, h]
  simp [hs.nonetwork]

theorem Through.inc (h : Through ctx es n ctx') (otype : OutType) (delta : Nat) :
    Through ctx es n (pgrsDeliverInc ctx' otype delta) := by
  rw [pgrsDeliverInc]
  split
  · exact ⟨h.taking, h.answers, h.accepted, h.paused, h.errored, h.buf⟩
  · exact h

theorem headD_took_or_pause (h : Answer.failed ∉ ctx.answers) :
    ctx.answers.headD .took = .took ∨ ctx.answers.headD .took = .pause := by
  cases hanswers : ctx.answers with
  | nil => exact .inl rfl
  | cons a as =>
    cases a with
    | took => exact .inl rfl
    | pause => exact .inr rfl
    | failed =>
      rw [hanswers] at h
      exact absurd List.mem_cons_self h

/-! ### Flushing -/

theorem bodyCalls_step (hpos : 0 < n) :
    bodyCalls n = bodyCalls (n - min n maxWriteSize) + 1 := by
  rw [bodyCalls, bodyCalls]
  unfold maxWriteSize
  omega

/-- The loop of `cw_out_ptr_flush` for a body. -/
theorem ptrLoop_body (hs : setup.Pausable) (flushAll : Bool) (fuel : Nat) (ctx : Ctx)
    (hcalm : Answer.failed ∉ ctx.answers) (hpaused : ctx.paused = false) (buf : Bytes)
    (hfuel : buf.length ≤ fuel) :
    (∃ ctx', ptrLoop setup .body flushAll maxWriteSize 0 fuel ctx buf = (ctx', .ok, buf.length) ∧
      Through ctx (events .body buf) (bodyCalls buf.length) ctx') ∨
    (∃ ctx' c, ptrLoop setup .body flushAll maxWriteSize 0 fuel ctx buf = (ctx', .again, c) ∧
      c < buf.length ∧ Held ctx (events .body buf) (events .body (buf.drop c)) ctx') := by
  induction fuel generalizing ctx buf with
  | zero =>
    have hnil : buf = [] := List.length_eq_zero_iff.mp (Nat.le_zero.mp hfuel)
    subst hnil
    exact .inl ⟨ctx, rfl, .none ctx⟩
  | succ fuel ih =>
    rw [ptrLoop]
    by_cases hnil : buf = []
    · subst hnil
      exact .inl ⟨ctx, rfl, .none ctx⟩
    have hpos : 0 < buf.length := List.length_pos_iff.mpr hnil
    have hcheck : pgrsDeliverCheck setup ctx (min buf.length maxWriteSize) = .ok := by
      rw [pgrsDeliverCheck, hs.maxFilesize]
      rfl
    rw [if_neg (by simp [hnil, hpaused]), if_neg (by simp)]
    dsimp only
    rw [if_pos rfl, if_neg (by decide : ¬ maxWriteSize = 0), if_neg (not_not.mpr hcheck)]
    set wlen := min buf.length maxWriteSize with hwlen
    have hle : wlen ≤ buf.length := Nat.min_le_left _ _
    have hwpos : 0 < wlen := by
      rw [hwlen]
      exact Nat.lt_min.mpr ⟨hpos, by decide⟩
    rcases headD_took_or_pause hcalm with htook | hpause
    · obtain ⟨ctx1, hcall, htake⟩ := @cbWrite_took setup ctx htook .body (buf.take wlen)
      have hfirst := htake.inc .body wlen
      rw [hcall, List.length_take, Nat.min_eq_left hle]
      dsimp only
      have hcalm1 : Answer.failed ∉ (pgrsDeliverInc ctx1 .body wlen).answers := by
        rw [hfirst.answers]
        exact fun hmem => hcalm (List.mem_of_mem_drop hmem)
      have hjoin : events .body (buf.take wlen) ++ events .body (buf.drop wlen) =
          events .body buf := by
        rw [events, events, ← List.map_append, List.take_append_drop]
        rfl
      have hcalls : 1 + bodyCalls (buf.drop wlen).length = bodyCalls buf.length := by
        rw [List.length_drop, bodyCalls_step hpos, Nat.add_comm]
      rcases ih (pgrsDeliverInc ctx1 .body wlen) hcalm1 (hfirst.paused.trans hpaused)
          (buf.drop wlen) (by rw [List.length_drop]; omega) with
        ⟨ctx2, hloop, hrest⟩ | ⟨ctx2, c, hloop, hc, hrest⟩
      · rw [hloop]
        refine .inl ⟨ctx2, ?_, ?_⟩
        · rw [List.length_drop, Nat.add_sub_cancel' hle]
        · rw [← hjoin, ← hcalls]
          exact hfirst.trans hrest
      · rw [hloop]
        rw [List.length_drop] at hc
        refine .inr ⟨ctx2, wlen + c, rfl, by omega, ?_⟩
        rw [← hjoin, ← List.drop_drop]
        exact hfirst.held hrest
    · obtain ⟨ctx1, hcall, hheld⟩ := cbWrite_pause hs hpause .body (buf.take wlen)
      rw [hcall]
      refine .inr ⟨ctx1, 0, rfl, hpos, ?_⟩
      have hmore := hheld.more (events .body (buf.drop wlen))
      rw [events, events, ← List.map_append, List.take_append_drop] at hmore
      exact hmore

/-- A buffer for the body. -/
structure Buf.OfBody (cwbuf : Buf) : Prop where
  toobig : cwbuf.b.toobig = dynPauseBuffer
  kind : cwbuf.type = .body ∨ cwbuf.type = .body0len ∧ cwbuf.b.content = []

theorem pieces_body {cwbuf : Buf} (h : cwbuf.type = .body) :
    cwbuf.pieces = List.replicate (bodyCalls cwbuf.len) .body := by
  rw [Buf.pieces, h]
  rfl

theorem pieces_empty {cwbuf : Buf} (h : cwbuf.type = .body0len) : cwbuf.pieces = [.body0len] :=
  if_pos h

theorem ptrFlush_body (herrored : ctx.errored = false) (flushAll : Bool) (buf : Bytes) :
    ptrFlush setup ctx .body flushAll buf =
      ptrLoop setup .body flushAll maxWriteSize 0 buf.length ctx buf := by
  rw [ptrFlush, herrored]
  rfl

theorem ptrFlush_empty (herrored : ctx.errored = false) {result : Curlcode}
    (hcall : cbWrite setup ctx .body0len buf = (ctx', result, n)) (flushAll : Bool) :
    ptrFlush setup ctx .body0len flushAll buf = (ctx', result, 0) := by
  rw [ptrFlush, herrored, hcall]
  rfl

/-- A buffer is handed on and gone, or the callback pauses and the rest stays. -/
def HandsOn (setup : Setup) (ctx : Ctx) (cwbuf : Buf) (flushAll : Bool) : Prop :=
  (∃ ctx', flushBuf setup ctx cwbuf flushAll = (ctx', none, .ok) ∧
    Through ctx cwbuf.events cwbuf.pieces.length ctx') ∨
  (∃ ctx' left, flushBuf setup ctx cwbuf flushAll = (ctx', some left, .ok) ∧
    Held ctx cwbuf.events left.events ctx' ∧ left.OfBody ∧ left.type = cwbuf.type)

theorem flushBuf_body (hs : setup.Pausable) {cwbuf : Buf} (hb : cwbuf.OfBody)
    (hbody : cwbuf.type = .body) (flushAll : Bool) (herrored : ctx.errored = false)
    (hcalm : Answer.failed ∉ ctx.answers) (hpaused : ctx.paused = false) :
    HandsOn setup ctx cwbuf flushAll := by
  rw [HandsOn, flushBuf, bufFlush, pieces_body hbody, List.length_replicate, Buf.events, hbody]
  by_cases hlen : cwbuf.len = 0
  · have hcontent : cwbuf.b.content = [] := List.length_eq_zero_iff.mp hlen
    rw [if_neg (by simp [hlen]), hcontent, hlen]
    dsimp only
    rw [if_pos hlen]
    exact .inl ⟨ctx, rfl, .none ctx⟩
  rw [if_pos (.inl hlen), ptrFlush_body herrored]
  rcases ptrLoop_body hs flushAll cwbuf.b.content.length ctx hcalm hpaused cwbuf.b.content
      (Nat.le_refl _) with ⟨ctx', hloop, hthrough⟩ | ⟨ctx', c, hloop, hc, hheld⟩
  · rw [hloop]
    dsimp only
    rw [if_neg (by simp), if_neg (show ¬ cwbuf.b.content.length = 0 from hlen),
      if_pos (show cwbuf.b.content.length = cwbuf.len from rfl)]
    exact .inl ⟨ctx', rfl, hthrough⟩
  · rw [hloop]
    dsimp only
    rw [if_neg (by simp)]
    by_cases hzero : c = 0
    · rw [if_pos hzero]
      rw [hzero, List.drop_zero] at hheld
      dsimp only
      rw [if_neg hlen]
      refine .inr ⟨ctx', cwbuf, rfl, ?_, hb, hbody⟩
      rw [Buf.events, hbody]
      exact hheld
    · rw [if_neg hzero, if_neg (show ¬ c = cwbuf.len from Nat.ne_of_lt hc)]
      obtain ⟨hok, hcontent, htoobig⟩ :=
        Dynbuf.tail_spec cwbuf.b (Nat.sub_le cwbuf.b.content.length c)
      rw [Nat.sub_sub_self (Nat.le_of_lt hc)] at hcontent
      change (cwbuf.b.tail (cwbuf.len - c)).2 = .ok at hok
      rw [hok]
      dsimp only
      have hleft : Buf.len ⟨(cwbuf.b.tail (cwbuf.len - c)).1, .body⟩ ≠ 0 := by
        rw [Buf.len]
        dsimp only
        rw [Buf.len, hcontent, List.length_drop]
        omega
      rw [if_neg hleft]
      refine .inr ⟨ctx', ⟨(cwbuf.b.tail (cwbuf.len - c)).1, .body⟩, rfl, ?_,
        ⟨htoobig.trans hb.toobig, .inl rfl⟩, rfl⟩
      rw [Buf.events]
      dsimp only
      rw [Buf.len, hcontent]
      exact hheld

/-- A buffered empty piece is gone in any case: the flush looks at its length. -/
theorem flushBuf_empty {cwbuf : Buf} (hempty : cwbuf.type = .body0len)
    (hnil : cwbuf.b.content = []) (flushAll : Bool) (herrored : ctx.errored = false)
    (htook : ctx.answers.headD .took = .took) :
    ∃ ctx', flushBuf setup ctx cwbuf flushAll = (ctx', none, .ok) ∧
      Through ctx cwbuf.events cwbuf.pieces.length ctx' := by
  have hlen : cwbuf.len = 0 := List.length_eq_zero_iff.mpr hnil
  obtain ⟨ctx', hcall, hthrough⟩ := @cbWrite_took setup ctx htook .body0len cwbuf.b.content
  rw [flushBuf, bufFlush, if_pos (.inr hempty), pieces_empty hempty, Buf.events, hempty,
    ptrFlush_empty herrored hcall]
  dsimp only
  rw [if_neg (by simp), if_pos rfl]
  dsimp only
  rw [if_pos hlen]
  exact ⟨ctx', rfl, hthrough⟩

theorem flushBuf_spared (hs : setup.Pausable) {cwbuf : Buf} (hb : cwbuf.OfBody) (flushAll : Bool)
    (herrored : ctx.errored = false) (hcalm : Answer.failed ∉ ctx.answers)
    (hpaused : ctx.paused = false) (hspares : Spares ctx.answers cwbuf.pieces) :
    HandsOn setup ctx cwbuf flushAll := by
  rcases hb.kind with hbody | ⟨hempty, hnil⟩
  · exact flushBuf_body hs hb hbody flushAll herrored hcalm hpaused
  · rw [pieces_empty hempty] at hspares
    have hnot := hspares 0 rfl fun i hi => absurd hi (Nat.not_lt_zero i)
    apply Or.inl
    apply flushBuf_empty hempty hnil flushAll herrored
    rcases headD_took_or_pause hcalm with htook | hpause
    · exact htook
    · apply absurd _ hnot
      rw [← hpause]
      cases ctx.answers <;> rfl

theorem flushEnd_spared (hs : setup.Pausable) (flushAll : Bool) {bufs : List Buf}
    (hbufs : ∀ b ∈ bufs, b.OfBody) (ctx : Ctx) (herrored : ctx.errored = false)
    (hcalm : Answer.failed ∉ ctx.answers) (hpaused : ctx.paused = false)
    (hspares : Spares ctx.answers (bufs.flatMap Buf.pieces)) :
    (∃ ctx', flushEnd setup flushAll ctx bufs = (ctx', [], .ok) ∧
      Through ctx (bufs.flatMap Buf.events) (bufs.flatMap Buf.pieces).length ctx') ∨
    (∃ ctx' last newer, flushEnd setup flushAll ctx bufs = (ctx', last :: newer, .ok) ∧
      Held ctx (bufs.flatMap Buf.events) ((last :: newer).flatMap Buf.events) ctx' ∧
      ∀ b ∈ last :: newer, b.OfBody) := by
  induction bufs generalizing ctx with
  | nil => exact .inl ⟨ctx, rfl, .none ctx⟩
  | cons last newer ih =>
    obtain ⟨hlast, hnewer⟩ := List.forall_mem_cons.mp hbufs
    rw [List.flatMap_cons] at hspares
    rw [flushEnd, if_neg (by simp [hpaused]), List.flatMap_cons, List.flatMap_cons,
      List.length_append]
    rcases flushBuf_spared hs hlast flushAll herrored hcalm hpaused (spares_append_left hspares)
      with ⟨ctx1, hflush, hfirst⟩ | ⟨ctx1, left, hflush, hheld, hleft, -⟩
    · rw [hflush]
      have hspares1 : Spares ctx1.answers (newer.flatMap Buf.pieces) := by
        rw [hfirst.answers]
        exact spares_append_right hspares hfirst.taking
      have hcalm1 : Answer.failed ∉ ctx1.answers := by
        rw [hfirst.answers]
        exact fun hmem => hcalm (List.mem_of_mem_drop hmem)
      rcases ih hnewer ctx1 (hfirst.errored.trans herrored) hcalm1 (hfirst.paused.trans hpaused)
        hspares1 with ⟨ctx2, hend, hrest⟩ | ⟨ctx2, b, bs, hend, hrest, hbs⟩
      · exact .inl ⟨ctx2, hend, hfirst.trans hrest⟩
      · exact .inr ⟨ctx2, b, bs, hend, hfirst.held hrest, hbs⟩
    · rw [hflush]
      exact .inr ⟨ctx1, left, newer, rfl, hheld.more _, List.forall_mem_cons.mpr ⟨hleft, hnewer⟩⟩

/-- A writer for the body that has not met an error. -/
structure Ctx.OfBody (ctx : Ctx) : Prop where
  errored : ctx.errored = false
  calm : Answer.failed ∉ ctx.answers
  bufs : ∀ cwbuf ∈ ctx.buf, cwbuf.OfBody

theorem Through.ofBody (h : Through ctx es n ctx') (hbody : ctx.OfBody) (hbuf : ctx'.buf = []) :
    ctx'.OfBody where
  errored := h.errored.trans hbody.errored
  calm := by
    rw [h.answers]
    exact fun hmem => hbody.calm (List.mem_of_mem_drop hmem)
  bufs := by
    rw [hbuf]
    exact fun _ hmem => nomatch hmem

/-- What is handed on and what is buffered, all together. -/
def Ctx.all (ctx : Ctx) : List Event := ctx.accepted ++ ctx.pending

/-- The chain after a flush: it is gone, or the callback has paused and the newest buffer is still
of its type. -/
structure Flushed (ctx ctx' : Ctx) : Prop where
  ofBody : ctx'.OfBody
  all : ctx'.all = ctx.all
  rest : (ctx'.buf = [] ∧ ctx'.paused = false ∧ ctx'.answers = ctx.answers.drop ctx.pieces.length ∧
      Taking ctx.answers ctx.pieces.length) ∨
    (ctx'.paused = true ∧ ctx'.buf ≠ [] ∧
      ctx'.buf.head?.map Buf.type = ctx.buf.head?.map Buf.type)

theorem flushChain_spared (hs : setup.Pausable) (hbody : ctx.OfBody) (hpaused : ctx.paused = false)
    (flushAll : Bool) (hspares : Spares ctx.answers ctx.pieces) :
    ∃ ctx', flushChain setup ctx flushAll = (ctx', .ok) ∧ Flushed ctx ctx' := by
  rw [flushChain]
  cases hbuf : ctx.buf with
  | nil =>
    refine ⟨ctx, rfl, hbody, rfl, .inl ⟨hbuf, hpaused, ?_⟩⟩
    rw [Ctx.pieces, hbuf]
    exact ⟨rfl, fun i hi => absurd hi (Nat.not_lt_zero i)⟩
  | cons cwbuf next =>
    have hbufs := hbody.bufs
    rw [hbuf] at hbufs
    obtain ⟨hfirst, hnext⟩ := List.forall_mem_cons.mp hbufs
    have hpieces : ctx.pieces = next.reverse.flatMap Buf.pieces ++ cwbuf.pieces := by
      rw [Ctx.pieces, hbuf, List.reverse_cons, List.flatMap_append, List.flatMap_singleton]
    have hall : ctx.all = ctx.accepted ++ next.reverse.flatMap Buf.events ++ cwbuf.events := by
      rw [Ctx.all, Ctx.pending, hbuf, List.reverse_cons, List.flatMap_append,
        List.flatMap_singleton, List.append_assoc]
    rw [hpieces] at hspares
    dsimp only
    rw [if_neg (by simp [hpaused])]
    rcases flushEnd_spared hs flushAll (fun b hb => hnext b (List.mem_reverse.mp hb)) ctx
      hbody.errored hbody.calm hpaused (spares_append_left hspares)
      with ⟨ctx1, hend, hgone⟩ | ⟨ctx1, last, newer, hend, hheld, hleft⟩
    · rw [hend]
      dsimp only
      have hspares1 : Spares ctx1.answers cwbuf.pieces := by
        rw [hgone.answers]
        exact spares_append_right hspares hgone.taking
      have hcalm1 : Answer.failed ∉ ctx1.answers := by
        rw [hgone.answers]
        exact fun hmem => hbody.calm (List.mem_of_mem_drop hmem)
      rcases flushBuf_spared hs hfirst flushAll (hgone.errored.trans hbody.errored) hcalm1
        (hgone.paused.trans hpaused) hspares1
        with ⟨ctx2, hflush, hlast⟩ | ⟨ctx2, left, hflush, hheld, hleft, htype⟩
      · rw [hflush]
        have hthrough := hgone.trans hlast
        refine ⟨ctx2.withBuf [], rfl, ⟨?_, ?_, fun _ hmem => by cases hmem⟩, ?_,
          .inl ⟨rfl, hthrough.paused.trans hpaused, ?_⟩⟩
        · exact hthrough.errored.trans hbody.errored
        · change Answer.failed ∉ ctx2.answers
          rw [hthrough.answers]
          exact fun hmem => hbody.calm (List.mem_of_mem_drop hmem)
        · rw [hall, List.append_assoc, ← hthrough.accepted]
          exact List.append_nil _
        · rw [hpieces, List.length_append]
          exact ⟨hthrough.answers, hthrough.taking⟩
      · rw [hflush]
        have hboth := hgone.held hheld
        obtain ⟨k, hk⟩ := hboth.answers
        refine ⟨ctx2.withBuf [left], rfl, ⟨hboth.errored.trans hbody.errored, ?_, ?_⟩, ?_,
          .inr ⟨hboth.paused, List.cons_ne_nil _ _, by rw [hbuf]; exact congrArg some htype⟩⟩
        · change Answer.failed ∉ ctx2.answers
          rw [hk]
          exact fun hmem => hbody.calm (List.mem_of_mem_drop hmem)
        · intro b hb
          obtain rfl := List.mem_singleton.mp hb
          exact hleft
        · rw [hall, List.append_assoc, ← hboth.accepted]
          exact congrArg (ctx2.accepted ++ ·) (List.flatMap_singleton Buf.events left)
    · rw [hend]
      have hmore := hheld.more cwbuf.events
      obtain ⟨k, hk⟩ := hmore.answers
      refine ⟨ctx1.withBuf (cwbuf :: (last :: newer).reverse), rfl,
        ⟨hmore.errored.trans hbody.errored, ?_, ?_⟩, ?_,
        .inr ⟨hmore.paused, List.cons_ne_nil _ _, by rw [hbuf]; rfl⟩⟩
      · change Answer.failed ∉ ctx1.answers
        rw [hk]
        exact fun hmem => hbody.calm (List.mem_of_mem_drop hmem)
      · intro b hb
        rcases List.mem_cons.mp hb with rfl | hrest
        · exact hfirst
        · exact hleft b (List.mem_reverse.mp hrest)
      · rw [hall, List.append_assoc, ← hmore.accepted]
        change ctx1.accepted ++ (cwbuf :: (last :: newer).reverse).reverse.flatMap Buf.events = _
        rw [List.reverse_cons, List.reverse_reverse, List.flatMap_append, List.flatMap_singleton]

/-! ### Writing -/

/-- A piece of a body. -/
def OfBody (otype : OutType) (buf : Bytes) : Prop :=
  otype = .body ∨ otype = .body0len ∧ buf = []

/-- The buffer that is added to: a new one, or the newest one with more bytes of a body. -/
theorem target_cases (hkind : OfBody otype buf)
    (hapart : otype = .body0len → ∀ cwbuf ∈ ctx.buf.head?, cwbuf.type ≠ .body0len) :
    target ctx otype = (bufCreate otype, ctx.buf) ∨
      ∃ cwbuf next, ctx.buf = cwbuf :: next ∧ target ctx otype = (cwbuf, next) ∧
        cwbuf.type = .body ∧ otype = .body := by
  rw [target]
  cases hbuf : ctx.buf with
  | nil => exact .inl rfl
  | cons cwbuf next =>
    dsimp only
    by_cases hnew : cwbuf.type ≠ otype ∨ otype = .hds
    · rw [if_pos hnew]
      exact .inl rfl
    · rw [if_neg hnew]
      obtain ⟨hsame, -⟩ := not_or.mp hnew
      rcases hkind with rfl | ⟨rfl, -⟩
      · exact .inr ⟨cwbuf, next, rfl, rfl, not_not.mp hsame, rfl⟩
      · rw [hbuf] at hapart
        exact absurd (not_not.mp hsame) (hapart rfl cwbuf rfl)

/-- What `cw_out_append` leaves as it is, and the calls for it: only calls with bytes come last. -/
structure Appended (ctx : Ctx) (otype : OutType) (buf : Bytes) (ctx' : Ctx) : Prop where
  ofBody : ctx'.OfBody
  all : ctx'.all = ctx.all ++ events otype buf
  paused : ctx'.paused = ctx.paused
  answers : ctx'.answers = ctx.answers
  pieces : otype = .body → ∃ ps m n, ctx.pieces = ps ++ List.replicate m .body ∧
    ctx'.pieces = ps ++ List.replicate n .body

theorem append_spared (hbody : ctx.OfBody) (hkind : OfBody otype buf)
    (hroom : Room ctx otype buf.length)
    (hapart : otype = .body0len → ∀ cwbuf ∈ ctx.buf.head?, cwbuf.type ≠ .body0len) :
    ∃ ctx', append ctx otype buf = (ctx', .ok) ∧ Appended ctx otype buf ctx' := by
  obtain ⟨hlen, hfit⟩ := hroom
  rw [append, if_neg (Nat.not_lt.mpr hlen)]
  rcases target_cases hkind hapart with hnew | ⟨cwbuf, next, hbuf, hsame, htype, rfl⟩
  · rw [hnew] at hfit ⊢
    have hadd : buf.length + (bufCreate otype).b.content.length + 1 ≤
      (bufCreate otype).b.toobig := by
      have hbig : (bufCreate otype).b.toobig = dynPauseBuffer := rfl
      have hlt : (bufCreate otype).b.content.length + buf.length < dynPauseBuffer := hfit
      rw [hbig]
      omega
    obtain ⟨hok, hcontent, htoobig⟩ := Dynbuf.nappend_ok hadd
    dsimp only
    rw [hok]
    have hnil : (bufCreate otype).b.content = [] := rfl
    rw [hnil, List.nil_append] at hcontent
    refine ⟨_, rfl, ⟨hbody.errored, hbody.calm, ?_⟩, ?_, rfl, rfl, fun heq => ?_⟩
    · refine List.forall_mem_cons.mpr ⟨⟨htoobig, ?_⟩, hbody.bufs⟩
      dsimp only
      rw [hcontent]
      exact hkind
    · rw [Ctx.all, Ctx.all, List.append_assoc]
      apply congrArg (ctx.accepted ++ ·)
      rw [Ctx.pending, Ctx.withBuf, List.reverse_cons, List.flatMap_append, List.flatMap_singleton,
        Buf.events, hcontent]
      rfl
    · refine ⟨ctx.pieces, 0, bodyCalls buf.length, (List.append_nil _).symm, ?_⟩
      rw [Ctx.pieces, Ctx.withBuf, List.reverse_cons, List.flatMap_append, List.flatMap_singleton,
        pieces_body (by exact heq), Buf.len, hcontent]
      rfl
  · rw [hsame] at hfit ⊢
    have hbufs := hbody.bufs
    rw [hbuf] at hbufs
    obtain ⟨hfirst, hnext⟩ := List.forall_mem_cons.mp hbufs
    have hadd : buf.length + cwbuf.b.content.length + 1 ≤ cwbuf.b.toobig := by
      have hlt : cwbuf.b.content.length + buf.length < dynPauseBuffer := hfit
      rw [hfirst.toobig]
      omega
    obtain ⟨hok, hcontent, htoobig⟩ := Dynbuf.nappend_ok hadd
    dsimp only
    rw [hok]
    refine ⟨_, rfl, ⟨hbody.errored, hbody.calm, ?_⟩, ?_, rfl, rfl, fun _ => ?_⟩
    · exact List.forall_mem_cons.mpr ⟨⟨htoobig.trans hfirst.toobig, .inl htype⟩, hnext⟩
    · rw [Ctx.all, Ctx.all, List.append_assoc]
      apply congrArg (ctx.accepted ++ ·)
      rw [Ctx.pending, Ctx.pending, hbuf, Ctx.withBuf, List.reverse_cons, List.reverse_cons,
        List.flatMap_append, List.flatMap_append, List.flatMap_singleton, List.flatMap_singleton,
        List.append_assoc, Buf.events, Buf.events, hcontent, htype, events, List.map_append]
      rfl
    · refine ⟨next.reverse.flatMap Buf.pieces, bodyCalls cwbuf.len,
        bodyCalls (cwbuf.b.content ++ buf).length, ?_, ?_⟩
      · rw [Ctx.pieces, hbuf, List.reverse_cons, List.flatMap_append, List.flatMap_singleton,
          pieces_body htype]
      · rw [Ctx.pieces, Ctx.withBuf, List.reverse_cons, List.flatMap_append, List.flatMap_singleton,
          pieces_body (by exact htype), Buf.len, hcontent]

/-- What `cw_out_ptr_flush` does with a piece that is written at once. -/
structure Direct (ctx : Ctx) (otype : OutType) (buf : Bytes) (ctx' : Ctx) (consumed : Nat) :
    Prop where
  ofBody : ctx'.OfBody
  chain : ctx'.buf = []
  kind : consumed < buf.length → otype = .body
  accepted : ctx'.accepted ++
    (if consumed < buf.length then events otype (buf.drop consumed) else []) =
    ctx.accepted ++ events otype buf

theorem ptrFlush_direct (hs : setup.Pausable) (hbody : ctx.OfBody) (hbuf : ctx.buf = [])
    (hkind : OfBody otype buf) (hspares : otype = .body0len → Spares ctx.answers [.body0len])
    (flushAll : Bool) :
    ∃ ctx' result consumed, ptrFlush setup ctx otype flushAll buf = (ctx', result, consumed) ∧
      (result = .ok ∨ result = .again) ∧ Direct ctx otype buf ctx' consumed := by
  rcases hkind with rfl | ⟨rfl, rfl⟩
  · rw [ptrFlush_body hbody.errored]
    by_cases hpaused : ctx.paused = true
    · refine ⟨ctx, .ok, 0, ?_, .inl rfl, hbody, hbuf, fun _ => rfl, ?_⟩
      · cases buf with
        | nil => rfl
        | cons b bs =>
          rw [List.length_cons, ptrLoop, if_pos (by simp [hpaused])]
      · cases buf with
        | nil => rfl
        | cons b bs =>
          rw [List.length_cons, if_pos (Nat.succ_pos _), List.drop_zero]
    · rcases ptrLoop_body hs flushAll buf.length ctx hbody.calm (Bool.eq_false_iff.mpr hpaused) buf
        (Nat.le_refl _) with ⟨ctx', hloop, hthrough⟩ | ⟨ctx', c, hloop, hc, hheld⟩
      · refine ⟨ctx', .ok, buf.length, hloop, .inl rfl,
          hthrough.ofBody hbody (hthrough.buf.trans hbuf), hthrough.buf.trans hbuf,
            fun _ => rfl, ?_⟩
        rw [if_neg (Nat.lt_irrefl _), List.append_nil, hthrough.accepted]
      · obtain ⟨k, hk⟩ := hheld.answers
        refine ⟨ctx', .again, c, hloop, .inr rfl, ⟨hheld.errored.trans hbody.errored, ?_, ?_⟩,
          hheld.buf.trans hbuf, fun _ => rfl, ?_⟩
        · rw [hk]
          exact fun hmem => hbody.calm (List.mem_of_mem_drop hmem)
        · rw [hheld.buf]
          exact hbody.bufs
        · rw [if_pos hc, hheld.accepted]
  · have hnot := hspares rfl 0 rfl fun i hi => absurd hi (Nat.not_lt_zero i)
    rcases headD_took_or_pause hbody.calm with htook | hpause
    · obtain ⟨ctx', hcall, hthrough⟩ := @cbWrite_took setup ctx htook .body0len []
      refine ⟨ctx', .ok, 0, ptrFlush_empty hbody.errored hcall flushAll, .inl rfl,
        hthrough.ofBody hbody (hthrough.buf.trans hbuf), hthrough.buf.trans hbuf,
        fun hlt => absurd hlt (Nat.lt_irrefl 0), ?_⟩
      rw [if_neg (show ¬ 0 < ([] : Bytes).length from Nat.lt_irrefl 0), List.append_nil,
        hthrough.accepted]
    · apply absurd _ hnot
      rw [← hpause]
      cases ctx.answers <;> rfl

theorem flushChain_paused (hpaused : ctx.paused = true) (flushAll : Bool) :
    flushChain setup ctx flushAll = (ctx, .ok) := by
  rw [flushChain, hpaused]
  cases ctx.buf <;> rfl

theorem all_of_buf_nil (hbuf : ctx.buf = []) : ctx.all = ctx.accepted := by
  rw [Ctx.all, Ctx.pending, hbuf]
  exact List.append_nil _

/-- The part of `cw_out_do_write` for a piece that does not go behind others. -/
theorem direct_spared (hs : setup.Pausable) (hbody : ctx.OfBody) (hbuf : ctx.buf = [])
    (hkind : OfBody otype buf) (hspares : otype = .body0len → Spares ctx.answers [.body0len])
    {flushAll : Bool} (hroom : let (ctx, _, consumed) := ptrFlush setup ctx otype flushAll buf
      consumed < buf.length → Room ctx otype (buf.length - consumed)) :
    ∃ ctx', (match ptrFlush setup ctx otype flushAll buf with
      | (ctx, result, consumed) =>
        if result ≠ .ok ∧ result ≠ .again then (ctx, result)
        else if consumed < buf.length then outcome (append ctx otype (buf.drop consumed))
        else (ctx, .ok)) = (ctx', .ok) ∧ ctx'.OfBody ∧ ctx'.all = ctx.all ++ events otype buf := by
  obtain ⟨ctx1, result, consumed, hflush, hresult, hdirect⟩ :=
    ptrFlush_direct hs hbody hbuf hkind hspares flushAll
  rw [hflush] at hroom ⊢
  dsimp only at hroom ⊢
  have haccepted := hdirect.accepted
  rw [if_neg (by rcases hresult with rfl | rfl <;> simp), all_of_buf_nil hbuf, ← haccepted]
  by_cases hlt : consumed < buf.length
  · rw [if_pos hlt, if_pos hlt]
    have hbodyType := hdirect.kind hlt
    obtain ⟨ctx2, happend, hadded⟩ := append_spared hdirect.ofBody (.inl hbodyType)
      (by rw [List.length_drop]; exact hroom hlt) (fun heq => by rw [hbodyType] at heq; cases heq)
    rw [happend]
    refine ⟨ctx2, rfl, hadded.ofBody, ?_⟩
    rw [hadded.all, all_of_buf_nil hdirect.chain]
  · rw [if_neg hlt, if_neg hlt]
    refine ⟨ctx1, rfl, hdirect.ofBody, ?_⟩
    rw [all_of_buf_nil hdirect.chain, List.append_nil]

/-- The part of `cw_out_do_write` for a piece that goes behind others. -/
theorem behind_spared (hs : setup.Pausable) (hbody : ctx.OfBody) (hkind : OfBody otype buf)
    (hroom : Room ctx otype buf.length)
    (hapart : otype = .body0len → ∀ cwbuf ∈ ctx.buf.head?, cwbuf.type ≠ .body0len)
    (hpause : ctx.paused = false → otype = .body ∧ Spares ctx.answers ctx.pieces)
    (flushAll : Bool) :
    ∃ ctx', (match append ctx otype buf with
      | (ctx, .ok) => outcome (flushChain setup ctx flushAll)
      | failure => outcome failure) = (ctx', .ok) ∧ ctx'.OfBody ∧
        ctx'.all = ctx.all ++ events otype buf := by
  obtain ⟨ctx1, happend, hadded⟩ := append_spared hbody hkind hroom hapart
  rw [happend]
  dsimp only
  by_cases hpaused : ctx.paused = true
  · rw [flushChain_paused (hadded.paused.trans hpaused)]
    exact ⟨ctx1, rfl, hadded.ofBody, hadded.all⟩
  · have hfalse : ctx.paused = false := Bool.eq_false_iff.mpr hpaused
    obtain ⟨hbodyType, hspares⟩ := hpause hfalse
    obtain ⟨ps, m, n, hbefore, hafter⟩ := hadded.pieces hbodyType
    rw [hbefore] at hspares
    have hspares1 : Spares ctx1.answers ctx1.pieces := by
      rw [hadded.answers, hafter]
      exact spares_append_body (spares_append_left hspares) n
    obtain ⟨ctx2, hflush, hflushed⟩ :=
      flushChain_spared hs hadded.ofBody (hadded.paused.trans hfalse) flushAll hspares1
    rw [hflush]
    exact ⟨ctx2, rfl, hflushed.ofBody, hflushed.all.trans hadded.all⟩

/-- The state after the flush of what is buffered for the other type: a piece is written at once
when nothing is left, and goes behind the rest else. -/
theorem flushOther_spared (hs : setup.Pausable) (hbody : ctx.OfBody) (hkind : OfBody otype buf)
    (hapart : otype = .body0len → ∀ cwbuf ∈ ctx.buf.head?, cwbuf.type ≠ .body0len)
    (hpause : ctx.paused = false ∨ ctx.buf = [] →
      Spares ctx.answers (ctx.pieces ++ if otype = .body0len then [otype] else [])) :
    ∃ ctx1, flushOther setup ctx otype = (ctx1, .ok) ∧ ctx1.OfBody ∧ ctx1.all = ctx.all ∧
      (otype = .body0len → ∀ cwbuf ∈ ctx1.buf.head?, cwbuf.type ≠ .body0len) ∧
      (ctx1.buf = [] → otype = .body0len → Spares ctx1.answers [.body0len]) ∧
      (ctx1.buf ≠ [] → ctx1.paused = false → otype = .body ∧ Spares ctx1.answers ctx1.pieces) := by
  rw [flushOther]
  cases hbuf : ctx.buf with
  | nil =>
    refine ⟨ctx, rfl, hbody, rfl, fun heq => hapart heq, fun _ heq => ?_,
      fun hne => absurd hbuf hne⟩
    have hspares := hpause (.inr hbuf)
    rw [if_pos heq, Ctx.pieces, hbuf, heq] at hspares
    exact hspares
  | cons cwbuf next =>
    dsimp only
    by_cases hsame : cwbuf.type ≠ otype
    · rw [if_pos hsame]
      by_cases hpaused : ctx.paused = true
      · rw [flushChain_paused hpaused]
        refine ⟨ctx, rfl, hbody, rfl, hapart, fun hnil => ?_, fun _ hfalse => ?_⟩
        · rw [hbuf] at hnil
          cases hnil
        · rw [hpaused] at hfalse
          cases hfalse
      · have hfalse : ctx.paused = false := Bool.eq_false_iff.mpr hpaused
        have hspares := hpause (.inl hfalse)
        obtain ⟨ctx1, hflush, hflushed⟩ :=
          flushChain_spared hs hbody hfalse true (spares_append_left hspares)
        refine ⟨ctx1, hflush, hflushed.ofBody, hflushed.all, ?_, ?_, ?_⟩
        · rintro rfl b hb
          rcases hflushed.rest with ⟨hnil, -⟩ | ⟨-, -, htype⟩
          · rw [hnil] at hb
            cases hb
          · rw [Option.mem_def.mp hb, hbuf] at htype
            exact fun heq => hsame ((Option.some.inj htype).symm.trans heq)
        · intro hnil heq
          rcases hflushed.rest with ⟨-, -, hanswers, htaking⟩ | ⟨-, hne, -⟩
          · rw [if_pos heq, heq] at hspares
            rw [hanswers]
            exact spares_append_right hspares htaking
          · exact absurd hnil hne
        · intro hne hcalm
          rcases hflushed.rest with ⟨hnil, -⟩ | ⟨hpaused1, -⟩
          · exact absurd hnil hne
          · rw [hpaused1] at hcalm
            cases hcalm
    · rw [if_neg hsame]
      refine ⟨ctx, rfl, hbody, rfl, hapart, fun hnil => ?_, fun _ hfalse => ?_⟩
      · rw [hbuf] at hnil
        cases hnil
      · have htype : otype = .body := by
          rcases hkind with rfl | ⟨rfl, -⟩
          · rfl
          · rw [hbuf] at hapart
            exact absurd (not_not.mp hsame) (hapart rfl cwbuf rfl)
        exact ⟨htype, spares_append_left (hpause (.inl hfalse))⟩

theorem doWrite_spared (hs : setup.Pausable) (hbody : ctx.OfBody) (hkind : OfBody otype buf)
    {flushAll : Bool} (h : Spared setup ctx otype flushAll buf) :
    ∃ ctx', doWrite setup ctx otype flushAll buf = (ctx', .ok) ∧ ctx'.OfBody ∧
      ctx'.all = ctx.all ++ events otype buf := by
  obtain ⟨hapart, hpause, hroom⟩ := h
  rw [HasRoom] at hroom
  rw [doWrite]
  obtain ⟨ctx1, hflush, hbody1, hall, hapart1, hspares, hbehind⟩ :=
    flushOther_spared hs hbody hkind hapart hpause
  rw [hflush] at hroom ⊢
  dsimp only at hroom ⊢
  rw [← hall]
  by_cases hbuf : ctx1.buf ≠ []
  · rw [if_pos hbuf] at hroom ⊢
    exact behind_spared hs hbody1 hkind hroom hapart1 (hbehind hbuf) flushAll
  · rw [if_neg hbuf] at hroom ⊢
    exact direct_spared hs hbody1 (not_not.mp hbuf) hkind (hspares (not_not.mp hbuf)) hroom

/-! ### Whole runs -/

theorem writes_ofBody {type : WriteType}
    (h : type.body = true ∧ type.header = false ∧ type.info = false) (buf : Bytes) :
    ∃ otype, writes setup type buf = [otype] ∧ OfBody otype buf := by
  obtain ⟨hbody, hheader, hinfo⟩ := h
  refine ⟨if buf.isEmpty && type.zeroLen then .body0len else .body, ?_, ?_⟩
  · simp [writes, hbody, hheader, hinfo]
  · by_cases hempty : (buf.isEmpty && type.zeroLen) = true
    · rw [if_pos hempty]
      exact .inr ⟨rfl, List.isEmpty_iff.mp (Bool.and_eq_true_iff.mp hempty).1⟩
    · rw [if_neg hempty]
      exact .inl rfl

theorem flush_spared (hs : setup.Pausable) (hbody : ctx.OfBody) {flushAll : Bool}
    (h : (Call.flush flushAll).Spared setup ctx) :
    (step setup ctx (.flush flushAll)).1.OfBody ∧
      (step setup ctx (.flush flushAll)).1.all = ctx.all ∧
      (ctx.paused = false → (step setup ctx (.flush flushAll)).1.paused = false →
        (step setup ctx (.flush flushAll)).1.buf = []) := by
  rw [step, doFlush, hbody.errored]
  rw [if_neg (by decide)]
  by_cases hpaused : ctx.paused = true
  · rw [if_pos hpaused]
    refine ⟨hbody, rfl, fun hfalse => ?_⟩
    rw [hpaused] at hfalse
    cases hfalse
  · rw [if_neg hpaused]
    have hfalse : ctx.paused = false := Bool.eq_false_iff.mpr hpaused
    obtain ⟨ctx1, hflush, hflushed⟩ := flushChain_spared hs hbody hfalse flushAll (h hfalse)
    rw [hflush]
    refine ⟨hflushed.ofBody, hflushed.all, fun _ hcalm => ?_⟩
    rcases hflushed.rest with ⟨hnil, -⟩ | ⟨hpaused1, -⟩
    · exact hnil
    · exact absurd (hpaused1.symm.trans hcalm) (by decide)

theorem step_spared (hs : setup.Pausable) (hbody : ctx.OfBody) {call : Call} (hcall : call.OfBody)
    (h : call.Spared setup ctx) :
    (step setup ctx call).1.OfBody ∧
      (step setup ctx call).1.all = ctx.all ++ call.events setup := by
  cases call with
  | write type buf =>
    obtain ⟨otype, hwrites, hkind⟩ := @writes_ofBody setup type hcall buf
    rw [Call.Spared, hwrites] at h
    obtain ⟨ctx1, hwrite, hbody1, hall⟩ :=
      doWrite_spared hs hbody hkind (h otype (List.mem_singleton.mpr rfl))
    rw [step, cwOutWrite, hwrites, writeEach, hwrite, Call.events, hwrites, List.flatMap_singleton]
    exact ⟨hbody1, hall⟩
  | unpause => exact ⟨⟨hbody.errored, hbody.calm, hbody.bufs⟩, (List.append_nil _).symm⟩
  | flush flushAll =>
    obtain ⟨hbody1, hall, -⟩ := flush_spared hs hbody h
    exact ⟨hbody1, hall.trans (List.append_nil _).symm⟩

theorem run_spared (hs : setup.Pausable) (hbody : ctx.OfBody) {calls : List Call}
    (hcalls : ∀ call ∈ calls, call.OfBody)
    (h : ∀ pre call post, calls = pre ++ call :: post → call.Spared setup (run setup ctx pre)) :
    (run setup ctx calls).OfBody ∧
      (run setup ctx calls).all = ctx.all ++ calls.flatMap (Call.events setup) := by
  induction calls generalizing ctx with
  | nil => exact ⟨hbody, (List.append_nil _).symm⟩
  | cons call calls ih =>
    obtain ⟨hcall, hrest⟩ := List.forall_mem_cons.mp hcalls
    obtain ⟨hbody1, hall⟩ := step_spared hs hbody hcall (h [] call calls rfl)
    have hthen := ih hbody1 hrest fun pre call' post heq =>
      h (call :: pre) call' post (by rw [heq]; rfl)
    rw [hall, List.append_assoc] at hthen
    exact hthen

theorem run_append (setup : Setup) (ctx : Ctx) (calls more : List Call) :
    run setup ctx (calls ++ more) = run setup (run setup ctx calls) more :=
  List.foldl_append

end

/-- A callback that pauses and goes on accepts each empty piece once and in its place, in a run in
which no write puts one behind another in the buffer and no pause hits one. -/
theorem empties_survive {setup : Setup} (hs : setup.Pausable) {answers : List Answer}
    (ha : Answer.failed ∉ answers) {calls : List Call} (hcalls : ∀ call ∈ calls, call.OfBody)
    (flushAll : Bool)
    (h : ∀ pre call post, calls ++ [.unpause, .flush flushAll] = pre ++ call :: post →
      call.Spared setup (run setup (init answers) pre))
    (hdone : (run setup (init answers) (calls ++ [.unpause, .flush flushAll])).paused = false) :
    (run setup (init answers) (calls ++ [.unpause, .flush flushAll])).accepted =
      calls.flatMap (Call.events setup) := by
  have hinit : (init answers).OfBody := ⟨rfl, ha, fun _ hmem => nomatch hmem⟩
  obtain ⟨hbody, hall⟩ := run_spared hs hinit hcalls fun pre call post heq =>
    h pre call (post ++ [.unpause, .flush flushAll]) (by rw [heq, List.append_assoc]; rfl)
  have hspared := h (calls ++ [.unpause]) (.flush flushAll) [] (by rw [List.append_assoc]; rfl)
  rw [run_append] at hspared hdone ⊢
  set ctx := run setup (init answers) calls
  have hunpaused : (unpause ctx).OfBody := ⟨hbody.errored, hbody.calm, hbody.bufs⟩
  obtain ⟨-, hsame, hempty⟩ := flush_spared hs hunpaused hspared
  have hnil := hempty rfl hdone
  have hlast : (step setup (unpause ctx) (.flush flushAll)).1.accepted = ctx.all := by
    rw [← all_of_buf_nil hnil, hsame]
    rfl
  exact hlast.trans hall

def emptyType : WriteType :=
  { body := true, info := false, header := false, eos := false, zeroLen := true }

/-- An empty piece between two bytes, with a pause at the first. -/
def emptyBetween : List Call :=
  [.write bodyType [1], .write emptyType [], .write bodyType [2]]

theorem empties_survive_between :
    bothSetup.Pausable ∧ Answer.failed ∉ [Answer.pause] ∧ (∀ call ∈ emptyBetween, call.OfBody) ∧
      (∀ pre call post, emptyBetween ++ [.unpause, .flush true] = pre ++ call :: post →
        call.Spared bothSetup (run bothSetup (init [.pause]) pre)) ∧
      (run bothSetup (init [.pause]) (emptyBetween ++ [.unpause, .flush true])).paused = false ∧
      (run bothSetup (init [.pause]) (emptyBetween ++ [.unpause, .flush true])).accepted =
        emptyBetween.flatMap (Call.events bothSetup) := by
  have hcalls : ∀ call ∈ emptyBetween, call.OfBody := by
    simp [emptyBetween, Call.OfBody, bodyType, emptyType]
  have hspared : ∀ pre call post, emptyBetween ++ [.unpause, .flush true] = pre ++ call :: post →
      call.Spared bothSetup (run bothSetup (init [.pause]) pre) := by
    intro pre call post heq
    rcases pre with _ | ⟨c0, _ | ⟨c1, _ | ⟨c2, _ | ⟨c3, _ | ⟨c4, pre⟩⟩⟩⟩⟩
    · cases heq
      intro otype hmem
      obtain rfl := List.mem_singleton.mp hmem
      exact ⟨fun h => (by cases h), fun _ j hj => (by cases hj), fun _ => ⟨by decide, by decide⟩⟩
    · cases heq
      intro otype hmem
      obtain rfl := List.mem_singleton.mp hmem
      exact ⟨fun _ => by decide, fun _ => spares_nil _, ⟨by decide, by decide⟩⟩
    · cases heq
      intro otype hmem
      obtain rfl := List.mem_singleton.mp hmem
      exact ⟨fun h => (by cases h), fun _ => spares_nil _, ⟨by decide, by decide⟩⟩
    · cases heq
      trivial
    · cases heq
      exact fun _ => spares_nil _
    · simp [emptyBetween] at heq
  have hplain : bothSetup.Pausable := ⟨rfl, rfl⟩
  have hanswers : Answer.failed ∉ [Answer.pause] := by decide
  have hdone : (run bothSetup (init [.pause])
      (emptyBetween ++ [.unpause, .flush true])).paused = false := by decide
  exact ⟨hplain, hanswers, hcalls, hspared, hdone,
    empties_survive hplain hanswers hcalls true hspared hdone⟩

/-- The callback pauses at an empty piece, which is not buffered. -/
theorem empty_lost :
    ¬ ∀ (setup : Setup) (answers : List Answer) (calls : List Call) (flushAll : Bool),
      setup.Pausable → Answer.failed ∉ answers → (∀ call ∈ calls, call.OfBody) →
      (run setup (init answers) (calls ++ [.unpause, .flush flushAll])).paused = false →
      (run setup (init answers) (calls ++ [.unpause, .flush flushAll])).accepted =
        calls.flatMap (Call.events setup) := by
  intro h
  have hlost := h bothSetup [.pause] [.write emptyType []] true ⟨rfl, rfl⟩ (by decide)
    (fun call hcall => by rw [List.mem_singleton.mp hcall]; exact ⟨rfl, rfl, rfl⟩) (by decide)
  revert hlost
  decide

/-- A pause at an empty piece that is buffered. -/
example : (run bothSetup (init [.pause, .took, .pause]) [.write bodyType [1], .write emptyType [],
    .unpause, .flush true, .unpause, .flush true]).accepted = [.byte 1] := by decide

/-- Two empty pieces, one behind the other in the buffer. -/
example : (run bothSetup (init [.pause]) [.write bodyType [1], .write emptyType [],
    .write emptyType [], .unpause, .flush true]).accepted = [.byte 1, .empty] := by decide

end Gurl.CwOut
