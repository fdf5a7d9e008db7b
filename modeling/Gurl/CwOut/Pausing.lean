import Gurl.CwOut.Writer

/-! Pausing: what the callbacks have taken and what is still buffered, the oldest first, are the
writes in their order, as long as no buffer of the chain has to hold `DYN_PAUSE_BUFFER` bytes. -/

namespace Gurl.CwOut

/-- What the application can tell apart: the bytes of the body one by one, and whole headers. -/
inductive Token where
  | byte (b : UInt8)
  | header (bytes : Bytes)
  deriving DecidableEq

def tokens : OutType → Bytes → List Token
  | .body, bytes => bytes.map .byte
  | .hds, bytes => if bytes = [] then [] else [.header bytes]
  | .body0len, _ => []
  | .none, _ => []

def Buf.tokens (cwbuf : Buf) : List Token := CwOut.tokens cwbuf.type cwbuf.b.content

/-- What the callbacks have taken. -/
def Ctx.received (ctx : Ctx) : List Token := ctx.taken.flatMap fun p => tokens p.type p.bytes

/-- What is buffered, the oldest first. -/
def Ctx.waiting (ctx : Ctx) : List Token := ctx.buf.reverse.flatMap Buf.tokens

/-- What a call asks to be handed on. -/
def Call.asked (setup : Setup) : Call → List Token
  | .write type buf => (writes setup type buf).flatMap fun otype => tokens otype buf
  | .unpause => []
  | .flush _ => []

/-- Nothing is lost, doubled or put in another order. -/
def Transparent (setup : Setup) (calls : List Call) (ctx : Ctx) : Prop :=
  ctx.received ++ ctx.waiting = calls.flatMap (Call.asked setup)

/-- There is a callback for headers too, the protocol can be paused, and the size of the file is not
limited. -/
def Setup.Plain (setup : Setup) : Prop :=
  (setup.fwriteHeader || setup.writeheader) = true ∧ setup.nonetwork = false ∧
    setup.maxFilesize = 0

/-- `cw_out_append` has room for `n` bytes: the chain does not get over the limit, and the buffer
that they go to stays below it. -/
def Room (ctx : Ctx) (otype : OutType) (n : Nat) : Prop :=
  ctx.bufsLen + n ≤ dynPauseBuffer ∧ (target ctx otype).1.len + n < dynPauseBuffer

/-- There is room for what a write has to buffer: all of it behind what is buffered already, or what
the callback does not take at once. -/
def HasRoom (setup : Setup) (ctx : Ctx) (otype : OutType) (flushAll : Bool) (buf : Bytes) :
    Prop :=
  let ctx := (flushOther setup ctx otype).1
  if ctx.buf ≠ [] then Room ctx otype buf.length
  else
    let (ctx, _, consumed) := ptrFlush setup ctx otype flushAll buf
    consumed < buf.length → Room ctx otype (buf.length - consumed)

def RoomEach (setup : Setup) (flushAll : Bool) (buf : Bytes) : Ctx → List OutType → Prop
  | _, [] => True
  | ctx, otype :: otypes => HasRoom setup ctx otype flushAll buf ∧
      RoomEach setup flushAll buf (doWrite setup ctx otype flushAll buf).1 otypes

def Call.HasRoom (setup : Setup) (ctx : Ctx) : Call → Prop
  | .write type buf => RoomEach setup type.eos buf ctx (writes setup type buf)
  | .unpause => True
  | .flush _ => True

/-- Only the types that are handed on have bytes. -/
def Proper (otype : OutType) (bytes : Bytes) : Prop :=
  bytes ≠ [] → otype = .body ∨ otype = .hds

theorem tokens_nil (otype : OutType) : tokens otype [] = [] := by
  cases otype <;> rfl

theorem tokens_ne_nil {otype : OutType} {bytes : Bytes} (h : Proper otype bytes)
    (hne : bytes ≠ []) : tokens otype bytes ≠ [] := by
  rcases h hne with rfl | rfl
  · simpa [tokens] using hne
  · simp [tokens, hne]

theorem tokens_append {otype : OutType} (h : otype ≠ .hds) (xs ys : Bytes) :
    tokens otype (xs ++ ys) = tokens otype xs ++ tokens otype ys := by
  cases otype with
  | body => exact List.map_append
  | hds => exact absurd rfl h
  | body0len => rfl
  | none => rfl

theorem writes_proper (setup : Setup) (type : WriteType) (buf : Bytes) :
    ∀ otype ∈ writes setup type buf, Proper otype buf := by
  intro otype hmem hne
  unfold writes at hmem
  rcases List.mem_append.mp hmem with h | h
  · split at h
    · rw [List.mem_singleton.mp h, if_neg (by simp [hne])]
      exact .inl rfl
    · cases h
  · split at h
    · exact .inr (List.mem_singleton.mp h)
    · cases h

/-- A buffer as the writer makes them. -/
structure Buf.Sound (cwbuf : Buf) : Prop where
  toobig : cwbuf.b.toobig = dynPauseBuffer
  proper : Proper cwbuf.type cwbuf.b.content

/-- A writer that has not met an error, with callbacks that take what they get or pause. -/
structure Ctx.Sound (ctx : Ctx) : Prop where
  errored : ctx.errored = false
  calm : Answer.failed ∉ ctx.answers
  bufs : ∀ cwbuf ∈ ctx.buf, cwbuf.Sound

theorem init_sound {answers : List Answer} (h : Answer.failed ∉ answers) : (init answers).Sound :=
  ⟨rfl, h, fun _ hmem => nomatch hmem⟩

theorem withBuf_sound {ctx : Ctx} (h : ctx.Sound) {buf : List Buf}
    (hbuf : ∀ cwbuf ∈ buf, cwbuf.Sound) : (ctx.withBuf buf).Sound :=
  ⟨h.errored, h.calm, hbuf⟩

theorem withBuf_received (ctx : Ctx) (buf : List Buf) :
    (ctx.withBuf buf).received = ctx.received := rfl

theorem bufCreate_sound (otype : OutType) : (bufCreate otype).Sound :=
  ⟨rfl, fun h => absurd rfl h⟩

section

variable {setup : Setup} {ctx : Ctx} {otype : OutType}

/-- What the calls of a callback leave as it is. -/
structure Called (ctx ctx' : Ctx) : Prop where
  sound : ctx'.Sound
  buf : ctx'.buf = ctx.buf

theorem cbWrite_spec (hs : setup.Plain) (h : ctx.Sound) (buf : Bytes) :
    ∃ ctx', Called ctx ctx' ∧
      ((cbWrite setup ctx otype buf = (ctx', .again, 0) ∧ ctx'.received = ctx.received) ∨
        (cbWrite setup ctx otype buf = (ctx', .ok, buf.length) ∧
          ctx'.received = ctx.received ++ tokens otype buf)) := by
  have hcalm : Answer.failed ∉ ctx.answers.tail := fun hm => h.calm (List.mem_of_mem_tail hm)
  unfold cbWrite
  rcases hanswer : ctx.answers.headD .took with _ | _ | _
  · refine ⟨{ ctx with answers := ctx.answers.tail, taken := ctx.taken ++ [⟨otype, buf⟩] },
      ⟨⟨h.errored, hcalm, h.bufs⟩, rfl⟩, .inr ⟨rfl, ?_⟩⟩
    simp [Ctx.received]
  · refine ⟨{ ctx with answers := ctx.answers.tail, paused := true },
      ⟨⟨h.errored, hcalm, h.bufs⟩, rfl⟩, .inl ⟨?_, rfl⟩⟩
    simp [hs.2.1]
  · exfalso
    rcases hlist : ctx.answers with _ | ⟨a, rest⟩
    · rw [hlist] at hanswer
      cases hanswer
    · rw [hlist] at hanswer
      apply h.calm
      rw [hlist]
      exact List.mem_cons.mpr (.inl hanswer.symm)

/-- What `cw_out_ptr_flush` does with `buf`: a part of it is handed on. -/
structure Handed (ctx : Ctx) (otype : OutType) (buf : Bytes) (ctx' : Ctx) (consumed : Nat) :
    Prop where
  called : Called ctx ctx'
  le : consumed ≤ buf.length
  received : ctx'.received ++ tokens otype (buf.drop consumed) = ctx.received ++ tokens otype buf

theorem Handed.none (h : ctx.Sound) (otype : OutType) (buf : Bytes) :
    Handed ctx otype buf ctx 0 :=
  ⟨⟨h, rfl⟩, Nat.zero_le _, rfl⟩

theorem pgrsDeliverInc_called (h : ctx.Sound) (n : Nat) :
    Called ctx (pgrsDeliverInc ctx otype n) ∧
      (pgrsDeliverInc ctx otype n).received = ctx.received := by
  unfold pgrsDeliverInc
  split
  · exact ⟨⟨⟨h.errored, h.calm, h.bufs⟩, rfl⟩, rfl⟩
  · exact ⟨⟨h, rfl⟩, rfl⟩

/-- A piece of a body, or a whole header. -/
theorem tokens_piece {buf : Bytes} {maxWrite : Nat} (h : otype = .hds → maxWrite = 0) :
    tokens otype buf =
      tokens otype (buf.take (if maxWrite = 0 then buf.length else min buf.length maxWrite)) ++
      tokens otype (buf.drop (if maxWrite = 0 then buf.length else min buf.length maxWrite)) := by
  by_cases hheader : otype = .hds
  · rw [if_pos (h hheader), List.take_length, List.drop_length, tokens_nil, List.append_nil]
  · rw [← tokens_append hheader, List.take_append_drop]

theorem ptrLoop_spec (hs : setup.Plain) {maxWrite : Nat} (hmax : otype = .hds → maxWrite = 0)
    (flushAll : Bool) (minWrite : Nat) (fuel : Nat) (h : ctx.Sound) (buf : Bytes) :
    ∃ ctx' result consumed,
      ptrLoop setup otype flushAll maxWrite minWrite fuel ctx buf = (ctx', result, consumed) ∧
      (result = .ok ∨ result = .again) ∧ Handed ctx otype buf ctx' consumed := by
  induction fuel generalizing ctx buf with
  | zero => exact ⟨ctx, .ok, 0, rfl, .inl rfl, .none h otype buf⟩
  | succ fuel ih =>
    rw [ptrLoop]
    split
    · exact ⟨ctx, .ok, 0, rfl, .inl rfl, .none h otype buf⟩
    split
    · exact ⟨ctx, .ok, 0, rfl, .inl rfl, .none h otype buf⟩
    have hcheck (n : Nat) :
        (if otype = .body then pgrsDeliverCheck setup ctx n else Curlcode.ok) = .ok := by
      simp [pgrsDeliverCheck, hs.2.2]
    have hpiece := @tokens_piece otype buf maxWrite hmax
    set wlen := if maxWrite = 0 then buf.length else min buf.length maxWrite with hwlen
    have hle : wlen ≤ buf.length := by
      rw [hwlen]
      split <;> omega
    simp only [hcheck, ne_eq, not_true_eq_false, if_false]
    obtain ⟨ctx1, hcalled, ⟨hcb, hreceived⟩ | ⟨hcb, hreceived⟩⟩ :=
      @cbWrite_spec setup ctx otype hs h (buf.take wlen)
    · rw [hcb]
      exact ⟨ctx1, .again, 0, rfl, .inr rfl, hcalled, Nat.zero_le _, by rw [hreceived]; rfl⟩
    · rw [hcb]
      have hlen : (buf.take wlen).length = wlen := by
        rw [List.length_take, Nat.min_eq_left hle]
      obtain ⟨hinc, hincr⟩ := @pgrsDeliverInc_called ctx1 otype hcalled.sound wlen
      obtain ⟨ctx2, result, consumed, hloop, hresult, hhanded⟩ := ih hinc.sound (buf.drop wlen)
      refine ⟨ctx2, result, wlen + consumed, by simp [hlen, hloop], hresult,
        ⟨hhanded.called.sound, ?_⟩, ?_, ?_⟩
      · rw [hhanded.called.buf, hinc.buf, hcalled.buf]
      · have := hhanded.le
        rw [List.length_drop] at this
        omega
      · have hrest := hhanded.received
        rw [List.drop_drop, hincr, hreceived, List.append_assoc] at hrest
        rw [hrest, ← hpiece]

/-- `cw_out_ptr_flush` hands on a part of what it is given, or all. -/
theorem ptrFlush_spec (hs : setup.Plain) (h : ctx.Sound) (flushAll : Bool) (buf : Bytes) :
    ∃ ctx' result consumed, ptrFlush setup ctx otype flushAll buf = (ctx', result, consumed) ∧
      (result = .ok ∨ result = .again) ∧ Handed ctx otype buf ctx' consumed := by
  unfold ptrFlush
  rw [if_neg (by simp [h.errored])]
  cases otype with
  | none =>
    exact ⟨ctx, .ok, buf.length, rfl, .inl rfl, ⟨h, rfl⟩, le_refl _, rfl⟩
  | body => exact ptrLoop_spec hs (by simp) flushAll 0 buf.length h buf
  | hds =>
    simp only [cwGetWritefunc, hs.1]
    exact ptrLoop_spec hs (fun _ => rfl) flushAll 0 buf.length h buf
  | body0len =>
    obtain ⟨ctx', hcalled, ⟨hcb, hreceived⟩ | ⟨hcb, hreceived⟩⟩ :=
      @cbWrite_spec setup ctx .body0len hs h buf
    · exact ⟨ctx', .again, 0, by simp [cwGetWritefunc, hcb], .inr rfl, hcalled, Nat.zero_le _,
        by rw [hreceived]; rfl⟩
    · exact ⟨ctx', .ok, 0, by simp [cwGetWritefunc, hcb], .inl rfl, hcalled, Nat.zero_le _,
        by rw [hreceived, List.append_assoc]; rfl⟩

theorem proper_drop {buf : Bytes} (h : Proper otype buf) (n : Nat) :
    Proper otype (buf.drop n) := fun hne => h fun hnil => hne (by rw [hnil, List.drop_nil])

/-- `cw_out_buf_flush` leaves in the buffer what the callback has not taken. -/
theorem bufFlush_spec (hs : setup.Plain) (h : ctx.Sound) {cwbuf : Buf} (hb : cwbuf.Sound)
    (flushAll : Bool) :
    ∃ ctx' left, bufFlush setup ctx cwbuf flushAll = (ctx', left, .ok) ∧ Called ctx ctx' ∧
      left.Sound ∧ ctx'.received ++ left.tokens = ctx.received ++ cwbuf.tokens := by
  unfold bufFlush
  split
  · obtain ⟨ctx', result, consumed, hflush, hresult, hhanded⟩ :=
      @ptrFlush_spec setup ctx cwbuf.type hs h flushAll cwbuf.b.content
    rw [hflush]
    dsimp only
    rw [if_neg (by rcases hresult with rfl | rfl <;> simp)]
    have hreceived := hhanded.received
    split
    · rename_i hzero
      rw [hzero] at hreceived
      exact ⟨ctx', cwbuf, rfl, hhanded.called, hb, hreceived⟩
    split
    · rename_i hall
      rw [hall, Buf.len, List.drop_length] at hreceived
      exact ⟨ctx', _, rfl, hhanded.called, ⟨hb.toobig, fun hne => absurd rfl hne⟩, hreceived⟩
    · obtain ⟨hok, hcontent, htoobig⟩ :=
        Dynbuf.tail_spec cwbuf.b (Nat.sub_le cwbuf.b.content.length consumed)
      rw [Nat.sub_sub_self hhanded.le] at hcontent
      refine ⟨ctx', { cwbuf with b := (cwbuf.b.tail (cwbuf.len - consumed)).1 }, ?_,
        hhanded.called, ⟨?_, ?_⟩, ?_⟩
      · exact congrArg (fun result => (ctx', _, result)) hok
      · exact htoobig.trans hb.toobig
      · exact hcontent ▸ proper_drop hb.proper consumed
      · change ctx'.received ++ tokens cwbuf.type (cwbuf.b.tail _).1.content = _
        rw [Buf.len, hcontent]
        exact hreceived
  · exact ⟨ctx, cwbuf, rfl, ⟨h, rfl⟩, hb, rfl⟩

theorem tokens_of_len_zero {cwbuf : Buf} (h : cwbuf.len = 0) : cwbuf.tokens = [] := by
  rw [Buf.tokens, List.length_eq_zero_iff.mp h, tokens_nil]

theorem flushBuf_spec (hs : setup.Plain) (h : ctx.Sound) {cwbuf : Buf} (hb : cwbuf.Sound)
    (flushAll : Bool) :
    ∃ ctx' left, flushBuf setup ctx cwbuf flushAll = (ctx', left, .ok) ∧ Called ctx ctx' ∧
      (∀ b ∈ left, b.Sound) ∧
      ctx'.received ++ left.toList.flatMap Buf.tokens = ctx.received ++ cwbuf.tokens := by
  obtain ⟨ctx', left, hflush, hcalled, hsound, hreceived⟩ := bufFlush_spec hs h hb flushAll
  unfold flushBuf
  rw [hflush]
  dsimp only
  split
  · rename_i hlen
    rw [tokens_of_len_zero hlen] at hreceived
    exact ⟨ctx', none, rfl, hcalled, by simp, hreceived⟩
  · refine ⟨ctx', some left, rfl, hcalled, ?_, ?_⟩
    · rintro b ⟨⟩
      exact hsound
    · simpa using hreceived

/-- The buffers at the end of the chain are flushed one after the other, up to one that keeps
something. -/
theorem flushEnd_spec (hs : setup.Plain) (h : ctx.Sound) (flushAll : Bool) {bufs : List Buf}
    (hb : ∀ b ∈ bufs, b.Sound) :
    ∃ ctx' left, flushEnd setup flushAll ctx bufs = (ctx', left, .ok) ∧ Called ctx ctx' ∧
      (∀ b ∈ left, b.Sound) ∧
      ctx'.received ++ left.flatMap Buf.tokens = ctx.received ++ bufs.flatMap Buf.tokens := by
  induction bufs generalizing ctx with
  | nil => exact ⟨ctx, [], rfl, ⟨h, rfl⟩, hb, rfl⟩
  | cons last newer ih =>
    rw [flushEnd]
    split
    · exact ⟨ctx, last :: newer, rfl, ⟨h, rfl⟩, hb, rfl⟩
    obtain ⟨hlast, hnewer⟩ := List.forall_mem_cons.mp hb
    obtain ⟨ctx1, left, hflush, hcalled, hsound, hreceived⟩ := flushBuf_spec hs h hlast flushAll
    rw [hflush]
    rcases left with _ | left
    · obtain ⟨ctx2, left, hend, hcalled2, hsound2, hreceived2⟩ := ih hcalled.sound hnewer
      refine ⟨ctx2, left, hend, ⟨hcalled2.sound, hcalled2.buf.trans hcalled.buf⟩, hsound2, ?_⟩
      rw [hreceived2, List.flatMap_cons, ← List.append_assoc, ← hreceived]
      simp
    · refine ⟨ctx1, left :: newer, rfl, hcalled,
        List.forall_mem_cons.mpr ⟨hsound left rfl, hnewer⟩, ?_⟩
      rw [List.flatMap_cons, List.flatMap_cons, ← List.append_assoc, ← List.append_assoc,
        ← hreceived]
      simp

/-- What a writer has handed on and keeps, all together. -/
def Ctx.total (ctx : Ctx) : List Token := ctx.received ++ ctx.waiting

/-- Flushing the chain hands on a part of what is buffered. -/
theorem flushChain_spec (hs : setup.Plain) (h : ctx.Sound) (flushAll : Bool) :
    ∃ ctx', flushChain setup ctx flushAll = (ctx', .ok) ∧ ctx'.Sound ∧
      ctx'.total = ctx.total := by
  unfold flushChain
  rcases hbuf : ctx.buf with _ | ⟨cwbuf, next⟩
  · exact ⟨ctx, rfl, h, rfl⟩
  dsimp only
  split
  · exact ⟨ctx, rfl, h, rfl⟩
  have hbufs := h.bufs
  rw [hbuf] at hbufs
  obtain ⟨hfirst, hnext⟩ := List.forall_mem_cons.mp hbufs
  have htotal : ctx.total = ctx.received ++ next.reverse.flatMap Buf.tokens ++ cwbuf.tokens := by
    simp [Ctx.total, Ctx.waiting, hbuf]
  obtain ⟨ctx1, left, hend, hcalled, hsound, hreceived⟩ :=
    @flushEnd_spec setup ctx hs h flushAll next.reverse
      fun b hb => hnext b (List.mem_reverse.mp hb)
  rw [hend]
  rcases left with _ | ⟨last, newer⟩
  · obtain ⟨ctx2, left, hflush, hcalled2, hsound2, hreceived2⟩ :=
      flushBuf_spec hs hcalled.sound hfirst flushAll
    dsimp only
    rw [hflush]
    refine ⟨_, rfl, withBuf_sound hcalled2.sound fun b hb => hsound2 b (by simpa using hb), ?_⟩
    rw [htotal, ← hreceived, List.flatMap_nil, List.append_nil, ← hreceived2]
    cases left <;> simp [Ctx.total, Ctx.waiting, Ctx.withBuf, Ctx.received]
  · refine ⟨_, rfl, withBuf_sound hcalled.sound (List.forall_mem_cons.mpr ⟨hfirst, fun b hb =>
      hsound b (List.mem_reverse.mp hb)⟩), ?_⟩
    rw [htotal, ← hreceived]
    simp [Ctx.total, Ctx.waiting, Ctx.withBuf, Ctx.received]

/-- The buffer that is added to, before the bytes of a write. -/
theorem target_spec (h : ctx.Sound) (otype : OutType) :
    (target ctx otype).1.Sound ∧ (∀ b ∈ (target ctx otype).2, b.Sound) ∧
      (target ctx otype).1.type = otype ∧
      (otype = .hds → (target ctx otype).1.b.content = []) ∧
      ctx.waiting = (target ctx otype).2.reverse.flatMap Buf.tokens ++
        (target ctx otype).1.tokens := by
  have hbufs := h.bufs
  unfold target Ctx.waiting
  rcases hbuf : ctx.buf with _ | ⟨cwbuf, next⟩
  · exact ⟨bufCreate_sound otype, by simp, rfl, fun _ => rfl, by
      simp [bufCreate, Buf.tokens, Dynbuf.init, Dynbuf.content, tokens_nil]⟩
  rw [hbuf] at hbufs
  dsimp only
  split
  · exact ⟨bufCreate_sound otype, hbufs, rfl, fun _ => rfl, by
      simp [bufCreate, Buf.tokens, Dynbuf.init, Dynbuf.content, tokens_nil]⟩
  · rename_i hsame
    obtain ⟨htype, hbody⟩ : cwbuf.type = otype ∧ otype ≠ .hds := by
      simpa [not_or] using hsame
    obtain ⟨hfirst, hnext⟩ := List.forall_mem_cons.mp hbufs
    exact ⟨hfirst, hnext, htype, fun heq => absurd heq hbody, by simp⟩

/-- With room for the bytes they get to the end of what is buffered. -/
theorem append_ok (h : ctx.Sound) {buf : Bytes} (hp : Proper otype buf)
    (hroom : Room ctx otype buf.length) :
    ∃ ctx', append ctx otype buf = (ctx', .ok) ∧ ctx'.Sound ∧
      ctx'.total = ctx.total ++ tokens otype buf := by
  obtain ⟨hsound, hnext, htype, hheader, hwaiting⟩ := target_spec h otype
  have hfit : buf.length + (target ctx otype).1.b.content.length + 1 ≤
      (target ctx otype).1.b.toobig := by
    have := hroom.2
    rw [hsound.toobig]
    unfold Buf.len at this
    omega
  obtain ⟨hok, hcontent, htoobig⟩ := Dynbuf.nappend_ok hfit
  unfold append
  rw [if_neg (by have := hroom.1; omega)]
  refine ⟨ctx.withBuf ({ (target ctx otype).1 with
      b := ((target ctx otype).1.b.nappend buf true).1 } :: (target ctx otype).2), ?_, ?_, ?_⟩
  · exact congrArg (fun result => (_, result)) hok
  · refine withBuf_sound h (List.forall_mem_cons.mpr ⟨⟨?_, ?_⟩, hnext⟩)
    · exact htoobig.trans hsound.toobig
    · dsimp only
      rw [hcontent, htype]
      intro hne
      by_cases hnew : buf = []
      · rw [hnew, List.append_nil] at hne
        exact htype ▸ hsound.proper hne
      · exact hp hnew
  · have hjoin : tokens otype ((target ctx otype).1.b.content ++ buf) =
        (target ctx otype).1.tokens ++ tokens otype buf := by
      rw [Buf.tokens, htype]
      by_cases hds : otype = .hds
      · rw [hheader hds, tokens_nil]
        rfl
      · exact tokens_append hds _ _
    rw [Ctx.total, withBuf_received, Ctx.total, hwaiting, List.append_assoc, List.append_assoc,
      ← hjoin]
    simp only [Ctx.waiting, Ctx.withBuf, List.reverse_cons, List.flatMap_append,
      List.flatMap_singleton, Buf.tokens, hcontent, htype]

/-- Without room `cw_out_append` fails. -/
theorem append_error (h : ctx.Sound) {buf : Bytes} (hroom : ¬ Room ctx otype buf.length) :
    ∃ ctx', append ctx otype buf = (ctx', .tooLarge) ∧ ctx'.taken = ctx.taken := by
  unfold append
  split
  · exact ⟨ctx, rfl, rfl⟩
  · rename_i hlen
    have hfit : buf.length + (target ctx otype).1.b.content.length + 1 >
        (target ctx otype).1.b.toobig := by
      rw [(target_spec h otype).1.toobig]
      by_contra hle
      exact hroom ⟨by omega, by unfold Buf.len; omega⟩
    dsimp only
    rw [Dynbuf.nappend_error hfit]
    exact ⟨_, rfl, rfl⟩

theorem flushOther_spec (hs : setup.Plain) (h : ctx.Sound) (otype : OutType) :
    ∃ ctx', flushOther setup ctx otype = (ctx', .ok) ∧ ctx'.Sound ∧ ctx'.total = ctx.total := by
  unfold flushOther
  split
  · exact ⟨ctx, rfl, h, rfl⟩
  split
  · exact flushChain_spec hs h true
  · exact ⟨ctx, rfl, h, rfl⟩

/-- A write for which there is room loses nothing. -/
theorem doWrite_ok (hs : setup.Plain) (h : ctx.Sound) {flushAll : Bool} {buf : Bytes}
    (hp : Proper otype buf) (hroom : HasRoom setup ctx otype flushAll buf) :
    ∃ ctx', doWrite setup ctx otype flushAll buf = (ctx', .ok) ∧ ctx'.Sound ∧
      ctx'.total = ctx.total ++ tokens otype buf := by
  obtain ⟨ctx1, hother, hsound, htotal⟩ := flushOther_spec hs h otype
  rw [← htotal]
  unfold HasRoom at hroom
  unfold doWrite
  rw [hother] at hroom ⊢
  dsimp only at hroom ⊢
  split
  · rename_i hbuf
    rw [if_pos hbuf] at hroom
    obtain ⟨ctx2, happend, hsound2, htotal2⟩ := append_ok hsound hp hroom
    obtain ⟨ctx3, hflush, hsound3, htotal3⟩ := flushChain_spec hs hsound2 flushAll
    rw [happend]
    dsimp only
    rw [hflush]
    exact ⟨ctx3, rfl, hsound3, htotal3.trans htotal2⟩
  · rename_i hbuf
    rw [if_neg hbuf] at hroom
    obtain ⟨ctx2, result, consumed, hflush, hresult, hhanded⟩ :=
      @ptrFlush_spec setup ctx1 otype hs hsound flushAll buf
    rw [hflush] at hroom ⊢
    dsimp only at hroom ⊢
    have hempty : ctx1.waiting = [] := by simp [Ctx.waiting, not_not.mp hbuf]
    have hempty2 : ctx2.waiting = [] := by
      rw [Ctx.waiting, hhanded.called.buf]
      exact hempty
    have hreceived := hhanded.received
    rw [if_neg (by rcases hresult with rfl | rfl <;> simp)]
    split
    · rename_i hlt
      obtain ⟨ctx3, happend, hsound3, htotal3⟩ :=
        append_ok hhanded.called.sound (proper_drop hp consumed)
          (by rw [List.length_drop]; exact hroom hlt)
      rw [happend]
      refine ⟨ctx3, rfl, hsound3, ?_⟩
      rw [htotal3, Ctx.total, hempty2, List.append_nil, hreceived, Ctx.total, hempty,
        List.append_nil]
    · rename_i hall
      refine ⟨ctx2, rfl, hhanded.called.sound, ?_⟩
      rw [List.drop_eq_nil_of_le (by omega), tokens_nil, List.append_nil] at hreceived
      rw [Ctx.total, hempty2, List.append_nil, hreceived, Ctx.total, hempty, List.append_nil]

/-- An error has made the writer drop its buffers, and something in them. -/
def Ctx.Lost (asked : List Token) (ctx : Ctx) : Prop :=
  ctx.errored = true ∧ ctx.buf = [] ∧ ∃ lost, lost ≠ [] ∧ ctx.received ++ lost = asked

theorem waiting_ne_nil (h : ctx.Sound) (hlen : ctx.bufsLen ≠ 0) : ctx.waiting ≠ [] := by
  intro hnil
  apply hlen
  apply List.sum_eq_zero
  intro n hn
  obtain ⟨cwbuf, hmem, rfl⟩ := List.mem_map.mp hn
  have htokens := List.flatMap_eq_nil_iff.mp hnil cwbuf (List.mem_reverse.mpr hmem)
  by_contra hne
  exact tokens_ne_nil (h.bufs cwbuf hmem).proper (fun heq => hne (by rw [Buf.len, heq]; rfl))
    htokens

theorem target_len_le (ctx : Ctx) (otype : OutType) : (target ctx otype).1.len ≤ ctx.bufsLen := by
  unfold target Ctx.bufsLen
  rcases ctx.buf with _ | ⟨cwbuf, next⟩
  · exact Nat.le_refl _
  · dsimp only
    split
    · exact Nat.zero_le _
    · rw [List.map_cons, List.sum_cons]
      exact Nat.le_add_right _ _

/-- What does not fit is lost, with all that is buffered. -/
theorem outcome_append_lost (h : ctx.Sound) {buf : Bytes} (hp : Proper otype buf)
    (hroom : ¬ Room ctx otype buf.length) :
    (outcome (append ctx otype buf)).2 = .tooLarge ∧
      (outcome (append ctx otype buf)).1.Lost (ctx.total ++ tokens otype buf) := by
  obtain ⟨ctx', happend, htaken⟩ := append_error h hroom
  rw [happend]
  refine ⟨rfl, rfl, rfl, ctx.waiting ++ tokens otype buf, ?_, ?_⟩
  · intro hnil
    obtain ⟨hwaiting, hbuf⟩ := List.append_eq_nil_iff.mp hnil
    have hlen : ctx.bufsLen = 0 := by
      by_contra hne
      exact waiting_ne_nil h hne hwaiting
    have hnew : buf = [] := by
      by_contra hne
      exact tokens_ne_nil hp hne hbuf
    have htarget := target_len_le ctx otype
    apply hroom
    rw [hnew, Room, List.length_nil]
    unfold dynPauseBuffer
    omega
  · rw [← List.append_assoc]
    change ctx'.taken.flatMap _ ++ _ ++ _ = _
    rw [htaken]
    rfl

/-- A write for which there is no room loses something. -/
theorem doWrite_lost (hs : setup.Plain) (h : ctx.Sound) {flushAll : Bool} {buf : Bytes}
    (hp : Proper otype buf) (hroom : ¬ HasRoom setup ctx otype flushAll buf) :
    (doWrite setup ctx otype flushAll buf).2 = .tooLarge ∧
      (doWrite setup ctx otype flushAll buf).1.Lost (ctx.total ++ tokens otype buf) := by
  obtain ⟨ctx1, hother, hsound, htotal⟩ := flushOther_spec hs h otype
  rw [← htotal]
  unfold HasRoom at hroom
  unfold doWrite
  rw [hother] at hroom ⊢
  dsimp only at hroom ⊢
  split
  · rename_i hbuf
    rw [if_pos hbuf] at hroom
    have hlost := outcome_append_lost hsound hp hroom
    obtain ⟨ctx2, happend, -⟩ := append_error hsound hroom
    rw [happend] at hlost ⊢
    exact hlost
  · rename_i hbuf
    rw [if_neg hbuf] at hroom
    obtain ⟨ctx2, result, consumed, hflush, hresult, hhanded⟩ :=
      @ptrFlush_spec setup ctx1 otype hs hsound flushAll buf
    rw [hflush] at hroom ⊢
    dsimp only at hroom ⊢
    obtain ⟨hlt, hroom⟩ := Classical.not_imp.mp hroom
    rw [if_neg (by rcases hresult with rfl | rfl <;> simp), if_pos hlt]
    have hlost := outcome_append_lost hhanded.called.sound (proper_drop hp consumed)
      (by rw [List.length_drop]; exact hroom)
    have hempty : ctx1.waiting = [] := by simp [Ctx.waiting, not_not.mp hbuf]
    have hempty2 : ctx2.waiting = [] := by
      rw [Ctx.waiting, hhanded.called.buf]
      exact hempty
    rw [Ctx.total, hempty2, List.append_nil, hhanded.received] at hlost
    rw [Ctx.total, hempty, List.append_nil]
    exact hlost

theorem Ctx.Lost.more {asked : List Token} (h : ctx.Lost asked) (more : List Token) :
    ctx.Lost (asked ++ more) := by
  obtain ⟨herrored, hbuf, lost, hne, hlost⟩ := h
  refine ⟨herrored, hbuf, lost ++ more, ?_, ?_⟩
  · exact fun hnil => hne (List.append_eq_nil_iff.mp hnil).1
  · rw [← hlost, List.append_assoc]

theorem Ctx.Lost.not_total {asked : List Token} (h : ctx.Lost asked) : ctx.total ≠ asked := by
  obtain ⟨-, hbuf, lost, hne, hlost⟩ := h
  intro heq
  rw [Ctx.total, Ctx.waiting, hbuf, ← hlost] at heq
  exact hne (List.append_cancel_left heq).symm

theorem writeEach_ok (hs : setup.Plain) (h : ctx.Sound) {flushAll : Bool} {buf : Bytes}
    {otypes : List OutType} (hp : ∀ otype ∈ otypes, Proper otype buf)
    (hroom : RoomEach setup flushAll buf ctx otypes) :
    ∃ ctx', writeEach setup flushAll buf ctx otypes = (ctx', .ok) ∧ ctx'.Sound ∧
      ctx'.total = ctx.total ++ otypes.flatMap fun otype => tokens otype buf := by
  induction otypes generalizing ctx with
  | nil => exact ⟨ctx, rfl, h, (List.append_nil _).symm⟩
  | cons otype otypes ih =>
    obtain ⟨hfirst, hrest⟩ := List.forall_mem_cons.mp hp
    obtain ⟨ctx1, hwrite, hsound, htotal⟩ := doWrite_ok hs h hfirst hroom.1
    have hroom1 := hroom.2
    rw [hwrite] at hroom1
    obtain ⟨ctx2, heach, hsound2, htotal2⟩ := ih hsound hrest hroom1
    refine ⟨ctx2, ?_, hsound2, ?_⟩
    · rw [writeEach, hwrite]
      exact heach
    · rw [htotal2, htotal, List.flatMap_cons, List.append_assoc]

theorem writeEach_lost (hs : setup.Plain) (h : ctx.Sound) {flushAll : Bool} {buf : Bytes}
    {otypes : List OutType} (hp : ∀ otype ∈ otypes, Proper otype buf)
    (hroom : ¬ RoomEach setup flushAll buf ctx otypes) :
    (writeEach setup flushAll buf ctx otypes).1.Lost
      (ctx.total ++ otypes.flatMap fun otype => tokens otype buf) := by
  induction otypes generalizing ctx with
  | nil => exact absurd trivial hroom
  | cons otype otypes ih =>
    obtain ⟨hfirst, hrest⟩ := List.forall_mem_cons.mp hp
    rw [List.flatMap_cons, ← List.append_assoc, writeEach]
    by_cases hone : HasRoom setup ctx otype flushAll buf
    · obtain ⟨ctx1, hwrite, hsound, htotal⟩ := doWrite_ok hs h hfirst hone
      have hroom1 : ¬ RoomEach setup flushAll buf (doWrite setup ctx otype flushAll buf).1 otypes :=
        fun hthen => hroom ⟨hone, hthen⟩
      rw [hwrite] at hroom1 ⊢
      rw [← htotal]
      exact ih hsound hrest hroom1
    · obtain ⟨hresult, hlost⟩ := doWrite_lost hs h hfirst hone
      rcases hwrite : doWrite setup ctx otype flushAll buf with ⟨ctx1, result⟩
      rw [hwrite] at hresult hlost
      cases hresult
      exact hlost.more _

theorem writeEach_errored {asked : List Token} (h : ctx.Lost asked) (flushAll : Bool)
    (buf : Bytes) (otypes : List OutType) :
    (writeEach setup flushAll buf ctx otypes).1 = ctx := by
  cases otypes with
  | nil => rfl
  | cons otype otypes => rw [writeEach, doWrite_errored h.1 h.2.1]

/-! ### Whole runs -/

/-- A call for which there is room. -/
theorem step_ok (hs : setup.Plain) (h : ctx.Sound) {call : Call} (hroom : call.HasRoom setup ctx) :
    (step setup ctx call).1.Sound ∧
      (step setup ctx call).1.total = ctx.total ++ call.asked setup := by
  cases call with
  | write type buf =>
    obtain ⟨ctx', hwrite, hsound, htotal⟩ :=
      writeEach_ok hs h (writes_proper setup type buf) hroom
    rw [step, cwOutWrite, hwrite]
    exact ⟨hsound, htotal⟩
  | unpause => exact ⟨⟨h.errored, h.calm, h.bufs⟩, (List.append_nil _).symm⟩
  | flush flushAll =>
    rw [step, doFlush, if_neg (by simp [h.errored])]
    split
    · exact ⟨h, (List.append_nil _).symm⟩
    · obtain ⟨ctx', hflush, hsound, htotal⟩ := flushChain_spec hs h flushAll
      rw [hflush]
      exact ⟨hsound, htotal.trans (List.append_nil _).symm⟩

theorem step_lost (hs : setup.Plain) (h : ctx.Sound) {call : Call}
    (hroom : ¬ call.HasRoom setup ctx) :
    (step setup ctx call).1.Lost (ctx.total ++ call.asked setup) := by
  cases call with
  | write type buf => exact writeEach_lost hs h (writes_proper setup type buf) hroom
  | unpause => exact absurd trivial hroom
  | flush flushAll => exact absurd trivial hroom

theorem step_errored {asked : List Token} (h : ctx.Lost asked) (call : Call) :
    (step setup ctx call).1.Lost (asked ++ call.asked setup) := by
  cases call with
  | write type buf =>
    rw [step, cwOutWrite, writeEach_errored h]
    exact h.more _
  | unpause =>
    rw [Call.asked, List.append_nil]
    exact h
  | flush flushAll =>
    rw [step, doFlush, if_pos h.1, Call.asked, List.append_nil]
    exact h

/-- A run in which every call has room. -/
theorem run_ok (hs : setup.Plain) (h : ctx.Sound) {calls : List Call}
    (hroom : ∀ pre call post, calls = pre ++ call :: post →
      call.HasRoom setup (run setup ctx pre)) :
    (run setup ctx calls).Sound ∧
      (run setup ctx calls).total = ctx.total ++ calls.flatMap (Call.asked setup) := by
  induction calls generalizing ctx with
  | nil => exact ⟨h, (List.append_nil _).symm⟩
  | cons call calls ih =>
    obtain ⟨hsound, htotal⟩ := step_ok hs h (hroom [] call calls rfl)
    have hrest := ih hsound fun pre call' post heq =>
      hroom (call :: pre) call' post (by rw [heq]; rfl)
    rw [htotal, List.append_assoc] at hrest
    exact hrest

theorem run_errored {asked : List Token} (h : ctx.Lost asked) (calls : List Call) :
    (run setup ctx calls).Lost (asked ++ calls.flatMap (Call.asked setup)) := by
  induction calls generalizing ctx asked with
  | nil =>
    rw [List.flatMap_nil, List.append_nil]
    exact h
  | cons call calls ih =>
    rw [List.flatMap_cons, ← List.append_assoc]
    exact ih (step_errored h call)

/-- A run with a call that has no room. -/
theorem run_lost (hs : setup.Plain) (h : ctx.Sound) {calls : List Call}
    (hroom : ¬ ∀ pre call post, calls = pre ++ call :: post →
      call.HasRoom setup (run setup ctx pre)) :
    (run setup ctx calls).Lost (ctx.total ++ calls.flatMap (Call.asked setup)) := by
  induction calls generalizing ctx with
  | nil => exact absurd (fun pre call post heq => by simp at heq) hroom
  | cons call calls ih =>
    rw [List.flatMap_cons, ← List.append_assoc]
    by_cases hfirst : call.HasRoom setup ctx
    · obtain ⟨hsound, htotal⟩ := step_ok hs h hfirst
      rw [← htotal]
      refine ih hsound fun hrest => hroom fun pre call' post heq => ?_
      cases pre with
      | nil =>
        cases heq
        exact hfirst
      | cons c pre =>
        cases heq
        exact hrest pre call' post rfl
    · exact run_errored (step_lost hs h hfirst) calls

end

/-- With callbacks that take a piece or pause, the pauses show in nothing exactly when every write
has room for what it has to buffer. -/
theorem transparent_iff {setup : Setup} (hs : setup.Plain) {answers : List Answer}
    (ha : Answer.failed ∉ answers) (calls : List Call) :
    Transparent setup calls (run setup (init answers) calls) ↔
      ∀ pre call post, calls = pre ++ call :: post →
        call.HasRoom setup (run setup (init answers) pre) := by
  constructor
  · intro htransparent
    by_contra hroom
    exact (run_lost hs (init_sound ha) hroom).not_total htransparent
  · intro hroom
    exact (run_ok hs (init_sound ha) hroom).2

/-- The transfer of the examples: headers go to a callback of their own and to the body. -/
def bothSetup : Setup :=
  { includeHeader := true, fwriteHeader := true, writeheader := false, nonetwork := false,
    maxFilesize := 0 }

def bodyType : WriteType :=
  { body := true, info := false, header := false, eos := false, zeroLen := false }

def headerType : WriteType :=
  { body := false, info := false, header := true, eos := false, zeroLen := false }

/-- Two headers and two pieces of a body, with a pause at the second header and one at the body. -/
def pausedCalls : List Call :=
  [.write headerType [72, 10], .write headerType [10], .write bodyType [1, 2], .unpause,
    .write bodyType [3], .unpause, .flush false]

theorem transparent_iff_paused :
    bothSetup.Plain ∧ Answer.failed ∉ [Answer.took, .took, .pause, .took, .pause] ∧
      Transparent bothSetup pausedCalls
        (run bothSetup (init [.took, .took, .pause, .took, .pause]) pausedCalls) ∧
      ∀ pre call post, pausedCalls = pre ++ call :: post →
        call.HasRoom bothSetup (run bothSetup (init [.took, .took, .pause, .took, .pause]) pre) :=
  have htransparent : Transparent bothSetup pausedCalls
      (run bothSetup (init [.took, .took, .pause, .took, .pause]) pausedCalls) := by
    unfold Transparent
    decide
  ⟨⟨rfl, rfl, rfl⟩, by decide, htransparent,
    (transparent_iff ⟨rfl, rfl, rfl⟩ (by decide) pausedCalls).mp htransparent⟩

theorem ptrFlush_pause {setup : Setup} {answers : List Answer} (hs : setup.Plain) (flushAll : Bool)
    {buf : Bytes} (hbuf : buf ≠ []) :
    ptrFlush setup (init (.pause :: answers)) .body flushAll buf =
      ({ init answers with paused := true }, .again, 0) := by
  obtain ⟨byte, rest, rfl⟩ := List.exists_cons_of_ne_nil hbuf
  simp [ptrFlush, cwGetWritefunc, init, ptrLoop, pgrsDeliverCheck, cbWrite, hs.2.1, hs.2.2]

/-- A write that has to be buffered whole and is as long as the limit is lost. -/
theorem write_limit_lost {setup : Setup} (hs : setup.Plain) {buf : Bytes}
    (hlen : buf.length = dynPauseBuffer) :
    ¬ Transparent setup [.write bodyType buf]
      (run setup (init [.pause]) [.write bodyType buf]) := by
  refine (run_lost hs (init_sound (by decide)) fun hroom => ?_).not_total
  have hwrites : writes setup bodyType buf = [.body] := by simp [writes, bodyType]
  have hfirst := hroom [] _ [] rfl
  rw [Call.HasRoom, hwrites] at hfirst
  have hne : buf ≠ [] := by
    rintro rfl
    cases hlen
  have hbody := hfirst.1
  unfold HasRoom at hbody
  change (let (ctx, _, consumed) := ptrFlush setup (init [.pause]) .body bodyType.eos buf
    consumed < buf.length → Room ctx .body (buf.length - consumed)) at hbody
  rw [ptrFlush_pause hs bodyType.eos hne] at hbody
  have hlt : (bufCreate .body).len + (buf.length - 0) < dynPauseBuffer :=
    (hbody (List.length_pos_iff.mpr hne)).2
  rw [hlen] at hlt
  exact absurd hlt (Nat.not_lt.mpr (Nat.le_add_left _ _))

/-- `DYN_PAUSE_BUFFER` bytes, written while nothing is buffered: the callback pauses, the check of
`cw_out_append` lets them through, and the buffer has no place for the zero behind them. -/
theorem full_pause_buffer_lost :
    (List.replicate dynPauseBuffer (0 : UInt8)).length ≤ dynPauseBuffer ∧
      ¬ Transparent bothSetup [.write bodyType (List.replicate dynPauseBuffer 0)]
        (run bothSetup (init [.pause]) [.write bodyType (List.replicate dynPauseBuffer 0)]) :=
  ⟨Nat.le_of_eq List.length_replicate, write_limit_lost ⟨rfl, rfl, rfl⟩ List.length_replicate⟩

end Gurl.CwOut
