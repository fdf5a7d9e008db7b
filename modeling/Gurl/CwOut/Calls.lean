import Gurl.CwOut.Writer

/-! The calls of the callbacks in a run of the client writer: what they return, and when an error is
the last thing that they return. -/

namespace Gurl.CwOut

variable {setup : Setup} {ctx ctx' ctx1 ctx2 : Ctx} {otype : OutType} {result result' : Curlcode}
  {m n : Nat} {answers : List Answer} {flushAll : Bool}

/-- The answers to the first `n` calls. -/
def give : List Answer → Nat → List Answer
  | _, 0 => []
  | answers, n + 1 => answers.headD .took :: give answers.tail n

/-- What the callbacks have returned in a run that started with these answers. -/
def Ctx.returned (answers : List Answer) (ctx : Ctx) : List Answer :=
  let used := answers.take (answers.length - ctx.answers.length)
  used ++ List.replicate (ctx.taken.length - used.count .took) .took

theorem give_append (answers : List Answer) (m n : Nat) :
    give answers (m + n) = give answers m ++ give (answers.drop m) n := by
  induction m generalizing answers with
  | zero => rw [Nat.zero_add]; rfl
  | succ m ih =>
    rw [Nat.succ_add, give, ih, give, List.cons_append, List.drop_tail]

theorem give_eq (answers : List Answer) (n : Nat) :
    give answers n = answers.take n ++ List.replicate (n - answers.length) .took := by
  induction n generalizing answers with
  | zero => simp [give]
  | succ n ih =>
    rw [give, ih]
    cases answers with
    | nil => simp [List.replicate_succ]
    | cons a as => simp

theorem exists_of_mem_give {answers : List Answer} {n : Nat} {answer : Answer}
    (h : answer ∈ give answers n) : ∃ j < n, answers.getD j .took = answer := by
  induction n generalizing answers with
  | zero => exact absurd h List.not_mem_nil
  | succ n ih =>
    rw [give] at h
    rcases List.mem_cons.mp h with rfl | hrest
    · exact ⟨0, Nat.succ_pos n, by cases answers <;> rfl⟩
    · obtain ⟨j, hj, hanswer⟩ := ih hrest
      refine ⟨j + 1, Nat.succ_lt_succ hj, ?_⟩
      cases answers <;> exact hanswer

/-- `n` calls of callbacks. -/
structure Made (ctx : Ctx) (n : Nat) (ctx' : Ctx) : Prop where
  answers : ctx'.answers = ctx.answers.drop n
  taken : ctx'.taken.length = ctx.taken.length + (give ctx.answers n).count .took

theorem Made.of_eq (hanswers : ctx'.answers = ctx.answers) (htaken : ctx'.taken = ctx.taken) :
    Made ctx 0 ctx' :=
  ⟨hanswers, congrArg List.length htaken⟩

theorem Made.trans (h1 : Made ctx m ctx1) (h2 : Made ctx1 n ctx2) : Made ctx (m + n) ctx2 where
  answers := by rw [h2.answers, h1.answers, List.drop_drop]
  taken := by rw [h2.taken, h1.taken, h1.answers, give_append, List.count_append, Nat.add_assoc]

/-- An error behind calls without one is their first. -/
theorem Made.first {P : Prop} (h : Made ctx m ctx') (hnone : .failed ∉ give ctx.answers m)
    (hlast : .failed ∈ give ctx'.answers n →
      (∃ pre, give ctx'.answers n = pre ++ [.failed] ∧ .failed ∉ pre) ∧ P) :
    .failed ∈ give ctx.answers (m + n) →
      (∃ pre, give ctx.answers (m + n) = pre ++ [.failed] ∧ .failed ∉ pre) ∧ P := by
  rw [h.answers] at hlast
  rw [give_append]
  intro hmem
  obtain ⟨⟨pre, hpre, hfirst⟩, herror⟩ := hlast ((List.mem_append.mp hmem).resolve_left hnone)
  refine ⟨⟨give ctx.answers m ++ pre, by rw [hpre, List.append_assoc], ?_⟩, herror⟩
  rw [List.mem_append, not_or]
  exact ⟨hnone, hfirst⟩

/-- From the start of a run, the calls are those that have returned something. -/
theorem Made.returned (h : Made (init answers) n ctx) : ctx.returned answers = give answers n := by
  have hanswers : ctx.answers = answers.drop n := h.answers
  have htaken : ctx.taken.length = (give answers n).count .took := by
    rw [h.taken]
    exact Nat.zero_add _
  have hused : answers.take (answers.length - ctx.answers.length) = answers.take n := by
    rw [hanswers, List.length_drop, List.take_eq_take_iff]
    omega
  rw [Ctx.returned, hused, htaken, give_eq, List.count_append, List.count_replicate_self,
    Nat.add_sub_cancel_left]

/-- `n` calls of callbacks, none of them behind an error, which makes the operation fail. -/
structure Ended (ctx : Ctx) (n : Nat) (ctx' : Ctx) (result : Curlcode) : Prop where
  made : Made ctx n ctx'
  errored : ctx'.errored = ctx.errored
  last : .failed ∈ give ctx.answers n →
    (∃ pre, give ctx.answers n = pre ++ [.failed] ∧ .failed ∉ pre) ∧ result = .writeError

theorem Ended.none (hanswers : ctx'.answers = ctx.answers) (htaken : ctx'.taken = ctx.taken)
    (herrored : ctx'.errored = ctx.errored) : Ended ctx 0 ctx' result :=
  ⟨.of_eq hanswers htaken, herrored, fun h => absurd h List.not_mem_nil⟩

theorem Ended.no_error (h : Ended ctx n ctx' result) (hresult : result ≠ .writeError) :
    .failed ∉ give ctx.answers n := fun hmem => hresult (h.last hmem).2

/-- Without an error the operation goes on. -/
theorem Ended.trans (h1 : Ended ctx m ctx1 result) (hresult : result ≠ .writeError)
    (h2 : Ended ctx1 n ctx2 result') : Ended ctx (m + n) ctx2 result' where
  made := h1.made.trans h2.made
  errored := h2.errored.trans h1.errored
  last := h1.made.first (h1.no_error hresult) h2.last

theorem Ended.of_ctx (h : Ended ctx n ctx1 result) (hanswers : ctx2.answers = ctx1.answers)
    (htaken : ctx2.taken = ctx1.taken) (herrored : ctx2.errored = ctx1.errored) :
    Ended ctx n ctx2 result where
  made := ⟨hanswers.trans h.made.answers, (congrArg List.length htaken).trans h.made.taken⟩
  errored := herrored.trans h.errored
  last := h.last

theorem Ended.of_result (h : Ended ctx n ctx' result) (hresult : result ≠ .writeError) :
    Ended ctx n ctx' result' :=
  ⟨h.made, h.errored, fun hmem => absurd hmem (h.no_error hresult)⟩

/-! ### What the operations call -/

theorem cbWrite_ended (setup : Setup) (ctx : Ctx) (otype : OutType) (buf : Bytes) :
    Ended ctx 1 (cbWrite setup ctx otype buf).1 (cbWrite setup ctx otype buf).2.1 := by
  rw [cbWrite]
  dsimp only
  have hgive : give ctx.answers 1 = [ctx.answers.headD .took] := rfl
  have hdrop : ctx.answers.tail = ctx.answers.drop 1 := List.drop_one.symm
  cases hanswer : ctx.answers.headD .took with
  | took =>
    refine ⟨⟨hdrop, ?_⟩, rfl, fun hmem => ?_⟩
    · rw [hgive, hanswer, List.length_append]
      rfl
    · rw [hgive, hanswer] at hmem
      simp at hmem
  | pause =>
    have hcount : ([Answer.pause] : List Answer).count .took = 0 := rfl
    have hnot : .failed ∉ give ctx.answers 1 := by
      rw [hgive, hanswer]
      decide
    cases setup.nonetwork
    all_goals
      exact ⟨⟨hdrop, by rw [hgive, hanswer, hcount]; rfl⟩, rfl, fun hmem => absurd hmem hnot⟩
  | failed =>
    refine ⟨⟨hdrop, ?_⟩, rfl, fun _ => ⟨⟨[], by rw [hgive, hanswer]; rfl, List.not_mem_nil⟩, rfl⟩⟩
    rw [hgive, hanswer]
    rfl

theorem pgrsDeliverInc_ended (ctx : Ctx) (otype : OutType) (delta : Nat) :
    Ended ctx 0 (pgrsDeliverInc ctx otype delta) result := by
  rw [pgrsDeliverInc]
  split
  · exact .none rfl rfl rfl
  · exact .none rfl rfl rfl

theorem cbWrite_ok {buf : Bytes} {k : Nat} (h : cbWrite setup ctx otype buf = (ctx', .ok, k)) :
    ctx.answers.headD .took = .took ∧ k = buf.length ∧ ctx'.answers = ctx.answers.tail ∧
      ctx'.paused = ctx.paused ∧ ctx'.deliver = ctx.deliver := by
  rw [cbWrite] at h
  dsimp only at h
  cases hanswer : ctx.answers.headD .took with
  | took =>
    rw [hanswer] at h
    cases h
    exact ⟨rfl, rfl, rfl, rfl, rfl⟩
  | pause =>
    rw [hanswer] at h
    cases hnonetwork : setup.nonetwork
    all_goals
      rw [hnonetwork] at h
      cases h
  | failed =>
    rw [hanswer] at h
    cases h

/-- The loop of `cw_out_ptr_flush` gets to its call number `j` when the callback takes all
before. -/
structure Offered (setup : Setup) (ctx : Ctx) (otype : OutType) (maxWrite : Nat) (buf : Bytes)
    (j : Nat) : Prop where
  paused : ctx.paused = false
  some : if maxWrite = 0 then j = 0 ∧ buf ≠ [] else j * maxWrite < buf.length
  small : otype = .body → setup.maxFilesize ≠ 0 →
    (if maxWrite = 0 then buf.length else min buf.length ((j + 1) * maxWrite)) + ctx.deliver ≤
      setup.maxFilesize

/-- The first `j` answers are that the callback takes the piece. -/
def Taking (answers : List Answer) (j : Nat) : Prop := ∀ i < j, answers.getD i .took = .took

theorem taking_succ {j : Nat} (hhead : answers.headD .took = .took)
    (htail : Taking answers.tail j) : Taking answers (j + 1) := by
  intro i hi
  cases i with
  | zero => cases answers <;> exact hhead
  | succ i =>
    have hrest := htail i (Nat.lt_of_succ_lt_succ hi)
    cases answers <;> exact hrest

theorem offered_zero {maxWrite : Nat} {buf : Bytes}
    (hend : ¬ (buf.isEmpty || ctx.paused) = true)
    (hcheck : ¬ (if otype = .body then pgrsDeliverCheck setup ctx
      (if maxWrite = 0 then buf.length else min buf.length maxWrite) else Curlcode.ok) ≠ .ok) :
    Offered setup ctx otype maxWrite buf 0 := by
  rw [Bool.or_eq_true, not_or] at hend
  obtain ⟨hbuf, hpaused⟩ := hend
  have hne : buf ≠ [] := fun hnil => hbuf (by rw [hnil]; rfl)
  refine ⟨Bool.eq_false_iff.mpr hpaused, ?_, fun hbody hlimit => ?_⟩
  · split
    · exact ⟨rfl, hne⟩
    · rw [Nat.zero_mul]
      exact List.length_pos_iff.mpr hne
  · rw [if_pos hbody, pgrsDeliverCheck, not_not] at hcheck
    rw [Nat.zero_add, Nat.one_mul]
    by_contra hgt
    rw [if_pos ⟨hlimit, Nat.lt_of_not_le hgt⟩] at hcheck
    cases hcheck

/-- The calls for the rest of the piece follow the first. -/
theorem Offered.behind {maxWrite j : Nat} {buf : Bytes} (hpaused : ctx1.paused = ctx.paused)
    (hdeliver : ctx1.deliver = if otype = .body then ctx.deliver +
      (if maxWrite = 0 then buf.length else min buf.length maxWrite) else ctx.deliver)
    (h : Offered setup ctx1 otype maxWrite
      (buf.drop (if maxWrite = 0 then buf.length else min buf.length maxWrite)) j) :
    Offered setup ctx otype maxWrite buf (j + 1) := by
  obtain ⟨hcalm, hsome, hsmall⟩ := h
  by_cases hmax : maxWrite = 0
  · rw [if_pos hmax, if_pos hmax, List.drop_length] at hsome
    exact absurd rfl hsome.2
  rw [if_neg hmax] at hsome hdeliver
  rw [if_neg hmax, List.length_drop] at hsome
  have hlt : (j + 1) * maxWrite < buf.length := by
    rw [Nat.succ_mul]
    omega
  refine ⟨hpaused ▸ hcalm, by rwa [if_neg hmax], fun hbody hlimit => ?_⟩
  have hrest := hsmall hbody hlimit
  rw [if_neg hmax, if_neg hmax, List.length_drop, hdeliver, if_pos hbody] at hrest
  rw [if_neg hmax]
  have hmul : (j + 1 + 1) * maxWrite = (j + 1) * maxWrite + maxWrite := Nat.succ_mul _ _
  omega

theorem ptrLoop_ended (setup : Setup) (otype : OutType) (flushAll : Bool) (maxWrite minWrite : Nat)
    (fuel : Nat) (ctx : Ctx) (buf : Bytes) :
    ∃ n, Ended ctx n (ptrLoop setup otype flushAll maxWrite minWrite fuel ctx buf).1
        (ptrLoop setup otype flushAll maxWrite minWrite fuel ctx buf).2.1 ∧
      ∀ j < n, Offered setup ctx otype maxWrite buf j ∧ Taking ctx.answers j := by
  induction fuel generalizing ctx buf with
  | zero => exact ⟨0, .none rfl rfl rfl, fun j hj => absurd hj (Nat.not_lt_zero j)⟩
  | succ fuel ih =>
    rw [ptrLoop]
    by_cases hend : (buf.isEmpty || ctx.paused) = true
    · rw [if_pos hend]
      exact ⟨0, .none rfl rfl rfl, fun j hj => absurd hj (Nat.not_lt_zero j)⟩
    rw [if_neg hend]
    by_cases hmin : (!flushAll && decide (buf.length < minWrite)) = true
    · rw [if_pos hmin]
      exact ⟨0, .none rfl rfl rfl, fun j hj => absurd hj (Nat.not_lt_zero j)⟩
    rw [if_neg hmin]
    dsimp only
    by_cases hcheck : (if otype = .body then pgrsDeliverCheck setup ctx
        (if maxWrite = 0 then buf.length else min buf.length maxWrite) else Curlcode.ok) ≠ .ok
    · rw [if_pos hcheck]
      exact ⟨0, .none rfl rfl rfl, fun j hj => absurd hj (Nat.not_lt_zero j)⟩
    rw [if_neg hcheck]
    have hzero : Offered setup ctx otype maxWrite buf 0 ∧ Taking ctx.answers 0 :=
      ⟨offered_zero hend hcheck, fun i hi => absurd hi (Nat.not_lt_zero i)⟩
    set wlen := if maxWrite = 0 then buf.length else min buf.length maxWrite with hwlen
    have hle : wlen ≤ buf.length := by
      rw [hwlen]
      split
      · exact Nat.le_refl _
      · exact Nat.min_le_left _ _
    have hcall := cbWrite_ended setup ctx otype (buf.take wlen)
    have htook := @cbWrite_ok setup ctx
    generalize hcb : cbWrite setup ctx otype (buf.take wlen) = called at hcall ⊢
    obtain ⟨ctx1, result, nwritten⟩ := called
    dsimp only at hcall ⊢
    by_cases hok : result = .ok
    · subst hok
      obtain ⟨hhead, hlen, hanswers, hpaused, hdeliver⟩ := htook hcb
      rw [List.length_take, Nat.min_eq_left hle] at hlen
      subst hlen
      obtain ⟨n, hrest, hcalls⟩ := ih (pgrsDeliverInc ctx1 otype wlen) (buf.drop wlen)
      have hinc : Ended ctx1 0 (pgrsDeliverInc ctx1 otype wlen) Curlcode.ok :=
        pgrsDeliverInc_ended ctx1 otype wlen
      refine ⟨1 + (0 + n), hcall.trans (by decide) (hinc.trans (by decide) hrest), fun j hj => ?_⟩
      cases j with
      | zero => exact hzero
      | succ j =>
        obtain ⟨hoffered, htaking⟩ := hcalls j (by omega)
        rw [hinc.made.answers, List.drop_zero, hanswers] at htaking
        refine ⟨Offered.behind ?_ ?_ hoffered, taking_succ hhead htaking⟩
        · rw [← hpaused, pgrsDeliverInc]
          split <;> rfl
        · rw [← hwlen, pgrsDeliverInc, ← hdeliver]
          split <;> rfl
    · refine ⟨1, ?_, fun j hj => ?_⟩
      · cases result
        case ok => exact absurd rfl hok
        all_goals exact hcall
      · obtain rfl : j = 0 := Nat.lt_one_iff.mp hj
        exact hzero

/-- The call number `j` of a callback for a piece that is written at once, when the callback takes
all before. -/
def Reaches (setup : Setup) (ctx : Ctx) (otype : OutType) (buf : Bytes) (j : Nat) : Prop :=
  ctx.errored = false ∧ (cwGetWritefunc setup otype).1 = true ∧
    if otype = .body0len then j = 0
    else Offered setup ctx otype (cwGetWritefunc setup otype).2.1 buf j

theorem ptrFlush_ended (setup : Setup) (ctx : Ctx) (otype : OutType) (flushAll : Bool)
    (buf : Bytes) :
    ∃ n, Ended ctx n (ptrFlush setup ctx otype flushAll buf).1
        (ptrFlush setup ctx otype flushAll buf).2.1 ∧
      ∀ j < n, Reaches setup ctx otype buf j ∧ Taking ctx.answers j := by
  rw [ptrFlush]
  by_cases herrored : ctx.errored = true
  · rw [if_pos herrored]
    exact ⟨0, .none rfl rfl rfl, fun j hj => absurd hj (Nat.not_lt_zero j)⟩
  rw [if_neg herrored]
  have hreaches := Reaches.eq_def setup ctx otype buf
  generalize cwGetWritefunc setup otype = funcs at hreaches ⊢
  obtain ⟨wcb, maxWrite, minWrite⟩ := funcs
  dsimp only at hreaches ⊢
  cases wcb with
  | false => exact ⟨0, .none rfl rfl rfl, fun j hj => absurd hj (Nat.not_lt_zero j)⟩
  | true =>
    rw [if_neg (by decide)]
    by_cases hzero : otype = .body0len
    · rw [if_pos hzero]
      refine ⟨1, cbWrite_ended setup ctx otype buf, fun j hj => ?_⟩
      obtain rfl : j = 0 := Nat.lt_one_iff.mp hj
      rw [hreaches, if_pos hzero]
      exact ⟨⟨Bool.eq_false_iff.mpr herrored, rfl, rfl⟩, fun i hi => absurd hi (Nat.not_lt_zero i)⟩
    · rw [if_neg hzero]
      obtain ⟨n, hended, hcalls⟩ :=
        ptrLoop_ended setup otype flushAll maxWrite minWrite buf.length ctx buf
      refine ⟨n, hended, fun j hj => ?_⟩
      rw [hreaches, if_neg hzero]
      exact ⟨⟨Bool.eq_false_iff.mpr herrored, rfl, (hcalls j hj).1⟩, (hcalls j hj).2⟩

theorem bufFlush_ended (setup : Setup) (ctx : Ctx) (cwbuf : Buf) (flushAll : Bool) :
    ∃ n, Ended ctx n (bufFlush setup ctx cwbuf flushAll).1
      (bufFlush setup ctx cwbuf flushAll).2.2 := by
  rw [bufFlush]
  by_cases hsome : cwbuf.len ≠ 0 ∨ cwbuf.type = .body0len
  · rw [if_pos hsome]
    obtain ⟨n, hcall, -⟩ := ptrFlush_ended setup ctx cwbuf.type flushAll cwbuf.b.content
    generalize ptrFlush setup ctx cwbuf.type flushAll cwbuf.b.content = flushed at hcall ⊢
    obtain ⟨ctx1, result, consumed⟩ := flushed
    refine ⟨n, ?_⟩
    dsimp only at hcall ⊢
    by_cases hfail : result ≠ .ok ∧ result ≠ .again
    · rw [if_pos hfail]
      exact hcall
    · have hresult : result ≠ .writeError := by
        rintro rfl
        exact hfail ⟨by decide, by decide⟩
      rw [if_neg hfail]
      split
      · exact hcall.of_result hresult
      · split
        · exact hcall.of_result hresult
        · exact hcall.of_result hresult
  · rw [if_neg hsome]
    exact ⟨0, .none rfl rfl rfl⟩

theorem flushBuf_ended (setup : Setup) (ctx : Ctx) (cwbuf : Buf) (flushAll : Bool) :
    ∃ n, Ended ctx n (flushBuf setup ctx cwbuf flushAll).1
      (flushBuf setup ctx cwbuf flushAll).2.2 := by
  obtain ⟨n, hcall⟩ := bufFlush_ended setup ctx cwbuf flushAll
  rw [flushBuf]
  generalize bufFlush setup ctx cwbuf flushAll = flushed at hcall ⊢
  obtain ⟨ctx1, cwbuf1, result⟩ := flushed
  refine ⟨n, ?_⟩
  dsimp only at hcall
  by_cases hok : result = .ok
  · subst hok
    dsimp only
    split
    · exact hcall
    · exact hcall
  · cases result
    case ok => exact absurd rfl hok
    all_goals exact hcall

theorem flushEnd_ended (setup : Setup) (flushAll : Bool) (ctx : Ctx) (bufs : List Buf) :
    ∃ n,
      Ended ctx n (flushEnd setup flushAll ctx bufs).1 (flushEnd setup flushAll ctx bufs).2.2 := by
  induction bufs generalizing ctx with
  | nil => exact ⟨0, .none rfl rfl rfl⟩
  | cons last newer ih =>
    rw [flushEnd]
    by_cases hpaused : ctx.paused = true
    · rw [if_pos hpaused]
      exact ⟨0, .none rfl rfl rfl⟩
    rw [if_neg hpaused]
    obtain ⟨n, hcall⟩ := flushBuf_ended setup ctx last flushAll
    generalize flushBuf setup ctx last flushAll = flushed at hcall ⊢
    obtain ⟨ctx1, left, result⟩ := flushed
    dsimp only at hcall
    by_cases hgone : left = none ∧ result = .ok
    · obtain ⟨rfl, rfl⟩ := hgone
      obtain ⟨n', hrest⟩ := ih ctx1
      exact ⟨n + n', hcall.trans (by decide) hrest⟩
    · refine ⟨n, ?_⟩
      cases left with
      | some cwbuf => exact hcall
      | none =>
        cases result
        case ok => exact absurd ⟨rfl, rfl⟩ hgone
        all_goals exact hcall

theorem flushChain_ended (setup : Setup) (ctx : Ctx) (flushAll : Bool) :
    ∃ n, Ended ctx n (flushChain setup ctx flushAll).1 (flushChain setup ctx flushAll).2 := by
  rw [flushChain]
  cases ctx.buf with
  | nil => exact ⟨0, .none rfl rfl rfl⟩
  | cons cwbuf next =>
    dsimp only
    by_cases hpaused : ctx.paused = true
    · rw [if_pos hpaused]
      exact ⟨0, .none rfl rfl rfl⟩
    rw [if_neg hpaused]
    obtain ⟨n, hcall⟩ := flushEnd_ended setup flushAll ctx next.reverse
    generalize flushEnd setup flushAll ctx next.reverse = flushed at hcall ⊢
    obtain ⟨ctx1, left, result⟩ := flushed
    dsimp only at hcall
    by_cases hgone : left = [] ∧ result = .ok
    · obtain ⟨rfl, rfl⟩ := hgone
      obtain ⟨n', hfirst⟩ := flushBuf_ended setup ctx1 cwbuf flushAll
      exact ⟨n + n', (hcall.trans (by decide) hfirst).of_ctx rfl rfl rfl⟩
    · refine ⟨n, ?_⟩
      cases left with
      | cons b bs => exact hcall.of_ctx rfl rfl rfl
      | nil =>
        cases result
        case ok => exact absurd ⟨rfl, rfl⟩ hgone
        all_goals exact hcall.of_ctx rfl rfl rfl

theorem append_ended (ctx : Ctx) (otype : OutType) (buf : Bytes) :
    Ended ctx 0 (append ctx otype buf).1 (append ctx otype buf).2 := by
  rw [append]
  split
  · exact .none rfl rfl rfl
  · exact .none rfl rfl rfl

theorem flushOther_ended (setup : Setup) (ctx : Ctx) (otype : OutType) :
    ∃ n, Ended ctx n (flushOther setup ctx otype).1 (flushOther setup ctx otype).2 := by
  rw [flushOther]
  cases ctx.buf with
  | nil => exact ⟨0, .none rfl rfl rfl⟩
  | cons cwbuf next =>
    dsimp only
    split
    · exact flushChain_ended setup ctx true
    · exact ⟨0, .none rfl rfl rfl⟩

/-! ### Writes -/

/-- A write that finds nothing buffered, when what is buffered for other data has been flushed, gets
no error from a callback. -/
def Calm (setup : Setup) (ctx : Ctx) (otype : OutType) (buf : Bytes) : Prop :=
  let (ctx, result) := flushOther setup ctx otype
  result = .ok → ctx.buf = [] → ∀ j, Reaches setup ctx otype buf j → Taking ctx.answers j →
    ctx.answers.getD j .took ≠ .failed

def CalmEach (setup : Setup) (flushAll : Bool) (buf : Bytes) : Ctx → List OutType → Prop
  | _, [] => True
  | ctx, otype :: otypes => Calm setup ctx otype buf ∧
      CalmEach setup flushAll buf (doWrite setup ctx otype flushAll buf).1 otypes

def Call.Calm (setup : Setup) (ctx : Ctx) : Call → Prop
  | .write type buf => CalmEach setup type.eos buf ctx (writes setup type buf)
  | .unpause => True
  | .flush _ => True

/-- After an error nothing is buffered. -/
def Clean (ctx : Ctx) : Prop := ctx.errored = true → ctx.buf = []

/-- `n` calls of callbacks, of which an error is the last and stops the writer. -/
structure Stops (ctx : Ctx) (n : Nat) (ctx' : Ctx) (result : Curlcode) : Prop where
  made : Made ctx n ctx'
  clean : Clean ctx'
  errored : ctx.errored = true → n = 0 ∧ ctx'.errored = true
  last : .failed ∈ give ctx.answers n →
    (∃ pre, give ctx.answers n = pre ++ [.failed] ∧ .failed ∉ pre) ∧ ctx'.errored = true ∧
      result ≠ .ok

theorem Stops.trans (h1 : Stops ctx m ctx1 .ok) (h2 : Stops ctx1 n ctx2 result) :
    Stops ctx (m + n) ctx2 result where
  made := h1.made.trans h2.made
  clean := h2.clean
  errored := fun h => by
    obtain ⟨rfl, herrored⟩ := h1.errored h
    rw [Nat.zero_add]
    exact h2.errored herrored
  last := h1.made.first (fun hmem => (h1.last hmem).2.2 rfl) h2.last

theorem Stops.none (hclean : Clean ctx) (hanswers : ctx'.answers = ctx.answers)
    (htaken : ctx'.taken = ctx.taken) (herrored : ctx'.errored = ctx.errored)
    (hbuf : ctx'.buf = ctx.buf) : Stops ctx 0 ctx' result where
  made := .of_eq hanswers htaken
  clean := fun h => hbuf.trans (hclean (herrored.symm.trans h))
  errored := fun h => ⟨rfl, herrored.trans h⟩
  last := fun h => absurd h List.not_mem_nil

/-- What goes to `out:` after an error. -/
theorem Ended.outcome (h : Ended ctx n ctx1 result) (herrored : ctx.errored = false) :
    Stops ctx n (outcome (ctx1, result)).1 (outcome (ctx1, result)).2 := by
  have hfalse : ¬ ctx.errored = true := by
    rw [herrored]
    decide
  by_cases hok : result = .ok
  · subst hok
    refine ⟨h.made, fun hset => absurd (h.errored.symm.trans hset) hfalse,
      fun hset => absurd hset hfalse, fun hmem => ?_⟩
    exact absurd hmem (h.no_error (by decide))
  · have hout : CwOut.outcome (ctx1, result) = (ctx1.failed, result) := by
      cases result
      case ok => exact absurd rfl hok
      all_goals rfl
    rw [hout]
    exact ⟨⟨h.made.answers, h.made.taken⟩, fun _ => rfl, fun hset => absurd hset hfalse,
      fun hmem => ⟨(h.last hmem).1, rfl, hok⟩⟩

theorem Ended.continue (h : Ended ctx n ctx1 result) (herrored : ctx.errored = false)
    (hnone : .failed ∉ give ctx.answers n) : Stops ctx n ctx1 result' where
  made := h.made
  clean := fun hset => by
    rw [h.errored, herrored] at hset
    cases hset
  errored := fun hset => by
    rw [herrored] at hset
    cases hset
  last := fun hmem => absurd hmem hnone

theorem doWrite_stops (hclean : Clean ctx) {buf : Bytes} (hcalm : Calm setup ctx otype buf)
    (flushAll : Bool) :
    ∃ n, Stops ctx n (doWrite setup ctx otype flushAll buf).1
      (doWrite setup ctx otype flushAll buf).2 := by
  by_cases hset : ctx.errored = true
  · rw [doWrite_errored hset (hclean hset)]
    exact ⟨0, .none hclean rfl rfl rfl rfl⟩
  have herrored : ctx.errored = false := Bool.eq_false_iff.mpr hset
  obtain ⟨m, hother⟩ := flushOther_ended setup ctx otype
  rw [doWrite]
  rw [Calm] at hcalm
  generalize flushOther setup ctx otype = flushed at hother hcalm ⊢
  obtain ⟨ctx1, result⟩ := flushed
  dsimp only at hother hcalm
  by_cases hok : result = .ok
  · subst hok
    have hnone : .failed ∉ give ctx.answers m := hother.no_error (by decide)
    dsimp only
    by_cases hbuf : ctx1.buf ≠ []
    · rw [if_pos hbuf]
      have happend := append_ended ctx1 otype buf
      generalize append ctx1 otype buf = appended at happend ⊢
      obtain ⟨ctx2, result⟩ := appended
      dsimp only at happend
      have hboth : Ended ctx (m + 0) ctx2 result := hother.trans (by decide) happend
      by_cases hok2 : result = .ok
      · subst hok2
        obtain ⟨n, hchain⟩ := flushChain_ended setup ctx2 flushAll
        exact ⟨m + 0 + n, (hboth.trans (by decide) hchain).outcome herrored⟩
      · refine ⟨m + 0, ?_⟩
        cases result
        case ok => exact absurd rfl hok2
        all_goals exact hboth.outcome herrored
    · rw [if_neg hbuf]
      obtain ⟨n, hwrite, hcalls⟩ := ptrFlush_ended setup ctx1 otype flushAll buf
      -- an error of the callback is the one case that does not go to `out:`
      have hfine : .failed ∉ give ctx1.answers n := by
        intro hmem
        obtain ⟨j, hj, hanswer⟩ := exists_of_mem_give hmem
        obtain ⟨hreaches, htaking⟩ := hcalls j hj
        exact hcalm rfl (not_not.mp hbuf) j hreaches htaking hanswer
      generalize ptrFlush setup ctx1 otype flushAll buf = written at hwrite ⊢
      obtain ⟨ctx2, result, consumed⟩ := written
      dsimp only at hwrite ⊢
      have hall : .failed ∉ give ctx.answers (m + n) := by
        rw [give_append, ← hother.made.answers, List.mem_append, not_or]
        exact ⟨hnone, hfine⟩
      have hended : Ended ctx (m + n) ctx2 Curlcode.ok :=
        ⟨hother.made.trans hwrite.made, hwrite.errored.trans hother.errored,
          fun hmem => absurd hmem hall⟩
      by_cases hfail : result ≠ .ok ∧ result ≠ .again
      · rw [if_pos hfail]
        exact ⟨m + n, hended.continue herrored hall⟩
      rw [if_neg hfail]
      by_cases hpart : consumed < buf.length
      · rw [if_pos hpart]
        have happend := append_ended ctx2 otype (buf.drop consumed)
        exact ⟨m + n + 0, (hended.trans (by decide) happend).outcome herrored⟩
      · rw [if_neg hpart]
        exact ⟨m + n, hended.continue herrored hall⟩
  · refine ⟨m, ?_⟩
    cases result
    case ok => exact absurd rfl hok
    all_goals exact hother.outcome herrored

theorem writeEach_stops {flushAll : Bool} {buf : Bytes} {otypes : List OutType}
    (hclean : Clean ctx) (hcalm : CalmEach setup flushAll buf ctx otypes) :
    ∃ n, Stops ctx n (writeEach setup flushAll buf ctx otypes).1
      (writeEach setup flushAll buf ctx otypes).2 := by
  induction otypes generalizing ctx with
  | nil => exact ⟨0, .none hclean rfl rfl rfl rfl⟩
  | cons otype otypes ih =>
    obtain ⟨hfirst, hrest⟩ := hcalm
    obtain ⟨m, hwrite⟩ := doWrite_stops hclean hfirst flushAll
    rw [writeEach]
    generalize doWrite setup ctx otype flushAll buf = written at hwrite hrest ⊢
    obtain ⟨ctx1, result⟩ := written
    dsimp only at hwrite hrest
    by_cases hok : result = .ok
    · subst hok
      obtain ⟨n, hmore⟩ := ih hwrite.clean hrest
      exact ⟨m + n, hwrite.trans hmore⟩
    · refine ⟨m, ?_⟩
      cases result
      case ok => exact absurd rfl hok
      all_goals exact hwrite

theorem step_stops {call : Call} (hclean : Clean ctx) (hcalm : call.Calm setup ctx) :
    ∃ n, Stops ctx n (step setup ctx call).1 (step setup ctx call).2 := by
  cases call with
  | write type buf => exact writeEach_stops hclean hcalm
  | unpause => exact ⟨0, .none hclean rfl rfl rfl rfl⟩
  | flush flushAll =>
    rw [step, doFlush]
    by_cases hset : ctx.errored = true
    · rw [if_pos hset]
      exact ⟨0, .none hclean rfl rfl rfl rfl⟩
    rw [if_neg hset]
    by_cases hpaused : ctx.paused = true
    · rw [if_pos hpaused]
      exact ⟨0, .none hclean rfl rfl rfl rfl⟩
    · rw [if_neg hpaused]
      obtain ⟨n, hchain⟩ := flushChain_ended setup ctx flushAll
      exact ⟨n, hchain.outcome (Bool.eq_false_iff.mpr hset)⟩

/-! ### Whole runs -/

/-- A run up to here, in which an error stopped the writer. -/
def Stopping (answers : List Answer) (ctx : Ctx) : Prop :=
  ∃ n, Made (init answers) n ctx ∧ Clean ctx ∧
    (.failed ∈ give answers n →
      (∃ pre, give answers n = pre ++ [.failed] ∧ .failed ∉ pre) ∧ ctx.errored = true)

theorem step_stopping {call : Call} (h : Stopping answers ctx) (hcalm : call.Calm setup ctx) :
    Stopping answers (step setup ctx call).1 := by
  obtain ⟨n, hmade, hclean, hlast⟩ := h
  obtain ⟨k, hstep⟩ := step_stops hclean hcalm
  refine ⟨n + k, hmade.trans hstep.made, hstep.clean, ?_⟩
  have hanswers : ctx.answers = answers.drop n := hmade.answers
  have hmore := hstep.last
  rw [hanswers] at hmore
  rw [give_append]
  by_cases hbefore : .failed ∈ give answers n
  · obtain ⟨hpre, herrored⟩ := hlast hbefore
    obtain ⟨rfl, herrored'⟩ := hstep.errored herrored
    intro _
    rw [show give (answers.drop n) 0 = [] from rfl, List.append_nil]
    exact ⟨hpre, herrored'⟩
  · intro hmem
    obtain ⟨⟨pre, hpre, hfirst⟩, herrored, -⟩ :=
      hmore ((List.mem_append.mp hmem).resolve_left hbefore)
    refine ⟨⟨give answers n ++ pre, by rw [hpre, List.append_assoc], ?_⟩, herrored⟩
    rw [List.mem_append, not_or]
    exact ⟨hbefore, hfirst⟩

theorem run_stopping {calls : List Call} (h : Stopping answers ctx)
    (hcalm : ∀ pre call post, calls = pre ++ call :: post → call.Calm setup (run setup ctx pre)) :
    Stopping answers (run setup ctx calls) := by
  induction calls generalizing ctx with
  | nil => exact h
  | cons call calls ih =>
    apply ih (step_stopping h (hcalm [] call calls rfl))
    intro pre call' post heq
    exact hcalm (call :: pre) call' post (by rw [heq]; rfl)

theorem init_stopping (answers : List Answer) : Stopping answers (init answers) :=
  ⟨0, .of_eq rfl rfl, fun h => (by cases h), fun h => absurd h List.not_mem_nil⟩

theorem Stopping.last (h : Stopping answers ctx) {pre post : List Answer}
    (hreturned : ctx.returned answers = pre ++ .failed :: post) : post = [] := by
  obtain ⟨n, hmade, -, hlast⟩ := h
  rw [hmade.returned] at hreturned
  have hmem : .failed ∈ give answers n := by
    rw [hreturned]
    exact List.mem_append_right _ List.mem_cons_self
  obtain ⟨⟨first, hfirst, hnone⟩, -⟩ := hlast hmem
  rw [hreturned] at hfirst
  rcases List.eq_nil_or_concat post with hnil | ⟨most, final, rfl⟩
  · exact hnil
  · have hsplit : (pre ++ .failed :: most) ++ [final] = first ++ [.failed] := by
      rw [← hfirst, List.append_assoc, List.concat_eq_append]
      rfl
    have hinit : pre ++ .failed :: most = first := (List.append_inj' hsplit rfl).1
    rw [← hinit] at hnone
    exact absurd (List.mem_append_right _ List.mem_cons_self) hnone

/-- An error is the last thing that the callbacks return, in a run in which none comes at a write
that finds nothing buffered. -/
theorem error_last {setup : Setup} {answers : List Answer} {calls : List Call}
    (hcalm : ∀ pre call post, calls = pre ++ call :: post →
      call.Calm setup (run setup (init answers) pre)) {pre post : List Answer}
    (hreturned : (run setup (init answers) calls).returned answers = pre ++ .failed :: post) :
    post = [] :=
  (run_stopping (init_stopping answers) hcalm).last hreturned

/-- A transfer with one callback for the headers and one for the body. -/
def callbackSetup : Setup :=
  { includeHeader := false, fwriteHeader := true, writeheader := false, nonetwork := false,
    maxFilesize := 0 }

def bodyWrite (buf : Bytes) : Call :=
  .write { body := true, info := false, header := false, eos := false, zeroLen := false } buf

/-- The callback pauses, and returns an error when the buffered byte is flushed. -/
def failedFlush : List Call := [bodyWrite [1], .unpause, .flush false, bodyWrite [2]]

theorem error_last_failedFlush :
    (run callbackSetup (init [.pause, .failed]) failedFlush).returned [.pause, .failed] =
        [.pause] ++ .failed :: [] ∧
      (∀ pre call post, failedFlush = pre ++ call :: post →
        call.Calm callbackSetup (run callbackSetup (init [.pause, .failed]) pre)) ∧
      ([] : List Answer) = [] := by
  have hreturned : (run callbackSetup (init [.pause, .failed]) failedFlush).returned
      [.pause, .failed] = [.pause] ++ .failed :: [] := by decide
  have hcalm : ∀ pre call post, failedFlush = pre ++ call :: post →
      call.Calm callbackSetup (run callbackSetup (init [.pause, .failed]) pre) := by
    intro pre call post heq
    rcases pre with _ | ⟨c0, _ | ⟨c1, _ | ⟨c2, _ | ⟨c3, pre⟩⟩⟩⟩
    · cases heq
      refine ⟨fun _ _ j _ htaking => ?_, trivial⟩
      cases j with
      | zero => decide
      | succ j => exact absurd (htaking 0 (Nat.succ_pos j)) (by decide)
    · cases heq
      trivial
    · cases heq
      trivial
    · cases heq
      exact ⟨fun _ _ j hreaches => absurd hreaches.1 (by decide), trivial⟩
    · simp [failedFlush] at heq
  exact ⟨hreturned, hcalm, error_last hcalm hreturned⟩

/-- The callback returns an error at the first write, and gets the second one too. -/
theorem called_after_error :
    ¬ ∀ (setup : Setup) (answers : List Answer) (calls : List Call) (pre post : List Answer),
      (run setup (init answers) calls).returned answers = pre ++ .failed :: post → post = [] := by
  intro h
  have hcalls := h callbackSetup [.failed] [bodyWrite [1], bodyWrite [2]] [] [.took] (by decide)
  cases hcalls

end Gurl.CwOut
