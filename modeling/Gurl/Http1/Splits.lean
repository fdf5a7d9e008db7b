import Gurl.Http1.Http1
import Gurl.Lib.Feed
import Gurl.Lib.Lines

/-! `Curl_h1_req_parse_read` finds the same request however the bytes are split over its calls. -/

namespace Gurl.Http1

open Feed Strcase

variable {call : Call} {parser p q : H1ReqParser} {s t x more body raw buf data : Bytes} {n : Nat}

/-! ### One line -/

/-- What stops the parser: the empty line, a line without its CR, or a line that is no good. -/
inductive Stop where
  | done | refused | failed (result : Curlcode)
  deriving DecidableEq

/-- A parser that has a line and nothing else. -/
def alone (maxLineLen : Nat) (req : Option Httpreq) (raw : Bytes) : H1ReqParser :=
  { req, scratch := .init maxLineLen, line := some raw, maxLineLen, lineLen := raw.length,
    done := false }

/-- What a line makes of the request. -/
def onLine (call : Call) (maxLineLen : Nat) (req : Option Httpreq) (raw : Bytes) :
    Option Httpreq × Option Stop :=
  match trimLine (alone maxLineLen req raw) call.strict with
  | (parser, .ok) =>
    match takeLine call parser with
    | (parser, .ok) => (parser.req, if parser.done then some .done else none)
    | (parser, result) => (parser.req, some (.failed result))
  | (parser, _) => (parser.req, some .refused)

/-- The request and the part of a line behind it. -/
structure Head where
  req : Option Httpreq
  pending : Bytes

def step (call : Call) (maxLineLen : Nat) (s : Head) (c : UInt8) : Head × List Unit × Option Stop :=
  if c = 10 then
    let (req, stop) := onLine call maxLineLen s.req (s.pending ++ [10])
    ({ req, pending := [] }, [], stop)
  else ({ s with pending := s.pending ++ [c] }, [], none)

theorem feed_body (h : 10 ∉ body) (maxLineLen : Nat) (s : Head) :
    feed (step call maxLineLen) s body =
      ⟨{ s with pending := s.pending ++ body }, [], none, []⟩ := by
  induction body generalizing s with
  | nil => rw [List.append_nil]; rfl
  | cons c body ih =>
    obtain ⟨hc, hbody⟩ := not_or.mp (mt List.mem_cons.mpr h)
    have hstep : step call maxLineLen s c = ({ s with pending := s.pending ++ [c] }, [], none) :=
      if_neg (Ne.symm hc)
    rw [feed_cons_ok hstep, ih hbody]
    simp

/-- A line, and what is behind it. -/
theorem feed_line (h : 10 ∉ body) (maxLineLen : Nat) (s : Head) (more : Bytes) :
    feed (step call maxLineLen) s (body ++ 10 :: more) =
      match onLine call maxLineLen s.req (s.pending ++ body ++ [10]) with
      | (req, none) => feed (step call maxLineLen) { req, pending := [] } more
      | (req, some stop) => ⟨{ req, pending := [] }, [], some stop, more⟩ := by
  have hbody := @feed_body call body h maxLineLen s
  rw [feed_append (by rw [hbody]), hbody]
  dsimp only
  rcases hline : onLine call maxLineLen s.req (s.pending ++ body ++ [10]) with ⟨req, _ | stop⟩
  · have hstep : step call maxLineLen { s with pending := s.pending ++ body } 10 =
        ({ req, pending := [] }, [], none) := by
      rw [step, if_pos rfl]
      dsimp only
      rw [hline]
    rw [feed_cons_ok hstep]
    rfl
  · have hstep : step call maxLineLen { s with pending := s.pending ++ body } 10 =
        ({ req, pending := [] }, [], some stop) := by
      rw [step, if_pos rfl]
      dsimp only
      rw [hline]
    rw [feed_cons_error hstep]
    rfl

/-! ### The line is all that counts -/

/-- A comparison with a text that has no LF does not look behind the LF. -/
theorem strncmp_line (h : 10 ∉ s) (x more : Bytes) :
    strncmp s (x ++ 10 :: more) s.length = strncmp s (x ++ [10]) s.length := by
  induction s generalizing x with
  | nil => rfl
  | cons c s ih =>
    obtain ⟨hc, hs⟩ := not_or.mp (mt List.mem_cons.mpr h)
    cases x with
    | nil =>
      have hne : (c == 10) = false := beq_false_of_ne (Ne.symm hc)
      simp [strncmp, hne]
    | cons d x => simp only [List.length_cons, strncmp, List.cons_append, List.headD_cons,
        List.tail_cons, ih hs x]

theorem getD_left {i : Nat} (h : i < s.length) (t : Bytes) :
    (s ++ t).getD i 0 = s.getD i 0 := List.getD_append _ _ _ _ h

theorem lastSpace_left {mLen : Nat} (h : n < s.length) (t : Bytes) :
    lastSpace (s ++ t) mLen n = lastSpace s mLen n := by
  induction n with
  | zero => rfl
  | succ n ih => rw [lastSpace, lastSpace, getD_left h, ih (by omega)]

theorem lastSpace_some {mLen i : Nat} (h : lastSpace s mLen n = some i) : mLen < i ∧ i ≤ n := by
  induction n with
  | zero => cases h
  | succ n ih =>
    rw [lastSpace] at h
    split at h
    · rename_i hlt
      split at h
      · cases h
        exact ⟨hlt, Nat.le_refl _⟩
      · obtain ⟨h1, h2⟩ := ih h
        exact ⟨h1, by omega⟩
    · cases h

/-- `start_req` looks at the line, and not behind it. -/
theorem startReq_line (hcustom : 10 ∉ call.customMethod.getD []) (hlen : p.lineLen ≤ x.length)
    (hreq : p.req = none) (more : Bytes) (scratch : Dynbuf) :
    ∃ req result, startReq { p with line := some (x ++ 10 :: more) } call =
        ({ p with line := some (x ++ 10 :: more), req }, result) ∧
      startReq { p with line := some (x ++ [10]), scratch } call =
        ({ p with line := some (x ++ [10]), scratch, req }, result) := by
  have hsplit : x ++ 10 :: more = (x ++ [10]) ++ more := by simp
  have hlt : p.lineLen < (x ++ [10]).length := by
    rw [List.length_append, List.length_singleton]
    omega
  have htake : ∀ k ≤ p.lineLen, (x ++ 10 :: more).take k = (x ++ [10]).take k := by
    intro k hk
    rw [hsplit, List.take_append_of_le_length (by omega)]
  have hmethod : methodLen (x ++ 10 :: more) p.lineLen call.customMethod =
      methodLen (x ++ [10]) p.lineLen call.customMethod := by
    rw [methodLen, methodLen, strncmp_line hcustom, htake _ (Nat.le_refl _)]
  rw [startReq, startReq]
  dsimp only [Option.getD_some]
  rw [hmethod]
  cases methodLen (x ++ [10]) p.lineLen call.customMethod with
  | none => exact ⟨none, _, by rw [← hreq], by rw [← hreq]⟩
  | some mLen =>
    dsimp only
    rw [show lastSpace (x ++ 10 :: more) mLen p.lineLen = lastSpace (x ++ [10]) mLen p.lineLen by
      rw [hsplit, lastSpace_left hlt]]
    cases hspace : lastSpace (x ++ [10]) mLen p.lineLen with
    | none => exact ⟨none, _, by rw [← hreq], by rw [← hreq]⟩
    | some i =>
      obtain ⟨hm, hi⟩ := lastSpace_some hspace
      have htarget : ((x ++ 10 :: more).drop (mLen + 1)).take (i - mLen - 1) =
          ((x ++ [10]).drop (mLen + 1)).take (i - mLen - 1) := by
        have hk : mLen + 1 + (i - mLen - 1) ≤ p.lineLen := by omega
        rw [List.take_drop, List.take_drop, htake _ hk]
      dsimp only
      rw [htake mLen (by omega), htarget]
      split
      · exact ⟨none, _, by rw [← hreq], by rw [← hreq]⟩
      · split
        · exact ⟨none, _, by rw [← hreq], by rw [← hreq]⟩
        · exact ⟨_, _, rfl, rfl⟩

/-- So does what is done with the line at all. -/
theorem takeLine_line (hcustom : 10 ∉ call.customMethod.getD []) (hlen : p.lineLen ≤ x.length)
    (hdone : p.done = false) (more : Bytes) (scratch : Dynbuf) :
    ∃ req result done, takeLine call { p with line := some (x ++ 10 :: more) } =
        ({ p with
          line := some (x ++ 10 :: more)
          scratch := if done then p.scratch.reset else p.scratch
          req
          done }, result) ∧
      takeLine call { p with line := some (x ++ [10]), scratch } =
        ({ p with
          line := some (x ++ [10])
          scratch := if done then scratch.reset else scratch
          req
          done }, result) ∧
      (done = true → result = .ok) := by
  rw [takeLine, takeLine]
  dsimp only
  cases hreq : p.req with
  | none =>
    obtain ⟨req, result, h1, h2⟩ := startReq_line hcustom hlen hreq more scratch
    refine ⟨req, result, false, ?_, ?_, by simp⟩
    · dsimp only
      rw [← hreq, h1, hdone]
      rfl
    · dsimp only
      rw [← hreq, h2, hdone]
      rfl
  | some req =>
    dsimp only
    by_cases hzero : p.lineLen = 0
    · rw [if_pos hzero, if_pos hzero]
      exact ⟨some req, .ok, true, by rw [← hreq]; rfl, by rw [← hreq]; rfl, fun _ => rfl⟩
    · have htake : (x ++ 10 :: more).take p.lineLen = (x ++ [10]).take p.lineLen := by
        rw [List.take_append_of_le_length hlen, List.take_append_of_le_length hlen]
      have hadd : req.headers.h1AddLine (x ++ 10 :: more) p.lineLen =
          req.headers.h1AddLine (x ++ [10]) p.lineLen := by
        rw [Dynhds.h1AddLine, Dynhds.h1AddLine, htake]
      rw [if_neg hzero, if_neg hzero]
      dsimp only [Option.getD_some]
      rw [hadd]
      exact ⟨_, _, false, by rw [hdone]; rfl, by rw [hdone]; rfl, by simp⟩

/-- The line without its end. -/
def bareLen (body : Bytes) : Nat :=
  if body.getLast? = some 13 then body.length - 1 else body.length

theorem bareLen_le (body : Bytes) : bareLen body ≤ body.length := by
  rw [bareLen]
  split <;> omega

/-- `trim_line`, with a line that ends in LF. -/
theorem trimLine_eq (hline : p.line = some (body ++ 10 :: more))
    (hlen : p.lineLen = body.length + 1) (strict : Bool) :
    trimLine p strict = ({ p with lineLen := bareLen body },
      if (body.getLast? ≠ some 13 ∧ strict = true) ∨ bareLen body > p.maxLineLen then .urlMalformat
      else .ok) := by
  have hlf : (body ++ 10 :: more).getD body.length 0 = 10 := by
    rw [List.getD_append_right _ _ _ _ (Nat.le_refl _), Nat.sub_self]
    rfl
  have hcr : (body.length ≠ 0 ∧ (body ++ 10 :: more).getD (body.length - 1) 0 = 13) ↔
      body.getLast? = some 13 := by
    by_cases hnil : body = []
    · simp [hnil]
    · have hpos := List.length_pos_of_ne_nil hnil
      rw [getD_left (by omega), List.getLast?_eq_getElem?, List.getD_eq_getElem?_getD,
        List.getElem?_eq_getElem (show body.length - 1 < body.length by omega), Option.some_inj]
      exact and_iff_right (by omega)
  unfold trimLine
  simp only [hline, hlen, Option.getD_some, Nat.add_sub_cancel, hlf, ne_eq, Nat.add_one_ne_zero,
    not_false_eq_true, and_self, if_true]
  simp only [ne_eq] at hcr
  simp only [hcr, bareLen]
  by_cases hlast : body.getLast? = some 13
  · simp only [hlast, if_true, not_true_eq_false, false_and, if_false, false_or]
    split <;> rfl
  · simp only [hlast, if_false, not_false_eq_true, true_and]
    by_cases hstrict : strict = true
    · simp only [hstrict, if_true, true_or]
    · simp only [hstrict, Bool.false_eq_true, if_false, false_or]
      split <;> rfl

/-! ### One call -/

/-- The parser between two lines, or in a line. -/
structure Rep (p : H1ReqParser) (s : Head) : Prop where
  req : p.req = s.req
  done : p.done = false
  toobig : p.scratch.toobig = p.maxLineLen
  pending : (if p.line.isSome then [] else p.scratch.content) = s.pending
  lf : 10 ∉ s.pending

variable {h : Head}

/-- What `next_line` starts with. -/
theorem dropLine_rep (hp : Rep p h) :
    (dropLine p).line = none ∧ (dropLine p).scratch.content = h.pending ∧
      (dropLine p).scratch.toobig = p.maxLineLen ∧ (dropLine p).req = p.req ∧
      (dropLine p).done = p.done ∧ (dropLine p).maxLineLen = p.maxLineLen := by
  have hpending := hp.pending
  rw [dropLine]
  cases hline : p.line with
  | none =>
    rw [hline] at hpending
    exact ⟨hline, hpending, hp.toobig, rfl, rfl, rfl⟩
  | some line =>
    rw [hline] at hpending
    refine ⟨rfl, ?_, hp.toobig, rfl, rfl, rfl⟩
    change p.scratch.reset.content = h.pending
    rw [Dynbuf.content_reset]
    exact hpending

/-- Without LF, the bytes are kept. -/
theorem nextLine_part (hp : Rep p h) (hbuf : 10 ∉ buf)
    (hfits : (h.pending ++ buf).length < p.maxLineLen) (strict : Bool) :
    ∃ q, nextLine p buf strict = (q, buf.length, .ok) ∧ q.line = none ∧
      Rep q { h with pending := h.pending ++ buf } ∧ q.maxLineLen = p.maxLineLen := by
  obtain ⟨hline, hcontent, htoobig, hreq, hdone, hmax⟩ := dropLine_rep hp
  rw [nextLine, detectLine, if_neg hbuf]
  dsimp only
  rw [List.length_append] at hfits
  obtain ⟨hok, hadded, hbig⟩ := Dynbuf.nappend_ok
    (show buf.length + (dropLine p).scratch.content.length + 1 ≤ (dropLine p).scratch.toobig by
      rw [hcontent, htoobig]
      omega)
  rcases hadd : (dropLine p).scratch.nappend buf true with ⟨grown, result⟩
  rw [hadd] at hok hadded hbig
  dsimp only at hok hadded hbig
  subst hok
  refine ⟨{ dropLine p with scratch := grown }, rfl, hline,
    ⟨hreq.trans hp.req, hdone.trans hp.done, ?_, ?_, ?_⟩, hmax⟩
  · dsimp only
    rw [hbig, htoobig, hmax]
  · dsimp only
    rw [hline, hadded, hcontent]
    rfl
  · rw [List.mem_append, not_or]
    exact ⟨hp.lf, hbuf⟩

/-- With LF, there is a line. -/
theorem nextLine_line (hp : Rep p h) (hbody : 10 ∉ body)
    (hfits : (h.pending ++ body).length + 1 < p.maxLineLen) (more : Bytes) (strict : Bool) :
    ∃ scratch rest, scratch.toobig = p.maxLineLen ∧
      nextLine p (body ++ 10 :: more) strict =
        ({ p with
          line := some (h.pending ++ body ++ 10 :: rest)
          lineLen := bareLen (h.pending ++ body)
          scratch }, body.length + 1,
          if (h.pending ++ body).getLast? ≠ some 13 ∧
            strict = true then .urlMalformat else .ok) := by
  obtain ⟨hline, hcontent, htoobig, hreq, hdone, hmax⟩ := dropLine_rep hp
  have hplain : ∀ c ∈ body, decide (c ≠ 10) = true := by
    intro c hc
    rw [decide_eq_true_eq]
    rintro rfl
    exact hbody hc
  have hdetect : detectLine (body ++ 10 :: more) = some (body.length + 1) := by
    rw [detectLine, if_pos (by simp), List.takeWhile_append_of_pos hplain]
    simp
  have hbare : ¬bareLen (h.pending ++ body) > p.maxLineLen := by
    have := bareLen_le (h.pending ++ body)
    omega
  rw [nextLine, hdetect]
  dsimp only
  generalize dropLine p = q at hline hcontent htoobig hreq hdone hmax ⊢
  by_cases hempty : h.pending = []
  · rw [if_neg (by rw [hcontent]; exact not_not_intro hempty)]
    rw [hempty, List.nil_append] at hbare ⊢
    refine ⟨q.scratch, more, htoobig, ?_⟩
    rw [trimLine_eq rfl rfl, ← hreq, ← hdone, ← hmax]
    simp only [hmax, hbare, or_false]
  · have htake : (body ++ 10 :: more).take (body.length + 1) = body ++ [10] := by
      rw [List.take_append]
      simp
    have hroom : (body ++ [10]).length + q.scratch.content.length + 1 ≤ q.scratch.toobig := by
      rw [List.length_append] at hfits
      rw [hcontent, htoobig, List.length_append, List.length_singleton]
      omega
    obtain ⟨hok, hadded, hbig⟩ := Dynbuf.nappend_ok hroom
    rw [if_pos (by rw [hcontent]; exact hempty), htake]
    rcases hadd : q.scratch.nappend (body ++ [10]) true with ⟨grown, result⟩
    rw [hadd] at hok hadded hbig
    dsimp only at hok hadded hbig
    subst hok
    refine ⟨grown, [], by rw [hbig, htoobig], ?_⟩
    have hcontent' : grown.content = h.pending ++ body ++ [10] := by
      rw [hadded, hcontent, List.append_assoc]
    dsimp only
    rw [@trimLine_eq { q with
        scratch := grown, line := some grown.content, lineLen := grown.content.length }
      [] (h.pending ++ body) (by rw [hcontent'])
      (by dsimp only; rw [hcontent', List.length_append]; rfl), ← hreq, ← hdone, ← hmax]
    simp only [hmax, hbare, or_false, hcontent']

def Stop.result : Stop → Curlcode
  | .done => .ok
  | .refused => .urlMalformat
  | .failed result => result

theorem takeLine_alone (hcustom : 10 ∉ call.customMethod.getD []) (hp : Rep p h)
    (scratch : Dynbuf) (rest : Bytes) :
    ∃ req result done, takeLine call { p with
          line := some (body ++ 10 :: rest), lineLen := bareLen body, scratch } =
        ({ p with
          line := some (body ++ 10 :: rest)
          lineLen := bareLen body
          scratch := if done then scratch.reset else scratch
          req
          done }, result) ∧ (done = true → result = .ok) ∧
      (bareLen body ≤ p.maxLineLen → onLine call p.maxLineLen h.req (body ++ [10]) =
        if body.getLast? ≠ some 13 ∧ call.strict = true then (h.req, some .refused)
        else (req, if result = .ok then if done then some .done else none
          else some (.failed result))) := by
  obtain ⟨req, result, done, h1, h2, hok⟩ := @takeLine_line call
    { p with lineLen := bareLen body, scratch } body hcustom (bareLen_le body) hp.done rest
    (.init p.maxLineLen)
  refine ⟨req, result, done, h1, hok, fun hfits => ?_⟩
  rw [onLine, @trimLine_eq (alone p.maxLineLen h.req (body ++ [10])) [] body rfl (by simp [alone])]
  have hbare : ¬bareLen body > (alone p.maxLineLen h.req (body ++ [10])).maxLineLen :=
    Nat.not_lt.mpr hfits
  simp only [hbare, or_false]
  by_cases hrefused : body.getLast? ≠ some 13 ∧ call.strict = true
  · rw [if_pos hrefused, if_pos hrefused]
    rfl
  · rw [if_neg hrefused, if_neg hrefused]
    dsimp only [alone]
    have hsame : ({ p with
          line := some (body ++ [10])
          lineLen := bareLen body
          scratch := .init p.maxLineLen } : H1ReqParser) =
        { req := h.req, scratch := .init p.maxLineLen, line := some (body ++ [10]),
          maxLineLen := p.maxLineLen, lineLen := bareLen body, done := false } := by
      rw [hp.req, hp.done]
    dsimp only at h2
    rw [hsame] at h2
    rw [h2]
    by_cases hok : result = .ok
    · subst hok
      rfl
    · rw [if_neg hok]
      split
      · rename_i heq
        exact absurd (Prod.mk.inj heq).2 hok
      · rename_i heq
        obtain ⟨rfl, rfl⟩ := Prod.mk.inj heq
        rfl

/-! The turns of the loop. -/

theorem parseRead_unread {result : Curlcode} (hdone : p.done = false)
    (hnext : nextLine p buf call.strict = (q, n, result)) (hresult : result ≠ .ok) :
    parseRead call p buf = (q, 0, if result = .again then .ok else result) := by
  rw [parseRead, if_neg (by rw [hdone]; decide), hnext]
  split
  · rename_i heq
    exact absurd (Prod.mk.inj (Prod.mk.inj heq).2).2 hresult
  · rename_i heq
    obtain ⟨rfl, htail⟩ := Prod.mk.inj heq
    obtain ⟨-, rfl⟩ := Prod.mk.inj htail
    rfl

theorem parseRead_turn {q' : H1ReqParser} {result : Curlcode} (hdone : p.done = false)
    (hnext : nextLine p buf call.strict = (q, n, .ok)) (hline : q.line.isSome = true)
    (htake : takeLine call q = (q', result)) :
    parseRead call p buf =
      if result = .ok then
        ((parseRead call q' (buf.drop n)).1, n + (parseRead call q' (buf.drop n)).2.1,
          (parseRead call q' (buf.drop n)).2.2)
      else (q', n, result) := by
  rw [parseRead, if_neg (by rw [hdone]; decide), hnext]
  dsimp only
  rw [if_neg (by simpa using Option.isSome_iff_ne_none.mp hline), htake]
  by_cases hok : result = .ok
  · subst hok
    rfl
  · rw [if_neg hok]
    split
    · rename_i heq
      exact absurd (Prod.mk.inj heq).2 hok
    · rename_i heq
      obtain ⟨rfl, rfl⟩ := Prod.mk.inj heq
      rfl

theorem parseRead_done (hdone : p.done = true) (buf : Bytes) :
    parseRead call p buf = (p, 0, .ok) := by
  rw [parseRead, if_pos hdone]

/-- A call with a part of a line. -/
theorem parseRead_part (hp : Rep p h) (hbuf : 10 ∉ buf)
    (hfits : (h.pending ++ buf).length < p.maxLineLen) :
    ∃ q, parseRead call p buf = (q, buf.length, .ok) ∧
      Rep q { h with pending := h.pending ++ buf } ∧ q.maxLineLen = p.maxLineLen := by
  obtain ⟨q, hnext, hline, hq, hmax⟩ := nextLine_part hp hbuf hfits call.strict
  refine ⟨q, ?_, hq, hmax⟩
  rw [parseRead, if_neg (by rw [hp.done]; decide), hnext]
  dsimp only
  rw [if_pos (by rw [hline]; rfl), if_pos List.drop_length]

/-- A call with a line: it stops there, or goes on with what is behind it. -/
theorem parseRead_line (hcustom : 10 ∉ call.customMethod.getD []) (hp : Rep p h)
    (hbody : 10 ∉ body) (hfits : (h.pending ++ body).length + 1 < p.maxLineLen)
    (more : Bytes) :
    match onLine call p.maxLineLen h.req (h.pending ++ body ++ [10]) with
    | (req, some .refused) =>
      (∃ q, parseRead call p (body ++ 10 :: more) = (q, 0, .urlMalformat) ∧ q.req = req ∧
        q.done = false) ∧ call.strict = true ∧ (h.pending ++ body).getLast? ≠ some 13
    | (req, some stop) =>
      ∃ q, parseRead call p (body ++ 10 :: more) = (q, body.length + 1, stop.result) ∧ q.req = req ∧
        (q.done = true ↔ stop = .done)
    | (req, none) =>
      ∃ q, Rep q { req, pending := [] } ∧ q.maxLineLen = p.maxLineLen ∧
        parseRead call p (body ++ 10 :: more) = ((parseRead call q more).1,
          body.length + 1 + (parseRead call q more).2.1, (parseRead call q more).2.2) := by
  obtain ⟨scratch, rest, htoobig, hnext⟩ := nextLine_line hp hbody hfits more call.strict
  obtain ⟨req, result, done, htake, hdone, honLine⟩ :=
    @takeLine_alone call p (h.pending ++ body) h hcustom hp scratch rest
  have hdrop : (body ++ 10 :: more).drop (body.length + 1) = more := by
    rw [← List.drop_drop, List.drop_left]
    rfl
  have hbare := bareLen_le (h.pending ++ body)
  rw [honLine (by omega)]
  by_cases hrefused : (h.pending ++ body).getLast? ≠ some 13 ∧ call.strict = true
  · rw [if_pos hrefused] at hnext ⊢
    refine ⟨⟨_, parseRead_unread hp.done hnext (by decide), hp.req, hp.done⟩,
      hrefused.2, hrefused.1⟩
  · rw [if_neg hrefused] at hnext ⊢
    have hturn := parseRead_turn hp.done hnext rfl htake
    rw [hdrop] at hturn
    by_cases hok : result = .ok
    · rw [if_pos hok] at hturn ⊢
      cases done with
      | true =>
        simp only [parseRead_done, Nat.add_zero] at hturn
        exact ⟨_, hturn, rfl, iff_of_true rfl rfl⟩
      | false =>
        refine ⟨_, ?_, ?_, hturn⟩
        · exact ⟨rfl, rfl, htoobig, rfl, List.not_mem_nil⟩
        · rfl
    · rw [if_neg hok] at hturn ⊢
      exact ⟨_, hturn, rfl, iff_of_false (fun h => hok (hdone h)) nofun⟩

/-! ### All calls -/

/-- The lines of a text, with their ends, are shorter than `maxLineLen`. -/
def Short (maxLineLen : Nat) (text : Bytes) : Prop :=
  (∀ line ∈ (Lines.cut 10 text).1, line.length < maxLineLen) ∧
    (Lines.cut 10 text).2.length < maxLineLen

variable {maxLineLen : Nat} {a b : Bytes}

theorem short_part (h : 10 ∉ buf) : Short maxLineLen buf ↔ buf.length < maxLineLen := by
  rw [Short, Lines.cut_rest h]
  exact and_iff_right nofun

theorem short_line (h : 10 ∉ body) (more : Bytes) :
    Short maxLineLen (body ++ 10 :: more) ↔
      body.length + 1 < maxLineLen ∧ Short maxLineLen more := by
  have hcut := Lines.cut_line (show Lines.IsLine 10 (body ++ [10]) from ⟨body, h, rfl⟩) more
  rw [List.append_assoc, List.singleton_append] at hcut
  rw [Short, hcut]
  simp [Short, and_assoc]

/-- A text is a part of a line, or a line with more behind it. -/
theorem line_cases (text : Bytes) :
    10 ∉ text ∨ ∃ body more, text = body ++ 10 :: more ∧ 10 ∉ body := by
  by_cases h : 10 ∈ text
  · obtain ⟨body, more, htext, hbody⟩ := List.eq_append_cons_of_mem h
    exact .inr ⟨body, more, htext, hbody⟩
  · exact .inl h

theorem short_left (h : Short maxLineLen (a ++ b)) : Short maxLineLen a := by
  induction hlen : a.length using Nat.strongRecOn generalizing a with
  | ind n ih =>
    obtain hpart | ⟨body, more, rfl, hbody⟩ := line_cases a
    · rw [short_part hpart]
      by_cases hb : b = []
      · rwa [hb, List.append_nil, short_part hpart] at h
      · obtain ⟨line, hline, hlt⟩ := Lines.exists_longer hpart hb
        have hshort : line.length < maxLineLen := by
          obtain hline | rfl := hline
          · exact h.1 line hline
          · exact h.2
        omega
    · rw [List.append_assoc, List.cons_append, short_line hbody] at h
      rw [short_line hbody]
      refine ⟨h.1, ih more.length ?_ h.2 rfl⟩
      rw [List.length_append, List.length_cons] at hlen
      omega

/-- What calls have made of their bytes, as the machine that reads them one by one says it. -/
structure Made (maxLineLen : Nat) (buf : Bytes) (f : Fed Head UInt8 Unit Stop)
    (r : H1ReqParser × Nat × Curlcode) : Prop where
  going : f.error = none → r.2.1 = buf.length ∧ r.2.2 = .ok ∧ Rep r.1 f.state ∧
    r.1.maxLineLen = maxLineLen
  stopped : ∀ stop, f.error = some stop → r.1.req = f.state.req ∧
    (r.1.done = true ↔ stop = .done) ∧ r.2.2 = stop.result ∧ (stop.result = .ok ↔ stop = .done)
  read : ∀ stop, f.error = some stop → stop ≠ .refused → r.2.1 + f.rest.length = buf.length

/-- The line that was refused has no CR, and was not read; all before it is accepted. -/
def Refused (call : Call) (maxLineLen : Nat) (h : Head) (buf : Bytes)
    (r : H1ReqParser × Nat × Curlcode) : Prop :=
  (feed (step call maxLineLen) h buf).error = some .refused → call.strict = true ∧
    (feed (step call maxLineLen) h (buf.take r.2.1)).error = none ∧ ∃ tail rest,
      buf.drop r.2.1 = tail ++ 10 :: rest ∧ 10 ∉ tail ∧ tail.getLast? ≠ some 13

theorem onLine_failed {req req' : Option Httpreq} {result : Curlcode}
    (h : onLine call maxLineLen req raw = (req', some (.failed result))) : result ≠ .ok := by
  rw [onLine] at h
  split at h
  · split at h
    · split at h <;> cases h
    · rename_i hne _
      obtain ⟨-, hstop⟩ := Prod.mk.inj h
      obtain ⟨⟩ := hstop
      exact hne
  · cases h

/-- One call. -/
theorem parseRead_made (hcustom : 10 ∉ call.customMethod.getD []) (hp : Rep p h)
    (hshort : Short p.maxLineLen (h.pending ++ buf)) :
    Made p.maxLineLen buf (feed (step call p.maxLineLen) h buf) (parseRead call p buf) ∧
      Refused call p.maxLineLen h buf (parseRead call p buf) := by
  induction hlen : buf.length using Nat.strongRecOn generalizing p h buf with
  | ind n ih =>
    obtain hpart | ⟨body, more, rfl, hbody⟩ := line_cases buf
    · have hall : 10 ∉ h.pending ++ buf := by
        rw [List.mem_append, not_or]
        exact ⟨hp.lf, hpart⟩
      rw [short_part hall] at hshort
      obtain ⟨q, hread, hq, hmax⟩ := @parseRead_part call p buf h hp hpart hshort
      rw [Refused, feed_body hpart, hread]
      exact ⟨⟨fun _ => ⟨rfl, rfl, hq, hmax⟩, nofun, nofun⟩, nofun⟩
    · have hall : 10 ∉ h.pending ++ body := by
        rw [List.mem_append, not_or]
        exact ⟨hp.lf, hbody⟩
      rw [← List.append_assoc, short_line hall] at hshort
      have hline := parseRead_line hcustom hp hbody hshort.1 more
      have hcount : (body ++ 10 :: more).length = body.length + 1 + more.length := by
        rw [List.length_append, List.length_cons]
        omega
      rw [Refused, feed_line hbody]
      have hfailed : ∀ req result, onLine call p.maxLineLen h.req (h.pending ++ body ++ [10]) =
          (req, some (.failed result)) → result ≠ .ok := fun _ _ => onLine_failed
      generalize honLine : onLine call p.maxLineLen h.req (h.pending ++ body ++ [10]) = o
        at hline hfailed ⊢
      match o, honLine, hline, hfailed with
      | (req, none), honLine, hline, _ =>
        obtain ⟨q, hq, hmax, hread⟩ := hline
        obtain ⟨hmore, hrefused⟩ := ih more.length (by omega) hq (by rw [hmax]; exact hshort.2) rfl
        rw [hmax] at hmore hrefused
        rw [Refused] at hrefused
        rw [hread]
        dsimp only
        refine ⟨⟨fun hnone => ?_, hmore.stopped, fun stop hstop hne => ?_⟩, fun hstop => ?_⟩
        · obtain ⟨h1, h2, h3, h4⟩ := hmore.going hnone
          exact ⟨by rw [h1, hcount], h2, h3, h4⟩
        · have := hmore.read stop hstop hne
          dsimp only
          omega
        · obtain ⟨hstrict, haccepted, tail, rest, hdrop, htail⟩ := hrefused hstop
          refine ⟨hstrict, ?_, tail, rest, ?_, htail⟩
          · rw [Nat.add_assoc, List.take_length_add_append, Nat.add_comm 1, List.take_succ_cons,
              feed_line hbody, honLine]
            exact haccepted
          · rw [← List.drop_drop, ← List.drop_drop, List.drop_left]
            exact hdrop
      | (req, some .refused), _, hline, _ =>
        obtain ⟨⟨q, hread, hreq, hdone⟩, hstrict, hlast⟩ := hline
        rw [hread]
        refine ⟨⟨nofun, ?_, ?_⟩, fun _ => ⟨hstrict, rfl, body, more, rfl, hbody, ?_⟩⟩
        · rintro stop ⟨⟩
          exact ⟨hreq, iff_of_false (by rw [hdone]; decide) nofun, rfl, iff_of_false nofun nofun⟩
        · rintro stop ⟨⟩ hne
          exact absurd rfl hne
        · intro hcr
          apply hlast
          rw [List.getLast?_append, hcr]
          rfl
      | (req, some .done), _, hline, _ =>
        obtain ⟨q, hread, hreq, hdone⟩ := hline
        rw [hread]
        refine ⟨⟨nofun, ?_, ?_⟩, nofun⟩
        · rintro stop ⟨⟩
          exact ⟨hreq, hdone, rfl, iff_of_true rfl rfl⟩
        · rintro stop ⟨⟩ -
          exact hcount.symm
      | (req, some (.failed result)), _, hline, hfailed =>
        obtain ⟨q, hread, hreq, hdone⟩ := hline
        rw [hread]
        refine ⟨⟨nofun, ?_, ?_⟩, nofun⟩
        · rintro stop ⟨⟩
          exact ⟨hreq, hdone, rfl, iff_of_false (hfailed req result rfl) nofun⟩
        · rintro stop ⟨⟩ -
          exact hcount.symm

/-- Calls with so many bytes each, behind those that were consumed, up to an error: the parser, the
bytes that were consumed, and the result. -/
def run (call : Call) : H1ReqParser → Bytes → List Nat → H1ReqParser × Nat × Curlcode
  | parser, _, [] => (parser, 0, .ok)
  | parser, data, size :: sizes =>
    match parseRead call parser (data.take size) with
    | (parser, nread, .ok) =>
      let (parser, n, result) := run call parser (data.drop nread) sizes
      (parser, nread + n, result)
    | failed => failed

theorem run_cons {nread size : Nat} {sizes : List Nat} {result : Curlcode}
    (hread : parseRead call p (data.take size) = (q, nread, result)) :
    run call p data (size :: sizes) =
      if result = .ok then
        ((run call q (data.drop nread) sizes).1, nread + (run call q (data.drop nread) sizes).2.1,
          (run call q (data.drop nread) sizes).2.2)
      else (q, nread, result) := by
  rw [run, hread]
  by_cases hok : result = .ok
  · subst hok
    rfl
  · rw [if_neg hok]
    split
    · rename_i heq
      exact absurd (Prod.mk.inj (Prod.mk.inj heq).2).2 hok
    · rfl

theorem run_done (hdone : p.done = true) (data : Bytes) (sizes : List Nat) :
    run call p data sizes = (p, 0, .ok) := by
  induction sizes with
  | nil => rfl
  | cons size sizes ih =>
    rw [run_cons (parseRead_done hdone _), List.drop_zero, ih]
    rfl

/-- What is left of a line is a part of a line. -/
theorem feed_short (hgoing : (feed (step call maxLineLen) h a).error = none)
    (hlf : 10 ∉ h.pending) (hshort : Short n (h.pending ++ a ++ b)) :
    Short n ((feed (step call maxLineLen) h a).state.pending ++ b) := by
  induction hlen : a.length using Nat.strongRecOn generalizing h a with
  | ind k ih =>
    obtain hpart | ⟨body, more, rfl, hbody⟩ := line_cases a
    · rw [feed_body hpart]
      exact hshort
    · have hall : 10 ∉ h.pending ++ body := by
        rw [List.mem_append, not_or]
        exact ⟨hlf, hbody⟩
      rw [feed_line hbody] at hgoing ⊢
      rw [← List.append_assoc, List.append_assoc, List.cons_append, short_line hall] at hshort
      rcases honLine : onLine call maxLineLen h.req (h.pending ++ body ++ [10]) with ⟨req, _ | stop⟩
      · rw [honLine] at hgoing
        refine ih more.length ?_ hgoing List.not_mem_nil hshort.2 rfl
        rw [List.length_append, List.length_cons] at hlen
        omega
      · rw [honLine] at hgoing
        cases hgoing

theorem drop_length_take (data : Bytes) (n : Nat) :
    data.drop (data.take n).length = data.drop n := by
  rw [List.length_take]
  by_cases hn : n ≤ data.length
  · rw [Nat.min_eq_left hn]
  · rw [Nat.min_eq_right (by omega), List.drop_length, List.drop_eq_nil_of_le (by omega)]

/-- All calls. -/
theorem run_made (hcustom : 10 ∉ call.customMethod.getD []) (hp : Rep p h) (sizes : List Nat)
    (hshort : Short p.maxLineLen (h.pending ++ data.take sizes.sum)) :
    Made p.maxLineLen (data.take sizes.sum)
      (feed (step call p.maxLineLen) h (data.take sizes.sum)) (run call p data sizes) := by
  induction sizes generalizing p h data with
  | nil => exact ⟨fun _ => ⟨rfl, rfl, hp, rfl⟩, nofun, nofun⟩
  | cons size sizes ih =>
    have hsplit : data.take (size :: sizes).sum =
        data.take size ++ (data.drop size).take sizes.sum := by
      rw [List.sum_cons, List.take_add]
    rw [hsplit] at hshort ⊢
    rw [← List.append_assoc] at hshort
    obtain ⟨hmade, -⟩ := parseRead_made hcustom hp (short_left hshort)
    rcases hread : parseRead call p (data.take size) with ⟨q, nread, result⟩
    rw [hread] at hmade
    rw [run_cons hread]
    cases herror : (feed (step call p.maxLineLen) h (data.take size)).error with
    | none =>
      obtain ⟨hn, hresult, hq, hmax⟩ := hmade.going herror
      dsimp only at hn hresult hq hmax
      subst hresult hn
      have hrest : Short q.maxLineLen
        ((feed (step call p.maxLineLen) h (data.take size)).state.pending ++
          (data.drop size).take sizes.sum) := by
        rw [hmax]
        exact feed_short herror hp.lf hshort
      have hmore := ih hq hrest
      rw [hmax] at hmore
      rw [feed_append herror, if_pos rfl, drop_length_take]
      refine ⟨fun hnone => ?_, hmore.stopped, fun stop hstop hne => ?_⟩
      · obtain ⟨h1, h2, h3, h4⟩ := hmore.going hnone
        exact ⟨by rw [h1, List.length_append], h2, h3, h4⟩
      · have := hmore.read stop hstop hne
        rw [List.length_append]
        dsimp only
        omega
    | some stop =>
      obtain ⟨hreq, hdone, hresult, hok⟩ := hmade.stopped stop herror
      have hread := hmade.read stop herror
      dsimp only at hreq hdone hresult hread
      rw [feed_append_error herror]
      by_cases hgood : result = .ok
      · have hend := @run_done call q (hdone.mpr (hok.mp (hresult ▸ hgood))) (data.drop nread) sizes
        rw [if_pos hgood, hend]
        refine ⟨fun hnone => ?_, ?_, ?_⟩
        · cases herror.symm.trans hnone
        · intro other hother
          obtain rfl := Option.some.inj (herror.symm.trans hother)
          exact ⟨hreq, hdone, by rw [← hresult, hgood], hok⟩
        · intro other hother hne
          obtain rfl := Option.some.inj (herror.symm.trans hother)
          have := hread hne
          rw [List.length_append]
          simp only [List.length_append, Nat.add_zero]
          omega
      · rw [if_neg hgood]
        refine ⟨fun hnone => ?_, ?_, ?_⟩
        · cases herror.symm.trans hnone
        · intro other hother
          obtain rfl := Option.some.inj (herror.symm.trans hother)
          exact ⟨hreq, hdone, hresult, hok⟩
        · intro other hother hne
          obtain rfl := Option.some.inj (herror.symm.trans hother)
          have := hread hne
          rw [List.length_append]
          simp only [List.length_append]
          omega

theorem rep_init (maxLineLen : Nat) : Rep (parseInit maxLineLen) { req := none, pending := [] } :=
  ⟨rfl, rfl, rfl, rfl, List.not_mem_nil⟩

/-- The calls end like one call with all of the bytes. -/
def LikeOnce (call : Call) (maxLineLen : Nat) (data : Bytes) (sizes : List Nat) : Prop :=
  let once := parseRead call (parseInit maxLineLen) data
  let calls := run call (parseInit maxLineLen) data sizes
  calls.1.req = once.1.req ∧ calls.1.done = once.1.done ∧ calls.2.1 = once.2.1 ∧
    calls.2.2 = once.2.2

/-- One call has stopped in front of a line that has to end in CRLF and does not: it takes the bytes
before the line without error. -/
def StrictStop (call : Call) (maxLineLen : Nat) (data : Bytes) : Prop :=
  let once := parseRead call (parseInit maxLineLen) data
  call.strict = true ∧ once.2.2 = .urlMalformat ∧
    (parseRead call (parseInit maxLineLen) (data.take once.2.1)).2.2 = .ok ∧ ∃ line rest,
      data.drop once.2.1 = line ++ 10 :: rest ∧ 10 ∉ line ∧ line.getLast? ≠ some 13

/-- However the bytes are split over the calls, the request and the result are the same; so is what
was consumed, but where a line is not strict enough. -/
theorem run_like_once (hcustom : 10 ∉ call.customMethod.getD []) (hshort : Short maxLineLen data)
    {sizes : List Nat} (hsizes : sizes.sum = data.length) :
    (run call (parseInit maxLineLen) data sizes).1.req =
        (parseRead call (parseInit maxLineLen) data).1.req ∧
      (run call (parseInit maxLineLen) data sizes).1.done =
        (parseRead call (parseInit maxLineLen) data).1.done ∧
      (run call (parseInit maxLineLen) data sizes).2.2 =
        (parseRead call (parseInit maxLineLen) data).2.2 ∧
      ((run call (parseInit maxLineLen) data sizes).2.1 =
          (parseRead call (parseInit maxLineLen) data).2.1 ∨
        StrictStop call maxLineLen data) := by
  have hrun := @run_made call _ data _ hcustom (rep_init maxLineLen) sizes
    (by rw [hsizes, List.take_length]; exact hshort)
  obtain ⟨honce, hrefused⟩ := @parseRead_made call _ data _ hcustom (rep_init maxLineLen) hshort
  rw [hsizes, List.take_length] at hrun
  have haccepted (n : Nat)
      (h : (feed (step call maxLineLen) { req := none, pending := [] } (data.take n)).error =
        none) :
      (parseRead call (parseInit maxLineLen) (data.take n)).2.2 = .ok :=
    ((@parseRead_made call _ _ _ hcustom (rep_init maxLineLen)
      (short_left (by rw [List.nil_append, List.take_append_drop]; exact hshort))).1.going h).2.1
  unfold StrictStop
  dsimp only
  change Made maxLineLen _ _ _ at hrun honce
  rw [Refused] at hrefused
  generalize run call (parseInit maxLineLen) data sizes = calls at hrun ⊢
  generalize parseRead call (parseInit maxLineLen) data = once at honce hrefused ⊢
  generalize feed (step call (parseInit maxLineLen).maxLineLen) _ data = f at hrun honce hrefused
  cases herror : f.error with
  | none =>
    obtain ⟨h1, h2, h3, -⟩ := hrun.going herror
    obtain ⟨h1', h2', h3', -⟩ := honce.going herror
    exact ⟨h3.req.trans h3'.req.symm, h3.done.trans h3'.done.symm, h2.trans h2'.symm,
      .inl (h1.trans h1'.symm)⟩
  | some stop =>
    obtain ⟨h1, h2, h3, -⟩ := hrun.stopped stop herror
    obtain ⟨h1', h2', h3', -⟩ := honce.stopped stop herror
    have hdone := Bool.eq_iff_iff.mpr (h2.trans h2'.symm)
    refine ⟨h1.trans h1'.symm, hdone, h3.trans h3'.symm, ?_⟩
    by_cases hstop : stop = .refused
    · rw [hstop] at herror h3'
      obtain ⟨hstrict, hbefore, line, rest, hdrop, hlf, hcr⟩ := hrefused herror
      exact .inr ⟨hstrict, h3', haccepted _ hbefore, line, rest, hdrop, hlf, hcr⟩
    · have hread := hrun.read stop herror hstop
      have hread' := honce.read stop herror hstop
      exact .inl (by omega)

/-- A call with nothing special. -/
def plainCall (customMethod : Option Bytes) (strict : Bool) : Call :=
  { schemeDefault := none, customMethod, strict, urlReq := fun _ _ _ _ => .error .urlMalformat,
    urlReq_error := nofun }

/-- A head in three pieces, with a byte behind it. -/
theorem run_like_once_pieces :
    10 ∉ (plainCall none false).customMethod.getD [] ∧ Short 32 (ascii "GET / H\r\nA: b\r\n\r\nx") ∧
      (run (plainCall none false) (parseInit 32) (ascii "GET / H\r\nA: b\r\n\r\nx") [1, 9, 8]).2.2 =
        (parseRead (plainCall none false) (parseInit 32)
          (ascii "GET / H\r\nA: b\r\n\r\nx")).2.2 := by
  have hshort : Short 32 (ascii "GET / H\r\nA: b\r\n\r\nx") :=
    ⟨by decide +kernel, by decide +kernel⟩
  exact ⟨by decide, hshort, (@run_like_once (plainCall none false) _ 32 (by decide) hshort [1, 9, 8]
    (by decide +kernel)).2.2.1⟩

/-- A part of a line that is refused counts when it came in an earlier call; and a custom method
with LF is compared with what is behind the line. -/
theorem run_not_like_once :
    (Short 32 (ascii "GET / H\n") ∧ [3, 5].sum = (ascii "GET / H\n").length ∧
      ¬LikeOnce (plainCall none true) 32 (ascii "GET / H\n") [3, 5]) ∧
    Short 32 (ascii "G / H\nX: y\n\n") ∧ [1, 11].sum = (ascii "G / H\nX: y\n\n").length ∧
      ¬LikeOnce (plainCall (some (ascii "G / H\nX")) false) 32
        (ascii "G / H\nX: y\n\n") [1, 11] := by
  refine ⟨⟨⟨by decide +kernel, by decide +kernel⟩, by decide +kernel, ?_⟩,
    ⟨by decide +kernel, by decide +kernel⟩, by decide +kernel, ?_⟩
  · intro h
    have hread : (run (plainCall none true) (parseInit 32) (ascii "GET / H\n") [3, 5]).2.1 = 3 := by
      decide +kernel
    have honce : (parseRead (plainCall none true) (parseInit 32) (ascii "GET / H\n")).2.1 = 0 := by
      decide +kernel
    exact absurd (hread.symm.trans (h.2.2.1.trans honce)) (by decide)
  · intro h
    have hresult : (run (plainCall (some (ascii "G / H\nX")) false) (parseInit 32)
        (ascii "G / H\nX: y\n\n") [1, 11]).2.2 = .ok := by
      decide +kernel
    have honce : (parseRead (plainCall (some (ascii "G / H\nX")) false) (parseInit 32)
        (ascii "G / H\nX: y\n\n")).2.2 = .urlMalformat := by
      decide +kernel
    exact absurd (hresult.symm.trans (h.2.2.2.trans honce)) (by decide)

end Gurl.Http1
