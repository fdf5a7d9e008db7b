import Gurl.Smtp.Stuffing

/-! The reader hands out the text of a mail: for every size of its reads, and however the next
reader delivers the body. -/

namespace Gurl.Smtp

open Buffer
open Http (NextRead)

variable {content rest : Bytes}

theorem cwrite_queue (ctx : CrEob) (h : Queue ctx.buf content) (bytes : Bytes) :
    ∃ buf, ctx.cwrite bytes = some ({ ctx with buf }, .ok) ∧ Queue buf (content ++ bytes) := by
  obtain ⟨buf, hwrite, hq⟩ := bufqWrite_queue h bytes
  refine ⟨buf, ?_, hq⟩
  unfold CrEob.cwrite
  rw [hwrite]
  rfl

theorem addDot_queue (ctx : CrEob) (h : Queue ctx.buf content) (pending : Bytes) :
    ∃ buf infilesize, ctx.addDot pending = some ({ ctx with buf, nEob := 0, infilesize }, .ok) ∧
      Queue buf (content ++ pending ++ [46]) := by
  obtain ⟨buf, hwrite, hq⟩ := cwrite_queue ctx h pending
  obtain ⟨buf', hwrite', hq'⟩ := cwrite_queue { ctx with buf } hq [46]
  refine ⟨buf', if ctx.infilesize > 0 then ctx.infilesize + 1 else ctx.infilesize, ?_, hq'⟩
  unfold CrEob.addDot
  simp only [hwrite, hwrite', Option.bind_eq_bind, Option.bind_some]

/-- What a scan leaves: the text so far is in the buffer, but for the pending bytes. -/
theorem scanLoop_queue (ctx : CrEob) (h : Queue ctx.buf content) (pending bytes : Bytes) :
    ∃ buf infilesize pending' content',
      scanLoop ctx pending bytes =
        some ({ ctx with buf, nEob := scan ctx.nEob bytes, infilesize }, .ok, pending') ∧
      Queue buf content' ∧
      content' ++ pending' = content ++ pending ++ escape ctx.nEob bytes := by
  induction bytes generalizing ctx content pending with
  | nil => exact ⟨ctx.buf, ctx.infilesize, pending, content, rfl, h, by simp [escape]⟩
  | cons c cs ih =>
    unfold scanLoop
    by_cases hfind : ctx.nEob ≥ smtpEobFindLen
    · obtain ⟨buf, size, hdot, hq⟩ := addDot_queue ctx h pending
      obtain ⟨buf', size', pending', content', hloop, hq', heq⟩ :=
        ih { ctx with buf, nEob := matchEob 0 c, infilesize := size } hq [c]
      refine ⟨buf', size', pending', content', ?_, hq', ?_⟩
      · rw [if_pos hfind, hdot]
        simp only [Option.bind_eq_bind, Option.bind_some]
        rw [hloop, scan_cons, advance, if_pos hfind]
      · rw [heq, escape, if_pos hfind, advance, if_pos hfind]
        simp
    · obtain ⟨buf', size', pending', content', hloop, hq', heq⟩ :=
        ih { ctx with nEob := matchEob ctx.nEob c } h (pending ++ [c])
      refine ⟨buf', size', pending', content', ?_, hq', ?_⟩
      · rw [if_neg hfind, hloop, scan_cons, advance, if_neg hfind]
      · rw [heq, escape, if_neg hfind, advance, if_neg hfind]
        simp

theorem convert_queue (ctx : CrEob) (h : Queue ctx.buf content) (bytes : Bytes) :
    ∃ buf infilesize, ctx.convert bytes =
        some ({ ctx with buf, nEob := scan ctx.nEob bytes, infilesize }, .ok) ∧
      Queue buf (content ++ escape ctx.nEob bytes) := by
  obtain ⟨buf, size, pending, content', hloop, hq, heq⟩ := scanLoop_queue ctx h [] bytes
  rw [List.append_nil] at heq
  unfold CrEob.convert
  rw [hloop]
  simp only [Option.bind_eq_bind, Option.bind_some]
  by_cases hpending : pending = []
  · rw [if_neg (by simpa using hpending)]
    rw [hpending, List.append_nil] at heq
    exact ⟨buf, size, rfl, heq ▸ hq⟩
  · rw [if_pos hpending]
    obtain ⟨buf', hwrite, hq'⟩ :=
      cwrite_queue { ctx with buf, nEob := scan ctx.nEob bytes, infilesize := size } hq pending
    exact ⟨buf', size, hwrite, heq ▸ hq'⟩

/-- What is still to be handed out: what is in the buffer, and the text of what the next reader has
not delivered. -/
def CrEob.remaining (ctx : CrEob) (content rest : Bytes) : Bytes :=
  content ++ if ctx.processedEos then [] else escape ctx.nEob rest ++ eobFor (scan ctx.nEob rest)

/-- The reader has `content` in its buffer, and has not ended. -/
structure Reading (ctx : CrEob) (content rest : Bytes) : Prop where
  queue : Queue ctx.buf content
  nEob : ctx.nEob ≤ 3
  done : ctx.readEos = true → rest = []
  processed : ctx.processedEos = true → ctx.readEos = true ∧ content ≠ []
  running : ctx.eos = false

theorem eobFor_ne_nil (n : Nat) : eobFor n ≠ [] := by
  unfold eobFor
  split <;> decide

theorem Reading.remaining_ne_nil {ctx : CrEob} (h : Reading ctx content rest) :
    ctx.remaining content rest ≠ [] := by
  unfold CrEob.remaining
  split
  · rename_i hp
    simpa using (h.processed hp).2
  · simp [eobFor_ne_nil]

/-- A call has handed out the first bytes of what was remaining, and says whether these were all. -/
structure Handed (remaining : Bytes) (ctx : CrEob) (rest : Bytes) (answer : Answer) :
    Prop where
  ok : answer.result = .ok
  next : answer.eos = false → ∃ content, Reading ctx content rest ∧
    remaining = answer.bytes ++ ctx.remaining content rest
  last : answer.eos = true → remaining = answer.bytes

theorem drain_eq {ctx : CrEob} {blen : Nat} (hblen : 0 < blen) (h : Queue ctx.buf content)
    (hrun : ctx.eos = false) :
    ∃ buf, ctx.drain blen =
        some ({ ctx with buf, eos := ctx.readEos && decide (content.drop blen = []) },
          ⟨.ok, content.take blen, ctx.readEos && decide (content.drop blen = [])⟩) ∧
      Queue buf (content.drop blen) := by
  unfold CrEob.drain
  rw [bufqIsEmpty_spec h.rep, hrun]
  simp only [Option.bind_eq_bind, Option.bind_some, Bool.false_or]
  by_cases hcontent : content = []
  · subst hcontent
    refine ⟨ctx.buf, ?_, by simpa using h⟩
    simp [bufqIsEmpty_spec h.rep]
  · obtain ⟨buf, hread, hq⟩ := bufqRead_queue h blen
    have htake : content.take blen ≠ [] := by
      rw [Ne, List.take_eq_nil_iff, not_or]
      exact ⟨Nat.ne_of_gt hblen, hcontent⟩
    rw [if_neg htake] at hread
    refine ⟨buf, ?_, hq⟩
    simp [hcontent, hread, bufqIsEmpty_spec hq.rep]

theorem drain_handed (ctx : CrEob) (rest : Bytes) {blen : Nat} (hblen : 0 < blen)
    (h : Queue ctx.buf content) (hn : ctx.nEob ≤ 3)
    (hdone : ctx.readEos = true → rest = [] ∧ ctx.processedEos = true ∧ content ≠ [])
    (hprocessed : ctx.processedEos = true → ctx.readEos = true) (hrun : ctx.eos = false) :
    ∃ ctx' answer, ctx.drain blen = some (ctx', answer) ∧
      Handed (ctx.remaining content rest) ctx' rest answer ∧
      (content ≠ [] → answer.bytes ≠ []) := by
  obtain ⟨buf, hdrain, hq⟩ := drain_eq hblen h hrun
  refine ⟨_, _, hdrain, ⟨rfl, fun heos => ⟨content.drop blen, ?_, ?_⟩, ?_⟩, ?_⟩
  · refine ⟨hq, hn, fun hread => (hdone hread).1, fun hp => ⟨hprocessed hp, ?_⟩, heos⟩
    simpa [hprocessed hp] using heos
  · simp only [CrEob.remaining]
    rw [← List.append_assoc, List.take_append_drop]
  · intro heos
    simp only [Bool.and_eq_true, decide_eq_true_eq] at heos
    simp only [CrEob.remaining, (hdone heos.1).2.1, if_true, List.append_nil]
    have hsplit := List.take_append_drop blen content
    rw [heos.2, List.append_nil] at hsplit
    exact hsplit.symm
  · intro hcontent hnil
    rcases List.take_eq_nil_iff.mp hnil with h0 | h0
    · omega
    · exact hcontent h0

theorem finish_handed {ctx : CrEob} {blen : Nat} (hblen : 0 < blen) (h : Reading ctx content rest) :
    ∃ ctx' answer, ctx.finish blen = some (ctx', answer) ∧
      Handed (ctx.remaining content rest) ctx' rest answer ∧
      (content ≠ [] ∨ ctx.readEos = true → answer.bytes ≠ []) := by
  unfold CrEob.finish CrEob.endBody
  by_cases hend : ctx.readEos = true ∧ ctx.processedEos = false
  · -- the next reader has ended, and the end of the body goes to the buffer
    obtain rfl := h.done hend.1
    obtain ⟨buf, hwrite, hq⟩ := cwrite_queue ctx h.queue (eobFor ctx.nEob)
    have hne : content ++ eobFor ctx.nEob ≠ [] := by simp [eobFor_ne_nil]
    obtain ⟨ctx', answer, hdrain, hhanded, hsome⟩ :=
      drain_handed { ctx with buf, processedEos := true } [] hblen hq h.nEob
        (fun _ => ⟨rfl, rfl, hne⟩) (fun _ => hend.1) h.running
    refine ⟨ctx', answer, ?_, ?_, fun _ => hsome hne⟩
    · have hcond : (ctx.readEos && !ctx.processedEos) = true := by simp [hend]
      simp only [hcond, if_true, hwrite, Option.bind_eq_bind, Option.bind_some]
      exact hdrain
    · have heq : ctx.remaining content [] = CrEob.remaining { ctx with buf, processedEos := true }
          (content ++ eobFor ctx.nEob) [] := by
        simp [CrEob.remaining, hend.2, escape]
      rw [heq]
      exact hhanded
  · have hprocessed : ctx.readEos = true → ctx.processedEos = true := by
      intro hread
      by_contra hp
      exact hend ⟨hread, by simpa using hp⟩
    obtain ⟨ctx', answer, hdrain, hhanded, hsome⟩ := drain_handed ctx rest hblen h.queue h.nEob
      (fun hread => ⟨h.done hread, hprocessed hread, (h.processed (hprocessed hread)).2⟩)
      (fun hp => (h.processed hp).1) h.running
    refine ⟨ctx', answer, ?_, hhanded, ?_⟩
    · have hcond : (ctx.readEos && !ctx.processedEos) = false := by
        by_contra hcond
        simp only [Bool.not_eq_false, Bool.and_eq_true, Bool.not_eq_true'] at hcond
        exact hend hcond
      simp only [hcond, Bool.false_eq_true, if_false, Option.bind_eq_bind, Option.bind_some]
      exact hdrain
    · rintro (hcontent | hread)
      · exact hsome hcontent
      · exact hsome (h.processed (hprocessed hread)).2

/-! ### Reads from a body -/

/-- A read: its size, how many bytes the next reader wants to deliver when it is asked, and whether
it tells the end of the body together with the last byte or when there are no more. -/
structure Call where
  blen : Nat
  want : Nat
  tells : Bool

/-- What the next reader delivers of the rest of the body. -/
def Call.read (c : Call) (rest : Bytes) : NextRead where
  result := .ok
  bytes := rest.take (min c.want c.blen)
  eos := c.tells && (rest.drop (min c.want c.blen)).isEmpty

/-- Read until the end is reported. -/
def readAll : CrEob → Bytes → List Call → Option (List Answer)
  | _, _, [] => some []
  | ctx, rest, c :: cs => do
    let asked ← ctx.asks
    let (ctx, answer) ← crEobRead ctx c.blen (c.read rest)
    if answer.result ≠ .ok ∨ answer.eos then some [answer]
    else
      let answers ← readAll ctx (if asked then rest.drop (min c.want c.blen) else rest) cs
      some (answer :: answers)

theorem escape_ne_nil (n : Nat) {bytes : Bytes} (h : bytes ≠ []) : escape n bytes ≠ [] := by
  cases bytes with
  | nil => exact absurd rfl h
  | cons c cs => simp [escape]

/-- What is remaining when the next reader has delivered `piece`. -/
theorem remaining_append {ctx : CrEob} (hprocessed : ctx.processedEos = false)
    (piece rest : Bytes) :
    ctx.remaining [] (piece ++ rest) = escape ctx.nEob piece ++
      (escape (scan ctx.nEob piece) rest ++ eobFor (scan (scan ctx.nEob piece) rest)) := by
  simp only [CrEob.remaining, hprocessed, Bool.false_eq_true, if_false, List.nil_append]
  rw [escape_append, scan_append, List.append_assoc]

/-- The reader gets a piece of the body, and perhaps its end. -/
theorem delivered_handed {ctx : CrEob} {blen : Nat} {piece : Bytes} (eos : Bool)
    (hblen : 0 < blen) (h : Reading ctx [] (piece ++ rest)) (hread : ctx.readEos = false)
    (heos : eos = true → rest = []) :
    ∃ ctx' answer, crEobRead ctx blen ⟨.ok, piece, eos⟩ = some (ctx', answer) ∧
      Handed (ctx.remaining [] (piece ++ rest)) ctx' rest answer ∧
      (piece ≠ [] ∨ eos = true → answer.bytes ≠ []) := by
  have hprocessed : ctx.processedEos = false := by
    by_contra hp
    exact (h.processed (by simpa using hp)).2 rfl
  have hasks : ctx.asks = some true := by
    simp [CrEob.asks, bufqIsEmpty_spec h.queue.rep, hread]
  unfold crEobRead
  rw [hasks]
  simp only [Option.bind_eq_bind, Option.bind_some, if_true, ne_eq, not_true, if_false]
  by_cases hnil : piece = []
  · subst hnil
    have h' : Reading { ctx with readEos := eos } [] rest :=
      ⟨h.queue, h.nEob, heos, fun hp => by simp [hprocessed] at hp, h.running⟩
    obtain ⟨ctx', answer, hfinish, hhanded, hsome⟩ := finish_handed hblen h'
    refine ⟨ctx', answer, ?_, hhanded, ?_⟩
    · rw [if_pos rfl]
      exact hfinish
    · rintro (hne | heos)
      · exact absurd rfl hne
      · exact hsome (.inr heos)
  rw [if_neg hnil]
  by_cases hfast : ctx.nEob = 0 ∧ 13 ∉ piece
  · -- no dot can be missing
    obtain ⟨hscan, hescape⟩ := scan_without_cr hfast.2
    rw [if_pos hfast]
    refine ⟨_, _, rfl, ⟨rfl, fun _ => ⟨[], ?_, ?_⟩, nofun⟩, fun _ => hnil⟩
    · exact ⟨h.queue, h.nEob, heos, fun hp => by simp [hprocessed] at hp, h.running⟩
    · rw [remaining_append hprocessed, hfast.1, hscan, hescape]
      simp [CrEob.remaining, hprocessed]
  · obtain ⟨buf, size, hconvert, hq⟩ := convert_queue { ctx with readEos := eos } h.queue piece
    have h' : Reading
        { ctx with readEos := eos, buf, nEob := scan ctx.nEob piece, infilesize := size }
        (escape ctx.nEob piece) rest :=
      ⟨hq, scan_le _ h.nEob piece, heos, fun hp => by simp [hprocessed] at hp, h.running⟩
    obtain ⟨ctx', answer, hfinish, hhanded, hsome⟩ := finish_handed hblen h'
    refine ⟨ctx', answer, ?_, ?_, fun _ => hsome (.inl (escape_ne_nil _ hnil))⟩
    · rw [if_neg hfast, hconvert]
      exact hfinish
    · rw [remaining_append hprocessed]
      simpa [CrEob.remaining, hprocessed] using hhanded

/-- A read hands out the next bytes, and at least one when the next reader does its part. -/
theorem crEobRead_handed {ctx : CrEob} {c : Call} (hblen : 0 < c.blen)
    (h : Reading ctx content rest) :
    ∃ asked ctx' answer, ctx.asks = some asked ∧
      crEobRead ctx c.blen (c.read rest) = some (ctx', answer) ∧
      Handed (ctx.remaining content rest) ctx'
        (if asked then rest.drop (min c.want c.blen) else rest) answer ∧
      (0 < c.want → c.tells = true → answer.bytes ≠ []) := by
  have hasks : ctx.asks = some (!ctx.readEos && decide (content = [])) := by
    simp [CrEob.asks, bufqIsEmpty_spec h.queue.rep]
  by_cases hask : ctx.readEos = false ∧ content = []
  · obtain ⟨hread, rfl⟩ := hask
    rw [← List.take_append_drop (min c.want c.blen) rest] at h
    obtain ⟨ctx', answer, hcall, hhanded, hsome⟩ :=
      delivered_handed (c.read rest).eos hblen h hread (by
        intro heos
        simp only [Call.read, Bool.and_eq_true, List.isEmpty_iff] at heos
        exact heos.2)
    rw [List.take_append_drop] at hhanded
    refine ⟨true, ctx', answer, by simp [hasks, hread], hcall, hhanded, ?_⟩
    intro hwant htells
    by_cases hrest : rest = []
    · exact hsome (.inr (by simp [Call.read, htells, hrest]))
    · refine hsome (.inl ?_)
      rw [Ne, List.take_eq_nil_iff, not_or]
      exact ⟨by omega, hrest⟩
  · obtain ⟨ctx', answer, hfinish, hhanded, hsome⟩ := finish_handed hblen h
    have hnot : (!ctx.readEos && decide (content = [])) = false := by
      by_contra hcond
      simp only [Bool.not_eq_false, Bool.and_eq_true, Bool.not_eq_true', decide_eq_true_eq] at hcond
      exact hask hcond
    rw [hnot] at hasks
    refine ⟨false, ctx', answer, hasks, ?_, hhanded, fun _ _ => hsome ?_⟩
    · unfold crEobRead
      rw [hasks]
      exact hfinish
    · by_cases hcontent : content = []
      · right
        by_contra hread
        exact hask ⟨by simpa using hread, hcontent⟩
      · exact .inl hcontent

/-- The bytes of some answers. -/
def returned (answers : List Answer) : Bytes := answers.flatMap Answer.bytes

/-- The end of the mail was reported. -/
def Ended (answers : List Answer) : Prop := ∃ a ∈ answers, a.eos = true

/-- The answers are the first bytes of the text, the end is reported with the last of them, and
nowhere else. -/
structure Answers (text : Bytes) (answers : List Answer) (left : Bytes) : Prop where
  ok : ∀ a ∈ answers, a.result = .ok
  text : text = returned answers ++ left
  ended : Ended answers ↔ left = []
  once : ∀ a ∈ answers.dropLast, a.eos = false
  byte : ∀ a ∈ answers, a.eos = true → a.bytes ≠ []

theorem readAll_answers {ctx : CrEob} (calls : List Call) (hpos : ∀ c ∈ calls, 0 < c.blen)
    (h : Reading ctx content rest) :
    ∃ answers left, readAll ctx rest calls = some answers ∧
      Answers (ctx.remaining content rest) answers left ∧
      ((∀ c ∈ calls, 0 < c.want ∧ c.tells = true) →
        left = [] ∨ calls.length ≤ (returned answers).length) := by
  induction calls generalizing ctx content rest with
  | nil =>
    refine ⟨[], ctx.remaining content rest, rfl, ⟨List.forall_mem_nil _, rfl, ?_,
      List.forall_mem_nil _, List.forall_mem_nil _⟩,
      fun _ => .inr (Nat.zero_le _)⟩
    simp [Ended, h.remaining_ne_nil]
  | cons c cs ih =>
    obtain ⟨asked, ctx', answer, hasks, hcall, hhanded, hsome⟩ :=
      crEobRead_handed (hpos c (by simp)) h
    unfold readAll
    rw [hasks]
    simp only [Option.bind_eq_bind, Option.bind_some, hcall]
    cases heos : answer.eos with
    | true =>
      have hlast := hhanded.last heos
      refine ⟨[answer], [], by rw [if_pos (.inr rfl)],
        ⟨?_, ?_, ?_, List.forall_mem_nil _, ?_⟩, fun _ => .inl rfl⟩
      · simpa using hhanded.ok
      · simpa [returned] using hlast
      · simp [Ended, heos]
      · intro a ha _
        rw [List.mem_singleton.mp ha, ← hlast]
        exact h.remaining_ne_nil
    | false =>
      obtain ⟨content', h', heq⟩ := hhanded.next heos
      obtain ⟨answers, left, hread, ha, hlive⟩ := ih (fun c hc => hpos c (by simp [hc])) h'
      rw [if_neg (by simp [hhanded.ok]), hread]
      refine ⟨answer :: answers, left, rfl, ⟨?_, ?_, ?_, ?_, ?_⟩, ?_⟩
      · simpa [hhanded.ok] using ha.ok
      · rw [heq, ha.text]
        simp [returned]
      · rw [← ha.ended]
        simp [Ended, heos]
      · intro a hmem
        cases answers with
        | nil => simp at hmem
        | cons b bs =>
          rw [List.dropLast_cons_cons] at hmem
          rcases List.mem_cons.mp hmem with rfl | hmem
          · exact heos
          · exact ha.once a hmem
      · intro a hmem hae
        rcases List.mem_cons.mp hmem with rfl | hmem
        · rw [heos] at hae
          cases hae
        · exact ha.byte a hmem hae
      · intro hall
        have hne := hsome (hall c (by simp)).1 (hall c (by simp)).2
        have hlen := List.length_pos_iff.mpr hne
        rcases hlive (fun c hc => hall c (by simp [hc])) with hnil | hlong
        · exact .inl hnil
        · right
          simp only [returned, List.flatMap_cons, List.length_append, List.length_cons] at *
          omega

theorem reading_init (infilesize : Int) (body : Bytes) :
    Reading (crEobInit infilesize) [] body where
  queue := queue_init (by decide) (by decide)
  nEob := (by decide : 2 ≤ 3)
  done := nofun
  processed := nofun
  running := rfl

/-- Whatever the sizes of the reads and the pieces of the body are, what is read is the body with
its leading dots doubled and the end of the mail behind it. The end of the stream is reported with
the last byte, which comes when the next reader delivers; the end of the mail is nowhere else in the
text, and the body is what a receiver finds in it. -/
theorem smtp_dot_stuffing (infilesize : Int) (body : Bytes) (calls : List Call)
    (hpos : ∀ c ∈ calls, 0 < c.blen) :
    (∃ answers, readAll (crEobInit infilesize) body calls = some answers ∧
      (∀ a ∈ answers, a.result = .ok) ∧ returned answers <+: dotStuff body ++ ending body ∧
      (Ended answers ↔ returned answers = dotStuff body ++ ending body) ∧
      (∀ a ∈ answers.dropLast, a.eos = false) ∧ (∀ a ∈ answers, a.eos = true → a.bytes ≠ []) ∧
      ((∀ c ∈ calls, 0 < c.want ∧ c.tells = true) →
        (dotStuff body ++ ending body).length ≤ calls.length → Ended answers)) ∧
    (∀ pre post, [13, 10] ++ (dotStuff body ++ ending body) = pre ++ smtpEob ++ post → post = []) ∧
    dotUnstuff (dotStuff body) = body ∧
    receive .start (dotStuff body ++ ending body) = (.ended, closed body, []) := by
  refine ⟨?_, fun pre post hmark => eob_at_end (receive_mailText body) hmark,
    dotUnstuff_dotStuff body, receive_mailText body⟩
  obtain ⟨answers, left, hread, ha, hlive⟩ :=
    readAll_answers calls hpos (reading_init infilesize body)
  have htext : dotStuff body ++ ending body = returned answers ++ left := by
    rw [← mail_text, ← ha.text]
    rfl
  have hended : Ended answers ↔ returned answers = dotStuff body ++ ending body := by
    rw [ha.ended, htext]
    simp
  refine ⟨answers, hread, ha.ok, ⟨left, htext.symm⟩, hended, ha.once, ha.byte, ?_⟩
  intro hall hlen
  rw [ha.ended]
  rcases hlive hall with hnil | hlong
  · exact hnil
  · rw [htext, List.length_append] at hlen
    exact List.length_eq_zero_iff.mp (by omega)

/-- Reads of two bytes, from a next reader that gives three. -/
theorem smtp_dot_stuffing_dot : ∃ answers,
    readAll (crEobInit 2) [46, 97] (List.replicate 9 ⟨2, 3, true⟩) = some answers ∧
      returned answers = [46, 46, 97, 13, 10, 46, 13, 10] := by
  obtain ⟨answers, hread, -, -, hended, -, -, hlive⟩ :=
    (smtp_dot_stuffing 2 [46, 97] (List.replicate 9 ⟨2, 3, true⟩) (by simp)).1
  exact ⟨answers, hread, hended.mp (hlive (by simp) (by decide))⟩

end Gurl.Smtp
