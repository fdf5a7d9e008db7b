import Gurl.Remote.Session

/-! What a download over NFS delivers: the bytes of the file from the offset on, as many as the
range has, however the reads are cut and whenever the driver is called. -/

namespace Gurl.Remote

variable {F : Bytes} {size o r : Int} {s s' : Session} {a : Answers}

/-! ### The other side -/

/-- Nothing fails in a call of the driver. -/
structure Answers.Willing (a : Answers) : Prop where
  service : a.service = .ok
  accepted : a.accepted = true
  write : a.write = .ok
  writeEos : a.writeEos = .ok

/-- The status of a read: at least one byte and no more than was asked for, and nothing only at the
end of the file. -/
structure ReadStatus (F : Bytes) (offset want status : Int) : Prop where
  some : offset < F.length → 1 ≤ status ∧ status ≤ want ∧ offset + status ≤ F.length
  none : F.length ≤ offset → status = 0

/-- The status that a server with the file `F` may give to an operation. -/
def Op.Honest (F : Bytes) (status : Int) : Op → Prop
  | .pread offset want => ReadStatus F offset want status
  | _ => status = 0

/-- An event of a run in which nothing fails. -/
def Event.Honest (F : Bytes) (s : Session) : Event → Prop
  | .doing a => a.Willing
  | .complete status => ∀ op, s.pending = some op → op.Honest F status

/-- Nothing fails in a run, and every operation completes in the end. -/
structure Fair {s₀ : Session} (run : Runs.Forever (step .nfs F) s₀) : Prop where
  honest : ∀ t, (run.action t).Honest F (run.state t)
  completes : ∀ t, (run.state t).pending ≠ none →
    ∃ u, t ≤ u ∧ ∃ status, run.action u = .complete status

/-! ### What the client receives -/

def ClientWrite.bytes : ClientWrite → Bytes
  | .body bytes => bytes
  | .eos => []

/-- The bytes that the client has received. -/
def Session.received (s : Session) : Bytes := s.writes.flatMap ClientWrite.bytes

/-- The download is finished: the client has received `bytes` and then one end of stream. -/
structure Delivered (bytes : Bytes) (s : Session) : Prop where
  result : s.result = some .ok
  received : s.received = bytes
  eos : ∃ writes, s.writes = writes ++ [.eos] ∧ ClientWrite.eos ∉ writes

/-- The number of bytes that a transfer from `o` has, given the bound `r` and the size. -/
def boundOf (size o r : Int) : Int := if r < 0 then if size > o then size - o else 0 else r

/-- The bytes that the handler means to deliver. -/
def planned (F : Bytes) (size o r : Int) : Bytes :=
  (F.drop o.toNat).take (boundOf size o r).toNat

/-! ### Stages of a download -/

/-- Nothing has been transferred. -/
structure Before (o r : Int) (s : Session) : Prop where
  result : s.result = none
  writes : s.writes = []
  offset : s.req.offset = o
  remaining : s.req.remaining = r

/-- The transfer is under way: what is still to come completes the planned bytes. -/
structure During (F : Bytes) (size o r : Int) (s : Session) : Prop where
  result : s.result = none
  offset : 0 ≤ s.req.offset
  remaining : 0 < s.req.remaining
  noEos : ClientWrite.eos ∉ s.writes
  rest : s.received ++ (F.drop s.req.offset.toNat).take s.req.remaining.toNat = planned F size o r

/-- The read that is done, and what it has put into the buffer. -/
structure ReadDone (F : Bytes) (s : Session) : Prop where
  pending : s.pending = none
  done : s.req.opDone = true
  buf : s.req.buf = (F.drop s.req.offset.toNat).take s.req.opStatus.toNat
  status : ReadStatus F s.req.offset s.req.remaining s.req.opStatus

/-- The read in progress. -/
structure Reading (s : Session) : Prop where
  pending : ∃ want : Nat, s.pending = some (.pread s.req.offset want) ∧ want ≤ s.req.remaining
  done : s.req.opDone = false

/-- An operation other than a read is in progress. -/
structure Waiting (op : Op) (s : Session) : Prop where
  pending : s.pending = some op
  done : s.req.opDone = false

/-- It has succeeded. -/
structure Succeeded (s : Session) : Prop where
  pending : s.pending = none
  done : s.req.opDone = true
  status : s.req.opStatus = 0

/-- Where a download is. -/
inductive Stage (F : Bytes) (size o r : Int) (s : Session) : Prop
  | start (h : Before o r s) (state : s.req.state = .init) (pending : s.pending = none)
  | openWait (h : Before o r s) (state : s.req.state = .opening) (wait : Waiting .openFile s)
  | opened (h : Before o r s) (state : s.req.state = .opening) (done : Succeeded s)
  | statWait (h : Before o r s) (state : s.req.state = .stat) (wait : Waiting .fstat s)
  | sized (h : Before o r s) (state : s.req.state = .stat) (done : Succeeded s)
      (filesize : s.req.filesize = size)
  | reading (h : During F size o r s) (state : s.req.state = .transfer) (read : Reading s)
  | read (h : During F size o r s) (state : s.req.state = .transfer) (read : ReadDone F s)
  | finished (h : Delivered (planned F size o r) s) (state : s.req.state = .stop)
      (pending : s.pending = none)

/-- A download that wants data. -/
structure Wants (s : Session) : Prop where
  upload : s.req.upload = false
  noBody : s.data.noBody = false
  bufsize : 0 < s.req.bufsize

structure Fetch (F : Bytes) (size o r : Int) (s : Session) : Prop extends Wants s where
  stage : Stage F size o r s

/-- How much is left to do. -/
def Session.rank (F : Bytes) (s : Session) : Nat :=
  match s.req.state, s.pending with
  | .init, _ => 2 * F.length + 8
  | .opening, some _ => 2 * F.length + 7
  | .opening, none => 2 * F.length + 6
  | .stat, some _ => 2 * F.length + 5
  | .stat, none => 2 * F.length + 4
  | .transfer, some _ => 2 * (F.length - s.req.offset.toNat) + 2
  | .transfer, none => 2 * (F.length - s.req.offset.toNat) + 1
  | .stop, _ => 0

theorem rank_stop (h : s.req.state = .stop) : s.rank F = 0 := by
  unfold Session.rank
  rw [h]

theorem rank_transfer (h : s.req.state = .transfer) :
    s.rank F = 2 * (F.length - s.req.offset.toNat) + if s.pending = none then 1 else 2 := by
  unfold Session.rank
  rw [h]
  cases s.pending <;> rfl

/-! ### Steps -/

theorem Wants.transferDone (h : Wants s) (ha : a.Willing) (hpending : s.pending = none)
    (hreceived : s.received = planned F size o r) (hnoEos : ClientWrite.eos ∉ s.writes) :
    Fetch F size o r (transferDone a s) ∧ (transferDone a s).rank F = 0 := by
  unfold Remote.transferDone
  rw [if_neg (by simp [h.upload])]
  refine ⟨⟨⟨h.upload, h.noBody, h.bufsize⟩, .finished ⟨?_, ?_, _, rfl, hnoEos⟩ rfl hpending⟩,
    rank_stop rfl⟩
  · exact congrArg some ha.writeEos
  · rw [← hreceived]
    simp [Session.received, ClientWrite.bytes]

theorem Wants.readNext (h : Wants s) (ha : a.Willing) (hduring : During F size o r s)
    (hstate : s.req.state = .transfer) :
    Fetch F size o r (readNext a s) ∧
      (readNext a s).rank F = 2 * (F.length - s.req.offset.toNat) + 2 := by
  have hpos := hduring.remaining
  have hread : Remote.readNext a s = { s with
      req := { s.req with opDone := false, opInflight := true }
      requests := s.requests ++ [.pread s.req.offset
        (if s.req.remaining ≥ 0 ∧ s.req.bufsize > s.req.remaining then s.req.remaining.toNat
          else s.req.bufsize)]
      pending := some (.pread s.req.offset
        (if s.req.remaining ≥ 0 ∧ s.req.bufsize > s.req.remaining then s.req.remaining.toNat
          else s.req.bufsize)) } := by
    unfold Remote.readNext Session.queue
    exact if_pos ha.accepted
  rw [hread]
  refine ⟨⟨⟨h.upload, h.noBody, h.bufsize⟩, .reading ?_ hstate ?_⟩, ?_⟩
  · exact ⟨hduring.result, hduring.offset, hduring.remaining, hduring.noEos, hduring.rest⟩
  · exact ⟨⟨_, rfl, by dsimp only; split <;> omega⟩, rfl⟩
  · exact rank_transfer hstate

/-- The session after the client has received what was read. -/
def Session.takeRead (s : Session) : Session :=
  ({ s with
    req := { s.req with opInflight := false }
    writes := s.writes ++ [ClientWrite.body (s.req.buf.take s.req.opStatus.toNat)] }).advance
      s.req.opStatus

theorem downloadTransfer_of_read (ha : a.Willing) (hdone : s.req.opDone = true)
    (hstatus : 0 < s.req.opStatus) : downloadTransfer a s = finishOrRead a s.takeRead := by
  unfold downloadTransfer
  dsimp only
  rw [if_neg (by simp [hdone]), if_neg (by omega), if_pos hstatus, if_neg (by simp [ha.write])]
  rfl

theorem downloadTransfer_of_end (hdone : s.req.opDone = true) (hstatus : s.req.opStatus = 0) :
    downloadTransfer a s = transferDone a { s with req := { s.req with opInflight := false } } := by
  unfold downloadTransfer
  dsimp only
  rw [if_neg (by simp [hdone]), if_neg (by omega), if_neg (by omega)]

/-- What was read is what comes next, and the rest is still to come. -/
theorem During.takeRead (h : During F size o r s) (hread : ReadDone F s)
    (hstatus : 1 ≤ s.req.opStatus) (hle : s.req.opStatus ≤ s.req.remaining) :
    s.takeRead.received ++
        (F.drop s.takeRead.req.offset.toNat).take s.takeRead.req.remaining.toNat =
      planned F size o r := by
  have hpos := h.remaining
  have hoffset := h.offset
  have hbytes : s.takeRead.received = s.received ++ s.req.buf.take s.req.opStatus.toNat := by
    simp [Session.takeRead, Session.received, Session.advance, ClientWrite.bytes]
  have hoff : s.takeRead.req.offset.toNat = s.req.offset.toNat + s.req.opStatus.toNat :=
    Int.toNat_add hoffset (by omega)
  have hrem : s.takeRead.req.remaining.toNat = s.req.remaining.toNat - s.req.opStatus.toNat := by
    rw [show s.takeRead.req.remaining = s.req.remaining - s.req.opStatus from if_pos hpos]
    omega
  rw [hbytes, hoff, hrem, hread.buf, List.take_take, Nat.min_self, List.append_assoc, ← h.rest]
  congr 1
  rw [← List.drop_drop, ← List.take_add]
  congr 1
  omega

theorem Wants.downloadTransfer (h : Wants s) (ha : a.Willing) (hduring : During F size o r s)
    (hstate : s.req.state = .transfer) (hread : ReadDone F s) :
    Fetch F size o r (downloadTransfer a s) ∧
      (downloadTransfer a s).rank F < 2 * (F.length - s.req.offset.toNat) + 1 := by
  have hoffset := hduring.offset
  by_cases hlt : s.req.offset < F.length
  · obtain ⟨hone, hle, hend⟩ := hread.status.some hlt
    have hrest := hduring.takeRead hread hone hle
    have hwants : Wants s.takeRead := ⟨h.upload, h.noBody, h.bufsize⟩
    have hrem : s.takeRead.req.remaining = s.req.remaining - s.req.opStatus :=
      if_pos hduring.remaining
    have hnoEos : ClientWrite.eos ∉ s.takeRead.writes := by
      simpa [Session.takeRead, Session.advance] using hduring.noEos
    rw [downloadTransfer_of_read ha hread.done (by omega)]
    unfold finishOrRead
    split
    · rename_i hzero
      rw [hzero, Int.toNat_zero, List.take_zero, List.append_nil] at hrest
      obtain ⟨hfetch, hrank⟩ := hwants.transferDone ha hread.pending hrest hnoEos
      exact ⟨hfetch, by omega⟩
    · rename_i hmore
      have hoff : s.takeRead.req.offset = s.req.offset + s.req.opStatus := rfl
      obtain ⟨hfetch, hrank⟩ := hwants.readNext ha
        ⟨hduring.result, by omega, by omega, hnoEos, hrest⟩ hstate
      exact ⟨hfetch, by omega⟩
  · have hstatus := hread.status.none (by omega)
    have hrest := hduring.rest
    rw [List.drop_of_length_le (by omega), List.take_nil, List.append_nil] at hrest
    have hwants : Wants { s with req := { s.req with opInflight := false } } :=
      ⟨h.upload, h.noBody, h.bufsize⟩
    rw [downloadTransfer_of_end hread.done hstatus]
    obtain ⟨hfetch, hrank⟩ := hwants.transferDone ha hread.pending hrest hduring.noEos
    exact ⟨hfetch, by omega⟩

theorem boundOf_nonneg (size o r : Int) : 0 ≤ boundOf size o r := by
  unfold boundOf
  split_ifs <;> omega

theorem Wants.beginTransfer (h : Wants s) (ha : a.Willing) (hbefore : Before o r s) (ho : 0 ≤ o)
    (hfilesize : s.req.filesize = size) (hpending : s.pending = none) :
    Fetch F size o r (beginTransfer a s) ∧ (beginTransfer a s).rank F < 2 * F.length + 4 := by
  have hbound : s.bound = boundOf size o r := by
    rw [Session.bound, hbefore.remaining, hbefore.offset, hfilesize]
    rfl
  have hempty : s.received = [] := by rw [Session.received, hbefore.writes, List.flatMap_nil]
  have hnoEos : ClientWrite.eos ∉ s.writes := by simp [hbefore.writes]
  have hwants : Wants (s.setBound (boundOf size o r)) := ⟨h.upload, h.noBody, h.bufsize⟩
  unfold Remote.beginTransfer
  dsimp only
  rw [hbound]
  by_cases hzero : boundOf size o r = 0
  · have hreceived : s.received = planned F size o r := by
      rw [hempty, planned, hzero, Int.toNat_zero, List.take_zero]
    rw [if_pos (.inl hzero)]
    obtain ⟨hfetch, hrank⟩ := hwants.transferDone ha hpending hreceived hnoEos
    exact ⟨hfetch, by omega⟩
  · have hrest : s.received ++ (F.drop s.req.offset.toNat).take (boundOf size o r).toNat =
        planned F size o r := by
      rw [hempty, List.nil_append, hbefore.offset, planned]
    have hnonneg := boundOf_nonneg size o r
    have hoffset : 0 ≤ s.req.offset := hbefore.offset ▸ ho
    have hduring : During F size o r ((s.setBound (boundOf size o r)).enter .transfer) :=
      ⟨hbefore.result, hoffset, by dsimp only [Session.enter, Session.setBound]; omega, hnoEos,
        hrest⟩
    have hentered : Wants ((s.setBound (boundOf size o r)).enter .transfer) :=
      ⟨h.upload, h.noBody, h.bufsize⟩
    rw [if_neg (by simp [hzero, hwants.noBody])]
    obtain ⟨hfetch, hrank⟩ := hentered.readNext ha hduring rfl
    exact ⟨hfetch, by omega⟩

theorem Wants.queue (h : Wants s) (hbefore : Before o r s) (state : ReqState) (op : Op)
    {accepted : Bool} (haccepted : accepted = true) (res : Curlcode) :
    Wants ((s.enter state).queue op accepted res) ∧
      Before o r ((s.enter state).queue op accepted res) ∧
      ((s.enter state).queue op accepted res).req.state = state ∧
      Waiting op ((s.enter state).queue op accepted res) := by
  subst haccepted
  exact ⟨⟨h.upload, h.noBody, h.bufsize⟩,
    ⟨hbefore.result, hbefore.writes, hbefore.offset, hbefore.remaining⟩, rfl, ⟨rfl, rfl⟩⟩

/-- A call of the driver waits for the operation in progress, or it gets on with the download. -/
theorem Fetch.doing (h : Fetch F size o r s) (ha : a.Willing) (ho : 0 ≤ o)
    (hresult : s.result = none) :
    if s.pending = none then
      Fetch F size o r (doing .nfs a s) ∧ (doing .nfs a s).rank F < s.rank F
    else doing .nfs a s = s := by
  cases h.stage with
  | start hbefore hstate hpending =>
    obtain ⟨hwants, hb, hs, hwait⟩ := h.queue hbefore .opening .openFile ha.accepted
      .remoteFileNotFound
    rw [if_pos hpending, doing_init ha.service hstate]
    exact ⟨⟨hwants, .openWait hb hs hwait⟩, by simp [Session.rank, hs, hwait.pending, hstate]⟩
  | openWait hbefore hstate hwait =>
    rw [if_neg (by simp [hwait.pending]), doing_opening ha.service hstate h.upload]
    exact if_pos (by simp [hwait.done])
  | opened hbefore hstate hdone =>
    obtain ⟨hwants, hb, hs, hwait⟩ := h.queue hbefore .stat .fstat ha.accepted .recvError
    rw [if_pos hdone.pending, doing_opening ha.service hstate h.upload,
      if_neg (by simp [hdone.done]), if_neg (by simp [hdone.status])]
    exact ⟨⟨hwants, .statWait hb hs hwait⟩,
      by simp [Session.rank, hs, hwait.pending, hstate, hdone.pending]⟩
  | statWait hbefore hstate hwait =>
    rw [if_neg (by simp [hwait.pending]), doing_stat ha.service hstate]
    exact if_pos (by simp [hwait.done])
  | sized hbefore hstate hdone hfilesize =>
    have hrank : s.rank F = 2 * F.length + 4 := by simp [Session.rank, hstate, hdone.pending]
    rw [if_pos hdone.pending, doing_stat ha.service hstate, hrank]
    dsimp only [Proto.stat]
    rw [nfsStat_of_ok hdone.done hdone.status.ge]
    exact h.beginTransfer ha hbefore ho hfilesize hdone.pending
  | reading hduring hstate hread =>
    obtain ⟨want, hpending, -⟩ := hread.pending
    rw [if_neg (by simp [hpending]), doing_transfer ha.service hstate h.upload]
    exact if_pos (by simp [hread.done])
  | read hduring hstate hread =>
    have hrank := rank_transfer (F := F) hstate
    rw [if_pos hread.pending] at hrank
    rw [if_pos hread.pending, doing_transfer ha.service hstate h.upload, hrank]
    exact h.downloadTransfer ha hduring hstate hread
  | finished hdelivered =>
    rw [hdelivered.result] at hresult
    cases hresult

/-- A completion takes the download to the next stage. -/
theorem Fetch.completed (h : Fetch F size o r s) (hsize : toOffT F.length = size) {op : Op}
    {status : Int} (hop : s.pending = some op) (hhonest : op.Honest F status) :
    Fetch F size o r (s.completed .nfs F status op) ∧
      (s.completed .nfs F status op).rank F < s.rank F := by
  cases h.stage with
  | openWait hbefore hstate hwait =>
    rw [hwait.pending] at hop
    cases hop
    refine ⟨⟨⟨h.upload, h.noBody, h.bufsize⟩, .opened ?_ hstate ⟨rfl, rfl, hhonest⟩⟩, ?_⟩
    · exact ⟨hbefore.result, hbefore.writes, hbefore.offset, hbefore.remaining⟩
    · simp [Session.rank, Session.completed, hstate, hwait.pending]
  | statWait hbefore hstate hwait =>
    rw [hwait.pending] at hop
    cases hop
    refine ⟨⟨⟨h.upload, h.noBody, h.bufsize⟩, .sized ?_ hstate ⟨rfl, rfl, hhonest⟩ ?_⟩, ?_⟩
    · exact ⟨hbefore.result, hbefore.writes, hbefore.offset, hbefore.remaining⟩
    · rw [← hsize]
      exact if_pos ⟨rfl, hhonest⟩
    · simp [Session.rank, Session.completed, hstate, hwait.pending]
  | reading hduring hstate hread =>
    obtain ⟨want, hpending, hwant⟩ := hread.pending
    rw [hpending] at hop
    cases hop
    refine ⟨⟨⟨h.upload, h.noBody, h.bufsize⟩, .read ?_ hstate ⟨rfl, rfl, rfl, ?_⟩⟩, ?_⟩
    · exact ⟨hduring.result, hduring.offset, hduring.remaining, hduring.noEos, hduring.rest⟩
    · refine ⟨fun hlt => ?_, hhonest.none⟩
      obtain ⟨hone, hle, hend⟩ := hhonest.some hlt
      exact ⟨hone, hle.trans hwant, hend⟩
    · simp [Session.rank, Session.completed, hstate, hpending]
  | start _ _ hnone | finished _ _ hnone => simp [hnone] at hop
  | opened _ _ hdone | sized _ _ hdone | read _ _ hdone => simp [hdone.pending] at hop

/-! ### Runs -/

/-- The event that the download waits for. -/
def Event.Useful (s : Session) : Event → Prop
  | .doing _ => s.pending = none
  | .complete _ => s.pending ≠ none

theorem Fetch.delivered (h : Fetch F size o r s) (hresult : s.result ≠ none) :
    Delivered (planned F size o r) s ∧ s.pending = none := by
  cases h.stage with
  | finished hdelivered _ hpending => exact ⟨hdelivered, hpending⟩
  | start hbefore | openWait hbefore | opened hbefore | statWait hbefore | sized hbefore =>
    exact absurd hbefore.result hresult
  | reading hduring | read hduring => exact absurd hduring.result hresult

/-- A download that has a result does not change any more. -/
theorem Fetch.final (h : Fetch F size o r s) (hresult : s.result ≠ none) {e : Event}
    (hstep : step .nfs F s e = some s') : s' = s := by
  cases e with
  | complete status => simp [step, complete, (h.delivered hresult).2] at hstep
  | doing a =>
    rw [step, if_neg hresult] at hstep
    exact (Option.some.inj hstep).symm

theorem Fetch.step (h : Fetch F size o r s) (hsize : toOffT F.length = size) (ho : 0 ≤ o)
    {e : Event} (hhonest : e.Honest F s) (hstep : step .nfs F s e = some s') :
    Fetch F size o r s' ∧
      (s.result = none → e.Useful s → s'.rank F < s.rank F) ∧ (¬e.Useful s → s' = s) := by
  by_cases hresult : s.result = none
  · cases e with
    | complete status =>
      obtain ⟨op, hop, rfl⟩ := Option.map_eq_some_iff.mp hstep
      obtain ⟨hfetch, hrank⟩ := h.completed hsize hop (hhonest op hop)
      have huse : (Event.complete status).Useful s := by simp [Event.Useful, hop]
      exact ⟨hfetch, fun _ _ => hrank, fun hnot => absurd huse hnot⟩
    | doing a =>
      rw [step_doing a hresult] at hstep
      cases hstep
      have hdoing := h.doing hhonest ho hresult
      by_cases hpending : s.pending = none
      · rw [if_pos hpending] at hdoing
        exact ⟨hdoing.1, fun _ _ => hdoing.2, fun hnot => absurd hpending hnot⟩
      · rw [if_neg hpending] at hdoing
        rw [hdoing]
        exact ⟨h, fun _ huse => absurd huse hpending, fun _ => rfl⟩
  · obtain rfl := h.final hresult hstep
    exact ⟨h, fun hnone => absurd hnone hresult, fun _ => rfl⟩

/-- Every fair run delivers the planned bytes. -/
theorem Fair.delivers {s₀ : Session} {run : Runs.Forever (Remote.step .nfs F) s₀} (hfair : Fair run)
    (h₀ : Fetch F size o r s₀) (hsize : toOffT F.length = size) (ho : 0 ≤ o) :
    ∃ T, ∀ t, T ≤ t → Delivered (planned F size o r) (run.state t) := by
  have hfetch : ∀ t, Fetch F size o r (run.state t) := run.invariant h₀ fun t ht =>
    (ht.step hsize ho (hfair.honest t) (run.next t)).1
  have hdone : ∃ T, (run.state T).result ≠ none := by
    refine run.eventually (Session.rank F) (fun s => s.result ≠ none) (fun s e => e.Useful s)
      ?_ ?_ ?_
    · intro t _ hnot
      exact ((hfetch t).step hsize ho (hfair.honest t) (run.next t)).2.2 hnot
    · intro t hnone huse
      exact ((hfetch t).step hsize ho (hfair.honest t) (run.next t)).2.1 (not_not.mp hnone) huse
    · intro t _
      by_cases hpending : (run.state t).pending = none
      · refine ⟨t, Nat.le_refl t, ?_⟩
        cases haction : run.action t with
        | doing a => exact hpending
        | complete status =>
          have hnext := run.next t
          simp [haction, Remote.step, Remote.complete, hpending] at hnext
      · obtain ⟨u, hu, status, haction⟩ := hfair.completes t hpending
        exact ⟨u, hu, haction ▸ hpending⟩
  obtain ⟨T, hT⟩ := hdone
  refine ⟨T, fun t ht => ?_⟩
  rw [run.stays (fun e s' hstep => (hfetch T).final hT hstep) ht]
  exact ((hfetch T).delivered hT).1

/-! ### Ranges -/

/-- A download as `setup_range` and the reset of the request leave it. -/
structure Prepared (data : EasyData) : Prop where
  upload : data.upload = false
  noBody : data.noBody = false
  range : data.useRange = true → data.range.isSome = true
  resumeFrom : data.useRange = false → data.resumeFrom = 0
  maxdownload : data.maxdownload = -1

/-- The range that the client has set, if any. -/
def EasyData.activeRange (data : EasyData) : Option Bytes :=
  if data.useRange then data.range else none

/-- A range with an end that `curl_off_t` can hold. -/
def RangeEnds : RangeForm → Prop
  | .between _ y => y ≤ curlOffTMax
  | .last y => y ≤ curlOffTMax
  | _ => False

/-- The NFS handler serves a range of the file `F`: the size of the file fits in `curl_off_t` where
it is used, and the last bytes of the file, where they are asked for, are its first ones. -/
def NfsServes (F : Bytes) (form : RangeForm) : Prop :=
  (F.length ≤ curlOffTMax ∨ RangeEnds form) ∧
    ∀ y, form = .last y → F.take y = F.drop (F.length - y)

theorem Prepared.outcome {data : EasyData} (h : Prepared data) {form : RangeForm} {rf md : Int}
    (hform : rangeForm data.activeRange = some form)
    (hcurl : curlRange data.useRange data.range data.resumeFrom data.maxdownload = .ok (rf, md)) :
    form.Outcome rf md := by
  refine curlRange_outcome hform ?_
  rw [← hcurl, h.maxdownload]
  unfold EasyData.activeRange
  cases huse : data.useRange with
  | false => rw [h.resumeFrom huse]; rfl
  | true =>
    obtain ⟨p, hp⟩ := Option.isSome_iff_exists.mp (h.range huse)
    rw [hp]
    rfl

/-- Without a bound, a file whose size does not fit is taken to be empty. -/
theorem planned_unbounded (hF : F.length < 2 ^ 64) (x : Nat) :
    planned F (toOffT F.length) x (-1) = if F.length ≤ curlOffTMax then F.drop x else [] := by
  unfold planned boundOf
  rw [if_pos (by decide), Int.toNat_natCast]
  by_cases hle : F.length ≤ curlOffTMax
  · rw [if_pos hle, toOffT_of_le hle, List.take_of_length_le]
    rw [List.length_drop]
    split <;> omega
  · have hneg := toOffT_neg (by omega) hF
    rw [if_neg hle, if_neg (by omega)]
    rfl

theorem planned_bounded (x n : Nat) : planned F size x n = (F.drop x).take n := by
  unfold planned boundOf
  rw [if_neg (by omega)]
  rfl

/-- Without a bound, all of a range is planned exactly when the size fits, if the range is not
empty for a size that does not fit. -/
theorem planned_unbounded_iff (hF : F.length < 2 ^ 64) (x : Nat) (bytes : Bytes)
    (hfits : F.length ≤ curlOffTMax → bytes = F.drop x)
    (hne : curlOffTMax < F.length → bytes ≠ []) :
    planned F (toOffT F.length) x (-1) = bytes ↔ F.length ≤ curlOffTMax := by
  rw [planned_unbounded hF]
  split
  · rename_i hle
    simp [hfits hle, hle]
  · rename_i hgt
    constructor
    · intro hnil
      exact absurd hnil.symm (hne (by omega))
    · intro hle
      exact absurd hle hgt

theorem planned_eq_select_iff (hF : F.length < 2 ^ 64) {form : RangeForm} {rf md : Int}
    (h : form.Outcome rf md) :
    planned F (toOffT F.length) (if rf > 0 then rf else 0) md = form.select F ↔
      NfsServes F form := by
  have hstart : ∀ x : Nat, (if (x : Int) > 0 then (x : Int) else 0) = x := by
    intro x
    split <;> omega
  unfold NfsServes
  cases form with
  | whole =>
    obtain ⟨rfl, rfl⟩ := h
    have hiff := planned_unbounded_iff hF 0 F (fun _ => rfl)
      (fun hgt => List.ne_nil_of_length_pos (by omega))
    simpa [RangeEnds, RangeForm.select] using hiff
  | startingAt x =>
    obtain ⟨rfl, hx, rfl⟩ := h
    have hiff := planned_unbounded_iff hF x (F.drop x) (fun _ => rfl)
      (fun hgt => List.ne_nil_of_length_pos (by rw [List.length_drop]; omega))
    rw [hstart]
    simpa [RangeEnds, RangeForm.select] using hiff
  | between x y =>
    obtain ⟨rfl, hx, ⟨hy, hxy, rfl⟩ | ⟨hy, rfl⟩⟩ := h
    · -- the range has an end of its own
      rw [hstart, show (y : Int) - x + 1 = ((y - x + 1 : Nat) : Int) by omega, planned_bounded]
      have htake : (F.drop x).take (y - x + 1) = (F.drop x).take (min (y + 1) F.length - x) := by
        rw [List.take_eq_take_iff, List.length_drop]
        omega
      simp [RangeEnds, RangeForm.select, hy, htake]
    · have hiff := planned_unbounded_iff hF x ((F.drop x).take (min (y + 1) F.length - x))
        (fun hle => List.take_of_length_le (by rw [List.length_drop]; omega))
        (fun hgt => List.ne_nil_of_length_pos (by rw [List.length_take, List.length_drop]; omega))
      rw [hstart]
      simpa [RangeEnds, RangeForm.select, Nat.not_le.mpr hy] using hiff
  | last y =>
    have hselect : RangeForm.select F (.last y) = F.drop (F.length - y) := by
      rw [RangeForm.select]
      congr 1
      omega
    rw [hselect]
    obtain ⟨hpos, hy, rfl, rfl⟩ | ⟨hy, rfl, rfl⟩ := h
    · -- the offset is that of the whole file
      rw [if_neg (by omega), show (0 : Int) = ((0 : Nat) : Int) from rfl, planned_bounded]
      simp [RangeEnds, hy]
    · have hiff := planned_unbounded_iff hF 0 (F.drop (F.length - y))
        (fun hle => by rw [Nat.sub_eq_zero_of_le (by omega)])
        (fun hgt => List.ne_nil_of_length_pos (by rw [List.length_drop]; omega))
      have hall : F.length ≤ curlOffTMax → F.take y = F.drop (F.length - y) := by
        intro hle
        rw [Nat.sub_eq_zero_of_le (by omega), List.take_of_length_le (by omega), List.drop_zero]
      simp only [RangeEnds, Nat.not_le.mpr hy, or_false, RangeForm.last.injEq]
      refine hiff.trans ⟨fun hle => ⟨hle, ?_⟩, fun h => h.1⟩
      rintro _ rfl
      exact hall hle

theorem blockSize_pos (maxio : Nat) : 0 < blockSize maxio := by
  unfold blockSize maxBlock
  split <;> omega

/-- A new download. -/
theorem Prepared.fetch {data data' : EasyData} (h : Prepared data) {rf md : Int} (maxio : Nat)
    (hdata : data' = { data with resumeFrom := rf, maxdownload := md }) :
    Fetch F size o r (Session.start data' (blockSize maxio) o r) := by
  subst hdata
  exact ⟨⟨h.upload, h.noBody, blockSize_pos maxio⟩, .start ⟨rfl, rfl, rfl, rfl⟩ rfl rfl⟩

/-- A fair NFS download delivers the bytes of the range exactly when the handler serves the
range. -/
theorem nfs_download_iff {data : EasyData} {d : DoAnswers} {s₀ : Session} {form : RangeForm}
    {run : Runs.Forever (Remote.step .nfs F) s₀} (hF : F.length < 2 ^ 64) (hdata : Prepared data)
    (hform : rangeForm data.activeRange = some form) (hdo : nfsDo data d = .ok s₀)
    (hfair : Fair run) :
    (∃ T, ∀ t, T ≤ t → Delivered (form.select F) (run.state t)) ↔ NfsServes F form := by
  obtain ⟨data', offset, remaining, hrange, rfl⟩ := requestDo_ok hdo
  unfold requestRange at hrange
  rw [if_neg (by simp [hdata.upload])] at hrange
  split at hrange
  · cases hrange
  rename_i rf md hcurl
  cases hrange
  have ho : 0 ≤ if rf > 0 then rf else 0 := by split <;> omega
  obtain ⟨T, hT⟩ := hfair.delivers (hdata.fetch d.maxio rfl) rfl ho
  rw [← planned_eq_select_iff hF (hdata.outcome hform hcurl)]
  constructor
  · rintro ⟨T', hT'⟩
    exact (hT _ (Nat.le_max_left T T')).received.symm.trans
      (hT' _ (Nat.le_max_right T T')).received
  · intro heq
    exact ⟨T, heq ▸ hT⟩

theorem Answers.good_willing : Answers.good.Willing := ⟨rfl, rfl, rfl, rfl⟩

/-- A run of a download from the second byte of three on, in reads of one byte. -/
def tailRun : Runs.Forever (Remote.step .nfs [1, 2, 3])
    (Session.start { EasyData.download (some [0x31, 0x2d]) with resumeFrom := 1 } 2 1 (-1)) :=
  .idle (a := .doing .good) (show Runs.exec _ _ [.doing .good, .complete 0, .doing .good,
    .complete 0, .doing .good, .complete 1, .doing .good, .complete 1, .doing .good] = _ from rfl)
    rfl

theorem fair_tailRun : Fair tailRun where
  honest
    | 0 | 2 | 4 | 6 | 8 => Answers.good_willing
    | 1 | 3 => by
      intro op hop
      cases hop
      rfl
    | 5 | 7 => by
      intro op hop
      cases hop
      exact ⟨by decide, by decide⟩
    | t + 9 => Answers.good_willing
  completes
    | 0 | 2 | 4 | 6 | 8 => fun h => absurd rfl h
    | 1 => fun _ => ⟨1, by decide, _, rfl⟩
    | 3 => fun _ => ⟨3, by decide, _, rfl⟩
    | 5 => fun _ => ⟨5, by decide, _, rfl⟩
    | 7 => fun _ => ⟨7, by decide, _, rfl⟩
    | t + 9 => fun h => absurd
      (congrArg Session.pending (Runs.Forever.idle_state _ _ (Nat.le_add_left 9 t))) h

theorem nfs_download_tailRun : ∃ T, ∀ t, T ≤ t → Delivered [2, 3] (tailRun.state t) :=
  (@nfs_download_iff [1, 2, 3] (.download (some [0x31, 0x2d])) .good _ (.startingAt 1) tailRun
    (by decide) ⟨rfl, rfl, by decide, by decide, rfl⟩ (by decide) rfl fair_tailRun).mpr
    ⟨.inl (by decide), nofun⟩

/-- The last byte of three: the client receives the first one. -/
theorem nfs_last_byte_wrong : ∃ s₀,
    rangeForm (EasyData.download (some [0x2d, 0x31])).activeRange = some (.last 1) ∧
      RangeForm.select [1, 2, 3] (.last 1) = [3] ∧
      nfsDo (.download (some [0x2d, 0x31])) .good = .ok s₀ ∧
      (Runs.exec (step .nfs [1, 2, 3]) s₀ [.doing .good, .complete 0, .doing .good, .complete 0,
        .doing .good, .complete 1, .doing .good]).map (fun s => (s.writes, s.result)) =
          some ([.body [1], .eos], some .ok) :=
  ⟨_, by decide, by decide, rfl, by decide⟩

end Gurl.Remote
