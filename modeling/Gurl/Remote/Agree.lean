import Gurl.Remote.Session

/-! Downloads over NFS and over SMB3 next to each other: where the two handlers do the same. -/

namespace Gurl.Remote

variable {F : Bytes} {n m s s₀ : Session} {a : Answers}

/-- What can be seen of a download: the operations asked of the library, what the client received,
the size reported, the state and the result. -/
def Session.observe (s : Session) :
    List Op × List ClientWrite × Option Int × ReqState × Option Curlcode :=
  (s.requests, s.writes, s.downloadSize, s.req.state, s.result)

/-- A session without the fields in which the handlers may differ. -/
def Session.norm (s : Session) : Session :=
  { s with
    data := { s.data with resumeFrom := 0 }
    req := { s.req with opInflight := false, filesize := 0, st := 0 } }

/-! ### What the common part of the handlers reads -/

theorem queue_congr (op : Op) (accepted : Bool) (res : Curlcode) (h : n.norm = m.norm) :
    (n.queue op accepted res).norm = (m.queue op accepted res).norm := by
  have hnorm : ∀ s : Session, (s.norm.queue op accepted res).norm =
    (s.queue op accepted res).norm :=
    fun s => by cases accepted <;> rfl
  rw [← hnorm n, h, hnorm m]

theorem transferDone_congr (a : Answers) (h : n.norm = m.norm) :
    (transferDone a n).norm = (transferDone a m).norm := by
  have hnorm : ∀ s : Session, (transferDone a s.norm).norm = (transferDone a s).norm := fun s => by
    cases hu : s.req.upload <;> simp [transferDone, hu, Session.norm]
  rw [← hnorm n, h, hnorm m]

theorem readNext_congr (a : Answers) (h : n.norm = m.norm) :
    (readNext a n).norm = (readNext a m).norm := by
  have hreq : ∀ s : Session, readNext a s.norm = s.norm.queue
      (.pread s.req.offset (if s.req.remaining ≥ 0 ∧ s.req.bufsize > s.req.remaining then
        s.req.remaining.toNat else s.req.bufsize)) a.accepted .recvError := fun _ => rfl
  have hnorm : ∀ s : Session, (readNext a s.norm).norm = (readNext a s).norm := fun s =>
    (congrArg Session.norm (hreq s)).trans (queue_congr _ _ _ rfl)
  rw [← hnorm n, h, hnorm m]

theorem finishOrRead_congr (a : Answers) (h : n.norm = m.norm) :
    (finishOrRead a n).norm = (finishOrRead a m).norm := by
  have hrem : n.req.remaining = m.req.remaining := congrArg (fun s => s.req.remaining) h
  unfold finishOrRead
  rw [hrem]
  split
  · exact transferDone_congr a h
  · exact readNext_congr a h

theorem downloadTransfer_congr (a : Answers) (h : n.norm = m.norm) :
    (downloadTransfer a n).norm = (downloadTransfer a m).norm := by
  have hnorm : ∀ s : Session, (downloadTransfer a s.norm).norm = (downloadTransfer a s).norm := by
    intro s
    unfold downloadTransfer
    dsimp only
    rw [show s.norm.req.opDone = s.req.opDone from rfl,
      show s.norm.req.opStatus = s.req.opStatus from rfl]
    split
    · rfl
    split
    · rfl
    split
    · split
      · rfl
      · exact finishOrRead_congr a rfl
    · exact transferDone_congr a rfl
  rw [← hnorm n, h, hnorm m]

theorem beginTransfer_congr (a : Answers) (h : n.norm = m.norm) (hbound : n.bound = m.bound) :
    (beginTransfer a n).norm = (beginTransfer a m).norm := by
  have hbody : n.data.noBody = m.data.noBody := congrArg (fun s => s.data.noBody) h
  have hset : (n.setBound m.bound).norm = (m.setBound m.bound).norm :=
    congrArg (fun s => s.setBound m.bound) h
  unfold beginTransfer
  dsimp only
  rw [hbound, show (n.setBound m.bound).data.noBody = (m.setBound m.bound).data.noBody from hbody]
  split
  · exact transferDone_congr a hset
  · exact readNext_congr a (congrArg (fun s => s.enter .transfer) hset)

/-! ### Downloads -/

/-- A download: `fstat` is in progress in the state `STAT` and only there. -/
structure Download (s : Session) : Prop where
  upload : s.req.upload = false
  pending : ∀ op, s.pending = some op →
    s.req.opDone = false ∧ s.req.state ≠ .init ∧ (op = .fstat ↔ s.req.state = .stat)

/-- A download whose size is no longer needed. -/
structure Running (s : Session) : Prop extends Download s where
  late : s.req.state = .transfer ∨ s.req.state = .stop

theorem Download.pending_none (h : Download s) (hdone : s.req.opDone = true) :
    s.pending = none := by
  cases hp : s.pending with
  | none => rfl
  | some op => simp [(h.pending op hp).1] at hdone

theorem running_transferDone (hupload : s.req.upload = false) (hpending : s.pending = none) :
    Running (transferDone a s) := by
  unfold transferDone
  rw [if_neg (by simp [hupload])]
  exact ⟨⟨hupload, by simp [hpending]⟩, .inr rfl⟩

theorem running_readNext (hupload : s.req.upload = false) (hstate : s.req.state = .transfer)
    (hpending : s.pending = none) : Running (readNext a s) := by
  unfold readNext Session.queue
  dsimp only
  split
  · refine ⟨⟨hupload, ?_⟩, .inl hstate⟩
    intro op hop
    simp only [Option.some.injEq] at hop
    subst hop
    exact ⟨rfl, by simp [hstate], by simp [hstate]⟩
  · exact ⟨⟨hupload, by simp [Session.fail, hpending]⟩, .inl hstate⟩

theorem Download.running_downloadTransfer (h : Download s) (hstate : s.req.state = .transfer) :
    Running (downloadTransfer a s) := by
  have hrun : Running s := ⟨h, .inl hstate⟩
  unfold downloadTransfer
  dsimp only
  split
  · exact hrun
  rename_i hdone
  have hnone := h.pending_none (by simpa using hdone)
  split
  · exact ⟨⟨h.upload, by simp [Session.fail, hnone]⟩, .inl hstate⟩
  split
  · split
    · exact ⟨⟨h.upload, by simp [Session.fail, hnone]⟩, .inl hstate⟩
    · unfold finishOrRead
      split
      · exact running_transferDone h.upload hnone
      · exact running_readNext h.upload hstate hnone
  · exact running_transferDone h.upload hnone

theorem running_beginTransfer (hupload : s.req.upload = false) (hpending : s.pending = none) :
    Running (beginTransfer a s) := by
  unfold beginTransfer
  dsimp only
  split
  · exact running_transferDone hupload hpending
  · exact running_readNext hupload rfl hpending

/-! ### The simulation -/

/-- `fstat` has returned the size of the file. -/
def Session.sized (s : Session) : Bool :=
  s.req.state = .stat ∧ s.req.opDone = true ∧ s.req.opStatus = 0

/-- Two downloads that have not used the size of the file `F`. -/
structure Begun (F : Bytes) (s₀ n m : Session) : Prop where
  left : n.data = s₀.data
  right : m.data = s₀.data
  offset : n.req.offset = s₀.req.offset
  remaining : n.req.remaining = s₀.req.remaining
  filesize : n.req.filesize = if n.sized then toOffT F.length else -1
  st : m.req.st = if n.sized then F.length else 0

/-- An NFS download and an SMB3 download that have done the same. -/
structure Sim (F : Bytes) (s₀ n m : Session) : Prop extends Download n where
  norm : n.norm = m.norm
  begun : n.req.state = .init ∨ n.req.state = .opening ∨ n.req.state = .stat → Begun F s₀ n m

theorem Sim.fail (h : Sim F s₀ n m) (res : Curlcode) : Sim F s₀ (n.fail res) (m.fail res) where
  upload := h.upload
  pending := h.pending
  norm := congrArg (·.fail res) h.norm
  begun hs := ⟨(h.begun hs).left, (h.begun hs).right, (h.begun hs).offset, (h.begun hs).remaining,
    (h.begun hs).filesize, (h.begun hs).st⟩

theorem Running.sim (h : Running n) (hnorm : n.norm = m.norm) : Sim F s₀ n m where
  upload := h.upload
  pending := h.pending
  norm := hnorm
  begun hs := by
    rcases h.late with hl | hl <;> simp [hl] at hs

/-- Two downloads that have ended alike. -/
structure Ended (n m : Session) : Prop where
  observe : n.observe = m.observe
  left : n.result ≠ none ∧ n.pending = none
  right : m.result ≠ none ∧ m.pending = none

/-- A new download, after `Curl_range`. -/
structure Fresh (s₀ : Session) : Prop where
  upload : s₀.req.upload = false
  state : s₀.req.state = .init
  pending : s₀.pending = none
  result : s₀.result = none
  offset : s₀.req.offset = if s₀.data.resumeFrom > 0 then s₀.data.resumeFrom else 0
  filesize : s₀.req.filesize = -1
  st : s₀.req.st = 0
  remaining : s₀.data.resumeFrom < 0 → s₀.req.remaining ≠ 0

/-- The handlers do the same with the size of `F`: the offset does not count back from the end of
the file, or it counts back to the start, or the client wants no data. -/
def SameStart (F : Bytes) (s₀ : Session) : Prop :=
  0 ≤ s₀.data.resumeFrom ∨ toOffT F.length ≤ -s₀.data.resumeFrom ∨
    s₀.data.noBody = true ∧ 0 ≤ s₀.req.remaining

theorem Fresh.offset_nonneg (h₀ : Fresh s₀) : 0 ≤ s₀.req.offset := by
  rw [h₀.offset]
  split <;> omega

/-! ### The size of the file -/

/-- Where the SMB3 handler starts a download from a file of the given size. -/
def Session.startOf (s : Session) (size : Int) : Int :=
  if s.data.resumeFrom < 0 then
    if s.data.resumeFrom + size < 0 then 0 else s.data.resumeFrom + size
  else s.req.offset

theorem countBack_norm (s : Session) (size : Int) (h : s.startOf size = s.req.offset) :
    (s.withSize size).countBack.norm = s.norm := by
  unfold Session.countBack
  rw [show (s.withSize size).data = s.data from rfl]
  unfold Session.startOf at h
  split
  · rename_i hneg
    rw [if_pos hneg] at h
    dsimp only [Session.withSize, Session.norm]
    rw [h]
  · rfl

theorem countBack_offset (s : Session) (size : Int) :
    (s.withSize size).countBack.req.offset = s.startOf size := by
  unfold Session.countBack Session.startOf
  rw [show (s.withSize size).data = s.data from rfl]
  split <;> rfl

theorem countBack_bound (s : Session) (size : Int) :
    (s.withSize size).countBack.bound =
      if s.req.remaining < 0 then
        if size > s.startOf size then size - s.startOf size else 0
      else s.req.remaining := by
  unfold Session.countBack Session.startOf
  rw [show (s.withSize size).data = s.data from rfl]
  split <;> rfl

/-- What is not touched by the SMB3 handler when it takes over the size. -/
theorem countBack_frame (s : Session) (size : Int) :
    (s.withSize size).countBack.data.noBody = s.data.noBody ∧
      (s.withSize size).countBack.req.upload = s.req.upload ∧
      (s.withSize size).countBack.requests = s.requests ∧
      (s.withSize size).countBack.writes = s.writes ∧
      (s.withSize size).countBack.pending = s.pending := by
  unfold Session.countBack
  split <;> exact ⟨rfl, rfl, rfl, rfl, rfl⟩

theorem observe_beginTransfer_of_noBody (h : s.data.noBody = true)
    (hupload : s.req.upload = false) : (beginTransfer a s).observe =
      (s.requests, s.writes ++ [.eos], some s.bound, .stop, some a.writeEos) := by
  unfold beginTransfer
  dsimp only
  rw [if_pos (.inr h)]
  unfold transferDone
  rw [if_neg (by simpa [Session.setBound] using hupload)]
  rfl

theorem ended_beginTransfer_of_noBody (h : s.data.noBody = true) (hpending : s.pending = none) :
    (beginTransfer a s).result ≠ none ∧ (beginTransfer a s).pending = none := by
  unfold beginTransfer
  dsimp only
  rw [if_pos (.inr h)]
  unfold transferDone
  split <;> exact ⟨by simp, hpending⟩

/-- Without a bound of its own, the transfer ends where the file ends. -/
theorem Begun.bound_eq (h : Begun F s₀ n m) (h₀ : Fresh s₀) (hnorm : n.norm = m.norm) :
    n.bound =
      if m.req.remaining < 0 then
        if toOffT m.req.st > m.req.offset then toOffT m.req.st - m.req.offset else 0
      else m.req.remaining := by
  have hoffset : n.req.offset = m.req.offset := congrArg (fun s => s.req.offset) hnorm
  have hremaining : n.req.remaining = m.req.remaining := congrArg (fun s => s.req.remaining) hnorm
  have hnonneg : 0 ≤ n.req.offset := h.offset ▸ h₀.offset_nonneg
  unfold Session.bound
  rw [← hoffset, ← hremaining, h.filesize, h.st]
  split
  · cases n.sized with
    | true => simp only [if_true]
    | false =>
      -- the size is unknown: -1 over NFS, 0 over SMB3
      have hzero : toOffT 0 = 0 := rfl
      simp only [Bool.false_eq_true, if_false, hzero]
      rw [if_neg (by omega), if_neg (by omega)]
  · rfl

theorem Begun.startOf_eq (h : Begun F s₀ n m) (h₀ : Fresh s₀) (hnorm : n.norm = m.norm)
    (hsame : 0 ≤ s₀.data.resumeFrom ∨ toOffT F.length ≤ -s₀.data.resumeFrom) :
    m.startOf (toOffT m.req.st) = m.req.offset := by
  have hoffset : n.req.offset = m.req.offset := congrArg (fun s => s.req.offset) hnorm
  unfold Session.startOf
  rw [h.right, ← hoffset, h.offset, h₀.offset, h.st]
  have hback : s₀.data.resumeFrom < 0 →
      s₀.data.resumeFrom + toOffT (if n.sized then F.length else 0) ≤ 0 := by
    have hzero : toOffT 0 = 0 := rfl
    intro hneg
    split <;> omega
  generalize toOffT (if n.sized then F.length else 0) = size at hback
  split_ifs <;> omega

theorem Sim.stat (h : Sim F s₀ n m) (h₀ : Fresh s₀) (hsame : SameStart F s₀)
    (hstate : n.req.state = .stat) :
    Sim F s₀ (nfsStat a n) (smb3Stat a m) ∨ Ended (nfsStat a n) (smb3Stat a m) := by
  have hbegun := h.begun (.inr (.inr hstate))
  have hdone : n.req.opDone = m.req.opDone := congrArg (fun s => s.req.opDone) h.norm
  have hstatus : n.req.opStatus = m.req.opStatus := congrArg (fun s => s.req.opStatus) h.norm
  unfold nfsStat smb3Stat
  rw [← hdone, ← hstatus]
  split
  · exact .inl h
  rename_i hd
  have hnone := h.pending_none (by simpa using hd)
  split
  · exact .inl (h.fail _)
  generalize hsize : toOffT m.req.st = size
  have hbound := hsize ▸ hbegun.bound_eq h₀ h.norm
  have hstart : (0 ≤ s₀.data.resumeFrom ∨ toOffT F.length ≤ -s₀.data.resumeFrom) →
      Sim F s₀ (beginTransfer a n) (beginTransfer a (m.withSize size).countBack) := by
    intro hor
    have hoffset := hsize ▸ hbegun.startOf_eq h₀ h.norm hor
    refine (running_beginTransfer h.upload hnone).sim
      (beginTransfer_congr a (h.norm.trans (countBack_norm m size hoffset).symm) ?_)
    rw [hbound, countBack_bound, hoffset]
  rcases hsame with hpos | hall | ⟨hbody, hrem⟩
  · exact .inl (hstart (.inl hpos))
  · exact .inl (hstart (.inr hall))
  · -- no data is read, and the size reported is the one of the range
    have hremaining : n.req.remaining = m.req.remaining :=
      congrArg (fun s => s.req.remaining) h.norm
    have hn : n.data.noBody = true := hbegun.left ▸ hbody
    have hm : m.data.noBody = true := hbegun.right ▸ hbody
    obtain ⟨hfbody, hfupload, hfrequests, hfwrites, hfpending⟩ := countBack_frame m size
    rw [← hbegun.remaining] at hrem
    have hupload : m.req.upload = false :=
      (congrArg (fun s => s.req.upload) h.norm).symm.trans h.upload
    have hmnone : m.pending = none := (congrArg (fun s => s.pending) h.norm).symm.trans hnone
    refine .inr ⟨?_, ended_beginTransfer_of_noBody hn hnone,
      ended_beginTransfer_of_noBody (hfbody.trans hm) (hfpending.trans hmnone)⟩
    rw [observe_beginTransfer_of_noBody hn h.upload,
      observe_beginTransfer_of_noBody (hfbody.trans hm) (hfupload.trans hupload), hfrequests,
      hfwrites, countBack_bound, ← hremaining, if_neg (Int.not_lt.mpr hrem),
      show n.bound = n.req.remaining from if_neg (Int.not_lt.mpr hrem),
      show n.requests = m.requests from congrArg (fun s => s.requests) h.norm,
      show n.writes = m.writes from congrArg (fun s => s.writes) h.norm]

/-! ### Steps -/

theorem Sim.ask (h : Sim F s₀ n m) (hearly : n.req.state = .init ∨ n.req.state = .opening)
    (hnone : n.pending = none) {state : ReqState} {op : Op}
    (hop : state = .opening ∧ op = .openFile ∨ state = .stat ∧ op = .fstat) (accepted : Bool)
    (res : Curlcode) :
    Sim F s₀ ((n.enter state).queue op accepted res) ((m.enter state).queue op accepted res) := by
  have hbegun := h.begun (hearly.imp_right .inl)
  have hunsized : n.sized = false := by
    rcases hearly with hs | hs <;> simp [Session.sized, hs]
  refine ⟨⟨?_, ?_⟩, ?_, ?_⟩
  · rw [queue_req]
    exact h.upload
  · intro op' hop'
    rw [queue_pending] at hop'
    rw [queue_req]
    cases accepted with
    | true =>
      obtain rfl : op = op' := by simpa using hop'
      rcases hop with ⟨rfl, rfl⟩ | ⟨rfl, rfl⟩ <;> simp [Session.enter]
    | false => simp [Session.enter, hnone] at hop'
  · exact queue_congr op accepted res
      (congrArg (fun s : Session => s.enter state) h.norm)
  · intro _
    have hunsized' : ((n.enter state).queue op accepted res).sized = false := by
      simp [Session.sized, queue_req]
    refine ⟨?_, ?_, ?_, ?_, ?_, ?_⟩
    · exact (queue_data ..).trans hbegun.left
    · exact (queue_data ..).trans hbegun.right
    · rw [queue_req]
      exact hbegun.offset
    · rw [queue_req]
      exact hbegun.remaining
    · rw [hunsized', queue_req]
      exact hbegun.filesize.trans (by rw [hunsized])
    · rw [hunsized', queue_req]
      exact hbegun.st.trans (by rw [hunsized])

theorem Sim.doing (h : Sim F s₀ n m) (h₀ : Fresh s₀) (hsame : SameStart F s₀) :
    Sim F s₀ (doing .nfs a n) (doing .smb3 a m) ∨ Ended (doing .nfs a n) (doing .smb3 a m) := by
  have hstate : n.req.state = m.req.state := congrArg (fun s => s.req.state) h.norm
  have hdone : n.req.opDone = m.req.opDone := congrArg (fun s => s.req.opDone) h.norm
  have hstatus : n.req.opStatus = m.req.opStatus := congrArg (fun s => s.req.opStatus) h.norm
  have hupload : m.req.upload = false :=
    (congrArg (fun s => s.req.upload) h.norm).symm.trans h.upload
  by_cases hservice : a.service = .ok
  swap
  · rw [doing_of_service n hservice, doing_of_service m hservice]
    exact .inl (h.fail _)
  cases hs : n.req.state with
  | init =>
    have hnone : n.pending = none := by
      cases hp : n.pending with
      | none => rfl
      | some op => exact absurd hs (h.pending op hp).2.1
    rw [doing_init hservice hs, doing_init hservice (hstate ▸ hs)]
    exact .inl (h.ask (.inl hs) hnone (.inl ⟨rfl, rfl⟩) _ _)
  | opening =>
    rw [doing_opening hservice hs h.upload, doing_opening hservice (hstate ▸ hs) hupload, ← hdone,
      ← hstatus]
    split
    · exact .inl h
    rename_i hd
    have hnone := h.pending_none (by simpa using hd)
    split
    · exact .inl (h.fail _)
    · exact .inl (h.ask (.inr hs) hnone (.inr ⟨rfl, rfl⟩) _ _)
  | stat =>
    rw [doing_stat hservice hs, doing_stat hservice (hstate ▸ hs)]
    exact h.stat h₀ hsame hs
  | transfer =>
    rw [doing_transfer hservice hs h.upload, doing_transfer hservice (hstate ▸ hs) hupload]
    exact .inl ((h.running_downloadTransfer hs).sim (downloadTransfer_congr a h.norm))
  | stop =>
    rw [doing_stop hservice hs, doing_stop hservice (hstate ▸ hs)]
    exact .inl h

theorem completed_norm (status : Int) (op : Op) (h : n.norm = m.norm) :
    (n.completed .nfs F status op).norm = (m.completed .smb3 F status op).norm := by
  have hset : ∀ f : Session → Session, f n.norm = f m.norm := fun f => congrArg f h
  cases op with
  | openFile => exact hset (fun s => s.completed .nfs F status .openFile)
  | pread offset len => exact hset (fun s => s.completed .nfs F status (.pread offset len))
  | pwrite offset bytes => exact hset (fun s => s.completed .nfs F status (.pwrite offset bytes))
  | fstat =>
    exact hset (fun s => { s with
      req := { s.req with opDone := true, opStatus := status }, pending := none })

theorem Sim.completed (h : Sim F s₀ n m) {op : Op} (hop : n.pending = some op) (status : Int) :
    Sim F s₀ (n.completed .nfs F status op) (m.completed .smb3 F status op) := by
  obtain ⟨hdone, hinit, hstat⟩ := h.pending op hop
  have hunsized : n.sized = false := by simp [Session.sized, hdone]
  have hframe : ∀ (proto : Proto) (s : Session),
      (s.completed proto F status op).pending = none ∧
        (s.completed proto F status op).req.state = s.req.state ∧
        (s.completed proto F status op).req.upload = s.req.upload ∧
        (s.completed proto F status op).req.offset = s.req.offset ∧
        (s.completed proto F status op).req.remaining = s.req.remaining ∧
        (s.completed proto F status op).data = s.data := by
    intro proto s
    cases op <;> exact ⟨rfl, rfl, rfl, rfl, rfl, rfl⟩
  obtain ⟨hpending, hstate, hupload, hoffset, hremaining, hdata⟩ := hframe .nfs n
  refine ⟨⟨hupload.trans h.upload, by simp [hpending]⟩, completed_norm status op h.norm, ?_⟩
  intro hs
  rw [hstate] at hs
  have hbegun := h.begun hs
  have hfilesize : n.req.filesize = -1 := hbegun.filesize.trans (by simp [hunsized])
  have hst : m.req.st = 0 := hbegun.st.trans (by simp [hunsized])
  have hsize : ∀ b : Bool, (n.completed .nfs F status op).sized = b →
      (n.completed .nfs F status op).req.filesize = (if b then toOffT F.length else -1) ∧
        (m.completed .smb3 F status op).req.st = if b then F.length else 0 := by
    intro b hb
    unfold Session.sized at hb
    rw [hstate] at hb
    cases op with
    | fstat =>
      -- only a status of 0 fills in the size
      rw [hstat.mp rfl] at hb
      subst hb
      by_cases hz : status = 0 <;> simp [Session.completed, hz, hfilesize, hst]
    | openFile | pread _ _ | pwrite _ _ =>
      have hne : n.req.state ≠ .stat := fun he => nomatch hstat.mpr he
      simp only [hne, false_and, decide_false] at hb
      subst hb
      exact ⟨hfilesize, hst⟩
  exact ⟨hdata.trans hbegun.left, (hframe .smb3 m).2.2.2.2.2.trans hbegun.right,
    hoffset.trans hbegun.offset, hremaining.trans hbegun.remaining, (hsize _ rfl).1,
    (hsize _ rfl).2⟩

theorem Sim.step (h : Sim F s₀ n m) (h₀ : Fresh s₀) (hsame : SameStart F s₀) (e : Event) :
    Option.Rel (fun n m => Sim F s₀ n m ∨ Ended n m) (step .nfs F n e) (step .smb3 F m e) := by
  cases e with
  | complete status =>
    have hpending : n.pending = m.pending := congrArg (fun s => s.pending) h.norm
    dsimp only [Remote.step, complete]
    rw [← hpending]
    cases hop : n.pending with
    | none => exact .none
    | some op => exact .some (.inl (h.completed hop status))
  | doing a =>
    have hresult : n.result = m.result := congrArg (fun s => s.result) h.norm
    dsimp only [Remote.step]
    rw [← hresult]
    split
    · exact .some (h.doing h₀ hsame)
    · exact .some (.inl h)

theorem Ended.step (h : Ended n m) (e : Event) :
    Option.Rel (fun n m => Sim F s₀ n m ∨ Ended n m) (step .nfs F n e) (step .smb3 F m e) := by
  cases e with
  | complete status =>
    dsimp only [Remote.step, complete]
    rw [h.left.2, h.right.2]
    exact .none
  | doing a =>
    dsimp only [Remote.step]
    rw [if_neg h.left.1, if_neg h.right.1]
    exact .some (.inr h)

theorem Fresh.sim (h₀ : Fresh s₀) : Sim F s₀ s₀ s₀ where
  upload := h₀.upload
  pending := by simp [h₀.pending]
  norm := rfl
  begun _ := by
    have hunsized : s₀.sized = false := by simp [Session.sized, h₀.state]
    exact ⟨rfl, rfl, rfl, rfl, h₀.filesize.trans (by simp [hunsized]),
      h₀.st.trans (by simp [hunsized])⟩

theorem curlRange_neg {useRange : Bool} {range : Option Bytes} {rf md rf' md' : Int}
    (h : curlRange useRange range rf md = .ok (rf', md')) (hneg : rf' < 0) : md' ≠ 0 := by
  unfold curlRange at h
  split at h
  · dsimp only at h
    split at h
    · cases h
    split at h
    · cases h
      omega
    split_ifs at h with hfirst hzero <;> cases h <;> omega
  · cases h
    decide

/-- What `nfs_do` and `smb3_do` leave of a download. -/
theorem fresh_of_requestDo {data : EasyData} {d : DoAnswers} (hupload : data.upload = false)
    (h : requestDo data d = .ok s₀) : Fresh s₀ := by
  obtain ⟨data', offset, remaining, hrange, rfl⟩ := requestDo_ok h
  unfold requestRange at hrange
  rw [if_neg (by simp [hupload])] at hrange
  split at hrange
  · cases hrange
  · rename_i rf md hcurl
    cases hrange
    exact ⟨hupload, rfl, rfl, rfl, rfl, rfl, rfl, curlRange_neg hcurl⟩

/-! ### The same events, seen from outside -/

/-- The shortest way to the first use of the size. -/
def untilSized : List Event :=
  [.doing .good, .complete 0, .doing .good, .complete 0, .doing .good]

/-- The session before the last of these events. -/
def Session.opened (s : Session) (proto : Proto) (F : Bytes) : Session :=
  ((((s.enter .opening).queue .openFile true .remoteFileNotFound).completed proto F 0
    .openFile).enter .stat).queue .fstat true .recvError

theorem exec_untilSized (proto : Proto) (h₀ : Fresh s₀) :
    Runs.exec (step proto F) s₀ untilSized =
      some (proto.stat .good ((s₀.opened proto F).completed proto F 0 .fstat)) := by
  have h1 : step proto F s₀ (.doing .good) =
      some ((s₀.enter .opening).queue .openFile true .remoteFileNotFound) := by
    rw [step_doing _ h₀.result, doing_init rfl h₀.state]
    rfl
  set s1 := (s₀.enter .opening).queue .openFile true .remoteFileNotFound
  have h2 : step proto F s1 (.complete 0) = some (s1.completed proto F 0 .openFile) := rfl
  have h3 : step proto F (s1.completed proto F 0 .openFile) (.doing .good) =
      some (s₀.opened proto F) := by
    rw [step_doing _ (show (s1.completed proto F 0 .openFile).result = none from h₀.result),
      doing_opening (s := s1.completed proto F 0 .openFile) rfl rfl h₀.upload]
    rfl
  have h4 : step proto F (s₀.opened proto F) (.complete 0) =
      some ((s₀.opened proto F).completed proto F 0 .fstat) := rfl
  have h5 : step proto F ((s₀.opened proto F).completed proto F 0 .fstat) (.doing .good) =
      some (proto.stat .good ((s₀.opened proto F).completed proto F 0 .fstat)) := by
    rw [step_doing _ (show ((s₀.opened proto F).completed proto F 0 .fstat).result = none from
      h₀.result), doing_stat rfl rfl]
  simp only [untilSized, Runs.exec, h1, h2, h3, h4, h5, Option.bind_some]

theorem downloadSize_beginTransfer (a : Answers) (s : Session) :
    (beginTransfer a s).downloadSize = some s.bound := by
  unfold beginTransfer transferDone readNext Session.queue
  dsimp only
  split_ifs <;> rfl

theorem requests_beginTransfer (a : Answers) (hbody : s.data.noBody = false)
    (hbound : s.bound ≠ 0) :
    ∃ want, (beginTransfer a s).requests = s.requests ++ [.pread s.req.offset want] := by
  unfold beginTransfer readNext Session.queue
  dsimp only
  rw [if_neg (by simp [Session.setBound, hbody, hbound])]
  exact ⟨_, by split <;> rfl⟩

/-- A download from `s₀` that is about to use the size of the file. -/
structure AtSize (s₀ s : Session) : Prop where
  data : s.data = s₀.data
  offset : s.req.offset = s₀.req.offset
  remaining : s.req.remaining = s₀.req.remaining
  requests : s.requests = s₀.requests ++ [.openFile] ++ [.fstat]
  done : s.req.opDone = true
  status : s.req.opStatus = 0

theorem atSize_opened (proto : Proto) (s₀ : Session) :
    AtSize s₀ ((s₀.opened proto F).completed proto F 0 .fstat) :=
  ⟨rfl, rfl, rfl, rfl, rfl, rfl⟩

/-- Where the SMB3 handler counts back to a place after the start, the transfers differ. -/
theorem AtSize.observe_ne (hn : AtSize s₀ n) (hm : AtSize s₀ m) (h₀ : Fresh s₀)
    (hneg : s₀.data.resumeFrom < 0) (hsize : -s₀.data.resumeFrom < n.req.filesize)
    (hbody : s₀.data.noBody = true → s₀.req.remaining < 0) :
    (beginTransfer a n).observe ≠
      (beginTransfer a (m.withSize n.req.filesize).countBack).observe := by
  intro heq
  have hoffset : n.req.offset = 0 := hn.offset.trans (h₀.offset.trans (if_neg (by omega)))
  have hstart : m.startOf n.req.filesize = s₀.data.resumeFrom + n.req.filesize := by
    unfold Session.startOf
    rw [hm.data, if_pos hneg, if_neg (by omega)]
  have hmbound := countBack_bound m n.req.filesize
  rw [hm.remaining, hstart] at hmbound
  by_cases hrem : s₀.req.remaining < 0
  · -- the sizes reported differ
    have hreport := congrArg (fun o => o.2.2.1) heq
    dsimp only [Session.observe] at hreport
    rw [downloadSize_beginTransfer, downloadSize_beginTransfer] at hreport
    have hbound := Option.some.inj hreport
    rw [hmbound, Session.bound, hn.remaining, hoffset, if_pos hrem, if_pos (by omega),
      if_pos hrem, if_pos (by omega)] at hbound
    omega
  · -- the first reads differ
    have hwanted : s₀.data.noBody = false := by
      by_contra hb
      exact hrem (hbody (by simpa using hb))
    have hremaining := h₀.remaining hneg
    have hnbound : n.bound = s₀.req.remaining := by
      rw [Session.bound, hn.remaining, if_neg hrem]
    rw [if_neg hrem] at hmbound
    obtain ⟨hfbody, -, hfrequests, -⟩ := countBack_frame m n.req.filesize
    obtain ⟨want, hw⟩ := requests_beginTransfer a (hn.data ▸ hwanted) (hnbound ▸ hremaining)
    obtain ⟨want', hw'⟩ := requests_beginTransfer a (hfbody.trans (hm.data ▸ hwanted))
      (hmbound ▸ hremaining)
    have hrequests := congrArg (fun o => o.1) heq
    dsimp only [Session.observe] at hrequests
    rw [hw, hw', hfrequests, countBack_offset, hstart, hoffset, hn.requests, hm.requests]
      at hrequests
    have hread := List.head_eq_of_cons_eq (List.append_cancel_left hrequests)
    have hpos := (Op.pread.inj hread).1
    omega

/-- Where the handlers do not do the same, they can be told apart. -/
theorem observe_ne (h₀ : Fresh s₀) (hdiff : ¬SameStart F s₀) :
    (Runs.exec (step .nfs F) s₀ untilSized).map Session.observe ≠
      (Runs.exec (step .smb3 F) s₀ untilSized).map Session.observe := by
  unfold SameStart at hdiff
  push Not at hdiff
  obtain ⟨hneg, hsize, hbody⟩ := hdiff
  have hn := atSize_opened (F := F) .nfs s₀
  have hm := atSize_opened (F := F) .smb3 s₀
  have hfilesize : ((s₀.opened .nfs F).completed .nfs F 0 .fstat).req.filesize =
    toOffT F.length := by
    simp [Session.completed]
  have hst : ((s₀.opened .smb3 F).completed .smb3 F 0 .fstat).req.st = F.length := by
    simp [Session.completed]
  rw [exec_untilSized .nfs h₀, exec_untilSized .smb3 h₀, Option.map_some, Option.map_some]
  dsimp only [Proto.stat]
  generalize (s₀.opened .nfs F).completed .nfs F 0 .fstat = n at *
  generalize (s₀.opened .smb3 F).completed .smb3 F 0 .fstat = m at *
  rw [nfsStat_of_ok hn.done hn.status.ge, smb3Stat_of_ok hm.done hm.status.ge, hst, ← hfilesize]
  exact fun heq => hn.observe_ne hm h₀ hneg (hfilesize ▸ hsize) hbody (Option.some.inj heq)

/-- The handlers do the same in every run exactly when they do the same with the size of the
file. -/
theorem handlers_agree_iff {data : EasyData} {d : DoAnswers} {s₀ : Session}
    (hupload : data.upload = false) (h : requestDo data d = .ok s₀) :
    (∀ events : List Event,
      (Runs.exec (step .nfs F) s₀ events).map Session.observe =
        (Runs.exec (step .smb3 F) s₀ events).map Session.observe) ↔ SameStart F s₀ := by
  have h₀ := fresh_of_requestDo hupload h
  constructor
  · intro hall
    by_contra hdiff
    exact observe_ne h₀ hdiff (hall untilSized)
  · intro hsame events
    refine Runs.exec_agree (R := fun n m => Sim F s₀ n m ∨ Ended n m) ?_ ?_ (.inl h₀.sim) events
    · rintro n m (hsim | hended)
      · exact congrArg (fun s => s.observe) hsim.norm
      · exact hended.observe
    · rintro n m e (hsim | hended)
      · exact hsim.step h₀ hsame e
      · exact hended.step e

/-- A range that does not count back, on a file of three bytes. -/
theorem handlers_agree_from_one : ∃ s₀,
    requestDo (.download (some [0x31, 0x2d])) .good = .ok s₀ ∧
      ∀ events : List Event,
        (Runs.exec (step .nfs [1, 2, 3]) s₀ events).map Session.observe =
          (Runs.exec (step .smb3 [1, 2, 3]) s₀ events).map Session.observe :=
  ⟨_, rfl, (@handlers_agree_iff _ (.download (some [0x31, 0x2d])) .good _ rfl rfl).mpr
    (.inl (by decide))⟩

/-- The last byte of three: the client of the NFS handler receives the first one. -/
theorem handlers_differ_last_byte : ∃ s₀,
    requestDo (.download (some [0x2d, 0x31])) .good = .ok s₀ ∧
      (Runs.exec (step .nfs [1, 2, 3]) s₀ (untilSized ++ [.complete 1, .doing .good])).map
          Session.writes = some [.body [1], .eos] ∧
        (Runs.exec (step .smb3 [1, 2, 3]) s₀ (untilSized ++ [.complete 1, .doing .good])).map
          Session.writes = some [.body [3], .eos] :=
  ⟨_, rfl, by decide, by decide⟩

end Gurl.Remote
