import Gurl.Lib.Runs
import Gurl.Range

/-! The requests of `lib/vnfs/nfs.c` and `lib/vsmb/smb3.c`: one state machine, driven by calls of
`nfs_doing` or `smb3_doing` and by the callbacks of libnfs or libsmb2. The two handlers differ where
the answer of `fstat` is used, and only there. -/

namespace Gurl.Remote

/-- The handler that runs the request. -/
inductive Proto where
  | nfs | smb3
  deriving DecidableEq

/-- `nfs_state` and `smb3_state`. -/
inductive ReqState where
  | init | opening | stat | transfer | stop
  deriving DecidableEq

/-- The asynchronous operations. -/
inductive Op where
  | openFile
  | fstat
  | pread (offset : Int) (len : Nat)
  | pwrite (offset : Int) (bytes : Bytes)

/-- The calls of `Curl_client_write`. -/
inductive ClientWrite where
  | body (bytes : Bytes)
  | eos
  deriving DecidableEq

/-- The fields of the easy handle that a request uses. -/
structure EasyData where
  upload : Bool
  noBody : Bool
  useRange : Bool
  range : Option Bytes
  resumeFrom : Int
  maxdownload : Int
  infilesize : Int

/-- `struct nfs_request` and `struct smb3_request`. Only the latter has `st`, the size that `fstat`
stores, and only whether `fh` is set matters. -/
structure Request where
  fh : Bool
  buf : Bytes
  bufsize : Nat
  offset : Int
  remaining : Int
  filesize : Int
  st : Nat
  state : ReqState
  upload : Bool
  eos : Bool
  opInflight : Bool
  opDone : Bool
  opStatus : Int

/-- A request with its surroundings: the operation that the library works on, what was asked of it
and of the client so far, the remote file of an upload, and the result, once there is one. -/
structure Session where
  data : EasyData
  req : Request
  pending : Option Op
  requests : List Op
  writes : List ClientWrite
  downloadSize : Option Int
  blocks : List Bytes
  /-- The bytes of each `pwrite` that has completed, with its status. -/
  acks : List (Bytes × Int)
  file : Bytes
  result : Option Curlcode

/-- What `nfs_do` and `smb3_do` meet: the connection's meta data, the allocations, and the block
size that the server announces. -/
structure DoAnswers where
  conn : Bool
  calloc : Bool
  malloc : Bool
  metaSet : Bool
  maxio : Nat

/-- What a call of `nfs_doing` or `smb3_doing` meets: the result of servicing the socket, whether
the library accepts an operation, the results of the client's writer, and the result of the client's
reader with its block and its end-of-stream flag. -/
structure Answers where
  service : Curlcode
  accepted : Bool
  write : Curlcode
  writeEos : Curlcode
  read : Curlcode
  block : Bytes
  eos : Bool

/-- Nothing fails. -/
def Answers.good : Answers where
  service := .ok
  accepted := true
  write := .ok
  writeEos := .ok
  read := .ok
  block := []
  eos := false

/-! ### Starting a request -/

/-- `NFS_MAX_BLOCK` and `SMB3_MAX_BLOCK`. -/
def maxBlock : Nat := 1024 * 1024

/-- The size of the staging buffer, from the size that the server announces. -/
def blockSize (maxio : Nat) : Nat := if maxio = 0 ∨ maxio > maxBlock then maxBlock else maxio

/-- Where a transfer starts, and how many bytes it has: a negative number means until the end. -/
def requestRange (data : EasyData) : Except Curlcode (EasyData × Int × Int) :=
  if data.upload then .ok (data, 0, data.infilesize)
  else
    match curlRange data.useRange data.range data.resumeFrom data.maxdownload with
    | .error res => .error res
    | .ok (resumeFrom, maxdownload) =>
      .ok ({ data with resumeFrom, maxdownload }, if resumeFrom > 0 then resumeFrom else 0,
        maxdownload)

/-- A new request. -/
def Session.start (data : EasyData) (bufsize : Nat) (offset remaining : Int) : Session where
  data := data
  req := {
    fh := false, buf := [], bufsize, offset, remaining, filesize := -1, st := 0, state := .init
    upload := data.upload, eos := false, opInflight := false, opDone := false, opStatus := 0 }
  pending := none
  requests := []
  writes := []
  downloadSize := none
  blocks := []
  acks := []
  file := []
  result := none

/-- `nfs_do` and `smb3_do`. -/
def requestDo (data : EasyData) (a : DoAnswers) : Except Curlcode Session :=
  if !a.conn then .error .failedInit
  else if !a.calloc then .error .outOfMemory
  else
    match requestRange data with
    | .error res => .error res
    | .ok (data, offset, remaining) =>
      if !a.malloc || !a.metaSet then .error .outOfMemory
      else .ok (Session.start data (blockSize a.maxio) offset remaining)

/-- A connection that announces its block size, and enough memory. -/
def DoAnswers.good : DoAnswers where
  conn := true
  calloc := true
  malloc := true
  metaSet := true
  maxio := 2

/-- A download of the range that the client has set, if any. -/
def EasyData.download (range : Option Bytes) : EasyData where
  upload := false
  noBody := false
  useRange := range.isSome
  range := range
  resumeFrom := 0
  maxdownload := -1
  infilesize := -1

abbrev nfsDo := requestDo
abbrev smb3Do := requestDo

/-! ### Calls of the driver -/

/-- Enter a state. -/
def Session.enter (s : Session) (state : ReqState) : Session :=
  { s with req := { s.req with state } }

/-- Leave the driver with an error. -/
def Session.fail (s : Session) (res : Curlcode) : Session := { s with result := some res }

/-- Queue an operation; `res` is the error where the library does not accept it. -/
def Session.queue (s : Session) (op : Op) (accepted : Bool) (res : Curlcode) : Session :=
  let s := { s with
    req := { s.req with opDone := false, opInflight := true }, requests := s.requests ++ [op] }
  if accepted then { s with pending := some op } else s.fail res

/-- `nfs_transfer_done` and `smb3_transfer_done`. -/
def transferDone (a : Answers) (s : Session) : Session :=
  if s.req.upload then { s with req := { s.req with state := .stop }, result := some .ok }
  else { s with
    req := { s.req with state := .stop }, writes := s.writes ++ [.eos], result := some a.writeEos }

/-- `nfs_read_next` and `smb3_read_next`. -/
def readNext (a : Answers) (s : Session) : Session :=
  let want :=
    if s.req.remaining ≥ 0 ∧ s.req.bufsize > s.req.remaining then s.req.remaining.toNat
    else s.req.bufsize
  s.queue (.pread s.req.offset want) a.accepted .recvError

/-- `nfs_write_next` and `smb3_write_next`, with the value of `stop`. -/
def writeNext (a : Answers) (s : Session) : Session × Bool :=
  if a.read ≠ .ok then (s.fail a.read, false)
  else
    let s := { s with
      req := { s.req with eos := a.eos, buf := a.block }, blocks := s.blocks ++ [a.block] }
    if a.block = [] then (s, a.eos)
    else (s.queue (.pwrite s.req.offset a.block) a.accepted .sendError, false)

/-- The upload in the state `TRANSFER`, when no operation is in flight. -/
def writeOrStop (a : Answers) (s : Session) : Session :=
  let (s, stop) := writeNext a s
  if stop then transferDone a s else s

/-- The state `TRANSFER` of an upload. -/
def uploadTransfer (a : Answers) (s : Session) : Session :=
  if s.req.opInflight then
    if !s.req.opDone then s
    else
      let s := { s with req := { s.req with opInflight := false } }
      if s.req.opStatus < 0 then s.fail .sendError
      else
        let s := { s with req := { s.req with offset := s.req.offset + s.req.opStatus } }
        if s.req.eos then transferDone a s else writeOrStop a s
  else writeOrStop a s

/-- Account for `n` bytes that the client has received. -/
def Session.advance (s : Session) (n : Int) : Session :=
  { s with req := { s.req with
      offset := s.req.offset + n
      remaining := if s.req.remaining > 0 then s.req.remaining - n else s.req.remaining } }

/-- Finish a download with nothing left, or ask for more. -/
def finishOrRead (a : Answers) (s : Session) : Session :=
  if s.req.remaining = 0 then transferDone a s else readNext a s

/-- The state `TRANSFER` of a download. -/
def downloadTransfer (a : Answers) (s : Session) : Session :=
  if !s.req.opDone then s
  else
    let s := { s with req := { s.req with opInflight := false } }
    let n := s.req.opStatus
    if n < 0 then s.fail .recvError
    else if n > 0 then
      let s := { s with writes := s.writes ++ [ClientWrite.body (s.req.buf.take n.toNat)] }
      if a.write ≠ .ok then s.fail a.write
      else
        finishOrRead a (s.advance n)
    else transferDone a s

/-- The number of bytes to transfer: without a bound, up to the end of the file. -/
def Session.bound (s : Session) : Int :=
  if s.req.remaining < 0 then
    if s.req.filesize > s.req.offset then s.req.filesize - s.req.offset else 0
  else s.req.remaining

/-- Set the number of bytes to transfer, and report it. -/
def Session.setBound (s : Session) (remaining : Int) : Session :=
  { s with req := { s.req with remaining }, downloadSize := some remaining }

/-- The end of the state `STAT`: bound the transfer and issue the first read. -/
def beginTransfer (a : Answers) (s : Session) : Session :=
  let remaining := s.bound
  let s := s.setBound remaining
  if remaining = 0 ∨ s.data.noBody then transferDone a s
  else readNext a (s.enter .transfer)

/-- A size of an unsigned 64-bit type as a `curl_off_t`. -/
def toOffT (size : Nat) : Int := Int.bmod size (2 ^ 64)

/-- The state `NFS_STAT`. -/
def nfsStat (a : Answers) (s : Session) : Session :=
  if !s.req.opDone then s
  else if s.req.opStatus < 0 then s.fail .recvError
  else beginTransfer a s

/-- In `SMB3_STAT`, take over the size of the file. -/
def Session.withSize (s : Session) (size : Int) : Session :=
  { s with req := { s.req with opInflight := false, filesize := size } }

/-- In `SMB3_STAT`, a negative resume offset counts back from the end of the file. -/
def Session.countBack (s : Session) : Session :=
  if s.data.resumeFrom < 0 then
    let resumeFrom := s.data.resumeFrom + s.req.filesize
    let resumeFrom := if resumeFrom < 0 then 0 else resumeFrom
    { s with data := { s.data with resumeFrom }, req := { s.req with offset := resumeFrom } }
  else s

/-- The state `SMB3_STAT`. -/
def smb3Stat (a : Answers) (s : Session) : Session :=
  if !s.req.opDone then s
  else if s.req.opStatus < 0 then s.fail .recvError
  else beginTransfer a (s.withSize (toOffT s.req.st)).countBack

def Proto.stat : Proto → Answers → Session → Session
  | .nfs => nfsStat
  | .smb3 => smb3Stat

/-- `nfs_doing` and `smb3_doing`. -/
def doing (proto : Proto) (a : Answers) (s : Session) : Session :=
  if a.service ≠ .ok then s.fail a.service
  else
    let transfer := fun s : Session =>
      if s.req.upload then uploadTransfer a s else downloadTransfer a s
    match s.req.state with
    | .init => (s.enter .opening).queue .openFile a.accepted .remoteFileNotFound
    | .opening =>
      if !s.req.opDone then s
      else if s.req.opStatus < 0 then s.fail .remoteFileNotFound
      else if s.req.upload then
        transfer { s with req := { s.req with opInflight := false, state := .transfer } }
      else (s.enter .stat).queue .fstat a.accepted .recvError
    | .stat => proto.stat a s
    | .transfer => transfer s
    | .stop => s

abbrev nfsDoing := doing .nfs
abbrev smb3Doing := doing .smb3

/-! ### Callbacks of the library -/

/-- Write `bytes` into a file at `offset`. -/
def pwriteAt (file : Bytes) (offset : Nat) (bytes : Bytes) : Bytes :=
  file.take offset ++ List.replicate (offset - file.length) 0 ++ bytes ++
    file.drop (offset + bytes.length)

/-- The operation `op` completes with `status`. `F` is the remote file of a download: a read returns
its bytes from the given offset on, and `fstat` its size. -/
def Session.completed (proto : Proto) (F : Bytes) (status : Int) (s : Session) : Op → Session
  | .openFile => { s with
      req := { s.req with opDone := true, opStatus := status, fh := s.req.fh || status = 0 }
      pending := none }
  | .fstat => { s with
      req := { s.req with
        opDone := true, opStatus := status
        filesize := if proto = .nfs ∧ status = 0 then toOffT F.length else s.req.filesize
        st := if proto = .smb3 ∧ status = 0 then F.length else s.req.st }
      pending := none }
  | .pread offset _ => { s with
      req := { s.req with
        opDone := true, opStatus := status, buf := (F.drop offset.toNat).take status.toNat }
      pending := none }
  | .pwrite offset bytes => { s with
      req := { s.req with opDone := true, opStatus := status }
      pending := none
      acks := s.acks ++ [(bytes, status)]
      file := pwriteAt s.file offset.toNat (bytes.take status.toNat) }

/-- The library calls back. -/
def complete (proto : Proto) (F : Bytes) (status : Int) (s : Session) : Option Session :=
  s.pending.map (s.completed proto F status)

/-! ### Runs -/

inductive Event where
  | complete (status : Int)
  | doing (a : Answers)

/-- One event. The driver is not called again once it has returned a result. -/
def step (proto : Proto) (F : Bytes) (s : Session) : Event → Option Session
  | .complete status => complete proto F status s
  | .doing a => if s.result = none then some (doing proto a s) else some s

theorem queue_data (s : Session) (op : Op) (accepted : Bool) (res : Curlcode) :
    (s.queue op accepted res).data = s.data := by
  unfold Session.queue
  split <;> rfl

theorem queue_req (s : Session) (op : Op) (accepted : Bool) (res : Curlcode) :
    (s.queue op accepted res).req = { s.req with opDone := false, opInflight := true } := by
  unfold Session.queue
  split <;> rfl

theorem queue_pending (s : Session) (op : Op) (accepted : Bool) (res : Curlcode) :
    (s.queue op accepted res).pending = if accepted then some op else s.pending := by
  unfold Session.queue
  split <;> rfl

theorem step_doing {proto : Proto} {F : Bytes} {s : Session} (a : Answers)
    (h : s.result = none) : step proto F s (.doing a) = some (doing proto a s) := if_pos h

theorem toOffT_of_le {size : Nat} (h : size ≤ curlOffTMax) : toOffT size = size := by
  unfold toOffT
  simp only [curlOffTMax] at h
  rw [Int.bmod_def]
  omega

theorem toOffT_neg {size : Nat} (h : curlOffTMax < size) (hlt : size < 2 ^ 64) :
    toOffT size < 0 := by
  unfold toOffT
  simp only [curlOffTMax] at h
  rw [Int.bmod_def]
  omega

/-! ### The driver in a download -/

theorem doing_of_service {proto : Proto} {a : Answers} (s : Session) (h : a.service ≠ .ok) :
    doing proto a s = s.fail a.service := if_pos h

theorem doing_init {proto : Proto} {a : Answers} {s : Session} (hservice : a.service = .ok)
    (hstate : s.req.state = .init) :
    doing proto a s = (s.enter .opening).queue .openFile a.accepted .remoteFileNotFound := by
  simp [doing, hservice, hstate]

theorem doing_opening {proto : Proto} {a : Answers} {s : Session} (hservice : a.service = .ok)
    (hstate : s.req.state = .opening) (hupload : s.req.upload = false) :
    doing proto a s =
      if !s.req.opDone then s
      else if s.req.opStatus < 0 then s.fail .remoteFileNotFound
      else (s.enter .stat).queue .fstat a.accepted .recvError := by
  simp [doing, hservice, hstate, hupload]

theorem doing_stat {proto : Proto} {a : Answers} {s : Session} (hservice : a.service = .ok)
    (hstate : s.req.state = .stat) : doing proto a s = proto.stat a s := by
  simp [doing, hservice, hstate]

theorem doing_transfer {proto : Proto} {a : Answers} {s : Session} (hservice : a.service = .ok)
    (hstate : s.req.state = .transfer) (hupload : s.req.upload = false) :
    doing proto a s = downloadTransfer a s := by
  simp [doing, hservice, hstate, hupload]

theorem doing_stop {proto : Proto} {a : Answers} {s : Session} (hservice : a.service = .ok)
    (hstate : s.req.state = .stop) : doing proto a s = s := by
  simp [doing, hservice, hstate]

theorem nfsStat_of_ok {a : Answers} {s : Session} (hdone : s.req.opDone = true)
    (hstatus : 0 ≤ s.req.opStatus) : nfsStat a s = beginTransfer a s := by
  unfold nfsStat
  rw [if_neg (by simp [hdone]), if_neg (by omega)]

theorem smb3Stat_of_ok {a : Answers} {s : Session} (hdone : s.req.opDone = true)
    (hstatus : 0 ≤ s.req.opStatus) :
    smb3Stat a s = beginTransfer a (s.withSize (toOffT s.req.st)).countBack := by
  unfold smb3Stat
  rw [if_neg (by simp [hdone]), if_neg (by omega)]

theorem requestDo_ok {data : EasyData} {d : DoAnswers} {s : Session}
    (h : requestDo data d = .ok s) : ∃ data' offset remaining,
      requestRange data = .ok (data', offset, remaining) ∧
        s = Session.start data' (blockSize d.maxio) offset remaining := by
  unfold requestDo at h
  split at h
  · cases h
  split at h
  · cases h
  split at h
  · cases h
  · rename_i data' offset remaining hrange
    split at h
    · cases h
    · cases h
      exact ⟨data', offset, remaining, hrange, rfl⟩

end Gurl.Remote
