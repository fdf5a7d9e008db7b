import Gurl.Buffer.Bufq

/-! `lib/sendf.c`: the writer of the phase `CURL_CW_PROTOCOL`, which counts the bytes of the body
and stops at the two limits on them. -/

namespace Gurl.Sendf

/-- The bits of `CLIENTWRITE_*`. -/
structure Clientwrite where
  body : Bool
  info : Bool
  header : Bool
  status : Bool
  connect : Bool
  onexx : Bool
  trailer : Bool
  eos : Bool
  zeroLen : Bool
  deriving DecidableEq

/-- `CLIENTWRITE_BODY`, with `CLIENTWRITE_EOS` or without. -/
def Clientwrite.ofBody (eos : Bool) : Clientwrite :=
  { body := true, info := false, header := false, status := false, connect := false
    onexx := false, trailer := false, eos, zeroLen := false }

/-- What `cw_download_write` reads of the transfer. -/
structure Setup where
  /-- `data->req.maxdownload`, which is -1 for no limit -/
  maxdownload : Option Nat
  /-- `data->set.max_filesize`, 0 for no limit -/
  maxFilesize : Nat
  /-- `data->req.size`, -1 when it is not known -/
  size : Int
  /-- `data->req.no_body` -/
  noBody : Bool
  /-- `data->req.ignorebody` -/
  ignorebody : Bool
  /-- `data->set.suppress_connect_headers` -/
  suppressConnectHeaders : Bool
  /-- `data->info.header_size` -/
  headerSize : Nat

/-- The next writer: what it returns for a write. -/
abbrev Next := Clientwrite → Bytes → Curlcode

/-- The state of the request, and what has been passed to the next writer. -/
structure State where
  /-- `data->req.bytecount` -/
  bytecount : Nat
  /-- `data->req.download_done` -/
  downloadDone : Bool
  passed : List (Clientwrite × Bytes)

def State.start : State := { bytecount := 0, downloadDone := false, passed := [] }

/-- The write is passed on. -/
def State.pass (s : State) (type : Clientwrite) (buf : Bytes) : State :=
  { s with passed := s.passed ++ [(type, buf)] }

/-- `nwrite` bytes are counted. -/
def State.count (s : State) (nwrite : Nat) : State := { s with bytecount := s.bytecount + nwrite }

def State.done (s : State) (downloadDone : Bool) : State := { s with downloadDone }

/-- `get_max_body_write_len`. -/
def getMaxBodyWriteLen (s : State) : Option Nat → Nat
  | some limit => limit - s.bytecount
  | none => Buffer.sizeMax

/-- What `cw_download_write` returns in the end, after `nwrite` of `nbytes` bytes were passed on. -/
def verdict (setup : Setup) (nbytes nwrite excessLen : Nat) : Curlcode :=
  if excessLen ≠ 0 then .ok
  else if nwrite < nbytes ∧ setup.ignorebody = false then .filesizeExceeded
  else .ok

/-- The second half of `cw_download_write`, for the `nwrite` bytes that `maxdownload` allows. -/
def writeAllowed (setup : Setup) (next : Next) (s : State) (type : Clientwrite) (buf : Bytes)
    (nwrite excessLen : Nat) : State × Curlcode :=
  let nwrite := if setup.maxFilesize ≠ 0 ∧ setup.ignorebody = false then
    min nwrite (getMaxBodyWriteLen s (some setup.maxFilesize)) else nwrite
  if setup.ignorebody = false ∧ (nwrite ≠ 0 ∨ type.eos) then
    match next type (buf.take nwrite) with
    | .ok => ((s.pass type (buf.take nwrite)).count nwrite,
        verdict setup buf.length nwrite excessLen)
    | result => (s.pass type (buf.take nwrite), result)
  else (s.count nwrite, verdict setup buf.length nwrite excessLen)

/-- `cw_download_write`, without the timers that it starts. -/
def cwDownloadWrite (setup : Setup) (next : Next) (s : State) (type : Clientwrite)
    (buf : Bytes) : State × Curlcode :=
  if type.body = false then
    if type.connect ∧ setup.suppressConnectHeaders then (s, .ok)
    else (s.pass type buf, next type buf)
  else if setup.noBody ∧ buf ≠ [] then
    (s.done true, if setup.headerSize ≠ 0 then .ok else .weirdServerReply)
  else
    match setup.maxdownload with
    | none => writeAllowed setup next s type buf buf.length 0
    | some maxdownload =>
      let wmax := getMaxBodyWriteLen s (some maxdownload)
      let nwrite := min buf.length wmax
      let s := s.done (s.downloadDone || nwrite == wmax)
      if type.eos ∧ setup.noBody = false ∧ setup.size > s.bytecount then (s, .partialFile)
      else writeAllowed setup next s type buf nwrite (buf.length - wmax)

/-- Writes in a row, up to the first error or until the download is done. -/
def writeAll (setup : Setup) (next : Next) :
    State → List (Clientwrite × Bytes) → State × Curlcode
  | s, [] => (s, .ok)
  | s, (type, buf) :: calls =>
    match cwDownloadWrite setup next s type buf with
    | (s, .ok) => if s.downloadDone then (s, .ok) else writeAll setup next s calls
    | failure => failure

/-! ### Bodies in pieces -/

/-- A body in pieces, the last of which may come with `CLIENTWRITE_EOS`. -/
structure Split where
  pieces : List Bytes
  last : Option Bytes

def Split.all (split : Split) : List Bytes := split.pieces ++ split.last.toList

def Split.body (split : Split) : Bytes := split.all.flatten

def Split.calls (split : Split) : List (Clientwrite × Bytes) :=
  split.pieces.map (Clientwrite.ofBody false, ·) ++
    split.last.toList.map (Clientwrite.ofBody true, ·)

/-- The bytes of the writes that were passed on. -/
def State.bytes (s : State) : Bytes := s.passed.flatMap Prod.snd

/-- `n`, up to the limit if there is one. -/
def capped : Option Nat → Nat → Nat
  | none, n => n
  | some limit, n => min n limit

def Setup.filesizeLimit (setup : Setup) : Option Nat :=
  if setup.maxFilesize = 0 then none else some setup.maxFilesize

/-- The next writer has got the bytes of the body below both limits, and the size of the file was
exceeded when the bytes below `maxdownload` are too many. -/
def LimitedBody (setup : Setup) (body : Bytes) (out : State × Curlcode) : Prop :=
  let wanted := capped setup.maxdownload body.length
  out.1.bytes = body.take (capped setup.filesizeLimit wanted) ∧
  (out.2 = .filesizeExceeded ↔ ∃ limit, setup.filesizeLimit = some limit ∧ limit < wanted)

/-- The same of what follows the bytes that are counted already. -/
def Limited (setup : Setup) (s : State) (body : Bytes) (out : State × Curlcode) : Prop :=
  let wanted := capped setup.maxdownload (s.bytecount + body.length)
  out.1.bytes = s.bytes ++ body.take (capped setup.filesizeLimit wanted - s.bytecount) ∧
  (out.2 = .filesizeExceeded ↔ ∃ limit, setup.filesizeLimit = some limit ∧ limit < wanted)

/-- A piece that starts before the end of the file size and reaches beyond `maxdownload`, which is
the larger limit of the two. -/
def CrossesBoth (setup : Setup) : Nat → List Bytes → Prop
  | _, [] => False
  | n, piece :: pieces =>
    (∃ maxdownload, setup.maxdownload = some maxdownload ∧ setup.maxFilesize ≠ 0 ∧
      n ≤ setup.maxFilesize ∧ setup.maxFilesize < maxdownload ∧ maxdownload < n + piece.length) ∨
    CrossesBoth setup (n + piece.length) pieces

/-- The last piece has bytes that are still wanted, and comes with the end of the stream before the
announced size is counted. -/
def EndsEarly (setup : Setup) (n : Nat) (last : Option Bytes) : Prop :=
  ∃ maxdownload piece, setup.maxdownload = some maxdownload ∧ last = some piece ∧ piece ≠ [] ∧
    n < maxdownload ∧ (n : Int) < setup.size ∧ (setup.maxFilesize = 0 ∨ n ≤ setup.maxFilesize)

/-! ### One write -/

/-- No body is ignored, and the next writer takes every write. -/
structure Setup.Plain (setup : Setup) (next : Next) : Prop where
  noBody : setup.noBody = false
  ignorebody : setup.ignorebody = false
  next_ok : ∀ type buf, next type buf = .ok

/-- `n` bytes are not beyond the limits. -/
structure Below (setup : Setup) (n : Nat) : Prop where
  maxdownload : ∀ limit, setup.maxdownload = some limit → n ≤ limit
  filesize : setup.maxFilesize = 0 ∨ n ≤ setup.maxFilesize

/-- What one write passes on and counts when it starts below the limits. -/
structure Written (s : State) (piece : Bytes) (nwrite : Nat) (done : Bool) (s' : State) :
    Prop where
  bytes : s'.bytes = s.bytes ++ piece.take nwrite
  bytecount : s'.bytecount = s.bytecount + nwrite
  downloadDone : s'.downloadDone = done

variable {setup : Setup} {next : Next} {s : State} {piece : Bytes}

@[simp] theorem bytecount_done (s : State) (downloadDone : Bool) :
    (s.done downloadDone).bytecount = s.bytecount := rfl

theorem bytes_pass (s : State) (type : Clientwrite) (buf : Bytes) :
    (s.pass type buf).bytes = s.bytes ++ buf := by
  simp [State.bytes, State.pass]

theorem capped_some (limit n : Nat) : capped (some limit) n = min n limit := rfl

theorem exceeds_iff (setup : Setup) (n : Nat) :
    (∃ limit, setup.filesizeLimit = some limit ∧ limit < n) ↔
      setup.maxFilesize ≠ 0 ∧ setup.maxFilesize < n := by
  unfold Setup.filesizeLimit
  split <;> simp [*]

theorem capped_filesizeLimit {n : Nat} (h : setup.maxFilesize = 0 ∨ n ≤ setup.maxFilesize) :
    capped setup.filesizeLimit n = n := by
  unfold Setup.filesizeLimit
  split
  · rfl
  · rw [capped_some]
    omega

theorem capped_le (limit : Option Nat) (n : Nat) : capped limit n ≤ n := by
  cases limit with
  | none => exact Nat.le_refl n
  | some limit => exact Nat.min_le_left n limit

theorem Below.le_capped {n m : Nat} (hbelow : Below setup n) (h : n ≤ m) :
    n ≤ capped setup.filesizeLimit (capped setup.maxdownload m) := by
  have hmax : n ≤ capped setup.maxdownload m := by
    cases hmd : setup.maxdownload with
    | none => exact h
    | some limit => exact Nat.le_min.mpr ⟨h, hbelow.maxdownload limit hmd⟩
  have hfs := hbelow.filesize
  unfold Setup.filesizeLimit
  split
  · exact hmax
  · exact Nat.le_min.mpr ⟨hmax, by omega⟩

theorem capped_filesize {n : Nat} (hbelow : Below setup n) (k : Nat) :
    (if setup.maxFilesize ≠ 0 then min k (setup.maxFilesize - n) else k) =
      capped setup.filesizeLimit (n + k) - n := by
  have hle := hbelow.filesize
  by_cases h : setup.maxFilesize = 0
  · simp only [Setup.filesizeLimit, h, ne_eq, not_true, if_false, if_true, capped]
    omega
  · simp only [Setup.filesizeLimit, h, ne_eq, not_false_eq_true, if_false, if_true, capped]
    omega

/-- `writeAllowed` passes on what the size of the file leaves of the `k` allowed bytes. -/
theorem writeAllowed_spec (hplain : setup.Plain next) (hbelow : Below setup s.bytecount)
    (type : Clientwrite) (piece : Bytes) (k excessLen : Nat) :
    ∃ s', writeAllowed setup next s type piece k excessLen =
        (s', verdict setup piece.length
          (capped setup.filesizeLimit (s.bytecount + k) - s.bytecount) excessLen) ∧
      Written s piece (capped setup.filesizeLimit (s.bytecount + k) - s.bytecount)
        s.downloadDone s' := by
  have hroom := capped_filesize hbelow k
  unfold writeAllowed
  simp only [hplain.ignorebody, hplain.next_ok, and_true, true_and, getMaxBodyWriteLen, hroom]
  split
  · refine ⟨_, rfl, ?_, rfl, rfl⟩
    exact bytes_pass s type _
  · next h =>
    refine ⟨_, rfl, ?_, rfl, rfl⟩
    have hzero : capped setup.filesizeLimit (s.bytecount + k) - s.bytecount = 0 := by
      by_contra hne
      exact h (.inl hne)
    rw [hzero]
    simp [State.bytes, State.count]

/-- What a write can do that the end of the stream does not cut: it passes the piece on, it fails at
the size of the file, or it drops what is in excess to `maxdownload`. -/
inductive Wrote (setup : Setup) (s : State) (piece : Bytes) : State × Curlcode → Prop
  | fits {s' : State} (hbelow : Below setup (s.bytecount + piece.length))
      (hw : Written s piece piece.length
        (decide (setup.maxdownload = some (s.bytecount + piece.length))) s') :
      Wrote setup s piece (s', .ok)
  | exceeds {s' : State} (hset : setup.maxFilesize ≠ 0)
      (hover : setup.maxFilesize < s.bytecount + piece.length)
      (hmax : ∀ limit, setup.maxdownload = some limit → s.bytecount + piece.length ≤ limit)
      (hbytes : s'.bytes = s.bytes ++ piece.take (setup.maxFilesize - s.bytecount)) :
      Wrote setup s piece (s', .filesizeExceeded)
  | excess {s' : State} {limit : Nat} (hset : setup.maxdownload = some limit)
      (hover : limit < s.bytecount + piece.length) (hdone : s'.downloadDone = true)
      (hbytes : s'.bytes =
        s.bytes ++ piece.take (capped setup.filesizeLimit limit - s.bytecount)) :
      Wrote setup s piece (s', .ok)

/-- A write of which `maxdownload` allows everything. -/
theorem writeAllowed_all (hplain : setup.Plain next) (hbelow : Below setup s.bytecount)
    (type : Clientwrite)
    (hmax : ∀ limit, setup.maxdownload = some limit → s.bytecount + piece.length ≤ limit)
    (hdone : s.downloadDone = decide (setup.maxdownload = some (s.bytecount + piece.length))) :
    Wrote setup s piece (writeAllowed setup next s type piece piece.length 0) := by
  obtain ⟨s', heq, hw⟩ := writeAllowed_spec hplain hbelow type piece piece.length 0
  rw [heq]
  by_cases hover : setup.maxFilesize ≠ 0 ∧ setup.maxFilesize < s.bytecount + piece.length
  · have hcap : capped setup.filesizeLimit (s.bytecount + piece.length) - s.bytecount =
        setup.maxFilesize - s.bytecount := by
      simp only [Setup.filesizeLimit, hover.1, if_false, capped]
      omega
    rw [hcap] at hw ⊢
    have hless : setup.maxFilesize - s.bytecount < piece.length := by
      have := hbelow.filesize
      omega
    rw [verdict, if_neg (by simp), if_pos ⟨hless, hplain.ignorebody⟩]
    exact .exceeds hover.1 hover.2 hmax hw.bytes
  · have hcap : capped setup.filesizeLimit (s.bytecount + piece.length) - s.bytecount =
        piece.length := by
      unfold Setup.filesizeLimit
      split
      · simp [capped]
      · simp only [capped]
        omega
    rw [hcap] at hw ⊢
    rw [verdict, if_neg (by simp), if_neg (by simp)]
    exact .fits ⟨hmax, by omega⟩ (hdone ▸ hw)

theorem Wrote.of_done {out : State × Curlcode} {downloadDone : Bool}
    (h : Wrote setup (s.done downloadDone) piece out) : Wrote setup s piece out := by
  cases h with
  | fits hbelow hw => exact .fits hbelow ⟨hw.bytes, hw.bytecount, hw.downloadDone⟩
  | exceeds hset hover hmax hbytes => exact .exceeds hset hover hmax hbytes
  | excess hset hover hdone hbytes => exact .excess hset hover hdone hbytes

theorem cwDownloadWrite_wrote (hplain : setup.Plain next) (hbelow : Below setup s.bytecount)
    (hdone : s.downloadDone = false) (eos : Bool) (piece : Bytes)
    (hsize : eos = true → setup.maxdownload ≠ none → setup.size ≤ s.bytecount) :
    Wrote setup s piece (cwDownloadWrite setup next s (.ofBody eos) piece) := by
  unfold cwDownloadWrite
  rw [if_neg (by simp [Clientwrite.ofBody]), if_neg (by simp [hplain.noBody])]
  cases hmd : setup.maxdownload with
  | none => exact writeAllowed_all hplain hbelow _ (by simp [hmd]) (by simp [hmd, hdone])
  | some limit =>
    have hlimit := hbelow.maxdownload limit hmd
    have hsmall : ¬((Clientwrite.ofBody eos).eos = true ∧ setup.noBody = false ∧
        setup.size > s.bytecount) := by
      rintro ⟨heos, -, hlt⟩
      have := hsize heos (by simp [hmd])
      omega
    simp only [getMaxBodyWriteLen, hdone, Bool.false_or, bytecount_done, if_neg hsmall]
    by_cases hover : limit < s.bytecount + piece.length
    · -- more than `maxdownload` allows: the rest is in excess
      rw [Nat.min_eq_right (by omega), beq_self_eq_true]
      obtain ⟨s', heq, hw⟩ := writeAllowed_spec (s := s.done true) hplain hbelow
        (.ofBody eos) piece (limit - s.bytecount) (piece.length - (limit - s.bytecount))
      rw [heq, verdict, if_pos (by omega)]
      refine .excess hmd hover hw.downloadDone ?_
      have hsum : (s.done true).bytecount + (limit - s.bytecount) = limit := by
        simp only [State.done]
        omega
      rw [hw.bytes, hsum]
      rfl
    · have hnone : piece.length - (limit - s.bytecount) = 0 := by omega
      rw [Nat.min_eq_left (by omega), hnone]
      refine Wrote.of_done
        (writeAllowed_all (s := s.done (piece.length == limit - s.bytecount)) hplain hbelow _ ?_ ?_)
      · intro other hother
        rw [hmd] at hother
        cases hother
        simp only [State.done]
        omega
      · simp only [State.done, hmd, Option.some.injEq, beq_eq_decide, decide_eq_decide]
        omega

/-- A write that the end of the stream cuts. -/
theorem cwDownloadWrite_cut (hplain : setup.Plain next) (piece : Bytes)
    (hmd : setup.maxdownload ≠ none) (hsize : (s.bytecount : Int) < setup.size) :
    (cwDownloadWrite setup next s (.ofBody true) piece).2 = .partialFile ∧
      (cwDownloadWrite setup next s (.ofBody true) piece).1.bytes = s.bytes := by
  obtain ⟨limit, hmd⟩ := Option.ne_none_iff_exists'.mp hmd
  unfold cwDownloadWrite
  rw [if_neg (by simp [Clientwrite.ofBody]), if_neg (by simp [hplain.noBody]), hmd]
  simp only []
  rw [if_pos ⟨rfl, hplain.noBody, by simpa [State.done] using hsize⟩]
  exact ⟨rfl, rfl⟩

/-! ### All the pieces -/

theorem CrossesBoth.lt {n : Nat} {pieces : List Bytes} (h : CrossesBoth setup n pieces) :
    setup.maxFilesize ≠ 0 ∧ n ≤ setup.maxFilesize ∧
      ∃ limit, setup.maxdownload = some limit ∧ setup.maxFilesize < limit := by
  induction pieces generalizing n with
  | nil => exact h.elim
  | cons piece pieces ih =>
    rcases h with ⟨limit, hmd, hset, hn, hlt, -⟩ | h
    · exact ⟨hset, hn, limit, hmd, hlt⟩
    · obtain ⟨hset, hn, rest⟩ := ih h
      exact ⟨hset, by omega, rest⟩

theorem not_crossesBoth_of_le {n limit : Nat} (pieces : List Bytes)
    (hmd : setup.maxdownload = some limit)
    (hle : setup.maxFilesize = 0 ∨ limit ≤ setup.maxFilesize) : ¬CrossesBoth setup n pieces := by
  intro h
  obtain ⟨hset, -, other, hother, hlt⟩ := h.lt
  rw [hmd] at hother
  cases hother
  omega

/-- The pieces behind a piece that ended the writes do not matter. -/
theorem limited_fits_done {s' : State} (rest : Bytes)
    (hbelow : Below setup (s.bytecount + piece.length))
    (hmd : setup.maxdownload = some (s.bytecount + piece.length))
    (hbytes : s'.bytes = s.bytes ++ piece) : Limited setup s (piece ++ rest) (s', .ok) := by
  have hwanted : capped setup.maxdownload (s.bytecount + (piece ++ rest).length) =
      s.bytecount + piece.length := by
    rw [hmd, capped_some, List.length_append]
    omega
  unfold Limited
  simp only [hwanted, exceeds_iff]
  rw [capped_filesizeLimit hbelow.filesize]
  refine ⟨by simp [hbytes], ?_⟩
  have hfs := hbelow.filesize
  simp only [reduceCtorEq, false_iff]
  omega

theorem limited_exceeds {s' : State} {rest : Bytes} (hbelow : Below setup s.bytecount)
    (hset : setup.maxFilesize ≠ 0) (hover : setup.maxFilesize < s.bytecount + piece.length)
    (hmax : ∀ limit, setup.maxdownload = some limit → s.bytecount + piece.length ≤ limit)
    (hbytes : s'.bytes = s.bytes ++ piece.take (setup.maxFilesize - s.bytecount)) :
    Limited setup s (piece ++ rest) (s', .filesizeExceeded) := by
  have hwanted : setup.maxFilesize <
      capped setup.maxdownload (s.bytecount + (piece ++ rest).length) := by
    rw [List.length_append]
    cases hmd : setup.maxdownload with
    | none =>
      simp only [capped]
      omega
    | some limit =>
      have := hmax limit hmd
      simp only [capped]
      omega
  have hfs := hbelow.filesize
  unfold Limited
  simp only [exceeds_iff]
  refine ⟨?_, by simpa [hset] using hwanted⟩
  rw [Setup.filesizeLimit, if_neg hset, capped_some, Nat.min_eq_right (Nat.le_of_lt hwanted),
    List.take_append_of_le_length (by omega), hbytes]

theorem limited_excess {s' : State} {rest : Bytes} {limit : Nat}
    (hmd : setup.maxdownload = some limit)
    (hover : limit < s.bytecount + piece.length)
    (hbytes : s'.bytes = s.bytes ++ piece.take (capped setup.filesizeLimit limit - s.bytecount)) :
    Limited setup s (piece ++ rest) (s', .ok) ↔
      (setup.maxFilesize = 0 ∨ limit ≤ setup.maxFilesize) := by
  have hwanted : capped setup.maxdownload (s.bytecount + (piece ++ rest).length) = limit := by
    rw [List.length_append, hmd]
    simp only [capped]
    omega
  have hcap := capped_le setup.filesizeLimit limit
  unfold Limited
  simp only [hwanted, exceeds_iff]
  rw [List.take_append_of_le_length (by omega), and_iff_right hbytes]
  simp only [reduceCtorEq, false_iff]
  omega

/-- Behind a piece that was passed on, the rest is written as if it were alone. -/
theorem limited_fits {s' : State} {rest : Bytes} {out : State × Curlcode} {done : Bool}
    (hbelow : Below setup (s.bytecount + piece.length))
    (hw : Written s piece piece.length done s') :
    Limited setup s (piece ++ rest) out ↔ Limited setup s' rest out := by
  have hbytes : s'.bytes = s.bytes ++ piece := by simpa using hw.bytes
  have hsum : s.bytecount + (piece ++ rest).length = s'.bytecount + rest.length := by
    rw [List.length_append, hw.bytecount]
    omega
  have hwanted := hbelow.le_capped (m := s'.bytecount + rest.length) (by
    rw [hw.bytecount]
    omega)
  unfold Limited
  simp only [hsum]
  rw [hbytes, List.take_append, List.append_assoc, List.take_of_length_le (by omega),
    hw.bytecount, Nat.sub_sub]

/-- What follows a write, unless it failed or the download is done. -/
def andThen (out : State × Curlcode) (rest : State → State × Curlcode) : State × Curlcode :=
  match out with
  | (s, .ok) => if s.downloadDone then (s, .ok) else rest s
  | failure => failure

theorem writeAll_cons (type : Clientwrite) (calls : List (Clientwrite × Bytes)) :
    writeAll setup next s ((type, piece) :: calls) =
      andThen (cwDownloadWrite setup next s type piece) (writeAll setup next · calls) := rfl

/-- The first write decides, unless it passes the piece on and leaves room for more. -/
theorem Wrote.limited_iff {out : State × Curlcode} {cont : State → State × Curlcode}
    {rest : Bytes} {pieces : List Bytes} {early : Prop}
    (hwrote : Wrote setup s piece out) (hbelow : Below setup s.bytecount)
    (hearly : early → (∀ limit, setup.maxdownload = some limit →
        s.bytecount + piece.length < limit) ∧
      (setup.maxFilesize = 0 ∨ s.bytecount + piece.length ≤ setup.maxFilesize))
    (hcont : ∀ s' : State, Below setup s'.bytecount → s'.downloadDone = false →
      s'.bytecount = s.bytecount + piece.length →
      (Limited setup s' rest (cont s') ↔ ¬CrossesBoth setup s'.bytecount pieces ∧ ¬early)) :
    Limited setup s (piece ++ rest) (andThen out cont) ↔
      ¬CrossesBoth setup s.bytecount (piece :: pieces) ∧ ¬early := by
  cases hwrote with
  | @fits s' hfits hw =>
    by_cases hmd : setup.maxdownload = some (s.bytecount + piece.length)
    · rw [decide_eq_true hmd] at hw
      simp only [andThen, hw.downloadDone, if_true]
      have hdone := limited_fits_done rest hfits hmd (by simpa using hw.bytes)
      refine iff_of_true hdone ⟨not_crossesBoth_of_le _ hmd hfits.filesize, ?_⟩
      intro h
      have := (hearly h).1 _ hmd
      omega
    · rw [decide_eq_false hmd] at hw
      have hnot : ¬∃ limit, setup.maxdownload = some limit ∧ setup.maxFilesize ≠ 0 ∧
          s.bytecount ≤ setup.maxFilesize ∧ setup.maxFilesize < limit ∧
          limit < s.bytecount + piece.length := by
        rintro ⟨limit, hset, -, -, -, hlt⟩
        have := hfits.maxdownload limit hset
        omega
      simp only [andThen, hw.downloadDone, Bool.false_eq_true, if_false, CrossesBoth,
        or_iff_right hnot]
      rw [limited_fits hfits hw, ← hw.bytecount]
      exact hcont s' (hw.bytecount ▸ hfits) hw.downloadDone hw.bytecount
  | exceeds hset hover hmax hbytes =>
    refine iff_of_true (limited_exceeds hbelow hset hover hmax hbytes) ⟨?_, ?_⟩
    · rintro (⟨limit, hmd, -, -, -, hlt⟩ | h)
      · have := hmax limit hmd
        omega
      · have := h.lt.2.1
        omega
    · intro h
      have := (hearly h).2
      omega
  | @excess s' limit hmd hover hdone hbytes =>
    simp only [andThen, hdone, if_true]
    rw [limited_excess hmd hover hbytes]
    have hfs := hbelow.filesize
    constructor
    · intro hle
      refine ⟨not_crossesBoth_of_le _ hmd hle, ?_⟩
      intro h
      have := (hearly h).1 limit hmd
      omega
    · rintro ⟨hcross, -⟩
      by_contra hlt
      exact hcross (.inl ⟨limit, hmd, by omega, by omega, by omega, hover⟩)

theorem limited_nil (hbelow : Below setup s.bytecount) : Limited setup s [] (s, .ok) := by
  have hcap := capped_le setup.maxdownload s.bytecount
  have hfs := hbelow.filesize
  unfold Limited
  simp only [exceeds_iff, List.take_nil, List.append_nil, List.length_nil, Nat.add_zero,
    reduceCtorEq, false_iff, true_and]
  omega

/-- The last piece, when it comes with the end of the stream before the announced size. -/
theorem limited_cut {s' : State} {limit : Nat} (hbelow : Below setup s.bytecount)
    (hmd : setup.maxdownload = some limit) (hsize : (s.bytecount : Int) < setup.size)
    (hbytes : s'.bytes = s.bytes) :
    Limited setup s piece (s', .partialFile) ↔ ¬EndsEarly setup s.bytecount (some piece) := by
  have hlimit := hbelow.maxdownload limit hmd
  have hfs := hbelow.filesize
  by_cases hnone : min (s.bytecount + piece.length) limit = s.bytecount
  · -- nothing of the piece is wanted
    refine iff_of_true ?_ ?_
    · unfold Limited
      simp only [exceeds_iff, hmd, capped_some, hnone, capped_filesizeLimit hfs]
      simp only [Nat.sub_self, List.take_zero, List.append_nil, reduceCtorEq, false_iff]
      exact ⟨hbytes, by omega⟩
    · rintro ⟨other, other', hother, hpiece, hne, hlt, -⟩
      rw [hmd] at hother
      cases hother
      cases hpiece
      have := List.length_pos_of_ne_nil hne
      omega
  · refine iff_of_false ?_ ?_
    · rintro ⟨hall, herr⟩
      rw [exceeds_iff, hmd, capped_some] at herr
      simp only [reduceCtorEq, false_iff] at herr
      have hle : setup.maxFilesize = 0 ∨
          min (s.bytecount + piece.length) limit ≤ setup.maxFilesize := by omega
      rw [hmd, capped_some, capped_filesizeLimit hle, hbytes, List.self_eq_append_right,
        List.take_eq_nil_iff] at hall
      rcases hall with hzero | rfl
      · omega
      · simp at hnone
        omega
    · rw [Classical.not_not]
      refine ⟨limit, piece, hmd, rfl, ?_, by omega, hsize, hfs⟩
      rintro rfl
      simp at hnone
      omega

/-- The last piece, which comes with the end of the stream. -/
theorem limited_last (hplain : setup.Plain next) (hbelow : Below setup s.bytecount)
    (hdone : s.downloadDone = false) :
    Limited setup s piece (writeAll setup next s [(.ofBody true, piece)]) ↔
      ¬CrossesBoth setup s.bytecount [piece] ∧ ¬EndsEarly setup s.bytecount (some piece) := by
  by_cases hcut : setup.maxdownload ≠ none ∧ (s.bytecount : Int) < setup.size
  · obtain ⟨limit, hmd⟩ := Option.ne_none_iff_exists'.mp hcut.1
    obtain ⟨hres, hbytes⟩ := cwDownloadWrite_cut hplain piece hcut.1 hcut.2
    rw [writeAll_cons]
    generalize cwDownloadWrite setup next s (.ofBody true) piece = out at *
    obtain ⟨s', result⟩ := out
    cases hres
    simp only [andThen]
    rw [limited_cut hbelow hmd hcut.2 hbytes]
    refine ⟨fun h => ⟨?_, h⟩, And.right⟩
    rintro (⟨other, hother, hset, hle, hlt, hover⟩ | h)
    · refine h ⟨other, piece, hother, rfl, ?_, by omega, hcut.2, .inr hle⟩
      rintro rfl
      simp at hover
      omega
    · exact h
  · have hwrote := cwDownloadWrite_wrote hplain hbelow hdone true piece (by
      intro _ hmd
      by_contra hlt
      exact hcut ⟨hmd, by omega⟩)
    have hnot : ¬EndsEarly setup s.bytecount (some piece) := by
      rintro ⟨limit, -, hmd, -, -, -, hsize, -⟩
      exact hcut ⟨by simp [hmd], hsize⟩
    have h : Limited setup s (piece ++ []) (andThen _ (writeAll setup next · [])) ↔
        ¬CrossesBoth setup s.bytecount [piece] ∧ ¬False :=
      hwrote.limited_iff hbelow False.elim (by
        intro s' hbelow' _ _
        exact iff_of_true (limited_nil hbelow') ⟨id, id⟩)
    rw [List.append_nil, ← writeAll_cons] at h
    rw [h]
    simp [hnot]

theorem writeAll_limited (hplain : setup.Plain next) (pieces : List Bytes)
    (last : Option Bytes) (hbelow : Below setup s.bytecount)
    (hdone : s.downloadDone = false) :
    Limited setup s (Split.body ⟨pieces, last⟩)
        (writeAll setup next s (Split.calls ⟨pieces, last⟩)) ↔
      ¬CrossesBoth setup s.bytecount (Split.all ⟨pieces, last⟩) ∧
        ¬EndsEarly setup (s.bytecount + pieces.flatten.length) last := by
  induction pieces generalizing s with
  | nil =>
    cases last with
    | none =>
      refine iff_of_true (limited_nil hbelow) ⟨id, ?_⟩
      rintro ⟨-, piece, -, h, -⟩
      exact nomatch h
    | some piece =>
      simpa [Split.body, Split.all, Split.calls] using limited_last hplain hbelow hdone
  | cons piece pieces ih =>
    have hwrote := cwDownloadWrite_wrote hplain hbelow hdone false piece (by simp)
    refine Iff.trans (hwrote.limited_iff hbelow ?_ ?_) Iff.rfl
    · rintro ⟨limit, -, hmd, -, -, hlt, -, hle⟩
      rw [List.flatten_cons, List.length_append] at hlt hle
      refine ⟨fun other hother => ?_, by omega⟩
      rw [hmd] at hother
      cases hother
      omega
    · intro s' hbelow' hdone' hcount
      rw [List.flatten_cons, List.length_append, ← Nat.add_assoc, ← hcount]
      exact ih hbelow' hdone'

/-- However a body is split, the writer passes on the bytes below both limits and reports a file
that is too large, if and only if no piece crosses both limits at once and no bytes come with an end
of the stream that is too early. -/
theorem download_limited_iff (setup : Setup) (next : Next) (split : Split)
    (hplain : setup.Plain next) :
    LimitedBody setup split.body (writeAll setup next .start split.calls) ↔
      ¬CrossesBoth setup 0 split.all ∧
        ¬EndsEarly setup split.pieces.flatten.length split.last := by
  have hbelow : Below setup State.start.bytecount :=
    ⟨fun _ _ => Nat.zero_le _, .inr (Nat.zero_le _)⟩
  have h := writeAll_limited hplain split.pieces split.last hbelow rfl
  simpa [Limited, LimitedBody, State.start, State.bytes] using h

/-- Eight bytes are wanted, and a file may have five. -/
def eightOfFive : Setup :=
  { maxdownload := some 8, maxFilesize := 5, size := 8, noBody := false, ignorebody := false
    suppressConnectHeaders := false, headerSize := 1 }

theorem download_limited_two_pieces :
    LimitedBody eightOfFive [1, 2, 3, 4, 5, 6, 7, 8, 9]
      (writeAll eightOfFive (fun _ _ => .ok) .start
        (Split.calls ⟨[[1, 2, 3, 4, 5, 6, 7]], some [8, 9]⟩)) := by
  refine (download_limited_iff eightOfFive (fun _ _ => .ok) ⟨[[1, 2, 3, 4, 5, 6, 7]], some [8, 9]⟩
    ⟨rfl, rfl, fun _ _ => rfl⟩).mpr ⟨?_, ?_⟩
  · simp [CrossesBoth, Split.all, eightOfFive]
  · simp [EndsEarly, eightOfFive]

/-- The same body in one piece crosses both limits: five bytes are passed on, and no error is
reported. -/
theorem excess_hides_filesize :
    ¬LimitedBody eightOfFive [1, 2, 3, 4, 5, 6, 7, 8, 9]
      (writeAll eightOfFive (fun _ _ => .ok) .start
        (Split.calls ⟨[[1, 2, 3, 4, 5, 6, 7, 8, 9]], none⟩)) := by
  rintro ⟨-, herr⟩
  exact absurd (herr.mpr ⟨5, rfl, by decide⟩) (by decide)

end Gurl.Sendf
