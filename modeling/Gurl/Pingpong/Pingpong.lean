import Gurl.Dynbuf

/-! `lib/pingpong.c`: commands to a server and the lines of its responses, as FTP, IMAP, POP3 and
SMTP have them. -/

namespace Gurl.Pingpong

/-- `DYN_PINGPPONG_CMD`. -/
def dynPingppongCmd : Nat := 64 * 1024

/-- What a call of `Curl_conn_recv` meets: `bytes n` are `n + 1` bytes of those still to come, or
fewer where the buffer or the stream ends. -/
inductive Recv where
  | again
  | bytes (n : Nat)
  | closed
  | failed (result : Curlcode)
  deriving DecidableEq

/-- What a call of `Curl_conn_send` meets: there is room for `n` bytes. -/
inductive Send where
  | again
  | bytes (n : Nat)
  | failed (result : Curlcode)
  deriving DecidableEq

/-- `struct pingpong` with its connection: the bytes the server sends, what the calls that read and
write meet, the bytes on the wire, and the lines the client and `endofresp` have been given. -/
structure Pp where
  nreadResp : Nat
  -- `sendthis` points to the start of `sendbuf` or is `NULL`
  sendthis : Bool
  sendleft : Nat
  sendsize : Nat
  sendbuf : Dynbuf
  recvbuf : Dynbuf
  overflow : Nat
  nfinal : Nat
  pendingResp : Bool
  incoming : Bytes
  recvs : List Recv
  wire : Bytes
  sends : List Send
  written : List Bytes
  asked : List Bytes
  deriving DecidableEq

/-- `Curl_pp_init`, in memory that is all zero. -/
def ppInit (incoming : Bytes) (recvs : List Recv) (sends : List Send) : Pp where
  nreadResp := 0
  sendthis := false
  sendleft := 0
  sendsize := 0
  sendbuf := .init dynPingppongCmd
  recvbuf := .init dynPingppongCmd
  overflow := 0
  nfinal := 0
  pendingResp := true
  incoming
  recvs
  wire := []
  sends
  written := []
  asked := []

/-- What the protocol sets up: `Curl_client_write`, and `endofresp`, which gives the code of a line
that ends a response. -/
structure Handlers where
  clientWrite : Bytes → Curlcode
  endofresp : Bytes → Option Int

/-- `pingpong_read`. -/
def pingpongRead (pp : Pp) (buflen : Nat) : Pp × Curlcode × Bytes :=
  match pp.recvs with
  | [] => (pp, .again, [])
  | .again :: recvs => ({ pp with recvs }, .again, [])
  | .bytes n :: recvs =>
    if pp.incoming = [] then ({ pp with recvs }, .again, [])
    else
      let nread := min (n + 1) buflen
      ({ pp with recvs, incoming := pp.incoming.drop nread }, .ok, pp.incoming.take nread)
  | .closed :: recvs => ({ pp with recvs }, .ok, [])
  | .failed result :: recvs => ({ pp with recvs }, result, [])

/-- The loop that scans the buffer for lines, with the code and the size of a response that is
complete. -/
def scanLoop (h : Handlers) : Nat → Pp → Pp × Curlcode × Option (Int × Nat)
  | 0, pp => (pp, .ok, none)
  | fuel + 1, pp =>
    let content := pp.recvbuf.content
    match content.idxOf? 10 with
    | some nl =>
      let length := nl + 1
      let line := content.take length
      if 0 ∈ line then (pp, .weirdServerReply, none)
      else
        let pp := { pp with written := pp.written ++ [line] }
        match h.clientWrite line with
        | .ok =>
          let pp := { pp with asked := pp.asked ++ [line] }
          match h.endofresp line with
          | some code =>
            -- the line stays in the buffer until the next call
            let overflow := if content.length > length then content.length - length else 0
            ({ pp with nfinal := length, overflow, nreadResp := 0 }, .ok,
              some (code, pp.nreadResp))
          | none =>
            let recvbuf := if content.length > length
              then (pp.recvbuf.tail (content.length - length)).1 else pp.recvbuf.reset
            scanLoop h fuel { pp with recvbuf }
        | result => (pp, result, none)
    | none => ({ pp with overflow := 0 }, .ok, none)

/-- Trim off the final line of the response before. -/
def trimFinal (pp : Pp) : Pp :=
  if pp.nfinal ≠ 0 then
    let recvbuf := (pp.recvbuf.tail (pp.recvbuf.content.length - pp.nfinal)).1
    { pp with recvbuf, nfinal := 0 }
  else pp

/-- The scan of all that is in the buffer. -/
def scan (h : Handlers) (pp : Pp) : Pp × Curlcode × Option (Int × Nat) :=
  scanLoop h (pp.recvbuf.content.length + 1) pp

/-- The outer loop of `Curl_pp_readresp`, with `*code` and `*size`. -/
def readrespLoop (h : Handlers) : Nat → Pp → Pp × Curlcode × Int × Nat
  | 0, pp => (pp, .ok, 0, 0)
  | fuel + 1, pp =>
    let pp := trimFinal pp
    if pp.overflow ≠ 0 then
      match scan h pp with
      | (pp, .ok, none) => ({ pp with pendingResp := false }, .ok, 0, 0)
      | (pp, .ok, some (code, size)) => ({ pp with pendingResp := false }, .ok, code, size)
      | (pp, result, _) => (pp, result, 0, 0)
    else
      match pingpongRead pp 900 with
      | (pp, .again, _) => (pp, .ok, 0, 0)
      | (pp, .ok, buffer) =>
        if buffer = [] then (pp, .recvError, 0, 0)
        else
          match pp.recvbuf.nappend buffer true with
          | (recvbuf, .ok) =>
            match scan h { pp with recvbuf, nreadResp := pp.nreadResp + buffer.length } with
            | (pp, .ok, none) =>
              if buffer.length = 900 then readrespLoop h fuel pp
              else ({ pp with pendingResp := false }, .ok, 0, 0)
            | (pp, .ok, some (code, size)) => ({ pp with pendingResp := false }, .ok, code, size)
            | (pp, result, _) => (pp, result, 0, 0)
          | (recvbuf, result) => ({ pp with recvbuf }, result, 0, 0)
      | (pp, result, _) => (pp, result, 0, 0)

/-- `Curl_pp_readresp`; every round of the loop but the last has read something. -/
def readresp (h : Handlers) (pp : Pp) : Pp × Curlcode × Int × Nat :=
  readrespLoop h (pp.recvs.length + 1) pp

/-- `Curl_conn_send`. -/
def connSend (pp : Pp) (bytes : Bytes) : Pp × Curlcode × Nat :=
  match pp.sends with
  | [] => (pp, .again, 0)
  | .again :: sends => ({ pp with sends }, .again, 0)
  | .bytes n :: sends =>
    ({ pp with sends, wire := pp.wire ++ bytes.take n }, .ok, min n bytes.length)
  | .failed result :: sends => ({ pp with sends }, result, 0)

/-- `curlx_dyn_vaddf`, which adds the formatted text byte by byte. -/
def vaddf : Dynbuf → Bytes → Dynbuf × Curlcode
  | s, [] => (s, .ok)
  | s, b :: bs =>
    match s.nappend [b] true with
    | (s, .ok) => vaddf s bs
    | (s, result) => (s, result)

/-- Keep what was not sent of a command of `writeLen` bytes. -/
def keepUnsent (pp : Pp) (writeLen bytesWritten : Nat) : Pp :=
  if bytesWritten ≠ writeLen then
    { pp with sendthis := true, sendsize := writeLen, sendleft := writeLen - bytesWritten }
  else { pp with sendthis := false, sendleft := 0, sendsize := 0 }

/-- `Curl_pp_vsendf`, with the formatted command. -/
def vsendf (pp : Pp) (command : Bytes) : Pp × Curlcode :=
  match vaddf pp.sendbuf.reset command with
  | (sendbuf, .ok) =>
    match sendbuf.nappend [13, 10] true with
    | (sendbuf, .ok) =>
      let writeLen := sendbuf.content.length
      match connSend { pp with sendbuf, pendingResp := true } sendbuf.content with
      | (pp, .again, _) => (keepUnsent pp writeLen 0, .ok)
      | (pp, .ok, bytesWritten) => (keepUnsent pp writeLen bytesWritten, .ok)
      | (pp, result, _) => (pp, result)
    | (sendbuf, result) => ({ pp with sendbuf }, result)
  | (sendbuf, result) => ({ pp with sendbuf }, result)

/-- `Curl_pp_needs_flush`. -/
def needsFlush (pp : Pp) : Bool := pp.sendleft > 0

/-- Account for `written` of the bytes that were left. -/
def flushed (pp : Pp) (written : Nat) : Pp :=
  if written ≠ pp.sendleft then { pp with sendleft := pp.sendleft - written }
  else { pp with sendthis := false, sendleft := 0, sendsize := 0 }

/-- `Curl_pp_flushsend`. -/
def flushsend (pp : Pp) : Pp × Curlcode :=
  if !needsFlush pp then (pp, .ok)
  else
    -- `sendthis + sendsize - sendleft`
    match connSend pp (pp.sendbuf.content.drop (pp.sendsize - pp.sendleft)) with
    | (pp, .again, _) => (flushed pp 0, .ok)
    | (pp, .ok, written) => (flushed pp written, .ok)
    | (pp, result, _) => (pp, result)

/-! A command and its CRLF get to the wire once, in whatever pieces the connection takes them. -/

/-- The connection takes what it can and does not fail. -/
def Send.Smooth : Send → Prop
  | .failed _ => False
  | _ => True

/-- The connection takes at least a byte. -/
def Send.takes : Send → Bool
  | .bytes n => n > 0
  | _ => false

theorem vaddf_ok {bytes : Bytes} {s : Dynbuf}
    (h : bytes.length + s.content.length + 1 ≤ s.toobig) :
    ∃ s', vaddf s bytes = (s', .ok) ∧ s'.content = s.content ++ bytes ∧ s'.toobig = s.toobig := by
  induction bytes generalizing s with
  | nil => exact ⟨s, rfl, (List.append_nil _).symm, rfl⟩
  | cons b bytes ih =>
    rw [List.length_cons] at h
    obtain ⟨hok, hcontent, htoobig⟩ := @Dynbuf.nappend_ok s [b]
      (by rw [List.length_singleton]; omega)
    rw [vaddf]
    generalize s.nappend [b] true = appended at *
    obtain ⟨s1, result⟩ := appended
    obtain rfl : result = .ok := hok
    obtain ⟨s', hrun, hcontent', htoobig'⟩ := ih (s := s1) (by
      rw [hcontent, htoobig, List.length_append, List.length_singleton]
      omega)
    refine ⟨s', hrun, ?_, htoobig'.trans htoobig⟩
    rw [hcontent', hcontent, List.append_assoc, List.singleton_append]

theorem vaddf_tooLarge {bytes : Bytes} {s : Dynbuf} (hroom : s.content.length + 1 ≤ s.toobig)
    (h : s.toobig < bytes.length + s.content.length + 1) : (vaddf s bytes).2 = .tooLarge := by
  induction bytes generalizing s with
  | nil =>
    rw [List.length_nil] at h
    omega
  | cons b bytes ih =>
    rw [List.length_cons] at h
    rw [vaddf]
    by_cases hb : [b].length + s.content.length + 1 ≤ s.toobig
    · obtain ⟨hok, hcontent, htoobig⟩ := Dynbuf.nappend_ok hb
      generalize s.nappend [b] true = appended at *
      obtain ⟨s1, result⟩ := appended
      obtain rfl : result = .ok := hok
      rw [List.length_singleton] at hb
      have hlength : s1.content.length = s.content.length + 1 := by
        rw [hcontent, List.length_append, List.length_singleton]
      have htoobig1 : s1.toobig = s.toobig := htoobig
      exact ih (by omega) (by omega)
    · rw [Dynbuf.nappend_error (Nat.lt_of_not_le hb)]

theorem connSend_smooth {pp : Pp} (hsmooth : ∀ s ∈ pp.sends, s.Smooth) (bytes : Bytes) :
    ∃ result n, connSend pp bytes =
        ({ pp with sends := pp.sends.tail, wire := pp.wire ++ bytes.take n }, result, n) ∧
      (result = .ok ∨ result = .again ∧ n = 0) ∧ n ≤ bytes.length ∧
      (bytes.length ≤ pp.sends.countP Send.takes →
        bytes.length - n ≤ pp.sends.tail.countP Send.takes) := by
  cases hsends : pp.sends with
  | nil =>
    refine ⟨.again, 0, ?_, .inr ⟨rfl, rfl⟩, Nat.zero_le _, fun h => h⟩
    have hcall : connSend pp bytes = (pp, .again, 0) := by rw [connSend, hsends]
    rw [hcall, List.take_zero, List.append_nil, List.tail_nil, ← hsends]
  | cons send sends =>
    cases send with
    | again =>
      refine ⟨.again, 0, ?_, .inr ⟨rfl, rfl⟩, Nat.zero_le _, fun h => ?_⟩
      · rw [List.take_zero, List.append_nil, List.tail_cons, connSend, hsends]
      · rwa [List.countP_cons_of_neg (by decide)] at h
    | bytes n =>
      refine ⟨.ok, min n bytes.length, ?_, .inl rfl, Nat.min_le_right _ _, fun h => ?_⟩
      · rw [List.tail_cons, connSend, hsends, ← List.take_eq_take_min]
      · rw [List.countP_cons] at h
        rw [List.tail_cons]
        by_cases hn : 0 < n
        · rw [if_pos (by simpa [Send.takes] using hn)] at h
          omega
        · rw [if_neg (by simpa [Send.takes] using hn)] at h
          omega
    | failed result =>
      exact (hsmooth (.failed result) (by rw [hsends]; exact List.mem_cons_self)).elim

/-- The bytes of the command that are still to be sent. -/
def unsent (pp : Pp) : Bytes := pp.sendbuf.content.drop (pp.sendbuf.content.length - pp.sendleft)

theorem unsent_idle {pp : Pp} (h : pp.sendleft = 0) : unsent pp = [] := by
  rw [unsent, h, Nat.sub_zero, List.drop_length]

/-- Between two calls that send: what is on the wire and what is left make up all there is to
say. -/
structure Sending (goal : Bytes) (pp : Pp) : Prop where
  onWire : pp.wire ++ unsent pp = goal
  left_le : pp.sendleft ≤ pp.sendbuf.content.length
  size : pp.sendleft ≠ 0 → pp.sendsize = pp.sendbuf.content.length ∧ pp.sendthis = true
  idle : pp.sendleft = 0 → pp.sendsize = 0 ∧ pp.sendthis = false
  smooth : ∀ s ∈ pp.sends, s.Smooth

theorem Sending.length_unsent {goal : Bytes} {pp : Pp} (h : Sending goal pp) :
    (unsent pp).length = pp.sendleft := by
  have hle := h.left_le
  rw [unsent, List.length_drop]
  omega

theorem Sending.done {goal : Bytes} {pp : Pp} (h : Sending goal pp) (hleft : pp.sendleft = 0) :
    pp.wire = goal := by
  rw [← h.onWire, unsent_idle hleft, List.append_nil]

theorem drop_unsent {content : Bytes} {left n : Nat} (hle : left ≤ content.length)
    (hn : n ≤ left) : (content.drop (content.length - left)).take n ++
      content.drop (content.length - (left - n)) = content.drop (content.length - left) := by
  rw [show content.length - (left - n) = content.length - left + n by omega, ← List.drop_drop,
    List.take_append_drop]

theorem vsendf_sending {pp : Pp} {command : Bytes}
    (htoobig : pp.sendbuf.toobig = dynPingppongCmd)
    (hfits : command.length + 2 < dynPingppongCmd) (hsmooth : ∀ s ∈ pp.sends, s.Smooth) :
    ∃ pp', vsendf pp command = (pp', .ok) ∧ Sending (pp.wire ++ (command ++ [13, 10])) pp' ∧
      pp'.sends = pp.sends.tail ∧ (command.length + 2 ≤ pp.sends.countP Send.takes →
        pp'.sendleft ≤ pp'.sends.countP Send.takes) := by
  obtain ⟨s1, hadd, hcontent1, htoobig1⟩ := @vaddf_ok command pp.sendbuf.reset (by
    rw [Dynbuf.content_reset, List.length_nil, show pp.sendbuf.reset.toobig = _ from htoobig]
    omega)
  rw [Dynbuf.content_reset, List.nil_append] at hcontent1
  obtain ⟨hok, hcontent, -⟩ := @Dynbuf.nappend_ok s1 [13, 10] (by
    rw [hcontent1, htoobig1, show pp.sendbuf.reset.toobig = _ from htoobig, List.length_cons,
      List.length_singleton]
    omega)
  unfold vsendf
  rw [hadd]
  simp only
  generalize s1.nappend [13, 10] true = appended at *
  obtain ⟨sendbuf, result⟩ := appended
  obtain rfl : result = .ok := hok
  simp only
  rw [hcontent1] at hcontent
  obtain ⟨result, n, hsend, hresult, hn, hsupply⟩ :=
    @connSend_smooth { pp with sendbuf, pendingResp := true } hsmooth sendbuf.content
  refine ⟨keepUnsent { pp with
    sendbuf, pendingResp := true, sends := pp.sends.tail
    wire := pp.wire ++ sendbuf.content.take n } sendbuf.content.length n, ?_, ?_, ?_, ?_⟩
  · rw [hsend]
    rcases hresult with rfl | ⟨rfl, rfl⟩ <;> rfl
  · have hmem : ∀ s ∈ pp.sends.tail, s.Smooth := fun s hs => hsmooth s (List.mem_of_mem_tail hs)
    unfold keepUnsent
    split
    · refine ⟨?_, Nat.sub_le _ _, fun _ => ⟨rfl, rfl⟩, fun hzero => ?_, hmem⟩
      · rw [unsent, Nat.sub_sub_self hn, List.append_assoc, List.take_append_drop, hcontent]
      · simp only at hzero
        omega
    · refine ⟨?_, Nat.zero_le _, fun h => (h rfl).elim, fun _ => ⟨rfl, rfl⟩, hmem⟩
      have heq : n = sendbuf.content.length := by omega
      rw [unsent_idle rfl, List.append_nil, heq, List.take_length, hcontent]
  · unfold keepUnsent
    split <;> rfl
  · intro hcount
    have hleft := hsupply (by rw [hcontent, List.length_append]; exact hcount)
    unfold keepUnsent
    split
    · exact hleft
    · exact Nat.zero_le _

/-- A command that does not fit the buffer is not sent. -/
theorem vsendf_tooLarge {pp : Pp} {command : Bytes}
    (htoobig : pp.sendbuf.toobig = dynPingppongCmd)
    (hlong : dynPingppongCmd ≤ command.length + 2) :
    (vsendf pp command).2 = .tooLarge ∧ (vsendf pp command).1.wire = pp.wire := by
  have hreset : pp.sendbuf.reset.toobig = dynPingppongCmd := htoobig
  have hempty : pp.sendbuf.reset.content.length = 0 := by
    rw [Dynbuf.content_reset, List.length_nil]
  unfold vsendf
  by_cases hfits : command.length + 1 ≤ dynPingppongCmd
  · obtain ⟨s1, hadd, hcontent1, htoobig1⟩ := @vaddf_ok command pp.sendbuf.reset (by omega)
    rw [Dynbuf.content_reset, List.nil_append] at hcontent1
    have herror := @Dynbuf.nappend_error s1 [13, 10] (by
      rw [hcontent1, htoobig1, hreset, List.length_cons, List.length_singleton]
      omega) true
    rw [hadd]
    simp only [herror, and_self]
  · have herror := @vaddf_tooLarge command pp.sendbuf.reset
      (by rw [hempty, hreset]; decide) (by omega)
    generalize vaddf pp.sendbuf.reset command = added at *
    obtain ⟨s1, result⟩ := added
    obtain rfl : result = .tooLarge := herror
    exact ⟨rfl, rfl⟩

theorem flushsend_sending {goal : Bytes} {pp : Pp} (h : Sending goal pp) :
    ∃ pp', flushsend pp = (pp', .ok) ∧ Sending goal pp' ∧
      (pp.sendleft ≤ pp.sends.countP Send.takes → pp'.sendleft ≤ pp'.sends.countP Send.takes) ∧
      (pp'.sendleft = 0 ∨ pp.sendleft ≠ 0 ∧ pp'.sends.length = pp.sends.length - 1) := by
  by_cases hleft : pp.sendleft = 0
  · refine ⟨pp, ?_, h, id, .inl hleft⟩
    rw [flushsend, needsFlush, hleft]
    rfl
  · have hflush : ¬(!needsFlush pp) = true := by
      rw [needsFlush]
      simp [Nat.pos_of_ne_zero hleft]
    obtain ⟨hsize, hthis⟩ := h.size hleft
    obtain ⟨result, n, hsend, hresult, hn, hsupply⟩ := connSend_smooth h.smooth (unsent pp)
    rw [h.length_unsent] at hn hsupply
    have hmem : ∀ s ∈ pp.sends.tail, s.Smooth := fun s hs => h.smooth s (List.mem_of_mem_tail hs)
    refine ⟨flushed { pp with
      sends := pp.sends.tail, wire := pp.wire ++ (unsent pp).take n } n, ?_, ?_, ?_, ?_⟩
    · have hthere : pp.sendbuf.content.drop (pp.sendsize - pp.sendleft) = unsent pp := by
        rw [hsize, unsent]
      rw [flushsend, if_neg hflush, hthere, hsend]
      rcases hresult with rfl | ⟨rfl, rfl⟩ <;> rfl
    · unfold flushed
      simp only
      split
      · refine ⟨?_, ?_, fun _ => ⟨hsize, hthis⟩, fun hzero => ?_, hmem⟩
        · rw [← h.onWire, unsent, List.append_assoc, unsent, drop_unsent h.left_le hn]
        · exact (Nat.sub_le _ _).trans h.left_le
        · simp only at hzero
          omega
      · refine ⟨?_, Nat.zero_le _, fun h => (h rfl).elim, fun _ => ⟨rfl, rfl⟩, hmem⟩
        have hall : (unsent pp).take n = unsent pp :=
          List.take_of_length_le (by rw [h.length_unsent]; omega)
        rw [hall, h.onWire]
        exact (congrArg (goal ++ ·) (unsent_idle rfl)).trans (List.append_nil goal)
    · intro hcount
      unfold flushed
      simp only
      split
      · exact hsupply hcount
      · exact Nat.zero_le _
    · unfold flushed
      simp only
      split
      · exact .inr ⟨hleft, List.length_tail⟩
      · exact .inl rfl

/-- Some calls of `Curl_pp_flushsend`, unless one of them fails. -/
def flushes : Nat → Pp → Option Pp
  | 0, pp => some pp
  | k + 1, pp =>
    match flushsend pp with
    | (pp, .ok) => flushes k pp
    | _ => none

theorem flushes_sending {goal : Bytes} {k : Nat} {pp : Pp} (h : Sending goal pp) :
    ∃ pp', flushes k pp = some pp' ∧ Sending goal pp' ∧
      (pp.sendleft ≤ pp.sends.countP Send.takes → pp.sendleft = 0 ∨ pp.sends.length ≤ k →
        pp'.sendleft = 0) := by
  induction k generalizing pp with
  | zero =>
    refine ⟨pp, rfl, h, fun hsupply hdone => ?_⟩
    rcases hdone with hzero | hlength
    · exact hzero
    · rw [List.length_eq_zero_iff.mp (Nat.le_zero.mp hlength)] at hsupply
      exact Nat.le_zero.mp hsupply
  | succ k ih =>
    obtain ⟨pp1, hcall, h1, hsupply1, hnext⟩ := flushsend_sending h
    obtain ⟨pp', hrun, h', hdone⟩ := ih h1
    refine ⟨pp', ?_, h', fun hsupply hsoon => hdone (hsupply1 hsupply) ?_⟩
    · rw [flushes, hcall]
      exact hrun
    · rcases hnext with hzero | ⟨hzero, hlength⟩
      · exact .inl hzero
      · exact .inr (by omega)

end Gurl.Pingpong
