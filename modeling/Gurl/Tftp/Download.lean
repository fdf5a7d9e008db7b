import Gurl.Tftp.Tftp
import Mathlib.Data.List.Basic

/-! A download: the blocks that are passed to the client, over every sequence of datagrams. -/

namespace Gurl.Tftp

variable {setup : Setup} {host : Host} {c : Conn}

/-- The numbers of the accepted blocks are 1, 2, 3 and so on, and what was passed to the client is
what they carry. -/
structure InOrder (c : Conn) : Prop where
  numbers : c.accepted.map Prod.fst = (List.range c.accepted.length).map fun k => (k + 1) % 65536
  bytes : c.written.flatten = c.accepted.flatMap Prod.snd

/-- The last accepted block is a short one. -/
def ShortLast (c : Conn) : Prop := ∃ b, c.accepted.getLast? = some b ∧ b.2.length < c.blksize

/-- A download that has not ended. -/
structure Going (c : Conn) : Prop where
  inOrder : InOrder c
  state : c.state = .start ∨ c.state = .rx
  block : c.block = c.accepted.length % 65536
  error : c.error = errNone

/-- The block size stays as it is from the first accepted block on. -/
def Kept (c c' : Conn) : Prop := c.accepted ≠ [] → c'.accepted ≠ [] ∧ c'.blksize = c.blksize

theorem Kept.of_eq {c' : Conn} (haccepted : c'.accepted = c.accepted)
    (hblksize : c'.blksize = c.blksize) : Kept c c' := fun hne => ⟨haccepted ▸ hne, hblksize⟩

theorem Kept.trans {c1 c2 : Conn} (h1 : Kept c c1) (h2 : Kept c1 c2) : Kept c c2 := fun hne =>
  ⟨(h2 (h1 hne).1).1, (h2 (h1 hne).1).2.trans (h1 hne).2⟩

/-- What a round of a download leaves. -/
structure Good (c : Conn) (r : Conn × Curlcode) : Prop where
  inOrder : InOrder r.1
  kept : Kept c r.1
  going : r.2 = .ok → r.1.state ≠ .fin → Going r.1
  finished : r.2 = .ok → r.1.state = .fin → r.1.error = errNone → ShortLast r.1

/-- The condition on a datagram: an option acknowledgement comes before the first block, an
acknowledgement does not answer the request, a block that was accepted already (0 before the first
one) is a full one, and the next block has no more bytes than the block size. -/
def Orderly (c : Conn) : Input → Prop
  | .readable (some d) =>
    4 ≤ d.length →
      (Event.ofNat (getrpacketevent d) = .oack → c.accepted = []) ∧
      (Event.ofNat (getrpacketevent d) = .ack → c.state ≠ .start) ∧
      (Event.ofNat (getrpacketevent d) = .data → getrpacketblock d = c.block →
        c.blksize + 4 ≤ d.length) ∧
      (Event.ofNat (getrpacketevent d) = .data → getrpacketblock d = nextBlocknum c.block →
        d.length ≤ c.blksize + 4)
  | _ => True

instance (c : Conn) : (input : Input) → Decidable (Orderly c input)
  | .readable (some _) => inferInstanceAs (Decidable (_ → _))
  | .readable none => isTrue trivial
  | .expired => isTrue trivial
  | .slow => isTrue trivial

theorem sendOr_eq (host : Host) (c : Conn) (len : Nat) :
    ∃ sent code, sendOr host c len = ({ c with sent }, code) ∧
      (code = .ok ∨ code = .sendError) := by
  unfold sendOr send
  split <;> rename_i hsend
  · split at hsend <;> cases hsend
    exact ⟨_, _, rfl, .inl rfl⟩
  · split at hsend <;> cases hsend
    exact ⟨_, _, rfl, .inr rfl⟩

theorem sendHeader_eq (host : Host) (c : Conn) (event : Nat) :
    ∃ sent spacket, sendHeader host c event = { c with sent, spacket } := by
  unfold sendHeader send
  split <;> exact ⟨_, _, rfl⟩

/-- A round that fails, or leaves an error. -/
theorem Good.stop {c' : Conn} {code : Curlcode} (h : InOrder c')
    (hblksize : Kept c c')
    (hstop : code ≠ .ok ∨ c'.state = .fin ∧ c'.error ≠ errNone) : Good c (c', code) where
  inOrder := h
  kept := hblksize
  going hok hstate := by
    rcases hstop with hne | ⟨hfin, -⟩
    · exact (hne hok).elim
    · exact (hstate hfin).elim
  finished hok _ herror := by
    rcases hstop with hne | ⟨-, hne⟩
    · exact (hne hok).elim
    · exact (hne herror).elim

/-- A round in which nothing happens to the blocks. -/
theorem Good.same {c' : Conn} {code : Curlcode} (h : Going c') (hblksize : Kept c c') :
    Good c (c', code) where
  inOrder := h.inOrder
  kept := hblksize
  going _ _ := h
  finished _ hfin := by
    rcases h.state with hstate | hstate <;> rw [hstate] at hfin <;> cases hfin

theorem InOrder.congr {c' : Conn} (h : InOrder c) (haccepted : c'.accepted = c.accepted)
    (hwritten : c'.written = c.written) : InOrder c' :=
  ⟨by rw [haccepted]; exact h.numbers, by rw [haccepted, hwritten]; exact h.bytes⟩

/-- A block is acknowledged; it is a full one, or the last one that was accepted. -/
theorem rxAck_good {c0 : Conn} {rblock : Nat} (h : InOrder c) (herror : c.error = errNone)
    (hblksize : Kept c0 c)
    (hblock : rblock = c.accepted.length % 65536)
    (hshort : c.rpacket.length < c.blksize + 4 → ShortLast c) : Good c0 (rxAck host c rblock) := by
  obtain ⟨sent, code, hsend, hcode⟩ := sendOr_eq host
    { c with block := rblock, spacket := setpacketblock (setpacketevent c.spacket 4) rblock } 4
  rw [rxAck, hsend]
  rcases hcode with rfl | rfl
  · refine ⟨h.congr rfl rfl, hblksize, fun _ hstate => ?_, fun _ hstate _ => ?_⟩
    · simp only at hstate ⊢
      split at hstate
      · exact (hstate rfl).elim
      · rw [if_neg ‹_›]
        exact ⟨h.congr rfl rfl, .inr rfl, hblock, herror⟩
    · simp only at hstate
      split at hstate
      · exact hshort ‹_›
      · cases hstate
  · exact .stop (h.congr rfl rfl) hblksize (.inl (by decide))

theorem tftpRx_timeout_good {c0 : Conn} (h : Going c) (hblksize : Kept c0 c) :
    Good c0 (tftpRx host c .timeout) := by
  rw [tftpRx]
  simp only
  split
  · exact .stop (h.inOrder.congr rfl rfl) hblksize (.inr ⟨rfl, show errTimeout ≠ errNone by decide⟩)
  · obtain ⟨sent, code, hsend, -⟩ := sendOr_eq host { c with retries := c.retries + 1 } 4
    rw [hsend]
    exact .same ⟨h.inOrder.congr rfl rfl, h.state, h.block, h.error⟩ hblksize

theorem sendFirst_again_good {event : Event} (h : Going c)
    (hevent : event = .init ∨ event = .timeout) : Good c (sendFirst setup host c event) := by
  have hsame : sendFirst setup host c event = sendFirst setup host c .timeout := by
    rcases hevent with rfl | rfl <;> rfl
  rw [hsame, sendFirst]
  simp only
  split
  · exact .stop (h.inOrder.congr rfl rfl) (.of_eq rfl rfl)
      (.inr ⟨rfl, show errNoresponse ≠ errNone by decide⟩)
  · split
    · exact .same ⟨h.inOrder.congr rfl rfl, h.state, h.block, h.error⟩ (.of_eq rfl rfl)
    · rename_i packet _
      obtain ⟨sent, code, hsend, -⟩ := sendOr_eq host
        { c with retries := c.retries + 1, spacket := packet ++ c.spacket.drop packet.length }
          packet.length
      rw [hsend]
      exact .same ⟨h.inOrder.congr rfl rfl, h.state, h.block, h.error⟩ (.of_eq rfl rfl)

theorem connectFor_rx_good {c0 : Conn} {event : Event} (h : InOrder c)
    (hblksize : Kept c0 c)
    (hrx : ∀ retryTime retryMax,
      Good c0 (tftpRx host { c with state := .rx, retryTime, retryMax } event)) :
    Good c0 (connectFor host c .rx tftpRx event) := by
  rw [connectFor, setTimeouts]
  cases host.timeouts with
  | none => exact .stop (h.congr rfl rfl) hblksize (.inl (by decide))
  | some found => exact hrx found.1 found.2

/-- The end that follows an error of the client. -/
theorem stateMachine_error (setup : Setup) (host : Host) (c : Conn) :
    (stateMachine setup host c .error).1.accepted = c.accepted ∧
      (stateMachine setup host c .error).1.written = c.written ∧
      (stateMachine setup host c .error).1.blksize = c.blksize := by
  obtain ⟨sent, spacket, hsend⟩ := sendHeader_eq host c 5
  unfold stateMachine
  split
  · exact ⟨rfl, rfl, rfl⟩
  · rw [tftpRx, hsend]
    exact ⟨rfl, rfl, rfl⟩
  · rw [tftpTx, hsend]
    exact ⟨rfl, rfl, rfl⟩
  · exact ⟨rfl, rfl, rfl⟩

theorem Good.error {c0 : Conn} {code : Curlcode} (h : InOrder c)
    (hblksize : Kept c0 c) (hcode : code ≠ .ok) :
    Good c0 ((stateMachine setup host c .error).1, code) := by
  obtain ⟨haccepted, hwritten, hsame⟩ := stateMachine_error setup host c
  exact .stop (h.congr haccepted hwritten) (hblksize.trans (.of_eq haccepted hsame)) (.inl hcode)

theorem get16_take {d : Bytes} {n index : Nat} (h : index + 2 ≤ n) :
    get16 (d.take n) index = get16 d index := by
  unfold get16
  simp only [List.getD_eq_getElem?_getD]
  rw [List.getElem?_take_of_lt (by omega), List.getElem?_take_of_lt (by omega)]

/-- The server is too slow. -/
theorem timeout_good (h : Going c) : Good c (stateMachine setup host c .timeout) := by
  unfold stateMachine
  rcases h.state with hstate | hstate
  · rw [hstate]
    exact sendFirst_again_good h (.inr rfl)
  · rw [hstate]
    exact tftpRx_timeout_good h (.of_eq rfl rfl)

/-- The packet that `tftp_receive_packet` has in its buffer. -/
def withPacket (c : Conn) (d : Bytes) : Conn := { c with rpacket := d.take (c.blksize + 4) }

theorem Going.withPacket (h : Going c) (d : Bytes) : Going (withPacket c d) :=
  ⟨h.inOrder.congr rfl rfl, h.state, h.block, h.error⟩

theorem Good.of_withPacket {d : Bytes} {r : Conn × Curlcode} (h : Good (Tftp.withPacket c d) r) :
    Good c r :=
  ⟨h.inOrder, h.kept, h.going, h.finished⟩

/-- A packet that is long enough goes to the state machine when nothing fails before. -/
theorem readable_good {d : Bytes} {c0 c2 : Conn} {code : Curlcode} {event : Event}
    (hlength : 4 ≤ d.length) (hevent : Event.ofNat (getrpacketevent d) = event)
    (hdispatch : dispatch setup host (withPacket c d) d event = (c2, code)) (h : InOrder c2)
    (hblksize : Kept c0 c2)
    (hmachine : code = .ok → Good c0 (stateMachine setup host c2 event)) :
    Good c0 (multiStatemach setup host c (.readable (some d))) := by
  have hlong : ¬(withPacket c d).rpacket.length < 4 := by
    rw [withPacket, List.length_take]
    omega
  have hsame : getrpacketevent (withPacket c d).rpacket = getrpacketevent d := get16_take (by omega)
  have hreceive : receivePacket setup host c (some d) = _ := if_neg hlong
  rw [multiStatemach, hreceive]
  erw [hsame, hevent, hdispatch]
  cases code with
  | ok =>
    by_cases hpgrs : host.pgrsUpdate = .ok
    · simp only [hpgrs, ne_eq, not_true_eq_false, if_false]
      exact hmachine rfl
    · have hgood := @Good.error setup host c2 c0 _ h hblksize hpgrs
      simp only [ne_eq, hpgrs, not_false_eq_true, if_true]
      generalize host.pgrsUpdate = code at hpgrs hgood
      cases code with
      | ok => exact (hpgrs rfl).elim
      | _ => exact hgood
  | _ => exact .stop h hblksize (.inl (by decide))

/-- A packet that says nothing about the blocks. -/
theorem readable_other_good {d : Bytes} {event : Event} (h : Going c) (hlength : 4 ≤ d.length)
    (hevent : Event.ofNat (getrpacketevent d) = event)
    (hdispatch : dispatch setup host (withPacket c d) d event = (withPacket c d, .ok))
    (hmachine : Good (withPacket c d) (stateMachine setup host (withPacket c d) event)) :
    Good c (multiStatemach setup host c (.readable (some d))) :=
  readable_good hlength hevent hdispatch (h.withPacket d).inOrder (.of_eq rfl rfl) fun _ =>
    hmachine.of_withPacket

/-- The state machine refuses the event. -/
theorem refused_good (h : Going c) {event : Event}
    (hstart : c.state = .start → sendFirst setup host c event = (c, .tftpIllegal))
    (hrx : tftpRx host c event = (c, .tftpIllegal)) : Good c (stateMachine setup host c event) := by
  unfold stateMachine
  rcases h.state with hstate | hstate
  · rw [hstate]
    simp only
    rw [hstart hstate]
    exact .stop h.inOrder (.of_eq rfl rfl) (.inl (by decide))
  · rw [hstate]
    simp only
    rw [hrx]
    exact .stop h.inOrder (.of_eq rfl rfl) (.inl (by decide))

theorem stateMachine_error_good {c0 : Conn} (h : InOrder c)
    (hstate : c.state = .start ∨ c.state = .rx) (hblksize : Kept c0 c)
    (hne : c.error ≠ errNone) : Good c0 (stateMachine setup host c .error) := by
  unfold stateMachine
  rcases hstate with hstate | hstate
  · rw [hstate]
    exact .stop (h.congr rfl rfl) hblksize (.inr ⟨rfl, hne⟩)
  · obtain ⟨sent, spacket, hsend⟩ := sendHeader_eq host c 5
    rw [hstate]
    simp only [tftpRx]
    rw [hsend]
    exact .stop (h.congr rfl rfl) hblksize (.inr ⟨rfl, hne⟩)

/-- An error packet ends the transfer. -/
theorem readable_error_good {d : Bytes} (h : Going c) (hlength : 4 ≤ d.length)
    (hevent : Event.ofNat (getrpacketevent d) = .error) :
    Good c (multiStatemach setup host c (.readable (some d))) := by
  have hin : InOrder
    { withPacket c d with error := (getrpacketblock (withPacket c d).rpacket : Int) } :=
    h.inOrder.congr rfl rfl
  refine readable_good hlength hevent rfl hin (.of_eq rfl rfl) fun _ => ?_
  refine stateMachine_error_good hin h.state (.of_eq rfl rfl) ?_
  exact show (getrpacketblock (withPacket c d).rpacket : Int) ≠ -100 by omega

theorem tftpRx_oack_good {c0 : Conn} (h : InOrder c) (herror : c.error = errNone)
    (hnone : c.accepted = []) (hc0 : c0.accepted = []) : Good c0 (tftpRx host c .oack) := by
  obtain ⟨sent, code, hsend, hcode⟩ := sendOr_eq host
    { c with block := 0, retries := 0, spacket := setpacketblock (setpacketevent c.spacket 4) 0 } 4
  rw [tftpRx, hsend]
  rcases hcode with rfl | rfl
  · refine .same ⟨h.congr rfl rfl, .inr rfl, ?_, herror⟩ fun hne => (hne hc0).elim
    simp only [hnone, List.length_nil]
  · exact .stop (h.congr rfl rfl) (fun hne => (hne hc0).elim) (.inl (by decide))

/-- An option acknowledgement before the first block. -/
theorem readable_oack_good {d : Bytes} (hdown : setup.upload = false) (h : Going c)
    (hlength : 4 ≤ d.length) (hevent : Event.ofNat (getrpacketevent d) = .oack)
    (hnone : c.accepted = []) : Good c (multiStatemach setup host c (.readable (some d))) := by
  rcases hparse : parseOptionAck setup.upload (withPacket c d).requestedBlksize
    ((withPacket c d).rpacket.drop 2) with ⟨blksize, code⟩
  have hin : InOrder { withPacket c d with blksize } := h.inOrder.congr rfl rfl
  have hdispatch : dispatch setup host (withPacket c d) d .oack =
      ({ withPacket c d with blksize }, code) := by
    rw [dispatch, hparse]
  refine readable_good hlength hevent hdispatch hin (fun hne => (hne hnone).elim) fun _ => ?_
  unfold stateMachine
  rcases h.state with hstate | hstate
  · rw [show (withPacket c d).state = .start from hstate]
    simp only [sendFirst, hdown, Bool.false_eq_true, if_false]
    refine connectFor_rx_good hin (fun hne => (hne hnone).elim) fun retryTime retryMax => ?_
    exact tftpRx_oack_good (hin.congr rfl rfl) h.error hnone hnone
  · rw [show (withPacket c d).state = .rx from hstate]
    exact tftpRx_oack_good hin h.error hnone hnone

/-- A block that is not the next one: it was accepted before and is full, or it is ignored. -/
theorem tftpRx_old_good {c0 : Conn} (h : InOrder c) (hstate : c.state = .rx)
    (hblock : c.block = c.accepted.length % 65536) (herror : c.error = errNone)
    (hblksize : Kept c0 c)
    (hnext : nextBlocknum c.block ≠ getrpacketblock c.rpacket)
    (hfull : getrpacketblock c.rpacket = c.block → c.blksize + 4 ≤ c.rpacket.length) :
    Good c0 (tftpRx host c .data) := by
  rw [tftpRx]
  simp only [if_neg hnext]
  split
  · rename_i hagain
    refine rxAck_good h herror hblksize (hagain ▸ hblock) fun hshort => ?_
    have := hfull hagain.symm
    omega
  · exact .same ⟨h, .inr hstate, hblock, herror⟩ hblksize

/-- The next block. -/
theorem tftpRx_next_good {c0 : Conn} (h : InOrder c) (herror : c.error = errNone)
    (hblksize : Kept c0 c)
    (hnext : nextBlocknum c.block = getrpacketblock c.rpacket)
    (hblock : getrpacketblock c.rpacket = c.accepted.length % 65536)
    (hshort : c.rpacket.length < c.blksize + 4 → ShortLast c) : Good c0 (tftpRx host c .data) := by
  rw [tftpRx]
  simp only [if_pos hnext]
  exact rxAck_good (h.congr rfl rfl) herror hblksize hblock hshort

/-- The connection with one more block. -/
def withBlock (c : Conn) (block : Nat × Bytes) (written : List Bytes) : Conn :=
  { c with accepted := c.accepted ++ [block], written }

theorem kept_withBlock (c : Conn) (block : Nat × Bytes) (written : List Bytes) :
    Kept c (withBlock c block written) := fun _ =>
  ⟨List.append_ne_nil_of_right_ne_nil _ (List.cons_ne_nil _ _), rfl⟩

theorem InOrder.withBlock {payload : Bytes} {written : List Bytes} (h : InOrder c)
    (hbytes : written.flatten = c.written.flatten ++ payload) :
    InOrder (withBlock c ((c.accepted.length + 1) % 65536, payload) written) where
  numbers := by
    simp only [Tftp.withBlock, List.map_append, h.numbers, List.length_append,
      List.length_singleton, List.range_succ, List.map_singleton]
  bytes := by
    simp only [Tftp.withBlock, List.flatMap_append, List.flatMap_singleton, hbytes, h.bytes]

/-- The client gets the next block; the empty one is not passed on. -/
theorem dispatch_next {d : Bytes} (hnext : nextBlocknum c.block = getrpacketblock c.rpacket)
    (hpacket : c.rpacket = d) :
    ∃ written code, written.flatten = c.written.flatten ++ d.drop 4 ∧
      ((code = .ok ∧ dispatch setup host c d .data =
          (withBlock c (getrpacketblock c.rpacket, d.drop 4) written, code)) ∨
        (code ≠ .ok ∧ dispatch setup host c d .data =
          ((stateMachine setup host
            (withBlock c (getrpacketblock c.rpacket, d.drop 4) written) .error).1,
            code))) := by
  rw [dispatch]
  simp only [if_pos hnext]
  by_cases hempty : c.rpacket.length > 4
  · rw [if_pos hempty]
    refine ⟨c.written ++ [c.rpacket.drop 4], host.clientWrite, ?_, ?_⟩
    · rw [List.flatten_append, List.flatten_singleton, hpacket]
    · by_cases hwrite : host.clientWrite = .ok
      · exact .inl ⟨hwrite, by rw [if_neg (not_not.mpr hwrite), hwrite]; rfl⟩
      · exact .inr ⟨hwrite, by rw [if_pos hwrite]; rfl⟩
  · rw [if_neg hempty]
    refine ⟨c.written, .ok, ?_, .inl ⟨rfl, rfl⟩⟩
    rw [List.drop_of_length_le (by rw [← hpacket]; omega), List.append_nil]

theorem readable_data_good {d : Bytes} (h : Going c) (hlength : 4 ≤ d.length)
    (hevent : Event.ofNat (getrpacketevent d) = .data)
    (hfull : getrpacketblock d = c.block → c.blksize + 4 ≤ d.length)
    (hfits : getrpacketblock d = nextBlocknum c.block → d.length ≤ c.blksize + 4) :
    Good c (multiStatemach setup host c (.readable (some d))) := by
  have hnumber : getrpacketblock (withPacket c d).rpacket = getrpacketblock d :=
    get16_take (by omega)
  by_cases hnext : nextBlocknum c.block = getrpacketblock d
  · have hpacket : (withPacket c d).rpacket = d := List.take_of_length_le (hfits hnext.symm)
    have hblock : getrpacketblock d = (c.accepted.length + 1) % 65536 := by
      rw [← hnext, h.block, nextBlocknum]
      omega
    obtain ⟨written, code, hwritten, hcases⟩ :=
      @dispatch_next setup host (withPacket c d) d (hnext.trans hnumber.symm) hpacket
    rw [hnumber, hblock] at hcases
    have hin : InOrder
      (withBlock (withPacket c d) ((c.accepted.length + 1) % 65536, d.drop 4) written) :=
      (h.withPacket d).inOrder.withBlock hwritten
    have hcount : (c.accepted.length + 1) % 65536 =
        (withBlock (withPacket c d) ((c.accepted.length + 1) % 65536,
          d.drop 4) written).accepted.length % 65536 := by
      rw [withBlock, List.length_append]
      rfl
    have hshort : (withPacket c d).rpacket.length < c.blksize + 4 →
        ShortLast
          (withBlock (withPacket c d) ((c.accepted.length + 1) % 65536, d.drop 4) written) := by
      intro hlt
      refine ⟨_, List.getLast?_concat, ?_⟩
      rw [hpacket] at hlt
      rw [List.length_drop]
      exact show d.length - 4 < c.blksize by omega
    have hkept : Kept c
      (withBlock (withPacket c d) ((c.accepted.length + 1) % 65536, d.drop 4) written) :=
      kept_withBlock (withPacket c d) _ written
    rcases hcases with ⟨rfl, hdispatch⟩ | ⟨hne, hdispatch⟩
    · refine readable_good hlength hevent hdispatch hin hkept fun _ => ?_
      unfold stateMachine
      rcases h.state with hstate | hstate
      · rw [show (withBlock (withPacket c d) ((c.accepted.length + 1) % 65536,
          d.drop 4) written).state = .start from hstate]
        refine connectFor_rx_good hin hkept fun retryTime retryMax => ?_
        exact tftpRx_next_good (hin.congr rfl rfl) h.error hkept (hnext.trans hnumber.symm)
          ((hnumber.trans hblock).trans hcount) hshort
      · rw [show (withBlock (withPacket c d) ((c.accepted.length + 1) % 65536,
          d.drop 4) written).state = .rx from hstate]
        exact tftpRx_next_good hin h.error hkept (hnext.trans hnumber.symm)
          ((hnumber.trans hblock).trans hcount) hshort
    · obtain ⟨haccepted, hwritten', hblksize⟩ := stateMachine_error setup host
        (withBlock (withPacket c d) ((c.accepted.length + 1) % 65536, d.drop 4) written)
      refine readable_good hlength hevent hdispatch (hin.congr haccepted hwritten')
        (hkept.trans (.of_eq haccepted hblksize)) fun hok => ?_
      exact (hne hok).elim
  · have hnext' : ¬nextBlocknum (withPacket c d).block =
      getrpacketblock (withPacket c d).rpacket := by
      rw [hnumber]
      exact hnext
    have hdispatch : dispatch setup host (withPacket c d) d .data = (withPacket c d, .ok) := by
      rw [dispatch, if_neg hnext']
    have hfull' : getrpacketblock (withPacket c d).rpacket = c.block →
        c.blksize + 4 ≤ (withPacket c d).rpacket.length := by
      intro hagain
      have := hfull (hnumber ▸ hagain)
      rw [withPacket, List.length_take]
      omega
    refine readable_other_good h hlength hevent hdispatch ?_
    have hgoing := h.withPacket d
    unfold stateMachine
    rcases h.state with hstate | hstate
    · rw [show (withPacket c d).state = .start from hstate]
      refine connectFor_rx_good hgoing.inOrder (.of_eq rfl rfl) fun retryTime retryMax => ?_
      exact tftpRx_old_good (hgoing.inOrder.congr rfl rfl) rfl h.block h.error
        (.of_eq rfl rfl) hnext' hfull'
    · rw [show (withPacket c d).state = .rx from hstate]
      exact tftpRx_old_good hgoing.inOrder hstate h.block h.error (.of_eq rfl rfl) hnext' hfull'

/-- A packet that is too short counts as a timeout. -/
theorem readable_short_good {dgram : Option Bytes} (h : Going c)
    (hshort : (dgram.getD []).length < 4) :
    Good c (multiStatemach setup host c (.readable dgram)) := by
  have hpacket : (withPacket c (dgram.getD [])).rpacket.length < 4 := by
    rw [withPacket, List.length_take]
    omega
  have hreceive : receivePacket setup host c dgram =
    (withPacket c (dgram.getD []), .timeout, .ok) :=
    if_pos hpacket
  rw [multiStatemach, hreceive]
  exact (timeout_good (h.withPacket _)).of_withPacket

/-- A round of a download keeps the blocks in order. -/
theorem multiStatemach_good {input : Input} (hdown : setup.upload = false) (h : Going c)
    (horderly : Orderly c input) : Good c (multiStatemach setup host c input) := by
  cases input with
  | expired => exact .stop (h.inOrder.congr rfl rfl) (.of_eq rfl rfl) (.inl (by decide))
  | slow => exact timeout_good h
  | readable dgram =>
    cases dgram with
    | none => exact readable_short_good h (by decide)
    | some d =>
      by_cases hlength : 4 ≤ d.length
      swap
      · exact readable_short_good h (Nat.lt_of_not_le hlength)
      obtain ⟨hoack, hack, hfull, hfits⟩ := horderly hlength
      have hgoing := h.withPacket d
      cases hevent : Event.ofNat (getrpacketevent d) with
      | data => exact readable_data_good h hlength hevent (hfull hevent) (hfits hevent)
      | oack => exact readable_oack_good hdown h hlength hevent (hoack hevent)
      | error => exact readable_error_good h hlength hevent
      | timeout => exact readable_other_good h hlength hevent rfl (timeout_good hgoing)
      | ack =>
        refine readable_other_good h hlength hevent rfl (refused_good hgoing (fun hstart => ?_) rfl)
        exact (hack hevent hstart).elim
      | init =>
        refine readable_other_good h hlength hevent rfl ?_
        unfold stateMachine
        rcases hgoing.state with hstate | hstate
        · rw [hstate]
          exact sendFirst_again_good hgoing (.inl rfl)
        · rw [hstate]
          exact .stop hgoing.inOrder (.of_eq rfl rfl) (.inl (by decide))
      | rrq =>
        exact readable_other_good h hlength hevent rfl (refused_good hgoing (fun _ => rfl) rfl)
      | wrq =>
        exact readable_other_good h hlength hevent rfl (refused_good hgoing (fun _ => rfl) rfl)
      | other code =>
        exact readable_other_good h hlength hevent rfl (refused_good hgoing (fun _ => rfl) rfl)

/-! ### Whole downloads -/

theorem translateCode_eq_ok {error : Int} (h : translateCode error = .ok) : error = errNone := by
  unfold translateCode at h
  by_contra hne
  rw [if_neg hne] at h
  repeat' split at h
  all_goals cases h

/-- A download as far as it got. -/
structure Downloaded (t : Transfer) : Prop where
  inOrder : InOrder t.conn
  going : t.ended = none → Going t.conn
  finished : t.ended = some .ok → ShortLast t.conn

theorem Good.downloaded {r : Conn × Curlcode} (h : Good c r) : Downloaded (.after r) := by
  obtain ⟨c', code⟩ := r
  cases code with
  | ok =>
    refine ⟨h.inOrder, fun hnone => ?_, fun hok => ?_⟩
    · refine h.going rfl fun hfin => ?_
      rw [Transfer.after, if_pos hfin] at hnone
      cases hnone
    · simp only [Transfer.after] at hok
      split at hok
      · exact h.finished rfl ‹_› (translateCode_eq_ok (Option.some.inj hok))
      · cases hok
  | _ =>
    exact ⟨h.inOrder, (fun hnone => nomatch hnone), (fun hok => nomatch hok)⟩

/-- The rounds of a transfer. -/
def Transfer.run (setup : Setup) : Transfer → List (Host × Input) → Transfer
  | t, [] => t
  | t, (host, input) :: rest => (t.round setup host input).run setup rest

/-- Every datagram meets the condition when it comes. -/
def OrderlyRun (setup : Setup) : Transfer → List (Host × Input) → Prop
  | _, [] => True
  | t, (host, input) :: rest => Orderly t.conn input ∧
    OrderlyRun setup (t.round setup host input) rest

def decideOrderlyRun (setup : Setup) :
    (t : Transfer) → (rounds : List (Host × Input)) → Decidable (OrderlyRun setup t rounds)
  | _, [] => isTrue trivial
  | t, (host, input) :: rest =>
    have := decideOrderlyRun setup (t.round setup host input) rest
    inferInstanceAs (Decidable (_ ∧ _))

instance (setup : Setup) (t : Transfer) (rounds : List (Host × Input)) :
    Decidable (OrderlyRun setup t rounds) := decideOrderlyRun setup t rounds

theorem round_downloaded {t : Transfer} {input : Input} (hdown : setup.upload = false)
    (h : Downloaded t) (horderly : Orderly t.conn input) :
    Downloaded (t.round setup host input) ∧ Kept t.conn (t.round setup host input).conn := by
  rw [Transfer.round]
  split
  · rename_i hnone
    have hgood := @multiStatemach_good setup host t.conn input hdown (h.going hnone) horderly
    refine ⟨hgood.downloaded, ?_⟩
    have hconn (r : Conn × Curlcode) : (Transfer.after r).conn = r.1 := by
      obtain ⟨c, code⟩ := r
      cases code <;> rfl
    rw [hconn]
    exact hgood.kept
  · exact ⟨h, .of_eq rfl rfl⟩

theorem run_downloaded {t : Transfer} {rounds : List (Host × Input)} (hdown : setup.upload = false)
    (h : Downloaded t) (horderly : OrderlyRun setup t rounds) :
    Downloaded (t.run setup rounds) ∧ Kept t.conn (t.run setup rounds).conn := by
  induction rounds generalizing t with
  | nil => exact ⟨h, .of_eq rfl rfl⟩
  | cons round rounds ih =>
    obtain ⟨hround, hkept⟩ := @round_downloaded setup round.1 t round.2 hdown h horderly.1
    obtain ⟨hrun, hkept'⟩ := ih hround horderly.2
    exact ⟨hrun, hkept.trans hkept'⟩

theorem Transfer.run_append (t : Transfer) (first second : List (Host × Input)) :
    t.run setup (first ++ second) = (t.run setup first).run setup second := by
  induction first generalizing t with
  | nil => rfl
  | cons round first ih => exact ih _

theorem OrderlyRun.split {t : Transfer} {first second : List (Host × Input)}
    (h : OrderlyRun setup t (first ++ second)) :
    OrderlyRun setup t first ∧ OrderlyRun setup (t.run setup first) second := by
  induction first generalizing t with
  | nil => exact ⟨trivial, h⟩
  | cons round first ih => exact ⟨⟨h.1, (ih h.2).1⟩, (ih h.2).2⟩

theorem perform_downloaded (requested retryTime retryMax : Nat) (file : Bytes) (cut : Nat → Nat) :
    Downloaded (perform setup host (connect requested retryTime retryMax file cut)) := by
  have hgoing : Going (connect requested retryTime retryMax file cut) :=
    ⟨⟨rfl, rfl⟩, .inl rfl, rfl, rfl⟩
  exact (sendFirst_again_good hgoing (.inl rfl)).downloaded

/-- In every run of a download whose datagrams meet the condition: the bytes passed to the client
are those of the blocks 1, 2, 3 and so on, the block size stays from the first accepted block on,
and a transfer that ends well has a short block as its last one. -/
theorem tftp_download_in_order (setup : Setup) (hdown : setup.upload = false) (host : Host)
    (requested retryTime retryMax : Nat) (file : Bytes) (cut : Nat → Nat)
    (first second : List (Host × Input))
    (horderly : OrderlyRun setup
    (perform setup host (connect requested retryTime retryMax file cut))
      (first ++ second)) :
    let t := (perform setup host (connect requested retryTime retryMax file cut)).run setup first
    let t' := (perform setup host (connect requested retryTime retryMax file cut)).run setup
      (first ++ second)
    t.conn.accepted.map Prod.fst =
      (List.range t.conn.accepted.length).map (fun k => (k + 1) % 65536) ∧
      t.conn.written.flatten = t.conn.accepted.flatMap Prod.snd ∧
      (t.conn.accepted ≠ [] → t'.conn.blksize = t.conn.blksize) ∧
      (t.ended = some .ok →
        ∃ b, t.conn.accepted.getLast? = some b ∧ b.2.length < t.conn.blksize) := by
  intro t t'
  obtain ⟨hfirst, hsecond⟩ := horderly.split
  obtain ⟨hdownloaded, -⟩ := run_downloaded hdown
    (perform_downloaded requested retryTime retryMax file cut) hfirst
  obtain ⟨-, hkept⟩ := run_downloaded hdown hdownloaded hsecond
  refine ⟨hdownloaded.inOrder.numbers, hdownloaded.inOrder.bytes, fun hne => ?_,
    hdownloaded.finished⟩
  rw [show t' = t.run setup second from Transfer.run_append _ _ _]
  exact (hkept hne).2

/-- A read request for a short name, with calls that all work. -/
def readRequest : Setup := ⟨false, [97], .ok [97], false, false, -1⟩

def willing : Host := ⟨true, .ok, .ok, .ok, some (5, 3)⟩

/-- The block size 8 is agreed on, and two blocks come, the first of them twice. -/
def twoBlocks : List (Host × Input) :=
  [(willing, .readable (some ([0, 6] ++ Strcase.ascii "blksize" ++ [0, 56, 0]))),
    (willing, .readable (some [0, 3, 0, 1, 1, 2, 3, 4, 5, 6, 7, 8])),
    (willing, .readable (some [0, 3, 0, 1, 1, 2, 3, 4, 5, 6, 7, 8])),
    (willing, .readable (some [0, 3, 0, 2, 9, 10]))]

theorem tftp_download_in_order_short :
    let t := (perform readRequest willing (connect 8 5 3 [] id)).run readRequest twoBlocks
    t.ended = some .ok ∧ t.conn.written.flatten = [1, 2, 3, 4, 5, 6, 7, 8, 9, 10] ∧
      t.conn.written.flatten = t.conn.accepted.flatMap Prod.snd := by
  have horderly : OrderlyRun readRequest (perform readRequest willing (connect 8 5 3 [] id))
      (twoBlocks ++ []) := by decide +kernel
  exact ⟨by decide +kernel, by decide +kernel,
    (tftp_download_in_order readRequest rfl willing 8 5 3 [] id _ [] horderly).2.1⟩

/-- The block size 8 is agreed on and block 1 comes; the option acknowledgement comes once more, and
the next block 1 is taken as well. -/
theorem block_accepted_twice :
    let oack : Bytes := [0, 6] ++ Strcase.ascii "blksize" ++ [0, 56, 0]
    let t := (perform readRequest willing (connect 8 5 3 [] id)).run readRequest
      [(willing, .readable (some oack)),
        (willing, .readable (some [0, 3, 0, 1, 1, 2, 3, 4, 5, 6, 7, 8])),
        (willing, .readable (some oack)),
        (willing, .readable (some [0, 3, 0, 1, 1, 2, 3, 4, 5, 6, 7, 8]))]
    t.conn.accepted.map Prod.fst = [1, 1] ∧
      t.conn.written = [[1, 2, 3, 4, 5, 6, 7, 8], [1, 2, 3, 4, 5, 6, 7, 8]] := by
  decide +kernel

end Gurl.Tftp
