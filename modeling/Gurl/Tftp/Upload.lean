import Gurl.Tftp.Download

/-! An upload to a server that acknowledges what it gets, over a network that loses packets. -/

namespace Gurl.Tftp

variable {setup : Setup} {host : Host} {c : Conn} {b k n retryMax : Nat} {file : Bytes}

/-- A piece of the file. -/
def piece (b : Nat) (file : Bytes) (k : Nat) : Bytes := (file.drop (k * b)).take b

/-- The DATA packet for a piece; the numbers start with 1. -/
def dataPacket (b : Nat) (file : Bytes) (k : Nat) : Bytes :=
  [0, 3, hi ((k + 1) % 65536), lo ((k + 1) % 65536)] ++ piece b file k

/-- How many pieces a file has; the last one is shorter than the others. -/
def pieces (b : Nat) (file : Bytes) : Nat := file.length / b + 1

/-- What the server sends back: a DATA packet is acknowledged, and `answer` is for the request. -/
def serverReply (answer packet : Bytes) : Bytes :=
  if getrpacketevent packet = 3 then [0, 4] ++ (packet.drop 2).take 2 else answer

/-- The last packet or what the server sends back is lost some times, and then it arrives. -/
def exchange (setup : Setup) (host : Host) (answer : Bytes) (t : Transfer) (losses : Nat) :
    Transfer :=
  let t := t.run setup (List.replicate losses (host, .slow))
  t.round setup host (.readable (some (serverReply answer (t.conn.sent.getLast?.getD []))))

/-- A system that does what it is asked for. -/
structure Willing (host : Host) (retryMax : Nat) : Prop where
  sendto : host.sendto = true
  pgrsUpdate : host.pgrsUpdate = .ok
  clientRead : host.clientRead = .ok
  timeouts : ∃ retryTime, host.timeouts = some (retryTime, retryMax)

/-- The answer to the request, and the block size it stands for. -/
inductive Negotiates (requested : Nat) : Bytes → Nat → Prop where
  | ack : Negotiates requested [0, 4, 0, 0] blksizeDefault
  | oack {options : Bytes} {b : Nat} (hlength : 2 ≤ options.length)
      (hfits : options.length + 2 ≤ blksizeDefault + 4)
      (hparse : parseOptionAck true requested options = (b, .ok)) :
      Negotiates requested ([0, 6] ++ options) b

/-! ### Reading and sending a block -/

theorem readLoop_eq (cut : Nat → Nat) {fuel room : Nat} (input : Bytes) (h : room < fuel) :
    readLoop cut fuel room input = (input.take room, input.drop room) := by
  induction fuel generalizing room input with
  | zero => omega
  | succ fuel ih =>
    rw [readLoop]
    have hcb : min (min room input.length) (max 1 (cut input.length)) ≤ room := by omega
    generalize hgen : min (min room input.length) (max 1 (cut input.length)) = cb at hcb
    by_cases hmore : cb < room ∧ cb ≠ 0
    · simp only [if_pos hmore]
      rw [ih (input.drop cb) (by omega)]
      have hsum : cb + (room - cb) = room := by omega
      simp only [List.drop_drop, hsum, Prod.mk.injEq, and_true]
      rw [← List.take_add, hsum]
    · simp only [if_neg hmore]
      rcases Nat.eq_or_lt_of_le hcb with rfl | hlt
      · rfl
      · have hzero : cb = 0 := by omega
        have hempty : input = [] := by
          rw [← List.length_eq_zero_iff]
          omega
        rw [hempty]
        simp

theorem setpacket_take (packet : Bytes) (event num : Nat) :
    (setpacketblock (setpacketevent packet event) num).take 4 =
      [hi event, lo event, hi num, lo num] := rfl

theorem sendOr_ok (h : host.sendto = true) (c : Conn) (len : Nat) :
    sendOr host c len = ({ c with sent := c.sent ++ [c.spacket.take len] }, .ok) := by
  simp only [sendOr, send, h, if_true]

theorem piece_zero_length (b : Nat) (file : Bytes) (k : Nat) :
    (piece b file k).length = min b (file.length - k * b) := by
  rw [piece, List.length_take, List.length_drop]

/-- The upload has sent a piece some times and waits for its acknowledgement. -/
structure Awaiting (b : Nat) (file : Bytes) (retryMax k n : Nat) (c : Conn) : Prop where
  state : c.state = .tx
  error : c.error = errNone
  retries : c.retries = n
  retryMax : c.retryMax = retryMax
  blksize : c.blksize = b
  block : c.block = (k + 1) % 65536
  sbytes : c.sbytes = (piece b file k).length
  input : c.input = file.drop ((k + 1) * b)
  packet : c.spacket.take (4 + c.sbytes) = dataPacket b file k

/-- The next piece is read and sent. -/
theorem sendBlock_spec (h : Willing host retryMax) {packet : Bytes} (hstate : c.state = .tx)
    (herror : c.error = errNone) (hretries : c.retries = 0) (hretryMax : c.retryMax = retryMax)
    (hblksize : c.blksize = b) (hblock : c.block = (k + 1) % 65536)
    (hinput : c.input = file.drop (k * b))
    (hpacket : c.spacket = setpacketblock (setpacketevent packet 3) c.block) :
    ∃ c', sendBlock host c = (c', .ok) ∧ Awaiting b file retryMax k 0 c' ∧
      c'.sent = c.sent ++ [dataPacket b file k] := by
  have hread : readLoop c.cut (c.blksize + 1) c.blksize c.input =
      (piece b file k, file.drop ((k + 1) * b)) := by
    rw [readLoop_eq _ _ (Nat.lt_succ_self _), hblksize, hinput, List.drop_drop, piece, Nat.succ_mul]
  have hsent : (c.spacket.take 4 ++ piece b file k ++
    c.spacket.drop (4 + (piece b file k).length)).take
      (4 + (piece b file k).length) = dataPacket b file k := by
    rw [hpacket, setpacket_take, List.take_append_of_le_length (by simp; omega),
      List.take_of_length_le (by simp; omega), hblock]
    rfl
  rw [sendBlock, if_neg (not_not.mpr h.clientRead)]
  simp only [hread]
  rw [sendOr_ok h.sendto]
  refine ⟨_, rfl, ⟨hstate, herror, hretries, hretryMax, hblksize, hblock, rfl, rfl, hsent⟩, ?_⟩
  exact congrArg (c.sent ++ [·]) hsent

/-! ### Losses -/

/-- Rounds that keep a transfer going and send a packet once more. -/
theorem run_slow {P : Nat → Conn → Prop} {packet : Bytes} {limit : Nat}
    (hstep : ∀ {c n}, P n c → n + 1 ≤ limit → ∃ c', stateMachine setup host c .timeout = (c', .ok) ∧
      P (n + 1) c' ∧ c'.state ≠ .fin ∧ c'.sent = c.sent ++ [packet])
    (losses : Nat) {n : Nat} {c : Conn} (h : P n c) (hle : n + losses ≤ limit) :
    ∃ c', (Transfer.mk c none).run setup (List.replicate losses (host, .slow)) = ⟨c', none⟩ ∧
      P (n + losses) c' ∧ c'.sent = c.sent ++ List.replicate losses packet := by
  induction losses generalizing n c with
  | zero => exact ⟨c, rfl, h, (List.append_nil _).symm⟩
  | succ losses ih =>
    obtain ⟨c1, hcall, hnext, hstate, hsent⟩ := hstep h (by omega)
    obtain ⟨c', hrun, hlast, hsent'⟩ := ih hnext (by omega)
    refine ⟨c', ?_, ?_, ?_⟩
    · rw [List.replicate_succ, Transfer.run, Transfer.round, if_pos rfl, multiStatemach, hcall,
        Transfer.after, if_neg hstate]
      exact hrun
    · rw [Nat.add_comm losses 1, ← Nat.add_assoc]
      exact hlast
    · rw [hsent', hsent, List.append_assoc, List.replicate_succ]
      rfl

theorem Awaiting.slow (hhost : Willing host retryMax) (h : Awaiting b file retryMax k n c)
    (hle : n + 1 ≤ retryMax) :
    ∃ c', stateMachine setup host c .timeout = (c', .ok) ∧ Awaiting b file retryMax k (n + 1) c' ∧
      c'.state ≠ .fin ∧ c'.sent = c.sent ++ [dataPacket b file k] := by
  unfold stateMachine
  rw [h.state]
  have hmore : ¬c.retries + 1 > c.retryMax := by
    rw [h.retries, h.retryMax]
    omega
  simp only [tftpTx, if_neg hmore, sendOr_ok hhost.sendto]
  refine ⟨_, rfl,
    ⟨h.state, h.error, congrArg (· + 1) h.retries, h.retryMax, h.blksize, h.block, h.sbytes,
    h.input, h.packet⟩, ?_, congrArg (c.sent ++ [·]) h.packet⟩
  rw [h.state]
  decide

/-! ### Acknowledgements -/

theorem get16_cons (x y : UInt8) (num : Nat) (rest : Bytes) (h : num < 65536) :
    get16 (x :: y :: hi num :: lo num :: rest) 2 = num := by
  have hhi : (hi num).toNat = num / 256 := by
    rw [hi, UInt8.toNat_ofNat']
    exact Nat.mod_eq_of_lt (by omega)
  have hlo : (lo num).toNat = num % 256 := by
    rw [lo, UInt8.toNat_ofNat']
    exact Nat.mod_eq_of_lt (by omega)
  simp only [get16, List.getD_cons_succ, List.getD_cons_zero, hhi, hlo]
  omega

/-- The acknowledgement of a piece. -/
def ackPacket (k : Nat) : Bytes := [0, 4, hi ((k + 1) % 65536), lo ((k + 1) % 65536)]

theorem serverReply_dataPacket (answer : Bytes) (k : Nat) :
    serverReply answer (dataPacket b file k) = ackPacket k := by
  unfold dataPacket ackPacket
  generalize (k + 1) % 65536 = num
  simp [serverReply, getrpacketevent, get16]

theorem receivePacket_ack (h : Willing host retryMax) (c : Conn) (x y : UInt8) :
    receivePacket setup host c (some [0, 4, x, y]) =
      ({ c with rpacket := [0, 4, x, y] }, .ack, .ok) := by
  have htake : [0, 4, x, y].take (c.blksize + 4) = [0, 4, x, y] := List.take_of_length_le (by simp)
  have hevent : getrpacketevent [0, 4, x, y] = 4 := by simp [getrpacketevent, get16]
  have hpgrs : ¬host.pgrsUpdate ≠ .ok := not_not.mpr h.pgrsUpdate
  simp only [receivePacket, Option.getD_some, htake]
  rw [if_neg (show ¬[0, 4, x, y].length < 4 by simp), hevent]
  simp only [Event.ofNat, dispatch, if_neg hpgrs]

/-- The acknowledgement of a full piece makes the next one go out, and the one of a short piece ends
the transfer unless the next number is 0 or 1. -/
theorem Awaiting.ack (hhost : Willing host retryMax) (h : Awaiting b file retryMax k n c) :
    (((k + 2) % 65536 > 1 ∧ (piece b file k).length < b) →
      ∃ c', multiStatemach setup host c (.readable (some (ackPacket k))) = (c', .ok) ∧
        c'.state = .fin ∧ c'.error = errNone ∧ c'.sent = c.sent) ∧
    (¬((k + 2) % 65536 > 1 ∧ (piece b file k).length < b) →
      ∃ c', multiStatemach setup host c (.readable (some (ackPacket k))) = (c', .ok) ∧
        Awaiting b file retryMax (k + 1) 0 c' ∧
          c'.sent = c.sent ++ [dataPacket b file (k + 1)]) := by
  have hblock : getrpacketblock (ackPacket k) = c.block := by
    rw [h.block]
    exact get16_cons 0 4 _ [] (Nat.mod_lt _ (by decide))
  have hexpected : ¬(getrpacketblock (ackPacket k) ≠ c.block ∧
      ¬(c.block = 0 ∧ getrpacketblock (ackPacket k) = 65535)) := fun hnot => hnot.1 hblock
  have hnext : nextBlocknum c.block = (k + 2) % 65536 := by
    rw [nextBlocknum, h.block]
    omega
  rw [multiStatemach, ackPacket, receivePacket_ack hhost, ← ackPacket]
  unfold stateMachine
  simp only [h.state, tftpTx, if_neg hexpected, hnext, txNext]
  constructor
  · intro hlast
    have hfin : (k + 2) % 65536 > 1 ∧ c.sbytes < c.blksize := by
      rw [h.sbytes, h.blksize]
      exact hlast
    rw [if_pos hfin]
    exact ⟨_, rfl, rfl, h.error, rfl⟩
  · intro hmore
    have hfin : ¬((k + 2) % 65536 > 1 ∧ c.sbytes < c.blksize) := by
      rw [h.sbytes, h.blksize]
      exact hmore
    rw [if_neg hfin]
    exact sendBlock_spec hhost rfl h.error rfl h.retryMax h.blksize rfl h.input rfl

/-! ### The request -/

/-- The request was sent and no answer came yet. -/
structure Requested (request : Bytes) (requested retryMax n : Nat) (file : Bytes) (setup : Setup)
    (c : Conn) : Prop where
  state : c.state = .start
  error : c.error = errNone
  retries : c.retries = n + 1
  retryMax : c.retryMax = retryMax
  blksize : c.blksize = blksizeDefault
  requestedBlksize : c.requestedBlksize = requested
  block : c.block = 0
  input : c.input = file
  packet : requestPacket setup c = .ok request

theorem requestPacket_congr {c' : Conn} (hblksize : c'.blksize = c.blksize)
    (hrequested : c'.requestedBlksize = c.requestedBlksize) (htime : c'.retryTime = c.retryTime) :
    requestPacket setup c' = requestPacket setup c := by
  unfold requestPacket
  rw [hblksize, hrequested, htime]

theorem Requested.slow {request : Bytes} {requested limit : Nat} (hhost : Willing host retryMax)
    (h : Requested request requested limit n file setup c) (hle : n + 1 + 1 ≤ limit) :
    ∃ c', stateMachine setup host c .timeout = (c', .ok) ∧
      Requested request requested limit (n + 1) file setup c' ∧ c'.state ≠ .fin ∧
      c'.sent = c.sent ++ [request] := by
  unfold stateMachine
  rw [h.state]
  have hmore : ¬c.retries + 1 > c.retryMax := by
    rw [h.retries, h.retryMax]
    omega
  have hpacket (retries : Nat) : requestPacket setup { c with retries } = .ok request :=
    (requestPacket_congr rfl rfl rfl).trans h.packet
  simp only [sendFirst, if_neg hmore, hpacket, sendOr_ok hhost.sendto]
  refine ⟨_, rfl,
    ⟨h.state, h.error, congrArg (· + 1) h.retries, h.retryMax, h.blksize, h.requestedBlksize,
    h.block, h.input, (requestPacket_congr rfl rfl rfl).trans h.packet⟩, ?_, ?_⟩
  · rw [h.state]
    decide
  · simp only [List.take_left']

theorem optionLoop_bounds {upload : Bool} {requested fuel : Nat} {buf : Bytes} {blksize : Nat}
    (h : blksizeMin ≤ blksize) :
    blksizeMin ≤ (parseOptionLoop upload requested fuel buf blksize).1 := by
  fun_induction parseOptionLoop upload requested fuel buf blksize
  all_goals first
    | exact h
    | (rename_i ih; exact ih h)
    | (rename_i hgood ih; exact ih (by omega))

theorem Negotiates.pos {requested : Nat} {answer : Bytes} (h : Negotiates requested answer b) :
    0 < b := by
  cases h with
  | ack => decide
  | @oack options b _ _ hparse =>
    have hle :=
      @optionLoop_bounds true requested (options.length + 1) options blksizeDefault (by decide)
    rw [parseOptionAck] at hparse
    rw [hparse] at hle
    exact Nat.lt_of_lt_of_le (by decide) hle

/-- The answer to the request makes the first piece go out. -/
theorem Requested.answered {request answer : Bytes} {requested limit : Nat}
    (hup : setup.upload = true) (hhost : Willing host retryMax)
    (hanswer : Negotiates requested answer b)
    (h : Requested request requested limit n file setup c) :
    ∃ c', multiStatemach setup host c (.readable (some answer)) = (c', .ok) ∧
      Awaiting b file retryMax 0 0 c' ∧ c'.sent = c.sent ++ [dataPacket b file 0] := by
  obtain ⟨retryTime, htimeouts⟩ := hhost.timeouts
  have hinput : c.input = file.drop (0 * b) := by
    rw [h.input, Nat.zero_mul]
    rfl
  cases hanswer with
  | ack =>
    rw [multiStatemach, receivePacket_ack hhost]
    unfold stateMachine
    have hblock : getrpacketblock [0, 4, 0, 0] = c.block := by
      rw [h.block]
      decide
    have hexpected : ¬(getrpacketblock [0, 4, 0, 0] ≠ c.block ∧
        ¬(c.block = 0 ∧ getrpacketblock [0, 4, 0, 0] = 65535)) := fun hnot => hnot.1 hblock
    have hnext : nextBlocknum c.block = 1 := by
      rw [h.block]
      rfl
    simp only [h.state, sendFirst, connectFor, setTimeouts, htimeouts, tftpTx, if_neg hexpected,
      hnext, txNext]
    rw [if_neg (fun hfin => absurd hfin.1 (by decide))]
    exact sendBlock_spec hhost rfl h.error rfl rfl h.blksize rfl hinput rfl
  | @oack options b hlength hfits hparse =>
    have htake : (([0, 6] : Bytes) ++ options).take (c.blksize + 4) = [0, 6] ++ options := by
      refine List.take_of_length_le ?_
      rw [h.blksize, List.length_append]
      exact Nat.le_trans (Nat.le_of_eq (Nat.add_comm _ _)) hfits
    have hpgrs : ¬host.pgrsUpdate ≠ .ok := not_not.mpr hhost.pgrsUpdate
    have hevent : getrpacketevent ([0, 6] ++ options) = 6 := by simp [getrpacketevent, get16]
    have hlong : ¬(([0, 6] : Bytes) ++ options).length < 4 := by
      rw [List.length_append]
      exact Nat.not_lt.mpr (Nat.add_le_add_left hlength 2)
    have hreceive : receivePacket setup host c (some ([0, 6] ++ options)) =
        ({ c with rpacket := [0, 6] ++ options, blksize := b }, .oack, .ok) := by
      simp only [receivePacket, Option.getD_some, htake]
      rw [if_neg hlong, hevent]
      have hdrop : (([0, 6] : Bytes) ++ options).drop 2 = options := rfl
      simp only [Event.ofNat, dispatch, hdrop, hup, h.requestedBlksize, hparse, if_neg hpgrs]
    rw [multiStatemach, hreceive]
    unfold stateMachine
    simp only [h.state, sendFirst, hup, if_true, connectFor, setTimeouts, htimeouts, tftpTx, txNext]
    rw [if_neg (fun hfin => absurd hfin.1 (by decide))]
    exact sendBlock_spec hhost rfl h.error rfl rfl rfl rfl hinput rfl

/-! ### Whole uploads -/

/-- The transfer after the request was answered and some pieces were acknowledged. -/
def afterPieces (setup : Setup) (host : Host) (answer : Bytes) (t : Transfer) (first : Nat)
    (losses : Nat → Nat) : Nat → Transfer
  | 0 => exchange setup host answer t first
  | m + 1 => exchange setup host answer (afterPieces setup host answer t first losses m) (losses m)

/-- The packets of the first pieces, each as often as it was sent. -/
def sentPieces (b : Nat) (file : Bytes) (losses : Nat → Nat) (m : Nat) : List Bytes :=
  (List.range m).flatMap fun k => List.replicate (losses k + 1) (dataPacket b file k)

theorem getLast_append_replicate (sent : List Bytes) (packet : Bytes) (n : Nat) :
    (sent ++ [packet] ++ List.replicate n packet).getLast?.getD [] = packet := by
  rw [List.append_assoc, List.singleton_append, ← List.replicate_succ, List.getLast?_append]
  simp [List.getLast?_replicate]

theorem append_singleton_replicate (sent : List Bytes) (packet : Bytes) (n : Nat) :
    sent ++ [packet] ++ List.replicate n packet = sent ++ List.replicate (n + 1) packet := by
  rw [List.append_assoc, List.singleton_append, ← List.replicate_succ]

/-- An exchange that answers the packet that was sent last. -/
theorem exchange_eq {P : Nat → Conn → Prop} {packet answer : Bytes} {limit losses : Nat}
    {sent : List Bytes}
    (hstep : ∀ {c n}, P n c → n + 1 ≤ limit → ∃ c', stateMachine setup host c .timeout = (c', .ok) ∧
      P (n + 1) c' ∧ c'.state ≠ .fin ∧ c'.sent = c.sent ++ [packet])
    (h : P n c) (hle : n + losses ≤ limit) (hsent : c.sent = sent ++ [packet]) :
    ∃ c', P (n + losses) c' ∧ c'.sent = sent ++ List.replicate (losses + 1) packet ∧
      exchange setup host answer ⟨c, none⟩ losses =
        .after (multiStatemach setup host c' (.readable (some (serverReply answer packet)))) := by
  obtain ⟨c', hrun, hlast, hsent'⟩ := run_slow hstep losses h hle
  rw [hsent] at hsent'
  refine ⟨c', hlast, hsent'.trans (append_singleton_replicate _ _ _), ?_⟩
  rw [exchange, hrun]
  simp only
  rw [hsent', getLast_append_replicate, Transfer.round, if_pos rfl]

theorem Awaiting.after {r : Conn × Curlcode} (h : ∃ c', r = (c', .ok) ∧
    Awaiting b file retryMax k n c') : Transfer.after r = ⟨r.1, none⟩ := by
  obtain ⟨c', rfl, hawait⟩ := h
  rw [Transfer.after, if_neg (by rw [hawait.state]; decide)]

theorem sentPieces_succ (losses : Nat → Nat) (m : Nat) :
    sentPieces b file losses (m + 1) =
      sentPieces b file losses m ++ List.replicate (losses m + 1) (dataPacket b file m) := by
  rw [sentPieces, List.range_succ, List.flatMap_append, List.flatMap_singleton]
  rfl

theorem piece_full (m : Nat) (h : m + 1 < pieces b file) (hb : 0 < b) :
    (piece b file m).length = b := by
  rw [piece_zero_length]
  have hle : (m + 1) * b ≤ file.length := by
    rw [← Nat.le_div_iff_mul_le hb]
    unfold pieces at h
    omega
  rw [Nat.succ_mul] at hle
  omega

theorem piece_last (hb : 0 < b) : (piece b file (pieces b file - 1)).length < b := by
  rw [piece_zero_length, pieces, Nat.add_sub_cancel]
  have hmod := Nat.mod_lt file.length hb
  have hdiv := Nat.div_add_mod file.length b
  rw [Nat.mul_comm] at hdiv
  omega

theorem flatMap_piece (b : Nat) (file : Bytes) (m : Nat) :
    (List.range m).flatMap (piece b file) = file.take (m * b) := by
  induction m with
  | zero => simp
  | succ m ih => rw [List.range_succ, List.flatMap_append, List.flatMap_singleton, ih,
      piece, Nat.succ_mul, List.take_add]

/-- Before the last piece is acknowledged, the upload waits with the next piece sent. -/
theorem afterPieces_awaiting {request answer : Bytes} {requested limit first : Nat}
    {losses : Nat → Nat} (hup : setup.upload = true) (hhost : Willing host retryMax)
    (hanswer : Negotiates requested answer b) (hrequest : getrpacketevent request ≠ 3)
    (hstart : Requested request requested limit 0 file setup c) (hsent : c.sent = [request])
    (hfirst : first + 1 ≤ limit) (hlosses : ∀ k, losses k ≤ retryMax) (m : Nat)
    (hm : m < pieces b file) :
    ∃ c', afterPieces setup host answer ⟨c, none⟩ first losses m = ⟨c', none⟩ ∧
      Awaiting b file retryMax m 0 c' ∧
      c'.sent = List.replicate (first + 1) request ++ sentPieces b file losses m ++
        [dataPacket b file m] := by
  induction m with
  | zero =>
    obtain ⟨c1, hrequested, hsent1, hexchange⟩ := @exchange_eq setup host c 0
      (fun n => Requested request requested limit n file setup) request answer (limit - 1) first []
      (fun h hle => h.slow hhost (by omega)) hstart (by omega) hsent
    rw [serverReply, if_neg hrequest] at hexchange
    obtain ⟨c2, hcall, hawait, hsent2⟩ := hrequested.answered hup hhost hanswer
    refine ⟨c2, ?_, hawait, ?_⟩
    · rw [afterPieces, hexchange, Awaiting.after ⟨c2, hcall, hawait⟩, hcall]
    · rw [hsent2, hsent1]
      simp [sentPieces]
  | succ m ih =>
    obtain ⟨c1, hrun, hawait, hsent1⟩ := ih (by omega)
    obtain ⟨c2, hawait2, hsent2, hexchange⟩ := @exchange_eq setup host c1 0
      (fun n => Awaiting b file retryMax m n) (dataPacket b file m) answer retryMax (losses m) _
      (fun h hle => h.slow hhost hle) hawait (by have := hlosses m; omega) hsent1
    rw [serverReply_dataPacket] at hexchange
    have hfull : ¬((m + 2) % 65536 > 1 ∧ (piece b file m).length < b) := by
      rw [piece_full m hm hanswer.pos]
      exact fun hnot => Nat.lt_irrefl _ hnot.2
    obtain ⟨c3, hcall, hawait3, hsent3⟩ := (hawait2.ack hhost).2 hfull
    refine ⟨c3, ?_, hawait3, ?_⟩
    · rw [afterPieces, hrun, hexchange, Awaiting.after ⟨c3, hcall, hawait3⟩, hcall]
    · rw [hsent3, hsent2, sentPieces_succ, List.append_assoc, List.append_assoc, List.append_assoc,
        List.append_assoc]

theorem optionsAdd_extends {blksize : Nat} {options : List Bytes} {packet r : Bytes}
    (h : optionsAdd blksize options packet = some r) : packet <+: r := by
  induction options generalizing packet with
  | nil =>
    cases h
    exact List.prefix_refl _
  | cons option options ih =>
    obtain ⟨packet1, hadd, hrest⟩ := Option.bind_eq_some_iff.mp h
    unfold optionAdd at hadd
    split at hadd
    · cases hadd
    · cases hadd
      exact List.IsPrefix.trans ⟨option ++ [0], by rw [List.append_assoc]⟩ (ih hrest)

/-- A write request is not a DATA packet. -/
theorem requestPacket_event {request : Bytes} (hup : setup.upload = true)
    (h : requestPacket setup c = .ok request) : getrpacketevent request ≠ 3 := by
  have hpre : [hi 2, lo 2] <+: request := by
    unfold requestPacket at h
    simp only [hup, if_true] at h
    generalize (if setup.preferAscii =
      true then Strcase.ascii "netascii" else Strcase.ascii "octet") =
      mode at h
    split at h
    · cases h
    split at h
    · cases h
    split at h
    · cases h
    split at h
    · cases h
      simp only [List.append_assoc]
      exact List.prefix_append _ _
    split at h
    · cases h
    rename_i hadd
    cases h
    refine List.IsPrefix.trans ?_ (optionsAdd_extends hadd)
    simp only [List.append_assoc]
    exact List.prefix_append _ _
  obtain ⟨t, rfl⟩ := hpre
  simp [getrpacketevent, get16, hi, lo]

theorem perform_requested {request : Bytes} {requested retryTime limit : Nat} {cut : Nat → Nat}
    (hhost : Willing host retryMax) (hlimit : 1 ≤ limit)
    (hrequest : requestPacket setup (connect requested retryTime limit file cut) = .ok request) :
    ∃ c, perform setup host (connect requested retryTime limit file cut) = ⟨c, none⟩ ∧
      Requested request requested limit 0 file setup c ∧ c.sent = [request] := by
  have hmore : ¬(connect requested retryTime limit file cut).retries + 1 >
      (connect requested retryTime limit file cut).retryMax := Nat.not_lt.mpr hlimit
  have hpacket (retries : Nat) :
      requestPacket setup { connect requested retryTime limit file cut with retries } =
        .ok request :=
    (requestPacket_congr rfl rfl rfl).trans hrequest
  have hcall : stateMachine setup host (connect requested retryTime limit file cut) .init =
      sendFirst setup host (connect requested retryTime limit file cut) .init := rfl
  rw [perform, hcall]
  simp only [sendFirst, if_neg hmore, hpacket, sendOr_ok hhost.sendto]
  refine ⟨_, rfl, ⟨rfl, rfl, rfl, rfl, rfl, rfl, rfl, rfl,
    (requestPacket_congr rfl rfl rfl).trans hrequest⟩, ?_⟩
  simp only [List.take_left']
  rfl

/-- What is left after the last piece was acknowledged: the transfer has ended, or one more packet
was sent. -/
theorem afterPieces_last {request answer : Bytes} {requested retryTime limit first : Nat}
    {cut : Nat → Nat} {losses : Nat → Nat} (hup : setup.upload = true)
    (hhost : Willing host retryMax) (hanswer : Negotiates requested answer b)
    (hrequest : requestPacket setup (connect requested retryTime limit file cut) = .ok request)
    (hfirst : first + 1 ≤ limit) (hlosses : ∀ k, losses k ≤ retryMax) {t : Transfer}
    (ht : t = afterPieces setup host answer
      (perform setup host (connect requested retryTime limit file cut)) first losses
        (pieces b file)) :
    ((pieces b file + 1) % 65536 > 1 → t.ended = some .ok ∧
      t.conn.sent = List.replicate (first + 1) request ++
        sentPieces b file losses (pieces b file)) ∧
    (¬(pieces b file + 1) % 65536 > 1 → t.ended = none ∧
      t.conn.sent = List.replicate (first + 1) request ++
        sentPieces b file losses (pieces b file) ++
        [dataPacket b file (pieces b file)]) := by
  obtain ⟨c, hperform, hrequested, hsent⟩ := perform_requested hhost (by omega) hrequest
  obtain ⟨m, hm⟩ : ∃ m, pieces b file = m + 1 := ⟨_, rfl⟩
  obtain ⟨c1, hrun, hawait, hsent1⟩ := afterPieces_awaiting hup hhost hanswer
    (requestPacket_event hup hrequest) hrequested hsent hfirst hlosses m (by omega)
  obtain ⟨c2, hawait2, hsent2, hexchange⟩ := @exchange_eq setup host c1 0
    (fun n => Awaiting b file retryMax m n) (dataPacket b file m) answer retryMax (losses m) _
    (fun h hle => h.slow hhost hle) hawait (by have := hlosses m; omega) hsent1
  rw [serverReply_dataPacket] at hexchange
  rw [hperform, hm, afterPieces, hrun, hexchange] at ht
  have hshort : (piece b file m).length < b := by
    have := @piece_last b file hanswer.pos
    rw [hm] at this
    exact this
  obtain ⟨hends, hgoes⟩ := @Awaiting.ack setup host c2 b m _ retryMax file hhost hawait2
  rw [hm, ht]
  constructor
  · intro hlast
    obtain ⟨c3, hcall, hfin, herror, hsent3⟩ := hends ⟨hlast, hshort⟩
    rw [hcall, Transfer.after, if_pos hfin, herror]
    refine ⟨rfl, ?_⟩
    rw [hsent3, hsent2, sentPieces_succ, List.append_assoc]
  · intro hlast
    obtain ⟨c3, hcall, hawait3, hsent3⟩ := hgoes fun hand => hlast hand.1
    rw [hcall, Transfer.after, if_neg (by rw [hawait3.state]; decide)]
    refine ⟨rfl, ?_⟩
    rw [hsent3, hsent2, sentPieces_succ]
    simp only [List.append_assoc]

theorem flatMap_pieces (hb : 0 < b) (file : Bytes) :
    (List.range (pieces b file)).flatMap (piece b file) = file := by
  rw [flatMap_piece, List.take_of_length_le]
  have hmod := Nat.mod_lt file.length hb
  have hdiv := Nat.div_add_mod file.length b
  rw [Nat.mul_comm] at hdiv
  rw [pieces, Nat.succ_mul]
  omega

/-- Each packet is sent once for every loss and once more, and the acknowledgement of the last
piece, which is shorter than the others, ends the transfer well, if and only if the number of pieces
is not 0 or 65535 modulo 65536. -/
theorem tftp_upload_ends_iff (setup : Setup) (hup : setup.upload = true) (host : Host)
    (requested retryTime limit retryMax : Nat) (file : Bytes) (cut : Nat → Nat)
    (request answer : Bytes)
    (b : Nat) (hhost : Willing host retryMax) (hanswer : Negotiates requested answer b)
    (hrequest : requestPacket setup (connect requested retryTime limit file cut) = .ok request)
    (first : Nat) (losses : Nat → Nat) (hfirst : first + 1 ≤ limit) (hlosses : ∀ k,
    losses k ≤ retryMax) : ((List.range (pieces b file)).flatMap (piece b file) = file ∧
      (∀ k, k + 1 < pieces b file → (piece b file k).length = b) ∧
      (piece b file (pieces b file - 1)).length < b) ∧
    let t := afterPieces setup host answer
      (perform setup host (connect requested retryTime limit file cut))
      first losses (pieces b file)
    ((t.ended = some .ok ∧
      t.conn.sent = List.replicate (first + 1) request ++
        sentPieces b file losses (pieces b file)) ↔
    pieces b file % 65536 ≠ 0 ∧ pieces b file % 65536 ≠ 65535) := by
  have hb := hanswer.pos
  refine ⟨⟨flatMap_pieces hb file, fun k hk => piece_full k hk hb, piece_last hb⟩, ?_⟩
  intro t
  obtain ⟨hends, hgoes⟩ :=
    @afterPieces_last setup host b retryMax file request answer requested retryTime limit
    first cut losses hup hhost hanswer hrequest hfirst hlosses t rfl
  by_cases hlast : (pieces b file + 1) % 65536 > 1
  · exact iff_of_true (hends hlast) (by omega)
  · refine iff_of_false (fun hended => ?_) (by omega)
    rw [(hgoes hlast).1] at hended
    cases hended.1

/-- A write request for a short name. -/
def writeRequest : Setup := ⟨true, [97], .ok [97], false, true, -1⟩

theorem willing_willing : Willing willing 3 := ⟨rfl, rfl, rfl, 5, rfl⟩

/-- Three pieces, of which the second is lost once and the third twice. -/
theorem tftp_upload_ends_iff_short :
    let t := afterPieces writeRequest willing ([0, 6] ++ (Strcase.ascii "blksize" ++ [0, 56, 0]))
      (perform writeRequest willing (connect 8 5 3 (List.replicate 20 7) id)) 0 (· % 3) 3
    t.ended = some .ok ∧ t.conn.sent.length = 7 := by
  have hends :=
    (tftp_upload_ends_iff writeRequest rfl willing 8 5 3 3 (List.replicate 20 7) id _ _ 8
    willing_willing (@Negotiates.oack 8 (Strcase.ascii "blksize" ++ [0, 56, 0]) 8 (by decide)
      (by decide) (by decide)) rfl 0 (· % 3) (by decide)
    (fun k => show k % 3 ≤ 3 by omega)).2.mpr (by decide)
  exact ⟨hends.1, congrArg List.length hends.2⟩

/-- A file of 65534 full blocks: the acknowledgement of the empty piece behind them, which has the
number 65535, makes one more packet go out. -/
theorem upload_goes_on :
    let file := List.replicate (65534 * 512) 0
    let t := afterPieces writeRequest willing [0, 4, 0, 0]
      (perform writeRequest willing (connect 512 5 3 file id)) 0 (fun _ => 0) (pieces 512 file)
    pieces 512 file = 65535 ∧ piece 512 file 65534 = [] ∧ t.ended = none ∧
      t.conn.sent.getLast? = some (dataPacket 512 file 65535) := by
  intro file t
  have hlength : file.length = 65534 * 512 := List.length_replicate
  have hpieces : pieces 512 file = 65535 := by
    rw [pieces, hlength]
  have hpiece : piece 512 file 65534 = [] := by
    rw [piece, List.drop_of_length_le (Nat.le_of_eq hlength), List.take_nil]
  obtain ⟨-, hgoes⟩ := @afterPieces_last writeRequest willing 512 3 file _ [0, 4, 0, 0] 512 5 3 0 id
    (fun _ => 0) rfl willing_willing .ack rfl (by decide) (fun _ => by decide) t rfl
  obtain ⟨hended, hsent⟩ := hgoes (by rw [hpieces]; decide)
  refine ⟨hpieces, hpiece, hended, ?_⟩
  rw [hsent, List.getLast?_concat, hpieces]

end Gurl.Tftp
