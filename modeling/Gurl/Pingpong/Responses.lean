import Gurl.Lib.Lines
import Gurl.Pingpong.Pingpong

/-! However the network splits what a server sends, the client gets each of its lines once, and the
responses end with the same lines. -/

namespace Gurl.Pingpong

open Lines

/-- The connection gives what it has and does not fail. -/
def Recv.Smooth : Recv → Prop
  | .again | .bytes _ => True
  | _ => False

/-- The connection gives at least a byte, as long as the server sends some. -/
def Recv.gives : Recv → Bool
  | .bytes _ => true
  | _ => false

/-- The code of a line that ends a response, with the line. -/
def finalLine (h : Handlers) (line : Bytes) : Option (Int × Bytes) :=
  (h.endofresp line).map fun code => (code, line)

/-- The lines given out, the bytes behind them in the buffer and those to come are the stream, and
`results` are the responses that have ended. -/
structure Ledger (h : Handlers) (stream : Bytes) (results : List (Int × Bytes)) (pp : Pp) :
    Prop where
  stream_eq : pp.asked.flatten ++ (pp.recvbuf.content.drop pp.nfinal ++ pp.incoming) = stream
  lines : ∀ line ∈ pp.asked, IsLine 10 line
  written : pp.written = pp.asked
  results_eq : results = pp.asked.filterMap (finalLine h)
  toobig : pp.recvbuf.toobig = dynPingppongCmd
  smooth : ∀ r ∈ pp.recvs, r.Smooth

/-- What holds between two calls of `Curl_pp_readresp`. -/
structure Kept (h : Handlers) (stream : Bytes) (results : List (Int × Bytes)) (pp : Pp) :
    Prop extends Ledger h stream results pp where
  rest : pp.nfinal = 0 → 10 ∉ pp.recvbuf.content ∧ pp.overflow = 0
  final : pp.nfinal ≠ 0 → pp.overflow = (pp.recvbuf.content.drop pp.nfinal).length ∧
    ∃ code, results.getLast? = some (code, pp.recvbuf.content.take pp.nfinal)

/-- The results of the calls so far, after one that has set `*code`. -/
def resultsAfter (results : List (Int × Bytes)) (pp : Pp) (code : Int) :
    List (Int × Bytes) :=
  if pp.nfinal ≠ 0 then results ++ [(code, pp.recvbuf.content.take pp.nfinal)] else results

theorem idxOf?_line {body rest : Bytes} (h : 10 ∉ body) :
    (body ++ 10 :: rest).idxOf? 10 = some body.length := by
  induction body with
  | nil => rfl
  | cons a body ih =>
    obtain ⟨ha, hbody⟩ := not_or.mp (mt List.mem_cons.mpr h)
    rw [List.cons_append, List.idxOf?_cons, if_neg (by simpa using Ne.symm ha), ih hbody]
    rfl

/-- What the buffer holds after a line of `length` bytes was taken off. -/
def restBuf (recvbuf : Dynbuf) (length : Nat) : Dynbuf :=
  if recvbuf.content.length > length then (recvbuf.tail (recvbuf.content.length - length)).1
  else recvbuf.reset

theorem restBuf_spec {recvbuf : Dynbuf} {line rest : Bytes}
    (h : recvbuf.content = line ++ rest) :
    (restBuf recvbuf line.length).content = rest ∧
      (restBuf recvbuf line.length).toobig = recvbuf.toobig := by
  have hlength : recvbuf.content.length = line.length + rest.length := by
    rw [h, List.length_append]
  unfold restBuf
  split
  · obtain ⟨-, hcontent, htoobig⟩ := recvbuf.tail_spec
      (show recvbuf.content.length - line.length ≤ recvbuf.content.length by omega)
    refine ⟨?_, htoobig⟩
    rw [hcontent, Nat.sub_sub_self (by omega), h, List.drop_left]
  · refine ⟨?_, rfl⟩
    rw [Dynbuf.content_reset, List.length_eq_zero_iff.mp (show rest.length = 0 by omega)]

/-- Behind a line that is not the last of its response. -/
def Pp.goOn (pp : Pp) (line : Bytes) : Pp :=
  { pp with
    written := pp.written ++ [line], asked := pp.asked ++ [line]
    recvbuf := restBuf pp.recvbuf line.length }

variable {h : Handlers} {stream : Bytes} {results : List (Int × Bytes)} {pp : Pp}

theorem scanLoop_rest (hrest : 10 ∉ pp.recvbuf.content) (fuel : Nat) :
    scanLoop h (fuel + 1) pp = ({ pp with overflow := 0 }, .ok, none) := by
  rw [scanLoop, List.idxOf?_eq_none_iff.mpr hrest]

theorem scanLoop_line (hwrite : ∀ line, h.clientWrite line = .ok) {body rest : Bytes}
    (hcontent : pp.recvbuf.content = body ++ 10 :: rest) (hbody : 10 ∉ body)
    (hnul : 0 ∉ pp.recvbuf.content) (fuel : Nat) :
    scanLoop h (fuel + 1) pp =
      match h.endofresp (body ++ [10]) with
      | some code => ({ pp with
          written := pp.written ++ [body ++ [10]], asked := pp.asked ++ [body ++ [10]]
          nfinal := body.length + 1, overflow := rest.length, nreadResp := 0 }, .ok,
          some (code, pp.nreadResp))
      | none => scanLoop h fuel (pp.goOn (body ++ [10])) := by
  have hline : pp.recvbuf.content.take (body.length + 1) = body ++ [10] := by
    rw [hcontent, List.take_append, List.take_of_length_le (Nat.le_succ _)]
    simp
  have hzero : 0 ∉ body ++ [10] := by
    rw [← hline]
    exact fun hmem => hnul (List.mem_of_mem_take hmem)
  have hlength : pp.recvbuf.content.length = body.length + 1 + rest.length := by
    rw [hcontent, List.length_append, List.length_cons]
    omega
  have hoverflow : (if pp.recvbuf.content.length > body.length + 1
      then pp.recvbuf.content.length - (body.length + 1) else 0) = rest.length := by
    split <;> omega
  rw [scanLoop]
  simp only [hcontent ▸ idxOf?_line hbody, hline, if_neg hzero, hwrite, hoverflow]
  rw [Pp.goOn, List.length_append, List.length_singleton]
  rfl

/-- How the bytes in the buffer go down while it is scanned. -/
def undelivered (pp : Pp) : Nat := (pp.recvbuf.content.drop pp.nfinal).length

theorem Ledger.addLine {line rest : Bytes} (hledger : Ledger h stream results pp)
    (hzero : pp.nfinal = 0) (hline : IsLine 10 line) (hcontent : pp.recvbuf.content = line ++ rest)
    (pp' : Pp) (hasked : pp'.asked = pp.asked ++ [line]) (hwritten : pp'.written = pp'.asked)
    (hrest : pp'.recvbuf.content.drop pp'.nfinal = rest) (hincoming : pp'.incoming = pp.incoming)
    (htoobig : pp'.recvbuf.toobig = pp.recvbuf.toobig) (hrecvs : pp'.recvs = pp.recvs) :
    Ledger h stream (results ++ (finalLine h line).toList) pp' where
  stream_eq := by
    rw [← hledger.stream_eq, hasked, hrest, hincoming, hzero, List.drop_zero, hcontent]
    simp
  lines := by
    rw [hasked]
    intro l hl
    rcases List.mem_append.mp hl with hl | hl
    · exact hledger.lines l hl
    · rwa [List.mem_singleton.mp hl]
  written := hwritten
  results_eq := by
    rw [hasked, List.filterMap_append, ← hledger.results_eq, List.filterMap_cons,
      List.filterMap_nil]
    cases finalLine h line <;> rfl
  toobig := htoobig.trans hledger.toobig
  smooth := by
    rw [hrecvs]
    exact hledger.smooth

theorem Ledger.nul_notMem (hledger : Ledger h stream results pp) (hzero : pp.nfinal = 0)
    (hnul : 0 ∉ stream) : 0 ∉ pp.recvbuf.content := by
  intro hmem
  apply hnul
  rw [← hledger.stream_eq, hzero, List.drop_zero]
  exact List.mem_append_right _ (List.mem_append_left _ hmem)

theorem scanLoop_spec (hwrite : ∀ line, h.clientWrite line = .ok) (hnul : 0 ∉ stream) {fuel : Nat}
    (hledger : Ledger h stream results pp) (hzero : pp.nfinal = 0)
    (hfuel : pp.recvbuf.content.length < fuel) :
    ∃ pp' final, scanLoop h fuel pp = (pp', .ok, final) ∧ pp'.recvs = pp.recvs ∧
      pp'.incoming = pp.incoming ∧
      match final with
      | none => Kept h stream results pp' ∧ pp'.nfinal = 0 ∧ undelivered pp' ≤ undelivered pp
      | some (code, _) => Kept h stream (resultsAfter results pp' code) pp' ∧ pp'.nfinal ≠ 0 ∧
          undelivered pp' < undelivered pp := by
  induction fuel generalizing pp with
  | zero => omega
  | succ fuel ih =>
    by_cases hmem : 10 ∈ pp.recvbuf.content
    · obtain ⟨body, rest, hcontent, hbody⟩ := List.eq_append_cons_of_mem hmem
      have hline : IsLine 10 (body ++ [10]) := ⟨body, hbody, rfl⟩
      have hcontent' : pp.recvbuf.content = (body ++ [10]) ++ rest := by
        rw [hcontent, List.append_assoc, List.singleton_append]
      have hunread : undelivered pp = body.length + 1 + rest.length := by
        rw [undelivered, hzero, List.drop_zero, hcontent, List.length_append, List.length_cons]
        omega
      rw [scanLoop_line hwrite hcontent hbody (hledger.nul_notMem hzero hnul)]
      cases hend : h.endofresp (body ++ [10]) with
      | some code =>
        -- the line stays in front of the rest
        have hlength : (body ++ [10]).length = body.length + 1 := List.length_append
        have hdrop : pp.recvbuf.content.drop (body.length + 1) = rest := by
          rw [hcontent', ← hlength, List.drop_left]
        have htake : pp.recvbuf.content.take (body.length + 1) = body ++ [10] := by
          rw [hcontent', ← hlength, List.take_left]
        have hafter := hledger.addLine hzero hline hcontent' { pp with
          written := pp.written ++ [body ++ [10]], asked := pp.asked ++ [body ++ [10]]
          nfinal := body.length + 1, overflow := rest.length, nreadResp := 0 }
          rfl (congrArg (· ++ _) hledger.written) hdrop rfl rfl rfl
        refine ⟨_, _, rfl, rfl, rfl,
          ⟨⟨?_, fun hz => ?_, fun _ => ⟨?_, code, ?_⟩⟩, Nat.succ_ne_zero _, ?_⟩⟩
        · rw [resultsAfter, if_pos (Nat.succ_ne_zero _)]
          simp only [htake]
          rwa [finalLine, hend] at hafter
        · exact (Nat.succ_ne_zero _ hz).elim
        · rw [hdrop]
        · rw [resultsAfter, if_pos (Nat.succ_ne_zero _), List.getLast?_concat]
        · rw [hunread, undelivered, hdrop]
          omega
      | none =>
        obtain ⟨hrest, htoobig⟩ := restBuf_spec hcontent'
        have hafter := hledger.addLine hzero hline hcontent' (pp.goOn (body ++ [10]))
          rfl (congrArg (· ++ _) hledger.written) (by rw [Pp.goOn, hzero, List.drop_zero, hrest])
            rfl htoobig rfl
        rw [finalLine, hend, Option.map_none, Option.toList_none, List.append_nil] at hafter
        have hless : (restBuf pp.recvbuf (body ++ [10]).length).content.length < fuel := by
          rw [hrest]
          rw [hcontent, List.length_append, List.length_cons] at hfuel
          omega
        have hunread' : undelivered (pp.goOn (body ++ [10])) = rest.length := by
          rw [undelivered, Pp.goOn, hzero, List.drop_zero, hrest]
        obtain ⟨pp', final, hrun, hrecvs, hincoming, hfinal⟩ := ih hafter hzero hless
        refine ⟨pp', final, hrun, hrecvs, hincoming, ?_⟩
        rw [hunread'] at hfinal
        rw [hunread]
        rcases final with _ | ⟨code, size⟩
        · exact ⟨hfinal.1, hfinal.2.1, hfinal.2.2.trans (by omega)⟩
        · exact ⟨hfinal.1, hfinal.2.1, hfinal.2.2.trans (by omega)⟩
    · rw [scanLoop_rest hmem]
      refine ⟨_, none, rfl, rfl, rfl, ⟨?_, fun _ => ⟨hmem, rfl⟩, fun hne => (hne hzero).elim⟩,
        hzero, le_rfl⟩
      exact ⟨hledger.stream_eq, hledger.lines, hledger.written, hledger.results_eq, hledger.toobig,
        hledger.smooth⟩

theorem trimFinal_spec (hkept : Kept h stream results pp) :
    Ledger h stream results (trimFinal pp) ∧ (trimFinal pp).nfinal = 0 ∧
      (trimFinal pp).overflow = pp.overflow ∧ (trimFinal pp).recvs = pp.recvs ∧
      (trimFinal pp).incoming = pp.incoming ∧ undelivered (trimFinal pp) = undelivered pp ∧
      (pp.overflow = 0 → 10 ∉ (trimFinal pp).recvbuf.content) := by
  unfold trimFinal
  split
  · rename_i hne
    obtain ⟨hoverflow, -⟩ := hkept.final hne
    obtain ⟨-, hcontent, htoobig⟩ := pp.recvbuf.tail_spec
      (Nat.sub_le pp.recvbuf.content.length pp.nfinal)
    have htail : (pp.recvbuf.tail (pp.recvbuf.content.length - pp.nfinal)).1.content =
        pp.recvbuf.content.drop pp.nfinal := by
      rw [hcontent]
      rcases Nat.le_total pp.nfinal pp.recvbuf.content.length with hle | hle
      · rw [Nat.sub_sub_self hle]
      · rw [List.drop_of_length_le hle, Nat.sub_eq_zero_of_le hle, Nat.sub_zero, List.drop_length]
    refine ⟨⟨?_, hkept.lines, hkept.written, hkept.results_eq, htoobig.trans hkept.toobig,
      hkept.smooth⟩, rfl, rfl, rfl, rfl, ?_, fun hnone => ?_⟩
    · rw [List.drop_zero, htail]
      exact hkept.stream_eq
    · rw [undelivered, List.drop_zero, htail, undelivered]
    · rw [htail, List.length_eq_zero_iff.mp (hoverflow.symm.trans hnone)]
      exact List.not_mem_nil
  · rename_i hz
    have hzero : pp.nfinal = 0 := not_not.mp hz
    exact ⟨hkept.toLedger, hzero, rfl, rfl, rfl, rfl, fun _ => (hkept.rest hzero).1⟩

/-- There is nothing to read and nothing to scan. -/
def Settled (pp : Pp) : Prop := pp.recvs = [] ∧ pp.overflow = 0

/-- What goes down with each call. -/
def work (pp : Pp) : Nat :=
  2 * pp.recvs.length + undelivered pp + pp.incoming.length + if pp.overflow = 0 then 0 else 1

/-- The connection gives all but `missing` of the bytes that the server sends. -/
def Supplied (missing : Nat) (pp : Pp) : Prop :=
  pp.incoming.length ≤ pp.recvs.countP Recv.gives + missing

theorem pingpongRead_smooth (hsmooth : ∀ r ∈ pp.recvs, r.Smooth) :
    ∃ n result, pingpongRead pp 900 = ({ pp with
        recvs := pp.recvs.tail, incoming := pp.incoming.drop n }, result, pp.incoming.take n) ∧
      n ≤ 900 ∧
        (result = .again ∧ n = 0 ∨ result = .ok ∧ 0 < n ∧ pp.incoming ≠ [] ∧ pp.recvs ≠ []) ∧
      ∀ missing, Supplied missing pp →
        (pp.incoming.drop n).length ≤ pp.recvs.tail.countP Recv.gives + missing := by
  unfold Supplied
  cases hrecvs : pp.recvs with
  | nil =>
    refine ⟨0, .again, ?_, Nat.zero_le _, .inl ⟨rfl, rfl⟩, fun missing hle => hle⟩
    have hcall : pingpongRead pp 900 = (pp, .again, []) := by rw [pingpongRead, hrecvs]
    rw [hcall, List.drop_zero, List.take_zero, List.tail_nil, ← hrecvs]
  | cons recv recvs =>
    have hhead := hsmooth recv (by rw [hrecvs]; exact List.mem_cons_self)
    cases recv with
    | again =>
      refine ⟨0, .again, ?_, Nat.zero_le _, .inl ⟨rfl, rfl⟩, fun missing hle => ?_⟩
      · rw [List.drop_zero, List.take_zero, List.tail_cons, pingpongRead, hrecvs]
      · rwa [List.countP_cons_of_neg (by decide)] at hle
    | bytes n =>
      by_cases hempty : pp.incoming = []
      · refine ⟨0, .again, ?_, Nat.zero_le _, .inl ⟨rfl, rfl⟩, fun missing hle => ?_⟩
        · rw [List.drop_zero, List.take_zero, List.tail_cons, pingpongRead, hrecvs]
          exact if_pos hempty
        · rw [hempty]
          exact Nat.zero_le _
      · refine ⟨min (n + 1) 900, .ok, ?_, Nat.min_le_right _ _,
          .inr ⟨rfl, by omega, hempty, List.cons_ne_nil _ _⟩, fun missing hle => ?_⟩
        · rw [List.tail_cons, pingpongRead, hrecvs]
          exact if_neg hempty
        · rw [List.countP_cons_of_pos rfl] at hle
          rw [List.length_drop, List.tail_cons]
          omega
    | closed => exact hhead.elim
    | failed result => exact hhead.elim

/-- The lines of the stream, and what is behind the last of them, leave room for a read. -/
def LinesFit (stream : Bytes) : Prop :=
  (∀ line ∈ (cut 10 stream).1, line.length + 900 ≤ dynPingppongCmd) ∧
    (cut 10 stream).2.length + 900 ≤ dynPingppongCmd

theorem Ledger.room (hledger : Ledger h stream results pp) (hfit : LinesFit stream)
    (hzero : pp.nfinal = 0) (hrest : 10 ∉ pp.recvbuf.content) (hincoming : pp.incoming ≠ []) :
    pp.recvbuf.content.length + 1 + 900 ≤ dynPingppongCmd := by
  have hstream := hledger.stream_eq
  rw [hzero, List.drop_zero] at hstream
  obtain ⟨line, hline, hlonger⟩ := exists_longer hrest hincoming
  unfold LinesFit at hfit
  rw [← hstream, cut_lines hledger.lines] at hfit
  obtain ⟨hlines, hlast⟩ := hfit
  rcases hline with hmem | rfl
  · have hle := hlines line (List.mem_append_right _ hmem)
    omega
  · have hle : (cut 10 (pp.recvbuf.content ++ pp.incoming)).2.length + 900 ≤ dynPingppongCmd :=
      hlast
    omega

/-- How a call, or a round of its loop, gets on. -/
structure Advance (pp pp' : Pp) : Prop where
  supplied : ∀ missing, Supplied missing pp → Supplied missing pp'
  settled : Settled pp → Settled pp'
  work : Settled pp' ∨ work pp' < work pp

theorem Advance.trans {pp1 pp2 pp3 : Pp} (h12 : Advance pp1 pp2) (h23 : Advance pp2 pp3) :
    Advance pp1 pp3 where
  supplied missing hs := h23.supplied missing (h12.supplied missing hs)
  settled hs := h23.settled (h12.settled hs)
  work := by
    rcases h23.work with hdone | hless
    · exact .inl hdone
    · rcases h12.work with hdone | hless'
      · exact .inl (h23.settled hdone)
      · exact .inr (hless.trans hless')

theorem Kept.withPending (hkept : Kept h stream results pp) (pendingResp : Bool) :
    Kept h stream results { pp with pendingResp } where
  toLedger := ⟨hkept.stream_eq, hkept.lines, hkept.written, hkept.results_eq, hkept.toobig,
    hkept.smooth⟩
  rest := hkept.rest
  final := hkept.final

/-- A call that ended no response adds nothing to the results. -/
theorem Kept.unended (hkept : Kept h stream results pp) (hzero : pp.nfinal = 0) (code : Int) :
    Kept h stream (resultsAfter results pp code) pp := by
  rwa [resultsAfter, if_neg (not_not.mpr hzero)]

/-- A call that scans what an earlier one has read. -/
theorem readrespLoop_overflow (hwrite : ∀ line, h.clientWrite line = .ok) (hnul : 0 ∉ stream)
    (hkept : Kept h stream results pp) (hoverflow : pp.overflow ≠ 0) (fuel : Nat) :
    ∃ pp' code size, readrespLoop h (fuel + 1) pp = (pp', .ok, code, size) ∧
      Kept h stream (resultsAfter results pp' code) pp' ∧ Advance pp pp' := by
  obtain ⟨hledger, hzero, hsame, hrecvs, hincoming, hundelivered, -⟩ := trimFinal_spec hkept
  obtain ⟨pp', final, hscan, hrecvs', hincoming', hfinal⟩ :=
    scanLoop_spec hwrite hnul hledger hzero (Nat.lt_succ_self _)
  have hloop : readrespLoop h (fuel + 1) pp = ({ pp' with pendingResp := false }, .ok,
      (final.getD (0, 0)).1, (final.getD (0, 0)).2) := by
    rw [readrespLoop, if_pos (hsame ▸ hoverflow), scan, hscan]
    cases final <;> rfl
  refine ⟨_, _, _, hloop, ?_, ?_, fun hs => (hoverflow hs.2).elim, ?_⟩
  · rcases final with _ | ⟨code, size⟩
    · obtain ⟨hkept', hzero', -⟩ := hfinal
      exact (hkept'.withPending false).unended hzero' 0
    · exact hfinal.1.withPending false
  · intro missing hs
    unfold Supplied at hs ⊢
    rw [hrecvs', hincoming', hrecvs, hincoming]
    exact hs
  · right
    have hless : undelivered pp' + (if pp'.overflow = 0 then 0 else 1) < undelivered pp + 1 := by
      rcases final with _ | ⟨code, size⟩
      · obtain ⟨hkept', hzero', hle⟩ := hfinal
        rw [if_pos (hkept'.rest hzero').2]
        omega
      · obtain ⟨-, -, hless⟩ := hfinal
        split <;> omega
    have hsum : work { pp' with pendingResp := false } = 2 * pp.recvs.length + undelivered pp' +
        pp.incoming.length + (if pp'.overflow = 0 then 0 else 1) := by
      rw [← hrecvs, ← hrecvs', ← hincoming, ← hincoming']
      rfl
    rw [hsum, work, if_neg hoverflow]
    omega

/-- A read gets the call on. -/
theorem Advance.read {pp' : Pp} {n : Nat} (hrecvs : pp'.recvs = pp.recvs.tail)
    (hincoming : pp'.incoming = pp.incoming.drop n)
    (hsupply : ∀ missing, Supplied missing pp →
      (pp.incoming.drop n).length ≤ pp.recvs.tail.countP Recv.gives + missing)
    (hle : undelivered pp' ≤ undelivered pp + (pp.incoming.take n).length)
    (hnone : pp.recvs = [] → pp'.overflow = 0) : Advance pp pp' where
  supplied missing hs := by
    rw [Supplied, hrecvs, hincoming]
    exact hsupply missing hs
  settled hs := ⟨by rw [hrecvs, hs.1, List.tail_nil], hnone hs.1⟩
  work := by
    by_cases hempty : pp.recvs = []
    · exact .inl ⟨by rw [hrecvs, hempty, List.tail_nil], hnone hempty⟩
    · right
      have hlength : pp'.recvs.length + 1 = pp.recvs.length := by
        rw [hrecvs, List.length_tail]
        have := List.length_pos_iff.mpr hempty
        omega
      have hsplit : (pp.incoming.take n).length + pp'.incoming.length = pp.incoming.length := by
        rw [hincoming, ← List.length_append, List.take_append_drop]
      rw [Pingpong.work, Pingpong.work]
      split <;> omega

/-- The state after a read that gave nothing. -/
theorem Kept.again (hledger : Ledger h stream results pp) (hzero : pp.nfinal = 0)
    (hrest : 10 ∉ pp.recvbuf.content) (hnone : pp.overflow = 0) :
    Kept h stream results { pp with recvs := pp.recvs.tail, incoming := pp.incoming.drop 0 } where
  toLedger := ⟨hledger.stream_eq, hledger.lines, hledger.written, hledger.results_eq,
    hledger.toobig, fun r hr => hledger.smooth r (List.mem_of_mem_tail hr)⟩
  rest _ := ⟨hrest, hnone⟩
  final hne := (hne hzero).elim

/-- The state after a read, before the buffer is scanned. -/
theorem Ledger.append (hledger : Ledger h stream results pp) (hzero : pp.nfinal = 0) {n : Nat}
    {recvbuf : Dynbuf} (hcontent : recvbuf.content = pp.recvbuf.content ++ pp.incoming.take n)
    (htoobig : recvbuf.toobig = pp.recvbuf.toobig) (nreadResp : Nat) :
    Ledger h stream results { pp with
      recvs := pp.recvs.tail, incoming := pp.incoming.drop n, recvbuf, nreadResp } where
  stream_eq := by
    rw [← hledger.stream_eq, hzero, List.drop_zero, List.drop_zero, hcontent, List.append_assoc,
      List.take_append_drop]
  lines := hledger.lines
  written := hledger.written
  results_eq := hledger.results_eq
  toobig := htoobig.trans hledger.toobig
  smooth r hr := hledger.smooth r (List.mem_of_mem_tail hr)

/-- A round of the loop that reads: it is the last one, or it has read 900 bytes and leaves less for
the next one to read. -/
theorem readrespLoop_read (hwrite : ∀ line, h.clientWrite line = .ok) (hnul : 0 ∉ stream)
    (hfit : LinesFit stream) (hkept : Kept h stream results pp) (hoverflow : pp.overflow = 0)
    (fuel : Nat) :
    (∃ pp' code size, readrespLoop h (fuel + 1) pp = (pp', .ok, code, size) ∧
        Kept h stream (resultsAfter results pp' code) pp' ∧ Advance pp pp') ∨
      ∃ pp', readrespLoop h (fuel + 1) pp = readrespLoop h fuel pp' ∧ Kept h stream results pp' ∧
        Advance pp pp' ∧ pp'.recvs.length < pp.recvs.length := by
  obtain ⟨hledger, hzero, hsame, hrecvs, hincoming, hundelivered, hrest⟩ := trimFinal_spec hkept
  have hnone : (trimFinal pp).overflow = 0 := hsame.trans hoverflow
  obtain ⟨n, result, hread, hn, hresult, hsupply⟩ := pingpongRead_smooth hledger.smooth
  simp only [Supplied, hrecvs, hincoming] at hsupply
  have hloop := readrespLoop.eq_2 h pp fuel
  rw [if_neg (not_not.mpr hnone), hread] at hloop
  rcases hresult with ⟨rfl, rfl⟩ | ⟨rfl, hpos, hsome, hnext⟩
  · refine .inl ⟨_, _, _, hloop, ?_, Advance.read (congrArg List.tail hrecvs)
      (congrArg (List.drop 0) hincoming) hsupply ?_ fun _ => hnone⟩
    · exact (Kept.again hledger hzero (hrest hoverflow) hnone).unended hzero 0
    · exact hundelivered.le.trans (Nat.le_add_right _ _)
  · have hbuffer : (trimFinal pp).incoming.take n ≠ [] := by
      rw [ne_eq, List.take_eq_nil_iff]
      exact not_or.mpr ⟨by omega, hsome⟩
    have hroom := hledger.room hfit hzero (hrest hoverflow) hsome
    obtain ⟨hok, hcontent, htoobig⟩ := @Dynbuf.nappend_ok (trimFinal pp).recvbuf
      ((trimFinal pp).incoming.take n) (by
        rw [List.length_take, hledger.toobig]
        omega)
    simp only [if_neg hbuffer] at hloop
    generalize (trimFinal pp).recvbuf.nappend ((trimFinal pp).incoming.take n) true = appended at *
    obtain ⟨recvbuf, result⟩ := appended
    obtain rfl : result = .ok := hok
    simp only [scan] at hloop
    have hledger1 := hledger.append hzero hcontent htoobig
      ((trimFinal pp).nreadResp + ((trimFinal pp).incoming.take n).length)
    obtain ⟨pp2, final, hscan, hrecvs2, hincoming2, hfinal⟩ :=
      scanLoop_spec hwrite hnul hledger1 hzero (Nat.lt_succ_self _)
    rw [hscan] at hloop
    have hnext' : pp.recvs ≠ [] := hrecvs ▸ hnext
    have hcount : undelivered { trimFinal pp with
        recvs := (trimFinal pp).recvs.tail, incoming := (trimFinal pp).incoming.drop n, recvbuf
        nreadResp := (trimFinal pp).nreadResp + ((trimFinal pp).incoming.take n).length } =
        undelivered pp + (pp.incoming.take n).length := by
      rw [← hundelivered, undelivered, undelivered, hzero, List.drop_zero, List.drop_zero]
      simp only at hcontent
      rw [hcontent, List.length_append, hincoming]
    rw [hcount] at hfinal
    have hadvance {pp' : Pp} (hr : pp'.recvs = pp2.recvs) (hi : pp'.incoming = pp2.incoming)
        (hle : undelivered pp' ≤ undelivered pp + (pp.incoming.take n).length) : Advance pp pp' :=
      Advance.read (hr.trans (hrecvs2.trans (congrArg List.tail hrecvs)))
        (hi.trans (hincoming2.trans (congrArg (List.drop n) hincoming))) hsupply hle
        fun hempty => (hnext' hempty).elim
    rcases final with _ | ⟨code, size⟩
    · obtain ⟨hkept2, hzero2, hle⟩ := hfinal
      by_cases hfull : ((trimFinal pp).incoming.take n).length = 900
      · refine .inr ⟨pp2, by rw [hloop]; exact if_pos hfull, hkept2, hadvance rfl rfl hle, ?_⟩
        have hpositive := List.length_pos_iff.mpr hnext'
        rw [hrecvs2, hrecvs, List.length_tail]
        omega
      · refine .inl ⟨{ pp2 with pendingResp := false }, 0, 0, by rw [hloop]; exact if_neg hfull,
          ?_, hadvance rfl rfl hle⟩
        exact (hkept2.withPending false).unended hzero2 0
    · obtain ⟨hkept2, -, hless⟩ := hfinal
      exact .inl ⟨_, _, _, hloop, hkept2.withPending false, hadvance rfl rfl hless.le⟩

theorem readrespLoop_spec (hwrite : ∀ line, h.clientWrite line = .ok) (hnul : 0 ∉ stream)
    (hfit : LinesFit stream) {fuel : Nat} (hkept : Kept h stream results pp)
    (hfuel : pp.recvs.length < fuel) :
    ∃ pp' code size, readrespLoop h fuel pp = (pp', .ok, code, size) ∧
      Kept h stream (resultsAfter results pp' code) pp' ∧ Advance pp pp' := by
  induction fuel generalizing pp with
  | zero => omega
  | succ fuel ih =>
    by_cases hoverflow : pp.overflow = 0
    · rcases readrespLoop_read hwrite hnul hfit hkept hoverflow fuel with
        hlast | ⟨pp1, hloop, hkept1, hadvance, hless⟩
      · exact hlast
      · obtain ⟨pp', code, size, hrun, hkept', hadvance'⟩ := ih hkept1 (by omega)
        exact ⟨pp', code, size, hloop.trans hrun, hkept', hadvance.trans hadvance'⟩
    · exact readrespLoop_overflow hwrite hnul hkept hoverflow fuel

/-- The state and the results of the calls of `Curl_pp_readresp` so far. -/
structure Reading where
  pp : Pp
  results : List (Int × Bytes)

/-- Some calls of `Curl_pp_readresp`, unless one of them fails. -/
def calls (h : Handlers) : Nat → Reading → Option Reading
  | 0, r => some r
  | k + 1, r =>
    match readresp h r.pp with
    | (pp, .ok, code, _) => calls h k ⟨pp, resultsAfter r.results pp code⟩
    | _ => none

theorem calls_kept (hwrite : ∀ line, h.clientWrite line = .ok) (hnul : 0 ∉ stream)
    (hfit : LinesFit stream) {k : Nat} {r : Reading} (hkept : Kept h stream r.results r.pp) :
    ∃ r', calls h k r = some r' ∧ Kept h stream r'.results r'.pp ∧
      (∀ missing, Supplied missing r.pp → Supplied missing r'.pp) ∧
      (Settled r.pp ∨ work r.pp ≤ k → Settled r'.pp) := by
  induction k generalizing r with
  | zero =>
    refine ⟨r, rfl, hkept, fun _ => id, fun hdone => ?_⟩
    rcases hdone with hdone | hnone
    · exact hdone
    · unfold work at hnone
      refine ⟨List.length_eq_zero_iff.mp (by omega), ?_⟩
      by_contra hne
      rw [if_neg hne] at hnone
      omega
  | succ k ih =>
    obtain ⟨pp1, code, size, hcall, hkept1, hadvance⟩ :=
      readrespLoop_spec hwrite hnul hfit hkept (Nat.lt_succ_self _)
    obtain ⟨r', hrun, hkept', hsupply, hdone⟩ :=
      ih (r := ⟨pp1, resultsAfter r.results pp1 code⟩) hkept1
    refine ⟨r', ?_, hkept', fun missing hs => hsupply missing (hadvance.supplied missing hs),
      fun hsoon => hdone ?_⟩
    · rw [calls, readresp, hcall]
      exact hrun
    · rcases hsoon with hsettled | hle
      · exact .inl (hadvance.settled hsettled)
      · rcases hadvance.work with hsettled | hless
        · exact .inl hsettled
        · exact .inr (show work pp1 ≤ k by omega)

theorem kept_init {recvs : List Recv} (hsmooth : ∀ r ∈ recvs, r.Smooth) (sends : List Send) :
    Kept h stream [] (ppInit stream recvs sends) where
  stream_eq := rfl
  lines _ hmem := (List.not_mem_nil hmem).elim
  written := rfl
  results_eq := rfl
  toobig := rfl
  smooth := hsmooth
  rest _ := ⟨List.not_mem_nil, rfl⟩
  final hne := (hne rfl).elim

theorem Kept.asked_eq (hkept : Kept h stream results pp) :
    (cut 10 stream).1 =
      pp.asked ++ (cut 10 (pp.recvbuf.content.drop pp.nfinal ++ pp.incoming)).1 := by
  rw [← hkept.stream_eq, cut_lines hkept.lines]

/-- With nothing left to read or to scan, all lines have been given out. -/
theorem Kept.asked_all (hkept : Kept h stream results pp) (hsettled : Settled pp)
    (hsupplied : Supplied 0 pp) : pp.asked = (cut 10 stream).1 := by
  obtain ⟨hrecvs, hoverflow⟩ := hsettled
  have hincoming : pp.incoming = [] := by
    rw [Supplied, hrecvs] at hsupplied
    exact List.length_eq_zero_iff.mp (Nat.le_zero.mp hsupplied)
  have hrest : 10 ∉ pp.recvbuf.content.drop pp.nfinal := by
    by_cases hzero : pp.nfinal = 0
    · rw [hzero, List.drop_zero]
      exact (hkept.rest hzero).1
    · rw [List.length_eq_zero_iff.mp ((hkept.final hzero).1.symm.trans hoverflow)]
      exact List.not_mem_nil
  rw [hkept.asked_eq, hincoming, List.append_nil, cut_rest hrest, List.append_nil]

/-- However the stream of the server is split, its lines are given to the client and to `endofresp`
in order and once, the responses end with the same lines and codes, and the buffer holds what was
read behind them; and a command is sent once, followed by CRLF. -/
theorem pingpong_splits (h : Handlers) (hwrite : ∀ line, h.clientWrite line = .ok) :
    (∀ stream recvs sends k, 0 ∉ stream → LinesFit stream → (∀ r ∈ recvs, r.Smooth) →
      ∃ r, calls h k ⟨ppInit stream recvs sends, []⟩ = some r ∧
        r.pp.written = r.pp.asked ∧ r.pp.asked <+: (cut 10 stream).1 ∧
        r.results = r.pp.asked.filterMap (finalLine h) ∧
        r.pp.asked.flatten ++ (r.pp.recvbuf.content.drop r.pp.nfinal ++ r.pp.incoming) = stream ∧
        (r.pp.nfinal ≠ 0 → r.pp.overflow = (r.pp.recvbuf.content.drop r.pp.nfinal).length ∧
          ∃ code, r.results.getLast? = some (code, r.pp.recvbuf.content.take r.pp.nfinal)) ∧
        (stream.length ≤ recvs.countP Recv.gives → 2 * recvs.length + stream.length ≤ k →
          r.pp.asked = (cut 10 stream).1 ∧
            r.results = (cut 10 stream).1.filterMap (finalLine h))) ∧
    ∀ (pp : Pp) (command : Bytes), pp.sendbuf.toobig = dynPingppongCmd →
      (∀ s ∈ pp.sends, s.Smooth) →
      (dynPingppongCmd ≤ command.length + 2 →
        (vsendf pp command).2 = .tooLarge ∧ (vsendf pp command).1.wire = pp.wire) ∧
      (command.length + 2 < dynPingppongCmd → (vsendf pp command).2 = .ok ∧
        ∀ k, ∃ pp', flushes k (vsendf pp command).1 = some pp' ∧
          pp'.wire ++ unsent pp' = pp.wire ++ (command ++ [13, 10]) ∧
          (needsFlush pp' = false → pp'.wire = pp.wire ++ (command ++ [13, 10])) ∧
          (command.length + 2 ≤ pp.sends.countP Send.takes → pp.sends.length ≤ k + 1 →
            needsFlush pp' = false)) := by
  refine ⟨fun stream recvs sends k hnul hfit hsmooth => ?_,
    fun pp command htoobig hsmooth => ⟨?_, ?_⟩⟩
  · obtain ⟨r, hrun, hkept, hsupply, hdone⟩ := calls_kept hwrite hnul hfit (k := k)
      (r := ⟨ppInit stream recvs sends, []⟩) (kept_init hsmooth sends)
    refine ⟨r, hrun, hkept.written, ?_, hkept.results_eq, hkept.stream_eq, hkept.final,
      fun hgives hk => ?_⟩
    · rw [hkept.asked_eq]
      exact List.prefix_append _ _
    · have hwork : work (ppInit stream recvs sends) ≤ k := by
        refine le_trans (le_of_eq ?_) hk
        rfl
      have hall := hkept.asked_all (hdone (.inr hwork)) (hsupply 0 hgives)
      exact ⟨hall, by rw [← hall]; exact hkept.results_eq⟩
  · exact vsendf_tooLarge htoobig
  · intro hfits
    obtain ⟨pp1, hcall, hsending, hsends, hsupply⟩ := vsendf_sending htoobig hfits hsmooth
    rw [hcall]
    refine ⟨rfl, fun k => ?_⟩
    obtain ⟨pp', hrun, hsending', hdone⟩ := flushes_sending (k := k) hsending
    refine ⟨pp', hrun, hsending'.onWire, fun hflush => hsending'.done ?_, fun hcount hk => ?_⟩
    · rw [needsFlush] at hflush
      simpa using hflush
    · have hlength : pp1.sends.length ≤ k := by
        rw [hsends, List.length_tail]
        omega
      rw [needsFlush, hdone (hsupply hcount) (.inr hlength)]
      rfl

/-- A client that takes every line, and a response that ends with a line that has a space behind the
three digits of its code. -/
def ftpHandlers : Handlers where
  clientWrite _ := .ok
  endofresp line :=
    if line.getD 3 0 = 32 then some ((line.take 3).foldl (fun n c => 10 * n + (c.toNat - 48)) 0)
    else none

/-- `220-a`, `220 b` and `331 c`. -/
def ftpStream : Bytes := [50, 50, 48, 45, 97, 10, 50, 50, 48, 32, 98, 10, 51, 51, 49, 32, 99, 10]

theorem pingpong_splits_ftp :
    (∃ r, calls ftpHandlers 60 ⟨ppInit ftpStream (.replicate 18 (.bytes 0)) [], []⟩ = some r ∧
      r.results = [(220, [50, 50, 48, 32, 98, 10]), (331, [51, 51, 49, 32, 99, 10])]) ∧
    ∃ pp',
      flushes 3 (vsendf (ppInit [] [] [.bytes 3, .again, .bytes 1, .bytes 4]) [81, 85, 73, 84]).1 =
      some pp' ∧ pp'.wire = [81, 85, 73, 84, 13, 10] := by
  obtain ⟨hread, hsend⟩ := pingpong_splits ftpHandlers fun _ => rfl
  constructor
  · obtain ⟨r, hrun, -, -, -, -, -, hall⟩ := hread ftpStream (.replicate 18 (.bytes 0)) [] 60
      (by decide) (by unfold LinesFit; decide)
        (fun r hr => by rw [List.eq_of_mem_replicate hr]; trivial)
    exact ⟨r, hrun, (hall (by decide) (by decide)).2.trans (by decide)⟩
  · obtain ⟨-, hsent⟩ := hsend (ppInit [] [] [.bytes 3, .again, .bytes 1, .bytes 4]) [81, 85, 73,
      84] rfl (by simp [ppInit, Send.Smooth])
    obtain ⟨pp', hrun, -, hwire, -⟩ := (hsent (by decide)).2 3
    refine ⟨pp', hrun, hwire ?_⟩
    have hlast : flushes 3 (vsendf (ppInit [] [] [.bytes 3, .again, .bytes 1, .bytes 4])
      [81, 85, 73, 84]).1 = some { ppInit [] [] [] with
        pendingResp := true, wire := [81, 85, 73, 84, 13, 10]
        sendbuf := ⟨some [81, 85, 73, 84, 13, 10], 32, dynPingppongCmd⟩ } := by decide +kernel
    rw [hrun, Option.some.injEq] at hlast
    rw [hlast]
    rfl

end Gurl.Pingpong
