import Gurl.Ws.Splits

/-! A receive queue that is filled piece by piece, and what the callbacks show of it. -/

namespace Gurl.Ws

open Buffer Feed

variable {dec dec' : Decoder} {b : UInt8} {out new : List Callback}

/-! ### Pieces -/

/-- A decoder with its queue: the callbacks it has made, the last result, how many bytes were
appended to the queue, and whether the queue has refused a piece. -/
structure Receiver where
  dec : Decoder
  recvbuf : State
  out : List Callback
  result : Curlcode
  arrived : Nat
  refused : Bool

/-- A decoder with an empty queue. -/
def Receiver.init (recvbuf : State) : Receiver where
  dec := decInit
  recvbuf := recvbuf
  out := []
  result := .again
  arrived := 0
  refused := false

/-- Append a piece to the queue, where there is memory for some chunks, and call `ws_dec_pass` until
it reports `CURLE_AGAIN` or an error. Behind an error nothing more is passed. -/
def receive (rx : Receiver) (piece : Nat × Bytes) : Option Receiver :=
  if rx.refused ∨ rx.result ≠ .again then some rx
  else do
    let (s, result, n) ← bufqWrite { rx.recvbuf with mallocs := piece.1 } piece.2
    if result ≠ .ok ∨ n ≠ piece.2.length then some { rx with recvbuf := s, refused := true }
    else do
      let len ← bufqLen s
      let (dec, s, result, out) ← drain (len + 1) rx.dec s rx.out
      some
        { dec, recvbuf := s, out, result, arrived := rx.arrived + piece.2.length, refused := false }

/-- What can be seen of a receiver: the frames, the last one first, the error if there is one, and
how many bytes were taken. -/
def Receiver.observe (rx : Receiver) : Option (List Frame) × Curlcode × Option Nat :=
  (rx.out.foldlM record [], rx.result, (bufqLen rx.recvbuf).map (rx.arrived - ·))

/-- A receiver has read some bytes. -/
structure Reads (bytes : Bytes) (rx : Receiver) : Prop where
  out : Same rx.out (feed decByte decInit bytes).out
  result : rx.result = (feed decByte decInit bytes).error.getD .again
  left : ∃ rest, Rep rx.recvbuf rest ∧
    rx.arrived + (feed decByte decInit bytes).rest.length = bytes.length + rest.length
  goes : rx.result = .again → (feed decByte decInit bytes).state = rx.dec ∧ Ready rx.dec ∧
    Rep rx.recvbuf []

theorem reads_init {q : State} (hq : Rep q []) : Reads [] (.init q) where
  out := .refl _
  result := rfl
  left := ⟨[], hq, rfl⟩
  goes _ := ⟨rfl, trivial, hq⟩

theorem decByte_error {e : Curlcode} (h : decByte dec b = (dec', out, some e)) :
    out = [] ∧ e = .recvError := by
  have hhead : ∀ {dec₁ : Decoder}, decHead dec₁ b = (dec', out, some e) →
      out = [] ∧ e = .recvError := by
    intro dec₁ h
    have hstep := headByte_step dec₁ b
    unfold decHead at h
    generalize headByte dec₁ b = p at h hstep
    cases hstep with
    | more => simp at h
    | done =>
      simp only [ne_eq, not_true_eq_false, if_false] at h
      split at h <;> simp at h
    | failed =>
      simp only [ne_eq, reduceCtorEq, not_false_eq_true, if_true, Prod.mk.injEq,
        Option.some.injEq] at h
      exact ⟨h.2.1.symm, h.2.2.symm⟩
  unfold decByte at h
  split at h
  · exact hhead h
  · exact hhead h
  · simp at h

/-- A receiver that waits has fed its decoder without an error. -/
theorem Reads.waits {bytes : Bytes} {rx : Receiver} (h : Reads bytes rx) :
    rx.result = .again ↔ (feed decByte decInit bytes).error = none := by
  rw [h.result]
  constructor
  · intro hagain
    rcases herror : (feed decByte decInit bytes).error with _ | e
    · rfl
    · obtain ⟨pre, b, post, last, -, -, hstep, -⟩ := feed_error herror
      obtain ⟨-, rfl⟩ := decByte_error hstep
      rw [herror] at hagain
      cases hagain
  · intro hnone
    rw [hnone]
    rfl

/-- A receiver has read some bytes, or its queue has refused a piece. -/
def ReadsAll (bytes : Bytes) (rx : Receiver) : Prop :=
  rx.refused = true ∨ rx.refused = false ∧ Reads bytes rx

/-- A piece is read behind what was read before. -/
theorem receive_reads {bytes : Bytes} {rx : Receiver} (h : Reads bytes rx)
    (hrefused : rx.refused = false) (piece : Nat × Bytes) :
    ∃ rx', receive rx piece = some rx' ∧ ReadsAll (bytes ++ piece.2) rx' := by
  unfold receive
  rw [hrefused]
  by_cases hagain : rx.result = .again
  · -- the bytes go behind an empty queue
    have hnone := h.waits.mp hagain
    obtain ⟨hstate, hready, hempty⟩ := h.goes hagain
    have hfeed := feed_append hnone piece.2
    rw [hstate] at hfeed
    obtain ⟨rest, hrest, harrived⟩ := h.left
    obtain rfl := hrest.unique hempty
    rw [feed_rest hnone] at harrived
    rw [if_neg (by simp [hagain])]
    obtain ⟨s₁, res, n, hwrite, hle, hrep₁, -⟩ :=
      bufqWrite_spec piece.2 (hempty.withMallocs piece.1)
    rw [hwrite, Option.bind_eq_bind, Option.bind_some]
    dsimp only
    by_cases hfull : res ≠ .ok ∨ n ≠ piece.2.length
    · exact ⟨_, if_pos hfull, .inl rfl⟩
    rw [if_neg hfull]
    obtain ⟨rfl, rfl⟩ : res = .ok ∧ n = piece.2.length := by simpa using hfull
    rw [List.take_length, List.nil_append] at hrep₁
    obtain ⟨dec', s', r, new, hdrain, hend⟩ :=
      drain_spec rx.out hrep₁ hready (Nat.lt_succ_self piece.2.length)
    simp only [bufqLen_spec hrep₁, Option.bind_eq_bind, Option.bind_some, Nat.add_one, hdrain]
    refine ⟨_, rfl, .inr ⟨rfl, ?_⟩⟩
    have hout : ∀ {out : List Callback}, Same new out →
        Same (rx.out ++ new) ((feed decByte decInit bytes).out ++ out) := fun hnew =>
      h.out.append hnew
    cases hend with
    | waits htakes hready' hrep' =>
      refine ⟨?_, ?_, ?_, ?_⟩
      · rw [hfeed]
        exact hout htakes.out
      · rw [hfeed]
        simp [htakes.error]
      · refine ⟨[], hrep', ?_⟩
        rw [hfeed]
        simp only [feed_rest htakes.error, List.length_append, List.length_nil] at harrived ⊢
        omega
      · intro _
        rw [hfeed]
        exact ⟨htakes.state, hready', hrep'⟩
    | failed herror hrest' hnew hrep' =>
      refine ⟨?_, ?_, ?_, ?_⟩
      · rw [hfeed]
        exact hout hnew
      · rw [hfeed]
        simp [herror]
      · refine ⟨_, hrep', ?_⟩
        rw [hfeed]
        simp only [hrest', List.length_append, List.length_nil] at harrived ⊢
        omega
      · intro hcontra
        cases hcontra
  · refine ⟨rx, if_pos (.inr hagain), .inr ⟨hrefused, ?_⟩⟩
    rcases herror : (feed decByte decInit bytes).error with _ | e
    · exact absurd (h.waits.mpr herror) hagain
    · have hfeed := feed_append_error herror piece.2
      obtain ⟨rest, hrest, harrived⟩ := h.left
      refine ⟨?_, ?_, ?_, fun hcontra => absurd hcontra hagain⟩
      · rw [hfeed]
        exact h.out
      · rw [hfeed]
        exact h.result
      · refine ⟨rest, hrest, ?_⟩
        rw [hfeed]
        simp only [List.length_append] at harrived ⊢
        omega

/-- All pieces, one behind the other. -/
theorem receive_all {bytes : Bytes} {rx : Receiver} (h : ReadsAll bytes rx)
    (pieces : List (Nat × Bytes)) :
    ∃ rx', pieces.foldlM receive rx = some rx' ∧
      ReadsAll (bytes ++ pieces.flatMap Prod.snd) rx' := by
  induction pieces generalizing bytes rx with
  | nil => exact ⟨rx, rfl, by simpa using h⟩
  | cons piece pieces ih =>
    have hfirst : ∃ rx₁, receive rx piece = some rx₁ ∧ ReadsAll (bytes ++ piece.2) rx₁ := by
      rcases h with hrefused | ⟨hrefused, hreads⟩
      · exact ⟨rx, if_pos (.inl hrefused), .inl hrefused⟩
      · exact receive_reads hreads hrefused piece
    obtain ⟨rx₁, hstep, hreads⟩ := hfirst
    obtain ⟨rx', hrun, hall⟩ := ih hreads
    refine ⟨rx', ?_, ?_⟩
    · rw [List.foldlM_cons, hstep]
      exact hrun
    · rw [List.flatMap_cons, ← List.append_assoc]
      exact hall

/-- The pieces of a stream, read from an empty queue. -/
theorem receive_stream {q : State} (hq : Rep q []) (pieces : List (Nat × Bytes)) :
    ∃ rx, pieces.foldlM receive (.init q) = some rx ∧
      (rx.refused = false → Reads (pieces.flatMap Prod.snd) rx) := by
  obtain ⟨rx, hrun, hall⟩ := receive_all (.inr ⟨rfl, reads_init hq⟩) pieces
  refine ⟨rx, hrun, fun hrefused => ?_⟩
  rcases hall with htrue | ⟨-, hreads⟩
  · rw [hrefused] at htrue
    cases htrue
  · simpa using hreads

/-- What a stream shows, whatever its pieces are. -/
def shown (bytes : Bytes) : Option (List Frame) × Curlcode × Option Nat :=
  let fed := feed decByte decInit bytes
  (fed.out.foldlM record [], fed.error.getD .again, some (bytes.length - fed.rest.length))

theorem Reads.observe {bytes : Bytes} {rx : Receiver} (h : Reads bytes rx) :
    rx.observe = shown bytes := by
  obtain ⟨rest, hrest, harrived⟩ := h.left
  unfold Receiver.observe shown
  rw [h.out [], h.result, bufqLen_spec hrest, Option.map_some]
  congr 3
  omega

/-! ### Offsets -/

/-- All frames but the last one are complete, and the last one has not more bytes than it says. -/
def Contiguous (frames : List Frame) : Prop :=
  frames.tail.all Frame.complete = true ∧ ∀ f ∈ frames, f.payload.length ≤ f.len

theorem contiguous_of_complete {frames : List Frame} (h : frames.all Frame.complete = true) :
    Contiguous frames := by
  rw [List.all_eq_true] at h
  refine ⟨List.all_eq_true.mpr fun f hf => h f (List.mem_of_mem_tail hf), fun f hf => ?_⟩
  have hcomplete := h f hf
  simp only [Frame.complete, beq_iff_eq] at hcomplete
  exact Nat.le_of_eq hcomplete

/-- The frames that are there while a decoder is inside of a payload. -/
def Inside (dec : Decoder) (frames : List Frame) : Prop :=
  dec.payloadOffset < dec.payloadLen ∧
    (dec.payloadOffset = 0 ∧ frames.all Frame.complete = true ∨
      dec.payloadOffset ≠ 0 ∧ ∃ payload rest,
        frames = ⟨dec.frameFlags, dec.payloadLen, payload⟩ :: rest ∧
        payload.length = dec.payloadOffset ∧ rest.all Frame.complete = true)

/-- The frames that are there go with the state of a decoder. -/
def Sync (dec : Decoder) (frames : List Frame) : Prop :=
  match dec.state with
  | .payload => Inside dec frames
  | _ => frames.all Frame.complete = true

theorem Sync.contiguous {frames : List Frame} (h : Sync dec frames) : Contiguous frames := by
  unfold Sync at h
  split at h
  · obtain ⟨hlt, ⟨-, hall⟩ | ⟨-, payload, rest, rfl, hlen, hall⟩⟩ := h
    · exact contiguous_of_complete hall
    · refine ⟨hall, fun f hf => ?_⟩
      rcases List.mem_cons.mp hf with rfl | hf
      · change payload.length ≤ dec.payloadLen
        omega
      · exact (contiguous_of_complete hall).2 f hf
  · exact contiguous_of_complete h

theorem head?_all {frames : List Frame} (h : frames.all Frame.complete = true) :
    frames.head?.all Frame.complete = true := by
  cases frames with
  | nil => rfl
  | cons f frames =>
    rw [List.all_cons, Bool.and_eq_true] at h
    exact h.1

/-- A byte of a head shows nothing, or an empty frame. -/
theorem decHead_sync {dec₁ : Decoder} {frames : List Frame} (hstate : dec₁.state = .head)
    (hall : frames.all Frame.complete = true) (h : decHead dec₁ b = (dec', new, none)) :
    ∃ frames', new.foldlM record frames = some frames' ∧ Sync dec' frames' := by
  have hstep := headByte_step dec₁ b
  unfold decHead at h
  generalize headByte dec₁ b = p at h hstep
  cases hstep with
  | more hsame _ =>
    cases h
    refine ⟨frames, rfl, ?_⟩
    rw [Sync, hsame, hstate]
    exact hall
  | @done dec₂ hsame hoffset =>
    simp only [ne_eq, not_true_eq_false, if_false] at h
    by_cases hempty : dec₂.payloadLen = 0
    · rw [if_pos hempty] at h
      cases h
      refine ⟨⟨dec₂.frameFlags, dec₂.payloadLen, []⟩ :: frames, ?_, ?_⟩
      · simp [record, Decoder.callback, Decoder.enter, hoffset, head?_all hall]
      · change (_ :: frames).all Frame.complete = true
        rw [List.all_cons, hall, Bool.and_true, Frame.complete]
        simpa using hempty.symm
    · rw [if_neg hempty] at h
      cases h
      refine ⟨frames, rfl, ?_, .inl ⟨hoffset, hall⟩⟩
      change dec₂.payloadOffset < dec₂.payloadLen
      omega
  | failed => simp at h

/-- A byte of the payload goes behind the ones that were shown. -/
theorem payload_sync {frames : List Frame} (hin : Inside dec frames) (b : UInt8) :
    ∃ payload rest, record frames (dec.callback [b]) =
        some (⟨dec.frameFlags, dec.payloadLen, payload⟩ :: rest) ∧
      payload.length = dec.payloadOffset + 1 ∧ rest.all Frame.complete = true := by
  obtain ⟨hlt, ⟨hzero, hall⟩ | ⟨hpos, payload, rest, rfl, hlen, hall⟩⟩ := hin
  · refine ⟨[b], frames, ?_, by simp [hzero], hall⟩
    simp [record, Decoder.callback, hzero, head?_all hall]
  · refine ⟨payload ++ [b], rest, ?_, by simp [hlen], hall⟩
    simp [record, Decoder.callback, hpos, hlen]

theorem decByte_sync {frames : List Frame} (hsync : Sync dec frames)
    (h : decByte dec b = (dec', new, none)) :
    ∃ frames', new.foldlM record frames = some frames' ∧ Sync dec' frames' := by
  unfold decByte at h
  unfold Sync at hsync
  cases hstate : dec.state with
  | init =>
    rw [hstate] at h hsync
    exact decHead_sync rfl hsync h
  | head =>
    rw [hstate] at h hsync
    exact decHead_sync hstate hsync h
  | payload =>
    rw [hstate] at h hsync
    obtain ⟨payload, rest, hrecord, hlen, hall⟩ := payload_sync hsync b
    have hlt := hsync.1
    by_cases hlast : dec.payloadOffset + 1 = dec.payloadLen
    · simp only [if_pos hlast] at h
      cases h
      refine ⟨_, by rw [List.foldlM_cons, hrecord]; rfl, ?_⟩
      change (_ :: rest).all Frame.complete = true
      rw [List.all_cons, hall, Bool.and_true, Frame.complete, hlen]
      simpa using hlast
    · simp only [if_neg hlast] at h
      cases h
      refine ⟨_, by rw [List.foldlM_cons, hrecord]; rfl, ?_⟩
      rw [Sync, show (dec.advance 1).state = .payload from hstate]
      refine ⟨?_, .inr ⟨Nat.succ_ne_zero _, payload, rest, rfl, hlen, hall⟩⟩
      change dec.payloadOffset + 1 < dec.payloadLen
      omega

/-- The frames of a stream are shown in one piece each, from offset 0 on. -/
theorem shown_contiguous (bytes : Bytes) :
    ∃ frames, (shown bytes).1 = some frames ∧ Contiguous frames := by
  have hgood : ∀ {bytes : Bytes}, (feed decByte decInit bytes).error = none →
      ∃ frames, (feed decByte decInit bytes).out.foldlM record [] = some frames ∧
        Sync (feed decByte decInit bytes).state frames := by
    intro bytes hnone
    have hstart : ∃ frames, ([] : List Callback).foldlM record [] = some frames ∧
        Sync decInit frames := ⟨[], rfl, rfl⟩
    refine feed_invariant
      (P := fun dec out => ∃ frames, out.foldlM record [] = some frames ∧ Sync dec frames) ?_
      hstart hnone
    intro dec b dec' out out' ⟨frames, hout, hsync⟩ hstep
    obtain ⟨frames', hnew, hsync'⟩ := decByte_sync hsync hstep
    refine ⟨frames', ?_, hsync'⟩
    rw [List.foldlM_append, hout]
    exact hnew
  rcases herror : (feed decByte decInit bytes).error with _ | e
  · obtain ⟨frames, hout, hsync⟩ := hgood herror
    exact ⟨frames, hout, hsync.contiguous⟩
  · obtain ⟨pre, b, post, last, -, hpre, hstep, hout, -⟩ := feed_error herror
    obtain ⟨rfl, -⟩ := decByte_error hstep
    obtain ⟨frames, hframes, hsync⟩ := hgood hpre
    refine ⟨frames, ?_, hsync.contiguous⟩
    rw [shown, hout, List.append_nil]
    exact hframes

end Gurl.Ws
