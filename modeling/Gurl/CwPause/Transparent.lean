import Gurl.CwPause.Writer
import Gurl.Lib.Coalesce

/-! What was passed on and what is still buffered, the oldest first, are the writes in their order,
as long as nothing has to be buffered that a flush would pass on in pieces with the end of the
stream, or not at all. -/

namespace Gurl.CwPause

open Sendf (Clientwrite)
open Buffer Coalesce

/-- A write, or a piece of one. -/
abbrev Piece := Clientwrite × Bytes

/-- Neighbouring pieces of a body are one; the end of the stream may come with the second. -/
def join (a b : Piece) : Option Piece :=
  if a.1.body = true ∧ a.1.eos = false ∧ { b.1 with eos := false } = a.1 then
    some (b.1, a.2 ++ b.2)
  else none

/-- Some writes, with neighbouring pieces of a body joined. -/
def joined (ws : List Piece) : List Piece := coalesce join ws

theorem join_fuses : Fuses join where
  none := by
    intro a b ab c hab hbc
    unfold join at *
    split at hab
    · cases hab
      split at hbc
      · cases hbc
      · rename_i h
        rw [if_neg h]
    · cases hab
  some := by
    intro a b ab c bc hab hbc
    unfold join at *
    split at hab
    · rename_i h
      cases hab
      split at hbc
      · rename_i h'
        cases hbc
        have hb : { b.1 with eos := false } = b.1 := by
          obtain ⟨⟨_, _, _, _, _, _, _, eos, _⟩, _⟩ := b
          cases eos with
          | false => rfl
          | true => exact nomatch h'.2.1
        refine ⟨(c.1, a.2 ++ (b.2 ++ c.2)), ?_, ?_⟩
        · rw [if_pos ⟨h.1, h.2.1, by rw [h'.2.2, ← h.2.2, hb]⟩]
        · rw [if_pos h', List.append_assoc]
      · cases hbc
    · cases hab

variable {decoding : Bool} {ctx ctx' : Ctx} {type : Clientwrite} {buf : Bytes}

theorem joined_congr {as as' bs bs' : List Piece} (ha : joined as = joined as')
    (hb : joined bs = joined bs') : joined (as ++ bs) = joined (as' ++ bs') :=
  coalesce_append_congr join_fuses ha hb

/-- A write in two pieces. -/
theorem joined_split (hbody : type.body = true) (xs ys : Bytes) :
    joined [({ type with eos := false }, xs), (type, ys)] = joined [(type, xs ++ ys)] := by
  have hjoin : join ({ type with eos := false }, xs) (type, ys) = some (type, xs ++ ys) := by
    rw [join, if_pos ⟨hbody, rfl, rfl⟩]
  exact cons_of_some hjoin []

/-! ### What is buffered -/

/-- A queue of the chain has the bytes `xs`: it is as it was created, or it is not empty. -/
def Contains (b : State) (xs : Bytes) : Prop :=
  xs = [] ∧ b.q.head = none ∨ xs ≠ [] ∧ Rep b xs

/-- The most that a flush passes on at once from a buffer of body. -/
def flushLimit (decoding : Bool) : Nat := if decoding then decWriteChunk else bufChunk

/-- The buffer holds the piece, and will pass it on. -/
structure Holding (decoding : Bool) (cwbuf : PauseBuf) (w : Piece) : Prop where
  type : cwbuf.type = w.1
  bytes : Contains cwbuf.b w.2
  size : cwbuf.b.q.chunkSize ≤ sizeMax - chunkHeader
  soft : w.1.body = true → cwbuf.b.q.softLimit = true
  whole : w.2 ≠ [] → w.1.body = false ∨ w.1.eos = true → OneChunk cwbuf.b w.2
  short : w.1.body = true → w.1.eos = true → w.2.length ≤ flushLimit decoding
  filled : w.2 = [] → w.1.eos = true

/-- The number of bytes in some pieces. -/
def total (ws : List Piece) : Nat := (ws.map fun w => w.2.length).sum

/-- The chain holds `ws`, the oldest first. -/
structure Waiting (decoding : Bool) (ctx : Ctx) (ws : List Piece) : Prop where
  chain : List.Forall₂ (Holding decoding) ctx.buf.reverse ws
  bufTotal : ctx.bufTotal = total ws

/-- The next writer has taken all it got. -/
def Ctx.Taken (ctx : Ctx) : Prop := ∀ result ∈ ctx.results, result = .ok

theorem Ctx.Taken.headD (h : ctx.Taken) : ctx.results.headD .ok = .ok := by
  cases hr : ctx.results with
  | nil => rfl
  | cons result results => exact h result (by simp [hr])

theorem Ctx.Taken.tail (h : ctx.Taken) : ∀ result ∈ ctx.results.tail, result = .ok :=
  fun result hresult => h result (List.mem_of_mem_tail hresult)

theorem Contains.peek {b : State} {xs : Bytes} (h : Contains b xs) :
    ∃ b' shown, bufqPeek b = some (b', shown) ∧ Shows xs shown ∧
      (xs ≠ [] → Rep b' xs) ∧ (xs = [] → b' = b ∧ b.q.head = none) ∧
        b'.q.options = b.q.options := by
  rcases h with ⟨rfl, hhead⟩ | ⟨hne, hrep⟩
  · refine ⟨b, none, ?_, rfl, fun h => absurd rfl h, fun _ => ⟨rfl, hhead⟩, rfl⟩
    simp [bufqPeek, pruneEmptyHead, peekHead, hhead]
  · obtain ⟨b', shown, hpeek, hshows, hrep'⟩ := bufqPeek_spec hrep
    exact ⟨b', shown, hpeek, hshows, fun _ => hrep', fun h => absurd h hne,
      bufqPeek_options hpeek⟩

theorem pieceLen_le (decoding : Bool) (type : Clientwrite) (n : Nat) :
    pieceLen decoding type n ≤ n := by
  unfold pieceLen
  split <;> omega

theorem pieceLen_pos (decoding : Bool) (type : Clientwrite) {n : Nat} (h : 0 < n) :
    0 < pieceLen decoding type n := by
  unfold pieceLen decWriteChunk
  split <;> omega

theorem pieceLen_whole {n : Nat} (h : type.body = true → n ≤ flushLimit decoding) :
    pieceLen decoding type n = n := by
  unfold pieceLen
  split
  · rename_i hd
    rw [Bool.and_eq_true] at hd
    have hle := h hd.2
    rw [flushLimit, if_pos hd.1] at hle
    omega
  · rfl

/-- Without the end of the stream, a type is what it is. -/
theorem type_of_not_eos (h : type.eos = false) : { type with eos := false } = type := by
  rw [← h]

theorem total_append (ws vs : List Piece) : total (ws ++ vs) = total ws + total vs := by
  simp [total]

/-! ### Flushing -/

/-- What one round of the flush does with the oldest piece: some of it is passed on. -/
structure Flushed (decoding : Bool) (ctx : Ctx) (newer : List PauseBuf) (w : Piece) (ctx' : Ctx)
    (left : List PauseBuf) (rest : List Piece) : Prop where
  buf : ctx'.buf = newer ++ left
  chain : List.Forall₂ (Holding decoding) left.reverse rest
  joined : joined (ctx'.passed ++ rest) = joined (ctx.passed ++ [w])
  bufTotal : ctx'.bufTotal = ctx.bufTotal - (w.2.length - total rest)
  le : total rest ≤ w.2.length
  less : total rest + rest.length < w.2.length + 1
  taken : ctx'.Taken
  type : ∀ r ∈ rest, r.1 = w.1

theorem keepLast_eq {last : PauseBuf} {xs : Bytes} (h : Rep last.b xs) :
    keepLast last = some (if xs = [] then [] else [last]) := by
  unfold keepLast
  rw [bufqIsEmpty_spec h]
  by_cases hxs : xs = [] <;> simp [hxs]

theorem pass_ok (htaken : ctx.Taken) (type : Clientwrite) (buf : Bytes) :
    ctx.pass type buf = ((ctx.pass type buf).1, .ok) := by
  rw [Ctx.pass, htaken.headD]

theorem Ctx.Taken.pass (htaken : ctx.Taken) (type : Clientwrite) (buf : Bytes) :
    (ctx.pass type buf).1.Taken := htaken.tail

/-- Only the end of the stream is left. -/
theorem flushLast_empty {last : PauseBuf} {w : Piece} (hh : Holding decoding last w)
    (htaken : ctx.Taken) (newer : List PauseBuf) (result : Curlcode) (hnil : w.2 = []) :
    flushLast decoding ctx newer last result =
        some (((ctx.pass w.1 []).1.withBuf (newer ++ []) ctx.bufTotal), .ok, false) := by
  have heos := hh.filled hnil
  obtain ⟨b', shown, hpeek, hshows, -, hsame, -⟩ := hh.bytes.peek
  obtain ⟨rfl, hhead⟩ := hsame hnil
  obtain rfl : shown = none := by
    cases shown with
    | none => rfl
    | some bytes =>
      rw [hnil] at hshows
      exact absurd (List.prefix_nil.mp hshows.2) hshows.1
  have hkeep : keepLast last = some [] := by
    simp [keepLast, bufqIsEmpty, hhead]
  have hpass := pass_ok htaken w.1 []
  unfold flushLast
  rw [hpeek]
  simp only [Option.bind_eq_bind, Option.bind_some, hh.type, heos, if_true]
  rw [hpass]
  obtain ⟨b, type⟩ := last
  obtain rfl : type = w.1 := hh.type
  simp only [hkeep, Option.bind_some]
  rfl

/-- A piece is passed on, and the rest is kept. -/
theorem flushLast_piece {last : PauseBuf} {w : Piece} (hh : Holding decoding last w)
    (htaken : ctx.Taken) (newer : List PauseBuf) (result : Curlcode) (hne : w.2 ≠ []) :
    ∃ wlen b, 0 < wlen ∧ wlen ≤ w.2.length ∧ (w.1.body = false ∨ w.1.eos = true →
      wlen = w.2.length) ∧ Rep b (w.2.drop wlen) ∧ b.q.options = last.b.q.options ∧
      flushLast decoding ctx newer last result =
        some ((ctx.pass w.1 (w.2.take wlen)).1.withBuf
          (newer ++ if w.2.drop wlen = [] then [] else [⟨b, w.1⟩]) (ctx.bufTotal - wlen),
          .ok, false) := by
  obtain ⟨b₁, shown, hpeek, hshows, hrep, -, hoptions⟩ := hh.bytes.peek
  obtain ⟨bytes, rfl⟩ : ∃ bytes, shown = some bytes := by
    cases shown with
    | none => exact absurd hshows hne
    | some bytes => exact ⟨bytes, rfl⟩
  have hpos : 0 < bytes.length := List.length_pos_iff.mpr hshows.1
  obtain ⟨b₂, hskip, hrep₂⟩ :=
    bufqSkip_spec (pieceLen decoding w.1 bytes.length) (hrep hne)
  have hle := (pieceLen_le decoding w.1 bytes.length).trans hshows.2.length_le
  refine ⟨pieceLen decoding w.1 bytes.length, b₂, pieceLen_pos _ _ hpos, hle, ?_, hrep₂,
    (bufqSkip_options hskip).trans hoptions, ?_⟩
  · intro hwhole
    have hone := hh.whole hne hwhole
    rw [bufqPeek_oneChunk hone hne, Option.some.injEq, Prod.mk.injEq, Option.some.injEq] at hpeek
    rw [← hpeek.2]
    refine pieceLen_whole fun hbody => hh.short hbody ?_
    rcases hwhole with h | h
    · rw [hbody] at h
      cases h
    · exact h
  · have htake : bytes.take (pieceLen decoding w.1 bytes.length) =
        w.2.take (pieceLen decoding w.1 bytes.length) := by
      obtain ⟨tail, htail⟩ := hshows.2
      rw [← htail, List.take_append_of_le_length (pieceLen_le _ _ _)]
    have hpass := pass_ok htaken w.1 (w.2.take (pieceLen decoding w.1 bytes.length))
    obtain ⟨b, type⟩ := last
    obtain rfl : type = w.1 := hh.type
    unfold flushLast
    rw [hpeek]
    simp only [Option.bind_eq_bind, Option.bind_some]
    rw [htake, hpass, hskip]
    simp only [Option.bind_some, ne_eq, not_true, if_false]
    rw [keepLast_eq hrep₂]
    rfl

theorem flushLast_spec {last : PauseBuf} {w : Piece} (hh : Holding decoding last w)
    (htaken : ctx.Taken) (newer : List PauseBuf) (result : Curlcode) :
    ∃ ctx' left rest, flushLast decoding ctx newer last result = some (ctx', .ok, false) ∧
      Flushed decoding ctx newer w ctx' left rest := by
  by_cases hne : w.2 = []
  · refine ⟨_, [], [], flushLast_empty hh htaken newer result hne, rfl, .nil, ?_, ?_, Nat.zero_le _,
      by simp [total], htaken.pass w.1 [], List.forall_mem_nil _⟩
    · show joined (ctx.passed ++ [(w.1, [])] ++ []) = _
      rw [List.append_nil, ← hne]
    · simp [hne, Ctx.withBuf]
  · obtain ⟨wlen, b, hpos, hle, hwhole, hrep, hoptions, hflush⟩ :=
      flushLast_piece hh htaken newer result hne
    by_cases hdrop : w.2.drop wlen = []
    · rw [if_pos hdrop] at hflush
      have hall : wlen = w.2.length := by
        rw [List.drop_eq_nil_iff] at hdrop
        omega
      rw [hall, List.take_length] at hflush
      refine ⟨_, [], [], hflush, rfl, .nil, ?_, rfl, Nat.zero_le _, by simp [total],
        htaken.pass w.1 w.2, List.forall_mem_nil _⟩
      show joined (ctx.passed ++ [(w.1, w.2)] ++ []) = _
      rw [List.append_nil]
    · rw [if_neg hdrop] at hflush
      -- only body without the end of the stream is passed on in part
      have hpart : ¬(w.1.body = false ∨ w.1.eos = true) := by
        intro h
        rw [hwhole h, List.drop_length] at hdrop
        exact hdrop rfl
      simp only [not_or, Bool.not_eq_false, Bool.not_eq_true] at hpart
      have hchunk : b.q.chunkSize = last.b.q.chunkSize := congrArg (fun o => o.2.1) hoptions
      have hholding : Holding decoding ⟨b, w.1⟩ (w.1, w.2.drop wlen) := {
        type := rfl
        bytes := .inr ⟨hdrop, hrep⟩
        size := hchunk ▸ hh.size
        soft := fun hbody => (softLimit_eq hoptions).trans (hh.soft hbody)
        whole := fun _ h => by simp [hpart] at h
        short := fun _ heos => by simp [hpart] at heos
        filled := fun h => absurd h hdrop }
      have htotal : total [(w.1, w.2.drop wlen)] = w.2.length - wlen := by simp [total]
      refine ⟨_, [⟨b, w.1⟩], [(w.1, w.2.drop wlen)], hflush, rfl, .cons hholding .nil, ?_, ?_,
        by omega, ?_, htaken.pass w.1 (w.2.take wlen), by simp⟩
      · show joined (ctx.passed ++ [(w.1, w.2.take wlen)] ++ [(w.1, w.2.drop wlen)]) = _
        rw [List.append_assoc]
        refine joined_congr rfl ?_
        have hsplit := joined_split hpart.1 (w.2.take wlen) (w.2.drop wlen)
        rw [type_of_not_eos hpart.2, List.take_append_drop] at hsplit
        exact hsplit
      · show ctx.bufTotal - wlen = _
        omega
      · simp only [List.length_singleton]
        omega

/-- What a flush leaves is in order. -/
theorem flushLoop_spec {ws incoming : List Piece} {fuel : Nat} (hw : Waiting decoding ctx ws)
    (htaken : ctx.Taken) (hjoined : joined (ctx.passed ++ ws) = joined incoming)
    (hfuel : total ws + ws.length < fuel) :
    ∃ ctx' ws', flushLoop decoding fuel ctx .ok = some (ctx', .ok, false) ∧
      Waiting decoding ctx' ws' ∧ ctx'.Taken ∧ joined (ctx'.passed ++ ws') = joined incoming ∧
      ∀ w ∈ ws', ∃ v ∈ ws, w.1 = v.1 := by
  induction fuel generalizing ctx ws with
  | zero => omega
  | succ fuel ih =>
    unfold flushLoop
    rcases List.eq_nil_or_concat ctx.buf with hnil | ⟨newer, last, hbuf⟩
    · rw [hnil]
      exact ⟨ctx, ws, rfl, hw, htaken, hjoined, fun w h => ⟨w, h, rfl⟩⟩
    · rw [List.concat_eq_append] at hbuf
      rw [hbuf, List.getLast?_concat, List.dropLast_concat]
      dsimp only
      by_cases hpaused : ctx.isPaused = true
      · rw [if_pos hpaused]
        exact ⟨ctx.asked, ws, rfl, ⟨hw.chain, hw.bufTotal⟩, htaken, hjoined,
          fun w h => ⟨w, h, rfl⟩⟩
      · rw [if_neg hpaused]
        have hchain := hw.chain
        rw [hbuf, List.reverse_append, List.reverse_singleton, List.singleton_append] at hchain
        cases hchain with
        | @cons _ w _ ws hh hrest =>
          obtain ⟨ctx₁, left, rest, hflush, hf⟩ :=
            flushLast_spec hh (show ctx.asked.Taken from htaken) newer .ok
          have hless := hf.less
          have hsum : total (w :: ws) = w.2.length + total ws := by simp [total]
          have hwaiting : Waiting decoding ctx₁ (rest ++ ws) := by
            refine ⟨?_, ?_⟩
            · rw [hf.buf, List.reverse_append]
              exact List.rel_append hf.chain hrest
            · have htotal : ctx.bufTotal = total (w :: ws) := hw.bufTotal
              have hbt : ctx₁.bufTotal = ctx.bufTotal - (w.2.length - total rest) := hf.bufTotal
              rw [hbt, total_append]
              omega
          have horder : joined (ctx₁.passed ++ (rest ++ ws)) = joined incoming := by
            rw [← hjoined, ← List.append_assoc,
              show ctx.passed ++ w :: ws = ctx.passed ++ [w] ++ ws by simp]
            exact joined_congr hf.joined rfl
          obtain ⟨ctx₂, ws₂, hloop, hw₂, htaken₂, horder₂, htypes⟩ :=
            ih hwaiting hf.taken horder (by
              rw [total_append, List.length_append]
              simp only [List.length_cons] at hfuel
              omega)
          refine ⟨ctx₂, ws₂, ?_, hw₂, htaken₂, horder₂, ?_⟩
          · rw [hflush]
            exact hloop
          · intro v hv
            obtain ⟨u, hu, heq⟩ := htypes v hv
            rcases List.mem_append.mp hu with hu | hu
            · exact ⟨w, by simp, heq.trans (hf.type u hu)⟩
            · exact ⟨u, by simp [hu], heq⟩

/-- What was passed on and what is waiting are the incoming writes. -/
structure InOrder (decoding : Bool) (incoming : List Piece) (ctx : Ctx) (ws : List Piece) :
    Prop where
  waiting : Waiting decoding ctx ws
  taken : ctx.Taken
  order : joined (ctx.passed ++ ws) = joined incoming
  open_ : (∀ p ∈ incoming, p.1.eos = false) → ∀ w ∈ ws, w.1.eos = false

variable {incoming ws : List Piece}

theorem InOrder.of_fields (h : InOrder decoding incoming ctx ws) (hbuf : ctx'.buf = ctx.buf)
    (htotal : ctx'.bufTotal = ctx.bufTotal) (htaken : ctx'.Taken)
    (hpassed : ctx'.passed = ctx.passed) : InOrder decoding incoming ctx' ws where
  waiting := ⟨hbuf ▸ h.waiting.chain, htotal.trans h.waiting.bufTotal⟩
  taken := htaken
  order := hpassed ▸ h.order
  open_ := h.open_

theorem InOrder.asked (h : InOrder decoding incoming ctx ws) :
    InOrder decoding incoming ctx.asked ws := h.of_fields rfl rfl h.taken rfl

theorem cwPauseFlush_inOrder (h : InOrder decoding incoming ctx ws) :
    ∃ ctx' ws', cwPauseFlush decoding ctx = some (ctx', .ok) ∧
      InOrder decoding incoming ctx' ws' := by
  have hlen := h.waiting.chain.length_eq
  rw [List.length_reverse] at hlen
  have hfuel : total ws + ws.length < ctx.fuel := by
    rw [Ctx.fuel, h.waiting.bufTotal, hlen]
    omega
  obtain ⟨ctx₁, ws₁, hloop, hw, htaken, horder, htypes⟩ :=
    flushLoop_spec h.waiting h.taken h.order hfuel
  have hflushed : InOrder decoding incoming ctx₁ ws₁ := by
    refine ⟨hw, htaken, horder, fun hopen w hmem => ?_⟩
    obtain ⟨v, hv, heq⟩ := htypes w hmem
    rw [heq]
    exact h.open_ hopen v hv
  refine ⟨ctx₁.flushNext.1, ws₁, ?_, hflushed.of_fields rfl rfl htaken.tail rfl⟩
  unfold cwPauseFlush
  rw [hloop]
  simp only [Option.bind_eq_bind, Option.bind_some, Ctx.flushNext, htaken.headD]

theorem flushFirst_inOrder (h : InOrder decoding incoming ctx ws) :
    ∃ ctx' ws', flushFirst decoding ctx = some (ctx', .ok) ∧
      InOrder decoding incoming ctx' ws' := by
  unfold flushFirst
  split
  · exact ⟨ctx, ws, rfl, h⟩
  · split
    · exact ⟨ctx.asked, ws, rfl, h.asked⟩
    · exact cwPauseFlush_inOrder h.asked

/-! ### Writing -/

/-- A write that carries the end of the stream is short enough for what is left of it when the
writers pause: a flush passes that on at once. -/
def EndFits (decoding : Bool) (ctx : Ctx) (blen : Nat) : Prop :=
  if ctx.buf.isEmpty = false then blen ≤ flushLimit decoding
  else if decoding then ∀ i : Nat, ctx.answers[i]? = some true → blen ≤ decWriteChunk * (i + 1)
  else ctx.isPaused = true → blen ≤ bufChunk

/-- A write that a later flush will not tear or lose, in the state after the flush that it begins
with. -/
structure Keeps (ctx : Ctx) (decoding : Bool) (type : Clientwrite) (buf : Bytes) : Prop where
  /-- the end of the stream comes with no more body than a flush passes on at once -/
  short : type.body = true → type.eos = true → EndFits decoding ctx buf.length
  /-- an empty write without the end of the stream is written through -/
  filled : buf = [] → type.eos = false → ctx.buf.isEmpty = true ∧ ctx.isPaused = false

/-- What the loop that writes through leaves for the buffers. -/
structure Left (decoding : Bool) (type : Clientwrite) (pieces : List Piece) (buf rest : Bytes) :
    Prop where
  joined : joined (pieces ++ [(type, rest)]) = joined [(type, buf)]
  filled : rest = [] → buf = []
  le : rest.length ≤ buf.length
  short : type.body = true → type.eos = true → rest.length ≤ flushLimit decoding

theorem isPaused_iff : ctx.isPaused = true ↔ ctx.answers[0]? = some true := by
  unfold Ctx.isPaused
  cases ctx.answers <;> simp

/-- Before the first piece of a write, all of it is left. -/
theorem EndFits.paused {blen : Nat} (h : EndFits decoding ctx blen)
    (hempty : ctx.buf.isEmpty = true)
    (hpaused : ctx.isPaused = true) : blen ≤ flushLimit decoding := by
  unfold EndFits at h
  unfold flushLimit
  rw [if_neg (by simp [hempty])] at h
  split at h
  · rename_i hd
    have hle := h 0 (isPaused_iff.mp hpaused)
    rw [if_pos hd]
    omega
  · rename_i hd
    rw [if_neg hd]
    exact h hpaused

/-- After a piece, there is one answer and one piece less. -/
theorem EndFits.piece {blen : Nat} (h : EndFits decoding ctx blen) (hempty : ctx.buf.isEmpty = true)
    (hd : decoding = true) (hbuf : ctx'.buf = ctx.buf)
    (hanswers : ctx'.answers = ctx.answers.tail) :
    EndFits decoding ctx' (blen - decWriteChunk) := by
  unfold EndFits at h ⊢
  rw [if_neg (by simp [hempty]), if_pos hd] at h
  rw [hbuf, if_neg (by simp [hempty]), if_pos hd, hanswers]
  intro i hi
  rw [List.getElem?_tail] at hi
  have hle := h (i + 1) hi
  rw [Nat.mul_add] at hle
  omega

theorem pieceLen_lt {n : Nat} (h : pieceLen decoding type n < n) :
    decoding = true ∧ type.body = true ∧ pieceLen decoding type n = decWriteChunk := by
  unfold pieceLen at *
  split at h
  · rename_i hd
    rw [Bool.and_eq_true] at hd
    rw [if_pos (by simp [hd])]
    exact ⟨hd.1, hd.2, by omega⟩
  · omega

theorem throughLoop_spec {fuel : Nat} (hempty : ctx.buf.isEmpty = true) (htaken : ctx.Taken)
    (hshort : type.body = true → type.eos = true → EndFits decoding ctx buf.length)
    (hfuel : buf.length < fuel) :
    ∃ ctx' pieces left, throughLoop decoding type fuel ctx buf = (ctx', .ok, left) ∧
      ctx'.buf = ctx.buf ∧ ctx'.bufTotal = ctx.bufTotal ∧ ctx'.Taken ∧
      ctx'.passed = ctx.passed ++ pieces ∧
      (left = none → joined pieces = joined [(type, buf)]) ∧
      (∀ rest, left = some rest → Left decoding type pieces buf rest ∧
        (buf = [] → ctx.isPaused = true)) := by
  induction fuel generalizing ctx buf with
  | zero => omega
  | succ fuel ih =>
    unfold throughLoop
    rw [if_neg (by simp [hempty])]
    by_cases hpaused : ctx.isPaused = true
    · rw [if_pos hpaused]
      refine ⟨ctx.asked, [], some buf, rfl, rfl, rfl, htaken, by simp [Ctx.asked], nofun, ?_⟩
      intro rest hrest
      cases hrest
      refine ⟨⟨rfl, id, Nat.le_refl _, ?_⟩, fun _ => hpaused⟩
      intro hbody heos
      exact (hshort hbody heos).paused hempty hpaused
    · rw [if_neg hpaused]
      have hle := pieceLen_le decoding type buf.length
      dsimp only
      by_cases hall : pieceLen decoding type buf.length < buf.length
      · -- a piece of the body goes through, without the end of the stream
        obtain ⟨hd, hbody, hchunk⟩ := pieceLen_lt hall
        rw [hchunk] at hall ⊢
        rw [if_pos hall, pass_ok (show ctx.asked.Taken from htaken)]
        have hdrop : (buf.drop decWriteChunk).length = buf.length - decWriteChunk := by simp
        have hchunkpos : 0 < decWriteChunk := by decide
        have hne : buf.drop decWriteChunk ≠ [] := by
          intro h
          rw [h, List.length_nil] at hdrop
          omega
        have htaken₁ : (ctx.asked.pass { type with eos := false }
          (buf.take decWriteChunk)).1.Taken :=
          htaken.tail
        have hempty₁ : (ctx.asked.pass { type with eos := false }
            (buf.take decWriteChunk)).1.buf.isEmpty = true := hempty
        obtain ⟨ctx', pieces, left, hloop, hbuf, htotal, htaken', hpassed, hnone, hsome⟩ :=
          ih hempty₁ htaken₁
            (fun hbody heos => hdrop ▸ (hshort hbody heos).piece hempty hd rfl rfl)
            (show (buf.drop decWriteChunk).length < fuel by omega)
        have hsplit := joined_split hbody (buf.take decWriteChunk) (buf.drop decWriteChunk)
        rw [List.take_append_drop] at hsplit
        refine ⟨ctx', ({ type with eos := false }, buf.take decWriteChunk) :: pieces, left, ?_,
          hbuf, htotal, htaken', ?_, ?_, ?_⟩
        · dsimp only
          rw [if_neg (by simpa using hne)]
          exact hloop
        · rw [hpassed]
          simp [Ctx.pass, Ctx.asked]
        · intro hleft
          rw [← hsplit]
          exact show joined ([_] ++ pieces) =
            joined ([_] ++ [_]) from joined_congr rfl (hnone hleft)
        · intro rest hrest
          obtain ⟨hleft, -⟩ := hsome rest hrest
          have hle' := hleft.le
          refine ⟨⟨?_, fun h => absurd (hleft.filled h) hne, by omega, hleft.short⟩, ?_⟩
          · rw [← hsplit]
            exact show joined ([_] ++ (pieces ++ [_])) = joined ([_] ++ [_]) from
              joined_congr rfl hleft.joined
          · rintro rfl
            simp at hne
      · have hwhole : pieceLen decoding type buf.length = buf.length := by omega
        rw [hwhole, if_neg (by omega), List.take_length, List.drop_length,
          pass_ok (show ctx.asked.Taken from htaken)]
        exact ⟨_, [(type, buf)], none, rfl, rfl, rfl, htaken.tail, rfl, fun _ => rfl, nofun⟩

/-- A queue as it was created. -/
theorem holds_init {size : Nat} (hsize : 0 < size) (soft noSpares : Bool) (mallocs : Nat) :
    Holds { bufqInit2 .empty size 1 soft noSpares with mallocs } [] [] [] [] :=
  ⟨⟨hsize, .nil _, rfl, .nil _, rfl, List.nodup_nil, nofun, rfl⟩, .nil _, rfl⟩

/-- What has to be buffered, and will be passed on. -/
structure Storable (decoding : Bool) (type : Clientwrite) (buf : Bytes) : Prop where
  filled : buf = [] → type.eos = true
  short : type.body = true → type.eos = true → buf.length ≤ flushLimit decoding
  size : buf.length ≤ sizeMax - chunkHeader

theorem flushLimit_le (decoding : Bool) : flushLimit decoding ≤ bufChunk := by
  cases decoding <;> decide

/-- A write to a new buffer. -/
theorem create_holding (hs : Storable decoding type buf) :
    ∃ cwbuf, (bufCreate type buf.length).cwrite buf = some (cwbuf, .ok, buf.length) ∧
      Holding decoding cwbuf (type, buf) := by
  have hchunk : bufChunk ≤ sizeMax - chunkHeader := by decide
  by_cases hnil : buf = []
  · subst hnil
    refine ⟨⟨{ (bufCreate type 0).b with mallocs := 0 }, type⟩, rfl, rfl, .inl ⟨rfl, ?_⟩, ?_, ?_,
      fun h => absurd rfl h, hs.short, hs.filled⟩
    · unfold bufCreate
      cases type.body <;> rfl
    · unfold bufCreate
      cases type.body
      · exact Nat.zero_le _
      · exact hchunk
    · intro hbody
      simp only [bufCreate]
      rw [hbody]
      rfl
  have hpos : 0 < buf.length := List.length_pos_iff.mpr hnil
  have hm : buf.length ≠ 0 := by omega
  cases hbody : type.body with
  | false =>
    have hg : Growable { bufqInit2 .empty buf.length 1 false false with mallocs := buf.length } :=
      ⟨hs.size, .inl Nat.zero_lt_one⟩
    obtain ⟨b, hwrite, hone⟩ := bufqWrite_oneChunk (holds_init hpos false false _) hg hm hnil
      (Nat.le_refl _)
    refine ⟨⟨b, type⟩, ?_, rfl, .inr ⟨hnil, hone.rep⟩, ?_, by simp [hbody], fun _ _ => hone,
      by simp [hbody], fun h => absurd h hnil⟩
    · unfold PauseBuf.cwrite bufCreate
      rw [hbody]
      simp [hwrite]
    · rw [show b.q.chunkSize = buf.length from congrArg (fun o => o.2.1) (bufqWrite_options hwrite)]
      exact hs.size
  | true =>
    by_cases heos : type.eos = true
    · have hg : Growable { bufqInit2 .empty bufChunk 1 true true with mallocs := buf.length } :=
        ⟨hchunk, .inr rfl⟩
      obtain ⟨b, hwrite, hone⟩ := bufqWrite_oneChunk (holds_init (by decide) true true _) hg hm hnil
        ((hs.short hbody heos).trans (flushLimit_le decoding))
      have hoptions := bufqWrite_options hwrite
      refine ⟨⟨b, type⟩, ?_, rfl, .inr ⟨hnil, hone.rep⟩, ?_, fun _ => softLimit_eq hoptions,
        fun _ _ => hone, hs.short, fun h => absurd h hnil⟩
      · unfold PauseBuf.cwrite bufCreate
        rw [hbody]
        simp [hwrite]
      · rw [show b.q.chunkSize = bufChunk from congrArg (fun o => o.2.1) hoptions]
        exact hchunk
    · have hrep : Buffer.Rep { bufqInit2 .empty bufChunk 1 true true with mallocs := buf.length }
        [] :=
        ⟨[], [], [], holds_init (by decide) true true _⟩
      obtain ⟨b, hwrite, hrep⟩ := bufqWrite_supplied hrep hchunk rfl (Nat.le_refl buf.length)
      have hoptions := bufqWrite_options hwrite
      refine ⟨⟨b, type⟩, ?_, rfl, .inr ⟨hnil, hrep⟩, ?_, fun _ => softLimit_eq hoptions,
        fun _ h => by simp [hbody, heos] at h, hs.short, fun h => absurd h hnil⟩
      · unfold PauseBuf.cwrite bufCreate
        rw [hbody]
        simp [hwrite]
      · rw [show b.q.chunkSize = bufChunk from congrArg (fun o => o.2.1) hoptions]
        exact hchunk

/-- A write to the buffer of body of the same type. -/
theorem append_holding {cwbuf : PauseBuf} {w : Piece} (hh : Holding decoding cwbuf w)
    (hbody : w.1.body = true) (heos : w.1.eos = false) (buf : Bytes) :
    ∃ cwbuf', cwbuf.cwrite buf = some (cwbuf', .ok, buf.length) ∧
      Holding decoding cwbuf' (w.1, w.2 ++ buf) := by
  have hne : w.2 ≠ [] := by
    intro h
    rw [hh.filled h] at heos
    cases heos
  have hrep : Buffer.Rep cwbuf.b w.2 := by
    rcases hh.bytes with ⟨h, -⟩ | ⟨-, h⟩
    · exact absurd h hne
    · exact h
  obtain ⟨b, hwrite, hrep'⟩ := bufqWrite_supplied (hrep.withMallocs buf.length) hh.size
    (hh.soft hbody) (Nat.le_refl buf.length)
  have hoptions : b.q.options = cwbuf.b.q.options := (bufqWrite_options hwrite).trans rfl
  refine ⟨⟨b, cwbuf.type⟩, ?_, hh.type, .inr ⟨by simp [hne], hrep'⟩, ?_,
    fun _ => (softLimit_eq hoptions).trans (hh.soft hbody), fun _ h => by simp [hbody, heos] at h,
    fun _ h => by simp [heos] at h, fun h => by simp [hne] at h⟩
  · unfold PauseBuf.cwrite
    simp [hwrite]
  · rw [show b.q.chunkSize = cwbuf.b.q.chunkSize from congrArg (fun o => o.2.1) hoptions]
    exact hh.size

/-- The buffer that a write goes to takes all of it. -/
theorem target_holding (hw : Waiting decoding ctx ws) (hopen : ∀ w ∈ ws, w.1.eos = false)
    (hs : Storable decoding type buf) :
    ∃ cwbuf older v, (target ctx type buf.length).1.cwrite buf = some (cwbuf, .ok, buf.length) ∧
      List.Forall₂ (Holding decoding) (target ctx type buf.length).2.reverse older ∧
      Holding decoding cwbuf v ∧ v.1 = type ∧ (∀ w ∈ older, w ∈ ws) ∧
      joined (older ++ [v]) = joined (ws ++ [(type, buf)]) ∧
      total (older ++ [v]) = total ws + buf.length := by
  have hnew : ∃ cwbuf older v, (bufCreate type buf.length).cwrite buf =
    some (cwbuf, .ok, buf.length) ∧
      List.Forall₂ (Holding decoding) ctx.buf.reverse older ∧
      Holding decoding cwbuf v ∧ v.1 = type ∧ (∀ w ∈ older, w ∈ ws) ∧
      joined (older ++ [v]) = joined (ws ++ [(type, buf)]) ∧
      total (older ++ [v]) = total ws + buf.length := by
    obtain ⟨cwbuf, hwrite, hh⟩ := create_holding hs
    exact ⟨cwbuf, ws, (type, buf), hwrite, hw.chain, hh, rfl, fun _ h => h, rfl, by simp [total]⟩
  unfold target
  cases hbuf : ctx.buf with
  | nil =>
    rw [hbuf] at hnew
    exact hnew
  | cons cwbuf next =>
    dsimp only
    split
    · rename_i hsame
      have hchain := hw.chain
      rw [← List.reverse_reverse ws, List.forall₂_reverse_iff, hbuf] at hchain
      cases hws : ws.reverse with
      | nil =>
        rw [hws] at hchain
        cases hchain
      | cons w newest =>
        rw [hws] at hchain
        cases hchain with
        | cons hh hrest =>
          have hws' : ws = newest.reverse ++ [w] := by
            rw [← List.reverse_reverse ws, hws, List.reverse_cons]
          have htype : w.1 = type := hh.type.symm.trans hsame.1
          have heos : w.1.eos = false := hopen w (by simp [hws'])
          obtain ⟨cwbuf', hwrite, hh'⟩ := append_holding hh (by rw [htype]; exact hsame.2) heos buf
          refine ⟨cwbuf', newest.reverse, (w.1, w.2 ++ buf), hwrite,
            List.forall₂_reverse_iff.mpr hrest, hh', htype, ?_, ?_, ?_⟩
          · intro v hv
            simp [hws', hv]
          · have hbody : w.1.body = true := htype ▸ hsame.2
            have hsplit := joined_split hbody w.2 buf
            rw [type_of_not_eos heos] at hsplit
            rw [hws', List.append_assoc, ← htype]
            exact joined_congr rfl hsplit.symm
          · rw [hws', total_append, total_append]
            simp only [total, List.map_cons, List.map_nil, List.sum_cons, List.sum_nil,
              List.length_append]
            omega
    · rw [hbuf] at hnew
      exact hnew

theorem bufferLoop_spec (hw : Waiting decoding ctx ws) (hopen : ∀ w ∈ ws, w.1.eos = false)
    (hs : Storable decoding type buf) :
    ∃ ctx' ws', bufferLoop type (buf.length + 1) ctx buf = some (ctx', .ok) ∧
      Waiting decoding ctx' ws' ∧ ctx'.results = ctx.results ∧ ctx'.passed = ctx.passed ∧
      joined ws' = joined (ws ++ [(type, buf)]) ∧
      ∀ w ∈ ws', w ∈ ws ∨ w.1 = type := by
  obtain ⟨cwbuf, older, v, hwrite, hchain, hh, htype, hmem, horder, htotal⟩ :=
    target_holding hw hopen hs
  refine ⟨ctx.withBuf (cwbuf :: (target ctx type buf.length).2) (ctx.bufTotal + buf.length),
    older ++ [v], ?_, ⟨?_, ?_⟩, rfl, rfl, horder, ?_⟩
  · unfold bufferLoop
    simp only [hwrite, Option.bind_eq_bind, Option.bind_some, ne_eq, not_true, if_false,
      List.drop_length, List.isEmpty_nil, if_true]
  · show List.Forall₂ _ (cwbuf :: (target ctx type buf.length).2).reverse _
    rw [List.reverse_cons]
    exact List.rel_append hchain (.cons hh .nil)
  · rw [htotal, ← hw.bufTotal]
    rfl
  · intro w hwmem
    rcases List.mem_append.mp hwmem with h | h
    · exact .inl (hmem w h)
    · rw [List.mem_singleton.mp h]
      exact .inr htype

/-- What is buffered of a write joins what is waiting. -/
theorem bufferLoop_inOrder {rest : Bytes} {pieces : List Piece}
    (h : InOrder decoding incoming ctx ws) (hopen : ∀ p ∈ incoming, p.1.eos = false)
    (hs : Storable decoding type rest) (hctx : Waiting decoding ctx' ws) (htaken : ctx'.Taken)
    (hpassed : ctx'.passed = ctx.passed ++ pieces) (hpieces : ws = [] ∨ pieces = [])
    (hjoined : joined (pieces ++ [(type, rest)]) = joined [(type, buf)]) :
    ∃ ctx'' ws', bufferLoop type (rest.length + 1) ctx' rest = some (ctx'', .ok) ∧
      InOrder decoding (incoming ++ [(type, buf)]) ctx'' ws' := by
  obtain ⟨ctx'', ws', hloop, hw, hresults, hpassed', horder, htypes⟩ :=
    bufferLoop_spec hctx (h.open_ hopen) hs
  refine ⟨ctx'', ws', hloop, hw, ?_, ?_, ?_⟩
  · intro result hresult
    rw [hresults] at hresult
    exact htaken result hresult
  · -- either nothing was waiting, or nothing was written through
    have hmoved : joined (ctx.passed ++ pieces ++ (ws ++ [(type, rest)])) =
        joined (ctx.passed ++ ws ++ (pieces ++ [(type, rest)])) := by
      rcases hpieces with rfl | rfl <;> simp
    calc joined (ctx''.passed ++ ws')
        = joined (ctx.passed ++ pieces ++ (ws ++ [(type, rest)])) := by
          rw [hpassed', hpassed]
          exact joined_congr rfl horder
      _ = joined (ctx.passed ++ ws ++ (pieces ++ [(type, rest)])) := hmoved
      _ = joined (incoming ++ [(type, buf)]) := joined_congr h.order hjoined
  · intro hall w hw'
    rcases htypes w hw' with hmem | heq
    · exact h.open_ hopen w hmem
    · rw [heq]
      exact hall (type, buf) (by simp)

theorem Waiting.nil_of_empty (hw : Waiting decoding ctx ws) (hempty : ctx.buf.isEmpty = true) :
    ws = [] := by
  have hlen := hw.chain.length_eq
  rw [List.isEmpty_iff.mp hempty] at hlen
  exact List.length_eq_zero_iff.mp hlen.symm

theorem writeRest_inOrder (h : InOrder decoding incoming ctx ws)
    (hopen : ∀ p ∈ incoming, p.1.eos = false) (hkeeps : Keeps ctx decoding type buf)
    (hsize : buf.length ≤ sizeMax - chunkHeader) :
    ∃ ctx' ws', writeRest decoding ctx type buf = some (ctx', .ok) ∧
      InOrder decoding (incoming ++ [(type, buf)]) ctx' ws' := by
  unfold writeRest
  by_cases hempty : ctx.buf.isEmpty = true
  · obtain rfl := h.waiting.nil_of_empty hempty
    obtain ⟨ctx', pieces, left, hloop, hbuf, htotal, htaken, hpassed, hnone, hsome⟩ :=
      throughLoop_spec hempty h.taken hkeeps.short (Nat.lt_succ_self buf.length)
    have hwaiting : Waiting decoding ctx' [] :=
      ⟨hbuf ▸ h.waiting.chain, htotal.trans h.waiting.bufTotal⟩
    rw [hloop]
    cases left with
    | none =>
      refine ⟨ctx', [], rfl, hwaiting, htaken, ?_, fun _ => List.forall_mem_nil _⟩
      have horder := h.order
      rw [List.append_nil] at horder ⊢
      rw [hpassed]
      exact joined_congr horder (hnone rfl)
    | some rest =>
      obtain ⟨hleft, hpaused⟩ := hsome rest rfl
      have hs : Storable decoding type rest := by
        refine ⟨fun hnil => ?_, hleft.short, hleft.le.trans hsize⟩
        by_contra heos
        have hnot := (hkeeps.filled (hleft.filled hnil) (by simpa using heos)).2
        rw [hpaused (hleft.filled hnil)] at hnot
        cases hnot
      exact bufferLoop_inOrder h hopen hs hwaiting htaken hpassed (.inl rfl) hleft.joined
  · rw [throughLoop, if_pos (by simpa using hempty)]
    have hs : Storable decoding type buf := by
      refine ⟨fun hnil => ?_, fun hbody heos => ?_, hsize⟩
      · by_contra heos
        exact hempty (hkeeps.filled hnil (by simpa using heos)).1
      · have hfits := hkeeps.short hbody heos
        rwa [EndFits, if_pos (by simpa using hempty)] at hfits
    exact bufferLoop_inOrder h hopen hs h.waiting h.taken (by simp) (.inr rfl) rfl

/-! ### The end of the stream -/

/-- The end of the stream comes with the last write, if at all. -/
def EosLast (incoming : List Piece) : Prop := ∀ p ∈ incoming.dropLast, p.1.eos = false

def eosCount (ws : List Piece) : Nat := ws.countP fun w => w.1.eos

theorem join_eos {a b ab : Piece} (h : join a b = some ab) :
    a.1.eos = false ∧ ab.1 = b.1 := by
  unfold join at h
  split at h
  · rename_i hjoin
    cases h
    exact ⟨hjoin.2.1, rfl⟩
  · cases h

theorem eosCount_joined (ws : List Piece) : eosCount (joined ws) = eosCount ws := by
  refine countP_coalesce ?_ ws
  intro a b ab h
  obtain ⟨ha, hab⟩ := join_eos h
  exact ⟨ha, by rw [hab]⟩

theorem eosCount_append (ws vs : List Piece) : eosCount (ws ++ vs) = eosCount ws + eosCount vs :=
  List.countP_append

theorem eosCount_singleton (w : Piece) : eosCount [w] = if w.1.eos then 1 else 0 := by
  simp [eosCount, List.countP_cons]

theorem eosCount_of_last {ws : List Piece} (h : EosLast ws) (hpos : 0 < eosCount ws) :
    ∃ w, ws.getLast? = some w ∧ w.1.eos = true ∧ eosCount ws = 1 := by
  rcases List.eq_nil_or_concat ws with rfl | ⟨init, w, rfl⟩
  · simp [eosCount] at hpos
  · rw [List.concat_eq_append] at *
    have hinit : eosCount init = 0 := by
      refine List.countP_eq_zero.mpr fun p hp => ?_
      simp [h p (by simpa using hp)]
    rw [eosCount_append, hinit, eosCount_singleton, Nat.zero_add] at hpos ⊢
    cases heos : w.1.eos with
    | false => simp [heos] at hpos
    | true => exact ⟨w, by simp, heos, rfl⟩

/-- Behind the piece that carries the end of the stream, nothing comes. -/
theorem nil_of_eos {incoming pre post : List Piece} {w : Piece} (hlast : EosLast incoming)
    (horder : joined (pre ++ w :: post) = joined incoming) (heos : w.1.eos = true) : post = [] := by
  have hnone : ∀ v, join w v = none := by
    intro v
    rw [join, if_neg (by simp [heos])]
  have hsplit : joined (pre ++ w :: post) = joined (pre ++ [w]) ++ joined post :=
    coalesce_append_of_none hnone pre post
  have hfirst : 0 < eosCount (joined (pre ++ [w])) := by
    rw [eosCount_joined]
    exact List.countP_pos_iff.mpr ⟨w, by simp, heos⟩
  have hall : eosCount (joined (pre ++ [w])) + eosCount (joined post) = eosCount incoming := by
    rw [← eosCount_joined incoming, ← horder, hsplit]
    exact (eosCount_append _ _).symm
  obtain ⟨v, hv, hveos, hone⟩ := eosCount_of_last hlast (by omega)
  by_contra hne
  -- the last of the joined pieces is one of `post`, and has no end of the stream
  have hjoined : joined post ≠ [] := fun h => hne (coalesce_eq_nil.mp h)
  obtain ⟨u, hu⟩ : ∃ u, (joined post).getLast? = some u :=
    ⟨_, List.getLast?_eq_some_getLast hjoined⟩
  have htype : (joined incoming).getLast?.map Prod.fst = incoming.getLast?.map Prod.fst :=
    getLast?_coalesce (fun h => (join_eos h).2) incoming
  rw [← horder, hsplit, List.getLast?_append, hu, hv] at htype
  have hueos : u.1.eos = true := by
    rw [show u.1 = v.1 by simpa using htype, hveos]
  have hpost : 0 < eosCount (joined post) :=
    List.countP_pos_iff.mpr ⟨u, List.mem_of_getLast? hu, hueos⟩
  omega

/-! ### Runs -/

/-- The chain buffers `ws`, the oldest first. -/
def Ctx.Buffers (ctx : Ctx) (ws : List Piece) : Prop :=
  List.Forall₂ (fun cwbuf w => cwbuf.type = w.1 ∧ Contains cwbuf.b w.2) ctx.buf.reverse ws

/-- The writer hides nothing but the pauses: what it has passed on and what it buffers are the
incoming writes, the end of the stream is passed on once and at the end, and the bytes that are
buffered are counted. -/
def Transparent (incoming : List Piece) (ctx : Ctx) : Prop :=
  ∃ ws, ctx.Buffers ws ∧ joined (ctx.passed ++ ws) = joined incoming ∧
    eosCount (ctx.passed ++ ws) = eosCount incoming ∧
    (∀ pre w post, ctx.passed = pre ++ w :: post → w.1.eos = true → post = [] ∧ ws = []) ∧
    ctx.bufTotal = total ws

/-- The writes of some calls. -/
def writes (calls : List Call) : List Piece :=
  calls.filterMap fun
    | .write type buf => some (type, buf)
    | .flush => none

/-- Every write meets the condition in the state in which it starts. -/
def KeepsAll (decoding : Bool) : Ctx → List Call → Prop
  | _, [] => True
  | ctx, call :: calls =>
    (∀ type buf ctx₁, call = .write type buf → flushFirst decoding ctx = some (ctx₁, .ok) →
      Keeps ctx₁ decoding type buf) ∧
    ∀ ctx₁, step decoding ctx call = some (ctx₁, .ok) → KeepsAll decoding ctx₁ calls

theorem InOrder.transparent (h : InOrder decoding incoming ctx ws) (hlast : EosLast incoming) :
    Transparent incoming ctx := by
  refine ⟨ws, ?_, h.order, ?_, ?_, h.waiting.bufTotal⟩
  · exact h.waiting.chain.imp fun _ _ hh => ⟨hh.type, hh.bytes⟩
  · rw [← eosCount_joined, h.order, eosCount_joined]
  · intro pre w post hpassed heos
    have horder := h.order
    rw [hpassed, List.append_assoc, List.cons_append] at horder
    exact List.append_eq_nil_iff.mp (nil_of_eos hlast horder heos)

theorem step_inOrder (h : InOrder decoding incoming ctx ws) (call : Call)
    (hopen : writes [call] ≠ [] → ∀ p ∈ incoming, p.1.eos = false)
    (hkeeps : ∀ type buf ctx₁, call = .write type buf → flushFirst decoding ctx = some (ctx₁, .ok) →
      Keeps ctx₁ decoding type buf)
    (hsize : ∀ p ∈ writes [call], p.2.length ≤ sizeMax - chunkHeader) :
    ∃ ctx' ws', step decoding ctx call = some (ctx', .ok) ∧
      InOrder decoding (incoming ++ writes [call]) ctx' ws' := by
  cases call with
  | write type buf =>
    obtain ⟨ctx₁, ws₁, hflush, h₁⟩ := flushFirst_inOrder h
    obtain ⟨ctx₂, ws₂, hwrite, h₂⟩ := writeRest_inOrder h₁ (hopen (by simp [writes]))
      (hkeeps type buf ctx₁ rfl hflush) (hsize (type, buf) (by simp [writes]))
    refine ⟨ctx₂, ws₂, ?_, h₂⟩
    simp only [step, cwPauseWrite, hflush, Option.bind_eq_bind, Option.bind_some]
    exact hwrite
  | flush =>
    obtain ⟨ctx₁, ws₁, hflush, h₁⟩ := cwPauseFlush_inOrder h
    exact ⟨ctx₁, ws₁, hflush, by simpa [writes] using h₁⟩

theorem writes_append (as bs : List Call) : writes (as ++ bs) = writes as ++ writes bs :=
  List.filterMap_append

theorem run_inOrder (calls : List Call) (h : InOrder decoding incoming ctx ws)
    (hlast : EosLast (incoming ++ writes calls)) (hkeeps : KeepsAll decoding ctx calls)
    (hsize : ∀ p ∈ writes calls, p.2.length ≤ sizeMax - chunkHeader) :
    ∃ ctx' ws', run decoding ctx calls = some (ctx', .ok) ∧
      InOrder decoding (incoming ++ writes calls) ctx' ws' := by
  induction calls generalizing ctx ws incoming with
  | nil => exact ⟨ctx, ws, rfl, by simpa [writes] using h⟩
  | cons call calls ih =>
    have hsplit : writes (call :: calls) = writes [call] ++ writes calls :=
      writes_append [call] calls
    rw [hsplit] at hlast hsize ⊢
    obtain ⟨hkeep, hrest⟩ := hkeeps
    obtain ⟨ctx₁, ws₁, hstep, h₁⟩ := step_inOrder h call (by
      intro hne p hp
      refine hlast p ?_
      rw [List.dropLast_append_of_ne_nil (by simp [hne])]
      simp [hp]) hkeep (fun p hp => hsize p (by simp [hp]))
    rw [← List.append_assoc] at hlast ⊢
    obtain ⟨ctx₂, ws₂, hrun, h₂⟩ :=
      ih h₁ hlast (hrest ctx₁ hstep) (fun p hp => hsize p (by simp [hp]))
    refine ⟨ctx₂, ws₂, ?_, h₂⟩
    simp only [run, hstep, Option.bind_eq_bind, Option.bind_some]
    exact hrun

/-- In every run whose writes all meet the condition, the writer is transparent in the state that is
reached. -/
theorem pause_transparent (decoding : Bool) (answers : List Bool) (results : List Curlcode)
    (calls : List Call) (hresults : ∀ result ∈ results, result = .ok)
    (hlast : EosLast (writes calls))
    (hsize : ∀ p ∈ writes calls, p.2.length ≤ sizeMax - chunkHeader)
    (hkeeps : KeepsAll decoding (init answers results) calls) :
    ∃ ctx, run decoding (init answers results) calls = some (ctx, .ok) ∧
      Transparent (writes calls) ctx := by
  have hinit : InOrder decoding [] (init answers results) [] :=
    ⟨⟨.nil, rfl⟩, hresults, rfl, fun _ => List.forall_mem_nil _⟩
  obtain ⟨ctx, ws, hrun, h⟩ := run_inOrder calls hinit hlast hkeeps hsize
  exact ⟨ctx, hrun, h.transparent hlast⟩

/-- Short writes that are not empty meet the condition in every state. -/
theorem keeps_of_short (ctx : Ctx) (decoding : Bool) (type : Clientwrite) (hne : buf ≠ [])
    (hlen : buf.length ≤ decWriteChunk) : Keeps ctx decoding type buf := by
  refine ⟨fun _ _ => ?_, fun h => absurd h hne⟩
  have hchunk : decWriteChunk ≤ flushLimit decoding := by cases decoding <;> decide
  unfold EndFits
  split
  · exact hlen.trans hchunk
  · split
    · intro i _
      rw [Nat.mul_add]
      omega
    · exact fun _ => hlen.trans (by decide)

theorem pause_transparent_three : ∃ ctx,
    run true (init [true] []) [.write (.ofBody false) [1, 2], .write (.ofBody true) [3], .flush] =
      some (ctx, .ok) ∧ Transparent [(.ofBody false, [1, 2]), (.ofBody true, [3])] ctx := by
  refine pause_transparent true [true] []
    [.write (.ofBody false) [1, 2], .write (.ofBody true) [3], .flush]
      (List.forall_mem_nil _) ?_ ?_ ?_
  · simp [EosLast, writes, Clientwrite.ofBody]
  · simp [writes, sizeMax, chunkHeader]
  · refine ⟨?_, fun _ _ => ⟨?_, fun _ _ => ⟨by simp, fun _ _ => trivial⟩⟩⟩
    · rintro _ _ ctx ⟨⟩ -
      exact keeps_of_short ctx true _ (by simp) (by decide)
    · rintro _ _ ctx ⟨⟩ -
      exact keeps_of_short ctx true _ (by simp) (by decide)

/-- 5000 bytes arrive with the end of the stream while the writers are paused, and are decoded
later: the flush passes them on in two pieces, and both carry the end of the stream. -/
theorem eos_passed_twice : ¬∃ ctx,
    run true (init [true] []) [.write (.ofBody true) (List.replicate 5000 0), .flush] =
      some (ctx, .ok) ∧ Transparent [(.ofBody true, List.replicate 5000 0)] ctx := by
  rintro ⟨ctx, hrun, ws, -, -, hcount, -⟩
  have htwice : (run true (init [true] [])
      [.write (.ofBody true) (List.replicate 5000 0), .flush]).map
      (fun out => eosCount out.1.passed) = some 2 := by decide +kernel
  rw [hrun, Option.map_some, Option.some.injEq] at htwice
  rw [eosCount_append, htwice, eosCount_singleton] at hcount
  simp [Clientwrite.ofBody] at hcount
  omega

end Gurl.CwPause
