import Gurl.Buffer.Supply
import Gurl.Http.Encoder
import Gurl.Lib.Handout

/-! The reader of `lib/sendf.c` that converts line ends: a LF becomes CRLF, unless there is a CR in
front of it. -/

namespace Gurl.Sendf

open Buffer
open Http (NextRead)

/-- `struct cr_lc_ctx`. -/
structure CrLc where
  buf : Buffer.State
  readEos : Bool
  eos : Bool
  prevCr : Bool

/-- `cr_lc_init`. -/
def crLcInit : CrLc where
  buf := bufqInit2 .empty (16 * 1024) 1 true false
  readEos := false
  eos := false
  prevCr := false

/-- `Curl_bufq_cwrite`, with memory for every chunk that it asks for. -/
def CrLc.cwrite (ctx : CrLc) (bytes : Bytes) : Option (CrLc × Curlcode) := do
  let (buf, result, _) ← bufqWrite { ctx.buf with mallocs := bytes.length } bytes
  some ({ ctx with buf }, result)

/-- The bytes from `start` on, and CRLF for the LF behind them. -/
def CrLc.writeLine (ctx : CrLc) (pending : Bytes) : Option (CrLc × Curlcode) := do
  match ← ctx.cwrite pending with
  | (ctx, .ok) => ctx.cwrite [13, 10]
  | failure => some failure

/-- The loop over the bytes that were read; `pending` are those from `start` on. -/
def convertLoop : CrLc → Bytes → Bytes → Option (CrLc × Curlcode × Bytes)
  | ctx, pending, [] => some (ctx, .ok, pending)
  | ctx, pending, c :: cs =>
    if c ≠ 10 ∨ ctx.prevCr then convertLoop { ctx with prevCr := c = 13 } (pending ++ [c]) cs
    else do
      match ← CrLc.writeLine { ctx with prevCr := false } pending with
      | (ctx, .ok) => convertLoop ctx [] cs
      | (ctx, result) => some (ctx, result, pending)

/-- Put what was read into the buffer, with its line ends converted. -/
def CrLc.convert (ctx : CrLc) (bytes : Bytes) : Option (CrLc × Curlcode) := do
  match ← convertLoop ctx [] bytes with
  | (ctx, .ok, pending) => if pending = [] then some (ctx, .ok) else ctx.cwrite pending
  | (ctx, result, _) => some (ctx, result)

/-- What a read returns. -/
structure ReadResult where
  result : Curlcode
  bytes : Bytes
  eos : Bool

/-- The last part of `cr_lc_read`: hand out what is in the buffer. -/
def CrLc.drain (ctx : CrLc) (blen : Nat) : Option (CrLc × ReadResult) := do
  let (buf, result, bytes) ← bufqRead ctx.buf blen
  if result = .ok ∧ ctx.readEos = true ∧ (← bufqIsEmpty buf) = true then
    some ({ ctx with buf, eos := true }, ⟨result, bytes, true⟩)
  else some ({ ctx with buf }, ⟨result, bytes, false⟩)

/-- Whether `cr_lc_read` asks the next reader. -/
def CrLc.asks (ctx : CrLc) : Option Bool := do
  some (!ctx.eos && !ctx.readEos && (← bufqIsEmpty ctx.buf))

/-- `cr_lc_read` with what the next reader has returned. -/
def CrLc.take (ctx : CrLc) (blen : Nat) (read : NextRead) : Option (CrLc × ReadResult) := do
  if read.result ≠ .ok then some (ctx, ⟨read.result, [], false⟩)
  else
    let ctx := { ctx with readEos := read.eos }
    if 10 ∉ read.bytes then
      -- nothing to convert
      let prevCr := match read.bytes.getLast? with
        | some c => decide (c = 13)
        | none => ctx.prevCr
      some ({ ctx with prevCr, eos := read.eos }, ⟨.ok, read.bytes, read.eos⟩)
    else
      match ← ctx.convert read.bytes with
      | (ctx, .ok) => ctx.drain blen
      | (ctx, result) => some (ctx, ⟨result, [], false⟩)

/-- `cr_lc_read`, with what the next reader returns if it is asked. -/
def crLcRead (ctx : CrLc) (blen : Nat) (read : NextRead) : Option (CrLc × ReadResult) := do
  if ctx.eos then some (ctx, ⟨.ok, [], true⟩)
  else if ← bufqIsEmpty ctx.buf then
    if ctx.readEos then some ({ ctx with eos := true }, ⟨.ok, [], true⟩)
    else ctx.take blen read
  else ctx.drain blen

/-! ### A next reader with pieces -/

/-- The pieces that the next reader delivers, and whether it tells the end with the last of them or
in a read of its own. -/
structure Supply where
  pieces : List Bytes
  tells : Bool

/-- A read of the next reader; of a piece that is too long the rest comes later. -/
def Supply.read (supply : Supply) (blen : Nat) : NextRead × Supply :=
  match supply.pieces with
  | [] => (⟨.ok, [], true⟩, supply)
  | p :: ps =>
    if p.length ≤ blen then (⟨.ok, p, supply.tells && ps.isEmpty⟩, { supply with pieces := ps })
    else (⟨.ok, p.take blen, false⟩, { supply with pieces := p.drop blen :: ps })

/-- A read with the next reader behind it. A buffer without room makes it ask to be called again;
there is no other error. -/
def lcCall (s : CrLc × Supply) (blen : Nat) : Option ((CrLc × Supply) × Handout.Answer UInt8) := do
  let (read, supply) := s.2.read blen
  let asked ← s.1.asks
  let (ctx, answer) ← crLcRead s.1 blen read
  guard (answer.result = .ok ∨ answer.result = .again)
  some ((ctx, if asked then supply else s.2), (answer.bytes, answer.eos))

/-- Every LF without a CR in front of it as CRLF; `prevCr` says whether there is one in front. -/
def lineEnds : Bool → Bytes → Bytes
  | _, [] => []
  | prevCr, c :: cs => (if c = 10 ∧ prevCr = false then [13, 10] else [c]) ++ lineEnds (c = 13) cs

example : lineEnds false [10, 13, 10, 97, 10] = [13, 10, 13, 10, 97, 13, 10] := by decide

/-! ### The conversion of a read -/

variable {content bytes xs ys text : Bytes} {prevCr : Bool}

/-- Whether there is a CR at the end of `prevCr` and some bytes. -/
def crBehind (prevCr : Bool) (xs : Bytes) : Bool := xs.foldl (fun _ c => c = 13) prevCr

theorem lineEnds_append (prevCr : Bool) (xs ys : Bytes) :
    lineEnds prevCr (xs ++ ys) = lineEnds prevCr xs ++ lineEnds (crBehind prevCr xs) ys := by
  induction xs generalizing prevCr with
  | nil => rfl
  | cons c cs ih =>
    rw [List.cons_append, lineEnds, ih, lineEnds, List.append_assoc]
    rfl

/-- Without a LF nothing changes. -/
theorem lineEnds_eq_self (h : 10 ∉ xs) (prevCr : Bool) : lineEnds prevCr xs = xs := by
  induction xs generalizing prevCr with
  | nil => rfl
  | cons c cs ih =>
    rw [List.mem_cons, not_or] at h
    have hc : ¬ (c = 10 ∧ prevCr = false) := fun hc => h.1 hc.1.symm
    rw [lineEnds, if_neg hc, ih h.2]
    rfl

theorem lineEnds_ne_nil (h : xs ≠ []) (prevCr : Bool) : lineEnds prevCr xs ≠ [] := by
  cases xs with
  | nil => exact absurd rfl h
  | cons c cs =>
    rw [lineEnds]
    split <;> simp

/-- The CR behind a read, as the shortcut finds it. -/
theorem crBehind_last (prevCr : Bool) (xs : Bytes) :
    crBehind prevCr xs = match xs.getLast? with
      | some c => decide (c = 13)
      | none => prevCr := by
  rcases List.eq_nil_or_concat xs with rfl | ⟨ys, c, rfl⟩
  · rfl
  · rw [List.concat_eq_append, List.getLast?_concat, crBehind, List.foldl_append]
    rfl

theorem cwrite_spec (ctx : CrLc) (h : Queue ctx.buf content) (bytes : Bytes) :
    ∃ buf, ctx.cwrite bytes = some ({ ctx with buf }, .ok) ∧ Queue buf (content ++ bytes) := by
  obtain ⟨buf, hwrite, hq⟩ := bufqWrite_queue h bytes
  refine ⟨buf, ?_, hq⟩
  rw [CrLc.cwrite, hwrite]
  rfl

theorem writeLine_spec (ctx : CrLc) (h : Queue ctx.buf content) (pending : Bytes) :
    ∃ buf, ctx.writeLine pending = some ({ ctx with buf }, .ok) ∧
      Queue buf (content ++ pending ++ [13, 10]) := by
  obtain ⟨buf, hpending, hq⟩ := cwrite_spec ctx h pending
  obtain ⟨buf', hline, hq'⟩ := cwrite_spec { ctx with buf } hq [13, 10]
  refine ⟨buf', ?_, hq'⟩
  rw [CrLc.writeLine, hpending]
  exact hline

/-- The loop puts the converted bytes into the buffer, but for the pending ones. -/
theorem convertLoop_spec (ctx : CrLc) (h : Queue ctx.buf content) (pending bytes : Bytes) :
    ∃ buf pending' content',
      convertLoop ctx pending bytes =
        some ({ ctx with buf, prevCr := crBehind ctx.prevCr bytes }, .ok, pending') ∧
      Queue buf content' ∧
        content' ++ pending' = content ++ pending ++ lineEnds ctx.prevCr bytes := by
  induction bytes generalizing ctx content pending with
  | nil => exact ⟨ctx.buf, pending, content, rfl, h, by simp [lineEnds]⟩
  | cons c cs ih =>
    rw [convertLoop]
    by_cases hplain : c ≠ 10 ∨ ctx.prevCr = true
    · rw [if_pos hplain]
      obtain ⟨buf, pending', content', hloop, hq, heq⟩ :=
        ih { ctx with prevCr := c = 13 } h (pending ++ [c])
      have hkeep : ¬ (c = 10 ∧ ctx.prevCr = false) := by
        rintro ⟨hc, hprev⟩
        exact hplain.elim (absurd hc) fun hcr => Bool.false_ne_true (hprev.symm.trans hcr)
      refine ⟨buf, pending', content', hloop, hq, ?_⟩
      rw [heq, lineEnds, if_neg hkeep]
      simp
    · rw [if_neg hplain]
      rw [not_or, not_not, Bool.not_eq_true] at hplain
      obtain ⟨rfl, hprev⟩ := hplain
      obtain ⟨buf, hline, hq⟩ := writeLine_spec { ctx with prevCr := false } h pending
      obtain ⟨buf', pending', content', hloop, hq', heq⟩ :=
        ih { ctx with buf, prevCr := false } hq []
      refine ⟨buf', pending', content', ?_, hq', ?_⟩
      · rw [hline]
        exact hloop
      · rw [heq, lineEnds, if_pos ⟨rfl, hprev⟩]
        simp

theorem convert_spec (ctx : CrLc) (h : Queue ctx.buf content) (bytes : Bytes) :
    ∃ buf, ctx.convert bytes = some ({ ctx with buf, prevCr := crBehind ctx.prevCr bytes }, .ok) ∧
      Queue buf (content ++ lineEnds ctx.prevCr bytes) := by
  obtain ⟨buf, pending, content', hloop, hq, heq⟩ := convertLoop_spec ctx h [] bytes
  rw [List.append_nil] at heq
  rw [CrLc.convert, hloop]
  change ∃ buf', (if pending = [] then _ else _) = _ ∧ _
  by_cases hpending : pending = []
  · rw [if_pos hpending]
    rw [hpending, List.append_nil] at heq
    exact ⟨buf, rfl, heq ▸ hq⟩
  · rw [if_neg hpending]
    obtain ⟨buf', hwrite, hq'⟩ :=
      cwrite_spec { ctx with buf, prevCr := crBehind ctx.prevCr bytes } hq pending
    exact ⟨buf', hwrite, heq ▸ hq'⟩

/-! ### Reads -/

/-- What the next reader has still to deliver. -/
def CrLc.rest (ctx : CrLc) (supply : Supply) : Bytes :=
  if ctx.readEos then [] else supply.pieces.flatten

/-- The reader has not ended, and the text is what it has still to hand out. -/
structure Converting (s : CrLc × Supply) (text : Bytes) : Prop where
  running : s.1.eos = false
  text : ∃ content, Queue s.1.buf content ∧ text = content ++ lineEnds s.1.prevCr (s.1.rest s.2) ∧
    (s.1.readEos = true → content ≠ [])

/-- A read of the next reader delivers the first bytes of its pieces. -/
theorem supply_read (supply : Supply) (blen : Nat) :
    ∃ bytes eos supply', supply.read blen = (⟨.ok, bytes, eos⟩, supply') ∧
      supply.pieces.flatten = bytes ++ supply'.pieces.flatten ∧
      (eos = true → supply'.pieces = []) ∧ supply'.pieces.length ≤ supply.pieces.length ∧
      (eos = false → 0 < blen →
        supply'.pieces.length < bytes.length + supply.pieces.length) := by
  obtain ⟨pieces, tells⟩ := supply
  rw [Supply.read]
  cases pieces with
  | nil => exact ⟨[], true, _, rfl, rfl, fun _ => rfl, Nat.le_refl _, by simp⟩
  | cons p ps =>
    dsimp only
    by_cases hfits : p.length ≤ blen
    · rw [if_pos hfits]
      refine ⟨p, _, _, rfl, rfl, fun heos => ?_, Nat.le_succ _, fun _ _ => ?_⟩
      · rw [Bool.and_eq_true, List.isEmpty_iff] at heos
        exact heos.2
      · simp only [List.length_cons]
        omega
    · rw [if_neg hfits]
      refine ⟨p.take blen, _, _, rfl, ?_, by simp, Nat.le_refl _, fun _ hblen => ?_⟩
      · rw [List.flatten_cons, List.flatten_cons, ← List.append_assoc, List.take_append_drop]
      · rw [List.length_take, List.length_cons]
        simp only [List.length_cons]
        omega

/-- How far it is to the end. -/
def lcCost (s : CrLc × Supply) (text : Bytes) : Nat := text.length + s.2.pieces.length

/-- What is handed out of the buffer. -/
theorem drain_spec (ctx : CrLc) (supply : Supply) (blen : Nat) (h : Queue ctx.buf content)
    (hrun : ctx.eos = false) (hcontent : content ≠ []) :
    ∃ ctx' result out eos, ctx.drain blen = some (ctx', ⟨result, out, eos⟩) ∧
      (result = .ok ∨ result = .again) ∧ (0 < blen → out ≠ []) ∧
      (eos = true ∧ ctx.readEos = true ∧ content = out ∨
        eos = false ∧ ∃ left, content ++ lineEnds ctx.prevCr (ctx.rest supply) = out ++ left ∧
          Converting (ctx', supply) left) := by
  obtain ⟨buf, hread, hq⟩ := bufqRead_queue h blen
  have hsplit := List.take_append_drop blen content
  have hout : 0 < blen → content.take blen ≠ [] := by
    intro hblen hnil
    obtain h0 | h0 := List.take_eq_nil_iff.mp hnil
    · omega
    · exact hcontent h0
  rw [CrLc.drain, hread]
  simp only [Option.bind_eq_bind, Option.bind_some, bufqIsEmpty_spec hq.rep]
  generalize hresult : (if content.take blen = [] then Curlcode.again else .ok) = result
  have hres : result = .ok ∨ result = .again := by
    rw [← hresult]
    split
    · exact .inr rfl
    · exact .inl rfl
  by_cases hend : result = .ok ∧ ctx.readEos = true ∧ decide (content.drop blen = []) = true
  · rw [if_pos hend]
    refine ⟨_, _, _, _, rfl, hres, hout, .inl ⟨rfl, hend.2.1, ?_⟩⟩
    rw [of_decide_eq_true hend.2.2, List.append_nil] at hsplit
    exact hsplit.symm
  · rw [if_neg hend]
    refine ⟨_, _, _, _, rfl, hres, hout, .inr ⟨rfl, content.drop blen ++ lineEnds ctx.prevCr
      (ctx.rest supply), ?_, hrun, content.drop blen, hq, rfl, ?_⟩⟩
    · rw [← List.append_assoc, hsplit]
    · intro hreadEos hdrop
      apply hend
      refine ⟨?_, hreadEos, decide_eq_true hdrop⟩
      rw [← hresult, if_neg]
      intro htake
      rw [htake, hdrop] at hsplit
      exact hcontent hsplit.symm

/-- What comes of a call: the text has ended, or its first bytes were handed out. -/
structure Stepped (blen : Nat) (text : Bytes) (pieces : Nat) (s : CrLc × Supply)
    (out : Bytes) (eos : Bool) : Prop where
  last : eos = true → text = out
  next : eos = false → ∃ left, text = out ++ left ∧ Converting s left ∧ s.2.pieces.length ≤ pieces ∧
    (0 < blen → s.2.pieces.length < out.length + pieces)

/-- A call with bytes in the buffer. -/
theorem drain_stepped (ctx : CrLc) (supply : Supply) (blen : Nat) (h : Queue ctx.buf content)
    (hrun : ctx.eos = false) (hcontent : content ≠ []) {pieces : Nat}
    (hpieces : supply.pieces.length ≤ pieces) :
    ∃ ctx' result out eos, ctx.drain blen = some (ctx', ⟨result, out, eos⟩) ∧
      (result = .ok ∨ result = .again) ∧
      Stepped blen (content ++ lineEnds ctx.prevCr (ctx.rest supply)) pieces
        (ctx', supply) out eos := by
  obtain ⟨ctx', result, out, eos, hdrain, hresult, hout, hcases⟩ :=
    drain_spec ctx supply blen h hrun hcontent
  refine ⟨ctx', result, out, eos, hdrain, hresult, fun heos => ?_, fun heos => ?_⟩
  · obtain ⟨-, hread, rfl⟩ | ⟨heos', -⟩ := hcases
    · rw [CrLc.rest, if_pos hread]
      exact List.append_nil _
    · cases heos.symm.trans heos'
  · obtain ⟨heos', -⟩ | ⟨-, left, htext, hleft⟩ := hcases
    · cases heos.symm.trans heos'
    · refine ⟨left, htext, hleft, hpieces, fun hblen => ?_⟩
      have := List.length_pos_iff.mpr (hout hblen)
      change supply.pieces.length < _
      omega

/-- A call that asks the next reader. -/
theorem take_stepped (ctx : CrLc) (blen : Nat) (h : Queue ctx.buf []) (hrun : ctx.eos = false)
    {supply supply' : Supply} {eos : Bool}
    (hflatten : supply.pieces.flatten = bytes ++ supply'.pieces.flatten)
    (hlast : eos = true → supply'.pieces = [])
    (hle : supply'.pieces.length ≤ supply.pieces.length)
    (hlt : eos = false → 0 < blen →
      supply'.pieces.length < bytes.length + supply.pieces.length) :
    ∃ ctx' result out eos', ctx.take blen ⟨.ok, bytes, eos⟩ = some (ctx', ⟨result, out, eos'⟩) ∧
      (result = .ok ∨ result = .again) ∧
      Stepped blen (lineEnds ctx.prevCr supply.pieces.flatten) supply.pieces.length (ctx', supply')
        out eos' := by
  have hrest : CrLc.rest { ctx with readEos := eos } supply' = supply'.pieces.flatten := by
    cases eos with
    | false => rfl
    | true => rw [CrLc.rest, if_pos rfl, hlast rfl, List.flatten_nil]
  rw [hflatten, lineEnds_append, CrLc.take, if_neg (not_not.mpr rfl)]
  by_cases hplain : 10 ∉ bytes
  · -- the shortcut
    dsimp only
    rw [if_pos hplain, ← crBehind_last, lineEnds_eq_self hplain]
    refine ⟨_, _, _, _, rfl, .inl rfl, fun heos => ?_, fun heos => ?_⟩
    · rw [hlast heos]
      exact List.append_nil _
    · refine ⟨_, rfl, ⟨heos, [], h, ?_, fun hread => ?_⟩, hle, hlt heos⟩
      · exact congrArg (lineEnds _) hrest.symm
      · cases hread.symm.trans heos
  · dsimp only
    rw [if_neg hplain]
    obtain ⟨buf, hconvert, hq⟩ := convert_spec { ctx with readEos := eos } h bytes
    have hbytes : bytes ≠ [] := by
      rintro rfl
      exact hplain List.not_mem_nil
    rw [hconvert]
    have hstepped := drain_stepped
      { ctx with readEos := eos, buf, prevCr := crBehind ctx.prevCr bytes } supply' blen hq hrun
      (lineEnds_ne_nil hbytes ctx.prevCr) hle
    change ∃ ctx' result out eos', CrLc.drain _ blen = _ ∧ _
    have hsame : CrLc.rest { ctx with readEos := eos, buf, prevCr := crBehind ctx.prevCr bytes }
        supply' = supply'.pieces.flatten := hrest
    rw [hsame] at hstepped
    exact hstepped

theorem lcCall_eq {ctx ctx' : CrLc} {supply supply' : Supply} {blen : Nat} {read : NextRead}
    {asked : Bool} {result : Curlcode} {out : Bytes} {eos : Bool}
    (hread : supply.read blen = (read, supply')) (hasks : ctx.asks = some asked)
    (hcall : crLcRead ctx blen read = some (ctx', ⟨result, out, eos⟩))
    (hresult : result = .ok ∨ result = .again) :
    lcCall (ctx, supply) blen = some ((ctx', if asked then supply' else supply), out, eos) := by
  rw [lcCall, hread]
  simp [hasks, hcall, hresult, guard]

/-- A call hands out the next bytes. -/
theorem lcCall_stepped {s : CrLc × Supply} (h : Converting s text) (blen : Nat) :
    ∃ s' out eos, lcCall s blen = some (s', out, eos) ∧
      Stepped blen text s.2.pieces.length s' out eos := by
  obtain ⟨ctx, supply⟩ := s
  obtain ⟨hrun, content, hq, rfl, hpending⟩ := h
  dsimp only at hrun hq hpending ⊢
  obtain ⟨bytes, eos, supply', hread, hflatten, hlast, hle, hlt⟩ := supply_read supply blen
  have hempty := bufqIsEmpty_spec hq.rep
  have hasks : ctx.asks = some (!ctx.readEos && decide (content = [])) := by
    rw [CrLc.asks, hempty, hrun]
    rfl
  by_cases hcontent : content = []
  · -- the next reader is asked
    have hreadEos : ctx.readEos = false := Bool.eq_false_iff.mpr fun h => hpending h hcontent
    rw [hreadEos] at hasks
    subst hcontent
    obtain ⟨ctx', result, out, eos', htake, hresult, hstepped⟩ :=
      take_stepped ctx blen hq hrun hflatten hlast hle hlt
    have hcall : crLcRead ctx blen ⟨.ok, bytes, eos⟩ = some (ctx', ⟨result, out, eos'⟩) := by
      rw [crLcRead, hempty]
      simp only [hrun, hreadEos, Option.bind_eq_bind, Option.bind_some, decide_true, if_true,
        Bool.false_eq_true, if_false]
      exact htake
    have hrest : ctx.rest supply = supply.pieces.flatten := by rw [CrLc.rest, hreadEos]; rfl
    rw [hrest]
    exact ⟨_, _, _, lcCall_eq hread hasks hcall hresult, hstepped⟩
  · obtain ⟨ctx', result, out, eos', hdrain, hresult, hstepped⟩ :=
      drain_stepped ctx supply blen hq hrun hcontent (Nat.le_refl _)
    have hnot : decide (content = []) = false := decide_eq_false hcontent
    have hcall : crLcRead ctx blen ⟨.ok, bytes, eos⟩ = some (ctx', ⟨result, out, eos'⟩) := by
      rw [crLcRead, hempty]
      simp only [hrun, hnot, Option.bind_eq_bind, Option.bind_some, Bool.false_eq_true, if_false]
      exact hdrain
    rw [hnot, Bool.and_false] at hasks
    exact ⟨_, _, _, lcCall_eq hread hasks hcall hresult, hstepped⟩

/-- The reader hands out the converted text. -/
theorem lc_hands : Handout.Hands lcCall Converting (fun blen => decide (0 < blen)) lcCost where
  call := by
    intro s text blen hs
    obtain ⟨s', out, eos, hcall, hstepped⟩ := lcCall_stepped hs blen
    refine ⟨s', out, ?_⟩
    cases eos with
    | true => exact .inl ⟨hcall, hstepped.last rfl⟩
    | false =>
      obtain ⟨left, htext, hleft, hle, hlt⟩ := hstepped.next rfl
      refine .inr ⟨left, hcall, htext, hleft, ?_, fun hblen => ?_⟩
      · rw [lcCost, lcCost, htext, List.length_append]
        omega
      · have := hlt (of_decide_eq_true hblen)
        rw [lcCost, lcCost, htext, List.length_append]
        omega

theorem converting_init (supply : Supply) :
    Converting (crLcInit, supply) (lineEnds false supply.pieces.flatten) where
  running := rfl
  text := ⟨[], queue_init (by decide) (by decide), rfl, nofun⟩

/-- Whatever the sizes of the reads and the pieces of the next reader are, what is read until the
end is the input with its line ends converted, and the end is reported once, with the last byte or
behind it. It comes as soon as there are enough reads that ask for something. -/
theorem crLcRead_converts (pieces : List Bytes) (tells : Bool) (sizes : List Nat) :
    ∃ answers, Handout.readAll lcCall (crLcInit, ⟨pieces, tells⟩) sizes = some answers ∧
      Handout.returned answers <+: lineEnds false pieces.flatten ∧
      (Handout.Ended answers → Handout.returned answers = lineEnds false pieces.flatten) ∧
      (∀ a ∈ answers.dropLast, a.2 = false) ∧
      ((lineEnds false pieces.flatten).length + pieces.length <
          sizes.countP (fun blen => decide (0 < blen)) → Handout.Ended answers) := by
  obtain ⟨answers, hall, hanswers, hends⟩ := lc_hands.run (converting_init ⟨pieces, tells⟩) sizes
  exact ⟨answers, hall, hanswers.first, hanswers.all, hanswers.once, hends⟩

end Gurl.Sendf
