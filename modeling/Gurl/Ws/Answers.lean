import Gurl.Ws.Pong
import Gurl.Ws.Splits

/-! A PING is answered when its payload comes in one piece, and only then. -/

namespace Gurl.Ws

open Buffer

/-- The frame of a PING. -/
def pingFrame (payload : Bytes) : Bytes :=
  [opcodePing ||| bitFin, UInt8.ofNat payload.length] ++ payload

/-- All bytes of the payload come in one of the pieces: only the two bytes of the head may be cut
off. -/
def InOnePiece (payload : Bytes) (pieces : List Bytes) : Prop :=
  payload = [] ∨ ∃ pre piece post, pieces = pre ++ piece :: post ∧ pre.flatten.length ≤ 2 ∧
    2 + payload.length ≤ pre.flatten.length + piece.length

section

variable {dec dec' : Decoder} {s s' : State} {size n h fuel : Nat} {payload xs : Bytes}
  {parts : List Bytes}

/-! ### The head -/

/-- The last `h` bytes of the head of a PING with `n` bytes. -/
def missing (n h : Nat) : Bytes := [opcodePing ||| bitFin, UInt8.ofNat n].drop (2 - h)

/-- A decoder behind the head of a PING. -/
structure Entered (n : Nat) (dec : Decoder) : Prop where
  flags : dec.frameFlags = wsPing
  len : dec.payloadLen = n
  offset : dec.payloadOffset = 0

/-- A decoder in a PING, with `h` bytes of the head to come. -/
inductive AtHead (n : Nat) : Nat → Decoder → Prop
  | start {dec : Decoder} : dec.state = .init → AtHead n 2 dec
  | second {dec : Decoder} : dec.state = .head → dec.head = [opcodePing ||| bitFin] →
      dec.frameFlags = wsPing → AtHead n 1 dec
  | payload {dec : Decoder} : dec.state = .payload → Entered n dec → n ≠ 0 → AtHead n 0 dec

theorem AtHead.le (hdec : AtHead n h dec) : h ≤ 2 := by
  cases hdec with
  | start => exact Nat.le_refl 2
  | second => exact Nat.le_succ 1
  | payload => exact Nat.zero_le 2

theorem missing_length (hle : h ≤ 2) : (missing n h).length = h := by
  rw [missing, List.length_drop]
  exact Nat.sub_sub_self hle

theorem firstbyte_ping (contFlags : UInt32) :
    frameFirstbyte2flags (opcodePing ||| bitFin) contFlags = wsPing := by
  rw [frameFirstbyte2flags, if_neg (by decide), if_neg (by decide), if_neg (by decide),
    if_neg (by decide), if_neg (by decide), if_neg (by decide), if_neg (by decide), if_pos rfl]

theorem headByte_first (hhead : dec.head = []) :
    headByte dec (opcodePing ||| bitFin) =
      ({ dec with frameFlags := wsPing, head := [opcodePing ||| bitFin] }, none) := by
  rw [headByte, hhead, List.length_nil, if_pos rfl, headFirst, firstbyte_ping]
  rfl

theorem small_byte (hle : n ≤ 125) : (UInt8.ofNat n).toNat = n := by
  rw [UInt8.toNat_ofNat']
  exact Nat.mod_eq_of_lt (by omega)

theorem small_unmasked : ∀ n ≤ 125, UInt8.ofNat n &&& bitMask = 0 := by decide

theorem headByte_second (hhead : dec.head = [opcodePing ||| bitFin])
    (hflags : dec.frameFlags = wsPing) (hle : n ≤ 125) :
    ∃ dec', headByte dec (UInt8.ofNat n) = (dec', some .ok) ∧ Entered n dec' ∧
      dec'.state = dec.state := by
  have hbyte := small_byte hle
  have hne : ∀ b : UInt8, 125 < b.toNat → UInt8.ofNat n ≠ b := by
    intro b hlt heq
    rw [← heq, hbyte] at hlt
    omega
  have hlong : ¬ (has dec.frameFlags (wsPing ||| wsPong ||| wsClose) = true ∧
      (UInt8.ofNat n).toNat > maxCntrlLen) := by
    rw [hbyte]
    exact fun hbig => absurd hbig.2 (Nat.not_lt.mpr hle)
  have hdone : headByte dec (UInt8.ofNat n) =
      headDone { dec.push (UInt8.ofNat n) with headTotal := 2 } (beNat [UInt8.ofNat n]) := by
    rw [headByte, hhead, List.length_singleton, if_neg (by decide), if_pos rfl, headSecond,
      if_neg (by simp [small_unmasked n hle]), if_neg hlong, if_neg (hne 126 (by decide)),
      if_neg (hne 127 (by decide)), headComplete, if_pos rfl, Decoder.push, hhead]
    rfl
  have hlen : beNat [UInt8.ofNat n] = n := by
    simp [beNat, hbyte]
  rw [hdone, hlen]
  exact ⟨_, rfl, ⟨hflags, rfl, rfl⟩, rfl⟩

theorem readHead_nil (hs : Single s size []) (fuel : Nat) (dec : Decoder) :
    ∃ s', readHead (fuel + 1) dec s = some (dec, s', .again) ∧ Single s' size [] := by
  obtain ⟨s', hpeek, hs'⟩ := bufqPeek_single hs
  refine ⟨s', ?_, hs'⟩
  simp only [readHead, hpeek, Option.bind_eq_bind, Option.bind_some, if_true]

/-- A byte of the head. -/
theorem readHead_cons (dec : Decoder) {b : UInt8} (hs : Single s size (b :: xs))
    (htakes : takesByte dec = true) (fuel : Nat) :
    ∃ s', Single s' size xs ∧ readHead (fuel + 1) dec s =
      match headByte dec b with
      | (dec, none) => readHead fuel dec s'
      | (dec, some result) => some (dec, s', result) := by
  obtain ⟨s₁, hpeek, hs₁⟩ := bufqPeek_single hs
  obtain ⟨s', hskip, hs'⟩ := bufqSkip_single hs₁ 1 (Nat.succ_le_succ (Nat.zero_le _))
  refine ⟨s', hs', ?_⟩
  rw [readHead, hpeek]
  rcases hbyte : headByte dec b with ⟨dec', _ | result⟩
  all_goals simp only [Option.bind_eq_bind, Option.bind_some, reduceCtorEq, if_false,
    htakes, if_true, hskip, List.headD_cons, hbyte]

/-- What is read of the head of a PING. -/
inductive HeadRead (n h size : Nat) (xs : Bytes) : Option (Decoder × State × Curlcode) → Prop
  | more {dec : Decoder} {s : State} : xs.length < h → AtHead n (h - xs.length) dec →
      Single s size [] → HeadRead n h size xs (some (dec, s, .again))
  | done {dec : Decoder} {s : State} : h ≤ xs.length → Entered n dec → Single s size (xs.drop h) →
      HeadRead n h size xs (some (dec, s, .ok))

theorem readHead_second (hstate : dec.state = .head) (hhead : dec.head = [opcodePing ||| bitFin])
    (hflags : dec.frameFlags = wsPing) (hle : n ≤ 125) (hs : Single s size xs)
    (hxs : xs <+: missing n 1 ++ payload) (fuel : Nat) :
    HeadRead n 1 size xs (readHead (fuel + 1) dec s) := by
  cases xs with
  | nil =>
    obtain ⟨s', hread, hs'⟩ := readHead_nil hs fuel dec
    rw [hread]
    exact .more Nat.one_pos (.second hstate hhead hflags) hs'
  | cons b xs =>
    obtain ⟨rest, hrest⟩ := hxs
    have hb : b = UInt8.ofNat n := (List.cons.inj hrest).1
    obtain ⟨dec', hbyte, hentered, -⟩ := headByte_second hhead hflags hle
    obtain ⟨s', hs', hread⟩ := readHead_cons dec hs (by rw [takesByte, hhead]; rfl) fuel
    rw [hread, hb, hbyte]
    exact .done (Nat.succ_le_succ (Nat.zero_le _)) hentered hs'

theorem readHead_first (hstate : dec.state = .head) (hhead : dec.head = []) (hle : n ≤ 125)
    (hs : Single s size xs) (hne : xs ≠ []) (hxs : xs <+: missing n 2 ++ payload) (fuel : Nat) :
    HeadRead n 2 size xs (readHead (fuel + 2) dec s) := by
  obtain ⟨b, xs, rfl⟩ := List.exists_cons_of_ne_nil hne
  obtain ⟨rest, hrest⟩ := hxs
  obtain ⟨hb, htail⟩ := List.cons.inj hrest
  obtain ⟨s', hs', hread⟩ := readHead_cons dec hs (by rw [takesByte, hhead]; rfl) (fuel + 1)
  rw [hread, hb, headByte_first hhead]
  dsimp only
  have hsecond := @readHead_second
    { dec with frameFlags := wsPing, head := [opcodePing ||| bitFin] } s' size n payload xs hstate
    rfl rfl hle hs' ⟨rest, htail⟩ fuel
  generalize readHead (fuel + 1) _ s' = read at hsecond ⊢
  cases hsecond with
  | more hlt hdec hs'' =>
    refine .more (Nat.succ_lt_succ hlt) ?_ hs''
    rw [List.length_cons, Nat.succ_sub_succ]
    exact hdec
  | done hge hentered hs'' => exact .done (Nat.succ_le_succ hge) hentered hs''

/-! ### A piece -/

section

variable {σ : Type} {writeCb : WritePayload σ} {ctx : σ}

/-- The callback for a frame without a payload. -/
def passEmpty (writeCb : WritePayload σ) (dec : Decoder) (s : State) (ctx : σ) :
    Option (Decoder × State × Curlcode × σ) :=
  let (ctx, result, _) := writeCb ctx (dec.callback [])
  if result ≠ .ok then some (dec, s, result, ctx) else some (dec.finish, s, .ok, ctx)

/-- The decoder is behind the head, with the rest of the piece in front of it. -/
structure Reached (writeCb : WritePayload σ) (ctx : σ) (n size : Nat) (ys : Bytes) (dec : Decoder)
    (s : State) (fuel : Nat) (passed : Option (Decoder × State × Curlcode × σ)) : Prop where
  entered : Entered n dec
  state : dec.state = .payload
  single : Single s size ys
  enough : ys.length < fuel
  passed : passed = if n = 0 then passEmpty writeCb dec s ctx else passRestTo writeCb fuel dec s ctx

/-- What `ws_dec_pass` does with a piece of a PING: it is in the head, or it gets behind it. -/
def Passing (writeCb : WritePayload σ) (ctx : σ) (n h size : Nat) (xs : Bytes)
    (passed : Option (Decoder × State × Curlcode × σ)) : Prop :=
  (xs.length < h ∧ ∃ dec s, passed = some (dec, s, .again, ctx) ∧ AtHead n (h - xs.length) dec ∧
    Single s size []) ∨
  (h ≤ xs.length ∧ ∃ dec s fuel, Reached writeCb ctx n size (xs.drop h) dec s fuel passed)

theorem passHeadTo_passing {read : Option (Decoder × State × Curlcode)}
    (hread : readHead fuel dec s = read) (hhead : HeadRead n h size xs read)
    (hfuel : xs.length < fuel) :
    Passing writeCb ctx n h size xs (passHeadTo writeCb fuel dec s ctx) := by
  rw [passHeadTo, hread]
  cases hhead with
  | @more dec' s' hlt hdec hs' => exact .inl ⟨hlt, dec', s', rfl, hdec, hs'⟩
  | @done dec' s' hge hentered hs' =>
    refine .inr ⟨hge, dec'.enter, s', fuel, ⟨hentered.flags, hentered.len, hentered.offset⟩, rfl,
      hs', ?_, ?_⟩
    · rw [List.length_drop]
      omega
    · rw [Option.bind_eq_bind, Option.bind_some]
      dsimp only
      rw [if_neg (by decide), hentered.len]
      rfl

theorem decPassTo_ping (writeCb : WritePayload σ) (ctx : σ) (hdec : AtHead n h dec)
    (hs : Single s size xs) (hne : xs ≠ []) (hxs : xs <+: missing n h ++ payload) (hle : n ≤ 125) :
    Passing writeCb ctx n h size xs (decPassTo writeCb dec s ctx) := by
  have hpos : 0 < xs.length := List.length_pos_iff.mpr hne
  have hfuel : xs.length < xs.length + 1 := Nat.lt_succ_self _
  obtain ⟨fuel, hlen⟩ := Nat.exists_eq_succ_of_ne_zero (Nat.ne_of_gt hpos)
  rw [decPassTo]
  simp only [bufqLen_spec hs.rep, bufqIsEmpty_spec hs.rep, Option.bind_eq_bind, Option.bind_some]
  rw [if_neg (by simpa using hne)]
  cases hdec with
  | start hstate =>
    rw [hstate]
    apply passHeadTo_passing rfl _ hfuel
    rw [hlen]
    exact readHead_first rfl rfl hle hs hne hxs fuel
  | second hstate hhead hflags =>
    rw [hstate]
    apply passHeadTo_passing rfl _ hfuel
    exact readHead_second hstate hhead hflags hle hs hxs xs.length
  | payload hstate hentered hn =>
    rw [hstate]
    refine .inr ⟨Nat.zero_le _, dec, s, xs.length + 1, hentered, hstate, hs, hfuel, ?_⟩
    exact (if_neg hn).symm

/-- With `remain` bytes of payload and some in the queue, the callback gets those. -/
theorem passPayloadTo_step (writeCb : WritePayload σ) (ctx : σ) {ys : Bytes} (hs : Single s size ys)
    (hne : ys ≠ []) (hlt : dec.payloadOffset < dec.payloadLen) (fuel : Nat) :
    ∃ s', Single s' size ys ∧ passPayloadTo writeCb (fuel + 1) dec s ctx =
      (let (ctx, result, nwritten) :=
        writeCb ctx (dec.callback (ys.take (dec.payloadLen - dec.payloadOffset)))
      if result ≠ .ok then some (dec, s', result, ctx)
      else do
        let s ← bufqSkip s' nwritten
        passPayloadTo writeCb fuel (dec.advance nwritten) s ctx) := by
  obtain ⟨s', hpeek, hs'⟩ := bufqPeek_single hs
  refine ⟨s', hs', ?_⟩
  rw [passPayloadTo]
  dsimp only
  rw [if_neg (by omega), hpeek, if_neg hne]
  rfl

theorem passPayloadTo_nil (writeCb : WritePayload σ) (ctx : σ) (hs : Single s size [])
    (hlt : dec.payloadOffset < dec.payloadLen) (fuel : Nat) :
    ∃ s', Single s' size [] ∧
      passPayloadTo writeCb (fuel + 1) dec s ctx = some (dec, s', .again, ctx) := by
  obtain ⟨s', hpeek, hs'⟩ := bufqPeek_single hs
  refine ⟨s', hs', ?_⟩
  rw [passPayloadTo]
  dsimp only
  rw [if_neg (by omega), hpeek, if_pos rfl]
  rfl

theorem passPayloadTo_end (h : dec.payloadOffset = dec.payloadLen) (fuel : Nat) :
    passPayloadTo writeCb (fuel + 1) dec s ctx = some (dec, s, .ok, ctx) := by
  rw [passPayloadTo, h, Nat.sub_self]
  rfl

end

/-! ### Pieces -/

/-- The payload comes in one piece, where `h` bytes of the head are missing. -/
def Whole (h n : Nat) (parts : List Bytes) : Prop :=
  n = 0 ∨ ∃ pre part post, parts = pre ++ part :: post ∧ pre.flatten.length ≤ h ∧
    h + n ≤ pre.flatten.length + part.length

/-- A piece that ends in the head. -/
theorem whole_skip {part : Bytes} (hle : part.length ≤ h) :
    Whole h n (part :: parts) ↔ Whole (h - part.length) n parts := by
  constructor
  · rintro (hzero | ⟨pre, whole, post, heq, hpre, hall⟩)
    · exact .inl hzero
    · cases pre with
      | nil =>
        cases heq
        rw [List.flatten_nil, List.length_nil, Nat.zero_add] at hall
        exact .inl (by omega)
      | cons first pre =>
        cases heq
        rw [List.flatten_cons, List.length_append] at hpre hall
        exact .inr ⟨pre, whole, post, rfl, by omega, by omega⟩
  · rintro (hzero | ⟨pre, whole, post, rfl, hpre, hall⟩)
    · exact .inl hzero
    · refine .inr ⟨part :: pre, whole, post, rfl, ?_, ?_⟩
      · rw [List.flatten_cons, List.length_append]
        omega
      · rw [List.flatten_cons, List.length_append]
        omega

/-- A piece that gets behind the head. -/
theorem whole_reached {part : Bytes} (hlt : h < part.length) :
    Whole h n (part :: parts) ↔ h + n ≤ part.length := by
  constructor
  · rintro (rfl | ⟨pre, whole, post, heq, hpre, hall⟩)
    · exact Nat.le_of_lt hlt
    · cases pre with
      | nil =>
        cases heq
        rw [List.flatten_nil, List.length_nil, Nat.zero_add] at hall
        exact hall
      | cons first pre =>
        cases heq
        rw [List.flatten_cons, List.length_append] at hpre
        omega
  · intro hle
    refine .inr ⟨[], part, parts, rfl, Nat.zero_le h, ?_⟩
    rw [List.flatten_nil, List.length_nil, Nat.zero_add]
    exact hle

theorem whole_inOnePiece : Whole 2 payload.length parts ↔ InOnePiece payload parts := by
  rw [Whole, InOnePiece, List.length_eq_zero_iff]

/-- The PONG for a PING. -/
def pong (payload : Bytes) : Control := { type := wsPong, payload }

/-- Where a PING is, of which `net` is still to come: nothing was done for it, it was answered, or
the application has got something of it. -/
inductive Phase (payload : Bytes) (size : Nat) (whole : Prop) (dec : Decoder) (s : State)
    (net : List Bytes) (queued : List Control) (passed : Bytes) : Prop
  | waiting {h : Nat} {xs : Bytes} : AtHead payload.length h dec → Single s size xs →
      xs ++ net.flatten = missing payload.length h ++ payload → queued = [] → passed = [] →
      (whole ↔ Whole h payload.length (xs :: net)) →
        Phase payload size whole dec s net queued passed
  | answered : whole → queued = [pong payload] → passed = [] → dec.state = .init → Rep s [] →
      net.flatten = [] → Phase payload size whole dec s net queued passed
  | passed : ¬ whole → passed ≠ [] → Phase payload size whole dec s net queued passed

/-- At the end of the bytes the PING was answered, or something was passed on. -/
theorem Phase.end {whole : Prop} {queued : List Control} {passed : Bytes}
    (hphase : Phase payload size whole dec s [] queued passed) (hempty : Rep s []) :
    queued = [pong payload] ∧ passed = [] ↔ whole := by
  cases hphase with
  | waiting hdec hs hrest =>
    have hnil := hs.rep.unique hempty
    rw [hnil] at hrest
    obtain ⟨hmissing, hpayload⟩ := List.append_eq_nil_iff.mp hrest.symm
    have hzero := missing_length (n := payload.length) hdec.le
    rw [hmissing, List.length_nil] at hzero
    subst hzero
    cases hdec with
    | payload _ _ hne => exact absurd (congrArg List.length hpayload) hne
  | answered hwhole hqueued hpassed => exact ⟨fun _ => hwhole, fun _ => ⟨hqueued, hpassed⟩⟩
  | passed hnot hne => exact ⟨fun hboth => absurd hboth.2 hne, fun hwhole => absurd hwhole hnot⟩

/-! ### The client writer -/

theorem payloadRemain_first {k : Nat} (hle : k ≤ n) :
    payloadRemain n 0 k = ((n - k : Nat) : Int) := by
  rw [payloadRemain, if_neg (by omega), if_neg (by omega)]
  omega

/-- The bytes that the next client writer has got. -/
def CwDec.bytes (ctx : CwDec) : Bytes := ctx.passed.flatMap Prod.snd

theorem cwDecNext_all (hdec : Entered payload.length dec) (hle : payload.length ≤ 125)
    (ctx : CwDec) : cwDecNext true ctx (dec.callback payload) =
      ({ ctx with queued := ctx.queued ++ [pong payload] }, .ok, payload.length) := by
  have hremain : payloadRemain payload.length 0 payload.length = 0 := by
    rw [payloadRemain_first (Nat.le_refl _), Nat.sub_self]
    rfl
  rw [cwDecNext, Decoder.callback, hdec.len, hdec.offset, hdec.flags]
  dsimp only
  have hsmall : ¬ payload.length > maxCntrlLen := Nat.not_lt.mpr hle
  rw [hremain, if_neg (by decide), if_pos (by decide), encAddCntrl, if_neg hsmall]
  rfl

theorem cwDecNext_part {ys : Bytes} (hdec : Entered n dec) (hne : ys ≠ []) (hlt : ys.length < n)
    (ctx : CwDec) :
    cwDecNext true ctx (dec.callback ys) =
      ({ ctx with passed := ctx.passed ++ [(wsPing, ys)] }, .ok, ys.length) := by
  have hremain : payloadRemain n 0 ys.length = ((n - ys.length : Nat) : Int) :=
    payloadRemain_first (Nat.le_of_lt hlt)
  rw [cwDecNext, Decoder.callback, hdec.len, hdec.offset, hdec.flags]
  dsimp only
  rw [hremain, if_neg (by omega), if_neg (fun hboth => by omega), if_pos (.inl hne)]

/-! ### Every read comes to an end -/

section

variable {autoPong : Bool}

/-- Where a call leaves a decoder: it has taken bytes, it waits for more, or it has failed. -/
inductive Left (xs : Bytes) : Decoder → State → Curlcode → Prop
  | ok {dec : Decoder} {s : State} {ys : Bytes} : Rep s ys → ys.length < xs.length → Ready dec →
      Left xs dec s .ok
  | again {dec : Decoder} {s : State} {ys : Bytes} : Rep s ys → Ready dec → Left xs dec s .again
  | failed {dec : Decoder} {s : State} {r : Curlcode} : r ≠ .ok → r ≠ .again → Left xs dec s r

/-- A callback takes all bytes or fails, and it never takes back what was passed on. -/
theorem cwDecNext_cases (ctx : CwDec) (dec : Decoder) (buf : Bytes) :
    ∃ ctx', ctx.bytes <+: ctx'.bytes ∧
      (cwDecNext autoPong ctx (dec.callback buf) = (ctx', .ok, buf.length) ∨
        cwDecNext autoPong ctx (dec.callback buf) = (ctx', .badFunctionArgument, 0)) := by
  unfold cwDecNext encAddCntrl Decoder.callback
  dsimp only
  split_ifs
  · exact ⟨_, List.prefix_refl _, .inr rfl⟩
  · exact ⟨_, List.prefix_refl _, .inr rfl⟩
  · exact ⟨⟨ctx.queued ++ [⟨wsPong, buf⟩], ctx.passed⟩, List.prefix_refl _, .inl rfl⟩
  · refine ⟨_, ?_, .inl rfl⟩
    simp only [CwDec.bytes, List.flatMap_append]
    exact List.prefix_append _ _
  · exact ⟨_, List.prefix_refl _, .inl rfl⟩

theorem Left.mono {ys : Bytes} {r : Curlcode} (h : Left ys dec s r) (hle : ys.length ≤ xs.length) :
    Left xs dec s r := by
  cases h with
  | ok hrep hlt hready => exact .ok hrep (hlt.trans_le hle) hready
  | again hrep hready => exact .again hrep hready
  | failed hok hagain => exact .failed hok hagain

theorem passPayloadTo_returns (ctx : CwDec) (hrep : Rep s xs) (hstate : dec.state = .payload)
    (hlt : dec.payloadOffset < dec.payloadLen) (hfuel : xs.length < fuel) :
    ∃ dec' s' r ctx', passPayloadTo (cwDecNext autoPong) fuel dec s ctx = some (dec', s', r, ctx') ∧
      ctx.bytes <+: ctx'.bytes ∧ Left xs dec'.finish s' r ∧ (r = .again → Ready dec') := by
  induction fuel generalizing dec s xs ctx with
  | zero => omega
  | succ fuel ih =>
    obtain ⟨s₁, shown, hpeek, hshows, hrep₁⟩ := bufqPeek_spec hrep
    have hremain : dec.payloadLen - dec.payloadOffset ≠ 0 := by omega
    have hready : Ready dec := by rwa [Ready, hstate]
    unfold passPayloadTo
    simp only [if_neg hremain, hpeek, Option.bind_eq_bind, Option.bind_some]
    cases shown with
    | none =>
      exact ⟨dec, s₁, .again, ctx, rfl, List.prefix_refl _, .again hrep₁ trivial, fun _ => hready⟩
    | some inbuf =>
      obtain ⟨hne, post, rfl⟩ := hshows
      generalize hbuf : inbuf.take (dec.payloadLen - dec.payloadOffset) = buf
      have hlen : buf.length = min (dec.payloadLen - dec.payloadOffset) inbuf.length := by
        rw [← hbuf, List.length_take]
      have hpos := List.length_pos_iff.mpr hne
      obtain ⟨ctx₁, hkept, hcb | hcb⟩ := @cwDecNext_cases autoPong ctx dec buf
      · obtain ⟨s₂, hskip, hrep₂⟩ := bufqSkip_spec buf.length hrep₁
        have hless : ((inbuf ++ post).drop buf.length).length < (inbuf ++ post).length := by
          rw [List.length_drop, List.length_append]
          omega
        simp only [hbuf, hcb, ne_eq, not_true, if_false, hskip, Option.bind_some]
        by_cases hlast : dec.payloadOffset + buf.length = dec.payloadLen
        · -- the end of the frame
          obtain ⟨fuel, rfl⟩ := Nat.exists_eq_succ_of_ne_zero (show fuel ≠ 0 by omega)
          have hend := @passPayloadTo_end (dec.advance buf.length) s₂ CwDec (cwDecNext autoPong)
            ctx₁ hlast fuel
          exact ⟨_, s₂, .ok, ctx₁, hend, hkept, .ok hrep₂ hless trivial,
            fun h => absurd h (by decide)⟩
        · obtain ⟨dec', s', r, ctx', hpass, hkept', hleft, hready'⟩ :=
            @ih (dec.advance buf.length) s₂ _ ctx₁ hrep₂ hstate
              (by simp only [Decoder.advance]; omega) (by omega)
          exact ⟨dec', s', r, ctx', hpass, hkept.trans hkept', hleft.mono hless.le, hready'⟩
      · simp only [hbuf, hcb]
        exact ⟨dec, s₁, _, ctx₁, rfl, hkept, .failed (by decide) (by decide),
          fun h => absurd h (by decide)⟩

theorem passRestTo_returns (ctx : CwDec) (hrep : Rep s xs) (hstate : dec.state = .payload)
    (hlt : dec.payloadOffset < dec.payloadLen) (hfuel : xs.length < fuel) :
    ∃ dec' s' r ctx', passRestTo (cwDecNext autoPong) fuel dec s ctx = some (dec', s', r, ctx') ∧
      ctx.bytes <+: ctx'.bytes ∧ Left xs dec' s' r := by
  obtain ⟨dec', s', r, ctx', hpass, hkept, hleft, hready⟩ :=
    @passPayloadTo_returns _ _ _ _ autoPong ctx hrep hstate hlt hfuel
  unfold passRestTo
  simp only [hpass, Option.bind_eq_bind, Option.bind_some]
  cases hleft with
  | ok hrep' hless hready' => exact ⟨_, s', .ok, ctx', rfl, hkept, .ok hrep' hless hready'⟩
  | again hrep' => exact ⟨dec', s', .again, ctx', rfl, hkept, .again hrep' (hready rfl)⟩
  | failed hok hagain =>
    rw [if_neg hok]
    exact ⟨dec', s', r, ctx', rfl, hkept, .failed hok hagain⟩

theorem passHeadTo_returns (ctx : CwDec) (hrep : Rep s xs) (hstate : dec.state = .head)
    (htakes : takesByte dec = true) (hfuel : xs.length < fuel) :
    ∃ dec' s' r ctx', passHeadTo (cwDecNext autoPong) fuel dec s ctx = some (dec', s', r, ctx') ∧
      ctx.bytes <+: ctx'.bytes ∧ Left xs dec' s' r := by
  obtain ⟨dec₁, s₁, r, hread, hrun⟩ := readHead_spec hrep hstate htakes hfuel
  unfold passHeadTo
  simp only [hread, Option.bind_eq_bind, Option.bind_some]
  cases hrun with
  | more hrep₁ _ hstate₁ htakes₁ =>
    exact ⟨dec₁, s₁, .again, ctx, rfl, List.prefix_refl _, .again hrep₁ (by rwa [Ready, hstate₁])⟩
  | @done dec₂ _ _ pre post b _ heq _ hstate₂ hbyte hrep₁ =>
    have hless : post.length < xs.length := by
      rw [heq, List.length_append, List.length_cons]
      omega
    have hstep := headByte_step dec₂ b
    rw [hbyte] at hstep
    cases hstep with
    | failed =>
      exact ⟨dec₁, s₁, .recvError, ctx, rfl, List.prefix_refl _, .failed (by decide) (by decide)⟩
    | done _ hoffset =>
      by_cases hzero : dec₁.payloadLen = 0
      · obtain ⟨ctx₁, hkept, hcb | hcb⟩ := @cwDecNext_cases autoPong ctx dec₁.enter []
        · simp only [hzero, hcb, if_true, ne_eq, not_true, if_false]
          exact ⟨_, s₁, .ok, ctx₁, rfl, hkept, .ok hrep₁ hless trivial⟩
        · simp only [hzero, hcb, if_true, ne_eq, not_true, if_false]
          exact ⟨_, s₁, _, ctx₁, rfl, hkept, .failed (by decide) (by decide)⟩
      · obtain ⟨dec', s', r, ctx', hpass, hkept, hleft⟩ :=
          @passRestTo_returns dec₁.enter s₁ fuel post autoPong
          ctx hrep₁ rfl (by simp only [Decoder.enter]; omega) (by omega)
        simp only [hzero, ne_eq, not_true, if_false]
        exact ⟨dec', s', r, ctx', hpass, hkept, hleft.mono hless.le⟩

theorem decPassTo_returns (ctx : CwDec) (hrep : Rep s xs) (hready : Ready dec) :
    ∃ dec' s' r ctx', decPassTo (cwDecNext autoPong) dec s ctx = some (dec', s', r, ctx') ∧
      ctx.bytes <+: ctx'.bytes ∧ Left xs dec' s' r := by
  unfold decPassTo
  simp only [bufqLen_spec hrep, bufqIsEmpty_spec hrep, Option.bind_eq_bind, Option.bind_some]
  by_cases hempty : xs = []
  · rw [if_pos (decide_eq_true hempty)]
    exact ⟨dec, s, .again, ctx, rfl, List.prefix_refl _, .again hrep hready⟩
  rw [if_neg (by simpa using hempty)]
  have hfuel := Nat.lt_succ_self xs.length
  cases hstate : dec.state with
  | init => exact passHeadTo_returns ctx hrep rfl (start_takes dec) hfuel
  | head =>
    rw [Ready, hstate] at hready
    exact passHeadTo_returns ctx hrep hstate hready hfuel
  | payload =>
    rw [Ready, hstate] at hready
    exact passRestTo_returns ctx hrep hstate hready hfuel

/-- The client writer waits for the next read. -/
def Cw.Waits (w : Cw) : Prop := Ready w.dec ∧ ∃ xs, Rep w.buf xs

theorem cwLoop_returns {w : Cw} (hrep : Rep w.buf xs) (hready : Ready w.dec)
    (hfuel : xs.length < fuel) :
    ∃ w' r, cwLoop autoPong fuel w = some (w', r) ∧ w.ctx.bytes <+: w'.ctx.bytes ∧
      (r = .ok → w'.Waits) := by
  induction fuel generalizing w xs with
  | zero => omega
  | succ fuel ih =>
    unfold cwLoop
    simp only [bufqIsEmpty_spec hrep, Option.bind_eq_bind, Option.bind_some]
    by_cases hempty : xs = []
    · rw [if_pos (decide_eq_true hempty)]
      exact ⟨w, .ok, rfl, List.prefix_refl _, fun _ => ⟨hready, xs, hrep⟩⟩
    rw [if_neg (by simpa using hempty)]
    obtain ⟨dec', s', r, ctx', hpass, hkept, hleft⟩ :=
      @decPassTo_returns _ _ _ autoPong w.ctx hrep hready
    simp only [hpass, Option.bind_some]
    cases hleft with
    | ok hrep' hlt hready' =>
      obtain ⟨w', r, hloop, hkept', hnext⟩ := @ih _ ⟨dec', s', ctx'⟩ hrep' hready' (by omega)
      exact ⟨w', r, hloop, hkept.trans hkept', hnext⟩
    | again hrep' hready' => exact ⟨_, .ok, rfl, hkept, fun _ => ⟨hready', _, hrep'⟩⟩
    | failed hok hagain =>
      rw [if_neg hagain, if_pos hok]
      exact ⟨_, r, rfl, hkept, fun h => absurd h hok⟩

theorem cwWrite_returns {w : Cw} (h : w.Waits) (piece : Nat × Bytes) :
    ∃ w' r, cwWrite autoPong w piece = some (w', r) ∧ w.ctx.bytes <+: w'.ctx.bytes ∧
      (r = .ok → w'.Waits) := by
  obtain ⟨hready, xs, hrep⟩ := h
  obtain ⟨buf, res, n, hadd, -, hrep₁, -⟩ := bufqWrite_spec piece.2 (hrep.withMallocs piece.1)
  unfold cwWrite
  simp only [hadd, Option.bind_eq_bind, Option.bind_some]
  by_cases hfail : piece.2 ≠ [] ∧ res ≠ .ok
  · rw [if_pos hfail]
    exact ⟨_, _, rfl, List.prefix_refl _, fun hok => absurd hok hfail.2⟩
  · rw [if_neg hfail, bufqLen_spec hrep₁, Option.bind_some]
    exact @cwLoop_returns _ _ autoPong { w with buf } hrep₁ hready (Nat.lt_succ_self _)

/-- The client writer takes every sequence of reads to its end, or to an error. -/
theorem cwRun_returns {w : Cw} (h : w.Waits) (pieces : List (Nat × Bytes)) :
    ∃ w' r, cwRun autoPong w pieces = some (w', r) := by
  induction pieces generalizing w with
  | nil => exact ⟨w, .ok, rfl⟩
  | cons piece pieces ih =>
    obtain ⟨w', r, hwrite, -, hnext⟩ := @cwWrite_returns autoPong w h piece
    rw [cwRun, hwrite, Option.bind_eq_bind, Option.bind_some]
    dsimp only
    by_cases hok : r = .ok
    · rw [if_neg (not_not.mpr hok)]
      exact ih (hnext hok)
    · rw [if_pos hok]
      exact ⟨w', r, rfl⟩

end

/-! ### The pieces of a PING -/

/-- What is left of the bytes of a PING that is still waited for, behind a piece. -/
theorem rest_of_piece {net : List Bytes} (hh : h ≤ 2)
    (hrest : xs ++ net.flatten = missing n h ++ payload) :
    (xs.length ≤ h → net.flatten = missing n (h - xs.length) ++ payload) ∧
      (h ≤ xs.length → xs.drop h ++ net.flatten = payload) := by
  have hlen := missing_length (n := n) hh
  constructor
  · intro hle
    have hdrop := congrArg (List.drop xs.length) hrest
    rw [List.drop_left, List.drop_append_of_le_length (by rw [hlen]; exact hle), missing,
      List.drop_drop] at hdrop
    rw [hdrop, missing]
    congr 2
    omega
  · intro hle
    have hdrop := congrArg (List.drop h) hrest
    rw [List.drop_append_of_le_length hle, List.drop_left' hlen] at hdrop
    exact hdrop

/-- The first bytes of the payload: all of it is answered, a part is passed on. -/
theorem passRestTo_cw (ctx : CwDec) {ys : Bytes} {net : List Bytes}
    (hle : payload.length ≤ 125) (hentered : Entered payload.length dec)
    (hs : Single s size ys) (hne : ys ≠ []) (hys : ys ++ net.flatten = payload)
    (hfuel : ys.length < fuel) :
    (ys.length = payload.length ∧ ∃ s', Single s' size [] ∧
      passRestTo (cwDecNext true) fuel dec s ctx = some ((dec.advance ys.length).finish, s', .ok,
        { ctx with queued := ctx.queued ++ [pong payload] })) ∨
    (ys.length < payload.length ∧ ∃ s', Single s' size [] ∧
      passRestTo (cwDecNext true) fuel dec s ctx = some (dec.advance ys.length, s', .again,
        { ctx with passed := ctx.passed ++ [(wsPing, ys)] })) := by
  have hpos : 0 < ys.length := List.length_pos_iff.mpr hne
  have hyslen : ys.length ≤ payload.length := by
    rw [← hys, List.length_append]
    exact Nat.le_add_right _ _
  have hlt : dec.payloadOffset < dec.payloadLen := by
    rw [hentered.offset, hentered.len]
    exact Nat.lt_of_lt_of_le hpos hyslen
  have hremain : dec.payloadLen - dec.payloadOffset = payload.length := by
    rw [hentered.offset, hentered.len, Nat.sub_zero]
  obtain ⟨fuel, rfl⟩ : ∃ k, fuel = k + 2 := ⟨fuel - 2, by omega⟩
  obtain ⟨s₁, hs₁, hpass⟩ := passPayloadTo_step (cwDecNext true) ctx hs hne hlt
    (fuel + 1)
  obtain ⟨s₂, hskip, hs₂⟩ := bufqSkip_single hs₁ ys.length (Nat.le_refl _)
  rw [List.drop_length] at hs₂
  rw [hremain, List.take_of_length_le hyslen] at hpass
  rw [passRestTo, hpass]
  by_cases hall : ys.length = payload.length
  · have heq : ys = payload := by
      rw [← hys] at hall ⊢
      rw [List.length_append, Nat.left_eq_add, List.length_eq_zero_iff] at hall
      rw [hall, List.append_nil]
    refine .inl ⟨hall, s₂, hs₂, ?_⟩
    have hcall := cwDecNext_all hentered hle ctx
    rw [← heq] at hcall ⊢
    rw [hcall]
    dsimp only
    have hend : (dec.advance ys.length).payloadOffset = (dec.advance ys.length).payloadLen := by
      change dec.payloadOffset + ys.length = dec.payloadLen
      rw [hentered.offset, hentered.len, heq, Nat.zero_add]
    rw [if_neg (by simp), hskip]
    simp only [Option.bind_eq_bind, Option.bind_some, passPayloadTo_end hend]
    rfl
  · have hpart : ys.length < payload.length := Nat.lt_of_le_of_ne hyslen hall
    have hcall := cwDecNext_part hentered hne hpart ctx
    have hmore : (dec.advance ys.length).payloadOffset < (dec.advance ys.length).payloadLen := by
      change dec.payloadOffset + ys.length < dec.payloadLen
      rw [hentered.offset, hentered.len, Nat.zero_add]
      exact hpart
    obtain ⟨s₃, hs₃, hnone⟩ := passPayloadTo_nil (cwDecNext true)
      { ctx with passed := ctx.passed ++ [(wsPing, ys)] } hs₂ hmore fuel
    refine .inr ⟨hpart, s₃, hs₃, ?_⟩
    rw [hcall]
    dsimp only
    rw [if_neg (by simp), hskip]
    simp only [Option.bind_eq_bind, Option.bind_some, hnone]
    rfl

/-- The decoder takes a piece of a PING: it is behind it, or it has passed a part on. -/
theorem decPassTo_cw {whole : Prop} {net : List Bytes} {ctx : CwDec} (hle : payload.length ≤ 125)
    (hdec : AtHead payload.length h dec) (hs : Single s size xs) (hne : xs ≠ [])
    (hrest : xs ++ net.flatten = missing payload.length h ++ payload) (hqueued : ctx.queued = [])
    (hpassed : ctx.bytes = []) (hwhole : whole ↔ Whole h payload.length (xs :: net)) :
    ∃ dec' s' result ctx', decPassTo (cwDecNext true) dec s ctx = some (dec', s', result, ctx') ∧
      Phase payload size whole dec' s' net ctx'.queued ctx'.bytes ∧ Single s' size [] ∧
      (result = .again ∨ result = .ok) := by
  have hprefix : xs <+: missing payload.length h ++ payload := ⟨net.flatten, hrest⟩
  obtain ⟨hinside, hbehind⟩ := rest_of_piece hdec.le hrest
  rcases decPassTo_ping (cwDecNext true) ctx hdec hs hne hprefix hle with
    ⟨hlt, dec', s', hpass, hdec', hs'⟩ | ⟨hge, dec', s', fuel, hreached⟩
  · refine ⟨dec', s', .again, ctx, hpass, ?_, hs', .inl rfl⟩
    refine .waiting hdec' hs' ?_ hqueued hpassed ?_
    · rw [List.nil_append, hinside (Nat.le_of_lt hlt)]
    · rw [hwhole, whole_skip (Nat.le_of_lt hlt), whole_skip (Nat.zero_le _)]
      rfl
  have hys := hbehind hge
  obtain ⟨hentered, hstate, hsingle, henough, hresult⟩ := hreached
  by_cases hempty : payload.length = 0
  · -- an empty PING
    have hnil : payload = [] := List.length_eq_zero_iff.mp hempty
    rw [hnil] at hys
    obtain ⟨hdrop, hnet⟩ := List.append_eq_nil_iff.mp hys
    have hcall := cwDecNext_all hentered hle ctx
    rw [if_pos hempty, passEmpty] at hresult
    rw [hnil] at hcall
    rw [hcall] at hresult
    rw [hdrop] at hsingle
    refine ⟨dec'.finish, s', .ok, _, hresult, ?_, hsingle, .inr rfl⟩
    refine .answered (hwhole.mpr (.inl hempty)) ?_ hpassed rfl hsingle.rep hnet
    rw [hqueued, hnil]
    rfl
  rw [if_neg hempty] at hresult
  by_cases hnone : xs.drop h = []
  · -- the piece ends with the head
    rw [hnone] at hsingle henough hys
    obtain ⟨fuel, rfl⟩ := Nat.exists_eq_succ_of_ne_zero (Nat.ne_of_gt henough)
    have hlt : dec'.payloadOffset < dec'.payloadLen := by
      rw [hentered.offset, hentered.len]
      exact Nat.pos_of_ne_zero hempty
    obtain ⟨s'', hs'', hpass⟩ := passPayloadTo_nil (cwDecNext true) ctx hsingle hlt fuel
    rw [passRestTo, hpass] at hresult
    have hsame : xs.length = h := Nat.le_antisymm (List.drop_eq_nil_iff.mp hnone) hge
    refine ⟨dec', s'', .again, ctx, hresult, ?_, hs'', .inl rfl⟩
    refine .waiting (.payload hstate hentered hempty) hs'' ?_ hqueued hpassed ?_
    · exact hys
    · rw [hwhole, whole_skip (Nat.le_of_eq hsame), whole_skip (Nat.zero_le _), hsame, Nat.sub_self]
      rfl
  have hlong : h < xs.length := by
    by_contra hge'
    exact hnone (List.drop_eq_nil_of_le (Nat.le_of_not_lt hge'))
  have hlen : (xs.drop h).length = xs.length - h := List.length_drop
  rcases passRestTo_cw ctx hle hentered hsingle hnone hys henough with
    ⟨hall, s'', hs'', hpass⟩ | ⟨hpart, s'', hs'', hpass⟩
  · refine ⟨_, s'', .ok, _, hresult.trans hpass, ?_, hs'', .inr rfl⟩
    have hnet : net.flatten = [] := by
      have htotal := congrArg List.length hys
      rw [List.length_append, hall] at htotal
      exact List.length_eq_zero_iff.mp (by omega)
    refine .answered (hwhole.mpr ((whole_reached hlong).mpr (by omega))) ?_ hpassed
      rfl hs''.rep hnet
    rw [hqueued]
    rfl
  · refine ⟨_, s'', .again, _, hresult.trans hpass, ?_, hs'', .inl rfl⟩
    refine .passed (fun hw => ?_) ?_
    · have hle' := (whole_reached hlong).mp (hwhole.mp hw)
      omega
    · rw [CwDec.bytes, List.flatMap_append, List.flatMap_singleton]
      exact fun hnil => hnone (List.append_eq_nil_iff.mp hnil).2

theorem cwLoop_empty {w : Cw} (hempty : Rep w.buf []) (fuel : Nat) :
    cwLoop true (fuel + 1) w = some (w, .ok) := by
  rw [cwLoop, bufqIsEmpty_spec hempty]
  rfl

/-- A write of nothing. -/
theorem cwWrite_nil {w : Cw} (hempty : Rep w.buf []) (mallocs : Nat) :
    cwWrite true w (mallocs, []) = some ({ w with buf := { w.buf with mallocs } }, .ok) := by
  have hrep := hempty.withMallocs mallocs
  have hwrite : bufqWrite { w.buf with mallocs } [] = some ({ w.buf with mallocs }, .ok, 0) := rfl
  rw [cwWrite, hwrite]
  simp only [Option.bind_eq_bind, Option.bind_some, bufqLen_spec hrep]
  rw [if_neg (fun hne => hne.1 rfl)]
  exact cwLoop_empty hrep _

/-- A read that brings a piece of a PING. -/
theorem cwWrite_phase {whole : Prop} {net : List Bytes} {w w' : Cw} {piece : Nat × Bytes}
    (hle : payload.length ≤ 125) (hbig : payload.length + 2 ≤ size)
    (hphase : Phase payload size whole w.dec w.buf (piece.2 :: net) w.ctx.queued w.ctx.bytes)
    (hempty : w.ctx.bytes = [] → Rep w.buf []) (hwaits : w.Waits)
    (hwrite : cwWrite true w piece = some (w', .ok)) :
    Phase payload size whole w'.dec w'.buf net w'.ctx.queued w'.ctx.bytes ∧
      (w'.ctx.bytes = [] → Rep w'.buf []) ∧ w'.Waits := by
  obtain ⟨_, _, hreturns, hkept, hnext⟩ := @cwWrite_returns true w hwaits piece
  cases hreturns.symm.trans hwrite
  suffices hphase' : Phase payload size whole w'.dec w'.buf net w'.ctx.queued w'.ctx.bytes ∧
      (w'.ctx.bytes = [] → Rep w'.buf []) from ⟨hphase'.1, hphase'.2, hnext rfl⟩
  cases hphase with
  | @waiting h xs hdec hs hrest hqueued hpassed hwhole =>
    obtain rfl := hs.rep.unique (hempty hpassed)
    rw [List.nil_append, List.flatten_cons] at hrest
    have hlen : piece.2.length ≤ size := by
      have htotal := congrArg List.length hrest
      have hh := hdec.le
      rw [List.length_append, List.length_append, missing_length hh] at htotal
      omega
    by_cases hnil : piece.2 = []
    · obtain ⟨mallocs, bytes⟩ := piece
      dsimp only at hnil
      subst hnil
      have hrep := hempty hpassed
      rw [cwWrite_nil hrep] at hwrite
      cases hwrite
      refine ⟨.waiting hdec ⟨(hrep.withMallocs mallocs).single.1, hs.2⟩ hrest hqueued hpassed ?_,
        fun _ => hrep.withMallocs mallocs⟩
      rw [hwhole]
      exact whole_skip (Nat.zero_le _)
    have hrep := (hempty hpassed).withMallocs piece.1
    obtain ⟨⟨buf, result₁, k⟩, hadd, hwrite⟩ := Option.bind_eq_some_iff.mp hwrite
    dsimp only at hwrite
    by_cases hok : result₁ = .ok
    · subst hok
      rw [if_neg (fun hboth => hboth.2 rfl)] at hwrite
      have hchunk : piece.2.length ≤ ({ w.buf with mallocs := piece.1 } : State).q.chunkSize := by
        change piece.2.length ≤ w.buf.q.chunkSize
        rw [hs.2]
        exact hlen
      obtain ⟨hsingle, -⟩ := bufqWrite_single hrep hchunk hadd
      have hsize : w.buf.q.chunkSize = size := hs.2
      rw [show ({ w.buf with mallocs := piece.1 } : State).q.chunkSize = size from hsize] at hsingle
      rw [whole_skip (Nat.zero_le _)] at hwhole
      obtain ⟨dec₁, s₁, result, ctx₁, hpass, hphase, hs₁, hresult⟩ :=
        decPassTo_cw hle hdec hsingle hnil hrest hqueued hpassed hwhole
      simp only [bufqLen_spec hsingle.rep, Option.bind_eq_bind, Option.bind_some, cwLoop,
        bufqIsEmpty_spec hsingle.rep] at hwrite
      rw [if_neg (by simpa using hnil), hpass, Option.bind_some] at hwrite
      dsimp only at hwrite
      rcases hresult with rfl | rfl
      · rw [if_pos rfl] at hwrite
        cases hwrite
        exact ⟨hphase, fun _ => hs₁.rep⟩
      · obtain ⟨fuel, hfuel⟩ := Nat.exists_eq_succ_of_ne_zero fun hzero =>
          hnil (List.length_eq_zero_iff.mp hzero)
        rw [if_neg (by decide), if_neg (by decide), hfuel, cwLoop_empty hs₁.rep] at hwrite
        cases hwrite
        exact ⟨hphase, fun _ => hs₁.rep⟩
    · rw [if_pos ⟨hnil, hok⟩] at hwrite
      cases hwrite
      exact absurd rfl hok
  | answered hwhole hqueued hpassed hstate hrep hnet =>
    rw [List.flatten_cons] at hnet
    obtain ⟨hpiece, hnet⟩ := List.append_eq_nil_iff.mp hnet
    obtain ⟨mallocs, bytes⟩ := piece
    dsimp only at hpiece
    subst hpiece
    rw [cwWrite_nil hrep] at hwrite
    cases hwrite
    exact ⟨.answered hwhole hqueued hpassed hstate (hrep.withMallocs mallocs) hnet,
      fun _ => hrep.withMallocs mallocs⟩
  | passed hnot hne =>
    have hstill : w'.ctx.bytes ≠ [] := fun hnil => hne (List.prefix_nil.mp (hnil ▸ hkept))
    exact ⟨.passed hnot hstill, fun hnil => absurd hnil hstill⟩

/-- All reads that bring a PING. -/
theorem cwRun_phase {whole : Prop} {w w' : Cw} {pieces : List (Nat × Bytes)}
    (hle : payload.length ≤ 125) (hbig : payload.length + 2 ≤ size)
    (hphase : Phase payload size whole w.dec w.buf (pieces.map Prod.snd) w.ctx.queued w.ctx.bytes)
    (hempty : w.ctx.bytes = [] → Rep w.buf []) (hwaits : w.Waits)
    (hrun : cwRun true w pieces = some (w', .ok)) :
    Phase payload size whole w'.dec w'.buf [] w'.ctx.queued w'.ctx.bytes ∧
      (w'.ctx.bytes = [] → Rep w'.buf []) := by
  induction pieces generalizing w with
  | nil =>
    cases hrun
    exact ⟨hphase, hempty⟩
  | cons piece pieces ih =>
    obtain ⟨⟨w₁, result⟩, hwrite, hrun⟩ := Option.bind_eq_some_iff.mp hrun
    dsimp only at hrun
    by_cases hok : result = .ok
    · subst hok
      rw [if_neg (by decide)] at hrun
      obtain ⟨hnext, hempty₁, hwaits₁⟩ := cwWrite_phase hle hbig hphase hempty hwaits hwrite
      exact ih hnext hempty₁ hwaits₁ hrun
    · rw [if_pos hok] at hrun
      cases hrun
      exact absurd rfl hok

theorem Phase.end_cw {whole : Prop} {w : Cw}
    (hphase : Phase payload size whole w.dec w.buf [] w.ctx.queued w.ctx.bytes)
    (hempty : w.ctx.bytes = [] → Rep w.buf []) :
    w.ctx.queued = [pong payload] ∧ w.ctx.bytes = [] ↔ whole := by
  by_cases hpassed : w.ctx.bytes = []
  · exact hphase.end (hempty hpassed)
  · cases hphase with
    | waiting _ _ _ _ hnil => exact absurd hnil hpassed
    | answered _ _ hnil => exact absurd hnil hpassed
    | passed hnot => exact ⟨fun hboth => absurd hboth.2 hpassed, fun hwhole => absurd hwhole hnot⟩

/-- In front of a PING. -/
theorem phase_start (hstate : dec.state = .init) {s : State} (hrep : Rep s [])
    (hsize : s.q.chunkSize = size) (hframe : parts.flatten = pingFrame payload) :
    Phase payload size (InOnePiece payload parts) dec s parts [] [] := by
  refine .waiting (.start hstate) ⟨hrep.single.1, hsize⟩ hframe rfl rfl ?_
  rw [whole_skip (Nat.zero_le _)]
  exact whole_inOnePiece.symm

end

/-- `ws_cw_write` answers a PING, and passes nothing of it on, exactly when its payload comes in one
read. -/
theorem cwRun_answers_iff {dec : Decoder} (hdec : dec.state = .init) {buf : State}
    (hbuf : Rep buf [])
    (hsize : buf.q.chunkSize = wsChunkSize) {payload : Bytes} (hlen : payload.length ≤ maxCntrlLen)
    {pieces : List (Nat × Bytes)} (hframe : (pieces.map Prod.snd).flatten = pingFrame payload)
    {w : Cw} (hrun : cwRun true ⟨dec, buf, ⟨[], []⟩⟩ pieces = some (w, .ok)) :
    w.ctx.queued = [pong payload] ∧ w.ctx.bytes = [] ↔
      InOnePiece payload (pieces.map Prod.snd) := by
  have hbig : payload.length + 2 ≤ wsChunkSize := by
    have hcntrl : payload.length ≤ 125 := hlen
    rw [wsChunkSize]
    omega
  have hphase := phase_start hdec hbuf hsize hframe
  have hwaits : Cw.Waits ⟨dec, buf, ⟨[], []⟩⟩ := ⟨by rw [Ready, hdec]; trivial, [], hbuf⟩
  obtain ⟨hend, hempty⟩ := cwRun_phase hlen hbig hphase (fun _ => hbuf) hwaits hrun
  exact hend.end_cw hempty

/-- The last byte of the payload comes in a second read. -/
theorem cwRun_answers_iff_cut :
    ∃ w, cwRun true ⟨decInit, bufqInit2 .empty wsChunkSize 5 true false, ⟨[], []⟩⟩
        [(9, [137, 2, 5]), (9, [6])] = some (w, .ok) ∧
      (w.ctx.queued = [pong [5, 6]] ∧ w.ctx.bytes = [] ↔
        InOnePiece [5, 6] [[137, 2, 5], [6]]) := by
  have hrun : (cwRun true ⟨decInit, bufqInit2 .empty wsChunkSize 5 true false, ⟨[], []⟩⟩
      [(9, [137, 2, 5]), (9, [6])]).map Prod.snd = some .ok := by decide +kernel
  obtain ⟨⟨w, _⟩, hrun, rfl⟩ := Option.map_eq_some_iff.mp hrun
  exact ⟨w, hrun, cwRun_answers_iff rfl (@rep_init .empty none _ 5 true false (by decide)
    ⟨[], rfl, .nil, fun _ hp => nomatch hp⟩) rfl (by decide) rfl hrun⟩

end Gurl.Ws
