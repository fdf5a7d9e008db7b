import Gurl.Ws.Decode

/-! How `lib/ws.c` writes frames, and when the frames that it writes follow each other as a peer
expects. -/

namespace Gurl.Ws

/-- `struct ws_encoder`. -/
structure Encoder where
  payloadLen : Int
  payloadRemain : Int
  xori : Nat
  mask : Bytes
  firstbyte : UInt8
  contfragment : Bool

/-- `ws_enc_init`, of a cleared structure. -/
def encInit : Encoder where
  payloadLen := 0
  payloadRemain := 0
  xori := 0
  mask := [0, 0, 0, 0]
  firstbyte := 0
  contfragment := false

/-- The head of a frame without its mask. -/
def frameHead (firstb : UInt8) (len : Nat) : Bytes :=
  if len > 65535 then
    [firstb, 127 ||| bitMask, .ofNat (len >>> 56), .ofNat (len >>> 48), .ofNat (len >>> 40),
      .ofNat (len >>> 32), .ofNat (len >>> 24), .ofNat (len >>> 16), .ofNat (len >>> 8), .ofNat len]
  else if len ≥ 126 then [firstb, 126 ||| bitMask, .ofNat (len >>> 8), .ofNat len]
  else [firstb, .ofNat len ||| bitMask]

/-- What `ws_enc_add_frame` gets from elsewhere: the mask from `Curl_rand`, and how many bytes there
is memory for in the buffer. -/
structure Supply where
  rand : Except Curlcode Bytes
  room : Nat

/-- `ws_enc_add_frame`: the encoder, the result, and the bytes that are added to the buffer. -/
def encAddFrame (enc : Encoder) (flags : UInt32) (payloadLen : Int) (supply : Supply) :
    Encoder × Curlcode × Bytes :=
  if payloadLen < 0 then (enc, .sendError, [])
  else if enc.payloadRemain > 0 then (enc, .sendError, [])
  else
    match frameFlags2firstbyte flags enc.contfragment with
    | .error e => (enc, e, [])
    | .ok firstb =>
      -- control frames do not affect an open message
      let enc := if has flags (wsText ||| wsBinary) then
          { enc with contfragment := has flags wsCont }
        else enc
      if has flags (wsPing ||| wsPong ||| wsClose) ∧ payloadLen > maxCntrlLen then
        (enc, .tooLarge, [])
      else
        let enc := { enc with firstbyte := firstb, payloadRemain := payloadLen, payloadLen }
        match supply.rand with
        | .error e => (enc, e, [])
        | .ok mask =>
          let enc := { enc with mask, xori := 0 }
          let head := frameHead firstb payloadLen.toNat ++ mask
          if head.length ≤ supply.room then (enc, .ok, head)
          else (enc, .outOfMemory, head.take supply.room)

/-- The loop of `ws_enc_write_payload`: the bytes, masked, and the index for the next one. -/
def maskLoop (mask : Bytes) : Nat → Bytes → Bytes × Nat
  | xori, [] => ([], xori)
  | xori, c :: buf =>
    let rest := maskLoop mask ((xori + 1) % 4) buf
    ((c ^^^ mask.getD xori 0) :: rest.1, rest.2)

/-- The part of `ws_enc_write_payload` that takes `n` bytes of a buffer. -/
def encTake (enc : Encoder) (buf : Bytes) (n : Nat) : Encoder × Bytes :=
  let masked := maskLoop enc.mask enc.xori (buf.take n)
  ({ enc with xori := masked.2, payloadRemain := enc.payloadRemain - n }, masked.1)

/-- How many bytes `ws_enc_write_payload` takes of a buffer, if there is memory. -/
def encLen (enc : Encoder) (buf : Bytes) : Nat := min enc.payloadRemain.toNat buf.length

/-! ### Runs -/

/-- What happens to an encoder: a frame is started, or some payload is written. -/
inductive Event where
  | frame (flags : UInt32) (payloadLen : Int) (supply : Supply)
  | payload (buf : Bytes) (room : Nat)

/-- The encoder, and the first byte of the frame that is written, if one is. -/
def step (enc : Encoder) : Event → Encoder × Option UInt8
  | .frame flags payloadLen supply =>
    ((encAddFrame enc flags payloadLen supply).1,
      (encAddFrame enc flags payloadLen supply).2.2.head?)
  | .payload buf room => ((encTake enc buf (min room (encLen enc buf))).1, none)

/-- The first bytes of all frames that are written. -/
def firstbytes : Encoder → List Event → Bytes
  | _, [] => []
  | enc, e :: events => (step enc e).2.toList ++ firstbytes (step enc e).1 events

/-- The call passes the first checks of `ws_enc_add_frame`. -/
def Starts (enc : Encoder) (flags : UInt32) (payloadLen : Int) : Prop :=
  0 ≤ payloadLen ∧ enc.payloadRemain ≤ 0 ∧
    ∃ firstb, frameFlags2firstbyte flags enc.contfragment = .ok firstb

/-- There is no mask for the frame, or no memory. -/
def Supply.lost (supply : Supply) : Prop := (∃ e, supply.rand = .error e) ∨ supply.room = 0

/-- An event that does not break the order of frames: a frame that starts without flags does not get
written, and a frame that opens or ends a message does. -/
def Orderly (enc : Encoder) : Event → Prop
  | .frame flags payloadLen supply => Starts enc flags payloadLen →
      (flags &&& ~~~wsOffset = 0 → supply.lost) ∧
        (has flags (wsText ||| wsBinary) = true → has flags wsCont ≠ enc.contfragment →
          ¬supply.lost)
  | .payload .. => True

/-- All events are orderly, one after the other. -/
def OrderlyRun : Encoder → List Event → Prop
  | _, [] => True
  | enc, e :: events => Orderly enc e ∧ OrderlyRun (step enc e).1 events

/-! ### What a peer keeps -/

/-- The kinds of frames that `ws_frame_flags2firstbyte` takes. -/
def kinds : List UInt32 :=
  [0, wsCont, wsText, wsText ||| wsCont, wsBinary, wsBinary ||| wsCont, wsClose, wsPing, wsPong]

/-- The flags that a peer can hold. -/
def contStates : List UInt32 := [0, wsText, wsBinary, wsText ||| wsCont, wsBinary ||| wsCont]

/-- The flags of a frame without `CURLWS_OFFSET`. -/
def kind (flags : UInt32) : UInt32 := flags &&& ~~~wsOffset

theorem firstbyte_kind (flags : UInt32) (contfragment : Bool) :
    frameFlags2firstbyte flags contfragment = frameFlags2firstbyte (kind flags) contfragment := by
  have hkind : kind flags &&& ~~~wsOffset = kind flags := by
    rw [kind, UInt32.and_assoc, UInt32.and_self]
  unfold frameFlags2firstbyte
  rw [hkind]
  rfl

theorem has_kind (flags : UInt32) {mask : UInt32} (hmask : ~~~wsOffset &&& mask = mask) :
    has flags mask = has (kind flags) mask := by
  rw [has, has, kind, UInt32.and_assoc, hmask]

theorem kind_mem {flags : UInt32} {contfragment : Bool} {firstb : UInt8}
    (h : frameFlags2firstbyte flags contfragment = .ok firstb) : kind flags ∈ kinds := by
  by_contra hmem
  simp only [kinds, kind, List.mem_cons, List.not_mem_nil, or_false, not_or] at hmem
  obtain ⟨h0, hcont, htext, htextCont, hbinary, hbinaryCont, hclose, hping, hpong⟩ := hmem
  simp only [frameFlags2firstbyte, h0, hcont, htext, htextCont, hbinary, hbinaryCont, hclose, hping,
    hpong, if_false] at h
  cases h

/-- Whether a message is open behind a frame of some kind. -/
def opens (k : UInt32) (contfragment : Bool) : Bool :=
  if k = 0 then false
  else if has k (wsText ||| wsBinary) then has k wsCont
  else contfragment

/-- A peer takes a frame of this kind, and knows behind it whether a message is open. -/
def takes (k contFlags : UInt32) : Bool :=
  (frameFlags2firstbyte k (has contFlags wsCont)).toOption.all fun firstb =>
    (peerStep contFlags firstb).any fun next =>
      contStates.contains next && has next wsCont == opens k (has contFlags wsCont)

theorem peer_takes_kinds : (kinds.all fun k => contStates.all fun c => takes k c) = true := by
  decide +kernel

/-- The peer agrees with the encoder on whether a message is open. -/
structure Agrees (enc : Encoder) (contFlags : UInt32) : Prop where
  state : contFlags ∈ contStates
  cont : has contFlags wsCont = enc.contfragment

theorem peer_takes {enc : Encoder} {contFlags flags : UInt32} {firstb : UInt8}
    (h : Agrees enc contFlags) (hfirst : frameFlags2firstbyte flags enc.contfragment = .ok firstb) :
    ∃ next ∈ contStates, peerStep contFlags firstb = some next ∧
      has next wsCont = opens (kind flags) enc.contfragment := by
  have hkinds := List.all_eq_true.mp peer_takes_kinds (kind flags) (kind_mem hfirst)
  have htakes := List.all_eq_true.mp hkinds contFlags h.state
  rw [takes, h.cont, ← firstbyte_kind, hfirst] at htakes
  obtain ⟨next, hnext, hagrees⟩ := (Option.any_eq_true _ _).mp htakes
  simp only [Bool.and_eq_true, List.contains_iff_mem, beq_iff_eq] at hagrees
  exact ⟨next, hagrees.1, hnext, hagrees.2⟩

/-! ### The order of frames -/

theorem frameHead_cons (firstb : UInt8) (len : Nat) :
    ∃ rest, frameHead firstb len = firstb :: rest := by
  unfold frameHead
  split
  · exact ⟨_, rfl⟩
  · split
    · exact ⟨_, rfl⟩
    · exact ⟨_, rfl⟩

/-- No frame is both a data frame and a control frame. -/
theorem data_of_kind {k : UInt32} (hk : k ∈ kinds) (hdata : has k (wsText ||| wsBinary) = true) :
    has k (wsPing ||| wsPong ||| wsClose) = false := by
  simp only [kinds, List.mem_cons, List.not_mem_nil, or_false] at hk
  rcases hk with rfl | rfl | rfl | rfl | rfl | rfl | rfl | rfl | rfl
  all_goals first | exact absurd hdata (by decide) | decide

/-- A call that passes the first checks: what it does to the open message, and which first byte it
writes. -/
theorem encAddFrame_starts {enc : Encoder} {flags : UInt32} {payloadLen : Int} {firstb : UInt8}
    (supply : Supply) (hlen : 0 ≤ payloadLen) (hremain : enc.payloadRemain ≤ 0)
    (hfirst : frameFlags2firstbyte flags enc.contfragment = .ok firstb) :
    (encAddFrame enc flags payloadLen supply).1.contfragment =
      (if has flags (wsText ||| wsBinary) then has flags wsCont else enc.contfragment) ∧
    ((encAddFrame enc flags payloadLen supply).2.2.head? = some firstb ∧ ¬supply.lost ∨
      (encAddFrame enc flags payloadLen supply).2.2 = [] ∧
        (supply.lost ∨ has flags (wsText ||| wsBinary) = false ∧ kind flags ≠ 0)) := by
  have hflag : (if has flags (wsText ||| wsBinary) then
      { enc with contfragment := has flags wsCont } else enc).contfragment =
      if has flags (wsText ||| wsBinary) then has flags wsCont else enc.contfragment := by
    split <;> rfl
  unfold encAddFrame
  rw [if_neg (by omega), if_neg (by omega), hfirst]
  dsimp only
  split
  · rename_i hlarge
    refine ⟨hflag, .inr ⟨rfl, .inr ⟨?_, ?_⟩⟩⟩
    · have hcontrol : has (kind flags) (wsPing ||| wsPong ||| wsClose) = true := by
        rw [← has_kind flags (by decide)]
        exact hlarge.1
      cases hdata : has flags (wsText ||| wsBinary) with
      | false => rfl
      | true =>
        rw [has_kind flags (by decide)] at hdata
        rw [data_of_kind (kind_mem hfirst) hdata] at hcontrol
        cases hcontrol
    · intro hzero
      rw [has_kind flags (by decide), hzero] at hlarge
      exact absurd hlarge.1 (by decide)
  · cases hrand : supply.rand with
    | error e => exact ⟨hflag, .inr ⟨rfl, .inl (.inl ⟨e, hrand⟩)⟩⟩
    | ok mask =>
      obtain ⟨rest, hhead⟩ := frameHead_cons firstb payloadLen.toNat
      dsimp only
      split
      · rename_i hroom
        refine ⟨hflag, .inl ⟨by simp [hhead], ?_⟩⟩
        rintro (⟨e, he⟩ | hzero)
        · rw [hrand] at he
          cases he
        · simp [hhead, hzero] at hroom
      · refine ⟨hflag, ?_⟩
        cases hzero : supply.room with
        | zero => exact .inr ⟨by simp, .inl (.inr hzero)⟩
        | succ n =>
          refine .inl ⟨by simp [hhead], ?_⟩
          rintro (⟨e, he⟩ | hnone)
          · rw [hrand] at he
            cases he
          · omega

/-- Any other call leaves the encoder as it is. -/
theorem encAddFrame_refused {enc : Encoder} {flags : UInt32} {payloadLen : Int} (supply : Supply)
    (h : ¬Starts enc flags payloadLen) :
    (encAddFrame enc flags payloadLen supply).1 = enc ∧
      (encAddFrame enc flags payloadLen supply).2.2 = [] := by
  unfold encAddFrame
  split
  · exact ⟨rfl, rfl⟩
  · split
    · exact ⟨rfl, rfl⟩
    · cases hfirst : frameFlags2firstbyte flags enc.contfragment with
      | error e => exact ⟨rfl, rfl⟩
      | ok firstb => exact absurd ⟨by omega, by omega, firstb, hfirst⟩ h

/-- A peer takes what an orderly event writes, and agrees with the encoder again. -/
theorem step_agrees {enc : Encoder} {contFlags : UInt32} {e : Event} (h : Agrees enc contFlags)
    (horderly : Orderly enc e) :
    ∃ next, (step enc e).2.toList.foldlM peerStep contFlags = some next ∧
      Agrees (step enc e).1 next := by
  cases e with
  | payload buf room => exact ⟨contFlags, rfl, h.state, h.cont⟩
  | frame flags payloadLen supply =>
    by_cases hstarts : Starts enc flags payloadLen
    · obtain ⟨hlen, hremain, firstb, hfirst⟩ := hstarts
      obtain ⟨hnoflags, hchanges⟩ := horderly ⟨hlen, hremain, firstb, hfirst⟩
      obtain ⟨hopen, hwritten⟩ := encAddFrame_starts supply hlen hremain hfirst
      obtain ⟨next, hstate, hnext, hcont⟩ := peer_takes h hfirst
      have hopens : kind flags ≠ 0 → opens (kind flags) enc.contfragment =
          if has flags (wsText ||| wsBinary) then has flags wsCont else enc.contfragment := by
        intro hne
        have hdata := has_kind flags (show ~~~wsOffset &&& (wsText ||| wsBinary) = _ by decide)
        have hcont := has_kind flags (show ~~~wsOffset &&& wsCont = _ by decide)
        rw [opens, if_neg hne, hdata, hcont]
      rcases hwritten with ⟨hhead, hsupplied⟩ | ⟨hnone, hlost⟩
      · have hne : kind flags ≠ 0 := fun hzero => hsupplied (hnoflags hzero)
        refine ⟨next, ?_, hstate, ?_⟩
        · simp only [step, hhead, Option.toList_some]
          simpa using hnext
        · rw [hcont, hopens hne]
          exact hopen.symm
      · have hsame : (if has flags (wsText ||| wsBinary) then has flags wsCont
            else enc.contfragment) = enc.contfragment := by
          cases hdata : has flags (wsText ||| wsBinary) with
          | false => rfl
          | true =>
            have hlost' : supply.lost := by
              refine hlost.resolve_right fun h => ?_
              rw [hdata] at h
              cases h.1
            by_contra hdiff
            exact hchanges hdata hdiff hlost'
        refine ⟨contFlags, ?_, h.state, ?_⟩
        · simp [step, hnone]
        · rw [h.cont]
          exact (hopen.trans hsame).symm
    · obtain ⟨henc, hnone⟩ := encAddFrame_refused supply hstarts
      refine ⟨contFlags, by simp [step, hnone], h.state, ?_⟩
      change _ = (encAddFrame enc flags payloadLen supply).1.contfragment
      rw [henc]
      exact h.cont

theorem agrees_init : Agrees encInit 0 := ⟨by decide, rfl⟩

/-- In every run of orderly events, a peer takes all frames. -/
theorem frames_legal (events : List Event) (h : OrderlyRun encInit events) :
    Legal (firstbytes encInit events) := by
  have hall : ∀ enc contFlags, Agrees enc contFlags → OrderlyRun enc events →
      ((firstbytes enc events).foldlM peerStep contFlags).isSome := by
    clear h
    induction events with
    | nil => exact fun _ _ _ _ => rfl
    | cons e events ih =>
      rintro enc contFlags hagrees ⟨horderly, hrest⟩
      obtain ⟨next, hnext, hagrees'⟩ := step_agrees hagrees horderly
      rw [firstbytes, List.foldlM_append, hnext]
      exact ih _ _ hagrees' hrest
  exact hall encInit 0 agrees_init h

/-- Some mask, and memory for the head of a frame. -/
def Supply.full : Supply where
  rand := .ok [1, 2, 3, 4]
  room := 14

/-- A fragment and the last one, with a control frame between them. -/
theorem frames_legal_ping :
    Legal (firstbytes encInit [.frame (wsText ||| wsCont) 0 .full, .frame wsPing 0 .full,
      .frame wsText 0 .full]) := by
  have hfull : ¬Supply.full.lost := by
    rintro (⟨e, he⟩ | hzero)
    · cases he
    · cases hzero
  refine frames_legal _ ⟨fun _ => ⟨?_, fun _ _ => hfull⟩, fun _ => ⟨?_, fun _ _ => hfull⟩,
    fun _ => ⟨?_, fun _ _ => hfull⟩, trivial⟩ <;>
  exact fun hzero => absurd hzero (by decide)

/-- A last fragment without flags does not end the message for the encoder, and a frame for which
there is no mask opens one for it. -/
theorem frames_not_legal :
    ¬Legal (firstbytes encInit [.frame (wsText ||| wsCont) 0 .full, .frame 0 0 .full,
      .frame wsText 0 .full]) ∧
    ¬Legal (firstbytes encInit [.frame (wsText ||| wsCont) 0 ⟨.error .failedInit, 14⟩,
      .frame wsText 0 .full]) := by
  unfold Legal
  decide

end Gurl.Ws
