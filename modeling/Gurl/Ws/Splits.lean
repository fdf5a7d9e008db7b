import Gurl.Ws.Decode

/-! Frames are read in the same way however their bytes are cut into pieces. -/

namespace Gurl.Ws

open Buffer Feed

variable {dec dec' : Decoder} {s s' : State} {xs : Bytes} {b : UInt8} {fuel : Nat}
  {r : Curlcode} {out new : List Callback}

/-! ### Frames from callbacks -/

/-- A frame as the callbacks show it. -/
structure Frame where
  flags : UInt32
  len : Nat
  payload : Bytes

/-- All bytes of the payload are there. -/
def Frame.complete (f : Frame) : Bool := f.payload.length == f.len

/-- What a callback adds to the frames, the last one being the first of the list: a callback at
offset 0 starts a frame when the last one is complete, any other one goes on where the last one
ended. -/
def record (frames : List Frame) (cb : Callback) : Option (List Frame) :=
  if cb.payloadOffset = 0 then
    if frames.head?.all Frame.complete then
      some (⟨cb.frameFlags, cb.payloadLen, cb.buf⟩ :: frames)
    else none
  else
    match frames with
    | [] => none
    | f :: frames =>
      if f.flags = cb.frameFlags ∧ f.len = cb.payloadLen ∧ f.payload.length = cb.payloadOffset then
        some ({ f with payload := f.payload ++ cb.buf } :: frames)
      else none

/-- Callbacks that show the same frames. -/
def Same (a b : List Callback) : Prop :=
  ∀ frames, a.foldlM record frames = b.foldlM record frames

theorem Same.refl (a : List Callback) : Same a a := fun _ => rfl

theorem Same.append {a a' b b' : List Callback} (h : Same a a') (h' : Same b b') :
    Same (a ++ b) (a' ++ b') := by
  intro frames
  rw [List.foldlM_append, List.foldlM_append, h frames]
  congr 1
  funext frames'
  exact h' frames'

/-- Two callbacks, one behind the other, show what one with all bytes does. -/
theorem record_merge (dec : Decoder) {buf : Bytes} (rest : Bytes) (hbuf : buf ≠ []) :
    Same [dec.callback buf,
        (dec.advance buf.length).callback rest]
      [dec.callback (buf ++ rest)] := by
  intro frames
  by_cases hzero : dec.payloadOffset = 0
  · by_cases hall : frames.head?.all Frame.complete = true
    · simp [record, Decoder.callback, Decoder.advance, hzero, hall, hbuf]
    · simp [record, Decoder.callback, Decoder.advance, hzero, hall]
  · cases frames with
    | nil => simp [record, Decoder.callback, Decoder.advance, hzero]
    | cons f frames =>
      by_cases hfits : f.flags = dec.frameFlags ∧ f.len = dec.payloadLen ∧
          f.payload.length = dec.payloadOffset
      · simp [record, Decoder.callback, Decoder.advance, hzero, hfits]
      · simp [record, Decoder.callback, Decoder.advance, hzero, hfits]

/-! ### The state between two bytes -/

/-- A decoder that can go on. -/
def Ready (dec : Decoder) : Prop :=
  match dec.state with
  | .init => True
  | .head => takesByte dec = true
  | .payload => dec.payloadOffset < dec.payloadLen

/-- A decoder that has taken some bytes, with its callbacks. -/
structure Takes (dec : Decoder) (bytes : Bytes) (dec' : Decoder) (new : List Callback) :
    Prop where
  error : (feed decByte dec bytes).error = none
  state : (feed decByte dec bytes).state = dec'
  out : Same new (feed decByte dec bytes).out

theorem Takes.nil (dec : Decoder) : Takes dec [] dec [] := ⟨rfl, rfl, .refl _⟩

theorem Takes.append {dec₁ dec₂ dec₃ : Decoder} {a c : Bytes} {out₁ out₂ : List Callback}
    (h : Takes dec₁ a dec₂ out₁) (h' : Takes dec₂ c dec₃ out₂) :
    Takes dec₁ (a ++ c) dec₃ (out₁ ++ out₂) := by
  obtain ⟨herror, rfl, hout⟩ := h
  obtain ⟨herror', rfl, hout'⟩ := h'
  have hfeed := feed_append herror c
  exact ⟨by rw [hfeed]; exact herror', by rw [hfeed], by rw [hfeed]; exact hout.append hout'⟩

/-- One byte. -/
theorem Takes.byte (h : decByte dec b = (dec', new, none)) : Takes dec [b] dec' new := by
  have hfeed := feed_cons_ok h []
  exact ⟨by rw [hfeed]; rfl, by rw [hfeed]; rfl, by rw [hfeed]; simpa [feed] using Same.refl new⟩

/-! ### The head -/

/-- A complete head keeps the state. -/
theorem headComplete_done (dec : Decoder) :
    ∃ dec' r, headComplete dec = (dec', some r) ∧
      (r = .ok ∧ dec'.state = dec.state ∧ dec'.payloadOffset = 0 ∨ r = .recvError) := by
  unfold headComplete headDone
  split_ifs <;> simp

/-- What a byte of the head can do. -/
inductive HeadStep (dec : Decoder) : Decoder × Option Curlcode → Prop
  | more {dec' : Decoder} : dec'.state = dec.state → takesByte dec' = true →
    HeadStep dec (dec', none)
  | done {dec' : Decoder} : dec'.state = dec.state → dec'.payloadOffset = 0 →
      HeadStep dec (dec', some .ok)
  | failed {dec' : Decoder} : HeadStep dec (dec', some .recvError)

theorem headComplete_step {dec₁ : Decoder} (hstate : dec₁.state = dec.state) :
    HeadStep dec (headComplete dec₁) := by
  obtain ⟨dec', r, heq, ⟨rfl, hsame, hoffset⟩ | rfl⟩ := headComplete_done dec₁
  · rw [heq]
    exact .done (hsame.trans hstate) hoffset
  · rw [heq]
    exact .failed

theorem headByte_step (dec : Decoder) (b : UInt8) : HeadStep dec (headByte dec b) := by
  unfold headByte
  split
  · unfold headFirst
    dsimp only
    split
    · exact .failed
    · exact .more rfl rfl
  · split
    · rename_i hone
      unfold headSecond
      split
      · exact .failed
      · split
        · exact .failed
        · split
          · exact .more rfl (by simp [takesByte, Decoder.push, hone])
          · split
            · exact .more rfl (by simp [takesByte, Decoder.push, hone])
            · exact headComplete_step rfl
    · unfold headRest
      have hstate : (if dec.head.length < dec.headTotal then dec.push b else dec).state =
        dec.state := by
        split <;> rfl
      generalize (if dec.head.length < dec.headTotal then dec.push b else dec) = dec₁ at hstate
      dsimp only
      split
      · rename_i hmore
        exact .more hstate (by simp [takesByte, hmore])
      · exact headComplete_step hstate

theorem decByte_head (hstate : dec.state = .head) : decByte dec b = decHead dec b := by
  rw [decByte, hstate]

/-- How far `ws_dec_read_head` gets. -/
inductive HeadRun (dec : Decoder) (xs : Bytes) : Decoder → State → Curlcode → Prop
  | more {dec' : Decoder} {s' : State} : Rep s' [] → Takes dec xs dec' [] → dec'.state = .head →
      takesByte dec' = true → HeadRun dec xs dec' s' .again
  | done {dec₁ dec' : Decoder} {s' : State} {pre post : Bytes} {b : UInt8} {r : Curlcode} :
      xs = pre ++ b :: post → Takes dec pre dec₁ [] → dec₁.state = .head →
      headByte dec₁ b = (dec', some r) → Rep s' post → HeadRun dec xs dec' s' r

theorem readHead_spec (hrep : Rep s xs) (hstate : dec.state = .head) (htakes : takesByte dec = true)
    (hfuel : xs.length < fuel) :
    ∃ dec' s' r, readHead fuel dec s = some (dec', s', r) ∧ HeadRun dec xs dec' s' r := by
  induction fuel generalizing dec s xs with
  | zero => omega
  | succ fuel ih =>
    obtain ⟨s₁, shown, hpeek, hshows, hrep₁⟩ := bufqPeek_spec hrep
    unfold readHead
    rw [hpeek, Option.bind_eq_bind, Option.bind_some]
    cases shown with
    | none =>
      obtain rfl : xs = [] := hshows
      exact ⟨dec, s₁, .again, rfl, .more hrep₁ (.nil dec) hstate htakes⟩
    | some inbuf =>
      obtain ⟨hne, hprefix⟩ := hshows
      obtain ⟨b, rest, rfl⟩ := List.exists_cons_of_ne_nil hne
      obtain ⟨post, rfl⟩ := hprefix
      obtain ⟨s₂, hskip, hrep₂⟩ := bufqSkip_spec 1 hrep₁
      rw [List.cons_append, List.drop_succ_cons, List.drop_zero] at hrep₂
      rw [List.cons_append] at hfuel ⊢
      simp only [htakes, if_true, hskip, Option.bind_some, List.headD_cons, Option.bind_eq_bind]
      rcases hbyte : headByte dec b with ⟨dec₁, _ | result⟩
      · have hstep := headByte_step dec b
        rw [hbyte] at hstep
        cases hstep with | more hsame htakes₁ =>
        obtain ⟨dec', s', r, hread, hrun⟩ := ih hrep₂ (hsame.trans hstate) htakes₁ (by
          rw [List.length_cons] at hfuel
          omega)
        have hfirst : Takes dec [b] dec₁ [] := .byte (by rw [decByte_head hstate, decHead, hbyte])
        refine ⟨dec', s', r, hread, ?_⟩
        cases hrun with
        | more hrep' htaken hstate' htakes' =>
          exact .more hrep' (hfirst.append htaken) hstate' htakes'
        | @done dec₂ _ _ pre post' b' _ heq htaken hstate' hdone hrep' =>
          exact .done (show b :: _ = (b :: pre) ++ _ by rw [heq]; rfl) (hfirst.append htaken)
            hstate' hdone hrep'
      · exact ⟨dec₁, s₂, result, rfl,
          .done (show _ = [] ++ b :: _ from rfl) (.nil dec) hstate hbyte hrep₂⟩

/-! ### The payload -/

/-- Bytes of the payload, one by one, show what one callback with all of them does. -/
theorem takes_payload {bytes : Bytes} (hstate : dec.state = .payload) (hne : bytes ≠ [])
    (hle : dec.payloadOffset + bytes.length ≤ dec.payloadLen) :
    Takes dec bytes (if dec.payloadOffset + bytes.length = dec.payloadLen then
      (dec.advance bytes.length).finish else dec.advance bytes.length) [dec.callback bytes] := by
  induction bytes generalizing dec with
  | nil => exact absurd rfl hne
  | cons b bytes ih =>
    rw [List.length_cons] at hle ⊢
    have hbyte : decByte dec b = (if dec.payloadOffset + 1 = dec.payloadLen then
        (dec.advance 1).finish else dec.advance 1, [dec.callback [b]], none) := by
      rw [decByte, hstate]
    by_cases hnil : bytes = []
    · subst hnil
      exact .byte hbyte
    · have hpos : 0 < bytes.length := List.length_pos_iff.mpr hnil
      rw [if_neg (by omega)] at hbyte
      have hrest := @ih (dec.advance 1) hstate hnil (by
        change dec.payloadOffset + 1 + bytes.length ≤ dec.payloadLen
        omega)
      have hboth := (Takes.byte hbyte).append hrest
      have hadvance : (dec.advance 1).advance bytes.length = dec.advance (bytes.length + 1) := by
        simp [Decoder.advance, Nat.add_assoc, Nat.add_comm 1]
      have hoffset : (dec.advance 1).payloadOffset + bytes.length =
          dec.payloadOffset + (bytes.length + 1) := by
        simp only [Decoder.advance]
        omega
      rw [hadvance, hoffset] at hboth
      have hmerge := record_merge dec bytes (List.cons_ne_nil b [])
      exact ⟨hboth.error, hboth.state, fun frames => (hmerge frames).symm.trans (hboth.out frames)⟩

/-- How far `ws_dec_pass` gets: over a frame, to the end of the bytes, or to an error. -/
inductive Passed (dec : Decoder) (xs : Bytes) :
    Decoder → State → Curlcode → List Callback → Prop
  | ok {dec' : Decoder} {s' : State} {pre post : Bytes} {new : List Callback} :
      xs = pre ++ post → pre ≠ [] → Takes dec pre dec' new → Ready dec' → Rep s' post →
      Passed dec xs dec' s' .ok new
  | again {dec' : Decoder} {s' : State} {new : List Callback} :
      Takes dec xs dec' new → Ready dec' → Rep s' [] → Passed dec xs dec' s' .again new
  | failed {dec₁ dec' : Decoder} {s' : State} {pre post : Bytes} {b : UInt8} :
      xs = pre ++ b :: post → Takes dec pre dec₁ [] → decByte dec₁ b = (dec', [], some .recvError) →
      Rep s' post → Passed dec xs dec' s' .recvError []

theorem passPayload_spec (out : List Callback) (hrep : Rep s xs) (hstate : dec.state = .payload)
    (hlt : dec.payloadOffset < dec.payloadLen) (hfuel : xs.length < fuel) :
    ∃ dec' s' r new, passPayload fuel dec s out = some (dec', s', r, out ++ new) ∧
      (r = .ok ∧ Passed dec xs dec'.finish s' .ok new ∨ r = .again ∧
        Passed dec xs dec' s' .again new) := by
  induction fuel generalizing dec s xs out with
  | zero => omega
  | succ fuel ih =>
    obtain ⟨s₁, shown, hpeek, hshows, hrep₁⟩ := bufqPeek_spec hrep
    have hremain : dec.payloadLen - dec.payloadOffset ≠ 0 := by omega
    unfold passPayload
    simp only [if_neg hremain, hpeek, Option.bind_eq_bind, Option.bind_some]
    cases shown with
    | none =>
      obtain rfl : xs = [] := hshows
      have hready : Ready dec := by
        rw [Ready, hstate]
        exact hlt
      exact ⟨dec, s₁, .again, [], by simp, .inr ⟨rfl, .again (.nil dec) hready hrep₁⟩⟩
    | some inbuf =>
      obtain ⟨hne, post, rfl⟩ := hshows
      generalize hbuf : inbuf.take (dec.payloadLen - dec.payloadOffset) = buf
      obtain ⟨s₂, hskip, hrep₂⟩ := bufqSkip_spec buf.length hrep₁
      have hlen : buf.length = min (dec.payloadLen - dec.payloadOffset) inbuf.length := by
        rw [← hbuf, List.length_take]
      have hpos : 0 < inbuf.length := List.length_pos_iff.mpr hne
      have hbufne : buf ≠ [] := List.length_pos_iff.mp (by omega)
      have hcut : inbuf ++ post = buf ++ (inbuf ++ post).drop buf.length := by
        have htake : (inbuf ++ post).take buf.length = buf := by
          rw [List.take_append_of_le_length (by omega), ← hbuf, List.length_take,
            List.take_eq_take_min]
          simp
        conv_lhs => rw [← List.take_append_drop buf.length (inbuf ++ post), htake]
      have htaken := takes_payload hstate hbufne (by omega)
      generalize hrest : (inbuf ++ post).drop buf.length = rest at hrep₂ hcut
      rw [hcut] at hfuel ⊢
      rw [List.length_append] at hfuel
      simp only [hbuf, hskip, Option.bind_some]
      by_cases hlast : dec.payloadOffset + buf.length = dec.payloadLen
      · -- the end of the frame
        rw [if_pos hlast] at htaken
        have hfuel' : fuel ≠ 0 := by omega
        obtain ⟨fuel, rfl⟩ := Nat.exists_eq_succ_of_ne_zero hfuel'
        have hzero : (dec.advance buf.length).payloadLen - (dec.advance buf.length).payloadOffset =
          0 := by
          simp only [Decoder.advance]
          omega
        refine ⟨dec.advance buf.length, s₂, .ok, [dec.callback buf], ?_, .inl ⟨rfl, ?_⟩⟩
        · rw [passPayload]
          exact if_pos hzero
        · exact .ok rfl hbufne htaken trivial hrep₂
      · rw [if_neg hlast] at htaken
        obtain ⟨dec', s', r, new, hpass, hend⟩ := @ih (dec.advance buf.length) s₂ rest
          (out ++ [dec.callback buf]) hrep₂ hstate (by
            simp only [Decoder.advance]
            omega) (by omega)
        refine ⟨dec', s', r, dec.callback buf :: new, by rw [hpass]; simp, ?_⟩
        rcases hend with ⟨rfl, hend⟩ | ⟨rfl, hend⟩
        · cases hend with
          | @ok _ _ pre post' _ heq hpre htakes hready hrep' =>
            refine .inl ⟨rfl, .ok (show _ = (buf ++ pre) ++ post' by rw [heq, List.append_assoc])
              (by simp [hbufne]) ?_ hready hrep'⟩
            exact htaken.append htakes
        · cases hend with
          | again htakes hready hrep' =>
            exact .inr ⟨rfl, .again (htaken.append htakes) hready hrep'⟩

theorem passRest_spec (hrep : Rep s xs) (hstate : dec.state = .payload)
    (hlt : dec.payloadOffset < dec.payloadLen) (hfuel : xs.length < fuel) :
    ∃ dec' s' r new, passRest fuel dec s = some (dec', s', r, new) ∧
      Passed dec xs dec' s' r new := by
  obtain ⟨dec', s', r, new, hpass, hend⟩ := passPayload_spec [] hrep hstate hlt hfuel
  unfold passRest
  rw [hpass, Option.bind_eq_bind, Option.bind_some]
  rcases hend with ⟨rfl, hend⟩ | ⟨rfl, hend⟩
  · exact ⟨dec'.finish, s', .ok, new, rfl, hend⟩
  · exact ⟨dec', s', .again, new, rfl, hend⟩

/-- What is passed behind some bytes that put nothing out. -/
theorem Passed.after {dec₁ : Decoder} {pre post : Bytes} (htaken : Takes dec pre dec₁ [])
    (h : Passed dec₁ post dec' s' r new) : Passed dec (pre ++ post) dec' s' r new := by
  cases h with
  | ok heq hne htakes hready hrep =>
    exact .ok (by rw [heq, List.append_assoc]) (by simp [hne]) (htaken.append htakes) hready hrep
  | again htakes hready hrep => exact .again (htaken.append htakes) hready hrep
  | failed heq htakes hbyte hrep =>
    exact .failed (by rw [heq, List.append_assoc]) (htaken.append htakes) hbyte hrep

theorem passHead_spec (hrep : Rep s xs) (hstate : dec.state = .head)
    (htakes : takesByte dec = true) (hfuel : xs.length < fuel) :
    ∃ dec' s' r new, passHead fuel dec s = some (dec', s', r, new) ∧
      Passed dec xs dec' s' r new := by
  obtain ⟨dec', s', r, hread, hrun⟩ := readHead_spec hrep hstate htakes hfuel
  unfold passHead
  rw [hread, Option.bind_eq_bind, Option.bind_some]
  cases hrun with
  | more hrep' htaken hstate' htakes' =>
    have hready : Ready dec' := by
      rw [Ready, hstate']
      exact htakes'
    exact ⟨dec', s', .again, [], rfl, .again htaken hready hrep'⟩
  | @done dec₁ _ _ pre post b _ heq htaken hstate' hdone hrep' =>
    have hstep := headByte_step dec₁ b
    rw [hdone] at hstep
    subst heq
    cases hstep with
    | failed =>
      refine ⟨dec', s', .recvError, [], rfl, .failed rfl htaken ?_ hrep'⟩
      rw [decByte_head hstate', decHead, hdone]
      rfl
    | done hsame hoffset =>
      have hbyte : decByte dec₁ b = if dec'.payloadLen = 0 then
          (dec'.enter.finish, [dec'.enter.callback []], none) else (dec'.enter, [], none) := by
        rw [decByte_head hstate', decHead, hdone]
        rfl
      simp only [ne_eq, not_true_eq_false, if_false]
      by_cases hempty : dec'.payloadLen = 0
      · rw [if_pos hempty] at hbyte ⊢
        refine ⟨_, s', .ok, _, rfl, .ok (show _ = (pre ++ [b]) ++ post by simp) (by simp) ?_ trivial
          hrep'⟩
        exact htaken.append (.byte hbyte)
      · rw [if_neg hempty] at hbyte ⊢
        have hlt : dec'.enter.payloadOffset < dec'.enter.payloadLen := by
          change dec'.payloadOffset < dec'.payloadLen
          omega
        have hfuel' : post.length < fuel := by
          rw [List.length_append, List.length_cons] at hfuel
          omega
        obtain ⟨dec'', s'', r, new, hpass, hend⟩ := passRest_spec hrep' rfl hlt hfuel'
        refine ⟨dec'', s'', r, new, hpass, ?_⟩
        have hboth := hend.after (htaken.append (.byte hbyte))
        rwa [List.append_assoc] at hboth

theorem start_takes (dec : Decoder) : takesByte dec.start = true := rfl

/-- In front of a frame, the first byte clears the decoder. -/
theorem takes_start {pre : Bytes} (hstate : dec.state = .init) (hne : pre ≠ [])
    (h : Takes dec.start pre dec' new) : Takes dec pre dec' new := by
  obtain ⟨b, rest, rfl⟩ := List.exists_cons_of_ne_nil hne
  have hbyte : decByte dec b = decByte dec.start b := by
    have hhead := @decByte_head dec.start b rfl
    rw [hhead, decByte, hstate]
  have hfeed : feed decByte dec (b :: rest) = feed decByte dec.start (b :: rest) := by
    rw [feed, feed, hbyte]
  exact ⟨by rw [hfeed, h.error], by rw [hfeed, h.state], by rw [hfeed]; exact h.out⟩

theorem Passed.of_start (hstate : dec.state = .init) (hne : xs ≠ [])
    (h : Passed dec.start xs dec' s' r new) : Passed dec xs dec' s' r new := by
  cases h with
  | ok heq hpre htakes hready hrep =>
    exact .ok heq hpre (takes_start hstate hpre htakes) hready hrep
  | again htakes hready hrep => exact .again (takes_start hstate hne htakes) hready hrep
  | @failed dec₁ _ _ pre post b heq htakes hbyte hrep =>
    by_cases hpre : pre = []
    · subst hpre
      have hdec : dec.start = dec₁ := htakes.state
      have hhead := @decByte_head dec.start b rfl
      refine .failed heq (.nil dec) ?_ hrep
      rw [← hdec, hhead] at hbyte
      rw [decByte, hstate]
      exact hbyte
    · exact .failed heq (takes_start hstate hpre htakes) hbyte hrep

theorem decPass_spec (hrep : Rep s xs) (hready : Ready dec) :
    ∃ dec' s' r new, decPass dec s = some (dec', s', r, new) ∧ Passed dec xs dec' s' r new := by
  unfold decPass
  simp only [bufqLen_spec hrep, bufqIsEmpty_spec hrep, Option.bind_eq_bind, Option.bind_some]
  by_cases hempty : xs = []
  · subst hempty
    exact ⟨dec, s, .again, [], rfl, .again (.nil dec) hready hrep⟩
  · rw [if_neg (by simpa using hempty)]
    have hfuel := Nat.lt_succ_self xs.length
    cases hstate : dec.state with
    | init =>
      obtain ⟨dec', s', r, new, hpass, hend⟩ := passHead_spec hrep rfl (start_takes dec) hfuel
      exact ⟨dec', s', r, new, hpass, hend.of_start hstate hempty⟩
    | head =>
      rw [Ready, hstate] at hready
      exact passHead_spec hrep hstate hready hfuel
    | payload =>
      rw [Ready, hstate] at hready
      exact passRest_spec hrep hstate hready hfuel

/-! ### All bytes that are there -/

/-- Where a decoder is after all bytes: it waits for more, or it has found an error. -/
inductive Drained (dec : Decoder) (xs : Bytes) :
    Decoder → State → Curlcode → List Callback → Prop
  | waits {dec' : Decoder} {s' : State} {new : List Callback} :
      Takes dec xs dec' new → Ready dec' → Rep s' [] → Drained dec xs dec' s' .again new
  | failed {dec' : Decoder} {s' : State} {new : List Callback} {post : Bytes} :
      (feed decByte dec xs).error = some .recvError → (feed decByte dec xs).rest = post →
      Same new (feed decByte dec xs).out → Rep s' post → Drained dec xs dec' s' .recvError new

theorem Takes.fails {dec₁ : Decoder} {pre : Bytes} (htaken : Takes dec pre dec₁ out)
    (hbyte : decByte dec₁ b = (dec', [], some .recvError)) (post : Bytes) :
    (feed decByte dec (pre ++ b :: post)).error = some .recvError ∧
      (feed decByte dec (pre ++ b :: post)).rest = post ∧
      Same out (feed decByte dec (pre ++ b :: post)).out := by
  rw [feed_append htaken.error, htaken.state, feed_cons_error hbyte]
  exact ⟨rfl, rfl, by simpa using htaken.out⟩

theorem drain_spec (out : List Callback) (hrep : Rep s xs) (hready : Ready dec)
    (hfuel : xs.length < fuel) :
    ∃ dec' s' r new, drain fuel dec s out = some (dec', s', r, out ++ new) ∧
      Drained dec xs dec' s' r new := by
  induction fuel generalizing dec s xs out with
  | zero => omega
  | succ fuel ih =>
    obtain ⟨dec₁, s₁, r₁, new₁, hpass, hend⟩ := decPass_spec hrep hready
    unfold drain
    rw [hpass, Option.bind_eq_bind, Option.bind_some]
    cases hend with
    | again htakes hready' hrep' =>
      exact ⟨dec₁, s₁, .again, new₁, rfl, .waits htakes hready' hrep'⟩
    | @failed _ _ _ pre post b heq htakes hbyte hrep' =>
      subst heq
      obtain ⟨herror, hrest, hout⟩ := htakes.fails hbyte post
      exact ⟨dec₁, s₁, .recvError, [], rfl, .failed herror hrest hout hrep'⟩
    | @ok _ _ pre post _ heq hne htakes hready' hrep' =>
      subst heq
      have hpos : 0 < pre.length := List.length_pos_iff.mpr hne
      rw [List.length_append] at hfuel
      obtain ⟨dec', s', r, new, hdrain, hend⟩ := ih (out ++ new₁) hrep' hready' (by omega)
      refine ⟨dec', s', r, new₁ ++ new, ?_, ?_⟩
      · dsimp only
        rw [if_pos rfl, hdrain, List.append_assoc]
      · cases hend with
        | waits htakes' hready'' hrep'' => exact .waits (htakes.append htakes') hready'' hrep''
        | failed herror hrest hout hrep'' =>
          have hfeed := feed_append htakes.error post
          rw [htakes.state] at hfeed
          refine .failed ?_ ?_ ?_ hrep''
          · rw [hfeed]
            exact herror
          · rw [hfeed]
            exact hrest
          · rw [hfeed]
            exact htakes.out.append hout

end Gurl.Ws
