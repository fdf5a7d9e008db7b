import Gurl.Ws.Receive

/-! The streams of frames that are read without an error. -/

namespace Gurl.Ws

open Buffer Feed

variable {dec dec' : Decoder} {xs : Bytes} {b : UInt8} {o o' : Bool} {n : Nat}

/-! ### Streams -/

/-- A first byte that may come while a fragmented message is open, or while none is; the result is
whether one is open behind the frame. -/
def firstByte (isOpen : Bool) (b : UInt8) : Option Bool :=
  let fin := b &&& 0x80 != 0
  if b &&& 0x70 ≠ 0 then none
  else
    match (b &&& 0x0f).toNat with
    | 0 => if isOpen then some !fin else none
    | 1 | 2 => if isOpen then none else some !fin
    | 8 | 9 | 10 => if fin then some isOpen else none
    | _ => none

def isControl (b : UInt8) : Bool := b &&& 0x08 != 0

/-- The ways in which the length of a frame may be written, for a control frame or another one. -/
inductive LengthForm : Bool → Nat → Bytes → Prop
  | short {control : Bool} {c : UInt8} : c.toNat ≤ 125 → LengthForm control c.toNat [c]
  | medium {len : Bytes} : len.length = 2 → LengthForm false (beNat len) (126 :: len)
  | long {len : Bytes} : len.length = 8 → LengthForm false (beNat len) (127 :: len)

/-- A sequence of frames, the last of which may not be complete. The mask bit is not set, as no form
of a length has it. -/
inductive Stream (form : Bool → Nat → Bytes → Prop) : Bool → Bytes → Prop
  | nil {o : Bool} : Stream form o []
  | head {o o' : Bool} {b : UInt8} {n : Nat} {len pre : Bytes} :
      firstByte o b = some o' → form (isControl b) n len → pre <+: len → pre ≠ len →
      Stream form o (b :: pre)
  | part {o o' : Bool} {b : UInt8} {n : Nat} {len payload : Bytes} :
      firstByte o b = some o' → form (isControl b) n len → n < 2 ^ 63 → payload.length < n →
      Stream form o (b :: (len ++ payload))
  | frame {o o' : Bool} {b : UInt8} {n : Nat} {len payload rest : Bytes} :
      firstByte o b = some o' → form (isControl b) n len → n < 2 ^ 63 → payload.length = n →
      Stream form o' rest → Stream form o (b :: (len ++ (payload ++ rest)))

/-! ### From byte to byte -/

/-- What may come behind a head: the payload, and more frames. -/
def Payload (n : Nat) (o : Bool) (xs : Bytes) : Prop :=
  xs.length < n ∨ n ≤ xs.length ∧ Stream LengthForm o (xs.drop n)

/-- What may come behind some bytes of a length of `k` bytes. -/
def Length (k : Nat) (len : Bytes) (o : Bool) (xs : Bytes) : Prop :=
  (len ++ xs).length < k ∨ k ≤ (len ++ xs).length ∧ beNat ((len ++ xs).take k) < 2 ^ 63 ∧
    Payload (beNat ((len ++ xs).take k)) o ((len ++ xs).drop k)

/-- What may come behind a first byte. -/
def Second (control o : Bool) : Bytes → Prop
  | [] => True
  | c :: xs => c.toNat ≤ 125 ∧ Payload c.toNat o xs ∨
      control = false ∧ (c = 126 ∧ Length 2 [] o xs ∨ c = 127 ∧ Length 8 [] o xs)

theorem payload_append {payload rest : Bytes} (h : Stream LengthForm o rest) :
    Payload payload.length o (payload ++ rest) := by
  right
  rw [List.drop_left, List.length_append]
  exact ⟨Nat.le_add_right _ _, h⟩

theorem length_append_left {len rest : Bytes} (hbound : beNat len < 2 ^ 63)
    (h : Payload (beNat len) o rest) : Length len.length [] o (len ++ rest) := by
  right
  rw [List.nil_append, List.take_left, List.drop_left, List.length_append]
  exact ⟨Nat.le_add_right _ _, hbound, h⟩

theorem second_of_form {control : Bool} {len : Bytes} (hform : LengthForm control n len)
    (hbound : n < 2 ^ 63) (h : Payload n o xs) : Second control o (len ++ xs) := by
  cases hform with
  | short hle => exact .inl ⟨hle, h⟩
  | @medium len htwo =>
    have hlen := length_append_left hbound h
    rw [htwo] at hlen
    exact .inr ⟨rfl, .inl ⟨rfl, hlen⟩⟩
  | @long len height =>
    have hlen := length_append_left hbound h
    rw [height] at hlen
    exact .inr ⟨rfl, .inr ⟨rfl, hlen⟩⟩

theorem second_of_cut {control : Bool} {len pre : Bytes} (hform : LengthForm control n len)
    (hpre : pre <+: len) (hne : pre ≠ len) : Second control o pre := by
  have hshort : pre.length < len.length :=
    Nat.lt_of_le_of_ne hpre.length_le fun h => hne (hpre.eq_of_length h)
  cases pre with
  | nil => trivial
  | cons c pre =>
    rw [List.length_cons] at hshort
    cases hform with
    | short => simp at hshort
    | @medium len htwo =>
      rw [List.length_cons, htwo] at hshort
      obtain ⟨rfl, -⟩ := List.cons_prefix_cons.mp hpre
      exact .inr ⟨rfl, .inl ⟨rfl, .inl (by rw [List.nil_append]; omega)⟩⟩
    | @long len height =>
      rw [List.length_cons, height] at hshort
      obtain ⟨rfl, -⟩ := List.cons_prefix_cons.mp hpre
      exact .inr ⟨rfl, .inr ⟨rfl, .inl (by rw [List.nil_append]; omega)⟩⟩

/-- A frame with a payload that may be cut. -/
theorem stream_of_payload {len : Bytes} (hfirst : firstByte o b = some o')
    (hform : LengthForm (isControl b) n len) (hbound : n < 2 ^ 63) (h : Payload n o' xs) :
    Stream LengthForm o (b :: (len ++ xs)) := by
  rcases h with hlt | ⟨hle, hrest⟩
  · exact .part hfirst hform hbound hlt
  · have hframe := Stream.frame hfirst hform hbound (List.length_take_of_le hle) hrest
    rwa [List.take_append_drop] at hframe

/-- A frame with a length of `k` bytes that may be cut. -/
theorem stream_of_length {c : UInt8} {k : Nat} (hfirst : firstByte o b = some o')
    (hform : ∀ {len : Bytes}, len.length = k → LengthForm (isControl b) (beNat len) (c :: len))
    (h : Length k [] o' xs) : Stream LengthForm o (b :: c :: xs) := by
  rcases h with hlt | ⟨hle, hbound, hpayload⟩
  · rw [List.nil_append] at hlt
    have hlen : (xs ++ List.replicate (k - xs.length) 0).length = k := by
      rw [List.length_append, List.length_replicate]
      omega
    refine .head hfirst (hform hlen) ?_ ?_
    · exact List.cons_prefix_cons.mpr ⟨rfl, List.prefix_append _ _⟩
    · intro heq
      rw [List.cons.injEq] at heq
      rw [heq.2] at hlt
      omega
  · rw [List.nil_append] at hle hbound hpayload
    have hstream := stream_of_payload hfirst (hform (List.length_take_of_le hle)) hbound hpayload
    rwa [List.cons_append, List.take_append_drop] at hstream

/-- The frames of a stream, read from the front. -/
theorem stream_cons : Stream LengthForm o (b :: xs) ↔
    ∃ o', firstByte o b = some o' ∧ Second (isControl b) o' xs := by
  constructor
  · intro h
    cases h with
    | head hfirst hform hpre hne => exact ⟨_, hfirst, second_of_cut hform hpre hne⟩
    | part hfirst hform hbound hlt => exact ⟨_, hfirst, second_of_form hform hbound (.inl hlt)⟩
    | frame hfirst hform hbound hlen hrest =>
      subst hlen
      exact ⟨_, hfirst, second_of_form hform hbound (payload_append hrest)⟩
  · rintro ⟨o', hfirst, h⟩
    cases xs with
    | nil =>
      refine .head hfirst (.short (c := 0) (by decide)) (List.nil_prefix) (by simp)
    | cons c xs =>
      rcases h with ⟨hle, hpayload⟩ | ⟨hcontrol, ⟨rfl, hlen⟩ | ⟨rfl, hlen⟩⟩
      · have hbound : c.toNat < 2 ^ 63 := by omega
        exact stream_of_payload hfirst (.short hle) hbound hpayload
      · exact stream_of_length hfirst (hcontrol ▸ .medium) hlen
      · exact stream_of_length hfirst (hcontrol ▸ .long) hlen

/-! ### The decoder reads streams -/

theorem beNat_concat (len : Bytes) (b : UInt8) :
    beNat (len ++ [b]) = beNat len * 256 + b.toNat := by
  rw [beNat, List.foldl_append]
  rfl

theorem beNat_lt (len : Bytes) : beNat len < 256 ^ len.length := by
  induction len using List.reverseRecOn with
  | nil => decide
  | append_singleton len b ih =>
    have hb := b.toNat_lt
    rw [beNat_concat, List.length_append, List.length_singleton, Nat.pow_succ]
    omega

theorem beNat_cons (c : UInt8) (len : Bytes) :
    beNat (c :: len) = c.toNat * 256 ^ len.length + beNat len := by
  induction len using List.reverseRecOn with
  | nil => simp [beNat]
  | append_singleton len b ih =>
    rw [← List.cons_append, beNat_concat, ih, beNat_concat, List.length_append,
      List.length_singleton, Nat.pow_succ]
    ring

/-- The first of eight bytes decides whether the number is below `2 ^ 63`. -/
theorem beNat_eight {c : UInt8} {len : Bytes} (hlen : len.length = 7) :
    beNat (c :: len) < 2 ^ 63 ↔ ¬c.toNat > 127 := by
  have hlt := beNat_lt len
  rw [beNat_cons, hlen] at *
  omega

/-- A fragmented message is open. -/
def Decoder.isOpen (dec : Decoder) : Bool := has dec.contFlags wsCont

def saneFlags : List UInt32 := [0, wsText, wsBinary, wsText ||| wsCont, wsBinary ||| wsCont]

/-- What stands in a decoder that reads the head of a frame. -/
def SaneHead (dec : Decoder) : Bytes → Prop
  | _ :: _ :: len => (dec.headTotal = 4 ∨ dec.headTotal = 10) ∧ len.length + 2 < dec.headTotal
  | _ => True

/-- What stands in a decoder between two bytes. -/
structure Sane (dec : Decoder) : Prop where
  flags : dec.contFlags ∈ saneFlags
  head : dec.state = .head → SaneHead dec dec.head
  payload : dec.state = .payload → dec.payloadOffset < dec.payloadLen

/-- What may come behind the bytes of a head that are there. -/
def MoreHead (dec : Decoder) (xs : Bytes) : Bytes → Prop
  | [] => Stream LengthForm dec.isOpen xs
  | [_] => Second (has dec.frameFlags (wsPing ||| wsPong ||| wsClose)) dec.isOpen xs
  | _ :: _ :: len => Length (dec.headTotal - 2) len dec.isOpen xs

/-- What may come next. -/
def More (dec : Decoder) (xs : Bytes) : Prop :=
  match dec.state with
  | .init => Stream LengthForm dec.isOpen xs
  | .head => MoreHead dec xs dec.head
  | .payload => Payload (dec.payloadLen - dec.payloadOffset) dec.isOpen xs

theorem more_nil (hsane : Sane dec) : More dec [] := by
  unfold More
  split
  · exact .nil
  · rename_i hstate
    have hhead := hsane.head hstate
    unfold MoreHead
    split
    · exact .nil
    · trivial
    · rename_i heq
      rw [heq] at hhead
      left
      rw [List.append_nil]
      have := hhead.2
      omega
  · rename_i hstate
    have hlt := hsane.payload hstate
    left
    rw [List.length_nil]
    omega

/-- The flags of a first byte. -/
structure FirstFlags (b : UInt8) (contFlags flags : UInt32) : Prop where
  control : has flags (wsPing ||| wsPong ||| wsClose) = isControl b
  cont : firstByte (has contFlags wsCont) b =
    some (has (if has flags (wsText ||| wsBinary) then flags else contFlags) wsCont)
  sane : (if has flags (wsText ||| wsBinary) then flags else contFlags) ∈ saneFlags

theorem firstFlags_table : (saneFlags.all fun contFlags => (List.range 256).all fun k =>
    let b := UInt8.ofNat k
    let flags := frameFirstbyte2flags b contFlags
    let next := if has flags (wsText ||| wsBinary) then flags else contFlags
    if flags == 0 then firstByte (has contFlags wsCont) b == none
    else has flags (wsPing ||| wsPong ||| wsClose) == isControl b &&
      firstByte (has contFlags wsCont) b == some (has next wsCont) && saneFlags.elem next) =
        true := by
  decide +kernel

/-- `ws_frame_firstbyte2flags` takes the first bytes that may come. -/
theorem frameFirstbyte2flags_cases {contFlags : UInt32} (hsane : contFlags ∈ saneFlags)
    (b : UInt8) : frameFirstbyte2flags b contFlags = 0 ∧ firstByte (has contFlags wsCont) b = none ∨
      frameFirstbyte2flags b contFlags ≠ 0 ∧
        FirstFlags b contFlags (frameFirstbyte2flags b contFlags) := by
  have hrow := List.all_eq_true.mp (List.all_eq_true.mp firstFlags_table contFlags hsane) b.toNat
    (List.mem_range.mpr b.toNat_lt)
  simp only [UInt8.ofNat_toNat] at hrow
  by_cases hzero : frameFirstbyte2flags b contFlags = 0
  · left
    rw [if_pos (by simpa using hzero)] at hrow
    exact ⟨hzero, by simpa using hrow⟩
  · right
    rw [if_neg (by simpa using hzero)] at hrow
    simp only [Bool.and_eq_true, beq_iff_eq, List.elem_eq_mem, decide_eq_true_eq] at hrow
    exact ⟨hzero, hrow.1.1, hrow.1.2, hrow.2⟩

/-- What a byte of a head does, where `S` are the bytes that may come behind it. -/
inductive HeadOutcome (S : Bytes → Prop) : Decoder × Option Curlcode → Prop
  | more {dec : Decoder} : Sane dec → (∀ xs, S xs ↔ More dec xs) → HeadOutcome S (dec, none)
  | done {dec : Decoder} : dec.contFlags ∈ saneFlags → dec.payloadOffset = 0 →
      (∀ xs, S xs ↔ Payload dec.payloadLen dec.isOpen xs) → HeadOutcome S (dec, some .ok)
  | failed {dec : Decoder} : (∀ xs, ¬S xs) → HeadOutcome S (dec, some .recvError)

theorem headFirst_outcome (hsane : dec.contFlags ∈ saneFlags) (hstate : dec.state = .head) :
    HeadOutcome (fun xs => Stream LengthForm dec.isOpen (b :: xs)) (headFirst dec b) := by
  unfold headFirst
  rcases frameFirstbyte2flags_cases hsane b with ⟨hzero, hnone⟩ | ⟨hne, hflags⟩
  · rw [if_pos hzero]
    refine .failed fun xs h => ?_
    obtain ⟨o', hfirst, -⟩ := stream_cons.mp h
    rw [Decoder.isOpen, hnone] at hfirst
    cases hfirst
  · rw [if_neg hne]
    refine .more ⟨hflags.sane, fun _ => trivial, fun h => ?_⟩ fun xs => ?_
    · rw [hstate] at h
      cases h
    · rw [stream_cons, Decoder.isOpen, hflags.cont, More, hstate]
      simp only [MoreHead, hflags.control, Option.some.injEq, exists_eq_left', Decoder.isOpen]

/-- A complete head. -/
theorem headDone_outcome {S : Bytes → Prop} (hsane : dec.contFlags ∈ saneFlags)
    (h : ∀ xs, S xs ↔ Payload n dec.isOpen xs) : HeadOutcome S (headDone dec n) :=
  .done hsane rfl h

theorem mask_clear_iff : (b &&& bitMask ≠ 0) ↔ 128 ≤ b.toNat := by
  have htable : ((List.range 256).all fun k =>
      decide (UInt8.ofNat k &&& bitMask ≠ 0) == decide (128 ≤ k)) = true := by decide +kernel
  have hrow := List.all_eq_true.mp htable b.toNat (List.mem_range.mpr b.toNat_lt)
  rw [UInt8.ofNat_toNat, beq_iff_eq, decide_eq_decide] at hrow
  exact hrow

theorem second_large {control : Bool} {c : UInt8} (h : 128 ≤ c.toNat) :
    ¬Second control o (c :: xs) := by
  rintro (⟨hle, -⟩ | ⟨-, ⟨rfl, -⟩ | ⟨rfl, -⟩⟩)
  · omega
  · simp at h
  · simp at h

theorem headSecond_outcome {first : UInt8} (hsane : dec.contFlags ∈ saneFlags)
    (hstate : dec.state = .head) (hhead : dec.head = [first]) :
    HeadOutcome (fun xs => Second (has dec.frameFlags (wsPing ||| wsPong ||| wsClose)) dec.isOpen
      (b :: xs)) (headSecond dec b) := by
  unfold headSecond
  by_cases hmask : b &&& bitMask ≠ 0
  · rw [if_pos hmask]
    exact .failed fun xs => second_large (mask_clear_iff.mp hmask)
  rw [if_neg hmask]
  rw [mask_clear_iff, Nat.not_le] at hmask
  generalize has dec.frameFlags (wsPing ||| wsPong ||| wsClose) = control
  by_cases hcontrol : control = true ∧ b.toNat > maxCntrlLen
  · rw [if_pos hcontrol]
    obtain ⟨rfl, hlong⟩ := hcontrol
    refine .failed fun xs h => ?_
    rcases h with ⟨hle, -⟩ | ⟨hfalse, -⟩
    · exact absurd hle (Nat.not_le.mpr hlong)
    · cases hfalse
  rw [if_neg hcontrol]
  by_cases hlonger : b = 126 ∨ b = 127
  · obtain rfl : control = false := by
      rw [Bool.eq_false_iff]
      exact fun htrue => hcontrol ⟨htrue, by rcases hlonger with rfl | rfl <;> decide⟩
    have hnotPayload : ¬DecState.head = .payload := by decide
    rcases hlonger with rfl | rfl
    all_goals
      refine .more ⟨hsane, fun _ => ?_, fun h => absurd (hstate.symm.trans h) hnotPayload⟩ fun xs =>
        ?_
      · simp [Decoder.push, hhead, SaneHead]
      · simp [More, Decoder.push, hstate, hhead, MoreHead, Second, Decoder.isOpen]
  obtain ⟨hmedium, hlong⟩ := not_or.mp hlonger
  rw [if_neg hmedium]
  rw [if_neg hlong, headComplete, if_pos rfl]
  refine headDone_outcome hsane fun xs => ?_
  have hle : b.toNat ≤ 125 := by
    have h126 : b.toNat ≠ 126 := fun h => hmedium (UInt8.toNat_inj.mp h)
    have h127 : b.toNat ≠ 127 := fun h => hlong (UInt8.toNat_inj.mp h)
    omega
  simp [Second, Decoder.push, hhead, hmedium, hlong, hle, beNat, Decoder.isOpen]

theorem length_cons {k : Nat} {len : Bytes} :
    Length k len o (b :: xs) ↔ Length k (len ++ [b]) o xs := by
  rw [Length, Length, List.append_assoc, List.singleton_append]

theorem length_full (len : Bytes) :
    Length len.length len o xs ↔ beNat len < 2 ^ 63 ∧ Payload (beNat len) o xs := by
  rw [Length, List.take_left, List.drop_left, List.length_append]
  constructor
  · rintro (hlt | ⟨-, h⟩)
    · omega
    · exact h
  · exact fun h => .inr ⟨Nat.le_add_right _ _, h⟩

theorem headRest_outcome {first second : UInt8} {len : Bytes} (hsane : Sane dec)
    (hstate : dec.state = .head) (hhead : dec.head = first :: second :: len) :
    HeadOutcome (fun xs => Length (dec.headTotal - 2) len dec.isOpen (b :: xs))
      (headRest dec b) := by
  have hflags := hsane.flags
  have hin := hsane.head hstate
  rw [hhead] at hin
  obtain ⟨htotal, hlt⟩ := hin
  have hpush : (dec.push b).head = first :: second :: (len ++ [b]) := by
    simp [Decoder.push, hhead]
  have hlen : (dec.push b).head.length = len.length + 3 := by
    rw [hpush]
    simp
  have hshort : dec.head.length < dec.headTotal := by
    rw [hhead]
    exact hlt
  unfold headRest
  simp only [if_pos hshort, hlen]
  have hnotPayload : ¬DecState.head = .payload := by decide
  by_cases hmore : len.length + 3 < (dec.push b).headTotal
  · rw [if_pos hmore]
    refine .more ⟨hflags, fun _ => ?_, fun h => absurd (hstate.symm.trans h) hnotPayload⟩ fun xs =>
      ?_
    · rw [hpush, SaneHead, List.length_append, List.length_singleton]
      exact ⟨htotal, hmore⟩
    · rw [length_cons, More, show (dec.push b).state = .head from hstate, hpush]
      rfl
  · -- the last byte of the head
    rw [if_neg hmore, headComplete]
    change ¬len.length + 3 < dec.headTotal at hmore
    have hfull : ∀ {k : Nat}, dec.headTotal = k + 2 → (len ++ [b]).length = k := by
      intro k hk
      rw [List.length_append, List.length_singleton]
      omega
    have hS : ∀ xs, Length (dec.headTotal - 2) len dec.isOpen (b :: xs) ↔
        beNat (len ++ [b]) < 2 ^ 63 ∧ Payload (beNat (len ++ [b])) dec.isOpen xs := by
      intro xs
      have hk : dec.headTotal - 2 = (len ++ [b]).length := by
        rw [List.length_append, List.length_singleton]
        omega
      rw [length_cons, hk, length_full]
    have hdrop : (dec.push b).head.drop 2 = len ++ [b] := by
      rw [hpush]
      rfl
    rcases htotal with hfour | hten
    · rw [if_neg (by rw [Decoder.push, hfour]; decide),
        if_pos (show (dec.push b).headTotal = 4 from hfour), hdrop]
      refine headDone_outcome hflags fun xs => ?_
      have hbound := beNat_lt (len ++ [b])
      rw [hfull (k := 2) hfour] at hbound
      rw [hS xs, and_iff_right (Nat.lt_trans hbound (by decide))]
      rfl
    · rw [if_neg (by rw [Decoder.push, hten]; decide), if_neg (by rw [Decoder.push, hten]; decide),
        if_pos (show (dec.push b).headTotal = 10 from hten), hdrop]
      obtain ⟨c, rest, hc⟩ := List.exists_cons_of_length_eq_add_one (hfull (k := 8) hten)
      have hseven : rest.length = 7 := by
        have h := hfull (k := 8) hten
        rw [hc, List.length_cons] at h
        omega
      have hget : (dec.push b).head.getD 2 0 = c := by
        rw [hpush, hc]
        rfl
      simp only [hc, beNat_eight hseven] at hS
      rw [hget, hc]
      by_cases hhigh : c.toNat > 127
      · rw [if_pos hhigh]
        exact .failed fun xs h => ((hS xs).mp h).1 hhigh
      · rw [if_neg hhigh]
        refine headDone_outcome hflags fun xs => ?_
        rw [hS xs, and_iff_right hhigh]
        rfl

theorem headByte_outcome (hsane : Sane dec) (hstate : dec.state = .head) :
    HeadOutcome (fun xs => MoreHead dec (b :: xs) dec.head) (headByte dec b) := by
  unfold headByte
  rcases hhead : dec.head with _ | ⟨first, _ | ⟨second, len⟩⟩
  · exact headFirst_outcome hsane.flags hstate
  · exact headSecond_outcome hsane.flags hstate hhead
  · exact headRest_outcome hsane hstate hhead

/-- A decoder takes a byte when it may come. -/
def TakesMore (S : Bytes → Prop) (res : Decoder × List Callback × Option Curlcode) : Prop :=
  (res.2.2 = none → Sane res.1) ∧ ∀ xs, S xs ↔ res.2.2 = none ∧ More res.1 xs

theorem decHead_more {S : Bytes → Prop} (h : HeadOutcome S (headByte dec b)) :
    TakesMore S (decHead dec b) := by
  unfold decHead
  generalize headByte dec b = p at h
  cases h with
  | more hsane hS => exact ⟨fun _ => hsane, fun xs => by simp [hS xs]⟩
  | @done dec₁ hflags hoffset hS =>
    by_cases hempty : dec₁.payloadLen = 0
    · simp only [ne_eq, not_true_eq_false, if_false, if_pos hempty]
      refine ⟨fun _ => ⟨hflags, by rintro ⟨⟩, by rintro ⟨⟩⟩, fun xs => ?_⟩
      rw [hS xs, hempty]
      simp [Payload, More, Decoder.finish, Decoder.enter, Decoder.isOpen]
    · simp only [ne_eq, not_true_eq_false, if_false, if_neg hempty]
      have hlt : dec₁.payloadOffset < dec₁.payloadLen := by omega
      refine ⟨fun _ => ⟨hflags, by rintro ⟨⟩, fun _ => hlt⟩, fun xs => ?_⟩
      rw [hS xs]
      simp [More, Decoder.enter, hoffset, Decoder.isOpen]
  | failed hS => exact ⟨fun h => by simp at h, fun xs => by simp [hS xs]⟩

theorem payload_cons (hlt : 1 < n) : Payload n o (b :: xs) ↔ Payload (n - 1) o xs := by
  obtain ⟨n, rfl⟩ := Nat.exists_eq_add_of_lt hlt
  rw [Payload, Payload, List.length_cons]
  simp only [show 1 + n + 1 = n + 1 + 1 by omega, Nat.add_sub_cancel, List.drop_succ_cons]
  simp

theorem decByte_more (hsane : Sane dec) :
    TakesMore (fun xs => More dec (b :: xs)) (decByte dec b) := by
  unfold decByte More
  cases hstate : dec.state with
  | init =>
    have hstart : Sane dec.start :=
      ⟨hsane.flags, fun _ => trivial, by rintro ⟨⟩⟩
    exact decHead_more (headByte_outcome hstart rfl)
  | head => exact decHead_more (headByte_outcome hsane hstate)
  | payload =>
    have hlt := hsane.payload hstate
    by_cases hlast : dec.payloadOffset + 1 = dec.payloadLen
    · simp only [if_pos hlast]
      refine ⟨fun _ => ⟨hsane.flags, by rintro ⟨⟩, by rintro ⟨⟩⟩, fun xs => ?_⟩
      rw [show dec.payloadLen - dec.payloadOffset = 1 by omega]
      simp [Payload, More, Decoder.finish, Decoder.advance, Decoder.isOpen]
    · simp only [if_neg hlast]
      have hstate' : (dec.advance 1).state = .payload := hstate
      have hlt' : (dec.advance 1).payloadOffset < (dec.advance 1).payloadLen := by
        change dec.payloadOffset + 1 < dec.payloadLen
        omega
      refine ⟨fun _ => ⟨hsane.flags, ?_, fun _ => hlt'⟩, fun xs => ?_⟩
      · rw [hstate']
        rintro ⟨⟩
      · have hremain : 1 < dec.payloadLen - dec.payloadOffset := by omega
        dsimp only
        rw [payload_cons hremain, More, hstate', and_iff_right rfl, Nat.sub_sub]
        rfl

/-- A decoder finds no error as long as the bytes may come. -/
theorem feed_error_none_iff (hsane : Sane dec) (bytes : Bytes) :
    (feed decByte dec bytes).error = none ↔ More dec bytes := by
  induction bytes generalizing dec with
  | nil => exact ⟨fun _ => more_nil hsane, fun _ => rfl⟩
  | cons b bytes ih =>
    obtain ⟨hsane', hmore⟩ := @decByte_more dec b hsane
    refine Iff.trans ?_ (hmore bytes).symm
    rcases hstep : decByte dec b with ⟨dec', out, _ | e⟩
    · rw [hstep] at hsane'
      rw [feed_cons_ok hstep, and_iff_right rfl]
      exact ih (hsane' rfl)
    · rw [feed_cons_error hstep]
      simp

theorem sane_init : Sane decInit :=
  ⟨by decide, fun h => (nomatch h), fun h => (nomatch h)⟩

/-! ### What is read of a stream -/

/-- Frames are read in the same way however the stream is cut into pieces and whatever the queues
are that take them, their offsets are contiguous, and no error is found as long as the stream is one
of frames. -/
theorem decode_streams {q q' : State} (hq : Rep q []) (hq' : Rep q' [])
    {pieces pieces' : List (Nat × Bytes)}
    (hsame : pieces.flatMap Prod.snd = pieces'.flatMap Prod.snd) :
    ∃ rx rx', pieces.foldlM receive (.init q) = some rx ∧
      pieces'.foldlM receive (.init q') = some rx' ∧
      (rx.refused = false → rx'.refused = false →
        rx.observe = rx'.observe ∧
          (∃ frames, rx.observe.1 = some frames ∧ Contiguous frames) ∧
          (rx.result = .again ↔ Stream LengthForm false (pieces.flatMap Prod.snd))) := by
  obtain ⟨rx, hrun, hreads⟩ := receive_stream hq pieces
  obtain ⟨rx', hrun', hreads'⟩ := receive_stream hq' pieces'
  refine ⟨rx, rx', hrun, hrun', fun hrefused hrefused' => ?_⟩
  replace hreads := hreads hrefused
  replace hreads' := hreads' hrefused'
  rw [← hsame] at hreads'
  refine ⟨hreads.observe.trans hreads'.observe.symm, ?_, ?_⟩
  · rw [hreads.observe]
    exact shown_contiguous _
  · rw [hreads.waits, feed_error_none_iff sane_init]
    rfl

/-- An empty text frame and a ping, in one piece and byte by byte. -/
theorem decode_streams_ping : ∃ rx rx',
    [(9, [0x81, 0, 0x89, 1, 7])].foldlM receive (.init (bufqInit2 .empty 4 2 true false)) =
      some rx ∧
      ([0x81, 0, 0x89, 1, 7].map fun b => (9, [b])).foldlM receive
        (.init (bufqInit2 .empty 2 1 true false)) = some rx' ∧
      rx.refused = false ∧ rx'.refused = false ∧ rx.observe = rx'.observe ∧
      (∃ frames, rx.observe.1 = some frames ∧ Contiguous frames) ∧
      (rx.result = .again ↔ Stream LengthForm false [0x81, 0, 0x89, 1, 7]) := by
  have hpool : ∀ size, PoolReady .empty size none := fun _ =>
    ⟨[], rfl, List.nodup_nil, fun _ hp => nomatch hp⟩
  have htaken : ([(9, [0x81, 0, 0x89, 1, 7])].foldlM receive
      (.init (bufqInit2 .empty 4 2 true false))).map Receiver.refused =
        some false := by decide +kernel
  have htaken' : (([0x81, 0, 0x89, 1, 7].map fun b => (9, [b])).foldlM receive
      (.init (bufqInit2 .empty 2 1 true false))).map Receiver.refused = some false := by
    decide +kernel
  obtain ⟨rx, rx', hrun, hrun', h⟩ := decode_streams (rep_init 2 true false (by decide) (hpool 4))
    (rep_init 1 true false (by decide) (hpool 2))
    (show [(9, [0x81, 0, 0x89, 1, 7])].flatMap Prod.snd =
      ([0x81, 0, 0x89, 1, 7].map fun b => (9, [b])).flatMap Prod.snd by decide)
  have hrx : rx.refused = false := by
    have heq : some rx.refused = some false := (congrArg (Option.map _) hrun).symm.trans htaken
    simpa using heq
  have hrx' : rx'.refused = false := by
    have heq : some rx'.refused = some false := (congrArg (Option.map _) hrun').symm.trans htaken'
    simpa using heq
  exact ⟨rx, rx', hrun, hrun', hrx, hrx', h hrx hrx'⟩

/-- Any of the three forms, for control frames too. -/
def anyForm (control : Bool) (n : Nat) (len : Bytes) : Prop :=
  LengthForm false n len ∧ (control = true → n ≤ maxCntrlLen)

/-- Only the shortest form for a length. -/
def shortestForm (control : Bool) (n : Nat) (len : Bytes) : Prop :=
  anyForm control n len ∧ ∀ len', LengthForm false n len' → len.length ≤ len'.length

/-- No frame with the shortest form of its length has these bytes behind its first one. -/
theorem not_shortest {control : Bool} {len rest : Bytes} (hform : shortestForm control n len) :
    len ++ rest ≠ [126, 0, 0] := by
  obtain ⟨⟨hform, -⟩, hleast⟩ := hform
  intro heq
  cases hform with
  | @short _ c hle =>
    simp only [List.singleton_append, List.cons.injEq] at heq
    rw [heq.1] at hle
    exact absurd hle (by decide)
  | @medium len htwo =>
    simp only [List.cons_append, List.cons.injEq, true_and] at heq
    have hlen : len = [0, 0] := by
      rw [← @List.take_left _ len rest, heq, htwo]
      rfl
    subst hlen
    have hzero : LengthForm false (beNat [0, 0]) [0] :=
      show LengthForm false (0 : UInt8).toNat [0] from .short (by decide)
    exact absurd (hleast [0] hzero) (by decide)
  | @long len height =>
    have hshort := congrArg List.length heq
    simp only [List.length_append, List.length_cons, height] at hshort
    simp at hshort
    omega

theorem not_stream_shortest {bytes : Bytes} (h : Stream shortestForm o bytes) :
    bytes ≠ [0x82, 126, 0, 0] := by
  intro heq
  cases h with
  | nil => cases heq
  | @head _ _ _ _ len pre _ hform hpre hne =>
    obtain ⟨-, rfl⟩ := List.cons.inj heq
    obtain ⟨⟨hform, -⟩, -⟩ := hform
    cases hform with
    | short =>
      have hle := hpre.length_le
      simp at hle
    | @medium len htwo => exact hne (hpre.eq_of_length (by simp [htwo]))
    | long => exact absurd (List.cons_prefix_cons.mp hpre).1 (by decide)
  | part _ hform _ _ => exact not_shortest hform (List.cons.inj heq).2
  | frame _ hform _ _ _ => exact not_shortest hform (List.cons.inj heq).2

/-- What is taken depends on the form of a length: a binary frame may use a longer form than it
needs, a ping may not. -/
theorem longer_forms :
    (∃ rx, [(9, [0x82, 126, 0, 0])].foldlM receive (.init (bufqInit2 .empty 4 2 true false)) =
      some rx ∧
      rx.refused = false ∧ rx.result = .again ∧ ¬Stream shortestForm false [0x82, 126, 0, 0]) ∧
    ∃ rx, [(9, [0x89, 126, 0, 0])].foldlM receive (.init (bufqInit2 .empty 4 2 true false)) =
      some rx ∧
      rx.refused = false ∧ rx.result ≠ .again ∧ Stream anyForm false [0x89, 126, 0, 0] := by
  constructor
  · have hrun : ([(9, [0x82, 126, 0, 0])].foldlM receive
        (.init (bufqInit2 .empty 4 2 true false))).map (fun rx => (rx.refused, rx.result)) =
          some (false, .again) := by decide +kernel
    obtain ⟨rx, hrun, heq⟩ := Option.map_eq_some_iff.mp hrun
    exact ⟨rx, hrun, congrArg Prod.fst heq, congrArg Prod.snd heq,
      fun h => not_stream_shortest h rfl⟩
  · have hrun : ([(9, [0x89, 126, 0, 0])].foldlM receive
        (.init (bufqInit2 .empty 4 2 true false))).map (fun rx => (rx.refused, rx.result)) =
          some (false, .recvError) := by decide +kernel
    obtain ⟨rx, hrun, heq⟩ := Option.map_eq_some_iff.mp hrun
    refine ⟨rx, hrun, congrArg Prod.fst heq, ?_, ?_⟩
    · rw [show rx.result = .recvError from congrArg Prod.snd heq]
      decide
    · have hform : anyForm (isControl 0x89) (beNat [0, 0]) [126, 0, 0] :=
        ⟨.medium rfl, fun _ => by decide⟩
      have hfirst : firstByte false 0x89 = some false := by decide
      exact .frame hfirst hform (by decide) (show ([] : Bytes).length = _ by decide) .nil

end Gurl.Ws
