import Gurl.Mqtt.Splits

/-! The packets that a stream consists of, and what a transfer takes their bytes for. -/

namespace Gurl.Mqtt

/-! ### Packets -/

/-- A packet: its first byte, its remaining length, and the bytes of its body that are there. -/
structure Packet where
  first : UInt8
  len : Nat
  body : Bytes
  deriving DecidableEq

/-- The first byte of a CONNACK packet. -/
def msgConnack : UInt8 := 0x20

def Packet.add (p : Packet) (b : UInt8) : Packet := { p with body := p.body ++ [b] }

/-- The number that the bytes of a length stand for: seven bits each, the lowest ones first. -/
def lengthOf : Bytes → Nat
  | [] => 0
  | b :: bytes => b.toNat % 128 + 128 * lengthOf bytes

/-- Where a byte stands. -/
inductive Place where
  | first
  | length (first : UInt8) (header : Bytes)
  | body (p : Packet)
  | bad

/-- The packets that are complete, and where the next byte stands. -/
structure Framer where
  done : List Packet
  place : Place

/-- One byte, by the rules of the protocol alone. -/
def Framer.step (f : Framer) (b : UInt8) : Framer :=
  match f.place with
  | .first => ⟨f.done, .length b []⟩
  | .length first header =>
    if b &&& 0x80 ≠ 0 then
      if (header ++ [b]).length < 4 then ⟨f.done, .length first (header ++ [b])⟩ else ⟨f.done, .bad⟩
    else if lengthOf (header ++ [b]) = 0 then ⟨f.done ++ [⟨first, 0, []⟩], .first⟩
    else ⟨f.done, .body ⟨first, lengthOf (header ++ [b]), []⟩⟩
  | .body p =>
    if p.body.length + 1 = p.len then ⟨f.done ++ [p.add b], .first⟩ else ⟨f.done, .body (p.add b)⟩
  | .bad => f

/-- The packets whose header is complete. -/
def Framer.packets (f : Framer) : List Packet :=
  f.done ++ match f.place with
    | .body p => [p]
    | _ => []

def framer : Framer := ⟨[], .first⟩

/-- The packets of a stream. -/
def packetsOf (bytes : Bytes) : List Packet := (bytes.foldl Framer.step framer).packets

inductive Kind where
  | first | length | body
  deriving DecidableEq

def Place.kind : Place → Kind
  | .first => .first
  | .length .. => .length
  | .body _ => .body
  | .bad => .body

def Role.kind : Role → Kind
  | .first => .first
  | .length => .length
  | _ => .body

/-- What each byte is. -/
def kindsFrom (f : Framer) : Bytes → List Kind
  | [] => []
  | b :: bytes => f.place.kind :: kindsFrom (f.step b) bytes

/-- The bytes of the bodies of all PUBLISH packets. -/
def publishedIn (packets : List Packet) : Bytes :=
  (packets.filter (·.first &&& 0xf0 = msgPublish)).flatMap Packet.body

/-- The first packet is CONNACK, and no packet is empty but PINGRESP and DISCONNECT. -/
def Orderly (packets : List Packet) : Prop :=
  (∀ p ∈ packets.head?, p.first &&& 0xf0 = msgConnack) ∧
    ∀ p ∈ packets, p.len = 0 → p.first &&& 0xf0 = msgPingresp ∨ p.first &&& 0xf0 = msgDisconnect

/-- The connection was accepted: the first packet is CONNACK with code 0. -/
def Accepted (packets : List Packet) : Prop :=
  ∃ first, first &&& 0xf0 = msgConnack ∧ packets.head? = some ⟨first, connackLen, [0, 0]⟩

variable {setup : Setup} {r : Reader} {f : Framer} {b : UInt8}

theorem publishedIn_append (ps qs : List Packet) :
    publishedIn (ps ++ qs) = publishedIn ps ++ publishedIn qs := by
  rw [publishedIn, List.filter_append, List.flatMap_append]
  rfl

/-- What is said of headers stays when bytes of a body come. -/
theorem orderly_of_step (h : Orderly (f.step b).packets) : Orderly f.packets := by
  have hadd : ∀ {done : List Packet} {p : Packet}, Orderly (done ++ [p.add b]) →
    Orderly (done ++ [p]) := by
    intro done p hp
    refine ⟨?_, ?_⟩
    · cases done with
      | nil => simpa [Packet.add] using hp.1
      | cons q done => simpa using hp.1
    · intro q hq hlen
      rcases List.mem_append.mp hq with hq | hq
      · exact hp.2 q (List.mem_append_left _ hq) hlen
      · rw [List.mem_singleton.mp hq] at hlen ⊢
        exact hp.2 (p.add b) (by simp) hlen
  have hdone : ∀ {done more : List Packet}, Orderly (done ++ more) → Orderly done := by
    intro done more hp
    refine ⟨?_, fun q hq => hp.2 q (List.mem_append_left _ hq)⟩
    cases done with
    | nil => exact fun _ hq => (nomatch hq)
    | cons q done => simpa using hp.1
  unfold Framer.step at h
  unfold Framer.packets at h ⊢
  cases hplace : f.place with
  | first =>
    rw [hplace] at h
    simpa using h
  | length first header =>
    rw [hplace] at h
    dsimp only at h
    split_ifs at h
    · simpa using h
    · simpa using h
    · simpa using hdone (hdone h)
    · simpa using hdone h
  | body p =>
    rw [hplace] at h
    dsimp only at h
    split_ifs at h
    · exact hadd (hdone h)
    · exact hadd h
  | bad =>
    rw [hplace] at h
    simpa [hplace] using h

theorem orderly_of_foldl {bytes : Bytes} (h : Orderly (bytes.foldl Framer.step f).packets) :
    Orderly f.packets := by
  induction bytes generalizing f with
  | nil => exact h
  | cons b bytes ih => exact orderly_of_step (ih h)

/-! ### The reader follows the framing -/

theorem and_127 (b : UInt8) : (b &&& 127).toNat = b.toNat % 128 := by
  rw [UInt8.toNat_and]
  exact Nat.and_two_pow_sub_one_eq_mod b.toNat 7

/-- `mqtt_decode_len` reads a length. -/
theorem decodeLoop_spec {header : Bytes} (hcont : ∀ c ∈ header, c &&& 0x80 ≠ 0)
    (hlast : ¬b &&& 0x80 ≠ 0) {i len mult : Nat} (hle : i + header.length < 4) :
    decodeLoop i len mult (header ++ [b]) = some (len + mult * lengthOf (header ++ [b])) := by
  induction header generalizing i len mult with
  | nil =>
    rw [List.length_nil] at hle
    rw [List.nil_append, decodeLoop, if_neg (by omega)]
    dsimp only
    rw [if_neg hlast, and_127, lengthOf, lengthOf, Nat.mul_zero, Nat.add_zero, Nat.mul_comm]
  | cons c header ih =>
    rw [List.length_cons] at hle
    rw [List.cons_append, decodeLoop, if_neg (by omega)]
    dsimp only
    rw [if_pos (hcont c (List.mem_cons_self ..)),
      ih (fun d hd => hcont d (List.mem_cons_of_mem c hd)) (by omega), and_127, lengthOf]
    congr 1
    ring

/-- The state behind the next header goes with the packets that have come. -/
def NextOk (next : MqttState) (f : Framer) : Prop :=
  f.done = [] ∧ next = .connack ∨ Accepted f.done ∧ (next = .suback ∨ next = .pubwait)

/-- The phase of a reader is the place of the next byte. -/
def PhaseOk (f : Framer) : Phase → Prop
  | .first next => f.place = .first ∧ NextOk next f
  | .length next first header => f.place = .length first header ∧ NextOk next f ∧
      header.length < 4 ∧ ∀ c ∈ header, c &&& 0x80 ≠ 0
  | .connack got => f.done = [] ∧ got.length < connackLen ∧
      ∃ first, first &&& 0xf0 = msgConnack ∧ f.place = .body ⟨first, connackLen, got⟩
  | .suback got => Accepted f.done ∧ got.length < subackLen ∧
      ∃ first, first &&& 0xf0 = msgSuback ∧ f.place = .body ⟨first, subackLen, got⟩
  | .publish left => Accepted f.done ∧ 0 < left ∧
      ∃ p, p.first &&& 0xf0 = msgPublish ∧ p.len = p.body.length + left ∧ f.place = .body p
  | .ended .. => True

/-- A reader has taken the bytes of a stream for what they are. -/
structure Sync (r : Reader) (f : Framer) : Prop where
  phase : PhaseOk f r.phase
  body : r.body = publishedIn f.packets
  accepted : r.body ≠ [] → Accepted f.done

theorem step_body (hrole : r.phase.role ≠ some .publish) : (r.step setup b).body = r.body :=
  if_neg hrole

theorem Accepted.append {ps : List Packet} (h : Accepted ps) (qs : List Packet) :
    Accepted (ps ++ qs) := by
  obtain ⟨first, htype, hhead⟩ := h
  refine ⟨first, htype, ?_⟩
  cases ps with
  | nil => cases hhead
  | cons p ps => exact hhead

/-- The kind of the next byte is known. -/
theorem PhaseOk.kind (h : PhaseOk f r.phase) {role : Role} (hrole : r.phase.role = some role) :
    role.kind = f.place.kind := by
  unfold PhaseOk at h
  cases hphase : r.phase with
  | first next =>
    rw [hphase] at h hrole
    cases hrole
    rw [h.1]
    rfl
  | length next first header =>
    rw [hphase] at h hrole
    cases hrole
    rw [h.1]
    rfl
  | connack got =>
    rw [hphase] at h hrole
    cases hrole
    obtain ⟨-, -, first, -, hplace⟩ := h
    rw [hplace]
    rfl
  | suback got =>
    rw [hphase] at h hrole
    cases hrole
    obtain ⟨-, -, first, -, hplace⟩ := h
    rw [hplace]
    rfl
  | publish left =>
    rw [hphase] at h hrole
    cases hrole
    obtain ⟨-, -, p, -, -, hplace⟩ := h
    rw [hplace]
    rfl
  | ended result done =>
    rw [hphase] at hrole
    cases hrole

/-- A packet that is not empty starts. -/
theorem enter_ok {next : MqttState} {first : UInt8} {len : Nat} (hnext : NextOk next f)
    (horderly : Orderly (Framer.packets ⟨f.done, .body ⟨first, len, []⟩⟩)) (hlen : len ≠ 0) :
    PhaseOk ⟨f.done, .body ⟨first, len, []⟩⟩ (enter setup next first len []) := by
  rcases hnext with ⟨hnil, rfl⟩ | ⟨haccepted, hnext⟩
  · -- the first packet
    have htype : first &&& 0xf0 = msgConnack :=
      horderly.1 ⟨first, len, []⟩ (by simp [Framer.packets, hnil])
    unfold enter
    dsimp only
    split_ifs with hbad
    · trivial
    · rw [ne_eq, not_not] at hbad
      exact ⟨hnil, by decide, first, htype, by rw [hbad]⟩
  · have henter : enter setup next first len [] = enterPacket setup first len [] := by
      rcases hnext with rfl | rfl <;> rfl
    rw [henter]
    unfold enterPacket
    split_ifs with hpublish hsize hsuback hbad hdisconnect
    · trivial
    · exact ⟨haccepted, Nat.pos_of_ne_zero hlen, ⟨first, len, []⟩, hpublish,
        (Nat.zero_add _).symm, rfl⟩
    · trivial
    · rw [ne_eq, not_not] at hbad
      exact ⟨haccepted, by decide, first, hsuback, by rw [hbad]⟩
    · trivial
    · trivial

theorem nibbles (b : UInt8) : b = (b &&& 0xf0) ||| (b &&& 0x0f) := by
  have htable : ((List.range 256).all fun k =>
      UInt8.ofNat k == (UInt8.ofNat k &&& 0xf0) ||| (UInt8.ofNat k &&& 0x0f)) = true := by
    decide +kernel
  have hrow := List.all_eq_true.mp htable b.toNat (List.mem_range.mpr b.toNat_lt)
  rwa [UInt8.ofNat_toNat, beq_iff_eq] at hrow

/-- The header of a packet is complete. -/
theorem afterHeader_ok {next : MqttState} {first : UInt8} {len : Nat} (hnext : NextOk next f)
    (horderly : Orderly (f.done ++ [⟨first, len, []⟩])) :
    PhaseOk
      (if len = 0 then ⟨f.done ++ [⟨first, 0, []⟩], .first⟩ else ⟨f.done, .body ⟨first, len, []⟩⟩)
      (afterHeader setup next first len) := by
  unfold afterHeader
  by_cases hwell : (first &&& 0xf0 = msgDisconnect ∨ first &&& 0xf0 = msgPingresp) ∧
      (len ≠ 0 ∨ first &&& 0x0f ≠ 0)
  · rw [if_pos hwell]
    trivial
  · rw [if_neg hwell]
    by_cases hlen : len = 0
    · subst hlen
      rw [if_pos rfl, if_neg (not_not_intro rfl)]
      have htype := horderly.2 ⟨first, 0, []⟩ (by simp) rfl
      -- the first packet is not an empty one
      have haccepted : Accepted f.done := by
        rcases hnext with ⟨hnil, -⟩ | ⟨haccepted, -⟩
        · have hconnack := horderly.1 ⟨first, 0, []⟩ (by simp [hnil])
          rw [hconnack] at htype
          exact absurd htype (by decide)
        · exact haccepted
      have hreserved : first &&& 0x0f = 0 := by
        by_contra hne
        exact hwell ⟨htype.symm, .inr hne⟩
      by_cases hpong : first = msgPingresp
      · rw [if_pos hpong]
        exact ⟨rfl, .inr ⟨haccepted.append _, .inr rfl⟩⟩
      · rw [if_neg hpong]
        have hall := nibbles first
        rcases htype with htype | htype
        · rw [htype, hreserved] at hall
          exact absurd (hall.trans (by decide)) hpong
        · rw [htype, hreserved] at hall
          rw [if_pos (hall.trans (by decide))]
          trivial
    · rw [if_neg hlen, if_pos hlen]
      exact enter_ok hnext horderly hlen

theorem publishedIn_single_nil (first : UInt8) (len : Nat) :
    publishedIn [⟨first, len, []⟩] = [] := by
  unfold publishedIn
  by_cases h : first &&& 0xf0 = msgPublish <;> simp [h]

/-- A byte of a length. -/
theorem length_sync {next : MqttState} {first : UInt8} {header : Bytes} (h : Sync r f)
    (hphase : r.phase = .length next first header) (horderly : Orderly (f.step b).packets) :
    Sync (r.step setup b) (f.step b) := by
  obtain ⟨hok, hbody, haccepted⟩ := h
  rw [hphase] at hok
  obtain ⟨hplace, hnext, hlt, hcont⟩ := hok
  have hbodyR := @step_body setup r b (by simp [hphase, Phase.role])
  have hpackets : f.packets = f.done := by
    rw [Framer.packets, hplace, List.append_nil]
  have hnextR : (r.step setup b).phase = afterLength setup next first header b := by
    rw [Reader.step, Reader.next, hphase]
  rw [hpackets] at hbody
  unfold Framer.step at horderly ⊢
  rw [hplace] at horderly ⊢
  dsimp only at horderly ⊢
  unfold afterLength at hnextR
  by_cases hhigh : b &&& 0x80 ≠ 0
  · rw [if_pos hhigh] at hnextR horderly ⊢
    by_cases hmore : (header ++ [b]).length < 4
    · rw [if_pos hmore] at hnextR horderly ⊢
      refine ⟨?_, ?_, ?_⟩
      · rw [hnextR]
        refine ⟨rfl, hnext, hmore, fun c hc => ?_⟩
        rcases List.mem_append.mp hc with hc | hc
        · exact hcont c hc
        · rw [List.mem_singleton.mp hc]
          exact hhigh
      · rw [hbodyR, hbody]
        simp [Framer.packets]
      · rw [hbodyR]
        exact haccepted
    · rw [if_neg hmore] at hnextR horderly ⊢
      refine ⟨?_, ?_, ?_⟩
      · rw [hnextR]
        trivial
      · rw [hbodyR, hbody]
        simp [Framer.packets]
      · rw [hbodyR]
        exact haccepted
  · rw [if_neg hhigh] at hnextR horderly ⊢
    have hdecode : decodeLen (header ++ [b]) = some (lengthOf (header ++ [b])) := by
      rw [decodeLen, decodeLoop_spec hcont hhigh (by omega), Nat.zero_add, Nat.one_mul]
    rw [hdecode] at hnextR
    dsimp only at hnextR
    generalize lengthOf (header ++ [b]) = len at hnextR horderly ⊢
    have horderly' : Orderly (f.done ++ [⟨first, len, []⟩]) := by
      by_cases hlen : len = 0
      · rw [if_pos hlen] at horderly
        rw [hlen]
        simpa [Framer.packets] using horderly
      · rw [if_neg hlen] at horderly
        simpa [Framer.packets] using horderly
    have hphase' := @afterHeader_ok setup f next first len hnext horderly'
    rw [← hnextR] at hphase'
    refine ⟨hphase', ?_, ?_⟩
    · rw [hbodyR, hbody]
      split_ifs
      · rw [Framer.packets, List.append_nil, publishedIn_append, publishedIn_single_nil,
          List.append_nil]
      · rw [Framer.packets, publishedIn_append, publishedIn_single_nil, List.append_nil]
    · rw [hbodyR]
      intro hne
      split_ifs
      · exact (haccepted hne).append _
      · exact haccepted hne

/-- The packet of which a body is read, with one more byte. -/
theorem body_step {p : Packet} (hplace : f.place = .body p) :
    (f.step b).packets = f.done ++ [p.add b] ∧ (f.step b).done <+: f.done ++ [p.add b] ∧
      f.done <+: (f.step b).done := by
  unfold Framer.step
  rw [hplace]
  dsimp only
  split_ifs
  · exact ⟨by rw [Framer.packets, List.append_nil], List.prefix_refl _, List.prefix_append _ _⟩
  · exact ⟨rfl, List.prefix_append _ _, List.prefix_refl _⟩

theorem Accepted.mono {ps qs : List Packet} (h : Accepted ps) (hpre : ps <+: qs) : Accepted qs := by
  obtain ⟨more, rfl⟩ := hpre
  exact h.append more

/-- A byte of a body that is not written to the client. -/
theorem other_sync {p : Packet} {phase : Phase} (hplace : f.place = .body p)
    (htype : p.first &&& 0xf0 ≠ msgPublish) (hbody : r.body = publishedIn f.packets)
    (haccepted : r.body ≠ [] → Accepted f.done) (hrole : r.phase.role ≠ some .publish)
    (hphase : (r.step setup b).phase = phase) (hok : PhaseOk (f.step b) phase) :
    Sync (r.step setup b) (f.step b) := by
  obtain ⟨hpackets, -, hdone⟩ := @body_step f b p hplace
  have hnone : ∀ q : Packet, q.first &&& 0xf0 ≠ msgPublish → publishedIn [q] = [] := by
    intro q hq
    simp [publishedIn, hq]
  refine ⟨hphase ▸ hok, ?_, ?_⟩
  · rw [step_body hrole, hbody, hpackets, Framer.packets, hplace, publishedIn_append,
      publishedIn_append, hnone p htype, hnone (p.add b) htype]
  · rw [step_body hrole]
    exact fun hne => (haccepted hne).mono hdone

/-- One byte. -/
theorem step_sync (h : Sync r f) (hrole : r.phase.role ≠ none)
    (horderly : Orderly (f.step b).packets) : Sync (r.step setup b) (f.step b) := by
  have hok := h.phase
  cases hphase : r.phase with
  | first next =>
    rw [hphase] at hok
    obtain ⟨hplace, hnext⟩ := hok
    have hstep : f.step b = ⟨f.done, .length b []⟩ := by
      rw [Framer.step, hplace]
    have hbody : r.body = publishedIn f.done := by
      have hbody := h.body
      rwa [Framer.packets, hplace, List.append_nil] at hbody
    have hbodyR := @step_body setup r b (by simp [hphase, Phase.role])
    have hphaseR : (r.step setup b).phase = .length next b [] := by
      rw [Reader.step, Reader.next, hphase]
    rw [hstep]
    refine ⟨?_, ?_, ?_⟩
    · rw [hphaseR]
      exact ⟨rfl, hnext, by decide, by rintro c ⟨⟩⟩
    · rw [hbodyR, hbody, Framer.packets, List.append_nil]
    · rw [hbodyR]
      exact h.accepted
  | length next first header => exact length_sync h hphase horderly
  | connack got =>
    rw [hphase] at hok
    obtain ⟨hnil, hlt, first, htype, hplace⟩ := hok
    have hlen : (got ++ [b]).length = got.length + 1 := by simp
    refine other_sync hplace (by rw [htype]; decide) h.body h.accepted
      (by simp [hphase, Phase.role]) rfl ?_
    rw [Reader.step, Reader.next, hphase, Framer.step, hplace]
    dsimp only
    by_cases hmore : (got ++ [b]).length < connackLen
    · rw [if_pos hmore, if_neg (by omega)]
      exact ⟨hnil, hmore, first, htype, rfl⟩
    · rw [if_neg hmore, if_pos (by omega)]
      split_ifs with hbad
      · trivial
      · -- the connection is accepted
        rw [ne_eq, not_not] at hbad
        have haccepted : Accepted (f.done ++ [Packet.add ⟨first, connackLen, got⟩ b]) := by
          rw [hnil, List.nil_append, Packet.add]
          exact ⟨first, htype, by simp [hbad]⟩
        unfold afterConnack
        split_ifs
        · split <;> trivial
        · split
          · trivial
          · exact ⟨rfl, .inr ⟨haccepted, .inl rfl⟩⟩
  | suback got =>
    rw [hphase] at hok
    obtain ⟨haccepted, hlt, first, htype, hplace⟩ := hok
    have hlen : (got ++ [b]).length = got.length + 1 := by simp
    refine other_sync hplace (by rw [htype]; decide) h.body h.accepted
      (by simp [hphase, Phase.role]) rfl ?_
    rw [Reader.step, Reader.next, hphase, Framer.step, hplace]
    dsimp only
    by_cases hmore : (got ++ [b]).length < subackLen
    · rw [if_pos hmore, if_neg (by omega)]
      exact ⟨haccepted, hmore, first, htype, rfl⟩
    · rw [if_neg hmore, if_pos (by omega)]
      split_ifs
      · trivial
      · exact ⟨rfl, .inr ⟨haccepted.append _, .inr rfl⟩⟩
  | publish left =>
    rw [hphase] at hok
    obtain ⟨haccepted, hpos, p, htype, hlen, hplace⟩ := hok
    obtain ⟨hpackets, -, hdone⟩ := @body_step f b p hplace
    have hbodyR : (r.step setup b).body = r.body ++ [b] := by
      rw [Reader.step, hphase]
      rfl
    have hpublished : ∀ q : Packet, q.first &&& 0xf0 = msgPublish → publishedIn [q] = q.body := by
      intro q hq
      simp [publishedIn, hq]
    refine ⟨?_, ?_, fun _ => haccepted.mono hdone⟩
    · rw [Reader.step, Reader.next, hphase, Framer.step, hplace]
      dsimp only
      by_cases hlast : left - 1 = 0
      · rw [if_pos hlast, if_pos (by omega)]
        exact ⟨rfl, .inr ⟨haccepted.append _, .inr rfl⟩⟩
      · rw [if_neg hlast, if_neg (by omega)]
        refine ⟨haccepted, by omega, p.add b, htype, ?_, rfl⟩
        rw [Packet.add, List.length_append, List.length_singleton]
        change p.len = _
        omega
    · rw [hbodyR, h.body, hpackets, Framer.packets, hplace, publishedIn_append, publishedIn_append,
        hpublished p htype, hpublished (p.add b) htype, List.append_assoc]
      rfl
  | ended result done =>
    rw [hphase] at hrole
    exact absurd rfl hrole

theorem ended_of_role (hrole : r.phase.role = none) :
    ∃ result done, r.phase = .ended result done := by
  cases hphase : r.phase with
  | ended result done => exact ⟨result, done, rfl⟩
  | _ =>
    rw [hphase] at hrole
    cases hrole

/-- Bytes are taken one after the other up to the end of the transfer. -/
theorem foldl_log (r : Reader) (bytes : Bytes) :
    ∃ used, used <+: bytes ∧
      (bytes.foldl (Reader.step setup) r).log.map Prod.snd = r.log.map Prod.snd ++ used := by
  induction bytes generalizing r with
  | nil => exact ⟨[], List.prefix_refl _, (List.append_nil _).symm⟩
  | cons b bytes ih =>
    cases hrole : r.phase.role with
    | none =>
      obtain ⟨result, done, hended⟩ := ended_of_role hrole
      rw [foldl_ended hended]
      exact ⟨[], List.nil_prefix, (List.append_nil _).symm⟩
    | some role =>
      obtain ⟨used, hprefix, hused⟩ := ih (r.step setup b)
      refine ⟨b :: used, List.cons_prefix_cons.mpr ⟨rfl, hprefix⟩, ?_⟩
      rw [List.foldl_cons, hused, Reader.step, hrole]
      simp

/-- All bytes that are taken, `used`, are taken for what they are. -/
theorem foldl_sync {bytes used : Bytes} (h : Sync r f)
    (hused : (bytes.foldl (Reader.step setup) r).log.map Prod.snd = r.log.map Prod.snd ++ used)
    (horderly : Orderly (used.foldl Framer.step f).packets) :
    (bytes.foldl (Reader.step setup) r).log.map (·.1.kind) =
        r.log.map (·.1.kind) ++ kindsFrom f used ∧
      Sync (bytes.foldl (Reader.step setup) r) (used.foldl Framer.step f) := by
  induction bytes generalizing r f used with
  | nil =>
    obtain rfl : used = [] := List.self_eq_append_right.mp hused
    exact ⟨(List.append_nil _).symm, h⟩
  | cons b bytes ih =>
    cases hrole : r.phase.role with
    | none =>
      obtain ⟨result, done, hended⟩ := ended_of_role hrole
      rw [foldl_ended hended] at hused ⊢
      obtain rfl : used = [] := List.self_eq_append_right.mp hused
      exact ⟨(List.append_nil _).symm, h⟩
    | some role =>
      have hlog : (r.step setup b).log = r.log ++ [(role, b)] := by
        rw [Reader.step, hrole]
        rfl
      rw [List.foldl_cons] at hused ⊢
      obtain ⟨taken, -, htaken⟩ := @foldl_log setup (r.step setup b) bytes
      obtain rfl : used = b :: taken := by
        rw [htaken, hlog, List.map_append, List.append_assoc] at hused
        exact (List.append_cancel_left hused).symm
      have hstep := @step_sync setup r f b h (by rw [hrole]; simp) (orderly_of_foldl horderly)
      obtain ⟨hkinds, hsync⟩ := ih hstep htaken horderly
      refine ⟨?_, hsync⟩
      rw [hkinds, hlog]
      simp [kindsFrom, h.phase.kind hrole]

/-! ### Transfers -/

variable {rx rx' : Incoming} {answer : Answer} {out out₀ : Outgoing}

variable (setup) in
/-- A call takes some bytes as the reader does. -/
structure Follows (rx rx' : Incoming) (answer : Answer) (used : Bytes) : Prop where
  stream : rx.stream = used ++ rx'.stream
  log : rx'.log = (used.foldl (Reader.step setup) (rx.reader setup)).log
  body : rx'.body = (used.foldl (Reader.step setup) (rx.reader setup)).body
  goes : answer.goesOn → Steady rx' ∧
    rx'.reader setup = used.foldl (Reader.step setup) (rx.reader setup) ∨ rx'.state = .subackComing

theorem Call.follows (h : Call setup rx rx' answer) : ∃ used, Follows setup rx rx' answer used := by
  cases h with
  | go used hstream hreader hsteady hshrinks hgoes =>
    exact ⟨used, hstream, congrArg Reader.log hreader, congrArg Reader.body hreader,
      fun _ => .inl ⟨hsteady, hreader⟩⟩
  | cut used hstream hlen hphase hstate hcut hlog hbody hid hshrinks hgoes =>
    have hfold := @foldl_suback setup (rx.reader setup) _ used hphase (by simpa using hlen)
    refine ⟨used, hstream, ?_, ?_, fun _ => .inr hstate⟩
    · rw [hfold, hlog]
      rfl
    · rw [hfold, hbody]
      rfl
  | stop used result done hstream hlog hbody hend hends =>
    refine ⟨used, hstream, hlog, hbody, fun hgoes => ?_⟩
    obtain ⟨hresult, hdone, hagain, hok⟩ := hends
    obtain ⟨hfalse, hr | hr⟩ := hgoes
    · rw [hdone, hok (hresult.symm.trans hr)] at hfalse
      cases hfalse
    · exact absurd (hresult.symm.trans hr) hagain

theorem mqttSend_ne_again (out : Outgoing) (buf : Bytes) : (mqttSend out buf).2 ≠ .again := by
  change (keepRest out.sendbuf buf (out.taken buf)).2 ≠ .again
  unfold keepRest
  split
  · split
    · unfold Dynbuf.tail
      split_ifs <;> exact fun h => (nomatch h)
    · unfold Dynbuf.nappend
      dsimp only
      split_ifs <;> exact fun h => (nomatch h)
  · exact fun h => (nomatch h)

/-- Whether the packets behind CONNACK can be sent makes no difference for what was read. -/
theorem connected_same (hq : Quiet out₀) :
    (connected setup out rx).1.rx.stream = (connected setup out₀ rx).1.rx.stream ∧
      (connected setup out rx).1.rx.log = (connected setup out₀ rx).1.rx.log ∧
      (connected setup out rx).1.rx.body = (connected setup out₀ rx).1.rx.body ∧
      ((connected setup out rx).2.goesOn →
        (connected setup out rx).1.rx = (connected setup out₀ rx).1.rx ∧
          (connected setup out₀ rx).2.goesOn) := by
  have hkeeps : ∀ out, (connected setup out rx).1.rx.stream = rx.stream ∧
      (connected setup out rx).1.rx.log = rx.log ∧
        (connected setup out rx).1.rx.body = rx.body := by
    intro out
    unfold connected
    split
    · split <;> exact ⟨rfl, rfl, rfl⟩
    · dsimp only
      split <;> exact ⟨rfl, rfl, rfl⟩
  obtain ⟨hstream, hlog, hbody⟩ := hkeeps out
  obtain ⟨hstream₀, hlog₀, hbody₀⟩ := hkeeps out₀
  refine ⟨hstream.trans hstream₀.symm, hlog.trans hlog₀.symm, hbody.trans hbody₀.symm, ?_⟩
  unfold connected
  by_cases hpost : setup.post = true
  · rw [if_pos hpost, if_pos hpost]
    intro hgoes
    exfalso
    cases hpublish : mqttPublish setup out with
    | mk out₁ result =>
      rw [hpublish] at hgoes
      have hne : result ≠ .again := by
        have hresult : (mqttPublish setup out).2 = result := by rw [hpublish]
        rw [← hresult, mqttPublish]
        split
        · rename_i hpacket
          exact (publishPacket_error hpacket).2
        · exact mqttSend_ne_again _ _
      cases result with
      | ok => cases hgoes.1
      | again => exact hne rfl
      | _ => rcases hgoes.2 with h | h <;> cases h
  · rw [if_neg hpost, if_neg hpost]
    dsimp only
    cases htopic : getTopic setup with
    | error e =>
      have hcode := getTopic_error htopic
      subst hcode
      have hsubscribe : ∀ packetid out, mqttSubscribe setup packetid out =
        (out, .urlMalformat) := by
        intro packetid out
        rw [mqttSubscribe, htopic]
      simp only [hsubscribe]
      exact fun hgoes => by rcases hgoes.2 with h | h <;> cases h
    | ok topic =>
      have hsubscribe : ∀ packetid out, mqttSubscribe setup packetid out =
          sendPacket out (subscribePacket packetid topic) := by
        intro packetid out
        rw [mqttSubscribe, htopic]
      simp only [hsubscribe, Except.isOk, Except.toBool, if_true]
      obtain ⟨hsent, -⟩ := sendPacket_quiet hq (subscribePacket (rx.packetid + 1) topic)
      have hne := mqttSend_ne_again { out with
        built := out.built ++ [subscribePacket (rx.packetid + 1) topic]
        offers := out.offers ++ [⟨out.sendbuf.content.length,
          (subscribePacket (rx.packetid + 1) topic).length -
            out.taken (subscribePacket (rx.packetid + 1) topic)⟩] }
        (subscribePacket (rx.packetid + 1) topic)
      change (sendPacket out (subscribePacket (rx.packetid + 1) topic)).2 ≠ .again at hne
      generalize sendPacket out₀ (subscribePacket (rx.packetid + 1) topic) = p₀ at hsent
      generalize sendPacket out (subscribePacket (rx.packetid + 1) topic) = p at hne
      obtain ⟨out₁, result⟩ := p
      obtain ⟨out₂, result₀⟩ := p₀
      cases hsent
      cases result with
      | ok => exact fun _ => ⟨rfl, rfl, .inl rfl⟩
      | again => exact absurd rfl hne
      | _ => exact fun hgoes => by rcases hgoes.2 with h | h <;> cases h

theorem doConnack_same (hq : Quiet out₀) :
    (doConnack setup out rx).1.rx.stream = (doConnack setup out₀ rx).1.rx.stream ∧
      (doConnack setup out rx).1.rx.log = (doConnack setup out₀ rx).1.rx.log ∧
      (doConnack setup out rx).1.rx.body = (doConnack setup out₀ rx).1.rx.body ∧
      ((doConnack setup out rx).2.goesOn →
        (doConnack setup out rx).1.rx = (doConnack setup out₀ rx).1.rx ∧
          (doConnack setup out₀ rx).2.goesOn) := by
  unfold doConnack
  generalize verifyConnack rx = p
  obtain ⟨rx₁, result⟩ := p
  cases result with
  | ok => exact connected_same hq
  | _ => exact ⟨rfl, rfl, rfl, fun h => ⟨rfl, h⟩⟩

theorem Follows.of_same {rx'' : Incoming} {answer' : Answer} {used : Bytes}
    (h : Follows setup rx rx' answer used) (hstream : rx''.stream = rx'.stream)
    (hlog : rx''.log = rx'.log) (hbody : rx''.body = rx'.body)
    (hgoes : answer'.goesOn → rx'' = rx' ∧ answer.goesOn) : Follows setup rx rx'' answer' used := by
  refine ⟨h.stream.trans (by rw [hstream]), hlog.trans h.log, hbody.trans h.body, fun hgo => ?_⟩
  obtain ⟨rfl, hgo⟩ := hgoes hgo
  exact h.goes hgo

/-- A connection that takes what it is given. -/
def calm : Outgoing := (setupConn [] [] [] []).out

theorem dispatch_follows {s : Session} (hsteady : Steady s.rx) :
    ∃ used, Follows setup s.rx (dispatch setup s).1.rx (dispatch setup s).2 used := by
  have hcalm : Quiet calm := ⟨rfl, rfl⟩
  obtain ⟨hcall, -⟩ := @dispatch_call setup ⟨calm, s.rx⟩ hsteady hcalm
  obtain ⟨used, hfollows⟩ := hcall.follows
  refine ⟨used, ?_⟩
  unfold dispatch at hfollows ⊢
  cases hstate : s.rx.state with
  | connack =>
    rw [hstate] at hfollows
    obtain ⟨hstream, hlog, hbody, hgoes⟩ := @doConnack_same setup s.rx s.out calm hcalm
    exact hfollows.of_same hstream hlog hbody hgoes
  | first => rw [hstate] at hfollows; exact hfollows
  | remainingLength => rw [hstate] at hfollows; exact hfollows
  | suback => rw [hstate] at hfollows; exact hfollows
  | pubwait => rw [hstate] at hfollows; exact hfollows
  | pubRemain => rw [hstate] at hfollows; exact hfollows
  | subackComing => rw [hstate] at hfollows; exact hfollows
  | nostate => rw [hstate] at hfollows; exact hfollows

/-- A call either fails before it reads anything, or it reads. -/
theorem mqttDoing_cases (s : Session) :
    ((mqttDoing setup s).1.rx = s.rx ∧ (mqttDoing setup s).2.1 ≠ .ok) ∨
      ∃ out, Dispatched setup s out := by
  unfold Dispatched mqttDoing
  generalize sendRemainder s.out = p
  obtain ⟨out₁, result₁⟩ := p
  cases result₁ with
  | ok =>
    dsimp only
    generalize mqttPing setup s.rx.state out₁ = p
    obtain ⟨out₂, result₂⟩ := p
    cases result₂ with
    | ok => exact .inr ⟨out₂, rfl⟩
    | _ => exact .inl ⟨rfl, fun h => (nomatch h)⟩
  | _ => exact .inl ⟨rfl, fun h => (nomatch h)⟩

/-- A call that fails before it reads anything. -/
theorem doingLoop_failed {n : Nat} {s : Session} (hrx : (mqttDoing setup s).1.rx = s.rx)
    (hfailed : (mqttDoing setup s).2.1 ≠ .ok) : (doingLoop setup (n + 1) s).1.rx = s.rx := by
  have hstop := @doingLoop_stop setup n s (mqttDoing setup s).1 (mqttDoing setup s).2.1
    (mqttDoing setup s).2.2 rfl fun h => absurd h hfailed
  rw [hstop]
  exact hrx

/-- Nothing is read in a state that is not handled. -/
theorem doingLoop_coming {n : Nat} {s : Session} (hstate : s.rx.state = .subackComing) :
    (doingLoop setup n s).1.rx = s.rx := by
  cases n with
  | zero => rfl
  | succ n =>
    rcases @mqttDoing_cases setup s with ⟨hrx, hfailed⟩ | ⟨out, hdoing⟩
    · exact doingLoop_failed hrx hfailed
    · rw [doingLoop_stop (hdoing.coming hstate) fun _ => rfl]

/-- Any number of calls take the bytes of the stream as the reader does. -/
theorem doingLoop_follows {n : Nat} {s : Session} (hsteady : Steady s.rx) :
    ∃ used, s.rx.stream = used ++ (doingLoop setup n s).1.rx.stream ∧
      (doingLoop setup n s).1.rx.log = (used.foldl (Reader.step setup) (s.rx.reader setup)).log ∧
      (doingLoop setup n s).1.rx.body =
        (used.foldl (Reader.step setup) (s.rx.reader setup)).body := by
  induction n generalizing s with
  | zero => exact ⟨[], rfl, rfl, rfl⟩
  | succ n ih =>
    rcases @mqttDoing_cases setup s with ⟨hrx, hfailed⟩ | ⟨out, hdoing⟩
    · rw [doingLoop_failed hrx hfailed]
      exact ⟨[], rfl, rfl, rfl⟩
    · obtain ⟨used, hfollows⟩ := @dispatch_follows setup ⟨out, s.rx⟩ hsteady
      by_cases hgoes : (dispatch setup ⟨out, s.rx⟩).2.goesOn
      · rw [doingLoop_go (hdoing.go hgoes)]
        rcases hfollows.goes hgoes with ⟨hsteady', hreader⟩ | hcoming
        · obtain ⟨used', hstream, hlog, hbody⟩ := ih hsteady'
          refine ⟨used ++ used', ?_, ?_, ?_⟩
          · rw [show s.rx.stream = used ++ _ from hfollows.stream, hstream, List.append_assoc]
          · rw [hlog, hreader, List.foldl_append]
          · rw [hbody, hreader, List.foldl_append]
        · rw [doingLoop_coming hcoming]
          exact ⟨used, hfollows.stream, hfollows.log, hfollows.body⟩
      · have hend : (if (dispatch setup ⟨out, s.rx⟩).2.result = .again then Curlcode.ok
            else (dispatch setup ⟨out, s.rx⟩).2.result) = .ok →
              (dispatch setup ⟨out, s.rx⟩).2.done = true := by
          intro hok
          by_contra hdone
          refine hgoes ⟨Bool.eq_false_iff.mpr hdone, ?_⟩
          by_cases hagain : (dispatch setup ⟨out, s.rx⟩).2.result = .again
          · exact .inr hagain
          · rw [if_neg hagain] at hok
            exact .inl hok
        rw [doingLoop_stop hdoing hend]
        exact ⟨used, hfollows.stream, hfollows.log, hfollows.body⟩

/-- What a transfer has read of a stream. -/
theorem mqttRun_follows (setup : Setup) (n : Nat) (sends clock : List Nat) (stream : Bytes)
    (recvs : List (Option Nat)) :
    ∃ used, used <+: stream ∧
      (mqttRun setup n (setupConn sends clock stream recvs)).1.rx.log =
        (used.foldl (Reader.step setup) ⟨.first .connack, 0, [], []⟩).log ∧
      (mqttRun setup n (setupConn sends clock stream recvs)).1.rx.body =
        (used.foldl (Reader.step setup) ⟨.first .connack, 0, [], []⟩).body := by
  have hrx : (mqttDo setup (setupConn sends clock stream recvs)).2 = .ok ∧
        (mqttDo setup (setupConn sends clock stream recvs)).1.rx =
          (setupConn sends clock stream recvs).rx.mqstate .first .connack ∨
      (mqttDo setup (setupConn sends clock stream recvs)).2 ≠ .ok ∧
        (mqttDo setup (setupConn sends clock stream recvs)).1.rx =
          (setupConn sends clock stream recvs).rx := by
    unfold mqttDo
    dsimp only
    cases hpacket : connectPacket setup with
    | error e =>
      refine .inr ⟨?_, rfl⟩
      rw [connectPacket_error hpacket]
      exact fun h => (nomatch h)
    | ok packet =>
      dsimp only
      generalize sendPacket ((setupConn sends clock stream recvs).out.touch.setPingsent false)
        packet = p
      obtain ⟨out, result⟩ := p
      cases result with
      | ok => exact .inl ⟨rfl, rfl⟩
      | _ => exact .inr ⟨fun h => (nomatch h), rfl⟩
  unfold mqttRun
  generalize mqttDo setup (setupConn sends clock stream recvs) = p at hrx
  obtain ⟨s, result⟩ := p
  rcases hrx with ⟨hok, hrx⟩ | ⟨hne, hrx⟩
  · cases hok
    have hrx' : s.rx = (setupConn sends clock stream recvs).rx.mqstate .first .connack := hrx
    have hsteady : Steady s.rx := by
      rw [hrx']
      exact start_steady clock stream recvs
    obtain ⟨used, hstream, hlog, hbody⟩ := @doingLoop_follows setup n s hsteady
    rw [hrx'] at hstream hlog hbody
    exact ⟨used, ⟨_, hstream.symm⟩, hlog, hbody⟩
  · have hrx' : s.rx = (setupConn sends clock stream recvs).rx := hrx
    refine ⟨[], List.nil_prefix, ?_⟩
    cases result with
    | ok => exact absurd rfl hne
    | _ =>
      dsimp only
      rw [hrx']
      exact ⟨rfl, rfl⟩

/-- As long as the first packet that is read is CONNACK and only PINGRESP and DISCONNECT packets are
empty, every byte is taken for what it is, the bodies of the PUBLISH packets are what is written to
the client, and nothing is written before the connection was accepted. -/
theorem orderly_framing (setup : Setup) (n : Nat) (sends clock : List Nat) (stream : Bytes)
    (recvs : List (Option Nat)) :
    let rx := (mqttRun setup n (setupConn sends clock stream recvs)).1.rx
    let bytes := rx.log.map Prod.snd
    bytes <+: stream ∧ (Orderly (packetsOf bytes) →
      rx.log.map (·.1.kind) = kindsFrom framer bytes ∧ rx.body = publishedIn (packetsOf bytes) ∧
        (rx.body ≠ [] → Accepted (packetsOf bytes))) := by
  obtain ⟨used, hprefix, hlog, hbody⟩ := mqttRun_follows setup n sends clock stream recvs
  have hstart : Sync ⟨.first .connack, 0, [], []⟩ framer :=
    ⟨⟨rfl, .inl ⟨rfl, rfl⟩⟩, rfl, fun h => absurd rfl h⟩
  obtain ⟨taken, htaken, hbytes⟩ := @foldl_log setup ⟨.first .connack, 0, [], []⟩ used
  dsimp only
  rw [hlog, hbody, hbytes]
  refine ⟨htaken.trans hprefix, fun horderly => ?_⟩
  obtain ⟨hkinds, hsync⟩ := foldl_sync hstart hbytes horderly
  exact ⟨hkinds, hsync.body, fun hne => (hsync.accepted hne).append _⟩

/-- What a subscription has read of a stream after some calls. -/
def subscribed (stream : Bytes) : Incoming :=
  (mqttRun subscribeSetup 30 (setupConn [] [] stream [])).1.rx

/-- A message, an answer to a ping, the end of the connection, and an empty SUBACK that is not
read. -/
def messageStream : Bytes :=
  [0x20, 2, 0, 0, 0x90, 3, 0, 1, 0, 0x30, 2, 0x68, 0x69, 0xd0, 0, 0xe0, 0, 0x90, 0]

theorem orderly_framing_message :
    let rx := subscribed messageStream
    let bytes := rx.log.map Prod.snd
    bytes.length = 17 ∧ Orderly (packetsOf bytes) ∧ rx.log.map (·.1.kind) = kindsFrom framer bytes ∧
      rx.body = publishedIn (packetsOf bytes) ∧ (rx.body ≠ [] → Accepted (packetsOf bytes)) := by
  have horderly : Orderly (packetsOf ((subscribed messageStream).log.map Prod.snd)) := by
    unfold Orderly
    decide +kernel
  have hframing := orderly_framing subscribeSetup 30 [] [] messageStream []
  exact ⟨by decide +kernel, horderly, hframing.2 horderly⟩

/-- An empty packet has the next body taken for headers, and an answer to a ping that was not sent
has a message written to the client without a CONNACK packet. -/
theorem empty_packet_confuses :
    (subscribed [0x20, 2, 0, 0, 0x90, 0, 0x30, 3, 0xd0, 0, 0x41]).log.map (·.1.kind) ≠
        kindsFrom framer
          ((subscribed [0x20, 2, 0, 0, 0x90, 0, 0x30, 3, 0xd0, 0, 0x41]).log.map Prod.snd) ∧
      (subscribed [0xd0, 0, 0x30, 2, 0x68, 0x69]).body ≠ [] ∧
      ¬Accepted (packetsOf ((subscribed [0xd0, 0, 0x30, 2, 0x68, 0x69]).log.map Prod.snd)) := by
  refine ⟨by decide +kernel, by decide +kernel, ?_⟩
  rintro ⟨first, -, hhead⟩
  have hfirst : (packetsOf ((subscribed [0xd0, 0, 0x30, 2, 0x68, 0x69]).log.map Prod.snd)).head? =
      some ⟨0xd0, 0, []⟩ := by decide +kernel
  rw [hfirst] at hhead
  cases hhead

end Gurl.Mqtt
