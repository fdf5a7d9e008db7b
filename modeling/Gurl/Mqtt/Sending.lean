import Gurl.Mqtt.Doing

/-! What is on the wire and what is still to be sent, against the packets that were built. -/

namespace Gurl.Mqtt

variable {out out' : Outgoing} {packet buf : Bytes} {result : Curlcode} {n : Nat}

/-! ### One send -/

theorem taken_le (out : Outgoing) (buf : Bytes) : out.taken buf ≤ buf.length := by
  unfold Outgoing.taken
  split
  · exact Nat.le_refl _
  · exact Nat.min_le_right _ _

/-- The limit of `sendbuf` does not change. -/
theorem keepRest_toobig (sendbuf : Dynbuf) (buf : Bytes) (n : Nat) :
    (keepRest sendbuf buf n).1.toobig = sendbuf.toobig := by
  unfold keepRest
  split
  · split
    · unfold Dynbuf.tail
      split_ifs <;> rfl
    · unfold Dynbuf.nappend
      dsimp only
      split_ifs <;> rfl
  · rfl

/-- What is kept of a new packet when nothing was kept before. -/
theorem keepRest_new {sendbuf : Dynbuf} (hempty : sendbuf.content.length = 0)
    (hfits : buf.length - n < sendbuf.toobig) :
    (keepRest sendbuf buf n).1.content = buf.drop n := by
  unfold keepRest
  by_cases hall : buf.length ≠ n
  · rw [if_pos hall, if_neg (not_not_intro hempty)]
    have hnil : sendbuf.content = [] := List.length_eq_zero_iff.mp hempty
    have hfit : (buf.drop n).length + sendbuf.content.length + 1 ≤ sendbuf.toobig := by
      rw [List.length_drop]
      omega
    rw [(Dynbuf.nappend_ok hfit).2.1, hnil, List.nil_append]
  · rw [if_neg hall, Dynbuf.content_reset]
    rw [ne_eq, not_not] at hall
    rw [← hall, List.drop_length]

/-- Where something was kept before, or where too much is left, bytes are missing. -/
theorem keepRest_lossy {sendbuf : Dynbuf} (hle : n ≤ buf.length) (hne : buf ≠ [])
    (hbad : sendbuf.content.length ≠ 0 ∨ sendbuf.toobig ≤ buf.length - n)
    (hpos : 0 < sendbuf.toobig) :
    n + (keepRest sendbuf buf n).1.content.length < sendbuf.content.length + buf.length := by
  have hlen : 0 < buf.length := List.length_pos_iff.mpr hne
  unfold keepRest
  by_cases hall : buf.length ≠ n
  · rw [if_pos hall]
    by_cases hpending : sendbuf.content.length ≠ 0
    · rw [if_pos hpending]
      by_cases htrail : buf.length - n ≤ sendbuf.content.length
      · rw [(Dynbuf.tail_spec sendbuf htrail).2.1, List.length_drop]
        omega
      · rw [Dynbuf.tail, if_pos (by omega)]
        dsimp only
        omega
    · rw [if_neg hpending]
      rw [ne_eq, not_not] at hpending
      have hfit : (buf.drop n).length + sendbuf.content.length + 1 > sendbuf.toobig := by
        rw [List.length_drop]
        omega
      rw [Dynbuf.nappend_error hfit]
      simp only [Dynbuf.content_free, List.length_nil]
      omega
  · rw [if_neg hall, Dynbuf.content_reset]
    rw [ne_eq, not_not] at hall
    rcases hbad with hbad | hbad
    · simp only [List.length_nil]
      omega
    · omega

/-- The rest of an earlier packet goes on where it was. -/
theorem keepRest_again (sendbuf : Dynbuf) (hle : n ≤ sendbuf.content.length)
    (hne : sendbuf.content.length ≠ 0) :
    (keepRest sendbuf sendbuf.content n).1.content = sendbuf.content.drop n := by
  unfold keepRest
  by_cases hall : sendbuf.content.length ≠ n
  · have htail := Dynbuf.tail_spec sendbuf (Nat.sub_le sendbuf.content.length n)
    rw [if_pos hall, if_pos hne, htail.2.1]
    congr 1
    omega
  · rw [if_neg hall, Dynbuf.content_reset]
    rw [ne_eq, not_not] at hall
    rw [← hall, List.drop_length]

/-! ### The ledger -/

/-- The packet was offered to an empty `sendbuf`, which can hold what is left of it. -/
def Offer.clean (o : Offer) : Bool := o.pending == 0 && decide (o.unsent < dynMqttSend)

/-- The bytes on the wire and the ones in `sendbuf` are the packets as they were built. -/
def InOrder (out : Outgoing) : Prop := out.wire ++ out.sendbuf.content = out.built.flatten

/-- Bytes of the packets are missing. -/
def Missing (out : Outgoing) : Prop :=
  out.wire.length + out.sendbuf.content.length < out.built.flatten.length

/-- What holds between two calls: bytes are missing as soon as a packet was not offered cleanly. -/
structure Ledger (out : Outgoing) : Prop where
  toobig : out.sendbuf.toobig = dynMqttSend
  clean : out.offers.all Offer.clean = true → InOrder out
  lossy : out.offers.all Offer.clean = false → Missing out

theorem Missing.not_inOrder (h : Missing out) : ¬InOrder out := by
  intro horder
  have hlen := congrArg List.length horder
  rw [List.length_append] at hlen
  exact absurd hlen (Nat.ne_of_lt h)

theorem Ledger.inOrder_iff (h : Ledger out) : InOrder out ↔ out.offers.all Offer.clean = true := by
  constructor
  · intro horder
    by_contra hlossy
    exact (h.lossy (Bool.eq_false_iff.mpr hlossy)).not_inOrder horder
  · exact h.clean

/-- The fields that the ledger is about are the same. -/
def SameLedger (out out' : Outgoing) : Prop :=
  out'.sendbuf = out.sendbuf ∧ out'.wire = out.wire ∧ out'.built = out.built ∧
    out'.offers = out.offers

theorem Ledger.of_same (h : Ledger out) (hsame : SameLedger out out') : Ledger out' := by
  obtain ⟨hsendbuf, hwire, hbuilt, hoffers⟩ := hsame
  constructor
  · rw [hsendbuf, h.toobig]
  · rw [hoffers, InOrder, hsendbuf, hwire, hbuilt]
    exact h.clean
  · rw [hoffers, Missing, hsendbuf, hwire, hbuilt]
    exact h.lossy

theorem mqttSend_fields (out : Outgoing) (buf : Bytes) :
    (mqttSend out buf).1.sendbuf = (keepRest out.sendbuf buf (out.taken buf)).1 ∧
      (mqttSend out buf).1.wire = out.wire ++ buf.take (out.taken buf) ∧
      (mqttSend out buf).1.built = out.built ∧ (mqttSend out buf).1.offers = out.offers :=
  ⟨rfl, rfl, rfl, rfl⟩

theorem sendRemainder_ledger (h : Ledger out) : Ledger (sendRemainder out).1 := by
  unfold sendRemainder
  by_cases hpending : out.sendbuf.content.length ≠ 0
  · rw [if_pos hpending]
    have hle := taken_le out out.sendbuf.content
    obtain ⟨hsendbuf, hwire, hbuilt, hoffers⟩ := mqttSend_fields out out.sendbuf.content
    have hcontent := keepRest_again out.sendbuf hle hpending
    constructor
    · rw [hsendbuf, keepRest_toobig, h.toobig]
    · rw [hoffers, InOrder, hsendbuf, hwire, hbuilt, hcontent, List.append_assoc,
        List.take_append_drop]
      exact h.clean
    · rw [hoffers, Missing, hsendbuf, hwire, hbuilt, hcontent, List.length_append,
        List.length_take_of_le hle, List.length_drop]
      intro hlossy
      have hmissing := h.lossy hlossy
      unfold Missing at hmissing
      omega
  · rw [if_neg hpending]
    exact h

theorem sendPacket_ledger (h : Ledger out) (hne : packet ≠ []) :
    Ledger (sendPacket out packet).1 := by
  have hle := taken_le out packet
  have hpos : 0 < out.sendbuf.toobig := by
    rw [h.toobig]
    decide
  constructor
  · exact (keepRest_toobig _ _ _).trans h.toobig
  · intro hall
    change (out.offers ++ [_]).all Offer.clean = true at hall
    rw [List.all_append, Bool.and_eq_true] at hall
    obtain ⟨hbefore, hnow⟩ := hall
    have hnow : out.sendbuf.content.length = 0 ∧
        packet.length - out.taken packet < dynMqttSend := by
      simpa [Offer.clean] using hnow
    have horder := h.clean hbefore
    have hnil : out.sendbuf.content = [] := List.length_eq_zero_iff.mp hnow.1
    rw [InOrder, hnil, List.append_nil] at horder
    have hcontent := keepRest_new hnow.1 (by rw [h.toobig]; exact hnow.2)
    change (out.wire ++ packet.take (out.taken packet)) ++
      (keepRest out.sendbuf packet (out.taken packet)).1.content = (out.built ++ [packet]).flatten
    rw [hcontent, List.append_assoc, List.take_append_drop, List.flatten_append, horder]
    simp
  · intro hlossy
    change (out.offers ++ [_]).all Offer.clean = false at hlossy
    rw [List.all_append, Bool.and_eq_false_iff] at hlossy
    change (out.wire ++ packet.take (out.taken packet)).length +
      (keepRest out.sendbuf packet (out.taken packet)).1.content.length <
        (out.built ++ [packet]).flatten.length
    rw [List.length_append, List.length_take_of_le hle, List.flatten_append, List.length_append]
    rw [show [packet].flatten.length = packet.length by simp]
    have hbefore : out.wire.length + out.sendbuf.content.length ≤ out.built.flatten.length ∧
        (out.offers.all Offer.clean = false →
          out.wire.length + out.sendbuf.content.length < out.built.flatten.length) := by
      refine ⟨?_, fun hfalse => h.lossy hfalse⟩
      by_cases hclean : out.offers.all Offer.clean = true
      · have hlen := congrArg List.length (h.clean hclean)
        rw [List.length_append] at hlen
        omega
      · exact Nat.le_of_lt (h.lossy (Bool.eq_false_iff.mpr hclean))
    by_cases hclean : out.sendbuf.content.length = 0 ∧
        packet.length - out.taken packet < dynMqttSend
    · -- the loss is an old one
      have hold : out.offers.all Offer.clean = false := by
        rcases hlossy with hold | hnow
        · exact hold
        · exact absurd hnow (by simp [Offer.clean, hclean])
      have hcontent := keepRest_new hclean.1 (by rw [h.toobig]; exact hclean.2)
      rw [hcontent, List.length_drop]
      have := hbefore.2 hold
      omega
    · have hloss := @keepRest_lossy _ _ out.sendbuf hle hne (by rw [h.toobig]; omega) hpos
      omega

/-! ### Whole runs -/

theorem publishPacket_ne_nil {setup : Setup} (h : publishPacket setup = .ok packet) :
    packet ≠ [] := by
  unfold publishPacket at h
  split at h
  · cases h
  · split at h
    · cases h
    · dsimp only at h
      split at h
      · cases h
      · cases h
        simp

theorem connectPacket_ne_nil {setup : Setup} (h : connectPacket setup = .ok packet) :
    packet ≠ [] := by
  unfold connectPacket at h
  dsimp only at h
  split_ifs at h
  all_goals
    cases h
    simp

theorem mqttPing_ledger (setup : Setup) (state : MqttState) (h : Ledger out) :
    Ledger (mqttPing setup state out).1 := by
  have hnow : Ledger out.now := h.of_same ⟨rfl, rfl, rfl, rfl⟩
  unfold mqttPing
  split
  · split
    · have hsent := sendPacket_ledger hnow (show pingPacket ≠ [] by decide)
      dsimp only
      split
      · exact hsent.of_same ⟨rfl, rfl, rfl, rfl⟩
      · exact hsent
    · exact hnow
  · exact h

theorem mqttPublish_ledger (setup : Setup) (h : Ledger out) : Ledger (mqttPublish setup out).1 := by
  unfold mqttPublish
  split
  · exact h
  · rename_i hpacket
    exact sendPacket_ledger h (publishPacket_ne_nil hpacket)

theorem mqttSubscribe_ledger (setup : Setup) (packetid : Nat) (h : Ledger out) :
    Ledger (mqttSubscribe setup packetid out).1 := by
  unfold mqttSubscribe
  split
  · exact h
  · exact sendPacket_ledger h (by simp [subscribePacket])

theorem connected_ledger (setup : Setup) (rx : Incoming) (h : Ledger out) :
    Ledger (connected setup out rx).1.out := by
  unfold connected
  split
  · have hpublish := mqttPublish_ledger setup h
    split
    · rename_i heq
      rw [heq] at hpublish
      exact sendPacket_ledger hpublish (by decide)
    · rename_i heq
      rw [heq] at hpublish
      exact hpublish
  · dsimp only
    generalize (if (getTopic setup).isOk then rx.packetid + 1 else rx.packetid) = packetid
    have hsubscribe := mqttSubscribe_ledger setup packetid h
    split
    · rename_i heq
      rw [heq] at hsubscribe
      exact hsubscribe
    · rename_i heq
      rw [heq] at hsubscribe
      exact hsubscribe

theorem answered_ledger (answer : Answer) (h : Ledger out) : Ledger (out.answered answer) := by
  refine h.of_same ?_
  unfold Outgoing.answered
  dsimp only
  split_ifs
  all_goals exact ⟨rfl, rfl, rfl, rfl⟩

theorem dispatch_ledger (setup : Setup) {s : Session} (h : Ledger s.out) :
    Ledger (dispatch setup s).1.out := by
  unfold dispatch
  cases s.rx.state with
  | connack =>
    dsimp only
    unfold doConnack
    split
    · exact connected_ledger setup _ h
    · exact h
  | subackComing => exact h
  | nostate => exact h
  | first => exact answered_ledger _ h
  | remainingLength => exact answered_ledger _ h
  | suback => exact answered_ledger _ h
  | pubwait => exact answered_ledger _ h
  | pubRemain => exact answered_ledger _ h

theorem mqttDoing_ledger (setup : Setup) {s : Session} (h : Ledger s.out) :
    Ledger (mqttDoing setup s).1.out := by
  have hrest := sendRemainder_ledger h
  unfold mqttDoing
  split
  · rename_i out₁ heq
    rw [heq] at hrest
    have hping := mqttPing_ledger setup s.rx.state hrest
    split
    · rename_i out₂ heq'
      rw [heq'] at hping
      exact dispatch_ledger setup hping
    · rename_i out₂ _ _ heq'
      rw [heq'] at hping
      exact hping
  · rename_i heq
    rw [heq] at hrest
    exact hrest

theorem doingLoop_ledger (setup : Setup) (n : Nat) {s : Session} (h : Ledger s.out) :
    Ledger (doingLoop setup n s).1.out := by
  induction n generalizing s with
  | zero => exact h
  | succ n ih =>
    have hstep := mqttDoing_ledger setup h
    unfold doingLoop
    split
    · rename_i s₁ heq
      rw [heq] at hstep
      exact ih hstep
    · rename_i heq
      rw [heq] at hstep
      exact hstep

theorem mqttDo_ledger (setup : Setup) {s : Session} (h : Ledger s.out) :
    Ledger (mqttDo setup s).1.out := by
  have hstart : Ledger (s.out.touch.setPingsent false) := h.of_same ⟨rfl, rfl, rfl, rfl⟩
  unfold mqttDo
  dsimp only
  split
  · exact hstart
  · rename_i packet hpacket
    have hsent := sendPacket_ledger hstart (connectPacket_ne_nil hpacket)
    split
    · rename_i heq
      rw [heq] at hsent
      exact hsent
    · rename_i heq
      rw [heq] at hsent
      exact hsent

/-- After any number of calls, the wire and `sendbuf` hold the packets as they were built if and
only if each of them was offered to an empty `sendbuf` that can hold what is left of it. -/
theorem sent_in_order_iff (setup : Setup) (n : Nat) (sends clock : List Nat) (stream : Bytes)
    (recvs : List (Option Nat)) :
    InOrder (mqttRun setup n (setupConn sends clock stream recvs)).1.out ↔
      ∀ o ∈ (mqttRun setup n (setupConn sends clock stream recvs)).1.out.offers,
        o.pending = 0 ∧ o.unsent < dynMqttSend := by
  have hstart : Ledger (setupConn sends clock stream recvs).out :=
    ⟨rfl, fun _ => rfl, fun h => (nomatch h)⟩
  have hdo := mqttDo_ledger setup hstart
  have hrun : Ledger (mqttRun setup n (setupConn sends clock stream recvs)).1.out := by
    unfold mqttRun
    split
    · rename_i s heq
      rw [heq] at hdo
      exact doingLoop_ledger setup n hdo
    · rename_i heq
      rw [heq] at hdo
      exact hdo
  rw [hrun.inOrder_iff, List.all_eq_true]
  simp [Offer.clean]

/-- A message that is published: the connection takes three bytes of the PUBLISH packet, and
DISCONNECT overtakes the others. -/
def publishSetup : Setup where
  user := []
  passwd := []
  random := [0x30, 0x31, 0x32, 0x33, 0x34, 0x35, 0x36, 0x37]
  topic := some [0x74]
  post := true
  postfields := some [0x68, 0x69]
  maxFilesize := 0
  upkeepIntervalMs := 0

theorem disconnect_overtakes :
    ¬InOrder (mqttRun publishSetup 3 (setupConn [100, 3] [] [0x20, 2, 0, 0] [])).1.out := by
  unfold InOrder
  decide +kernel

end Gurl.Mqtt
