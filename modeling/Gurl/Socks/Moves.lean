import Gurl.Socks.Socks

/-! What `socks_flush` and `socks_recv` do, as parts of a dialogue. However the next filter answers,
what is left to send or to receive comes to the same. -/

namespace Gurl.Socks

open Dialogue

/-- How the handshake ends. -/
inductive Outcome where
  | success
  | failed (code : Proxycode)

/-- The next filter never blocks where it could move a byte, as long as it has answers. -/
def Wire.Generous (w : Wire) : Prop := ∀ t ∈ w.turns, ∃ k, t = .upTo k

/-- A generous filter pays for every answer with a byte. -/
def Wire.potential (w : Wire) : Nat :=
  w.turns.length + w.line.sent.length + w.line.taken.length

/-- The way from `w` to `w'` has used up no more answers than it has moved bytes. -/
def Spent (w w' : Wire) : Prop := w.Generous → w'.Generous ∧ w.potential ≤ w'.potential

theorem Spent.refl (w : Wire) : Spent w w := fun h => ⟨h, Nat.le_refl _⟩

theorem Spent.trans {w₁ w₂ w₃ : Wire} (h : Spent w₁ w₂) (h' : Spent w₂ w₃) : Spent w₁ w₃ := by
  intro hg
  obtain ⟨hg2, hle⟩ := h hg
  obtain ⟨hg3, hle'⟩ := h' hg2
  exact ⟨hg3, hle.trans hle'⟩

/-- A generous filter blocks only when it has no answer left, or when nothing more will come. -/
def Stuck (w w' : Wire) : Prop :=
  w.Generous → w'.turns = [] ∧ w.potential ≤ w'.potential ∨
    w'.line.incoming = [] ∧ w'.line.ending = .silence

theorem Spent.stuck {w₁ w₂ w₃ : Wire} (h : Spent w₁ w₂) (h' : Stuck w₂ w₃) : Stuck w₁ w₃ := by
  intro hg
  obtain ⟨hg2, hle⟩ := h hg
  rcases h' hg2 with ⟨hturns, hle'⟩ | hsilent
  · exact .inl ⟨hturns, hle.trans hle'⟩
  · exact .inr hsilent

/-! ### Single calls of the next filter -/

/-- The filter without its first answer. -/
def Wire.rest (w : Wire) : Wire := { w with turns := w.turns.tail }

@[simp] theorem Wire.rest_line (w : Wire) : w.rest.line = w.line := rfl

theorem Wire.Generous.rest {w : Wire} (h : w.Generous) : w.rest.Generous :=
  fun t ht => h t (List.mem_of_mem_tail ht)

/-- A generous filter answers with bytes, or not at all. -/
theorem Wire.turn_cases (w : Wire) :
    (∃ k, w.turn = (.upTo k, w.rest) ∧ w.turns.length = w.rest.turns.length + 1) ∨
    ((w.turn = (.again, w.rest) ∨ w.turn = (.zero, w.rest)) ∧
      (w.Generous → w.turns = [])) := by
  obtain ⟨line, turns⟩ := w
  cases turns with
  | nil => exact .inr ⟨.inl rfl, fun _ => rfl⟩
  | cons t turns =>
    cases t with
    | upTo k => exact .inl ⟨k, rfl, rfl⟩
    | again =>
      refine .inr ⟨.inl rfl, fun h => ?_⟩
      obtain ⟨k, hk⟩ := h .again (List.mem_cons_self ..)
      cases hk
    | zero =>
      refine .inr ⟨.inr rfl, fun h => ?_⟩
      obtain ⟨k, hk⟩ := h .zero (List.mem_cons_self ..)
      cases hk

/-- A generous filter has no answer left. -/
def Idle (w w' : Wire) : Prop := Spent w w' ∧ (w.Generous → w'.turns = [])

theorem Idle.stuck {w w' : Wire} (h : Idle w w') : Stuck w w' :=
  fun hg => .inl ⟨h.2 hg, (h.1 hg).2⟩

theorem Idle.rest {w : Wire} (h : w.Generous → w.turns = []) : Idle w w.rest := by
  refine ⟨fun hg => ⟨hg.rest, ?_⟩, fun hg => congrArg List.tail (h hg)⟩
  simp [Wire.potential, Wire.rest, h hg]

/-- What is left of `out` on `w'` comes to the same as `out` on `w`. -/
def SameSend (w : Wire) (out : Bytes) (w' : Wire) (out' : Bytes) : Prop :=
  ∀ (lost : Outcome) (next : Script UInt8 Outcome),
    (Script.send out lost next).play w.line = (Script.send out' lost next).play w'.line

theorem SameSend.trans {w₁ w₂ w₃ : Wire} {a b c : Bytes} (h : SameSend w₁ a w₂ b)
    (h' : SameSend w₂ b w₃ c) : SameSend w₁ a w₃ c :=
  fun lost next => (h lost next).trans (h' lost next)

/-- `Curl_conn_cf_send` blocks, fails for good, or sends some bytes. -/
inductive SendAnswer (w : Wire) (buf : Bytes) : Wire × Curlcode × Nat → Prop
  | blocked {w' : Wire} {result : Curlcode} : result = .again ∨ result = .ok →
      SameSend w buf w' buf → Idle w w' →
      SendAnswer w buf (w', result, 0)
  | failed {w' : Wire} : SameSend w buf w' buf → w'.line.accepts = some 0 →
      SendAnswer w buf (w', .sendError, 0)
  | sent {w' : Wire} {n : Nat} : 0 < n → n ≤ buf.length → SameSend w buf w' (buf.drop n) →
      Spent w w' → SendAnswer w buf (w', .ok, n)

theorem connCfSend_spec (w : Wire) {buf : Bytes} (hbuf : buf ≠ []) :
    SendAnswer w buf (connCfSend w buf) := by
  have hlen : 0 < buf.length := List.length_pos_iff.mpr hbuf
  unfold connCfSend
  rcases w.turn_cases with ⟨k, hturn, hcount⟩ | ⟨hturn | hturn, hg⟩
  · rw [hturn]
    have hroom := w.line.room_le buf.length
    dsimp only
    split <;> rename_i hzero
    · rw [Wire.rest_line] at hzero
      refine .failed (fun _ _ => rfl) ?_
      exact Line.accepts_of_room_zero hlen (by omega : w.line.room buf.length = 0)
    · simp only [Wire.rest_line] at hzero ⊢
      generalize hn : min (k + 1) (w.line.room buf.length) = n at hzero ⊢
      refine .sent (Nat.pos_of_ne_zero hzero) (by omega) ?_ ?_
      · exact fun lost next => (play_send_part next (by omega)).symm
      · intro hgen
        refine ⟨hgen.rest, ?_⟩
        simp only [Wire.potential, Line.give, List.length_append, List.length_take]
        omega
  · rw [hturn]
    exact .blocked (.inl rfl) (fun _ _ => rfl) (.rest hg)
  · rw [hturn]
    exact .blocked (.inr rfl) (fun _ _ => rfl) (.rest hg)

/-- What is left to receive on `w'` comes to the same. -/
def SameRecv (count : Nat) (w : Wire) (got : Bytes) (w' : Wire) (got' : Bytes) : Prop :=
  ∀ (lost : Outcome) (next : Bytes → Script UInt8 Outcome),
    (Script.recv got count lost next).play w.line = (Script.recv got' count lost next).play w'.line

theorem SameRecv.trans {count : Nat} {w₁ w₂ w₃ : Wire} {a b c : Bytes}
    (h : SameRecv count w₁ a w₂ b) (h' : SameRecv count w₂ b w₃ c) : SameRecv count w₁ a w₃ c :=
  fun lost next => (h lost next).trans (h' lost next)

/-- `Curl_conn_cf_recv` blocks, fails for good, or receives some of the bytes that are missing. -/
inductive RecvAnswer (count : Nat) (w : Wire) (got : Bytes) :
    Wire × Curlcode × Bytes → Prop
  | blocked {w' : Wire} : SameRecv count w got w' got → Stuck w w' →
    RecvAnswer count w got (w', .again, [])
  | failed {w' : Wire} {result : Curlcode} : result = .ok ∨ result = .recvError →
      SameRecv count w got w' got → w'.line.incoming = [] → w'.line.ending ≠ .silence →
      RecvAnswer count w got (w', result, [])
  | received {w' : Wire} {bytes : Bytes} : bytes ≠ [] → bytes.length ≤ count - got.length →
      SameRecv count w got w' (got ++ bytes) → Spent w w' → RecvAnswer count w got (w', .ok, bytes)

theorem connCfRecv_spec {count : Nat} (w : Wire) {got : Bytes} (hneed : got.length < count) :
    RecvAnswer count w got (connCfRecv w (count - got.length)) := by
  unfold connCfRecv
  rcases w.turn_cases with ⟨k, hturn, hcount⟩ | ⟨hturn | hturn, hg⟩
  · rw [hturn]
    dsimp only
    split <;> rename_i hempty
    · rw [Wire.rest_line] at hempty ⊢
      cases hending : w.line.ending with
      | silence => exact .blocked (fun _ _ => rfl) fun _ => .inr ⟨hempty, hending⟩
      | closed => exact .failed (.inl rfl) (fun _ _ => rfl) hempty (by simp [hending])
      | broken => exact .failed (.inr rfl) (fun _ _ => rfl) hempty (by simp [hending])
    · simp only [Wire.rest_line] at hempty ⊢
      have hpos : 0 < w.line.incoming.length := List.length_pos_iff.mpr hempty
      generalize hn : min (k + 1) (count - got.length) = n
      have hlen : (w.line.incoming.take n).length = min n w.line.incoming.length :=
        List.length_take
      refine .received (List.length_pos_iff.mp (by omega)) (by omega) ?_ ?_
      · exact fun lost next => (w.line.play_recv_upTo next (by omega)).symm
      · intro hgen
        refine ⟨hgen.rest, ?_⟩
        simp only [Wire.potential, Line.take, List.length_append]
        omega
  · rw [hturn]
    exact .blocked (fun _ _ => rfl) (Idle.rest hg).stuck
  · rw [hturn]
    exact .blocked (fun _ _ => rfl) (Idle.rest hg).stuck

/-! ### Flushing -/

/-- What `Curl_bufq_pass` leaves of `out`, when `nwritten` bytes were sent before. -/
inductive PassAnswer (w : Wire) (out : Bytes) (nwritten : Nat) :
    Wire × Bytes × Curlcode → Prop
  | passed {w' : Wire} {out' : Bytes} : out'.length ≤ out.length →
      (nwritten = 0 → out ≠ [] → out'.length < out.length) → SameSend w out w' out' → Spent w w' →
      PassAnswer w out nwritten (w', out', .ok)
  | blocked {w' : Wire} : nwritten = 0 → SameSend w out w' out → out ≠ [] → Idle w w' →
      PassAnswer w out nwritten (w', out, .again)
  | failed {w' : Wire} {out' : Bytes} : SameSend w out w' out' → out' ≠ [] →
      w'.line.accepts = some 0 → PassAnswer w out nwritten (w', out', .sendError)

theorem bufqPass_spec {fuel : Nat} (w : Wire) {out : Bytes} (nwritten : Nat)
    (hfuel : out.length < fuel) :
    ∃ answer, bufqPass fuel w out nwritten = some answer ∧ PassAnswer w out nwritten answer := by
  induction fuel generalizing w out nwritten with
  | zero => omega
  | succ fuel ih =>
    rw [bufqPass]
    by_cases hout : out = []
    · rw [if_pos hout]
      exact ⟨_, rfl, .passed (Nat.le_refl _) (fun _ hne => absurd hout hne) (fun _ _ => rfl)
        (.refl w)⟩
    rw [if_neg hout]
    have hanswer := connCfSend_spec w hout
    generalize connCfSend w out = answer at hanswer ⊢
    cases hanswer with
    | @blocked w' result hresult hsame hidle =>
      -- behind bytes that were sent this is a success
      have hblocked : PassAnswer w out nwritten
        (w', out, if nwritten = 0 then .again else .ok) := by
        split
        · exact .blocked ‹_› hsame hout hidle
        · exact .passed (Nat.le_refl _) (fun hzero => absurd hzero ‹_›) hsame hidle.1
      refine ⟨_, ?_, hblocked⟩
      rcases hresult with rfl | rfl
      · by_cases hzero : nwritten = 0 <;> simp [hzero]
      · rfl
    | failed hsame haccepts => exact ⟨_, rfl, .failed hsame hout haccepts⟩
    | @sent w' n hpos hle hsame hspent =>
      have hlen : (out.drop n).length < out.length := by
        rw [List.length_drop]
        omega
      obtain ⟨answer, hpass, hanswer⟩ :=
        ih w' (nwritten + n) (hlen.trans_le (Nat.le_of_lt_succ hfuel))
      refine ⟨answer, ?_, ?_⟩
      · dsimp only
        rw [if_neg (by omega), hpass]
      · cases hanswer with
        | passed hle' _ hsame' hspent' =>
          exact .passed (by omega) (fun _ _ => by omega) (hsame.trans hsame') (hspent.trans hspent')
        | blocked hzero => omega
        | failed hsame' hne haccepts => exact .failed (hsame.trans hsame') hne haccepts

/-- What `socks_flush` comes to. -/
inductive Flushed (sx : SocksCtx) (w : Wire) : SocksCtx × Wire × Proxycode × Bool → Prop
  | done {w' : Wire} : SameSend w sx.iobuf w' [] → Spent w w' →
      Flushed sx w ({ sx with iobuf := [] }, w', .ok, true)
  | blocked {w' : Wire} {iobuf : Bytes} : SameSend w sx.iobuf w' iobuf → iobuf ≠ [] →
      Idle w w' → Flushed sx w ({ sx with iobuf }, w', .ok, false)
  | failed {w' : Wire} {iobuf : Bytes} : SameSend w sx.iobuf w' iobuf → iobuf ≠ [] →
      w'.line.accepts = some 0 →
      Flushed sx w (socksFailed { sx with iobuf } .sendConnect, w', .sendConnect, false)

theorem flushLoop_spec {fuel : Nat} (sx : SocksCtx) (w : Wire) (hfuel : sx.iobuf.length < fuel) :
    ∃ answer, flushLoop fuel sx w = some answer ∧ Flushed sx w answer := by
  induction fuel generalizing sx w with
  | zero => omega
  | succ fuel ih =>
    rw [flushLoop]
    by_cases hempty : sx.iobuf = []
    · rw [if_pos hempty]
      have hsx : { sx with iobuf := [] } = sx := by rw [← hempty]
      refine ⟨_, rfl, ?_⟩
      have hdone : Flushed sx w ({ sx with iobuf := [] }, w, .ok, true) :=
        .done (by rw [hempty]; exact fun _ _ => rfl) (.refl w)
      rwa [hsx] at hdone
    rw [if_neg hempty]
    obtain ⟨answer, hpass, hanswer⟩ :=
      bufqPass_spec w 0 (Nat.lt_succ_self sx.iobuf.length)
    rw [cfSendBufq, hpass]
    simp only [Option.bind_eq_bind, Option.bind_some]
    cases hanswer with
    | blocked _ hsame hne hidle => exact ⟨_, rfl, .blocked hsame hne hidle⟩
    | failed hsame hne haccepts => exact ⟨_, rfl, .failed hsame hne haccepts⟩
    | @passed w' out' _ hless hsame hspent =>
      have hlen := hless rfl hempty
      obtain ⟨answer, hloop, hanswer⟩ :=
        ih { sx with iobuf := out' } w' (hlen.trans_le (Nat.le_of_lt_succ hfuel))
      refine ⟨answer, hloop, ?_⟩
      cases hanswer with
      | done hsame' hspent' => exact .done (hsame.trans hsame') (hspent.trans hspent')
      | blocked hsame' hne hidle =>
        refine .blocked (hsame.trans hsame') hne ⟨hspent.trans hidle.1, fun hg => ?_⟩
        exact hidle.2 (hspent hg).1
      | failed hsame' hne haccepts => exact .failed (hsame.trans hsame') hne haccepts

theorem socksFlush_spec (sx : SocksCtx) (w : Wire) :
    ∃ answer, socksFlush sx w = some answer ∧ Flushed sx w answer :=
  flushLoop_spec sx w (Nat.lt_succ_self _)

/-! ### Receiving -/

/-- What `socks_recv` comes to. -/
inductive Received (count : Nat) (sx : SocksCtx) (w : Wire) :
    SocksCtx × Wire × Proxycode × Bool → Prop
  | done {w' : Wire} {iobuf : Bytes} : SameRecv count w sx.iobuf w' iobuf →
      count ≤ iobuf.length → sx.iobuf <+: iobuf → Spent w w' →
      Received count sx w ({ sx with iobuf }, w', .ok, true)
  | blocked {w' : Wire} {iobuf : Bytes} : SameRecv count w sx.iobuf w' iobuf →
      iobuf.length < count → sx.iobuf <+: iobuf → Stuck w w' →
      Received count sx w ({ sx with iobuf }, w', .ok, false)
  | failed {w' : Wire} {iobuf : Bytes} : SameRecv count w sx.iobuf w' iobuf →
      iobuf.length < count → w'.line.incoming = [] → w'.line.ending ≠ .silence →
      Received count sx w ({ sx with iobuf }, w', .recvConnect, false)

theorem recvLoop_spec {count fuel : Nat} (sx : SocksCtx) (w : Wire)
    (hfuel : count - sx.iobuf.length < fuel) :
    ∃ answer, recvLoop count fuel sx w = some answer ∧ Received count sx w answer := by
  induction fuel generalizing sx w with
  | zero => omega
  | succ fuel ih =>
    rw [recvLoop]
    by_cases hneed : sx.iobuf.length < count
    · rw [if_pos hneed]
      have hanswer := connCfRecv_spec w hneed
      generalize connCfRecv w (count - sx.iobuf.length) = answer at hanswer ⊢
      cases hanswer with
      | blocked hsame hstuck =>
        exact ⟨_, rfl, .blocked hsame hneed (List.prefix_refl _) hstuck⟩
      | failed hresult hsame hempty hending =>
        refine ⟨_, ?_, .failed hsame hneed hempty hending⟩
        rcases hresult with rfl | rfl <;> rfl
      | @received w' bytes hne hle hsame hspent =>
        have hpos := List.length_pos_iff.mpr hne
        obtain ⟨answer, hloop, hanswer⟩ := ih { sx with iobuf := sx.iobuf ++ bytes } w' (by
          simp only [List.length_append]
          omega)
        refine ⟨answer, ?_, ?_⟩
        · dsimp only
          rw [if_neg hne, hloop]
        have hpre := List.prefix_append sx.iobuf bytes
        cases hanswer with
        | done hsame' hcount hmore hspent' =>
          exact .done (hsame.trans hsame') hcount (hpre.trans hmore) (hspent.trans hspent')
        | blocked hsame' hcount hmore hstuck =>
          exact .blocked (hsame.trans hsame') hcount (hpre.trans hmore) (hspent.stuck hstuck)
        | failed hsame' hcount hempty hending =>
          exact .failed (hsame.trans hsame') hcount hempty hending
    · rw [if_neg hneed]
      exact ⟨_, rfl, .done (fun _ _ => rfl) (Nat.le_of_not_lt hneed) (List.prefix_refl _) (.refl w)⟩

theorem socksRecv_spec (count : Nat) (sx : SocksCtx) (w : Wire) :
    ∃ answer, socksRecv sx w count = some answer ∧ Received count sx w answer :=
  recvLoop_spec sx w (Nat.lt_succ_of_le (Nat.sub_le _ _))

end Gurl.Socks
