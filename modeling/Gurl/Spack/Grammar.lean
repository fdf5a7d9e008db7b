import Gurl.Spack.Spack

/-! What a packed session is: a version, then fields in any order, the later over the earlier. -/

namespace Gurl.Spack

open BigEndian

/-- Bytes whose number fits into 16 bits. -/
abbrev Data16 := { d : Bytes // d.length ≤ UINT16_MAX }

/-- The number of the bytes, then the bytes. -/
def Data16.encode (d : Data16) : Bytes := bytes 2 d.val.length ++ d.val

/-- A field: its tag and what stands behind it. -/
inductive Field where
  | ietfId (val : UInt16)
  | validUntil (val : UInt64)
  | ticket (d : Data16)
  | alpn (d : Data16)
  | earlydata (val : UInt32)
  | quicTp (d : Data16)
  | sectrust

namespace Field

def encode : Field → Bytes
  | ietfId val => CURL_SPACK_IETF_ID :: bytes 2 val.toNat
  | validUntil val => CURL_SPACK_VALID_UNTIL :: bytes 8 val.toNat
  | ticket d => CURL_SPACK_TICKET :: d.encode
  | alpn d => CURL_SPACK_ALPN :: d.encode
  | earlydata val => CURL_SPACK_EARLYDATA :: bytes 4 val.toNat
  | quicTp d => CURL_SPACK_QUICTP :: d.encode
  | sectrust => [CURL_SPACK_SECTRUST]

/-- What a field says of the session. -/
def apply (s : SslSession) : Field → SslSession
  | ietfId val => { s with ietfTlsId := val.toUInt32.toInt32 }
  | validUntil val => { s with validUntil := val.toInt64 }
  | ticket d => { s with sdata := some d.val }
  | alpn d => { s with alpn := some (.ofBytes d.val) }
  | earlydata val => { s with earlydataMax := val.toUInt64 }
  | quicTp d => { s with quicTp := some d.val }
  | sectrust => { s with sectrustVerified := true }

end Field

/-- The bytes of these fields. -/
def encoding (fields : List Field) : Bytes :=
  CURL_SPACK_VERSION :: fields.flatMap Field.encode

/-- The session that these fields describe. -/
def sessionOf (fields : List Field) : SslSession := fields.foldl Field.apply {}

theorem decdata16_iff {src rest d : Bytes} :
    spackDecdata16 src = .ok (d, rest) ↔
      ∃ h : d.length ≤ UINT16_MAX, src = Data16.encode ⟨d, h⟩ ++ rest := by
  constructor
  · intro h
    unfold spackDecdata16 at h
    split at h
    · cases h
    · rename_i len src' hlen
      rw [reads16.iff] at hlen
      split at h
      · cases h
      · rename_i henough
        cases h
        have hbound := len.toNat_lt
        have htake : (src'.take len.toNat).length = len.toNat :=
          List.length_take_of_le (Nat.not_lt.mp henough)
        refine ⟨by rw [htake, UINT16_MAX]; omega, ?_⟩
        rw [hlen, Data16.encode]
        simp only [htake, List.append_assoc, List.take_append_drop]
  · rintro ⟨h, hsrc⟩
    have hval : (UInt16.ofNat d.length).toNat = d.length := by
      rw [UInt16.toNat_ofNat']
      apply Nat.mod_eq_of_lt
      rw [UINT16_MAX] at h
      omega
    have hlen : spackDec16 src = .ok (UInt16.ofNat d.length, d ++ rest) := by
      rw [reads16.iff, hsrc, hval, Data16.encode, List.append_assoc]
    unfold spackDecdata16
    rw [hlen]
    simp only [hval, List.length_append]
    rw [if_neg (by omega), List.take_left, List.drop_left]

theorem decstr16_iff {src rest : Bytes} {s : CStr} :
    spackDecstr16 src = .ok (s, rest) ↔
      ∃ d : Data16, s = .ofBytes d.val ∧ src = d.encode ++ rest := by
  unfold spackDecstr16
  constructor
  · intro h
    split at h
    · cases h
    · rename_i val src' hdata
      cases h
      obtain ⟨hlen, hsrc⟩ := decdata16_iff.mp hdata
      exact ⟨⟨val, hlen⟩, rfl, hsrc⟩
  · rintro ⟨d, rfl, hsrc⟩
    have hdata : spackDecdata16 src = .ok (d.val, rest) := decdata16_iff.mpr ⟨d.2, hsrc⟩
    rw [hdata]

theorem into_iff {α : Type} {dec : Dec α} {set : α → SslSession} {s' : SslSession}
    {buf rest : Bytes} :
    dec.into set buf = .ok (s', rest) ↔ ∃ v, dec buf = .ok (v, rest) ∧ s' = set v := by
  unfold Dec.into
  cases dec buf with
  | error result =>
    refine ⟨nofun, ?_⟩
    rintro ⟨v, hv, -⟩
    cases hv
  | ok r =>
    refine ⟨fun h => ?_, ?_⟩
    · cases h
      exact ⟨r.1, rfl, rfl⟩
    · rintro ⟨v, hv, rfl⟩
      cases hv
      rfl

/-- What a turn of the loop takes is one field. -/
theorem unpackField_iff {s s' : SslSession} {val8 : UInt8} {buf rest : Bytes} :
    unpackField s val8 buf = .ok (s', rest) ↔
      ∃ f : Field, val8 :: buf = f.encode ++ rest ∧ s' = f.apply s := by
  constructor
  · intro h
    unfold unpackField at h
    split at h
    · obtain ⟨v, hdec, rfl⟩ := into_iff.mp h
      obtain ⟨d, rfl, hbuf⟩ := decstr16_iff.mp hdec
      exact ⟨.alpn d, by rw [hbuf]; rfl, rfl⟩
    · obtain ⟨v, hdec, rfl⟩ := into_iff.mp h
      exact ⟨.earlydata v, by rw [reads32.iff.mp hdec]; rfl, rfl⟩
    · obtain ⟨v, hdec, rfl⟩ := into_iff.mp h
      exact ⟨.ietfId v, by rw [reads16.iff.mp hdec]; rfl, rfl⟩
    · obtain ⟨v, hdec, rfl⟩ := into_iff.mp h
      obtain ⟨hlen, hbuf⟩ := decdata16_iff.mp hdec
      exact ⟨.quicTp ⟨v, hlen⟩, by rw [hbuf]; rfl, rfl⟩
    · obtain ⟨v, hdec, rfl⟩ := into_iff.mp h
      obtain ⟨hlen, hbuf⟩ := decdata16_iff.mp hdec
      exact ⟨.ticket ⟨v, hlen⟩, by rw [hbuf]; rfl, rfl⟩
    · obtain ⟨v, hdec, rfl⟩ := into_iff.mp h
      exact ⟨.validUntil v, by rw [reads64.iff.mp hdec]; rfl, rfl⟩
    · cases h
      exact ⟨.sectrust, rfl, rfl⟩
    · cases h
  · rintro ⟨f, hbuf, rfl⟩
    cases f with
    | ietfId val =>
      cases hbuf
      have hget : unpackField s CURL_SPACK_IETF_ID =
          spackDec16.into fun val16 => { s with ietfTlsId := val16.toUInt32.toInt32 } := rfl
      rw [hget, into_iff]
      exact ⟨val, reads16.iff.mpr rfl, rfl⟩
    | validUntil val =>
      cases hbuf
      have hget : unpackField s CURL_SPACK_VALID_UNTIL =
          spackDec64.into fun val64 => { s with validUntil := val64.toInt64 } := rfl
      rw [hget, into_iff]
      exact ⟨val, reads64.iff.mpr rfl, rfl⟩
    | ticket d =>
      cases hbuf
      exact into_iff.mpr ⟨d.val, decdata16_iff.mpr ⟨d.2, rfl⟩, rfl⟩
    | alpn d =>
      cases hbuf
      exact into_iff.mpr ⟨.ofBytes d.val, decstr16_iff.mpr ⟨d, rfl, rfl⟩, rfl⟩
    | earlydata val =>
      cases hbuf
      have hget : unpackField s CURL_SPACK_EARLYDATA =
          spackDec32.into fun val32 => { s with earlydataMax := val32.toUInt64 } := rfl
      rw [hget, into_iff]
      exact ⟨val, reads32.iff.mpr rfl, rfl⟩
    | quicTp d =>
      cases hbuf
      exact into_iff.mpr ⟨d.val, decdata16_iff.mpr ⟨d.2, rfl⟩, rfl⟩
    | sectrust =>
      cases hbuf
      rfl

theorem encode_ne_nil (f : Field) : f.encode ≠ [] := by
  cases f <;> exact List.cons_ne_nil _ _

/-- The loop ends well on a sequence of fields, and only there. -/
theorem unpackLoop_iff {fuel : Nat} {s s' : SslSession} {buf : Bytes}
    (hfuel : buf.length ≤ fuel) :
    unpackLoop fuel s buf = some (.ok s') ↔
      ∃ fields : List Field, buf = fields.flatMap Field.encode ∧
        s' = fields.foldl Field.apply s := by
  induction fuel generalizing s buf with
  | zero =>
    obtain rfl : buf = [] := List.eq_nil_of_length_eq_zero (Nat.le_zero.mp hfuel)
    constructor
    · intro h
      cases h
      exact ⟨[], rfl, rfl⟩
    · rintro ⟨fields, hbuf, rfl⟩
      cases fields with
      | nil => rfl
      | cons f fields =>
        exact absurd (List.append_eq_nil_iff.mp hbuf.symm).1 (encode_ne_nil f)
  | succ fuel ih =>
    cases buf with
    | nil =>
      constructor
      · intro h
        cases h
        exact ⟨[], rfl, rfl⟩
      · rintro ⟨fields, hbuf, rfl⟩
        cases fields with
        | nil => rfl
        | cons f fields =>
          exact absurd (List.append_eq_nil_iff.mp hbuf.symm).1 (encode_ne_nil f)
    | cons val8 buf =>
      rw [unpackLoop]
      constructor
      · intro h
        cases hfield : unpackField s val8 buf with
        | error result =>
          rw [hfield] at h
          cases h
        | ok r =>
          obtain ⟨s1, rest⟩ := r
          rw [hfield] at h
          obtain ⟨f, hbuf, rfl⟩ := unpackField_iff.mp hfield
          have hlen := congrArg List.length hbuf
          have hpos := List.length_pos_of_ne_nil (encode_ne_nil f)
          rw [List.length_append] at hlen
          obtain ⟨fields, hrest, rfl⟩ := (ih (by omega)).mp h
          exact ⟨f :: fields, by rw [hbuf, hrest]; rfl, rfl⟩
      · rintro ⟨fields, hbuf, rfl⟩
        cases fields with
        | nil => cases hbuf
        | cons f fields =>
          rw [List.flatMap_cons] at hbuf
          have hlen := congrArg List.length hbuf
          have hpos := List.length_pos_of_ne_nil (encode_ne_nil f)
          rw [List.length_append] at hlen
          rw [unpackField_iff.mpr ⟨f, hbuf, rfl⟩]
          exact (ih (by omega)).mpr ⟨fields, rfl, rfl⟩

/-- What is accepted is a version and fields, and the session is what they say. -/
theorem unpack_iff {buf : Bytes} {s : SslSession} :
    sslSessionUnpack buf = some (.ok s) ↔ ∃ fields, buf = encoding fields ∧
      s = sessionOf fields := by
  unfold sslSessionUnpack encoding sessionOf
  cases buf with
  | nil =>
    refine ⟨nofun, ?_⟩
    rintro ⟨fields, hbuf, -⟩
    cases hbuf
  | cons val8 buf =>
    simp only [spackDec8]
    by_cases hversion : val8 = CURL_SPACK_VERSION
    · rw [if_neg (not_not_intro hversion), unpackLoop_iff (Nat.le_refl _), hversion]
      simp only [List.cons.injEq, true_and]
    · rw [if_pos hversion]
      refine ⟨nofun, ?_⟩
      rintro ⟨fields, hbuf, -⟩
      cases hbuf
      exact absurd rfl hversion

/-! What `Curl_ssl_session_pack` writes, as fields. -/

/-- After writing `bs` to the end of `buf`: all of them are there, or there was no room. -/
def Put (buf : Dynbuf) (bs : Bytes) (r : Enc) : Prop :=
  (bs.length + buf.content.length < buf.toobig →
    r.2 = .ok ∧ r.1.content = buf.content ++ bs ∧ r.1.toobig = buf.toobig) ∧
  (¬ bs.length + buf.content.length < buf.toobig → r.2 = .tooLarge)

theorem nappend_put (buf : Dynbuf) (bs : Bytes) : Put buf bs (buf.nappend bs true) :=
  ⟨fun h => Dynbuf.nappend_ok h,
    fun h => by rw [Dynbuf.nappend_error (by omega)]⟩

theorem Put.next {buf : Dynbuf} {bs cs : Bytes} {r : Enc} {f : Dynbuf → Enc}
    (hr : Put buf bs r) (hf : ∀ buf, Put buf cs (f buf)) : Put buf (bs ++ cs) (r.next f) := by
  unfold Enc.next
  rw [Put, List.length_append]
  by_cases hfits : bs.length + buf.content.length < buf.toobig
  · obtain ⟨hok, hcontent, htoobig⟩ := hr.1 hfits
    obtain ⟨hroom, hfull⟩ := hf r.1
    rw [if_pos hok]
    rw [hcontent, htoobig, List.length_append] at hroom hfull
    refine ⟨fun h => ?_, fun h => hfull (by omega)⟩
    obtain ⟨hok', hcontent', htoobig'⟩ := hroom (by omega)
    exact ⟨hok', by rw [hcontent', List.append_assoc], htoobig'⟩
  · have hlarge := hr.2 hfits
    rw [if_neg (by rw [hlarge]; decide)]
    exact ⟨fun h => absurd h (by omega), fun _ => hlarge⟩

theorem enc8_put (b : UInt8) (buf : Dynbuf) : Put buf [b] (spackEnc8 buf b) := nappend_put buf [b]

/-- At most as many bytes as the format counts. -/
def Data16.cut (d : Bytes) : Data16 := ⟨d.take UINT16_MAX, List.length_take_le _ _⟩

theorem cut_of_le {d : Bytes} (h : d.length ≤ UINT16_MAX) : (Data16.cut d).val = d :=
  List.take_of_length_le h

theorem encdata16_put {d : Bytes} (h : d.length ≤ UINT16_MAX) (buf : Dynbuf) :
    Put buf (Data16.cut d).encode (spackEncdata16 buf d) := by
  have hlen : (UInt16.ofNat d.length).toNat = d.length := by
    rw [UInt16.toNat_ofNat']
    apply Nat.mod_eq_of_lt
    rw [UINT16_MAX] at h
    omega
  rw [spackEncdata16, if_neg (Nat.not_lt.mpr h), enc16_eq, hlen, Data16.encode, cut_of_le h]
  exact (nappend_put buf _).next fun buf => nappend_put buf d

/-- The sessions that the format is made for. -/
structure Packable (s : SslSession) : Prop where
  validUntil : 0 ≤ s.validUntil
  sdata : ∃ d, s.sdata = some d ∧ d.length ≤ UINT16_MAX
  ietfTlsId : 0 ≤ s.ietfTlsId ∧ s.ietfTlsId ≤ 65535
  alpn : ∀ a, s.alpn = some a → a.val.length ≤ UINT16_MAX
  earlydataMax : s.earlydataMax ≤ UINT32_MAX
  quicTp : ∀ q, s.quicTp = some q → q ≠ [] ∧ q.length ≤ UINT16_MAX

def alpnFields (s : SslSession) : List Field :=
  match s.alpn with
  | some alpn => [.alpn (.cut alpn.val)]
  | none => []

def earlydataFields (s : SslSession) : List Field :=
  if s.earlydataMax ≠ 0 then [.earlydata s.earlydataMax.toUInt32] else []

def sectrustFields (s : SslSession) : List Field :=
  if s.sectrustVerified then [.sectrust] else []

def quicTpFields (s : SslSession) : List Field :=
  match s.quicTp with
  | some (b :: quicTp) => [.quicTp (.cut (b :: quicTp))]
  | _ => []

/-- The fields of a session in the order in which they are packed. -/
def fieldsOf (s : SslSession) : List Field :=
  [.ticket (.cut (s.sdata.getD [])), .ietfId s.ietfTlsId.toUInt32.toUInt16,
    .validUntil s.validUntil.toUInt64] ++ alpnFields s ++ earlydataFields s ++ sectrustFields s ++
    quicTpFields s

theorem alpn_put {s : SslSession} (h : Packable s) {buf : Dynbuf} {bs : Bytes} {r : Enc}
    (hr : Put buf bs r) :
    Put buf (bs ++ (alpnFields s).flatMap Field.encode) (match s.alpn with
      | some alpn => (r.next (spackEnc8 · CURL_SPACK_ALPN)).next (spackEncstr16 · alpn)
      | none => r) := by
  unfold alpnFields
  cases hs : s.alpn with
  | none => rwa [List.flatMap_nil, List.append_nil]
  | some alpn =>
    have hput := (hr.next (enc8_put CURL_SPACK_ALPN)).next (encdata16_put (h.alpn alpn hs))
    rw [List.append_assoc] at hput
    rw [List.flatMap_singleton]
    exact hput

theorem earlydata_put {s : SslSession} (h : Packable s) {buf : Dynbuf} {bs : Bytes} {r : Enc}
    (hr : Put buf bs r) :
    Put buf (bs ++ (earlydataFields s).flatMap Field.encode) (if s.earlydataMax ≠ 0 then
        r.next fun buf =>
          if s.earlydataMax > UINT32_MAX then (buf, .badFunctionArgument)
          else (spackEnc8 buf CURL_SPACK_EARLYDATA).next (spackEnc32 · s.earlydataMax.toUInt32)
      else r) := by
  unfold earlydataFields
  split
  · rw [List.flatMap_singleton]
    apply hr.next
    intro buf
    rw [if_neg (UInt64.not_lt.mpr h.earlydataMax)]
    apply (enc8_put CURL_SPACK_EARLYDATA buf).next
    intro buf
    rw [enc32_eq]
    exact nappend_put buf _
  · rwa [List.flatMap_nil, List.append_nil]

theorem sectrust_put (s : SslSession) {buf : Dynbuf} {bs : Bytes} {r : Enc}
    (hr : Put buf bs r) :
    Put buf (bs ++ (sectrustFields s).flatMap Field.encode)
      (if s.sectrustVerified then r.next (spackEnc8 · CURL_SPACK_SECTRUST) else r) := by
  unfold sectrustFields
  split
  · exact hr.next (enc8_put CURL_SPACK_SECTRUST)
  · rwa [List.flatMap_nil, List.append_nil]

theorem quicTp_put {s : SslSession} (h : Packable s) {buf : Dynbuf} {bs : Bytes} {r : Enc}
    (hr : Put buf bs r) :
    Put buf (bs ++ (quicTpFields s).flatMap Field.encode) (match s.quicTp with
      | some (b :: quicTp) =>
        (r.next (spackEnc8 · CURL_SPACK_QUICTP)).next (spackEncdata16 · (b :: quicTp))
      | _ => r) := by
  unfold quicTpFields
  split
  · rename_i b quicTp hs
    have hput := (hr.next (enc8_put CURL_SPACK_QUICTP)).next (encdata16_put (h.quicTp _ hs).2)
    rw [List.append_assoc] at hput
    rw [List.flatMap_singleton]
    exact hput
  · rwa [List.flatMap_nil, List.append_nil]

/-- A session for which there is a field for everything is written as its fields. -/
theorem pack_put {s : SslSession} (h : Packable s) (buf : Dynbuf) :
    Put buf (encoding (fieldsOf s)) (sslSessionPack s buf) := by
  obtain ⟨d, hd, hdlen⟩ := h.sdata
  have hdata : (s.sdata.getD []).length ≤ UINT16_MAX := by rw [hd]; exact hdlen
  have henc16 : ∀ buf, Put buf (bytes 2 s.ietfTlsId.toUInt32.toUInt16.toNat)
      (spackEnc16 buf s.ietfTlsId.toUInt32.toUInt16) := fun buf => by
    rw [enc16_eq]
    exact nappend_put buf _
  have henc64 : ∀ buf, Put buf (bytes 8 s.validUntil.toUInt64.toNat)
      (spackEnc64 buf s.validUntil.toUInt64) := fun buf => by
    rw [enc64_eq]
    exact nappend_put buf _
  have hversion := enc8_put CURL_SPACK_VERSION buf
  have hticket := (hversion.next (enc8_put CURL_SPACK_TICKET)).next (encdata16_put hdata)
  have hietf := (hticket.next (enc8_put CURL_SPACK_IETF_ID)).next henc16
  have huntil := (hietf.next (enc8_put CURL_SPACK_VALID_UNTIL)).next henc64
  have hall := quicTp_put h (sectrust_put s (earlydata_put h (alpn_put h huntil)))
  rw [sslSessionPack, if_neg (Int64.not_lt.mpr h.validUntil)]
  have hbytes : encoding (fieldsOf s) = [CURL_SPACK_VERSION] ++ [CURL_SPACK_TICKET] ++
      (Data16.cut (s.sdata.getD [])).encode ++ [CURL_SPACK_IETF_ID] ++
      bytes 2 s.ietfTlsId.toUInt32.toUInt16.toNat ++ [CURL_SPACK_VALID_UNTIL] ++
      bytes 8 s.validUntil.toUInt64.toNat ++ (alpnFields s).flatMap Field.encode ++
      (earlydataFields s).flatMap Field.encode ++ (sectrustFields s).flatMap Field.encode ++
      (quicTpFields s).flatMap Field.encode := by
    simp only [encoding, fieldsOf, List.flatMap_append, List.flatMap_cons, Field.encode,
      List.append_assoc, List.cons_append, List.nil_append]
  rw [hbytes]
  exact hall

end Gurl.Spack
