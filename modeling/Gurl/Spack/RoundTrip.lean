import Gurl.Spack.Grammar

/-! Packing and unpacking again, in both orders. -/

namespace Gurl.Spack

/-- The number of bytes of the packed session. -/
def packedLength (s : SslSession) : Nat :=
  16 + (s.sdata.getD []).length + (s.alpn.elim 0 fun a => 3 + a.val.length) +
    (if s.earlydataMax ≠ 0 then 5 else 0) + (if s.sectrustVerified then 1 else 0) +
    (s.quicTp.elim 0 fun q => if q = [] then 0 else 3 + q.length)

/-- The limit of the buffer leaves room for the packed session. -/
def HasRoom (s : SslSession) (buf : Dynbuf) : Prop :=
  packedLength s + buf.content.length < buf.toobig

instance (s : SslSession) (buf : Dynbuf) : Decidable (HasRoom s buf) :=
  inferInstanceAs (Decidable (_ < _))

/-- Packing succeeds, and what it adds to the buffer is unpacked to the same session. -/
def ComesBack (s : SslSession) (buf : Dynbuf) : Prop :=
  ∃ packed, (sslSessionPack s buf).2 = .ok ∧
    (sslSessionPack s buf).1.content = buf.content ++ packed ∧
    sslSessionUnpack packed = some (.ok s)

def Field.validUntil? : Field → Option UInt64
  | validUntil val => some val
  | _ => none

def Field.ticket? : Field → Option Data16
  | ticket d => some d
  | _ => none

def Field.quicTp? : Field → Option Data16
  | quicTp d => some d
  | _ => none

/-- The last of the fields of one kind, the one that counts. -/
def lastOf {α : Type} (get : Field → Option α) (fields : List Field) : Option α :=
  fields.reverse.findSome? get

/-- There is a ticket, the expiry time fits a signed number, transport parameters are not empty. -/
def Sound (fields : List Field) : Prop :=
  (lastOf Field.ticket? fields).isSome ∧
  (∀ val, lastOf Field.validUntil? fields = some val → val.toNat < 2 ^ 63) ∧
  ∀ d, lastOf Field.quicTp? fields = some d → d.val ≠ []

theorem lastOf_concat {α : Type} (get : Field → Option α) (fields : List Field) (f : Field) :
    lastOf get (fields ++ [f]) = (get f).or (lastOf get fields) := by
  unfold lastOf
  rw [List.reverse_concat, List.findSome?_cons]
  cases get f <;> rfl

theorem sessionOf_concat (fields : List Field) (f : Field) :
    sessionOf (fields ++ [f]) = f.apply (sessionOf fields) := by
  unfold sessionOf
  rw [List.foldl_append]
  rfl

theorem sdata_sessionOf (fields : List Field) :
    (sessionOf fields).sdata = (lastOf Field.ticket? fields).map Subtype.val := by
  induction fields using List.reverseRecOn with
  | nil => rfl
  | append_singleton fields f ih =>
    rw [sessionOf_concat, lastOf_concat]
    cases f with
    | ticket d => rfl
    | _ => exact ih

theorem quicTp_sessionOf (fields : List Field) :
    (sessionOf fields).quicTp = (lastOf Field.quicTp? fields).map Subtype.val := by
  induction fields using List.reverseRecOn with
  | nil => rfl
  | append_singleton fields f ih =>
    rw [sessionOf_concat, lastOf_concat]
    cases f with
    | quicTp d => rfl
    | _ => exact ih

theorem validUntil_sessionOf (fields : List Field) :
    (sessionOf fields).validUntil = (lastOf Field.validUntil? fields).elim 0 UInt64.toInt64 := by
  induction fields using List.reverseRecOn with
  | nil => rfl
  | append_singleton fields f ih =>
    rw [sessionOf_concat, lastOf_concat]
    cases f with
    | validUntil val => rfl
    | _ => exact ih

theorem toInt_toInt64 (val : UInt64) : val.toInt64.toInt =
    if 2 * val.toNat < 2 ^ 64 then (val.toNat : Int) else val.toNat - (2 ^ 64 : Nat) :=
  BitVec.toInt_eq_toNat_cond val.toBitVec

theorem toInt_toInt32 (val : UInt32) : val.toInt32.toInt =
    if 2 * val.toNat < 2 ^ 32 then (val.toNat : Int) else val.toNat - (2 ^ 32 : Nat) :=
  BitVec.toInt_eq_toNat_cond val.toBitVec

theorem toInt64_nonneg (val : UInt64) : 0 ≤ val.toInt64 ↔ val.toNat < 2 ^ 63 := by
  have hval := val.toNat_lt
  rw [Int64.le_iff_toInt_le, toInt_toInt64]
  change (0 : Int) ≤ _ ↔ _
  split <;> omega

theorem ietfTlsId_bounds (val : UInt16) :
    0 ≤ val.toUInt32.toInt32 ∧ val.toUInt32.toInt32 ≤ 65535 := by
  have hval := val.toNat_lt
  rw [Int32.le_iff_toInt_le, Int32.le_iff_toInt_le, toInt_toInt32, UInt16.toNat_toUInt32,
    if_pos (by omega)]
  change (0 : Int) ≤ _ ∧ _ ≤ (65535 : Int)
  omega

/-- The identifiers that the casts to 16 bits and back leave alone. -/
theorem ietfTlsId_back {id : Int32} (h : 0 ≤ id ∧ id ≤ 65535) :
    id.toUInt32.toUInt16.toUInt32.toInt32 = id := by
  apply Int32.toInt_inj.mp
  rw [Int32.le_iff_toInt_le, Int32.le_iff_toInt_le] at h
  change (0 : Int) ≤ _ ∧ _ ≤ (65535 : Int) at h
  have hid := toInt_toInt32 id.toUInt32
  rw [show id.toUInt32.toInt32 = id from rfl] at hid
  rw [toInt_toInt32, UInt16.toNat_toUInt32, UInt32.toNat_toUInt16]
  split at hid <;> split <;> omega

theorem earlydataMax_bound (val : UInt32) : val.toUInt64 ≤ UINT32_MAX := by
  have hval := val.toNat_lt
  rw [UInt64.le_iff_toNat_le, UInt32.toNat_toUInt64]
  change _ ≤ 4294967295
  omega

theorem earlydataMax_back {n : UInt64} (h : n ≤ UINT32_MAX) : n.toUInt32.toUInt64 = n := by
  apply UInt64.toNat_inj.mp
  rw [UInt64.le_iff_toNat_le] at h
  rw [UInt32.toNat_toUInt64, UInt64.toNat_toUInt32]
  exact Nat.mod_eq_of_lt (Nat.lt_succ_of_le h)

theorem ofBytes_val (a : CStr) : CStr.ofBytes a.val = a := by
  apply Subtype.ext
  apply List.takeWhile_eq_self_iff.mpr
  intro b hb
  apply bne_iff_ne.mpr
  rintro rfl
  exact a.2 hb

/-- What every unpacked session keeps to. -/
structure Bounded (s : SslSession) : Prop where
  ietfTlsId : 0 ≤ s.ietfTlsId ∧ s.ietfTlsId ≤ 65535
  alpn : ∀ a, s.alpn = some a → a.val.length ≤ UINT16_MAX
  earlydataMax : s.earlydataMax ≤ UINT32_MAX

theorem bounded_apply {s : SslSession} (h : Bounded s) (f : Field) : Bounded (f.apply s) := by
  cases f with
  | ietfId val => exact ⟨ietfTlsId_bounds val, h.alpn, h.earlydataMax⟩
  | alpn d =>
    refine ⟨h.ietfTlsId, ?_, h.earlydataMax⟩
    intro a ha
    cases ha
    exact Nat.le_trans (List.takeWhile_prefix _).length_le d.2
  | earlydata val => exact ⟨h.ietfTlsId, h.alpn, earlydataMax_bound val⟩
  | validUntil val => exact ⟨h.ietfTlsId, h.alpn, h.earlydataMax⟩
  | ticket d => exact ⟨h.ietfTlsId, h.alpn, h.earlydataMax⟩
  | quicTp d => exact ⟨h.ietfTlsId, h.alpn, h.earlydataMax⟩
  | sectrust => exact ⟨h.ietfTlsId, h.alpn, h.earlydataMax⟩

theorem bounded_sessionOf (fields : List Field) : Bounded (sessionOf fields) := by
  induction fields using List.reverseRecOn with
  | nil => exact ⟨by decide, nofun, by decide⟩
  | append_singleton fields f ih =>
    rw [sessionOf_concat]
    exact bounded_apply ih f

/-- The session that fields describe can be packed if they are sound, and only then. -/
theorem packable_iff (fields : List Field) : Packable (sessionOf fields) ↔ Sound fields := by
  constructor
  · intro h
    obtain ⟨d, hd, -⟩ := h.sdata
    rw [sdata_sessionOf] at hd
    refine ⟨?_, ?_, ?_⟩
    · obtain ⟨t, ht, -⟩ := Option.map_eq_some_iff.mp hd
      rw [ht]
      rfl
    · intro val hval
      have huntil := h.validUntil
      rw [validUntil_sessionOf, hval] at huntil
      exact (toInt64_nonneg val).mp huntil
    · intro q hq
      apply (h.quicTp q.val _).1
      rw [quicTp_sessionOf, hq]
      rfl
  · rintro ⟨hticket, huntil, hquic⟩
    have hbounded := bounded_sessionOf fields
    refine ⟨?_, ?_, hbounded.ietfTlsId, hbounded.alpn, hbounded.earlydataMax, ?_⟩
    · rw [validUntil_sessionOf]
      cases hval : lastOf Field.validUntil? fields with
      | none => decide
      | some val => exact (toInt64_nonneg val).mpr (huntil val hval)
    · obtain ⟨t, ht⟩ := Option.isSome_iff_exists.mp hticket
      refine ⟨t.val, ?_, t.2⟩
      rw [sdata_sessionOf, ht]
      rfl
    · intro q hq
      rw [quicTp_sessionOf] at hq
      obtain ⟨d, hd, rfl⟩ := Option.map_eq_some_iff.mp hq
      exact ⟨hquic d hd, d.2⟩

theorem foldl_alpnFields {s s0 : SslSession} (h : Packable s) (h0 : s0.alpn = none) :
    (alpnFields s).foldl Field.apply s0 = { s0 with alpn := s.alpn } := by
  unfold alpnFields
  cases hs : s.alpn with
  | none =>
    cases s0
    cases h0
    rfl
  | some a =>
    dsimp only
    rw [List.foldl_cons, List.foldl_nil, Field.apply, cut_of_le (h.alpn a hs), ofBytes_val]

theorem foldl_earlydataFields {s s0 : SslSession} (h : Packable s) (h0 : s0.earlydataMax = 0) :
    (earlydataFields s).foldl Field.apply s0 = { s0 with earlydataMax := s.earlydataMax } := by
  unfold earlydataFields
  split
  · rw [List.foldl_cons, List.foldl_nil, Field.apply, earlydataMax_back h.earlydataMax]
  · rename_i hzero
    rw [not_not.mp hzero, ← h0]
    rfl

theorem foldl_sectrustFields {s s0 : SslSession} (h0 : s0.sectrustVerified = false) :
    (sectrustFields s).foldl Field.apply s0 =
      { s0 with sectrustVerified := s.sectrustVerified } := by
  unfold sectrustFields
  cases s.sectrustVerified with
  | true => rfl
  | false =>
    cases s0
    cases h0
    rfl

theorem foldl_quicTpFields {s s0 : SslSession} (h : Packable s) (h0 : s0.quicTp = none) :
    (quicTpFields s).foldl Field.apply s0 = { s0 with quicTp := s.quicTp } := by
  unfold quicTpFields
  cases hs : s.quicTp with
  | none =>
    cases s0
    cases h0
    rfl
  | some q =>
    obtain ⟨hne, hlen⟩ := h.quicTp q hs
    cases q with
    | nil => exact absurd rfl hne
    | cons b q =>
      dsimp only
      rw [List.foldl_cons, List.foldl_nil, Field.apply, cut_of_le hlen]

/-- The fields of a session say all of it. -/
theorem sessionOf_fieldsOf {s : SslSession} (h : Packable s) : sessionOf (fieldsOf s) = s := by
  obtain ⟨d, hd, hlen⟩ := h.sdata
  rw [sessionOf, fieldsOf, List.foldl_append, List.foldl_append, List.foldl_append,
    List.foldl_append, foldl_alpnFields h rfl, foldl_earlydataFields h rfl,
    foldl_sectrustFields rfl, foldl_quicTpFields h rfl]
  simp only [List.foldl_cons, List.foldl_nil, Field.apply, UInt64.toInt64, hd, Option.getD_some,
    cut_of_le hlen, ietfTlsId_back h.ietfTlsId]
  rw [← hd]

theorem length_cut_encode {d : Bytes} (h : d.length ≤ UINT16_MAX) :
    (Data16.cut d).encode.length = 2 + d.length := by
  rw [Data16.encode, cut_of_le h, List.length_append, BigEndian.length_bytes]

theorem length_encoding_fieldsOf {s : SslSession} (h : Packable s) :
    (encoding (fieldsOf s)).length = packedLength s := by
  obtain ⟨d, hd, hlen⟩ := h.sdata
  have halpn : ((alpnFields s).flatMap Field.encode).length =
      s.alpn.elim 0 fun a => 3 + a.val.length := by
    unfold alpnFields
    cases hs : s.alpn with
    | none => rfl
    | some a =>
      rw [List.flatMap_singleton, Field.encode, List.length_cons, length_cut_encode (h.alpn a hs),
        Option.elim_some]
      omega
  have hearly : ((earlydataFields s).flatMap Field.encode).length =
      if s.earlydataMax ≠ 0 then 5 else 0 := by
    unfold earlydataFields
    split <;> rfl
  have hsectrust : ((sectrustFields s).flatMap Field.encode).length =
      if s.sectrustVerified then 1 else 0 := by
    unfold sectrustFields
    split <;> rfl
  have hquic : ((quicTpFields s).flatMap Field.encode).length =
      s.quicTp.elim 0 fun q => if q = [] then 0 else 3 + q.length := by
    unfold quicTpFields
    cases hs : s.quicTp with
    | none => rfl
    | some q =>
      obtain ⟨hne, hqlen⟩ := h.quicTp q hs
      cases q with
      | nil => exact absurd rfl hne
      | cons b q =>
        dsimp only
        rw [List.flatMap_singleton, Field.encode, List.length_cons, length_cut_encode hqlen,
          Option.elim_some, if_neg hne]
        omega
  have hticket := length_cut_encode hlen
  simp only [encoding, fieldsOf, List.flatMap_append, List.flatMap_cons, List.flatMap_nil,
    Field.encode, List.length_append, List.length_cons, List.length_nil, halpn, hearly, hsectrust,
    hquic, hd, Option.getD_some, hticket, BigEndian.length_bytes, packedLength]
  omega

/-- The record of a session is packed as bytes that are unpacked to it again, as far as the
buffer has room for them. -/
theorem comesBack_iff {s : SslSession} (h : Packable s) (buf : Dynbuf) :
    ComesBack s buf ↔ HasRoom s buf := by
  have hput := pack_put h buf
  rw [Put, length_encoding_fieldsOf h] at hput
  constructor
  · rintro ⟨packed, hok, -, -⟩
    by_contra hroom
    rw [hput.2 hroom] at hok
    cases hok
  · intro hroom
    obtain ⟨hok, hcontent, -⟩ := hput.1 hroom
    exact ⟨_, hok, hcontent, unpack_iff.mpr ⟨fieldsOf s, rfl, (sessionOf_fieldsOf h).symm⟩⟩

/-- Empty transport parameters are packed like none. -/
theorem pack_emptyQuicTp {s : SslSession} (h : s.quicTp = some []) (buf : Dynbuf) :
    sslSessionPack s buf = sslSessionPack { s with quicTp := none } buf := by
  unfold sslSessionPack
  rw [h]

/-- What is unpacked and comes back keeps its transport parameters. -/
theorem comesBack_quicTp {s : SslSession} {buf : Dynbuf}
    (hpackable : Packable { s with quicTp := none }) (h : ComesBack s buf) :
    s.quicTp ≠ some [] := by
  intro hq
  obtain ⟨packed, hok, hcontent, hback⟩ := h
  rw [pack_emptyQuicTp hq] at hok hcontent
  have hput := pack_put hpackable buf
  rw [Put, length_encoding_fieldsOf hpackable] at hput
  by_cases hroom : HasRoom { s with quicTp := none } buf
  · obtain ⟨-, hcontent', -⟩ := hput.1 hroom
    rw [hcontent'] at hcontent
    have hpacked := List.append_cancel_left hcontent
    have hunpack : sslSessionUnpack packed = some (.ok { s with quicTp := none }) :=
      unpack_iff.mpr ⟨_, hpacked.symm, (sessionOf_fieldsOf hpackable).symm⟩
    rw [hback] at hunpack
    have hs : s = { s with quicTp := none } := Except.ok.inj (Option.some.inj hunpack)
    rw [hs] at hq
    cases hq
  · rw [hput.2 hroom] at hok
    cases hok

/-- Every record that the format is made for goes through packing and unpacking as far as the
buffer has room. What an accepted byte string describes does if its fields are sound, and only
then. -/
theorem pack_unpack_iff (buf : Dynbuf) :
    (∀ s, Packable s → (ComesBack s buf ↔ HasRoom s buf)) ∧
    ∀ bytes s, sslSessionUnpack bytes = some (.ok s) →
      ((s.sdata ≠ none ∧ 0 ≤ s.validUntil ∧ ComesBack s buf) ↔
        (∃ fields, bytes = encoding fields ∧ Sound fields) ∧ HasRoom s buf) := by
  refine ⟨fun s h => comesBack_iff h buf, ?_⟩
  intro bytes s hunpack
  obtain ⟨fields, hbytes, hs⟩ := unpack_iff.mp hunpack
  have hbounded := bounded_sessionOf fields
  have hdata := sdata_sessionOf fields
  have hquic := quicTp_sessionOf fields
  rw [← hs] at hbounded hdata hquic
  constructor
  · rintro ⟨hsome, huntil, hback⟩
    have hdata' : ∃ d, s.sdata = some d ∧ d.length ≤ UINT16_MAX := by
      obtain ⟨d, hd⟩ := Option.ne_none_iff_exists'.mp hsome
      rw [hdata] at hd
      obtain ⟨t, ht, rfl⟩ := Option.map_eq_some_iff.mp hd
      exact ⟨t.val, by rw [hdata, ht]; rfl, t.2⟩
    have hnone : Packable { s with quicTp := none } :=
      ⟨huntil, hdata', hbounded.ietfTlsId, hbounded.alpn, hbounded.earlydataMax, nofun⟩
    have hpackable : Packable s := by
      refine ⟨huntil, hdata', hbounded.ietfTlsId, hbounded.alpn, hbounded.earlydataMax, ?_⟩
      intro q hq
      refine ⟨fun hnil => comesBack_quicTp hnone hback (hnil ▸ hq), ?_⟩
      rw [hquic] at hq
      obtain ⟨d, -, rfl⟩ := Option.map_eq_some_iff.mp hq
      exact d.2
    refine ⟨⟨fields, hbytes, ?_⟩, (comesBack_iff hpackable buf).mp hback⟩
    rw [hs] at hpackable
    exact (packable_iff fields).mp hpackable
  · rintro ⟨⟨fields', hbytes', hsound⟩, hroom⟩
    have hs' : s = sessionOf fields' := by
      have hunpack' := unpack_iff.mpr ⟨fields', hbytes', rfl⟩
      rw [hunpack] at hunpack'
      exact Except.ok.inj (Option.some.inj hunpack')
    have hpackable : Packable s := by
      rw [hs']
      exact (packable_iff fields').mpr hsound
    obtain ⟨d, hd, -⟩ := hpackable.sdata
    refine ⟨?_, hpackable.validUntil, (comesBack_iff hpackable buf).mpr hroom⟩
    rw [hd]
    exact Option.some_ne_none d

def sampleSession : SslSession :=
  { sdata := some [0x61], validUntil := 1700000000, ietfTlsId := 0x304,
    alpn := some (.ofBytes [0x68, 0x32]) }

theorem pack_unpack_sample : ComesBack sampleSession (Dynbuf.init 16384) ∧
    ({ sdata := some [0x61] } : SslSession).sdata ≠ none ∧
    (0 : Int64) ≤ ({ sdata := some [0x61] } : SslSession).validUntil ∧
    ComesBack { sdata := some [0x61] } (Dynbuf.init 16384) := by
  have hpackable : Packable sampleSession := by
    refine ⟨by decide, ⟨[0x61], rfl, by decide⟩, by decide, ?_, by decide, nofun⟩
    intro a ha
    cases ha
    decide
  refine ⟨((pack_unpack_iff _).1 _ hpackable).mpr (by decide), ?_⟩
  have hunpack : sslSessionUnpack [1, 4, 0, 1, 0x61] = some (.ok { sdata := some [0x61] }) := by
    decide
  refine ((pack_unpack_iff _).2 [1, 4, 0, 1, 0x61] _ hunpack).mpr
    ⟨⟨[.ticket (.cut [0x61])], ?_⟩, ?_⟩
  · exact ⟨by decide, by decide, nofun, nofun⟩
  · decide

/-- Without a ticket, with an expiry time from 2^63 on, with empty transport parameters. -/
theorem unpacked_not_back :
    (sslSessionUnpack [1] = some (.ok {}) ∧ ({} : SslSession).sdata = none) ∧
    (∃ s, sslSessionUnpack [1, 4, 0, 1, 0x61, 3, 0x80, 0, 0, 0, 0, 0, 0, 0] = some (.ok s) ∧
      s.validUntil < 0 ∧ (sslSessionPack s (Dynbuf.init 16384)).2 = .badFunctionArgument) ∧
    ∃ s packed, sslSessionUnpack [1, 4, 0, 1, 0x61, 7, 0, 0] = some (.ok s) ∧
      s.quicTp = some [] ∧ (sslSessionPack s (Dynbuf.init 16384)).1.content = packed ∧
      ∃ s', sslSessionUnpack packed = some (.ok s') ∧ s'.quicTp = none := by
  refine ⟨⟨by decide, rfl⟩, ⟨_, rfl, by decide, by decide⟩, _, _, rfl, by decide, rfl, _, rfl, ?_⟩
  decide

end Gurl.Spack
