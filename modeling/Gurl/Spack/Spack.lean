import Gurl.Dynbuf
import Gurl.Lib.BigEndian

/-! `lib/vtls/vtls_spack.c`: a TLS session written as bytes and read back. Memory is granted, the
assertions of debug builds are left out. -/

namespace Gurl.Spack

/-- A C string: the bytes before its zero. -/
abbrev CStr := { s : Bytes // 0 ∉ s }

/-- The C string that starts where these bytes start, with a zero behind them. -/
def CStr.ofBytes (bs : Bytes) : CStr :=
  ⟨bs.takeWhile (· != 0), fun h => by simpa using List.mem_takeWhile_imp h⟩

/-- `struct Curl_ssl_session`, what of it is packed. -/
structure SslSession where
  sdata : Option Bytes := none
  validUntil : Int64 := 0
  ietfTlsId : Int32 := 0
  alpn : Option CStr := none
  earlydataMax : UInt64 := 0
  quicTp : Option Bytes := none
  sectrustVerified : Bool := false
  deriving DecidableEq

@[match_pattern] def CURL_SPACK_VERSION : UInt8 := 0x01
@[match_pattern] def CURL_SPACK_IETF_ID : UInt8 := 0x02
@[match_pattern] def CURL_SPACK_VALID_UNTIL : UInt8 := 0x03
@[match_pattern] def CURL_SPACK_TICKET : UInt8 := 0x04
@[match_pattern] def CURL_SPACK_ALPN : UInt8 := 0x05
@[match_pattern] def CURL_SPACK_EARLYDATA : UInt8 := 0x06
@[match_pattern] def CURL_SPACK_QUICTP : UInt8 := 0x07
@[match_pattern] def CURL_SPACK_SECTRUST : UInt8 := 0x08

def UINT16_MAX : Nat := 65535
def UINT32_MAX : UInt64 := 4294967295

abbrev Enc := Dynbuf × Curlcode

/-- What stands behind `if(!result)`. -/
def Enc.next (r : Enc) (f : Dynbuf → Enc) : Enc := if r.2 = .ok then f r.1 else r

def spackEnc8 (buf : Dynbuf) (b : UInt8) : Enc := buf.nappend [b] true

def spackEnc16 (buf : Dynbuf) (val : UInt16) : Enc :=
  buf.nappend [(val >>> 8).toUInt8, val.toUInt8] true

def spackEnc32 (buf : Dynbuf) (val : UInt32) : Enc :=
  buf.nappend [(val >>> 24).toUInt8, (val >>> 16).toUInt8, (val >>> 8).toUInt8, val.toUInt8] true

def spackEnc64 (buf : Dynbuf) (val : UInt64) : Enc :=
  buf.nappend [(val >>> 56).toUInt8, (val >>> 48).toUInt8, (val >>> 40).toUInt8,
    (val >>> 32).toUInt8, (val >>> 24).toUInt8, (val >>> 16).toUInt8, (val >>> 8).toUInt8,
    val.toUInt8] true

/-- `spack_encdata16`, and `spack_encstr16` with the bytes of the string. -/
def spackEncdata16 (buf : Dynbuf) (data : Bytes) : Enc :=
  if data.length > UINT16_MAX then (buf, .badFunctionArgument)
  else (spackEnc16 buf (UInt16.ofNat data.length)).next fun buf => buf.nappend data true

def spackEncstr16 (buf : Dynbuf) (s : CStr) : Enc := spackEncdata16 buf s

/-- A decoder takes bytes off the start of `src`. -/
abbrev Dec (α : Type) := Bytes → Except Curlcode (α × Bytes)

def spackDec8 : Dec UInt8
  | b :: src => .ok (b, src)
  | _ => .error .readError

def spackDec16 : Dec UInt16
  | b0 :: b1 :: src => .ok (b0.toUInt16 <<< 8 ||| b1.toUInt16, src)
  | _ => .error .readError

def spackDec32 : Dec UInt32
  | b0 :: b1 :: b2 :: b3 :: src =>
    .ok (b0.toUInt32 <<< 24 ||| b1.toUInt32 <<< 16 ||| b2.toUInt32 <<< 8 ||| b3.toUInt32, src)
  | _ => .error .readError

def spackDec64 : Dec UInt64
  | b0 :: b1 :: b2 :: b3 :: b4 :: b5 :: b6 :: b7 :: src =>
    .ok (b0.toUInt64 <<< 56 ||| b1.toUInt64 <<< 48 ||| b2.toUInt64 <<< 40 ||| b3.toUInt64 <<< 32 |||
      b4.toUInt64 <<< 24 ||| b5.toUInt64 <<< 16 ||| b6.toUInt64 <<< 8 ||| b7.toUInt64, src)
  | _ => .error .readError

def spackDecdata16 : Dec Bytes := fun src =>
  match spackDec16 src with
  | .error result => .error result
  | .ok (len, src) =>
    if src.length < len.toNat then .error .readError
    else .ok (src.take len.toNat, src.drop len.toNat)

def spackDecstr16 : Dec CStr := fun src =>
  match spackDecdata16 src with
  | .error result => .error result
  | .ok (val, src) => .ok (.ofBytes val, src)

/-- `Curl_ssl_session_pack`. -/
def sslSessionPack (s : SslSession) (buf : Dynbuf) : Enc :=
  if s.validUntil < 0 then (buf, .badFunctionArgument)
  else
    let r := spackEnc8 buf CURL_SPACK_VERSION
    let r := r.next (spackEnc8 · CURL_SPACK_TICKET)
    let r := r.next (spackEncdata16 · (s.sdata.getD []))
    let r := r.next (spackEnc8 · CURL_SPACK_IETF_ID)
    let r := r.next (spackEnc16 · s.ietfTlsId.toUInt32.toUInt16)
    let r := r.next (spackEnc8 · CURL_SPACK_VALID_UNTIL)
    let r := r.next (spackEnc64 · s.validUntil.toUInt64)
    let r := match s.alpn with
      | some alpn => (r.next (spackEnc8 · CURL_SPACK_ALPN)).next (spackEncstr16 · alpn)
      | none => r
    let r := if s.earlydataMax ≠ 0 then
        r.next fun buf =>
          if s.earlydataMax > UINT32_MAX then (buf, .badFunctionArgument)
          else (spackEnc8 buf CURL_SPACK_EARLYDATA).next (spackEnc32 · s.earlydataMax.toUInt32)
      else r
    let r := if s.sectrustVerified then r.next (spackEnc8 · CURL_SPACK_SECTRUST) else r
    match s.quicTp with
    | some (b :: quicTp) =>
      (r.next (spackEnc8 · CURL_SPACK_QUICTP)).next (spackEncdata16 · (b :: quicTp))
    | _ => r

/-- Decode, return on an error, and set a field to the value. -/
def Dec.into {α : Type} (dec : Dec α) (set : α → SslSession) : Dec SslSession := fun buf =>
  match dec buf with
  | .error result => .error result
  | .ok (val, buf) => .ok (set val, buf)

/-- One turn of the loop of `Curl_ssl_session_unpack`, after the tag. -/
def unpackField (s : SslSession) (val8 : UInt8) : Dec SslSession :=
  match val8 with
  | CURL_SPACK_ALPN => spackDecstr16.into fun val => { s with alpn := some val }
  | CURL_SPACK_EARLYDATA => spackDec32.into fun val32 => { s with earlydataMax := val32.toUInt64 }
  | CURL_SPACK_IETF_ID =>
    spackDec16.into fun val16 => { s with ietfTlsId := val16.toUInt32.toInt32 }
  | CURL_SPACK_QUICTP => spackDecdata16.into fun pval8 => { s with quicTp := some pval8 }
  | CURL_SPACK_TICKET => spackDecdata16.into fun pval8 => { s with sdata := some pval8 }
  | CURL_SPACK_VALID_UNTIL => spackDec64.into fun val64 => { s with validUntil := val64.toInt64 }
  | CURL_SPACK_SECTRUST => fun buf => .ok ({ s with sectrustVerified := true }, buf)
  | _ => fun _ => .error .readError

/-- The loop: `none` when there are more turns than `fuel`. -/
def unpackLoop : Nat → SslSession → Bytes → Option (Except Curlcode SslSession)
  | _, s, [] => some (.ok s)
  | 0, _, _ :: _ => none
  | fuel + 1, s, val8 :: buf =>
    match unpackField s val8 buf with
    | .error result => some (.error result)
    | .ok (s, buf) => unpackLoop fuel s buf

/-- `Curl_ssl_session_unpack`. -/
def sslSessionUnpack (buf : Bytes) : Option (Except Curlcode SslSession) :=
  match spackDec8 buf with
  | .error result => some (.error result)
  | .ok (val8, buf) =>
    if val8 ≠ CURL_SPACK_VERSION then some (.error .readError) else unpackLoop buf.length {} buf

/-! The numbers of a packed session stand with their highest byte first. -/

open BigEndian

theorem toNat_shl16 (b : UInt8) : (b.toUInt16 <<< 8).toNat = b.toNat <<< 8 := by
  have hb := b.toNat_lt
  rw [UInt16.toNat_shiftLeft, UInt8.toNat_toUInt16]
  apply Nat.mod_eq_of_lt
  change b.toNat <<< 8 < _
  rw [Nat.shiftLeft_eq]
  omega

theorem toNat_shl32 (b : UInt8) {j : UInt32} (hj : j.toNat ≤ 24) :
    (b.toUInt32 <<< j).toNat = b.toNat <<< j.toNat := by
  have hb := b.toNat_lt
  have hpow : 2 ^ j.toNat ≤ 2 ^ 24 := Nat.pow_le_pow_right (by decide) hj
  rw [UInt32.toNat_shiftLeft, UInt8.toNat_toUInt32, Nat.mod_eq_of_lt (show j.toNat < 32 by omega)]
  apply Nat.mod_eq_of_lt
  rw [Nat.shiftLeft_eq]
  calc b.toNat * 2 ^ j.toNat ≤ b.toNat * 2 ^ 24 := Nat.mul_le_mul_left _ hpow
    _ < 2 ^ 32 := by omega

theorem toNat_shl64 (b : UInt8) {j : UInt64} (hj : j.toNat ≤ 56) :
    (b.toUInt64 <<< j).toNat = b.toNat <<< j.toNat := by
  have hb := b.toNat_lt
  have hpow : 2 ^ j.toNat ≤ 2 ^ 56 := Nat.pow_le_pow_right (by decide) hj
  rw [UInt64.toNat_shiftLeft, UInt8.toNat_toUInt64, Nat.mod_eq_of_lt (show j.toNat < 64 by omega)]
  apply Nat.mod_eq_of_lt
  rw [Nat.shiftLeft_eq]
  calc b.toNat * 2 ^ j.toNat ≤ b.toNat * 2 ^ 56 := Nat.mul_le_mul_left _ hpow
    _ < 2 ^ 64 := by omega

/-- A decoder of a number of `k` bytes. -/
structure Reads {α : Type} (k : Nat) (toNat : α → Nat) (dec : Dec α) : Prop where
  short : ∀ src, src.length < k → dec src = .error .readError
  full : ∀ bs rest, bs.length = k → ∃ v, dec (bs ++ rest) = .ok (v, rest) ∧ toNat v = value bs
  inj : Function.Injective toNat
  bound : ∀ v, toNat v < 256 ^ k

/-- What such a decoder reads is the number that these bytes write. -/
theorem Reads.iff {α : Type} {k : Nat} {toNat : α → Nat} {dec : Dec α} (h : Reads k toNat dec)
    {src rest : Bytes} {v : α} :
    dec src = .ok (v, rest) ↔ src = bytes k (toNat v) ++ rest := by
  constructor
  · intro hdec
    have hlen : ¬ src.length < k := by
      intro hshort
      rw [h.short src hshort] at hdec
      cases hdec
    have htake : (src.take k).length = k := List.length_take_of_le (Nat.not_lt.mp hlen)
    obtain ⟨w, hw, hval⟩ := h.full (src.take k) (src.drop k) htake
    rw [List.take_append_drop, hdec] at hw
    cases hw
    have hback := bytes_value (src.take k)
    rw [htake] at hback
    rw [hval, hback, List.take_append_drop]
  · intro hsrc
    obtain ⟨w, hw, hval⟩ := h.full (bytes k (toNat v)) rest (length_bytes k _)
    rw [value_bytes (h.bound v)] at hval
    rw [hsrc, hw, h.inj hval]

theorem reads16 : Reads 2 UInt16.toNat spackDec16 where
  short := by
    intro src h
    match src, h with
    | [], _ => rfl
    | [_], _ => rfl
  full := by
    intro bs rest h
    match bs, h with
    | [b0, b1], _ =>
      refine ⟨_, rfl, ?_⟩
      have hvalue : value [b0, b1] = (0 * 256 + b0.toNat) * 256 + b1.toNat := rfl
      rw [hvalue, Nat.zero_mul, Nat.zero_add, ← shift_or, UInt16.toNat_or, toNat_shl16,
        UInt8.toNat_toUInt16]
  inj := fun _ _ => UInt16.toNat_inj.mp
  bound := UInt16.toNat_lt

theorem reads32 : Reads 4 UInt32.toNat spackDec32 where
  short := by
    intro src h
    match src, h with
    | [], _ => rfl
    | [_], _ => rfl
    | [_, _], _ => rfl
    | [_, _, _], _ => rfl
  full := by
    intro bs rest h
    match bs, h with
    | [b0, b1, b2, b3], _ =>
      refine ⟨_, rfl, ?_⟩
      have hvalue : value [b0, b1, b2, b3] =
          (((0 * 256 + b0.toNat) * 256 + b1.toNat) * 256 + b2.toNat) * 256 + b3.toNat := rfl
      simp (disch := decide) only [hvalue, Nat.zero_mul, Nat.zero_add, ← shift_or,
        Nat.shiftLeft_or_distrib, ← Nat.shiftLeft_add, UInt32.toNat_or, UInt8.toNat_toUInt32,
        toNat_shl32]
      rfl
  inj := fun _ _ => UInt32.toNat_inj.mp
  bound := UInt32.toNat_lt

theorem reads64 : Reads 8 UInt64.toNat spackDec64 where
  short := by
    intro src h
    match src, h with
    | [], _ => rfl
    | [_], _ => rfl
    | [_, _], _ => rfl
    | [_, _, _], _ => rfl
    | [_, _, _, _], _ => rfl
    | [_, _, _, _, _], _ => rfl
    | [_, _, _, _, _, _], _ => rfl
    | [_, _, _, _, _, _, _], _ => rfl
  full := by
    intro bs rest h
    match bs, h with
    | [b0, b1, b2, b3, b4, b5, b6, b7], _ =>
      refine ⟨_, rfl, ?_⟩
      have hvalue : value [b0, b1, b2, b3, b4, b5, b6, b7] =
          (((((((0 * 256 + b0.toNat) * 256 + b1.toNat) * 256 + b2.toNat) * 256 + b3.toNat) * 256 +
            b4.toNat) * 256 + b5.toNat) * 256 + b6.toNat) * 256 + b7.toNat := rfl
      simp (disch := decide) only [hvalue, Nat.zero_mul, Nat.zero_add, ← shift_or,
        Nat.shiftLeft_or_distrib, ← Nat.shiftLeft_add, UInt64.toNat_or, UInt8.toNat_toUInt64,
        toNat_shl64]
      rfl
  inj := fun _ _ => UInt64.toNat_inj.mp
  bound := UInt64.toNat_lt

theorem enc16_eq (buf : Dynbuf) (val : UInt16) :
    spackEnc16 buf val = buf.nappend (bytes 2 val.toNat) true := by
  have h8 : (val >>> 8).toUInt8 = UInt8.ofNat (val.toNat / 256) := by
    apply UInt8.toNat_inj.mp
    rw [UInt16.toNat_toUInt8, UInt16.toNat_shiftRight, UInt8.toNat_ofNat',
      Nat.shiftRight_eq_div_pow]
    rfl
  rw [spackEnc16, h8]
  rfl

theorem toUInt8_shr32 (val : UInt32) {j : UInt32} (hj : j.toNat < 32) :
    (val >>> j).toUInt8 = UInt8.ofNat (val.toNat / 2 ^ j.toNat) := by
  apply UInt8.toNat_inj.mp
  rw [UInt32.toNat_toUInt8, UInt32.toNat_shiftRight, UInt8.toNat_ofNat', Nat.mod_eq_of_lt hj,
    Nat.shiftRight_eq_div_pow]

theorem enc32_eq (buf : Dynbuf) (val : UInt32) :
    spackEnc32 buf val = buf.nappend (bytes 4 val.toNat) true := by
  simp (disch := decide) only [spackEnc32, toUInt8_shr32, bytes, Nat.div_div_eq_div_mul]
  rfl

theorem toUInt8_shr64 (val : UInt64) {j : UInt64} (hj : j.toNat < 64) :
    (val >>> j).toUInt8 = UInt8.ofNat (val.toNat / 2 ^ j.toNat) := by
  apply UInt8.toNat_inj.mp
  rw [UInt64.toNat_toUInt8, UInt64.toNat_shiftRight, UInt8.toNat_ofNat', Nat.mod_eq_of_lt hj,
    Nat.shiftRight_eq_div_pow]

theorem enc64_eq (buf : Dynbuf) (val : UInt64) :
    spackEnc64 buf val = buf.nappend (bytes 8 val.toNat) true := by
  simp (disch := decide) only [spackEnc64, toUInt8_shr64, bytes, Nat.div_div_eq_div_mul]
  rfl

end Gurl.Spack
