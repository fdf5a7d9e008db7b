import Gurl.Vtls.PeerKey
import Gurl.Vtls.Sessions

/-! When a cached session stays with the connections that it is for: what the keys of two
connections have to say that share one. -/

namespace Gurl.Vtls

open Gurl.Strcase Gurl.Strparse Gurl.Mprintf Tagged

/-- A connection that uses TLS: whom it talks to and with which settings. -/
structure TlsConn where
  peer : SslPeer
  config : ConnConfig

/-- Two connections that may resume each other's sessions. -/
structure SameTls (a b : TlsConn) : Prop where
  host : upper a.peer.origin.hostname = upper b.peer.origin.hostname
  port : a.peer.origin.port = b.peer.origin.port
  transport : a.peer.transport = b.peer.transport
  verifypeer : a.config.primary.verifypeer = b.config.primary.verifypeer
  verifyhost : a.config.primary.verifyhost = b.config.primary.verifyhost
  verifystatus : a.config.primary.verifystatus = b.config.primary.verifystatus
  version : a.config.primary.version = b.config.primary.version
  versionMax : a.config.primary.versionMax = b.config.primary.versionMax
  sslOptions : a.config.primary.sslOptions = b.config.primary.sslOptions
  cipherList : a.config.primary.cipherList = b.config.primary.cipherList
  cipherList13 : a.config.primary.cipherList13 = b.config.primary.cipherList13
  curves : a.config.primary.curves = b.config.primary.curves
  signatureAlgorithms : a.config.primary.signatureAlgorithms = b.config.primary.signatureAlgorithms
  pinnedKey : a.config.primary.pinnedKey = b.config.primary.pinnedKey
  clientcert : a.config.primary.clientcert = b.config.primary.clientcert
  certBlob : a.config.primary.certBlob = b.config.primary.certBlob
  key : a.config.primary.key = b.config.primary.key
  keyBlob : a.config.primary.keyBlob = b.config.primary.keyBlob
  certType : a.config.primary.certType = b.config.primary.certType
  keyType : a.config.primary.keyType = b.config.primary.keyType
  trust : a.config.primary.verifypeer = true →
    a.config.primary.caFile = b.config.primary.caFile ∧
    a.config.primary.caPath = b.config.primary.caPath ∧
    a.config.primary.crlFile = b.config.primary.crlFile ∧
    a.config.primary.issuercert = b.config.primary.issuercert ∧
    a.config.primary.caInfoBlob = b.config.primary.caInfoBlob ∧
    a.config.primary.issuercertBlob = b.config.primary.issuercertBlob

/-- No text of the key holds the mark of a later one, in whatever case. -/
def Readable (host : KeyHost) (c : TlsConn) : Prop :=
  (∀ m ∈ keyMarks ++ [implMark], ¬upper m <:+: upper (keyOrigin c.peer)) ∧
  Clear (upper implMark) (keyMarks.map upper)
    ((keyTexts host c.config.primary c.peer).map (Option.map upper))

/-- Two texts do not differ in the case of letters alone. -/
def CaseAgree (x y : Text) : Prop := SameIgnoringCase x y → x = y

/-- Two texts are not such that one is empty and the other missing. -/
def EmptyAgree (x y : Text) : Prop := nonEmpty x = nonEmpty y → x = y

/-- Two paths are not different names of one file. -/
def PathAgree (host : KeyHost) (x y : Text) : Prop :=
  pathText host x = pathText host y → nonEmpty x = nonEmpty y

/-- Two connections agree, up to the case of letters, in all that the key is made of. -/
def AlikeInKey (host : KeyHost) (a b : TlsConn) : Prop :=
  upper (keyOrigin a.peer) = upper (keyOrigin b.peer) ∧
  (keyTexts host a.config.primary a.peer).map (Option.map upper) =
    (keyTexts host b.config.primary b.peer).map (Option.map upper)

/-- Two connections do not differ where the key does not see it: in the case of letters, in an empty
text for a missing one, in two paths for one file and in the lower half of the latest version. -/
structure Faithful (host : KeyHost) (a b : TlsConn) : Prop where
  versions : a.config.primary.versionMax.toNat % 65536 = 0 ∧
    b.config.primary.versionMax.toNat % 65536 = 0
  lists : CaseAgree a.config.primary.cipherList b.config.primary.cipherList ∧
    CaseAgree a.config.primary.cipherList13 b.config.primary.cipherList13 ∧
    CaseAgree a.config.primary.curves b.config.primary.curves ∧
    CaseAgree a.config.primary.signatureAlgorithms b.config.primary.signatureAlgorithms
  texts : ∀ field ∈ [SslPrimaryConfig.pinnedKey, SslPrimaryConfig.certType,
      SslPrimaryConfig.keyType],
    CaseAgree (nonEmpty (field a.config.primary)) (nonEmpty (field b.config.primary)) ∧
    EmptyAgree (field a.config.primary) (field b.config.primary)
  paths : ∀ field ∈ [SslPrimaryConfig.key, SslPrimaryConfig.caFile, SslPrimaryConfig.caPath,
      SslPrimaryConfig.crlFile, SslPrimaryConfig.issuercert],
    CaseAgree (pathText host (field a.config.primary)) (pathText host (field b.config.primary)) ∧
    PathAgree host (field a.config.primary) (field b.config.primary) ∧
    EmptyAgree (field a.config.primary) (field b.config.primary)
  blobs : ∀ field ∈ [SslPrimaryConfig.certBlob, SslPrimaryConfig.keyBlob,
      SslPrimaryConfig.caInfoBlob, SslPrimaryConfig.issuercertBlob],
    EmptyAgree (field a.config.primary) (field b.config.primary)

/-- The keys of two connections can be read, and tell the two apart if anything does. -/
structure Unambiguous (host : KeyHost) (a b : TlsConn) : Prop where
  readable : Readable host a ∧ Readable host b
  faithful : AlikeInKey host a b → Faithful host a b

/-! Reading numbers back. -/

theorem digit_lt {c : UInt8} (h : isDigit c = true) : c < 65 := by
  simp only [isDigit, Bool.and_eq_true, decide_eq_true_eq] at h
  exact UInt8.lt_iff_toNat_lt.mpr (by simp only [UInt8.reduceToNat]; omega)

theorem not_digit_mem {c : UInt8} (hc : isDigit c = false) (n : Nat) : c ∉ fmtUint n := by
  intro h
  have := fmtUint_digits n c h
  rw [hc] at this
  cases this

theorem upper_fmtUint (n : Nat) : upper (fmtUint n) = fmtUint n :=
  (upper_eq_iff fun c hc => digit_lt (fmtUint_digits n c hc)).mpr rfl

theorem fmtUint_inj {n m : Nat} (hn : n < 10 ^ 20) (hm : m < 10 ^ 20) (h : fmtUint n = fmtUint m) :
    n = m := by
  rw [← decimal_fmtUint hn, h, decimal_fmtUint hm]

theorem fmtUint_inj8 {a b : UInt8} (h : fmtUint a.toNat = fmtUint b.toNat) : a = b := by
  have ha := a.toNat_lt
  have hb := b.toNat_lt
  exact UInt8.toNat_inj.mp (fmtUint_inj (by omega) (by omega) h)

theorem isMark_singleton (c : UInt8) : IsMark c [c] := ⟨[], rfl, by simp⟩

/-- Two texts with a separator behind them that they do not hold. -/
theorem append_sep_inj {c : UInt8} {x y u v : Bytes} (hx : c ∉ x) (hy : c ∉ y)
    (h : x ++ c :: u = y ++ c :: v) : x = y ∧ u = v := by
  have hin {z : Bytes} (hz : c ∉ z) : ¬[c] <:+: z := fun h => hz (h.subset (by simp))
  obtain ⟨hxy, huv⟩ := append_inj h (isMark_singleton c) (isMark_singleton c)
    (by simp [List.prefix_cons_iff]) (by simp [List.prefix_cons_iff]) (hin hx) (hin hy)
  exact ⟨hxy, (List.cons.inj huv).2⟩

/-- The value of a hexadecimal digit in upper case. -/
def unhex (c : UInt8) : Nat := if c < 65 then c.toNat - 48 else c.toNat - 55

theorem unhex_hexDigit : ∀ n, n < 16 → unhex (rawToupper (hexDigit n)) = n := by decide

theorem fmtHex02_inj {a b : UInt8} (h : upper (fmtHex02 a) = upper (fmtHex02 b)) : a = b := by
  have ha := a.toNat_lt
  have hb := b.toNat_lt
  simp only [upper, fmtHex02, List.map_cons, List.map_nil, List.cons.injEq, and_true] at h
  have h1 := unhex_hexDigit (a.toNat / 16) (by omega)
  have h2 := unhex_hexDigit (a.toNat % 16) (by omega)
  rw [h.1, unhex_hexDigit _ (by omega)] at h1
  rw [h.2, unhex_hexDigit _ (by omega)] at h2
  exact UInt8.toNat_inj.mp (by omega)

theorem fmtHex_inj {a b : UInt8} (h : upper (fmtHex a) = upper (fmtHex b)) : a = b := by
  have hlen := congrArg List.length h
  rw [length_upper, length_upper] at hlen
  unfold fmtHex at h hlen
  split at h <;> split at h
  · rename_i ha hb
    have ha := UInt8.lt_iff_toNat_lt.mp ha
    have hb := UInt8.lt_iff_toNat_lt.mp hb
    simp only [upper, List.map_cons, List.map_nil, List.cons.injEq, and_true] at h
    have h1 := unhex_hexDigit a.toNat ha
    rw [h, unhex_hexDigit b.toNat hb] at h1
    exact UInt8.toNat_inj.mp h1.symm
  · rename_i ha hb
    simp [ha, hb, fmtHex02] at hlen
  · rename_i ha hb
    simp [ha, hb, fmtHex02] at hlen
  · exact fmtHex02_inj h

theorem hexBytes_inj {x y : Bytes} (h : upper (x.flatMap fmtHex02) = upper (y.flatMap fmtHex02)) :
    x = y := by
  induction x generalizing y with
  | nil =>
    cases y with
    | nil => rfl
    | cons b y => simp [upper, fmtHex02] at h
  | cons a x ih =>
    cases y with
    | nil => simp [upper, fmtHex02] at h
    | cons b y =>
      rw [List.flatMap_cons, List.flatMap_cons, upper_append, upper_append] at h
      obtain ⟨hab, hxy⟩ := List.append_inj h (by simp [fmtHex02])
      rw [fmtHex02_inj hab, ih hxy]

/-! What two keys say that agree in the upper case. -/

theorem isMark_iff (sep : UInt8) (m : Bytes) :
    IsMark sep m ↔ m.head? = some sep ∧ sep ∉ m.tail := by
  cases m with
  | nil => simp [IsMark]
  | cons c m =>
    simp only [IsMark, List.cons.injEq, List.head?_cons, Option.some.injEq, List.tail_cons]
    constructor
    · rintro ⟨name, ⟨rfl, rfl⟩, h⟩
      exact ⟨rfl, h⟩
    · rintro ⟨rfl, h⟩
      exact ⟨m, ⟨rfl, rfl⟩, h⟩

theorem keyMarks_isMark : ∀ m ∈ keyMarks.map upper ++ [upper implMark], IsMark 58 m := by
  have h : ∀ m ∈ keyMarks.map upper ++ [upper implMark],
      m.head? = some (58 : UInt8) ∧ (58 : UInt8) ∉ m.tail := by decide +kernel
  exact fun m hm => (isMark_iff 58 m).mpr (h m hm)

theorem keyMarks_apart : (keyMarks.map upper ++ [upper implMark]).Pairwise
    fun m m' => ¬m <+: m' ∧ ¬m' <+: m := by
  decide +kernel

theorem sslPeerKeyBuild_ok {host : KeyHost} {ssl : SslPrimaryConfig} {peer : SslPeer}
    {tlsId k : Bytes} (h : sslPeerKeyBuild host ssl peer tlsId = .ok k) :
    ∃ tail, k = keyOrigin peer ++ render keyMarks (keyTexts host ssl peer) (implMark ++ tail) := by
  refine ⟨tlsId ++ if (keyBody host ssl peer).2 then ascii ":L" else ascii ":G", ?_⟩
  rw [← keyBody_render]
  unfold sslPeerKeyBuild at h
  generalize keyBody host ssl peer = body at h ⊢
  simp only at h
  generalize (if body.2 then ascii ":L" else ascii ":G") = mark at h ⊢
  split at h
  · cases h
  · split at h
    · cases h
    · split at h
      · cases h
      · rw [← Except.ok.inj h, implMark]
        simp only [List.append_assoc]

/-- Two readable keys that agree up to case are of connections that agree up to case. -/
theorem alikeInKey_of_keys {host : KeyHost} {a b : TlsConn} (ha : Readable host a)
    (hb : Readable host b)
    {tlsId ka kb : Bytes} (hka : sslPeerKeyBuild host a.config.primary a.peer tlsId = .ok ka)
    (hkb : sslPeerKeyBuild host b.config.primary b.peer tlsId = .ok kb) (h : upper ka = upper kb) :
    AlikeInKey host a b := by
  obtain ⟨ta, rfl⟩ := sslPeerKeyBuild_ok hka
  obtain ⟨tb, rfl⟩ := sslPeerKeyBuild_ok hkb
  have hup (x : List Text) (t : Bytes) : upper (render keyMarks x (implMark ++ t)) =
      render (keyMarks.map upper) (x.map (Option.map upper)) (upper implMark ++ upper t) := by
    rw [← upper_append]
    exact render_map rawToupper keyMarks x (implMark ++ t)
  rw [upper_append, upper_append, hup, hup] at h
  have hpre (t : Bytes) : upper implMark <+: upper implMark ++ upper t :=
    List.prefix_append _ _
  obtain ⟨m, hm, hmpre⟩ := render_starts (keyMarks.map upper)
    ((keyTexts host a.config.primary a.peer).map (Option.map upper)) _ (hpre ta)
  obtain ⟨m', hm', hmpre'⟩ := render_starts (keyMarks.map upper)
    ((keyTexts host b.config.primary b.peer).map (Option.map upper)) _ (hpre tb)
  have hclear : ∀ {c : TlsConn}, Readable host c → ∀ m ∈ keyMarks.map upper ++ [upper implMark],
      ¬m <:+: upper (keyOrigin c.peer) := by
    intro c hc m hm
    rw [← List.map_singleton, ← List.map_append] at hm
    obtain ⟨m₀, hm₀, rfl⟩ := List.mem_map.mp hm
    exact hc.1 m₀ hm₀
  obtain ⟨horigin, hrest⟩ := append_inj h (keyMarks_isMark m hm) (keyMarks_isMark m' hm') hmpre
    hmpre' (hclear ha m' hm') (hclear hb m hm)
  exact ⟨horigin, render_inj keyMarks_isMark keyMarks_apart rfl rfl ha.2 hb.2 (hpre ta) (hpre tb)
    hrest⟩

section
variable {host : KeyHost}

theorem flagText_inj {x y : Bool} (h : (flagText x).map upper = (flagText y).map upper) :
    x = y := by
  revert h
  cases x <;> cases y <;> simp [flagText]

theorem ite_text_inj {p q : Prop} [Decidable p] [Decidable q] {x y : Bytes}
    (h : (if p then some x else none : Text).map upper =
      (if q then some y else none : Text).map upper) : (p ↔ q) ∧ (p → upper x = upper y) := by
  by_cases hp : p <;> by_cases hq : q <;> simp_all

theorem hashText_inj (hsha : Function.Injective host.sha256) {x y : Text} (he : EmptyAgree x y)
    (h : (hashText host x).map upper = (hashText host y).map upper) : x = y := by
  apply he
  unfold hashText at h
  cases hx : nonEmpty x with
  | none =>
    cases hy : nonEmpty y with
    | none => rfl
    | some y => simp [hx, hy] at h
  | some x =>
    cases hy : nonEmpty y with
    | none => simp [hx, hy] at h
    | some y =>
      simp only [hx, hy, Option.map_some, Option.some.injEq] at h
      rw [hsha (hexBytes_inj h)]

theorem pathText_inj {x y : Text} (hagree : CaseAgree (pathText host x) (pathText host y) ∧
      PathAgree host x y ∧ EmptyAgree x y)
    (h : (pathText host x).map upper = (pathText host y).map upper) : x = y :=
  hagree.2.2 (hagree.2.1 (hagree.1 h))

theorem transport_inj {s t : UInt8}
    (h4 : (flagText (s == trnsprtUdp)).map upper = (flagText (t == trnsprtUdp)).map upper)
    (h5 : (flagText (s == trnsprtQuic)).map upper = (flagText (t == trnsprtQuic)).map upper)
    (h6 : (flagText (s == trnsprtUnix)).map upper = (flagText (t == trnsprtUnix)).map upper)
    (h : (if s = trnsprtTcp ∨ s = trnsprtUdp ∨ s = trnsprtQuic ∨ s = trnsprtUnix then none
        else some (fmtUint s.toNat) : Text).map upper =
      (if t = trnsprtTcp ∨ t = trnsprtUdp ∨ t = trnsprtQuic ∨ t = trnsprtUnix then none
        else some (fmtUint t.toNat) : Text).map upper) : s = t := by
  have h4 : s = trnsprtUdp ↔ t = trnsprtUdp := by simpa using flagText_inj h4
  have h5 : s = trnsprtQuic ↔ t = trnsprtQuic := by simpa using flagText_inj h5
  have h6 : s = trnsprtUnix ↔ t = trnsprtUnix := by simpa using flagText_inj h6
  by_cases hs : s = trnsprtTcp ∨ s = trnsprtUdp ∨ s = trnsprtQuic ∨ s = trnsprtUnix
  · by_cases ht : t = trnsprtTcp ∨ t = trnsprtUdp ∨ t = trnsprtQuic ∨ t = trnsprtUnix
    · rcases hs with hs | hs | hs | hs
      · rcases ht with ht | ht | ht | ht
        · rw [hs, ht]
        · rw [ht, h4.mpr ht]
        · rw [ht, h5.mpr ht]
        · rw [ht, h6.mpr ht]
      · rw [hs, h4.mp hs]
      · rw [hs, h5.mp hs]
      · rw [hs, h6.mp hs]
    · simp [hs, ht] at h
  · by_cases ht : t = trnsprtTcp ∨ t = trnsprtUdp ∨ t = trnsprtQuic ∨ t = trnsprtUnix
    · simp [hs, ht] at h
    · rw [if_neg hs, if_neg ht, Option.map_some, Option.map_some, Option.some.injEq, upper_fmtUint,
        upper_fmtUint] at h
      exact fmtUint_inj8 h

/-- The versions are printed in halves that say what they are. -/
theorem version_inj {v w : UInt8} {x y : UInt32} (hx : x.toNat % 65536 = 0)
    (hy : y.toNat % 65536 = 0)
    (h : (if v ≠ 0 ∨ x ≠ 0
        then some (fmtUint v.toNat ++ ascii "-" ++ fmtUint (x.toNat / 65536))
        else none : Text).map upper =
      (if w ≠ 0 ∨ y ≠ 0
        then some (fmtUint w.toNat ++ ascii "-" ++ fmtUint (y.toNat / 65536))
        else none : Text).map upper) :
    v = w ∧ x = y := by
  obtain ⟨hiff, heq⟩ := ite_text_inj h
  by_cases hv : v ≠ 0 ∨ x ≠ 0
  · have hdash : upper (ascii "-") = [45] := by decide
    have heq := heq hv
    simp only [upper_append, upper_fmtUint, hdash, List.append_assoc, List.singleton_append] at heq
    obtain ⟨hvw, hxy⟩ :=
      append_sep_inj (not_digit_mem (by decide) _) (not_digit_mem (by decide) _) heq
    have hx' := x.toNat_lt
    have hy' := y.toNat_lt
    have := fmtUint_inj (by omega) (by omega) hxy
    exact ⟨fmtUint_inj8 hvw, UInt32.toNat_inj.mp (by omega)⟩
  · have hw := mt hiff.mpr hv
    simp only [not_or, not_not] at hv hw
    exact ⟨hv.1.trans hw.1.symm, hv.2.trans hw.2.symm⟩

theorem origin_inj {a b : SslPeer} (h : upper (keyOrigin a) = upper (keyOrigin b)) :
    upper a.origin.hostname = upper b.origin.hostname ∧ a.origin.port = b.origin.port := by
  have hcolon : upper (ascii ":") = [58] := by decide
  simp only [keyOrigin, upper_append, upper_fmtUint, hcolon] at h
  -- the port is behind the last colon, so that the texts are read from the back
  have h := congrArg List.reverse h
  simp only [List.reverse_append, List.reverse_singleton, List.singleton_append] at h
  obtain ⟨hport, hhost⟩ := append_sep_inj (by simpa using not_digit_mem (by decide) _)
    (by simpa using not_digit_mem (by decide) _) h
  have ha := a.origin.port.toNat_lt
  have hb := b.origin.port.toNat_lt
  exact ⟨List.reverse_injective hhost,
    UInt16.toNat_inj.mp (fmtUint_inj (by omega) (by omega) (List.reverse_injective hport))⟩

end

/-! A session that is taken for a connection was put for one with the same settings, when the keys
of the two are unambiguous. -/

theorem upper_upper (s : Bytes) : upper (upper s) = upper s := by
  have h : ∀ c : UInt8, rawToupper (rawToupper c) = rawToupper c := by decide +kernel
  unfold upper
  rw [List.map_map]
  exact List.map_congr_left fun c _ => h c

theorem nonEmpty_upper (t : Text) : nonEmpty (t.map upper) = (nonEmpty t).map upper := by
  cases t with
  | none => rfl
  | some t => cases t <;> simp [nonEmpty, upper, Option.filter]

theorem typeText_inj {x y : Text} (h : CaseAgree (nonEmpty x) (nonEmpty y) ∧ EmptyAgree x y)
    (heq : (nonEmpty (x.map upper)).map upper = (nonEmpty (y.map upper)).map upper) : x = y := by
  refine h.2 (h.1 ?_)
  have hid (t : Text) : (nonEmpty (t.map upper)).map upper = (nonEmpty t).map upper := by
    rw [nonEmpty_upper, Option.map_map]
    exact congrFun (congrArg _ (funext upper_upper)) _
  rwa [hid, hid] at heq

section
variable {host : KeyHost} {a b : TlsConn} {tlsId ka kb : Bytes}
  (hka : sslPeerKeyBuild host a.config.primary a.peer tlsId = .ok ka)
  (hkb : sslPeerKeyBuild host b.config.primary b.peer tlsId = .ok kb)
include hka hkb

/-- Unambiguous keys that agree up to case are of the same settings. -/
theorem sameTls_of_keys (hsha : Function.Injective host.sha256) (hu : Unambiguous host a b)
    (h : upper ka = upper kb) (hcert : a.config.primary.clientcert = b.config.primary.clientcert) :
    SameTls a b := by
  have halike := alikeInKey_of_keys hu.readable.1 hu.readable.2 hka hkb h
  have hf := hu.faithful halike
  obtain ⟨horigin, htexts⟩ := halike
  obtain ⟨hhost, hport⟩ := origin_inj horigin
  simp only [keyTexts, List.map_cons, List.map_nil, List.cons.injEq, and_true] at htexts
  obtain ⟨hudp, hquic, hunix, htrns, hvp, hvh, hvs, -, -, hver, hopt, hcl, hcl13, hcurves, hsig,
    hca, hcap, hcrl, hiss, hcab, hissb, hcertb, hpin, -, hkey, hkeyb, hct, hkt⟩ := htexts
  have hvp : a.config.primary.verifypeer = b.config.primary.verifypeer := by
    simpa using flagText_inj hvp
  obtain ⟨hversion, hversionMax⟩ := version_inj hf.versions.1 hf.versions.2 hver
  have hoptions : a.config.primary.sslOptions = b.config.primary.sslOptions := by
    obtain ⟨hiff, heq⟩ := ite_text_inj hopt
    by_cases ho : a.config.primary.sslOptions ≠ 0
    · exact fmtHex_inj (heq ho)
    · rw [not_not.mp ho, not_not.mp (mt hiff.mpr ho)]
  have hpinned := hf.texts SslPrimaryConfig.pinnedKey (by simp)
  refine ⟨hhost, hport, transport_inj hudp hquic hunix htrns, hvp, ?_, flagText_inj hvs, hversion,
    hversionMax, hoptions, hf.lists.1 hcl, hf.lists.2.1 hcl13, hf.lists.2.2.1 hcurves,
    hf.lists.2.2.2 hsig, hpinned.2 (hpinned.1 hpin), hcert,
    hashText_inj hsha (hf.blobs _ (by simp)) hcertb,
    pathText_inj (hf.paths _ (by simp)) hkey,
    hashText_inj hsha (hf.blobs _ (by simp)) hkeyb,
    typeText_inj (hf.texts _ (by simp)) hct, typeText_inj (hf.texts _ (by simp)) hkt,
    fun hon => ?_⟩
  · simpa using flagText_inj hvh
  · simp only [← hvp, hon, if_true] at hca hcap hcrl hiss hcab hissb
    exact ⟨pathText_inj (hf.paths _ (by simp)) hca,
      pathText_inj (hf.paths _ (by simp)) hcap,
      pathText_inj (hf.paths _ (by simp)) hcrl,
      pathText_inj (hf.paths _ (by simp)) hiss,
      hashText_inj hsha (hf.blobs _ (by simp)) hcab, hashText_inj hsha (hf.blobs _ (by simp)) hissb⟩

/-- A slot named after a blob is not found by a connection whose key names a file. -/
theorem clientcert_of_filed (hu : Unambiguous host a b) {peer : ScachePeer}
    (hf : FiledUnder peer (some ka) (some a.config))
    (hm : peerMatches (some kb) (some b.config) peer = true) :
    upper ka = upper kb ∧ a.config.primary.clientcert = b.config.primary.clientcert := by
  obtain ⟨k, k', hk, hk', hup, hcert, -⟩ := hf
  obtain ⟨l, l', hl, hl', hup', hcert', -⟩ := (peerMatches_iff _ _ _).mp hm
  cases hk
  cases hl
  obtain rfl : k' = l' := Option.some.inj (hk'.symm.trans hl')
  have hkeys : upper ka = upper kb := hup.trans hup'.symm
  refine ⟨hkeys, ?_⟩
  rcases hcert with hcert | hcert
  · exact hcert.symm.trans hcert'
  · cases hc : a.config.primary.clientcert with
    | some c =>
      simp only [slotCert, hc] at hcert
      exact hcert.symm.trans hcert'
    | none =>
      cases hb : a.config.primary.certBlob with
      | none =>
        simp only [slotCert, hc, hb] at hcert
        exact hcert.symm.trans hcert'
      | some blob =>
        simp only [slotCert, hc, hb] at hcert
        have hbcert : b.config.primary.clientcert = some (ascii "cert-" ++ a.config.certBlobPtr) :=
          hcert'.symm.trans hcert
        have htexts := (alikeInKey_of_keys hu.readable.1 hu.readable.2 hka hkb hkeys).2
        simp only [keyTexts, List.map_cons, List.map_nil, List.cons.injEq, and_true] at htexts
        have hccert := htexts.2.2.2.2.2.2.2.2.2.2.2.2.2.2.2.2.2.2.2.2.2.2.2.1
        have hne : ascii "cert-" ++ a.config.certBlobPtr ≠ [] := by
          intro hnil
          have := congrArg List.length hnil
          simp [ascii] at this
        rw [hc, hbcert] at hccert
        simp [pathText, nonEmpty, Option.filter, hne] at hccert

end

/-- A cache without slots hands out nothing. -/
theorem taken_nil_of_no_peers {maxSessions : Nat} {calls : List (Nat × Call)} {st : Cached}
    (hrun : Runs.exec Cached.step (Cached.start 0 maxSessions) calls = some st) :
    st.taken = [] := by
  have h := Runs.exec_invariant (fun t : Cached => t.cache.peers = [] ∧ t.taken = [])
    (fun _ => True) hrun (fun _ _ => trivial) ⟨rfl, rfl⟩ ?_
  · exact h.2
  · rintro t ⟨now, call⟩ t' ⟨hpeers, htaken⟩ - hstep
    replace hstep := (Option.ite_none_left_eq_some.mp hstep).2
    cases call with
    | put cacheSession key config ietfTlsId validUntil =>
      cases hstep
      refine ⟨?_, htaken⟩
      cases cacheSession <;> simp [sslScachePut, addSession, hpeers]
    | take key config =>
      cases hstep
      simp [sslScacheTake, findPeerByKey, hpeers, htaken]
    | removeAll key config =>
      cases hstep
      simp [sslScacheRemoveAll, findPeerByKey, hpeers, htaken]

/-- A session goes only to connections with the settings of the one it was put for. -/
theorem scache_separates (host : KeyHost) (hsha : Function.Injective host.sha256)
    (maxPeers maxSessions : Nat) (hmax : 1 ≤ maxSessions) (calls : List (Nat × Call)) (st : Cached)
    (hrun : Runs.exec Cached.step (Cached.start maxPeers maxSessions) calls = some st)
    (tlsId : Bytes) (a b : TlsConn) (ka kb : Bytes)
    (hka : sslPeerKeyBuild host a.config.primary a.peer tlsId = .ok ka)
    (hkb : sslPeerKeyBuild host b.config.primary b.peer tlsId = .ok kb) (t : Taken)
    (ht : t ∈ st.taken) (htake : t.key = some kb ∧ t.config = some b.config)
    (hput : st.puts[t.session.serial]? = some (some ka, some a.config))
    (hu : Unambiguous host a b) : SameTls a b := by
  cases maxPeers with
  | zero =>
    rw [taken_nil_of_no_peers hrun] at ht
    cases ht
  | succ n =>
    have hinv : CacheInv maxSessions st :=
      Runs.exec_invariant (CacheInv maxSessions) (fun _ => True) hrun (fun _ _ => trivial)
        (CacheInv.start (Nat.succ_pos n)) fun h _ hstep => h.step hmax hstep
    obtain ⟨key, config, peer, hput', hf, hm⟩ := hinv.takenMatch t ht
    obtain ⟨rfl, rfl⟩ := Prod.mk.inj (Option.some.inj (hput'.symm.trans hput))
    rw [htake.1, htake.2] at hm
    obtain ⟨hkeys, hcert⟩ := clientcert_of_filed hka hkb hu hf hm
    exact sameTls_of_keys hka hkb hsha hu hkeys hcert

/-- A connection to `h`, port 443, that trusts `ca.pem` and pins a public key. -/
def pinnedConn (pinned : Bytes) : TlsConn where
  peer := ⟨⟨⟨[104, 116, 116, 112, 115], 2, 1, 1, false⟩, [104], none, 0, 443, false, false, false⟩,
    none, trnsprtTcp⟩
  config := ⟨{ caFile := some (ascii "ca.pem"), pinnedKey := some pinned }, []⟩

/-- Every file is in the directory `/`, where the program runs; the hash is never asked for. -/
def rootHost : KeyHost := ⟨fun path => some (47 :: path), id⟩

/-- A session is put for one connection and taken for another, with the keys made by `mbedtls`. -/
def pinnedCalls (p q : Bytes) : List (Nat × Call) :=
  [(10, .put true ((sslPeerKeyBuild rootHost (pinnedConn p).config.primary (pinnedConn p).peer
      (ascii "mbedtls")).toOption) (some (pinnedConn p).config) 0x0304 0),
   (10, .take ((sslPeerKeyBuild rootHost (pinnedConn q).config.primary (pinnedConn q).peer
      (ascii "mbedtls")).toOption) (some (pinnedConn q).config))]

theorem scache_separates_pinned :
    ∃ st, Runs.exec Cached.step (Cached.start 25 2)
        (pinnedCalls (ascii "sha256//YQ==") (ascii "sha256//YQ==")) = some st ∧
      st.taken.map (·.session.serial) = [0] ∧
      SameTls (pinnedConn (ascii "sha256//YQ==")) (pinnedConn (ascii "sha256//YQ==")) := by
  have hread : Readable rootHost (pinnedConn (ascii "sha256//YQ==")) := by
    refine ⟨by decide +kernel, Tagged.clear_of_not_mem keyMarks_isMark ?_⟩
    have hall : ∀ t ∈ (keyTexts rootHost (pinnedConn (ascii "sha256//YQ==")).config.primary
        (pinnedConn (ascii "sha256//YQ==")).peer).map (Option.map upper),
        ∀ u ∈ t, (58 : UInt8) ∉ u := by decide +kernel
    exact fun t ht => hall _ ht t rfl
  refine ⟨_, rfl, by decide +kernel, ?_⟩
  obtain ⟨k, hk⟩ : ∃ k, sslPeerKeyBuild rootHost (pinnedConn (ascii "sha256//YQ==")).config.primary
      (pinnedConn (ascii "sha256//YQ==")).peer (ascii "mbedtls") = .ok k := ⟨_, rfl⟩
  refine scache_separates rootHost Function.injective_id 25 2 (by decide)
    (pinnedCalls (ascii "sha256//YQ==") (ascii "sha256//YQ==")) _ rfl
      (ascii "mbedtls") _ _ k k hk hk
    _ (List.mem_singleton.mpr rfl) ⟨congrArg Except.toOption hk, rfl⟩
    (congrArg (fun e => some (Except.toOption e, some _)) hk) ⟨⟨hread, hread⟩, fun _ => ?_⟩
  have hcase (x : Text) : CaseAgree x x := fun _ => rfl
  have hempty (x : Text) : EmptyAgree x x := fun _ => rfl
  exact ⟨⟨by decide, by decide⟩, ⟨hcase _, hcase _, hcase _, hcase _⟩,
    fun _ _ => ⟨hcase _, hempty _⟩, fun _ _ => ⟨hcase _, fun _ => rfl, hempty _⟩,
      fun _ _ => hempty _⟩

/-- Two pins that differ in the case of letters share a session. -/
theorem scache_shared_across_pins :
    ∃ st, Runs.exec Cached.step (Cached.start 25 2)
        (pinnedCalls (ascii "sha256//YQ==") (ascii "sha256//yq==")) = some st ∧
      st.taken.map (·.session.serial) = [0] ∧
      ¬SameTls (pinnedConn (ascii "sha256//YQ==")) (pinnedConn (ascii "sha256//yq==")) := by
  refine ⟨_, rfl, by decide +kernel, fun h => ?_⟩
  exact absurd h.pinnedKey (by decide +kernel)

end Gurl.Vtls
