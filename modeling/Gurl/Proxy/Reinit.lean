import Gurl.Proxy.Connect
import Gurl.Lib.Lockstep
import Gurl.Lib.Runs

/-! What `tunnel_reinit` leaves of the last response: the flag for chunked encoding. Two tunnels
that differ in nothing but their chunkers and the allocations of their buffers read a header block
alike. -/

namespace Gurl.Proxy

open Strcase
open Urlglob (isBlank)

/-- How the body of a response is framed, and what becomes of the connection. -/
structure Framing where
  keepon : Keepon
  cl : Nat
  chunkedEncoding : Bool
  closeConnection : Bool
  deriving DecidableEq

def Tunnel.framing (ts : Tunnel) : Framing :=
  ⟨ts.keepon, ts.cl, ts.chunkedEncoding, ts.closeConnection⟩

section

variable {σ : Type} (host : Host σ)

/-- The framing at the end of a header block, if the input goes that far. -/
def readHeaders : List Recv → Conn σ → Except Curlcode (Option Framing)
  | [], _ => .ok none
  | r :: rest, c => do
    let c ← recvStep host r c
    if c.ts.keepon = .connect then readHeaders rest c else .ok (some c.ts.framing)

/-- Send the next request and read the header block of its response. -/
def classify (input : List Recv) (c : Conn σ) : Except Curlcode (Option Framing) := do
  let c ← startConnect host c
  readHeaders host input { c with ts := goState .receive (goState .connect c.ts) }

end

/-- What the next response is taken for does not depend on what the tunnel has been through. -/
def Independent (ts : Tunnel) : Prop :=
  ∀ (σ : Type) (host : Host σ) (httpcode httpproxycode : Nat) (data : σ) (input : List Recv),
    classify host input ⟨tunnelReinit ts, httpcode, httpproxycode, data⟩ =
      classify host input ⟨tunnelReinit .create, httpcode, httpproxycode, data⟩

/-! ### Tunnels that read alike -/

/-- The second connection differs from the first one in its chunker and in how much memory its
receive buffer has. -/
inductive Alike {σ : Type} : Conn σ → Conn σ → Prop
  | mk (c : Conn σ) (bf : Dynbuf) (ch : Http.Decoder) (content : bf.content = c.ts.rcvbuf.content)
      (toobig : bf.toobig = c.ts.rcvbuf.toobig) :
      Alike c { c with ts := { c.ts with rcvbuf := bf, ch } }

section

variable {σ : Type} {host : Host σ} {c d : Conn σ}

theorem inputAuth_alike (h : Alike c d) (header : Bytes) :
    Lockstep Alike (inputAuth host c header) (inputAuth host d header) := by
  cases h with
  | mk bf ch content toobig =>
    simp only [inputAuth]
    cases copyHeaderValue header with
    | none => exact .error _
    | some auth => exact .same _ fun data => .ok (.mk _ _ _ content toobig)

theorem contentLength_alike (h : Alike c d) (header : Bytes) :
    Lockstep Alike (contentLength c header) (contentLength d header) := by
  cases h with
  | mk bf ch content toobig =>
    simp only [contentLength]
    cases Ftplist.strNumblanks (header.drop (ascii "Content-Length:").length) with
    | error e => exact .error _
    | ok n => exact .ok (.mk _ _ _ content toobig)

theorem close_alike (h : Alike c d) : Alike c.close d.close := by
  cases h with
  | mk bf ch content toobig => exact .mk _ _ _ content toobig

theorem startChunked_alike (h : Alike c d) : Alike (startChunked c) (startChunked d) := by
  cases h with
  | mk bf ch content toobig => exact .mk (startChunked c) _ _ content toobig

theorem statusLine_alike (h : Alike c d) (header : Bytes) :
    Lockstep Alike
      (match statusCode header with
      | none => .ok c
      | some code => .ok { c with httpcode := code, httpproxycode := code } : Except Curlcode _)
      (match statusCode header with
      | none => .ok d
      | some code => .ok { d with httpcode := code, httpproxycode := code }) := by
  cases statusCode header with
  | none => exact .ok h
  | some code =>
    cases h with
    | mk bf ch content toobig => exact .ok (.mk _ _ _ content toobig)

theorem httpcode_alike (h : Alike c d) : d.httpcode = c.httpcode := by
  cases h with
  | mk bf ch content toobig => rfl

theorem onRespHeader_alike (h : Alike c d) (header : Bytes) :
    Lockstep Alike (onRespHeader host c header) (onRespHeader host d header) := by
  simp only [onRespHeader, httpcode_alike h]
  apply Lockstep.ite
  · intro _
    exact inputAuth_alike h header
  intro _
  apply Lockstep.ite
  · intro _
    exact .ite (fun _ => .ok h) fun _ => contentLength_alike h header
  intro _
  apply Lockstep.ite
  · intro _
    exact .ok (close_alike h)
  intro _
  apply Lockstep.ite
  · intro _
    apply Lockstep.ite
    · intro _
      exact .ok h
    · intro _
      exact .ite (fun _ => .ok (startChunked_alike h)) fun _ => .ok h
  intro _
  apply Lockstep.ite
  · intro _
    exact .ok (close_alike h)
  · intro _
    exact statusLine_alike h header

theorem onRespHeaderUdp_alike (h : Alike c d) (header : Bytes) :
    Lockstep Alike (onRespHeaderUdp host c header) (onRespHeaderUdp host d header) := by
  simp only [onRespHeaderUdp, httpcode_alike h]
  apply Lockstep.ite
  · intro _
    exact inputAuth_alike h header
  intro _
  apply Lockstep.ite
  · intro _
    exact .ite (fun _ => .ok h) fun _ => contentLength_alike h header
  intro _
  apply Lockstep.ite
  · intro _
    apply Lockstep.ite
    · intro _
      exact .ok h
    · intro _
      exact .ite (fun _ => .ok (startChunked_alike h)) fun _ => .ok h
  intro _
  apply Lockstep.ite
  · intro _
    exact .ok h
  intro _
  apply Lockstep.ite
  · intro _
    exact .ok (close_alike h)
  intro _
  apply Lockstep.ite
  · intro _
    exact .ok (close_alike h)
  · intro _
    exact statusLine_alike h header

theorem respHeader_alike (h : Alike c d) (header : Bytes) :
    Lockstep Alike (respHeader host c header) (respHeader host d header) :=
  .ite (fun _ => onRespHeaderUdp_alike h header) fun _ => onRespHeader_alike h header

theorem reset_alike (h : Alike c d) :
    Alike { c with ts := { c.ts with rcvbuf := c.ts.rcvbuf.reset } }
      { d with ts := { d.ts with rcvbuf := d.ts.rcvbuf.reset } } := by
  cases h with
  | mk bf ch content toobig =>
    exact .mk { c with ts := { c.ts with rcvbuf := c.ts.rcvbuf.reset } } _ _
      (by rw [Dynbuf.content_reset, Dynbuf.content_reset]) toobig

theorem singleHeader_alike (h : Alike c d) :
    Lockstep Alike (singleHeader host c) (singleHeader host d) := by
  cases h with
  | mk bf ch content toobig =>
    simp only [singleHeader, content]
    apply Lockstep.ite
    · intro _
      exact .error _
    · intro _
      apply Lockstep.same
      intro data
      apply Lockstep.same
      intro data
      apply Lockstep.ite
      · intro _
        exact .ok (.mk _ _ _ content toobig)
      · intro _
        have hline := Alike.mk
          { c with ts := { c.ts with headerlines := c.ts.headerlines + 1 }, data } bf ch content
          toobig
        have hresp := @respHeader_alike _ host _ _ hline c.ts.rcvbuf.content
        exact hresp.bind fun a b hab => .ok (reset_alike hab)

theorem dropEnd_le (p : Prop) [Decidable p] (hd : Bytes) :
    (if p then hd.dropLast else hd).length ≤ hd.length := by
  split
  · exact (List.dropLast_prefix hd).length_le
  · exact Nat.le_refl _

theorem foldLength_le (hd : Bytes) : foldLength hd ≤ hd.length := by
  apply Nat.le_trans (List.rdropWhile_prefix _ _).length_le
  apply Nat.le_trans (dropEnd_le _ _)
  exact dropEnd_le _ _

theorem httpToFold_alike (h : Alike c d) :
    Alike { c with ts := { c.ts with
        rcvbuf := httpToFold c.ts.rcvbuf, leadingUnfold := true, maybeFolded := false } }
      { d with ts := { d.ts with
        rcvbuf := httpToFold d.ts.rcvbuf, leadingUnfold := true, maybeFolded := false } } := by
  cases h with
  | mk bf ch content toobig =>
    have hle : foldLength c.ts.rcvbuf.content ≤ c.ts.rcvbuf.content.length :=
      foldLength_le c.ts.rcvbuf.content
    have hleft := Dynbuf.setlen_spec c.ts.rcvbuf hle
    have hright := @Dynbuf.setlen_spec bf (foldLength bf.content) (foldLength_le bf.content)
    refine .mk { c with ts := { c.ts with
      rcvbuf := httpToFold c.ts.rcvbuf, leadingUnfold := true, maybeFolded := false } } _ ch ?_ ?_
    · exact hright.1.trans (by rw [content]; exact hleft.1.symm)
    · exact hright.2.trans (toobig.trans hleft.2.symm)

theorem addByte_alike (b : UInt8) (h : Alike c d) :
    Lockstep Alike (addByte b c) (addByte b d) := by
  cases h with
  | mk bf ch content toobig =>
    simp only [addByte]
    by_cases hfit : [b].length + c.ts.rcvbuf.content.length + 1 ≤ c.ts.rcvbuf.toobig
    · have hleft := Dynbuf.nappend_ok hfit
      have hright := @Dynbuf.nappend_ok bf [b] (by rw [content, toobig]; exact hfit)
      generalize hx : c.ts.rcvbuf.nappend [b] true = x at hleft
      generalize hy : bf.nappend [b] true = y at hright
      obtain ⟨x, result⟩ := x
      obtain ⟨y, result'⟩ := y
      obtain ⟨rfl, hxc, hxt⟩ := hleft
      obtain ⟨rfl, hyc, hyt⟩ := hright
      refine .ok (.mk { c with ts := { c.ts with rcvbuf := x } } y ch ?_ ?_)
      · exact hyc.trans (by rw [content]; exact hxc.symm)
      · exact hyt.trans (toobig.trans hxt.symm)
    · rw [Dynbuf.nappend_error (by omega), Dynbuf.nappend_error (by rw [content, toobig]; omega)]
      exact .error _

theorem lineByte_alike (b : UInt8) (h : Alike c d) :
    Lockstep Alike (lineByte host b c) (lineByte host b d) := by
  apply (addByte_alike b h).bind
  intro c d h
  cases h with
  | mk bf ch content toobig =>
    simp only [content]
    apply Lockstep.ite
    · intro _
      exact .ok (.mk _ _ _ content toobig)
    · intro _
      exact .ite (fun _ => singleHeader_alike (.mk _ _ _ content toobig))
        fun _ => .ok (.mk _ _ _ content toobig)

theorem unfoldByte_alike (b : UInt8) (h : Alike c d) :
    Lockstep Alike (unfoldByte host b c) (unfoldByte host b d) := by
  have hline := @lineByte_alike _ host _ _ b h
  have hspace := addByte_alike 32 h
  cases h with
  | mk bf ch content toobig =>
    simp only [unfoldByte]
    apply Lockstep.ite
    · intro _
      apply Lockstep.ite
      · intro _
        exact .ok (.mk _ _ _ content toobig)
      · intro _
        apply hspace.bind
        intro c d h
        cases h with
        | mk bf ch content toobig => exact lineByte_alike b (.mk _ _ _ content toobig)
    · intro _
      exact hline

theorem notFolded_alike (h : Alike c d) :
    Alike { c with ts := { c.ts with maybeFolded := false } }
      { d with ts := { d.ts with maybeFolded := false } } := by
  cases h with
  | mk bf ch content toobig => exact .mk _ _ _ content toobig

theorem headerByte_alike (b : UInt8) (h : Alike c d) :
    Lockstep Alike (headerByte host b c) (headerByte host b d) := by
  have hfold : d.ts.maybeFolded = c.ts.maybeFolded := by cases h with | mk => rfl
  simp only [headerByte, hfold]
  apply Lockstep.ite
  · intro _
    apply Lockstep.ite
    · intro _
      exact unfoldByte_alike b (httpToFold_alike h)
    · intro _
      apply (singleHeader_alike h).bind
      intro c d h
      exact unfoldByte_alike b (notFolded_alike h)
  · intro _
    exact unfoldByte_alike b h

theorem pendingLine_alike (h : Alike c d) :
    Lockstep Alike (pendingLine host c) (pendingLine host d) := by
  have hfold : d.ts.maybeFolded = c.ts.maybeFolded := by cases h with | mk => rfl
  simp only [pendingLine, hfold]
  apply Lockstep.ite
  · intro _
    exact (singleHeader_alike h).bind fun c d h => .ok (notFolded_alike h)
  · intro _
    exact .ok h

theorem recvEof_alike (h : Alike c d) :
    Lockstep Alike (recvEof host c) (recvEof host d) := by
  apply (pendingLine_alike h).bind
  intro c d h
  cases h with
  | mk bf ch content toobig =>
    exact .ite (fun _ => .ok (.mk _ _ _ content toobig)) fun _ => .error _

/-- Within a header block the chunker plays no part. -/
theorem recvStep_alike (r : Recv) (h : Alike c d) (hkeepon : c.ts.keepon = .connect) :
    Lockstep Alike (recvStep host r c) (recvStep host r d) := by
  cases h with
  | mk bf ch content toobig =>
    cases r with
    | error result => exact .error result
    | eof => exact .same _ fun data => recvEof_alike (.mk _ _ _ content toobig)
    | byte b =>
      apply Lockstep.same
      intro data
      have hnot : ¬c.ts.keepon = .ignore := by rw [hkeepon]; decide
      simp only [if_neg hnot]
      exact headerByte_alike b (.mk { c with data } _ _ content toobig)

theorem readHeaders_alike (input : List Recv) (h : Alike c d) (hkeepon : c.ts.keepon = .connect) :
    readHeaders host input c = readHeaders host input d := by
  induction input generalizing c d with
  | nil => rfl
  | cons r rest ih =>
    apply Lockstep.eq
    apply (recvStep_alike r h hkeepon).bind
    intro c d h
    have hframing : d.ts.framing = c.ts.framing := by cases h with | mk => rfl
    have hd : d.ts.keepon = c.ts.keepon := congrArg Framing.keepon hframing
    by_cases hc : c.ts.keepon = .connect
    · rw [if_pos hc, if_pos (hd.trans hc), ih h hc]
      exact .refl _
    · rw [if_neg hc, if_neg (hd ▸ hc), hframing]
      exact .refl _

/-! ### The flag along a run -/

/-- The line, in a response with this status code, makes the tunnel expect chunks. -/
def lineTells (udpTunnel : Bool) (httpcode : Nat) (header : Bytes) : Bool :=
  saysChunked header && httpcode / 100 != 2 && !(udpTunnel && httpcode == 101)

/-- The event completes such a line. -/
def tellsChunked (host : Host σ) (c : Conn σ) (e : Event) : Bool :=
  let tells := c.ts.maybeFolded && lineTells host.udpTunnel c.httpcode c.ts.rcvbuf.content
  match e with
  | .recv (.byte b) => c.ts.keepon != .ignore && !isBlank b && tells
  | .recv .eof => tells
  | _ => false

theorem tellsChunked_byte (host : Host σ) (c : Conn σ) (b : UInt8) :
    tellsChunked host c (.recv (.byte b)) = (c.ts.keepon != .ignore && !isBlank b &&
      (c.ts.maybeFolded && lineTells host.udpTunnel c.httpcode c.ts.rcvbuf.content)) := rfl

/-- The flag is set if `b` says so, and the limit for lines is what it was. -/
structure Tells (b : Bool) (c c' : Conn σ) : Prop where
  chunked : c'.ts.chunkedEncoding = (c.ts.chunkedEncoding || b)
  toobig : c'.ts.rcvbuf.toobig = c.ts.rcvbuf.toobig

theorem Tells.of_eq {c c' : Conn σ} (hchunked : c'.ts.chunkedEncoding = c.ts.chunkedEncoding)
    (htoobig : c'.ts.rcvbuf.toobig = c.ts.rcvbuf.toobig) : Tells false c c' :=
  ⟨by rw [hchunked, Bool.or_false], htoobig⟩

theorem Tells.refl (c : Conn σ) : Tells false c c := .of_eq rfl rfl

theorem Tells.trans {b b' : Bool} {c c' c'' : Conn σ} (h : Tells b c c') (h' : Tells b' c' c'') :
    Tells (b || b') c c'' :=
  ⟨by rw [h'.chunked, h.chunked, Bool.or_assoc], h'.toobig.trans h.toobig⟩

/-- The first letter of a line, in upper case. -/
def initial (header : Bytes) : Option UInt8 := header.head?.map rawToupper

theorem initial_of_strnequal {a : UInt8} {text header : Bytes}
    (h : strnequal (a :: text) header (a :: text).length = true ∨
      strnequal header (a :: text) (a :: text).length = true) :
    initial header = some (rawToupper a) := by
  cases header with
  | nil => exact absurd h (by simp [strnequal, ncasecompare])
  | cons d header =>
    have hd : rawToupper d = rawToupper a := by
      simp only [strnequal, List.length_cons, ncasecompare, Bool.and_eq_true, beq_iff_eq] at h
      exact h.elim (·.1.symm) (·.1)
    exact congrArg some hd

theorem initial_of_compareheader {a : UInt8} {text header content : Bytes}
    (h : compareheader header (a :: text) content = true) :
    initial header = some (rawToupper a) := by
  apply initial_of_strnequal
  by_contra hne
  rw [compareheader, Bool.eq_false_iff.mpr fun hn => hne (.inr hn)] at h
  exact absurd h (by simp)

theorem initial_of_lineTells {udp : Bool} {code : Nat} {header : Bytes}
    (h : lineTells udp code header = true) : initial header = some 84 := by
  simp only [lineTells, Bool.and_eq_true] at h
  exact @initial_of_compareheader 84 (ascii "ransfer-Encoding:") _ _ h.1.1

/-- A line with another first letter does not speak of chunks. -/
theorem lineTells_of_initial {udp : Bool} {code : Nat} {header : Bytes} {a : UInt8}
    (h : initial header = some a) (ha : a ≠ 84) : lineTells udp code header = false := by
  by_contra hne
  rw [Bool.not_eq_false] at hne
  exact ha (Option.some.inj (h.symm.trans (initial_of_lineTells hne)))

theorem lineTells_of_checkPrefix {udp : Bool} {code : Nat} {header : Bytes}
    (h : ¬checkPrefix (ascii "Transfer-Encoding:") header = true) :
    lineTells udp code header = false := by
  have hchunked : saysChunked header = false := by
    rw [saysChunked, compareheader, if_pos]
    rw [Bool.not_eq_true', Bool.eq_false_iff, ne_eq, strnequal_iff]
    rw [checkPrefix, strnequal_iff] at h
    exact fun heq => h heq.symm
  rw [lineTells, hchunked, Bool.false_and, Bool.false_and]

theorem authRequest_quiet {udp : Bool} {code : Nat} {header : Bytes}
    (h : authRequest code header = true) : lineTells udp code header = false := by
  simp only [authRequest, Bool.or_eq_true, Bool.and_eq_true] at h
  rcases h with h | h
  · exact lineTells_of_initial (initial_of_strnequal (.inl h.1)) (by decide)
  · exact lineTells_of_initial (initial_of_strnequal (.inl h.1)) (by decide)

theorem inputAuth_tells (c : Conn σ) (header : Bytes) :
    Yields (Tells false c) (inputAuth host c header) := by
  simp only [inputAuth]
  cases copyHeaderValue header with
  | none => exact .error _
  | some auth => exact .after _ fun data => .ok (.of_eq rfl rfl)

theorem contentLength_tells (c : Conn σ) (header : Bytes) :
    Yields (Tells false c) (contentLength c header) := by
  simp only [contentLength]
  cases Ftplist.strNumblanks (header.drop (ascii "Content-Length:").length) with
  | error e => exact .error _
  | ok n => exact .ok (.of_eq rfl rfl)

theorem statusLine_tells (c : Conn σ) (header : Bytes) :
    Yields (Tells false c)
      (match statusCode header with
      | none => .ok c
      | some code =>
        .ok { c with httpcode := code, httpproxycode := code } : Except Curlcode _) := by
  cases statusCode header with
  | none => exact .ok (.refl c)
  | some code => exact .ok (.of_eq rfl rfl)

theorem startChunked_tells (c : Conn σ) : Tells true c (startChunked c) :=
  ⟨(Bool.or_true _).symm, rfl⟩

theorem onRespHeader_tells (c : Conn σ) (header : Bytes) :
    Yields (Tells (lineTells false c.httpcode header) c) (onRespHeader host c header) := by
  simp only [onRespHeader]
  apply Yields.ite
  · intro h
    rw [authRequest_quiet h]
    exact inputAuth_tells c header
  intro _
  apply Yields.ite
  · intro h
    rw [lineTells_of_initial (initial_of_strnequal (.inl h)) (by decide)]
    exact .ite (fun _ => .ok (.refl c)) fun _ => contentLength_tells c header
  intro _
  apply Yields.ite
  · intro h
    rw [lineTells_of_initial (initial_of_compareheader h) (by decide)]
    exact .ok (.of_eq rfl rfl)
  intro _
  apply Yields.ite
  · intro _
    apply Yields.ite
    · intro h2xx
      rw [show lineTells false c.httpcode header = false by simp [lineTells, h2xx]]
      exact .ok (.refl c)
    · intro hcode
      have hchunked : lineTells false c.httpcode header = saysChunked header := by
        simp [lineTells, hcode]
      rw [hchunked]
      apply Yields.ite
      · intro h
        rw [h]
        exact .ok (startChunked_tells c)
      · intro h
        rw [Bool.eq_false_iff.mpr h]
        exact .ok (.refl c)
  intro hte
  rw [lineTells_of_checkPrefix hte]
  exact .ite (fun _ => .ok (.of_eq rfl rfl)) fun _ => statusLine_tells c header

theorem onRespHeaderUdp_tells (c : Conn σ) (header : Bytes) :
    Yields (Tells (lineTells true c.httpcode header) c) (onRespHeaderUdp host c header) := by
  simp only [onRespHeaderUdp]
  apply Yields.ite
  · intro h
    rw [authRequest_quiet h]
    exact inputAuth_tells c header
  intro _
  apply Yields.ite
  · intro h
    rw [lineTells_of_initial (initial_of_strnequal (.inl h)) (by decide)]
    exact .ite (fun _ => .ok (.refl c)) fun _ => contentLength_tells c header
  intro _
  apply Yields.ite
  · intro _
    apply Yields.ite
    · intro hcode
      have hquiet : lineTells true c.httpcode header = false := by
        rcases hcode with h | h
        · simp [lineTells, h]
        · simp [lineTells, h]
      rw [hquiet]
      exact .ok (.refl c)
    · intro hcode
      rw [not_or] at hcode
      have hchunked : lineTells true c.httpcode header = saysChunked header := by
        rw [lineTells, bne_iff_ne.mpr hcode.1, beq_eq_false_iff_ne.mpr hcode.2, Bool.and_true,
          Bool.and_false, Bool.not_false, Bool.and_true]
      rw [hchunked]
      apply Yields.ite
      · intro h
        rw [h]
        exact .ok (startChunked_tells c)
      · intro h
        rw [Bool.eq_false_iff.mpr h]
        exact .ok (.refl c)
  intro hte
  rw [lineTells_of_checkPrefix hte]
  apply Yields.ite
  · intro _
    exact .ok (.refl c)
  intro _
  apply Yields.ite
  · intro _
    exact .ok (.of_eq rfl rfl)
  intro _
  exact .ite (fun _ => .ok (.of_eq rfl rfl)) fun _ => statusLine_tells c header

theorem respHeader_tells (c : Conn σ) (header : Bytes) :
    Yields (Tells (lineTells host.udpTunnel c.httpcode header) c) (respHeader host c header) := by
  rw [respHeader]
  cases host.udpTunnel with
  | true => exact onRespHeaderUdp_tells c header
  | false => exact onRespHeader_tells c header

/-- The empty line does not speak of chunks. -/
theorem lineTells_of_newline {udp : Bool} {code : Nat} {header : Bytes}
    (h : header.head?.any isNewline = true) : lineTells udp code header = false := by
  cases header with
  | nil => exact absurd h (by simp)
  | cons d header =>
    have hd : d = 10 ∨ d = 13 := by simpa [isNewline] using h
    rcases hd with rfl | rfl
    · exact lineTells_of_initial rfl (by decide)
    · exact lineTells_of_initial rfl (by decide)

theorem singleHeader_tells (c : Conn σ) :
    Yields (Tells (lineTells host.udpTunnel c.httpcode c.ts.rcvbuf.content) c)
      (singleHeader host c) := by
  simp only [singleHeader]
  apply Yields.ite
  · intro _
    exact .error _
  intro _
  apply Yields.after
  intro data
  apply Yields.after
  intro data
  apply Yields.ite
  · intro h
    rw [lineTells_of_newline h]
    exact .ok (.of_eq rfl rfl)
  · intro _
    apply (respHeader_tells _ c.ts.rcvbuf.content).bind
    intro d hd
    exact .ok ⟨hd.chunked, hd.toobig⟩

theorem addByte_tells (b : UInt8) (c : Conn σ) : Yields (Tells false c) (addByte b c) := by
  simp only [addByte]
  by_cases hfit : [b].length + c.ts.rcvbuf.content.length + 1 ≤ c.ts.rcvbuf.toobig
  · have hspec := Dynbuf.nappend_ok hfit
    generalize c.ts.rcvbuf.nappend [b] true = x at hspec
    obtain ⟨x, result⟩ := x
    obtain ⟨rfl, -, htoobig⟩ := hspec
    exact .ok (.of_eq rfl htoobig)
  · rw [Dynbuf.nappend_error (by omega)]
    exact .error _

theorem lineByte_tells (b : UInt8) (c : Conn σ) : Yields (Tells false c) (lineByte host b c) := by
  apply (addByte_tells b c).bind
  intro d hd
  apply Yields.ite
  · intro _
    exact .ok hd
  intro _
  apply Yields.ite
  · intro hempty
    have hsingle := @singleHeader_tells _ host d
    rw [lineTells_of_newline hempty] at hsingle
    exact hsingle.mono fun e he => hd.trans he
  · intro _
    exact .ok (hd.trans (.of_eq rfl rfl))

theorem unfoldByte_tells (b : UInt8) (c : Conn σ) :
    Yields (Tells false c) (unfoldByte host b c) := by
  simp only [unfoldByte]
  apply Yields.ite
  · intro _
    apply Yields.ite
    · intro _
      exact .ok (.refl c)
    · intro _
      apply (addByte_tells 32 c).bind
      intro d hd
      exact (lineByte_tells b _).mono fun e he => hd.trans ⟨he.chunked, he.toobig⟩
  · intro _
    exact lineByte_tells b c

theorem httpToFold_toobig (bf : Dynbuf) : (httpToFold bf).toobig = bf.toobig :=
  (bf.setlen_spec (foldLength_le bf.content)).2

theorem headerByte_tells (b : UInt8) (c : Conn σ) :
    Yields (Tells (!isBlank b &&
      (c.ts.maybeFolded && lineTells host.udpTunnel c.httpcode c.ts.rcvbuf.content)) c)
        (headerByte host b c) := by
  simp only [headerByte]
  apply Yields.ite
  · intro hfold
    rw [hfold, Bool.true_and]
    apply Yields.ite
    · intro hblank
      rw [hblank]
      exact (unfoldByte_tells b _).mono fun d hd =>
        ⟨hd.chunked, hd.toobig.trans (httpToFold_toobig _)⟩
    · intro hblank
      rw [Bool.eq_false_iff.mpr hblank]
      apply (singleHeader_tells c).bind
      intro d hd
      have hunfold := @unfoldByte_tells _ host b
        { d with ts := { d.ts with maybeFolded := false } }
      refine hunfold.mono fun e he => ⟨?_, he.toobig.trans hd.toobig⟩
      rw [he.chunked, Bool.or_false]
      exact hd.chunked
  · intro hfold
    rw [Bool.eq_false_iff.mpr hfold, Bool.false_and, Bool.and_false]
    exact unfoldByte_tells b c

theorem ignoreByte_tells (b : UInt8) (c : Conn σ) :
    Yields (Tells false c) (ignoreByte host b c) := by
  simp only [ignoreByte]
  apply Yields.ite
  · intro _
    split
    · exact .ok (.of_eq rfl rfl)
    · exact .error _
    · exact .error _
  intro _
  exact .ite (fun _ => .ok (.of_eq rfl rfl)) fun _ => .ok (.refl c)

theorem pendingLine_tells (c : Conn σ) :
    Yields (Tells (c.ts.maybeFolded &&
      lineTells host.udpTunnel c.httpcode c.ts.rcvbuf.content) c) (pendingLine host c) := by
  simp only [pendingLine]
  apply Yields.ite
  · intro hfold
    rw [hfold, Bool.true_and]
    exact (singleHeader_tells c).bind fun d hd => .ok ⟨hd.chunked, hd.toobig⟩
  · intro hfold
    rw [Bool.eq_false_iff.mpr hfold, Bool.false_and]
    exact .ok (.refl c)

/-- What one event does to the flag. -/
theorem recvStep_tells (r : Recv) (c : Conn σ) :
    Yields (Tells (tellsChunked host c (.recv r)) c) (recvStep host r c) := by
  cases r with
  | error result => exact .error _
  | eof =>
    apply Yields.after
    intro data
    apply (pendingLine_tells _).bind
    intro d hd
    exact .ite (fun _ => .ok ⟨hd.chunked, hd.toobig⟩) fun _ => .error _
  | byte b =>
    apply Yields.after
    intro data
    rw [tellsChunked_byte]
    by_cases hkeepon : c.ts.keepon = .ignore
    · have heq : (c.ts.keepon != .ignore) = false := by
        rw [hkeepon]
        rfl
      rw [heq, Bool.false_and, Bool.false_and, if_pos hkeepon]
      exact (ignoreByte_tells b _).mono fun d hd => ⟨hd.chunked, hd.toobig⟩
    · rw [bne_iff_ne.mpr hkeepon, Bool.true_and, if_neg hkeepon]
      exact (headerByte_tells b _).mono fun d hd => ⟨hd.chunked, hd.toobig⟩

theorem goState_toobig (newState : TunnelState) (ts : Tunnel) :
    (goState newState ts).rcvbuf.toobig = ts.rcvbuf.toobig := by
  simp only [goState]
  split
  · rfl
  · cases newState <;> rfl

theorem goState_chunked (newState : TunnelState) (ts : Tunnel) :
    (goState newState ts).chunkedEncoding = ts.chunkedEncoding := by
  simp only [goState]
  split
  · rfl
  · cases newState <;> rfl

theorem goState_tells (newState : TunnelState) (c : Conn σ) :
    Tells false c { c with ts := goState newState c.ts } :=
  .of_eq (goState_chunked newState c.ts) (goState_toobig newState c.ts)

theorem startConnect_tells (c : Conn σ) : Yields (Tells false c) (startConnect host c) :=
  .after _ fun _ => .ok (.of_eq rfl rfl)

theorem endResponse_tells (c : Conn σ) : Yields (Tells false c) (endResponse host c) := by
  simp only [endResponse]
  apply Yields.ite
  · intro _
    exact .after _ fun data => .ok (.of_eq rfl rfl)
  · intro _
    exact .ok (.refl c)

theorem step_tells {c' : Conn σ} {e : Event} (h : step host c e = some c') :
    Tells (tellsChunked host c e) c c' := by
  simp only [step] at h
  split at h
  · obtain ⟨d, hd, rfl⟩ := Option.map_eq_some_iff.mp h
    exact ((startConnect_tells c).toOption hd).trans (goState_tells _ d)
  · split at h
    · cases h
      refine .of_eq ?_ ?_
      · split
        · exact goState_chunked _ _
        · rfl
      · split
        · exact goState_toobig _ _
        · rfl
    · cases h
  · split at h
    · cases h
    · exact (recvStep_tells _ c).toOption h
  · split at h
    · obtain ⟨d, hd, rfl⟩ := Option.map_eq_some_iff.mp h
      exact ((endResponse_tells c).toOption hd).trans (goState_tells _ d)
    · cases h
  · split at h
    · cases h
      exact .of_eq (goState_chunked _ _) (goState_toobig _ _)
    · cases h
  · cases h

end

/-! ### The next response -/

section

variable {σ : Type} {host : Host σ} {c : Conn σ} {ts : Tunnel}

/-- `tunnel_reinit` leaves nothing of what the tunnel has been through but the flag. -/
theorem classify_reinit (h : ts.rcvbuf.toobig = dynProxyConnectHeaders) (host : Host σ)
    (input : List Recv) (httpcode httpproxycode : Nat) (data : σ) :
    classify host input ⟨tunnelReinit ts, httpcode, httpproxycode, data⟩ =
      classify host input
        ⟨{ tunnelReinit .create with chunkedEncoding := ts.chunkedEncoding }, httpcode,
          httpproxycode, data⟩ := by
  simp only [classify, startConnect]
  cases host.createTunnelRequest data with
  | error result => rfl
  | ok request =>
    -- the two tunnels as they begin to receive
    have halike := Alike.mk (σ := σ)
      ⟨{ goState .receive (goState .connect { tunnelReinit .create with
          chunkedEncoding := ts.chunkedEncoding, requestData := request.1 }) with nsent := 0 },
        httpcode, httpproxycode, request.2⟩ ts.rcvbuf.reset.reset ts.ch
      (Dynbuf.content_reset _) h
    exact (readHeaders_alike input halike rfl).symm

/-- A transfer that accepts everything. -/
def plainHost : Host Unit where
  udpTunnel := false
  headerline _ := 0
  authproblem _ := false
  proxyAuth _ := false
  newurl _ := true
  connClose _ := false
  createTunnelRequest _ := .ok ([], ())
  clientWrite _ _ _ := .ok ()
  bumpHeadersize _ _ := .ok ()
  httpInputAuth _ _ _ := .ok ()
  httpAuthAct _ _ := .ok ()
  pgrsUpdate _ := .ok ()
  reqSoftReset _ := ()
  transfer _ := ⟨false, 0, fun _ => true, fun _ _ => .ok⟩

/-- A response without any header line tells the flag from no flag. -/
theorem classify_empty (chunkedEncoding : Bool) :
    classify plainHost [.byte 13, .byte 10]
        ⟨{ tunnelReinit .create with chunkedEncoding }, 407, 407, ()⟩ =
      .ok (some ⟨if chunkedEncoding then .ignore else .done, 0, chunkedEncoding, false⟩) := by
  cases chunkedEncoding with
  | true => rfl
  | false => rfl

theorem independent_iff (h : ts.rcvbuf.toobig = dynProxyConnectHeaders) :
    Independent ts ↔ ts.chunkedEncoding = false := by
  constructor
  · intro hindep
    have hempty := hindep Unit plainHost 407 407 () [.byte 13, .byte 10]
    rw [classify_reinit h, classify_empty] at hempty
    have hfresh := hempty.trans (classify_empty false)
    injection hfresh with hframing
    exact congrArg Framing.chunkedEncoding (Option.some.inj hframing)
  · intro hflag σ host httpcode httpproxycode data input
    rw [classify_reinit h, hflag]
    rfl

end

/-- No event of the run completes a line that makes the tunnel expect chunks. -/
def Quiet {σ : Type} (host : Host σ) (start : Conn σ) (events : List Event) : Prop :=
  ∀ before e after t, events = before ++ e :: after →
    Runs.exec (step host) start before = some t → tellsChunked host t e = false

/-- However the tunnel has been used: behind `tunnel_reinit` the next response is taken for what it
says itself if and only if no response before it was chunked. -/
theorem reinit_independent_iff {σ : Type} {host : Host σ} {httpcode httpproxycode : Nat} {data : σ}
    {events : List Event} {c : Conn σ}
    (h : Runs.exec (step host) ⟨.create, httpcode, httpproxycode, data⟩ events = some c) :
    Independent c.ts ↔ Quiet host ⟨.create, httpcode, httpproxycode, data⟩ events := by
  have htoobig : c.ts.rcvbuf.toobig = dynProxyConnectHeaders :=
    Runs.exec_invariant (fun c : Conn σ => c.ts.rcvbuf.toobig = dynProxyConnectHeaders)
      (fun _ => True) h (fun _ _ => trivial) rfl
      fun hc _ hstep => (step_tells hstep).toobig.trans hc
  have hflag := Runs.exec_flag (fun c : Conn σ => c.ts.chunkedEncoding) (tellsChunked host)
    (fun hstep => (step_tells hstep).chunked) h
  rw [independent_iff htoobig, ← Bool.not_eq_true, hflag, not_or]
  constructor
  · rintro ⟨-, hnone⟩ before e after t hsplit ht
    exact Bool.eq_false_iff.mpr fun htells => hnone ⟨before, e, after, t, hsplit, ht, htells⟩
  · intro hquiet
    refine ⟨nofun, ?_⟩
    rintro ⟨before, e, after, t, hsplit, ht, htells⟩
    rw [hquiet before e after t hsplit ht] at htells
    exact nomatch htells

/-- The events of a request and of its response. -/
def exchange (response : String) : List Event :=
  [.start, .send 0] ++ (ascii response).map (fun b => .recv (.byte b))

def input (response : String) : List Recv := (ascii response).map .byte

/-- A tunnel after a chunked response that asks for a login. -/
def chunkedRun : List Event :=
  exchange "HTTP/1.1 407 \r\nTransfer-Encoding: chunked\r\n\r\n0\r\n\r\n" ++ [.respond, .retry]

theorem reinit_independent_iff_chunked :
    ∃ c, Runs.exec (step plainHost) ⟨.create, 0, 0, ()⟩ chunkedRun = some c ∧
      (Independent c.ts ↔ Quiet plainHost ⟨.create, 0, 0, ()⟩ chunkedRun) := by
  have hsome : (Runs.exec (step plainHost) ⟨.create, 0, 0, ()⟩ chunkedRun).isSome = true := by
    decide +kernel
  obtain ⟨c, hc⟩ := Option.isSome_iff_exists.mp hsome
  exact ⟨c, hc, reinit_independent_iff hc⟩

/-- The response after it has a body of five bytes, which are then read as chunks. -/
theorem reinit_keeps_chunked :
    (Runs.exec (step plainHost) ⟨.create, 0, 0, ()⟩ chunkedRun).map (fun c =>
        classify plainHost (input "HTTP/1.1 407 \r\nContent-Length: 5\r\n\r\n")
          { c with ts := tunnelReinit c.ts }) =
      some (.ok (some ⟨.ignore, 5, true, false⟩)) ∧
    classify plainHost (input "HTTP/1.1 407 \r\nContent-Length: 5\r\n\r\n")
        ⟨tunnelReinit .create, 407, 407, ()⟩ =
      .ok (some ⟨.ignore, 5, false, false⟩) := by
  decide +kernel

end Gurl.Proxy
