import Gurl.Http.Decoding
import Gurl.Strcase

/-! A chunker after `Curl_httpchunk_reset` beside a fresh one: both go through the same passes,
until a trailer that never came is taken for an empty one. -/

namespace Gurl.Http

open Strparse

/-- `Curl_httpchunk_reset` with its flag. -/
def httpchunkReset (ch : Chunker) (ignoreBody : Bool) : Chunker := { ch.reset with ignoreBody }

/-- A transfer with all the memory it asks for; what the client answers depends on what it got. -/
structure Client where
  httpTeSkip : Bool
  headerline : Nat
  write : Bytes → List Bytes → ClientWrite → Curlcode

def Client.transfer (c : Client) : Transfer where
  httpTeSkip := c.httpTeSkip
  headerline := c.headerline
  realloc _ := true
  write d w := c.write d.body d.trailers w

/-- The decoders that some history leads to; from call to call the client may be another. -/
inductive Reached : Decoder → Prop
  | init (ignoreBody : Bool) (body : Bytes) (trailers : List Bytes) (reallocs : Nat) :
      Reached ⟨.init ignoreBody, body, trailers, reallocs⟩
  | reset {d : Decoder} (ignoreBody : Bool) :
      Reached d → Reached { d with ch := httpchunkReset d.ch ignoreBody }
  | read {d d' : Decoder} {r : Curlcode} {n : Nat} (c : Client) (buf : Bytes) :
      Reached d → httpchunkReadwrite c.transfer d buf = some (r, d', n) → Reached d'

/-- Decoders that answer alike. With `P` their trailers are alike to the last bit. -/
structure Twin (P : Prop) (d e : Decoder) : Prop where
  state : d.ch.state = e.ch.state
  lastCode : d.ch.lastCode = e.ch.lastCode
  hexbuffer : d.ch.hexbuffer = e.ch.hexbuffer
  ignoreBody : d.ch.ignoreBody = e.ch.ignoreBody
  size : e.ch.state ≠ .hex → d.ch.datasize = e.ch.datasize
  content : d.ch.trailer.content = e.ch.trailer.content
  toobig : d.ch.trailer.toobig = e.ch.trailer.toobig
  body : d.body = e.body
  trailers : d.trailers = e.trailers
  bufr : e.ch.trailer.bufr.isSome → d.ch.trailer.bufr.isSome
  even : P → d.ch.trailer.bufr.isSome → e.ch.trailer.bufr.isSome

/-- What can be seen of a decoder. -/
def Seen (d e : Decoder) : Prop :=
  d.ch.state = e.ch.state ∧ d.ch.lastCode = e.ch.lastCode ∧ d.body = e.body ∧
    d.trailers = e.trailers

/-- Passes that go the same way. -/
def Pass.Twin (P : Prop) : Pass → Pass → Prop
  | .next d k, .next e k' => k = k' ∧ Http.Twin P d e
  | .ret r d k, .ret r' e k' => r = r' ∧ k = k' ∧ Seen d e
  | _, _ => False

variable {P : Prop} {c : Client} {d e d' e' : Decoder} {b : UInt8} {rest buf mem : Bytes}

theorem Twin.seen (h : Twin P d e) : Seen d e := ⟨h.state, h.lastCode, h.body, h.trailers⟩

theorem Twin.fail (h : Twin P d e) (code : ChunkCode) (r : Curlcode) :
    (d.fail code r).Twin P (e.fail code r) := ⟨rfl, rfl, rfl, rfl, h.body, h.trailers⟩

theorem Twin.enter (h : Twin P d e) (state : ChunkyState) (hhex : e.ch.state ≠ .hex) :
    Twin P (d.enter state) (e.enter state) :=
  ⟨rfl, h.lastCode, h.hexbuffer, h.ignoreBody, fun _ => h.size hhex, h.content, h.toobig, h.body,
    h.trailers, h.bufr, h.even⟩

theorem Twin.write (h : Twin P d e) (w : ClientWrite) :
    c.transfer.write d w = c.transfer.write e w := by
  simp only [Client.transfer, h.body, h.trailers]

/-- Both buffers take the bytes, or neither does. -/
theorem Twin.addTrailer (h : Twin P d e) (mem : Bytes) :
    (d.addTrailer c.transfer mem).2 = (e.addTrailer c.transfer mem).2 ∧
      Twin P (d.addTrailer c.transfer mem).1 (e.addTrailer c.transfer mem).1 := by
  have hlen : mem.length + d.ch.trailer.content.length + 1 =
      mem.length + e.ch.trailer.content.length + 1 := by rw [h.content]
  by_cases hfit : mem.length + e.ch.trailer.content.length + 1 > e.ch.trailer.toobig
  · have hd : d.ch.trailer.nappend mem true = (d.ch.trailer.free, .tooLarge) :=
      Dynbuf.nappend_error (by rw [hlen, h.toobig]; exact hfit) true
    have he := Dynbuf.nappend_error hfit true
    simp only [Decoder.addTrailer, Client.transfer, hd, he]
    exact ⟨trivial, h.state, h.lastCode, h.hexbuffer, h.ignoreBody, h.size, rfl, h.toobig, h.body,
      h.trailers, nofun, fun _ => nofun⟩
  · have hd : d.ch.trailer.nappend mem true = ({ d.ch.trailer with
        bufr := some (d.ch.trailer.content ++ mem)
        allc := d.ch.trailer.allocSize (mem.length + d.ch.trailer.content.length + 1) }, .ok) := by
      simp only [Dynbuf.nappend, hlen, h.toobig, if_neg hfit, Bool.not_true, Bool.and_false,
        Bool.false_eq_true, if_false]
    have he : e.ch.trailer.nappend mem true = ({ e.ch.trailer with
        bufr := some (e.ch.trailer.content ++ mem)
        allc := e.ch.trailer.allocSize (mem.length + e.ch.trailer.content.length + 1) }, .ok) := by
      simp only [Dynbuf.nappend, if_neg hfit, Bool.not_true, Bool.and_false, Bool.false_eq_true,
        if_false]
    simp only [Decoder.addTrailer, Client.transfer, hd, he]
    refine ⟨trivial, h.state, h.lastCode, h.hexbuffer, h.ignoreBody, h.size, ?_, h.toobig, h.body,
      h.trailers, fun _ => rfl, fun _ _ => rfl⟩
    simp only [Dynbuf.content, Option.getD_some]
    exact congrArg (· ++ mem) h.content

theorem hexPass_twin (h : Twin P d e) (b : UInt8) :
    (hexPass d b).Twin P (hexPass e b) := by
  unfold hexPass
  rw [h.hexbuffer]
  split
  · split
    · exact h.fail _ _
    · exact ⟨rfl, h.state, h.lastCode, rfl, h.ignoreBody, h.size, h.content, h.toobig, h.body,
        h.trailers, h.bufr, h.even⟩
  · split
    · exact h.fail _ _
    · split
      · exact ⟨rfl, rfl, rfl, rfl, h.body, h.trailers⟩
      · exact ⟨rfl, rfl, h.lastCode, h.hexbuffer, h.ignoreBody, fun _ => rfl, h.content, h.toobig,
          h.body, h.trailers, h.bufr, h.even⟩

theorem dataPass_twin (h : Twin P d e) (hdata : e.ch.state = .data) (buf : Bytes) :
    (dataPass c.transfer d buf).Twin P (dataPass c.transfer e buf) := by
  have hhex : e.ch.state ≠ .hex := by rw [hdata]; nofun
  have hsize := h.size hhex
  have hwrite := h.write (c := c) (.body (buf.take e.ch.datasize))
  have hstate : (if e.ch.datasize - (buf.take e.ch.datasize).length = 0 then ChunkyState.postlf
      else d.ch.state) = if e.ch.datasize - (buf.take e.ch.datasize).length = 0 then .postlf
      else e.ch.state := by rw [h.state]
  unfold dataPass
  dsimp only
  rw [hsize, h.ignoreBody, hwrite]
  split
  · exact ⟨rfl, hstate, h.lastCode, h.hexbuffer, rfl, fun _ => rfl, h.content, h.toobig,
      h.body, h.trailers, h.bufr, h.even⟩
  · split
    · exact ⟨rfl, hstate, h.lastCode, h.hexbuffer, rfl, fun _ => rfl, h.content, h.toobig,
        congrArg (· ++ _) h.body, h.trailers, h.bufr, h.even⟩
    · exact h.fail _ _

theorem isSome_reset (s : Dynbuf) : s.reset.bufr.isSome = s.bufr.isSome := by
  unfold Dynbuf.reset
  cases s.bufr <;> rfl

/-- Resetting the trailers of both. -/
theorem Twin.reset (h : Twin P d e) (state : ChunkyState) (trailers : List Bytes)
    (hhex : e.ch.state ≠ .hex) :
    Twin P { d with ch := { d.ch with trailer := d.ch.trailer.reset, state }, trailers }
      { e with ch := { e.ch with trailer := e.ch.trailer.reset, state }, trailers } := by
  refine ⟨rfl, h.lastCode, h.hexbuffer, h.ignoreBody, fun _ => h.size hhex, ?_, h.toobig, h.body,
    rfl, ?_, fun hP => ?_⟩
  · exact (Dynbuf.content_reset _).trans (Dynbuf.content_reset _).symm
  · dsimp only
    rw [isSome_reset, isSome_reset]
    exact h.bufr
  · dsimp only
    rw [isSome_reset, isSome_reset]
    exact h.even hP

theorem trailerEnd_twin (h : Twin P d e) (htrailer : e.ch.state = .trailer) (b : UInt8) :
    (trailerEnd c.transfer d b).Twin P (trailerEnd c.transfer e b) := by
  obtain ⟨hcode, hadded⟩ := h.addTrailer (c := c) [13, 10]
  have hhex : (e.addTrailer c.transfer [13, 10]).1.ch.state ≠ .hex := by
    rw [addTrailer_state, htrailer]
    nofun
  unfold trailerEnd
  generalize d.addTrailer c.transfer [13, 10] = x at *
  generalize e.addTrailer c.transfer [13, 10] = y at *
  obtain ⟨d1, code⟩ := x
  obtain ⟨e1, code'⟩ := y
  dsimp only at hcode hadded hhex ⊢
  subst hcode
  have hwrite := hadded.write (c := c) (.trailer e1.ch.trailer.content)
  rw [hadded.content, hwrite, hadded.trailers]
  generalize (if c.transfer.httpTeSkip = true then Curlcode.ok else _) = written
  generalize (if c.transfer.httpTeSkip = true then e1.trailers else _) = trailers
  split
  · exact hadded.fail _ _
  · split
    · exact hadded.fail _ _
    · split
      · exact hadded.fail _ _
      · exact ⟨rfl, hadded.reset .trailerCr _ hhex⟩

variable (c rest) in
/-- Until a trailer is missing, both go the same way. -/
theorem pass_twin (h : Twin P d e)
    (hgo : ¬(e.ch.state = .trailer ∧ (b = 13 ∨ b = 10) ∧ e.ch.trailer.bufr = none ∧
      d.ch.trailer.bufr.isSome)) :
    (pass c.transfer d b rest).Twin P (pass c.transfer e b rest) := by
  unfold pass
  rw [h.state]
  cases hstate : e.ch.state with
  | hex => exact hexPass_twin h b
  | lf =>
    have hhex : e.ch.state ≠ .hex := by rw [hstate]; nofun
    dsimp only [lfPass]
    rw [h.size hhex]
    split
    · exact ⟨rfl, h.enter _ hhex⟩
    · exact ⟨rfl, h⟩
  | data => exact dataPass_twin h hstate (b :: rest)
  | postlf =>
    dsimp only [postlfPass]
    split
    · refine ⟨rfl, rfl, rfl, rfl, h.ignoreBody, fun hne => absurd rfl hne, ?_, h.toobig, h.body,
        h.trailers, ?_, fun hP => ?_⟩
      · exact (Dynbuf.content_reset _).trans (Dynbuf.content_reset _).symm
      · dsimp only [Chunker.reset]
        rw [isSome_reset, isSome_reset]
        exact h.bufr
      · dsimp only [Chunker.reset]
        rw [isSome_reset, isSome_reset]
        exact h.even hP
    · split
      · exact h.fail _ _
      · exact ⟨rfl, h⟩
  | trailer =>
    have hhex : e.ch.state ≠ .hex := by rw [hstate]; nofun
    dsimp only [trailerPass]
    split
    · rename_i hend
      cases he : e.ch.trailer.bufr with
      | none =>
        cases hd : d.ch.trailer.bufr with
        | none => exact ⟨rfl, h.enter _ hhex⟩
        | some bytes => exact absurd ⟨hstate, hend, he, by rw [hd]; rfl⟩ hgo
      | some bytes =>
        have hsome := h.bufr (by rw [he]; rfl)
        obtain ⟨bytes', hd⟩ := Option.isSome_iff_exists.mp hsome
        rw [hd]
        exact trailerEnd_twin h hstate b
    · obtain ⟨hcode, hadded⟩ := h.addTrailer (c := c) [b]
      rw [hcode]
      split
      · exact hadded.fail _ _
      · exact ⟨rfl, hadded⟩
  | trailerCr =>
    have hhex : e.ch.state ≠ .hex := by rw [hstate]; nofun
    dsimp only [trailerCrPass]
    split
    · exact ⟨rfl, h.enter _ hhex⟩
    · exact h.fail _ _
  | trailerPostcr =>
    have hhex : e.ch.state ≠ .hex := by rw [hstate]; nofun
    dsimp only [trailerPostcrPass]
    split
    · exact ⟨rfl, h.enter _ hhex⟩
    · exact ⟨rfl, h.enter _ hhex⟩
  | stop =>
    dsimp only [stopPass]
    split
    · exact ⟨rfl, rfl, rfl, h.lastCode, h.body, h.trailers⟩
    · exact h.fail _ _
  | done => exact ⟨rfl, rfl, h.seen⟩
  | failed => exact ⟨rfl, rfl, h.seen⟩

/-! ### What a pass keeps -/

/-- What holds of a decoder after a pass, whatever the pass did. -/
structure Kept (d d' : Decoder) : Prop where
  toobig : d'.ch.trailer.toobig = d.ch.trailer.toobig
  trailers : d.trailers <+: d'.trailers

/-- And after one that goes on. -/
structure KeptOn (d d' : Decoder) : Prop extends Kept d d' where
  state : d'.ch.state ≠ .done
  bufr : d.ch.trailer.bufr.isSome → d'.ch.trailer.bufr.isSome
  lastCode : d.ch.lastCode = .ok → d'.ch.lastCode = .ok

/-- `CHUNK_DONE` is entered with a byte. -/
def Pass.Keeps (d : Decoder) : Pass → Prop
  | .next d' _ => KeptOn d d'
  | .ret _ d' k => Kept d d' ∧ (d'.ch.state = .done → d.ch.state = .done ∨ k = 1)

theorem Kept.refl (d : Decoder) : Kept d d := ⟨rfl, List.prefix_refl _⟩

theorem Kept.trans (h : Kept d e) (h' : Kept e e') : Kept d e' :=
  ⟨h'.toobig.trans h.toobig, h.trailers.trans h'.trailers⟩

theorem Kept.fail (h : Kept d e) (code : ChunkCode) (r : Curlcode) :
    (e.fail code r).Keeps d := ⟨⟨h.toobig, h.trailers⟩, nofun⟩

theorem enter_kept (d : Decoder) {state : ChunkyState} (hstate : state ≠ .done) :
    KeptOn d (d.enter state) := ⟨⟨rfl, List.prefix_refl _⟩, hstate, id, id⟩

theorem addTrailer_kept (d : Decoder) (mem : Bytes) :
    Kept d (d.addTrailer c.transfer mem).1 ∧
      ((d.addTrailer c.transfer mem).2 = .ok →
        (d.addTrailer c.transfer mem).1.ch.trailer.bufr.isSome) ∧
      (d.addTrailer c.transfer mem).1.ch.lastCode = d.ch.lastCode := by
  by_cases hfit : mem.length + d.ch.trailer.content.length + 1 > d.ch.trailer.toobig
  · simp only [Decoder.addTrailer, Client.transfer, Dynbuf.nappend_error hfit]
    exact ⟨⟨rfl, List.prefix_refl _⟩, nofun, trivial⟩
  · simp only [Decoder.addTrailer, Client.transfer, Dynbuf.nappend, if_neg hfit, Bool.not_true,
      Bool.and_false, Bool.false_eq_true, if_false]
    exact ⟨⟨rfl, List.prefix_refl _⟩, fun _ => rfl, trivial⟩

theorem trailerEnd_keeps (d : Decoder) (b : UInt8) :
    (trailerEnd c.transfer d b).Keeps d := by
  obtain ⟨hkept, hsome, hcode⟩ := addTrailer_kept (c := c) d [13, 10]
  unfold trailerEnd
  generalize d.addTrailer c.transfer [13, 10] = x at *
  obtain ⟨d1, r⟩ := x
  dsimp only at hkept hsome hcode ⊢
  generalize (if c.transfer.httpTeSkip = true then Curlcode.ok else _) = written
  split
  · exact hkept.fail _ _
  · rename_i hok
    split
    · exact hkept.fail _ _
    · split
      · exact hkept.fail _ _
      · refine ⟨⟨hkept.toobig, ?_⟩, nofun, fun _ => ?_, fun hl => hcode.trans hl⟩
        · dsimp only
          split
          · exact hkept.trailers
          · exact hkept.trailers.trans (List.prefix_append _ _)
        · dsimp only
          rw [isSome_reset]
          exact hsome (not_not.mp hok)

theorem pass_keeps (c : Client) (d : Decoder) (b : UInt8) (rest : Bytes) :
    (pass c.transfer d b rest).Keeps d := by
  have hself : ∀ code r, (d.fail code r).Keeps d := (Kept.refl d).fail
  have hon (hstate : d.ch.state ≠ .done) : KeptOn d d := ⟨⟨rfl, List.prefix_refl _⟩, hstate, id, id⟩
  unfold pass
  cases hstate : d.ch.state with
  | hex =>
    dsimp only [hexPass]
    split
    · split
      · exact hself _ _
      · exact ⟨⟨rfl, List.prefix_refl _⟩, by rw [hstate]; nofun, id, id⟩
    · split
      · exact hself _ _
      · split
        · exact ⟨⟨rfl, List.prefix_refl _⟩, nofun⟩
        · exact ⟨⟨rfl, List.prefix_refl _⟩, nofun, id, id⟩
  | lf =>
    dsimp only [lfPass]
    split
    · exact enter_kept d (by split <;> nofun)
    · exact hon (by rw [hstate]; nofun)
  | data =>
    have hnext (n : Nat) : (if n = 0 then ChunkyState.postlf else d.ch.state) ≠ .done := by
      split
      · nofun
      · rw [hstate]
        nofun
    dsimp only [dataPass]
    split
    · exact ⟨⟨rfl, List.prefix_refl _⟩, hnext _, id, id⟩
    · split
      · exact ⟨⟨rfl, List.prefix_refl _⟩, hnext _, id, id⟩
      · exact hself _ _
  | postlf =>
    dsimp only [postlfPass]
    split
    · refine ⟨⟨rfl, List.prefix_refl _⟩, nofun, fun hsome => ?_, fun _ => rfl⟩
      dsimp only [Chunker.reset]
      rwa [isSome_reset]
    · split
      · exact hself _ _
      · exact hon (by rw [hstate]; nofun)
  | trailer =>
    dsimp only [trailerPass]
    split
    · split
      · exact trailerEnd_keeps d b
      · exact enter_kept d nofun
    · obtain ⟨hkept, hsome, hcode⟩ := addTrailer_kept (c := c) d [b]
      split
      · exact hkept.fail _ _
      · rename_i hok
        refine ⟨hkept, ?_, fun _ => hsome (not_not.mp hok), fun hl => hcode.trans hl⟩
        rw [addTrailer_state, hstate]
        nofun
  | trailerCr =>
    dsimp only [trailerCrPass]
    split
    · exact enter_kept d nofun
    · exact hself _ _
  | trailerPostcr =>
    dsimp only [trailerPostcrPass]
    split
    · exact enter_kept d nofun
    · exact enter_kept d nofun
  | stop =>
    dsimp only [stopPass]
    split
    · exact ⟨⟨rfl, List.prefix_refl _⟩, fun _ => .inr rfl⟩
    · exact hself _ _
  | done => exact ⟨⟨rfl, List.prefix_refl _⟩, fun _ => .inl hstate⟩
  | failed => exact ⟨⟨rfl, List.prefix_refl _⟩, fun hdone => .inl hdone⟩

/-- Over all passes of a call; whoever is done has taken a byte. -/
theorem Ends.kept {o : Option Curlcode} {n : Nat} (h : Ends c.transfer d buf o d' n) :
    Kept d d' ∧ (d'.ch.state = .done → d.ch.state = .done ∨ 1 ≤ n) := by
  induction h with
  | nil => exact ⟨.refl _, .inl⟩
  | @ret d _ b rest _ _ hpass =>
    have hkeeps := pass_keeps c d b rest
    rw [hpass] at hkeeps
    exact ⟨hkeeps.1, fun hdone => (hkeeps.2 hdone).imp_right fun hk => hk.ge⟩
  | @next d _ _ b rest _ _ _ hpass _ ih =>
    have hkeeps := pass_keeps c d b rest
    rw [hpass] at hkeeps
    refine ⟨hkeeps.toKept.trans ih.1, fun hdone => .inr ?_⟩
    have := (ih.2 hdone).resolve_left hkeeps.state
    omega

/-! ### The trailer that is missing -/

/-- The passes on some bytes come to a decoder with the bytes it has left. -/
inductive Comes (t : Transfer) : Decoder → Bytes → Decoder → Bytes → Prop
  | here (d : Decoder) (buf : Bytes) : Comes t d buf d buf
  | next {d d' d'' : Decoder} {b : UInt8} {rest buf : Bytes} {k : Nat} :
      pass t d b rest = .next d' k → Comes t d' ((b :: rest).drop k) d'' buf →
      Comes t d (b :: rest) d'' buf

/-- The last chunk is followed by an end of line, before any trailer has been. -/
def Misses (t : Transfer) (d : Decoder) (buf : Bytes) (b : UInt8) (rest : Bytes) : Prop :=
  ∃ d', Comes t d buf d' (b :: rest) ∧ d'.ch.state = .trailer ∧ (b = 13 ∨ b = 10) ∧
    d'.ch.trailer.bufr = none

/-- The one case in which the empty trailer makes no difference: it is not written, it passes the
checks, and the next byte ends the call in the same way. -/
def Excused (c : Client) (b : UInt8) (rest : Bytes) : Prop :=
  c.headerline < 2 ∧ c.httpTeSkip = true ∧ b = 13 ∧ ∃ x more, rest = x :: more ∧ x ≠ 10

/-- A fresh decoder misses a trailer in these bytes that another one would take for empty. -/
def Spoils (c : Client) (d : Decoder) (buf : Bytes) : Prop :=
  ∃ b rest, Misses c.transfer d buf b rest ∧ ¬Excused c b rest

/-- The result of a call with what is seen of the decoder. -/
def Same (o o' : Option Curlcode) (n n' : Nat) (d e : Decoder) : Prop :=
  o.getD .ok = o'.getD .ok ∧ n = n' ∧ Seen d e

variable {o o' : Option Curlcode} {n n' : Nat}

/-- The first two passes of a decoder that misses the trailer. -/
theorem missed_passes (hstate : e.ch.state = .trailer) (hnone : e.ch.trailer.bufr = none)
    (hend : b = 13 ∨ b = 10) :
    pass c.transfer e b rest = .next (e.enter .trailerPostcr) 0 ∧
      pass c.transfer (e.enter .trailerPostcr) b rest =
        .next (e.enter .stop) (if b = 13 then 1 else 0) := by
  constructor
  · simp only [pass, hstate, trailerPass, hnone, if_pos hend]
  · simp only [pass, Decoder.enter, trailerPostcrPass,
      if_neg (show ¬(b ≠ 13 ∧ b ≠ 10) by tauto)]

/-- How a call ends for a decoder that misses the trailer. -/
theorem missed_ends (hstate : e.ch.state = .trailer) (hnone : e.ch.trailer.bufr = none)
    (hcode : e.ch.lastCode = .ok) (hend : b = 13 ∨ b = 10)
    (h : Ends c.transfer e (b :: rest) o e' n) :
    e'.body = e.body ∧ e'.trailers = e.trailers ∧ e'.ch.lastCode ≠ .passthruError ∧
      o.getD .ok ≠ .weirdServerReply ∧
      (b = 13 ∧ rest = [] ∧ e'.ch.state = .stop ∨
        e'.ch.state = .done ∧ n = (if b = 13 then 2 else 1) ∧ (b = 13 → ∃ more, rest = 10 :: more) ∨
        b = 13 ∧ (∃ x more, rest = x :: more ∧ x ≠ 10) ∧ o = some .recvError ∧ n = 1 ∧
          e'.ch.state = .failed ∧ e'.ch.lastCode = .badChunk) := by
  obtain ⟨h1, h2⟩ := @missed_passes c e b rest hstate hnone hend
  have h3 (x : UInt8) (more : Bytes) : pass c.transfer (e.enter .stop) x more =
      if x = 10
      then .ret .ok { e with ch := { e.ch with datasize := more.length, state := .done } } 1
      else (e.enter .stop).fail .badChunk .recvError := rfl
  have hok : e.ch.lastCode ≠ .passthruError := by rw [hcode]; simp
  rcases hend with rfl | rfl
  · cases rest with
    | nil =>
      obtain ⟨rfl, rfl, rfl⟩ := h.unique (.next h1 (.next h2 (.nil _)))
      exact ⟨rfl, rfl, hok, by simp, .inl ⟨rfl, rfl, rfl⟩⟩
    | cons x more =>
      by_cases hx : x = 10
      · have h3 := h3 x more
        rw [if_pos hx] at h3
        obtain ⟨rfl, rfl, rfl⟩ := h.unique (.next h1 (.next h2 (.ret h3)))
        exact ⟨rfl, rfl, hok, by simp, .inr (.inl ⟨rfl, rfl, fun _ => ⟨more, by rw [hx]⟩⟩)⟩
      · have h3 := h3 x more
        rw [if_neg hx] at h3
        obtain ⟨rfl, rfl, rfl⟩ := h.unique (.next h1 (.next h2 (.ret h3)))
        exact ⟨rfl, rfl,
          by simp, by simp, .inr (.inr ⟨rfl, ⟨x, more, rfl, hx⟩, rfl, rfl, rfl, rfl⟩)⟩
  · have h3 := h3 10 rest
    rw [if_pos rfl] at h3
    obtain ⟨rfl, rfl, rfl⟩ := h.unique (.next h1 (.next h2 (.ret h3)))
    exact ⟨rfl, rfl, hok, by simp, .inr (.inl ⟨rfl, rfl, fun h => absurd h (by decide)⟩)⟩

/-- The pass that takes an empty buffer for a trailer. -/
theorem empty_pass (hstate : d.ch.state = .trailer) (hsome : d.ch.trailer.bufr.isSome)
    (hempty : d.ch.trailer.content = []) (htoobig : d.ch.trailer.toobig = dynH1Trailer)
    (hend : b = 13 ∨ b = 10) (rest : Bytes) :
    ∃ d1 d2 : Decoder, d2.ch.state = .trailerCr ∧ d2.body = d.body ∧
      d2.trailers = (if c.httpTeSkip then d.trailers else d.trailers ++ [[13, 10]]) ∧
      pass c.transfer d b rest =
        if ¬c.headerline < 2 then d1.fail .badChunk .weirdServerReply
        else if c.httpTeSkip then .next d2 (if b = 10 then 0 else 1)
        else if c.write d.body d.trailers (.trailer [13, 10]) = .ok then
          .next d2 (if b = 10 then 0 else 1)
        else d1.fail .passthruError (c.write d.body d.trailers (.trailer [13, 10])) := by
  have hfit : ¬([13, 10] : Bytes).length + d.ch.trailer.content.length + 1 >
    d.ch.trailer.toobig := by
    rw [hempty, htoobig]
    decide
  obtain ⟨d1, hadd, hcontent, hbody, htrailers⟩ : ∃ d1 : Decoder,
      d.addTrailer c.transfer [13, 10] = (d1, .ok) ∧ d1.ch.trailer.content = [13, 10] ∧
        d1.body = d.body ∧ d1.trailers = d.trailers := by
    simp only [Decoder.addTrailer, Client.transfer, Dynbuf.nappend, if_neg hfit, Bool.not_true,
      Bool.and_false, Bool.false_eq_true, if_false]
    refine ⟨_, rfl, ?_, rfl, rfl⟩
    rw [Dynbuf.content, Option.getD_some, hempty]
    rfl
  have hverify : verifyHeader c.headerline [13, 10] =
      if c.headerline < 2 then .ok else .weirdServerReply := by
    unfold verifyHeader
    simp
  obtain ⟨bytes, hbytes⟩ := Option.isSome_iff_exists.mp hsome
  have hpass : pass c.transfer d b rest = trailerEnd c.transfer d b := by
    simp only [pass, hstate, trailerPass, hbytes, if_pos hend]
  refine ⟨d1, { d1 with
    ch := { d1.ch with trailer := d1.ch.trailer.reset, state := .trailerCr }
    trailers := if c.httpTeSkip then d.trailers else d.trailers ++ [[13, 10]] }, rfl,
      hbody, rfl, ?_⟩
  rw [hpass]
  unfold trailerEnd
  rw [hadd]
  simp only [hcontent, Client.transfer, hverify, htrailers, hbody, ne_eq, not_true_eq_false,
    if_false]
  by_cases hline : c.headerline < 2
  · simp only [if_pos hline, not_true_eq_false, if_false, not_not.mpr hline]
    cases c.httpTeSkip with
    | true => simp
    | false =>
      simp only [Bool.false_eq_true, if_false]
      by_cases hwrite : c.write d.body d.trailers (.trailer [13, 10]) = .ok
      · rw [if_neg (not_not.mpr hwrite), if_pos hwrite]
      · rw [if_pos hwrite, if_neg hwrite]
  · simp [hline]

/-- And how the call ends for it. -/
theorem empty_ends (hstate : d.ch.state = .trailer) (hsome : d.ch.trailer.bufr.isSome)
    (hempty : d.ch.trailer.content = []) (htoobig : d.ch.trailer.toobig = dynH1Trailer)
    (hend : b = 13 ∨ b = 10) (h : Ends c.transfer d (b :: rest) o d' n) :
    o = some .weirdServerReply ∧ ¬c.headerline < 2 ∨
    c.httpTeSkip = false ∧
      (d'.ch.lastCode = .passthruError ∨ d.trailers.length < d'.trailers.length) ∨
    c.headerline < 2 ∧ c.httpTeSkip = true ∧
      (b = 13 ∧ rest = [] ∧ d'.ch.state = .trailerCr ∨
        (b = 13 → ∃ more, rest = 10 :: more) ∧
          (d'.ch.state = .done → (if b = 13 then 2 else 1) < n) ∨
        b = 13 ∧ (∃ x more, rest = x :: more ∧ x ≠ 10) ∧ o = some .recvError ∧ n = 1 ∧
          d'.ch.state = .failed ∧ d'.ch.lastCode = .badChunk ∧ d'.body = d.body ∧
          d'.trailers = d.trailers) := by
  obtain ⟨d1, d2, hcr, hbody, htrailers, hpass⟩ :=
    empty_pass (c := c) hstate hsome hempty htoobig hend rest
  by_cases hline : c.headerline < 2
  · rw [if_neg (not_not.mpr hline)] at hpass
    cases hskip : c.httpTeSkip with
    | false =>
      rw [hskip] at hpass htrailers
      simp only [Bool.false_eq_true, if_false] at hpass htrailers
      refine .inr (.inl ⟨rfl, ?_⟩)
      split at hpass
      · cases h with
        | ret hret =>
          rw [hpass] at hret
          cases hret
        | next hnext hrest =>
          rw [hpass, Pass.next.injEq] at hnext
          obtain ⟨rfl, rfl⟩ := hnext
          have hprefix := hrest.kept.1.trailers.length_le
          rw [htrailers, List.length_append, List.length_singleton] at hprefix
          exact .inr (by omega)
      · obtain ⟨rfl, rfl, rfl⟩ := h.unique (.ret hpass)
        exact .inl rfl
    | true =>
      rw [hskip] at hpass htrailers
      simp only [if_true] at hpass htrailers
      refine .inr (.inr ⟨hline, rfl, ?_⟩)
      have hcrPass (x : UInt8) (more : Bytes) : pass c.transfer d2 x more =
          if x = 10 then .next (d2.enter .trailerPostcr) 1 else d2.fail .badChunk .recvError := by
        simp only [pass, hcr, trailerCrPass]
      -- behind the LF a second one is needed
      have hmore {more : Bytes} {m : Nat}
          (hrest : Ends c.transfer (d2.enter .trailerPostcr) more o d' m)
          (hdone : d'.ch.state = .done) : 1 ≤ m :=
        (hrest.kept.2 hdone).resolve_left (by simp [Decoder.enter])
      cases h with
      | ret hret =>
        rw [hpass] at hret
        cases hret
      | next hnext hrest =>
        rw [hpass, Pass.next.injEq] at hnext
        obtain ⟨rfl, rfl⟩ := hnext
        rcases hend with rfl | rfl
        · rw [if_neg (by decide), List.drop_succ_cons, List.drop_zero] at hrest
          cases rest with
          | nil =>
            cases hrest
            exact .inl ⟨rfl, rfl, hcr⟩
          | cons x more =>
            have hx := hcrPass x more
            by_cases hlf : x = 10
            · rw [if_pos hlf] at hx
              cases hrest with
              | ret hret =>
                rw [hx] at hret
                cases hret
              | next hnext hrest =>
                rw [hx, Pass.next.injEq] at hnext
                obtain ⟨rfl, rfl⟩ := hnext
                refine .inr (.inl ⟨fun _ => ⟨more, by rw [hlf]⟩, fun hdone => ?_⟩)
                have := hmore hrest hdone
                rw [if_pos rfl, if_neg (by decide)]
                omega
            · rw [if_neg hlf] at hx
              obtain ⟨rfl, rfl, rfl⟩ := hrest.unique (.ret hx)
              exact .inr (.inr ⟨rfl, ⟨x, more, rfl, hlf⟩, rfl, rfl, rfl, rfl, hbody, htrailers⟩)
        · have hx := hcrPass 10 rest
          rw [if_pos rfl, List.drop_zero] at hrest
          rw [if_pos rfl] at hx
          cases hrest with
          | ret hret =>
            rw [hx] at hret
            cases hret
          | next hnext hrest =>
            rw [hx, Pass.next.injEq] at hnext
            obtain ⟨rfl, rfl⟩ := hnext
            refine .inr (.inl ⟨fun h => absurd h (by decide), fun hdone => ?_⟩)
            have := hmore hrest hdone
            rw [if_neg (by decide), if_pos rfl]
            omega
  · rw [if_pos hline] at hpass
    obtain ⟨rfl, rfl, rfl⟩ := h.unique (.ret hpass)
    exact .inl ⟨rfl, hline⟩

/-- Where one misses the trailer that the other takes for empty, their calls end alike only in the
excused case. -/
theorem missing_iff (h : Twin False d e) (hstate : e.ch.state = .trailer)
    (hnone : e.ch.trailer.bufr = none) (hsome : d.ch.trailer.bufr.isSome)
    (hcode : e.ch.lastCode = .ok) (htoobig : e.ch.trailer.toobig = dynH1Trailer)
    (hend : b = 13 ∨ b = 10) (hd : Ends c.transfer d (b :: rest) o d' n)
    (he : Ends c.transfer e (b :: rest) o' e' n') :
    Same o o' n n' d' e' ↔ Excused c b rest := by
  have hempty : d.ch.trailer.content = [] := by
    rw [h.content]
    unfold Dynbuf.content
    rw [hnone]
    rfl
  obtain ⟨hbody, htrailers, hpass, hweird, hfresh⟩ := missed_ends hstate hnone hcode hend he
  have hused := empty_ends (h.state.trans hstate) hsome hempty (h.toobig.trans htoobig) hend hd
  constructor
  · rintro ⟨hresult, hcount, hsame, hlast, hsameBody, hsameTrailers⟩
    rcases hused with ⟨rfl, -⟩ | ⟨-, hlost | hlonger⟩ | ⟨hline, hskip, hcases⟩
    · exact absurd hresult.symm hweird
    · exact absurd (hlast.symm.trans hlost) hpass
    · rw [hsameTrailers, htrailers, h.trailers] at hlonger
      exact absurd hlonger (lt_irrefl _)
    · rcases hcases with ⟨rfl, rfl, hcr⟩ | ⟨hlf, hdone⟩ | ⟨rfl, hother, -⟩
      · rcases hfresh with ⟨-, -, hstop⟩ | ⟨-, -, hlf⟩ | ⟨-, ⟨x, more, hrest, -⟩, -⟩
        · rw [hcr, hstop] at hsame
          cases hsame
        · obtain ⟨more, hrest⟩ := hlf rfl
          cases hrest
        · cases hrest
      · rcases hfresh with ⟨rfl, rfl, -⟩ | ⟨hdone', hn', -⟩ | ⟨rfl, ⟨x, more, hrest, hx⟩, -⟩
        · obtain ⟨more, hrest⟩ := hlf rfl
          cases hrest
        · have := hdone (hsame.trans hdone')
          omega
        · obtain ⟨more', hrest'⟩ := hlf rfl
          rw [hrest, List.cons.injEq] at hrest'
          exact absurd hrest'.1 hx
      · exact ⟨hline, hskip, rfl, hother⟩
  · rintro ⟨hline, hskip, rfl, x, more, rfl, hx⟩
    rcases hfresh with ⟨-, hrest, -⟩ | ⟨-, -, hlf⟩ | ⟨-, -, rfl, rfl, hfailed, hbad⟩
    · cases hrest
    · obtain ⟨more', hrest⟩ := hlf rfl
      rw [List.cons.injEq] at hrest
      exact absurd hrest.1 hx
    · rcases hused with ⟨-, hno⟩ | ⟨hskip', -⟩ | ⟨-, -, hcases⟩
      · exact absurd hline hno
      · rw [hskip] at hskip'
        cases hskip'
      · rcases hcases with ⟨-, hrest, -⟩ | ⟨hlf, -⟩ | ⟨-, -, rfl, rfl, hf, hb, hbody', htrailers'⟩
        · cases hrest
        · obtain ⟨more', hrest⟩ := hlf rfl
          rw [List.cons.injEq] at hrest
          exact absurd hrest.1 hx
        · exact ⟨rfl, rfl, hf.trans hfailed.symm, hb.trans hbad.symm,
            hbody'.trans (h.body.trans hbody.symm),
              htrailers'.trans (h.trailers.trans htrailers.symm)⟩

/-! ### The call after a reset -/

theorem Comes.isSome (h : Comes c.transfer d buf d' rest)
    (hsome : d.ch.trailer.bufr.isSome) : d'.ch.trailer.bufr.isSome := by
  induction h with
  | here => exact hsome
  | @next d _ _ b rest _ _ hpass _ ih =>
    have hkeeps := pass_keeps c d b rest
    rw [hpass] at hkeeps
    exact ih (hkeeps.bufr hsome)

/-- A decoder that has had trailers misses none. -/
theorem not_spoils_of_some (hsome : e.ch.trailer.bufr.isSome) : ¬Spoils c e buf := by
  rintro ⟨b, rest, ⟨e', hcomes, -, -, hnone⟩, -⟩
  have := hcomes.isSome hsome
  rw [hnone] at this
  cases this

/-- Where a trailer is missed no other is missed later. -/
theorem spoils_here (hstate : e.ch.state = .trailer) (hend : b = 13 ∨ b = 10)
    (hnone : e.ch.trailer.bufr = none) : Spoils c e (b :: rest) ↔ ¬Excused c b rest := by
  obtain ⟨h1, h2⟩ := @missed_passes c e b rest hstate hnone hend
  constructor
  · rintro ⟨b', rest', ⟨e', hcomes, htrailer, -⟩, hexcused⟩
    cases hcomes with
    | here => exact hexcused
    | next hpass hcomes =>
      rw [h1, Pass.next.injEq] at hpass
      obtain ⟨rfl, rfl⟩ := hpass
      rw [List.drop_zero] at hcomes
      cases hcomes with
      | here => cases htrailer
      | next hpass hcomes =>
        rw [h2, Pass.next.injEq] at hpass
        obtain ⟨rfl, rfl⟩ := hpass
        generalize (b :: rest).drop (if b = 13 then 1 else 0) = left at hcomes
        cases hcomes with
        | here => cases htrailer
        | next hpass _ => exact absurd hpass (pass_stop_ne rfl)
  · exact fun hexcused => ⟨b, rest, ⟨e, .here _ _, hstate, hend, hnone⟩, hexcused⟩

theorem spoils_next {k : Nat} (hpass : pass c.transfer e b rest = .next e' k)
    (hnot : ¬(e.ch.state = .trailer ∧ (b = 13 ∨ b = 10) ∧ e.ch.trailer.bufr = none)) :
    Spoils c e (b :: rest) ↔ Spoils c e' ((b :: rest).drop k) := by
  constructor
  · rintro ⟨b', rest', ⟨d, hcomes, hmissed⟩, hexcused⟩
    cases hcomes with
    | here => exact absurd hmissed hnot
    | next hpass' hcomes =>
      rw [hpass, Pass.next.injEq] at hpass'
      obtain ⟨rfl, rfl⟩ := hpass'
      exact ⟨b', rest', ⟨d, hcomes, hmissed⟩, hexcused⟩
  · rintro ⟨b', rest', ⟨d, hcomes, hmissed⟩, hexcused⟩
    exact ⟨b', rest', ⟨d, .next hpass hcomes, hmissed⟩, hexcused⟩

theorem spoils_ret {r : Curlcode} {k : Nat} (hpass : pass c.transfer e b rest = .ret r e' k) :
    ¬Spoils c e (b :: rest) := by
  rintro ⟨b', rest', ⟨d, hcomes, hstate, hend, hnone⟩, -⟩
  cases hcomes with
  | here =>
    simp only [pass, hstate, trailerPass, hnone, if_pos hend] at hpass
    cases hpass
  | next hpass' _ =>
    rw [hpass] at hpass'
    cases hpass'

/-- The calls of twins end alike if and only if none of them takes an empty buffer for a trailer
that the other misses. -/
theorem ends_iff (h : Twin False d e) (hcode : e.ch.lastCode = .ok)
    (htoobig : e.ch.trailer.toobig = dynH1Trailer) (hd : Ends c.transfer d buf o d' n)
    (he : Ends c.transfer e buf o' e' n') :
    Same o o' n n' d' e' ↔
      (d.ch.trailer.bufr.isSome → e.ch.trailer.bufr = none → ¬Spoils c e buf) := by
  induction he generalizing d o d' n with
  | nil e =>
    cases hd
    refine ⟨fun _ _ _ => ?_, fun _ => ⟨rfl, rfl, h.seen⟩⟩
    rintro ⟨b, rest, ⟨_, hcomes, -⟩, -⟩
    cases hcomes
  | @ret e _ b rest _ _ hpass =>
    have hgo : ¬(e.ch.state = .trailer ∧ (b = 13 ∨ b = 10) ∧ e.ch.trailer.bufr = none ∧
        d.ch.trailer.bufr.isSome) := by
      rintro ⟨hstate, hend, hnone, -⟩
      simp only [pass, hstate, trailerPass, hnone, if_pos hend] at hpass
      cases hpass
    have htwin := pass_twin c rest h hgo
    rw [hpass] at htwin
    refine ⟨fun _ _ _ => spoils_ret hpass, fun _ => ?_⟩
    cases hd with
    | ret hpass' =>
      rw [hpass'] at htwin
      exact htwin
    | next hpass' _ =>
      rw [hpass'] at htwin
      exact htwin.elim
  | @next e e1 _ b rest _ k _ hpass hrest ih =>
    by_cases hmiss : e.ch.state = .trailer ∧ (b = 13 ∨ b = 10) ∧ e.ch.trailer.bufr = none ∧
        d.ch.trailer.bufr.isSome
    · obtain ⟨hstate, hend, hnone, hsome⟩ := hmiss
      rw [missing_iff h hstate hnone hsome hcode htoobig hend hd (.next hpass hrest),
        spoils_here hstate hend hnone, not_not]
      exact ⟨fun hexcused _ _ => hexcused, fun hall => hall hsome hnone⟩
    · -- the evenness that there is now is there afterwards
      have heven : Twin (d.ch.trailer.bufr.isSome → e.ch.trailer.bufr.isSome) d e :=
        ⟨h.state, h.lastCode, h.hexbuffer, h.ignoreBody, h.size, h.content, h.toobig, h.body,
          h.trailers, h.bufr, id⟩
      have htwin := pass_twin c rest heven hmiss
      have hkeeps := pass_keeps c e b rest
      have hkeepsd := pass_keeps c d b rest
      rw [hpass] at htwin hkeeps
      cases hd with
      | ret hpass' =>
        rw [hpass'] at htwin
        exact htwin.elim
      | @next _ d1 _ _ _ _ _ _ hpass' hrest' =>
        rw [hpass'] at htwin hkeepsd
        obtain ⟨rfl, htwin⟩ := htwin
        have htwin' : Twin False d1 e1 :=
          ⟨htwin.state, htwin.lastCode, htwin.hexbuffer, htwin.ignoreBody, htwin.size,
            htwin.content, htwin.toobig, htwin.body, htwin.trailers, htwin.bufr, False.elim⟩
        have hih := ih htwin' (hkeeps.lastCode hcode) (hkeeps.toobig.trans htoobig) hrest'
        have hsame {j m m' : Nat} {r r' : Option Curlcode} {d e : Decoder} :
            Same r r' (j + m) (j + m') d e ↔ Same r r' m m' d e := by
          unfold Same
          rw [Nat.add_left_cancel_iff]
        rw [hsame, hih]
        constructor
        · intro hall hsome hnone
          have hmiss' : ¬(e.ch.state = .trailer ∧ (b = 13 ∨ b = 10) ∧ e.ch.trailer.bufr = none) :=
            fun hm => hmiss ⟨hm.1, hm.2.1, hm.2.2, hsome⟩
          rw [spoils_next hpass hmiss']
          cases hb : e1.ch.trailer.bufr with
          | none => exact hall (hkeepsd.bufr hsome) hb
          | some _ => exact not_spoils_of_some (by rw [hb]; rfl)
        · intro hall hsome1 hnone1
          have hnone : e.ch.trailer.bufr = none := by
            cases hb : e.ch.trailer.bufr with
            | none => rfl
            | some _ =>
              have := hkeeps.bufr (by rw [hb]; rfl)
              rw [hnone1] at this
              cases this
          have hsome : d.ch.trailer.bufr.isSome := by
            by_contra hno
            have := htwin.even (fun hd => absurd hd hno) hsome1
            rw [hnone1] at this
            cases this
          have hmiss' : ¬(e.ch.state = .trailer ∧ (b = 13 ∨ b = 10) ∧ e.ch.trailer.bufr = none) :=
            fun hm => hmiss ⟨hm.1, hm.2.1, hm.2.2, hsome⟩
          rw [← spoils_next hpass hmiss']
          exact hall hsome hnone

/-- With `http_te_skip`, the client has had the bytes as they are before they are decoded. -/
def Decoder.skipped (c : Client) (d : Decoder) (buf : Bytes) : Decoder :=
  if c.httpTeSkip && !d.ch.ignoreBody then { d with body := d.body ++ buf } else d

/-- And it has taken them. -/
def Client.Takes (c : Client) (d : Decoder) (buf : Bytes) : Prop :=
  (c.httpTeSkip && !d.ch.ignoreBody) = true → c.write d.body d.trailers (.body buf) = .ok

theorem readwrite_ends (c : Client) (buf : Bytes) (hdone : d.ch.state ≠ .done)
    (hfailed : d.ch.state ≠ .failed) (htakes : c.Takes d buf) :
    ∃ o d' n, httpchunkReadwrite c.transfer d buf = some (o.getD .ok, d', n) ∧
      Ends c.transfer (d.skipped c buf) buf o d' n := by
  have hfuel : ∀ b rest, buf = b :: rest →
      3 * rest.length + (d.skipped c buf).ch.rank b < 3 * buf.length := by
    rintro b rest rfl
    have := (d.skipped c (b :: rest)).ch.rank_le b
    rw [List.length_cons]
    omega
  obtain ⟨o, d', n, hloop, hends⟩ := readwriteLoop_ends (t := c.transfer) (c := 0) hfuel
  rw [Nat.zero_add] at hloop
  refine ⟨o, d', n, ?_, hends⟩
  rw [← hloop]
  unfold httpchunkReadwrite Decoder.skipped
  rw [if_neg hdone, if_neg hfailed]
  by_cases hskip : (c.transfer.httpTeSkip && !d.ch.ignoreBody) = true
  · have hwrite : c.transfer.write d (.body buf) = .ok := htakes hskip
    have hskip' : (c.httpTeSkip && !d.ch.ignoreBody) = true := hskip
    simp only [if_pos hskip, if_pos hskip', if_pos hwrite]
  · have hskip' : ¬(c.httpTeSkip && !d.ch.ignoreBody) = true := hskip
    simp only [if_neg hskip, if_neg hskip']

/-- A client that does not take the bytes as they are. -/
theorem readwrite_refused (c : Client) (buf : Bytes) (hdone : d.ch.state ≠ .done)
    (hfailed : d.ch.state ≠ .failed) (htakes : ¬c.Takes d buf) :
    httpchunkReadwrite c.transfer d buf = some (c.write d.body d.trailers (.body buf),
      { d with ch := { d.ch with state := .failed, lastCode := .passthruError } }, 0) := by
  obtain ⟨hskip, hwrite⟩ := Classical.not_imp.mp htakes
  have hskip : (c.transfer.httpTeSkip && !d.ch.ignoreBody) = true := hskip
  have hwrite : ¬c.transfer.write d (.body buf) = .ok := hwrite
  unfold httpchunkReadwrite
  rw [if_neg hdone, if_neg hfailed]
  simp only [if_pos hskip, if_neg hwrite]
  rfl

theorem Reached.toobig (h : Reached d) : d.ch.trailer.toobig = dynH1Trailer := by
  induction h with
  | init => rfl
  | reset _ _ ih => exact ih
  | @read d d' r n c buf _ hread ih =>
    by_cases hdone : d.ch.state = .done
    · rw [httpchunkReadwrite, if_pos hdone] at hread
      cases hread
      exact ih
    by_cases hfailed : d.ch.state = .failed
    · rw [httpchunkReadwrite, if_neg hdone, if_pos hfailed] at hread
      cases hread
      exact ih
    by_cases htakes : c.Takes d buf
    · obtain ⟨o, e, m, hloop, hends⟩ := readwrite_ends c buf hdone hfailed htakes
      rw [hread] at hloop
      cases hloop
      have hskipped : (d.skipped c buf).ch = d.ch := by
        unfold Decoder.skipped
        split <;> rfl
      rw [hends.kept.1.toobig, hskipped, ih]
    · rw [readwrite_refused c buf hdone hfailed htakes] at hread
      cases hread
      exact ih

/-- What is seen of a call: its result, the bytes consumed, the state, the code and the output. -/
def observe (r : Option (Curlcode × Decoder × Nat)) :
    Option (Curlcode × Nat × ChunkyState × ChunkCode × Bytes × List Bytes) :=
  r.map fun (result, d, n) => (result, n, d.ch.state, d.ch.lastCode, d.body, d.trailers)

/-- The decoder with its chunker reset, and with a new one. -/
def Decoder.afterReset (d : Decoder) (ignoreBody : Bool) : Decoder :=
  { d with ch := httpchunkReset d.ch ignoreBody }

def Decoder.afterInit (d : Decoder) (ignoreBody : Bool) : Decoder :=
  { d with ch := .init ignoreBody }

/-- A call that comes to the end of the last chunk and finds no trailer there. -/
def SpoilsCall (c : Client) (d : Decoder) (buf : Bytes) : Prop :=
  c.Takes d buf ∧ Spoils c (d.skipped c buf) buf

theorem observe_iff {r r' : Curlcode} :
    observe (some (r, d, n)) = observe (some (r', e, n')) ↔
      r = r' ∧ n = n' ∧ Seen d e := by
  simp [observe, Seen]

/-- After a reset a chunker is as good as a new one if its trailer has no memory, or if the call
does not miss a trailer. -/
theorem reset_iff (c : Client) (ignoreBody : Bool) (buf : Bytes) (h : Reached d) :
    observe (httpchunkReadwrite c.transfer (d.afterReset ignoreBody) buf) =
        observe (httpchunkReadwrite c.transfer (d.afterInit ignoreBody) buf) ↔
      d.ch.trailer.bufr = none ∨ ¬SpoilsCall c (d.afterInit ignoreBody) buf := by
  have htwin : Twin False ((d.afterReset ignoreBody).skipped c buf)
      ((d.afterInit ignoreBody).skipped c buf) := by
    have hboth (body : Bytes) : Twin False { d.afterReset ignoreBody with body }
        { d.afterInit ignoreBody with body } :=
      ⟨rfl, rfl, rfl, rfl, fun hne => absurd rfl hne, Dynbuf.content_reset _, h.toobig, rfl, rfl,
        nofun, False.elim⟩
    unfold Decoder.skipped
    by_cases hskip : (c.httpTeSkip && !(d.afterInit ignoreBody).ch.ignoreBody) = true
    · have hskip' : (c.httpTeSkip && !(d.afterReset ignoreBody).ch.ignoreBody) = true := hskip
      rw [if_pos hskip, if_pos hskip']
      exact hboth _
    · have hskip' : ¬(c.httpTeSkip && !(d.afterReset ignoreBody).ch.ignoreBody) = true := hskip
      rw [if_neg hskip, if_neg hskip']
      exact hboth _
  have hch (e : Decoder) : (e.skipped c buf).ch = e.ch := by
    unfold Decoder.skipped
    split <;> rfl
  have hnone : ((d.afterInit ignoreBody).skipped c buf).ch.trailer.bufr = none := by
    rw [hch]
    rfl
  have hsome : ((d.afterReset ignoreBody).skipped c buf).ch.trailer.bufr.isSome =
      d.ch.trailer.bufr.isSome := by
    rw [hch]
    exact isSome_reset _
  by_cases htakes : c.Takes (d.afterInit ignoreBody) buf
  · obtain ⟨o, d', n, hd, hdends⟩ := readwrite_ends (d := d.afterReset ignoreBody) c buf nofun nofun
      htakes
    obtain ⟨o', e', n', he, heends⟩ := readwrite_ends (d := d.afterInit ignoreBody) c buf nofun
      nofun htakes
    have hiff := ends_iff htwin (by rw [hch]; rfl) (by rw [hch]; rfl) hdends heends
    rw [hsome, hnone] at hiff
    rw [hd, he, observe_iff]
    refine hiff.trans ?_
    cases d.ch.trailer.bufr with
    | none => exact ⟨fun _ => .inl rfl, fun _ => nofun⟩
    | some bytes =>
      constructor
      · exact fun hall => .inr fun hspoils => hall rfl rfl hspoils.2
      · rintro (hbytes | hspoils) _ _ hmissed
        · cases hbytes
        · exact hspoils ⟨htakes, hmissed⟩
  · rw [readwrite_refused c buf (d := d.afterReset ignoreBody) nofun nofun htakes,
      readwrite_refused c buf (d := d.afterInit ignoreBody) nofun nofun htakes]
    exact ⟨fun _ => .inr fun hspoils => htakes hspoils.1, fun _ => rfl⟩

/-- A client that takes everything, before the lines of a response. -/
def plainClient : Client := ⟨false, 0, fun _ _ _ => .ok⟩

/-- What a first response with a trailer leaves. -/
def trailedDecoder : Decoder :=
  match httpchunkReadwrite plainClient.transfer ⟨.init true, [], [], 0⟩
    (Strcase.ascii "0\r\nA: b\r\n\r\n") with
  | some (_, d, _) => d
  | none => ⟨.init true, [], [], 0⟩

theorem trailedDecoder_reached : Reached trailedDecoder :=
  .read plainClient (Strcase.ascii "0\r\nA: b\r\n\r\n") (.init true [] [] 0) (r := .ok) (n := 11)
    (by decide +kernel)

theorem reset_iff_chunk :
    observe (httpchunkReadwrite plainClient.transfer (trailedDecoder.afterReset true)
        (Strcase.ascii "3\r\n")) =
      observe (httpchunkReadwrite plainClient.transfer (trailedDecoder.afterInit true)
        (Strcase.ascii "3\r\n")) ↔
      trailedDecoder.ch.trailer.bufr = none ∨
        ¬SpoilsCall plainClient (trailedDecoder.afterInit true) (Strcase.ascii "3\r\n") :=
  reset_iff plainClient true _ trailedDecoder_reached

/-- The second response has no trailer, and its end is not found. -/
theorem reset_goes_on :
    (observe (httpchunkReadwrite plainClient.transfer (trailedDecoder.afterInit true)
        (Strcase.ascii "0\r\n\r\n"))).map (fun r => (r.1, r.2.2.1)) = some (.ok, .done) ∧
      (observe (httpchunkReadwrite plainClient.transfer (trailedDecoder.afterReset true)
        (Strcase.ascii "0\r\n\r\n"))).map (fun r => (r.1, r.2.2.1)) =
          some (.ok, .trailerPostcr) := by
  constructor <;> decide +kernel

end Gurl.Http
