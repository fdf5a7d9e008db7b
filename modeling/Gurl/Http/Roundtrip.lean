import Gurl.Http.Encoder

/-! Decoding undoes encoding: what the chunked reader returns, the decoder turns into the body
again. -/

namespace Gurl.Http

open Buffer Strparse

variable {t : Transfer} {d d' : Decoder} {fuel num : Nat} {w : Bytes} {c : UInt8}

/-! ### Sizes -/

theorem hexDigit_spec : ∀ n < 16, hexval (hexDigit n) = n ∧ isXDigit (hexDigit n) = true := by
  decide

theorem isXDigit_validDigit (h : isXDigit c = true) : validDigit c 102 = true := by
  revert h
  have hall : ∀ n < 256, isXDigit (UInt8.ofNat n) = true →
    validDigit (UInt8.ofNat n) 102 = true := by
    decide +kernel
  have hc := hall c.toNat c.toNat_lt
  rwa [UInt8.ofNat_toNat] at hc

/-- The value of hexadecimal digits behind the number `num`. -/
def hexFrom (num : Nat) (ds : Bytes) : Nat := ds.foldl (fun n c => n * 16 + hexval c) num

theorem hexFrom_fmtHexLoop (hnum : num < 16 ^ fuel) :
    hexFrom 0 (fmtHexLoop fuel num w) = hexFrom num w := by
  induction fuel generalizing num w with
  | zero =>
    obtain rfl : num = 0 := by simpa using hnum
    rfl
  | succ fuel ih =>
    rw [fmtHexLoop]
    split
    · rename_i hzero
      rw [hzero]
    · have hdigit := (hexDigit_spec (num % 16) (Nat.mod_lt _ (by decide))).1
      have hquot : num / 16 < 16 ^ fuel := by
        rw [Nat.div_lt_iff_lt_mul (by decide), ← Nat.pow_succ]
        exact hnum
      rw [ih hquot, hexFrom, List.foldl_cons, hdigit, Nat.div_add_mod' num 16]
      rfl

theorem fmtHexLoop_digits (h : ∀ c ∈ w, isXDigit c = true) :
    ∀ c ∈ fmtHexLoop fuel num w, isXDigit c = true := by
  induction fuel generalizing num w with
  | zero => exact h
  | succ fuel ih =>
    rw [fmtHexLoop]
    split
    · exact h
    · refine ih fun c hc => ?_
      rcases List.mem_cons.mp hc with rfl | hc
      · exact (hexDigit_spec _ (Nat.mod_lt _ (by decide))).2
      · exact h c hc

theorem fmtHexLoop_length {k : Nat} (hnum : num < 16 ^ k) :
    (fmtHexLoop fuel num w).length ≤ k + w.length := by
  induction fuel generalizing num w k with
  | zero => simp [fmtHexLoop]
  | succ fuel ih =>
    rw [fmtHexLoop]
    split
    · omega
    · cases k with
      | zero =>
        rw [Nat.pow_zero] at hnum
        omega
      | succ k =>
        have hquot : num / 16 < 16 ^ k := by
          rw [Nat.div_lt_iff_lt_mul (by decide), ← Nat.pow_succ]
          exact hnum
        have := ih (w := hexDigit (num % 16) :: w) hquot
        rw [List.length_cons] at this
        omega

/-- Hexadecimal digits of a number that fits are read as this number. -/
theorem numLoop_hex {max : Nat} (hmax : 16 ≤ max) {ds : Bytes}
    (hds : ∀ c ∈ ds, isXDigit c = true) (hfits : hexFrom num ds ≤ max) :
    numLoop max 16 102 num ds = .ok (hexFrom num ds, []) := by
  induction ds generalizing num with
  | nil => rfl
  | cons c ds ih =>
    have hc := isXDigit_validDigit (hds c List.mem_cons_self)
    have hgrow : ∀ (ds : Bytes) (n : Nat), n ≤ hexFrom n ds := by
      intro ds
      induction ds with
      | nil => exact fun n => Nat.le_refl n
      | cons c ds ih => exact fun n => Nat.le_trans (by omega) (ih (n * 16 + hexval c))
    have hstep : num * 16 + hexval c ≤ max := Nat.le_trans (hgrow ds _) hfits
    have hroom : ¬ num > (max - hexval c) / 16 := by
      rw [gt_iff_lt, Nat.div_lt_iff_lt_mul (by decide)]
      omega
    rw [numLoop, if_pos hc, if_neg (by omega), if_neg hroom]
    exact ih (fun c hc => hds c (List.mem_cons_of_mem _ hc)) hfits

/-- What `%zx` prints of a number with no more than `k` digits. -/
structure Hex (num k : Nat) (ds : Bytes) : Prop where
  digits : ∀ c ∈ ds, isXDigit c = true
  some : ds ≠ []
  length : ds.length ≤ k
  value : hexFrom 0 ds = num

theorem zero_digits : ∀ c ∈ ([48] : Bytes), isXDigit c = true := by
  intro c hc
  rw [List.mem_singleton.mp hc]
  decide

theorem fmtHex_hex {k : Nat} (hk : 1 ≤ k ∧ k ≤ 16) (hnum : num < 16 ^ k) :
    Hex num k (fmtHex num) := by
  unfold fmtHex
  split
  · rename_i hzero
    subst hzero
    exact ⟨zero_digits, by simp, hk.1, by decide⟩
  · rename_i hzero
    have hvalue : hexFrom 0 (fmtHexLoop 16 num []) = num :=
      hexFrom_fmtHexLoop (hnum.trans_le (Nat.pow_le_pow_right (by decide) hk.2))
    refine ⟨fmtHexLoop_digits (by simp), ?_, fmtHexLoop_length hnum, hvalue⟩
    intro hnil
    rw [hnil] at hvalue
    exact hzero hvalue.symm

/-- `curlx_str_hex` reads what `%zx` has printed. -/
theorem Hex.strNumBase {k : Nat} {ds : Bytes} (h : Hex num k ds) (hnum : num ≤ curlOffTMax) :
    strNumBase ds curlOffTMax 16 = .ok (num, []) := by
  have hloop := numLoop_hex (by decide) h.digits (h.value.trans_le hnum)
  rw [h.value] at hloop
  obtain ⟨c, ds, rfl⟩ := List.exists_cons_of_ne_nil h.some
  simp only [Strparse.strNumBase, reduceIte, Nat.reduceEqDiff,
    isXDigit_validDigit (h.digits c List.mem_cons_self)]
  exact hloop

/-! ### The decoder on a chunk -/

/-- The decoder waits for a chunk. -/
structure Decoder.Fresh (d : Decoder) : Prop where
  state : d.ch.state = .hex
  hexbuffer : d.ch.hexbuffer = []
  trailer : d.ch.trailer.bufr = none
  ignoreBody : d.ch.ignoreBody = false

theorem ends_digits {ds : Bytes} (hds : ∀ c ∈ ds, isXDigit c = true)
    (hstate : d.ch.state = .hex) (hlen : d.ch.hexbuffer.length + ds.length ≤ 16) :
    Ends t d ds none { d with ch := { d.ch with hexbuffer := d.ch.hexbuffer ++ ds } }
      ds.length := by
  induction ds generalizing d with
  | nil =>
    rw [List.append_nil]
    exact .nil d
  | cons c ds ih =>
    rw [List.length_cons] at hlen
    have hpass : pass t d c ds =
        .next { d with ch := { d.ch with hexbuffer := d.ch.hexbuffer ++ [c] } } 1 := by
      simp only [pass, hstate, hexPass, hds c List.mem_cons_self, if_true, chunkMaxnumLen]
      rw [if_neg (by omega)]
    rw [List.length_cons, Nat.add_comm]
    refine .next hpass ?_
    have hrest := ih (d := { d with ch := { d.ch with hexbuffer := d.ch.hexbuffer ++ [c] } })
      (fun c hc => hds c (List.mem_cons_of_mem _ hc)) hstate (by simp; omega)
    simpa using hrest

/-- The line end behind a size. -/
theorem ends_size {n : Nat} {rest : Bytes} (hstate : d.ch.state = .hex)
    (hsome : d.ch.hexbuffer ≠ [])
    (hsize : strNumBase d.ch.hexbuffer curlOffTMax 16 = .ok (n, rest)) :
    Ends t d [13, 10] none
      { d with ch := { d.ch with datasize := n, state := if n = 0 then .trailer else .data } }
        2 := by
  have h1 : pass t d 13 [10] =
    .next { d with ch := { d.ch with datasize := n, state := .lf } } 0 := by
    have hcr : isXDigit 13 = false := by decide
    simp [pass, hstate, hexPass, hcr, hsome, hsize]
  exact .next h1 (.next (k := 1) rfl (.next (k := 1) rfl (.nil _)))

theorem ends_data {p : Bytes} (ht : t.Decoding) (hstate : d.ch.state = .data)
    (hsize : d.ch.datasize = p.length) (hsome : p ≠ []) :
    Ends t d p none (d.accept p) p.length := by
  obtain ⟨c, ds, rfl⟩ := List.exists_cons_of_ne_nil hsome
  have hpass := pass_data ht hstate c ds
  rw [hsize, List.take_length] at hpass
  have hrest : Ends t (d.accept (c :: ds)) ((c :: ds).drop (c :: ds).length) none
      (d.accept (c :: ds)) 0 := by
    rw [List.drop_length]
    exact .nil _
  have hends := Ends.next hpass hrest
  rwa [Nat.add_zero] at hends

/-- The line end behind the data. -/
theorem ends_postlf (hstate : d.ch.state = .postlf) :
    Ends t d [13, 10] none { d with ch := d.ch.reset } 2 := by
  have h1 : pass t d 13 [10] = .next d 1 := by simp [pass, hstate, postlfPass]
  have h2 : pass t d 10 [] = .next { d with ch := d.ch.reset } 1 := by
    simp [pass, hstate, postlfPass]
  exact .next h1 (.next h2 (.nil _))

/-- The bytes of a chunk with the data `p`. -/
def chunkOf (p : Bytes) : Bytes := fmtHex p.length ++ [13, 10] ++ p ++ [13, 10]

theorem ends_chunk {p : Bytes} (ht : t.Decoding) (hd : d.Fresh) (hsome : p ≠ [])
    (hlen : p.length ≤ curlOffTMax) :
    ∃ d', Ends t d (chunkOf p) none d' (chunkOf p).length ∧ d'.Fresh ∧ d'.body = d.body ++ p ∧
      d'.trailers = d.trailers := by
  have hhex := fmtHex_hex (k := 16) (by omega) (hlen.trans_lt (by decide))
  have hne : p.length ≠ 0 := by simpa using hsome
  have hdigits := ends_digits (t := t) hhex.digits hd.state (by
    rw [hd.hexbuffer, List.length_nil, Nat.zero_add]
    exact hhex.length)
  rw [hd.hexbuffer, List.nil_append] at hdigits
  have hsize := ends_size (t := t) (n := p.length)
    (d := { d with ch := { d.ch with hexbuffer := fmtHex p.length } }) hd.state hhex.some
    (hhex.strNumBase hlen)
  have hdata := ends_data (p := p) ht
    (d := { d with ch := { d.ch with
      hexbuffer := fmtHex p.length, datasize := p.length, state := .data } }) rfl rfl hsome
  rw [if_neg hne] at hsize
  have hpost := ends_postlf (t := t)
    (d := { d with ch := { d.ch with
      hexbuffer := fmtHex p.length, datasize := p.length, state := .data } }.accept p) (by
        simp [Decoder.accept])
  have hall := ((hdigits.append ht hsize).append ht hdata).append ht hpost
  have hlength : (fmtHex p.length).length + 2 + p.length + 2 = (chunkOf p).length := by
    simp only [chunkOf, List.length_append, List.length_cons, List.length_nil]
  rw [hlength] at hall
  refine ⟨_, hall, ⟨rfl, rfl, ?_, hd.ignoreBody⟩, ?_, rfl⟩
  · simp [Decoder.accept, Chunker.reset, Dynbuf.reset, hd.trailer]
  · simp [Decoder.accept, hd.ignoreBody]

/-- The last chunk, without trailers. -/
def lastChunk : Bytes := [48, 13, 10, 13, 10]

/-- The end of the trailers, when there are none. -/
theorem ends_trailer (hstate : d.ch.state = .trailer) (hbufr : d.ch.trailer.bufr = none) :
    ∃ d', Ends t d [13, 10] (some .ok) d' 2 ∧ d'.ch.state = .done ∧ d'.body = d.body ∧
      d'.trailers = d.trailers := by
  have h1 : pass t d 13 [10] = .next (d.enter .trailerPostcr) 0 := by
    simp [pass, hstate, trailerPass, hbufr]
  have h2 : pass t (d.enter .trailerPostcr) 13 [10] = .next (d.enter .stop) 1 := by
    simp [pass, Decoder.enter, trailerPostcrPass]
  have h3 : pass t (d.enter .stop) 10 [] =
      .ret .ok { d with ch := { d.ch with datasize := 0, state := .done } } 1 := by
    simp [pass, Decoder.enter, stopPass]
  exact ⟨_, .next h1 (.next h2 (.ret h3)), rfl, rfl, rfl⟩

theorem ends_last (ht : t.Decoding) (hd : d.Fresh) :
    ∃ d', Ends t d lastChunk (some .ok) d' lastChunk.length ∧ d'.ch.state = .done ∧
      d'.body = d.body ∧ d'.trailers = d.trailers := by
  have hdigits := ends_digits (t := t) (d := d) zero_digits hd.state (by
    rw [hd.hexbuffer]
    decide)
  rw [hd.hexbuffer, List.nil_append] at hdigits
  have hzero : strNumBase [48] curlOffTMax 16 = .ok (0, []) := by decide
  have hsize := ends_size (t := t) (d := { d with ch := { d.ch with hexbuffer := [48] } })
    hd.state (by simp) hzero
  obtain ⟨d', htrailer, hdone, hbody, htrailers⟩ := ends_trailer (t := t)
    (d := { d with ch := { d.ch with hexbuffer := [48], datasize := 0, state := .trailer } })
    rfl hd.trailer
  exact ⟨d', (hdigits.append ht hsize).append ht htrailer, hdone, hbody, htrailers⟩

/-- What the reader makes of the pieces of a body, and of its end. -/
def encode (pieces : List Bytes) (eos : Bool) : Bytes :=
  pieces.flatMap chunkOf ++ if eos then lastChunk else []

/-- A piece can be the data of a chunk. -/
structure IsPiece (p : Bytes) : Prop where
  some : p ≠ []
  length : p.length ≤ curlChunkedMaxlen

/-- The decoder gets the body back from its encoding. -/
theorem ends_encode (ht : t.Decoding) (hd : d.Fresh) {pieces : List Bytes}
    (hpieces : ∀ p ∈ pieces, IsPiece p) :
    ∃ d', Ends t d (encode pieces true) (some .ok) d' (encode pieces true).length ∧
      d'.ch.state = .done ∧ d'.body = d.body ++ pieces.flatten ∧ d'.trailers = d.trailers := by
  induction pieces generalizing d with
  | nil =>
    obtain ⟨d', hends, hdone, hbody, htrailers⟩ := ends_last ht hd
    exact ⟨d', hends, hdone, by simpa using hbody, htrailers⟩
  | cons p pieces ih =>
    have hp := hpieces p List.mem_cons_self
    obtain ⟨d1, hends1, hfresh, hbody1, htrailers1⟩ :=
      ends_chunk ht hd hp.some (hp.length.trans (by decide))
    obtain ⟨d2, hends2, hdone, hbody2, htrailers2⟩ :=
      ih hfresh fun q hq => hpieces q (List.mem_cons_of_mem _ hq)
    have hcons : encode (p :: pieces) true = chunkOf p ++ encode pieces true := by
      simp [encode]
    rw [hcons, List.length_append]
    refine ⟨d2, hends1.append ht hends2, hdone, ?_, htrailers2.trans htrailers1⟩
    rw [hbody2, hbody1, List.flatten_cons, List.append_assoc]

/-! ### A call of the reader -/

variable {ctx ctx' : ChunkedReader} {sent left left' : Bytes} {ps : List Bytes}
  {a : ReadAnswer} {cs : List ReadCall} {answers : List ReadAnswer}

/-- The buffer holds `left`, and no write to it is refused. -/
structure Holding (ctx : ChunkedReader) (left : Bytes) : Prop where
  rep : Rep ctx.chunkbuf left
  soft : ctx.chunkbuf.q.softLimit = true

theorem cwrite_spec (h : Holding ctx left) (buf : Bytes) :
    ∃ chunkbuf result left', ctx.cwrite buf = some ({ ctx with chunkbuf }, result) ∧
      Holding { ctx with chunkbuf } left' ∧
      (result = .outOfMemory ∨ result = .ok ∧ left' = left ++ buf) := by
  obtain ⟨s', res, n, ys, hwrite, hsoft, hrep, hres⟩ := bufqWrite_soft buf h.rep h.soft
  exact ⟨s', res, ys, by simp [ChunkedReader.cwrite, hwrite], ⟨hrep, hsoft⟩,
    hres.imp And.left fun h => ⟨h.1, h.2.2⟩⟩

theorem cwrites_spec (h : Holding ctx left) (bufs : List Bytes) :
    ∃ chunkbuf result left', ctx.cwrites bufs = some ({ ctx with chunkbuf }, result) ∧
      Holding { ctx with chunkbuf } left' ∧
      (result = .outOfMemory ∨ result = .ok ∧ left' = left ++ bufs.flatten) := by
  induction bufs generalizing ctx left with
  | nil => exact ⟨ctx.chunkbuf, .ok, left, rfl, h, .inr ⟨rfl, by simp⟩⟩
  | cons buf bufs ih =>
    obtain ⟨s1, r1, left1, hwrite, hholding, hres⟩ := cwrite_spec h buf
    rw [ChunkedReader.cwrites, hwrite]
    simp only [Option.bind_eq_bind, Option.bind_some]
    rcases hres with rfl | ⟨rfl, rfl⟩
    · exact ⟨s1, .outOfMemory, left1, rfl, hholding, .inl rfl⟩
    · obtain ⟨s2, r2, left2, hwrites, hholding2, hres2⟩ := ih hholding
      refine ⟨s2, r2, left2, hwrites, hholding2, ?_⟩
      rw [List.flatten_cons, ← List.append_assoc]
      exact hres2

/-- The line in front of a chunk fits. -/
theorem chunkLine_eq {p : Bytes} (hp : p.length ≤ curlChunkedMaxlen) :
    chunkLine p.length = fmtHex p.length ++ [13, 10] := by
  have hhex := fmtHex_hex (k := 8) (by omega) (hp.trans_lt (by decide))
  refine List.take_of_length_le ?_
  have := hhex.length
  simp only [List.length_append, List.length_cons, List.length_nil]
  omega

/-- What a read of the next reader adds to the pieces of a body. -/
def NextRead.pieces (read : NextRead) : List Bytes :=
  if read.result = .ok ∧ read.bytes ≠ [] then [read.bytes] else []

/-- The read is the last one. -/
def NextRead.last (read : NextRead) : Bool := read.result = .ok && read.eos

theorem addData_spec (h : Holding ctx []) {bytes : Bytes}
    (hlen : bytes.length ≤ curlChunkedMaxlen) :
    ∃ chunkbuf result left', addData ctx bytes = some ({ ctx with chunkbuf }, result) ∧
      Holding { ctx with chunkbuf } left' ∧
      (result = .outOfMemory ∨
        result = .ok ∧ left' = (if bytes ≠ [] then [bytes] else []).flatMap chunkOf) := by
  unfold addData
  split
  · obtain ⟨s1, r1, left1, hwrites, hholding, hres⟩ := cwrites_spec h
      [chunkLine bytes.length, bytes, [13, 10]]
    refine ⟨s1, r1, left1, hwrites, hholding, hres.imp_right fun ⟨hr, hleft⟩ => ⟨hr, ?_⟩⟩
    rw [hleft, chunkLine_eq hlen]
    simp [chunkOf]
  · exact ⟨ctx.chunkbuf, .ok, [], rfl, h, .inr ⟨rfl, rfl⟩⟩

theorem addChunk_spec (h : Holding ctx []) (heos : ctx.readEos = false) {read : NextRead}
    (hlen : read.bytes.length ≤ curlChunkedMaxlen) :
    ∃ chunkbuf readEos result left', addChunk none ctx read =
        some ({ ctx with chunkbuf, readEos }, result) ∧
      Holding { ctx with chunkbuf, readEos } left' ∧
      (result = .outOfMemory ∨
        result = read.result ∧ readEos = read.last ∧ left' = encode read.pieces read.last) := by
  unfold addChunk
  by_cases hok : read.result = .ok
  · rw [if_neg (not_not.mpr hok), heos, Bool.false_or]
    have hlast : read.last = read.eos := by simp [NextRead.last, hok]
    have hmarked : Holding { ctx with readEos := read.eos } [] := ⟨h.rep, h.soft⟩
    obtain ⟨s1, r1, left1, hwrites, hholding, hres⟩ := addData_spec hmarked hlen
    have hpieces : read.pieces = if read.bytes ≠ [] then [read.bytes] else [] := by
      simp [NextRead.pieces, hok]
    rw [← hpieces] at hres
    rw [hwrites]
    simp only [Option.bind_eq_bind, Option.bind_some]
    rcases hres with rfl | ⟨rfl, hleft⟩
    · exact ⟨s1, _, .outOfMemory, left1, rfl, hholding, .inl rfl⟩
    rw [if_neg (by simp)]
    cases hend : read.eos with
    | false =>
      rw [hend] at hholding hlast
      refine ⟨s1, _, .ok, left1, rfl, hholding, .inr ⟨hok.symm, hlast.symm, ?_⟩⟩
      simp [encode, hleft, hlast]
    | true =>
      rw [hend] at hholding hlast
      obtain ⟨s2, r2, left2, hwrite, hholding2, hres2⟩ := cwrite_spec hholding lastChunk
      refine ⟨s2, true, r2, left2, hwrite, hholding2, hres2.imp_right fun ⟨hr, hleft2⟩ => ?_⟩
      refine ⟨hr.trans hok.symm, hlast.symm, ?_⟩
      rw [hleft2, hleft, encode, hlast, if_pos rfl]
  · rw [if_pos hok]
    refine ⟨ctx.chunkbuf, ctx.readEos, read.result, [], rfl, h, .inr ⟨rfl, ?_, ?_⟩⟩
    · simp [heos, NextRead.last, hok]
    · simp [encode, NextRead.pieces, NextRead.last, hok]

/-- The buffer hands out its first bytes, and reports the end with the last one. -/
theorem drainChunkbuf_spec (h : Holding ctx left) (heos : ctx.eos = false) (blen : Nat)
    (read : Option NextRead) :
    ∃ chunkbuf eos result, drainChunkbuf ctx blen read =
        some ({ ctx with chunkbuf, eos }, ⟨result, left.take blen, eos, read⟩) ∧
      Holding { ctx with chunkbuf, eos } (left.drop blen) ∧ result ≠ .outOfMemory ∧
      (eos = true ↔ ctx.readEos = true ∧ left ≠ [] ∧ left.drop blen = []) := by
  unfold drainChunkbuf
  rw [bufqIsEmpty_spec h.rep]
  simp only [Option.bind_eq_bind, Option.bind_some, decide_eq_true_eq]
  split
  · rename_i hnil
    subst hnil
    rw [List.take_nil, List.drop_nil]
    exact ⟨ctx.chunkbuf, false, .ok, by simp [← heos], ⟨h.rep, h.soft⟩, nofun, by simp⟩
  · rename_i hne
    obtain ⟨s', hread, hrep⟩ := bufqRead_spec blen h.rep
    rw [hread]
    simp only [Option.bind_some, bufqIsEmpty_spec hrep]
    refine ⟨s', _, _, rfl, ⟨hrep, (softLimit_eq (bufqRead_options hread)).trans h.soft⟩, ?_, ?_⟩
    · split <;> exact nofun
    · have htake : left.drop blen = [] → left.take blen ≠ [] := by
        intro hdrop htake
        exact hne (by rw [← List.take_append_drop blen left, htake, hdrop, List.append_nil])
      simp only [Bool.and_eq_true, decide_eq_true_eq]
      constructor
      · rintro ⟨⟨-, hend⟩, hdrop⟩
        exact ⟨hend, hne, hdrop⟩
      · rintro ⟨hend, -, hdrop⟩
        exact ⟨⟨if_neg (htake hdrop), hend⟩, hdrop⟩

/-- The pieces that a call has got from the next reader. -/
def ReadAnswer.pieces (a : ReadAnswer) : List Bytes := (a.read.map NextRead.pieces).getD []

/-- In this call the next reader has reported its end. -/
def ReadAnswer.last (a : ReadAnswer) : Bool := (a.read.map NextRead.last).getD false

/-- A call that does not run out of memory returns the first of the bytes that were left, followed
by those it has encoded. It reads on only when nothing is left. -/
structure Returns (readEos : Bool) (left : Bytes) (blen : Nat) (a : ReadAnswer)
    (ctx' : ChunkedReader) (left' : Bytes) : Prop where
  bytes : a.bytes = (left ++ encode a.pieces a.last).take blen
  rest : left' = (left ++ encode a.pieces a.last).drop blen
  pieces : ∀ p ∈ a.pieces, IsPiece p
  idle : readEos = true ∨ left ≠ [] → a.pieces = [] ∧ a.last = false
  ended : ctx'.readEos = (readEos || a.last)
  answer : a.eos = ctx'.eos
  eos : ctx'.eos = true ↔
    ctx'.readEos = true ∧ left ++ encode a.pieces a.last ≠ [] ∧ left' = []

theorem addChunkLen_le (blen : Nat) : addChunkLen blen ≤ curlChunkedMaxlen := by
  have hle : min blen curlChunkedMaxlen ≤ curlChunkedMaxlen := Nat.min_le_right _ _
  unfold addChunkLen
  dsimp only
  split
  · decide
  · exact (Nat.sub_le _ _).trans hle

theorem NextRead.isPiece {read : NextRead} (hlen : read.bytes.length ≤ curlChunkedMaxlen) :
    ∀ p ∈ read.pieces, IsPiece p := by
  intro p hp
  unfold NextRead.pieces at hp
  split at hp
  · rename_i hread
    rw [List.mem_singleton.mp hp]
    exact ⟨hread.2, hlen⟩
  · cases hp

theorem crChunkedRead_eos (heos : ctx.eos = true) (c : ReadCall) :
    crChunkedRead none ctx c = some (ctx.granted c.mallocs, ⟨.ok, [], true, none⟩) := by
  simp [crChunkedRead, ChunkedReader.granted, heos]

theorem crChunkedRead_spec (h : Holding ctx left) (heos : ctx.eos = false) (c : ReadCall) :
    ∃ ctx' a left', crChunkedRead none ctx c = some (ctx', a) ∧ Holding ctx' left' ∧
      (a.result ≠ .outOfMemory → Returns ctx.readEos left c.blen a ctx' left') ∧
      (ctx.readEos = true → a.result ≠ .outOfMemory) := by
  have hholding0 : Holding (ctx.granted c.mallocs) left := ⟨h.rep.withMallocs c.mallocs, h.soft⟩
  have heos0 : (ctx.granted c.mallocs).eos = false := heos
  have hend0 : ctx.readEos = (ctx.granted c.mallocs).readEos := rfl
  unfold crChunkedRead
  rw [hend0]
  generalize ctx.granted c.mallocs = ctx at hholding0 heos0
  rw [if_neg (by simp [heos0]), bufqIsEmpty_spec hholding0.rep]
  simp only [Option.bind_eq_bind, Option.bind_some]
  split
  · rename_i hread
    obtain ⟨hend, rfl⟩ : ctx.readEos = false ∧ left = [] := by simpa using hread
    have hlen := (c.bounded (addChunkLen c.blen)).trans (addChunkLen_le c.blen)
    obtain ⟨s1, e1, r1, left1, hadd, hholding, hres⟩ := addChunk_spec hholding0 hend hlen
    rw [hadd]
    simp only [Option.bind_some]
    split
    · -- the next reader or the memory has failed
      rename_i hfail
      refine ⟨_, _, left1, rfl, hholding, fun hmem => ?_, by simp [hend]⟩
      obtain ⟨hr, he, hleft⟩ := hres.resolve_left hmem
      have hnone : (c.next (addChunkLen c.blen)).pieces = [] ∧
          (c.next (addChunkLen c.blen)).last = false := by
        simp [NextRead.pieces, NextRead.last, ← hr, hfail]
      rw [hnone.2] at he
      rw [hnone.1, hnone.2] at hleft
      subst he hleft
      exact {
        bytes := by simp [ReadAnswer.pieces, ReadAnswer.last, hnone, encode]
        rest := by simp [ReadAnswer.pieces, ReadAnswer.last, hnone, encode]
        pieces := by simp [ReadAnswer.pieces, hnone]
        idle := fun _ => by simp [ReadAnswer.pieces, ReadAnswer.last, hnone]
        ended := by simp [ReadAnswer.last, hnone, hend]
        answer := heos0.symm
        eos := by simp [heos0] }
    · rename_i hok
      rw [not_not] at hok
      obtain ⟨hr, he, hleft⟩ := hres.resolve_left (by rw [hok]; exact nofun)
      obtain ⟨s2, e2, r2, hdrain, hholding2, hmem, hiff⟩ := drainChunkbuf_spec hholding heos0 c.blen
        (some (c.next (addChunkLen c.blen)))
      subst he hleft
      exact ⟨_, _, _, hdrain, hholding2, fun _ => {
        bytes := rfl
        rest := rfl
        pieces := NextRead.isPiece hlen
        idle := fun hidle => by simp [hend] at hidle
        ended := by simp [ReadAnswer.last, hend]
        answer := rfl
        eos := hiff }, fun _ => hmem⟩
  · rename_i hread
    obtain ⟨s1, e1, r1, hdrain, hholding, hmem, hiff⟩ :=
      drainChunkbuf_spec hholding0 heos0 c.blen none
    exact ⟨_, _, _, hdrain, hholding, fun _ => {
      bytes := by simp [ReadAnswer.pieces, ReadAnswer.last, encode]
      rest := by simp [ReadAnswer.pieces, ReadAnswer.last, encode]
      pieces := fun _ hp => nomatch hp
      idle := fun _ => ⟨rfl, rfl⟩
      ended := by simp [ReadAnswer.last]
      answer := rfl
      eos := by simpa [ReadAnswer.pieces, ReadAnswer.last, encode] using hiff }, fun _ => hmem⟩

/-! ### The reader on a run of calls -/

/-- The reader has returned the bytes `sent` and has got the pieces `ps` of a body: the bytes that
are left in the buffer complete the encoding. -/
structure Encoding (ctx : ChunkedReader) (sent : Bytes) (ps : List Bytes)
    (left : Bytes) : Prop where
  holding : Holding ctx left
  bytes : sent ++ left = encode ps ctx.readEos
  pieces : ∀ p ∈ ps, IsPiece p
  eos : ctx.eos = true ↔ ctx.readEos = true ∧ left = []

theorem encoding_init : Encoding crChunkedInit [] [] [] where
  holding := ⟨rep_init 2 true false (by decide) ⟨[], rfl, List.nodup_nil, fun _ hp => nomatch hp⟩,
    rfl⟩
  bytes := rfl
  pieces _ hp := nomatch hp
  eos := by simp [crChunkedInit]

theorem encode_append (ps qs : List Bytes) (eos : Bool) :
    encode (ps ++ qs) eos = encode ps false ++ encode qs eos := by
  simp [encode]

/-- The encoding goes on with what a call has read. -/
theorem Returns.encoding {blen : Nat} (h : Encoding ctx sent ps left)
    (hreturns : Returns ctx.readEos left blen a ctx' left') (hholding : Holding ctx' left')
    (heos : ctx.eos = false) :
    Encoding ctx' (sent ++ a.bytes) (ps ++ a.pieces) left' where
  holding := hholding
  bytes := by
    have hall : sent ++ a.bytes ++ left' = sent ++ left ++ encode a.pieces a.last := by
      rw [List.append_assoc, List.append_assoc, hreturns.bytes, hreturns.rest,
        List.take_append_drop]
    rw [hall, h.bytes, hreturns.ended]
    cases hend : ctx.readEos with
    | false => rw [encode_append, Bool.false_or]
    | true =>
      obtain ⟨hnone, hlast⟩ := hreturns.idle (.inl hend)
      simp [hnone, hlast, encode]
  pieces p hp := (List.mem_append.mp hp).elim (h.pieces p) (hreturns.pieces p)
  eos := by
    rw [hreturns.eos]
    refine ⟨fun hnow => ⟨hnow.1, hnow.2.2⟩, fun ⟨hend, hnil⟩ => ⟨hend, ?_, hnil⟩⟩
    intro hall
    obtain ⟨hleft, hadded⟩ := List.append_eq_nil_iff.mp hall
    rw [hreturns.ended, Bool.or_eq_true] at hend
    rcases hend with hend | hlast
    · rw [h.eos.mpr ⟨hend, hleft⟩] at heos
      cases heos
    · simp [encode, hlast, lastChunk] at hadded

/-- What the calls have returned. -/
def returned (answers : List ReadAnswer) : Bytes := answers.flatMap ReadAnswer.bytes

/-- The pieces of the body that the calls have got from the next reader. -/
def supplied (answers : List ReadAnswer) : List Bytes := answers.flatMap ReadAnswer.pieces

/-- No call has run out of memory. -/
def EnoughMemory (answers : List ReadAnswer) : Prop := ∀ a ∈ answers, a.result ≠ .outOfMemory

/-- A call that does not run out of memory. -/
theorem Encoding.step (h : Encoding ctx sent ps left) {c : ReadCall}
    (hcall : crChunkedRead none ctx c = some (ctx', a)) (hmem : a.result ≠ .outOfMemory) :
    ∃ left', Encoding ctx' (sent ++ a.bytes) (ps ++ a.pieces) left' ∧ a.eos = ctx'.eos ∧
      ctx'.readEos = (ctx.readEos || a.last) ∧ (ctx.eos = false → a.eos = true → a.bytes ≠ []) ∧
      (ctx.readEos = true → 0 < c.blen → ctx'.eos = true ∨ left'.length < left.length) := by
  cases heos : ctx.eos with
  | true =>
    rw [crChunkedRead_eos heos] at hcall
    cases hcall
    obtain ⟨hend, hnil⟩ := h.eos.mp heos
    refine ⟨left, ⟨⟨h.holding.rep.withMallocs _, h.holding.soft⟩, ?_, ?_, h.eos⟩, heos.symm, ?_,
      nofun, fun _ _ => .inl heos⟩
    · simpa [ChunkedReader.granted, ReadAnswer.pieces] using h.bytes
    · simpa [ReadAnswer.pieces] using h.pieces
    · simp [ChunkedReader.granted, ReadAnswer.last]
  | false =>
    obtain ⟨ctx1, a1, left1, hcall1, hholding, hreturns, -⟩ := crChunkedRead_spec h.holding heos c
    rw [hcall, Option.some.injEq, Prod.mk.injEq] at hcall1
    obtain ⟨rfl, rfl⟩ := hcall1
    replace hreturns := hreturns hmem
    refine ⟨left1, hreturns.encoding h hholding heos, hreturns.answer, hreturns.ended, ?_, ?_⟩
    · intro _ hanswer hnil
      rw [hreturns.answer, hreturns.eos, hreturns.rest] at hanswer
      rw [hreturns.bytes] at hnil
      obtain ⟨-, hne, hdrop⟩ := hanswer
      exact hne (by rw [← List.take_append_drop c.blen (left ++ _), hnil, hdrop, List.append_nil])
    · intro hend hpos
      obtain ⟨hnone, hlast⟩ := hreturns.idle (.inl hend)
      have hne : left ≠ [] := fun hnil => by simp [h.eos.mpr ⟨hend, hnil⟩] at heos
      right
      have hlen : 0 < left.length := List.length_pos_iff.mpr hne
      rw [hreturns.rest, hnone, hlast]
      simp [encode]
      omega

/-- A call answers, whatever memory there is. -/
theorem crChunkedRead_total (h : Holding ctx left) (c : ReadCall) :
    ∃ ctx' a left', crChunkedRead none ctx c = some (ctx', a) ∧ Holding ctx' left' ∧
      (ctx.readEos = true → a.result ≠ .outOfMemory) := by
  cases heos : ctx.eos with
  | true =>
    exact ⟨_, _, left, crChunkedRead_eos heos c, ⟨h.rep.withMallocs _, h.soft⟩, nofun⟩
  | false =>
    obtain ⟨ctx', a, left', hcall, hholding, -, hmem⟩ := crChunkedRead_spec h heos c
    exact ⟨ctx', a, left', hcall, hholding, hmem⟩

theorem calls_total (h : Holding ctx left) (cs : List ReadCall) :
    ∃ ctx' answers, Refine.calls (crChunkedRead none) ctx cs = some (ctx', answers) := by
  induction cs generalizing ctx left with
  | nil => exact ⟨ctx, [], rfl⟩
  | cons c cs ih =>
    obtain ⟨ctx1, a, left1, hcall, hholding, -⟩ := crChunkedRead_total h c
    obtain ⟨ctx2, answers, hcalls⟩ := ih hholding
    exact ⟨ctx2, a :: answers, by simp [Refine.calls, hcall, hcalls]⟩

/-- A run of calls that does not run out of memory. -/
theorem Encoding.calls (h : Encoding ctx sent ps left)
    (hcalls : Refine.calls (crChunkedRead none) ctx cs = some (ctx', answers))
    (hmem : EnoughMemory answers) :
    ∃ left', Encoding ctx' (sent ++ returned answers) (ps ++ supplied answers) left' ∧
      ctx'.readEos = (ctx.readEos || answers.any ReadAnswer.last) ∧
      (ctx.eos = false → (∀ a ∈ answers, a.eos = false) → ctx'.eos = false) := by
  induction cs generalizing ctx sent ps left answers with
  | nil =>
    cases hcalls
    exact ⟨left, by simpa [returned, supplied] using h, by simp, fun heos _ => heos⟩
  | cons c cs ih =>
    obtain ⟨⟨ctx1, a⟩, hcall, hcalls⟩ := Option.bind_eq_some_iff.mp hcalls
    obtain ⟨⟨ctx2, rest⟩, hrest, hcalls⟩ := Option.bind_eq_some_iff.mp hcalls
    cases hcalls
    obtain ⟨left1, h1, hanswer, hend1, -⟩ := h.step hcall (hmem a List.mem_cons_self)
    obtain ⟨left2, h2, hend2, heos2⟩ := ih h1 hrest fun b hb => hmem b (List.mem_cons_of_mem _ hb)
    refine ⟨left2, ?_, ?_, fun _ hall => ?_⟩
    · simpa [returned, supplied] using h2
    · rw [hend2, hend1, List.any_cons, Bool.or_assoc]
    · exact heos2 (hanswer ▸ hall a List.mem_cons_self)
        fun b hb => hall b (List.mem_cons_of_mem _ hb)

/-- After the end there are no more bytes. -/
theorem calls_eos (heos : ctx.eos = true)
    (hcalls : Refine.calls (crChunkedRead none) ctx cs = some (ctx', answers)) :
    ∀ a ∈ answers, a.bytes = [] ∧ a.eos = true := by
  induction cs generalizing ctx answers with
  | nil =>
    cases hcalls
    exact fun a ha => nomatch ha
  | cons c cs ih =>
    obtain ⟨⟨ctx1, a⟩, hcall, hcalls⟩ := Option.bind_eq_some_iff.mp hcalls
    obtain ⟨⟨ctx2, rest⟩, hrest, hcalls⟩ := Option.bind_eq_some_iff.mp hcalls
    cases hcalls
    rw [crChunkedRead_eos heos] at hcall
    cases hcall
    intro b hb
    rcases List.mem_cons.mp hb with rfl | hb
    · exact ⟨rfl, rfl⟩
    · have hgranted : (ctx.granted c.mallocs).eos = true := heos
      exact ih hgranted hrest b hb

/-- When the next reader has ended, every call with a buffer brings the end nearer. -/
theorem Encoding.finishes (h : Encoding ctx sent ps left) (hend : ctx.readEos = true)
    (hpos : ∀ c ∈ cs, 0 < c.blen) (hlen : left.length ≤ cs.length) (hsome : cs ≠ []) :
    ∃ ctx' answers, Refine.calls (crChunkedRead none) ctx cs = some (ctx', answers) ∧
      ∃ a ∈ answers, a.eos = true := by
  induction cs generalizing ctx sent ps left with
  | nil => contradiction
  | cons c cs ih =>
    obtain ⟨ctx1, a, -, hcall, -, hmem⟩ := crChunkedRead_total h.holding c
    obtain ⟨left1, h1, hanswer, hend1, -, hprogress⟩ := h.step hcall (hmem hend)
    rw [hend, Bool.true_or] at hend1
    rcases hprogress hend (hpos c List.mem_cons_self) with heos | hless
    · obtain ⟨ctx2, answers, hcalls⟩ := calls_total h1.holding cs
      exact ⟨ctx2, a :: answers, by simp [Refine.calls, hcall, hcalls], a, List.mem_cons_self,
        hanswer.trans heos⟩
    · by_cases hnil : left1 = []
      · obtain ⟨ctx2, answers, hcalls⟩ := calls_total h1.holding cs
        exact ⟨ctx2, a :: answers, by simp [Refine.calls, hcall, hcalls], a, List.mem_cons_self,
          hanswer.trans (h1.eos.mpr ⟨hend1, hnil⟩)⟩
      · have hcs : left1.length ≤ cs.length := by
          rw [List.length_cons] at hlen
          omega
        have hne : cs ≠ [] := by
          rintro rfl
          exact hnil (List.length_eq_zero_iff.mp (Nat.le_zero.mp hcs))
        obtain ⟨ctx2, answers, hcalls, b, hb, heos⟩ :=
          ih h1 hend1 (fun b hb => hpos b (List.mem_cons_of_mem _ hb)) hcs hne
        exact ⟨ctx2, a :: answers, by simp [Refine.calls, hcall, hcalls], b,
          List.mem_cons_of_mem _ hb, heos⟩

/-! ### Decoding what the reader has returned -/

/-- In whatever pieces the decoder gets what the calls have returned, it consumes everything, passes
on what the next reader has supplied, and is done. -/
def Decodes (t : Transfer) (answers : List ReadAnswer) : Prop :=
  ∀ pieces : List Bytes, pieces.flatten = returned answers →
    ∃ f, Pieces.feed (decode t) ⟨.init, [], 0⟩ pieces = some f ∧ f.state.ch.state = .done ∧
      f.consumed = (returned answers).length ∧ f.left = [] ∧
      f.state.body = (supplied answers).flatten ∧ f.state.trailers = []

theorem init_fresh : Decoder.init.Fresh := ⟨rfl, rfl, rfl, rfl⟩

theorem Encoding.decodes (ht : t.Decoding)
    (h : Encoding ctx (returned answers) (supplied answers) []) (hend : ctx.readEos = true) :
    Decodes t answers := by
  intro pieces hpieces
  have hbytes : returned answers = encode (supplied answers) true := by
    rw [← hend, ← h.bytes, List.append_nil]
  obtain ⟨d', hends, hdone, hbody, htrailers⟩ := ends_encode ht init_fresh h.pieces
  obtain ⟨o, d1, n1, hcall1, hends1⟩ := decode_ends ht .init (encode (supplied answers) true)
  obtain ⟨rfl, rfl, rfl⟩ := hends1.unique hends
  obtain ⟨f, d2, n, hfeed, hcall, hsame, hcount, hleft⟩ :=
    (decode_resumable ht).feed_flatten Decoder.init pieces
  rw [hpieces, hbytes, hcall1, Option.some.injEq, Prod.mk.injEq] at hcall
  obtain ⟨rfl, rfl⟩ := hcall
  obtain ⟨hbody', htrailers', hstate', -⟩ := same_of_settled hsame
  refine ⟨f, hfeed, hstate'.trans hdone, ?_, ?_, hbody'.trans hbody, htrailers'.trans htrailers⟩
  · rw [hcount, hbytes]
  · rw [hleft, hpieces, hbytes, List.drop_length]

/-- The first report of the end comes with the last byte of the encoding, and the decoder turns what
has been returned up to there into the body again. When the next reader has ended, the report comes
after a bounded number of calls. -/
theorem decoding_undoes_encoding (ht : t.Decoding) (cs : List ReadCall) :
    ∃ ctx answers, Refine.calls (crChunkedRead none) crChunkedInit cs = some (ctx, answers) ∧
      (EnoughMemory answers →
        (∀ before a after, answers = before ++ a :: after → (∀ b ∈ before, b.eos = false) →
          a.eos = true →
            Decodes t (before ++ [a]) ∧ (∃ b ∈ before ++ [a], b.last = true) ∧ a.bytes ≠ [] ∧
            ∀ b ∈ after, b.bytes = [] ∧ b.eos = true) ∧
        ((∃ a ∈ answers, a.last = true) → ∃ n, ∀ more : List ReadCall, n ≤ more.length →
          (∀ c ∈ more, 0 < c.blen) → ∃ ctx' rest,
            Refine.calls (crChunkedRead none) ctx more = some (ctx', rest) ∧
            ∃ a ∈ answers ++ rest, a.eos = true)) := by
  obtain ⟨ctx, answers, hcalls⟩ := calls_total encoding_init.holding cs
  refine ⟨ctx, answers, hcalls, fun hmem => ⟨?_, ?_⟩⟩
  · rintro before a after rfl hbefore heos
    obtain ⟨cs1, c, cs2, ctx1, ctx2, rfl, hcalls1, hcall, hcalls2⟩ := Refine.calls_split hcalls
    obtain ⟨left1, h1, hend1, heos1⟩ := encoding_init.calls hcalls1
      fun b hb => hmem b (List.mem_append_left _ hb)
    obtain ⟨left2, h2, hanswer, hend2, hlast, -⟩ :=
      h1.step hcall (hmem a (List.mem_append_right _ List.mem_cons_self))
    have heos2 : ctx2.eos = true := hanswer ▸ heos
    obtain ⟨hend, rfl⟩ := h2.eos.mp heos2
    have hall : Encoding ctx2 (returned (before ++ [a])) (supplied (before ++ [a])) [] := by
      simpa [returned, supplied] using h2
    refine ⟨hall.decodes ht hend, ?_, hlast (heos1 rfl hbefore) heos, calls_eos heos2 hcalls2⟩
    have hany : (before ++ [a]).any ReadAnswer.last = true := by
      rw [hend2, hend1] at hend
      simpa [crChunkedInit] using hend
    exact List.any_eq_true.mp hany
  · intro hlast
    obtain ⟨left, h, hend, -⟩ := encoding_init.calls hcalls hmem
    rw [List.any_eq_true.mpr hlast, Bool.or_true] at hend
    refine ⟨left.length + 1, fun more hlen hpos => ?_⟩
    obtain ⟨ctx', rest, hmore, a, ha, heos⟩ := h.finishes hend hpos (by omega) (by
      rintro rfl
      simp at hlen)
    exact ⟨ctx', rest, hmore, a, List.mem_append_right _ ha, heos⟩

/-- A call with a next reader that has the byte `a` and ends. -/
def readCallA (blen : Nat) : ReadCall where
  blen := blen
  mallocs := 3
  next n := ⟨.ok, [97].take n, true⟩
  bounded n := List.length_take_le n _

/-- The answers to three such calls, the second one without a buffer. -/
def answersA : List ReadAnswer :=
  [⟨.ok, [49, 13, 10, 97], false, some ⟨.ok, [97], true⟩⟩, ⟨.again, [], false, none⟩,
    ⟨.ok, [13, 10, 48, 13, 10, 13, 10], true, none⟩]

theorem decoding_undoes_encoding_a : ∃ ctx,
    Refine.calls (crChunkedRead none) crChunkedInit [readCallA 4, readCallA 0, readCallA 100] =
      some (ctx, answersA) ∧ Decodes plainTransfer answersA := by
  obtain ⟨ctx, answers, hcalls, h⟩ := decoding_undoes_encoding plainTransfer_decoding
    [readCallA 4, readCallA 0, readCallA 100]
  have hview : (Refine.calls (crChunkedRead none) crChunkedInit
      [readCallA 4, readCallA 0, readCallA 100]).map (·.2) = some answersA := by decide +kernel
  rw [hcalls, Option.map_some, Option.some.injEq] at hview
  subst hview
  have hmem : EnoughMemory answersA := by
    unfold EnoughMemory
    decide
  have hfirst := (h hmem).1 (answersA.take 2) ⟨.ok, [13, 10, 48, 13, 10, 13, 10], true, none⟩ []
    rfl (by decide) rfl
  exact ⟨ctx, hcalls, hfirst.1⟩

end Gurl.Http
