import Gurl.Ftplist.Listings

/-! The `total` line before a Unix listing: `parse_unix` hands the newline that ends it on to
`unix_filetype`. -/

namespace Gurl.Ftplist

open Strparse Strcase

/-- `total`, a number, and the end of the line. -/
def totalLine (digits : Bytes) (eol : Eol) : Bytes :=
  ascii "total " ++ digits ++ eol.bytes

/-- The line changes nothing for the listing behind it, however both are cut. -/
def TotalTransparent (compare : Bytes → Bool) (digits : Bytes) (eol : Eol)
    (listing : Bytes) (pieces : List Bytes) : Prop :=
  pieces.flatten = totalLine digits eol ++ listing →
  (ftpParselist compare {} listing).error = .ok →
    (pieces.foldl (ftpParselist compare) {}).error = .ok ∧
      (pieces.foldl (ftpParselist compare) {}).filelist =
        (ftpParselist compare {} listing).filelist

section
variable (compare : Bytes → Bool) {p : Parser} {c : UInt8}

/-- In the `total` line, or stopped by an error in it. -/
def Parser.InTotal (p : Parser) : Prop :=
  p.filelist = [] ∧
    (p.error ≠ .ok ∨ p.error = .ok ∧ p.osType = .unix ∧ p.unix = .totalsize .reading)

theorem parseUnixTotalsize_reading (hc : c ≠ 10) (hunix : p.unix = .totalsize .reading) :
    (parseUnixTotalsize p .reading c).1 = .ok ∧
    (parseUnixTotalsize p .reading c).2.unix = .totalsize .reading ∧
    (parseUnixTotalsize p .reading c).2.filelist = p.filelist := by
  unfold parseUnixTotalsize
  dsimp only
  split
  · exact ⟨rfl, hunix, rfl⟩
  · exact ⟨rfl, hunix, rfl⟩

/-- The newline is no file type. -/
theorem parseUnix_newline (hunix : p.unix = .totalsize .reading) :
    (parseUnix compare p 10).1 ≠ .ok ∧ (parseUnix compare p 10).2.filelist = p.filelist := by
  have hfiletype (q : Parser) : parseUnixFiletype q 10 = (.ftpBadFileList, q) := by
    simp [parseUnixFiletype, unixFiletype]
  simp only [parseUnix, hunix, parseUnixTotalsize]
  split_ifs <;> simp_all [Parser.terminate]

theorem parseChar_reading (hos : p.osType = .unix) (hc : c ≠ 10)
    (hunix : p.unix = .totalsize .reading) :
    parseChar compare p c = parseUnixTotalsize p .reading c := by
  obtain ⟨hok, hreading, -⟩ := parseUnixTotalsize_reading hc hunix
  simp only [parseChar, hos, parseUnix, hunix]
  rw [if_neg (not_not.mpr hok), if_pos (by rw [hreading]; simp), ← hok]

theorem alloc_fields : p.alloc.unix = p.unix ∧ p.alloc.osType = p.osType ∧
    p.alloc.error = p.error ∧ p.alloc.filelist = p.filelist := by
  unfold Parser.alloc
  split <;> exact ⟨rfl, rfl, rfl, rfl⟩

/-- A byte before the newline. -/
theorem parseByte_inTotal (hc : c ≠ 10) (h : p.InTotal) (hok : p.error = .ok) :
    (parseByte compare p c).InTotal := by
  obtain ⟨hfiles, hstate⟩ := h
  obtain ⟨-, hos, hunix⟩ := hstate.resolve_left (not_not.mpr hok)
  obtain ⟨halloc, hallocOs, hallocError, hallocFiles⟩ := alloc_fields (p := p)
  simp only [parseByte]
  split
  · exact ⟨hallocFiles.trans hfiles, .inl (by simp [Parser.fail])⟩
  · have hread := parseUnixTotalsize_reading (p := { p.alloc with buf := p.alloc.buf ++ [c] }) hc
      (halloc.trans hunix)
    have hkeeps := parseChar_keeps compare { p.alloc with buf := p.alloc.buf ++ [c] } c
    have hchar := parseChar_reading compare
      (p := { p.alloc with buf := p.alloc.buf ++ [c] }) (hallocOs.trans hos) hc (halloc.trans hunix)
    rw [hchar] at hkeeps ⊢
    rw [if_neg (not_not.mpr hread.1)]
    refine ⟨hread.2.2.trans (hallocFiles.trans hfiles), .inr ⟨?_, ?_, hread.2.1⟩⟩
    · exact hkeeps.2.trans (hallocError.trans hok)
    · exact hkeeps.1.trans (hallocOs.trans hos)

/-- The newline ends it with an error. -/
theorem parseByte_newline (h : p.InTotal) (hok : p.error = .ok) :
    (parseByte compare p 10).error ≠ .ok ∧ (parseByte compare p 10).filelist = [] := by
  obtain ⟨hfiles, hstate⟩ := h
  obtain ⟨-, hos, hunix⟩ := hstate.resolve_left (not_not.mpr hok)
  obtain ⟨halloc, hallocOs, -, hallocFiles⟩ := alloc_fields (p := p)
  simp only [parseByte]
  split
  · exact ⟨by simp [Parser.fail], hallocFiles.trans hfiles⟩
  · have hnewline := parseUnix_newline compare
      (p := { p.alloc with buf := p.alloc.buf ++ [10] }) (halloc.trans hunix)
    have hchar : parseChar compare { p.alloc with buf := p.alloc.buf ++ [10] } 10 =
        parseUnix compare { p.alloc with buf := p.alloc.buf ++ [10] } 10 := by
      simp only [parseChar, hallocOs, hos]
    rw [hchar, if_pos hnewline.1]
    exact ⟨hnewline.1, hnewline.2.trans (hallocFiles.trans hfiles)⟩

theorem parseLoop_stopped (bytes : Bytes) (h : p.error ≠ .ok) :
    parseLoop compare p bytes = p := by
  cases bytes with
  | nil => rfl
  | cons c rest => rw [parseLoop, if_pos h]

/-- A run over the bytes before the newline. -/
theorem parseLoop_inTotal (bytes : Bytes) (hbytes : ∀ c ∈ bytes, c ≠ 10) (h : p.InTotal) :
    (parseLoop compare p bytes).InTotal := by
  induction bytes generalizing p with
  | nil => exact h
  | cons c rest ih =>
    obtain ⟨hc, hrest⟩ := List.forall_mem_cons.mp hbytes
    unfold parseLoop
    split
    · exact h
    · exact ih hrest (parseByte_inTotal compare hc h (not_not.mp ‹_›))

/-- A line that has a newline ends with an error, and with it all that is behind. -/
theorem parseLoop_total (line rest : Bytes) (hline : ∀ c ∈ line, c ≠ 10) (h : p.InTotal) :
    (parseLoop compare p (line ++ 10 :: rest)).error ≠ .ok ∧
      (parseLoop compare p (line ++ 10 :: rest)).filelist = [] := by
  have hrun := parseLoop_inTotal compare line hline h
  rw [parseLoop_append]
  generalize parseLoop compare p line = q at hrun ⊢
  by_cases hok : q.error = .ok
  · have hnewline := parseByte_newline compare hrun hok
    rw [parseLoop, if_neg (not_not.mpr hok), parseLoop_stopped compare _ hnewline.1]
    exact hnewline
  · rw [parseLoop_stopped compare _ hok]
    exact ⟨hok, hrun.1⟩

end

theorem eol_bytes (eol : Eol) : ∃ cr : Bytes, (∀ c ∈ cr, c ≠ 10) ∧ eol.bytes = cr ++ [10] := by
  cases eol with
  | lf => exact ⟨[], by simp, rfl⟩
  | crlf => exact ⟨[13], by simp, rfl⟩

/-- A `total` line is never transparent: the listing behind it is refused, and its files are
lost. -/
theorem total_line_refused (compare : Bytes → Bool) (digits : Bytes)
    (hdigits : ∀ c ∈ digits, isDigit c = true) (eol : Eol) (listing : Bytes)
    (pieces : List Bytes) (hpieces : pieces.flatten = totalLine digits eol ++ listing)
    (hlisting : (ftpParselist compare {} listing).error = .ok) :
    ¬TotalTransparent compare digits eol listing pieces ∧
      (pieces.foldl (ftpParselist compare) {}).error ≠ .ok ∧
      (pieces.foldl (ftpParselist compare) {}).filelist = [] := by
  suffices h : (pieces.foldl (ftpParselist compare) {}).error ≠ .ok ∧
      (pieces.foldl (ftpParselist compare) {}).filelist = [] from
    ⟨fun htransparent => h.1 (htransparent hpieces hlisting).1, h⟩
  obtain ⟨cr, hcr, heol⟩ := eol_bytes eol
  have htext : totalLine digits eol ++ listing =
      116 :: ((ascii "otal " ++ digits ++ cr) ++ 10 :: listing) := by
    have htotal : ascii "total " = 116 :: ascii "otal " := by decide +kernel
    simp [totalLine, heol, htotal]
  have hline : ∀ c ∈ ascii "otal " ++ digits ++ cr, c ≠ 10 := by
    intro c hc
    rcases List.mem_append.mp hc with hc | hc
    · rcases List.mem_append.mp hc with hc | hc
      · have hotal : ∀ c ∈ ascii "otal ", c ≠ 10 := by decide +kernel
        exact hotal c hc
      · rintro rfl
        exact absurd (hdigits 10 hc) (by decide)
    · exact hcr c hc
  rw [foldl_ftpParselist compare (p := {}) pieces nofun, hpieces, htext,
    ftpParselist_cons _ rfl, parseLoop, if_neg (by decide)]
  apply parseLoop_total compare _ listing hline
  exact ⟨rfl, .inr ⟨rfl, rfl, rfl⟩⟩

/-- A listing of one directory behind the line. -/
theorem total_line_refused_tmp :
    let pieces := [ascii "total 2", ascii "0\r\n" ++ tmpLine.text]
    ¬TotalTransparent (fun _ => true) (ascii "20") .crlf tmpLine.text pieces ∧
      (pieces.foldl (ftpParselist fun _ => true) {}).error ≠ .ok ∧
      (pieces.foldl (ftpParselist fun _ => true) {}).filelist = [] :=
  total_line_refused (fun _ => true) (ascii "20") (by decide +kernel) .crlf tmpLine.text _
    (by decide +kernel) (by decide +kernel)

/-- A listing of one directory, which is lost behind a `total` line. -/
theorem total_line_loses :
    ¬∀ (compare : Bytes → Bool) (digits : Bytes) (eol : Eol) (listing : Bytes)
      (pieces : List Bytes), (∀ c ∈ digits, isDigit c = true) →
        TotalTransparent compare digits eol listing pieces := by
  intro hall
  have htransparent := hall (fun _ => true) (ascii "20") .crlf tmpLine.text
    [totalLine (ascii "20") .crlf ++ tmpLine.text] (by decide +kernel) (by simp) (by decide +kernel)
  have herror : ([totalLine (ascii "20") .crlf ++ tmpLine.text].foldl
      (ftpParselist fun _ => true) {}).error = .ftpBadFileList := by decide +kernel
  rw [herror] at htransparent
  cases htransparent.1

end Gurl.Ftplist
