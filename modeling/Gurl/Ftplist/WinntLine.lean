import Gurl.Ftplist.UnixLine

/-! The lines of a DOS listing. -/

namespace Gurl.Ftplist

open Strparse

section
variable (compare : Bytes → Bool) {p : Parser} {off len : Nat} {buf : Bytes} {info : Finfo}
  {offs : Offsets} {files : List File}

/-- Before a line; there are no strings but the time and the name. -/
def Parser.NtBetween (p : Parser) (files : List File) : Prop :=
  ∃ buf info len off offs w, (offs.perm = 0 ∧ offs.user = 0 ∧ offs.group = 0) ∧
    p = ⟨.winNt, .totalsize .init, .date, .ok, false, buf, info, len, off, offs, files, w⟩

theorem date_run {text : Bytes} (htext : ∀ c ∈ text, c ∈ Strcase.ascii "0123456789-")
    (hlen : len + text.length ≤ 8) (hfits : buf.length + text.length + 1 ≤ maxFtplistBuffer)
    (h : p.NtAt .date off len buf info offs files) :
    (parseLoop compare p text).NtAt .date off (len + text.length) (buf ++ text) info offs
      files := by
  induction text generalizing p len buf with
  | nil => simpa [parseLoop] using h
  | cons c rest ih =>
    rw [List.length_cons] at hlen hfits
    have hc : strchr "0123456789-" c = true := by
      simp [strchr, htext c List.mem_cons_self]
    have hbyte : (parseLoop compare p [c]).NtAt .date off (len + 1) (buf ++ [c]) info offs
        files := by
      refine At.byte (fun w => ⟨w, ?_⟩) (by omega) h
      have hlen9 : len + 1 < 9 := by omega
      simp [parseChar, parseWinnt, hc, hlen9]
    have hrest := ih (fun x hx => htext x (List.mem_cons_of_mem _ hx)) (by omega)
      (by rw [List.length_append, List.length_singleton]; omega) hbyte
    rw [← parseLoop_append, List.append_assoc, List.singleton_append] at hrest
    rw [List.length_cons, Nat.add_comm rest.length, ← Nat.add_assoc]
    exact hrest

/-- The date of eight characters and the blank behind it. -/
theorem date_field {date : Bytes} (hdate : ∀ c ∈ date, c ∈ Strcase.ascii "0123456789-")
    (hlen : date.length = 8) (h : p.NtBetween files) :
    ∃ offs, (offs.perm = 0 ∧ offs.user = 0 ∧ offs.group = 0) ∧
      (parseLoop compare p (date ++ [32])).NtAt (.time .prespace) 0 9 (date ++ [32]) {} offs
        files := by
  obtain ⟨buf, info, len, off, offs, w, hoffs, rfl⟩ := h
  refine ⟨offs, hoffs, ?_⟩
  cases date with
  | nil => cases hlen
  | cons c rest =>
    rw [List.length_cons] at hlen
    have hstart (bytes : Bytes) : parseLoop compare
        ⟨.winNt, .totalsize .init, .date, .ok, false, buf, info, len, off, offs, files, w⟩
        (c :: bytes) = parseLoop compare
          ⟨.winNt, .totalsize .init, .date, .ok, true, [], {}, 0, 0, offs, files, w⟩ (c :: bytes) :=
      rfl
    have hdate8 : (parseLoop compare
        ⟨.winNt, .totalsize .init, .date, .ok, true, [], {}, 0, 0, offs, files, w⟩
        (c :: rest)).NtAt .date 0 (0 + (c :: rest).length) ([] ++ c :: rest) {} offs files :=
      date_run compare hdate (by rw [List.length_cons]; omega)
        (by rw [List.length_cons, hlen]; decide) ⟨w, rfl⟩
    rw [List.cons_append, hstart, ← List.cons_append, parseLoop_append]
    refine At.byte (fun w => ⟨w, ?_⟩) ?_ hdate8
    · simp [parseChar, parseWinnt, hlen]
    · rw [List.nil_append, List.length_cons, hlen]
      decide

theorem clock_char : ∀ c ∈ Strcase.ascii "APM0123456789:",
    strchr "APM0123456789:" c = true ∧ c ≠ 0 ∧ c ≠ 32 ∧ Urlglob.isBlank c = false := by
  decide +kernel

/-- The time goes from the start of the line. -/
theorem clock_field (blanks : Nat) {clock : Bytes}
    (hclock : ∀ c ∈ clock, c ∈ Strcase.ascii "APM0123456789:") (hne : clock ≠ [])
    (hfits : buf.length + blanks + clock.length + 2 ≤ maxFtplistBuffer)
    (h : p.NtAt (.time .prespace) 0 buf.length buf info offs files) :
    (parseLoop compare p (List.replicate blanks 32 ++ clock ++ [32])).NtAt
      (.dirorsize .prespace) 0 0
      (buf ++ List.replicate blanks 32 ++ clock ++ [0]) info { offs with time := 0 } files := by
  cases clock with
  | nil => exact absurd rfl hne
  | cons c rest =>
    obtain ⟨hc, hrest⟩ := List.forall_mem_cons.mp hclock
    rw [List.length_cons] at hfits
    have hblanks : (parseLoop compare p (List.replicate blanks 32)).NtAt (.time .prespace) 0
        (buf.length + 1 * blanks) (buf ++ List.replicate blanks 32) info offs files :=
      At.blanks (fun {_ _ _} => rfl) blanks (by omega) h
    have hfirst : (parseLoop compare (parseLoop compare p (List.replicate blanks 32)) [c]).NtAt
        (.time .content) 0 (buf.length + 1 * blanks + 1)
        (buf ++ List.replicate blanks 32 ++ [c]) info offs files := by
      refine At.byte (fun w => ⟨w, ?_⟩) ?_ hblanks
      · simp [parseChar, parseWinnt, (clock_char c hc).2.2.2]
      · rw [List.length_append, List.length_replicate]
        omega
    have hnext : (parseLoop compare (parseLoop compare (parseLoop compare p
        (List.replicate blanks 32)) [c]) rest).NtAt (.time .content) 0
        (buf.length + 1 * blanks + 1 + 1 * rest.length)
        (buf ++ List.replicate blanks 32 ++ [c] ++ rest) info offs files := by
      refine At.run (P := fun c => c ∈ Strcase.ascii "APM0123456789:") (fun {_ _ c _} hc => ?_)
        hrest ?_ hfirst
      · obtain ⟨hin, -, hblank, -⟩ := clock_char c hc
        simp [parseChar, parseWinnt, hin, hblank]
      · simp only [List.length_append, List.length_replicate, List.length_singleton]
        omega
    rw [← parseLoop_append, ← parseLoop_append, List.append_assoc _ [c], List.singleton_append]
      at hnext
    have hlen : 0 + (buf.length + 1 * blanks + 1 + 1 * rest.length + 1) - 1 =
        buf.length + blanks + (rest.length + 1 + 1) - 1 := by
      omega
    rw [parseLoop_append]
    refine At.byte (fun w => ?_) ?_ hnext
    · simp only [parseChar, parseWinnt, Parser.terminate, if_true, hlen, set_end]
      exact ⟨_, rfl⟩
    · simp only [List.length_append, List.length_replicate, List.length_cons]
      omega

/-- What stands for a size, and the file type and size it gives. -/
inductive DirOrSize
  | dir
  | size (digits : Bytes) (isDigits : ∀ c ∈ digits, isDigit c = true) (some : digits ≠ [])
    (fits : decimal digits ≤ curlOffTMax)

def DirOrSize.text : DirOrSize → Bytes
  | .dir => Strcase.ascii "<DIR>"
  | .size digits .. => digits

def DirOrSize.finfo : DirOrSize → Finfo
  | .dir => { filetype := .directory, size := 0, knownSize := true }
  | .size digits .. => { filetype := .file, size := decimal digits, knownSize := true }

theorem DirOrSize.text_some (d : DirOrSize) : d.text ≠ [] := by
  cases d with
  | dir => decide
  | size digits _ some => exact some

theorem DirOrSize.text_zero (d : DirOrSize) : 0 ∉ d.text ∧ 32 ∉ d.text := by
  cases d with
  | dir => decide +kernel
  | size digits isDigits =>
    exact ⟨digit_ne_zero isDigits, fun hin => absurd (isDigits 32 hin) (by decide)⟩

theorem dirorsize_field (blanks : Nat) (d : DirOrSize)
    (hfits : buf.length + blanks + d.text.length + 2 ≤ maxFtplistBuffer)
    (h : p.NtAt (.dirorsize .prespace) off len buf {} offs files) :
    ∃ off, (parseLoop compare p (List.replicate blanks 32 ++ d.text ++ [32])).NtAt
      (.filename .prespace) off 0 (buf ++ List.replicate blanks 32 ++ d.text ++ [0]) d.finfo offs
      files := by
  obtain ⟨hzero, hblank⟩ := d.text_zero
  have hcstr := (holds_end buf blanks [] hzero).cstr
  refine ⟨buf.length + blanks, ?_⟩
  obtain ⟨c, text, heq⟩ := List.exists_cons_of_ne_nil d.text_some
  have hknown (w : List (Nat × Nat)) : ∃ w', parseChar compare
      ⟨.winNt, .totalsize .init, .dirorsize .content, .ok, true,
        buf ++ List.replicate blanks 32 ++ c :: text ++ [32], {}, text.length + 1,
        buf.length + blanks, offs, files, w⟩ 32 = (.ok,
          ⟨.winNt, .totalsize .init, .filename .prespace, .ok, true,
            buf ++ List.replicate blanks 32 ++ c :: text ++ [0], d.finfo, 0, buf.length + blanks,
            offs, files, w'⟩) := by
    simp only [parseChar, parseWinnt, parseWinntDirorsize, Parser.terminate, if_true, set_end]
    rw [← heq, hcstr]
    cases d with
    | dir =>
      rw [if_pos (show DirOrSize.dir.text = Strcase.ascii "<DIR>" from rfl)]
      exact ⟨_, rfl⟩
    | size digits isDigits some fits =>
      have hdir : digits ≠ Strcase.ascii "<DIR>" := by
        rintro rfl
        exact absurd (isDigits 60 (by decide +kernel)) (by decide)
      simp only [DirOrSize.text, if_neg hdir, strNumblanks_digits isDigits some fits]
      exact ⟨_, rfl⟩
  rw [heq] at hblank ⊢
  obtain ⟨hc, htext⟩ := not_or.mp (mt List.mem_cons.mpr hblank)
  rw [heq, List.length_cons] at hfits
  refine At.itemEnd (.totalsize .init) (.dirorsize .content) (fun c => c ≠ 32) (fun c => c ≠ 32) rfl
    (fun {_ _ buf c _} hc => ?_) (fun {_ _ buf c _} hc => ?_) blanks
    (fun x hx heq => htext (heq ▸ hx)) (Ne.symm hc) (by omega) hknown h
  · simp [parseChar, parseWinnt, parseWinntDirorsize, hc]
  · simp [parseChar, parseWinnt, parseWinntDirorsize, hc]

/-- The terminator takes the place of the first byte behind the name. -/
theorem winnt_name_field (blanks : Nat) (eol : Eol) {c : UInt8} {text : Bytes} (hc : c ≠ 32)
    (htext : ∀ x ∈ text, x ≠ 13 ∧ x ≠ 10)
    (hfits : buf.length + blanks + (c :: text).length + eol.bytes.length + 1 ≤ maxFtplistBuffer)
    (h : p.NtAt (.filename .prespace) off len buf info offs files) :
    ∃ rest len w, parseLoop compare p (List.replicate blanks 32 ++ c :: text ++ eol.bytes) =
      ftpPlInsertFinfo compare ⟨.winNt, .totalsize .init, .date, .ok, true,
        buf ++ List.replicate blanks 32 ++ c :: text ++ 0 :: rest, info, len, buf.length + blanks,
        { offs with filename := buf.length + blanks }, files, w⟩ := by
  rw [List.length_cons] at hfits
  have hpos : 1 ≤ eol.bytes.length := by cases eol <;> decide
  have hname : (parseLoop compare p (List.replicate blanks 32 ++ c :: text)).NtAt
      (.filename .name) (buf.length + blanks) (text.length + 1)
      (buf ++ List.replicate blanks 32 ++ c :: text) info offs files :=
    At.item (.totalsize .init) (.filename .name) (fun c => c ≠ 32) (fun c => c ≠ 13 ∧ c ≠ 10) rfl
      (fun {_ _ buf c _} hc => by simp [parseChar, parseWinnt, hc])
      (fun {_ _ buf c _} hc => by simp [parseChar, parseWinnt, hc])
      blanks htext hc (by omega) h
  have hbuf : (buf ++ List.replicate blanks 32 ++ c :: text).length =
      buf.length + blanks + text.length + 1 := by
    simp only [List.length_append, List.length_replicate, List.length_cons]
    omega
  have hset (e : UInt8) : (buf ++ List.replicate blanks 32 ++ c :: text ++ [e]).set
      ((buf ++ List.replicate blanks 32 ++ c :: text ++ [e]).length - 1) 0 =
      buf ++ List.replicate blanks 32 ++ c :: text ++ [0] := by
    rw [List.length_append, hbuf, List.length_singleton]
    exact set_end buf blanks c text e []
  obtain ⟨w, heq⟩ := hname
  rw [parseLoop_append, heq]
  have hsome (e : UInt8) : (buf ++ List.replicate blanks 32 ++ c :: text ++ [e]).length ≠ 0 := by
    rw [List.length_append, List.length_singleton]
    omega
  cases eol with
  | lf =>
    have hlf : ∃ w', parseChar compare ⟨.winNt, .totalsize .init, .filename .name, .ok, true,
        buf ++ List.replicate blanks 32 ++ c :: text ++ [10], info, text.length + 1,
        buf.length + blanks, offs, files, w⟩ 10 = (.ok, winntDone compare
          ⟨.winNt, .totalsize .init, .filename .name, .ok, true,
            buf ++ List.replicate blanks 32 ++ c :: text ++ [0], info, text.length + 1 + 1,
            buf.length + blanks, offs, files, w'⟩) := by
      simp only [parseChar, parseWinnt, if_neg (hsome 10), Parser.terminate, hset]
      exact ⟨_, rfl⟩
    obtain ⟨w', hlf⟩ := hlf
    rw [Eol.bytes, parseLoop_byte [] (by rw [hbuf]; omega) hlf]
    exact ⟨_, _, _, rfl⟩
  | crlf =>
    have hcr : ∃ w', parseChar compare ⟨.winNt, .totalsize .init, .filename .name, .ok, true,
        buf ++ List.replicate blanks 32 ++ c :: text ++ [13], info, text.length + 1,
        buf.length + blanks, offs, files, w⟩ 13 = (.ok,
          ⟨.winNt, .totalsize .init, .filename .windowseol, .ok, true,
            buf ++ List.replicate blanks 32 ++ c :: text ++ [0], info, text.length + 1 + 1,
            buf.length + blanks, offs, files, w'⟩) := by
      simp only [parseChar, parseWinnt, if_neg (hsome 13), Parser.terminate, hset]
      exact ⟨_, rfl⟩
    obtain ⟨w', hcr⟩ := hcr
    have hlf : parseChar compare ⟨.winNt, .totalsize .init, .filename .windowseol, .ok, true,
        buf ++ List.replicate blanks 32 ++ c :: text ++ [0] ++ [10], info, text.length + 1 + 1,
        buf.length + blanks, offs, files, w'⟩ 10 = (.ok, winntDone compare
          ⟨.winNt, .totalsize .init, .filename .windowseol, .ok, true,
            buf ++ List.replicate blanks 32 ++ c :: text ++ [0] ++ [10], info, text.length + 1 + 1,
            buf.length + blanks, offs, files, w'⟩) := rfl
    have htwo : Eol.crlf.bytes.length = 2 := rfl
    rw [Eol.bytes, parseLoop_byte [10] (by rw [hbuf]; omega) hcr, parseLoop_byte [] ?_ hlf]
    · rw [List.append_assoc _ [0], List.singleton_append]
      exact ⟨_, _, _, rfl⟩
    · rw [List.length_append, hbuf, List.length_singleton]
      omega

end

/-- A line, with the blanks before each field that are not needed. -/
structure WinntLine where
  date : Bytes
  clock : Bytes
  dirOrSize : DirOrSize
  initial : UInt8
  more : Bytes
  blanks : Fin 3 → Nat
  eol : Eol
  dateText : ∀ c ∈ date, c ∈ Strcase.ascii "0123456789-"
  dateLength : date.length = 8
  dateStart : date.head?.any isDigit = true
  clockText : ∀ c ∈ clock, c ∈ Strcase.ascii "APM0123456789:"
  clockSome : clock ≠ []
  nameStart : initial ≠ 32
  nameText : ∀ c ∈ initial :: more, c ≠ 13 ∧ c ≠ 10 ∧ c ≠ 0

namespace WinntLine
variable (l : WinntLine)

def name : Bytes := l.initial :: l.more

/-- Date and time with the blanks between them. -/
def time : Bytes := l.date ++ [32] ++ List.replicate (l.blanks 0) 32 ++ l.clock

def text : Bytes :=
  l.date ++ [32] ++ (List.replicate (l.blanks 0) 32 ++ l.clock ++ [32]) ++
    (List.replicate (l.blanks 1) 32 ++ l.dirOrSize.text ++ [32]) ++
    (List.replicate (l.blanks 2) 32 ++ l.name ++ l.eol.bytes)

/-- The entry that the line is about. -/
def file : File where
  filename := l.name
  info := l.dirOrSize.finfo
  time := l.time
  perm := none
  user := none
  group := none
  target := none

theorem time_zero : 0 ∉ l.time := by
  intro hin
  simp only [time, List.mem_append, List.mem_singleton, List.mem_replicate] at hin
  rcases hin with ((hin | hin) | ⟨-, hin⟩) | hin
  · exact absurd (l.dateText 0 hin) (by decide +kernel)
  · cases hin
  · cases hin
  · exact (clock_char 0 (l.clockText 0 hin)).2.1 rfl

end WinntLine

section
variable (compare : Bytes → Bool) {p : Parser} {files : List File}

theorem insert_winnt (l : WinntLine) {buf : Bytes} {len off : Nat} {offs : Offsets}
    {w : List (Nat × Nat)} (hname : Holds buf offs.filename l.name)
    (htime : Holds buf offs.time l.time)
    (hnone : offs.perm = 0 ∧ offs.user = 0 ∧ offs.group = 0) :
    (ftpPlInsertFinfo compare ⟨.winNt, .totalsize .init, .date, .ok, true, buf, l.dirOrSize.finfo,
      len, off, offs, files, w⟩).NtBetween (files ++ if compare l.name then [l.file] else []) := by
  obtain ⟨hp, hu, hg⟩ := hnone
  have hfile : l.dirOrSize.finfo.filetype ≠ .symlink := by
    cases l.dirOrSize <;> nofun
  simp only [ftpPlInsertFinfo, hname.cstr, htime.cstr, hp, hu, hg, ne_eq, not_true_eq_false,
    if_false, if_neg hfile, Option.any_none, Bool.not_false, Bool.and_true]
  exact ⟨_, _, _, _, _, _, ⟨hp, hu, hg⟩, by rw [← if_append]; rfl⟩

/-- A line puts its entry into the list. -/
theorem winntLine_parsed (l : WinntLine) (hfits : l.text.length < maxFtplistBuffer)
    (h : p.NtBetween files) :
    (parseLoop compare p l.text).NtBetween (files ++ if compare l.name then [l.file] else []) := by
  have hdate := l.dateLength
  have hzero : 0 ∉ l.name := fun hin => (l.nameText 0 hin).2.2 rfl
  simp only [WinntLine.text, List.length_append, List.length_replicate, List.length_singleton,
    hdate] at hfits
  obtain ⟨offs, ⟨hp, hu, hg⟩, h1⟩ := date_field compare l.dateText l.dateLength h
  have hlen1 : (l.date ++ [32]).length = 9 := by rw [List.length_append, hdate]; rfl
  rw [← hlen1] at h1
  have h2 := clock_field compare (l.blanks 0) l.clockText l.clockSome (by omega) h1
  have htime : Holds (l.time ++ [0]) 0 l.time := ⟨[], [], rfl, rfl, l.time_zero⟩
  have hlen2 : (l.time ++ [0]).length = 9 + l.blanks 0 + l.clock.length + 1 := by
    simp only [WinntLine.time, List.length_append, List.length_replicate, List.length_singleton,
      hdate]
  rw [← WinntLine.time] at h2
  obtain ⟨off, h3⟩ := dirorsize_field compare (l.blanks 1) l.dirOrSize (by omega) h2
  generalize hb3 :
    l.time ++ [0] ++ List.replicate (l.blanks 1) 32 ++ l.dirOrSize.text ++ [0] = b3 at *
  have hlen3 : b3.length =
      (l.time ++ [0]).length + l.blanks 1 + l.dirOrSize.text.length + 1 := by
    rw [← hb3]
    simp only [List.length_append, List.length_replicate, List.length_singleton]
  obtain ⟨rest, len, w, h4⟩ := winnt_name_field compare (l.blanks 2) l.eol l.nameStart
    (fun x hx => ⟨(l.nameText x (List.mem_cons_of_mem _ hx)).1,
      (l.nameText x (List.mem_cons_of_mem _ hx)).2.1⟩)
    (by rw [← WinntLine.name]; omega) h3
  rw [← WinntLine.name] at h4
  generalize hb4 : b3 ++ List.replicate (l.blanks 2) 32 ++ l.name ++ 0 :: rest = b4 at *
  have hname : Holds b4 (b3.length + l.blanks 2) l.name :=
    hb4 ▸ holds_end b3 (l.blanks 2) rest hzero
  have hpre : l.time ++ [0] <+: b4 := by
    rw [← hb4, ← hb3]
    simp only [List.append_assoc]
    exact List.prefix_append_right_inj _ |>.mpr (List.prefix_append _ _)
  simp only [WinntLine.text, parseLoop_append] at h4 ⊢
  rw [h4]
  exact insert_winnt compare l hname (htime.mono hpre) ⟨hp, hu, hg⟩

end

end Gurl.Ftplist
