import Gurl.Ftplist.WinntLine

/-! Whole lines of a Unix listing. -/

namespace Gurl.Ftplist

open Strparse

/-- A line, with the blanks before each field that are not needed. The link count is one that
`curlx_str_number` takes, the size one that the parser does not count as unknown. -/
structure UnixLine where
  filetype : Filetype
  mode : Mode
  hardlinks : Bytes
  user : Bytes
  group : Bytes
  size : Bytes
  part1 : Bytes
  part2 : Bytes
  part3 : Bytes
  initial : UInt8
  more : Bytes
  blanks : Fin 8 → Nat
  eol : Eol
  regular : filetype ≠ .symlink
  linksDigits : ∀ c ∈ hardlinks, isDigit c = true
  linksSome : hardlinks ≠ []
  linksFit : decimal hardlinks ≤ curlOffTMax
  userSome : user ≠ []
  userText : 32 ∉ user ∧ 0 ∉ user
  groupSome : group ≠ []
  groupText : 32 ∉ group ∧ 0 ∉ group
  sizeDigits : ∀ c ∈ size, isDigit c = true
  sizeSome : size ≠ []
  sizeFits : decimal size < curlOffTMax
  time1 : TimePart part1
  time2 : TimePart part2
  time3 : TimePart3 part3
  nameStart : initial ≠ 32
  nameText : ∀ c ∈ initial :: more, c ≠ 13 ∧ c ≠ 10 ∧ c ≠ 0

namespace UnixLine
variable (l : UnixLine)

def time : Bytes := timeText l.part1 l.part2 l.part3 (l.blanks 5) (l.blanks 6)

def name : Bytes := l.initial :: l.more

/-- A field behind its blanks, and the byte that ends it. -/
def field (i : Fin 8) (text : Bytes) : Bytes :=
  List.replicate (l.blanks i) 32 ++ text ++ [32]

def text : Bytes :=
  [l.filetype.char] ++ (l.mode.text ++ [32]) ++ l.field 0 l.hardlinks ++ l.field 1 l.user ++
    l.field 2 l.group ++ l.field 3 l.size ++ l.field 4 l.time ++
    (List.replicate (l.blanks 7) 32 ++ l.name ++ l.eol.bytes)

/-- The entry that the line is about. -/
def file : File where
  filename := l.name
  info := {
    filetype := l.filetype
    perm := l.mode.bits
    hardlinks := decimal l.hardlinks
    size := decimal l.size
    knownPerm := true
    knownHlinkcount := true
    knownSize := true }
  time := l.time
  perm := some l.mode.text
  user := some l.user
  group := some l.group
  target := none

end UnixLine

theorem timePart_zero {text : Bytes} (h : TimePart text) : 0 ∉ text := by
  obtain ⟨c, rest, rfl, hc, hrest⟩ := h
  intro hin
  rcases List.mem_cons.mp hin with rfl | hin
  · cases hc
  · rcases hrest 0 hin with h | h <;> cases h

theorem timePart3_zero {text : Bytes} (h : TimePart3 text) : 0 ∉ text := by
  obtain ⟨c, rest, rfl, hc, hrest⟩ := h
  intro hin
  rcases List.mem_cons.mp hin with rfl | hin
  · cases hc
  · rcases hrest 0 hin with h | h | h <;> cases h

theorem UnixLine.time_zero (l : UnixLine) : 0 ∉ l.time := by
  intro hin
  simp only [UnixLine.time, timeText, List.mem_append, List.mem_cons, List.mem_replicate] at hin
  rcases hin with (hin | (hin | ⟨-, hin⟩) | hin) | (hin | ⟨-, hin⟩) | hin
  · exact timePart_zero l.time1 hin
  · cases hin
  · cases hin
  · exact timePart_zero l.time2 hin
  · cases hin
  · cases hin
  · exact timePart3_zero l.time3 hin

theorem Access.text_zero (a : Access) {both only : UInt8} (hboth : both ≠ 0) (honly : only ≠ 0) :
    0 ∉ a.text both only := by
  obtain ⟨read, write, exec, special⟩ := a
  intro hin
  simp only [Access.text, List.mem_cons, List.not_mem_nil, or_false] at hin
  rcases hin with hin | hin | hin
  · cases read <;> cases hin
  · cases write <;> cases hin
  · cases exec <;> cases special
    · cases hin
    · exact honly hin.symm
    · cases hin
    · exact hboth hin.symm

theorem Mode.text_zero (m : Mode) : 0 ∉ m.text := by
  simp only [Mode.text, List.mem_append, not_or]
  exact ⟨⟨m.user.text_zero (by decide) (by decide), m.group.text_zero (by decide) (by decide)⟩,
    m.other.text_zero (by decide) (by decide)⟩

section
variable (compare : Bytes → Bool) {p : Parser} {files : List File}

/-- A field is added to the buffer with its terminator. -/
theorem field_buf (buf : Bytes) (blanks : Nat) {text : Bytes} (hzero : 0 ∉ text) :
    buf <+: buf ++ List.replicate blanks 32 ++ text ++ [0] ∧
      (buf ++ List.replicate blanks 32 ++ text ++ [0]).length =
        buf.length + blanks + text.length + 1 ∧
      Holds (buf ++ List.replicate blanks 32 ++ text ++ [0]) (buf.length + blanks) text := by
  refine ⟨⟨List.replicate blanks 32 ++ text ++ [0], ?_⟩, ?_, holds_end buf blanks [] hzero⟩
  · simp only [List.append_assoc]
  · simp only [List.length_append, List.length_replicate, List.length_singleton]

/-- What the parser makes of the strings of an entry. -/
theorem insert_file (l : UnixLine) {buf : Bytes} {len off : Nat} {offs : Offsets}
    {w : List (Nat × Nat)} (hname : Holds buf offs.filename l.name)
    (hperm : Holds buf offs.perm l.mode.text)
    (huser : Holds buf offs.user l.user) (hgroup : Holds buf offs.group l.group)
    (htime : Holds buf offs.time l.time)
    (hset : offs.perm ≠ 0 ∧ offs.user ≠ 0 ∧ offs.group ≠ 0) :
    (ftpPlInsertFinfo compare
      ⟨.unix, .filetype, .date, .ok, true, buf, l.file.info, len, off, offs, files, w⟩).UnixBetween
      (files ++ if compare l.name then [l.file] else []) := by
  obtain ⟨hp, hu, hg⟩ := hset
  have hfile : l.file.info.filetype ≠ .symlink := l.regular
  simp only [ftpPlInsertFinfo, hname.cstr, hperm.cstr, huser.cstr, hgroup.cstr, htime.cstr, hp, hu,
    hg, ne_eq, not_false_eq_true, if_true, if_neg hfile, Option.any_none, Bool.not_false,
    Bool.and_true]
  exact ⟨_, _, _, _, _, _, _, .inr rfl, by rw [← if_append]; rfl⟩

/-- A line puts its entry into the list. -/
theorem unixLine_parsed (l : UnixLine) (hfits : l.text.length < maxFtplistBuffer)
    (h : p.UnixBetween files) :
    (parseLoop compare p l.text).UnixBetween
      (files ++ if compare l.name then [l.file] else []) := by
  have hmode : l.mode.text.length = 9 := rfl
  simp only [UnixLine.text, UnixLine.field, List.length_append, List.length_replicate,
    List.length_singleton, hmode] at hfits
  have hzero : 0 ∉ l.name := fun hin => (l.nameText 0 hin).2.2 rfl
  obtain ⟨offs, h0⟩ := filetype_field compare l.filetype h
  have h1 := permission_field compare l.mode h0
  generalize hb1 : [l.filetype.char] ++ l.mode.text ++ [0] = b1 at h1
  have hlen1 : b1.length = 11 := by rw [← hb1]; rfl
  have hperm : Holds b1 1 l.mode.text :=
    hb1 ▸ ⟨[l.filetype.char], [], rfl, rfl, l.mode.text_zero⟩
  have h2 := hlinks_field compare (l.blanks 0) l.linksDigits l.linksSome l.linksFit (by omega) h1
  obtain ⟨hpre2, hlen2, -⟩ := field_buf b1 (l.blanks 0) (digit_ne_zero l.linksDigits)
  generalize hb2 : b1 ++ List.replicate (l.blanks 0) 32 ++ l.hardlinks ++ [0] = b2 at *
  have h3 := user_field compare (l.blanks 1) l.userText.1 l.userSome (by omega) h2
  obtain ⟨hpre3, hlen3, huser⟩ := field_buf b2 (l.blanks 1) l.userText.2
  generalize hb3 : b2 ++ List.replicate (l.blanks 1) 32 ++ l.user ++ [0] = b3 at *
  have h4 := group_field compare (l.blanks 2) l.groupText.1 l.groupSome (by omega) h3
  obtain ⟨hpre4, hlen4, hgroup⟩ := field_buf b3 (l.blanks 2) l.groupText.2
  generalize hb4 : b3 ++ List.replicate (l.blanks 2) 32 ++ l.group ++ [0] = b4 at *
  have h5 := size_field compare (l.blanks 3) l.sizeDigits l.sizeSome l.sizeFits (by omega) h4
  obtain ⟨hpre5, hlen5, -⟩ := field_buf b4 (l.blanks 3) (digit_ne_zero l.sizeDigits)
  generalize hb5 : b4 ++ List.replicate (l.blanks 3) 32 ++ l.size ++ [0] = b5 at *
  have h6 := time_field compare (l.blanks 4) (l.blanks 5) (l.blanks 6) l.time1 l.time2 l.time3
    (by rw [← UnixLine.time]; omega) l.regular h5
  rw [← UnixLine.time] at h6
  obtain ⟨hpre6, hlen6, htime⟩ := field_buf b5 (l.blanks 4) l.time_zero
  generalize hb6 : b5 ++ List.replicate (l.blanks 4) 32 ++ l.time ++ [0] = b6 at *
  obtain ⟨rest, len, w, h7⟩ := name_field compare (l.blanks 7) l.eol l.nameStart
    (fun x hx => ⟨(l.nameText x (List.mem_cons_of_mem _ hx)).1,
      (l.nameText x (List.mem_cons_of_mem _ hx)).2.1⟩)
    (by rw [← UnixLine.name]; omega) h6
  rw [← UnixLine.name] at h7
  have hpre7 : b6 <+: b6 ++ List.replicate (l.blanks 7) 32 ++ l.name ++ 0 :: rest :=
    ⟨List.replicate (l.blanks 7) 32 ++ l.name ++ 0 :: rest, by simp only [List.append_assoc]⟩
  have hname := holds_end b6 (l.blanks 7) rest hzero
  simp only [UnixLine.text, UnixLine.field, parseLoop_append] at h7 ⊢
  rw [h7]
  exact insert_file compare l hname
    (hperm.mono (hpre2.trans (hpre3.trans (hpre4.trans (hpre5.trans (hpre6.trans hpre7))))))
    (huser.mono (hpre4.trans (hpre5.trans (hpre6.trans hpre7))))
    (hgroup.mono (hpre5.trans (hpre6.trans hpre7))) (htime.mono hpre7)
    ⟨Nat.one_ne_zero, by dsimp only; omega, by dsimp only; omega⟩

end

/-! The parser on whole listings, however they are cut into calls. -/

section
variable (compare : Bytes → Bool) {p : Parser} {files : List File}

/-- The entries that the pattern takes. -/
def matching (files : List File) : List File := files.filter fun file => compare file.filename

theorem unixLines_parsed (lines : List UnixLine)
    (hfits : ∀ l ∈ lines, l.text.length < maxFtplistBuffer) (h : p.UnixBetween files) :
    (parseLoop compare p (lines.flatMap UnixLine.text)).UnixBetween
      (files ++ matching compare (lines.map UnixLine.file)) := by
  induction lines generalizing p files with
  | nil => simpa [parseLoop, matching] using h
  | cons l lines ih =>
    obtain ⟨hl, hlines⟩ := List.forall_mem_cons.mp hfits
    have hrest := ih hlines (unixLine_parsed compare l hl h)
    have hfiles : matching compare ((l :: lines).map UnixLine.file) =
        (if compare l.name then [l.file] else []) ++
          matching compare (lines.map UnixLine.file) := by
      simp only [matching, List.map_cons, List.filter_cons]
      split <;> simp_all [UnixLine.file]
    rwa [List.flatMap_cons, parseLoop_append, hfiles, ← List.append_assoc]

theorem winntLines_parsed (lines : List WinntLine)
    (hfits : ∀ l ∈ lines, l.text.length < maxFtplistBuffer) (h : p.NtBetween files) :
    (parseLoop compare p (lines.flatMap WinntLine.text)).NtBetween
      (files ++ matching compare (lines.map WinntLine.file)) := by
  induction lines generalizing p files with
  | nil => simpa [parseLoop, matching] using h
  | cons l lines ih =>
    obtain ⟨hl, hlines⟩ := List.forall_mem_cons.mp hfits
    have hrest := ih hlines (winntLine_parsed compare l hl h)
    have hfiles : matching compare ((l :: lines).map WinntLine.file) =
        (if compare l.name then [l.file] else []) ++
          matching compare (lines.map WinntLine.file) := by
      simp only [matching, List.map_cons, List.filter_cons]
      split <;> simp_all [WinntLine.file]
    rwa [List.flatMap_cons, parseLoop_append, hfiles, ← List.append_assoc]

/-- A Unix listing in one call. -/
theorem unix_listing (lines : List UnixLine)
    (hfits : ∀ l ∈ lines, l.text.length < maxFtplistBuffer) :
    (ftpParselist compare {} (lines.flatMap UnixLine.text)).error = .ok ∧
      (ftpParselist compare {} (lines.flatMap UnixLine.text)).filelist =
        matching compare (lines.map UnixLine.file) := by
  cases lines with
  | nil => exact ⟨rfl, rfl⟩
  | cons l lines =>
    have hletter : isDigit l.filetype.char = false := by cases l.filetype <;> rfl
    have hguess : (Parser.guess {} l.filetype.char).UnixBetween [] := by
      simp only [Parser.guess, if_true, hletter, Bool.false_eq_true, if_false]
      exact ⟨_, _, _, _, _, _, _, .inl rfl, rfl⟩
    have htext : (l :: lines).flatMap UnixLine.text =
        l.filetype.char :: ((l :: lines).flatMap UnixLine.text).tail := rfl
    obtain ⟨_, _, _, _, _, _, _, -, heq⟩ := unixLines_parsed compare (l :: lines) hfits hguess
    rw [htext, ftpParselist_cons _ rfl, ← htext, heq]
    exact ⟨rfl, List.nil_append _⟩

/-- A DOS listing in one call. -/
theorem winnt_listing (lines : List WinntLine)
    (hfits : ∀ l ∈ lines, l.text.length < maxFtplistBuffer) :
    (ftpParselist compare {} (lines.flatMap WinntLine.text)).error = .ok ∧
      (ftpParselist compare {} (lines.flatMap WinntLine.text)).filelist =
        matching compare (lines.map WinntLine.file) := by
  cases lines with
  | nil => exact ⟨rfl, rfl⟩
  | cons l lines =>
    have hsome : l.date ≠ [] := by
      intro hnil
      have := l.dateLength
      rw [hnil] at this
      cases this
    obtain ⟨c, rest, hdate⟩ := List.exists_cons_of_ne_nil hsome
    have hdigit : isDigit c = true := by
      have := l.dateStart
      rwa [hdate] at this
    have hguess : (Parser.guess {} c).NtBetween [] := by
      simp only [Parser.guess, if_true, hdigit]
      exact ⟨_, _, _, _, _, _, ⟨rfl, rfl, rfl⟩, rfl⟩
    have htext : (l :: lines).flatMap WinntLine.text =
        c :: ((l :: lines).flatMap WinntLine.text).tail := by
      rw [List.flatMap_cons, WinntLine.text, hdate]
      rfl
    obtain ⟨_, _, _, _, _, _, -, heq⟩ := winntLines_parsed compare (l :: lines) hfits hguess
    rw [htext, ftpParselist_cons _ rfl, ← htext, heq]
    exact ⟨rfl, List.nil_append _⟩

end

/-- Listings of either kind, in any pieces, and the writes for any bytes at all. -/
theorem listings_parsed (compare : Bytes → Bool) (pieces : List Bytes) :
    (∀ lines : List UnixLine, (∀ l ∈ lines, l.text.length < maxFtplistBuffer) →
      pieces.flatten = lines.flatMap UnixLine.text →
        (pieces.foldl (ftpParselist compare) {}).error = .ok ∧
        (pieces.foldl (ftpParselist compare) {}).filelist =
          matching compare (lines.map UnixLine.file)) ∧
    (∀ lines : List WinntLine, (∀ l ∈ lines, l.text.length < maxFtplistBuffer) →
      pieces.flatten = lines.flatMap WinntLine.text →
        (pieces.foldl (ftpParselist compare) {}).error = .ok ∧
        (pieces.foldl (ftpParselist compare) {}).filelist =
          matching compare (lines.map WinntLine.file)) ∧
    ∀ w ∈ (pieces.foldl (ftpParselist compare) {}).writes, w.1 < w.2 := by
  have hpieces := foldl_ftpParselist compare (p := {}) pieces nofun
  rw [hpieces]
  refine ⟨fun lines hfits htext => ?_, fun lines hfits htext => ?_, ?_⟩
  · rw [htext]
    exact unix_listing compare lines hfits
  · rw [htext]
    exact winnt_listing compare lines hfits
  · have hbounded : Parser.Bounded {} := nofun
    have haligned : Parser.Aligned {} := ⟨rfl, rfl⟩
    exact (ftpParselist_fine pieces.flatten hbounded (fun _ => haligned)
      fun _ => ⟨rfl, rfl, rfl⟩).1

/-- `drwxr-sr-t   2 root  adm 4096 Jan 12 10:30 tmp`, with a CR. -/
def tmpLine : UnixLine where
  filetype := .directory
  mode := ⟨⟨true, true, true, false⟩, ⟨true, false, true, true⟩, ⟨true, false, true, true⟩⟩
  hardlinks := Strcase.ascii "2"
  user := Strcase.ascii "root"
  group := Strcase.ascii "adm"
  size := Strcase.ascii "4096"
  part1 := Strcase.ascii "Jan"
  part2 := Strcase.ascii "12"
  part3 := Strcase.ascii "10:30"
  initial := 116
  more := Strcase.ascii "mp"
  blanks := ![2, 0, 1, 0, 0, 0, 0, 0]
  eol := .crlf
  regular := by decide
  linksDigits := by decide +kernel
  linksSome := by decide +kernel
  linksFit := by decide +kernel
  userSome := by decide +kernel
  userText := by decide +kernel
  groupSome := by decide +kernel
  groupText := by decide +kernel
  sizeDigits := by decide +kernel
  sizeSome := by decide +kernel
  sizeFits := by decide +kernel
  time1 := ⟨74, Strcase.ascii "an", by decide +kernel, by decide, by decide +kernel⟩
  time2 := ⟨49, Strcase.ascii "2", by decide +kernel, by decide, by decide +kernel⟩
  time3 := ⟨49, Strcase.ascii "0:30", by decide +kernel, by decide, by decide +kernel⟩
  nameStart := by decide
  nameText := by decide +kernel

/-- `01-29-97 11:32PM <DIR> prog`. -/
def progLine : WinntLine where
  date := Strcase.ascii "01-29-97"
  clock := Strcase.ascii "11:32PM"
  dirOrSize := .dir
  initial := 112
  more := Strcase.ascii "rog"
  blanks := ![0, 0, 0]
  eol := .lf
  dateText := by decide +kernel
  dateLength := by decide +kernel
  dateStart := by decide +kernel
  clockText := by decide +kernel
  clockSome := by decide +kernel
  nameStart := by decide
  nameText := by decide +kernel

/-- The same for `xmp`, without a CR. -/
def xmpLine : UnixLine := 
  { tmpLine with
    initial := 120, eol := .lf, nameStart := by decide, nameText := by decide +kernel }

/-- The same for `xrog`. -/
def xrogLine : WinntLine :=
  { progLine with initial := 120, nameStart := by decide, nameText := by decide +kernel }

/-- A pattern for names with an `x` in front. -/
def startsX (name : Bytes) : Bool := name.head? == some 120

/-- Two lines that are cut in the second one. -/
def unixPieces : List Bytes :=
  [tmpLine.text ++ xmpLine.text.take 20, xmpLine.text.drop 20]

def winntPieces : List Bytes := [progLine.text ++ xrogLine.text.take 20, xrogLine.text.drop 20]

theorem listings_parsed_sample :
    ((unixPieces.foldl (ftpParselist startsX) {}).error = .ok ∧
      (unixPieces.foldl (ftpParselist startsX) {}).filelist =
        matching startsX ([tmpLine, xmpLine].map UnixLine.file)) ∧
    ((winntPieces.foldl (ftpParselist startsX) {}).error = .ok ∧
      (winntPieces.foldl (ftpParselist startsX) {}).filelist =
        matching startsX ([progLine, xrogLine].map WinntLine.file)) :=
  ⟨(listings_parsed startsX unixPieces).1 [tmpLine, xmpLine] (by decide +kernel)
    (by decide +kernel),
    (listings_parsed startsX winntPieces).2.1 [progLine, xrogLine] (by decide +kernel)
      (by decide +kernel)⟩

/-- The largest size there is. -/
def hugeLine : Bytes :=
  Strcase.ascii "-rw-r--r-- 1 u g 9223372036854775807 Jan 12 10:30 f\n"

/-- Its entry is in the list without a size. -/
theorem huge_size_unknown :
    let p := ftpParselist (fun _ => true) {} hugeLine
    p.error = .ok ∧ p.filelist.map (fun f => (f.filename, f.info.knownSize, f.info.size)) =
      [(Strcase.ascii "f", false, 0)] := by
  decide +kernel

end Gurl.Ftplist
