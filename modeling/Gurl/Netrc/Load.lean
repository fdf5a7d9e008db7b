import Gurl.GetLine
import Gurl.Lib.Lines
import Gurl.Netrc.Scanner

/-! `file2memory` of `lib/netrc.c`: a netrc file without its comments. -/

namespace Gurl.Netrc

/-- `MAX_NETRC_LINE`. -/
def maxNetrcLine : Nat := 16384

/-- `MAX_NETRC_FILE`. -/
def maxNetrcFile : Nat := 128 * 1024

/-- What a file name stands for. -/
inductive File where
  | missing
  | directory
  | text (bytes : Bytes)

/-- The loop of `file2memory`. A `continue` goes to its condition. -/
def file2memoryLoop : Nat → Dynbuf → Dynbuf → Bytes → Dynbuf × Code
  | 0, _, filebuf, _ => (filebuf, .ok)
  | fuel + 1, linebuf, filebuf, input =>
    let (linebuf, result, rest, eof) := getLine linebuf input
    if result ≠ .ok then (filebuf.free, curl2netrc result)
    else
      let line := linebuf.content.dropWhile isblank
      if line.head? = some 35 then
        if eof then (filebuf, .ok) else file2memoryLoop fuel linebuf filebuf rest
      else
        let (filebuf, result) := filebuf.nappend (line.takeWhile (· ≠ 0)) true
        if result ≠ .ok then (filebuf.free, curl2netrc result)
        else if eof then (filebuf, .ok)
        else file2memoryLoop fuel linebuf filebuf rest

/-- `file2memory`. -/
def file2memory (file : File) (filebuf : Dynbuf) : Dynbuf × Code :=
  let filebuf := filebuf.reset
  match file with
  | .missing => (filebuf, .fileMissing)
  | .directory => (filebuf, .fileMissing)
  | .text bytes => file2memoryLoop (bytes.length + 1) (.init maxNetrcLine) filebuf bytes

/-- `struct store_netrc`. -/
structure Store where
  filebuf : Dynbuf
  filename : Bytes
  loaded : Bool

/-- `Curl_netrc_init`. -/
def Store.init : Store := { filebuf := .init maxNetrcFile, filename := [], loaded := false }

/-- `netrc_scan_file` up to the call of `netrc_scan`: what it is passed, where it is called. -/
def netrcScanFile (store : Store) (netrcfile : Bytes) (file : File) :
    Store × Code × Option (Option Bytes) :=
  if !store.loaded || netrcfile ≠ store.filename then
    let (filebuf, ret) := file2memory file store.filebuf
    let store := { store with loaded := false, filebuf }
    if ret ≠ .ok then (store, ret, none)
    else ({ store with filename := netrcfile, loaded := true }, .ok, some filebuf.bufr)
  else (store, .ok, some store.filebuf.bufr)

/-- A line that is a comment. -/
def isComment (line : Bytes) : Bool := (line.dropWhile isblank).head? == some 35

/-- What a line, which is given without its end, leaves in memory. -/
def keep (line : Bytes) : Bytes :=
  if isComment line then [] else line.dropWhile isblank ++ [10]

/-- The lines of a file. Behind its last newline there is a line as well, which may be empty. -/
def linesOf (bytes : Bytes) : List Bytes := bytes.splitOn 10

/-- The bytes of a line that the last call of `fgets` for it reads, before the newline. -/
def lastPiece (line : Bytes) : Bytes := line.drop (127 * (line.length / 127))

/-- The lines behind what `Curl_get_line` takes for the first line: a line whose newline is behind a
NUL in its last piece is taken together with the next. -/
def behind : List Bytes → Option (List Bytes)
  | [] => none
  | [_] => none
  | line :: next :: lines =>
    if 0 ∉ lastPiece line then some (next :: lines) else behind (next :: lines)

/-- The lines of a file, put together again. -/
def joined (lines : List Bytes) : Bytes := [10].intercalate lines

/-- What a call of `Curl_get_line` did: the line it left in the buffer behind `old`, and where it is
in the file. -/
structure Taken (old : Bytes) (lines : List Bytes) (text rest : Bytes)
    (eof : Bool) : Prop where
  more : ∀ lines', behind lines = some lines' → rest = joined lines' ∧ eof = false
  last : behind lines = none → eof = true
  grows : old <+: text
  start : ∀ line ∈ lines.head?, old ++ line.takeWhile (· ≠ 0) <+: text
  exact : ∀ line ∈ lines.head?, 0 ∉ line → text = old ++ line ++ [10]

section
variable {line last next : Bytes} {lines : List Bytes} {buf buf' : Dynbuf}
  {rest : Bytes} {eof : Bool} {fuel : Nat}

theorem joined_cons : joined (line :: next :: lines) = line ++ 10 :: joined (next :: lines) := by
  simp [joined, List.intercalate]

theorem joined_one : joined [line] = line := by
  simp [joined, List.intercalate]

theorem lastPiece_short (h : line.length < 127) : lastPiece line = line := by
  rw [lastPiece, Nat.div_eq_of_lt h, Nat.mul_zero, List.drop_zero]

theorem lastPiece_long (h : 127 ≤ line.length) : lastPiece (line.drop 127) = lastPiece line := by
  have hdiv : line.length / 127 = (line.length - 127) / 127 + 1 := by omega
  rw [lastPiece, lastPiece, List.length_drop, List.drop_drop, hdiv]
  congr 1
  omega

/-- What the loop of `Curl_get_line` adds to its buffer. -/
theorem append_piece (buf : Dynbuf) (b : Bytes) :
    ∃ buf1 result, (if b.isEmpty then (buf, .ok) else buf.nappend b true) = (buf1, result) ∧
      (result = .ok → buf1.content = buf.content ++ b) := by
  split
  · rename_i hb
    rw [List.isEmpty_iff] at hb
    exact ⟨buf, .ok, rfl, fun _ => by rw [hb, List.append_nil]⟩
  · refine ⟨(buf.nappend b true).1, (buf.nappend b true).2, rfl, fun hok => ?_⟩
    by_cases hfits : b.length + buf.content.length + 1 ≤ buf.toobig
    · exact (Dynbuf.nappend_ok hfits).2.1
    · rw [Dynbuf.nappend_error (by omega)] at hok
      cases hok

theorem getLast_open {old seen : Bytes} (hopen : old.getLast? ≠ some 10) (hnone : 10 ∉ seen) :
    (old ++ seen).getLast? ≠ some 10 := by
  rw [List.getLast?_append]
  intro h
  cases hb : seen.getLast? with
  | none =>
    rw [hb, Option.none_or] at h
    exact hopen h
  | some c =>
    rw [hb, Option.some_or, Option.some.injEq] at h
    exact hnone (h ▸ List.mem_of_getLast? hb)

/-- A round of the loop of `Curl_get_line` that gets no newline, and is not at the end. -/
theorem getLineLoop_goes {input b : Bytes} (hget : fgets input = (b, rest, false))
    (hnone : 10 ∉ b.takeWhile (· ≠ 0)) (hopen : buf.content.getLast? ≠ some 10)
    (hok : (getLineLoop (fuel + 1) buf input).2.1 = .ok) :
    ∃ buf1, getLineLoop (fuel + 1) buf input = getLineLoop fuel buf1 rest ∧
      buf1.content = buf.content ++ b.takeWhile (· ≠ 0) ∧ buf1.content.getLast? ≠ some 10 := by
  obtain ⟨buf1, result, happend, hcontent⟩ := append_piece buf (b.takeWhile (· ≠ 0))
  rw [getLineLoop, hget] at hok ⊢
  dsimp only at hok ⊢
  rw [happend] at hok ⊢
  generalize b.takeWhile (· ≠ 0) = seen at hcontent hnone ⊢
  cases result with
  | ok =>
    have hcontent := hcontent rfl
    have hlast : buf1.content.getLast? ≠ some 10 := by
      rw [hcontent]
      exact getLast_open hopen hnone
    refine ⟨buf1, ?_, hcontent, hlast⟩
    dsimp only
    rw [if_neg hlast, if_neg Bool.false_ne_true]
  | _ => cases hok

theorem fgets_long (h : 10 ∉ line) (hlen : 127 ≤ line.length) :
    fgets (joined (line :: lines)) = (line.take 127, joined (line.drop 127 :: lines), false) := by
  cases lines with
  | nil =>
    have htake : line.takeWhile (· ≠ 10) = line := by
      rw [List.takeWhile_eq_self_iff]
      intro c hc
      simpa using fun heq : c = 10 => h (heq ▸ hc)
    simp only [joined_one, fgets, htake]
    rw [if_neg (by omega)]
  | cons next lines => rw [joined_cons, joined_cons, fgets_part h hlen]

theorem behind_long (hlen : 127 ≤ line.length) :
    behind (line :: lines) = behind (line.drop 127 :: lines) := by
  cases lines with
  | nil => rfl
  | cons next lines => simp only [behind, lastPiece_long hlen]

/-- A piece of a line that is not the last one. -/
theorem Taken.long {old text : Bytes} (hlen : 127 ≤ line.length)
    (h : Taken (old ++ (line.take 127).takeWhile (· ≠ 0)) (line.drop 127 :: lines) text rest eof) :
    Taken old (line :: lines) text rest eof := by
  have hsplit := List.take_append_drop 127 line
  refine ⟨?_, ?_, (List.prefix_append _ _).trans h.grows, fun l hl => ?_, fun l hl hzero => ?_⟩
  · rw [behind_long hlen]
    exact h.more
  · rw [behind_long hlen]
    exact h.last
  · cases hl
    by_cases hzero : 0 ∈ line.take 127
    · have htake : line.takeWhile (· ≠ 0) = (line.take 127).takeWhile (· ≠ 0) := by
        conv_lhs => rw [← hsplit]
        rw [List.takeWhile_append]
        rw [if_neg fun hall => ?_]
        have := List.takeWhile_eq_self_iff.mp
          ((List.takeWhile_prefix (· ≠ 0)).eq_of_length hall) 0 hzero
        simp at this
      rw [htake]
      exact h.grows
    · have hstart := h.start _ rfl
      rw [takeWhile_text hzero, List.append_assoc] at hstart
      have htake : line.takeWhile (· ≠ 0) =
          line.take 127 ++ (line.drop 127).takeWhile (· ≠ 0) := by
        conv_lhs => rw [← hsplit]
        rw [List.takeWhile_append_of_pos fun c hc => by
          simpa using fun heq : c = 0 => hzero (heq ▸ hc)]
      rwa [htake]
  · cases hl
    have hexact := h.exact _ rfl fun hin => hzero (List.mem_of_mem_drop hin)
    rw [takeWhile_text fun hin => hzero (List.mem_of_mem_take hin), List.append_assoc old,
      hsplit] at hexact
    exact hexact

variable (lines) in
theorem joined_drop (hlen : 127 ≤ line.length) :
    (joined (line.drop 127 :: lines)).length + 127 = (joined (line :: lines)).length := by
  cases lines with
  | nil =>
    rw [joined_one, joined_one, List.length_drop]
    omega
  | cons next lines =>
    rw [joined_cons, joined_cons, List.length_append, List.length_append, List.length_drop]
    omega

/-- The last line of a file, where it fits into the buffer of `fgets`. -/
theorem getLineLoop_last (hend : 10 ∉ line) (hlen : line.length < 127)
    (hopen : buf.content.getLast? ≠ some 10)
    (hok : (getLineLoop (fuel + 1) buf line).2.1 = .ok) :
    (getLineLoop (fuel + 1) buf line).1.content =
        buf.content ++ line.takeWhile (· ≠ 0) ++ [10] ∧
      (getLineLoop (fuel + 1) buf line).2.2.2 = true := by
  have hget : fgets line = (line, [], true) := by
    have htake : line.takeWhile (· ≠ 10) = line := by
      rw [List.takeWhile_eq_self_iff]
      intro c hc
      simpa using fun heq : c = 10 => hend (heq ▸ hc)
    simp only [fgets, htake]
    rw [if_pos hlen, if_neg (lt_irrefl _)]
  have hnone : 10 ∉ line.takeWhile (· ≠ 0) := fun hin => hend ((List.takeWhile_prefix _).subset hin)
  obtain ⟨buf1, result, happend, hcontent⟩ := append_piece buf (line.takeWhile (· ≠ 0))
  rw [getLineLoop, hget] at hok ⊢
  dsimp only at hok ⊢
  rw [happend] at hok ⊢
  generalize line.takeWhile (· ≠ 0) = seen at hcontent hnone ⊢
  cases result with
  | ok =>
    have hcontent := hcontent rfl
    have hlast : buf1.content.getLast? ≠ some 10 := by
      rw [hcontent]
      exact getLast_open hopen hnone
    dsimp only at hok ⊢
    rw [if_neg hlast] at hok ⊢
    rw [if_pos rfl] at hok ⊢
    refine ⟨?_, rfl⟩
    dsimp only at hok ⊢
    by_cases hfits : [(10 : UInt8)].length + buf1.content.length + 1 ≤ buf1.toobig
    · rw [(Dynbuf.nappend_ok hfits).2.1, hcontent]
    · rw [Dynbuf.nappend_error (by omega)] at hok
      cases hok
  | _ => cases hok

/-- A line with its newline, where it fits into the buffer of `fgets` and has no NUL. -/
theorem getLineLoop_first (hend : 10 ∉ line) (hzero : 0 ∉ line) (hlen : line.length < 127)
    (hok : (getLineLoop (fuel + 1) buf (line ++ 10 :: rest)).2.1 = .ok) :
    (getLineLoop (fuel + 1) buf (line ++ 10 :: rest)).1.content = buf.content ++ line ++ [10] ∧
      (getLineLoop (fuel + 1) buf (line ++ 10 :: rest)).2.2 = (rest, false) := by
  obtain ⟨buf1, result, happend, hcontent⟩ := append_piece buf (line ++ [10])
  have htext : (line ++ [10]).takeWhile (· ≠ 0) = line ++ [10] := takeWhile_text (by simp [hzero])
  rw [getLineLoop, fgets_line hend hlen] at hok ⊢
  dsimp only at hok ⊢
  rw [htext, happend] at hok ⊢
  cases result with
  | ok =>
    have hcontent := hcontent rfl
    dsimp only at hok ⊢
    rw [if_pos (by rw [hcontent]; simp)]
    exact ⟨by rw [hcontent, List.append_assoc], rfl⟩
  | _ => cases hok

/-- `Curl_get_line` on a file that is put together of lines. -/
theorem getLineLoop_taken (fuel : Nat) : ∀ {lines : List Bytes} {buf : Dynbuf}, lines ≠ [] →
    (∀ line ∈ lines, 10 ∉ line) → (joined lines).length < fuel →
    buf.content.getLast? ≠ some 10 → (getLineLoop fuel buf (joined lines)).2.1 = .ok →
    Taken buf.content lines (getLineLoop fuel buf (joined lines)).1.content
      (getLineLoop fuel buf (joined lines)).2.2.1 (getLineLoop fuel buf (joined lines)).2.2.2 := by
  induction fuel with
  | zero => exact fun _ _ hfuel => by cases hfuel
  | succ fuel ih =>
    intro lines buf hne hends hfuel hopen hok
    obtain ⟨line, lines, rfl⟩ := List.exists_cons_of_ne_nil hne
    obtain ⟨hend, hrest⟩ := List.forall_mem_cons.mp hends
    by_cases hlen : 127 ≤ line.length
    · have hnone : 10 ∉ (line.take 127).takeWhile (· ≠ 0) :=
        fun hin => hend (List.mem_of_mem_take ((List.takeWhile_prefix _).subset hin))
      obtain ⟨buf1, heq, hcontent, hlast⟩ := getLineLoop_goes (fgets_long hend hlen) hnone hopen hok
      rw [heq] at hok ⊢
      apply Taken.long hlen
      rw [← hcontent]
      refine ih (List.cons_ne_nil _ _) ?_ ?_ hlast hok
      · exact List.forall_mem_cons.mpr ⟨fun hin => hend (List.mem_of_mem_drop hin), hrest⟩
      · have := joined_drop lines hlen
        omega
    · rw [Nat.not_le] at hlen
      cases lines with
      | nil =>
        rw [joined_one] at hok ⊢
        obtain ⟨hcontent, heof⟩ := getLineLoop_last hend hlen hopen hok
        rw [hcontent, heof, List.append_assoc]
        refine ⟨nofun, fun _ => rfl, List.prefix_append _ _, fun l hl => ?_, fun l hl hzero => ?_⟩
        · cases hl
          rw [← List.append_assoc]
          exact List.prefix_append _ _
        · cases hl
          rw [takeWhile_text hzero, List.append_assoc]
      | cons next lines =>
        rw [joined_cons] at hok ⊢
        by_cases hzero : 0 ∈ line
        · have hseen : (line ++ [10]).takeWhile (· ≠ 0) = line.takeWhile (· ≠ 0) := by
            rw [List.takeWhile_append, if_neg fun hall => ?_]
            have := List.takeWhile_eq_self_iff.mp
              ((List.takeWhile_prefix (· ≠ 0)).eq_of_length hall) 0 hzero
            simp at this
          have hnone : 10 ∉ (line ++ [10]).takeWhile (· ≠ 0) := by
            rw [hseen]
            exact fun hin => hend ((List.takeWhile_prefix _).subset hin)
          obtain ⟨buf1, heq, hcontent, hlast⟩ :=
            getLineLoop_goes (fgets_line hend hlen) hnone hopen hok
          rw [heq] at hok ⊢
          have hnext := ih (List.cons_ne_nil next lines) hrest ?_ hlast hok
          · have hbehind : behind (line :: next :: lines) = behind (next :: lines) := by
              rw [behind, lastPiece_short hlen, if_neg (not_not.mpr hzero)]
            rw [hcontent, hseen] at hnext
            refine ⟨?_, ?_, (List.prefix_append _ _).trans hnext.grows, fun l hl => ?_,
              fun l hl hfree => ?_⟩
            · rw [hbehind]
              exact hnext.more
            · rw [hbehind]
              exact hnext.last
            · cases hl
              exact hnext.grows
            · cases hl
              exact absurd hzero hfree
          · rw [joined_cons, List.length_append, List.length_cons] at hfuel
            omega
        · obtain ⟨hcontent, hpair⟩ := getLineLoop_first hend hzero hlen hok
          have hbehind : behind (line :: next :: lines) = some (next :: lines) := by
            rw [behind, lastPiece_short hlen, if_pos hzero]
          rw [hcontent, hpair, List.append_assoc]
          refine ⟨fun lines' hlines => ?_, fun hnone => ?_, List.prefix_append _ _, fun l hl => ?_,
            fun l hl _ => ?_⟩
          · rw [hbehind, Option.some.injEq] at hlines
            exact ⟨by rw [hlines], rfl⟩
          · rw [hbehind] at hnone
            cases hnone
          · cases hl
            rw [takeWhile_text hzero, ← List.append_assoc]
            exact List.prefix_append _ _
          · cases hl
            rw [List.append_assoc]

/-- What the lines leave in memory, where the first one is read with a line before it or not. -/
def loaded : Bool → List Bytes → Bytes
  | _, [] => []
  | swallowed, line :: lines =>
    (if swallowed then [] else keep line) ++ loaded (decide (0 ∈ lastPiece line)) lines

/-- Lines that have no NUL, apart from comments. -/
def Plain (lines : List Bytes) : Prop := ∀ line ∈ lines, isComment line = true ∨ 0 ∉ line

theorem lastPiece_subset (h : 0 ∉ line) : 0 ∉ lastPiece line :=
  fun hin => h (List.mem_of_mem_drop hin)

theorem loaded_comment (h : isComment line = true) (b : Bool) :
    loaded b (line :: lines) = loaded true (line :: lines) := by
  simp only [loaded, keep, h, if_true, ite_self]

theorem loaded_plain (h : 0 ∉ line) :
    loaded false (line :: lines) = keep line ++ loaded false lines := by
  rw [loaded, if_neg Bool.false_ne_true, decide_eq_false (lastPiece_subset h)]

theorem behind_shorter : ∀ {lines lines' : List Bytes}, behind lines = some lines' →
    lines' <:+ lines ∧ lines' ≠ [] ∧ lines'.length < lines.length
  | [], _, h => by cases h
  | [_], _, h => by cases h
  | line :: next :: lines, lines', h => by
    rw [behind] at h
    split at h
    · cases h
      exact ⟨List.suffix_cons _ _, List.cons_ne_nil _ _, by simp⟩
    · obtain ⟨hsuffix, hne, hlen⟩ := behind_shorter h
      exact ⟨hsuffix.trans (List.suffix_cons _ _), hne, Nat.lt_succ_of_lt hlen⟩

theorem loaded_behind : ∀ lines : List Bytes,
    loaded true lines = ((behind lines).map (loaded false)).getD []
  | [] => rfl
  | [line] => by simp [loaded, behind]
  | line :: next :: lines => by
    rw [loaded, if_pos rfl, List.nil_append, behind]
    split
    · rename_i hwhole
      rw [decide_eq_false hwhole]
      rfl
    · rename_i hcut
      rw [decide_eq_true (not_not.mp hcut)]
      exact loaded_behind (next :: lines)

theorem curl2netrc_ne {result : Curlcode} (h : result ≠ .ok) : curl2netrc result ≠ .ok := by
  cases result <;> first | exact absurd rfl h | nofun

theorem blank_facts {c : UInt8} (h : isblank c = true) : c ≠ 0 ∧ c ≠ 10 ∧ c ≠ 35 := by
  simp only [isblank, Bool.or_eq_true, beq_iff_eq] at h
  rcases h with rfl | rfl <;> decide

/-- A comment stays one, whatever is behind its first byte. -/
theorem comment_start {text : Bytes} (h : isComment line = true)
    (hstart : line.takeWhile (· ≠ 0) <+: text) : (text.dropWhile isblank).head? = some 35 := by
  have hsplit := List.takeWhile_append_dropWhile (p := isblank) (l := line)
  obtain ⟨more, hmore⟩ : ∃ more, line.dropWhile isblank = 35 :: more := by
    rw [isComment, beq_iff_eq] at h
    cases hdrop : line.dropWhile isblank with
    | nil => rw [hdrop] at h; cases h
    | cons c more =>
      rw [hdrop, List.head?_cons, Option.some.injEq] at h
      exact ⟨more, by rw [h]⟩
  have hblanks : ∀ c ∈ line.takeWhile isblank, isblank c = true := fun c hc =>
    List.mem_takeWhile_imp hc
  obtain ⟨rest, rfl⟩ := hstart
  rw [← hsplit, hmore, List.takeWhile_append_of_pos fun c hc => by
    simpa using (blank_facts (hblanks c hc)).1, List.takeWhile_cons_of_pos (by decide),
    List.append_assoc, List.dropWhile_append_of_pos hblanks]
  rfl

theorem dropWhile_newline (line : Bytes) :
    (line ++ [10]).dropWhile isblank = line.dropWhile isblank ++ [10] := by
  rw [List.dropWhile_append]
  split
  · rename_i hnil
    rw [List.isEmpty_iff.mp hnil]
    rfl
  · rfl

/-- Another line stays what it is. -/
theorem plain_start (h : ¬isComment line = true) :
    ((line ++ [10]).dropWhile isblank).head? ≠ some 35 := by
  rw [dropWhile_newline]
  rw [isComment, beq_iff_eq] at h
  cases hdrop : line.dropWhile isblank with
  | nil => decide
  | cons c more =>
    rw [hdrop] at h
    exact h

theorem nappend_bufr (buf : Dynbuf) (mem : Bytes) (h : (buf.nappend mem true).2 = .ok) :
    (buf.nappend mem true).1.bufr = some (buf.content ++ mem) := by
  by_cases hfits : mem.length + buf.content.length + 1 ≤ buf.toobig
  · simp only [Dynbuf.nappend]
    rw [if_neg (by omega), if_neg (by simp)]
  · rw [Dynbuf.nappend_error (by omega)] at h
    cases h

/-- The loop of `file2memory` leaves what the lines do. -/
theorem file2memoryLoop_loaded (fuel : Nat) : ∀ {lines : List Bytes}
    {linebuf filebuf filebuf' : Dynbuf}, lines ≠ [] → (∀ line ∈ lines, 10 ∉ line) → Plain lines →
    lines.length ≤ fuel →
    file2memoryLoop fuel linebuf filebuf (joined lines) = (filebuf', .ok) →
    filebuf'.bufr = if loaded false lines = [] then filebuf.bufr
      else some (filebuf.content ++ loaded false lines) := by
  induction fuel with
  | zero =>
    intro lines _ _ _ hne _ _ hfuel
    exact absurd (List.length_pos_iff.mpr hne) (by omega)
  | succ fuel ih =>
    intro lines linebuf filebuf filebuf' hne hends hplain hfuel hok
    obtain ⟨line, lines, rfl⟩ := List.exists_cons_of_ne_nil hne
    rw [file2memoryLoop] at hok
    have htaken :=
      @getLineLoop_taken ((joined (line :: lines)).length + 1) (line :: lines) linebuf.reset
      hne hends (Nat.lt_succ_self _) (by rw [Dynbuf.content_reset]; simp)
    rw [Dynbuf.content_reset, ← getLine] at htaken
    generalize getLine linebuf (joined (line :: lines)) = r at hok htaken
    obtain ⟨linebuf1, result, rest, eof⟩ := r
    dsimp only at hok htaken
    by_cases hresult : result = .ok
    swap
    · rw [if_pos hresult] at hok
      exact absurd (Prod.mk.inj hok).2 (curl2netrc_ne hresult)
    have htaken := htaken hresult
    rw [if_neg (not_not.mpr hresult)] at hok
    by_cases hcomment : isComment line = true
    · have hhead := comment_start hcomment (htaken.start line rfl)
      rw [if_pos hhead] at hok
      have hskip : loaded false (line :: lines) =
          ((behind (line :: lines)).map (loaded false)).getD [] := by
        rw [loaded_comment hcomment, loaded_behind]
      cases hbehind : behind (line :: lines) with
      | none =>
        rw [htaken.last hbehind, if_pos rfl] at hok
        rw [hskip, hbehind, ← (Prod.mk.inj hok).1]
        rfl
      | some lines' =>
        obtain ⟨hrest, heof⟩ := htaken.more lines' hbehind
        obtain ⟨hsuffix, hne', hshorter⟩ := behind_shorter hbehind
        rw [heof, if_neg Bool.false_ne_true, hrest] at hok
        rw [hskip, hbehind]
        exact ih hne' (fun l hl => hends l (hsuffix.subset hl))
          (fun l hl => hplain l (hsuffix.subset hl)) (by omega) hok
    · have hzero : 0 ∉ line := (hplain line List.mem_cons_self).resolve_left hcomment
      have htext := htaken.exact line rfl hzero
      have hkeep : keep line = line.dropWhile isblank ++ [10] := if_neg hcomment
      have hclean : (line.dropWhile isblank ++ [10]).takeWhile (· ≠ 0) = keep line := by
        rw [hkeep, takeWhile_text]
        rw [List.mem_append, List.mem_singleton, not_or]
        exact ⟨fun hin => hzero ((List.dropWhile_suffix _).subset hin), by decide⟩
      rw [List.nil_append] at htext
      rw [htext, if_neg (plain_start hcomment), dropWhile_newline, hclean] at hok
      have hbufr := nappend_bufr filebuf (keep line)
      generalize filebuf.nappend (keep line) true = r at hok hbufr
      obtain ⟨filebuf1, result1⟩ := r
      dsimp only at hok hbufr
      by_cases hresult1 : result1 = .ok
      swap
      · rw [if_pos hresult1] at hok
        exact absurd (Prod.mk.inj hok).2 (curl2netrc_ne hresult1)
      rw [if_neg (not_not.mpr hresult1)] at hok
      have hbufr := hbufr hresult1
      have hsome : keep line ++ loaded false lines ≠ [] := by
        rw [hkeep]
        simp
      rw [loaded_plain hzero, if_neg hsome]
      cases lines with
      | nil =>
        rw [htaken.last rfl, if_pos rfl] at hok
        rw [← (Prod.mk.inj hok).1, hbufr, loaded, List.append_nil]
      | cons next lines =>
        have hbehind : behind (line :: next :: lines) = some (next :: lines) := by
          rw [behind, if_pos (lastPiece_subset hzero)]
        obtain ⟨hrest, heof⟩ := htaken.more _ hbehind
        rw [heof, if_neg Bool.false_ne_true, hrest] at hok
        have hnext := ih (List.cons_ne_nil next lines) (List.forall_mem_cons.mp hends).2
          (List.forall_mem_cons.mp hplain).2 (by rw [List.length_cons] at hfuel; omega) hok
        have hcontent : filebuf1.content = filebuf.content ++ keep line := by
          rw [Dynbuf.content, hbufr]
          rfl
        rw [hnext, hcontent]
        split
        · rename_i hnil
          rw [hbufr, hnil, List.append_nil]
        · rw [List.append_assoc]

theorem nappend_clean {mem : Bytes} (h : 0 ∉ buf.content) (hmem : 0 ∉ mem) :
    0 ∉ (buf.nappend mem true).1.content := by
  by_cases hfits : mem.length + buf.content.length + 1 ≤ buf.toobig
  · rw [(Dynbuf.nappend_ok hfits).2.1, List.mem_append, not_or]
    exact ⟨h, hmem⟩
  · rw [Dynbuf.nappend_error (by omega), Dynbuf.content_free]
    exact List.not_mem_nil

/-- What is loaded is a C string. -/
theorem file2memoryLoop_clean (fuel : Nat) : ∀ {linebuf filebuf : Dynbuf} {input : Bytes},
    0 ∉ filebuf.content → 0 ∉ (file2memoryLoop fuel linebuf filebuf input).1.content := by
  induction fuel with
  | zero => exact fun h => h
  | succ fuel ih =>
    intro linebuf filebuf input h
    rw [file2memoryLoop]
    generalize getLine linebuf input = r
    obtain ⟨linebuf1, result, rest, eof⟩ := r
    dsimp only
    split
    · rw [Dynbuf.content_free]
      exact List.not_mem_nil
    split
    · split
      · exact h
      · exact ih h
    · have hmem : 0 ∉ (linebuf1.content.dropWhile isblank).takeWhile (· ≠ 0) := by
        intro hin
        simpa using List.mem_takeWhile_imp hin
      have hclean := nappend_clean h hmem
      split
      · rw [Dynbuf.content_free]
        exact List.not_mem_nil
      split
      · exact hclean
      · exact ih hclean

/-- A line that is not a comment is not read together with the line before it. -/
def Apart (lines : List Bytes) : Prop :=
  lines.IsChain fun line next => 0 ∈ lastPiece line → isComment next = true

theorem loaded_length (lines : List Bytes) : ∀ b : Bool,
    (loaded b lines).length ≤ (lines.flatMap keep).length := by
  induction lines with
  | nil => exact fun _ => le_refl _
  | cons line lines ih =>
    intro b
    have hrest := ih (decide (0 ∈ lastPiece line))
    rw [loaded, List.flatMap_cons, List.length_append, List.length_append]
    cases b with
    | false =>
      rw [if_neg Bool.false_ne_true]
      omega
    | true =>
      rw [if_pos rfl, List.length_nil]
      omega

/-- Everything is loaded just when no line is lost to the line before it. -/
theorem loaded_eq (lines : List Bytes) : ∀ b : Bool,
    loaded b lines = lines.flatMap keep ↔
      (b = true → ∀ line ∈ lines.head?, isComment line = true) ∧ Apart lines := by
  induction lines with
  | nil => exact fun b => ⟨fun _ => ⟨fun _ => nofun, .nil⟩, fun _ => rfl⟩
  | cons line lines ih =>
    intro b
    have hchain : Apart (line :: lines) ↔
        (decide (0 ∈ lastPiece line) = true → ∀ next ∈ lines.head?, isComment next = true) ∧
          Apart lines := by
      rw [Apart, List.isChain_cons, decide_eq_true_iff]
      exact and_congr_left fun _ => ⟨fun h hin next hnext => h next hnext hin,
        fun h next hnext hin => h hin next hnext⟩
    rw [hchain, ← ih, loaded, List.flatMap_cons]
    by_cases hlost : b = true ∧ ¬isComment line = true
    · obtain ⟨rfl, hcomment⟩ := hlost
      have hlen := loaded_length lines (decide (0 ∈ lastPiece line))
      constructor
      · intro heq
        have hlens := congrArg List.length heq
        rw [if_pos rfl, List.nil_append, List.length_append, keep, if_neg hcomment] at hlens
        simp only [List.length_append, List.length_singleton] at hlens
        omega
      · intro h
        exact absurd (h.1 rfl line rfl) hcomment
    · have hkeep : (if b = true then [] else keep line) = keep line := by
        split
        · rename_i hb
          have hcomment : isComment line = true := by
            by_contra hne
            exact hlost ⟨hb, hne⟩
          rw [keep, if_pos hcomment]
        · rfl
      rw [hkeep, List.append_cancel_left_eq]
      refine ⟨fun h => ⟨fun hb l hl => ?_, h⟩, fun h => h.2⟩
      cases hl
      by_contra hne
      exact hlost ⟨hb, hne⟩

theorem length_le_joined : ∀ lines : List Bytes, lines.length ≤ (joined lines).length + 1
  | [] => Nat.zero_le _
  | [line] => Nat.le_add_left 1 _
  | line :: next :: lines => by
    have ih := length_le_joined (next :: lines)
    rw [joined_cons, List.length_append]
    simp only [List.length_cons] at ih ⊢
    omega

/-- A line that is no comment and has a NUL is not loaded as it is. -/
theorem zero_mem_keep (hcomment : ¬isComment line = true) (h : 0 ∈ line) : 0 ∈ keep line := by
  rw [keep, if_neg hcomment, List.mem_append]
  rw [← List.takeWhile_append_dropWhile (p := isblank) (l := line), List.mem_append] at h
  refine .inl (h.resolve_left fun hin => ?_)
  exact (blank_facts (List.mem_takeWhile_imp hin)).1 rfl

theorem keep_ne_nil (hcomment : ¬isComment line = true) : keep line ≠ [] := by
  rw [keep, if_neg hcomment]
  simp

end

/-- What `netrc_scan_file` passes to `netrc_scan` is the text of the lines of the file that are no
comments. -/
def Passed (store : Store) (netrcfile bytes : Bytes) : Prop :=
  (netrcScanFile store netrcfile (.text bytes)).2.2 = some (some ((linesOf bytes).flatMap keep))

/-- Of a file that is loaded, the lines that are no comments are passed on just when they have no
NUL, none of them is behind a comment whose last piece has one, and there is such a line, unless the
buffer was in use before. -/
theorem passed_iff (store : Store) (netrcfile bytes : Bytes)
    (hnew : (!store.loaded || netrcfile ≠ store.filename) = true)
    (hok : (file2memory (.text bytes) store.filebuf).2 = .ok) :
    Passed store netrcfile bytes ↔ Plain (linesOf bytes) ∧ Apart (linesOf bytes) ∧
      ((∃ line ∈ linesOf bytes, ¬isComment line = true) ∨ store.filebuf.bufr ≠ none) := by
  have hjoined : joined (linesOf bytes) = bytes := List.intercalate_splitOn 10
  have hpointer : (netrcScanFile store netrcfile (.text bytes)).2.2 =
      some (file2memory (.text bytes) store.filebuf).1.bufr := by
    rw [netrcScanFile, if_pos hnew]
    dsimp only
    rw [if_neg (not_not.mpr hok)]
  have hclean : 0 ∉ (file2memory (.text bytes) store.filebuf).1.content :=
    file2memoryLoop_clean _ (by rw [Dynbuf.content_reset]; exact List.not_mem_nil)
  have hloaded (hplain : Plain (linesOf bytes)) :
      (file2memory (.text bytes) store.filebuf).1.bufr =
        if loaded false (linesOf bytes) = [] then store.filebuf.reset.bufr
        else some (loaded false (linesOf bytes)) := by
    have hrun : file2memoryLoop (bytes.length + 1) (.init maxNetrcLine) store.filebuf.reset
        (joined (linesOf bytes)) = ((file2memory (.text bytes) store.filebuf).1, .ok) := by
      rw [hjoined]
      exact Prod.ext rfl hok
    have h := file2memoryLoop_loaded _ (List.splitOn_ne_nil 10 bytes)
      (Lines.notMem_splitOn 10 bytes) hplain
      (by have := length_le_joined (linesOf bytes); rwa [hjoined] at this) hrun
    rwa [Dynbuf.content_reset, List.nil_append] at h
  rw [Passed, hpointer, Option.some.injEq]
  have hreset : store.filebuf.reset.bufr = none ↔ store.filebuf.bufr = none := by
    simp [Dynbuf.reset]
  have hsome : (linesOf bytes).flatMap keep = [] ↔
      ¬∃ line ∈ linesOf bytes, ¬isComment line = true := by
    rw [List.flatMap_eq_nil_iff]
    push Not
    refine forall₂_congr fun line _ => ⟨fun hnil => ?_, fun hcomment => if_pos hcomment⟩
    by_contra hne
    exact keep_ne_nil hne hnil
  by_cases hplain : Plain (linesOf bytes)
  swap
  · refine ⟨fun hpassed => absurd ?_ hplain, fun hcond => absurd hcond.1 hplain⟩
    intro line hline
    by_contra hneither
    rw [not_or, not_not] at hneither
    refine hclean ?_
    rw [Dynbuf.content, hpassed, Option.getD_some, List.mem_flatMap]
    exact ⟨line, hline, zero_mem_keep hneither.1 hneither.2⟩
  rw [hloaded hplain]
  have heq : loaded false (linesOf bytes) = (linesOf bytes).flatMap keep ↔
      Apart (linesOf bytes) := by
    rw [loaded_eq]
    exact ⟨fun h => h.2, fun h => ⟨nofun, h⟩⟩
  by_cases hnil : loaded false (linesOf bytes) = []
  · rw [if_pos hnil]
    rw [hnil] at heq
    constructor
    · intro hbufr
      have hempty : (linesOf bytes).flatMap keep = [] := by
        cases hb : store.filebuf.bufr with
        | none =>
          rw [hreset.mpr hb] at hbufr
          cases hbufr
        | some b =>
          rw [Dynbuf.reset, hb] at hbufr
          exact (Option.some.inj hbufr).symm
      refine ⟨hplain, heq.mp hempty.symm, .inr fun hb => ?_⟩
      rw [hreset.mpr hb] at hbufr
      cases hbufr
    · rintro ⟨-, hapart, hsomething⟩
      have hempty := heq.mpr hapart
      obtain ⟨b, hb⟩ := Option.ne_none_iff_exists'.mp
        (hsomething.resolve_left (hsome.mp hempty.symm))
      rw [← hempty, Dynbuf.reset, hb]
      rfl
  · rw [if_neg hnil, Option.some.injEq, heq]
    refine ⟨fun hapart => ⟨hplain, hapart, .inl ?_⟩, fun h => h.2.1⟩
    by_contra hnone
    exact hnil ((heq.mpr hapart).trans (hsome.mpr hnone))

/-- A comment before an entry. -/
theorem passed_iff_entry :
    Passed .init [110] (Strcase.ascii "# c\n default") ↔
      Plain (linesOf (Strcase.ascii "# c\n default")) ∧
      Apart (linesOf (Strcase.ascii "# c\n default")) ∧
      ((∃ line ∈ linesOf (Strcase.ascii "# c\n default"), ¬isComment line = true) ∨
        Store.init.filebuf.bufr ≠ none) :=
  passed_iff .init [110] (Strcase.ascii "# c\n default") (by decide) (by decide +kernel)

/-- A file of one comment without a newline: there is nothing to pass. -/
theorem comment_unpassed :
    ¬∀ (store : Store) (netrcfile bytes : Bytes),
      (!store.loaded || netrcfile ≠ store.filename) = true →
      (file2memory (.text bytes) store.filebuf).2 = .ok → Passed store netrcfile bytes := by
  intro hall
  have hpassed := hall .init [110] (Strcase.ascii "# c") (by decide) (by decide +kernel)
  have hnull : (netrcScanFile .init [110] (.text (Strcase.ascii "# c"))).2.2 = some none := by
    decide +kernel
  rw [Passed, hnull] at hpassed
  cases hpassed

end Gurl.Netrc
