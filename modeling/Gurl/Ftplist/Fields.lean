import Gurl.Ftplist.Bounds

/-! The parser on one field of a line: the blanks before it, its text and the byte that ends it. -/

namespace Gurl.Ftplist

open Strparse

section
variable {compare : Bytes → Bool} {p : Parser}

theorem parseLoop_append (p : Parser) (a b : Bytes) :
    parseLoop compare p (a ++ b) = parseLoop compare (parseLoop compare p a) b := by
  induction a generalizing p with
  | nil => rfl
  | cons c rest ih =>
    simp only [List.cons_append, parseLoop]
    split
    · rename_i herror
      cases b with
      | nil => rfl
      | cons d b => simp [parseLoop, herror]
    · exact ih _

/-- In the text of a line, at an item that starts at `off` and has `len` bytes so far. -/
def Parser.At (p : Parser) (os : OsType) (unix : Unix) (nt : WinNt) (off len : Nat)
    (buf : Bytes) (info : Finfo) (offs : Offsets) (files : List File) : Prop :=
  ∃ w, p = ⟨os, unix, nt, .ok, true, buf, info, len, off, offs, files, w⟩

/-- In a line of a Unix listing. -/
abbrev Parser.UnixAt (p : Parser) (unix : Unix) (off len : Nat) (buf : Bytes) (info : Finfo)
    (offs : Offsets) (files : List File) : Prop :=
  p.At .unix unix .date off len buf info offs files

/-- In a line of a DOS listing. -/
abbrev Parser.NtAt (p : Parser) (nt : WinNt) (off len : Nat) (buf : Bytes) (info : Finfo)
    (offs : Offsets) (files : List File) : Prop :=
  p.At .winNt (.totalsize .init) nt off len buf info offs files

variable {os : OsType} {unix : Unix} {nt : WinNt} {off len : Nat} {buf : Bytes} {info : Finfo}
  {offs : Offsets} {files : List File} {c : UInt8}

/-- A byte that the parser takes. -/
theorem parseLoop_byte {w : List (Nat × Nat)} {q : Parser} (rest : Bytes)
    (hfits : buf.length + 2 ≤ maxFtplistBuffer)
    (h : parseChar compare ⟨os, unix, nt, .ok, true, buf ++ [c], info, len, off, offs, files, w⟩ c =
      (.ok, q)) :
    parseLoop compare ⟨os, unix, nt, .ok, true, buf, info, len, off, offs, files, w⟩ (c :: rest) =
      parseLoop compare q rest := by
  have hbyte : parseByte compare ⟨os, unix, nt, .ok, true, buf, info, len, off, offs, files, w⟩ c =
      q := by
    simp only [parseByte, Parser.alloc, if_true]
    rw [if_neg (by omega), h]
    rfl
  rw [parseLoop.eq_2, if_neg (by simp), hbyte]

/-- Bytes that each leave the parser where it is, one by one further in the buffer. -/
theorem At.run {d : Nat} {P : UInt8 → Prop}
    (hstep : ∀ {len : Nat} {buf : Bytes} {c : UInt8} {w : List (Nat × Nat)}, P c →
      parseChar compare ⟨os, unix, nt, .ok, true, buf ++ [c], info, len, off, offs, files, w⟩ c =
        (.ok, ⟨os, unix, nt, .ok, true, buf ++ [c], info, len + d, off, offs, files, w⟩))
    {bytes : Bytes} (hbytes : ∀ c ∈ bytes, P c)
    (hfits : buf.length + bytes.length + 1 ≤ maxFtplistBuffer)
    (h : p.At os unix nt off len buf info offs files) :
    (parseLoop compare p bytes).At os unix nt off (len + d * bytes.length) (buf ++ bytes) info offs
      files := by
  induction bytes generalizing p len buf with
  | nil => simpa [parseLoop] using h
  | cons c rest ih =>
    obtain ⟨w, rfl⟩ := h
    rw [List.length_cons] at hfits
    rw [parseLoop_byte rest (by omega) (hstep (hbytes c List.mem_cons_self))]
    have hrest : (buf ++ [c]).length + rest.length + 1 ≤ maxFtplistBuffer := by
      rw [List.length_append, List.length_singleton]
      omega
    have hat : Parser.At ⟨os, unix, nt, .ok, true, buf ++ [c], info, len + d, off, offs, files, w⟩
        os unix nt off (len + d) (buf ++ [c]) info offs files := ⟨w, rfl⟩
    have := ih (fun x hx => hbytes x (List.mem_cons_of_mem _ hx)) hrest hat
    rw [List.append_assoc, List.singleton_append] at this
    rw [List.length_cons, Nat.mul_add, Nat.mul_one, ← Nat.add_assoc, Nat.add_right_comm]
    exact this

theorem At.blanks {d : Nat}
    (hblank : ∀ {len : Nat} {buf : Bytes} {w : List (Nat × Nat)},
      parseChar compare ⟨os, unix, nt, .ok, true, buf ++ [32], info, len, off, offs, files, w⟩ 32 =
        (.ok, ⟨os, unix, nt, .ok, true, buf ++ [32], info, len + d, off, offs, files, w⟩))
    (blanks : Nat) (hfits : buf.length + blanks + 1 ≤ maxFtplistBuffer)
    (h : p.At os unix nt off len buf info offs files) :
    (parseLoop compare p (List.replicate blanks 32)).At os unix nt off (len + d * blanks)
      (buf ++ List.replicate blanks 32) info offs files := by
  have hrun := At.run (P := fun c => c = 32) (fun {_ _ c _} hc => by subst hc; exact hblank)
    (fun c hc => List.eq_of_mem_replicate hc) (by rwa [List.length_replicate]) h
  rwa [List.length_replicate] at hrun

theorem At.byte {os' : OsType} {unix' : Unix} {nt' : WinNt} {off' len' : Nat} {buf' : Bytes}
    {info' : Finfo} {offs' : Offsets} {files' : List File}
    (hstep : ∀ w, ∃ w', parseChar compare
      ⟨os, unix, nt, .ok, true, buf ++ [c], info, len, off, offs, files, w⟩ c =
        (.ok, ⟨os', unix', nt', .ok, true, buf', info', len', off', offs', files', w'⟩))
    (hfits : buf.length + 2 ≤ maxFtplistBuffer) (h : p.At os unix nt off len buf info offs files) :
    (parseLoop compare p [c]).At os' unix' nt' off' len' buf' info' offs' files' := by
  obtain ⟨w, rfl⟩ := h
  obtain ⟨w', hq⟩ := hstep w
  rw [parseLoop_byte [] hfits hq]
  exact ⟨w', rfl⟩

section

variable (unix' : Unix) (nt' : WinNt) (P0 P : UInt8 → Prop)
  (hblank : ∀ {len off : Nat} {buf : Bytes} {w : List (Nat × Nat)},
    parseChar compare ⟨os, unix, nt, .ok, true, buf ++ [32], info, len, off, offs, files, w⟩ 32 =
      (.ok, ⟨os, unix, nt, .ok, true, buf ++ [32], info, len, off, offs, files, w⟩))
  (hfirst : ∀ {len off : Nat} {buf : Bytes} {c : UInt8} {w : List (Nat × Nat)}, P0 c →
    parseChar compare ⟨os, unix, nt, .ok, true, buf ++ [c], info, len, off, offs, files, w⟩ c =
      (.ok, ⟨os, unix', nt', .ok, true, buf ++ [c], info, 1, buf.length, offs, files, w⟩))
  (hnext : ∀ {len off : Nat} {buf : Bytes} {c : UInt8} {w : List (Nat × Nat)}, P c →
    parseChar compare ⟨os, unix', nt', .ok, true, buf ++ [c], info, len, off, offs, files, w⟩ c =
      (.ok, ⟨os, unix', nt', .ok, true, buf ++ [c], info, len + 1, off, offs, files, w⟩))
include hblank hfirst hnext

/-- Blanks and the text of an item behind them. -/
theorem At.item (blanks : Nat) {text : Bytes} (htext : ∀ c ∈ text, P c) (hc : P0 c)
    (hfits : buf.length + blanks + text.length + 2 ≤ maxFtplistBuffer)
    (h : p.At os unix nt off len buf info offs files) :
    (parseLoop compare p (List.replicate blanks 32 ++ c :: text)).At os unix' nt'
      (buf.length + blanks) (text.length + 1)
        (buf ++ List.replicate blanks 32 ++ c :: text) info offs
      files := by
  have hlen : (buf ++ List.replicate blanks 32).length = buf.length + blanks := by simp
  rw [parseLoop_append]
  obtain ⟨w, heq⟩ := At.blanks (d := 0) hblank blanks (by omega) h
  rw [heq, parseLoop_byte text (by rw [hlen]; omega) (hfirst hc)]
  have hat : Parser.At ⟨os, unix', nt', .ok, true, buf ++ List.replicate blanks 32 ++ [c], info, 1,
      (buf ++ List.replicate blanks 32).length, offs, files, w⟩ os unix' nt'
      (buf ++ List.replicate blanks 32).length 1 (buf ++ List.replicate blanks 32 ++ [c]) info offs
      files := ⟨w, rfl⟩
  have h2 := At.run (d := 1) hnext htext
    (by rw [List.length_append, hlen, List.length_singleton]; omega) hat
  rw [Nat.one_mul, Nat.add_comm 1, List.append_assoc _ [c], List.singleton_append] at h2
  rwa [← hlen]

/-- And the byte that ends the item. -/
theorem At.itemEnd (blanks : Nat) {text : Bytes} (htext : ∀ c ∈ text, P c) (hc : P0 c)
    (hfits : buf.length + blanks + text.length + 3 ≤ maxFtplistBuffer) {e : UInt8}
    {q : List (Nat × Nat) → Parser}
    (hend : ∀ w, ∃ w', parseChar compare ⟨os, unix', nt', .ok, true,
      buf ++ List.replicate blanks 32 ++ c :: text ++ [e], info, text.length + 1,
      buf.length + blanks, offs, files, w⟩ e = (.ok, q w'))
    (h : p.At os unix nt off len buf info offs files) :
    ∃ w, parseLoop compare p (List.replicate blanks 32 ++ c :: text ++ [e]) = q w := by
  obtain ⟨w, heq⟩ := At.item unix' nt' P0 P hblank hfirst hnext blanks htext hc (by omega) h
  obtain ⟨w', hq⟩ := hend w
  rw [parseLoop_append, heq, parseLoop_byte [] ?_ hq]
  · exact ⟨w', rfl⟩
  · simp only [List.length_append, List.length_replicate, List.length_cons]
    omega

end

end

theorem if_append {P : Prop} [Decidable P] (files more : List File) :
    (if P then files ++ more else files) = files ++ if P then more else [] := by
  split
  · rfl
  · rw [List.append_nil]

/-- There is a string at an offset of the buffer. -/
def Holds (buf : Bytes) (off : Nat) (text : Bytes) : Prop :=
  ∃ pre rest, buf = pre ++ text ++ 0 :: rest ∧ pre.length = off ∧ 0 ∉ text

theorem Holds.cstr {buf : Bytes} {off : Nat} {text : Bytes} (h : Holds buf off text) :
    cstr buf off = text := by
  obtain ⟨pre, rest, rfl, rfl, hzero⟩ := h
  have htext : ∀ c ∈ text, decide (c ≠ 0) = true := by
    intro c hc
    simp only [ne_eq, decide_eq_true_eq]
    rintro rfl
    exact hzero hc
  rw [Ftplist.cstr, List.append_assoc, List.drop_left, List.takeWhile_append_of_pos htext]
  simp

theorem Holds.mono {buf buf' : Bytes} {off : Nat} {text : Bytes} (h : Holds buf off text)
    (hbuf : buf <+: buf') : Holds buf' off text := by
  obtain ⟨more, rfl⟩ := hbuf
  obtain ⟨pre, rest, rfl, hoff, hzero⟩ := h
  exact ⟨pre, rest ++ more, by simp, hoff, hzero⟩

/-- The terminator of an item goes where the byte behind its text is. -/
theorem set_text (buf : Bytes) (blanks : Nat) (text : Bytes) (e : UInt8)
    (rest : Bytes) :
    (buf ++ List.replicate blanks 32 ++ text ++ e :: rest).set
        (buf.length + blanks + (text.length + 1) - 1) 0 =
      buf ++ List.replicate blanks 32 ++ text ++ 0 :: rest := by
  have hi : buf.length + blanks + (text.length + 1) - 1 =
      (buf ++ List.replicate blanks 32 ++ text).length := by
    simp only [List.length_append, List.length_replicate]
    omega
  rw [hi]
  simp

theorem set_end (buf : Bytes) (blanks : Nat) (c : UInt8) (text : Bytes) (e : UInt8)
    (rest : Bytes) :
    (buf ++ List.replicate blanks 32 ++ c :: text ++ e :: rest).set
        (buf.length + blanks + (text.length + 1 + 1) - 1) 0 =
      buf ++ List.replicate blanks 32 ++ c :: text ++ 0 :: rest :=
  set_text buf blanks (c :: text) e rest

theorem holds_end (buf : Bytes) (blanks : Nat) {text : Bytes} (rest : Bytes)
    (hzero : 0 ∉ text) :
    Holds (buf ++ List.replicate blanks 32 ++ text ++ 0 :: rest) (buf.length + blanks) text :=
  ⟨buf ++ List.replicate blanks 32, rest, rfl, by simp, hzero⟩

/-! How the text is cut into calls does not matter. -/

/-- The states of the parser do not touch these two. -/
def Parser.Keeps (p q : Parser) : Prop := q.osType = p.osType ∧ q.error = p.error

section
variable {compare : Bytes → Bool} {p : Parser} {c : UInt8}

theorem parseUnix_keeps : p.Keeps (parseUnix compare p c).2 := by
  have hfiletype (p : Parser) : p.Keeps (parseUnixFiletype p c).2 := by
    unfold parseUnixFiletype
    split <;> exact ⟨rfl, rfl⟩
  have htotal (sub : TotalSize) : p.Keeps (parseUnixTotalsize p sub c).2 := by
    fun_cases parseUnixTotalsize <;> exact ⟨rfl, rfl⟩
  unfold parseUnix
  split
  · rename_i sub _
    have hkeeps := htotal sub
    split
    rename_i code q heq
    rw [heq] at hkeeps
    split
    · exact hkeeps
    · split
      · exact hkeeps
      · exact ⟨(hfiletype q).1.trans hkeeps.1, (hfiletype q).2.trans hkeeps.2⟩
  · exact hfiletype p
  · fun_cases parseUnixPermission <;> exact ⟨rfl, rfl⟩
  · fun_cases parseUnixHlinks <;> exact ⟨rfl, rfl⟩
  · fun_cases parseUnixUser <;> exact ⟨rfl, rfl⟩
  · fun_cases parseUnixGroup <;> exact ⟨rfl, rfl⟩
  · fun_cases parseUnixSize <;> exact ⟨rfl, rfl⟩
  · fun_cases parseUnixTime <;> exact ⟨rfl, rfl⟩
  · fun_cases parseUnixFilename <;> exact ⟨rfl, rfl⟩
  · rename_i sub _
    cases sub <;> simp only [parseUnixSymlink, symlinkNext] <;> split_ifs <;> exact ⟨rfl, rfl⟩

theorem parseWinnt_keeps : p.Keeps (parseWinnt compare p c).2 := by
  have hdirorsize (sub : Item) : p.Keeps (parseWinntDirorsize p sub c).2 := by
    fun_cases parseWinntDirorsize <;> exact ⟨rfl, rfl⟩
  fun_cases parseWinnt <;> first | exact ⟨rfl, rfl⟩ | exact hdirorsize _

variable (compare c p) in
theorem parseChar_keeps : p.Keeps (parseChar compare p c).2 := by
  unfold parseChar
  split
  · exact parseWinnt_keeps
  · exact parseUnix_keeps
  · exact parseUnix_keeps

theorem alloc_keeps : p.Keeps p.alloc := by
  unfold Parser.alloc
  split <;> exact ⟨rfl, rfl⟩

variable (compare c) in
/-- A byte leaves the kind of the listing, and with an error `file_data` is gone. -/
theorem parseByte_kept (hok : p.error = .ok) : (parseByte compare p c).osType = p.osType ∧
    ((parseByte compare p c).error ≠ .ok → (parseByte compare p c).fileData = false) := by
  simp only [parseByte]
  split
  · exact ⟨alloc_keeps.1, fun _ => rfl⟩
  · have hkeeps := parseChar_keeps compare { p.alloc with buf := p.alloc.buf ++ [c] } c
    split
    · exact ⟨hkeeps.1.trans alloc_keeps.1, fun _ => rfl⟩
    · exact ⟨hkeeps.1.trans alloc_keeps.1,
        fun hne => absurd (hkeeps.2.trans (alloc_keeps.2.trans hok)) hne⟩

variable (compare) in
theorem parseLoop_kept (bytes : Bytes) (h : p.error ≠ .ok → p.fileData = false) :
    (parseLoop compare p bytes).osType = p.osType ∧
      ((parseLoop compare p bytes).error ≠ .ok → (parseLoop compare p bytes).fileData = false) := by
  induction bytes generalizing p with
  | nil => exact ⟨rfl, h⟩
  | cons c rest ih =>
    unfold parseLoop
    split
    · exact ⟨rfl, h⟩
    · rename_i herror
      obtain ⟨hos, hkept⟩ := parseByte_kept compare c (not_not.mp herror)
      obtain ⟨hos', hkept'⟩ := ih hkept
      exact ⟨hos'.trans hos, hkept'⟩

theorem fail_self (h : p.fileData = false) : p.fail p.error = p := by
  cases p
  cases h
  rfl

/-- A call behind an error does nothing. -/
theorem ftpParselist_error (bytes : Bytes) (herror : p.error ≠ .ok) (h : p.fileData = false) :
    ftpParselist compare p bytes = p := by
  unfold ftpParselist
  rw [if_pos herror, fail_self h]

theorem ftpParselist_known (bytes : Bytes) (h : p.error ≠ .ok → p.fileData = false)
    (hos : p.osType ≠ .unknown) : ftpParselist compare p bytes = parseLoop compare p bytes := by
  by_cases herror : p.error = .ok
  · unfold ftpParselist
    rw [if_neg (not_not.mpr herror)]
    split
    · exact absurd ‹_› hos
    · rfl
  · rw [ftpParselist_error bytes herror (h herror)]
    cases bytes with
    | nil => rfl
    | cons c rest => rw [parseLoop, if_pos herror]

/-- The first byte tells the kind of the listing. -/
def Parser.guess (p : Parser) (c : UInt8) : Parser :=
  if p.osType = .unknown then { p with osType := if isDigit c then .winNt else .unix } else p

theorem guess_known : (p.guess c).osType ≠ .unknown := by
  unfold Parser.guess
  split
  · dsimp only
    split <;> nofun
  · assumption

theorem ftpParselist_cons (rest : Bytes) (hok : p.error = .ok) :
    ftpParselist compare p (c :: rest) = parseLoop compare (p.guess c) (c :: rest) := by
  unfold ftpParselist Parser.guess
  rw [if_neg (not_not.mpr hok)]
  cases hos : p.osType with
  | unknown => rfl
  | unix => rfl
  | winNt => rfl

theorem ftpParselist_nil (h : p.error ≠ .ok → p.fileData = false) :
    ftpParselist compare p [] = p := by
  by_cases herror : p.error = .ok
  · unfold ftpParselist
    rw [if_neg (not_not.mpr herror)]
    cases p.osType <;> rfl
  · exact ftpParselist_error [] herror (h herror)

variable (compare) in
/-- A call goes on where the one before stopped. -/
theorem ftpParselist_append (a b : Bytes) (h : p.error ≠ .ok → p.fileData = false) :
    ftpParselist compare (ftpParselist compare p a) b = ftpParselist compare p (a ++ b) ∧
      ((ftpParselist compare p a).error ≠ .ok → (ftpParselist compare p a).fileData = false) := by
  cases a with
  | nil =>
    rw [ftpParselist_nil h]
    exact ⟨rfl, h⟩
  | cons c rest =>
    by_cases hok : p.error = .ok
    · have hguess : (p.guess c).error ≠ .ok → (p.guess c).fileData = false := by
        unfold Parser.guess
        split <;> exact h
      obtain ⟨hos, hkept⟩ := parseLoop_kept compare (c :: rest) hguess
      rw [List.cons_append, ftpParselist_cons rest hok, ftpParselist_cons _ hok]
      refine ⟨?_, hkept⟩
      rw [ftpParselist_known b hkept (by rw [hos]; exact guess_known), ← List.cons_append,
        parseLoop_append]
    · have hfix (bytes : Bytes) : ftpParselist compare p bytes = p :=
        ftpParselist_error bytes hok (h hok)
      rw [hfix, hfix, hfix]
      exact ⟨rfl, h⟩

variable (compare) in
/-- However the text is cut. -/
theorem foldl_ftpParselist (pieces : List Bytes) (h : p.error ≠ .ok → p.fileData = false) :
    pieces.foldl (ftpParselist compare) p = ftpParselist compare p pieces.flatten := by
  induction pieces generalizing p with
  | nil => exact (ftpParselist_nil h).symm
  | cons a rest ih =>
    obtain ⟨happend, hkept⟩ := ftpParselist_append compare a rest.flatten h
    rw [List.foldl_cons, ih hkept, List.flatten_cons, happend]

end

end Gurl.Ftplist
