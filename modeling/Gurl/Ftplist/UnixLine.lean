import Gurl.Ftplist.Fields

/-! The fields of a line of a Unix listing. -/

namespace Gurl.Ftplist

open Strparse

section
variable (compare : Bytes → Bool) {p : Parser} {off len : Nat} {buf : Bytes} {info : Finfo}
  {offs : Offsets} {files : List File}

theorem digit_ne_zero {text : Bytes} (h : ∀ c ∈ text, isDigit c = true) : 0 ∉ text :=
  fun hin => absurd (h 0 hin) (by decide)

/-- What `curlx_str_number` makes of a text of digits. -/
theorem strNumber_digits {text : Bytes} (hdigits : ∀ c ∈ text, isDigit c = true)
    (hne : text ≠ []) (hval : decimal text ≤ curlOffTMax) :
    strNumber text curlOffTMax = .ok (decimal text, []) := by
  have htake : text.takeWhile isDigit = text := List.takeWhile_eq_self_iff.mpr hdigits
  have hdrop : text.dropWhile isDigit = [] := List.dropWhile_eq_nil_iff.mpr hdigits
  rw [strNumber_eq (by decide), htake, if_neg hne, if_pos hval, hdrop]

theorem hlinks_field (blanks : Nat) {text : Bytes} (hdigits : ∀ c ∈ text, isDigit c = true)
    (hne : text ≠ []) (hval : decimal text ≤ curlOffTMax)
    (hfits : buf.length + blanks + text.length + 2 ≤ maxFtplistBuffer)
    (h : p.UnixAt (.hlinks .prespace) off len buf info offs files) :
    (parseLoop compare p (List.replicate blanks 32 ++ text ++ [32])).UnixAt (.user .prespace) 0 0
      (buf ++ List.replicate blanks 32 ++ text ++ [0])
      { info with knownHlinkcount := true, hardlinks := decimal text } offs files := by
  have hnumber := strNumber_digits hdigits hne hval
  have hcstr := (holds_end buf blanks [] (digit_ne_zero hdigits)).cstr
  cases text with
  | nil => exact absurd rfl hne
  | cons c text =>
    obtain ⟨hc, htext⟩ := List.forall_mem_cons.mp hdigits
    rw [List.length_cons] at hfits
    refine At.itemEnd (.hlinks .content) .date (fun c => isDigit c = true)
      (fun c => isDigit c = true) rfl (fun {_ _ buf c _} hc => ?_) (fun {_ _ buf c _} hc => ?_)
      blanks htext hc (by omega) (fun w => ?_) h
    · have hne : c ≠ 32 := by
        rintro rfl
        cases hc
      simp [parseChar, parseUnix, parseUnixHlinks, hne, hc]
    · have hne : c ≠ 32 := by
        rintro rfl
        cases hc
      simp [parseChar, parseUnix, parseUnixHlinks, hne, hc]
    · simp only [parseChar, parseUnix, parseUnixHlinks, Parser.terminate, if_true, set_end, hcstr,
        hnumber]
      exact ⟨_, rfl⟩

theorem user_field (blanks : Nat) {text : Bytes} (hblank : 32 ∉ text) (hne : text ≠ [])
    (hfits : buf.length + blanks + text.length + 2 ≤ maxFtplistBuffer)
    (h : p.UnixAt (.user .prespace) off len buf info offs files) :
    (parseLoop compare p (List.replicate blanks 32 ++ text ++ [32])).UnixAt (.group .prespace) 0 0
      (buf ++ List.replicate blanks 32 ++ text ++ [0]) info
      { offs with user := buf.length + blanks } files := by
  cases text with
  | nil => exact absurd rfl hne
  | cons c text =>
    obtain ⟨hc, htext⟩ := not_or.mp (mt List.mem_cons.mpr hblank)
    rw [List.length_cons] at hfits
    refine At.itemEnd (.user .content) .date (fun c => c ≠ 32) (fun c => c ≠ 32) rfl
      (fun {_ _ buf c _} hc => ?_) (fun {_ _ buf c _} hc => ?_) blanks
      (fun x hx heq => htext (heq ▸ hx)) (Ne.symm hc) (by omega) (fun w => ?_) h
    · simp [parseChar, parseUnix, parseUnixUser, hc]
    · simp [parseChar, parseUnix, parseUnixUser, hc]
    · simp only [parseChar, parseUnix, parseUnixUser, Parser.terminate, if_true, set_end]
      exact ⟨_, rfl⟩

theorem group_field (blanks : Nat) {text : Bytes} (hblank : 32 ∉ text) (hne : text ≠ [])
    (hfits : buf.length + blanks + text.length + 2 ≤ maxFtplistBuffer)
    (h : p.UnixAt (.group .prespace) off len buf info offs files) :
    (parseLoop compare p (List.replicate blanks 32 ++ text ++ [32])).UnixAt (.size .prespace) 0 0
      (buf ++ List.replicate blanks 32 ++ text ++ [0]) info
      { offs with group := buf.length + blanks } files := by
  cases text with
  | nil => exact absurd rfl hne
  | cons c text =>
    obtain ⟨hc, htext⟩ := not_or.mp (mt List.mem_cons.mpr hblank)
    rw [List.length_cons] at hfits
    refine At.itemEnd (.group .content) .date (fun c => c ≠ 32) (fun c => c ≠ 32) rfl
      (fun {_ _ buf c _} hc => ?_) (fun {_ _ buf c _} hc => ?_) blanks
      (fun x hx heq => htext (heq ▸ hx)) (Ne.symm hc) (by omega) (fun w => ?_) h
    · simp [parseChar, parseUnix, parseUnixGroup, hc]
    · simp [parseChar, parseUnix, parseUnixGroup, hc]
    · simp only [parseChar, parseUnix, parseUnixGroup, Parser.terminate, if_true, set_end]
      exact ⟨_, rfl⟩

theorem strNumblanks_digits {text : Bytes} (hdigits : ∀ c ∈ text, isDigit c = true)
    (hne : text ≠ []) (hval : decimal text ≤ curlOffTMax) :
    strNumblanks text = .ok (decimal text, []) := by
  have hdrop : text.dropWhile Urlglob.isBlank = text := by
    cases text with
    | nil => rfl
    | cons c text =>
      have hc := hdigits c List.mem_cons_self
      have hblank : ¬Urlglob.isBlank c = true := by
        intro hb
        simp only [Urlglob.isBlank, Bool.or_eq_true, beq_iff_eq] at hb
        rcases hb with rfl | rfl <;> cases hc
      rw [List.dropWhile_cons_of_neg hblank]
  rw [strNumblanks, hdrop, strNumber_digits hdigits hne hval]

/-- The largest size there is counts as unknown. -/
theorem size_field (blanks : Nat) {text : Bytes} (hdigits : ∀ c ∈ text, isDigit c = true)
    (hne : text ≠ []) (hval : decimal text < curlOffTMax)
    (hfits : buf.length + blanks + text.length + 2 ≤ maxFtplistBuffer)
    (h : p.UnixAt (.size .prespace) off len buf info offs files) :
    (parseLoop compare p (List.replicate blanks 32 ++ text ++ [32])).UnixAt (.time .prepart1) 0 0
      (buf ++ List.replicate blanks 32 ++ text ++ [0])
      { info with knownSize := true, size := decimal text } offs files := by
  have hnumber := strNumblanks_digits hdigits hne hval.le
  have hcstr := (holds_end buf blanks [] (digit_ne_zero hdigits)).cstr
  cases text with
  | nil => exact absurd rfl hne
  | cons c text =>
    obtain ⟨hc, htext⟩ := List.forall_mem_cons.mp hdigits
    rw [List.length_cons] at hfits
    refine At.itemEnd (.size .content) .date (fun c => isDigit c = true)
      (fun c => isDigit c = true) rfl (fun {_ _ buf c _} hc => ?_) (fun {_ _ buf c _} hc => ?_)
      blanks htext hc (by omega) (fun w => ?_) h
    · have hne : c ≠ 32 := by
        rintro rfl
        cases hc
      simp [parseChar, parseUnix, parseUnixSize, hne, hc]
    · have hne : c ≠ 32 := by
        rintro rfl
        cases hc
      simp [parseChar, parseUnix, parseUnixSize, hne, hc]
    · simp only [parseChar, parseUnix, parseUnixSize, Parser.terminate, if_true, set_end, hcstr,
        hnumber, true_and, if_pos hval.ne]
      exact ⟨_, rfl⟩

/-- A part of a time: it starts with a letter or a digit, and dots may follow. -/
def TimePart (text : Bytes) : Prop :=
  ∃ c rest, text = c :: rest ∧ Parsedate.isAlnum c = true ∧
    ∀ x ∈ rest, Parsedate.isAlnum x = true ∨ x = 46

/-- And colons in the third. -/
def TimePart3 (text : Bytes) : Prop :=
  ∃ c rest, text = c :: rest ∧ Parsedate.isAlnum c = true ∧
    ∀ x ∈ rest, Parsedate.isAlnum x = true ∨ x = 46 ∨ x = 58

theorem alnum_ne_blank {c : UInt8} (h : Parsedate.isAlnum c = true) : c ≠ 32 := by
  rintro rfl
  cases h

/-- From a part of the time over blanks to the next part. -/
theorem At.word {u0 : Unix} (u1 u2 : Unix) (P : UInt8 → Prop)
    (hend : ∀ {len : Nat} {buf : Bytes} {w : List (Nat × Nat)},
      parseChar compare ⟨.unix, u0, .date, .ok, true, buf ++ [32], info, len, off, offs, files, w⟩
        32 = (.ok, ⟨.unix, u1, .date, .ok, true, buf ++ [32], info, len + 1, off, offs, files, w⟩))
    (hblank : ∀ {len : Nat} {buf : Bytes} {w : List (Nat × Nat)},
      parseChar compare ⟨.unix, u1, .date, .ok, true, buf ++ [32], info, len, off, offs, files, w⟩
        32 = (.ok, ⟨.unix, u1, .date, .ok, true, buf ++ [32], info, len + 1, off, offs, files, w⟩))
    (hfirst : ∀ {len : Nat} {buf : Bytes} {c : UInt8} {w : List (Nat × Nat)},
      Parsedate.isAlnum c = true →
      parseChar compare ⟨.unix, u1, .date, .ok, true, buf ++ [c], info, len, off, offs, files, w⟩
        c = (.ok, ⟨.unix, u2, .date, .ok, true, buf ++ [c], info, len + 1, off, offs, files, w⟩))
    (hnext : ∀ {len : Nat} {buf : Bytes} {c : UInt8} {w : List (Nat × Nat)}, P c →
      parseChar compare ⟨.unix, u2, .date, .ok, true, buf ++ [c], info, len, off, offs, files, w⟩
        c = (.ok, ⟨.unix, u2, .date, .ok, true, buf ++ [c], info, len + 1, off, offs, files, w⟩))
    (blanks : Nat) {c : UInt8} {text : Bytes} (hc : Parsedate.isAlnum c = true)
    (htext : ∀ x ∈ text, P x)
    (hfits : buf.length + blanks + text.length + 3 ≤ maxFtplistBuffer)
    (h : p.UnixAt u0 off len buf info offs files) :
    (parseLoop compare p (32 :: List.replicate blanks 32 ++ c :: text)).UnixAt u2 off
      (len + (32 :: List.replicate blanks (32 : UInt8) ++ c :: text).length)
      (buf ++ (32 :: List.replicate blanks 32 ++ c :: text)) info offs files := by
  have h1 : (parseLoop compare p [32]).UnixAt u1 off (len + 1) (buf ++ [32]) info offs files :=
    At.byte (fun w => ⟨w, hend⟩) (by omega) h
  have h2 := At.blanks hblank blanks (by rw [List.length_append, List.length_singleton]; omega) h1
  have h3 := At.byte (fun w => ⟨w, hfirst hc⟩)
    (by simp only [List.length_append, List.length_singleton, List.length_replicate]; omega) h2
  have h4 := At.run (d := 1) hnext htext
    (by simp only [List.length_append, List.length_singleton, List.length_replicate]; omega) h3
  have hbytes : 32 :: List.replicate blanks 32 ++ c :: text =
      [32] ++ (List.replicate blanks 32 ++ ([c] ++ text)) := rfl
  have hlen : len + (32 :: List.replicate blanks (32 : UInt8) ++ c :: text).length =
      len + 1 + 1 * blanks + 1 + 1 * text.length := by
    simp only [List.cons_append, List.length_cons, List.length_append, List.length_replicate]
    omega
  rw [hlen, hbytes, parseLoop_append, parseLoop_append, parseLoop_append]
  simpa only [List.append_assoc] using h4

/-- The three parts of a time with the blanks between them, one more than the numbers given. -/
def timeText (part1 part2 part3 : Bytes) (blanks2 blanks3 : Nat) : Bytes :=
  part1 ++ (32 :: List.replicate blanks2 32 ++ part2) ++ (32 :: List.replicate blanks3 32 ++ part3)

theorem time_field (blanks blanks2 blanks3 : Nat) {part1 part2 part3 : Bytes}
    (h1 : TimePart part1) (h2 : TimePart part2) (h3 : TimePart3 part3)
    (hfits : buf.length + blanks + (timeText part1 part2 part3 blanks2 blanks3).length + 2 ≤
      maxFtplistBuffer)
    (hfile : info.filetype ≠ .symlink)
    (h : p.UnixAt (.time .prepart1) off len buf info offs files) :
    (parseLoop compare p (List.replicate blanks 32 ++
      timeText part1 part2 part3 blanks2 blanks3 ++ [32])).UnixAt (.filename .prespace)
      (buf.length + blanks) ((timeText part1 part2 part3 blanks2 blanks3).length + 1)
      (buf ++ List.replicate blanks 32 ++ timeText part1 part2 part3 blanks2 blanks3 ++ [0]) info
      { offs with time := buf.length + blanks } files := by
  obtain ⟨c1, r1, rfl, hc1, hr1⟩ := h1
  obtain ⟨c2, r2, rfl, hc2, hr2⟩ := h2
  obtain ⟨c3, r3, rfl, hc3, hr3⟩ := h3
  simp only [timeText, List.length_append, List.length_cons, List.length_replicate,
    List.cons_append] at hfits
  have hpart {c : UInt8} (hc : Parsedate.isAlnum c = true ∨ c = 46) :
      c ≠ 32 ∧ (Parsedate.isAlnum c = true ∨ c = 46) := by
    refine ⟨?_, hc⟩
    rintro rfl
    rcases hc with hc | hc <;> cases hc
  have hpart3 {c : UInt8} (hc : Parsedate.isAlnum c = true ∨ c = 46 ∨ c = 58) :
      c ≠ 32 ∧ (Parsedate.isAlnum c = true ∨ c = 46 ∨ c = 58) := by
    refine ⟨?_, hc⟩
    rintro rfl
    rcases hc with hc | hc | hc <;> cases hc
  have g1 : (parseLoop compare p (List.replicate blanks 32 ++ c1 :: r1)).UnixAt (.time .part1)
      (buf.length + blanks) (r1.length + 1) (buf ++ List.replicate blanks 32 ++ c1 :: r1) info offs
      files :=
    At.item (.time .part1) .date (fun c => Parsedate.isAlnum c = true)
      (fun c => Parsedate.isAlnum c = true ∨ c = 46) rfl
      (fun {_ _ buf c _} hc => by
        simp [parseChar, parseUnix, parseUnixTime, alnum_ne_blank hc, hc])
      (fun {_ _ buf c _} hc => by
        obtain ⟨hne, hc | rfl⟩ := hpart hc <;> simp [parseChar, parseUnix, parseUnixTime, *])
      blanks hr1 hc1 (by omega) h
  have g2 := At.word compare (.time .prepart2) (.time .part2)
    (fun c => Parsedate.isAlnum c = true ∨ c = 46) (fun {_ _ _} => rfl) (fun {_ _ _} => rfl)
    (fun {_ buf c _} hc => by simp [parseChar, parseUnix, parseUnixTime, alnum_ne_blank hc, hc])
    (fun {_ buf c _} hc => by
      obtain ⟨hne, hc | rfl⟩ := hpart hc <;> simp [parseChar, parseUnix, parseUnixTime, *])
    blanks2 hc2 hr2
    (by simp only [List.length_append, List.length_replicate, List.length_cons]; omega) g1
  have g3 := At.word compare (.time .prepart3) (.time .part3)
    (fun c => Parsedate.isAlnum c = true ∨ c = 46 ∨ c = 58) (fun {_ _ _} => rfl)
      (fun {_ _ _} => rfl)
    (fun {_ buf c _} hc => by simp [parseChar, parseUnix, parseUnixTime, alnum_ne_blank hc, hc])
    (fun {_ buf c _} hc => by
      obtain ⟨hne, hc | rfl | rfl⟩ := hpart3 hc <;> simp [parseChar, parseUnix, parseUnixTime, *])
    blanks3 hc3 hr3
    (by
      simp only [List.length_append, List.length_replicate, List.length_cons, List.cons_append]
      omega) g2
  rw [← parseLoop_append, ← parseLoop_append] at g3
  have hlen : r1.length + 1 + (32 :: List.replicate blanks2 (32 : UInt8) ++ c2 :: r2).length +
      (32 :: List.replicate blanks3 (32 : UInt8) ++ c3 :: r3).length =
      (timeText (c1 :: r1) (c2 :: r2) (c3 :: r3) blanks2 blanks3).length := by
    simp only [timeText, List.length_append, List.length_cons]
  have hbuf (pre : Bytes) : pre ++ c1 :: r1 ++ (32 :: List.replicate blanks2 32 ++ c2 :: r2) ++
      (32 :: List.replicate blanks3 32 ++ c3 :: r3) =
      pre ++ timeText (c1 :: r1) (c2 :: r2) (c3 :: r3) blanks2 blanks3 := by
    simp only [timeText, List.append_assoc]
  rw [← List.append_assoc, hlen, hbuf, hbuf] at g3
  rw [parseLoop_append]
  refine At.byte (fun w => ?_) ?_ g3
  · simp only [parseChar, parseUnix, parseUnixTime, Parser.terminate, if_true, set_text,
      if_neg hfile]
    exact ⟨_, rfl⟩
  · simp only [timeText, List.length_append, List.length_cons, List.length_replicate,
      List.cons_append]
    omega

/-- The character of a file type; `unix_filetype` the other way round. -/
def Filetype.char : Filetype → UInt8
  | .file => 45
  | .directory => 100
  | .symlink => 108
  | .deviceBlock => 98
  | .deviceChar => 99
  | .namedpipe => 112
  | .socket => 115
  | .door => 68

/-- Before a line, where the offsets are those of the line before. -/
def Parser.UnixBetween (p : Parser) (files : List File) : Prop :=
  ∃ unix buf info len off offs w, (unix = .totalsize .init ∨ unix = .filetype) ∧
    p = ⟨.unix, unix, .date, .ok, false, buf, info, len, off, offs, files, w⟩

theorem filetype_field (filetype : Filetype) (h : p.UnixBetween files) :
    ∃ offs, (parseLoop compare p [filetype.char]).UnixAt .permission 1 0 [filetype.char]
      { filetype } offs files := by
  obtain ⟨unix, buf, info, len, off, offs, w, hunix, rfl⟩ := h
  refine ⟨offs, w, ?_⟩
  rcases hunix with rfl | rfl <;> cases filetype <;> rfl

/-- Who may do what in a class of `rwx` letters. -/
structure Access where
  read : Bool
  write : Bool
  exec : Bool
  /-- The bit that the third letter tells of as well. -/
  special : Bool

/-- `both` and `only` are the letters of the bit with and without `x`. -/
def Access.text (a : Access) (both only : UInt8) : Bytes :=
  [if a.read then 114 else 45, if a.write then 119 else 45,
    if a.exec then (if a.special then both else 120) else (if a.special then only else 45)]

structure Mode where
  user : Access
  group : Access
  other : Access

/-- Nine letters, as in `rwxr-sr-t`. -/
def Mode.text (m : Mode) : Bytes :=
  m.user.text 115 83 ++ m.group.text 115 83 ++ m.other.text 116 84

def bit (b : Bool) (i : Nat) : Nat := b.toNat <<< i

/-- The bits of a class whose `x` is the bit `i`. -/
def Access.bits (a : Access) (i special : Nat) : Nat :=
  bit a.read (i + 2) ||| bit a.write (i + 1) ||| (bit a.exec i ||| bit a.special special)

/-- As in `st_mode`. -/
def Mode.bits (m : Mode) : Nat := m.user.bits 6 11 ||| m.group.bits 3 10 ||| m.other.bits 0 9

theorem permBit_text (b : Bool) {c : UInt8} (hc : c ≠ 45) (i : Nat) :
    permBit (if b then c else 45) c i = bit b i := by
  cases b <;> simp [permBit, bit, hc.symm]

theorem permExec_text (exec special : Bool) {both only : UInt8} (hboth : both ≠ 120)
    (honly : only ≠ 120) (hne : only ≠ both) (hb : both ≠ 45) (ho : only ≠ 45) (i k : Nat) :
    permExec (if exec then (if special then both else 120) else (if special then only else 45))
      both only i k = bit exec i ||| bit special k := by
  cases exec <;> cases special <;> simp [permExec, bit, hboth, honly, hne, hb.symm, ho.symm]

theorem ftpPlGetPermission_text (m : Mode) (rest : Bytes) :
    ftpPlGetPermission (m.text ++ rest) = m.bits := by
  simp only [ftpPlGetPermission, Mode.text, Access.text, List.cons_append, List.nil_append,
    List.getD_cons_zero, List.getD_cons_succ]
  rw [permBit_text _ (by decide), permBit_text _ (by decide), permBit_text _ (by decide),
    permBit_text _ (by decide), permBit_text _ (by decide), permBit_text _ (by decide),
    permExec_text _ _ (by decide) (by decide) (by decide) (by decide) (by decide),
    permExec_text _ _ (by decide) (by decide) (by decide) (by decide) (by decide),
    permExec_text _ _ (by decide) (by decide) (by decide) (by decide) (by decide)]
  simp only [Mode.bits, Access.bits, Nat.or_assoc]

theorem bit_wellformed (b : Bool) {i : Nat} (h : i < 24) : bit b i &&& 0x01000000 = 0 := by
  interval_cases i <;> cases b <;> rfl

theorem access_wellformed (a : Access) {i k : Nat} (hi : i < 22) (hk : k < 24) :
    a.bits i k &&& 0x01000000 = 0 := by
  simp only [Access.bits, Nat.and_or_distrib_right]
  rw [bit_wellformed _ (by omega), bit_wellformed _ (by omega), bit_wellformed _ (by omega),
    bit_wellformed _ hk]
  rfl

theorem bits_wellformed (m : Mode) : m.bits &&& 0x01000000 = 0 := by
  simp only [Mode.bits, Nat.and_or_distrib_right]
  rw [access_wellformed _ (by omega) (by omega), access_wellformed _ (by omega) (by omega),
    access_wellformed _ (by omega) (by omega)]
  rfl

theorem Access.strchr_text (a : Access) {both only : UInt8}
    (hboth : strchr "rwx-tTsS" both = true) (honly : strchr "rwx-tTsS" only = true) :
    ∀ c ∈ a.text both only, strchr "rwx-tTsS" c = true := by
  obtain ⟨read, write, exec, special⟩ := a
  intro c hc
  simp only [Access.text, List.mem_cons, List.not_mem_nil, or_false] at hc
  rcases hc with rfl | rfl | rfl
  · cases read <;> rfl
  · cases write <;> rfl
  · cases exec <;> cases special <;> first | assumption | rfl

theorem Mode.strchr_text (m : Mode) : ∀ c ∈ m.text, strchr "rwx-tTsS" c = true := by
  intro c hc
  simp only [Mode.text, List.mem_append] at hc
  rcases hc with (hc | hc) | hc
  · exact m.user.strchr_text (by decide) (by decide) c hc
  · exact m.group.strchr_text (by decide) (by decide) c hc
  · exact m.other.strchr_text (by decide) (by decide) c hc

theorem permission_run {text : Bytes} (htext : ∀ c ∈ text, strchr "rwx-tTsS" c = true)
    (hlen : len + text.length ≤ 9) (hfits : buf.length + text.length + 1 ≤ maxFtplistBuffer)
    (h : p.UnixAt .permission off len buf info offs files) :
    (parseLoop compare p text).UnixAt .permission off (len + text.length) (buf ++ text) info offs
      files := by
  induction text generalizing p len buf with
  | nil => simpa [parseLoop] using h
  | cons c rest ih =>
    rw [List.length_cons] at hlen hfits
    have hc := htext c List.mem_cons_self
    have hbyte : (parseLoop compare p [c]).UnixAt .permission off (len + 1) (buf ++ [c]) info offs
        files := by
      refine At.byte (fun w => ⟨w, ?_⟩) (by omega) h
      have hlen10 : len + 1 ≠ 10 := by omega
      simp [parseChar, parseUnix, parseUnixPermission, hc, hlen10]
    have hrest := ih (fun x hx => htext x (List.mem_cons_of_mem _ hx)) (by omega)
      (by rw [List.length_append, List.length_singleton]; omega) hbyte
    rw [← parseLoop_append, List.append_assoc, List.singleton_append] at hrest
    rw [List.length_cons, Nat.add_comm rest.length, ← Nat.add_assoc]
    exact hrest

theorem permission_field (m : Mode) {t : UInt8} (h : p.UnixAt .permission 1 0 [t] info offs files) :
    (parseLoop compare p (m.text ++ [32])).UnixAt (.hlinks .prespace) 1 0 ([t] ++ m.text ++ [0])
      { info with knownPerm := true, perm := m.bits } { offs with perm := 1 } files := by
  have hlen : m.text.length = 9 := rfl
  have hperm : (parseLoop compare p m.text).UnixAt .permission 1 (0 + m.text.length) ([t] ++ m.text)
      info offs files :=
    permission_run compare m.strchr_text (by rw [hlen])
      (by rw [hlen]; exact (by decide : 11 ≤ 10000)) h
  have hset : ([t] ++ m.text ++ [32]).set 10 0 = [t] ++ m.text ++ [0] := rfl
  have hbits : ftpPlGetPermission (([t] ++ m.text ++ [0]).drop 1) = m.bits :=
    ftpPlGetPermission_text m [0]
  rw [parseLoop_append]
  refine At.byte (fun w => ?_) ?_ hperm
  · simp only [parseChar, parseUnix, parseUnixPermission, Parser.terminate, hlen, hset, hbits,
      bits_wellformed]
    exact ⟨_, rfl⟩
  · rw [List.length_append, hlen]
    exact (by decide : 12 ≤ 10000)

/-- The end of a line. -/
inductive Eol | lf | crlf

def Eol.bytes : Eol → Bytes
  | .lf => [10]
  | .crlf => [13, 10]

/-- The entry is put into the list behind its line. -/
theorem name_field (blanks : Nat) (eol : Eol) {c : UInt8} {text : Bytes} (hc : c ≠ 32)
    (htext : ∀ x ∈ text, x ≠ 13 ∧ x ≠ 10)
    (hfits : buf.length + blanks + (c :: text).length + eol.bytes.length + 1 ≤ maxFtplistBuffer)
    (h : p.UnixAt (.filename .prespace) off len buf info offs files) :
    ∃ rest len w, parseLoop compare p (List.replicate blanks 32 ++ c :: text ++ eol.bytes) =
      ftpPlInsertFinfo compare ⟨.unix, .filetype, .date, .ok, true,
        buf ++ List.replicate blanks 32 ++ c :: text ++ 0 :: rest, info, len, buf.length + blanks,
        { offs with filename := buf.length + blanks }, files, w⟩ := by
  rw [List.length_cons] at hfits
  have hpos : 1 ≤ eol.bytes.length := by cases eol <;> decide
  have hname : (parseLoop compare p (List.replicate blanks 32 ++ c :: text)).UnixAt
      (.filename .name) (buf.length + blanks) (text.length + 1)
      (buf ++ List.replicate blanks 32 ++ c :: text) info offs files :=
    At.item (.filename .name) .date (fun c => c ≠ 32) (fun c => c ≠ 13 ∧ c ≠ 10) rfl
      (fun {_ _ buf c _} hc => by simp [parseChar, parseUnix, parseUnixFilename, hc])
      (fun {_ _ buf c _} hc => by simp [parseChar, parseUnix, parseUnixFilename, hc])
      blanks htext hc (by omega) h
  have hbuf : (buf ++ List.replicate blanks 32 ++ c :: text).length =
      buf.length + blanks + text.length + 1 := by
    simp only [List.length_append, List.length_replicate, List.length_cons]
    omega
  obtain ⟨w, heq⟩ := hname
  rw [parseLoop_append, heq]
  cases eol with
  | lf =>
    have hlf : parseChar compare ⟨.unix, .filename .name, .date, .ok, true,
        buf ++ List.replicate blanks 32 ++ c :: text ++ [10], info, text.length + 1,
        buf.length + blanks, offs, files, w⟩ 10 = (.ok, filenameDone compare
          ⟨.unix, .filename .name, .date, .ok, true,
            buf ++ List.replicate blanks 32 ++ c :: text ++ [10], info, text.length + 1 + 1,
            buf.length + blanks, offs, files, w⟩) := rfl
    rw [Eol.bytes, parseLoop_byte [] (by rw [hbuf]; omega) hlf]
    simp only [parseLoop, filenameDone, Parser.terminate, set_end]
    exact ⟨_, _, _, rfl⟩
  | crlf =>
    have hcr : parseChar compare ⟨.unix, .filename .name, .date, .ok, true,
        buf ++ List.replicate blanks 32 ++ c :: text ++ [13], info, text.length + 1,
        buf.length + blanks, offs, files, w⟩ 13 = (.ok,
          ⟨.unix, .filename .windowseol, .date, .ok, true,
            buf ++ List.replicate blanks 32 ++ c :: text ++ [13], info, text.length + 1 + 1,
            buf.length + blanks, offs, files, w⟩) := rfl
    have hlf : parseChar compare ⟨.unix, .filename .windowseol, .date, .ok, true,
        buf ++ List.replicate blanks 32 ++ c :: text ++ [13] ++ [10], info, text.length + 1 + 1,
        buf.length + blanks, offs, files, w⟩ 10 = (.ok, filenameDone compare
          ⟨.unix, .filename .windowseol, .date, .ok, true,
            buf ++ List.replicate blanks 32 ++ c :: text ++ [13] ++ [10], info, text.length + 1 + 1,
            buf.length + blanks, offs, files, w⟩) := rfl
    have htwo : Eol.crlf.bytes.length = 2 := rfl
    rw [Eol.bytes, parseLoop_byte [10] (by rw [hbuf]; omega) hcr, parseLoop_byte [] ?_ hlf]
    · rw [List.append_assoc _ [13], List.singleton_append]
      simp only [parseLoop, filenameDone, Parser.terminate, set_end]
      exact ⟨_, _, _, rfl⟩
    · rw [List.length_append, hbuf, List.length_singleton]
      omega

end

end Gurl.Ftplist
