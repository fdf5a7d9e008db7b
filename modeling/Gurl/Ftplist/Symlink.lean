import Gurl.Ftplist.Total

/-! Symbolic links in a Unix listing: where `parse_unix_symlink` finds the end of the name. -/

namespace Gurl.Ftplist

open Strparse

/-- The separator of a name and its target. -/
def arrow : Bytes := [32, 45, 62, 32]

/-- A text that the search for the separator passes, and is back in its start state: bytes that are
no blanks, and parts of a separator with the byte that breaks it. That byte is not looked at
again. -/
inductive Settled : Bytes → Prop
  | nil : Settled []
  | byte {c : UInt8} {rest : Bytes} : c ≠ 32 → Settled rest → Settled (c :: rest)
  | blank {c : UInt8} {rest : Bytes} : c ≠ 45 → Settled rest → Settled (32 :: c :: rest)
  | dash {c : UInt8} {rest : Bytes} : c ≠ 62 → Settled rest → Settled (32 :: 45 :: c :: rest)
  | head {c : UInt8} {rest : Bytes} : c ≠ 32 → Settled rest →
      Settled (32 :: 45 :: 62 :: c :: rest)

theorem Settled.append {a b : Bytes} (ha : Settled a) (hb : Settled b) : Settled (a ++ b) := by
  induction ha with
  | nil => exact hb
  | byte hc _ ih => exact .byte hc ih
  | blank hc _ ih => exact .blank hc ih
  | dash hc _ ih => exact .dash hc ih
  | head hc _ ih => exact .head hc ih

/-- A text without a separator is settled up to a part of a separator at its end. -/
def Unsettled (text : Bytes) : Prop :=
  ∃ settled part, text = settled ++ part ∧ Settled settled ∧
    (part = [] ∨ part = [32] ∨ part = [32, 45] ∨ part = [32, 45, 62])

theorem Unsettled.settled {text : Bytes} (h : Settled text) : Unsettled text :=
  ⟨text, [], (List.append_nil text).symm, h, .inl rfl⟩

/-- One byte more, which does not complete a separator. -/
theorem Unsettled.snoc {text : Bytes} {c : UInt8} (hopen : ¬arrow <:+ text ++ [c]) :
    Unsettled text → Unsettled (text ++ [c]) := by
  rintro ⟨settled, part, rfl, hsettled, hpart⟩
  rw [List.append_assoc] at hopen ⊢
  rcases hpart with rfl | rfl | rfl | rfl
  · by_cases hc : c = 32
    · exact ⟨settled, [32], by rw [hc]; rfl, hsettled, .inr (.inl rfl)⟩
    · exact .settled (hsettled.append (.byte hc .nil))
  · by_cases hc : c = 45
    · exact ⟨settled, [32, 45], by rw [hc]; rfl, hsettled, .inr (.inr (.inl rfl))⟩
    · exact .settled (hsettled.append (.blank hc .nil))
  · by_cases hc : c = 62
    · exact ⟨settled, [32, 45, 62], by rw [hc]; rfl, hsettled, .inr (.inr (.inr rfl))⟩
    · exact .settled (hsettled.append (.dash hc .nil))
  · have hc : c ≠ 32 := by
      rintro rfl
      exact hopen (List.suffix_append settled arrow)
    exact .settled (hsettled.append (.head hc .nil))

theorem unsettled_of_no_arrow (text : Bytes) (h : ¬arrow <:+: text) : Unsettled text := by
  induction text using List.reverseRecOn with
  | nil => exact .settled .nil
  | append_singleton text c ih =>
    have htext : ¬arrow <:+: text :=
      fun hin => h (hin.trans (List.prefix_append text [c]).isInfix)
    exact (ih htext).snoc fun hin => h hin.isInfix

/-- The states of `parse_unix_symlink` in a name. -/
def Symlink.InName (sub : Symlink) : Prop :=
  sub = .name ∨ sub = .pretarget1 ∨ sub = .pretarget2 ∨ sub = .pretarget3

/-- Where a byte leads that neither ends the line nor completes the separator. -/
def Symlink.next : Symlink → UInt8 → Symlink
  | .name, c => if c = 32 then .pretarget1 else .name
  | .pretarget1, c => if c = 45 then .pretarget2 else .name
  | .pretarget2, c => if c = 62 then .pretarget3 else .name
  | _, _ => .name

section
variable (compare : Bytes → Bool) {p : Parser} {sub : Symlink} {off len : Nat}
  {buf : Bytes} {info : Finfo} {offs : Offsets} {files : List File} {c : UInt8}
  {text : Bytes}

theorem link_byte (hsub : sub.InName) (hc : c ≠ 13 ∧ c ≠ 10) (hopen : sub = .pretarget3 → c ≠ 32)
    (hfits : buf.length + 2 ≤ maxFtplistBuffer)
    (h : p.UnixAt (.symlink sub) off len buf info offs files) :
    (parseLoop compare p [c]).UnixAt (.symlink (sub.next c)) off (len + 1) (buf ++ [c]) info offs
      files := by
  refine At.byte (fun w => ⟨w, ?_⟩) hfits h
  rcases hsub with rfl | rfl | rfl | rfl
  · simp only [parseChar, parseUnix, parseUnixSymlink, symlinkNext, Symlink.next]
    split_ifs <;> simp_all
  · simp only [parseChar, parseUnix, parseUnixSymlink, symlinkNext, Symlink.next]
    split_ifs <;> simp_all
  · simp only [parseChar, parseUnix, parseUnixSymlink, symlinkNext, Symlink.next]
    split_ifs <;> simp_all
  · simp only [parseChar, parseUnix, parseUnixSymlink, symlinkNext, Symlink.next]
    rw [if_neg (hopen rfl), if_neg (hopen rfl), if_neg (by simp [hc])]

/-- The end of the line in a name or right behind the separator is an error. -/
theorem link_cut (hsub : sub.InName ∨ sub = .pretarget4) (hc : c = 13 ∨ c = 10) (rest : Bytes)
    (h : p.UnixAt (.symlink sub) off len buf info offs files) :
    (parseLoop compare p (c :: rest)).error ≠ .ok := by
  obtain ⟨w, rfl⟩ := h
  have hbyte : (parseByte compare
      ⟨.unix, .symlink sub, .date, .ok, true, buf, info, len, off, offs, files, w⟩ c).error ≠
        .ok := by
    simp only [parseByte, Parser.alloc, if_true]
    split
    · simp [Parser.fail]
    · rcases hc with rfl | rfl <;> rcases hsub with (rfl | rfl | rfl | rfl) | rfl <;>
        simp [parseChar, parseUnix, parseUnixSymlink, symlinkNext, Parser.fail]
  rw [parseLoop, if_neg (by simp), parseLoop_stopped compare _ hbyte]
  exact hbyte

/-- Over settled text the search stays in its start state. -/
theorem settled_run (htext : Settled text) (hline : ∀ c ∈ text, c ≠ 13 ∧ c ≠ 10)
    (hfits : buf.length + text.length + 1 ≤ maxFtplistBuffer)
    (h : p.UnixAt (.symlink .name) off len buf info offs files) :
    (parseLoop compare p text).UnixAt (.symlink .name) off (len + text.length) (buf ++ text) info
      offs files := by
  induction htext generalizing p len buf with
  | nil => simpa [parseLoop] using h
  | @byte c rest hc _ ih =>
    simp only [List.forall_mem_cons, List.length_cons] at hline hfits
    have h1 := link_byte compare (c := c) (.inl rfl) hline.1 (by simp) (by omega) h
    have hnext : Symlink.name.next c = .name := if_neg hc
    rw [hnext] at h1
    have h2 := ih hline.2 (by simp only [List.length_append, List.length_singleton]; omega) h1
    rw [← parseLoop_append] at h2
    simpa [Nat.add_comm, Nat.add_left_comm] using h2
  | @blank c rest hc _ ih =>
    simp only [List.forall_mem_cons, List.length_cons] at hline hfits
    have h1 := link_byte compare (c := 32) (.inl rfl) hline.1 (by simp) (by omega) h
    have h2 := link_byte compare (c := c) (.inr (.inl rfl)) hline.2.1 (by simp)
      (by simp only [List.length_append, List.length_singleton]; omega) h1
    have hnext : Symlink.pretarget1.next c = .name := if_neg hc
    rw [hnext] at h2
    have h3 := ih hline.2.2 (by simp only [List.length_append, List.length_singleton]; omega) h2
    rw [← parseLoop_append, ← parseLoop_append] at h3
    simpa [Nat.add_comm, Nat.add_left_comm] using h3
  | @dash c rest hc _ ih =>
    simp only [List.forall_mem_cons, List.length_cons] at hline hfits
    have h1 := link_byte compare (c := 32) (.inl rfl) hline.1 (by simp) (by omega) h
    have h2 := link_byte compare (c := 45) (.inr (.inl rfl)) hline.2.1 (by simp)
      (by simp only [List.length_append, List.length_singleton]; omega) h1
    have h3 := link_byte compare (c := c) (.inr (.inr (.inl rfl))) hline.2.2.1 (by simp)
      (by simp only [List.length_append, List.length_singleton]; omega) h2
    have hnext : Symlink.pretarget2.next c = .name := if_neg hc
    rw [hnext] at h3
    have h4 := ih hline.2.2.2 (by simp only [List.length_append, List.length_singleton]; omega) h3
    rw [← parseLoop_append, ← parseLoop_append, ← parseLoop_append] at h4
    simpa [Nat.add_comm, Nat.add_left_comm] using h4
  | @head c rest hc _ ih =>
    simp only [List.forall_mem_cons, List.length_cons] at hline hfits
    have h1 := link_byte compare (c := 32) (.inl rfl) hline.1 (by simp) (by omega) h
    have h2 := link_byte compare (c := 45) (.inr (.inl rfl)) hline.2.1 (by simp)
      (by simp only [List.length_append, List.length_singleton]; omega) h1
    have h3 := link_byte compare (c := 62) (.inr (.inr (.inl rfl))) hline.2.2.1 (by simp)
      (by simp only [List.length_append, List.length_singleton]; omega) h2
    have h4 := link_byte compare (c := c) (.inr (.inr (.inr rfl))) hline.2.2.2.1 (fun _ => hc)
      (by simp only [List.length_append, List.length_singleton]; omega) h3
    have h5 := ih hline.2.2.2.2 (by simp only [List.length_append, List.length_singleton]; omega) h4
    rw [← parseLoop_append, ← parseLoop_append, ← parseLoop_append, ← parseLoop_append] at h5
    simpa [Nat.add_comm, Nat.add_left_comm] using h5

/-- A part of a separator that is broken off. -/
theorem part_run {part : Bytes}
    (hpart : part = [] ∨ part = [32] ∨ part = [32, 45] ∨ part = [32, 45, 62])
    (hfits : buf.length + part.length + 1 ≤ maxFtplistBuffer)
    (h : p.UnixAt (.symlink .name) off len buf info offs files) :
    ∃ sub len', sub.InName ∧
      (parseLoop compare p part).UnixAt (.symlink sub) off len' (buf ++ part) info offs files := by
  have h1 (hroom : buf.length + 2 ≤ maxFtplistBuffer) :=
    link_byte compare (c := 32) (.inl rfl) (by decide) nofun hroom h
  have h2 (hroom : buf.length + 3 ≤ maxFtplistBuffer) :=
    link_byte compare (c := 45) (.inr (.inl rfl)) (by decide) nofun
      (by simp only [List.length_append, List.length_singleton]; omega) (h1 (by omega))
  have h3 (hroom : buf.length + 4 ≤ maxFtplistBuffer) :=
    link_byte compare (c := 62) (.inr (.inr (.inl rfl))) (by decide) nofun
      (by simp only [List.length_append, List.length_singleton]; omega) (h2 (by omega))
  rcases hpart with rfl | rfl | rfl | rfl
  · exact ⟨.name, len, .inl rfl, by simpa [parseLoop] using h⟩
  · exact ⟨_, _, .inr (.inl rfl), h1 hfits⟩
  · have h2 := h2 hfits
    rw [← parseLoop_append, List.append_assoc] at h2
    exact ⟨_, _, .inr (.inr (.inl rfl)), h2⟩
  · have h3 := h3 hfits
    rw [← parseLoop_append, ← parseLoop_append, List.append_assoc, List.append_assoc] at h3
    exact ⟨_, _, .inr (.inr (.inr rfl)), h3⟩

/-- Blanks and a settled name behind them. -/
theorem settled_name (blanks : Nat) (hc : c ≠ 32) (htext : Settled text)
    (hline : ∀ x ∈ c :: text, x ≠ 13 ∧ x ≠ 10)
    (hfits : buf.length + blanks + (c :: text).length + 1 ≤ maxFtplistBuffer)
    (h : p.UnixAt (.symlink .prespace) off len buf info offs files) :
    (parseLoop compare p (List.replicate blanks 32 ++ c :: text)).UnixAt (.symlink .name)
      (buf.length + blanks) (1 + text.length) (buf ++ List.replicate blanks 32 ++ c :: text) info
      offs files := by
  obtain ⟨-, hrest⟩ := List.forall_mem_cons.mp hline
  rw [List.length_cons] at hfits
  have hfirst : (parseLoop compare p (List.replicate blanks 32 ++ [c])).UnixAt (.symlink .name)
      (buf.length + blanks) 1 (buf ++ List.replicate blanks 32 ++ [c]) info offs files :=
    At.item (.symlink .name) .date (fun c => c ≠ 32) (fun _ => False) rfl
      (fun {_ _ buf c _} hc => by simp [parseChar, parseUnix, parseUnixSymlink, hc])
      (fun h => h.elim) blanks (by simp) hc (by simp only [List.length_nil]; omega) h
  have hbuf : (buf ++ List.replicate blanks 32 ++ [c]).length = buf.length + blanks + 1 := by
    simp only [List.length_append, List.length_replicate, List.length_singleton]
  have hname := settled_run compare htext hrest (by rw [hbuf]; omega) hfirst
  rwa [← parseLoop_append, List.append_assoc, List.singleton_append, List.append_assoc _ [c],
    List.singleton_append] at hname

/-- The name up to the separator, which ends it in the buffer. -/
theorem name_run (blanks : Nat) (hc : c ≠ 32) (htext : Settled text)
    (hline : ∀ x ∈ c :: text, x ≠ 13 ∧ x ≠ 10)
    (hfits : buf.length + blanks + (c :: text).length + 5 ≤ maxFtplistBuffer)
    (h : p.UnixAt (.symlink .prespace) off len buf info offs files) :
    (parseLoop compare p (List.replicate blanks 32 ++ c :: text ++ arrow)).UnixAt
      (.symlink .pretarget4) 0 0
      (buf ++ List.replicate blanks 32 ++ c :: text ++ [0, 45, 62, 32]) info
      { offs with filename := buf.length + blanks } files := by
  have hname := settled_name compare blanks hc htext hline (by omega) h
  rw [List.length_cons] at hfits
  have hbuf : (buf ++ List.replicate blanks 32 ++ c :: text).length =
      buf.length + blanks + (text.length + 1) := by
    simp only [List.length_append, List.length_replicate, List.length_cons]
  have h1 := link_byte compare (c := 32) (.inl rfl) (by decide) nofun (by rw [hbuf]; omega) hname
  have h2 := link_byte compare (c := 45) (.inr (.inl rfl)) (by decide) nofun
    (by rw [List.length_append, hbuf, List.length_singleton]; omega) h1
  have h3 := link_byte compare (c := 62) (.inr (.inr (.inl rfl))) (by decide) nofun
    (by rw [List.length_append, List.length_append, hbuf, List.length_singleton,
      List.length_singleton]; omega) h2
  have hlen : (buf ++ List.replicate blanks 32 ++ c :: text ++ [32] ++ [45] ++ [62] ++ [32]).set
      (buf.length + blanks + (1 + text.length + 1 + 1 + 1 + 1) - 4) 0 =
        buf ++ List.replicate blanks 32 ++ c :: text ++ [0, 45, 62, 32] := by
    have hi : buf.length + blanks + (1 + text.length + 1 + 1 + 1 + 1) - 4 =
        (buf ++ List.replicate blanks 32 ++ c :: text).length := by
      rw [hbuf]
      omega
    rw [hi]
    simp [List.append_assoc]
  have hmerge : parseLoop compare p (List.replicate blanks 32 ++ c :: text ++ arrow) =
      parseLoop compare
        (parseLoop compare (parseLoop compare (parseLoop compare (parseLoop compare p
        (List.replicate blanks 32 ++ c :: text)) [32]) [45]) [62]) [32] := by
    rw [← parseLoop_append, ← parseLoop_append, ← parseLoop_append, ← parseLoop_append]
    simp [arrow]
  rw [hmerge]
  refine At.byte (fun w => ?_) ?_ h3
  · simp only [Symlink.next, if_true, parseChar, parseUnix, parseUnixSymlink, Parser.terminate,
      hlen]
    exact ⟨_, rfl⟩
  · simp only [List.length_append, List.length_singleton, hbuf] at hbuf ⊢
    omega

/-- The target up to the end of the line. -/
theorem target_run (eol : Eol) (hline : ∀ x ∈ c :: text, x ≠ 13 ∧ x ≠ 10)
    (hfits : buf.length + (c :: text).length + eol.bytes.length + 1 ≤ maxFtplistBuffer)
    (h : p.UnixAt (.symlink .pretarget4) off len buf info offs files) :
    ∃ rest len w, parseLoop compare p (c :: text ++ eol.bytes) =
      ftpPlInsertFinfo compare ⟨.unix, .filetype, .date, .ok, true, buf ++ c :: text ++ 0 :: rest,
        info, len, buf.length, { offs with symlinkTarget := buf.length }, files, w⟩ := by
  obtain ⟨hc, hrest⟩ := List.forall_mem_cons.mp hline
  rw [List.length_cons] at hfits
  have hpos : 1 ≤ eol.bytes.length := by cases eol <;> decide
  have hfirst : (parseLoop compare p [c]).UnixAt (.symlink .target) buf.length 1 (buf ++ [c]) info
      offs files := by
    refine At.byte (fun w => ⟨w, ?_⟩) (by omega) h
    simp [parseChar, parseUnix, parseUnixSymlink, hc]
  have htarget : (parseLoop compare (parseLoop compare p [c]) text).UnixAt (.symlink .target)
      buf.length (1 + 1 * text.length) (buf ++ [c] ++ text) info offs files :=
    At.run (P := fun c => c ≠ 13 ∧ c ≠ 10)
      (fun {_ buf c _} hc => by simp [parseChar, parseUnix, parseUnixSymlink, hc]) hrest
      (by simp only [List.length_append, List.length_singleton]; omega) hfirst
  rw [← parseLoop_append, List.append_assoc buf, List.singleton_append, Nat.one_mul,
    Nat.add_comm 1] at htarget
  have hset (e : UInt8) (rest : Bytes) : (buf ++ c :: text ++ e :: rest).set
      (buf.length + (text.length + 1 + 1) - 1) 0 = buf ++ c :: text ++ 0 :: rest := by
    have htext := set_text buf 0 (c :: text) e rest
    rwa [List.replicate_zero, List.append_nil, Nat.add_zero] at htext
  obtain ⟨w, heq⟩ := htarget
  rw [parseLoop_append, heq]
  cases eol with
  | lf =>
    have hlf : parseChar compare ⟨.unix, .symlink .target, .date, .ok, true,
        buf ++ c :: text ++ [10], info, text.length + 1, buf.length, offs, files, w⟩ 10 = (.ok,
          targetDone compare ⟨.unix, .symlink .target, .date, .ok, true, buf ++ c :: text ++ [10],
            info, text.length + 1 + 1, buf.length, offs, files, w⟩) := rfl
    rw [Eol.bytes, parseLoop_byte [] ?_ hlf]
    · simp only [parseLoop, targetDone, Parser.terminate, hset]
      exact ⟨_, _, _, rfl⟩
    · simp only [List.length_append, List.length_cons]
      omega
  | crlf =>
    have hcr : parseChar compare ⟨.unix, .symlink .target, .date, .ok, true,
        buf ++ c :: text ++ [13], info, text.length + 1, buf.length, offs, files, w⟩ 13 = (.ok,
          ⟨.unix, .symlink .windowseol, .date, .ok, true, buf ++ c :: text ++ [13], info,
            text.length + 1 + 1, buf.length, offs, files, w⟩) := rfl
    have hlf : parseChar compare ⟨.unix, .symlink .windowseol, .date, .ok, true,
        buf ++ c :: text ++ [13] ++ [10], info, text.length + 1 + 1, buf.length, offs,
          files, w⟩ 10 = (.ok, targetDone compare ⟨.unix, .symlink .windowseol, .date, .ok, true,
            buf ++ c :: text ++ [13] ++ [10], info, text.length + 1 + 1, buf.length, offs, files,
            w⟩) := rfl
    have htwo : Eol.crlf.bytes.length = 2 := rfl
    rw [Eol.bytes, parseLoop_byte [10] ?_ hcr, parseLoop_byte [] ?_ hlf]
    · rw [List.append_assoc _ [13], List.singleton_append]
      simp only [parseLoop, targetDone, Parser.terminate, hset]
      exact ⟨_, _, _, rfl⟩
    · simp only [List.length_append, List.length_cons, List.length_nil]
      omega
    · simp only [List.length_append, List.length_cons]
      omega

theorem cstr_at (pre text rest : Bytes) :
    cstr (pre ++ text ++ 0 :: rest) pre.length = text.takeWhile (· ≠ 0) := by
  rw [cstr, List.append_assoc, List.drop_left]
  induction text with
  | nil => simp
  | cons c text ih =>
    by_cases hc : c = 0
    · simp [hc]
    · simp only [ne_eq, decide_not, List.cons_append] at ih ⊢
      rw [List.takeWhile_cons_of_pos (by simp [hc]), List.takeWhile_cons_of_pos (by simp [hc]), ih]

theorem insert_link {name target : Bytes} (hname : cstr p.buf p.offsets.filename = name)
    (htarget : cstr p.buf p.offsets.symlinkTarget = target) (hset : p.offsets.symlinkTarget ≠ 0)
    (hlink : p.info.filetype = .symlink) (hone : ¬arrow <:+: target) :
    ∃ file : File, file.filename = name ∧ file.target = some target ∧
      (ftpPlInsertFinfo compare p).error = p.error ∧
      (ftpPlInsertFinfo compare p).filelist =
        p.filelist ++ if compare file.filename then [file] else [] := by
  have hascii : Strcase.ascii " -> " = arrow := by decide +kernel
  let str (offset : Nat) := if offset ≠ 0 then some (cstr p.buf offset) else none
  refine ⟨⟨name, p.info, cstr p.buf p.offsets.time, str p.offsets.perm, str p.offsets.user,
    str p.offsets.group, some target⟩, rfl, rfl, rfl, ?_⟩
  simp only [ftpPlInsertFinfo, hlink, hascii, htarget, hname, if_true, ne_eq, hset,
    not_false_eq_true, Option.any_some, hone, decide_false, Bool.not_false, Bool.and_true, str]
  split
  · rfl
  · rw [List.append_nil]

/-- A line whose name is settled up to a separator. -/
theorem symlink_line (blanks : Nat) (eol : Eol) {d : UInt8} {target : Bytes} (hc : c ≠ 32)
    (htext : Settled text) (hname : ∀ x ∈ c :: text, x ≠ 13 ∧ x ≠ 10)
    (htarget : ∀ x ∈ d :: target, x ≠ 13 ∧ x ≠ 10) (hone : ¬arrow <:+: d :: target)
    (hfits : buf.length + (List.replicate blanks 32 ++ c :: text ++ arrow ++ d :: target ++
      eol.bytes).length + 1 ≤ maxFtplistBuffer)
    (hlink : info.filetype = .symlink)
    (h : p.UnixAt (.symlink .prespace) off len buf info offs files) :
    ∃ file : File, file.filename = (c :: text).takeWhile (· ≠ 0) ∧
      file.target = some ((d :: target).takeWhile (· ≠ 0)) ∧
      (parseLoop compare p (List.replicate blanks 32 ++ c :: text ++ arrow ++ d :: target ++
        eol.bytes)).error = .ok ∧
      (parseLoop compare p (List.replicate blanks 32 ++ c :: text ++ arrow ++ d :: target ++
        eol.bytes)).filelist = files ++ if compare file.filename then [file] else [] := by
  have harrow : arrow.length = 4 := rfl
  simp only [List.length_append, List.length_replicate, List.length_cons, harrow] at hfits
  have hbehind := name_run compare blanks hc htext hname (by rw [List.length_cons]; omega) h
  obtain ⟨rest, len', w, heq⟩ := target_run compare eol htarget
    (by
      simp only [List.length_append, List.length_replicate, List.length_cons, List.length_nil]
      omega) hbehind
  rw [← parseLoop_append, ← List.append_assoc] at heq
  rw [heq]
  have hfilename := cstr_at (buf ++ List.replicate blanks 32) (c :: text)
    ([45, 62, 32] ++ d :: target ++ 0 :: rest)
  have hstring := cstr_at (buf ++ List.replicate blanks 32 ++ c :: text ++ [0, 45, 62, 32])
    (d :: target) rest
  have hdiscard : ¬arrow <:+: (d :: target).takeWhile (· ≠ 0) :=
    fun hin => hone (hin.trans (List.takeWhile_prefix _).isInfix)
  apply insert_link compare _ hstring _ hlink hdiscard
  · rw [← hfilename]
    simp only [List.append_assoc, List.cons_append, List.nil_append, List.length_append,
      List.length_replicate]
  · simp only [List.length_append, List.length_cons]
    omega

/-- In the line of a link, with so many bytes in the buffer, or stopped by an error. -/
def Parser.InLink (p : Parser) (n : Nat) : Prop :=
  p.error ≠ .ok ∨ p.osType = .unix ∧ (∃ sub, p.unix = .symlink sub) ∧ p.fileData = true ∧
    p.buf.length = n

theorem parseUnixSymlink_inLink (hc : c ≠ 10) :
    (parseUnixSymlink compare p sub c).1 ≠ .ok ∨
      (p.unix = .symlink sub → (∃ sub', (parseUnixSymlink compare p sub c).2.unix = .symlink sub') ∧
        (parseUnixSymlink compare p sub c).2.fileData = p.fileData ∧
        (parseUnixSymlink compare p sub c).2.buf.length = p.buf.length) := by
  cases sub <;> simp only [parseUnixSymlink, symlinkNext] <;> split_ifs <;>
    simp_all [Parser.terminate]

/-- A byte in the line adds to the buffer. -/
theorem parseByte_inLink {n : Nat} (hc : c ≠ 10) (h : p.InLink n) (hok : p.error = .ok) :
    (parseByte compare p c).InLink (n + 1) := by
  obtain ⟨hos, ⟨sub, hunix⟩, hdata, hlen⟩ := h.resolve_left (not_not.mpr hok)
  have halloc : p.alloc = p := if_pos hdata
  simp only [parseByte, halloc]
  split
  · exact .inl (by simp [Parser.fail])
  · have hkeeps := parseChar_keeps compare { p with buf := p.buf ++ [c] } c
    have hchar : parseChar compare { p with buf := p.buf ++ [c] } c =
        parseUnixSymlink compare { p with buf := p.buf ++ [c] } sub c := by
      simp only [parseChar, hos, parseUnix, hunix]
    rw [hchar] at hkeeps ⊢
    split
    · exact .inl ‹_›
    · rename_i hdone
      obtain ⟨hsub, hdata', hlen'⟩ := (parseUnixSymlink_inLink compare
        (p := { p with buf := p.buf ++ [c] }) hc).resolve_left hdone hunix
      refine .inr ⟨hkeeps.1.trans hos, hsub, hdata'.trans hdata, ?_⟩
      rw [hlen', List.length_append, List.length_singleton, hlen]

theorem parseLoop_inLink (bytes : Bytes) : ∀ {p : Parser} {n : Nat},
    (∀ c ∈ bytes, c ≠ 10) → p.InLink n → (parseLoop compare p bytes).InLink (n + bytes.length) := by
  induction bytes with
  | nil => exact fun _ h => h
  | cons c rest ih =>
    intro p n hbytes h
    obtain ⟨hc, hrest⟩ := List.forall_mem_cons.mp hbytes
    unfold parseLoop
    split
    · exact .inl ‹_›
    · have hbyte := parseByte_inLink compare hc h (not_not.mp ‹_›)
      have := ih hrest hbyte
      rwa [List.length_cons, Nat.add_comm rest.length, ← Nat.add_assoc]

/-- A line that is taken fits into the buffer. -/
theorem line_fits (bytes : Bytes) (hbytes : ∀ c ∈ bytes, c ≠ 10)
    (h : p.UnixAt (.symlink sub) off len buf info offs files)
    (hok : (parseLoop compare p (bytes ++ [10])).error = .ok) :
    buf.length + (bytes ++ [10]).length + 1 ≤ maxFtplistBuffer := by
  obtain ⟨w, rfl⟩ := h
  have hrun := parseLoop_inLink compare bytes hbytes (.inr ⟨rfl, ⟨sub, rfl⟩, rfl, rfl⟩)
    (p := ⟨.unix, .symlink sub, .date, .ok, true, buf, info, len, off, offs, files, w⟩)
  rw [parseLoop_append] at hok
  generalize parseLoop compare _ bytes = q at hok hrun
  rcases hrun with herror | ⟨-, -, hdata, hlen⟩
  · rw [parseLoop_stopped compare _ herror] at hok
    exact absurd hok herror
  · rw [List.length_append, List.length_singleton]
    by_contra hlong
    dsimp only at hlen
    have hbyte : (parseByte compare q 10).error = .outOfMemory := by
      simp only [parseByte, Parser.alloc, hdata, if_true]
      rw [if_pos (by omega)]
      rfl
    unfold parseLoop at hok
    split at hok
    · exact absurd hok ‹_›
    · rw [parseLoop, hbyte] at hok
      cases hok

end

/-- The text behind the time field of a line: blanks, a name, the separator, a target and the end of
the line. -/
def linkText (blanks : Nat) (name target : Bytes) (eol : Eol) : Bytes :=
  List.replicate blanks 32 ++ name ++ arrow ++ target ++ eol.bytes

/-- A name and a target that have one separator between them, the first there is. -/
structure LinkTexts (name target : Bytes) : Prop where
  nameSome : name ≠ []
  targetSome : target ≠ []
  line : ∀ x ∈ name ++ target, x ≠ 13 ∧ x ≠ 10
  start : name.head? ≠ some 32
  first : ∀ pre post, name ++ arrow = pre ++ arrow ++ post → pre.length = name.length
  one : ¬arrow <:+: target

/-- The parser takes the line and reports the name and the target, whatever the pattern is. -/
def Reported (p : Parser) (files : List File) (line name target : Bytes) : Prop :=
  ∀ compare : Bytes → Bool, (parseLoop compare p line).error = .ok ∧
    ∃ file : File, file.filename = name ∧ file.target = some target ∧
      (parseLoop compare p line).filelist = files ++ if compare name then [file] else []

section
variable {p : Parser} {off len : Nat} {buf : Bytes} {info : Finfo} {offs : Offsets}
  {files : List File} {blanks : Nat} {eol : Eol} {c d : UInt8} {text target : Bytes}

theorem takeWhile_nonzero {s : Bytes} : s.takeWhile (· ≠ 0) = s ↔ 0 ∉ s := by
  rw [List.takeWhile_eq_self_iff]
  simp only [ne_eq, decide_not, Bool.not_eq_true', decide_eq_false_iff_not]
  exact ⟨fun h hin => h 0 hin rfl, fun h x hx heq => h (heq ▸ hx)⟩

/-- The name is cut short of its last part where that begins a separator. -/
theorem unsettled_name (hfirst : ∀ pre post, c :: text ++ arrow = pre ++ arrow ++ post →
    pre.length = (c :: text).length) (hopen : ¬Settled text) :
    Settled (text ++ [32, 45, 62]) := by
  have hname : ¬arrow <:+: text := by
    rintro ⟨pre, post, rfl⟩
    have := hfirst (c :: pre) (post ++ arrow) (by simp)
    simp [arrow] at this
  obtain ⟨settled, part, rfl, hsettled, rfl | rfl | rfl | rfl⟩ := unsettled_of_no_arrow text hname
  · rw [List.append_nil] at hopen
    exact absurd hsettled hopen
  · rw [List.append_assoc]
    exact hsettled.append (.blank (by decide) (.byte (by decide) (.byte (by decide) .nil)))
  · rw [List.append_assoc]
    exact hsettled.append (.dash (by decide) (.byte (by decide) (.byte (by decide) .nil)))
  · have := hfirst (c :: settled) [45, 62, 32] (by simp [arrow])
    simp at this

theorem linkText_fits {compare : Bytes → Bool} (hname : ∀ x ∈ c :: text, x ≠ 13 ∧ x ≠ 10)
    (htarget : ∀ x ∈ d :: target, x ≠ 13 ∧ x ≠ 10)
    (h : p.UnixAt (.symlink .prespace) off len buf info offs files)
    (hok : (parseLoop compare p (linkText blanks (c :: text) (d :: target) eol)).error = .ok) :
    buf.length + (linkText blanks (c :: text) (d :: target) eol).length + 1 ≤ maxFtplistBuffer := by
  obtain ⟨cr, hcr, heol⟩ := eol_bytes eol
  have hnewline : ∀ x ∈ List.replicate blanks 32 ++ c :: text ++ arrow ++ d :: target ++ cr,
      x ≠ 10 := by
    intro x hx
    simp only [List.mem_append] at hx
    rcases hx with (((hx | hx) | hx) | hx) | hx
    · rw [List.eq_of_mem_replicate hx]
      decide
    · exact (hname x hx).2
    · have harrow : ∀ x ∈ arrow, x ≠ 10 := by simp [arrow]
      exact harrow x hx
    · exact (htarget x hx).2
    · exact hcr x hx
  have heq : linkText blanks (c :: text) (d :: target) eol =
      List.replicate blanks 32 ++ c :: text ++ arrow ++ d :: target ++ cr ++ [10] := by
    rw [linkText, heol, List.append_assoc _ cr]
  rw [heq] at hok ⊢
  exact line_fits compare _ hnewline h hok

theorem eol_cons (eol : Eol) : ∃ e rest, eol.bytes = e :: rest ∧ (e = 13 ∨ e = 10) := by
  cases eol with
  | lf => exact ⟨10, [], rfl, .inr rfl⟩
  | crlf => exact ⟨13, [10], rfl, .inl rfl⟩

/-- Behind such a name the line is taken for another one, or refused. -/
theorem unsettled_refused (hc : c ≠ 32) (htext : Settled (text ++ [32, 45, 62]))
    (hname : ∀ x ∈ c :: text, x ≠ 13 ∧ x ≠ 10) (htarget : ∀ x ∈ d :: target, x ≠ 13 ∧ x ≠ 10)
    (hone : ¬arrow <:+: d :: target) (hlink : info.filetype = .symlink)
    (h : p.UnixAt (.symlink .prespace) off len buf info offs files) :
    ¬Reported p files (linkText blanks (c :: text) (d :: target) eol) (c :: text)
      (d :: target) := by
  intro hreported
  obtain ⟨hok, file, hfile, -, hlist⟩ := hreported fun _ => true
  rw [if_pos rfl] at hlist
  have hfits := linkText_fits hname htarget h hok
  have harrow : arrow.length = 4 := rfl
  simp only [linkText, List.length_append, List.length_replicate, harrow, List.length_cons] at hfits
  have hlonger : ∀ x ∈ c :: (text ++ [32, 45, 62]), x ≠ 13 ∧ x ≠ 10 := by
    intro x hx
    rcases List.mem_append.mp (show x ∈ (c :: text) ++ [32, 45, 62] from hx) with hx | hx
    · exact hname x hx
    · have hpart : ∀ x ∈ ([32, 45, 62] : Bytes), x ≠ 13 ∧ x ≠ 10 := by simp
      exact hpart x hx
  by_cases hbegins : [45, 62, 32] <+: d :: target
  · obtain ⟨more, hmore⟩ := hbegins
    have hlen := congrArg List.length hmore
    simp only [List.length_append, List.length_cons, List.length_nil] at hlen
    have htext' : linkText blanks (c :: text) (d :: target) eol =
        linkText blanks (c :: (text ++ [32, 45, 62])) more eol := by
      rw [← hmore]
      simp [linkText, arrow]
    rw [htext'] at hok hlist
    cases more with
    | nil =>
      obtain ⟨e, rest, heol, he⟩ := eol_cons eol
      have hbehind := name_run (fun _ => true) blanks hc htext hlonger
        (by simp only [List.length_append, List.length_cons, List.length_nil] at *; omega) h
      rw [linkText, List.append_nil, parseLoop_append, heol] at hok
      exact link_cut _ (.inr rfl) he rest hbehind hok
    | cons e more =>
      have hmoreLine : ∀ x ∈ e :: more, x ≠ 13 ∧ x ≠ 10 :=
        fun x hx => htarget x (hmore ▸ List.mem_append_right _ hx)
      have hmoreOne : ¬arrow <:+: e :: more :=
        fun hin => hone (hmore ▸ hin.trans (List.suffix_append _ _).isInfix)
      obtain ⟨file', hfile', -, -, hlist'⟩ := symlink_line (fun _ => true) blanks eol hc htext
        hlonger hmoreLine hmoreOne
        (by
          simp only [List.length_append, List.length_replicate, harrow, List.length_cons,
            List.length_nil] at *
          omega) hlink h
      rw [if_pos rfl] at hlist'
      rw [linkText, hlist'] at hlist
      have hsame : file' = file := List.singleton_inj.mp (List.append_cancel_left hlist)
      rw [hsame, hfile] at hfile'
      have hzero : 0 ∉ c :: (text ++ [32, 45, 62]) := by
        intro hin
        rcases List.mem_append.mp (show 0 ∈ (c :: text) ++ [32, 45, 62] from hin) with hin | hin
        · rw [hfile'] at hin
          simpa using List.mem_takeWhile_imp hin
        · revert hin
          decide
      rw [takeWhile_nonzero.mpr hzero] at hfile'
      simpa using congrArg List.length hfile'
  · have hopen : ¬arrow <:+: 32 :: d :: target := by
      rw [List.infix_cons_iff]
      rintro (hin | hin)
      · exact hbegins ((List.cons_prefix_cons.mp hin).2)
      · exact hone hin
    obtain ⟨settled, part, hparts, hsettled, hpart⟩ := unsettled_of_no_arrow _ hopen
    obtain ⟨e, rest, heol, he⟩ := eol_cons eol
    have hline : ∀ x ∈ settled, x ≠ 13 ∧ x ≠ 10 := by
      intro x hx
      have hin : x ∈ 32 :: d :: target := hparts ▸ List.mem_append_left _ hx
      rcases List.mem_cons.mp hin with rfl | hin
      · decide
      · exact htarget x hin
    have hlen := congrArg List.length hparts
    simp only [List.length_append, List.length_cons] at hlen
    have h1 := settled_name (fun _ => true) blanks hc htext hlonger
      (by simp only [List.length_append, List.length_cons, List.length_nil]; omega) h
    have h2 := settled_run (fun _ => true) hsettled hline
      (by
        simp only [List.length_append, List.length_replicate, List.length_cons, List.length_nil]
        omega) h1
    obtain ⟨sub, len', hsub, h3⟩ := part_run (fun _ => true) hpart
      (by
        simp only [List.length_append, List.length_replicate, List.length_cons, List.length_nil]
        omega) h2
    have htext' : linkText blanks (c :: text) (d :: target) eol =
        List.replicate blanks 32 ++ c :: (text ++ [32, 45, 62]) ++ settled ++ part ++
          e :: rest := by
      rw [linkText, heol, List.append_assoc _ settled, ← hparts]
      simp [arrow]
    rw [htext', parseLoop_append, parseLoop_append, parseLoop_append] at hok
    exact link_cut _ (.inl hsub) he rest h3 hok

end

/-- A line of a symbolic link is reported with its name and its target just when the name, behind
its first byte, leaves the search for the separator in its start state. Both are C strings, and the
line fits into the buffer. -/
theorem symlink_reported_iff (p : Parser) (off len : Nat) (buf : Bytes) (info : Finfo)
    (offs : Offsets) (files : List File) (blanks : Nat) (eol : Eol) (name target : Bytes)
    (h : p.UnixAt (.symlink .prespace) off len buf info offs files)
    (hlink : info.filetype = .symlink) (htexts : LinkTexts name target) :
    Reported p files (linkText blanks name target eol) name target ↔
      Settled name.tail ∧ 0 ∉ name ++ target ∧
        buf.length + (linkText blanks name target eol).length + 1 ≤ maxFtplistBuffer := by
  obtain ⟨hname, htarget, hline, hstart, hfirst, hone⟩ := htexts
  obtain ⟨c, text, rfl⟩ := List.exists_cons_of_ne_nil hname
  obtain ⟨d, rest, rfl⟩ := List.exists_cons_of_ne_nil htarget
  have hc : c ≠ 32 := fun heq => hstart (by rw [heq]; rfl)
  have hnameLine : ∀ x ∈ c :: text, x ≠ 13 ∧ x ≠ 10 :=
    fun x hx => hline x (List.mem_append_left _ hx)
  have htargetLine : ∀ x ∈ d :: rest, x ≠ 13 ∧ x ≠ 10 :=
    fun x hx => hline x (List.mem_append_right _ hx)
  rw [List.tail_cons]
  by_cases htext : Settled text
  swap
  · have hrefused : ¬Reported p files (linkText blanks (c :: text) (d :: rest) eol) (c :: text)
        (d :: rest) :=
      unsettled_refused hc (unsettled_name hfirst htext) hnameLine htargetLine hone hlink h
    exact ⟨fun hreported => absurd hreported hrefused, fun hcond => absurd hcond.1 htext⟩
  constructor
  · intro hreported
    obtain ⟨hok, file, hfile, hlink', hlist⟩ := hreported fun _ => true
    have hfits := linkText_fits hnameLine htargetLine h hok
    obtain ⟨file', hfile', hlink'', -, hlist'⟩ := symlink_line (fun _ => true) blanks eol hc htext
      hnameLine htargetLine hone hfits hlink h
    rw [if_pos rfl] at hlist hlist'
    have hsame : file' = file := by
      rw [linkText, hlist'] at hlist
      exact List.singleton_inj.mp (List.append_cancel_left hlist)
    rw [hsame] at hfile' hlink''
    refine ⟨htext, ?_, hfits⟩
    rw [List.mem_append, not_or]
    exact ⟨takeWhile_nonzero.mp (hfile'.symm.trans hfile),
      takeWhile_nonzero.mp (Option.some.inj (hlink''.symm.trans hlink'))⟩
  · rintro ⟨-, hzero, hfits⟩ compare
    rw [List.mem_append, not_or] at hzero
    obtain ⟨file, hfile, hlink', hok, hlist⟩ := symlink_line compare blanks eol hc htext hnameLine
      htargetLine hone hfits hlink h
    rw [takeWhile_nonzero.mpr hzero.1] at hfile
    rw [takeWhile_nonzero.mpr hzero.2] at hlink'
    rw [hfile] at hlist
    exact ⟨hok, file, hfile, hlink', hlist⟩

/-- The parser behind the first items of a line, where the name of a symbolic link begins. -/
def linkStart : Parser :=
  ftpParselist (fun _ => true) {} (Strcase.ascii "lrwxrwxrwx 1 a b 1 Jan  1 00:00 ")

theorem linkStart_at : linkStart.UnixAt (.symlink .prespace) 19 13 linkStart.buf linkStart.info
    linkStart.offsets [] := ⟨linkStart.writes, by decide +kernel⟩

/-- A name with two blanks at its end is found. -/
theorem symlink_reported_iff_blanks :
    Reported linkStart [] (linkText 0 [97, 32, 32] [116] .lf) [97, 32, 32] [116] :=
  (symlink_reported_iff linkStart 19 13 _ _ _ [] 0 .lf [97, 32, 32] [116] linkStart_at
    (by decide +kernel)
    ⟨by decide, by decide, by decide +kernel, by decide, by
      intro pre post heq
      match pre with
      | [] => simp [arrow] at heq
      | [_] => simp [arrow] at heq
      | [_, _] => simp [arrow] at heq
      | [_, _, _] => rfl
      | _ :: _ :: _ :: _ :: pre =>
        have := congrArg List.length heq
        simp [arrow] at this
        omega, by decide⟩).mpr
    ⟨.blank (by decide) .nil, by decide +kernel, by decide +kernel⟩
/-- A name with one blank at its end: the line is refused. -/
theorem symlink_blank_refused :
    ¬∀ (p : Parser) (off len : Nat) (buf : Bytes) (info : Finfo) (offs : Offsets)
      (files : List File) (blanks : Nat) (eol : Eol) (name target : Bytes),
      p.UnixAt (.symlink .prespace) off len buf info offs files → info.filetype = .symlink →
      LinkTexts name target → Reported p files (linkText blanks name target eol) name target := by
  intro hall
  have htexts : LinkTexts [97, 32] [116] := by
    refine ⟨by decide, by decide, by decide +kernel, by decide, fun pre post heq => ?_, by decide⟩
    match pre with
    | [] => simp [arrow] at heq
    | [_] => simp [arrow] at heq
    | [_, _] => rfl
    | _ :: _ :: _ :: pre =>
      have := congrArg List.length heq
      simp [arrow] at this
      omega
  have hreported := hall linkStart 19 13 _ _ _ [] 0 .lf [97, 32] [116] linkStart_at
    (by decide +kernel) htexts fun _ => true
  have herror : (parseLoop (fun _ => true) linkStart (linkText 0 [97, 32] [116] .lf)).error =
      .ftpBadFileList := by decide +kernel
  rw [herror] at hreported
  cases hreported.1

end Gurl.Ftplist
