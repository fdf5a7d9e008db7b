import Gurl.Ftplist.Parser

/-! Every write of the parser into the line buffer is below the length of the buffer, whatever bytes
come. -/

namespace Gurl.Ftplist

/-- What the item of a state is in a buffer of `n` bytes: it ends where the buffer ends. -/
def Unix.Aligned (offset length n : Nat) : Unix → Prop
  | .totalsize .init => length = 0 ∧ n = 0
  | .totalsize .reading => length = n
  | .filetype => n = 0
  | .permission => offset = 1 ∧ length ≤ 9 ∧ n = length + 1
  | .hlinks .prespace | .user .prespace | .group .prespace | .size .prespace | .time .prepart1
  | .filename .prespace | .symlink .prespace | .symlink .pretarget4 => True
  | .symlink .pretarget3 => offset + length = n ∧ 4 ≤ length
  | .symlink .pretarget2 => offset + length = n ∧ 3 ≤ length
  | .symlink .pretarget1 => offset + length = n ∧ 2 ≤ length
  | _ => offset + length = n ∧ 1 ≤ length

attribute [local simp] Unix.Aligned

def WinNt.Aligned (offset length n : Nat) : WinNt → Prop
  | .date | .time _ => offset = 0 ∧ length = n
  | .dirorsize .content => offset + length = n ∧ 1 ≤ length
  | _ => True

def Parser.AlignedAt (p : Parser) (offset length n : Nat) : Prop :=
  if p.osType = .winNt then p.nt.Aligned offset length n else p.unix.Aligned offset length n

/-- Between two bytes; without `file_data` the next byte starts a buffer. -/
def Parser.Aligned (p : Parser) : Prop :=
  if p.fileData then p.AlignedAt p.itemOffset p.itemLength p.buf.length else p.AlignedAt 0 0 0

/-- Every write was within the buffer. -/
def Parser.Bounded (p : Parser) : Prop := ∀ w ∈ p.writes, w.1 < w.2

theorem Parser.Bounded.terminate {p : Parser} (h : p.Bounded) {i : Nat} (hi : i < p.buf.length) :
    (p.terminate i).Bounded := by
  intro w hw
  rcases List.mem_append.mp hw with hw | hw
  · exact h w hw
  · rw [List.mem_singleton.mp hw]
    exact hi

/-- What a byte leaves. -/
def Fine (r : Curlcode × Parser) : Prop := r.2.Bounded ∧ (r.1 = .ok → r.2.Aligned)

section
variable {p : Parser} {n : Nat} {c : UInt8} {compare : Bytes → Bool}

theorem Fine.error {code : Curlcode} (h : p.Bounded) (hcode : code ≠ .ok) : Fine (code, p) :=
  ⟨h, fun hok => absurd hok hcode⟩

theorem insert_fine (h : p.Bounded) (hnt : p.osType = .winNt → p.nt.Aligned 0 0 0)
    (hunix : p.osType ≠ .winNt → p.unix.Aligned 0 0 0) :
    Fine (.ok, ftpPlInsertFinfo compare p) := by
  refine ⟨h, fun _ => ?_⟩
  change p.AlignedAt 0 0 0
  unfold Parser.AlignedAt
  split
  · exact hnt ‹_›
  · exact hunix ‹_›

theorem Fine.unix {code : Curlcode} (h : p.Bounded) (hos : p.osType ≠ .winNt)
    (hfile : p.fileData = true) (ha : p.unix.Aligned p.itemOffset p.itemLength p.buf.length) :
    Fine (code, p) := by
  refine ⟨h, fun _ => ?_⟩
  simpa [Parser.Aligned, Parser.AlignedAt, hfile, hos] using ha

theorem Fine.winnt {code : Curlcode} (h : p.Bounded) (hos : p.osType = .winNt)
    (hfile : p.fileData = true) (ha : p.nt.Aligned p.itemOffset p.itemLength p.buf.length) :
    Fine (code, p) := by
  refine ⟨h, fun _ => ?_⟩
  simpa [Parser.Aligned, Parser.AlignedAt, hfile, hos] using ha

section unix
variable (hos : p.osType ≠ .winNt) (hfile : p.fileData = true) (hlen : p.buf.length = n + 1)
  (h : p.Bounded)
include hos hfile hlen h

theorem filetype_fine (hline : n = 0 ∨ c = 10) : Fine (parseUnixFiletype p c) := by
  unfold parseUnixFiletype
  split
  · exact .error h (by decide)
  · rename_i filetype heq
    rcases hline with hn | rfl
    · subst hn
      exact .unix h hos hfile ⟨rfl, Nat.zero_le 9, hlen⟩
    · cases heq

/-- Of the total size nothing is left, or the end of its line. -/
theorem totalsize_fine {sub : TotalSize} (hu : p.unix = .totalsize sub)
    (ha : (Unix.totalsize sub).Aligned p.itemOffset p.itemLength n) {code : Curlcode} {q : Parser}
    (hq : parseUnixTotalsize p sub c = (code, q)) :
    Fine (code, q) ∧ q.unix ≠ .filetype ∨ code ≠ .ok ∧ q.Bounded ∨
      code = .ok ∧ q.unix = .filetype ∧ Fine (parseUnixFiletype q c) := by
  cases sub with
  | init =>
    obtain ⟨hl, hn⟩ := ha
    simp only [parseUnixTotalsize] at hq
    split at hq
    · cases hq
      exact .inl ⟨.unix h hos hfile (by simp only [Unix.Aligned]; omega), nofun⟩
    · cases hq
      exact .inr (.inr ⟨rfl, rfl, filetype_fine hos hfile hlen h (.inl hn)⟩)
  | reading =>
    have ha : p.itemLength = n := ha
    have hbuf : p.itemLength < p.buf.length := by omega
    simp only [parseUnixTotalsize] at hq
    split at hq
    · cases hq
      refine .inl ⟨.unix h hos hfile ?_, by rw [hu]; nofun⟩
      simp only [hu, Unix.Aligned, List.length_take]
      omega
    · split at hq
      · rename_i hc
        split at hq
        · split at hq
          · cases hq
            exact .inr (.inl ⟨nofun, h.terminate hbuf⟩)
          · cases hq
            subst hc
            exact .inr (.inr ⟨rfl, rfl, .error (h.terminate hbuf) nofun⟩)
        · cases hq
          exact .inr (.inl ⟨nofun, h.terminate hbuf⟩)
      · cases hq
        refine .inl ⟨.unix h hos hfile ?_, by rw [hu]; nofun⟩
        simp only [hu, Unix.Aligned]
        omega

theorem permission_fine (hu : p.unix = .permission)
    (ha : Unix.permission.Aligned p.itemOffset p.itemLength n) :
    Fine (parseUnixPermission p c) := by
  obtain ⟨hoff, hle, hn⟩ := ha
  simp only [parseUnixPermission]
  split
  · exact .error h (by decide)
  · split
    · have hbuf : 10 < p.buf.length := by omega
      split
      · exact .error h (by decide)
      · split
        · exact .error (h.terminate hbuf) (by decide)
        · exact .unix (h.terminate hbuf) hos hfile trivial
    · refine .unix h hos hfile ?_
      simp only [hu, Unix.Aligned]
      omega

theorem hlinks_fine {sub : Item} (hu : p.unix = .hlinks sub)
    (ha : (Unix.hlinks sub).Aligned p.itemOffset p.itemLength n) :
    Fine (parseUnixHlinks p sub c) := by
  cases sub with
  | prespace =>
    simp only [parseUnixHlinks]
    split
    · split
      · exact .unix h hos hfile (by simp only [Unix.Aligned]; omega)
      · exact .error h (by decide)
    · exact .unix h hos hfile (by rw [hu]; trivial)
  | content =>
    obtain ⟨hn, hpos⟩ := ha
    have hbuf : p.itemOffset + (p.itemLength + 1) - 1 < p.buf.length := by omega
    simp only [parseUnixHlinks]
    split
    · exact .unix (h.terminate hbuf) hos hfile trivial
    · split
      · exact .error h (by decide)
      · exact .unix h hos hfile (by simp only [hu, Unix.Aligned]; omega)

theorem user_fine {sub : Item} (hu : p.unix = .user sub)
    (ha : (Unix.user sub).Aligned p.itemOffset p.itemLength n) : Fine (parseUnixUser p sub c) := by
  cases sub with
  | prespace =>
    simp only [parseUnixUser]
    split
    · exact .unix h hos hfile (by simp only [Unix.Aligned]; omega)
    · exact .unix h hos hfile (by rw [hu]; trivial)
  | content =>
    obtain ⟨hn, hpos⟩ := ha
    have hbuf : p.itemOffset + (p.itemLength + 1) - 1 < p.buf.length := by omega
    simp only [parseUnixUser]
    split
    · exact .unix (h.terminate hbuf) hos hfile trivial
    · exact .unix h hos hfile (by simp only [hu, Unix.Aligned]; omega)

theorem group_fine {sub : Item} (hu : p.unix = .group sub)
    (ha : (Unix.group sub).Aligned p.itemOffset p.itemLength n) :
    Fine (parseUnixGroup p sub c) := by
  cases sub with
  | prespace =>
    simp only [parseUnixGroup]
    split
    · exact .unix h hos hfile (by simp only [Unix.Aligned]; omega)
    · exact .unix h hos hfile (by rw [hu]; trivial)
  | content =>
    obtain ⟨hn, hpos⟩ := ha
    have hbuf : p.itemOffset + (p.itemLength + 1) - 1 < p.buf.length := by omega
    simp only [parseUnixGroup]
    split
    · exact .unix (h.terminate hbuf) hos hfile trivial
    · exact .unix h hos hfile (by simp only [hu, Unix.Aligned]; omega)

theorem size_fine {sub : Item} (hu : p.unix = .size sub)
    (ha : (Unix.size sub).Aligned p.itemOffset p.itemLength n) : Fine (parseUnixSize p sub c) := by
  cases sub with
  | prespace =>
    simp only [parseUnixSize]
    split
    · split
      · exact .unix h hos hfile (by simp only [Unix.Aligned]; omega)
      · exact .error h (by decide)
    · exact .unix h hos hfile (by rw [hu]; trivial)
  | content =>
    obtain ⟨hn, hpos⟩ := ha
    have hbuf : p.itemOffset + (p.itemLength + 1) - 1 < p.buf.length := by omega
    simp only [parseUnixSize]
    split
    · split
      · exact .unix (h.terminate hbuf) hos hfile trivial
      · -- a size that is too large is read on
        refine .unix (h.terminate hbuf) hos hfile ?_
        simp only [Parser.terminate, hu, Unix.Aligned, List.length_set]
        omega
    · split
      · exact .error h (by decide)
      · exact .unix h hos hfile (by simp only [hu, Unix.Aligned]; omega)

theorem time_fine {sub : Time} (hu : p.unix = .time sub)
    (ha : (Unix.time sub).Aligned p.itemOffset p.itemLength n) : Fine (parseUnixTime p sub c) := by
  cases sub with
  | prepart1 =>
    simp only [parseUnixTime]
    split
    · split
      · exact .unix h hos hfile (by simp only [Unix.Aligned]; omega)
      · exact .error h (by decide)
    · exact .unix h hos hfile (by rw [hu]; trivial)
  | part1 | part2 =>
    obtain ⟨hn, hpos⟩ := ha
    simp only [parseUnixTime]
    split
    · exact .unix h hos hfile (by simp only [Unix.Aligned]; omega)
    · split
      · exact .error h (by decide)
      · exact .unix h hos hfile (by simp only [hu, Unix.Aligned]; omega)
  | prepart2 | prepart3 =>
    obtain ⟨hn, hpos⟩ := ha
    simp only [parseUnixTime]
    split
    · split
      · exact .unix h hos hfile (by simp only [Unix.Aligned]; omega)
      · exact .error h (by decide)
    · exact .unix h hos hfile (by simp only [hu, Unix.Aligned]; omega)
  | part3 =>
    obtain ⟨hn, hpos⟩ := ha
    have hbuf : p.itemOffset + (p.itemLength + 1) - 1 < p.buf.length := by omega
    simp only [parseUnixTime]
    split
    · refine .unix (h.terminate hbuf) hos hfile ?_
      dsimp only
      split <;> trivial
    · split
      · exact .error h (by decide)
      · exact .unix h hos hfile (by simp only [hu, Unix.Aligned]; omega)

theorem filename_fine {sub : Filename} (hu : p.unix = .filename sub)
    (ha : (Unix.filename sub).Aligned p.itemOffset p.itemLength n) :
    Fine (parseUnixFilename compare p sub c) := by
  have hdone {q : Parser} (hq : q.Bounded) (hosq : q.osType ≠ .winNt)
      (hbuf : q.itemOffset + q.itemLength - 1 < q.buf.length) :
      Fine (.ok, filenameDone compare q) := by
    exact insert_fine (hq.terminate hbuf) (fun heq => absurd heq hosq) fun _ => rfl
  cases sub with
  | prespace =>
    simp only [parseUnixFilename]
    split
    · exact .unix h hos hfile (by simp only [Unix.Aligned]; omega)
    · exact .unix h hos hfile (by rw [hu]; trivial)
  | name =>
    obtain ⟨hn, hpos⟩ := ha
    simp only [parseUnixFilename]
    split
    · exact .unix h hos hfile (by simp only [Unix.Aligned]; omega)
    · split
      · exact hdone h hos (by dsimp only; omega)
      · exact .unix h hos hfile (by simp only [hu, Unix.Aligned]; omega)
  | windowseol =>
    obtain ⟨hn, hpos⟩ := ha
    simp only [parseUnixFilename]
    split
    · exact hdone h hos (by omega)
    · exact .error h (by decide)

theorem symlink_fine {sub : Symlink} (hu : p.unix = .symlink sub)
    (ha : (Unix.symlink sub).Aligned p.itemOffset p.itemLength n) :
    Fine (parseUnixSymlink compare p sub c) := by
  have hdone {q : Parser} (hq : q.Bounded) (hosq : q.osType ≠ .winNt)
      (hbuf : q.itemOffset + q.itemLength - 1 < q.buf.length) :
      Fine (.ok, targetDone compare q) := by
    exact insert_fine (hq.terminate hbuf) (fun heq => absurd heq hosq) fun _ => rfl
  have hnext {want : UInt8} {next : Symlink} (hn : p.itemOffset + p.itemLength = n)
      (hnext : (Unix.symlink next).Aligned p.itemOffset (p.itemLength + 1) (n + 1)) :
      Fine (symlinkNext { p with itemLength := p.itemLength + 1 } c want next) := by
    unfold symlinkNext
    split
    · exact .unix h hos hfile (by dsimp only; rw [hlen]; exact hnext)
    · split
      · exact .error h (by decide)
      · exact .unix h hos hfile (by simp only [Unix.Aligned]; omega)
  cases sub with
  | prespace =>
    simp only [parseUnixSymlink]
    split
    · exact .unix h hos hfile (by simp only [Unix.Aligned]; omega)
    · exact .unix h hos hfile (by rw [hu]; trivial)
  | name | pretarget1 | pretarget2 =>
    obtain ⟨hn, hpos⟩ := ha
    exact hnext hn (by simp only [Unix.Aligned]; omega)
  | pretarget3 =>
    obtain ⟨hn, hpos⟩ := ha
    simp only [parseUnixSymlink]
    split
    · exact .unix (h.terminate (by omega)) hos hfile trivial
    · exact hnext hn trivial
  | pretarget4 =>
    simp only [parseUnixSymlink]
    split
    · exact .unix h hos hfile (by simp only [Unix.Aligned]; omega)
    · exact .error h (by decide)
  | target =>
    obtain ⟨hn, hpos⟩ := ha
    simp only [parseUnixSymlink]
    split
    · exact .unix h hos hfile (by simp only [Unix.Aligned]; omega)
    · split
      · exact hdone h hos (by dsimp only; omega)
      · exact .unix h hos hfile (by simp only [hu, Unix.Aligned]; omega)
  | windowseol =>
    obtain ⟨hn, hpos⟩ := ha
    simp only [parseUnixSymlink]
    split
    · exact hdone h hos (by omega)
    · exact .error h (by decide)

theorem parseUnix_fine (ha : p.unix.Aligned p.itemOffset p.itemLength n) :
    Fine (parseUnix compare p c) := by
  unfold parseUnix
  cases hu : p.unix with
  | totalsize sub =>
    rw [hu] at ha
    rcases hq : parseUnixTotalsize p sub c with ⟨code, q⟩
    dsimp only
    rw [hq]
    rcases totalsize_fine hos hfile hlen h hu ha hq with
      ⟨hfine, hne⟩ | ⟨hcode, hb⟩ | ⟨rfl, hunix, hfine⟩
    · by_cases hcode : code = .ok
      · rw [if_neg (not_not.mpr hcode), if_pos hne, ← hcode]
        exact hfine
      · rw [if_pos hcode]
        exact hfine
    · rw [if_pos hcode]
      exact .error hb hcode
    · rw [if_neg (by simp), if_neg (by simp [hunix])]
      exact hfine
  | filetype =>
    rw [hu] at ha
    exact filetype_fine hos hfile hlen h (.inl ha)
  | permission => exact permission_fine hos hfile hlen h hu (hu ▸ ha)
  | hlinks sub => exact hlinks_fine hos hfile hlen h hu (hu ▸ ha)
  | user sub => exact user_fine hos hfile hlen h hu (hu ▸ ha)
  | group sub => exact group_fine hos hfile hlen h hu (hu ▸ ha)
  | size sub => exact size_fine hos hfile hlen h hu (hu ▸ ha)
  | time sub => exact time_fine hos hfile hlen h hu (hu ▸ ha)
  | filename sub => exact filename_fine hos hfile hlen h hu (hu ▸ ha)
  | symlink sub => exact symlink_fine hos hfile hlen h hu (hu ▸ ha)

end unix

section winnt
variable (hos : p.osType = .winNt) (hfile : p.fileData = true) (hlen : p.buf.length = n + 1)
  (h : p.Bounded)
include hos hfile hlen h

theorem dirorsize_fine {sub : Item} (hu : p.nt = .dirorsize sub)
    (ha : (WinNt.dirorsize sub).Aligned p.itemOffset p.itemLength n) :
    Fine (parseWinntDirorsize p sub c) := by
  cases sub with
  | prespace =>
    simp only [parseWinntDirorsize]
    split
    · exact .winnt h hos hfile (by simp only [WinNt.Aligned]; omega)
    · exact .winnt h hos hfile (by rw [hu]; trivial)
  | content =>
    obtain ⟨hn, hpos⟩ := ha
    have hbuf : p.itemOffset + (p.itemLength + 1) - 1 < p.buf.length := by omega
    simp only [parseWinntDirorsize]
    split
    · split
      · exact .winnt (h.terminate hbuf) hos hfile trivial
      · split
        · exact .winnt (h.terminate hbuf) hos hfile trivial
        · exact .error (h.terminate hbuf) (by decide)
    · exact .winnt h hos hfile (by simp only [hu, WinNt.Aligned]; omega)

theorem parseWinnt_fine (ha : p.nt.Aligned p.itemOffset p.itemLength n) :
    Fine (parseWinnt compare p c) := by
  have hdone {q : Parser} (hq : q.Bounded) (hosq : q.osType = .winNt) :
      Fine (.ok, winntDone compare q) :=
    insert_fine hq (fun _ => ⟨rfl, rfl⟩) fun hne => absurd hosq hne
  have hbuf : p.buf.length - 1 < p.buf.length := by omega
  unfold parseWinnt
  cases hu : p.nt with
  | date =>
    rw [hu] at ha
    obtain ⟨hoff, hn⟩ := ha
    have hdate : WinNt.Aligned p.itemOffset (p.itemLength + 1) p.buf.length .date :=
      ⟨hoff, by omega⟩
    dsimp only
    split
    · split
      · exact .error h (by decide)
      · exact .winnt h hos hfile hdate
    · split
      · split
        · exact .winnt h hos hfile hdate
        · exact .error h (by decide)
      · exact .error h (by decide)
  | time sub =>
    rw [hu] at ha
    obtain ⟨hoff, hn⟩ := ha
    have htime (sub : Item) :
        WinNt.Aligned p.itemOffset (p.itemLength + 1) p.buf.length (.time sub) := ⟨hoff, by omega⟩
    cases sub with
    | prespace =>
      dsimp only
      split
      · exact .winnt h hos hfile (htime _)
      · exact .winnt h hos hfile (htime _)
    | content =>
      dsimp only
      split
      · have hin : p.itemOffset + (p.itemLength + 1) - 1 < p.buf.length := by omega
        exact .winnt (Parser.Bounded.terminate h hin) hos hfile trivial
      · split
        · exact .error h (by decide)
        · exact .winnt h hos hfile (htime _)
  | dirorsize sub => exact dirorsize_fine hos hfile hlen h hu (hu ▸ ha)
  | filename sub =>
    cases sub with
    | prespace =>
      dsimp only
      split
      · exact .winnt h hos hfile trivial
      · exact .winnt h hos hfile (by rw [hu]; trivial)
    | name =>
      dsimp only
      split
      · exact .error h (by decide)
      · split
        · exact .winnt (h.terminate hbuf) hos hfile trivial
        · split
          · exact hdone (h.terminate hbuf) hos
          · exact .winnt h hos hfile trivial
    | windowseol =>
      dsimp only
      split
      · exact hdone h hos
      · exact .error h (by decide)

end winnt

variable (compare c) in
theorem parseChar_fine (hfile : p.fileData = true) (h : p.Bounded)
    (ha : p.AlignedAt p.itemOffset p.itemLength p.buf.length) :
    Fine (parseChar compare { p with buf := p.buf ++ [c] } c) := by
  have hlen : ({ p with buf := p.buf ++ [c] } : Parser).buf.length = p.buf.length + 1 := by simp
  unfold Parser.AlignedAt at ha
  by_cases hos : p.osType = .winNt
  · rw [if_pos hos] at ha
    have hchar : parseChar compare { p with buf := p.buf ++ [c] } c =
        parseWinnt compare { p with buf := p.buf ++ [c] } c := by
      unfold parseChar
      rw [hos]
    rw [hchar]
    exact parseWinnt_fine hos hfile hlen h ha
  · rw [if_neg hos] at ha
    have hchar : parseChar compare { p with buf := p.buf ++ [c] } c =
        parseUnix compare { p with buf := p.buf ++ [c] } c := by
      unfold parseChar
      cases hos' : p.osType <;> simp_all
    rw [hchar]
    exact parseUnix_fine hos hfile hlen h ha

theorem alloc_aligned (ha : p.Aligned) : p.alloc.fileData = true ∧
    p.alloc.AlignedAt p.alloc.itemOffset p.alloc.itemLength p.alloc.buf.length ∧
    p.alloc.writes = p.writes := by
  unfold Parser.Aligned at ha
  unfold Parser.alloc
  split
  · rename_i hfile
    rw [if_pos hfile] at ha
    exact ⟨hfile, ha, rfl⟩
  · rename_i hfile
    rw [if_neg hfile] at ha
    exact ⟨rfl, ha, rfl⟩

variable (compare c) in
/-- After every byte the writes were in the buffer, and the parser is ready for the next. -/
theorem parseByte_fine (h : p.Bounded) (ha : p.Aligned) :
    (parseByte compare p c).Bounded ∧
      ((parseByte compare p c).error = .ok → (parseByte compare p c).Aligned) := by
  obtain ⟨hfile, hal, hw⟩ := alloc_aligned ha
  have hb : p.alloc.Bounded := by
    unfold Parser.Bounded
    rw [hw]
    exact h
  simp only [parseByte]
  split
  · exact ⟨hb, nofun⟩
  · obtain ⟨hbounded, haligned⟩ := parseChar_fine c compare hfile hb hal
    split
    · rename_i hcode
      exact ⟨hbounded, fun herror => absurd herror hcode⟩
    · rename_i hcode
      exact ⟨hbounded, fun _ => haligned (not_not.mp hcode)⟩

theorem parseLoop_fine (bytes : Bytes) (h : p.Bounded) (ha : p.error = .ok → p.Aligned) :
    (parseLoop compare p bytes).Bounded ∧
      ((parseLoop compare p bytes).error = .ok → (parseLoop compare p bytes).Aligned) := by
  induction bytes generalizing p with
  | nil => exact ⟨h, ha⟩
  | cons c rest ih =>
    unfold parseLoop
    split
    · exact ⟨h, ha⟩
    · rename_i herror
      obtain ⟨hb, hal⟩ := parseByte_fine c compare h (ha (not_not.mp herror))
      exact ih hb hal

/-- Every call keeps the writes in the buffer. -/
theorem ftpParselist_fine (buffer : Bytes) (h : p.Bounded) (ha : p.error = .ok → p.Aligned)
    (hos : p.osType = .unknown → p.fileData = false ∧ p.unix = .totalsize .init ∧ p.nt = .date) :
    (ftpParselist compare p buffer).Bounded ∧
      ((ftpParselist compare p buffer).error = .ok → (ftpParselist compare p buffer).Aligned) := by
  unfold ftpParselist
  split
  · rename_i herror
    exact ⟨h, fun hok => absurd hok herror⟩
  · split
    · rename_i c rest hunknown
      obtain ⟨hfile, hunix, hnt⟩ := hos hunknown
      refine parseLoop_fine (c :: rest) h fun _ => ?_
      simp only [Parser.Aligned, Parser.AlignedAt, hfile, hunix, hnt, Bool.false_eq_true, if_false]
      split
      · exact ⟨rfl, rfl⟩
      · exact ⟨rfl, rfl⟩
    · exact parseLoop_fine _ h ha

end

end Gurl.Ftplist
