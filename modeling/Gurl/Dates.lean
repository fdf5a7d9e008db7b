import Gurl.Parsedate

/-! Dates as they are written in headers and files, and how `parsedate` reads them. -/

namespace Gurl

open Calendar Strcase Strparse Parsedate

/-! ### Texts -/

/-- The digits of a number below 100. -/
def twoDigits (n : Nat) : Bytes := [digitByte (n / 10), digitByte (n % 10)]

/-- The digits of a number below 10000. -/
def fourDigits (n : Nat) : Bytes := twoDigits (n / 100) ++ twoDigits (n % 100)

/-- `Www`. -/
def wdayText (wday : Fin 7) : Bytes := ascii (wkday.get wday)

/-- `Mon`. -/
def monText (mon : Nat) : Bytes := ascii (month.getD mon "")

/-- `HH:MM:SS`. -/
def timeText (tm : Tm) : Bytes := timeDigits tm.hour tm.min tm.sec

/-- A numeric time zone, ahead of GMT or behind it. -/
structure Zone where
  ahead : Bool
  hours : Nat
  minutes : Nat

/-- `+hhmm` or `-hhmm`, up to 1400. -/
structure Zone.Valid (zone : Zone) : Prop where
  minutes : zone.minutes < 100
  le : zone.hours * 100 + zone.minutes ≤ 1400

def Zone.text (zone : Zone) : Bytes :=
  (if zone.ahead then 43 else 45) :: (twoDigits zone.hours ++ twoDigits zone.minutes)

/-- The seconds by which the zone is ahead of GMT. -/
def Zone.offset (zone : Zone) : Int :=
  let secs : Int := (zone.hours * 60 + zone.minutes) * 60
  if zone.ahead then secs else -secs

/-- A numeric zone behind a date, or what stands there without one. -/
def zoneText (default : Bytes) : Option Zone → Bytes
  | none => default
  | some zone => 32 :: zone.text

/-- The formats of a date. -/
inductive Format where
  | compact
  | rfc1123 (wday : Fin 7)
  | asctime (wday : Fin 7)

/-- `YYYYMMDD HH:MM:SS`, `Www, DD Mon YYYY HH:MM:SS GMT` and `Www Mon DD HH:MM:SS YYYY`; a numeric
time zone stands at the end, in the second format instead of `GMT`. -/
def Format.text (tm : Tm) (zone : Option Zone) : Format → Bytes
  | compact =>
    dateDigits tm.year (tm.mon + 1) tm.mday ++ 32 :: (timeText tm ++ zoneText [] zone)
  | rfc1123 wday =>
    wdayText wday ++ 44 :: 32 :: (twoDigits tm.mday ++ 32 :: (monText tm.mon ++ 32 ::
      (fourDigits tm.year ++ 32 :: (timeText tm ++ zoneText (32 :: ascii "GMT") zone))))
  | asctime wday =>
    wdayText wday ++ 32 :: (monText tm.mon ++ 32 :: (twoDigits tm.mday ++ 32 :: (timeText tm ++
      32 :: (fourDigits tm.year ++ zoneText [] zone))))

example : (Format.rfc1123 6).text ⟨1994, 10, 6, 8, 49, 37⟩ (some ⟨true, 2, 0⟩) =
    ascii "Sun, 06 Nov 1994 08:49:37 +0200" := by decide +kernel

/-! ### Names -/

/-- A name of three letters, and the byte behind it. -/
structure Named (name : Bytes) (c : UInt8) : Prop where
  alpha : ∀ d ∈ name, isAlpha d = true
  length : name.length = 3
  stop : isAlpha c = false

variable {name rest : Bytes} {c : UInt8} {w : When}

theorem Named.len (h : Named name c) (rest : Bytes) :
    min ((name ++ c :: rest).takeWhile isAlpha).length nameLen = 3 := by
  rw [List.takeWhile_append_of_pos h.alpha, List.takeWhile_cons_of_neg (by simp [h.stop]),
    List.append_nil, h.length]
  rfl

theorem strnequal_name (hlen : name.length = 3) (rest what : Bytes) :
    strnequal (name ++ rest) what 3 = strnequal name what 3 := by
  rw [Bool.eq_iff_iff, strnequal_iff, strnequal_iff, ← hlen, List.take_left', List.take_length]
  rfl

theorem checkday_name (hlen : name.length = 3) (rest : Bytes) :
    checkday (name ++ rest) 3 = checkday name 3 := by
  simp only [checkday, strnequal_name hlen]

theorem checkmonth_name (hlen : name.length = 3) (rest : Bytes) :
    checkmonth (name ++ rest) 3 = checkmonth name 3 := by
  simp only [checkmonth, strnequal_name hlen]

theorem wdayText_spec : ∀ wday : Fin 7, (∀ d ∈ wdayText wday, isAlpha d = true) ∧
    (wdayText wday).length = 3 ∧ checkday (wdayText wday) 3 = (wday : Int) := by
  decide +kernel

theorem monText_spec : ∀ mon, mon ≤ 11 → (∀ d ∈ monText mon, isAlpha d = true) ∧
    (monText mon).length = 3 ∧ checkmonth (monText mon) 3 = mon := by
  have hall : ∀ mon : Fin 12, (∀ d ∈ monText mon, isAlpha d = true) ∧
      (monText mon).length = 3 ∧ checkmonth (monText mon) 3 = (mon : Int) := by decide +kernel
  intro mon h
  exact hall ⟨mon, by omega⟩

theorem datestring_wday (wday : Fin 7) (hc : isAlpha c = false) (hw : w.wday = -1) :
    datestring (wdayText wday ++ c :: rest) w =
      some (c :: rest, { w with wday := (wday : Int) }) := by
  obtain ⟨halpha, hlen, hday⟩ := wdayText_spec wday
  have hknown : checkday (wdayText wday ++ c :: rest) 3 = (wday : Int) := by
    rw [checkday_name hlen, hday]
  have hdrop : (wdayText wday ++ c :: rest).drop 3 = c :: rest := List.drop_left' hlen
  rw [datestring, (⟨halpha, hlen, hc⟩ : Named _ c).len]
  simp only [hknown, hdrop]
  rw [if_neg (by decide), if_pos ⟨hw, by omega⟩]

theorem datestring_mon {mon : Nat} (hmon : mon ≤ 11) (hc : isAlpha c = false) (hwday : w.wday ≠ -1)
    (hw : w.mon = -1) :
    datestring (monText mon ++ c :: rest) w = some (c :: rest, { w with mon := mon }) := by
  obtain ⟨halpha, hlen, hmonth⟩ := monText_spec mon hmon
  have hknown : checkmonth (monText mon ++ c :: rest) 3 = mon := by
    rw [checkmonth_name hlen, hmonth]
  have hdrop : (monText mon ++ c :: rest).drop 3 = c :: rest := List.drop_left' hlen
  rw [datestring, (⟨halpha, hlen, hc⟩ : Named _ c).len]
  simp only [hknown, hdrop]
  rw [if_neg (by decide), if_neg (fun h => hwday h.1), if_pos ⟨hw, by omega⟩]

theorem datestring_gmt (hwday : w.wday ≠ -1) (hmon : w.mon ≠ -1) (hw : w.tzoff = -1) :
    datestring (ascii "GMT") w = some ([], { w with tzoff := 0 }) := by
  have htz : checktz (ascii "GMT") 3 = 0 := by decide +kernel
  have hlen : min ((ascii "GMT").takeWhile isAlpha).length nameLen = 3 := by decide +kernel
  have hdrop : (ascii "GMT").drop 3 = [] := by decide +kernel
  rw [datestring, hlen]
  simp only [htz, hdrop]
  rw [if_neg (by decide), if_neg (fun h => hwday h.1), if_neg (fun h => hmon h.1),
    if_pos ⟨hw, by decide⟩]

/-! ### Numbers -/

theorem twoDigits_spec {n : Nat} (h : n < 100) :
    (∀ c ∈ twoDigits n, isDigit c = true) ∧ decimal (twoDigits n) = n := by
  have htens := digitByte_spec (n := n / 10) (by omega)
  have hones := digitByte_spec (n := n % 10) (by omega)
  refine ⟨?_, ?_⟩
  · intro c hc
    simp only [twoDigits, List.mem_cons, List.not_mem_nil, or_false] at hc
    rcases hc with rfl | rfl
    · exact htens.1
    · exact hones.1
  · simp only [decimal, decimalFrom, twoDigits, List.foldl_cons, List.foldl_nil]
    rw [htens.2, hones.2]
    omega

theorem fourDigits_spec {n : Nat} (h : n < 10000) :
    (∀ c ∈ fourDigits n, isDigit c = true) ∧ decimal (fourDigits n) = n := by
  have hhigh := twoDigits_spec (n := n / 100) (by omega)
  have hlow := twoDigits_spec (n := n % 100) (by omega)
  refine ⟨?_, ?_⟩
  · intro c hc
    rcases List.mem_append.mp hc with hc | hc
    · exact hhigh.1 c hc
    · exact hlow.1 c hc
  · have hjoin : decimal (fourDigits n) =
        decimal (twoDigits (n / 100)) * 100 + decimal (twoDigits (n % 100)) := by
      simp only [decimal, decimalFrom, fourDigits, twoDigits, List.cons_append, List.nil_append,
        List.foldl_cons, List.foldl_nil]
      omega
    rw [hjoin, hhigh.2, hlow.2]
    omega

/-- Something behind a number, which is no digit. -/
def Ended (rest : Bytes) : Prop := ∀ c ∈ rest.head?, isDigit c = false

theorem ended_space (rest : Bytes) : Ended (32 :: rest) := by
  rintro c ⟨⟩
  decide

theorem ended_nil : Ended [] := nofun

/-- Digits in front of something else are read as the number that they are. -/
theorem strNumber_digits {digits : Bytes} {n : Nat} (hne : digits ≠ [])
    (hdigits : ∀ c ∈ digits, isDigit c = true) (hval : decimal digits = n) (hn : n ≤ 99999999)
    (hrest : Ended rest) : strNumber (digits ++ rest) 99999999 = .ok (n, rest) := by
  have htake : rest.takeWhile isDigit = [] ∧ rest.dropWhile isDigit = rest := by
    cases rest with
    | nil => exact ⟨rfl, rfl⟩
    | cons c rest =>
      have hc := hrest c rfl
      exact ⟨List.takeWhile_cons_of_neg (by simp [hc]), List.dropWhile_cons_of_neg (by simp [hc])⟩
  rw [strNumber_eq (by decide), List.takeWhile_append_of_pos hdigits,
    List.dropWhile_append_of_pos hdigits, htake.1, htake.2, List.append_nil, if_neg hne, hval,
    if_pos hn]

/-- A number with no colon behind it is no time of day. -/
theorem matchTime_none {n : Nat} (hn : n < 100) {text : Bytes} (h : byteAt text 0 ≠ 58) :
    matchTime (twoDigits n ++ text) = none := by
  have htext : twoDigits n ++ text = digitByte (n / 10) :: digitByte (n % 10) :: text := rfl
  rw [htext, matchTime, oneortwodigit_two hn]
  simp [h]

theorem datenum_mday {mday : Nat} (hmday : 1 ≤ mday ∧ mday ≤ 31) (indate rest : Bytes)
    (hsec : w.sec = -1) (hw : w.mday = -1) :
    datenum indate (twoDigits mday ++ 32 :: rest) w .mday =
      some (32 :: rest, { w with mday := mday }, .year) := by
  obtain ⟨hdigits, hval⟩ := twoDigits_spec (n := mday) (by omega)
  have hlength : (twoDigits mday ++ 32 :: rest).length - (32 :: rest).length = 2 := by
    simp [twoDigits]
  rw [datenum, if_pos hsec, matchTime_none (by omega) (by simp [byteAt]),
    strNumber_digits (by simp [twoDigits]) hdigits hval (by omega) (ended_space rest)]
  dsimp only
  rw [hlength, if_neg (by simp), if_neg (by simp), dayOrYear, if_pos ⟨rfl, hw, by omega, by omega⟩]
  rfl

theorem datenum_year {year : Nat} (hyear : 1583 ≤ year ∧ year ≤ 9999) (indate : Bytes)
    (hrest : Ended rest) (hmday : w.mday ≠ -1) (hw : w.year = -1) :
    datenum indate (fourDigits year ++ rest) w .year =
      some (rest, { w with year := year }, .year) := by
  obtain ⟨hdigits, hval⟩ := fourDigits_spec (n := year) (by omega)
  have hlength : (fourDigits year ++ rest).length - rest.length = 4 := by
    rw [List.length_append, Nat.add_sub_cancel]
    rfl
  have hnone : (if w.sec = -1 then matchTime (fourDigits year ++ rest) else none) = none := by
    split
    · rw [fourDigits, List.append_assoc]
      exact matchTime_none (by omega) (digitByte_ne_colon (by omega))
    · rfl
  rw [datenum, hnone,
    strNumber_digits (by simp [fourDigits, twoDigits]) hdigits hval (by omega) hrest]
  dsimp only
  rw [hlength, if_neg (by omega), if_neg (by simp), dayOrYear, if_neg (by simp)]
  simp only [reduceCtorEq, false_and, if_false]
  rw [if_pos ⟨trivial, hw⟩, if_neg (by omega), if_neg hmday]
  rfl

theorem byteBefore_cons (before : Bytes) (c : UInt8) (date : Bytes) :
    byteBefore (before ++ c :: date) date = some c := by
  have hpos : (before ++ c :: date).length - date.length = before.length + 1 := by
    simp only [List.length_append, List.length_cons]
    omega
  rw [byteBefore, hpos]
  simp

theorem datenum_zone {zone : Zone} (h : zone.Valid) (before : Bytes) (hsec : w.sec ≠ -1)
    (hw : w.tzoff = -1) (dignext : Assume) :
    datenum (before ++ zone.text) (twoDigits zone.hours ++ twoDigits zone.minutes) w dignext =
      some ([], { w with tzoff := -zone.offset }, dignext) := by
  have hminutes := h.minutes
  have hle := h.le
  have hfour : twoDigits zone.hours ++ twoDigits zone.minutes =
      fourDigits (zone.hours * 100 + zone.minutes) := by
    rw [fourDigits, show (zone.hours * 100 + zone.minutes) / 100 = zone.hours by omega,
      show (zone.hours * 100 + zone.minutes) % 100 = zone.minutes by omega]
  obtain ⟨hdigits, hval⟩ := fourDigits_spec (n := zone.hours * 100 + zone.minutes) (by omega)
  have hnumber := strNumber_digits (by simp [fourDigits, twoDigits]) hdigits hval (by omega)
    ended_nil
  rw [List.append_nil] at hnumber
  rw [Zone.text, hfour, datenum, if_neg hsec]
  dsimp only
  rw [hnumber]
  dsimp only
  rw [byteBefore_cons, if_pos ⟨hw, rfl, hle, by cases zone.ahead <;> simp⟩,
    show (zone.hours * 100 + zone.minutes) / 100 = zone.hours by omega,
    show (zone.hours * 100 + zone.minutes) % 100 = zone.minutes by omega, Zone.offset]
  cases zone.ahead <;> simp

/-! ### The loop -/

/-- The loop at a name. -/
theorem dateLoop_name {indate date text after : Bytes} {w' : When} {dignext : Assume}
    (hne : date ≠ []) (hskip : skip date = text) (halpha : isAlpha (byteAt text 0) = true)
    (hname : datestring text w = some (after, w')) (parts : Nat) :
    dateLoop indate (parts + 1) date w dignext = dateLoop indate parts after w' dignext := by
  rw [dateLoop, if_neg hne, hskip]
  simp only [halpha, if_true, hname]

theorem dateLoop_nil (indate : Bytes) (parts : Nat) (dignext : Assume) :
    dateLoop indate parts [] w dignext = some w := by
  cases parts with
  | zero => rfl
  | succ parts => rw [dateLoop, if_pos rfl]

/-- What is skipped in front of a part. -/
theorem skip_separator {separator text : Bytes} (hsep : ∀ c ∈ separator, isAlnum c = false)
    (htext : isAlnum (byteAt text 0) = true) : skip (separator ++ text) = text := by
  rw [skip, List.dropWhile_append_of_pos (fun c hc => by rw [hsep c hc]; rfl)]
  cases text with
  | nil => rfl
  | cons c text => exact List.dropWhile_cons_of_neg (by simpa [byteAt] using htext)

theorem space_separates : ∀ c ∈ [32], isAlnum c = false := by
  intro c hc
  rw [List.mem_singleton.mp hc]
  decide

theorem comma_separates : ∀ c ∈ [44, 32], isAlnum c = false := by
  intro c hc
  rcases List.mem_pair.mp hc with rfl | rfl
  · decide
  · decide

theorem skip_space {text : Bytes} (h : isAlnum (byteAt text 0) = true) :
    skip (32 :: text) = text := skip_separator space_separates h

theorem alnum_of_digit {c : UInt8} (h : isDigit c = true) : isAlnum c = true := by
  rw [isAlnum, h, Bool.true_or]

theorem alnum_of_alpha {c : UInt8} (h : isAlpha c = true) : isAlnum c = true := by
  rw [isAlnum, h, Bool.or_true]

theorem isDigit_twoDigits {n : Nat} (h : n < 100) (rest : Bytes) :
    isDigit (byteAt (twoDigits n ++ rest) 0) = true :=
  (twoDigits_spec h).1 _ List.mem_cons_self

theorem isDigit_fourDigits {n : Nat} (h : n < 10000) (rest : Bytes) :
    isDigit (byteAt (fourDigits n ++ rest) 0) = true :=
  (fourDigits_spec h).1 _ List.mem_cons_self

theorem isDigit_time {hour min sec : Nat} (h : hour < 100) (rest : Bytes) :
    isDigit (byteAt (timeDigits hour min sec ++ rest) 0) = true :=
  (digitByte_spec (by omega)).1

theorem isAlpha_name {name : Bytes} (halpha : ∀ d ∈ name, isAlpha d = true)
    (hlen : name.length = 3) (rest : Bytes) : isAlpha (byteAt (name ++ rest) 0) = true := by
  cases name with
  | nil => cases hlen
  | cons c name => exact halpha c List.mem_cons_self

/-- The offset that a zone at the end of a date leaves. -/
def tzoffOf (default : Int) : Option Zone → Int
  | none => default
  | some zone => -zone.offset

/-- A numeric zone at the end. -/
theorem dateLoop_zone {zone : Zone} (h : zone.Valid) (before : Bytes) (hsec : w.sec ≠ -1)
    (hw : w.tzoff = -1) (dignext : Assume) (parts : Nat) :
    dateLoop (before ++ 32 :: zone.text) (parts + 1) (32 :: zone.text) w dignext =
      some { w with tzoff := -zone.offset } := by
  have hle := h.le
  have hdigit := isDigit_twoDigits (n := zone.hours) (by omega) (twoDigits zone.minutes)
  have hskip : skip (32 :: zone.text) = twoDigits zone.hours ++ twoDigits zone.minutes := by
    have hsign : isAlnum (if zone.ahead then 43 else 45) = false := by
      cases zone.ahead <;> decide
    apply @skip_separator [32, if zone.ahead then 43 else 45] _ _ (alnum_of_digit hdigit)
    intro c hc
    rcases List.mem_pair.mp hc with rfl | rfl
    · decide
    · exact hsign
  have hread := datenum_zone h (before ++ [32]) hsec hw dignext
  rw [List.append_assoc, List.singleton_append] at hread
  rw [dateLoop_num (by simp) hskip hdigit hread, dateLoop_nil]

/-! ### Whole dates -/

/-- What the loop has found out at the end. -/
def found (tm : Tm) (wday tzoff : Int) : When where
  wday := wday
  mon := tm.mon
  mday := tm.mday
  hour := tm.hour
  min := tm.min
  sec := tm.sec
  year := tm.year
  tzoff := tzoff

/-- A date and time of the years that `parsedate` accepts. -/
structure Dated (tm : Tm) : Prop where
  civil : tm.Civil
  year : 1583 ≤ tm.year ∧ tm.year ≤ 9999

theorem monthDays_le (year mon : Nat) : monthDays year mon ≤ 31 := by
  unfold monthDays
  split
  case h_8 => split <;> omega
  all_goals omega

variable {tm : Tm} {zone : Option Zone}

theorem Dated.mday (h : Dated tm) : 1 ≤ tm.mday ∧ tm.mday ≤ 31 :=
  ⟨h.civil.mday.1, h.civil.mday.2.trans (monthDays_le _ _)⟩

/-- The zone at the end of a date, if there is one. -/
theorem dateLoop_end (hzone : ∀ z ∈ zone, z.Valid) {wday default : Int} {text : Bytes}
    (before : Bytes) {dignext : Assume} {parts : Nat}
    (hdefault : zone = none →
    dateLoop (before ++ text) (parts + 1) text (found tm wday (-1)) dignext =
      some (found tm wday default)) :
    dateLoop (before ++ zoneText text zone) (parts + 1) (zoneText text zone) (found tm wday (-1))
      dignext = some (found tm wday (tzoffOf default zone)) := by
  cases zone with
  | none => exact hdefault rfl
  | some z => exact dateLoop_zone (hzone z rfl) before (by show (tm.sec : Int) ≠ -1; omega) rfl _ _

variable {indate separator rest : Bytes} {dignext : Assume} {parts : Nat}

theorem dateLoop_time (h : Dated tm) (hw : w.sec = -1) :
    dateLoop indate (parts + 1) (32 :: (timeText tm ++ rest)) w dignext =
      dateLoop indate parts rest { w with hour := tm.hour, min := tm.min, sec := tm.sec }
        dignext := by
  have hhour := h.civil.hour
  have hmin := h.civil.min
  have hsec := h.civil.sec
  have hdigit := @isDigit_time tm.hour tm.min tm.sec (by omega) rest
  have hnum := @datenum_time tm.hour tm.min tm.sec (by omega) (by omega) (by omega) indate rest w hw
    dignext
  exact dateLoop_num (by simp) (skip_space (alnum_of_digit hdigit)) hdigit hnum parts

theorem dateLoop_mday (h : Dated tm) (hsep : ∀ c ∈ separator, isAlnum c = false)
    (hsec : w.sec = -1) (hw : w.mday = -1) :
    dateLoop indate (parts + 1) (separator ++ (twoDigits tm.mday ++ 32 :: rest)) w .mday =
      dateLoop indate parts (32 :: rest) { w with mday := tm.mday } .year := by
  have hmday := h.mday
  have hdigit := isDigit_twoDigits (n := tm.mday) (by omega) (32 :: rest)
  exact dateLoop_num (by simp) (skip_separator hsep (alnum_of_digit hdigit)) hdigit
    (datenum_mday hmday indate rest hsec hw) parts

theorem dateLoop_year (h : Dated tm) (hrest : Ended rest) (hmday : w.mday ≠ -1)
    (hw : w.year = -1) :
    dateLoop indate (parts + 1) (32 :: (fourDigits tm.year ++ rest)) w .year =
      dateLoop indate parts rest { w with year := tm.year } .year := by
  have hyear := h.year
  have hdigit := isDigit_fourDigits (n := tm.year) (by omega) rest
  exact dateLoop_num (by simp) (skip_space (alnum_of_digit hdigit)) hdigit
    (datenum_year hyear indate hrest hmday hw) parts

theorem dateLoop_mon (h : Dated tm) (hwday : w.wday ≠ -1) (hw : w.mon = -1) :
    dateLoop indate (parts + 1) (32 :: (monText tm.mon ++ 32 :: rest)) w dignext =
      dateLoop indate parts (32 :: rest) { w with mon := tm.mon } dignext := by
  obtain ⟨halpha, hlen, -⟩ := monText_spec tm.mon h.civil.mon
  have hfirst := isAlpha_name halpha hlen (32 :: rest)
  exact dateLoop_name (by simp) (skip_space (alnum_of_alpha hfirst)) hfirst
    (datestring_mon h.civil.mon (by decide) hwday hw) parts

theorem dateLoop_wday (wday : Fin 7) (hc : isAlpha c = false) :
    dateLoop indate (parts + 1) (wdayText wday ++ c :: rest) initwhen dignext =
      dateLoop indate parts (c :: rest) { initwhen with wday := (wday : Int) } dignext := by
  obtain ⟨halpha, hlen, -⟩ := wdayText_spec wday
  have hfirst := isAlpha_name halpha hlen (c :: rest)
  have hskip := @skip_separator [] (wdayText wday ++ c :: rest) (List.forall_mem_nil _)
    (alnum_of_alpha hfirst)
  exact dateLoop_name (by simp) hskip hfirst (datestring_wday wday hc rfl) parts

theorem zoneText_ended {text : Bytes} (htext : Ended text) : Ended (zoneText text zone) := by
  cases zone with
  | none => exact htext
  | some z => exact ended_space z.text

theorem dateLoop_compact (h : Dated tm) (hzone : ∀ z ∈ zone, z.Valid) :
    dateLoop (Format.compact.text tm zone) 6 (Format.compact.text tm zone) initwhen .mday =
      some (found tm (-1) (tzoffOf (-1) zone)) := by
  have hyear := h.year
  have hmon := h.civil.mon
  have hmday := h.mday
  have hend := @dateLoop_end tm zone hzone (-1) (-1) []
    (dateDigits tm.year (tm.mon + 1) tm.mday ++ 32 :: timeText tm) .mday 3 fun _ =>
      dateLoop_nil _ _ _
  rw [List.append_assoc, List.cons_append] at hend
  have hmonth : ((tm.mon + 1 : Nat) : Int) - 1 = tm.mon := by omega
  rw [Format.text, dateLoop_num (by simp) (skip_date (by omega) _) ((digitByte_spec (by omega)).1)
      (datenum_date (by omega) (by omega) (by omega) _ _), hmonth, dateLoop_time h rfl]
  exact hend

theorem dateLoop_rfc1123 (h : Dated tm) (hzone : ∀ z ∈ zone, z.Valid) (wday : Fin 7) :
    dateLoop ((Format.rfc1123 wday).text tm zone) 6 ((Format.rfc1123 wday).text tm zone) initwhen
      .mday = some (found tm wday (tzoffOf 0 zone)) := by
  have hgmt (indate : Bytes) (dignext : Assume) :
      dateLoop indate 1 (32 :: ascii "GMT") (found tm wday (-1)) dignext =
        some (found tm wday 0) := by
    have hname := @datestring_gmt (found tm wday (-1)) (by show (wday : Int) ≠ -1; omega)
      (by show (tm.mon : Int) ≠ -1; omega) rfl
    exact dateLoop_name (by simp) (skip_space (by decide)) (by decide) hname 0
  have hend := @dateLoop_end tm zone hzone wday 0 (32 :: ascii "GMT")
    (wdayText wday ++ 44 :: 32 :: (twoDigits tm.mday ++ 32 :: (monText tm.mon ++ 32 ::
      (fourDigits tm.year ++ 32 :: timeText tm)))) .year 0 fun _ => hgmt _ _
  simp only [List.append_assoc, List.cons_append] at hend
  rw [Format.text, dateLoop_wday wday (by decide)]
  refine (dateLoop_mday h comma_separates rfl rfl).trans ?_
  rw [dateLoop_mon h (by show (wday : Int) ≠ -1; omega) rfl,
    dateLoop_year h (ended_space _) (by show (tm.mday : Int) ≠ -1; omega) rfl,
    dateLoop_time h rfl]
  exact hend

theorem dateLoop_asctime (h : Dated tm) (hzone : ∀ z ∈ zone, z.Valid) (wday : Fin 7) :
    dateLoop ((Format.asctime wday).text tm zone) 6 ((Format.asctime wday).text tm zone) initwhen
      .mday = some (found tm wday (tzoffOf (-1) zone)) := by
  have hend := @dateLoop_end tm zone hzone wday (-1) []
    (wdayText wday ++ 32 :: (monText tm.mon ++ 32 :: (twoDigits tm.mday ++ 32 :: (timeText tm ++
      32 :: fourDigits tm.year)))) .year 0 fun _ => dateLoop_nil _ _ _
  simp only [List.append_assoc, List.cons_append] at hend
  rw [Format.text, dateLoop_wday wday (by decide),
    dateLoop_mon h (by show (wday : Int) ≠ -1; omega) rfl]
  refine (dateLoop_mday h space_separates rfl rfl).trans ?_
  rw [dateLoop_time h rfl, dateLoop_year h (zoneText_ended ended_nil)
    (by show (tm.mday : Int) ≠ -1; omega) rfl]
  exact hend

/-- What has been found is a date, and its time. -/
theorem time2epoch_found (h : Dated tm) (wday tzoff : Int) :
    datecheck (found tm wday tzoff) = some (found tm wday tzoff) ∧
      time2epoch (found tm wday tzoff) = secondsSince1970 tm := by
  have hyear := h.year
  have hmon := h.civil.mon
  have hmday := h.mday
  have hhour := h.civil.hour
  have hmin := h.civil.min
  have hsec := h.civil.sec
  constructor
  · have hd : (found tm wday tzoff).mday = tm.mday := rfl
    have hm : (found tm wday tzoff).mon = tm.mon := rfl
    have hy : (found tm wday tzoff).year = tm.year := rfl
    have hhh : (found tm wday tzoff).hour = tm.hour := rfl
    have hmm : (found tm wday tzoff).min = tm.min := rfl
    have hss : (found tm wday tzoff).sec = tm.sec := rfl
    have hknown : ¬ (found tm wday tzoff).sec = -1 := by omega
    simp only [datecheck, if_neg hknown]
    rw [if_neg (by omega), if_neg (by omega), if_neg (by omega)]
  · rw [time2epoch_eq (by show (1 : Int) ≤ tm.year; omega), secondsSince1970, secondOfDay,
      ← dayOfDate_eq hmon]
    simp only [found]
    push_cast
    omega

/-- The seconds by which a date is ahead of GMT. -/
def zoneOffset : Option Zone → Int
  | none => 0
  | some zone => zone.offset

theorem offset_bounds {z : Zone} (h : z.Valid) : -86400 < z.offset ∧ z.offset < 86400 ∧
    -z.offset ≠ -1 := by
  have := h.le
  have := h.minutes
  rw [Zone.offset]
  cases z.ahead with
  | false =>
    simp only [Bool.false_eq_true, if_false]
    omega
  | true =>
    simp only [if_true]
    omega

theorem tzadjust_some {tzoff t : Int} (hne : w.tzoff ≠ -1) (hw : w.tzoff = tzoff)
    (hlow : tzoff < 86400) (ht : t ≤ 300000000000) : tzadjust t w = t + tzoff := by
  have hmax : curlOffTMax = 9223372036854775807 := rfl
  have htz : (if w.tzoff = -1 then 0 else w.tzoff) = tzoff := by rw [if_neg hne, hw]
  rw [tzadjust, htz, if_neg (by omega)]

theorem secondsSince1970_le (h : Dated tm) : secondsSince1970 tm ≤ 300000000000 := by
  have hyear := h.year
  have hmday := h.mday
  have hday := dayOfDate_eq h.civil.mon
  have hlt := h.civil.secondOfDay_lt
  have hcumulative : cumulativeDays tm.mon ≤ 334 := by
    have hmon := h.civil.mon
    interval_cases tm.mon <;> decide
  rw [secondsSince1970, ← hday, dayOfDate, Int.toNat_natCast]
  split <;> omega

theorem tzadjust_found (h : Dated tm) (hzone : ∀ z ∈ zone, z.Valid) {wday default : Int}
    (hdefault : default = -1 ∨ default = 0) :
    tzadjust (secondsSince1970 tm) (found tm wday (tzoffOf default zone)) =
      secondsSince1970 tm - zoneOffset zone := by
  have hle := secondsSince1970_le h
  cases zone with
  | none =>
    show tzadjust _ (found tm wday default) = _ - 0
    rw [Int.sub_zero]
    obtain rfl | rfl := hdefault
    · exact tzadjust_none rfl _
    · rw [tzadjust_some (by show (0 : Int) ≠ -1; omega) rfl (by show (0 : Int) < 86400; omega) hle]
      exact Int.add_zero _
  | some z =>
    obtain ⟨hlow, hhigh, hne⟩ := offset_bounds (hzone z rfl)
    have htz : (found tm wday (tzoffOf default (some z))).tzoff = -z.offset := rfl
    rw [tzadjust_some (htz ▸ hne) htz (by omega) hle]
    exact Int.sub_eq_add_neg.symm

theorem parsedate_of_loop (h : Dated tm) (hzone : ∀ z ∈ zone, z.Valid) {date : Bytes}
    {wday default : Int} (hdefault : default = -1 ∨ default = 0)
    (hloop : dateLoop date 6 date initwhen .mday = some (found tm wday (tzoffOf default zone))) :
    parsedate date = some (secondsSince1970 tm - zoneOffset zone) := by
  obtain ⟨hcheck, htime⟩ := time2epoch_found h wday (tzoffOf default zone)
  rw [parsedate, hloop, Option.bind_eq_bind, Option.bind_some, hcheck, Option.bind_some, htime,
    tzadjust_found h hzone hdefault]

/-- The three formats of a date are read as the number of seconds since 1970, less what the zone is
ahead of GMT; and later dates have more seconds. -/
theorem parsedate_formats {tm : Tm} (h : Dated tm) :
    (∀ format zone, (∀ z ∈ zone, z.Valid) →
      parsedate (Format.text tm zone format) = some (secondsSince1970 tm - zoneOffset zone)) ∧
    ∀ tm', Dated tm' → tm.numbers < tm'.numbers →
      ∀ wday wday' tzoff tzoff',
        time2epoch (found tm wday tzoff) < time2epoch (found tm' wday' tzoff') := by
  constructor
  · intro format zone hzone
    cases format with
    | compact => exact parsedate_of_loop h hzone (.inl rfl) (dateLoop_compact h hzone)
    | rfc1123 wday => exact parsedate_of_loop h hzone (.inr rfl) (dateLoop_rfc1123 h hzone wday)
    | asctime wday => exact parsedate_of_loop h hzone (.inl rfl) (dateLoop_asctime h hzone wday)
  · intro tm' h' hlt wday wday' tzoff tzoff'
    rw [(time2epoch_found h wday tzoff).2, (time2epoch_found h' wday' tzoff').2]
    exact secondsSince1970_lt h.civil h'.civil hlt

/-- The end of November 1994, ahead of GMT by two hours, and the next day. -/
theorem parsedate_formats_1994 :
    parsedate ((Format.rfc1123 2).text ⟨1994, 10, 30, 8, 49, 37⟩ (some ⟨true, 2, 0⟩)) =
      some (secondsSince1970 ⟨1994, 10, 30, 8, 49, 37⟩ - 7200) ∧
    time2epoch (found ⟨1994, 10, 30, 8, 49, 37⟩ 2 0) <
      time2epoch (found ⟨1994, 11, 1, 0, 0, 0⟩ 3 0) := by
  have hlast : Dated ⟨1994, 10, 30, 8, 49, 37⟩ :=
    ⟨⟨by decide, by decide, by decide, by decide, by decide⟩, by decide⟩
  have hfirst : Dated ⟨1994, 11, 1, 0, 0, 0⟩ :=
    ⟨⟨by decide, by decide, by decide, by decide, by decide⟩, by decide⟩
  have hzone : ∀ z ∈ some (Zone.mk true 2 0), z.Valid := by
    rintro z ⟨⟩
    exact ⟨by decide, by decide⟩
  exact ⟨(parsedate_formats hlast).1 (.rfc1123 2) _ hzone,
    (parsedate_formats hlast).2 _ hfirst (by decide) 2 3 0 0⟩

end Gurl
