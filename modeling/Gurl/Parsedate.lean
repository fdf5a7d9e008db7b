import Gurl.Lib.Calendar
import Gurl.Mprintf
import Gurl.Strcase

/-! `lib/parsedate.c`: the dates that libcurl reads, with a `time_t` of 64 bits. -/

namespace Gurl.Parsedate

open Strcase Strparse

def isAlpha (c : UInt8) : Bool := (97 ≤ c && c ≤ 122) || (65 ≤ c && c ≤ 90)

def isAlnum (c : UInt8) : Bool := isDigit c || isAlpha c

/-- `Curl_wkday`. -/
def wkday : List String := ["Mon", "Tue", "Wed", "Thu", "Fri", "Sat", "Sun"]

/-- `weekday`. -/
def weekday : List String :=
  ["Monday", "Tuesday", "Wednesday", "Thursday", "Friday", "Saturday", "Sunday"]

/-- `Curl_month`. -/
def month : List String :=
  ["Jan", "Feb", "Mar", "Apr", "May", "Jun", "Jul", "Aug", "Sep", "Oct", "Nov", "Dec"]

/-- `tDAYZONE`. -/
def tDayzone : Int := -60

/-- `tz`: time zones, and their offsets in minutes. -/
def tz : List (String × Int) :=
  [("A", -1 * 60), ("ADT", 240 + tDayzone), ("AHST", 600), ("AST", 240), ("B", -2 * 60),
    ("BST", 0 + tDayzone), ("C", -3 * 60), ("CAT", 600), ("CCT", -480), ("CDT", 360 + tDayzone),
    ("CEST", -60 + tDayzone), ("CET", -60), ("CST", 360), ("D", -4 * 60), ("E", -5 * 60),
    ("EADT", -600 + tDayzone), ("EAST", -600), ("EDT", 300 + tDayzone), ("EET", -120),
    ("EST", 300), ("F", -6 * 60), ("FST", -60 + tDayzone), ("FWT", -60), ("G", -7 * 60),
    ("GMT", 0), ("GST", -600), ("H", -8 * 60), ("HDT", 600 + tDayzone), ("HST", 600),
    ("I", -9 * 60), ("IDLE", -720), ("IDLW", 720), ("JST", -540), ("K", -10 * 60),
    ("L", -11 * 60), ("M", -12 * 60), ("MDT", 420 + tDayzone), ("MEST", -60 + tDayzone),
    ("MESZ", -60 + tDayzone), ("MET", -60), ("MEWT", -60), ("MST", 420), ("N", 60), ("NT", 660),
    ("NZDT", -720 + tDayzone), ("NZST", -720), ("NZT", -720), ("O", 2 * 60), ("P", 3 * 60),
    ("PDT", 480 + tDayzone), ("PST", 480), ("Q", 4 * 60), ("R", 5 * 60), ("S", 6 * 60),
    ("T", 7 * 60), ("U", 8 * 60), ("UT", 0), ("UTC", 0), ("V", 9 * 60), ("W", 10 * 60),
    ("WADT", -420 + tDayzone), ("WAST", -420), ("WAT", 60), ("WET", 0), ("X", 11 * 60),
    ("Y", 12 * 60), ("YDT", 540 + tDayzone), ("YST", 540), ("Z", 0)]

/-- The position of a name in a list, or -1. -/
def findName (names : List String) (p : Bytes → Bool) : Int :=
  match names.findIdx? fun name => p (ascii name) with
  | some i => i
  | none => -1

/-- `checkday`. -/
def checkday (check : Bytes) (len : Nat) : Int :=
  if len > 3 then findName weekday fun what => what.length = len && strnequal check what len
  else if len = 3 then findName wkday fun what => what.length = len && strnequal check what len
  else -1

/-- `checkmonth`. -/
def checkmonth (check : Bytes) (len : Nat) : Int :=
  if len ≠ 3 then -1 else findName month fun what => strnequal check what 3

/-- `checktz`; the binary search looks at the case of letters. -/
def checktz (check : Bytes) (len : Nat) : Int :=
  if len ≤ 4 then
    match tz.find? fun (name, _) => ascii name = check.take len with
    | some (_, offset) => offset * 60
    | none => -1
  else -1

/-- `skip`. -/
def skip (date : Bytes) : Bytes := date.dropWhile fun c => !isAlnum c

/-- `struct when`: a field is -1 while it is not known. -/
structure When where
  wday : Int
  mon : Int
  mday : Int
  hour : Int
  min : Int
  sec : Int
  year : Int
  tzoff : Int

/-- `initwhen`. -/
def initwhen : When where
  wday := -1
  mon := -1
  mday := -1
  hour := -1
  min := -1
  sec := -1
  year := -1
  tzoff := -1

/-- `enum assume`. -/
inductive Assume where
  | mday | year | time
  deriving DecidableEq

/-- `LEAP_DAYS_BEFORE_1969`. -/
def leapDaysBefore1969 : Int := 477

/-- `time2epoch`. -/
def time2epoch (w : When) : Int :=
  let y := w.year - if w.mon ≤ 1 then 1 else 0
  let leapDays := y.tdiv 4 - y.tdiv 100 + y.tdiv 400 - leapDaysBefore1969
  let days := (w.year - 1970) * 365 + leapDays + Calendar.cumulativeDays w.mon.toNat + w.mday - 1
  ((days * 24 + w.hour) * 60 + w.min) * 60 + w.sec

/-- The byte at a position, zero behind the end. -/
def byteAt (s : Bytes) (i : Nat) : UInt8 := s.getD i 0

/-- `oneortwodigit`: the number and what is behind it. -/
def oneortwodigit (date : Bytes) : Nat × Bytes :=
  let num := (byteAt date 0).toNat - 48
  if isDigit (byteAt date 1) then (num * 10 + ((byteAt date 1).toNat - 48), date.drop 2)
  else (num, date.drop 1)

/-- `match_time`: hours, minutes, seconds, and what is behind them; 58 is `:`. -/
def matchTime (date : Bytes) : Option (Nat × Nat × Nat × Bytes) :=
  let (hh, p) := oneortwodigit date
  if hh < 24 && byteAt p 0 = 58 && isDigit (byteAt p 1) then
    let (mm, p) := oneortwodigit (p.drop 1)
    if mm < 60 then
      if byteAt p 0 = 58 && isDigit (byteAt p 1) then
        let (ss, p) := oneortwodigit (p.drop 1)
        if ss ≤ 60 then some (hh, mm, ss, p) else none
      else some (hh, mm, 0, p)
    else none
  else none

/-- `NAME_LEN`. -/
def nameLen : Nat := 12

/-- `datestring`: what is behind the name. -/
def datestring (date : Bytes) (w : When) : Option (Bytes × When) :=
  let len := min (date.takeWhile isAlpha).length nameLen
  if len = nameLen then none
  else if w.wday = -1 ∧ checkday date len ≠ -1 then
    some (date.drop len, { w with wday := checkday date len })
  else if w.mon = -1 ∧ checkmonth date len ≠ -1 then
    some (date.drop len, { w with mon := checkmonth date len })
  else if w.tzoff = -1 ∧ checktz date len ≠ -1 then
    some (date.drop len, { w with tzoff := checktz date len })
  else none

/-- The byte in front of `date`, if this is not where the string starts. -/
def byteBefore (indate date : Bytes) : Option UInt8 :=
  let pos := indate.length - date.length
  if pos = 0 then none else indate[pos - 1]?

/-- The part of `datenum` behind the time zone and the compact date: a day or a year. -/
def dayOrYear (w : When) (dignext : Assume) (val : Nat) : Option (When × Assume) :=
  if dignext = .mday ∧ w.mday = -1 ∧ 0 < val ∧ val < 32 then some ({ w with mday := val }, .year)
  else
    let dignext := if dignext = .mday ∧ w.mday = -1 then .year else dignext
    if dignext = .year ∧ w.year = -1 then
      let year := if val < 100 then if val > 70 then val + 1900 else val + 2000 else val
      some ({ w with year := year }, if w.mday = -1 then .mday else dignext)
    else none

/-- `datenum`: what is behind the number; 43 is `+`, 45 is `-`. -/
def datenum (indate date : Bytes) (w : When) (dignext : Assume) :
    Option (Bytes × When × Assume) :=
  match if w.sec = -1 then matchTime date else none with
  | some (hh, mm, ss, rest) => some (rest, { w with hour := hh, min := mm, sec := ss }, dignext)
  | none =>
    match strNumber date 99999999 with
    | .error _ => none
    | .ok (val, rest) =>
      let numDigits := date.length - rest.length
      let before := byteBefore indate date
      if w.tzoff = -1 ∧ numDigits = 4 ∧ val ≤ 1400 ∧ (before = some 43 ∨ before = some 45) then
        let tzoff : Int := ((val / 100 * 60 + val % 100) * 60 : Nat)
        some (rest, { w with tzoff := if before = some 43 then -tzoff else tzoff }, dignext)
      else if numDigits = 8 ∧ w.year = -1 ∧ w.mon = -1 ∧ w.mday = -1 then
        some (rest, { w with
          year := (val / 10000 : Nat), mon := ((val % 10000 / 100 : Nat) : Int) - 1,
          mday := (val % 100 : Nat) }, dignext)
      else (dayOrYear w dignext val).map fun (w, dignext) => (rest, w, dignext)

/-- `datecheck`. -/
def datecheck (w : When) : Option When :=
  let w := if w.sec = -1 then { w with sec := 0, min := 0, hour := 0 } else w
  if w.mday = -1 ∨ w.mon = -1 ∨ w.year = -1 then none
  else if w.year < 1583 then none
  else if w.mday > 31 ∨ w.mon > 11 ∨ w.hour > 23 ∨ w.min > 59 ∨ w.sec > 60 then none
  else some w

/-- `tzadjust`. -/
def tzadjust (t : Int) (w : When) : Int :=
  let tzoff := if w.tzoff = -1 then 0 else w.tzoff
  if tzoff > 0 ∧ t > curlOffTMax - tzoff then curlOffTMax else t + tzoff

/-- The loop of `parsedate`, with the number of parts that are left. -/
def dateLoop (indate : Bytes) : Nat → Bytes → When → Assume → Option When
  | 0, _, w, _ => some w
  | parts + 1, date, w, dignext =>
    if date = [] then some w
    else
      let date := skip date
      if isAlpha (byteAt date 0) then
        match datestring date w with
        | some (date, w) => dateLoop indate parts date w dignext
        | none => none
      else if isDigit (byteAt date 0) then
        match datenum indate date w dignext with
        | some (date, w, dignext) => dateLoop indate parts date w dignext
        | none => none
      else dateLoop indate parts date w dignext

/-- `parsedate`: the time, unless the date is no date. -/
def parsedate (date : Bytes) : Option Int := do
  let w ← dateLoop date 6 date initwhen .mday
  let w ← datecheck w
  some (tzadjust (time2epoch w) w)

end Gurl.Parsedate

/-! How a date and a time of day are read. -/

namespace Gurl

open Calendar Strparse Mprintf Parsedate

/-- A digit as a byte. -/
def digitByte (n : Nat) : UInt8 := UInt8.ofNat (48 + n)

theorem digitByte_spec {n : Nat} (h : n < 10) :
    isDigit (digitByte n) = true ∧ (digitByte n).toNat - 48 = n :=
  ⟨(digit_spec n h).2, (digit_spec n h).1⟩

/-- The digits of a compact date. -/
def dateDigits (year mon mday : Nat) : Bytes :=
  [digitByte (year / 1000), digitByte (year / 100 % 10), digitByte (year / 10 % 10),
    digitByte (year % 10), digitByte (mon / 10), digitByte (mon % 10), digitByte (mday / 10),
    digitByte (mday % 10)]

variable {year mon mday : Nat}

theorem dateDigits_digits (hyear : year < 10000) (hmon : mon < 100) (hmday : mday < 100) :
    ∀ c ∈ dateDigits year mon mday, isDigit c = true := by
  intro c hc
  simp only [dateDigits, List.mem_cons, List.not_mem_nil, or_false] at hc
  rcases hc with rfl | rfl | rfl | rfl | rfl | rfl | rfl | rfl <;>
    exact (digitByte_spec (by omega)).1

theorem decimal_dateDigits (hyear : year < 10000) (hmon : mon < 100) (hmday : mday < 100) :
    decimal (dateDigits year mon mday) = year * 10000 + mon * 100 + mday := by
  simp only [decimal, decimalFrom, dateDigits, List.foldl_cons, List.foldl_nil]
  rw [(digitByte_spec (n := year / 1000) (by omega)).2,
    (digitByte_spec (n := year / 100 % 10) (by omega)).2,
    (digitByte_spec (n := year / 10 % 10) (by omega)).2,
    (digitByte_spec (n := year % 10) (by omega)).2, (digitByte_spec (n := mon / 10) (by omega)).2,
    (digitByte_spec (n := mon % 10) (by omega)).2, (digitByte_spec (n := mday / 10) (by omega)).2,
    (digitByte_spec (n := mday % 10) (by omega)).2]
  omega

theorem strNumber_dateDigits (hyear : year < 10000) (hmon : mon < 100) (hmday : mday < 100)
    (rest : Bytes) :
    strNumber (dateDigits year mon mday ++ 32 :: rest) 99999999 =
      .ok (year * 10000 + mon * 100 + mday, 32 :: rest) := by
  have hdigits := dateDigits_digits hyear hmon hmday
  rw [strNumber_eq (by decide), List.takeWhile_append_of_pos hdigits,
    List.dropWhile_append_of_pos hdigits, List.takeWhile_cons_of_neg (by decide),
    List.dropWhile_cons_of_neg (by decide), List.append_nil, if_neg (by simp [dateDigits]),
    decimal_dateDigits hyear hmon hmday, if_pos (by omega)]

/-- Two digits, as `match_time` reads them. -/
theorem oneortwodigit_two {n : Nat} (h : n < 100) (rest : Bytes) :
    oneortwodigit (digitByte (n / 10) :: digitByte (n % 10) :: rest) = (n, rest) := by
  obtain ⟨hdigit, hvalue⟩ := digitByte_spec (n := n % 10) (by omega)
  have htens := (digitByte_spec (n := n / 10) (by omega)).2
  simp only [oneortwodigit, byteAt, List.getD_cons_zero, List.getD_cons_succ, hdigit, if_true,
    hvalue, htens, List.drop_succ_cons, List.drop_zero]
  rw [Nat.div_add_mod']

/-- The digits of a time of day. -/
def timeDigits (hour min sec : Nat) : Bytes :=
  digitByte (hour / 10) :: digitByte (hour % 10) :: 58 :: digitByte (min / 10) ::
    digitByte (min % 10) :: 58 :: digitByte (sec / 10) :: digitByte (sec % 10) :: []

theorem digitByte_ne_colon {n : Nat} (h : n < 10) : digitByte n ≠ 58 := by
  intro heq
  have hdigit := (digitByte_spec h).1
  rw [heq] at hdigit
  cases hdigit

/-- A compact date is no time of day. -/
theorem matchTime_date (hyear : year < 10000) (rest : Bytes) :
    matchTime (dateDigits year mon mday ++ rest) = none := by
  have htwo : dateDigits year mon mday ++ rest = digitByte (year / 100 / 10) ::
      digitByte (year / 100 % 10) :: digitByte (year / 10 % 10) ::
      (dateDigits year mon mday ++ rest).drop 3 := by
    rw [Nat.div_div_eq_div_mul]
    rfl
  rw [htwo, matchTime, oneortwodigit_two (by omega)]
  simp [byteAt, digitByte_ne_colon (n := year / 10 % 10) (by omega)]

theorem matchTime_time {hour min sec : Nat} (hhour : hour < 24) (hmin : min < 60)
    (hsec : sec < 60) (rest : Bytes) :
    matchTime (timeDigits hour min sec ++ rest) = some (hour, min, sec, rest) := by
  have hm := (digitByte_spec (n := min / 10) (by omega)).1
  have hs := (digitByte_spec (n := sec / 10) (by omega)).1
  have htext : timeDigits hour min sec ++ rest =
      digitByte (hour / 10) :: digitByte (hour % 10) :: 58 :: digitByte (min / 10) ::
        digitByte (min % 10) :: 58 :: digitByte (sec / 10) :: digitByte (sec % 10) :: rest := rfl
  rw [htext, matchTime, oneortwodigit_two (by omega)]
  simp only [byteAt, List.getD_cons_zero, List.getD_cons_succ, hm, hhour, decide_true,
    Bool.and_self, if_true, List.drop_succ_cons, List.drop_zero]
  rw [oneortwodigit_two (by omega)]
  simp only [List.getD_cons_zero, List.getD_cons_succ, hs, hmin, decide_true, Bool.and_self,
    if_true, List.drop_succ_cons, List.drop_zero]
  rw [oneortwodigit_two (by omega)]
  simp [Nat.le_of_lt hsec]

theorem datenum_date (hyear : year < 10000) (hmon : mon < 100) (hmday : mday < 100)
    (indate rest : Bytes) :
    datenum indate (dateDigits year mon mday ++ 32 :: rest) initwhen .mday =
      some (32 :: rest, { initwhen with year := year, mon := (mon : Int) - 1, mday := mday },
        .mday) := by
  have hlength : (dateDigits year mon mday ++ 32 :: rest).length - (32 :: rest).length = 8 := by
    simp [dateDigits]
  have hval : (year * 10000 + mon * 100 + mday) / 10000 = year ∧
      (year * 10000 + mon * 100 + mday) % 10000 / 100 = mon ∧
      (year * 10000 + mon * 100 + mday) % 100 = mday := by omega
  unfold datenum
  rw [if_pos (show initwhen.sec = -1 from rfl), matchTime_date hyear,
    strNumber_dateDigits hyear hmon hmday]
  dsimp only
  rw [hlength, hval.1, hval.2.1, hval.2.2, if_neg (by simp), if_pos ⟨rfl, rfl, rfl, rfl⟩]

theorem skip_date (hyear : year < 10000) (rest : Bytes) :
    skip (dateDigits year mon mday ++ rest) = dateDigits year mon mday ++ rest := by
  simp [skip, dateDigits, isAlnum, (digitByte_spec (n := year / 1000) (by omega)).1]

theorem not_alpha_of_digit {c : UInt8} (h : isDigit c = true) : isAlpha c = false := by
  have hall : ((List.range 256).all fun n =>
      !isDigit (UInt8.ofNat n) || !isAlpha (UInt8.ofNat n)) = true := by decide +kernel
  have hc := List.all_eq_true.mp hall c.toNat (List.mem_range.mpr c.toNat_lt)
  rw [UInt8.ofNat_toNat, h] at hc
  simpa using hc

/-- The loop at a number. -/
theorem dateLoop_num {indate date num after : Bytes} {w w' : When} {dignext dignext' : Assume}
    (hne : date ≠ []) (hskip : skip date = num) (hdigit : isDigit (byteAt num 0) = true)
    (hnum : datenum indate num w dignext = some (after, w', dignext')) (parts : Nat) :
    dateLoop indate (parts + 1) date w dignext = dateLoop indate parts after w' dignext' := by
  rw [dateLoop, if_neg hne, hskip]
  simp only [not_alpha_of_digit hdigit, Bool.false_eq_true, if_false, hdigit, if_true, hnum]

theorem datenum_time {hour min sec : Nat} (hhour : hour < 24) (hmin : min < 60) (hsec : sec < 60)
    (indate rest : Bytes) {w : When} (hw : w.sec = -1) (dignext : Assume) :
    datenum indate (timeDigits hour min sec ++ rest) w dignext =
      some (rest, { w with hour := hour, min := min, sec := sec }, dignext) := by
  rw [datenum, if_pos hw, matchTime_time hhour hmin hsec]

theorem tzadjust_none {w : When} (h : w.tzoff = -1) (t : Int) : tzadjust t w = t := by
  simp [tzadjust, h]

/-- `time2epoch` counts the days as the calendar does. -/
theorem time2epoch_eq {w : When} (h : 1 ≤ w.year) :
    time2epoch w = ((dayOfDate w.year w.mon w.mday * 24 + w.hour) * 60 + w.min) * 60 + w.sec := by
  unfold time2epoch dayOfDate leapDaysBefore1969
  split
  · simp only [Int.tdiv_eq_ediv_of_nonneg (show 0 ≤ w.year - 1 by omega)]
  · simp only [Int.sub_zero, Int.tdiv_eq_ediv_of_nonneg (show 0 ≤ w.year by omega)]

end Gurl
