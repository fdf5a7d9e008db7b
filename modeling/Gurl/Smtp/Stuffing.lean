import Gurl.Buffer.Supply
import Gurl.Http.Encoder

/-! The reader of `lib/smtp.c` that escapes the lines of a mail body that start with a dot, and puts
the end of the body behind it. -/

namespace Gurl.Smtp

open Buffer
open Http (NextRead)

/-- `SMTP_EOB`. -/
def smtpEob : Bytes := [13, 10, 46, 13, 10]

/-- `SMTP_EOB_FIND_LEN`. -/
def smtpEobFindLen : Nat := 3

/-- `struct cr_eob_ctx`, with `data->state.infilesize`. -/
structure CrEob where
  buf : State
  nEob : Nat
  readEos : Bool
  processedEos : Bool
  eos : Bool
  infilesize : Int

/-- `cr_eob_init`. -/
def crEobInit (infilesize : Int) : CrEob where
  buf := bufqInit2 .empty (16 * 1024) 1 true false
  nEob := 2
  readEos := false
  processedEos := false
  eos := false
  infilesize := infilesize

/-- `Curl_bufq_cwrite`, with memory for every chunk that it asks for. -/
def CrEob.cwrite (ctx : CrEob) (bytes : Bytes) : Option (CrEob × Curlcode) := do
  let (buf, result, _) ← bufqWrite { ctx.buf with mallocs := bytes.length } bytes
  some ({ ctx with buf }, result)

/-- How far the end of the body is matched after another byte. -/
def matchEob (nEob : Nat) (c : UInt8) : Nat :=
  let nEob := if c ≠ smtpEob.getD nEob 0 then 0 else nEob
  if c = smtpEob.getD nEob 0 then nEob + 1 else nEob

/-- The matched part of the end of the body is followed by another byte: a dot is put in between. -/
def CrEob.addDot (ctx : CrEob) (pending : Bytes) : Option (CrEob × Curlcode) := do
  match ← ctx.cwrite pending with
  | (ctx, .ok) =>
    match ← ctx.cwrite [46] with
    | (ctx, .ok) =>
      let infilesize := if ctx.infilesize > 0 then ctx.infilesize + 1 else ctx.infilesize
      some ({ ctx with nEob := 0, infilesize }, .ok)
    | failure => some failure
  | failure => some failure

/-- The loop over the bytes that were read; `pending` are those from `start` on. -/
def scanLoop : CrEob → Bytes → Bytes → Option (CrEob × Curlcode × Bytes)
  | ctx, pending, [] => some (ctx, .ok, pending)
  | ctx, pending, c :: cs =>
    if ctx.nEob ≥ smtpEobFindLen then do
      match ← ctx.addDot pending with
      | (ctx, .ok) => scanLoop { ctx with nEob := matchEob ctx.nEob c } [c] cs
      | (ctx, result) => some (ctx, result, pending)
    else scanLoop { ctx with nEob := matchEob ctx.nEob c } (pending ++ [c]) cs

/-- Scan what was read, and add it to the buffer. -/
def CrEob.convert (ctx : CrEob) (bytes : Bytes) : Option (CrEob × Curlcode) := do
  match ← scanLoop ctx [] bytes with
  | (ctx, .ok, pending) => if pending ≠ [] then ctx.cwrite pending else some (ctx, .ok)
  | (ctx, result, _) => some (ctx, result)

/-- What ends the body. -/
def eobFor (nEob : Nat) : Bytes :=
  match nEob with
  | 2 => smtpEob.drop 2
  | 3 => 46 :: smtpEob
  | _ => smtpEob

/-- Add the end of the body, once it was read. -/
def CrEob.endBody (ctx : CrEob) : Option (CrEob × Curlcode) := do
  if ctx.readEos && !ctx.processedEos then
    match ← ctx.cwrite (eobFor ctx.nEob) with
    | (ctx, .ok) => some ({ ctx with processedEos := true }, .ok)
    | failure => some failure
  else some (ctx, .ok)

/-- What a read returns. -/
structure Answer where
  result : Curlcode
  bytes : Bytes
  eos : Bool

/-- The last part of `cr_eob_read`: hand out what is in the buffer. -/
def CrEob.drain (ctx : CrEob) (blen : Nat) : Option (CrEob × Answer) := do
  let (buf, result, bytes) ← if ← bufqIsEmpty ctx.buf then some (ctx.buf, .ok, [])
    else bufqRead ctx.buf blen
  let eos := ctx.eos || (ctx.readEos && (← bufqIsEmpty buf))
  some ({ ctx with buf, eos }, ⟨result, bytes, eos⟩)

/-- `cr_eob_read` from where the data of the next reader, if it was asked, is in the buffer. -/
def CrEob.finish (ctx : CrEob) (blen : Nat) : Option (CrEob × Answer) := do
  match ← ctx.endBody with
  | (ctx, .ok) => ctx.drain blen
  | (ctx, result) => some (ctx, ⟨result, [], false⟩)

/-- Whether `cr_eob_read` asks the next reader. -/
def CrEob.asks (ctx : CrEob) : Option Bool := do
  some (!ctx.readEos && (← bufqIsEmpty ctx.buf))

/-- `cr_eob_read`, with what the next reader returns if it is asked. -/
def crEobRead (ctx : CrEob) (blen : Nat) (read : NextRead) : Option (CrEob × Answer) := do
  if ← ctx.asks then
    if read.result ≠ .ok then some (ctx, ⟨read.result, [], false⟩)
    else
      let ctx := { ctx with readEos := read.eos }
      if read.bytes = [] then ctx.finish blen
      else if ctx.nEob = 0 ∧ 13 ∉ read.bytes then
        -- not in the middle of a match and no start of one: passed on without the buffer
        some (ctx, ⟨.ok, read.bytes, false⟩)
      else
        match ← ctx.convert read.bytes with
        | (ctx, .ok) => ctx.finish blen
        | (ctx, result) => some (ctx, ⟨result, [], false⟩)
  else ctx.finish blen

/-! The text that a mail body becomes: what the scan for the end of the body does to it byte for
byte, what that means for its lines, and what a receiver makes of it. -/

/-! ### The scan -/

/-- A match of three bytes is given up at the next byte. -/
def advance (n : Nat) (c : UInt8) : Nat := matchEob (if n ≥ smtpEobFindLen then 0 else n) c

/-- The match after some bytes. -/
def scan (n : Nat) (bytes : Bytes) : Nat := bytes.foldl advance n

/-- The bytes with a dot in front of each that follows a match. -/
def escape : Nat → Bytes → Bytes
  | _, [] => []
  | n, c :: cs => (if n ≥ smtpEobFindLen then [46] else []) ++ c :: escape (advance n c) cs

@[simp] theorem scan_nil (n : Nat) : scan n [] = n := rfl

@[simp] theorem scan_cons (n : Nat) (c : UInt8) (cs : Bytes) :
    scan n (c :: cs) = scan (advance n c) cs := rfl

theorem scan_append (n : Nat) (xs ys : Bytes) : scan n (xs ++ ys) = scan (scan n xs) ys :=
  List.foldl_append

theorem escape_append (n : Nat) (xs ys : Bytes) :
    escape n (xs ++ ys) = escape n xs ++ escape (scan n xs) ys := by
  induction xs generalizing n with
  | nil => rfl
  | cons c cs ih =>
    simp only [List.cons_append, escape, ih, scan, List.foldl_cons, List.append_assoc]

theorem advance_eq (n : Nat) (h : n ≤ 3) (c : UInt8) :
    advance n c =
      if c = 13 then 1 else if n = 1 ∧ c = 10 then 2 else if n = 2 ∧ c = 46 then 3 else 0 := by
  obtain rfl | rfl | rfl | rfl : n = 0 ∨ n = 1 ∨ n = 2 ∨ n = 3 := by omega
  all_goals
    simp only [advance, matchEob, smtpEob, smtpEobFindLen]
    by_cases h13 : c = 13
    · subst h13
      decide
    · by_cases h10 : c = 10
      · subst h10
        decide
      · by_cases h46 : c = 46
        · subst h46
          decide
        · simp [h13, h10, h46]

theorem advance_le (n : Nat) (h : n ≤ 3) (c : UInt8) : advance n c ≤ 3 := by
  rw [advance_eq n h]
  split
  · omega
  · split
    · omega
    · split <;> omega

theorem scan_le (n : Nat) (h : n ≤ 3) (bytes : Bytes) : scan n bytes ≤ 3 := by
  induction bytes generalizing n with
  | nil => exact h
  | cons c cs ih => exact ih (advance n c) (advance_le n h c)

/-- A scan that is in no match meets none without a CR. -/
theorem scan_without_cr {bytes : Bytes} (h : 13 ∉ bytes) :
    scan 0 bytes = 0 ∧ escape 0 bytes = bytes := by
  induction bytes with
  | nil => exact ⟨rfl, rfl⟩
  | cons c cs ih =>
    rw [List.mem_cons, not_or] at h
    have hzero : advance 0 c = 0 := by
      rw [advance_eq 0 (by omega), if_neg (Ne.symm h.1)]
      simp
    obtain ⟨hscan, hescape⟩ := ih h.2
    simp only [scan, List.foldl_cons, escape, hzero] at *
    exact ⟨hscan, by simp [smtpEobFindLen, hescape]⟩

/-! ### The lines -/

/-- Behind `before` a line starts. -/
def LineStart (before : Bytes) : Prop := before = [] ∨ [13, 10] <:+ before

instance (before : Bytes) : Decidable (LineStart before) :=
  inferInstanceAs (Decidable (_ ∨ _))

/-- The text behind `before`, with a dot behind each dot that starts a line. -/
def stuffBehind : Bytes → Bytes → Bytes
  | _, [] => []
  | before, c :: cs =>
    if c = 46 ∧ LineStart before then c :: 46 :: stuffBehind (before ++ [c]) cs
    else c :: stuffBehind (before ++ [c]) cs

/-- The body with a dot behind each dot that starts a line. -/
def dotStuff (body : Bytes) : Bytes := stuffBehind [] body

/-- What goes behind the body: the end of its last line, where that is missing, and the line that
ends the mail. -/
def ending (body : Bytes) : Bytes :=
  if LineStart body then [46, 13, 10] else [13, 10, 46, 13, 10]

/-- The match behind `before` says how its last line starts. -/
structure Matched (n : Nat) (before : Bytes) : Prop where
  le : n ≤ 3
  cr : n = 1 ↔ [13] <:+ before
  start : n = 2 ↔ LineStart before
  dot : n = 3 ↔ ∃ line, before = line ++ [46] ∧ LineStart line

theorem matched_nil : Matched 2 [] where
  le := by omega
  cr := by simp
  start := by simp [LineStart]
  dot := by simp

theorem concat_suffix_concat (xs before : Bytes) (a c : UInt8) :
    xs ++ [a] <:+ before ++ [c] ↔ c = a ∧ xs <:+ before := by
  rw [List.suffix_concat_iff]
  constructor
  · rintro (h | ⟨t, h, hsuffix⟩)
    · simp at h
    · obtain ⟨rfl, hlast⟩ := List.append_inj' h rfl
      cases hlast
      exact ⟨rfl, hsuffix⟩
  · rintro ⟨rfl, hsuffix⟩
    exact .inr ⟨xs, rfl, hsuffix⟩

theorem cr_concat (before : Bytes) (c : UInt8) : [13] <:+ before ++ [c] ↔ c = 13 := by
  have h := concat_suffix_concat [] before 13 c
  simpa using h

theorem lineStart_concat (before : Bytes) (c : UInt8) :
    LineStart (before ++ [c]) ↔ c = 10 ∧ [13] <:+ before := by
  have h := concat_suffix_concat [13] before 10 c
  simpa [LineStart] using h

theorem advance_eq_one (n : Nat) (h : n ≤ 3) (c : UInt8) : advance n c = 1 ↔ c = 13 := by
  rw [advance_eq n h]
  grind

theorem advance_eq_two (n : Nat) (h : n ≤ 3) (c : UInt8) : advance n c = 2 ↔ n = 1 ∧ c = 10 := by
  rw [advance_eq n h]
  grind

theorem advance_eq_three (n : Nat) (h : n ≤ 3) (c : UInt8) :
    advance n c = 3 ↔ n = 2 ∧ c = 46 := by
  rw [advance_eq n h]
  grind

theorem Matched.concat {n : Nat} {before : Bytes} (h : Matched n before) (c : UInt8) :
    Matched (advance n c) (before ++ [c]) where
  le := advance_le n h.le c
  cr := by rw [cr_concat, advance_eq_one n h.le]
  start := by rw [lineStart_concat, advance_eq_two n h.le, h.cr, and_comm]
  dot := by
    rw [advance_eq_three n h.le, h.start]
    constructor
    · rintro ⟨hline, rfl⟩
      exact ⟨before, rfl, hline⟩
    · rintro ⟨line, heq, hline⟩
      obtain ⟨rfl, hlast⟩ := List.append_inj' heq rfl
      cases hlast
      exact ⟨hline, rfl⟩

theorem matched_scan {n : Nat} {before : Bytes} (h : Matched n before) (bytes : Bytes) :
    Matched (scan n bytes) (before ++ bytes) := by
  induction bytes generalizing n before with
  | nil => simpa using h
  | cons c cs ih => simpa using ih (h.concat c)

/-- The dot that is put behind a match of three bytes. -/
def pendingDot (n : Nat) : Bytes := if n = 3 then [46] else []

/-- The scan escapes a dot at the byte behind it, the lines at the dot itself. -/
theorem escape_eq_stuff {n : Nat} {before : Bytes} (h : Matched n before) (body : Bytes) :
    escape n body ++ pendingDot (scan n body) = pendingDot n ++ stuffBehind before body := by
  induction body generalizing n before with
  | nil => simp [escape, stuffBehind]
  | cons c cs ih =>
    have hle := h.le
    have hdots : n ≥ smtpEobFindLen ↔ n = 3 := by
      simp only [smtpEobFindLen]
      omega
    rw [escape, scan_cons, List.append_assoc, List.cons_append, ih (h.concat c), stuffBehind]
    simp only [hdots, pendingDot, advance_eq_three n h.le, h.start, and_comm]
    by_cases hdot : c = 46 ∧ LineStart before
    · simp [hdot]
    · simp [hdot]

/-- The text that the scan and the end of the body make. -/
theorem mail_text (body : Bytes) :
    escape 2 body ++ eobFor (scan 2 body) = dotStuff body ++ ending body := by
  have hm := matched_scan matched_nil body
  have hstuff := escape_eq_stuff matched_nil body
  rw [List.nil_append] at hm
  rw [show pendingDot 2 = [] from rfl, List.nil_append] at hstuff
  rw [dotStuff, ← hstuff, List.append_assoc]
  congr 1
  unfold ending
  simp only [← hm.start]
  have hle := hm.le
  generalize scan 2 body = n at *
  obtain rfl | rfl | rfl | rfl : n = 0 ∨ n = 1 ∨ n = 2 ∨ n = 3 := by omega
  all_goals rfl

/-- The text behind `before`, without the dot at the start of each line that has one. -/
def unstuffBehind : Bytes → Bytes → Bytes
  | _, [] => []
  | before, c :: cs =>
    if c = 46 ∧ LineStart before then unstuffBehind (before ++ [c]) cs
    else c :: unstuffBehind (before ++ [c]) cs

/-- The lines without one leading dot each. -/
def dotUnstuff (text : Bytes) : Bytes := unstuffBehind [] text

theorem unstuff_stuffBehind {before before' : Bytes}
    (hstart : LineStart before' ↔ LineStart before) (hcr : [13] <:+ before' ↔ [13] <:+ before)
    (body : Bytes) : unstuffBehind before' (stuffBehind before body) = body := by
  induction body generalizing before before' with
  | nil => rfl
  | cons c cs ih =>
    have hstart' : LineStart (before' ++ [c]) ↔ LineStart (before ++ [c]) := by
      rw [lineStart_concat, lineStart_concat, hcr]
    have hcr' : [13] <:+ before' ++ [c] ↔ [13] <:+ before ++ [c] := by
      rw [cr_concat, cr_concat]
    rw [stuffBehind]
    by_cases hdot : c = 46 ∧ LineStart before
    · -- the first of the two dots goes, and the second is not at the start of the line
      obtain ⟨rfl, hline⟩ := hdot
      have hsecond : ¬LineStart (before' ++ [46]) := by simp [lineStart_concat]
      rw [if_pos ⟨rfl, hline⟩, unstuffBehind, if_pos ⟨rfl, hstart.mpr hline⟩, unstuffBehind,
        if_neg (fun h => hsecond h.2), ih]
      · rw [lineStart_concat, lineStart_concat]
        simp
      · rw [cr_concat, cr_concat]
    · rw [if_neg hdot, unstuffBehind, if_neg (by rwa [hstart]), ih hstart' hcr']

theorem dotUnstuff_dotStuff (body : Bytes) : dotUnstuff (dotStuff body) = body :=
  unstuff_stuffBehind Iff.rfl Iff.rfl body

/-! ### The receiver -/

/-- Where a receiver is in a line. -/
inductive Place where
  | start | text | cr
  /-- behind a dot at the start of a line -/
  | dot
  /-- behind a dot at the start of a line, and a CR -/
  | dotCr
  | ended
  deriving DecidableEq

/-- A receiver takes another byte: where it is then, and what it adds to the mail. It drops one dot
at the start of a line, and a line that is a dot ends the mail. -/
def receiveByte : Place → UInt8 → Place × Bytes
  | .start, c => if c = 46 then (.dot, []) else if c = 13 then (.cr, [c]) else (.text, [c])
  | .text, c => if c = 13 then (.cr, [c]) else (.text, [c])
  | .cr, c => if c = 10 then (.start, [c]) else if c = 13 then (.cr, [c]) else (.text, [c])
  | .dot, c => if c = 13 then (.dotCr, []) else (.text, [c])
  | .dotCr, c =>
    if c = 10 then (.ended, []) else if c = 13 then (.cr, [13, c]) else (.text, [13, c])
  | .ended, _ => (.ended, [])

/-- A receiver takes bytes until the mail is ended: where it is then, the mail, and the bytes that
are left. -/
def receive : Place → Bytes → Place × Bytes × Bytes
  | p, [] => (p, [], [])
  | p, c :: cs =>
    if p = .ended then (p, [], c :: cs)
    else
      let (p, out) := receiveByte p c
      let (p, mail, left) := receive p cs
      (p, out ++ mail, left)

/-- Where the receiver is when the scan has matched `n` bytes. -/
def placeFor : Nat → Place
  | 1 => .cr
  | 2 => .start
  | 3 => .dot
  | _ => .text

/-- The mail with an end for its last line. -/
def closed (body : Bytes) : Bytes :=
  if LineStart body then body else body ++ [13, 10]

theorem receive_cons {p : Place} (h : p ≠ .ended) (c : UInt8) (cs : Bytes) :
    receive p (c :: cs) = ((receive (receiveByte p c).1 cs).1,
      (receiveByte p c).2 ++ (receive (receiveByte p c).1 cs).2.1,
      (receive (receiveByte p c).1 cs).2.2) := by
  rw [receive, if_neg h]

theorem placeFor_ne (n : Nat) : placeFor n ≠ .ended := by
  unfold placeFor
  split <;> decide

/-- A byte of the text, at a place where no dot is pending. -/
theorem receiveByte_advance {n : Nat} (h : n ≤ 2) (c : UInt8) :
    receiveByte (placeFor n) c = (placeFor (advance n c), if advance n c = 3 then [] else [c]) := by
  rw [advance_eq n (by omega)]
  obtain rfl | rfl | rfl : n = 0 ∨ n = 1 ∨ n = 2 := by omega
  · by_cases h13 : c = 13 <;> simp [placeFor, receiveByte, h13]
  · by_cases h13 : c = 13
    · simp [placeFor, receiveByte, h13]
    · by_cases h10 : c = 10 <;> simp [placeFor, receiveByte, h13, h10]
  · by_cases h13 : c = 13
    · simp [placeFor, receiveByte, h13]
    · by_cases h46 : c = 46 <;> simp [placeFor, receiveByte, h13, h46]

theorem advance_three (c : UInt8) : advance 3 c = advance 0 c := rfl

/-- The receiver follows the scan, and ends with it. -/
theorem receive_escape {n : Nat} (h : n ≤ 3) (body : Bytes) :
    receive (placeFor n) (escape n body ++ eobFor (scan n body)) =
      (.ended, pendingDot n ++ body ++ (if scan n body = 2 then [] else [13, 10]), []) := by
  induction body generalizing n with
  | nil =>
    obtain rfl | rfl | rfl | rfl : n = 0 ∨ n = 1 ∨ n = 2 ∨ n = 3 := by omega
    all_goals decide
  | cons c cs ih =>
    have hbyte : ∀ m, m ≤ 2 → advance m c = advance n c →
        receive (placeFor m) (c :: (escape (advance n c) cs ++ eobFor (scan n (c :: cs)))) =
          (.ended, c :: (cs ++ if scan n (c :: cs) = 2 then [] else [13, 10]), []) := by
      intro m hm heq
      rw [receive_cons (placeFor_ne m), receiveByte_advance hm, heq, scan_cons,
        ih (advance_le n h c)]
      by_cases h3 : advance n c = 3
      · obtain ⟨-, rfl⟩ := (advance_eq_three n h c).mp h3
        simp [h3, pendingDot]
      · simp [h3, pendingDot]
    by_cases h3 : n = 3
    · -- the dot that was put in is the one that is kept
      subst h3
      have htail := hbyte 0 (by omega) (advance_three c).symm
      rw [escape, if_pos (by decide), List.singleton_append, List.cons_append, List.cons_append,
        receive_cons (placeFor_ne 3)]
      rw [show receiveByte (placeFor 3) 46 = (placeFor 0, [46]) by decide, htail]
      rfl
    · have hsmall : ¬n ≥ smtpEobFindLen := by
        simp only [smtpEobFindLen]
        omega
      rw [escape, if_neg hsmall, List.nil_append, List.cons_append, hbyte n (by omega) rfl]
      simp [pendingDot, h3]

theorem receive_ended (xs : Bytes) : receive .ended xs = (.ended, [], xs) := by
  cases xs <;> rfl

theorem receive_append_place (p : Place) (xs ys : Bytes) :
    (receive p (xs ++ ys)).1 = (receive (receive p xs).1 ys).1 := by
  induction xs generalizing p with
  | nil => rfl
  | cons c cs ih =>
    by_cases hp : p = .ended
    · rw [hp, receive_ended, receive_ended, receive_ended]
    · rw [List.cons_append, receive_cons hp, receive_cons hp, ih]

theorem receive_append_left {p : Place} {xs : Bytes} (h : (receive p xs).1 = .ended)
    (ys : Bytes) : (receive p (xs ++ ys)).2.2 = (receive p xs).2.2 ++ ys := by
  induction xs generalizing p with
  | nil =>
    obtain rfl : p = .ended := h
    rw [List.nil_append, receive_ended, receive_ended]
    rfl
  | cons c cs ih =>
    by_cases hp : p = .ended
    · rw [hp, receive_ended, receive_ended]
    · rw [receive_cons hp] at h
      rw [List.cons_append, receive_cons hp, receive_cons hp]
      exact ih h

/-- Wherever a receiver is, the end of the body ends the mail. -/
theorem receive_eob (p : Place) : (receive p smtpEob).1 = .ended := by
  cases p <;> decide

/-- A receiver that has taken everything has seen no end of the body before. -/
theorem eob_at_end {s mail : Bytes} (h : receive .start s = (.ended, mail, []))
    {pre post : Bytes} (hmark : [13, 10] ++ s = pre ++ smtpEob ++ post) : post = [] := by
  have hended : (receive .text (pre ++ smtpEob)).1 = .ended := by
    rw [receive_append_place]
    exact receive_eob _
  have hleft := receive_append_left hended post
  have hall : (receive .text ([13, 10] ++ s)).2.2 = [] := by
    rw [List.cons_append, receive_cons (by decide),
      show receiveByte .text 13 = (.cr, [13]) by decide,
      List.cons_append, receive_cons (by decide),
      show receiveByte .cr 10 = (.start, [10]) by decide, List.nil_append, h]
  rw [hmark, hleft] at hall
  exact (List.append_eq_nil_iff.mp hall).2

/-- The mail that goes out for a body. -/
def mailText (body : Bytes) : Bytes := dotStuff body ++ ending body

/-- A receiver recovers the body, with an end for its last line, and nothing is left. -/
theorem receive_mailText (body : Bytes) :
    receive .start (mailText body) = (.ended, closed body, []) := by
  have h := receive_escape (n := 2) (by omega) body
  have hm := matched_scan matched_nil body
  rw [List.nil_append] at hm
  rw [mail_text] at h
  unfold mailText
  rw [show Place.start = placeFor 2 from rfl, h]
  unfold closed
  simp only [← hm.start]
  split <;> simp [pendingDot]

end Gurl.Smtp
