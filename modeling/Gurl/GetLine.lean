import Gurl.Dynbuf

/-! `lib/curl_get_line.c`: the lines of a text file, and the loop that hands them on. -/

namespace Gurl

/-- `fgets` with a buffer of 128 bytes: what it gives, the rest of the file, and `feof`. -/
def fgets (input : Bytes) : Bytes × Bytes × Bool :=
  let line := input.takeWhile (· ≠ 10)
  if line.length < 127 then
    if line.length < input.length then (line ++ [10], input.drop (line.length + 1), false)
    else (line, [], true)
  else (input.take 127, input.drop 127, false)

/-- The loop of `Curl_get_line`: the buffer, the result, the rest of the file and `*eof`. -/
def getLineLoop : Nat → Dynbuf → Bytes → Dynbuf × Curlcode × Bytes × Bool
  | 0, buf, input => (buf, .ok, input, true)
  | fuel + 1, buf, input =>
    let (b, rest, eof) := fgets input
    -- what `strlen` sees of it
    let b := b.takeWhile (· ≠ 0)
    match if b.isEmpty then (buf, .ok) else buf.nappend b true with
    | (buf, .ok) =>
      if buf.content.getLast? = some 10 then (buf, .ok, rest, eof)
      else if eof then
        let (buf, result) := buf.nappend [10] true
        (buf, result, rest, eof)
      else getLineLoop fuel buf rest
    | (buf, result) => (buf, result, rest, eof)

/-- `Curl_get_line`. -/
def getLine (buf : Dynbuf) (input : Bytes) : Dynbuf × Curlcode × Bytes × Bool :=
  getLineLoop (input.length + 1) buf.reset input

/-- The loop with which the cookie, HSTS and Alt-Svc files are read. -/
def readLinesLoop {σ : Type*} (handle : σ → Bytes → σ) :
    Nat → Dynbuf → σ → Bytes → σ × Curlcode
  | 0, _, s, _ => (s, .ok)
  | fuel + 1, buf, s, input =>
    match getLine buf input with
    | (buf, .ok, rest, eof) =>
      let s := handle s buf.content
      if eof then (s, .ok) else readLinesLoop handle fuel buf s rest
    | (_, result, _, _) => (s, result)

/-- Read a file whose lines have less than `limit` bytes. -/
def readLines {σ : Type*} (limit : Nat) (handle : σ → Bytes → σ) (s : σ) (input : Bytes) :
    σ × Curlcode :=
  readLinesLoop handle (input.length + 1) (.init limit) s input

/-- A line of a text file, without its end, that fits into a buffer of `limit` bytes. -/
structure LineFits (limit : Nat) (line : Bytes) : Prop where
  noEnd : 10 ∉ line
  noZero : 0 ∉ line
  length : line.length + 2 ≤ limit

variable {line rest : Bytes} {buf : Dynbuf}

theorem takeWhile_line (h : 10 ∉ line) :
    (line ++ 10 :: rest).takeWhile (· ≠ 10) = line := by
  rw [List.takeWhile_append_of_pos fun c hc => by
    simpa using fun heq : c = 10 => h (heq ▸ hc)]
  simp

theorem fgets_line (h : 10 ∉ line) (hlen : line.length < 127) :
    fgets (line ++ 10 :: rest) = (line ++ [10], rest, false) := by
  simp only [fgets, takeWhile_line h, if_pos hlen]
  rw [if_pos (by simp)]
  simp [List.drop_append]

theorem fgets_part (h : 10 ∉ line) (hlen : 127 ≤ line.length) :
    fgets (line ++ 10 :: rest) = (line.take 127, line.drop 127 ++ 10 :: rest, false) := by
  simp only [fgets, takeWhile_line h, if_neg (Nat.not_lt.mpr hlen)]
  rw [List.take_append_of_le_length hlen, List.drop_append_of_le_length hlen]

theorem takeWhile_text {text : Bytes} (h : 0 ∉ text) : text.takeWhile (· ≠ 0) = text := by
  rw [List.takeWhile_eq_self_iff]
  intro c hc
  simpa using fun heq : c = 0 => h (heq ▸ hc)

/-- A line gets into the buffer piece by piece. -/
theorem getLineLoop_line {fuel : Nat} (hend : 10 ∉ line) (hzero : 0 ∉ line)
    (hlen : buf.content.length + line.length + 2 ≤ buf.toobig) (hfuel : line.length < fuel) :
    ∃ buf', getLineLoop fuel buf (line ++ 10 :: rest) = (buf', .ok, rest, false) ∧
      buf'.content = buf.content ++ (line ++ [10]) ∧ buf'.toobig = buf.toobig := by
  induction fuel generalizing line buf with
  | zero => omega
  | succ fuel ih =>
    by_cases hshort : line.length < 127
    · rw [getLineLoop, fgets_line hend hshort]
      have htext : (line ++ [10]).takeWhile (· ≠ 0) = line ++ [10] :=
        takeWhile_text (by simp [hzero])
      obtain ⟨hok, hcontent, htoobig⟩ := @Dynbuf.nappend_ok buf (line ++ [10]) (by simp; omega)
      rcases happend : buf.nappend (line ++ [10]) true with ⟨buf', result⟩
      rw [happend] at hok hcontent htoobig
      dsimp only at hok hcontent htoobig
      subst hok
      refine ⟨buf', ?_, hcontent, htoobig⟩
      dsimp only
      rw [htext, if_neg (by simp), happend]
      dsimp only
      rw [if_pos (by rw [hcontent]; simp)]
    · rw [getLineLoop, fgets_part hend (Nat.not_lt.mp hshort)]
      have hpart : 0 ∉ line.take 127 := fun h => hzero (List.mem_of_mem_take h)
      have hlast : 10 ∉ line.take 127 := fun h => hend (List.mem_of_mem_take h)
      have hne : line.take 127 ≠ [] := by
        rw [ne_eq, List.take_eq_nil_iff]
        rintro (h | rfl)
        · cases h
        · exact hshort (by decide)
      have htake : (line.take 127).length = 127 := by
        rw [List.length_take]
        omega
      obtain ⟨hok, hcontent, htoobig⟩ :=
        @Dynbuf.nappend_ok buf (line.take 127) (by rw [htake]; omega)
      rcases happend : buf.nappend (line.take 127) true with ⟨buf', result⟩
      rw [happend] at hok hcontent htoobig
      dsimp only at hok hcontent htoobig
      have hgoes : buf'.content.getLast? ≠ some 10 := by
        rw [hcontent, List.getLast?_append_of_ne_nil _ hne]
        exact fun h => hlast (List.mem_of_getLast? h)
      have hdrop : (line.drop 127).length + 127 = line.length := by
        rw [List.length_drop]
        omega
      obtain ⟨buf'', hloop, hcontent', htoobig'⟩ := @ih (line.drop 127) buf'
        (fun h => hend (List.mem_of_mem_drop h)) (fun h => hzero (List.mem_of_mem_drop h))
        (by rw [hcontent, htoobig, List.length_append, htake]; omega) (by omega)
      subst hok
      refine ⟨buf'', ?_, ?_, htoobig'.trans htoobig⟩
      · dsimp only
        rw [takeWhile_text hpart, if_neg (by simpa using hne), happend]
        dsimp only
        rw [if_neg hgoes, if_neg (by simp), hloop]
      · rw [hcontent', hcontent, List.append_assoc, ← List.append_assoc (line.take 127),
          List.take_append_drop]

theorem reset_toobig (buf : Dynbuf) : buf.reset.toobig = buf.toobig := rfl

theorem getLine_line (h : LineFits buf.toobig line) :
    ∃ buf', getLine buf (line ++ 10 :: rest) = (buf', .ok, rest, false) ∧
      buf'.content = line ++ [10] ∧ buf'.toobig = buf.toobig := by
  have hloop := @getLineLoop_line line rest buf.reset ((line ++ 10 :: rest).length + 1) h.noEnd
    h.noZero (by rw [Dynbuf.content_reset, reset_toobig, List.length_nil]; have := h.length; omega)
    (by simp)
  rw [Dynbuf.content_reset, List.nil_append, reset_toobig] at hloop
  exact hloop

/-- At the end of the file there is an empty line. -/
theorem getLine_end (h : 2 ≤ buf.toobig) :
    ∃ buf', getLine buf [] = (buf', .ok, [], true) ∧ buf'.content = [10] := by
  obtain ⟨hok, hcontent, -⟩ :=
    @Dynbuf.nappend_ok buf.reset [10] (by rw [Dynbuf.content_reset]; exact h)
  rcases happend : buf.reset.nappend [10] true with ⟨buf', result⟩
  rw [happend] at hok hcontent
  dsimp only at hok hcontent
  rw [Dynbuf.content_reset, List.nil_append] at hcontent
  refine ⟨buf', ?_, hcontent⟩
  simp [getLine, getLineLoop, fgets, Dynbuf.content_reset, happend, hok]

theorem length_le_flatMap (lines : List Bytes) :
    lines.length ≤ (lines.flatMap (· ++ [10])).length := by
  induction lines with
  | nil => simp
  | cons line lines ih =>
    simp only [List.flatMap_cons, List.length_append, List.length_cons] at ih ⊢
    omega

/-- Of a file whose lines all fit, every line is handed on, and an empty one at the end. -/
theorem readLines_lines {σ : Type*} {limit : Nat} (hlimit : 2 ≤ limit) (handle : σ → Bytes → σ)
    (s : σ) {lines : List Bytes} (h : ∀ line ∈ lines, LineFits limit line) :
    readLines limit handle s (lines.flatMap (· ++ [10])) =
      (handle (lines.foldl (fun s line => handle s (line ++ [10])) s) [10], .ok) := by
  have hloop : ∀ (fuel : Nat) (buf : Dynbuf) (s : σ), buf.toobig = limit → lines.length < fuel →
      readLinesLoop handle fuel buf s (lines.flatMap (· ++ [10])) =
        (handle (lines.foldl (fun s line => handle s (line ++ [10])) s) [10], .ok) := by
    intro fuel buf s hbuf hfuel
    induction lines generalizing fuel buf s with
    | nil =>
      cases fuel with
      | zero => cases hfuel
      | succ fuel =>
        obtain ⟨buf', hget, hcontent⟩ := @getLine_end buf (hbuf ▸ hlimit)
        simp [readLinesLoop, hget, hcontent]
    | cons line lines ih =>
      cases fuel with
      | zero => cases hfuel
      | succ fuel =>
        obtain ⟨hline, hrest⟩ := List.forall_mem_cons.mp h
        obtain ⟨buf', hget, hcontent, htoobig⟩ :=
          @getLine_line line (lines.flatMap (· ++ [10])) buf (hbuf ▸ hline)
        rw [List.flatMap_cons, List.append_assoc, List.singleton_append, readLinesLoop, hget]
        simp only [hcontent, Bool.false_eq_true, if_false, List.foldl_cons]
        exact ih hrest fuel buf' _ (htoobig.trans hbuf) (Nat.lt_of_succ_lt_succ hfuel)
  exact hloop _ _ s rfl (Nat.lt_succ_of_le (length_le_flatMap lines))

end Gurl
