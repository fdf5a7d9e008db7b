import Mathlib.Data.List.Basic

/-! Machines that take one element of a stream at a time, put something out for it, and stop at an
error. -/

namespace Feed

variable {σ α ω ε : Type*} {step : σ → α → σ × List ω × Option ε}

/-- Where a machine is after some elements: its state, what it has put out, the error it has stopped
at, and the elements behind that. -/
structure Fed (σ α ω ε : Type*) where
  state : σ
  out : List ω
  error : Option ε
  rest : List α

def feed (step : σ → α → σ × List ω × Option ε) : σ → List α → Fed σ α ω ε
  | s, [] => ⟨s, [], none, []⟩
  | s, a :: as =>
    match step s a with
    | (s, out, none) =>
      let f := feed step s as
      { f with out := out ++ f.out }
    | (s, out, some e) => ⟨s, out, some e, as⟩

theorem feed_cons_ok {s s' : σ} {a : α} {out : List ω} (h : step s a = (s', out, none))
    (as : List α) : feed step s (a :: as) =
      { feed step s' as with out := out ++ (feed step s' as).out } := by
  rw [feed, h]

theorem feed_cons_error {s s' : σ} {a : α} {out : List ω} {e : ε}
    (h : step s a = (s', out, some e)) (as : List α) :
    feed step s (a :: as) = ⟨s', out, some e, as⟩ := by
  rw [feed, h]

/-- A machine that has not stopped goes on with what comes next. -/
theorem feed_append {s : σ} {as : List α} (h : (feed step s as).error = none) (bs : List α) :
    feed step s (as ++ bs) =
      { feed step (feed step s as).state bs with
        out := (feed step s as).out ++ (feed step (feed step s as).state bs).out } := by
  induction as generalizing s with
  | nil => rfl
  | cons a as ih =>
    rw [List.cons_append]
    rcases hstep : step s a with ⟨s', out, _ | e⟩
    · rw [feed_cons_ok hstep] at h ⊢
      rw [feed_cons_ok hstep, ih h]
      simp
    · rw [feed_cons_error hstep] at h
      cases h

/-- A machine that has stopped does not look at what comes next. -/
theorem feed_append_error {s : σ} {as : List α} {e : ε} (h : (feed step s as).error = some e)
    (bs : List α) :
    feed step s (as ++ bs) = { feed step s as with rest := (feed step s as).rest ++ bs } := by
  induction as generalizing s with
  | nil => cases h
  | cons a as ih =>
    rw [List.cons_append]
    rcases hstep : step s a with ⟨s', out, _ | e'⟩
    · rw [feed_cons_ok hstep] at h ⊢
      rw [feed_cons_ok hstep, ih h]
    · rw [feed_cons_error hstep, feed_cons_error hstep]

theorem feed_rest {s : σ} {as : List α} (h : (feed step s as).error = none) :
    (feed step s as).rest = [] := by
  induction as generalizing s with
  | nil => rfl
  | cons a as ih =>
    rcases hstep : step s a with ⟨s', out, _ | e⟩
    · rw [feed_cons_ok hstep] at h ⊢
      exact ih h
    · rw [feed_cons_error hstep] at h
      cases h

/-- The element at which a machine has stopped. -/
theorem feed_error {s : σ} {as : List α} {e : ε} (h : (feed step s as).error = some e) :
    ∃ pre a post last, as = pre ++ a :: post ∧ (feed step s pre).error = none ∧
      step (feed step s pre).state a = ((feed step s as).state, last, some e) ∧
      (feed step s as).out = (feed step s pre).out ++ last ∧ (feed step s as).rest = post := by
  induction as generalizing s with
  | nil => cases h
  | cons a as ih =>
    rcases hstep : step s a with ⟨s', out, _ | e'⟩
    · rw [feed_cons_ok hstep] at h ⊢
      obtain ⟨pre, c, post, last, rfl, hpre, hc, hout, hrest⟩ := ih h
      refine ⟨a :: pre, c, post, last, rfl, ?_⟩
      rw [feed_cons_ok hstep]
      exact ⟨hpre, hc, by rw [hout, List.append_assoc], hrest⟩
    · rw [feed_cons_error hstep] at h ⊢
      cases h
      exact ⟨[], a, as, out, rfl, rfl, hstep, rfl, rfl⟩

/-- A property of the state and of what was put out, that every step keeps. -/
theorem feed_invariant {P : σ → List ω → Prop}
    (hstep : ∀ {s a s' out out'}, P s out' → step s a = (s', out, none) → P s' (out' ++ out))
    {s : σ} {out : List ω} (hstart : P s out) {as : List α}
    (h : (feed step s as).error = none) :
    P (feed step s as).state (out ++ (feed step s as).out) := by
  induction as generalizing s out with
  | nil =>
    rw [feed, List.append_nil]
    exact hstart
  | cons a as ih =>
    rcases hs : step s a with ⟨s', out', _ | e⟩
    · rw [feed_cons_ok hs] at h ⊢
      rw [← List.append_assoc]
      exact ih (hstep hstart hs) h
    · rw [feed_cons_error hs] at h
      cases h

end Feed

/-! Readers that go over a buffer and hand parts of it to a sink. They do not copy element by
element: they keep the index at which the run they are in has started, and hand over the run when
it ends. -/

namespace Skim

/-- What a reader does with an element: it is part of a run, which starts here if none is open; it
ends the run in front of it; or it is passed over, with no run open. -/
inductive Mark where
  | take | skip | pass
  deriving DecidableEq

variable {σ α ε : Type*}

/-- Where a reader is in a buffer, with what the sink has got. -/
structure Place (σ α : Type*) where
  state : σ
  pos : Nat
  start : Option Nat
  written : List α

/-- Hand over the open run. `sink written run` is what the sink says to `run` after `written`. -/
def endRun (sink : List α → List α → Option ε) (buf : List α) (l : Place σ α) :
    Place σ α × Option ε :=
  match l.start with
  | none => (l, none)
  | some k =>
    let run := (buf.drop k).take (l.pos - k)
    match sink l.written run with
    | some e => (l, some e)
    | none => ({ l with start := none, written := l.written ++ run }, none)

/-- The reader looks at the element at its place. -/
def look (step : σ → α → σ × Mark × Option ε) (sink : List α → List α → Option ε) (buf : List α)
    (l : Place σ α) (a : α) : Place σ α × Option ε :=
  match step l.state a with
  | (s, _, some e) => ({ l with state := s }, some e)
  | (s, .take, none) =>
    ({ l with state := s, pos := l.pos + 1, start := some (l.start.getD l.pos) }, none)
  | (s, .skip, none) =>
    match endRun sink buf { l with state := s } with
    | (l, none) => ({ l with pos := l.pos + 1 }, none)
    | (l, some e) => (l, some e)
  | (s, .pass, none) => ({ l with state := s, pos := l.pos + 1 }, none)

def loop (step : σ → α → σ × Mark × Option ε) (sink : List α → List α → Option ε) (buf : List α) :
    Place σ α → List α → Place σ α × Option ε
  | l, [] => (l, none)
  | l, a :: rest =>
    match look step sink buf l a with
    | (l, none) => loop step sink buf l rest
    | (l, some e) => (l, some e)

/-- A buffer from one end to the other; the run that is open at its end is handed over. -/
def call (step : σ → α → σ × Mark × Option ε) (sink : List α → List α → Option ε)
    (s : σ) (written : List α) (buf : List α) : Place σ α × Option ε :=
  match loop step sink buf ⟨s, 0, none, written⟩ buf with
  | (l, none) => endRun sink buf l
  | (l, some e) => (l, some e)

/-- One buffer after the other, until there is an error. -/
def calls (step : σ → α → σ × Mark × Option ε) (sink : List α → List α → Option ε)
    (s : σ) (written : List α) : List (List α) → σ × List α × Option ε
  | [] => (s, written, none)
  | buf :: bufs =>
    match call step sink s written buf with
    | (l, none) => calls step sink l.state l.written bufs
    | (l, some e) => (l.state, l.written, some e)

/-- The reader without buffers: it puts out the elements it takes. -/
def plain (step : σ → α → σ × Mark × Option ε) (s : σ) (a : α) : σ × List α × Option ε :=
  match step s a with
  | (s, _, some e) => (s, [], some e)
  | (s, mark, none) => (s, if mark = .take then [a] else [], none)

/-- A reader that passes over elements only where it cannot have a run open: `inside` are the states
in which it can. -/
structure Closed (step : σ → α → σ × Mark × Option ε) (inside : σ → Prop) : Prop where
  pass : ∀ {s s' a}, step s a = (s', .pass, none) → ¬ inside s
  take : ∀ {s s' a}, step s a = (s', .take, none) → inside s'

/-- The open run. -/
def Place.run (l : Place σ α) (buf : List α) : List α :=
  match l.start with
  | none => []
  | some k => (buf.drop k).take (l.pos - k)

/-- What holds between two elements: the run does not start behind the place of the reader, and it
can be open where the reader is. -/
structure Place.Sound (l : Place σ α) (inside : σ → Prop) : Prop where
  start_le : ∀ {k}, l.start = some k → k ≤ l.pos
  inside : l.start ≠ none → inside l.state

section
variable {step : σ → α → σ × Mark × Option ε} {sink : List α → List α → Option ε}
  {inside : σ → Prop} {buf : List α} {l : Place σ α} {a : α} {s' : σ}

variable (buf l) in
theorem endRun_spec (hsink : ∀ w r, sink w r = none) :
    endRun sink buf l = ({ l with start := none, written := l.written ++ l.run buf }, none) := by
  unfold endRun Place.run
  cases l
  rename_i state pos start written
  cases start with
  | none => simp
  | some k => simp [hsink]

theorem run_take (hget : buf[l.pos]? = some a) {k : Nat} (hle : k ≤ l.pos) :
    (buf.drop k).take (l.pos + 1 - k) = (buf.drop k).take (l.pos - k) ++ [a] := by
  have hget' : (buf.drop k)[l.pos - k]? = some a := by
    rw [List.getElem?_drop, Nat.add_sub_cancel' hle]
    exact hget
  rw [Nat.sub_add_comm hle, List.take_add_one, hget']
  rfl

/-- One element: what the sink has got with the open run grows by what the reader puts out. -/
theorem look_spec (hclosed : Closed step inside) (hsink : ∀ w r, sink w r = none)
    (hget : buf[l.pos]? = some a) (h : l.Sound inside) {mark : Mark}
    (hstep : step l.state a = (s', mark, none)) :
    ∃ l', look step sink buf l a = (l', none) ∧ l'.state = s' ∧ l'.pos = l.pos + 1 ∧
      l'.Sound inside ∧
      l'.written ++ l'.run buf = l.written ++ l.run buf ++ if mark = .take then [a] else [] := by
  unfold look
  rw [hstep]
  cases mark with
  | take =>
    refine ⟨_, rfl, rfl, rfl, ⟨?_, fun _ => hclosed.take hstep⟩, ?_⟩
    · intro k hk
      cases hk
      cases hs : l.start with
      | none => exact Nat.le_succ _
      | some k => exact Nat.le_succ_of_le (h.start_le hs)
    · simp only [Place.run, if_true]
      cases hs : l.start with
      | none =>
        have hrun := run_take hget (Nat.le_refl l.pos)
        rw [Nat.sub_self, List.take_zero, List.nil_append] at hrun
        simp only [Option.getD_none, hrun, List.append_nil]
      | some k => simp only [Option.getD_some, run_take hget (h.start_le hs), List.append_assoc]
  | skip =>
    have hend := endRun_spec buf { l with state := s' } hsink
    refine ⟨⟨s', l.pos + 1, none, l.written ++ l.run buf⟩, ?_, rfl, rfl,
      ⟨nofun, fun hne => absurd rfl hne⟩, ?_⟩
    · simp only [hend]
      rfl
    · simp [Place.run]
  | pass =>
    have hnone : l.start = none := by
      by_contra hopen
      exact hclosed.pass hstep (h.inside hopen)
    refine ⟨_, rfl, rfl, rfl, ⟨?_, ?_⟩, ?_⟩
    · intro k hk
      rw [show l.start = some k from hk] at hnone
      cases hnone
    · intro hne
      exact absurd hnone hne
    · simp [Place.run, hnone]

theorem loop_spec (l : Place σ α) (hclosed : Closed step inside) (hsink : ∀ w r, sink w r = none)
    {rest : List α} (hrest : rest = buf.drop l.pos) (h : l.Sound inside) :
    (∀ {s out}, Feed.feed (plain step) l.state rest = ⟨s, out, none, []⟩ →
      ∃ l', loop step sink buf l rest = (l', none) ∧ l'.state = s ∧
        l'.written ++ l'.run buf = l.written ++ l.run buf ++ out) ∧
    ∀ {e}, (Feed.feed (plain step) l.state rest).error = some e →
      (loop step sink buf l rest).2 = some e := by
  induction rest generalizing l with
  | nil =>
    refine ⟨?_, nofun⟩
    intro s out hfeed
    cases hfeed
    exact ⟨l, rfl, rfl, (List.append_nil _).symm⟩
  | cons a rest ih =>
    have hget : buf[l.pos]? = some a := by
      rw [← List.head?_drop, ← hrest]
      rfl
    have hrest' : rest = buf.drop (l.pos + 1) := by
      rw [← List.drop_drop, ← hrest]
      rfl
    rcases hstep : step l.state a with ⟨s', mark, _ | e⟩
    · have hplain : plain step l.state a = (s', if mark = .take then [a] else [], none) := by
        rw [plain, hstep]
      obtain ⟨l', hlook, hstate, hpos, hsound, hgrow⟩ := look_spec hclosed hsink hget h hstep
      obtain ⟨ihok, iherr⟩ := ih l' (hpos ▸ hrest') hsound
      rw [Feed.feed_cons_ok hplain, ← hstate, loop, hlook]
      refine ⟨?_, fun he => iherr he⟩
      intro s out hfeed
      rw [Feed.Fed.mk.injEq] at hfeed
      obtain ⟨rfl, rfl, herror, hleft⟩ := hfeed
      obtain ⟨l'', hloop, hs, hout⟩ := ihok (show Feed.feed (plain step) l'.state rest =
        ⟨_, (Feed.feed (plain step) l'.state rest).out, none, []⟩ by rw [← herror, ← hleft])
      exact ⟨l'', hloop, hs, by rw [hout, hgrow, List.append_assoc]⟩
    · have hplain : plain step l.state a = (s', [], some e) := by rw [plain, hstep]
      rw [Feed.feed_cons_error hplain, loop, look, hstep]
      exact ⟨nofun, fun he => he⟩

/-- A call hands over what the reader puts out. -/
theorem call_spec (hclosed : Closed step inside) (hsink : ∀ w r, sink w r = none) {s s' : σ}
    (written : List α) {out : List α} (hfeed : Feed.feed (plain step) s buf = ⟨s', out, none, []⟩) :
    ∃ l, call step sink s written buf = (l, none) ∧ l.state = s' ∧ l.written = written ++ out := by
  have hspec := loop_spec ⟨s, 0, none, written⟩ hclosed hsink
    (List.drop_zero (l := buf)).symm ⟨nofun, fun hne => absurd rfl hne⟩
  obtain ⟨l, hloop, hstate, hout⟩ := hspec.1 hfeed
  have hend := endRun_spec buf l hsink
  refine ⟨{ l with start := none, written := l.written ++ l.run buf }, ?_, hstate, ?_⟩
  · rw [call, hloop]
    exact hend
  · exact hout.trans (by rw [Place.run, List.append_nil])

theorem call_error (hclosed : Closed step inside) (hsink : ∀ w r, sink w r = none) {s : σ}
    {written : List α} {e : ε} (hfeed : (Feed.feed (plain step) s buf).error = some e) :
    (call step sink s written buf).2 = some e := by
  have hspec := loop_spec ⟨s, 0, none, written⟩ hclosed hsink
    (List.drop_zero (l := buf)).symm ⟨nofun, fun hne => absurd rfl hne⟩
  have hloop := hspec.2 hfeed
  rw [call]
  split
  · rename_i heq
    rw [heq] at hloop
    cases hloop
  · rename_i heq
    rw [heq] at hloop
    exact hloop

/-- It does not matter how the elements are cut into buffers. -/
theorem calls_spec (hclosed : Closed step inside) (hsink : ∀ w r, sink w r = none) {s s' : σ}
    {written out : List α} {bufs : List (List α)}
    (hfeed : Feed.feed (plain step) s bufs.flatten = ⟨s', out, none, []⟩) :
    calls step sink s written bufs = (s', written ++ out, none) := by
  induction bufs generalizing s written out with
  | nil =>
    cases hfeed
    rw [calls, List.append_nil]
  | cons buf bufs ih =>
    rw [List.flatten_cons] at hfeed
    have hfirst : (Feed.feed (plain step) s buf).error = none := by
      cases herr : (Feed.feed (plain step) s buf).error with
      | none => rfl
      | some e =>
        rw [Feed.feed_append_error herr, Feed.Fed.mk.injEq, herr] at hfeed
        cases hfeed.2.2.1
    rw [Feed.feed_append hfirst, Feed.Fed.mk.injEq] at hfeed
    obtain ⟨hs, rfl, herror, hleft⟩ := hfeed
    have hbuf : Feed.feed (plain step) s buf = ⟨(Feed.feed (plain step) s buf).state,
        (Feed.feed (plain step) s buf).out, none, []⟩ := by
      rw [← hfirst, ← Feed.feed_rest hfirst]
    obtain ⟨l, hcall, hstate, hwritten⟩ := call_spec hclosed hsink written hbuf
    have hmore : Feed.feed (plain step) (Feed.feed (plain step) s buf).state bufs.flatten =
        ⟨s', (Feed.feed (plain step) (Feed.feed (plain step) s buf).state bufs.flatten).out,
          none, []⟩ := by
      rw [← hs, ← herror, ← hleft]
    rw [calls, hcall]
    show calls step sink l.state l.written bufs = _
    rw [hstate, ih hmore, hwritten, List.append_assoc]

end

end Skim
