import Gurl.MultiEv.Rounds
import Gurl.Lib.Runs

/-! What the application supervises, over whole runs: after every call it was told, for each socket,
what the users of the socket want. -/

namespace Gurl.MultiEv

/-- What each user wants of each socket: by its last pollset, unless the socket was done since. -/
abbrev Wants := Socket → User → Poll

/-- What a call changes about it. -/
def Wants.after (w : Wants) : Call → Wants
  | .assessXfer mid ps => fun s => Function.update (w s) (.xfer mid) (lookup ps.sockets s)
  | .assessConn id ps => fun s => Function.update (w s) (.conn id) (lookup ps.sockets s)
  | .xferDone mid => fun s => Function.update (w s) (.xfer mid) Poll.none
  | .connDone id => fun s => Function.update (w s) (.conn id) Poll.none
  | .socketDone s => Function.update w s fun _ => Poll.none

def wants (calls : List Call) : Wants := calls.foldl Wants.after fun _ _ => Poll.none

theorem lookup_of_mem {sockets : List (Socket × Poll)} (hnd : (sockets.map Prod.fst).Nodup)
    {s : Socket} {a : Poll} (h : (s, a) ∈ sockets) : lookup sockets s = a := by
  induction sockets with
  | nil => cases h
  | cons x rest ih =>
    obtain ⟨hfresh, hnd⟩ := List.nodup_cons.mp hnd
    rcases List.mem_cons.mp h with rfl | hrest
    · simp [lookup]
    · have hne : x.1 ≠ s := by
        rintro rfl
        exact hfresh (List.mem_map.mpr ⟨_, hrest, rfl⟩)
      have := ih hnd hrest
      simpa [lookup, List.find?_cons, hne] using this

theorem lookup_of_not_mem {sockets : List (Socket × Poll)} {s : Socket}
    (h : s ∉ sockets.map Prod.fst) : lookup sockets s = Poll.none := by
  have hnone : (sockets.find? fun x => x.1 == s) = none := by
    rw [List.find?_eq_none]
    intro x hx heq
    exact h (List.mem_map.mpr ⟨x, hx, by simpa using heq⟩)
  simp [lookup, hnone]

theorem wantAll_eq_exec (user : User) (prev ps : List (Socket × Poll)) (sh : Sh) :
    wantAll user prev ps sh = Runs.exec (want user prev) sh ps := by
  induction ps generalizing sh with
  | nil => rfl
  | cons x rest ih =>
    unfold wantAll Runs.exec
    congr 1
    funext sh1
    exact ih sh1

theorem foldl_unwant_eq_exec (user : User) (ps prev : List (Socket × Poll)) (sh : Sh) :
    some (prev.foldl (unwant user ps) sh) =
      Runs.exec (fun sh x => some (unwant user ps sh x)) sh prev := by
  induction prev generalizing sh with
  | nil => rfl
  | cons x rest ih => exact ih (unwant user ps sh x)

/-- What `mev_pollset_diff` makes of a socket. -/
theorem pollsetDiff_ok {past : List (Socket × Told)} {w : User → Poll} {s : Socket} {sh sh' : Sh}
    {user : User} {ps prev : Pollset}
    (h : SocketOk w (tolds (past ++ sh.calls) s) (sh.entries s))
    (hprev : w user ≠ Poll.none → lookup prev.sockets s = w user)
    (hdiff : pollsetDiff sh user ps.sockets prev.sockets = some sh') :
    Follows past (Function.update w user (lookup ps.sockets s)) s sh sh' := by
  obtain ⟨sh1, hwant, hunwant⟩ := Option.map_eq_some_iff.mp hdiff
  rw [wantAll_eq_exec] at hwant
  have hunwant := congrArg some hunwant
  rw [foldl_unwant_eq_exec] at hunwant
  have hwants := Runs.exec_part Prod.fst Sh.about
    (fun k hstep hne => want_other hne hstep) hwant ps.distinct s
  have hunwants := Runs.exec_part Prod.fst Sh.about
    (fun k hstep hne => by cases hstep; exact unwant_other hne) hunwant prev.distinct s
  -- the second loop leaves alone what the first one saw
  have hkeep {b : Poll} (sh2 : Sh) (hin : s ∈ ps.sockets.map Prod.fst) :
      unwant user ps.sockets sh2 (s, b) = sh2 := by
    obtain ⟨y, hy, rfl⟩ := List.mem_map.mp hin
    have hany : (ps.sockets.any fun z => y.1 == z.1) = true :=
      List.any_eq_true.mpr ⟨y, hy, by simp⟩
    simp [unwant, hany]
  rcases hwants with ⟨hnotin, hsame⟩ | ⟨⟨s, a⟩, hin, rfl, sh2, sh3, h2, hround, h3⟩
  · rw [lookup_of_not_mem hnotin]
    rcases hunwants with ⟨hnotin', hsame'⟩ | ⟨⟨s, b⟩, hin', rfl, sh4, sh5, h4, hround', h5⟩
    · have hnone : w user = Poll.none := by
        by_contra hne
        exact hne ((hprev hne).symm.trans (lookup_of_not_mem hnotin'))
      rw [← hnone, Function.update_eq_self]
      exact Follows.same h (hsame'.trans hsame)
    · cases hround'
      have hgone : (ps.sockets.any fun y => s == y.1) = false := by
        rw [Bool.eq_false_iff]
        intro hany
        obtain ⟨y, hy, heq⟩ := List.any_eq_true.mp hany
        exact hnotin (List.mem_map.mpr ⟨y, hy, by simpa using (beq_iff_eq.mp heq).symm⟩)
      have hb : w user ≠ Poll.none → b = w user := fun hne =>
        (lookup_of_mem prev.distinct hin').symm.trans (hprev hne)
      have hb4 := h4.trans hsame
      obtain ⟨he4, ht4⟩ := Prod.ext_iff.mp hb4
      simp only [Sh.about] at he4 ht4
      refine (unwant_ok hgone ?_ hb).congr hb4 h5
      rw [tolds_append, ht4, he4, ← tolds_append]
      exact h
  · rw [lookup_of_mem ps.distinct hin]
    have hlater : sh'.about s = sh1.about s := by
      rcases hunwants with ⟨-, hsame'⟩ | ⟨⟨_, b⟩, -, rfl, sh4, sh5, h4, hround', h5⟩
      · exact hsame'
      · cases hround'
        rw [hkeep sh4 (List.mem_map_of_mem hin)] at h5
        exact h5.trans h4
    obtain ⟨he2, ht2⟩ := Prod.ext_iff.mp h2
    simp only [Sh.about] at he2 ht2
    refine (want_ok (ps.actions _ hin) ?_ hprev hround).congr h2 (hlater.trans h3)
    rw [tolds_append, ht2, he2, ← tolds_append]
    exact h

/-- The multi handle keeps the books for what the users want. A user that wants something of a
socket said so in the pollset it left. -/
structure Tracks (w : Wants) (m : Multi) : Prop where
  ok : ∀ s, SocketOk (w s) (tolds (m.past ++ m.sh.calls) s) (m.sh.entries s)
  left : ∀ s u, w s u ≠ Poll.none → ∃ ps, m.pollsets u = some ps ∧ lookup ps.sockets s = w s u

/-- A call is over: the books are right, and the application was told to forget what has no user
any more. -/
structure CallDone (w' : Wants) (m' : Multi) : Prop where
  tracks : Tracks w' m'
  removed : ∀ s, .remove ∈ tolds m'.sh.calls s ↔
    (∃ a, (tolds m'.past s).getLast? = some (.watch a)) ∧
    ∀ u, w' s u = Poll.none

/-- A socket has an entry if the application watches it. -/
theorem SocketOk.isSome_iff {w : User → Poll} {told : List Told} {entry : Option Entry}
    (h : SocketOk w told entry) : entry.isSome ↔ ∃ a, told.getLast? = some (.watch a) := by
  obtain ⟨-, h⟩ := h
  cases entry with
  | none => rcases h.2 with hlast | hlast <;> simp [hlast]
  | some e =>
    obtain ⟨-, -, -, -, -, -, hlast⟩ := h
    simp [hlast]

/-- And if somebody wants something of it. -/
theorem SocketOk.eq_none_iff {w : User → Poll} {told : List Told} {entry : Option Entry}
    (h : SocketOk w told entry) : entry = none ↔ ∀ u, w u = Poll.none := by
  obtain ⟨-, h⟩ := h
  cases entry with
  | none => exact ⟨fun _ => h.1, fun _ => rfl⟩
  | some e =>
    obtain ⟨⟨u, hu⟩, husers, -⟩ := h
    refine ⟨fun h => (Option.some_ne_none e h).elim, fun hnone => ?_⟩
    exact absurd (hnone u) ((husers u).mp hu)

/-- From what becomes of each socket in a call to what becomes of all. -/
theorem CallDone.of_follows {w w' : Wants} {m m' : Multi} (hm : Tracks w m)
    (hcalls : m.sh.calls = [])
    (hpast : m'.past = m.past) (h : ∀ s, Follows m.past (w' s) s m.sh m'.sh)
    (hleft : ∀ s u, w' s u ≠ Poll.none →
      ∃ ps, m'.pollsets u = some ps ∧ lookup ps.sockets s = w' s u) : CallDone w' m' := by
  refine ⟨⟨fun s => ?_, hleft⟩, fun s => ?_⟩
  · rw [hpast]
    exact (h s).ok
  · have hok := hm.ok s
    rw [hcalls, List.append_nil] at hok
    rw [(h s).removed, hcalls, hpast, hok.isSome_iff, (h s).ok.eq_none_iff]
    simp [tolds]

/-- What a user wants after it left a pollset. -/
theorem left_update {w : Wants} {m : Multi} (hm : Tracks w m) (user : User) (ps : Pollset)
    (s : Socket) (u : User) (hu : Function.update (w s) user (lookup ps.sockets s) u ≠ Poll.none) :
    ∃ ps', Function.update m.pollsets user (some ps) u = some ps' ∧
      lookup ps'.sockets s = Function.update (w s) user (lookup ps.sockets s) u := by
  by_cases heq : u = user
  · subst heq
    exact ⟨ps, by simp⟩
  · rw [Function.update_of_ne heq] at hu ⊢
    rw [Function.update_of_ne heq]
    exact hm.left s u hu

theorem assess_done {w : Wants} {m m' : Multi} {user : User} {ps : Pollset} (hm : Tracks w m)
    (hcalls : m.sh.calls = []) (h : m.assess user ps = some m') :
    CallDone (fun s => Function.update (w s) user (lookup ps.sockets s)) m' := by
  have hdiff (last : Pollset) {sh : Sh}
      (hlast : ∀ s, w s user ≠ Poll.none → lookup last.sockets s = w s user)
      (h : pollsetDiff m.sh user ps.sockets last.sockets = some sh) :
      CallDone (fun s => Function.update (w s) user (lookup ps.sockets s))
        { m with sh, pollsets := Function.update m.pollsets user (some ps) } :=
    CallDone.of_follows hm hcalls rfl (fun s => pollsetDiff_ok (hm.ok s) (hlast s) h)
      (left_update hm user ps)
  cases hlast : m.pollsets user with
  | some last =>
    simp only [Multi.assess, hlast, Option.map_some, Option.getD_some] at h
    obtain ⟨sh, hsh, rfl⟩ := Option.map_eq_some_iff.mp h
    refine hdiff last (fun s hs => ?_) hsh
    obtain ⟨ps', hps', hlook⟩ := hm.left s user hs
    rw [hlast] at hps'
    cases hps'
    exact hlook
  | none =>
    -- a user without a pollset wants nothing
    have hnothing (s : Socket) : w s user = Poll.none := by
      by_contra hs
      obtain ⟨ps', hps', -⟩ := hm.left s user hs
      rw [hlast] at hps'
      cases hps'
    cases hps : ps.sockets with
    | nil =>
      simp only [Multi.assess, hlast, hps, Option.some.injEq] at h
      subst h
      have hsame : (fun s => Function.update (w s) user (lookup [] s)) = w := by
        funext s
        rw [lookup_of_not_mem (by simp), ← hnothing s, Function.update_eq_self]
      rw [hsame]
      exact CallDone.of_follows hm hcalls rfl (fun s => Follows.same (hm.ok s) rfl) hm.left
    | cons x rest =>
      simp only [Multi.assess, hlast, hps] at h
      obtain ⟨sh, hsh, rfl⟩ := Option.map_eq_some_iff.mp h
      rw [← hps] at hsh ⊢
      exact hdiff Pollset.empty (fun s hs => absurd (hnothing s) hs) hsh

theorem done_done {w : Wants} {m m' : Multi} {user : User} (hm : Tracks w m)
    (hcalls : m.sh.calls = []) (h : m.done user = some m') :
    CallDone (fun s => Function.update (w s) user Poll.none) m' := by
  obtain ⟨m1, h1, rfl⟩ := Option.map_eq_some_iff.mp h
  obtain ⟨⟨hok, hleft⟩, hremoved⟩ := assess_done hm hcalls h1
  refine ⟨⟨hok, fun s u hu => ?_⟩, hremoved⟩
  by_cases heq : u = user
  · subst heq
    simp at hu
  · dsimp only
    rw [Function.update_of_ne heq]
    exact hleft s u hu

/-- Every call keeps the books. -/
theorem step_done {w : Wants} {m m' : Multi} {call : Call} (hm : Tracks w m)
    (h : m.step call = some m') : CallDone (w.after call) m' := by
  have hm0 : Tracks w { m with sh := { m.sh with calls := [] }, past := m.past ++ m.sh.calls } :=
    ⟨by simpa using hm.ok, hm.left⟩
  cases call with
  | assessXfer mid ps => exact assess_done hm0 rfl h
  | assessConn id ps =>
    simp only [Multi.step] at h
    split at h
    · exact assess_done hm0 rfl h
    · cases h
  | xferDone mid => exact done_done hm0 rfl h
  | connDone id => exact done_done hm0 rfl h
  | socketDone s =>
    cases h
    refine CallDone.of_follows hm0 rfl rfl (fun s' => ?_) (fun s' u hu => ?_)
    · by_cases heq : s' = s
      · subst heq
        rw [Wants.after, Function.update_self]
        exact forgetSocket_ok (hm0.ok s')
      · rw [Wants.after, Function.update_of_ne heq]
        exact Follows.same (hm0.ok s') (forgetSocket_other (Ne.symm heq))
    · by_cases heq : s' = s
      · subst heq
        simp [Wants.after] at hu
      · rw [Wants.after, Function.update_of_ne heq] at hu ⊢
        exact hm0.left s' u hu

theorem tracks_run {w : Wants} {m m' : Multi} {calls : List Call} (hm : CallDone w m)
    (h : Runs.exec Multi.step m calls = some m') : CallDone (calls.foldl Wants.after w) m' := by
  induction calls generalizing w m with
  | nil =>
    cases h
    exact hm
  | cons call rest ih =>
    obtain ⟨m1, h1, h2⟩ := Option.bind_eq_some_iff.mp h
    exact ih (step_done hm.tracks h1) h2

theorem start_done : CallDone (fun _ _ => Poll.none) Multi.start := by
  refine ⟨⟨fun s => ⟨⟨List.isChain_nil, by simp [Multi.start, tolds]⟩, ?_⟩, by simp⟩, fun s => ?_⟩
  · exact ⟨fun _ => rfl, .inl rfl⟩
  · simp [Multi.start, tolds]

theorem want_isSome (prev : List (Socket × Poll)) {user : User} {sh : Sh} {x : Socket × Poll}
    (h : ∀ e, sh.entries x.1 = some e → e.known user = true ∨ (e.add user).isSome) :
    (want user prev sh x).isSome := by
  unfold want
  cases he : sh.entries x.1 with
  | none => cases user <;> rfl
  | some e =>
    dsimp only
    rcases h e he with hknown | hadd
    · simp [hknown]
    · obtain ⟨e', he'⟩ := Option.isSome_iff_exists.mp hadd
      split
      · simp [he']
      · rfl

theorem wantAll_isSome (prev : List (Socket × Poll)) {user : User}
    {ps : List (Socket × Poll)} {sh : Sh} (hnd : (ps.map Prod.fst).Nodup)
    (h : ∀ x ∈ ps, ∀ e, sh.entries x.1 = some e → e.known user = true ∨ (e.add user).isSome) :
    (wantAll user prev ps sh).isSome := by
  induction ps generalizing sh with
  | nil => rfl
  | cons x rest ih =>
    obtain ⟨hfresh, hnd⟩ := List.nodup_cons.mp hnd
    obtain ⟨sh1, h1⟩ := Option.isSome_iff_exists.mp
      (want_isSome prev (h x List.mem_cons_self))
    simp only [wantAll, h1, Option.bind_some]
    refine ih hnd fun y hy e he => ?_
    have hne : x.1 ≠ y.1 := by
      intro heq
      rw [heq] at hfresh
      exact hfresh (List.mem_map_of_mem hy)
    have hsame : sh1.entries y.1 = sh.entries y.1 := congrArg Prod.fst (want_other hne h1)
    rw [hsame] at he
    exact h y (List.mem_cons_of_mem _ hy) e he

theorem assess_isSome {m : Multi} {user : User} {ps : Pollset}
    (h : ∀ x ∈ ps.sockets, ∀ e, m.sh.entries x.1 = some e →
      e.known user = true ∨ (e.add user).isSome) : (m.assess user ps).isSome := by
  have hall (prev : List (Socket × Poll)) := wantAll_isSome prev ps.distinct h
  unfold Multi.assess
  split
  · rfl
  · rw [Option.isSome_map, pollsetDiff, Option.isSome_map]
    exact hall _

/-- No call fails, as long as a socket has one connection at most. -/
theorem step_isSome (m : Multi) (call : Call)
    (h : ∀ id ps, call = .assessConn id ps → m.free id ps = true) : (m.step call).isSome := by
  cases call with
  | assessXfer mid ps => exact assess_isSome fun x _ e _ => .inr rfl
  | assessConn id ps =>
    have hfree := h id ps rfl
    have hfree' : Multi.free
      { m with sh := { m.sh with calls := [] }, past := m.past ++ m.sh.calls } id ps = true := hfree
    simp only [Multi.step, hfree', if_true]
    refine assess_isSome fun x hx e he => ?_
    have hx := List.all_eq_true.mp hfree x hx
    dsimp only at he
    rw [he] at hx
    cases hconn : e.conn with
    | none => exact .inr (by simp [Entry.add, hconn])
    | some id' => exact .inl (by simpa [hconn, Entry.known] using hx)
  | xferDone mid =>
    rw [Multi.step, Multi.done, Option.isSome_map]
    exact assess_isSome fun x hx => absurd hx List.not_mem_nil
  | connDone id =>
    rw [Multi.step, Multi.done, Option.isSome_map]
    exact assess_isSome fun x hx => absurd hx List.not_mem_nil
  | socketDone s => rfl

/-- The supervision of the sockets is exact for what the users want of them. -/
structure Exact (w : Wants) (m : Multi) : Prop where
  /-- The users registered for a socket are those that want something of it. -/
  users : ∀ s e, m.sh.entries s = some e → ∀ u, u ∈ e.users ↔ w s u ≠ Poll.none
  entry : ∀ s, (m.sh.entries s).isSome ↔ ∃ u, w s u ≠ Poll.none
  announced : ∀ s, (∃ u, w s u ≠ Poll.none) → ∃ a,
    (tolds (m.past ++ m.sh.calls) s).getLast? = some (.watch a) ∧
    (a.pollIn = true ↔ ∃ u, (w s u).pollIn = true) ∧
    (a.pollOut = true ↔ ∃ u, (w s u).pollOut = true)
  readers : ∀ s e, m.sh.entries s = some e →
    e.readers = (e.users.filter fun u => (w s u).pollIn = true).card
  writers : ∀ s e, m.sh.entries s = some e →
    e.writers = (e.users.filter fun u => (w s u).pollOut = true).card
  /-- In the last call the application was told to forget what it watched before that call and what
  has no user any more. -/
  removed : ∀ s, (s, .remove) ∈ m.sh.calls ↔
    (∃ a, (tolds m.past s).getLast? = some (.watch a)) ∧ ∀ u, w s u = Poll.none
  news : ∀ s, AllNews (tolds (m.past ++ m.sh.calls) s)

theorem mem_tolds {log : List (Socket × Told)} {s : Socket} {t : Told} :
    t ∈ tolds log s ↔ (s, t) ∈ log := by
  simp [tolds]

/-- A user that has a wish is registered. -/
theorem tally_all_iff {wish : Poll → Bool} {w : User → Poll} {users : Finset User}
    (hnone : wish Poll.none = false) (h : ∀ u, u ∈ users ↔ w u ≠ Poll.none) :
    (tally wish w users != 0) = true ↔ ∃ u, wish (w u) = true := by
  rw [bne_iff_ne, tally_pos_iff]
  refine ⟨fun ⟨u, _, hu⟩ => ⟨u, hu⟩, fun ⟨u, hu⟩ => ⟨u, (h u).mpr fun heq => ?_, hu⟩⟩
  rw [heq, hnone] at hu
  cases hu

theorem CallDone.exact {w : Wants} {m : Multi} (h : CallDone w m) : Exact w m := by
  have hsome (s : Socket) : (m.sh.entries s).isSome ↔ ∃ u, w s u ≠ Poll.none := by
    rw [← Option.ne_none_iff_isSome, Ne, (h.tracks.ok s).eq_none_iff, not_forall]
  have hentry {s : Socket} {e : Entry} (he : m.sh.entries s = some e) :=
    he ▸ (h.tracks.ok s).2
  refine ⟨fun s e he => ?_, hsome, fun s hs => ?_, fun s e he => ?_, fun s e he => ?_, fun s => ?_,
    fun s => (h.tracks.ok s).1⟩
  · obtain ⟨-, husers, -⟩ := hentry he
    exact husers
  · obtain ⟨e, he⟩ := Option.isSome_iff_exists.mp ((hsome s).mpr hs)
    obtain ⟨-, husers, -, -, -, hact, hlast⟩ := hentry he
    refine ⟨e.action, hlast, ?_, ?_⟩
    · rw [hact]
      exact tally_all_iff rfl husers
    · rw [hact]
      exact tally_all_iff rfl husers
  · obtain ⟨-, -, hr, -⟩ := hentry he
    exact hr
  · obtain ⟨-, -, -, hw, -⟩ := hentry he
    exact hw
  · rw [← mem_tolds]
    exact h.removed s

/-- After every run the supervision is exact, and no further call fails. -/
theorem supervision_exact (calls : List Call) (m : Multi)
    (h : Runs.exec Multi.step Multi.start calls = some m) :
    Exact (wants calls) m ∧ ∀ call, (∀ id ps, call = .assessConn id ps → m.free id ps = true) →
      (m.step call).isSome :=
  ⟨(tracks_run start_done h).exact, step_isSome m⟩

/-- A transfer and a connection share a socket, which is closed and opened again by another transfer
before the connection goes, with a pollset that still lists it. -/
def sampleCalls : List Call :=
  [.assessXfer 1 ⟨[(5, ⟨true, false⟩)], by simp, by simp [Poll.none]⟩,
    .assessConn 7 ⟨[(5, ⟨false, true⟩), (6, ⟨true, false⟩)], by simp, by simp [Poll.none]⟩,
    .assessXfer 1 Pollset.empty, .socketDone 5,
    .assessXfer 2 ⟨[(5, ⟨true, true⟩)], by simp, by simp [Poll.none]⟩, .connDone 7]

theorem supervision_exact_sample :
    ∃ m, Runs.exec Multi.step Multi.start sampleCalls = some m ∧ Exact (wants sampleCalls) m ∧
      m.past = [(5, .watch ⟨true, false⟩), (5, .watch ⟨true, true⟩), (6, .watch ⟨true, false⟩),
        (5, .watch ⟨false, true⟩), (5, .remove), (5, .watch ⟨true, true⟩)] ∧
      m.sh.calls = [(6, .remove)] := by
  have hrun : (Runs.exec Multi.step Multi.start sampleCalls).map (fun m => (m.past, m.sh.calls)) =
      some ([(5, .watch ⟨true, false⟩), (5, .watch ⟨true, true⟩), (6, .watch ⟨true, false⟩),
        (5, .watch ⟨false, true⟩), (5, .remove), (5, .watch ⟨true, true⟩)], [(6, .remove)]) := by
    decide +kernel
  obtain ⟨m, hm, heq⟩ := Option.map_eq_some_iff.mp hrun
  obtain ⟨hpast, hcalls⟩ := Prod.mk.inj heq
  exact ⟨m, hm, (supervision_exact sampleCalls m hm).1, hpast, hcalls⟩

end Gurl.MultiEv
