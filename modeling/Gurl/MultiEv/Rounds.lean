import Gurl.MultiEv.MultiEv

/-! The rounds of `mev_pollset_diff`: a user joins a socket, changes its mind about it or leaves
it. -/

namespace Gurl.MultiEv

section
variable {past : List (Socket × Told)} {w : User → Poll} {s s' : Socket} {sh sh' : Sh} {user : User}

/-- Forgetting a socket: nobody wants anything of it any more. -/
theorem forgetSocket_ok (h : SocketOk w (tolds (past ++ sh.calls) s) (sh.entries s)) :
    Follows past (fun _ => Poll.none) s sh (forgetSocket sh s) := by
  obtain ⟨hnews, h⟩ := h
  unfold forgetSocket
  cases he : sh.entries s with
  | none =>
    rw [he] at h
    refine ⟨⟨hnews, ?_⟩, by simp [he]⟩
    rw [he]
    exact ⟨fun _ => rfl, h.2⟩
  | some e =>
    rw [he] at h
    obtain ⟨-, -, -, -, hann, -, hlast⟩ := h
    simp only [hann, if_true]
    refine ⟨⟨?_, ?_⟩, by simp [Sh.set, Sh.call, he]⟩
    · simpa [Sh.set, Sh.call] using hnews.remove hlast
    · simp only [Sh.set, Sh.call, Function.update_self]
      exact ⟨fun _ => trivial, .inr (by simp)⟩

theorem forgetSocket_other (h : s ≠ s') : (forgetSocket sh s).about s' = sh.about s' := by
  unfold forgetSocket
  cases sh.entries s with
  | none => rfl
  | some e =>
    dsimp only
    split <;> simp [Sh.about, Sh.set, Sh.call, Function.update_of_ne h.symm, tolds_other h]

theorem update_wish_iff {users : Finset User} {a : Poll} (ha : a ≠ Poll.none)
    (h : ∀ u, u ∈ users ↔ w u ≠ Poll.none) (u : User) :
    u ∈ insert user users ↔ Function.update w user a u ≠ Poll.none := by
  by_cases hu : u = user
  · subst hu
    simp [ha]
  · rw [Function.update_of_ne hu, Finset.mem_insert, h u]
    simp [hu]

/-- A user joins a socket, with the entry it is added to. -/
theorem join_ok {e e' : Entry} {a : Poll} (ha : a ≠ Poll.none)
    (hnews : AllNews (tolds (past ++ sh.calls) s)) (hfresh : user ∉ e.users)
    (husers : ∀ u, u ∈ e.users ↔ w u ≠ Poll.none)
    (hr : e.readers = tally Poll.pollIn w e.users) (hw : e.writers = tally Poll.pollOut w e.users)
    (hact : (e.announced = true ∧ (tolds (past ++ sh.calls) s).getLast? = some (.watch e.action)) ∨
      (e.action = Poll.none ∧ ((tolds (past ++ sh.calls) s).getLast? = none ∨
        (tolds (past ++ sh.calls) s).getLast? = some .remove)))
    (hadd : e.add user = some e') :
    Follows past (Function.update w user a) s sh (shEntryUpdate sh e' s Poll.none a) := by
  obtain ⟨hu', ha', hr', hw', hann'⟩ := add_spec hadd
  apply shEntryUpdate_ok hnews
  · rw [hu']
    exact Finset.insert_nonempty user e.users
  · rw [hu']
    exact update_wish_iff ha husers
  · rw [hr', hu', hr]
    exact count_join hfresh Poll.pollIn rfl
  · rw [hw', hu', hw]
    exact count_join hfresh Poll.pollOut rfl
  · exact fun h => absurd h.symm ha
  · rw [ha', hann']
    exact hact

/-- A round of the first loop. A user that is registered left in `prev` what it wants. -/
theorem want_ok {prev : List (Socket × Poll)} {a : Poll} (ha : a ≠ Poll.none)
    (h : SocketOk w (tolds (past ++ sh.calls) s) (sh.entries s))
    (hprev : w user ≠ Poll.none → lookup prev s = w user)
    (hwant : want user prev sh (s, a) = some sh') :
    Follows past (Function.update w user a) s sh sh' := by
  obtain ⟨hnews, h⟩ := h
  simp only [want] at hwant
  cases he : sh.entries s with
  | none =>
    rw [he] at h hwant
    obtain ⟨hnone, hlast⟩ := h
    have hempty : Entry.users {} = ∅ := rfl
    cases hadd : Entry.add {} user with
    | none => simp [hadd] at hwant
    | some e' =>
      simp only [hadd, Option.some.injEq] at hwant
      rw [← hwant]
      refine join_ok ha hnews ?_ ?_ ?_ ?_ (.inr ⟨rfl, hlast⟩) hadd
      · simp [hempty]
      · simp [hempty, hnone]
      · rfl
      · rfl
  | some e =>
    rw [he] at h hwant
    obtain ⟨hne, husers, hr, hw, hann, hact, hlast⟩ := h
    by_cases hknown : user ∈ e.users
    · have hk : e.known user = true := (known_iff e user).mpr hknown
      simp only [hk, Bool.not_true, Bool.false_eq_true, if_false, Option.some.injEq] at hwant
      rw [← hwant, hprev ((husers user).mp hknown)]
      have hins : insert user e.users = e.users := Finset.insert_eq_of_mem hknown
      apply shEntryUpdate_ok hnews hne
      · rw [← hins]
        exact update_wish_iff ha husers
      · rw [hr]
        exact count_change hknown Poll.pollIn
      · rw [hw]
        exact count_change hknown Poll.pollOut
      · intro hsame
        rw [← hsame, Function.update_eq_self]
        exact hact
      · exact .inl ⟨hann, hlast⟩
    · have hk : e.known user = false := by
        rw [← Bool.not_eq_true, known_iff]
        exact hknown
      simp only [hk, Bool.not_false, if_true] at hwant
      cases hadd : e.add user with
      | none => simp [hadd] at hwant
      | some e' =>
        simp only [hadd, Option.some.injEq] at hwant
        rw [← hwant]
        exact join_ok ha hnews hknown husers hr hw (.inl ⟨hann, hlast⟩) hadd

theorem want_other {prev : List (Socket × Poll)} {x : Socket × Poll} (hx : x.1 ≠ s')
    (hwant : want user prev sh x = some sh') : sh'.about s' = sh.about s' := by
  simp only [want] at hwant
  split at hwant
  · split at hwant
    · cases hwant
    · cases hwant
      exact shEntryUpdate_other hx _ _ _
  · split at hwant
    · split at hwant
      · cases hwant
      · cases hwant
        exact shEntryUpdate_other hx _ _ _
    · cases hwant
      exact shEntryUpdate_other hx _ _ _

/-- A round of the second loop, for a socket that is not wanted any more. -/
theorem unwant_ok {sockets : List (Socket × Poll)} {b : Poll}
    (hgone : (sockets.any fun y => s == y.1) = false)
    (h : SocketOk w (tolds (past ++ sh.calls) s) (sh.entries s))
    (hb : w user ≠ Poll.none → b = w user) :
    Follows past (Function.update w user Poll.none) s sh (unwant user sockets sh (s, b)) := by
  have hok := h
  obtain ⟨hnews, h⟩ := h
  simp only [unwant, hgone, Bool.false_eq_true, if_false]
  cases he : sh.entries s with
  | none =>
    rw [he] at h
    have heq : Function.update w user Poll.none = w := by
      rw [← h.1 user]
      exact Function.update_eq_self user w
    rw [heq]
    exact Follows.same hok rfl
  | some e =>
    rw [he] at h
    obtain ⟨hne, husers, hr, hw, hann, hact, hlast⟩ := h
    by_cases hknown : user ∈ e.users
    · have hk : e.known user = true := (known_iff e user).mpr hknown
      obtain ⟨hu', ha', hr', hw', hann'⟩ := drop_spec hknown
      have hwish (u : User) : u ∈ (e.drop user).users ↔
          Function.update w user Poll.none u ≠ Poll.none := by
        rw [hu', Finset.mem_erase]
        by_cases hu : u = user
        · simp [hu]
        · simp [hu, husers u]
      simp only [hk, Bool.not_true, Bool.false_eq_true, if_false, userCount_eq]
      rw [hb ((husers user).mp hknown)]
      by_cases hlastUser : (e.drop user).users.card = 0
      · simp only [hlastUser, ne_eq, not_true_eq_false, if_false]
        -- the socket loses its last user
        have hnobody : Function.update w user Poll.none = fun _ => Poll.none := by
          funext u
          by_contra hu
          have := (hwish u).mpr hu
          rw [Finset.card_eq_zero.mp hlastUser] at this
          simp at this
        rw [hnobody]
        simp only [forgetSocket, Sh.set, Function.update_self, hann', hann, if_true, Sh.call,
          Function.update_idem]
        refine ⟨⟨?_, ?_⟩, by simp [he]⟩
        · simpa using hnews.remove hlast
        · simp only [Function.update_self]
          exact ⟨fun _ => trivial, .inr (by simp)⟩
      · simp only [ne_eq, hlastUser, not_false_eq_true, if_true]
        apply shEntryUpdate_ok hnews
        · exact Finset.card_ne_zero.mp hlastUser
        · exact hwish
        · rw [hr', hu', hr]
          exact count_leave hknown Poll.pollIn rfl
        · rw [hw', hu', hw]
          exact count_leave hknown Poll.pollOut rfl
        · exact fun hnone => absurd hnone ((husers user).mp hknown)
        · rw [ha', hann']
          exact .inl ⟨hann, hlast⟩
    · have hk : e.known user = false := by
        rw [← Bool.not_eq_true, known_iff]
        exact hknown
      have heq : Function.update w user Poll.none = w := by
        have hnone : w user = Poll.none := by
          by_contra hne'
          exact hknown ((husers user).mpr hne')
        rw [← hnone]
        exact Function.update_eq_self user w
      simp only [hk, Bool.not_false, if_true]
      rw [heq]
      exact Follows.same hok rfl

theorem unwant_other {sockets : List (Socket × Poll)} {x : Socket × Poll} (hx : x.1 ≠ s') :
    (unwant user sockets sh x).about s' = sh.about s' := by
  simp only [unwant]
  split
  · rfl
  · split
    · rfl
    · split
      · rfl
      · split
        · exact shEntryUpdate_other hx _ _ _
        · rw [forgetSocket_other hx]
          simp [Sh.about, Sh.set, Function.update_of_ne hx.symm]

end

end Gurl.MultiEv
