import Gurl.Ratelimit.Wait

/-! What can be read after a drain. -/

namespace Gurl.Ratelimit

open Splay (Curltime ptimediffUs)

variable {r r' : Rlimit} {t : Curltime}

/-- The numbers of a limiter are 64-bit numbers. -/
structure Typed (r : Rlimit) : Prop where
  rate : InRange r.ratePerStep
  burst : InRange r.burstPerStep
  step : InRange r.stepUs
  tokens : InRange r.tokens
  spare : InRange r.spareUs

/-- The tokens at `t`. -/
def availAt (r : Rlimit) (t : Curltime) : Option Int := (rlimitAvail r t).map Prod.snd

/-- The tokens at `t` after `n` of them were drained at `t`. -/
def availAfterDrain (r : Rlimit) (n : Nat) (t : Curltime) : Option Int :=
  (rlimitDrain r n t).bind fun r => availAt r t

theorem refill_tokens {steps : Int} (hburst : InRange r.burstPerStep)
    (h : refill r steps = some r') : InRange r'.tokens ∧ r'.ts = r.ts ∧ r'.blocked = r.blocked ∧
      r'.ratePerStep = r.ratePerStep := by
  have hadd {tokens gain sum : Int} (h : addTokens tokens gain = some sum) : InRange sum := by
    obtain ⟨room, -, h⟩ := Option.bind_eq_some_iff.mp h
    split_ifs at h
    · obtain ⟨hrange, rfl⟩ := i64_eq_some.mp h
      exact hrange
    · cases h
      decide
  obtain ⟨gain, -, h⟩ := Option.bind_eq_some_iff.mp h
  obtain ⟨tokens, htokens, h⟩ := Option.bind_eq_some_iff.mp h
  cases h
  refine ⟨?_, rfl, rfl, rfl⟩
  dsimp only
  split_ifs
  · exact hburst
  · exact hadd htokens

/-- An update either leaves the limiter as it is, and would for any number of tokens, or it sets its
time to the present. -/
theorem update_twice (htyped : Typed r) (h : rlimitUpdate r t = some r') :
    InRange r'.tokens ∧ r'.blocked = r.blocked ∧ r'.ratePerStep = r.ratePerStep ∧
      ∀ tokens, rlimitUpdate { r' with tokens } t = some { r' with tokens } := by
  unfold rlimitUpdate at h
  split_ifs at h with hsame hback
  · cases h
    exact ⟨htyped.tokens, rfl, rfl, fun tokens => if_pos hsame⟩
  · cases h
    refine ⟨htyped.tokens, rfl, rfl, fun tokens => ?_⟩
    unfold rlimitUpdate
    rw [if_neg hsame, if_pos hback]
  · obtain ⟨elapsed, helapsed, h⟩ := Option.bind_eq_some_iff.mp h
    split_ifs at h with hfew
    · cases h
      refine ⟨htyped.tokens, rfl, rfl, fun tokens => ?_⟩
      unfold rlimitUpdate
      rw [if_neg hsame, if_neg hback, helapsed, Option.bind_eq_bind, Option.bind_some, if_pos hfew]
    · obtain ⟨steps, -, h⟩ := Option.bind_eq_some_iff.mp h
      obtain ⟨htokens, hts, hblocked, hrate⟩ := refill_tokens
        (r := { r with ts := t, spareUs := elapsed.tmod r.stepUs }) htyped.burst h
      exact ⟨htokens, hblocked, hrate, fun tokens => if_pos ⟨by rw [hts], by rw [hts]⟩⟩

/-- What is left after a drain: the difference, as far as it can be counted; but for more tokens
than an `int64_t` has, as many as it has. -/
theorem availAfterDrain_spec (htyped : Typed r) (hrate : 0 < r.ratePerStep)
    (hblocked : r.blocked = false) (h : rlimitUpdate r t = some r') (n : Nat) :
    availAfterDrain r n t =
      some (if n > INT64_MAX then INT64_MAX else max (r'.tokens - n) INT64_MIN) := by
  obtain ⟨⟨hlow, hhigh⟩, hb, hr, htwice⟩ := update_twice htyped h
  have hread (tokens : Int) : availAt { r' with tokens } t = some tokens := by
    unfold availAt rlimitAvail
    rw [if_neg (by rw [hb, hblocked]; decide), if_pos (by rw [hr]; omega), htwice]
    rfl
  unfold availAfterDrain rlimitDrain
  rw [if_neg (by rw [hblocked]; simp; omega), h, Option.bind_eq_bind, Option.bind_some]
  split_ifs with hhuge hfits
  · exact hread _
  · rw [i64_eq_some.mpr ⟨⟨by omega, by omega⟩, rfl⟩, Option.bind_eq_bind, Option.bind_some,
      max_eq_left (by omega)]
    exact hread _
  · rw [max_eq_right (by omega)]
    exact hread _

theorem availAt_spec (hrate : 0 < r.ratePerStep)
    (hblocked : r.blocked = false) : availAt r t = (rlimitUpdate r t).map (·.tokens) := by
  unfold availAt rlimitAvail
  rw [if_neg (by rw [hblocked]; decide), if_pos (by omega), Option.map_map]
  rfl

/-- A drain of `n` tokens does not make more of them available, and more than a smaller drain does:
if and only if `n` is a number that an `int64_t` has, or the limiter is blocked. The last case is
that of a refill with a behaviour that is not defined. -/
theorem drain_never_adds_iff (r : Rlimit) (htyped : Typed r) (hrate : 0 < r.ratePerStep) (n : Nat)
    (t : Curltime) :
    ((∀ a, availAt r t = some a → ∃ b, availAfterDrain r n t = some b ∧ b ≤ a) ∧
      ∀ m ≤ n, ∀ b c, availAfterDrain r m t = some b → availAfterDrain r n t = some c → c ≤ b) ↔
    n ≤ INT64_MAX ∨ r.blocked = true ∨ rlimitUpdate r t = none := by
  obtain ⟨hmax, hmin⟩ := int64_limits
  cases hblocked : r.blocked with
  | true =>
    have hread : availAt r t = some 0 := by
      unfold availAt rlimitAvail
      rw [if_pos hblocked]
      rfl
    have hdrain (m : Nat) : availAfterDrain r m t = some 0 := by
      unfold availAfterDrain rlimitDrain
      rw [if_pos (.inl hblocked)]
      exact hread
    simp [hread, hdrain]
  | false =>
    cases hupdate : rlimitUpdate r t with
    | none =>
      have hread : availAt r t = none := by
        rw [availAt_spec hrate hblocked, hupdate]
        rfl
      have hdrain (m : Nat) : availAfterDrain r m t = none := by
        unfold availAfterDrain rlimitDrain
        rw [if_neg (by rw [hblocked]; simp; omega), hupdate]
        rfl
      simp [hread, hdrain]
    | some r' =>
      have hdrain := availAfterDrain_spec htyped hrate hblocked hupdate
      obtain ⟨⟨hlow, hhigh⟩, -⟩ := update_twice htyped hupdate
      rw [availAt_spec hrate hblocked, hupdate]
      simp only [hdrain, Option.map_some, Option.some.injEq, reduceCtorEq, Bool.false_eq_true,
        or_false]
      constructor
      · rintro ⟨-, hanti⟩
        by_contra hhuge
        have hone := hanti 1 (by omega) _ _ rfl rfl
        split_ifs at hone <;> omega
      · intro hfits
        constructor
        · rintro a rfl
          refine ⟨_, rfl, ?_⟩
          rw [if_neg (by omega)]
          omega
        · rintro m hm b c rfl rfl
          rw [if_neg (by omega), if_neg (by omega)]
          omega

theorem drain_never_adds_overdrawn :
    ((∀ a, availAt overdrawn ⟨0, 0⟩ = some a →
        ∃ b, availAfterDrain overdrawn 7 ⟨0, 0⟩ = some b ∧ b ≤ a) ∧
      ∀ m ≤ 7, ∀ b c, availAfterDrain overdrawn m ⟨0, 0⟩ = some b →
        availAfterDrain overdrawn 7 ⟨0, 0⟩ = some c → c ≤ b) :=
  (drain_never_adds_iff overdrawn ⟨by decide, by decide, by decide, by decide, by decide⟩
    (by decide) 7 ⟨0, 0⟩).mpr (.inl (by decide))

/-- A drain of `2 ^ 63` tokens. -/
theorem drain_adds : ∃ a b, availAt overdrawn ⟨0, 0⟩ = some a ∧
    availAfterDrain overdrawn (2 ^ 63) ⟨0, 0⟩ = some b ∧ a < b :=
  ⟨-3, INT64_MAX, by decide +kernel, by decide +kernel, by decide⟩

end Gurl.Ratelimit
