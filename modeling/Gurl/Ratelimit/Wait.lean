import Gurl.Ratelimit.Ratelimit

/-! Waiting as long as the limiter says is enough. -/

namespace Gurl.Ratelimit

open Splay (Curltime ptimediffUs ptimediffUs_sign)

variable {r r' : Rlimit} {t pts : Curltime} {x y z : Int}

/-! ### Arithmetic -/

theorem i64_eq_some : i64 x = some y ↔ InRange x ∧ x = y := by
  unfold i64
  split
  · simp [*]
  · simp [*]

theorem div64_eq_some (hx : 0 ≤ x) (hy : 0 < y) : div64 x y = some z ↔ x / y = z ∧ InRange z := by
  unfold div64
  rw [if_neg (by omega), i64_eq_some, Int.tdiv_eq_ediv_of_nonneg hx]
  constructor
  · rintro ⟨hrange, rfl⟩
    exact ⟨rfl, hrange⟩
  · rintro ⟨rfl, hrange⟩
    exact ⟨hrange, rfl⟩

/-- A time some milliseconds later. -/
def addMs (t : Curltime) (ms : Int) : Curltime where
  tvSec := (t.us + ms * 1000) / 1000000
  tvUsec := (t.us + ms * 1000) % 1000000

theorem us_addMs (t : Curltime) (ms : Int) : (addMs t ms).us = t.us + ms * 1000 := by
  unfold addMs Curltime.us
  dsimp only
  have := Int.mul_ediv_add_emod (t.tvSec * 1000000 + t.tvUsec + ms * 1000) 1000000
  omega

theorem int64_limits : INT64_MAX = 9223372036854775807 ∧ INT64_MIN = -9223372036854775808 :=
  ⟨rfl, rfl⟩

/-- A time of which the microseconds are less than a second, as every clock gives it. -/
def Normal (t : Curltime) : Prop := 0 ≤ t.tvUsec ∧ t.tvUsec < 1000000

theorem normal_addMs (t : Curltime) (ms : Int) : Normal (addMs t ms) := by
  unfold Normal addMs
  dsimp only
  omega

theorem ptimediffUs_nonneg (ht : Normal t) (hp : Normal pts) (hle : t.us ≤ pts.us) :
    0 ≤ ptimediffUs pts t := by
  have hsign := (ptimediffUs_sign (a := pts) (b := t) ⟨by have := hp.1; omega, hp.2⟩
    ⟨by have := ht.1; omega, ht.2⟩).1
  by_contra hneg
  have := hsign.mp (by omega)
  omega

/-- The difference of two times that are not hundreds of thousands of years apart is exact. -/
theorem ptimediffUs_exact (ht : Normal t) (hp : Normal pts) (hle : t.us ≤ pts.us)
    (hnear : ptimediffUs pts t < 9000000000000000000 ∨ pts.us - t.us < 9000000000000000000) :
    ptimediffUs pts t = pts.us - t.us := by
  have hmax : Splay.timediffTMax = 9223372036854775807 := rfl
  have hmaxdiv : Splay.timediffTMax.tdiv 1000000 = 9223372036854 := by decide
  have hmindiv : Splay.timediffTMin.tdiv 1000000 = -9223372036854 := by decide
  obtain ⟨ht0, ht1⟩ := ht
  obtain ⟨hp0, hp1⟩ := hp
  unfold ptimediffUs at hnear ⊢
  unfold Curltime.us at hle hnear ⊢
  rw [hmaxdiv, hmindiv, hmax] at hnear ⊢
  dsimp only at hnear ⊢
  split_ifs at hnear ⊢ <;> omega

/-! ### The limiter -/

/-- A limiter that has been filled for the last time at `now` or before. -/
structure Sound (r : Rlimit) (now : Int) : Prop where
  unblocked : r.blocked = false
  sec_pos : 0 < r.ratePerSec
  sec_le : r.ratePerSec ≤ INT64_MAX
  burst_sec : 0 ≤ r.burstPerSec
  rate_pos : 0 < r.ratePerStep
  rate_le : r.ratePerStep ≤ INT64_MAX
  burst : 0 ≤ r.burstPerStep
  step_pos : 0 < r.stepUs
  step_le : r.stepUs ≤ 2000000
  spare : 0 ≤ r.spareUs
  spare_lt : r.spareUs < r.stepUs
  tokens : InRange r.tokens
  normal : Normal r.ts
  ts_le : r.ts.us ≤ now

theorem Sound.mono {now later : Int} (h : Sound r now) (hle : now ≤ later) : Sound r later :=
  { h with ts_le := h.ts_le.trans hle }

/-- What a refill leaves as it is. -/
structure Refilled (r r' : Rlimit) : Prop where
  blocked : r'.blocked = r.blocked
  sec : r'.ratePerSec = r.ratePerSec
  burst_sec : r'.burstPerSec = r.burstPerSec
  rate : r'.ratePerStep = r.ratePerStep
  burst : r'.burstPerStep = r.burstPerStep
  step : r'.stepUs = r.stepUs
  spare : r'.spareUs = r.spareUs
  ts : r'.ts = r.ts

/-- The gain is cut off at what can be counted. -/
theorem tokenGain_spec {steps : Int} (hrate : 0 < r.ratePerStep) (hsteps : 0 < steps) :
    tokenGain r steps = some (min (r.ratePerStep * steps) INT64_MAX) := by
  obtain ⟨hmax, hmin⟩ := int64_limits
  have hpos : 0 < r.ratePerStep * steps := Int.mul_pos hrate hsteps
  have hmost : div64 INT64_MAX steps = some (INT64_MAX / steps) := by
    have hnonneg : 0 ≤ INT64_MAX / steps := Int.ediv_nonneg (by omega) (by omega)
    have hself : INT64_MAX / steps ≤ INT64_MAX := Int.ediv_le_self _ (by omega)
    exact (div64_eq_some (by omega) hsteps).mpr ⟨rfl, by unfold InRange; omega⟩
  unfold tokenGain
  rw [hmost, Option.bind_eq_bind, Option.bind_some]
  split_ifs with hbig
  · have : INT64_MAX < r.ratePerStep * steps := (Int.ediv_lt_iff_lt_mul hsteps).mp hbig
    rw [min_eq_right (by omega)]
  · have : r.ratePerStep * steps ≤ INT64_MAX := (Int.le_ediv_iff_mul_le hsteps).mp (by omega)
    rw [min_eq_left this, i64_eq_some]
    exact ⟨⟨by omega, this⟩, rfl⟩

theorem addTokens_spec {tokens gain : Int} (htokens : InRange tokens) (hgain : 0 < gain)
    (hle : gain ≤ INT64_MAX) : addTokens tokens gain = some (min (tokens + gain) INT64_MAX) := by
  have hmin : INT64_MIN = -9223372036854775808 := rfl
  obtain ⟨hlow, hhigh⟩ := htokens
  have hroom : i64 (INT64_MAX - gain) = some (INT64_MAX - gain) :=
    i64_eq_some.mpr ⟨⟨by omega, by omega⟩, rfl⟩
  unfold addTokens
  rw [hroom, Option.bind_eq_bind, Option.bind_some]
  split_ifs
  · rw [min_eq_left (by omega), i64_eq_some]
    exact ⟨⟨by omega, by omega⟩, rfl⟩
  · rw [min_eq_right (by omega)]

/-- The tokens after a refill: the old ones and those of the steps, up to what can be counted and up
to the burst. -/
theorem refill_spec (r : Rlimit) {steps : Int} (hrate : 0 < r.ratePerStep)
    (htokens : InRange r.tokens) (hburst : 0 ≤ r.burstPerStep) (hsteps : 0 < steps) :
    ∃ r', refill r steps = some r' ∧ Refilled r r' ∧ InRange r'.tokens ∧
      (0 < r.tokens + min (r.ratePerStep * steps) INT64_MAX → 0 < r'.tokens) := by
  obtain ⟨hmax, hmin⟩ := int64_limits
  have hpos : 0 < min (r.ratePerStep * steps) INT64_MAX :=
    lt_min (Int.mul_pos hrate hsteps) (by omega)
  have hle : min (r.ratePerStep * steps) INT64_MAX ≤ INT64_MAX := min_le_right _ _
  unfold refill
  rw [tokenGain_spec hrate hsteps, Option.bind_eq_bind, Option.bind_some,
    addTokens_spec htokens hpos hle, Option.bind_some]
  obtain ⟨hlow, hhigh⟩ := htokens
  refine ⟨_, rfl, ⟨rfl, rfl, rfl, rfl, rfl, rfl, rfl, rfl⟩, ?_, ?_⟩
  · unfold InRange
    dsimp only
    split_ifs <;> omega
  · dsimp only
    intro hgain
    split_ifs <;> omega

/-- What an update at a later time does: nothing, or a refill of at least one step. -/
theorem update_cases (hr' : rlimitUpdate r pts = some r') (hnonneg : 0 ≤ ptimediffUs pts r.ts)
    (hspare : 0 ≤ r.spareUs) (hstep : 0 < r.stepUs) :
    r' = r ∨ ∃ steps, 0 < steps ∧ steps = (ptimediffUs pts r.ts + r.spareUs) / r.stepUs ∧
      refill { r with ts := pts, spareUs := (ptimediffUs pts r.ts + r.spareUs) % r.stepUs } steps =
        some r' := by
  unfold rlimitUpdate at hr'
  by_cases hsame : r.ts.tvSec = pts.tvSec ∧ r.ts.tvUsec = pts.tvUsec
  · rw [if_pos hsame] at hr'
    exact .inl (Option.some.inj hr').symm
  rw [if_neg hsame, if_neg (by omega)] at hr'
  obtain ⟨elapsed, helapsed, hr'⟩ := Option.bind_eq_some_iff.mp hr'
  obtain ⟨-, rfl⟩ := i64_eq_some.mp helapsed
  by_cases hfew : ptimediffUs pts r.ts + r.spareUs < r.stepUs
  · rw [if_pos hfew] at hr'
    exact .inl (Option.some.inj hr').symm
  rw [if_neg hfew] at hr'
  obtain ⟨steps, hsteps, hr'⟩ := Option.bind_eq_some_iff.mp hr'
  obtain ⟨rfl, -⟩ := (div64_eq_some (by omega) hstep).mp hsteps
  rw [Int.tmod_eq_emod_of_nonneg (by omega)] at hr'
  have hsome : 1 ≤ (ptimediffUs pts r.ts + r.spareUs) / r.stepUs := by
    rw [Int.le_ediv_iff_mul_le hstep]
    omega
  exact .inr ⟨_, hsome, rfl, hr'⟩

theorem Sound.elapsed {now : Int} (h : Sound r now) (hp : Normal pts) (hle : now ≤ pts.us) :
    0 ≤ ptimediffUs pts r.ts := ptimediffUs_nonneg h.normal hp (h.ts_le.trans hle)

/-- An update keeps the limiter sound. -/
theorem Sound.update {now : Int} (h : Sound r now) (hp : Normal pts) (hle : now ≤ pts.us)
    (hr' : rlimitUpdate r pts = some r') : Sound r' pts.us := by
  obtain rfl | ⟨steps, hsteps, -, hrefill⟩ :=
    update_cases hr' (h.elapsed hp hle) h.spare h.step_pos
  · exact h.mono hle
  · obtain ⟨r'', hsome, hkept, htokens, -⟩ := refill_spec
      { r with ts := pts, spareUs := (ptimediffUs pts r.ts + r.spareUs) % r.stepUs }
      h.rate_pos h.tokens h.burst hsteps
    rw [hrefill, Option.some.injEq] at hsome
    subst hsome
    exact {
      unblocked := hkept.blocked.trans h.unblocked
      sec_pos := hkept.sec ▸ h.sec_pos
      sec_le := hkept.sec ▸ h.sec_le
      burst_sec := hkept.burst_sec ▸ h.burst_sec
      rate_pos := hkept.rate ▸ h.rate_pos
      rate_le := hkept.rate ▸ h.rate_le
      burst := hkept.burst ▸ h.burst
      step_pos := hkept.step ▸ h.step_pos
      step_le := hkept.step ▸ h.step_le
      spare := hkept.spare ▸ Int.emod_nonneg _ (by have := h.step_pos; omega)
      spare_lt := by
        rw [hkept.spare, hkept.step]
        exact Int.emod_lt_of_pos _ h.step_pos
      tokens := htokens
      normal := hkept.ts ▸ hp
      ts_le := (congrArg Curltime.us hkept.ts).le }

/-! ### Calls -/

theorem Sound.drain {now : Int} (h : Sound r now) (hp : Normal pts) (hle : now ≤ pts.us) {n : Nat}
    (hr' : rlimitDrain r n pts = some r') : Sound r' pts.us := by
  have hrate : ¬ (r.blocked = true ∨ r.ratePerStep = 0) := by
    rw [h.unblocked]
    have := h.rate_pos
    simp
    omega
  unfold rlimitDrain at hr'
  rw [if_neg hrate] at hr'
  obtain ⟨mid, hmid, hr'⟩ := Option.bind_eq_some_iff.mp hr'
  have hsound := h.update hp hle hmid
  split_ifs at hr'
  · cases hr'
    exact { hsound with tokens := show InRange INT64_MAX by decide }
  · obtain ⟨left, hleft, hr'⟩ := Option.bind_eq_some_iff.mp hr'
    obtain ⟨hrange, rfl⟩ := i64_eq_some.mp hleft
    cases hr'
    exact { hsound with tokens := hrange }
  · cases hr'
    exact { hsound with tokens := show InRange INT64_MIN by decide }

theorem Sound.avail {now : Int} (h : Sound r now) (hp : Normal pts) (hle : now ≤ pts.us) {n : Int}
    (hr' : rlimitAvail r pts = some (r', n)) : Sound r' pts.us ∧ rlimitUpdate r pts = some r' := by
  unfold rlimitAvail at hr'
  rw [if_neg (by simp [h.unblocked]), if_pos (by have := h.rate_pos; omega)] at hr'
  obtain ⟨mid, hmid, hr'⟩ := Option.map_eq_some_iff.mp hr'
  cases hr'
  exact ⟨h.update hp hle hmid, hmid⟩

/-- The limiter that tuning starts from, with other steps. -/
theorem Sound.tuned {now : Int} (h : Sound r now) {step rate burst : Int} (hstep : 0 < step)
    (hstep_le : step ≤ 2000000) (hrate : 0 < rate) (hrate_le : rate ≤ INT64_MAX)
    (hburst : 0 ≤ burst) (hspare : r.spareUs = 0) :
    Sound { r with stepUs := step, ratePerStep := rate, tokens := rate, burstPerStep := burst }
      now :=
  { h with
    rate_pos := hrate
    rate_le := hrate_le
    burst := hburst
    step_pos := hstep
    step_le := hstep_le
    spare_lt := by
      show r.spareUs < step
      omega
    tokens := ⟨by show INT64_MIN ≤ rate; unfold INT64_MIN; omega, hrate_le⟩ }

theorem tokensLast_lt (total : Int) (h : 1 < total) : tokensLast total < total := by
  unfold tokensLast CURL_RLIMIT_MIN_RATE
  rw [Int.tdiv_eq_ediv_of_nonneg (by omega)]
  dsimp only
  split_ifs <;> omega

theorem Sound.tune {now : Int} (h : Sound r now) (hspare : r.spareUs = 0) {total : Int}
    (hr' : rlimitTuneSteps r total = some r') : Sound r' now := by
  have hmin : CURL_RLIMIT_STEP_MIN_MS = 2 := rfl
  have hsec : CURL_US_PER_SEC = 1000000 := rfl
  have hrate := h.rate_pos
  unfold rlimitTuneSteps at hr'
  split_ifs at hr' with hnone
  · cases hr'
    exact h
  replace hr' := Option.bind_eq_some_iff.mp hr'
  obtain ⟨main, hmain, hr'⟩ := hr'
  replace hr' := Option.bind_eq_some_iff.mp hr'
  obtain ⟨milli, hmilli, hr'⟩ := hr'
  replace hr' := Option.bind_eq_some_iff.mp hr'
  obtain ⟨msteps, hmsteps, hr'⟩ := hr'
  obtain ⟨hmain_range, rfl⟩ := i64_eq_some.mp hmain
  obtain ⟨-, rfl⟩ := i64_eq_some.mp hmilli
  have hlast := tokensLast_lt total (by omega)
  obtain ⟨hdiv, -⟩ := (div64_eq_some (by omega) hrate).mp hmsteps
  have hpos : 0 ≤ msteps := hdiv ▸ Int.ediv_nonneg (by omega) (by omega)
  split_ifs at hr' with hsmall hless
  · cases hr'
    exact h
  · obtain ⟨step, hstep, hr'⟩ := Option.bind_eq_some_iff.mp hr'
    obtain ⟨-, rfl⟩ := i64_eq_some.mp hstep
    cases hr'
    exact h.tuned (by omega) (by omega) (by omega) hmain_range.2 h.burst hspare
  replace hr' := Option.bind_eq_some_iff.mp hr'
  obtain ⟨inc, hinc, hr'⟩ := hr'
  rw [Int.tmod_eq_emod_of_nonneg hpos, Int.tdiv_eq_ediv_of_nonneg hpos] at hinc
  obtain ⟨hinc, -⟩ := (div64_eq_some (by omega) (by omega)).mp hinc
  have hinc_pos : 0 ≤ inc := hinc ▸ Int.ediv_nonneg (by omega) (by omega)
  have hinc_le : inc ≤ msteps % 1000 := hinc ▸ Int.ediv_le_self _ (by omega)
  split_ifs at hr'
  · cases hr'
    exact h
  replace hr' := Option.bind_eq_some_iff.mp hr'
  obtain ⟨rateMilli, hrateMilli, hr'⟩ := hr'
  obtain ⟨-, rfl⟩ := i64_eq_some.mp hrateMilli
  have hrateMilli_pos : 0 ≤ r.ratePerStep * inc := Int.mul_nonneg (by omega) hinc_pos
  dsimp only at hr'
  rw [Int.tdiv_eq_ediv_of_nonneg hrateMilli_pos] at hr'
  by_cases hzero : r.ratePerStep * inc / 1000 = 0
  · rw [if_pos hzero] at hr'
    cases hr'
    exact h
  rw [if_neg hzero] at hr'
  replace hr' := Option.bind_eq_some_iff.mp hr'
  obtain ⟨incUs, hincUs, hr'⟩ := hr'
  obtain ⟨-, rfl⟩ := i64_eq_some.mp hincUs
  replace hr' := Option.bind_eq_some_iff.mp hr'
  obtain ⟨step, hstep, hr'⟩ := hr'
  obtain ⟨-, rfl⟩ := i64_eq_some.mp hstep
  replace hr' := Option.bind_eq_some_iff.mp hr'
  obtain ⟨rate, hrate', hr'⟩ := hr'
  obtain ⟨hrate_range, rfl⟩ := i64_eq_some.mp hrate'
  split_ifs at hr'
  · cases hr'
    exact h.tuned (by omega) (by omega) (by omega) hrate_range.2 h.burst hspare
  replace hr' := Option.bind_eq_some_iff.mp hr'
  obtain ⟨burstMilli, hburstMilli, hr'⟩ := hr'
  obtain ⟨-, rfl⟩ := i64_eq_some.mp hburstMilli
  replace hr' := Option.bind_eq_some_iff.mp hr'
  obtain ⟨burst, hburst, hr'⟩ := hr'
  obtain ⟨-, rfl⟩ := i64_eq_some.mp hburst
  have hburst_pos := h.burst
  have hburstMilli_pos : 0 ≤ r.burstPerStep * inc := Int.mul_nonneg hburst_pos hinc_pos
  rw [Int.tdiv_eq_ediv_of_nonneg hburstMilli_pos] at hr'
  cases hr'
  exact h.tuned (by omega) (by omega) (by omega) hrate_range.2 (by omega) hspare

theorem us_per_sec : 0 < CURL_US_PER_SEC ∧ CURL_US_PER_SEC ≤ 2000000 := by decide

/-- The limiter before it is tuned. -/
theorem Sound.restart {now : Int} (h : Sound r now) (hp : Normal pts) :
    Sound { r with
      ratePerStep := r.ratePerSec, burstPerStep := r.burstPerSec, stepUs := CURL_US_PER_SEC,
      spareUs := 0, tokens := r.ratePerSec, ts := pts } pts.us where
  unblocked := h.unblocked
  sec_pos := h.sec_pos
  sec_le := h.sec_le
  burst_sec := h.burst_sec
  rate_pos := h.sec_pos
  rate_le := h.sec_le
  burst := h.burst_sec
  step_pos := us_per_sec.1
  step_le := us_per_sec.2
  spare := Int.le_refl 0
  spare_lt := us_per_sec.1
  tokens := ⟨by have := h.sec_pos; unfold INT64_MIN; show _ ≤ r.ratePerSec; omega, h.sec_le⟩
  normal := hp
  ts_le := Int.le_refl _

theorem Sound.start {now : Int} (h : Sound r now) (hp : Normal pts) {total : Int}
    (hr' : rlimitStart r pts total = some r') : Sound r' pts.us :=
  (h.restart hp).tune rfl hr'

theorem Sound.call {now : Int} (h : Sound r now) {c : Call} (hp : Normal c.pts)
    (hle : now ≤ c.pts.us) (hr' : c.run r = some r') : Sound r' c.pts.us := by
  cases c with
  | start pts total => exact h.start hp hr'
  | avail pts =>
    obtain ⟨⟨mid, n⟩, hmid, heq⟩ := Option.map_eq_some_iff.mp hr'
    cases heq
    exact (h.avail hp hle hmid).1
  | drain n pts => exact h.drain hp hle hr'

/-- Calls at times that do not go back. -/
theorem Sound.calls {now : Int} {calls : List Call} (h : Sound r now)
    (hnormal : ∀ c ∈ calls, Normal c.pts)
    (htimes : (now :: calls.map (·.pts.us)).Pairwise (· ≤ ·)) (hr' : runCalls r calls = some r')
    {later : Int} (hlater : ∀ s ∈ now :: calls.map (·.pts.us), s ≤ later) : Sound r' later := by
  induction calls generalizing r now with
  | nil =>
    cases hr'
    exact h.mono (hlater now List.mem_cons_self)
  | cons c calls ih =>
    obtain ⟨mid, hmid, hr'⟩ := Option.bind_eq_some_iff.mp hr'
    rw [List.map_cons, List.pairwise_cons] at htimes
    have hcall := h.call (hnormal c List.mem_cons_self)
      (htimes.1 _ List.mem_cons_self) hmid
    exact ih hcall (fun c' hc' => hnormal c' (List.mem_cons_of_mem _ hc')) htimes.2 hr'
      fun s hs => hlater s (List.mem_cons_of_mem _ hs)

theorem sound_init {rate burst : Int} {t : Curltime} (hrate : 0 < rate)
    (hrate_le : rate ≤ INT64_MAX)
    (hburst : 0 ≤ burst) (ht : Normal t) : Sound (rlimitInit rate burst t) t.us where
  unblocked := rfl
  sec_pos := hrate
  sec_le := hrate_le
  burst_sec := hburst
  rate_pos := hrate
  rate_le := hrate_le
  burst := hburst
  step_pos := us_per_sec.1
  step_le := us_per_sec.2
  spare := Int.le_refl 0
  spare_lt := us_per_sec.1
  tokens := ⟨by unfold INT64_MIN; show _ ≤ rate; omega, hrate_le⟩
  normal := ht
  ts_le := Int.le_refl _

/-! ### Waiting -/

/-- The time for a debt pays for all of its whole steps. -/
theorem debtUs_spec (hrate : 0 < r.ratePerStep) (hstep : 0 < r.stepUs) (htokens : r.tokens ≤ 0)
    {debt : Int} (hus : debtUs r = some debt) :
    0 ≤ debt ∧ debt ≤ INT64_MAX / 100 ∧ -INT64_MAX < r.tokens ∧
      -r.tokens < r.ratePerStep * (1 + debt / r.stepUs) := by
  have hmax : INT64_MAX = 9223372036854775807 := rfl
  unfold debtUs at hus
  split_ifs at hus with hneg
  · replace hus := Option.bind_eq_some_iff.mp hus
    obtain ⟨owed, howed, hus⟩ := hus
    obtain ⟨-, rfl⟩ := i64_eq_some.mp howed
    replace hus := Option.bind_eq_some_iff.mp hus
    obtain ⟨hundred, hhundred, hus⟩ := hus
    obtain ⟨⟨-, hmany⟩, rfl⟩ := i64_eq_some.mp hhundred
    replace hus := Option.bind_eq_some_iff.mp hus
    obtain ⟨pct, hpct, hus⟩ := hus
    obtain ⟨rfl, -⟩ := (div64_eq_some (by omega) hrate).mp hpct
    replace hus := Option.bind_eq_some_iff.mp hus
    obtain ⟨stepPct, hstepPct, hus⟩ := hus
    obtain ⟨hrange, rfl⟩ := i64_eq_some.mp hstepPct
    have hpct_pos : 0 ≤ -r.tokens * 100 / r.ratePerStep := Int.ediv_nonneg (by omega) (by omega)
    have hpos : 0 ≤ r.stepUs * (-r.tokens * 100 / r.ratePerStep) :=
      Int.mul_nonneg (by omega) hpct_pos
    rw [Int.tdiv_eq_ediv_of_nonneg hpos] at hus
    cases hus
    refine ⟨Int.ediv_nonneg hpos (by omega), Int.ediv_le_ediv (by omega) hrange.2, by omega, ?_⟩
    -- the percents of the steps, cut off to whole steps, are the whole steps of the debt
    have hsteps : r.stepUs * (-r.tokens * 100 / r.ratePerStep) / 100 / r.stepUs =
        -r.tokens / r.ratePerStep := by
      rw [Int.ediv_ediv_of_nonneg (by omega), Int.mul_comm 100, Int.mul_ediv_mul_of_pos _ _ hstep,
        Int.ediv_ediv_of_nonneg (by omega), Int.mul_ediv_mul_of_pos_left _ _ (by omega)]
    rw [hsteps, Int.add_comm, Int.mul_comm]
    exact Int.lt_ediv_add_one_mul_self _ hrate
  · cases hus
    refine ⟨Int.le_refl 0, by decide, by omega, ?_⟩
    rw [Int.zero_ediv, Int.add_zero, Int.mul_one]
    omega

/-- At a time at which the steps that are over make up for the debt, there are tokens. -/
theorem Sound.paid {now : Int} (h : Sound r now) (hp : Normal pts) (hne : r.ts.us < pts.us)
    (hsmall : pts.us - r.ts.us < 8000000000000000000)
    (hwhole : r.stepUs ≤ pts.us - r.ts.us + r.spareUs)
    (hgain : -r.tokens < r.ratePerStep * ((pts.us - r.ts.us + r.spareUs) / r.stepUs))
    (howed : -INT64_MAX < r.tokens) :
    ∃ r' n, rlimitAvail r pts = some (r', n) ∧ 0 < n := by
  obtain ⟨hmax, hmin⟩ := int64_limits
  have hstep := h.step_pos
  have hspare_lt := h.spare_lt
  have hstep_le := h.step_le
  have hexact := ptimediffUs_exact h.normal hp hne.le (.inr (by omega))
  have hsteps : 1 ≤ (pts.us - r.ts.us + r.spareUs) / r.stepUs := by
    rw [Int.le_ediv_iff_mul_le hstep]
    omega
  have hsteps_le : (pts.us - r.ts.us + r.spareUs) / r.stepUs ≤ pts.us - r.ts.us + r.spareUs :=
    Int.ediv_le_self _ (by omega)
  obtain ⟨r', hrefill, -, -, hpos⟩ := refill_spec
    { r with ts := pts, spareUs := (pts.us - r.ts.us + r.spareUs) % r.stepUs }
    h.rate_pos h.tokens h.burst hsteps
  have hne' : ¬ (r.ts.tvSec = pts.tvSec ∧ r.ts.tvUsec = pts.tvUsec) := by
    rintro ⟨hsec, husec⟩
    unfold Curltime.us at hne
    omega
  have hupdate : rlimitUpdate r pts = some r' := by
    unfold rlimitUpdate
    rw [if_neg hne', hexact, if_neg (by omega),
      i64_eq_some.mpr ⟨⟨by omega, by omega⟩, rfl⟩, Option.bind_eq_bind, Option.bind_some,
      if_neg (by omega), (div64_eq_some (by omega) hstep).mpr ⟨rfl, ⟨by omega, by omega⟩⟩,
      Option.bind_some, Int.tmod_eq_emod_of_nonneg (by omega)]
    exact hrefill
  refine ⟨r', r'.tokens, ?_, hpos ?_⟩
  · unfold rlimitAvail
    rw [if_neg (by simp [h.unblocked]), if_pos (by have := h.rate_pos; omega), hupdate]
    rfl
  · show 0 < r.tokens + min (r.ratePerStep * _) INT64_MAX
    rcases min_choice (r.ratePerStep * ((pts.us - r.ts.us + r.spareUs) / r.stepUs)) INT64_MAX with
      hmin | hmin <;> rw [hmin] <;> omega

/-- After a wait of `w` ms the limiter has tokens. -/
theorem Sound.wait {now : Int} (h : Sound r now) (ht : Normal t) (hle : now ≤ t.us) {w : Int}
    (hwait : rlimitWaitMs r t = some (r', w)) (hw : 0 < w) :
    ∃ r'' n, rlimitAvail r' (addMs t w) = some (r'', n) ∧ 0 < n := by
  have hmax : INT64_MAX = 9223372036854775807 := rfl
  have hrate : ¬ (r.blocked = true ∨ r.ratePerStep = 0) := by
    rw [h.unblocked]
    have := h.rate_pos
    simp
    omega
  unfold rlimitWaitMs at hwait
  rw [if_neg hrate] at hwait
  replace hwait := Option.bind_eq_some_iff.mp hwait
  obtain ⟨r1, hr1, hwait⟩ := hwait
  have hsound := h.update ht hle hr1
  by_cases htokens : r1.tokens > 0
  · rw [if_pos htokens] at hwait
    cases hwait
    omega
  rw [if_neg htokens] at hwait
  replace hwait := Option.bind_eq_some_iff.mp hwait
  obtain ⟨step, hstep, hwait⟩ := hwait
  obtain ⟨-, rfl⟩ := i64_eq_some.mp hstep
  replace hwait := Option.bind_eq_some_iff.mp hwait
  obtain ⟨debt, hdebt, hwait⟩ := hwait
  replace hwait := Option.bind_eq_some_iff.mp hwait
  obtain ⟨wait, hwaitUs, hwait⟩ := hwait
  obtain ⟨-, rfl⟩ := i64_eq_some.mp hwaitUs
  by_cases hover : ptimediffUs t r1.ts ≥ r1.stepUs - r1.spareUs + debt
  · rw [if_pos hover] at hwait
    cases hwait
    omega
  rw [if_neg hover] at hwait
  replace hwait := Option.bind_eq_some_iff.mp hwait
  obtain ⟨left, hleft, hwait⟩ := hwait
  obtain ⟨-, rfl⟩ := i64_eq_some.mp hleft
  replace hwait := Option.bind_eq_some_iff.mp hwait
  obtain ⟨up, hup, hwait⟩ := hwait
  obtain ⟨-, rfl⟩ := i64_eq_some.mp hup
  rw [Int.tdiv_eq_ediv_of_nonneg (by omega)] at hwait
  cases hwait
  obtain ⟨hdebt_pos, hdebt_le, howed, hpays⟩ :=
    debtUs_spec hsound.rate_pos hsound.step_pos (by omega) hdebt
  have hstep_pos := hsound.step_pos
  have hstep_le := hsound.step_le
  have hspare := hsound.spare
  have hexact := ptimediffUs_exact hsound.normal ht hsound.ts_le (.inl (by omega))
  rw [hexact] at hover hw ⊢
  generalize hms : (r'.stepUs - r'.spareUs + debt - (t.us - r'.ts.us) + 999) / 1000 = w at hw ⊢
  have hlong : r'.stepUs + debt ≤ (addMs t w).us - r'.ts.us + r'.spareUs := by
    rw [us_addMs]
    omega
  apply hsound.paid (normal_addMs t w)
  · rw [us_addMs]
    have := hsound.ts_le
    omega
  · rw [us_addMs]
    omega
  · omega
  · have hmono : (r'.stepUs + debt) / r'.stepUs ≤
        ((addMs t w).us - r'.ts.us + r'.spareUs) / r'.stepUs := Int.ediv_le_ediv hstep_pos hlong
    have hfirst : (r'.stepUs + debt) / r'.stepUs = 1 + debt / r'.stepUs := by
      rw [Int.add_ediv_of_dvd_left (Int.dvd_refl _), Int.ediv_self (by omega)]
    rw [hfirst] at hmono
    exact hpays.trans_le (Int.mul_le_mul_of_nonneg_left hmono (by have := hsound.rate_pos; omega))
  · exact howed

/-- Waiting for the announced time is enough. -/
theorem wait_suffices {rate burst : Int} {t0 t : Curltime} {calls : List Call} {r r' : Rlimit}
    {w : Int} (hrate : 0 < rate) (hrate_le : rate ≤ INT64_MAX) (hburst : burst = 0 ∨ rate ≤ burst)
    (hnormal : ∀ s ∈ t0 :: calls.map Call.pts ++ [t], Normal s)
    (htimes : ((t0 :: calls.map Call.pts ++ [t]).map Curltime.us).Pairwise (· ≤ ·))
    (hcalls : runCalls (rlimitInit rate burst t0) calls = some r)
    (hwait : rlimitWaitMs r t = some (r', w)) (hw : 0 < w) :
    ∃ r'' n, rlimitAvail r' (addMs t w) = some (r'', n) ∧ 0 < n := by
  have hinit := sound_init hrate hrate_le (by omega : 0 ≤ burst) (hnormal t0 (by simp))
  have hcalls_normal (c : Call) (hc : c ∈ calls) : Normal c.pts :=
    hnormal c.pts (by simp; exact .inr (.inl ⟨c, hc, rfl⟩))
  rw [List.map_append, List.pairwise_append, List.map_cons, List.map_map] at htimes
  have hsound : Sound r t.us := hinit.calls hcalls_normal htimes.1 hcalls
    fun s hs => htimes.2.2 s hs t.us (by simp)
  exact hsound.wait (hnormal t (by simp)) (Int.le_refl _) hwait hw

/-- Ten tokens a second, after thirteen were taken at the start. -/
def overdrawn : Rlimit where
  ratePerSec := 10
  burstPerSec := 15
  ratePerStep := 10
  burstPerStep := 15
  stepUs := 1000000
  tokens := -3
  spareUs := 0
  ts := ⟨0, 0⟩
  blocked := false

theorem wait_suffices_overdrawn :
    ∃ r n, rlimitAvail overdrawn (addMs ⟨0, 1000⟩ 1299) = some (r, n) ∧ 0 < n := by
  have hcalls : runCalls (rlimitInit 10 15 ⟨0, 0⟩) [.drain 13 ⟨0, 0⟩] = some overdrawn := by
    decide +kernel
  have hwait : rlimitWaitMs overdrawn ⟨0, 1000⟩ = some (overdrawn, 1299) := by decide +kernel
  exact wait_suffices (by decide) (by decide) (.inr (by decide))
    (by simp [Normal, Call.pts]) (by simp [Call.pts, Curltime.us]) hcalls hwait (by decide)

end Gurl.Ratelimit
