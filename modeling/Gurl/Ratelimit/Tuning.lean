import Gurl.Ratelimit.Wait

/-! What tuning makes of a limit, and what the tuned limit grants. -/

namespace Gurl.Ratelimit

open Splay (Curltime ptimediffUs ptimediffUs_sign)

variable {r r' : Rlimit} {pts : Curltime} {total : Int}

/-! ### What is granted -/

/-- The update that a call begins with. -/
def Call.update (r : Rlimit) (c : Call) : Option Rlimit :=
  if r.blocked ∨ r.ratePerStep = 0 then some r else rlimitUpdate r c.pts

/-- The tokens that come in the course of some calls. -/
def granted (r : Rlimit) : List Call → Option Int
  | [] => some 0
  | c :: calls => do
    let filled ← c.update r
    let r' ← c.run r
    let rest ← granted r' calls
    return filled.tokens - r.tokens + rest

def Call.isStart : Call → Bool
  | start _ _ => true
  | _ => false

/-- A call on a limiter that is running, at `last` or before. -/
structure Until (last : Int) (c : Call) : Prop where
  running : c.isStart = false
  normal : Normal c.pts
  le : c.pts.us ≤ last

/-- A time, in microseconds, at which the tokens in front of the last step are not yet due. The time
since the start is one that a `timediff_t` counts. -/
structure InTime (rate : Int) (pts : Curltime) (total last : Int) : Prop where
  since : pts.us ≤ last
  near : last - pts.us < 9000000000000000000
  early : (last - pts.us) * rate < (total - tokensLast total) * 1000000

/-- What the code after `Curl_rlimit_start` relies on. -/
structure Tuned (r : Rlimit) (pts : Curltime) (total : Int) (r' : Rlimit) : Prop where
  step_pos : 0 < r'.stepUs
  rate_pos : 0 < r.ratePerSec → 0 < r'.ratePerStep
  tokens : 0 < r.ratePerSec → r'.tokens = r'.ratePerStep
  burst : r'.burstPerStep = 0 ∨ r'.ratePerStep ≤ r'.burstPerStep
  grants : 0 < r.ratePerSec → ∀ last, InTime r.ratePerSec pts total last →
    ∀ calls g, (∀ c ∈ calls, Until last c) → granted r' calls = some g →
      r'.tokens + g ≤ total + r'.ratePerStep

/-- The milli-steps by which tuning stretches every step, 0 where it does not spread a remainder. -/
def mstepInc (rate total : Int) : Int :=
  if rate = 0 ∨ total ≤ 1 ∨ total > INT64_MAX / 1000 then 0
  else
    let msteps := (total - tokensLast total) * 1000 / rate
    if msteps < 1000 then 0
    else
      let inc := msteps % 1000 / (msteps / 1000)
      if rate * inc < 1000 then 0 else inc

/-- The tokens of a stretched step. -/
def stretched (x inc : Int) : Int := x + x * inc / 1000

/-- The burst can be stretched like the rate. -/
def BurstFits (rate burst total : Int) : Prop :=
  burst * mstepInc rate total ≤ INT64_MAX ∧ stretched burst (mstepInc rate total) ≤ INT64_MAX

instance (rate burst total : Int) : Decidable (BurstFits rate burst total) := by
  unfold BurstFits
  infer_instance

/-! ### Updates -/

theorem refill_le {steps : Int} (h : refill r steps = some r') (hrate : 0 < r.ratePerStep)
    (hsteps : 0 < steps) : Refilled r r' ∧ r'.tokens ≤ r.tokens + r.ratePerStep * steps := by
  rw [refill, tokenGain_spec hrate hsteps, Option.bind_eq_bind, Option.bind_some] at h
  obtain ⟨tokens, htokens, h⟩ := Option.bind_eq_some_iff.mp h
  have hsum : tokens ≤ r.tokens + min (r.ratePerStep * steps) INT64_MAX := by
    obtain ⟨room, hroom, htokens⟩ := Option.bind_eq_some_iff.mp htokens
    obtain ⟨-, rfl⟩ := i64_eq_some.mp hroom
    split_ifs at htokens
    · obtain ⟨-, rfl⟩ := i64_eq_some.mp htokens
      exact Int.le_refl _
    · cases htokens
      omega
  cases h
  refine ⟨⟨rfl, rfl, rfl, rfl, rfl, rfl, rfl, rfl⟩, ?_⟩
  dsimp only
  split_ifs <;> omega

/-- A limiter with a rate, of which some of the time since `t` is not yet paid for. -/
structure Running (r : Rlimit) (t : Curltime) : Prop where
  rate : 0 < r.ratePerStep
  step : 0 < r.stepUs
  spare : 0 ≤ r.spareUs
  normal : Normal r.ts
  since : t.us ≤ r.ts.us

/-- What the update at `pts` does: the time that goes by is some steps and what remains, and no more
tokens come than those of the steps. -/
structure Stepped (r r' : Rlimit) (pts : Curltime) (steps gain : Int) : Prop where
  ts : r'.ts = r.ts ∨ r'.ts = pts
  rate : r'.ratePerStep = r.ratePerStep
  step : r'.stepUs = r.stepUs
  nonneg : 0 ≤ steps
  time : r'.ts.us - r.ts.us + r.spareUs = steps * r.stepUs + r'.spareUs
  gain : gain ≤ r.ratePerStep * steps

theorem Stepped.refl (r : Rlimit) (pts : Curltime) : Stepped r r pts 0 0 where
  ts := .inl rfl
  rate := rfl
  step := rfl
  nonneg := Int.le_refl 0
  time := by omega
  gain := by omega

theorem Running.update (h : Running r t) (hp : Normal pts)
    (hnear : pts.us - t.us < 9000000000000000000) (hr' : rlimitUpdate r pts = some r') :
    Running r' t ∧ ∃ steps, Stepped r r' pts steps (r'.tokens - r.tokens) := by
  have hsince := h.since
  have hself : Running r t ∧ ∃ steps, Stepped r r pts steps (r.tokens - r.tokens) :=
    ⟨h, 0, Int.sub_self r.tokens ▸ Stepped.refl r pts⟩
  by_cases hback : ptimediffUs pts r.ts < 0
  · rw [rlimitUpdate, if_pos hback, ite_self, Option.some.injEq] at hr'
    exact hr' ▸ hself
  have hle : r.ts.us ≤ pts.us := by
    have hsign := (ptimediffUs_sign (a := pts) (b := r.ts) ⟨by have := hp.1; omega, hp.2⟩
      ⟨by have := h.normal.1; omega, h.normal.2⟩).1
    by_contra hlt
    exact hback (hsign.mpr (by omega))
  have hexact := ptimediffUs_exact h.normal hp hle (.inr (by omega))
  obtain rfl | ⟨steps, hsteps, hdiv, hrefill⟩ := update_cases hr' (by omega) h.spare h.step
  · exact hself
  obtain ⟨hkept, hgain⟩ := refill_le hrefill h.rate hsteps
  have hsplit : r.stepUs * steps + (ptimediffUs pts r.ts + r.spareUs) % r.stepUs =
      ptimediffUs pts r.ts + r.spareUs := by
    rw [hdiv]
    exact Int.mul_ediv_add_emod _ _
  have hspare : r'.spareUs = (ptimediffUs pts r.ts + r.spareUs) % r.stepUs := hkept.spare
  have hts : r'.ts = pts := hkept.ts
  have hstep : r'.stepUs = r.stepUs := hkept.step
  have hrate : r'.ratePerStep = r.ratePerStep := hkept.rate
  refine ⟨⟨hrate ▸ h.rate, hstep ▸ h.step, ?_, hts ▸ hp, by rw [hts]; omega⟩, steps, ?_⟩
  · rw [hspare]
    exact Int.emod_nonneg _ (by have := h.step; omega)
  · exact ⟨.inr hts, hrate, hstep, by omega, by rw [hts, hspare, Int.mul_comm]; omega, by
      dsimp only at hgain; omega⟩

/-! ### Calls -/

theorem Running.withTokens (h : Running r t) (tokens : Int) : Running { r with tokens } t :=
  ⟨h.rate, h.step, h.spare, h.normal, h.since⟩

/-- What a call does after the update changes the tokens only. -/
theorem run_eq {c : Call} {filled : Rlimit} (hrunning : c.isStart = false)
    (hfilled : c.update r = some filled) (hr' : c.run r = some r') :
    ∃ tokens, r' = { filled with tokens } := by
  cases c with
  | start pts total => cases hrunning
  | avail pts =>
    refine ⟨filled.tokens, ?_⟩
    show r' = filled
    rw [Call.run, rlimitAvail] at hr'
    rw [Call.update] at hfilled
    by_cases hblocked : r.blocked = true
    · rw [if_pos hblocked] at hr'
      rw [if_pos (.inl hblocked)] at hfilled
      cases hfilled
      cases hr'
      rfl
    rw [if_neg hblocked] at hr'
    by_cases hrate : r.ratePerStep = 0
    · rw [if_neg (by simp [hrate])] at hr'
      rw [if_pos (.inr hrate)] at hfilled
      cases hfilled
      cases hr'
      rfl
    rw [if_pos hrate, Option.map_map] at hr'
    rw [if_neg (by simp [hblocked, hrate])] at hfilled
    show _ = _
    rw [Call.pts] at hfilled
    rw [hfilled] at hr'
    exact (Option.some.inj hr').symm
  | drain n pts =>
    rw [Call.run, rlimitDrain] at hr'
    rw [Call.update] at hfilled
    by_cases hidle : r.blocked = true ∨ r.ratePerStep = 0
    · rw [if_pos hidle] at hr' hfilled
      cases hfilled
      cases hr'
      exact ⟨_, rfl⟩
    rw [if_neg hidle] at hr' hfilled
    rw [Call.pts] at hfilled
    rw [hfilled, Option.bind_eq_bind, Option.bind_some] at hr'
    split_ifs at hr'
    · exact ⟨_, (Option.some.inj hr').symm⟩
    · obtain ⟨left, -, hr'⟩ := Option.bind_eq_some_iff.mp hr'
      exact ⟨_, (Option.some.inj hr').symm⟩
    · exact ⟨_, (Option.some.inj hr').symm⟩

theorem Running.call {c : Call} {filled : Rlimit} (h : Running r t) (hrunning : c.isStart = false)
    (hp : Normal c.pts) (hnear : c.pts.us - t.us < 9000000000000000000)
    (hfilled : c.update r = some filled) (hr' : c.run r = some r') :
    Running r' t ∧ ∃ steps, Stepped r r' c.pts steps (filled.tokens - r.tokens) := by
  obtain ⟨tokens, rfl⟩ := run_eq hrunning hfilled hr'
  rw [Call.update] at hfilled
  split_ifs at hfilled with hidle
  · cases hfilled
    exact ⟨h.withTokens tokens, 0, .inl rfl, rfl, rfl, Int.le_refl 0,
      by dsimp only; omega, by omega⟩
  · obtain ⟨hrun, steps, hsteps⟩ := h.update hp hnear hfilled
    exact ⟨hrun.withTokens tokens, steps, hsteps.ts, hsteps.rate, hsteps.step,
      hsteps.nonneg, hsteps.time, hsteps.gain⟩

/-- The tokens of some calls are no more than those of the whole steps up to `last`. -/
theorem granted_le {calls : List Call} {g last : Int} (h : Running r t)
    (hcalls : ∀ c ∈ calls, Until last c) (hnear : last - t.us < 9000000000000000000)
    (hts : r.ts.us ≤ last) (hg : granted r calls = some g) :
    ∃ steps, 0 ≤ steps ∧ steps * r.stepUs ≤ last - r.ts.us + r.spareUs ∧
      g ≤ r.ratePerStep * steps := by
  induction calls generalizing r g with
  | nil =>
    cases hg
    exact ⟨0, Int.le_refl 0, by have := h.spare; omega, by omega⟩
  | cons c calls ih =>
    obtain ⟨filled, hfilled, hg⟩ := Option.bind_eq_some_iff.mp hg
    obtain ⟨r', hr', hg⟩ := Option.bind_eq_some_iff.mp hg
    obtain ⟨rest, hrest, hg⟩ := Option.bind_eq_some_iff.mp hg
    cases hg
    have huntil := hcalls c List.mem_cons_self
    obtain ⟨hrun, steps, hsteps⟩ := h.call huntil.running huntil.normal
      (by have := huntil.le; omega) hfilled hr'
    have hts' : r'.ts.us ≤ last := by
      obtain heq | heq := hsteps.ts
      · exact heq ▸ hts
      · exact heq ▸ huntil.le
    obtain ⟨more, hmore, htime, hgain⟩ :=
      ih hrun (fun c hc => hcalls c (.tail _ hc)) hts' hrest
    have hpassed := hsteps.time
    have hnow := hsteps.gain
    have hnonneg := hsteps.nonneg
    rw [hsteps.step] at htime
    rw [hsteps.rate] at hgain
    refine ⟨steps + more, by omega, ?_, ?_⟩
    · rw [Int.add_mul]
      omega
    · rw [Int.mul_add]
      omega

/-! ### Tuning -/

/-- The limiter that tuning starts from. -/
def Rlimit.reset (r : Rlimit) (pts : Curltime) : Rlimit := { r with
  ratePerStep := r.ratePerSec, burstPerStep := r.burstPerSec, stepUs := CURL_US_PER_SEC,
  spareUs := 0, tokens := r.ratePerSec, ts := pts }

/-- The limiter with steps of `stepUs` that give `rate` tokens each. -/
def Rlimit.paced (r : Rlimit) (stepUs rate burst : Int) : Rlimit :=
  { r with stepUs, ratePerStep := rate, tokens := rate, burstPerStep := burst }

/-- The steps of a limit pay for `total` tokens too late rather than too early. -/
def Paced (rate total stepUs ratePerStep : Int) : Prop :=
  ∀ steps us, 0 ≤ steps → steps * stepUs ≤ us →
    us * rate < (total - tokensLast total) * 1000000 → ratePerStep * steps ≤ total

theorem tokensLast_pos (total : Int) (h : 0 < total) : 0 < tokensLast total := by
  rw [tokensLast, CURL_RLIMIT_MIN_RATE, Int.tdiv_eq_ediv_of_nonneg (by omega)]
  split_ifs <;> omega

/-- Where tokens are due in front of the last step, the total is more than the last step's. -/
theorem main_lt {rate us : Int} (hrate : 0 < rate) (hus : 0 ≤ us)
    (h : us * rate < (total - tokensLast total) * 1000000) : total - tokensLast total < total := by
  have hpos : 0 ≤ us * rate := Int.mul_nonneg hus (by omega)
  by_contra hle
  have hlow : total ≤ 0 := by
    by_contra hlow
    have := tokensLast_pos total (by omega)
    omega
  have hlast : total ≤ tokensLast total := by
    have hdiv := Int.mul_tdiv_add_tmod total 100
    have hmod := Int.tmod_lt_of_pos total (by decide : (0 : Int) < 100)
    rw [tokensLast, CURL_RLIMIT_MIN_RATE]
    split_ifs <;> omega
  omega

/-- A limit that is not faster than the rate is paced. -/
theorem paced_of_le {rate stepUs ratePerStep : Int} (hrate : 0 < rate) (hstep : 0 < stepUs)
    (hle : ratePerStep * 1000000 ≤ rate * stepUs) : Paced rate total stepUs ratePerStep := by
  intro steps us hsteps hus hearly
  have hus_nonneg : 0 ≤ us := (Int.mul_nonneg hsteps (by omega)).trans hus
  have hmain := main_lt hrate hus_nonneg hearly
  have hpaid : ratePerStep * steps * 1000000 ≤ us * rate := by
    calc ratePerStep * steps * 1000000 = ratePerStep * 1000000 * steps := by ring
      _ ≤ rate * stepUs * steps := Int.mul_le_mul_of_nonneg_right hle hsteps
      _ = steps * stepUs * rate := by ring
      _ ≤ us * rate := Int.mul_le_mul_of_nonneg_right hus (by omega)
  omega

/-- One step for everything in front of the last one is paced, as a second step would come after
that time. -/
theorem paced_single {rate ms : Int} (hrate : 0 < rate) (hms : 2 ≤ ms)
    (hlt : (total - tokensLast total) * 1000 < (ms + 1) * rate) :
    Paced rate total (ms * 1000) (total - tokensLast total) := by
  intro steps us hsteps hus hearly
  have hus_nonneg : 0 ≤ us := (Int.mul_nonneg hsteps (by omega)).trans hus
  have hmain := main_lt hrate hus_nonneg hearly
  have hshort : us < (ms + 1) * 1000 := by
    have : us * rate < (ms + 1) * 1000 * rate := by
      calc us * rate < (total - tokensLast total) * 1000 * 1000 := by omega
        _ ≤ (ms + 1) * rate * 1000 := by omega
        _ = (ms + 1) * 1000 * rate := by ring
    exact lt_of_mul_lt_mul_right this (by omega)
  have hone : steps ≤ 1 := by
    by_contra hmany
    have : 2 * (ms * 1000) ≤ steps * (ms * 1000) :=
      Int.mul_le_mul_of_nonneg_right (by omega) (by omega)
    omega
  have hpos : 0 ≤ us * rate := Int.mul_nonneg hus_nonneg (by omega)
  obtain rfl | rfl : steps = 0 ∨ steps = 1 := by omega
  · omega
  · omega

/-- The arithmetic of the main part, which stays in range. -/
theorem main_range {rate : Int} (hrate : 0 < rate) (htotal : 1 < total)
    (hsmall : total ≤ INT64_MAX / 1000) :
    InRange (total - tokensLast total) ∧ InRange ((total - tokensLast total) * 1000) ∧
      0 < total - tokensLast total ∧
      div64 ((total - tokensLast total) * 1000) rate =
        some ((total - tokensLast total) * 1000 / rate) := by
  have hmin : INT64_MIN = -9223372036854775808 := rfl
  have hlast := tokensLast_lt total htotal
  have hlast_pos := tokensLast_pos total (by omega)
  have hle : (total - tokensLast total) * 1000 / rate ≤ (total - tokensLast total) * 1000 :=
    Int.ediv_le_self _ (by omega)
  have hnonneg : 0 ≤ (total - tokensLast total) * 1000 / rate :=
    Int.ediv_nonneg (by omega) (by omega)
  refine ⟨⟨by omega, by omega⟩, ⟨by omega, by omega⟩, by omega, ?_⟩
  exact (div64_eq_some (by omega) hrate).mpr ⟨rfl, ⟨by omega, by omega⟩⟩

/-- The stretched burst, computed as the code computes it. -/
def stretchBurst (burst inc : Int) : Option Int :=
  if burst = 0 then some 0
  else do
    let burstMilli ← i64 (burst * inc)
    i64 (burst + burstMilli.tdiv 1000)

/-- What a start makes of a limiter: the limit as it is, one step for the main part, or all steps
stretched. -/
inductive Outcome (r : Rlimit) (pts : Curltime) (total : Int) : Option Rlimit → Prop
  | plain (inc : mstepInc r.ratePerSec total = 0) : Outcome r pts total (some (r.reset pts))
  | single (ms : Int) (two_le : 2 ≤ ms) (lt : ms < 1000) (inc : mstepInc r.ratePerSec total = 0)
      (main_pos : 0 < total - tokensLast total)
      (msteps : (total - tokensLast total) * 1000 / r.ratePerSec = ms) :
      Outcome r pts total
        (some ((r.reset pts).paced (ms * 1000) (total - tokensLast total) r.burstPerSec))
  | spread (inc : Int) (pos : 0 < inc) (le : inc ≤ 999) (eq : mstepInc r.ratePerSec total = inc) :
      Outcome r pts total ((stretchBurst r.burstPerSec inc).map
        ((r.reset pts).paced ((1000 + inc) * 1000) (stretched r.ratePerSec inc)))

/-- The end of the tuning, for a rate that fits. -/
theorem spread_eq {inc : Int} (r : Rlimit) (hinc : 0 ≤ inc) (hinc_le : inc ≤ 999)
    (hrate : 0 < r.ratePerStep) (hrate_le : r.ratePerStep ≤ INT64_MAX / 1000) :
    (do
      let rateMilli ← i64 (r.ratePerStep * inc)
      let rateInc := rateMilli.tdiv 1000
      if rateInc = 0 then some r
      else do
        let incUs ← i64 (inc * 1000)
        let stepUs ← i64 (CURL_US_PER_SEC + incUs)
        let rate ← i64 (r.ratePerStep + rateInc)
        let r := { r with stepUs, ratePerStep := rate, tokens := rate }
        if r.burstPerStep = 0 then some r
        else do
          let burstMilli ← i64 (r.burstPerStep * inc)
          let burst ← i64 (r.burstPerStep + burstMilli.tdiv 1000)
          return { r with burstPerStep := burst }) =
    if r.ratePerStep * inc < 1000 then some r
    else (stretchBurst r.burstPerStep inc).map
      (r.paced ((1000 + inc) * 1000) (stretched r.ratePerStep inc)) := by
  obtain ⟨hmax, hmin⟩ := int64_limits
  have hsec : CURL_US_PER_SEC = 1000000 := rfl
  have hmilli_nonneg : 0 ≤ r.ratePerStep * inc := Int.mul_nonneg (by omega) hinc
  have hmilli_le : r.ratePerStep * inc ≤ r.ratePerStep * 999 :=
    Int.mul_le_mul_of_nonneg_left hinc_le (by omega)
  have hmilli : InRange (r.ratePerStep * inc) := ⟨by omega, by omega⟩
  rw [i64_eq_some.mpr ⟨hmilli, rfl⟩, Option.bind_eq_bind, Option.bind_some,
    Int.tdiv_eq_ediv_of_nonneg hmilli_nonneg]
  by_cases hsmall : r.ratePerStep * inc < 1000
  · rw [if_pos hsmall, if_pos (by omega)]
  rw [if_neg hsmall, if_neg (by omega), i64_eq_some.mpr ⟨⟨by omega, by omega⟩, rfl⟩,
    Option.bind_some, i64_eq_some.mpr ⟨⟨by omega, by omega⟩, rfl⟩, Option.bind_some,
    i64_eq_some.mpr ⟨⟨by omega, by omega⟩, rfl⟩, Option.bind_some]
  have hstep : CURL_US_PER_SEC + inc * 1000 = (1000 + inc) * 1000 := by omega
  by_cases hburst : r.burstPerStep = 0
  · rw [if_pos hburst, stretchBurst, if_pos hburst, Option.map_some, Rlimit.paced, hstep, hburst,
      stretched]
  · rw [if_neg hburst, stretchBurst, if_neg hburst, hstep]
    cases i64 (r.burstPerStep * inc) with
    | none => rfl
    | some milli =>
      rw [Option.bind_eq_bind, Option.bind_some, Option.bind_some]
      cases i64 (r.burstPerStep + milli.tdiv 1000) <;> rfl

theorem start_outcome (hrate : 0 < r.ratePerSec) :
    Outcome r pts total (rlimitStart r pts total) := by
  obtain ⟨hmax, hmin⟩ := int64_limits
  have hms : CURL_RLIMIT_STEP_MIN_MS = 2 := rfl
  have hdivmax : INT64_MAX.tdiv 1000 = INT64_MAX / 1000 := by decide
  have hstart : rlimitStart r pts total = rlimitTuneSteps (r.reset pts) total := rfl
  have hreset : (r.reset pts).ratePerStep = r.ratePerSec := rfl
  rw [hstart, rlimitTuneSteps, hreset, hdivmax]
  by_cases hplain : r.ratePerSec = 0 ∨ total ≤ 1 ∨ total > INT64_MAX / 1000
  · rw [if_pos hplain]
    exact .plain (if_pos hplain)
  have hinc : mstepInc r.ratePerSec total =
      let msteps := (total - tokensLast total) * 1000 / r.ratePerSec
      if msteps < 1000 then 0
      else
        let inc := msteps % 1000 / (msteps / 1000)
        if r.ratePerSec * inc < 1000 then 0 else inc := if_neg hplain
  obtain ⟨hmain, hmilli, hmain_pos, hmsteps⟩ :=
    @main_range total _ hrate (by omega) (by omega)
  have hmain_le : total - tokensLast total ≤ INT64_MAX / 1000 := by
    have := tokensLast_pos total (by omega)
    omega
  rw [if_neg hplain, i64_eq_some.mpr ⟨hmain, rfl⟩, Option.bind_eq_bind, Option.bind_some,
    i64_eq_some.mpr ⟨hmilli, rfl⟩, Option.bind_some, hmsteps, Option.bind_some]
  dsimp only at hinc
  generalize hms_eq : (total - tokensLast total) * 1000 / r.ratePerSec = ms at hinc ⊢
  have hms_nonneg : 0 ≤ ms := hms_eq ▸ Int.ediv_nonneg (by omega) (by omega)
  by_cases hshort : ms < 1000
  · rw [if_pos hshort] at hinc
    by_cases hfew : ms < CURL_RLIMIT_STEP_MIN_MS
    · rw [if_pos hfew]
      exact .plain hinc
    rw [if_neg hfew, if_pos hshort, i64_eq_some.mpr ⟨⟨by omega, by omega⟩, rfl⟩]
    exact .single ms (by omega) hshort hinc hmain_pos hms_eq
  have hrate_le : r.ratePerSec ≤ INT64_MAX / 1000 := by
    have hfit : ms * r.ratePerSec ≤ (total - tokensLast total) * 1000 :=
      hms_eq ▸ Int.ediv_mul_le _ (by omega)
    have hmany : 1000 * r.ratePerSec ≤ ms * r.ratePerSec :=
      Int.mul_le_mul_of_nonneg_right (by omega) (by omega)
    omega
  have hdiv_nonneg : 0 ≤ ms % 1000 / (ms / 1000) := Int.ediv_nonneg (by omega) (by omega)
  have hdiv_le : ms % 1000 / (ms / 1000) ≤ 999 :=
    (Int.ediv_le_self _ (by omega)).trans (by omega)
  rw [if_neg hshort] at hinc
  rw [if_neg (by omega), if_neg hshort, Int.tmod_eq_emod_of_nonneg hms_nonneg,
    Int.tdiv_eq_ediv_of_nonneg hms_nonneg,
    (div64_eq_some (by omega) (by omega)).mpr ⟨rfl, by omega, by omega⟩, Option.bind_some]
  generalize ms % 1000 / (ms / 1000) = inc at *
  by_cases hzero : inc = 0
  · rw [if_pos hzero]
    exact .plain (by rw [hinc, hzero, ite_self])
  have hspread := spread_eq (r.reset pts) hdiv_nonneg hdiv_le hrate hrate_le
  rw [if_neg hzero]
  refine Eq.mpr (congrArg (Outcome r pts total) hspread) ?_
  by_cases hsmall : r.ratePerSec * inc < 1000
  · rw [if_pos hsmall] at hinc
    rw [if_pos (hreset ▸ hsmall)]
    exact .plain hinc
  · rw [if_neg hsmall] at hinc
    rw [if_neg (hreset ▸ hsmall)]
    exact .spread inc (by omega) hdiv_le hinc

/-- The stretched burst is computed exactly where it fits. -/
theorem stretchBurst_eq {burst inc b : Int} (hburst : 0 ≤ burst) (hinc : 0 ≤ inc) :
    stretchBurst burst inc = some b ↔
      (burst * inc ≤ INT64_MAX ∧ stretched burst inc ≤ INT64_MAX) ∧ stretched burst inc = b := by
  have hmin : INT64_MIN = -9223372036854775808 := rfl
  have hmul : 0 ≤ burst * inc := Int.mul_nonneg hburst hinc
  rw [stretched]
  by_cases hzero : burst = 0
  · subst hzero
    rw [stretchBurst, if_pos rfl, Int.zero_mul, Option.some.injEq]
    exact (and_iff_right (by decide)).symm
  rw [stretchBurst, if_neg hzero]
  constructor
  · intro hb
    obtain ⟨milli, hmilli, hb⟩ := Option.bind_eq_some_iff.mp hb
    obtain ⟨hrange, rfl⟩ := i64_eq_some.mp hmilli
    rw [Int.tdiv_eq_ediv_of_nonneg hmul] at hb
    obtain ⟨hsum, rfl⟩ := i64_eq_some.mp hb
    exact ⟨⟨hrange.2, hsum.2⟩, rfl⟩
  · rintro ⟨⟨hfit, hsum⟩, rfl⟩
    rw [i64_eq_some.mpr ⟨⟨by omega, hfit⟩, rfl⟩, Option.bind_eq_bind, Option.bind_some,
      Int.tdiv_eq_ediv_of_nonneg hmul]
    exact i64_eq_some.mpr ⟨⟨by omega, hsum⟩, rfl⟩

/-- What is granted by a paced limit in time. -/
theorem grants_of_paced {rate last g : Int} {calls : List Call} (h : Running r pts)
    (hts : r.ts = pts) (hspare : r.spareUs = 0) (htokens : r.tokens = r.ratePerStep)
    (hpaced : Paced rate total r.stepUs r.ratePerStep) (hlast : InTime rate pts total last)
    (hcalls : ∀ c ∈ calls, Until last c) (hg : granted r calls = some g) :
    r.tokens + g ≤ total + r.ratePerStep := by
  obtain ⟨steps, hsteps, htime, hgain⟩ :=
    granted_le h hcalls hlast.near (hts ▸ hlast.since) hg
  rw [hts, hspare] at htime
  have hpaid := hpaced steps (last - pts.us) hsteps (by omega) hlast.early
  omega

theorem tuned_of_paced {burst rate stepUs : Int} (hpts : Normal pts) (hstep : 0 < stepUs)
    (hrate : 0 < rate) (hburst : burst = 0 ∨ rate ≤ burst)
    (hpaced : Paced r.ratePerSec total stepUs rate) :
    Tuned r pts total ((r.reset pts).paced stepUs rate burst) where
  step_pos := hstep
  rate_pos _ := hrate
  tokens _ := rfl
  burst := hburst
  grants _ _ hlast _ _ hcalls hg :=
    grants_of_paced ⟨hrate, hstep, Int.le_refl 0, hpts, Int.le_refl _⟩ rfl rfl rfl hpaced hlast
      hcalls hg

theorem stretched_le {rate inc : Int} (hrate : 0 < rate) (hinc : 0 < inc) :
    0 < stretched rate inc ∧
      stretched rate inc * 1000000 ≤ rate * ((1000 + inc) * 1000) ∧
      ∀ burst, rate ≤ burst → stretched rate inc ≤ stretched burst inc := by
  have hmul : 0 ≤ rate * inc := Int.mul_nonneg (by omega) (by omega)
  refine ⟨by rw [stretched]; omega, ?_, fun burst hburst => ?_⟩
  · calc stretched rate inc * 1000000 ≤ rate * 1000000 + rate * inc * 1000 := by
          rw [stretched]; omega
      _ = rate * ((1000 + inc) * 1000) := by ring
  · have hmono : rate * inc / 1000 ≤ burst * inc / 1000 :=
      Int.ediv_le_ediv (by decide) (Int.mul_le_mul_of_nonneg_right hburst (by omega))
    rw [stretched, stretched]
    omega

/-- A start tunes the limiter exactly where the burst can be stretched like the rate. -/
theorem start_tuned_iff (hrate : 0 ≤ r.ratePerSec)
    (hburst : r.burstPerSec = 0 ∨
    r.ratePerSec ≤ r.burstPerSec) (hburst_le : r.burstPerSec ≤ INT64_MAX) (hpts : Normal pts) :
    (∃ r', rlimitStart r pts total = some r' ∧ Tuned r pts total r') ↔
      BurstFits r.ratePerSec r.burstPerSec total := by
  have hburst_nonneg : 0 ≤ r.burstPerSec := by omega
  have hfits (hinc : mstepInc r.ratePerSec total = 0) :
      BurstFits r.ratePerSec r.burstPerSec total := by
    rw [BurstFits, hinc, stretched, Int.mul_zero]
    exact ⟨by decide, by omega⟩
  obtain hzero | hpos : r.ratePerSec = 0 ∨ 0 < r.ratePerSec := by omega
  · -- a limiter without a rate is not tuned
    refine iff_of_true ⟨r.reset pts, if_pos (.inl hzero), ?_⟩ (hfits (if_pos (.inl hzero)))
    exact ⟨us_per_sec.1, fun h => absurd hzero (by omega), fun h => absurd hzero (by omega), hburst,
      fun h => absurd hzero (by omega)⟩
  generalize hstart : rlimitStart r pts total = o
  have houtcome : Outcome r pts total o := hstart ▸ start_outcome hpos
  cases houtcome with
  | plain hinc =>
    refine iff_of_true ⟨_, rfl, ?_⟩ (hfits hinc)
    exact tuned_of_paced hpts us_per_sec.1 hpos hburst
      (paced_of_le hpos us_per_sec.1 (Int.le_refl _))
  | single ms htwo hlt hinc hmain hms =>
    have hdiv : (total - tokensLast total) * 1000 < (ms + 1) * r.ratePerSec := by
      rw [← hms]
      exact Int.lt_ediv_add_one_mul_self _ hpos
    have hless : total - tokensLast total < r.ratePerSec := by
      have : (ms + 1) * r.ratePerSec ≤ 1000 * r.ratePerSec :=
        Int.mul_le_mul_of_nonneg_right (by omega) (by omega)
      omega
    refine iff_of_true ⟨_, rfl, ?_⟩ (hfits hinc)
    exact tuned_of_paced hpts (by omega) hmain (by omega) (paced_single hpos htwo hdiv)
  | spread inc hinc hle heq =>
    obtain ⟨hstretched, hslow, hmono⟩ := stretched_le hpos hinc
    rw [BurstFits, heq]
    constructor
    · rintro ⟨r', hr', -⟩
      obtain ⟨b, hb, -⟩ := Option.map_eq_some_iff.mp hr'
      exact ((stretchBurst_eq hburst_nonneg (by omega)).mp hb).1
    · intro hfit
      rw [(stretchBurst_eq hburst_nonneg (by omega)).mpr ⟨hfit, rfl⟩]
      refine ⟨_, rfl,
        tuned_of_paced hpts (by omega) hstretched ?_ (paced_of_le hpos (by omega) hslow)⟩
      obtain hnone | hsome := hburst
      · rw [hnone, stretched]
        exact .inl (by omega)
      · exact .inr (hmono _ hsome)

/-- A limit of 1000 tokens a second with a burst of 2000, for 1500 tokens. -/
theorem start_tuned_1500 : ∃ r', rlimitStart (rlimitInit 1000 2000 ⟨0, 0⟩) ⟨5, 0⟩ 1500 = some r' ∧
    Tuned (rlimitInit 1000 2000 ⟨0, 0⟩) ⟨5, 0⟩ 1500 r' :=
  (start_tuned_iff (by decide) (by decide) (by decide) ⟨by decide, by decide⟩).mpr (by decide)

/-- The same limit with the largest burst: the burst is multiplied by 485. -/
theorem start_overflows :
    rlimitStart (rlimitInit 1000 INT64_MAX ⟨0, 0⟩) ⟨5, 0⟩ 1500 = none := by decide

end Gurl.Ratelimit
