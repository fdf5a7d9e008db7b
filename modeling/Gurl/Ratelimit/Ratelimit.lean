import Gurl.Splay.Timers

/-! `lib/ratelimit.c`: a bucket of tokens that is filled in steps. -/

namespace Gurl.Ratelimit

open Splay (Curltime ptimediffUs)

def INT64_MAX : Int := 2 ^ 63 - 1

def INT64_MIN : Int := -2 ^ 63

/-- The numbers of an `int64_t`. -/
def InRange (x : Int) : Prop := INT64_MIN ≤ x ∧ x ≤ INT64_MAX

instance (x : Int) : Decidable (InRange x) := by
  unfold InRange
  infer_instance

/-- A result of signed arithmetic; outside of the range the behaviour of the program is
undefined. -/
def i64 (x : Int) : Option Int := if InRange x then some x else none

/-- A signed division, which is not defined by zero. -/
def div64 (x y : Int) : Option Int := if y = 0 then none else i64 (x.tdiv y)

def CURL_US_PER_SEC : Int := 1000000
def CURL_RLIMIT_MIN_RATE : Int := 4 * 1024
def CURL_RLIMIT_STEP_MIN_MS : Int := 2

/-- `struct Curl_rlimit`. -/
structure Rlimit where
  ratePerSec : Int
  burstPerSec : Int
  ratePerStep : Int
  burstPerStep : Int
  stepUs : Int
  tokens : Int
  spareUs : Int
  ts : Curltime
  blocked : Bool
  deriving DecidableEq

/-- How many tokens come in some steps. -/
def tokenGain (r : Rlimit) (elapsedSteps : Int) : Option Int := do
  let most ← div64 INT64_MAX elapsedSteps
  if r.ratePerStep > most then some INT64_MAX else i64 (r.ratePerStep * elapsedSteps)

def addTokens (tokens gain : Int) : Option Int := do
  let room ← i64 (INT64_MAX - gain)
  if room > tokens then i64 (tokens + gain) else some INT64_MAX

/-- The end of `rlimit_update`: the tokens of some steps, up to the burst. -/
def refill (r : Rlimit) (elapsedSteps : Int) : Option Rlimit := do
  let gain ← tokenGain r elapsedSteps
  let tokens ← addTokens r.tokens gain
  return { r with
    tokens := if r.burstPerStep ≠ 0 ∧ tokens > r.burstPerStep then r.burstPerStep else tokens }

def rlimitUpdate (r : Rlimit) (pts : Curltime) : Option Rlimit :=
  if r.ts.tvSec = pts.tvSec ∧ r.ts.tvUsec = pts.tvUsec then some r
  else if ptimediffUs pts r.ts < 0 then some r
  else do
    let elapsedUs ← i64 (ptimediffUs pts r.ts + r.spareUs)
    if elapsedUs < r.stepUs then some r
    else do
      let elapsedSteps ← div64 elapsedUs r.stepUs
      refill { r with ts := pts, spareUs := elapsedUs.tmod r.stepUs } elapsedSteps

/-- The last tokens of a total, which come in the last step. -/
def tokensLast (tokensTotal : Int) : Int :=
  let last := tokensTotal.tdiv 100
  if last = 0 then 1 else if last > CURL_RLIMIT_MIN_RATE then CURL_RLIMIT_MIN_RATE else last

def rlimitTuneSteps (r : Rlimit) (tokensTotal : Int) : Option Rlimit :=
  if r.ratePerStep = 0 ∨ tokensTotal ≤ 1 ∨ tokensTotal > INT64_MAX.tdiv 1000 then some r
  else do
    let tokensMain ← i64 (tokensTotal - tokensLast tokensTotal)
    let milli ← i64 (tokensMain * 1000)
    let msteps ← div64 milli r.ratePerStep
    if msteps < CURL_RLIMIT_STEP_MIN_MS then some r
    else if msteps < 1000 then do
      let stepUs ← i64 (msteps * 1000)
      return { r with stepUs, ratePerStep := tokensMain, tokens := tokensMain }
    else do
      let mstepInc ← div64 (msteps.tmod 1000) (msteps.tdiv 1000)
      if mstepInc = 0 then some r
      else do
        let rateMilli ← i64 (r.ratePerStep * mstepInc)
        let rateInc := rateMilli.tdiv 1000
        if rateInc = 0 then some r
        else do
          let incUs ← i64 (mstepInc * 1000)
          let stepUs ← i64 (CURL_US_PER_SEC + incUs)
          let rate ← i64 (r.ratePerStep + rateInc)
          let r := { r with stepUs, ratePerStep := rate, tokens := rate }
          if r.burstPerStep = 0 then some r
          else do
            let burstMilli ← i64 (r.burstPerStep * mstepInc)
            let burst ← i64 (r.burstPerStep + burstMilli.tdiv 1000)
            return { r with burstPerStep := burst }

def rlimitInit (ratePerSec burstPerSec : Int) (pts : Curltime) : Rlimit where
  ratePerSec
  burstPerSec
  ratePerStep := ratePerSec
  burstPerStep := burstPerSec
  stepUs := CURL_US_PER_SEC
  tokens := ratePerSec
  spareUs := 0
  ts := pts
  blocked := false

def rlimitStart (r : Rlimit) (pts : Curltime) (totalTokens : Int) : Option Rlimit :=
  rlimitTuneSteps { r with
    ratePerStep := r.ratePerSec, burstPerStep := r.burstPerSec, stepUs := CURL_US_PER_SEC,
    spareUs := 0, tokens := r.ratePerSec, ts := pts } totalTokens

def rlimitAvail (r : Rlimit) (pts : Curltime) : Option (Rlimit × Int) :=
  if r.blocked then some (r, 0)
  else if r.ratePerStep ≠ 0 then (rlimitUpdate r pts).map fun r => (r, r.tokens)
  else some (r, INT64_MAX)

/-- `Curl_rlimit_drain`; `tokens` is a `size_t`. -/
def rlimitDrain (r : Rlimit) (tokens : Nat) (pts : Curltime) : Option Rlimit :=
  if r.blocked ∨ r.ratePerStep = 0 then some r
  else do
    let r ← rlimitUpdate r pts
    if tokens > INT64_MAX then return { r with tokens := INT64_MAX }
    else if INT64_MIN + tokens < r.tokens then do
      let left ← i64 (r.tokens - tokens)
      return { r with tokens := left }
    else return { r with tokens := INT64_MIN }

/-- The time for a debt: whole percents of a step. -/
def debtUs (r : Rlimit) : Option Int :=
  if r.tokens < 0 then do
    let debt ← i64 (-r.tokens)
    let hundred ← i64 (debt * 100)
    let debtPct ← div64 hundred r.ratePerStep
    let stepPct ← i64 (r.stepUs * debtPct)
    return stepPct.tdiv 100
  else some 0

def rlimitWaitMs (r : Rlimit) (pts : Curltime) : Option (Rlimit × Int) :=
  if r.blocked ∨ r.ratePerStep = 0 then some (r, 0)
  else do
    let r ← rlimitUpdate r pts
    if r.tokens > 0 then return (r, 0)
    else do
      let step ← i64 (r.stepUs - r.spareUs)
      let debt ← debtUs r
      let waitUs ← i64 (step + debt)
      if ptimediffUs pts r.ts ≥ waitUs then return (r, 0)
      else do
        let left ← i64 (waitUs - ptimediffUs pts r.ts)
        let up ← i64 (left + 999)
        return (r, up.tdiv 1000)

/-- The calls that a transfer makes on its limiter. -/
inductive Call where
  | start (pts : Curltime) (totalTokens : Int)
  | avail (pts : Curltime)
  | drain (tokens : Nat) (pts : Curltime)

def Call.pts : Call → Curltime
  | start pts _ => pts
  | avail pts => pts
  | drain _ pts => pts

def Call.run (r : Rlimit) : Call → Option Rlimit
  | start pts totalTokens => rlimitStart r pts totalTokens
  | avail pts => (rlimitAvail r pts).map Prod.fst
  | drain tokens pts => rlimitDrain r tokens pts

def runCalls (r : Rlimit) (calls : List Call) : Option Rlimit := calls.foldlM Call.run r

end Gurl.Ratelimit
