import Mathlib.Data.BitVec
import Rdmas.Model.Error

/-! # Retries with exponential backoff

`client/retry.rs`. The outcomes of the operation are given from outside, one for each call, and so is what
the generator's draw makes of each delay: `(delay.as_micros() as f64 * 0.25 * rng.gen_range(-1.0..1.0)) as
i64`. The power, the multiplication of a duration and the sum with the jitter are checked; `none` is a call
that panics.
-/

namespace Rdmas.Model

/-- `std::time::Duration`, in nanoseconds: the seconds are a 64-bit number. -/
structure Duration where
  nanos : ℕ
  bounded : nanos < 2 ^ 64 * 10 ^ 9
deriving DecidableEq, Repr

namespace Duration

def fromMicros (micros : BitVec 64) : Duration where
  nanos := micros.toNat * 1000
  bounded := by
    have small := micros.isLt
    omega

def asMicros (duration : Duration) : ℕ := duration.nanos / 1000

/-- `duration * factor`; the result must be a duration. -/
def mul (duration : Duration) (factor : ℕ) : Option Duration :=
  if bounded : duration.nanos * factor < 2 ^ 64 * 10 ^ 9 then some ⟨duration.nanos * factor, bounded⟩
  else none

/-- `Ord::min`. -/
def min (left right : Duration) : Duration := if right.nanos < left.nanos then right else left

/-- `Duration::from_micros((delay.as_micros() as i64 + jitter).max(0) as u64)`. The first cast keeps the low
64 bits; the sum must be an `i64`. -/
def jittered (delay : Duration) (jitter : BitVec 64) : Option Duration :=
  let sum := (BitVec.ofNat 64 delay.asMicros).toInt + jitter.toInt
  if -2 ^ 63 ≤ sum ∧ sum < 2 ^ 63 then some (fromMicros (BitVec.ofInt 64 (max sum 0))) else none

end Duration

structure RetryConfig where
  maxRetries : BitVec 32
  baseDelay : Duration
  maxDelay : Duration
deriving DecidableEq, Repr

def RetryConfig.default : RetryConfig := ⟨3, .fromMicros 100, .fromMicros 10000⟩

/-- `2u32.pow(attempt)`. -/
def powerOfTwo (attempt : ℕ) : Option ℕ := if 2 ^ attempt < 2 ^ 32 then some (2 ^ attempt) else none

/-- The delay before a retry, without its jitter. -/
def RetryConfig.delay (config : RetryConfig) (attempt : ℕ) : Option Duration := do
  let factor ← powerOfTwo attempt
  let delay ← config.baseDelay.mul factor
  return delay.min config.maxDelay

/-- A delay and the time slept for it. -/
structure Pause where
  delay : Duration
  finalDelay : Duration
deriving DecidableEq, Repr

/-- The pause before a retry. -/
def RetryConfig.pause (config : RetryConfig) (jitter : ℕ → BitVec 64) (attempt : ℕ) : Option Pause := do
  let delay ← config.delay attempt
  let finalDelay ← delay.jittered (jitter attempt)
  return ⟨delay, finalDelay⟩

/-- How often the operation was called, the pauses in between, and what was returned. -/
structure RetryTrace (ε α : Type) where
  calls : ℕ
  pauses : List Pause
  returned : Except ε α

variable {ε α : Type}

/-- The loop, from a value of its counter on, which is also the number of earlier calls. It does not exceed
`max_retries`, so its increment does not wrap. -/
def retryLoop (config : RetryConfig) (retriable : ε → Bool) (operation : ℕ → Except ε α)
    (jitter : ℕ → BitVec 64) (attempt : ℕ) : Option (RetryTrace ε α) :=
  match operation attempt with
  | .ok result => some ⟨1, [], .ok result⟩
  | .error err =>
      if _stop : !retriable err ∨ attempt ≥ config.maxRetries.toNat then some ⟨1, [], .error err⟩
      else do
        let pause ← config.pause jitter (attempt + 1)
        let rest ← retryLoop config retriable operation jitter (attempt + 1)
        return ⟨rest.calls + 1, pause :: rest.pauses, rest.returned⟩
termination_by config.maxRetries.toNat - attempt
decreasing_by omega

/-- Every error is retried. -/
def retryWithBackoff (config : RetryConfig) (operation : ℕ → Except ε α) (jitter : ℕ → BitVec 64) :
    Option (RetryTrace ε α) := retryLoop config (fun _ => true) operation jitter 0

/-- Retry an operation only if the error is retriable. -/
def retryRdmaOp (config : RetryConfig) (operation : ℕ → Except RdmaError α) (jitter : ℕ → BitVec 64) :
    Option (RetryTrace RdmaError α) := retryLoop config RdmaError.isRetriable operation jitter 0

end Rdmas.Model
