import Mathlib.Data.ENat.Basic
import Mathlib.Tactic
import Rdmas.Model.Retry

/-! # Retries are bounded

The loop makes one call more than the outcomes it retries, and never more than its budget allows
(`retryLoop_right_iff`). What the budget does not bound is the arithmetic of the delays: the factor
`2u32.pow(attempt)` stops being a `u32` at the 32nd retry, and the multiplication comes before the cap, so
`max_delay` does not protect it.
-/

namespace Rdmas.Soundness

open Rdmas.Model

variable {ε α β : Type}

/-- An outcome that is not retried whatever is left of the budget. -/
def IsFinal (retriable : ε → Bool) : Except ε α → Prop
  | .ok _ => True
  | .error err => retriable err = false

open Classical in
/-- The position of the first outcome that is not retried; infinite if there is none. -/
noncomputable def firstFinal (retriable : ε → Bool) (operation : ℕ → Except ε α) : ℕ∞ :=
  if h : ∃ k, IsFinal retriable (operation k) then (Nat.find h : ℕ∞) else ⊤

/-- How many retries are made. -/
noncomputable def retriesMade (config : RetryConfig) (retriable : ε → Bool) (operation : ℕ → Except ε α) : ℕ :=
  (min (firstFinal retriable operation) config.maxRetries.toNat).toNat

/-- The documented delay before a retry, in nanoseconds and without bounds. -/
def documentedDelay (config : RetryConfig) (retry : ℕ) : ℕ :=
  min (config.baseDelay.nanos * 2 ^ retry) config.maxDelay.nanos

/-- What the loop does from a value of its counter on, for a number of retries. -/
structure Retried (config : RetryConfig) (operation : ℕ → Except ε α) (attempt retries : ℕ)
    (trace : RetryTrace ε α) : Prop where
  calls : trace.calls = retries + 1
  returned : trace.returned = operation (attempt + retries)
  delays : trace.pauses.map (fun pause => pause.delay.nanos) =
    (List.range' (attempt + 1) retries).map (documentedDelay config)

/-- The sum of a delay and its jitter is an `i64`. -/
def SumFits (delay : ℕ) (jitter : BitVec 64) : Prop :=
  -2 ^ 63 ≤ (BitVec.ofNat 64 (delay / 1000)).toInt + jitter.toInt ∧
    (BitVec.ofNat 64 (delay / 1000)).toInt + jitter.toInt < 2 ^ 63

/-- The arithmetic before a retry stays within its types. -/
structure PauseFits (config : RetryConfig) (jitter : ℕ → BitVec 64) (retry : ℕ) : Prop where
  power : retry < 32
  product : config.baseDelay.nanos * 2 ^ retry < 2 ^ 64 * 10 ^ 9
  sum : SumFits (documentedDelay config retry) (jitter retry)

section Pauses

variable {config : RetryConfig} {jitter : ℕ → BitVec 64} {retry : ℕ}

theorem powerOfTwo_eq (retry : ℕ) : powerOfTwo retry = if retry < 32 then some (2 ^ retry) else none := by
  simp only [powerOfTwo, Nat.pow_lt_pow_iff_right (by decide : 1 < 2)]

theorem Duration.nanos_min (left right : Duration) :
    (left.min right).nanos = min left.nanos right.nanos := by
  unfold Duration.min
  split <;> omega

/-- A delay that is computed is the documented one. -/
theorem delay_eq_some_iff {delay : Duration} :
    config.delay retry = some delay ↔
      (retry < 32 ∧ config.baseDelay.nanos * 2 ^ retry < 2 ^ 64 * 10 ^ 9) ∧
        delay.nanos = documentedDelay config retry := by
  have same : ∀ other : Duration, other = delay ↔ delay.nanos = other.nanos := by
    intro other
    cases other
    cases delay
    simp only [Duration.mk.injEq, eq_comm]
  simp only [RetryConfig.delay, powerOfTwo_eq, Option.bind_eq_bind]
  by_cases power : retry < 32
  · rw [if_pos power, Option.bind_some, Duration.mul]
    by_cases product : config.baseDelay.nanos * 2 ^ retry < 2 ^ 64 * 10 ^ 9
    · rw [dif_pos product, Option.bind_some, Option.pure_def, Option.some.injEq, same,
        Duration.nanos_min, and_iff_right ⟨power, product⟩, documentedDelay]
    · rw [dif_neg product, Option.bind_none]
      exact iff_of_false (Option.some_ne_none delay).symm (fun fits => product fits.1.2)
  · rw [if_neg power, Option.bind_none]
    exact iff_of_false (Option.some_ne_none delay).symm (fun fits => power fits.1.1)

private theorem isSome_jittered (delay : Duration) (jitter : BitVec 64) :
    (delay.jittered jitter).isSome ↔ SumFits delay.nanos jitter := by
  simp only [Duration.jittered]
  split_ifs with fits
  · exact iff_of_true rfl fits
  · exact iff_of_false Bool.false_ne_true fits

/-- A pause that is computed fits its types, and starts from the documented delay. -/
theorem pause_of_eq_some {pause : Pause} (computed : config.pause jitter retry = some pause) :
    PauseFits config jitter retry ∧ pause.delay.nanos = documentedDelay config retry := by
  simp only [RetryConfig.pause, Option.bind_eq_bind, Option.bind_eq_some_iff] at computed
  obtain ⟨delay, delayed, final, summed, made⟩ := computed
  cases made
  obtain ⟨⟨power, product⟩, nanos⟩ := delay_eq_some_iff.mp delayed
  have sum := (isSome_jittered delay (jitter retry)).mp (by rw [summed]; rfl)
  rw [nanos] at sum
  exact ⟨⟨power, product, sum⟩, nanos⟩

theorem PauseFits.computed (fits : PauseFits config jitter retry) :
    ∃ pause, config.pause jitter retry = some pause := by
  have bounded : documentedDelay config retry < 2 ^ 64 * 10 ^ 9 :=
    lt_of_le_of_lt (min_le_left _ _) fits.product
  have delayed : config.delay retry = some ⟨_, bounded⟩ :=
    delay_eq_some_iff.mpr ⟨⟨fits.power, fits.product⟩, rfl⟩
  obtain ⟨final, summed⟩ := Option.isSome_iff_exists.mp
    ((isSome_jittered ⟨_, bounded⟩ (jitter retry)).mpr fits.sum)
  exact ⟨⟨⟨_, bounded⟩, final⟩, by simp [RetryConfig.pause, delayed, summed]⟩

/-- With delays below 2^62 microseconds, jitter of a quarter of the delay leaves the sum an `i64`. -/
theorem sumFits_of_quarter {delay : ℕ} {jitter : BitVec 64} (short : delay / 1000 < 2 ^ 62)
    (quarter : 4 * |jitter.toInt| ≤ (delay / 1000 : ℕ)) : SumFits delay jitter := by
  have exact : (BitVec.ofNat 64 (delay / 1000)).toInt = (delay / 1000 : ℕ) := by
    have low : (BitVec.ofNat 64 (delay / 1000)).toNat = delay / 1000 := by
      rw [BitVec.toNat_ofNat, Nat.mod_eq_of_lt (by omega)]
    rw [BitVec.toInt_eq_toNat_of_lt (by omega), low]
  have bounds := abs_le.mp (le_refl |jitter.toInt|)
  unfold SumFits
  rw [exact]
  omega

end Pauses

section Loop

variable {config : RetryConfig} {retriable : ε → Bool} {operation : ℕ → Except ε α}
  {jitter : ℕ → BitVec 64} {attempt retries : ℕ}

private theorem retryLoop_of_stop
    (stop : IsFinal retriable (operation attempt) ∨ config.maxRetries.toNat ≤ attempt) :
    retryLoop config retriable operation jitter attempt = some ⟨1, [], operation attempt⟩ := by
  rw [retryLoop]
  cases outcome : operation attempt with
  | ok result => rfl
  | error err =>
      have stopped : (!retriable err) = true ∨ attempt ≥ config.maxRetries.toNat := by
        simpa [outcome, IsFinal] using stop
      simp only [stopped, ↓reduceDIte]

private theorem retryLoop_of_retry (retried : ¬ IsFinal retriable (operation attempt))
    (left : attempt < config.maxRetries.toNat) :
    retryLoop config retriable operation jitter attempt = do
      let pause ← config.pause jitter (attempt + 1)
      let rest ← retryLoop config retriable operation jitter (attempt + 1)
      return ⟨rest.calls + 1, pause :: rest.pauses, rest.returned⟩ := by
  rw [retryLoop]
  cases outcome : operation attempt with
  | ok result =>
      rw [outcome] at retried
      exact absurd trivial retried
  | error err =>
      rw [outcome] at retried
      have running : ¬ ((!retriable err) = true ∨ attempt ≥ config.maxRetries.toNat) := by
        simp only [IsFinal, Bool.not_eq_false] at retried
        simp [retried, left]
      simp only [running, ↓reduceDIte]

/-- The loop makes a number of retries and stops. -/
structure StopsAfter (config : RetryConfig) (retriable : ε → Bool) (operation : ℕ → Except ε α)
    (attempt retries : ℕ) : Prop where
  retried : ∀ k < retries, ¬ IsFinal retriable (operation (attempt + k))
  within : ∀ k < retries, attempt + k < config.maxRetries.toNat
  stops : IsFinal retriable (operation (attempt + retries)) ∨ config.maxRetries.toNat ≤ attempt + retries

theorem StopsAfter.next (stops : StopsAfter config retriable operation attempt (retries + 1)) :
    StopsAfter config retriable operation (attempt + 1) retries where
  retried k small := by
    have later := stops.retried (k + 1) (by omega)
    rwa [show attempt + (k + 1) = attempt + 1 + k by omega] at later
  within k small := by
    have later := stops.within (k + 1) (by omega)
    omega
  stops := by
    have last := stops.stops
    rwa [show attempt + (retries + 1) = attempt + 1 + retries by omega] at last

theorem StopsAfter.retryLoop_zero (stops : StopsAfter config retriable operation attempt 0) :
    retryLoop config retriable operation jitter attempt = some ⟨1, [], operation attempt⟩ :=
  retryLoop_of_stop stops.stops

theorem StopsAfter.retryLoop_succ (stops : StopsAfter config retriable operation attempt (retries + 1)) :
    retryLoop config retriable operation jitter attempt = do
      let pause ← config.pause jitter (attempt + 1)
      let rest ← retryLoop config retriable operation jitter (attempt + 1)
      return ⟨rest.calls + 1, pause :: rest.pauses, rest.returned⟩ :=
  retryLoop_of_retry (stops.retried 0 (Nat.succ_pos _)) (stops.within 0 (Nat.succ_pos _))

theorem Retried.cons {rest : RetryTrace ε α} {pause : Pause}
    (nanos : pause.delay.nanos = documentedDelay config (attempt + 1))
    (retried : Retried config operation (attempt + 1) retries rest) :
    Retried config operation attempt (retries + 1)
      ⟨rest.calls + 1, pause :: rest.pauses, rest.returned⟩ where
  calls := by rw [retried.calls]
  returned := by rw [retried.returned, show attempt + 1 + retries = attempt + (retries + 1) by omega]
  delays := by rw [List.map_cons, retried.delays, nanos, List.range'_succ, List.map_cons]

/-- A loop that returns ran as documented, and the arithmetic of its pauses fit. By induction on the retries
that are left. -/
theorem retried_of_retryLoop (stops : StopsAfter config retriable operation attempt retries)
    {trace : RetryTrace ε α} (ran : retryLoop config retriable operation jitter attempt = some trace) :
    Retried config operation attempt retries trace ∧
      ∀ k < retries, PauseFits config jitter (attempt + 1 + k) := by
  induction retries generalizing attempt trace with
  | zero =>
      rw [stops.retryLoop_zero, Option.some.injEq] at ran
      subst ran
      exact ⟨⟨rfl, rfl, rfl⟩, fun k small => absurd small (Nat.not_lt_zero k)⟩
  | succ retries ih =>
      rw [stops.retryLoop_succ] at ran
      simp only [Option.bind_eq_bind, Option.bind_eq_some_iff] at ran
      obtain ⟨pause, paused, rest, rested, made⟩ := ran
      cases made
      obtain ⟨first, nanos⟩ := pause_of_eq_some paused
      obtain ⟨retried, fits⟩ := ih stops.next rested
      refine ⟨retried.cons nanos, fun k small => ?_⟩
      cases k with
      | zero => exact first
      | succ k =>
          have later := fits k (by omega)
          rwa [show attempt + 1 + 1 + k = attempt + 1 + (k + 1) by omega] at later

/-- The loop returns if the arithmetic of its pauses fits. -/
theorem retryLoop_returns (stops : StopsAfter config retriable operation attempt retries)
    (fits : ∀ k < retries, PauseFits config jitter (attempt + 1 + k)) :
    ∃ trace, retryLoop config retriable operation jitter attempt = some trace := by
  induction retries generalizing attempt with
  | zero => exact ⟨_, stops.retryLoop_zero⟩
  | succ retries ih =>
      obtain ⟨pause, paused⟩ := (fits 0 (by omega)).computed
      obtain ⟨rest, rested⟩ := ih stops.next (fun k small => by
        have later := fits (k + 1) (by omega)
        rwa [show attempt + 1 + (k + 1) = attempt + 1 + 1 + k by omega] at later)
      refine ⟨⟨rest.calls + 1, pause :: rest.pauses, rest.returned⟩, ?_⟩
      rw [stops.retryLoop_succ]
      simp only [Nat.add_zero] at paused
      simp [paused, rested]

/-- The loop panics if the arithmetic of one of its pauses does not fit. -/
theorem retryLoop_eq_none (stops : StopsAfter config retriable operation attempt retries) {k : ℕ}
    (small : k < retries) (misfit : ¬ PauseFits config jitter (attempt + 1 + k)) :
    retryLoop config retriable operation jitter attempt = none := by
  cases ran : retryLoop config retriable operation jitter attempt with
  | none => rfl
  | some trace => exact absurd ((retried_of_retryLoop stops ran).2 k small) misfit

/-- The number of retries is the smaller of the budget and the position of the first final outcome. -/
theorem stopsAfter_retriesMade (config : RetryConfig) (retriable : ε → Bool) (operation : ℕ → Except ε α) :
    StopsAfter config retriable operation 0 (retriesMade config retriable operation) := by
  classical
  by_cases final : ∃ k, IsFinal retriable (operation k)
  · have made : retriesMade config retriable operation = min (Nat.find final) config.maxRetries.toNat := by
      rw [retriesMade, firstFinal, dif_pos final, ← Nat.mono_cast.map_min, ENat.toNat_natCast]
    rw [made]
    refine ⟨fun k small => ?_, fun k small => ?_, ?_⟩
    · rw [Nat.zero_add]
      exact Nat.find_min final (lt_of_lt_of_le small (min_le_left _ _))
    · omega
    · rw [Nat.zero_add]
      rcases le_total (Nat.find final) config.maxRetries.toNat with early | late
      · rw [min_eq_left early]
        exact .inl (Nat.find_spec final)
      · exact .inr (min_eq_right late).ge
  · have made : retriesMade config retriable operation = config.maxRetries.toNat := by
      rw [retriesMade, firstFinal, dif_neg final, min_eq_right le_top, ENat.toNat_natCast]
    rw [made]
    exact ⟨fun k _ isFinal => final ⟨_, isFinal⟩, fun k small => by omega, .inr (by omega)⟩

private theorem retriesMade_le (config : RetryConfig) (retriable : ε → Bool) (operation : ℕ → Except ε α) :
    retriesMade config retriable operation ≤ config.maxRetries.toNat :=
  ENat.toNat_le_of_le_natCast (min_le_right _ _)

/-- From the start: the loop returns and ran as documented exactly when each of its pauses fits. -/
theorem retryLoop_right_iff (config : RetryConfig) (retriable : ε → Bool) (operation : ℕ → Except ε α)
    (jitter : ℕ → BitVec 64) :
    (∃ trace, retryLoop config retriable operation jitter 0 = some trace ∧
      Retried config operation 0 (retriesMade config retriable operation) trace) ↔
      ∀ retry, 1 ≤ retry → retry ≤ retriesMade config retriable operation →
        PauseFits config jitter retry := by
  have stops := stopsAfter_retriesMade config retriable operation
  constructor
  · rintro ⟨trace, ran, -⟩ retry first last
    have fits := (retried_of_retryLoop stops ran).2 (retry - 1) (by omega)
    rwa [show 0 + 1 + (retry - 1) = retry by omega] at fits
  · intro fits
    obtain ⟨trace, ran⟩ := retryLoop_returns stops (fun k small => fits (0 + 1 + k) (by omega) (by omega))
    exact ⟨trace, ran, (retried_of_retryLoop stops ran).1⟩

end Loop

/-- Both functions call the operation once more than the smaller of the budget and the position of the first
outcome that is not retried, return the last outcome and compute the documented delays, exactly when for
every retry they make the factor is a `u32`, the multiplied delay a duration and its sum with the jitter an
`i64`. -/
theorem retries_right_iff_pauses_fit (config : RetryConfig) (jitter : ℕ → BitVec 64)
    (rdmaOp : ℕ → Except RdmaError α) (operation : ℕ → Except ε β) :
    ((∃ trace, retryRdmaOp config rdmaOp jitter = some trace ∧
        Retried config rdmaOp 0 (retriesMade config RdmaError.isRetriable rdmaOp) trace) ↔
      ∀ retry, 1 ≤ retry → retry ≤ retriesMade config RdmaError.isRetriable rdmaOp →
        PauseFits config jitter retry) ∧
    ((∃ trace, retryWithBackoff config operation jitter = some trace ∧
        Retried config operation 0 (retriesMade config (fun _ => true) operation) trace) ↔
      ∀ retry, 1 ≤ retry → retry ≤ retriesMade config (fun _ => true) operation →
        PauseFits config jitter retry) :=
  ⟨retryLoop_right_iff config RdmaError.isRetriable rdmaOp jitter,
    retryLoop_right_iff config (fun _ => true) operation jitter⟩

private theorem stopsAfter_budget (config : RetryConfig) :
    StopsAfter config RdmaError.isRetriable (fun _ => (.error .timeout : Except RdmaError Unit)) 0
      config.maxRetries.toNat where
  retried _ _ final := Bool.noConfusion final
  within k small := by omega
  stops := .inr (by omega)

/-- Timeouts only: with 32 retries the last factor is not a `u32`, and the longest duration cannot be
doubled even for one retry, although the delay is capped at ten milliseconds. -/
theorem backoff_panics_before_cap :
    retryRdmaOp ⟨32, .fromMicros 100, .fromMicros 10000⟩
        (fun _ => (.error .timeout : Except RdmaError Unit)) (fun _ => 0) = none ∧
      retryRdmaOp ⟨1, ⟨2 ^ 64 * 10 ^ 9 - 1, by decide⟩, .fromMicros 10000⟩
        (fun _ => (.error .timeout : Except RdmaError Unit)) (fun _ => 0) = none := by
  refine ⟨retryLoop_eq_none (stopsAfter_budget _) (k := 31) (by decide) fun fits => ?_,
    retryLoop_eq_none (stopsAfter_budget _) (k := 0) (by decide) fun fits => ?_⟩
  · exact absurd fits.power (by decide)
  · exact absurd fits.product (by decide)

/-- The default configuration is never affected, with jitter of at most a quarter of each delay. -/
theorem default_retries_right (jitter : ℕ → BitVec 64) (operation : ℕ → Except RdmaError α)
    (quarter : ∀ retry, 4 * |(jitter retry).toInt| ≤ (documentedDelay .default retry / 1000 : ℕ)) :
    ∃ trace, retryRdmaOp .default operation jitter = some trace ∧
      Retried .default operation 0 (retriesMade .default RdmaError.isRetriable operation) trace := by
  refine (retryLoop_right_iff .default RdmaError.isRetriable operation jitter).mpr fun retry _ made => ?_
  have few : retry ≤ 3 := le_trans made (retriesMade_le _ _ _)
  have power : 2 ^ retry ≤ 2 ^ 3 := Nat.pow_le_pow_right (by decide) few
  have base : RetryConfig.default.baseDelay.nanos = 100000 := rfl
  have capped : documentedDelay .default retry ≤ RetryConfig.default.maxDelay.nanos := min_le_right _ _
  have cap : RetryConfig.default.maxDelay.nanos = 10000000 := rfl
  refine ⟨by omega, ?_, sumFits_of_quarter (by omega) (quarter retry)⟩
  rw [base]
  omega

end Rdmas.Soundness
