import Rdmas.Soundness.LruEviction
import Rdmas.Soundness.EpochWrap

/-! # The sweep timer across the wrap of the clock

`maybe_sweep` and `is_sweep_due` subtract the reading kept of the last sweep from the present one. The true
times are kept beside the readings. While both readings are of one era the difference is the time that has
passed. Between two eras the subtraction underflows: with overflow checks it panics, without them the timer
is taken to have run out (`due_of_other_era`).
-/

namespace Rdmas.Soundness

open Rdmas.Model Runs Eras

/-- The calls that read the timer, at true times, and whatever else is done in between: other calls may
change the pending list, the tracker and the region, but not the timer. -/
inductive TimerOp where
  | maybeSweep (time : ℕ) (order : Enumeration) (minActiveTs : BitVec 32) (inputs : EvictionInputs)
  | isSweepDue (time : ℕ)
  | elsewhere (pending : List (BitVec 64 × BitVec 64)) (lru : Option LruTracker)
      (region : LargeObjectRegion)

/-- The collector and its region, with the true times of the last executed sweep, or of the creation, and
of the last observation. -/
structure TimerState where
  gc : EpochGc
  region : LargeObjectRegion
  lastSweep : ℕ
  observed : ℕ

namespace TimerState

/-- A collector created at a time, with a tracker or without one. -/
def start (sweepIntervalMs : BitVec 64) (lru : Option LruTracker) (region : LargeObjectRegion) (time : ℕ) :
    TimerState where
  gc := lru.elim (.new sweepIntervalMs (nowMs time)) fun lru => .withLru sweepIntervalMs lru (nowMs time)
  region := region
  lastSweep := time
  observed := time

/-- Observations do not go back, and are less than a period of the clock apart. -/
def Admits (state : TimerState) (time : ℕ) : Prop :=
  state.observed ≤ time ∧ time < state.observed + clockPeriod

instance (state : TimerState) (time : ℕ) : Decidable (state.Admits time) :=
  inferInstanceAs (Decidable (_ ∧ _))

/-- The true time since the last executed sweep. -/
def gap (state : TimerState) (time : ℕ) : ℕ := time - state.lastSweep

/-- A call of a build without overflow checks. A sweep is executed unless the call is early. -/
def step (state : TimerState) : TimerOp → Option TimerState
  | .maybeSweep time order minActiveTs inputs =>
      if state.Admits time then
        let (gc, region, _) := state.gc.maybeSweep state.region order minActiveTs (nowMs time) inputs
        some ⟨gc, region, if Early state.gc (nowMs time) then state.lastSweep else time, time⟩
      else none
  | .isSweepDue time => if state.Admits time then some { state with observed := time } else none
  | .elsewhere pending lru region => some { state with gc := { state.gc with pending, lru }, region }

/-- No subtraction underflows, and a sweep is executed or reported due exactly when the interval has truly
passed, as far as the clock can tell. -/
def TimerRight (sweepIntervalMs : BitVec 64) (state : TimerState) : TimerOp → Prop
  | .maybeSweep time order minActiveTs inputs =>
      (state.gc.checkedMaybeSweep state.region order minActiveTs (nowMs time) inputs).isSome ∧
        (state.gap time < clockPeriod →
          (¬ Early state.gc (nowMs time) ↔ sweepIntervalMs.toNat ≤ state.gap time))
  | .isSweepDue time =>
      (state.gc.checkedIsSweepDue (nowMs time)).isSome ∧
        (state.gap time < clockPeriod →
          (state.gc.isSweepDue (nowMs time) = true ↔ sweepIntervalMs.toNat ≤ state.gap time))
  | .elsewhere _ _ _ => True

/-- The clock has not wrapped since the last executed sweep or, more than a period later, has caught up with
the reading kept of it. -/
def NotBehind (state : TimerState) (time : ℕ) : Prop :=
  if state.gap time < clockPeriod then era clockPeriod time = era clockPeriod state.lastSweep
  else reading clockPeriod state.lastSweep ≤ reading clockPeriod time

instance (state : TimerState) (time : ℕ) : Decidable (state.NotBehind time) :=
  inferInstanceAs (Decidable (if state.gap time < clockPeriod then _ = _ else _ ≤ _))

/-- The same for the call. -/
def ClockAhead (state : TimerState) : TimerOp → Prop
  | .maybeSweep time _ _ _ | .isSweepDue time => state.NotBehind time
  | .elsewhere _ _ _ => True

instance (state : TimerState) : (op : TimerOp) → Decidable (state.ClockAhead op)
  | .maybeSweep time _ _ _ | .isSweepDue time => inferInstanceAs (Decidable (state.NotBehind time))
  | .elsewhere _ _ _ => instDecidableTrue

end TimerState

section Frame

variable {gc : EpochGc} {region : LargeObjectRegion} {inputs : EvictionInputs} {now : BitVec 32}

private theorem scheduleAll_timer (gc : EpochGc) (candidates : List (BitVec 64)) (clock : ℕ → BitVec 32) :
    (gc.scheduleAll candidates clock).lastSweep = gc.lastSweep ∧
      (gc.scheduleAll candidates clock).sweepIntervalMs = gc.sweepIntervalMs := by
  rw [EpochGc.scheduleAll]
  induction candidates.zipIdx generalizing gc with
  | nil => exact ⟨rfl, rfl⟩
  | cons candidate rest ih => exact ih (gc.scheduleDeletion candidate.1 (clock candidate.2))

/-- An eviction leaves the timer alone. -/
theorem evictLru_timer (gc : EpochGc) (region : LargeObjectRegion) (n : ℕ) (inputs : EvictionInputs) :
    (gc.evictLru region n inputs).1.lastSweep = gc.lastSweep ∧
      (gc.evictLru region n inputs).1.sweepIntervalMs = gc.sweepIntervalMs := by
  unfold EpochGc.evictLru
  cases gc.lru with
  | none => exact ⟨rfl, rfl⟩
  | some lru =>
      dsimp only
      split
      · exact ⟨rfl, rfl⟩
      · exact scheduleAll_timer _ _ _

/-- `maybe_sweep` restarts the timer unless it is early. -/
theorem maybeSweep_timer (gc : EpochGc) (region : LargeObjectRegion) (order : Enumeration)
    (minActiveTs now : BitVec 32) (inputs : EvictionInputs) :
    (gc.maybeSweep region order minActiveTs now inputs).1.lastSweep =
        (if Early gc now then gc.lastSweep else now.setWidth 64) ∧
      (gc.maybeSweep region order minActiveTs now inputs).1.sweepIntervalMs = gc.sweepIntervalMs := by
  by_cases early : Early gc now
  · have unelapsed : now.setWidth 64 - gc.lastSweep < gc.sweepIntervalMs := early
    simp only [EpochGc.maybeSweep, if_pos unelapsed, if_pos early]
    cases gc.lru with
    | none => exact ⟨rfl, rfl⟩
    | some lru =>
        dsimp only
        split
        · exact evictLru_timer gc region _ inputs
        · exact ⟨rfl, rfl⟩
  · have elapsed : ¬ now.setWidth 64 - gc.lastSweep < gc.sweepIntervalMs := early
    simp only [EpochGc.maybeSweep, if_neg elapsed, if_neg early]
    cases gc.lru with
    | none => exact ⟨rfl, rfl⟩
    | some lru =>
        dsimp only
        split
        · exact evictLru_timer { gc with lastSweep := now.setWidth 64, lru := some lru } region _ inputs
        · exact ⟨rfl, rfl⟩

private theorem isSweepDue_iff : gc.isSweepDue now = true ↔ ¬ Early gc now := by
  simp only [EpochGc.isSweepDue, Early, decide_eq_true_eq, ge_iff_le, BitVec.not_lt]

private theorem isSome_checkedMaybeSweep (order : Enumeration) (minActiveTs : BitVec 32) :
    (gc.checkedMaybeSweep region order minActiveTs now inputs).isSome ↔
      ¬ now.setWidth 64 < gc.lastSweep := by
  unfold EpochGc.checkedMaybeSweep
  split_ifs with underflows <;> simp [underflows]

private theorem isSome_checkedIsSweepDue :
    (gc.checkedIsSweepDue now).isSome ↔ ¬ now.setWidth 64 < gc.lastSweep := by
  unfold EpochGc.checkedIsSweepDue
  split_ifs with underflows <;> simp [underflows]

end Frame

namespace TimerState

variable {sweepIntervalMs : BitVec 64} {state next : TimerState} {op : TimerOp} {time : ℕ}

/-- The field of the collector is the reading at the last executed sweep. -/
structure Kept (sweepIntervalMs : BitVec 64) (state : TimerState) : Prop where
  interval : state.gc.sweepIntervalMs = sweepIntervalMs
  stamp : state.gc.lastSweep = (nowMs state.lastSweep).setWidth 64
  past : state.lastSweep ≤ state.observed

theorem kept_start (sweepIntervalMs : BitVec 64) (lru : Option LruTracker) (region : LargeObjectRegion)
    (time : ℕ) : Kept sweepIntervalMs (start sweepIntervalMs lru region time) := by
  cases lru with
  | none => exact ⟨rfl, rfl, le_rfl⟩
  | some lru => exact ⟨rfl, rfl, le_rfl⟩

theorem toNat_setWidth_nowMs (time : ℕ) :
    ((nowMs time).setWidth 64).toNat = reading clockPeriod time := by
  have small := (nowMs time).isLt
  rw [BitVec.toNat_setWidth, Nat.mod_eq_of_lt (by omega), toNat_nowMs]

theorem Kept.step (kept : Kept sweepIntervalMs state) (taken : state.step op = some next) :
    Kept sweepIntervalMs next := by
  cases op with
  | maybeSweep time order minActiveTs inputs =>
      simp only [TimerState.step, Option.ite_none_right_eq_some] at taken
      obtain ⟨admits, made⟩ := taken
      cases made
      obtain ⟨stamp, interval⟩ := maybeSweep_timer state.gc state.region order minActiveTs (nowMs time) inputs
      by_cases early : Early state.gc (nowMs time)
      · rw [if_pos early] at stamp
        refine ⟨interval.trans kept.interval, stamp.trans ?_, ?_⟩
        · rw [if_pos early, kept.stamp]
        · rw [if_pos early]
          exact kept.past.trans admits.1
      · rw [if_neg early] at stamp
        refine ⟨interval.trans kept.interval, stamp.trans ?_, ?_⟩
        · rw [if_neg early]
        · rw [if_neg early]
  | isSweepDue time =>
      simp only [TimerState.step, Option.ite_none_right_eq_some] at taken
      obtain ⟨admits, made⟩ := taken
      cases made
      exact ⟨kept.interval, kept.stamp, kept.past.trans admits.1⟩
  | elsewhere pending lru region =>
      cases taken
      exact ⟨kept.interval, kept.stamp, kept.past⟩

/-- The subtraction underflows when the clock shows less than it did at the last executed sweep. -/
theorem Kept.underflows_iff (kept : Kept sweepIntervalMs state) :
    (nowMs time).setWidth 64 < state.gc.lastSweep ↔
      reading clockPeriod time < reading clockPeriod state.lastSweep := by
  rw [kept.stamp, BitVec.lt_def, toNat_setWidth_nowMs, toNat_setWidth_nowMs]

/-- Where it does not, the call is early while the readings are closer than the interval. -/
theorem Kept.early_iff (kept : Kept sweepIntervalMs state)
    (ahead : reading clockPeriod state.lastSweep ≤ reading clockPeriod time) :
    Early state.gc (nowMs time) ↔
      reading clockPeriod time - reading clockPeriod state.lastSweep < sweepIntervalMs.toNat := by
  have ordered : (nowMs state.lastSweep).setWidth 64 ≤ (nowMs time).setWidth 64 := by
    rw [BitVec.le_def, toNat_setWidth_nowMs, toNat_setWidth_nowMs]
    exact ahead
  rw [Early, kept.interval, kept.stamp, BitVec.lt_def, BitVec.toNat_sub_of_le ordered,
    toNat_setWidth_nowMs, toNat_setWidth_nowMs]

/-- Within a period of the last executed sweep the clock shows less exactly if it has wrapped since. -/
theorem reading_le_iff_of_gap (past : state.lastSweep ≤ time) (short : state.gap time < clockPeriod) :
    reading clockPeriod state.lastSweep ≤ reading clockPeriod time ↔
      era clockPeriod time = era clockPeriod state.lastSweep := by
  have split : state.lastSweep + state.gap time = time := Nat.add_sub_of_le past
  by_cases same : era clockPeriod time = era clockPeriod state.lastSweep
  · rw [← split] at same ⊢
    rw [reading_add_of_era_eq same]
    exact iff_of_true (Nat.le_add_right _ _) same
  · have other := same
    rw [← split] at other
    have fallen := reading_add_of_era_ne short other
    rw [split] at fallen
    exact iff_of_false (by omega) same

/-- What a call sees of the timer is right exactly when the clock is not behind. -/
theorem Kept.right_iff (kept : Kept sweepIntervalMs state) (past : state.lastSweep ≤ time) :
    (¬ (nowMs time).setWidth 64 < state.gc.lastSweep ∧
      (state.gap time < clockPeriod →
        (¬ Early state.gc (nowMs time) ↔ sweepIntervalMs.toNat ≤ state.gap time))) ↔
      state.NotBehind time := by
  rw [kept.underflows_iff, Nat.not_lt]
  by_cases short : state.gap time < clockPeriod
  · rw [NotBehind, if_pos short, reading_le_iff_of_gap past short]
    refine and_iff_left_of_imp fun same _ => ?_
    have split : state.lastSweep + state.gap time = time := Nat.add_sub_of_le past
    have advanced : reading clockPeriod time = reading clockPeriod state.lastSweep + state.gap time := by
      rw [← split] at same
      have added := reading_add_of_era_eq same
      rwa [split] at added
    rw [kept.early_iff (by omega), advanced, Nat.add_sub_cancel_left, Nat.not_lt]
  · rw [NotBehind, if_neg short]
    exact and_iff_left_of_imp fun _ close => absurd close short

theorem timerRight_iff (kept : Kept sweepIntervalMs state) (taken : state.step op = some next) :
    TimerRight sweepIntervalMs state op ↔ ClockAhead state op := by
  cases op with
  | maybeSweep time order minActiveTs inputs =>
      simp only [TimerState.step, Option.ite_none_right_eq_some] at taken
      rw [ClockAhead, ← kept.right_iff (kept.past.trans taken.1.1), TimerRight, isSome_checkedMaybeSweep]
  | isSweepDue time =>
      simp only [TimerState.step, Option.ite_none_right_eq_some] at taken
      rw [ClockAhead, ← kept.right_iff (kept.past.trans taken.1.1), TimerRight, isSome_checkedIsSweepDue,
        isSweepDue_iff]
  | elsewhere pending lru region => exact Iff.rfl

end TimerState

/-- Along every run of timer calls, with anything else in between, whose times do not go back and are less
than a period of the clock apart: no call underflows and sweeps are due when the interval has passed,
exactly when at every call the clock has not wrapped since the last executed sweep or, more than a period
later, has caught up with it. -/
theorem sweep_timer_right_iff (sweepIntervalMs : BitVec 64) (lru : Option LruTracker)
    (region : LargeObjectRegion) (time : ℕ) (ops : List TimerOp) (final : TimerState)
    (reached : run TimerState.step (.start sweepIntervalMs lru region time) ops = some final) :
    Throughout TimerState.step (TimerState.TimerRight sweepIntervalMs)
        (.start sweepIntervalMs lru region time) ops ↔
      Throughout TimerState.step TimerState.ClockAhead (.start sweepIntervalMs lru region time) ops :=
  throughout_congr_of_run (fun kept taken => TimerState.timerRight_iff kept taken)
    (fun kept _ taken => kept.step taken) (TimerState.kept_start sweepIntervalMs lru region time) reached

/-- A report and a sweep within the first era. -/
theorem sweep_timer_right_in_first_era :
    ∃ final, run TimerState.step (.start 1000 none (.new 64) 5)
        [.isSweepDue 10, .maybeSweep 1500 increasing 0 evictionInputs] = some final ∧
      final.lastSweep = 1500 ∧
      Throughout TimerState.step (TimerState.TimerRight 1000) (.start 1000 none (.new 64) 5)
        [.isSweepDue 10, .maybeSweep 1500 increasing 0 evictionInputs] := by
  refine ⟨_, rfl, by decide, (sweep_timer_right_iff 1000 none (.new 64) 5 _ _ rfl).mpr ?_⟩
  refine ⟨by decide, fun next taken => ⟨?_, fun _ _ => trivial⟩⟩
  cases taken
  decide

/-- Created one millisecond before the clock wraps: five milliseconds later the subtraction underflows, and
without overflow checks a sweep of every thousand milliseconds is due. -/
theorem sweep_timer_underflows_after_wrap :
    (run TimerState.step (.start 1000 none (.new 64) (2 ^ 32 - 1)) [.isSweepDue (2 ^ 32 + 4)]).isSome ∧
      ¬ Throughout TimerState.step (TimerState.TimerRight 1000) (.start 1000 none (.new 64) (2 ^ 32 - 1))
        [.isSweepDue (2 ^ 32 + 4)] ∧
      (EpochGc.new 1000 (nowMs (2 ^ 32 - 1))).checkedMaybeSweep (.new 64) increasing 0 (nowMs (2 ^ 32 + 4))
        evictionInputs = none ∧
      (EpochGc.new 1000 (nowMs (2 ^ 32 - 1))).checkedIsSweepDue (nowMs (2 ^ 32 + 4)) = none ∧
      (EpochGc.new 1000 (nowMs (2 ^ 32 - 1))).isSweepDue (nowMs (2 ^ 32 + 4)) = true := by
  refine ⟨by decide, fun right => absurd right.1.1 (by decide), ?_, by decide, by decide⟩
  exact if_pos (by decide)

end Rdmas.Soundness
