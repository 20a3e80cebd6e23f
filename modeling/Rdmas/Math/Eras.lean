import Mathlib.Data.Nat.ModEq

/-! # Clocks that wrap

A clock of a given period shows the remainder of the time; the quotient, the era, is lost. Readings
of one era are ordered and spaced as their times are. Across the end of an era the later reading is
the smaller one, as long as the times are less than a period apart.
-/

namespace Eras

variable {period time later elapsed : ℕ}

/-- What the clock shows. -/
def reading (period time : ℕ) : ℕ := time % period

/-- How often the clock has wrapped. -/
def era (period time : ℕ) : ℕ := time / period

theorem reading_lt (positive : 0 < period) (time : ℕ) : reading period time < period :=
  Nat.mod_lt time positive

theorem era_mul_add_reading (period time : ℕ) :
    period * era period time + reading period time = time :=
  Nat.div_add_mod time period

/-- Within an era the clock advances with the time. -/
theorem reading_add_of_era_eq (same : era period (time + elapsed) = era period time) :
    reading period (time + elapsed) = reading period time + elapsed := by
  have before := era_mul_add_reading period time
  have after := era_mul_add_reading period (time + elapsed)
  rw [same] at after
  omega

/-- Across the end of an era it falls back by a period. -/
theorem reading_add_of_era_ne (short : elapsed < period)
    (other : era period (time + elapsed) ≠ era period time) :
    reading period (time + elapsed) + period = reading period time + elapsed := by
  have positive : 0 < period := by omega
  have remainder : elapsed % period = elapsed := Nat.mod_eq_of_lt short
  have wraps : period ≤ time % period + elapsed % period := by
    by_contra stays
    apply other
    rw [era, Nat.add_div positive, if_neg stays, Nat.div_eq_of_lt short]
    rfl
  have fallen : (time + elapsed) % period = time % period + elapsed % period - period := by
    rw [Nat.add_mod_eq_ite, if_pos wraps]
  rw [reading, reading, fallen, remainder]
  omega

/-- Of two times less than a period apart, the clock shows less at the one that comes first in its era, or
that comes after the end of the other's era. -/
theorem reading_lt_reading_iff {other : ℕ} (close : time < other + period)
    (closeToo : other < time + period) :
    reading period time < reading period other ↔
      (era period time = era period other ∧ time < other) ∨ era period other < era period time := by
  have positive : 0 < period := by omega
  have first := era_mul_add_reading period time
  have second := era_mul_add_reading period other
  have small := reading_lt positive time
  have smallToo := reading_lt positive other
  rcases Nat.lt_trichotomy (era period time) (era period other) with before | same | after
  · have grown : period * (era period time + 1) ≤ period * era period other :=
      Nat.mul_le_mul_left period before
    rw [Nat.mul_succ] at grown
    omega
  · rw [same] at first
    omega
  · have grown : period * (era period other + 1) ≤ period * era period time :=
      Nat.mul_le_mul_left period after
    rw [Nat.mul_succ] at grown
    omega

end Eras
