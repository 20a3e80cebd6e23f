import Mathlib.Algebra.Order.Group.Nat
import Rdmas.Math.Runs

/-! # Sums along a run

A weight gives each step of a run a number. Two weights are compared by a potential: if no step costs more
than it gains and takes out of the potential, the costs of a whole run are covered by what it gained and the
potential it began with.
-/

namespace Runs

variable {σ ℓ : Type*} {step : σ → ℓ → Option σ}
variable {state next final : σ} {label : ℓ} {labels rest : List ℓ}

/-- The sum of a weight over the steps of a run, up to a label that is not enabled. -/
def tally (step : σ → ℓ → Option σ) (weight : σ → ℓ → ℕ) (state : σ) : List ℓ → ℕ
  | [] => 0
  | label :: rest => weight state label + (step state label).elim 0 fun next => tally step weight next rest

theorem tally_cons {weight : σ → ℓ → ℕ} (taken : step state label = some next) :
    tally step weight state (label :: rest) = weight state label + tally step weight next rest := by
  rw [tally, taken, Option.elim_some]

theorem tally_add_le {cost gain : σ → ℓ → ℕ} (potential : σ → ℕ)
    (advance : ∀ {state label next}, step state label = some next →
      potential next + cost state label ≤ potential state + gain state label)
    (reached : run step state labels = some final) :
    potential final + tally step cost state labels ≤ potential state + tally step gain state labels := by
  induction labels generalizing state with
  | nil => exact Option.some.inj reached ▸ le_rfl
  | cons label rest ih =>
    obtain ⟨next, taken, onward⟩ := run_cons_eq_some.mp reached
    have first : potential next + cost state label ≤ potential state + gain state label := advance taken
    have later := ih onward
    rw [tally_cons taken, tally_cons taken]
    omega

end Runs
