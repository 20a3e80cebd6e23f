import Rdmas.Math.Runs

/-! # Calls that take effect at one step

The steps of a concurrent machine belong to calls. If one step of each call can be named at which it takes
effect on a sequential object, and the other steps leave the object alone, then the machine does what the
object does when the calls are made one after another, in the order of those steps. A call takes effect by a
step of its own, so the order never contradicts the order in which calls return and start.
-/

namespace Linearization

open Runs

variable {σ ι α ρ : Type*}

/-- The calls that take effect along a run, in the order in which they do. -/
def decided (step : σ → ι → Option σ) (decides : σ → ι → Bool) (state : σ) : List ι → List ι
  | [] => []
  | call :: rest =>
      let later := match step state call with
        | some next => decided step decides next rest
        | none => []
      if decides state call then call :: later else later

/-- The object after a sequence of calls. -/
def outcome (apply : α → ι → α × ρ) (object : α) : List ι → α
  | [] => object
  | call :: rest => outcome apply (apply object call).1 rest

/-- What the calls of a sequence return. -/
def responses (apply : α → ι → α × ρ) (object : α) : List ι → List (ι × ρ)
  | [] => []
  | call :: rest => (call, (apply object call).2) :: responses apply (apply object call).1 rest

variable {step : σ → ι → Option σ} {decides : σ → ι → Bool} {apply : α → ι → α × ρ}
variable {state next final : σ} {call : ι} {labels rest : List ι}

theorem decided_cons_quiet (taken : step state call = some next) (quiet : decides state call = false) :
    decided step decides state (call :: rest) = decided step decides next rest := by
  simp [decided, taken, quiet]

theorem decided_cons (taken : step state call = some next) (decisive : decides state call = true) :
    decided step decides state (call :: rest) = call :: decided step decides next rest := by
  simp [decided, taken, decisive]

/-- A relation between the machine, the object and the responses so far that is kept by the steps that do
not decide, and advanced by a call on the object where one does, holds at the end of a run. -/
theorem run_simulates {relation : σ → α → List (ι × ρ) → Prop}
    (quiet : ∀ {state call next object history}, relation state object history →
      step state call = some next → decides state call = false → relation next object history)
    (decisive : ∀ {state call next object history}, relation state object history →
      step state call = some next → decides state call = true →
      relation next (apply object call).1 (history ++ [(call, (apply object call).2)]))
    {object : α} {history : List (ι × ρ)} (initial : relation state object history)
    (reached : run step state labels = some final) :
    relation final (outcome apply object (decided step decides state labels))
      (history ++ responses apply object (decided step decides state labels)) := by
  induction labels generalizing state object history with
  | nil =>
    cases reached
    simpa [decided, outcome, responses] using initial
  | cons call rest ih =>
    obtain ⟨next, taken, onward⟩ := run_cons_eq_some.mp reached
    cases decision : decides state call with
    | false =>
      rw [decided_cons_quiet taken decision]
      exact ih (quiet initial taken decision) onward
    | true =>
      rw [decided_cons taken decision]
      simpa [outcome, responses] using ih (decisive initial taken decision) onward

end Linearization
