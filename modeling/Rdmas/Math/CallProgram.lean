import Mathlib.Data.Option.Basic

/-! # Programs that make calls

A program makes calls one after the other, each with what the ones before have told it, and ends with a
result. A call that fails ends the program with its error. `eval` is the reading in which every call is
answered by a function; `run` takes the answers from what arrives for one call after the other, and
`after` is where the program stands once it has used some of them up.
-/

/-- A sequential program of calls `κ`, answered by `α` or failing with `ε`, with results `ρ`. -/
inductive CallProgram (κ α ε ρ : Type) where
  | done (result : Except ε ρ)
  | call (request : κ) (next : α → CallProgram κ α ε ρ)

namespace CallProgram

variable {κ α ε ρ τ : Type}

def eval (answer : κ → Except ε α) : CallProgram κ α ε ρ → Except ε ρ
  | .done result => result
  | .call request next => answer request >>= fun reply => (next reply).eval answer

/-- Where a program stands once its calls have been answered so. -/
def resume : CallProgram κ α ε ρ → List α → CallProgram κ α ε ρ
  | .call _ next, reply :: rest => (next reply).resume rest
  | program, _ => program

theorem resume_nil (program : CallProgram κ α ε ρ) : program.resume [] = program := by
  cases program <;> rfl

theorem resume_append (program : CallProgram κ α ε ρ) (earlier later : List α) :
    program.resume (earlier ++ later) = (program.resume earlier).resume later := by
  induction earlier generalizing program with
  | nil => rw [List.nil_append, resume_nil]
  | cons reply rest ih =>
    cases program with
    | done result => cases later <;> rfl
    | call request next => exact ih (next reply)

section Arrivals

variable (answer : κ → τ → Except ε α)

/-- There is no result while the program waits for an answer. -/
def run : CallProgram κ α ε ρ → List τ → Option (Except ε ρ)
  | .done result, _ => some result
  | .call _ _, [] => none
  | .call request next, arrived :: rest =>
      match answer request arrived with
      | .error error => some (.error error)
      | .ok reply => (next reply).run rest

/-- There is nothing left of a program that a failed call has ended. -/
def after : CallProgram κ α ε ρ → List τ → Option (CallProgram κ α ε ρ)
  | program, [] => some program
  | .done _, _ :: _ => none
  | .call request next, arrived :: rest =>
      match answer request arrived with
      | .error _ => none
      | .ok reply => (next reply).after rest

variable {answer} {program later : CallProgram κ α ε ρ} {earlier rest : List τ}

theorem run_of_after (reached : program.after answer earlier = some later) :
    program.run answer (earlier ++ rest) = later.run answer rest := by
  induction earlier generalizing program with
  | nil =>
    rw [after] at reached
    rw [List.nil_append, Option.some.inj reached]
  | cons arrived more ih =>
    cases program with
    | done result => cases reached
    | call request next =>
      rw [after] at reached
      rw [List.cons_append, run]
      cases told : answer request arrived with
      | error error =>
        rw [told] at reached
        cases reached
      | ok reply =>
        rw [told] at reached
        exact ih reached

/-- A call that fails ends the program, wherever the program makes it. -/
theorem run_of_call_fails {request : κ} {next : α → CallProgram κ α ε ρ} {arrived : τ} {error : ε}
    (reached : program.after answer earlier = some (.call request next))
    (fails : answer request arrived = .error error) :
    program.run answer (earlier ++ arrived :: rest) = some (.error error) := by
  rw [run_of_after reached, run, fails]

end Arrivals

end CallProgram
