import Mathlib.Data.List.Basic

/-! # Runs of a labelled partial machine

A machine is a partial step function; a label that is not enabled has no successor. A run follows a
list of labels. `Throughout` says that a condition on the state before a step and its label holds at
every step of a run, `Reaches` that some run leads from one state to another, `ReachesBy` that one does
which meets a condition throughout. Invariants are established once from what a step preserves.
-/

namespace Runs

variable {σ ℓ : Type*} (step : σ → ℓ → Option σ)

/-- The state after following the labels, if all of them are enabled at their turn. -/
def run (state : σ) : List ℓ → Option σ
  | [] => some state
  | label :: rest => (step state label).bind fun next => run next rest

/-- Every step of the run meets the condition at the state it starts from. -/
def Throughout (condition : σ → ℓ → Prop) (state : σ) : List ℓ → Prop
  | [] => True
  | label :: rest =>
      condition state label ∧ ∀ next, step state label = some next →
        Throughout condition next rest

/-- Some run leads from a state to another. -/
def Reaches (state final : σ) : Prop := ∃ labels, run step state labels = some final

variable {step} {state next final : σ} {label : ℓ} {labels rest front back : List ℓ}
variable {condition other : σ → ℓ → Prop}

theorem run_cons_eq_some :
    run step state (label :: rest) = some final ↔
      ∃ next, step state label = some next ∧ run step next rest = some final :=
  Option.bind_eq_some_iff

/-- A run over a concatenation stops at the seam. -/
theorem run_append_eq_some :
    run step state (front ++ back) = some final ↔
      ∃ middle, run step state front = some middle ∧ run step middle back = some final := by
  induction front generalizing state with
  | nil => simp [run]
  | cons label rest ih =>
    simp only [List.cons_append, run_cons_eq_some, ih]
    constructor
    · rintro ⟨next, first, middle, second, third⟩
      exact ⟨middle, ⟨next, first, second⟩, third⟩
    · rintro ⟨middle, ⟨next, first, second⟩, third⟩
      exact ⟨next, first, middle, second, third⟩

theorem Throughout.left (holds : Throughout step condition state (front ++ back)) :
    Throughout step condition state front := by
  induction front generalizing state with
  | nil => trivial
  | cons label rest ih => exact ⟨holds.1, fun next taken => ih (holds.2 next taken)⟩

theorem Throughout.right (holds : Throughout step condition state (front ++ back))
    (reached : run step state front = some next) : Throughout step condition next back := by
  induction front generalizing state with
  | nil => exact Option.some.inj reached ▸ holds
  | cons label rest ih =>
    obtain ⟨middle, taken, onward⟩ := run_cons_eq_some.mp reached
    exact ih (holds.2 middle taken) onward

/-- An invariant of the steps that meet a condition, which may look back at the labels that were followed,
holds at the end of a run that meets it. -/
theorem Throughout.invariant_past {invariant : List ℓ → σ → Prop}
    (keep : ∀ {past state label next}, invariant past state → condition state label →
      step state label = some next → invariant (past ++ [label]) next)
    {past : List ℓ} (initial : invariant past state) (holds : Throughout step condition state labels)
    (reached : run step state labels = some final) : invariant (past ++ labels) final := by
  induction labels generalizing past state with
  | nil => rwa [List.append_nil, ← Option.some.inj reached]
  | cons label rest ih =>
    obtain ⟨next, taken, onward⟩ := run_cons_eq_some.mp reached
    rw [List.append_cons]
    exact ih (keep initial holds.1 taken) (holds.2 next taken) onward

/-- Most invariants look at the state only. -/
theorem Throughout.invariant {invariant : σ → Prop}
    (keep : ∀ {state label next}, invariant state → condition state label →
      step state label = some next → invariant next)
    (initial : invariant state) (holds : Throughout step condition state labels)
    (reached : run step state labels = some final) : invariant final :=
  @Throughout.invariant_past _ _ _ _ _ _ _ (fun _ => invariant) keep [] initial holds reached

/-- A condition that an invariant gives at every step, and that comes with the invariant of the next
state, holds throughout. -/
theorem throughout_of_invariant {invariant : σ → Prop} (advance : ∀ {state label}, invariant state →
      condition state label ∧ ∀ next, step state label = some next → invariant next)
    (initial : invariant state) : Throughout step condition state labels := by
  induction labels generalizing state with
  | nil => trivial
  | cons label rest ih =>
    have now : condition state label ∧ _ := advance initial
    exact ⟨now.1, fun next taken => ih (now.2 next taken)⟩

/-- A condition on the labels alone can be checked label by label. -/
theorem throughout_of_forall {allowed : ℓ → Prop} (all : ∀ label ∈ labels, allowed label) (state : σ) :
    Throughout step (fun _ label => allowed label) state labels := by
  induction labels generalizing state with
  | nil => trivial
  | cons label rest ih =>
    exact ⟨all label List.mem_cons_self,
      fun next _ => ih (fun later member => all later (List.mem_cons_of_mem _ member)) next⟩

/-- An invariant of every step holds at the end of every run. -/
theorem run_invariant {invariant : σ → Prop}
    (keep : ∀ {state label next}, invariant state → step state label = some next → invariant next)
    (initial : invariant state) (reached : run step state labels = some final) : invariant final := by
  induction labels generalizing state with
  | nil => exact Option.some.inj reached ▸ initial
  | cons label rest ih =>
    obtain ⟨next, taken, onward⟩ := run_cons_eq_some.mp reached
    exact ih (keep initial taken) onward

/-- A machine with one label has one run: two states at which it has stopped are the same. -/
theorem eq_of_stopped [Subsingleton ℓ] {other : σ} (left : run step state front = some final)
    (right : run step state back = some other) (stopped : ∀ label, step final label = none)
    (otherStopped : ∀ label, step other label = none) : final = other := by
  induction front generalizing state back with
  | nil =>
    cases left
    cases back with
    | nil => exact Option.some.inj right
    | cons label rest =>
      obtain ⟨next, taken, _⟩ := run_cons_eq_some.mp right
      rw [stopped] at taken
      cases taken
  | cons label rest ih =>
    obtain ⟨next, taken, onward⟩ := run_cons_eq_some.mp left
    cases back with
    | nil =>
      cases right
      rw [otherStopped] at taken
      cases taken
    | cons otherLabel otherRest =>
      obtain ⟨otherNext, otherTaken, otherOnward⟩ := run_cons_eq_some.mp right
      rw [Subsingleton.elim otherLabel label, taken] at otherTaken
      cases otherTaken
      exact ih onward otherOnward

theorem Reaches.refl (state : σ) : Reaches step state state := ⟨[], rfl⟩

theorem Reaches.head (taken : step state label = some next) (onward : Reaches step next final) :
    Reaches step state final := by
  obtain ⟨labels, reached⟩ := onward
  exact ⟨label :: labels, run_cons_eq_some.mpr ⟨next, taken, reached⟩⟩

theorem Reaches.trans (first : Reaches step state next) (onward : Reaches step next final) :
    Reaches step state final := by
  obtain ⟨front, toNext⟩ := first
  obtain ⟨back, toFinal⟩ := onward
  exact ⟨front ++ back, run_append_eq_some.mpr ⟨next, toNext, toFinal⟩⟩

/-- Some run that meets a condition at every step leads from a state to another. -/
def ReachesBy (step : σ → ℓ → Option σ) (condition : σ → ℓ → Prop) (state final : σ) : Prop :=
  ∃ labels, Throughout step condition state labels ∧ run step state labels = some final

theorem ReachesBy.refl (condition : σ → ℓ → Prop) (state : σ) : ReachesBy step condition state state :=
  ⟨[], trivial, rfl⟩

theorem ReachesBy.head (taken : step state label = some next) (allowed : condition state label)
    (onward : ReachesBy step condition next final) : ReachesBy step condition state final := by
  obtain ⟨labels, throughout, reached⟩ := onward
  refine ⟨label :: labels, ⟨allowed, fun other takenToo => ?_⟩, run_cons_eq_some.mpr ⟨next, taken, reached⟩⟩
  rwa [← Option.some.inj (taken.symm.trans takenToo)]

theorem ReachesBy.trans (first : ReachesBy step condition state next)
    (onward : ReachesBy step condition next final) : ReachesBy step condition state final := by
  obtain ⟨labels, throughout, reached⟩ := first
  induction labels generalizing state with
  | nil =>
    rw [Option.some.inj reached]
    exact onward
  | cons label rest ih =>
    obtain ⟨middle, taken, later⟩ := run_cons_eq_some.mp reached
    exact .head taken throughout.1 (ih (throughout.2 middle taken) later)

/-- A condition that follows from another one and an invariant holds wherever that one does. -/
theorem Throughout.derive {invariant : σ → Prop}
    (keep : ∀ {state label next}, invariant state → condition state label →
      step state label = some next → invariant next)
    (gives : ∀ {state label}, invariant state → condition state label → other state label)
    (initial : invariant state) (holds : Throughout step condition state labels) :
    Throughout step other state labels := by
  induction labels generalizing state with
  | nil => trivial
  | cons label rest ih =>
    exact ⟨gives initial holds.1,
      fun next taken => ih (keep initial holds.1 taken) (holds.2 next taken)⟩

/-- Two conditions that agree wherever an invariant holds select the same runs. -/
theorem throughout_congr {invariant : σ → Prop}
    (same : ∀ {state label}, invariant state → (condition state label ↔ other state label))
    (keep : ∀ {state label next}, invariant state → other state label →
      step state label = some next → invariant next) (initial : invariant state) :
    Throughout step condition state labels ↔ Throughout step other state labels :=
  ⟨.derive (fun holds first => keep holds ((same holds).mp first)) (fun holds => (same holds).mp) initial,
    .derive keep (fun holds => (same holds).mpr) initial⟩

/-- The same along a run that is there: the conditions need to agree only where the step can be taken. -/
theorem throughout_congr_of_run {invariant : σ → Prop}
    (same : ∀ {state label next}, invariant state → step state label = some next →
      (condition state label ↔ other state label))
    (keep : ∀ {state label next}, invariant state → other state label →
      step state label = some next → invariant next)
    (initial : invariant state) (reached : run step state labels = some final) :
    Throughout step condition state labels ↔ Throughout step other state labels := by
  induction labels generalizing state with
  | nil => exact Iff.rfl
  | cons label rest ih =>
    obtain ⟨next, taken, onward⟩ := run_cons_eq_some.mp reached
    have unique : ∀ {middle}, step state label = some middle → next = middle :=
      fun takenToo => Option.some.inj (taken.symm.trans takenToo)
    constructor
    · rintro ⟨now, later⟩
      have now' := (same initial taken).mp now
      refine ⟨now', fun middle takenToo => ?_⟩
      obtain rfl := unique takenToo
      exact (ih (keep initial now' taken) onward).mp (later next taken)
    · rintro ⟨now, later⟩
      refine ⟨(same initial taken).mpr now, fun middle takenToo => ?_⟩
      obtain rfl := unique takenToo
      exact (ih (keep initial now taken) onward).mpr (later next taken)

theorem Throughout.and (holds : Throughout step condition state labels)
    (holdsToo : Throughout step other state labels) :
    Throughout step (fun state label => condition state label ∧ other state label) state labels := by
  induction labels generalizing state with
  | nil => trivial
  | cons label rest ih =>
    exact ⟨⟨holds.1, holdsToo.1⟩, fun next taken => ih (holds.2 next taken) (holdsToo.2 next taken)⟩

/-- Along a run that meets a condition, two others that agree wherever an invariant holds hold together. -/
theorem Throughout.congr {third : σ → ℓ → Prop} {invariant : σ → Prop}
    (keep : ∀ {state label next}, invariant state → condition state label →
      step state label = some next → invariant next)
    (same : ∀ {state label}, invariant state → condition state label →
      (other state label ↔ third state label))
    (initial : invariant state) (holds : Throughout step condition state labels) :
    Throughout step other state labels ↔ Throughout step third state labels := by
  induction labels generalizing state with
  | nil => exact Iff.rfl
  | cons label rest ih =>
    refine and_congr (same initial holds.1) (forall_congr' fun next => imp_congr_right fun taken => ?_)
    exact ih (keep initial holds.1 taken) (holds.2 next taken)

/-- A property that a step keeps exactly if it meets a condition holds at the end of a run exactly if it
held at its start and the condition was met throughout. -/
theorem throughout_iff_of_step {invariant property : σ → Prop}
    (keep : ∀ {state label next}, invariant state → step state label = some next → invariant next)
    (advance : ∀ {state label next}, invariant state → step state label = some next →
      (property next ↔ property state ∧ condition state label))
    (initial : invariant state) (reached : run step state labels = some final) :
    property final ↔ property state ∧ Throughout step condition state labels := by
  induction labels generalizing state with
  | nil =>
    cases reached
    exact (and_iff_left trivial).symm
  | cons label rest ih =>
    obtain ⟨next, taken, onward⟩ := run_cons_eq_some.mp reached
    rw [ih (keep initial taken) onward, advance initial taken, and_assoc]
    refine and_congr_right fun _ => and_congr_right fun _ => ⟨fun later other same => ?_, fun later => ?_⟩
    · rw [taken] at same
      exact Option.some.inj same ▸ later
    · exact later next taken

/-- A decidable condition can be checked along a run. -/
instance decidableThroughout [∀ state label, Decidable (condition state label)] :
    (state : σ) → (labels : List ℓ) → Decidable (Throughout step condition state labels)
  | _, [] => isTrue trivial
  | state, label :: rest =>
      match taken : step state label with
      | none =>
          decidable_of_iff (condition state label) ⟨fun first => ⟨first, by simp [taken]⟩, And.left⟩
      | some next =>
          have := decidableThroughout next rest
          decidable_of_iff (condition state label ∧ Throughout step condition next rest)
            ⟨fun both => ⟨both.1, by simpa [taken] using both.2⟩,
              fun holds => ⟨holds.1, holds.2 next taken⟩⟩

end Runs
