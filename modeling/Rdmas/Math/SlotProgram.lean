import Mathlib.Data.List.GetD

/-! # Programs that see an array slot by slot

A program reads and writes single slots of an array and ends with a result. The indices it names are thereby
explicit. `exec` is the reading in which a slot beyond the array is vacant and cannot be written, `accesses`
are the indices it comes by, and `checked` is the run that stops at the first one beyond the array. A program
that stays `Within` a bound whatever the slots hold never names an index beyond it; what is known of its
result carries the argument over to the program that follows.
-/

/-- A sequential program over slots `σ` with results `α`. -/
inductive SlotProgram (σ α : Type) where
  | done (result : α)
  | read (index : ℕ) (next : σ → SlotProgram σ α)
  | write (index : ℕ) (slot : σ) (next : SlotProgram σ α)

namespace SlotProgram

variable {σ α β : Type}

/-- Go on with the result. -/
def andThen : SlotProgram σ α → (α → SlotProgram σ β) → SlotProgram σ β
  | .done result, next => next result
  | .read index rest, next => .read index fun slot => (rest slot).andThen next
  | .write index slot rest, next => .write index slot (rest.andThen next)

/-- The first of the indices whose slot passes a test, with that slot. -/
def firstThat (test : σ → Bool) : List ℕ → SlotProgram σ (Option (ℕ × σ))
  | [] => .done none
  | index :: rest => .read index fun slot =>
      if test slot then .done (some (index, slot)) else firstThat test rest

def exec (vacant : σ) : List σ → SlotProgram σ α → List σ × α
  | slots, .done result => (slots, result)
  | slots, .read index next => exec vacant slots (next (slots.getD index vacant))
  | slots, .write index slot next => exec vacant (slots.set index slot) next

def accesses (vacant : σ) : List σ → SlotProgram σ α → List ℕ
  | _, .done _ => []
  | slots, .read index next => index :: accesses vacant slots (next (slots.getD index vacant))
  | slots, .write index slot next => index :: accesses vacant (slots.set index slot) next

/-- Stop at an index beyond the array. -/
def checked : List σ → SlotProgram σ α → Option (List σ × α)
  | slots, .done result => some (slots, result)
  | slots, .read index next => slots[index]?.bind fun slot => checked slots (next slot)
  | slots, .write index slot next =>
      if index < slots.length then checked (slots.set index slot) next else none

/-- Whatever the slots hold, the program names indices below the bound only and its result is as stated. -/
def Within (bound : ℕ) (post : α → Prop) : SlotProgram σ α → Prop
  | .done result => post result
  | .read index next => index < bound ∧ ∀ slot, Within bound post (next slot)
  | .write index _ next => index < bound ∧ Within bound post next

variable {vacant : σ} {slots : List σ} {program : SlotProgram σ α} {bound : ℕ}

theorem exec_andThen (next : α → SlotProgram σ β) :
    exec vacant slots (program.andThen next) =
      exec vacant (exec vacant slots program).1 (next (exec vacant slots program).2) := by
  induction program generalizing slots with
  | done result => rfl
  | read index rest ih => exact ih _
  | write index slot rest ih => exact ih

theorem exec_firstThat (test : σ → Bool) (indices : List ℕ) :
    exec vacant slots (firstThat test indices) =
      (slots, (indices.find? fun index => test (slots.getD index vacant)).map
        fun index => (index, slots.getD index vacant)) := by
  induction indices with
  | nil => rfl
  | cons index rest ih =>
    rw [firstThat, exec, List.find?_cons]
    cases test (slots.getD index vacant) with
    | true => rfl
    | false => exact ih

theorem accesses_andThen (next : α → SlotProgram σ β) :
    accesses vacant slots (program.andThen next) =
      accesses vacant slots program ++
        accesses vacant (exec vacant slots program).1 (next (exec vacant slots program).2) := by
  induction program generalizing slots with
  | done result => rfl
  | read index rest ih => exact congrArg (index :: ·) (ih _)
  | write index slot rest ih => exact congrArg (index :: ·) ih

theorem Within.andThen {next : α → SlotProgram σ β} {middle : α → Prop} {post : β → Prop}
    (first : Within bound middle program)
    (onward : ∀ result, middle result → Within bound post (next result)) :
    Within bound post (program.andThen next) := by
  induction program with
  | done result => exact onward result first
  | read index rest ih => exact ⟨first.1, fun slot => ih slot (first.2 slot)⟩
  | write index slot rest ih => exact ⟨first.1, ih first.2⟩

theorem within_firstThat (test : σ → Bool) {indices : List ℕ} (inside : ∀ index ∈ indices, index < bound) :
    Within bound (fun found => ∀ item ∈ found, item.1 < bound) (firstThat test indices) := by
  induction indices with
  | nil => exact fun item member => absurd member (Option.not_mem_none item)
  | cons index rest ih =>
    obtain ⟨first, later⟩ := List.forall_mem_cons.mp inside
    refine ⟨first, fun slot => ?_⟩
    dsimp only
    split
    · intro item member
      rw [← Option.some.inj member]
      exact first
    · exact ih later

theorem Within.accesses_lt {post : α → Prop} (within : Within bound post program) :
    ∀ index ∈ accesses vacant slots program, index < bound := by
  induction program generalizing slots with
  | done result => exact fun index member => absurd member List.not_mem_nil
  | read index rest ih => exact List.forall_mem_cons.mpr ⟨within.1, ih _ (within.2 _)⟩
  | write index slot rest ih => exact List.forall_mem_cons.mpr ⟨within.1, ih within.2⟩

/-- The checked run goes through exactly if it comes by no index beyond the array, and is then the plain
one. -/
theorem checked_eq_some_iff {final : List σ × α} :
    checked slots program = some final ↔
      (∀ index ∈ accesses vacant slots program, index < slots.length) ∧
        exec vacant slots program = final := by
  induction program generalizing slots with
  | done result => simp [checked, accesses, exec]
  | read index rest ih =>
    rw [checked, accesses, exec, List.forall_mem_cons, and_assoc]
    by_cases inside : index < slots.length
    · rw [List.getElem?_eq_getElem inside, Option.bind_some, ih, List.getD_eq_getElem _ _ inside]
      exact (and_iff_right inside).symm
    · rw [List.getElem?_eq_none (Nat.not_lt.mp inside), Option.bind_none]
      exact iff_of_false (by simp) fun all => inside all.1
  | write index slot rest ih =>
    rw [checked, accesses, exec, List.forall_mem_cons, and_assoc]
    by_cases inside : index < slots.length
    · rw [if_pos inside, ih, List.length_set]
      exact (and_iff_right inside).symm
    · rw [if_neg inside]
      exact iff_of_false (by simp) fun all => inside all.1

/-- A program that stays within the array is not stopped. -/
theorem Within.checked_eq {post : α → Prop} (vacant : σ) (within : Within slots.length post program) :
    checked slots program = some (exec vacant slots program) :=
  checked_eq_some_iff.mpr ⟨within.accesses_lt, rfl⟩

end SlotProgram
