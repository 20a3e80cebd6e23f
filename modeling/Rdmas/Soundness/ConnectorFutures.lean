import Mathlib.Data.List.Nodup
import Rdmas.Math.Runs
import Rdmas.Model.ConnectorFutures

/-! # Every future is told of once, and when the demux thread sleeps through it

Future ids are drawn from one counter and completions leave their list all at once, so no completion is
handed out twice and none under another's id. Whether the demux thread hears of it is another matter. It
clears the eventfd after it has drained: a completion that is pushed and signalled in between is neither
drained nor signalled any more, and waits for the next one. Clearing first loses nothing.
-/

namespace Rdmas.Soundness

open Rdmas.Model Runs Function

section Steps

variable {ι : Type} [DecidableEq ι] {clearsFirst : Bool} {state next : FuturesState ι}
variable {label : FuturesLabel ι}

variable (clearsFirst state) in
/-- What one step can do. -/
inductive FuturesEffect : FuturesLabel ι → FuturesState ι → Prop where
  | draw (call : ι) (found : state.calls call = .idle) :
      FuturesEffect (.draw call) { state.setCall call (.drawn state.nextId) with nextId := state.nextId + 1 }
  | push (call : ι) (futureId : BitVec 64) (results : List Bool) (found : state.calls call = .drawn futureId) :
      FuturesEffect (.push call results) { state.setCall call (.pushed futureId) with
          completions := state.completions ++ [(futureId, results)] }
  | panic (call : ι) (futureId : BitVec 64) (found : state.calls call = .drawn futureId) :
      FuturesEffect (.panic call) (state.setCall call (.panicked futureId))
  | notify (call : ι) (futureId : BitVec 64) (found : state.calls call = .pushed futureId) :
      FuturesEffect (.notify call)
        { state.setCall call (.returned futureId) with counter := FuturesState.signal state.counter }
  | wake (asleep : state.demux = .waiting) (readable : state.counter ≠ 0) :
      FuturesEffect .wake { state with demux := .woken }
  | drain (turn : state.demux = bif clearsFirst then .between else .woken) : FuturesEffect .drain { state with
          completions := []
          drained := state.drained ++ state.completions
          demux := bif clearsFirst then .waiting else .between }
  | clear (turn : state.demux = bif clearsFirst then .woken else .between) :
      FuturesEffect .clear { state with counter := 0, demux := bif clearsFirst then .between else .waiting }

private theorem futuresEffect_of_step (taken : state.step clearsFirst label = some next) :
    FuturesEffect clearsFirst state label next := by
  cases label with
  | draw call =>
    simp only [FuturesState.step] at taken
    split at taken
    · next found => exact Option.some.inj taken ▸ .draw call found
    · cases taken
  | push call results =>
    simp only [FuturesState.step] at taken
    split at taken
    · next futureId found => exact Option.some.inj taken ▸ .push call futureId results found
    · cases taken
  | panic call =>
    simp only [FuturesState.step] at taken
    split at taken
    · next futureId found => exact Option.some.inj taken ▸ .panic call futureId found
    · cases taken
  | notify call =>
    simp only [FuturesState.step] at taken
    split at taken
    · next futureId found => exact Option.some.inj taken ▸ .notify call futureId found
    · cases taken
  | wake =>
    simp only [FuturesState.step, Option.ite_none_right_eq_some, Option.some.injEq] at taken
    obtain ⟨⟨asleep, readable⟩, rfl⟩ := taken
    exact .wake asleep readable
  | drain =>
    simp only [FuturesState.step, Option.ite_none_right_eq_some, Option.some.injEq] at taken
    obtain ⟨turn, rfl⟩ := taken
    exact .drain turn
  | clear =>
    simp only [FuturesState.step, Option.ite_none_right_eq_some, Option.some.injEq] at taken
    obtain ⟨turn, rfl⟩ := taken
    exact .clear turn

end Steps

section Wakeups

variable {ι : Type} {clearsFirst : Bool} {state next : FuturesState ι} {label : FuturesLabel ι}

/-- Some call has pushed its completion and is about to write to the eventfd. -/
def AboutToNotify (state : FuturesState ι) : Prop := ∃ call futureId, state.calls call = .pushed futureId

/-- The demux thread sleeps on completions of which nothing will tell it. -/
def SleepsOnCompletions (state : FuturesState ι) : Prop :=
  state.demux = .waiting ∧ state.counter = 0 ∧ state.completions ≠ [] ∧ ¬ AboutToNotify state

/-- A thread that has drained clears the eventfd only when no completion waits, or when some call has pushed
and not yet signalled. -/
def ClearsInTime (clearsFirst : Bool) (state : FuturesState ι) (label : FuturesLabel ι) : Prop :=
  clearsFirst = false → label = .clear → state.demux = .between →
    state.completions = [] ∨ AboutToNotify state

/-- Completions that wait have been signalled, or will be, or are about to be drained. -/
def Announced (clearsFirst : Bool) (state : FuturesState ι) : Prop :=
  state.completions = [] ∨ state.counter ≠ 0 ∨ AboutToNotify state ∨
    (clearsFirst = true ∧ state.demux = .between)

theorem Announced.not_sleepsOnCompletions (announced : Announced clearsFirst state) :
    ¬ SleepsOnCompletions state := by
  rintro ⟨asleep, silent, some_, nobody⟩
  rcases announced with none_ | signalled | coming | ⟨_, turn⟩
  · exact some_ none_
  · exact signalled silent
  · exact nobody coming
  · rw [asleep] at turn
    cases turn

private theorem signal_ne_zero (counter : BitVec 64) : FuturesState.signal counter ≠ 0 := by
  intro zero
  rw [FuturesState.signal] at zero
  split at zero
  · next room =>
      have wrapped := congrArg BitVec.toNat zero
      rw [BitVec.toNat_add, Nat.mod_eq_of_lt (by simpa using (by omega))] at wrapped
      simp at wrapped
  · next full =>
      rw [zero] at full
      exact full (by decide)

variable [DecidableEq ι]

private theorem aboutToNotify_setCall {call : ι} {pc : SubmitPc} (coming : AboutToNotify state)
    (idle : ∀ futureId, state.calls call ≠ .pushed futureId) :
    AboutToNotify (state.setCall call pc) := by
  obtain ⟨other, futureId, found⟩ := coming
  have differs : other ≠ call := fun same => idle futureId (same ▸ found)
  exact ⟨other, futureId, by simpa [FuturesState.setCall, differs] using found⟩

/-- A call that has nothing to signal moves on. -/
theorem Announced.setCall {call : ι} {pc : SubmitPc} (announced : Announced clearsFirst state)
    (idle : ∀ futureId, state.calls call ≠ .pushed futureId) :
    Announced clearsFirst (state.setCall call pc) :=
  announced.imp id (Or.imp id (Or.imp (fun coming => aboutToNotify_setCall coming idle) id))

theorem Announced.effect (announced : Announced clearsFirst state)
    (effect : FuturesEffect clearsFirst state label next) (inTime : ClearsInTime clearsFirst state label) :
    Announced clearsFirst next := by
  cases effect with
  | draw call found => exact announced.setCall (by simp [found])
  | push call futureId results found =>
    exact .inr (.inr (.inl ⟨call, futureId, by simp [FuturesState.setCall]⟩))
  | panic call futureId found => exact announced.setCall (by simp [found])
  | notify call futureId found => exact .inr (.inl (signal_ne_zero _))
  | wake asleep readable => exact .inr (.inl readable)
  | drain turn => exact .inl rfl
  | clear turn =>
    cases clearsFirst with
    | true => exact .inr (.inr (.inr ⟨rfl, rfl⟩))
    | false => exact (inTime rfl rfl turn).imp id fun coming => .inr (.inl coming)

/-- No step puts the demux thread to sleep on completions. -/
def StaysInformed (clearsFirst : Bool) (state : FuturesState ι) (label : FuturesLabel ι) : Prop :=
  ∀ next, state.step clearsFirst label = some next → ¬ SleepsOnCompletions next

/-- A late clear is the only step that does. -/
theorem Announced.staysInformed_iff (announced : Announced clearsFirst state) :
    StaysInformed clearsFirst state label ↔ ClearsInTime clearsFirst state label := by
  constructor
  · rintro informed rfl rfl turn
    by_contra late
    obtain ⟨some_, nobody⟩ := not_or.mp late
    exact informed { state with counter := 0, demux := .waiting } (if_pos turn) ⟨rfl, rfl, some_, nobody⟩
  · intro inTime next taken
    exact (announced.effect (futuresEffect_of_step taken) inTime).not_sleepsOnCompletions

/-- Along every run, with the threads in any order: the demux thread never falls asleep on completions it
will not be told of, exactly if at each clear after a drain no completion waits, or some call has pushed and
not yet signalled. A thread that clears before it drains never does. -/
theorem demux_stays_informed_iff (clearsFirst : Bool) (labels : List (FuturesLabel ι)) :
    Throughout (FuturesState.step clearsFirst) (StaysInformed clearsFirst) .initial labels ↔
      Throughout (FuturesState.step clearsFirst) (ClearsInTime clearsFirst) .initial labels :=
  throughout_congr (fun announced => announced.staysInformed_iff)
    (fun announced inTime taken => announced.effect (futuresEffect_of_step taken) inTime)
    (show Announced clearsFirst (.initial : FuturesState ι) from .inl rfl)

/-- The second batch is pushed and signalled between the drain and the clear, which is the documented
order. -/
example : ∃ final, run (FuturesState.step false) (.initial : FuturesState Bool)
    [.draw false, .push false [true], .notify false, .wake, .drain,
      .draw true, .push true [true], .notify true, .clear] = some final ∧
      final.demux = .waiting ∧ final.counter = 0 ∧ final.completions = [(2, [true])] :=
  ⟨_, rfl, rfl, rfl, rfl⟩

end Wakeups

section Delivery

variable {ι : Type} {clearsFirst : Bool} {state next final : FuturesState ι} {label : FuturesLabel ι}

/-- The id a call has drawn. -/
def drawnId : SubmitPc → Option (BitVec 64)
  | .idle => none
  | .drawn futureId | .pushed futureId | .returned futureId | .panicked futureId => some futureId

/-- A call that has pushed its completion. -/
def hasPushed : SubmitPc → Bool
  | .pushed _ | .returned _ => true
  | .idle | .drawn _ | .panicked _ => false

/-- The completion a step pushes. -/
def pushOf : FuturesLabel ι → List (ι × List Bool)
  | .push call results => [(call, results)]
  | .draw _ | .panic _ | .notify _ | .wake | .drain | .clear => []

/-- The ids drawn so far are numbered in the order of the draws. -/
structure Numbered (count : ℕ) (state : FuturesState ι) : Prop where
  next : state.nextId = BitVec.ofNat 64 (1 + count)
  ranked : ∃ rank : ι → ℕ, (∀ call futureId, drawnId (state.calls call) = some futureId →
      rank call < count ∧ futureId = BitVec.ofNat 64 (1 + rank call)) ∧
    ∀ left right, state.calls left ≠ .idle → state.calls right ≠ .idle → rank left = rank right →
      left = right

private theorem drawnId_eq_none {pc : SubmitPc} : drawnId pc = none ↔ pc = .idle := by
  cases pc <;> simp [drawnId]

/-- As long as the counter has not come round, no two calls have one id. -/
theorem Numbered.distinct {count : ℕ} (numbered : Numbered count state) (bound : count ≤ 2 ^ 64)
    {left right : ι} {futureId : BitVec 64} (own : drawnId (state.calls left) = some futureId)
    (same : drawnId (state.calls right) = some futureId) : left = right := by
  obtain ⟨rank, ranked, injective⟩ := numbered.ranked
  obtain ⟨below, is⟩ := ranked left futureId own
  obtain ⟨belowToo, isToo⟩ := ranked right futureId same
  refine injective left right (fun idle => ?_) (fun idle => ?_) ?_
  · rw [idle] at own
    cases own
  · rw [idle] at same
    cases same
  · have equal := congrArg BitVec.toNat (is.symm.trans isToo)
    simp only [BitVec.toNat_ofNat] at equal
    omega

/-- What was drained and what waits are the completions that were pushed, each under the id of its call. -/
structure Delivered (pushed : List (ι × List Bool)) (state : FuturesState ι) : Prop where
  matched : (state.drained ++ state.completions).map (fun entry => (some entry.1, entry.2)) =
    pushed.map fun push => (drawnId (state.calls push.1), push.2)
  pushed_iff : ∀ call, call ∈ pushed.map Prod.fst ↔ hasPushed (state.calls call) = true
  once : (pushed.map Prod.fst).Nodup

private theorem numbered_initial : Numbered 0 (.initial : FuturesState ι) where
  next := rfl
  ranked := ⟨fun _ => 0, (fun _ _ own => by cases own), fun _ _ active => absurd rfl active⟩

private theorem delivered_initial : Delivered [] (.initial : FuturesState ι) where
  matched := rfl
  pushed_iff _ := by simp [FuturesState.initial, hasPushed]
  once := List.nodup_nil

theorem Delivered.nodup {pushed : List (ι × List Bool)} {count : ℕ} (delivered : Delivered pushed state)
    (numbered : Numbered count state) (bound : count ≤ 2 ^ 64) :
    ((state.drained ++ state.completions).map Prod.fst).Nodup := by
  have ids := congrArg (List.map Prod.fst) delivered.matched
  simp only [List.map_map, Function.comp_def] at ids
  have distinct : (pushed.map fun push => drawnId (state.calls push.1)).Nodup := by
    have mapped : ((pushed.map Prod.fst).map fun call => drawnId (state.calls call)).Nodup := by
      refine delivered.once.map_on fun left pushes right _ same => ?_
      cases own : drawnId (state.calls left) with
      | none =>
        have active := (delivered.pushed_iff left).mp pushes
        rw [drawnId_eq_none.mp own] at active
        cases active
      | some futureId => exact numbered.distinct bound own (same.symm.trans own)
    rwa [List.map_map] at mapped
  rw [← ids] at distinct
  exact List.Nodup.of_map some (by rwa [List.map_map])

/-- A step that draws no id. -/
theorem Numbered.keep {count : ℕ} (numbered : Numbered count state) (nextId : next.nextId = state.nextId)
    (ids : ∀ call, drawnId (next.calls call) = drawnId (state.calls call)) : Numbered count next := by
  obtain ⟨rank, ranked, injective⟩ := numbered.ranked
  have active : ∀ call, next.calls call ≠ .idle → state.calls call ≠ .idle := by
    intro call active idle
    refine active (drawnId_eq_none.mp ?_)
    rw [ids, idle]
    rfl
  refine ⟨nextId.trans numbered.next, rank, fun call futureId own => ranked call futureId (ids call ▸ own),
    fun left right activeLeft activeRight => injective left right (active left activeLeft)
      (active right activeRight)⟩

/-- A step that pushes nothing. -/
theorem Delivered.keep {pushed : List (ι × List Bool)} (delivered : Delivered pushed state)
    (log : next.drained ++ next.completions = state.drained ++ state.completions)
    (ids : ∀ call, hasPushed (state.calls call) = true →
      drawnId (next.calls call) = drawnId (state.calls call))
    (same : ∀ call, hasPushed (next.calls call) = hasPushed (state.calls call)) : Delivered pushed next := by
  refine ⟨?_, fun call => (delivered.pushed_iff call).trans (by rw [same]), delivered.once⟩
  rw [log, delivered.matched]
  refine List.map_congr_left fun push member => ?_
  rw [ids push.1 ((delivered.pushed_iff push.1).mp (List.mem_map_of_mem member))]

variable [DecidableEq ι]

/-- A call that moves on keeps its id. -/
theorem drawnId_setCall {call : ι} {pc : SubmitPc} (same : drawnId pc = drawnId (state.calls call)) (other : ι) :
    drawnId ((state.setCall call pc).calls other) = drawnId (state.calls other) := by
  simp only [FuturesState.setCall, update_apply]
  split
  · next is => rw [is, same]
  · rfl

theorem Numbered.draw {count : ℕ} (numbered : Numbered count state) {call : ι}
    (found : state.calls call = .idle) :
    Numbered (count + 1) { state.setCall call (.drawn state.nextId) with nextId := state.nextId + 1 } := by
  obtain ⟨rank, ranked, injective⟩ := numbered.ranked
  have old : ∀ other, other ≠ call →
      (state.setCall call (.drawn state.nextId)).calls other = state.calls other :=
    fun other differs => update_of_ne differs ..
  have own : (state.setCall call (.drawn state.nextId)).calls call = .drawn state.nextId :=
    update_self ..
  have below : ∀ other, state.calls other ≠ .idle → rank other < count := by
    intro other active
    obtain ⟨futureId, drawn⟩ := Option.ne_none_iff_exists'.mp fun none_ => active (drawnId_eq_none.mp none_)
    exact (ranked other futureId drawn).1
  refine ⟨?_, update rank call count, fun other futureId drawn => ?_,
    fun left right activeLeft activeRight same => ?_⟩
  · change state.nextId + 1 = _
    rw [numbered.next]
    apply BitVec.eq_of_toNat_eq
    simp [BitVec.toNat_add, Nat.add_assoc]
  · by_cases is : other = call
    · subst is
      obtain rfl : state.nextId = futureId := by
        change drawnId ((state.setCall other _).calls other) = _ at drawn
        rw [own] at drawn
        exact Option.some.inj drawn
      simpa using numbered.next
    · change drawnId ((state.setCall call _).calls other) = _ at drawn
      rw [old other is] at drawn
      rw [update_of_ne is]
      obtain ⟨small, number⟩ := ranked other futureId drawn
      exact ⟨by omega, number⟩
  · change (state.setCall call _).calls left ≠ _ at activeLeft
    change (state.setCall call _).calls right ≠ _ at activeRight
    simp only [update_apply] at same
    split at same <;> split at same
    · next isLeft isRight => rw [isLeft, isRight]
    · next isLeft isRight =>
        have small := below right (old right isRight ▸ activeRight)
        omega
    · next isLeft isRight =>
        have small := below left (old left isLeft ▸ activeLeft)
        omega
    · next isLeft isRight =>
        exact injective left right (old left isLeft ▸ activeLeft) (old right isRight ▸ activeRight) same

theorem hasPushed_setCall {call : ι} {pc : SubmitPc} (same : hasPushed pc = hasPushed (state.calls call))
    (other : ι) : hasPushed ((state.setCall call pc).calls other) = hasPushed (state.calls other) := by
  simp only [FuturesState.setCall, update_apply]
  split
  · next is => rw [is, same]
  · rfl

theorem Delivered.push {pushed : List (ι × List Bool)} (delivered : Delivered pushed state) {call : ι}
    {futureId : BitVec 64} (results : List Bool) (found : state.calls call = .drawn futureId) :
    Delivered (pushed ++ [(call, results)]) { state.setCall call (.pushed futureId) with
      completions := state.completions ++ [(futureId, results)] } := by
  have fresh : call ∉ pushed.map Prod.fst := by
    rw [delivered.pushed_iff, found]
    exact Bool.false_ne_true
  have ids := @drawnId_setCall _ state _ call (.pushed futureId) (by rw [found]; rfl)
  refine ⟨?_, fun other => ?_, ?_⟩
  · dsimp only
    simp only [ids]
    rw [← List.append_assoc, List.map_append]
    refine (congrArg (· ++ _) delivered.matched).trans ?_
    simp [found, drawnId]
  · rw [List.map_append, List.mem_append, delivered.pushed_iff]
    by_cases is : other = call
    · simp [is, FuturesState.setCall, hasPushed]
    · simp [is, FuturesState.setCall]
  · rw [List.map_append, List.nodup_append']
    exact ⟨delivered.once, List.nodup_singleton _, by simpa using fresh⟩

/-- What a step adds to the numbers and to the completions. -/
theorem Delivered.step {count : ℕ} {pushed : List (ι × List Bool)} (numbered : Numbered count state)
    (delivered : Delivered pushed state) (taken : state.step clearsFirst label = some next) :
    (∃ more ≤ 1, Numbered (count + more) next) ∧ Delivered (pushed ++ pushOf label) next := by
  have idle : ∀ {next : FuturesState ι}, Numbered count next → ∃ more ≤ 1, Numbered (count + more) next :=
    fun kept => ⟨0, Nat.zero_le 1, kept⟩
  cases futuresEffect_of_step taken with
  | draw call found =>
    refine ⟨⟨1, Nat.le_refl 1, numbered.draw found⟩, ?_⟩
    rw [pushOf, List.append_nil]
    refine delivered.keep rfl (fun other active => ?_) (hasPushed_setCall (by rw [found]; rfl))
    have differs : other ≠ call := by
      rintro rfl
      rw [found] at active
      cases active
    change drawnId ((state.setCall call _).calls other) = _
    simp [FuturesState.setCall, differs]
  | push call futureId results found =>
    exact ⟨idle (numbered.keep rfl (drawnId_setCall (by rw [found]; rfl))), delivered.push results found⟩
  | panic call futureId found =>
    have ids := @drawnId_setCall _ state _ call (.panicked futureId) (by rw [found]; rfl)
    rw [pushOf, List.append_nil]
    exact ⟨idle (numbered.keep rfl ids),
      delivered.keep rfl (fun other _ => ids other) (hasPushed_setCall (by rw [found]; rfl))⟩
  | notify call futureId found =>
    have ids := @drawnId_setCall _ state _ call (.returned futureId) (by rw [found]; rfl)
    rw [pushOf, List.append_nil]
    exact ⟨idle (numbered.keep rfl ids),
      delivered.keep rfl (fun other _ => ids other) (hasPushed_setCall (by rw [found]; rfl))⟩
  | wake | clear =>
    rw [pushOf, List.append_nil]
    exact ⟨idle (numbered.keep rfl fun _ => rfl), delivered.keep rfl (fun _ _ => rfl) fun _ => rfl⟩
  | drain turn =>
    rw [pushOf, List.append_nil]
    exact ⟨idle (numbered.keep rfl fun _ => rfl),
      delivered.keep (List.append_nil _) (fun _ _ => rfl) fun _ => rfl⟩

/-- Over a run that draws at most one id a step. -/
theorem Delivered.run {count : ℕ} {pushed : List (ι × List Bool)} {labels : List (FuturesLabel ι)}
    (numbered : Numbered count state) (delivered : Delivered pushed state)
    (reached : run (FuturesState.step clearsFirst) state labels = some final) :
    (∃ total ≤ count + labels.length, Numbered total final) ∧
      Delivered (pushed ++ labels.flatMap pushOf) final := by
  induction labels generalizing state count pushed with
  | nil =>
    cases reached
    exact ⟨⟨count, Nat.le_refl count, numbered⟩, by simpa using delivered⟩
  | cons label rest ih =>
    obtain ⟨middle, taken, onward⟩ := run_cons_eq_some.mp reached
    obtain ⟨⟨more, small, counted⟩, told⟩ := Delivered.step numbered delivered taken
    obtain ⟨⟨total, bound, last⟩, all⟩ := ih counted told onward
    refine ⟨⟨total, ?_, last⟩, ?_⟩
    · rw [List.length_cons]
      omega
    · rwa [List.flatMap_cons, ← List.append_assoc]

/-- In every order of the submitting threads and the demux thread, as long as the counter has not come
round: what was drained, followed by what waits to be, is the list of the completions in the order of their
pushes, each under the id its own call has drawn and no id twice. -/
theorem completions_are_told_once (clearsFirst : Bool) {labels : List (FuturesLabel ι)}
    (short : labels.length ≤ 2 ^ 64)
    (reached : run (FuturesState.step clearsFirst) .initial labels = some final) :
    (final.drained ++ final.completions).map (fun entry => (some entry.1, entry.2)) =
        (labels.flatMap pushOf).map (fun push => (drawnId (final.calls push.1), push.2)) ∧
      ((final.drained ++ final.completions).map Prod.fst).Nodup ∧
      ∀ call, hasPushed (final.calls call) = true ↔ call ∈ (labels.flatMap pushOf).map Prod.fst := by
  obtain ⟨⟨total, bound, numbered⟩, delivered⟩ := Delivered.run numbered_initial delivered_initial reached
  rw [List.nil_append] at delivered
  exact ⟨delivered.matched, delivered.nodup numbered (by omega), fun call => (delivered.pushed_iff call).symm⟩

/-- Two batches on two threads; the second one pushes first. -/
def crossedBatches : List (FuturesLabel Bool) :=
  [.draw false, .draw true, .push true [true, false], .notify true, .wake, .drain, .push false [true],
    .clear, .notify false]

theorem crossed_batches_are_told_once : ∃ final,
    run (FuturesState.step false) .initial crossedBatches = some final ∧
      final.drained ++ final.completions = [(2, [true, false]), (1, [true])] ∧
      ((final.drained ++ final.completions).map (fun entry => (some entry.1, entry.2)) =
          (crossedBatches.flatMap pushOf).map (fun push => (drawnId (final.calls push.1), push.2)) ∧
        ((final.drained ++ final.completions).map Prod.fst).Nodup ∧
        ∀ call, hasPushed (final.calls call) = true ↔
          call ∈ (crossedBatches.flatMap pushOf).map Prod.fst) := by
  have ends : (run (FuturesState.step false) .initial crossedBatches).map (fun final =>
      final.drained ++ final.completions) = some [(2, [true, false]), (1, [true])] := by decide +kernel
  obtain ⟨final, reached, told⟩ := Option.map_eq_some_iff.mp ends
  exact ⟨final, reached, told, completions_are_told_once false (by decide) reached⟩

end Delivery

end Rdmas.Soundness
