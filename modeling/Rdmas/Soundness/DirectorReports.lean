import Rdmas.Model.Director
import Rdmas.Soundness.ConnectorCompletions

/-! # What the Director is told

The keys of a batch wait under its future id until its completion is drained, and are then reported, each
batch once. They are put there before the batch is processed and nothing is taken away when some of its
keys fail, so the Director is told what happened exactly as long as every key of every drained batch
succeeded.
-/

namespace Rdmas.Soundness

open Rdmas.Model LittleEndian Runs DirectedConnector

namespace DirectorCall

/-- The keys passed to `report_store`. -/
def stores : DirectorCall → List Bytes
  | .reportStore keys => keys
  | .reportRemove _ => []

/-- The keys passed to `report_remove`. -/
def removes : DirectorCall → List Bytes
  | .reportStore _ => []
  | .reportRemove keys => keys

end DirectorCall

/-- The results of a completion, one a key. -/
def resultsOf (comp : Completion) : List Bool := comp.perKeyBools.getD []

/-- The keys whose result is true. -/
def trueKeys (keys : List Bytes) (results : List Bool) : List Bytes :=
  ((keys.zip results).filter Prod.snd).map Prod.fst

/-- Every key has a result, and it is true. -/
def AllTrue (keys : List Bytes) (results : List Bool) : Prop :=
  keys.length ≤ results.length ∧ ∀ ok ∈ results.take keys.length, ok = true

instance (keys : List Bytes) (results : List Bool) : Decidable (AllTrue keys results) :=
  inferInstanceAs (Decidable (_ ∧ _))

/-- A connector with its Director, the set and delete batches submitted to it with the calls that would
report all their keys, the calls made, and the completions drained. -/
structure Reporting where
  directed : DirectedConnector
  batches : List (ℕ × DirectorCall)
  calls : List (ℕ × DirectorCall)
  drained : List Completion

inductive ReportingOp where
  | batch (op : ConnectorOp)
  | drain

namespace Reporting

/-- A fresh connector with a Director. -/
def create (director : DirectorIntegration) (bucketCount maxKick regionSize watermark : ℕ)
    (powerOfTwo : bucketCount.isPowerOfTwo) : Reporting :=
  ⟨⟨.create bucketCount maxKick regionSize watermark powerOfTwo, some director, fun _ => none,
    fun _ => none⟩, [], [], []⟩

section Steps

variable (xxh64 : Xxh64)

def submit (directed : DirectedConnector) : ConnectorOp → DirectedConnector
  | .batchSet keys mvs clock iterate => (directed.submitBatchSet xxh64 keys mvs clock iterate).1
  | .batchGet keys => (directed.submitBatchGet xxh64 keys).1
  | .batchExists keys => (directed.submitBatchExists xxh64 keys).1
  | .batchDelete keys => (directed.submitBatchDelete xxh64 keys).1

/-- The call that reports all keys of a batch. -/
def batchCall : ConnectorOp → Option DirectorCall
  | .batchSet keys _ _ _ => some (.reportStore keys)
  | .batchDelete keys => some (.reportRemove keys)
  | _ => none

def step (state : Reporting) : ReportingOp → Option Reporting
  | .batch op => some { state with
      directed := submit xxh64 state.directed op
      batches := state.batches ++
        (batchCall op).toList.map fun call => (state.directed.connector.nextId, call) }
  | .drain =>
      let (directed, calls, comps) := state.directed.drainCompletions
      some { state with
        directed
        calls := state.calls ++ calls
        drained := state.drained ++ comps }

end Steps

end Reporting

/-- The keys that the calls made for a batch have passed. -/
def passed (part : DirectorCall → List Bytes) (calls : List (ℕ × DirectorCall)) (futureId : ℕ) :
    List Bytes :=
  (calls.filter fun call => call.1 = futureId).flatMap fun call => part call.2

/-- The Director has been told what happened: a call belongs to a batch that was submitted and drained,
there is at most one for each, and it has passed the keys of the batch whose result is true. -/
structure ToldWhatHappened (state : Reporting) : Prop where
  once : ∀ futureId, state.calls.countP (fun call => call.1 = futureId) ≤ 1
  own : ∀ call ∈ state.calls, ∃ batch ∈ state.batches, batch.1 = call.1 ∧
    ∃ comp ∈ state.drained, comp.futureId = call.1
  stored : ∀ batch ∈ state.batches, ∀ comp ∈ state.drained, comp.futureId = batch.1 →
    passed DirectorCall.stores state.calls batch.1 =
      trueKeys (DirectorCall.stores batch.2) (resultsOf comp)
  removed : ∀ batch ∈ state.batches, ∀ comp ∈ state.drained, comp.futureId = batch.1 →
    passed DirectorCall.removes state.calls batch.1 =
      trueKeys (DirectorCall.removes batch.2) (resultsOf comp)

/-- Before a drain: every key of every batch that is about to be reported has succeeded. -/
def EveryKeySucceeded (state : Reporting) : ReportingOp → Prop
  | .drain => ∀ comp ∈ state.directed.connector.completions,
      ∀ keys ∈ (state.directed.pendingReports comp.futureId).toList ++
        (state.directed.pendingRemoves comp.futureId).toList, AllTrue keys (resultsOf comp)
  | .batch _ => True

instance (state : Reporting) : (op : ReportingOp) → Decidable (EveryKeySucceeded state op)
  | .drain => inferInstanceAs (Decidable (∀ comp ∈ _, ∀ keys ∈ _, _))
  | .batch _ => inferInstanceAs (Decidable True)

section Keys

private theorem trueKeys_nil (results : List Bool) : trueKeys [] results = [] := rfl

/-- All keys are left exactly if all results are true. -/
theorem trueKeys_eq_iff {keys : List Bytes} {results : List Bool} :
    trueKeys keys results = keys ↔ AllTrue keys results := by
  induction keys generalizing results with
  | nil => simp [trueKeys, AllTrue]
  | cons key keys ih =>
    cases results with
    | nil => simp [trueKeys, AllTrue]
    | cons ok results =>
      have shorter : (trueKeys keys results).length ≤ keys.length := by
        rw [trueKeys, List.length_map]
        refine (List.length_filter_le _ _).trans ?_
        rw [List.length_zip]
        exact Nat.min_le_left _ _
      have onward : AllTrue (key :: keys) (ok :: results) ↔ ok = true ∧ AllTrue keys results := by
        simp [AllTrue, and_left_comm]
      rw [onward, ← ih]
      cases ok with
      | true => simp [trueKeys]
      | false =>
        have skipped : trueKeys (key :: keys) (false :: results) = trueKeys keys results := rfl
        rw [skipped]
        constructor
        · intro same
          have longer := congrArg List.length same
          rw [List.length_cons] at longer
          omega
        · rintro ⟨impossible, _⟩
          cases impossible

end Keys

section Waiting

variable {directed : DirectedConnector} {comp : Completion}

/-- The keys of a call wait under the future id of their batch. -/
def Waiting (directed : DirectedConnector) (futureId : ℕ) : DirectorCall → Prop
  | .reportStore keys => directed.pendingReports futureId = some keys
  | .reportRemove keys => directed.pendingRemoves futureId = some keys

/-- At most one call waits under a future id. -/
def OneWaits (directed : DirectedConnector) : Prop :=
  ∀ {futureId left right}, Waiting directed futureId left → Waiting directed futureId right → left = right

/-- A completion ends the waiting of its own keys and leaves the others alone. -/
theorem waiting_reportCompletion (ok : comp.ok = true) {futureId : ℕ} {call : DirectorCall} :
    Waiting (directed.reportCompletion comp).1 futureId call ↔
      Waiting directed futureId call ∧ futureId ≠ comp.futureId := by
  rw [reportCompletion, if_pos ok]
  cases call with
  | reportStore keys | reportRemove keys =>
    by_cases same : futureId = comp.futureId
    · simp [Waiting, same]
    · simp [Waiting, same]

/-- A completion makes the call that waits for it. -/
theorem mem_reportCompletion (ok : comp.ok = true) {futureId : ℕ} {call : DirectorCall} :
    (futureId, call) ∈ (directed.reportCompletion comp).2 ↔
      futureId = comp.futureId ∧ Waiting directed futureId call := by
  rw [reportCompletion, if_pos ok]
  cases call with
  | reportStore keys | reportRemove keys =>
    simp only [List.map_append, List.map_map, List.mem_append, List.mem_map, Option.mem_toList,
      Function.comp_apply, Prod.mk.injEq, reduceCtorEq, and_false, exists_false, or_false, false_or,
      DirectorCall.reportStore.injEq, DirectorCall.reportRemove.injEq, Waiting]
    constructor
    · rintro ⟨found, waits, rfl, rfl⟩
      exact ⟨rfl, waits⟩
    · rintro ⟨rfl, waits⟩
      exact ⟨keys, waits, rfl, rfl⟩

private theorem reportCompletion_sublist (ok : comp.ok = true) (exclusive : OneWaits directed) :
    ((directed.reportCompletion comp).2.map Prod.fst).Sublist [comp.futureId] := by
  rw [reportCompletion, if_pos ok]
  cases stores : directed.pendingReports comp.futureId with
  | none =>
    cases removes : directed.pendingRemoves comp.futureId with
    | none => exact List.nil_sublist _
    | some keys => exact List.Sublist.refl _
  | some stored =>
    cases removes : directed.pendingRemoves comp.futureId with
    | none => exact List.Sublist.refl _
    | some removed =>
      have same : DirectorCall.reportStore stored = .reportRemove removed :=
        @exclusive comp.futureId _ _ stores removes
      cases same

/-- The reporting loop makes the calls that wait for its completions, each once, and leaves the others
waiting. -/
theorem reportCompletions_spec {comps : List Completion} (ok : ∀ comp ∈ comps, comp.ok = true)
    (once : (comps.map Completion.futureId).Nodup) (exclusive : OneWaits directed) :
    (directed.reportCompletions comps).1.connector = directed.connector ∧
      (directed.reportCompletions comps).1.director = directed.director ∧
      (∀ {futureId call}, Waiting (directed.reportCompletions comps).1 futureId call ↔
        Waiting directed futureId call ∧ futureId ∉ comps.map Completion.futureId) ∧
      (∀ {futureId call}, (futureId, call) ∈ (directed.reportCompletions comps).2 ↔
        Waiting directed futureId call ∧ futureId ∈ comps.map Completion.futureId) ∧
      ((directed.reportCompletions comps).2.map Prod.fst).Sublist (comps.map Completion.futureId) := by
  induction comps generalizing directed with
  | nil => simp [reportCompletions]
  | cons comp comps ih =>
    obtain ⟨first, rest⟩ := List.forall_mem_cons.mp ok
    rw [List.map_cons, List.nodup_cons] at once
    have waits := @waiting_reportCompletion directed comp first
    have still : OneWaits (directed.reportCompletion comp).1 := by
      intro futureId left right leftWaits rightWaits
      exact exclusive (waits.mp leftWaits).1 (waits.mp rightWaits).1
    obtain ⟨connector, director, waiting, calls, order⟩ := ih rest once.2 still
    have frame : (directed.reportCompletion comp).1.connector = directed.connector ∧
        (directed.reportCompletion comp).1.director = directed.director := by
      rw [reportCompletion, if_pos first]
      exact ⟨rfl, rfl⟩
    simp only [reportCompletions, List.map_cons, List.map_append]
    refine ⟨connector.trans frame.1, director.trans frame.2, ?_, ?_, ?_⟩
    · intro futureId call
      rw [waiting, waits, List.mem_cons, not_or, and_assoc]
    · intro futureId call
      rw [List.mem_append, mem_reportCompletion first, calls, waits, List.mem_cons]
      constructor
      · rintro (⟨same, waits⟩ | ⟨⟨waits, _⟩, later⟩)
        · exact ⟨waits, .inl same⟩
        · exact ⟨waits, .inr later⟩
      · rintro ⟨waits, same | later⟩
        · exact .inl ⟨same, waits⟩
        · exact .inr ⟨⟨waits, fun same => once.1 (same ▸ later)⟩, later⟩
    · exact (reportCompletion_sublist first exclusive).append order

end Waiting

section Books

variable {xxh64 : Xxh64} {state next : Reporting}

/-- How the maps, the completions and the calls of a run belong together. -/
structure Bookkept (state : Reporting) : Prop where
  configured : state.directed.director.isSome = true
  submitted : ∀ batch ∈ state.batches, batch.1 < state.directed.connector.nextId
  distinct : (state.batches.map Prod.fst).Nodup
  answered : ∀ comp ∈ state.drained ++ state.directed.connector.completions,
    comp.futureId < state.directed.connector.nextId
  once : ((state.drained ++ state.directed.connector.completions).map Completion.futureId).Nodup
  successful : ∀ comp ∈ state.directed.connector.completions, comp.ok = true
  waiting : ∀ {futureId call}, Waiting state.directed futureId call ↔
    (futureId, call) ∈ state.batches ∧ futureId ∉ state.drained.map Completion.futureId
  called : ∀ {futureId call}, (futureId, call) ∈ state.calls ↔
    (futureId, call) ∈ state.batches ∧ futureId ∈ state.drained.map Completion.futureId
  order : (state.calls.map Prod.fst).Sublist (state.drained.map Completion.futureId)

/-- A batch is known by its future id. -/
theorem Bookkept.batch_unique (books : Bookkept state) {futureId : ℕ} {left right : DirectorCall}
    (leftIn : (futureId, left) ∈ state.batches) (rightIn : (futureId, right) ∈ state.batches) :
    left = right :=
  congrArg Prod.snd (List.inj_on_of_nodup_map books.distinct leftIn rightIn rfl)

theorem Bookkept.oneWaits (books : Bookkept state) : OneWaits state.directed := by
  intro futureId left right leftWaits rightWaits
  exact books.batch_unique (books.waiting.mp leftWaits).1 (books.waiting.mp rightWaits).1

/-- The future id that the next batch draws is not in use. -/
theorem Bookkept.fresh (books : Bookkept state) :
    state.directed.connector.nextId ∉ state.batches.map Prod.fst ∧
      state.directed.connector.nextId ∉ state.drained.map Completion.futureId := by
  constructor
  · intro used
    obtain ⟨batch, member, same⟩ := List.mem_map.mp used
    exact absurd (books.submitted batch member) (by omega)
  · intro used
    obtain ⟨comp, member, same⟩ := List.mem_map.mp used
    exact absurd (books.answered comp (List.mem_append_left _ member)) (by omega)

/-- A batch is processed by the connector, and its call waits under the id that it draws. -/
theorem submit_spec (directed : DirectedConnector) (configured : directed.director.isSome = true)
    (op : ConnectorOp) (fresh : ∀ call, ¬ Waiting directed directed.connector.nextId call) :
    (Reporting.submit xxh64 directed op).director = directed.director ∧
      (∃ returned results, Answers directed.connector (Reporting.submit xxh64 directed op).connector
        returned results) ∧
      ∀ {futureId call}, Waiting (Reporting.submit xxh64 directed op) futureId call ↔
        Waiting directed futureId call ∨
          (futureId = directed.connector.nextId ∧ Reporting.batchCall op = some call) := by
  have update : ∀ {pending : PendingKeys} {keys found : List Bytes} {futureId : ℕ},
      pending directed.connector.nextId = none →
      (Function.update pending directed.connector.nextId (some keys) futureId = some found ↔
        pending futureId = some found ∨ (futureId = directed.connector.nextId ∧ keys = found)) := by
    intro pending keys found futureId absent
    by_cases same : futureId = directed.connector.nextId
    · simp [same, absent]
    · simp [same]
  have noReport : directed.pendingReports directed.connector.nextId = none :=
    Option.eq_none_iff_forall_ne_some.mpr fun keys => fresh (.reportStore keys)
  have noRemove : directed.pendingRemoves directed.connector.nextId = none :=
    Option.eq_none_iff_forall_ne_some.mpr fun keys => fresh (.reportRemove keys)
  cases op with
  | batchSet keys mvs clock iterate =>
    obtain ⟨results, answers, _⟩ :=
      @submitBatchSet_answers xxh64 directed.connector keys mvs clock iterate
    refine ⟨rfl, ⟨_, results, answers⟩, fun {futureId call} => ?_⟩
    cases call with
    | reportStore found =>
      simp [Reporting.submit, submitBatchSet, Waiting, configured, update noReport,
        Reporting.batchCall]
    | reportRemove found =>
      simp [Reporting.submit, submitBatchSet, Waiting, Reporting.batchCall]
  | batchDelete keys =>
    obtain ⟨results, answers⟩ := @submitBatchDelete_answers xxh64 directed.connector keys
    refine ⟨rfl, ⟨_, results, answers⟩, fun {futureId call} => ?_⟩
    cases call with
    | reportStore found =>
      simp [Reporting.submit, submitBatchDelete, Waiting, Reporting.batchCall]
    | reportRemove found =>
      simp [Reporting.submit, submitBatchDelete, Waiting, configured, update noRemove,
        Reporting.batchCall]
  | batchGet keys | batchExists keys =>
    obtain ⟨results, answers⟩ := @submitBatchExists_answers xxh64 directed.connector keys
    refine ⟨rfl, ⟨_, results, answers⟩, fun {futureId call} => ?_⟩
    cases call with
    | reportStore found | reportRemove found =>
      simp [Reporting.submit, submitBatchGet, submitBatchExists, Waiting,
        Reporting.batchCall]

/-- A number above all others joins them without being among them. -/
theorem nodup_append_fresh {ids new : List ℕ} {drawn : ℕ} (distinct : ids.Nodup)
    (below : ∀ id ∈ ids, id < drawn) (one : new = [] ∨ new = [drawn]) : (ids ++ new).Nodup := by
  rcases one with rfl | rfl
  · rwa [List.append_nil]
  · refine List.nodup_append.mpr ⟨distinct, List.nodup_singleton _, ?_⟩
    rintro id member _ last rfl
    exact Nat.lt_irrefl _ (List.mem_singleton.mp last ▸ below id member)

/-- A batch keeps the books. -/
theorem Bookkept.batch (books : Bookkept state) (op : ConnectorOp)
    (taken : state.step xxh64 (.batch op) = some next) : Bookkept next := by
  cases taken
  have unused : ∀ call, ¬ Waiting state.directed state.directed.connector.nextId call := fun call waits =>
    books.fresh.1 (List.mem_map_of_mem (books.waiting.mp waits).1)
  obtain ⟨director, ⟨_, results, drawn, _, pushed⟩, waiting⟩ :=
    @submit_spec xxh64 state.directed books.configured op unused
  have undrained := books.fresh.2
  have added : ∀ {futureId call}, (futureId, call) ∈
      (Reporting.batchCall op).toList.map (fun call => (state.directed.connector.nextId, call)) ↔
        futureId = state.directed.connector.nextId ∧ Reporting.batchCall op = some call := by
    intro futureId call
    simp [eq_comm, and_comm]
  have own : ∀ comp ∈ results.toList.map fun list =>
      (⟨state.directed.connector.nextId, true, "", some list⟩ : Completion),
      comp.futureId = state.directed.connector.nextId ∧ comp.ok = true := by
    intro comp member
    obtain ⟨list, _, rfl⟩ := List.mem_map.mp member
    exact ⟨rfl, rfl⟩
  refine ⟨director ▸ books.configured, ?_, ?_, ?_, ?_, ?_, ?_, ?_, books.order⟩
  · rintro ⟨futureId, call⟩ member
    rw [drawn]
    rcases List.mem_append.mp member with old | new
    · exact Nat.lt_succ_of_lt (books.submitted _ old)
    · exact Nat.lt_succ_of_le (added.mp new).1.le
  · rw [List.map_append]
    refine nodup_append_fresh books.distinct (List.forall_mem_map.mpr books.submitted) ?_
    cases Reporting.batchCall op with
    | none => exact .inl rfl
    | some call => exact .inr rfl
  · intro comp member
    rw [pushed, ← List.append_assoc] at member
    rw [drawn]
    rcases List.mem_append.mp member with old | new
    · exact Nat.lt_succ_of_lt (books.answered comp old)
    · exact Nat.lt_succ_of_le (own comp new).1.le
  · rw [pushed, ← List.append_assoc, List.map_append]
    refine nodup_append_fresh books.once (List.forall_mem_map.mpr books.answered) ?_
    cases results with
    | none => exact .inl rfl
    | some list => exact .inr rfl
  · intro comp member
    rw [pushed] at member
    rcases List.mem_append.mp member with old | new
    · exact books.successful comp old
    · exact (own comp new).2
  · intro futureId call
    rw [waiting, books.waiting, List.mem_append, added, or_and_right]
    refine or_congr_right ⟨fun new => ⟨new, new.1 ▸ undrained⟩, And.left⟩
  · intro futureId call
    rw [books.called, List.mem_append, added, or_and_right]
    refine (or_iff_left ?_).symm
    rintro ⟨⟨rfl, _⟩, drained⟩
    exact undrained drained

/-- A drain keeps the books. -/
theorem Bookkept.drain (books : Bookkept state) (taken : state.step xxh64 .drain = some next) :
    Bookkept next := by
  have emptied : OneWaits { state.directed with
      connector := { state.directed.connector with completions := [] } } := books.oneWaits
  have once := books.once
  rw [List.map_append] at once
  obtain ⟨connector, director, waiting, calls, order⟩ :=
    reportCompletions_spec books.successful (List.nodup_append.mp once).2.1 emptied
  simp only [Reporting.step, drainCompletions, books.configured, if_true,
    Option.some.injEq] at taken
  subst taken
  generalize reportCompletions _ _ = reported at connector director waiting calls order ⊢
  refine ⟨director ▸ books.configured, ?_, books.distinct, ?_, ?_, ?_, ?_, ?_, ?_⟩
  · rw [connector]
    exact books.submitted
  · rw [connector, List.append_nil]
    exact books.answered
  · rw [connector, List.append_nil]
    exact books.once
  · rw [connector]
    exact fun comp member => absurd member List.not_mem_nil
  · intro futureId call
    have before := @Bookkept.waiting _ books futureId call
    rw [waiting, List.map_append, List.mem_append, not_or, ← and_assoc]
    exact and_congr_left fun _ => before
  · intro futureId call
    have before := @Bookkept.waiting _ books futureId call
    rw [List.mem_append, books.called, calls, List.map_append, List.mem_append]
    constructor
    · rintro (⟨submitted, drained⟩ | ⟨waits, drained⟩)
      · exact ⟨submitted, .inl drained⟩
      · exact ⟨(before.mp waits).1, .inr drained⟩
    · rintro ⟨submitted, drained⟩
      by_cases earlier : futureId ∈ state.drained.map Completion.futureId
      · exact .inl ⟨submitted, earlier⟩
      · exact .inr ⟨before.mpr ⟨submitted, earlier⟩, drained.resolve_left earlier⟩
  · rw [List.map_append, List.map_append]
    exact books.order.append order

theorem Bookkept.step {op : ReportingOp} (books : Bookkept state)
    (taken : state.step xxh64 op = some next) : Bookkept next := by
  cases op with
  | batch op => exact books.batch op taken
  | drain => exact books.drain taken

private theorem bookkept_create (director : DirectorIntegration) {bucketCount : ℕ}
    (maxKick regionSize watermark : ℕ) (powerOfTwo : bucketCount.isPowerOfTwo) :
    Bookkept (.create director bucketCount maxKick regionSize watermark powerOfTwo) := by
  refine ⟨rfl, ?_, List.nodup_nil, ?_, List.nodup_nil, ?_, ?_, ?_, List.Sublist.refl _⟩
  · exact fun _ member => absurd member List.not_mem_nil
  · exact fun _ member => absurd member List.not_mem_nil
  · exact fun _ member => absurd member List.not_mem_nil
  · rintro futureId (keys | keys) <;> simp [Waiting, Reporting.create]
  · simp [Reporting.create]

end Books

section Outcome

variable {xxh64 : Xxh64} {state next : Reporting}

/-- The keys of a call. -/
def DirectorCall.keys : DirectorCall → List Bytes
  | .reportStore keys | .reportRemove keys => keys

/-- Every key of every drained batch has succeeded. -/
def Succeeded (state : Reporting) : Prop :=
  ∀ batch ∈ state.batches, ∀ comp ∈ state.drained, comp.futureId = batch.1 →
    AllTrue (DirectorCall.keys batch.2) (resultsOf comp)

private theorem waiting_iff {directed : DirectedConnector} {futureId : ℕ} {keys : List Bytes} :
    keys ∈ (directed.pendingReports futureId).toList ++ (directed.pendingRemoves futureId).toList ↔
      ∃ call, Waiting directed futureId call ∧ DirectorCall.keys call = keys := by
  rw [List.mem_append, Option.mem_toList, Option.mem_toList]
  constructor
  · rintro (stores | removes)
    · exact ⟨.reportStore keys, stores, rfl⟩
    · exact ⟨.reportRemove keys, removes, rfl⟩
  · rintro ⟨call, waits, rfl⟩
    cases call with
    | reportStore keys => exact .inl waits
    | reportRemove keys => exact .inr waits

/-- The call of a drained batch is the only one made for it. -/
theorem Bookkept.passed_eq (books : Bookkept state) {batch : ℕ × DirectorCall} {comp : Completion}
    (submitted : batch ∈ state.batches) (drained : comp ∈ state.drained) (same : comp.futureId = batch.1)
    (part : DirectorCall → List Bytes) : passed part state.calls batch.1 = part batch.2 := by
  obtain ⟨futureId, call⟩ := batch
  have made : (futureId, call) ∈ state.calls :=
    books.called.mpr ⟨submitted, List.mem_map.mpr ⟨comp, drained, same⟩⟩
  have once := books.once
  rw [List.map_append] at once
  have distinct : (state.calls.map Prod.fst).Nodup := books.order.nodup (List.nodup_append.mp once).1
  have alone : state.calls.filter (fun other => other.1 = futureId) = [(futureId, call)] := by
    refine List.perm_singleton.mp ((List.perm_ext_iff_of_nodup ?_ (List.nodup_singleton _)).mpr ?_)
    · exact distinct.of_map.filter _
    · intro other
      rw [List.mem_filter, decide_eq_true_iff, List.mem_singleton]
      constructor
      · rintro ⟨member, own⟩
        exact List.inj_on_of_nodup_map distinct member made own
      · rintro rfl
        exact ⟨made, rfl⟩
  rw [passed, alone, List.flatMap_singleton]

/-- The Director has been told what happened exactly if everything succeeded. -/
theorem Bookkept.told_iff (books : Bookkept state) : ToldWhatHappened state ↔ Succeeded state := by
  have split : ∀ {call : DirectorCall} {results : List Bool},
      (DirectorCall.stores call = trueKeys (DirectorCall.stores call) results ∧
        DirectorCall.removes call = trueKeys (DirectorCall.removes call) results) ↔
        AllTrue (DirectorCall.keys call) results := by
    intro call results
    cases call with
    | reportStore keys | reportRemove keys =>
      simp only [DirectorCall.stores, DirectorCall.removes, DirectorCall.keys, trueKeys_nil, true_and,
        and_true, ← trueKeys_eq_iff]
      exact eq_comm
  constructor
  · intro told batch submitted comp drained same
    have stored := told.stored batch submitted comp drained same
    have removed := told.removed batch submitted comp drained same
    rw [books.passed_eq submitted drained same] at stored removed
    exact split.mp ⟨stored, removed⟩
  · intro succeeded
    refine ⟨?_, ?_, ?_, ?_⟩
    · intro futureId
      have once := books.once
      rw [List.map_append] at once
      have distinct : (state.calls.map Prod.fst).Nodup := books.order.nodup (List.nodup_append.mp once).1
      have count := List.nodup_iff_count_le_one.mp distinct futureId
      rw [List.count, List.countP_map] at count
      simpa only [Function.comp_def, beq_eq_decide] using count
    · rintro ⟨futureId, call⟩ made
      obtain ⟨submitted, drained⟩ := books.called.mp made
      exact ⟨_, submitted, rfl, List.mem_map.mp drained⟩
    · intro batch submitted comp drained same
      rw [books.passed_eq submitted drained same]
      exact (split.mpr (succeeded batch submitted comp drained same)).1
    · intro batch submitted comp drained same
      rw [books.passed_eq submitted drained same]
      exact (split.mpr (succeeded batch submitted comp drained same)).2

/-- What a step adds to the drained batches has succeeded exactly if it meets the condition. -/
theorem Bookkept.succeeded_step {op : ReportingOp} (books : Bookkept state)
    (taken : state.step xxh64 op = some next) :
    Succeeded next ↔ Succeeded state ∧ EveryKeySucceeded state op := by
  cases op with
  | batch op =>
    cases taken
    refine ⟨fun all => ⟨fun batch submitted => all batch (List.mem_append_left _ submitted), trivial⟩, ?_⟩
    rintro ⟨all, _⟩ batch member comp drained same
    rcases List.mem_append.mp member with old | new
    · exact all batch old comp drained same
    · obtain ⟨call, _, rfl⟩ := List.mem_map.mp new
      exact absurd (List.mem_map.mpr ⟨comp, drained, same⟩) books.fresh.2
  | drain =>
    have once := books.once
    rw [List.map_append, List.nodup_append] at once
    simp only [Reporting.step, drainCompletions, books.configured, if_true,
      Option.some.injEq] at taken
    subst taken
    constructor
    · intro all
      refine ⟨fun batch submitted comp drained => all batch submitted comp (List.mem_append_left _ drained),
        ?_⟩
      intro comp waits keys pending
      obtain ⟨call, waiting, rfl⟩ := waiting_iff.mp pending
      exact all _ (books.waiting.mp waiting).1 comp (List.mem_append_right _ waits) rfl
    · rintro ⟨all, now⟩ ⟨futureId, call⟩ submitted comp member same
      rcases List.mem_append.mp member with old | new
      · exact all _ submitted comp old same
      · have undrained : futureId ∉ state.drained.map Completion.futureId := fun drained =>
          once.2.2 _ drained _ (List.mem_map_of_mem new) same.symm
        refine now comp new _ (waiting_iff.mpr ⟨call, ?_, rfl⟩)
        rw [same]
        exact books.waiting.mpr ⟨submitted, undrained⟩

end Outcome

/-- In every run of batches and drains the Director has been told what happened exactly if, at every
drain, every key of the batches to be reported had succeeded. -/
theorem director_is_told_what_happened_iff (xxh64 : Xxh64)
    (director : DirectorIntegration) {bucketCount : ℕ} (maxKick regionSize watermark : ℕ)
    (powerOfTwo : bucketCount.isPowerOfTwo) {ops : List ReportingOp} {state : Reporting}
    (reached : run (Reporting.step xxh64)
      (.create director bucketCount maxKick regionSize watermark powerOfTwo) ops = some state) :
    ToldWhatHappened state ↔ Throughout (Reporting.step xxh64) EveryKeySucceeded
      (.create director bucketCount maxKick regionSize watermark powerOfTwo) ops := by
  have start := bookkept_create director maxKick regionSize watermark powerOfTwo
  have books : Bookkept state := run_invariant (fun kept taken => kept.step taken) start reached
  have nothing : Succeeded (.create director bucketCount maxKick regionSize watermark powerOfTwo) :=
    fun _ member => absurd member List.not_mem_nil
  rw [books.told_iff, throughout_iff_of_step (fun kept taken => kept.step taken)
    (fun kept taken => kept.succeeded_step taken) start reached]
  exact and_iff_right nothing

/-- A key is stored, then asked for and deleted. -/
def storedAndDeleted : List ReportingOp :=
  [.batch (.batchSet [[0x61]] [[7]] (fun _ => 0) id), .batch (.batchGet [[0x61]]), .drain,
    .batch (.batchDelete [[0x61]]), .drain]

theorem director_is_told_of_stored_key :
    ∃ state, run (Reporting.step fun _ _ => 3) (.create ⟨"", "", "", 16, ""⟩ 2 16 64 1000 ⟨1, rfl⟩)
        storedAndDeleted = some state ∧
      state.calls = [(1, .reportStore [[0x61]]), (3, .reportRemove [[0x61]])] ∧
      ToldWhatHappened state := by
  have runs : (run (Reporting.step fun _ _ => 3) (.create ⟨"", "", "", 16, ""⟩ 2 16 64 1000 ⟨1, rfl⟩)
      storedAndDeleted).any fun state =>
        state.calls == [(1, .reportStore [[0x61]]), (3, .reportRemove [[0x61]])] := by decide +kernel
  obtain ⟨state, reached, calls⟩ := (Option.any_eq_true _ _).mp runs
  refine ⟨state, reached, beq_iff_eq.mp calls, ?_⟩
  exact (director_is_told_what_happened_iff (fun _ _ => 3) _ 16 64 1000 ⟨1, rfl⟩ reached).mpr
    (by decide +kernel)

/-- A value finds no room, and the Director is told that it was stored. -/
theorem director_is_told_of_failed_store :
    ∃ state, run (Reporting.step fun _ _ => 3) (.create ⟨"", "", "", 16, ""⟩ 2 16 0 1000 ⟨1, rfl⟩)
        [.batch (.batchSet [[0x61]] [List.replicate 33 0] (fun _ => 0) id), .drain] = some state ∧
      state.drained = [⟨1, true, "", some [false]⟩] ∧ state.calls = [(1, .reportStore [[0x61]])] ∧
      ¬ ToldWhatHappened state := by
  refine ⟨_, rfl, by decide, by decide, fun told => ?_⟩
  have stored := told.stored (1, .reportStore [[0x61]]) (by decide) ⟨1, true, "", some [false]⟩ (by decide) rfl
  exact absurd stored (by decide)

end Rdmas.Soundness
