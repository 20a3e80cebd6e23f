import Mathlib.Data.List.Infix
import Rdmas.Math.Runs
import Rdmas.Model.RdmaBatch

/-! # A batch is answered for what became of all of it

One completion stands for a whole batch. The send queue executes what was posted in order and only the last
request of a chain is signaled, so a success under its id means that every request before it has succeeded;
a failure anywhere is reported, flushed, under the id of the last one as well. Who waits under an id is
settled by the callers, who choose the ids of their batches.
-/

namespace Rdmas.Soundness

open Rdmas.Model Runs Function

section Chain

variable {wrs : List SendWorkRequest} {wr : IbvSendWr} {done : List IbvSendWr}

/-- A request as it stands in a chain before the last. -/
def unsignaled (wr : SendWorkRequest) : IbvSendWr := wr.toIbv (wr.sendFlags &&& ~~~ibvSendSignaled)

/-- The last request of a chain. -/
def signaled (wr : SendWorkRequest) : IbvSendWr := wr.toIbv (wr.sendFlags ||| ibvSendSignaled)

@[simp] theorem isSignaled_unsignaled (wr : SendWorkRequest) : (unsignaled wr).isSignaled = false := by
  have cleared : (wr.sendFlags &&& ~~~ibvSendSignaled) &&& ibvSendSignaled = 0 := by
    rw [BitVec.and_assoc, BitVec.and_comm (~~~ibvSendSignaled)]
    simp
  simp [unsignaled, IbvSendWr.isSignaled, SendWorkRequest.toIbv, cleared]

@[simp] theorem isSignaled_signaled (wr : SendWorkRequest) : (signaled wr).isSignaled = true := by
  have set : (wr.sendFlags ||| ibvSendSignaled) &&& ibvSendSignaled = ibvSendSignaled := by
    ext i
    simp only [BitVec.getElem_and, BitVec.getElem_or]
    grind
  rw [signaled, IbvSendWr.isSignaled, SendWorkRequest.toIbv, set]
  rfl

private theorem buildChain_append (front : List SendWorkRequest) (last : SendWorkRequest) :
    buildChain (front ++ [last]) = front.map unsignaled ++ [signaled last] := by
  apply List.ext_getElem
  · simp [buildChain]
  · intro i _ after
    simp only [buildChain, List.getElem_mapIdx, List.getElem_append, List.length_append,
      List.length_map, List.getElem_map, List.length_singleton, Nat.add_sub_cancel, beq_iff_eq]
    simp only [List.length_append, List.length_map, List.length_singleton] at after
    by_cases inner : i < front.length
    · simp [inner, inner.ne, unsignaled]
    · have last : i = front.length := by omega
      simp [last, signaled]

private theorem length_buildChain (wrs : List SendWorkRequest) : (buildChain wrs).length = wrs.length := by
  simp [buildChain]

@[simp] theorem lastWrId_append (front : List SendWorkRequest) (last : SendWorkRequest) :
    lastWrId (front ++ [last]) = last.wrId := by
  simp [lastWrId]

/-- A signaled request of a chain is its last one; the others have ids of requests before the last. -/
theorem mem_buildChain (member : wr ∈ buildChain wrs) :
    wr.isSignaled = true ∧ wr.wrId = lastWrId wrs ∨
      wr.isSignaled = false ∧ ∃ request ∈ wrs.dropLast, request.wrId = wr.wrId := by
  induction wrs using List.reverseRecOn with
  | nil => exact absurd member List.not_mem_nil
  | append_singleton front last _ =>
    rw [buildChain_append, List.mem_append, List.mem_map, List.mem_singleton] at member
    rcases member with ⟨request, inner, rfl⟩ | rfl
    · exact .inr ⟨isSignaled_unsignaled request, request, by rwa [List.dropLast_concat], rfl⟩
    · exact .inl ⟨isSignaled_signaled last, (lastWrId_append front last).symm⟩

/-- A part of a chain from its start that reaches a signaled request is the whole chain. -/
theorem eq_buildChain_of_signaled (part : done <+: buildChain wrs) (member : wr ∈ done)
    (reaches : wr.isSignaled = true) : done = buildChain wrs := by
  induction wrs using List.reverseRecOn with
  | nil => exact absurd (part.subset member) List.not_mem_nil
  | append_singleton front last _ =>
    rw [buildChain_append] at part ⊢
    rcases List.prefix_concat_iff.mp part with whole | short
    · exact whole
    · obtain ⟨request, _, rfl⟩ := List.mem_map.mp (short.subset member)
      rw [isSignaled_unsignaled] at reaches
      cases reaches

/-- The last request of a chain is signaled. -/
theorem exists_signaled (some_ : wrs ≠ []) :
    ∃ wr ∈ buildChain wrs, wr.isSignaled = true ∧ wr.wrId = lastWrId wrs := by
  induction wrs using List.reverseRecOn with
  | nil => exact absurd rfl some_
  | append_singleton front last _ =>
    rw [buildChain_append, lastWrId_append]
    exact ⟨signaled last, by simp, isSignaled_signaled last, rfl⟩

/-- What posting a batch can come to. -/
theorem postSendBatch_cases (wrs : List SendWorkRequest) (answer : PostReturn) :
    (wrs ≠ [] ∧ postSendBatch wrs answer = (buildChain wrs, none)) ∨
      ∃ accepted error, postSendBatch wrs answer = (accepted, some error) ∧
        accepted <+: buildChain wrs ∧ (wrs ≠ [] → accepted ≠ buildChain wrs) := by
  by_cases empty : wrs = []
  · subst empty
    exact .inr ⟨[], _, rfl, List.nil_prefix, fun absurd => (absurd rfl).elim⟩
  have some_ : wrs.isEmpty = false := by simpa using empty
  cases answer with
  | success => exact .inl ⟨empty, by simp [postSendBatch, some_]⟩
  | failed ret accepted =>
    refine .inr ⟨(buildChain wrs).take (min accepted (wrs.length - 1)), _,
      by rw [postSendBatch, some_]; rfl, List.take_prefix _ _, fun _ whole => ?_⟩
    have lengths := congrArg List.length whole
    have positive := List.length_pos_iff.mpr empty
    rw [List.length_take, length_buildChain] at lengths
    omega

end Chain

section Requests

variable {ι : Type} [DecidableEq ι] {call other : ι}

/-- The requests of a list that belong to one call. -/
def requestsOf (call : ι) (log : List (ι × IbvSendWr)) : List IbvSendWr :=
  (log.filter fun entry => entry.1 = call).map Prod.snd

private theorem requestsOf_append (call : ι) (front back : List (ι × IbvSendWr)) :
    requestsOf call (front ++ back) = requestsOf call front ++ requestsOf call back := by
  simp [requestsOf]

private theorem requestsOf_own (call : ι) (requests : List IbvSendWr) :
    requestsOf call (requests.map fun wr => (call, wr)) = requests := by
  induction requests with
  | nil => rfl
  | cons wr rest ih => simpa [requestsOf] using ih

private theorem requestsOf_others (differs : other ≠ call) (requests : List IbvSendWr) :
    requestsOf call (requests.map fun wr => (other, wr)) = [] := by
  simp [requestsOf, differs]

private theorem mem_requestsOf {log : List (ι × IbvSendWr)} {wr : IbvSendWr} :
    wr ∈ requestsOf call log ↔ (call, wr) ∈ log := by
  simp [requestsOf]

end Requests

section Steps

variable {ι : Type} [DecidableEq ι] {wrs : ι → List SendWorkRequest}
variable {state next : BatchState ι} {label : BatchLabel ι}

variable (wrs state) in
/-- What one step can do. -/
inductive BatchEffect : BatchState ι → Prop where
  | register (call : ι) (found : state.calls call = .idle) : BatchEffect { state.setCall call .registered with
        waiters := state.waiters.insert (lastWrId (wrs call)) call }
  | post (call : ι) (found : state.calls call = .registered) (some_ : wrs call ≠ []) :
      BatchEffect { state.setCall call .awaiting with
        sendQueue := state.sendQueue ++ (buildChain (wrs call)).map fun wr => (call, wr) }
  | refuse (call : ι) (accepted : List IbvSendWr) (error : RdmaError)
      (found : state.calls call = .registered) (part : accepted <+: buildChain (wrs call))
      (short : wrs call ≠ [] → accepted ≠ buildChain (wrs call)) :
      BatchEffect { state.setCall call (.refused error) with
        sendQueue := state.sendQueue ++ accepted.map fun wr => (call, wr) }
  | cleanup (call : ι) (error : RdmaError) (found : state.calls call = .refused error) :
      BatchEffect { state.setCall call (.returned (.error error)) with
        waiters := state.waiters.remove (lastWrId (wrs call)) }
  | succeed (outcome : WorkCompletion) (call : ι) (wr : IbvSendWr) (rest : List (ι × IbvSendWr))
      (head : state.sendQueue = (call, wr) :: rest) (success : outcome.isSuccess = true)
      (sound : state.flushed = []) : BatchEffect { state with
        executed := state.executed ++ [(call, wr)]
        sendQueue := rest
        queue := if wr.isSignaled then state.queue ++ [{ outcome with wrId := wr.wrId }] else state.queue }
  | fail (outcome : WorkCompletion) (call : ι) (wr : IbvSendWr) (rest : List (ι × IbvSendWr))
      (head : state.sendQueue = (call, wr) :: rest) (failure : outcome.isSuccess = false) :
      BatchEffect { state with
        flushed := state.flushed ++ [(call, wr)]
        sendQueue := rest
        queue := state.queue ++ [{ outcome with wrId := wr.wrId }] }
  | poll (idle : state.harvested = []) : BatchEffect { state with
        harvested := state.queue.take pollBatch
        queue := state.queue.drop pollBatch }
  | dispatch (wc : WorkCompletion) (rest : List WorkCompletion) (head : state.harvested = wc :: rest) :
      BatchEffect { state with waiters := state.waiters.deliver wc, harvested := rest }
  | receive (call : ι) (result : Except RdmaError (BitVec 64)) (found : state.calls call = .awaiting)
      (finished : finishBatch (lastWrId (wrs call)) (state.waiters.channels call) = some result) :
      BatchEffect (state.setCall call (.returned result))

private theorem batchEffect_of_step (taken : state.step wrs label = some next) :
    BatchEffect wrs state next := by
  cases label with
  | register call =>
    simp only [BatchState.step] at taken
    split at taken
    · next found => exact Option.some.inj taken ▸ .register call found
    · cases taken
  | post call answer =>
    simp only [BatchState.step] at taken
    split at taken
    · next found =>
      rcases postSendBatch_cases (wrs call) answer with
        ⟨some_, posted⟩ | ⟨accepted, error, posted, part, short⟩
      · rw [posted] at taken
        exact Option.some.inj taken ▸ .post call found some_
      · rw [posted] at taken
        exact Option.some.inj taken ▸ .refuse call accepted error found part short
    · cases taken
  | cleanup call =>
    simp only [BatchState.step] at taken
    split at taken
    · next error found => exact Option.some.inj taken ▸ .cleanup call error found
    · cases taken
  | execute outcome =>
    simp only [BatchState.step] at taken
    split at taken
    · cases taken
    · next call wr rest head =>
      split at taken
      · next success =>
        split at taken
        · next sound =>
          exact Option.some.inj taken ▸ .succeed outcome call wr rest head success (List.isEmpty_iff.mp sound)
        · cases taken
      · next failure =>
        exact Option.some.inj taken ▸ .fail outcome call wr rest head (Bool.eq_false_iff.mpr failure)
  | poll =>
    simp only [BatchState.step] at taken
    split at taken
    · next idle => exact Option.some.inj taken ▸ .poll idle
    · cases taken
  | dispatch =>
    simp only [BatchState.step] at taken
    split at taken
    · next wc rest head => exact Option.some.inj taken ▸ .dispatch wc rest head
    · cases taken
  | receive call =>
    simp only [BatchState.step] at taken
    split at taken
    · next found =>
      obtain ⟨result, finished, rfl⟩ := Option.map_eq_some_iff.mp taken
      exact .receive call result found finished
    · cases taken

/-- Everything that was accepted, in the order in which it was. -/
def posted (state : BatchState ι) : List (ι × IbvSendWr) :=
  state.executed ++ state.flushed ++ state.sendQueue

/-- How much of a batch has been accepted when its call stands where it does. -/
def PostedAs (wrs : List SendWorkRequest) (requests : List IbvSendWr) : BatchPc → Prop
  | .idle | .registered => requests = []
  | .refused _ => requests <+: buildChain wrs ∧ (wrs ≠ [] → requests ≠ buildChain wrs)
  | .awaiting => wrs ≠ [] ∧ requests = buildChain wrs
  | .returned _ => requests <+: buildChain wrs

theorem PostedAs.part {batch : List SendWorkRequest} {requests : List IbvSendWr} {pc : BatchPc}
    (stage : PostedAs batch requests pc) : requests <+: buildChain batch := by
  cases pc with
  | idle | registered => exact stage ▸ List.nil_prefix
  | refused => exact stage.1
  | awaiting => exact stage.2 ▸ List.prefix_rfl
  | returned => exact stage

/-- Every batch is in the send queue, or has gone through it, from its start on. -/
def InOrder (wrs : ι → List SendWorkRequest) (state : BatchState ι) : Prop :=
  ∀ call, PostedAs (wrs call) (requestsOf call (posted state)) (state.calls call)

/-- A step that accepts nothing new and moves one call on. -/
theorem InOrder.move (inOrder : InOrder wrs state) {call : ι} {pc : BatchPc}
    (calls : next.calls = update state.calls call pc) (same : posted next = posted state)
    (stage : PostedAs (wrs call) (requestsOf call (posted state)) pc) : InOrder wrs next := by
  intro other
  rw [same, calls, update_apply]
  split
  · next isCall => exact isCall ▸ stage
  · exact inOrder other

/-- A step that accepts requests of one call. -/
theorem InOrder.accept (inOrder : InOrder wrs state) {call : ι} {pc : BatchPc}
    {requests : List IbvSendWr} (found : state.calls call = .registered)
    (stage : PostedAs (wrs call) requests pc) :
    InOrder wrs { state.setCall call pc with
      sendQueue := state.sendQueue ++ requests.map fun wr => (call, wr) } := by
  intro other
  have appended : posted { state.setCall call pc with
      sendQueue := state.sendQueue ++ requests.map fun wr => (call, wr) } =
      posted state ++ requests.map fun wr => (call, wr) := (List.append_assoc ..).symm
  rw [appended, requestsOf_append]
  have before := inOrder other
  change PostedAs _ _ (update state.calls call pc other)
  rw [update_apply]
  split
  · next isCall =>
      subst isCall
      rw [found] at before
      rw [show requestsOf other (posted state) = [] from before, requestsOf_own, List.nil_append]
      exact stage
  · next differs =>
      rw [requestsOf_others (Ne.symm differs), List.append_nil]
      exact before

theorem InOrder.effect (inOrder : InOrder wrs state) (effect : BatchEffect wrs state next) :
    InOrder wrs next := by
  cases effect with
  | register call found =>
    have before := inOrder call
    rw [found] at before
    exact inOrder.move rfl rfl before
  | post call found some_ => exact inOrder.accept found ⟨some_, rfl⟩
  | refuse call accepted error found part short => exact inOrder.accept found ⟨part, short⟩
  | cleanup call error found => exact inOrder.move rfl rfl (inOrder call).part
  | succeed outcome call wr rest head success sound =>
    intro other
    have same : posted state = state.executed ++ [(call, wr)] ++ state.flushed ++ rest := by
      simp [posted, head, sound]
    have before := inOrder other
    rwa [same] at before
  | fail outcome call wr rest head failure =>
    intro other
    have same : posted state = state.executed ++ (state.flushed ++ [(call, wr)]) ++ rest := by
      simp [posted, head]
    have before := inOrder other
    rwa [same] at before
  | poll idle => exact inOrder
  | dispatch wc rest head => exact inOrder
  | receive call result found finished => exact inOrder.move rfl rfl (inOrder call).part

private theorem inOrder_initial (wrs : ι → List SendWorkRequest) : InOrder wrs (.initial : BatchState ι) :=
  fun _ => rfl

/-- A request that was accepted stands in the chain of its batch. -/
theorem InOrder.mem_buildChain (inOrder : InOrder wrs state) {call : ι} {wr : IbvSendWr}
    (member : (call, wr) ∈ posted state) : wr ∈ buildChain (wrs call) :=
  (inOrder call).part.subset (mem_requestsOf.mpr member)

/-- What was executed of a batch is a part of its chain from the start on. -/
theorem InOrder.executed_part (inOrder : InOrder wrs state) (call : ι) :
    requestsOf call state.executed <+: buildChain (wrs call) := by
  refine List.IsPrefix.trans ?_ (inOrder call).part
  rw [posted, List.append_assoc, requestsOf_append]
  exact List.prefix_append ..

end Steps

section Waiting

variable {ι : Type} [DecidableEq ι] {waiters after : Waiters ι} {wrId : BitVec 64} {call : ι}

/-- A change of the pending map under one id: whoever waited there learns of it, nobody else does. -/
structure Touches (wrId : BitVec 64) (before after : Waiters ι) : Prop where
  elsewhere : ∀ query, query ≠ wrId → after.pending query = before.pending query
  learns : ∀ call, before.pending wrId = some call → after.channels call ≠ .empty
  kept : ∀ call, before.pending wrId ≠ some call → after.channels call = before.channels call

private theorem dropSender_channels (waiters : Waiters ι) (wrId : BitVec 64) (call : ι) :
    (waiters.dropSender wrId).channels call =
      if waiters.pending wrId = some call then .dropped else waiters.channels call := by
  unfold Waiters.dropSender
  cases found : waiters.pending wrId with
  | none => simp
  | some waiter => simp only [Waiters.setChannel, update_apply, Option.some.injEq, eq_comm]

private theorem deliver_pending (waiters : Waiters ι) (wc : WorkCompletion) (query : BitVec 64) :
    (waiters.deliver wc).pending query = if query = wc.wrId then none else waiters.pending query := by
  unfold Waiters.deliver PendingMap.dispatch
  cases found : waiters.pending wc.wrId with
  | none =>
    by_cases same : query = wc.wrId
    · simp [same, found]
    · simp [same]
  | some waiter => simp [PendingMap.remove, update_apply]

private theorem deliver_channels (waiters : Waiters ι) (wc : WorkCompletion) (call : ι) :
    (waiters.deliver wc).channels call =
      if waiters.pending wc.wrId = some call then .sent wc.result else waiters.channels call := by
  unfold Waiters.deliver PendingMap.dispatch
  cases found : waiters.pending wc.wrId with
  | none => simp
  | some waiter => simp only [Waiters.setChannel, update_apply, Option.some.injEq, eq_comm]

/-- Both ways of losing an entry drop its sender. -/
theorem touches_of_dropSender
    (pending : ∀ query, query ≠ wrId → after.pending query = waiters.pending query)
    (channels : after.channels = (waiters.dropSender wrId).channels) : Touches wrId waiters after where
  elsewhere := pending
  learns call waits := by simp [channels, dropSender_channels, waits]
  kept call other := by simp [channels, dropSender_channels, other]

private theorem touches_insert (waiters : Waiters ι) (wrId : BitVec 64) (call : ι) :
    Touches wrId waiters (waiters.insert wrId call) :=
  touches_of_dropSender (fun _ differs => update_of_ne differs ..) rfl

private theorem touches_remove (waiters : Waiters ι) (wrId : BitVec 64) :
    Touches wrId waiters (waiters.remove wrId) :=
  touches_of_dropSender (fun _ differs => update_of_ne differs ..) rfl

private theorem touches_deliver (waiters : Waiters ι) (wc : WorkCompletion) :
    Touches wc.wrId waiters (waiters.deliver wc) where
  elsewhere query differs := by simp [deliver_pending, differs]
  learns call waits := by simp [deliver_channels, waits]
  kept call other := by simp [deliver_channels, other]

end Waiting

section Attendance

variable {ι : Type} {wrs : ι → List SendWorkRequest}
variable {state next : BatchState ι} {call : ι} {wrId : BitVec 64} {after : Waiters ι}

/-- A call that has registered and not returned. -/
def isExpecting : BatchPc → Bool
  | .registered | .refused _ | .awaiting => true
  | .idle | .returned _ => false

/-- The completion of a batch is still to be pushed, or on its way. -/
def Coming (wrs : ι → List SendWorkRequest) (state : BatchState ι) (call : ι) : Prop :=
  (∃ wr, (call, wr) ∈ state.sendQueue ∧ wr.isSignaled = true ∧ wr.wrId = lastWrId (wrs call)) ∨
    ∃ wc ∈ state.harvested ++ state.queue, wc.wrId = lastWrId (wrs call)

/-- Whoever has heard nothing yet has its entry in the map, and its completion is to come. -/
structure Attended (wrs : ι → List SendWorkRequest) (state : BatchState ι) : Prop where
  entry : ∀ wrId call, state.waiters.pending wrId = some call → wrId = lastWrId (wrs call) ∧
    isExpecting (state.calls call) = true ∧ state.waiters.channels call = .empty
  fresh : ∀ call, state.calls call = .idle → state.waiters.channels call = .empty
  waits : ∀ call, isExpecting (state.calls call) = true → state.waiters.channels call = .empty →
    state.waiters.pending (lastWrId (wrs call)) = some call
  coming : ∀ call, state.calls call = .awaiting → state.waiters.channels call = .empty →
    Coming wrs state call

theorem attended_initial (wrs : ι → List SendWorkRequest) : Attended wrs (.initial : BatchState ι) where
  entry _ _ waits := by cases waits
  fresh _ _ := rfl
  waits _ expected := by cases expected
  coming _ found := by cases found

/-- A call that is to be answered stays so when a call moves that is to be answered, too. -/
theorem isExpecting_update [DecidableEq ι] {calls : ι → BatchPc} {mover : ι} {pc : BatchPc}
    (moves : isExpecting pc = true) (expected : isExpecting (calls call) = true) :
    isExpecting (update calls mover pc call) = true := by
  rw [update_apply]
  split
  · exact moves
  · exact expected

namespace Attended

variable (attended : Attended wrs state)
include attended

theorem not_pending_of_idle (found : state.calls call = .idle) (wrId : BitVec 64) :
    state.waiters.pending wrId ≠ some call := by
  intro waits
  have expected := (attended.entry wrId call waits).2.1
  rw [found] at expected
  cases expected

/-- Who has heard nothing after a change under an id had heard nothing before and waits elsewhere. -/
theorem unheard (touches : Touches wrId state.waiters after)
    (expected : isExpecting (state.calls call) = true) (empty : after.channels call = .empty) :
    state.waiters.channels call = .empty ∧ lastWrId (wrs call) ≠ wrId := by
  have untouched : state.waiters.pending wrId ≠ some call := fun waits => touches.learns call waits empty
  have before : state.waiters.channels call = .empty := (touches.kept call untouched).symm.trans empty
  refine ⟨before, fun same => untouched ?_⟩
  rw [← same]
  exact attended.waits call expected before

/-- The entries that a change under an id leaves alone are as before. -/
theorem entry_kept (touches : Touches wrId state.waiters after)
    {query : BitVec 64} (differs : query ≠ wrId) (waits : after.pending query = some call) :
    query = lastWrId (wrs call) ∧ isExpecting (state.calls call) = true ∧ after.channels call = .empty := by
  rw [touches.elsewhere query differs] at waits
  obtain ⟨own, expected, empty⟩ := attended.entry query call waits
  refine ⟨own, expected, (touches.kept call fun other => differs ?_).trans empty⟩
  rw [own, (attended.entry wrId call other).1]

/-- The send queue moves on: the completion of its head is pushed if it has one. -/
theorem execute {head : ι × IbvSendWr} {rest : List (ι × IbvSendWr)}
    (first : state.sendQueue = head :: rest)
    (waiters : next.waiters = state.waiters) (calls : next.calls = state.calls)
    (sendQueue : next.sendQueue = rest) (harvested : next.harvested = state.harvested)
    (kept : ∀ wc ∈ state.queue, wc ∈ next.queue)
    (pushed : head.2.isSignaled = true → ∃ wc ∈ next.queue, wc.wrId = head.2.wrId) :
    Attended wrs next := by
  refine ⟨?_, ?_, ?_, fun waiter awaits empty => ?_⟩
  · rw [waiters, calls]
    exact attended.entry
  · rw [waiters, calls]
    exact attended.fresh
  · rw [waiters, calls]
    exact attended.waits
  rw [waiters] at empty
  rw [calls] at awaits
  rcases attended.coming waiter awaits empty with ⟨wr, member, signals, id⟩ | ⟨wc, member, id⟩
  · rw [first] at member
    rcases List.mem_cons.mp member with rfl | later
    · obtain ⟨wc, member, same⟩ := pushed signals
      exact .inr ⟨wc, List.mem_append_right _ member, same.trans id⟩
    · exact .inl ⟨wr, sendQueue ▸ later, signals, id⟩
  · refine .inr ⟨wc, ?_, id⟩
    rw [harvested]
    exact List.mem_append.mpr ((List.mem_append.mp member).imp_right (kept wc))

variable [DecidableEq ι]

/-- A call that changes the map under its id moves on, and does not await anything then. -/
theorem touch {pc : BatchPc} (touches : Touches (lastWrId (wrs call)) state.waiters after)
    (active : pc ≠ .idle) (awaitsNothing : pc ≠ .awaiting)
    (own : isExpecting pc = true → after.pending (lastWrId (wrs call)) = some call)
    (entry : ∀ query waiter, after.pending query = some waiter → query = lastWrId (wrs waiter) ∧
      isExpecting ((state.setCall call pc).calls waiter) = true ∧ after.channels waiter = .empty) :
    Attended wrs { state.setCall call pc with waiters := after } := by
  have moved : (state.setCall call pc).calls call = pc := update_self ..
  have others : ∀ {other}, other ≠ call → (state.setCall call pc).calls other = state.calls other :=
    fun differs => update_of_ne differs ..
  refine ⟨entry, fun idler idle => ?_, fun waiter expected empty => ?_, fun waiter awaits empty => ?_⟩
  · have differs : idler ≠ call := by
      rintro rfl
      exact active (moved.symm.trans idle)
    have before := (others differs).symm.trans idle
    exact (touches.kept idler (attended.not_pending_of_idle before _)).trans (attended.fresh idler before)
  · by_cases same : waiter = call
    · subst same
      exact own (moved ▸ expected)
    · have before := others same ▸ expected
      obtain ⟨silent, elsewhere⟩ := attended.unheard touches before empty
      exact (touches.elsewhere _ elsewhere).trans (attended.waits waiter before silent)
  · have differs : waiter ≠ call := by
      rintro rfl
      exact awaitsNothing (moved.symm.trans awaits)
    have before := (others differs).symm.trans awaits
    exact attended.coming waiter before (attended.unheard touches (by rw [before]; rfl) empty).1

theorem register (found : state.calls call = .idle) :
    Attended wrs { state.setCall call .registered with
      waiters := state.waiters.insert (lastWrId (wrs call)) call } := by
  have touches := touches_insert state.waiters (lastWrId (wrs call)) call
  have unanswered : (state.waiters.insert (lastWrId (wrs call)) call).channels call = .empty :=
    (touches.kept call (attended.not_pending_of_idle found _)).trans (attended.fresh call found)
  have own : (state.waiters.insert (lastWrId (wrs call)) call).pending (lastWrId (wrs call)) = some call :=
    update_self ..
  refine attended.touch touches (by rintro ⟨⟩) (by rintro ⟨⟩) (fun _ => own) fun query waiter waits => ?_
  by_cases same : query = lastWrId (wrs call)
  · obtain rfl : call = waiter := Option.some.inj (own.symm.trans (same ▸ waits))
    exact ⟨same, by simp [BatchState.setCall, isExpecting], unanswered⟩
  · obtain ⟨id, expected, empty⟩ := attended.entry_kept touches same waits
    exact ⟨id, isExpecting_update rfl expected, empty⟩

/-- A call that is to be answered posts its requests, all of them or the first few. -/
theorem post {pc : BatchPc} {requests : List IbvSendWr}
    (found : state.calls call = .registered) (expected : isExpecting pc = true) (whole : pc = .awaiting →
      ∃ wr ∈ requests, wr.isSignaled = true ∧ wr.wrId = lastWrId (wrs call)) :
    Attended wrs { state.setCall call pc with
      sendQueue := state.sendQueue ++ requests.map fun wr => (call, wr) } := by
  refine ⟨fun query waiter waits => ?_, fun idler idle => ?_, fun waiter expects_ empty => ?_,
    fun waiter awaits empty => ?_⟩
  · obtain ⟨id, before, empty⟩ := attended.entry query waiter waits
    exact ⟨id, isExpecting_update expected before, empty⟩
  · have differs : idler ≠ call := by
      rintro rfl
      rw [show pc = .idle by simpa [BatchState.setCall] using idle] at expected
      cases expected
    exact attended.fresh idler (by simpa [BatchState.setCall, differs] using idle)
  · refine attended.waits waiter ?_ empty
    by_cases same : waiter = call
    · rw [same, found]
      rfl
    · simpa [BatchState.setCall, same] using expects_
  · by_cases same : waiter = call
    · subst same
      obtain ⟨wr, member, signals, id⟩ := whole (by simpa [BatchState.setCall] using awaits)
      exact .inl ⟨wr, List.mem_append_right _ (List.mem_map.mpr ⟨wr, member, rfl⟩), signals, id⟩
    · refine (attended.coming waiter (by simpa [BatchState.setCall, same] using awaits) empty).imp ?_ id
      rintro ⟨wr, member, rest⟩
      exact ⟨wr, List.mem_append_left _ member, rest⟩

/-- A refused call takes its own entry away, or the one that has replaced it. -/
theorem cleanup {result : Except RdmaError (BitVec 64)} :
    Attended wrs { state.setCall call (.returned result) with
      waiters := state.waiters.remove (lastWrId (wrs call)) } := by
  have touches := touches_remove state.waiters (lastWrId (wrs call))
  have gone : (state.waiters.remove (lastWrId (wrs call))).pending (lastWrId (wrs call)) = none :=
    update_self ..
  refine attended.touch touches (by rintro ⟨⟩) (by rintro ⟨⟩) (by rintro ⟨⟩) fun query waiter waits => ?_
  have differs : query ≠ lastWrId (wrs call) := by
    rintro rfl
    cases gone.symm.trans waits
  obtain ⟨id, expected, empty⟩ := attended.entry_kept touches differs waits
  have other : waiter ≠ call := by
    rintro rfl
    exact differs id
  exact ⟨id, by simpa [BatchState.setCall, other] using expected, empty⟩

theorem dispatch {wc : WorkCompletion} {rest : List WorkCompletion} (head : state.harvested = wc :: rest) :
    Attended wrs { state with waiters := state.waiters.deliver wc, harvested := rest } := by
  have touches := touches_deliver state.waiters wc
  refine ⟨fun query waiter waits => ?_, fun idler idle => ?_, fun waiter expected empty => ?_,
    fun waiter awaits empty => ?_⟩
  · refine attended.entry_kept touches ?_ waits
    rintro rfl
    change (state.waiters.deliver wc).pending _ = _ at waits
    simp [deliver_pending] at waits
  · exact (touches.kept idler (attended.not_pending_of_idle idle _)).trans (attended.fresh idler idle)
  · obtain ⟨silent, elsewhere⟩ := attended.unheard touches expected empty
    exact (touches.elsewhere _ elsewhere).trans (attended.waits waiter expected silent)
  · obtain ⟨silent, elsewhere⟩ :=
      attended.unheard touches (show isExpecting (state.calls waiter) = true by rw [awaits]; rfl) empty
    refine (attended.coming waiter awaits silent).imp id ?_
    rintro ⟨other, member, same⟩
    rw [head, List.cons_append] at member
    rcases List.mem_cons.mp member with rfl | later
    · exact absurd same.symm elsewhere
    · exact ⟨other, later, same⟩

/-- A call that takes its answer has no entry in the map any more. -/
theorem receive {result : Except RdmaError (BitVec 64)} (answered : state.waiters.channels call ≠ .empty) :
    Attended wrs (state.setCall call (.returned result)) := by
  refine ⟨fun query waiter waits => ?_, fun idler idle => ?_, fun waiter expected empty => ?_,
    fun waiter awaits empty => ?_⟩
  · obtain ⟨id, expected, empty⟩ := attended.entry query waiter waits
    have differs : waiter ≠ call := by
      rintro rfl
      exact answered empty
    exact ⟨id, by simpa [BatchState.setCall, differs] using expected, empty⟩
  · have differs : idler ≠ call := fun same => by simp [BatchState.setCall, same] at idle
    exact attended.fresh idler (by simpa [BatchState.setCall, differs] using idle)
  · have differs : waiter ≠ call := fun same => answered (same ▸ empty)
    exact attended.waits waiter (by simpa [BatchState.setCall, differs] using expected) empty
  · have differs : waiter ≠ call := fun same => answered (same ▸ empty)
    exact attended.coming waiter (by simpa [BatchState.setCall, differs] using awaits) empty

theorem effect (effect : BatchEffect wrs state next) : Attended wrs next := by
  cases effect with
  | register call found => exact attended.register found
  | post call found some_ => exact attended.post found rfl fun _ => exists_signaled some_
  | refuse call accepted error found part short => exact attended.post found rfl fun awaits => by cases awaits
  | cleanup call error found => exact attended.cleanup
  | succeed outcome call wr rest head success sound =>
    refine attended.execute head rfl rfl rfl rfl (fun wc member => ?_) fun signals => ?_
    · dsimp only
      split
      · exact List.mem_append_left _ member
      · exact member
    · exact ⟨{ outcome with wrId := wr.wrId }, by simp [show wr.isSignaled = true from signals], rfl⟩
  | fail outcome call wr rest head failure =>
    exact attended.execute head rfl rfl rfl rfl (fun _ member => List.mem_append_left _ member)
      fun _ => ⟨{ outcome with wrId := wr.wrId }, by simp, rfl⟩
  | poll idle =>
    refine ⟨attended.entry, attended.fresh, attended.waits, fun waiter awaits empty => ?_⟩
    have coming := attended.coming waiter awaits empty
    rw [Coming, idle, List.nil_append] at coming
    rwa [Coming, List.take_append_drop]
  | dispatch wc rest head => exact attended.dispatch head
  | receive call result found finished =>
    refine attended.receive fun empty => ?_
    rw [empty] at finished
    cases finished

end Attended

variable [DecidableEq ι]

/-- Once nothing is in the send queue, the completion queue or the hands of the poller, every batch that is
still awaited can take its answer. The ids of the batches may be chosen as badly as one likes. -/
theorem quiet_queues_owe_no_batch {labels : List (BatchLabel ι)} {final : BatchState ι}
    (reached : run (BatchState.step wrs) .initial labels = some final)
    (drained : final.sendQueue = [] ∧ final.queue = [] ∧ final.harvested = [])
    (awaits : final.calls call = .awaiting) :
    ∃ result, final.step wrs (.receive call) = some (final.setCall call (.returned result)) := by
  have attended : Attended wrs final :=
    run_invariant (fun before taken => before.effect (batchEffect_of_step taken))
      (attended_initial wrs) reached
  have answered : final.waiters.channels call ≠ .empty := by
    intro empty
    rcases attended.coming call awaits empty with ⟨wr, member, _⟩ | ⟨wc, member, _⟩
    · rw [drained.1] at member
      cases member
    · rw [drained.2.1, drained.2.2] at member
      cases member
  obtain ⟨result, finished⟩ : ∃ result,
      finishBatch (lastWrId (wrs call)) (final.waiters.channels call) = some result := by
    cases told : final.waiters.channels call with
    | empty => exact absurd told answered
    | dropped => exact ⟨_, rfl⟩
    | sent outcome =>
      cases outcome with
      | error error => exact ⟨_, rfl⟩
      | ok wc =>
        rw [finishBatch]
        cases wc.status with
        | success => exact ⟨_, rfl⟩
        | failed name => exact ⟨_, rfl⟩
  exact ⟨result, by simp [BatchState.step, awaits, finished]⟩

/-- Two reads that wait under one id. -/
def readsUnderOneId (_ : Bool) : List SendWorkRequest :=
  [⟨3, .rdmaRead, 0, [], some 64, some 7, none, none⟩]

/-- The second read takes the entry of the first and gets the completion of either. -/
def collidingReads : List (BatchLabel Bool) :=
  [.register false, .register true, .post false .success, .post true .success,
    .execute ⟨0, .success, 0, 0⟩, .execute ⟨0, .success, 0, 0⟩, .poll, .dispatch, .dispatch]

theorem colliding_read_is_not_left_waiting : ∃ final,
    run (BatchState.step readsUnderOneId) .initial collidingReads = some final ∧
      ∃ result, final.step readsUnderOneId (.receive false) =
        some (final.setCall false (.returned result)) := by
  have ends : (run (BatchState.step readsUnderOneId) .initial collidingReads).map (fun final =>
      decide ((final.sendQueue = [] ∧ final.queue = [] ∧ final.harvested = []) ∧
        final.calls false = .awaiting)) = some true := by decide +kernel
  obtain ⟨final, reached, holds⟩ := Option.map_eq_some_iff.mp ends
  obtain ⟨drained, awaits⟩ := of_decide_eq_true holds
  exact ⟨final, reached, quiet_queues_owe_no_batch reached drained awaits⟩

end Attendance

section Answers

variable {ι : Type} {wrs : ι → List SendWorkRequest} {state next : BatchState ι} {call other : ι}

/-- No two batches wait under one id, and no request before the last has an id somebody waits under. -/
structure IdsApart (wrs : ι → List SendWorkRequest) : Prop where
  last : Injective fun call => lastWrId (wrs call)
  inner : ∀ call other, ∀ request ∈ (wrs other).dropLast, request.wrId ≠ lastWrId (wrs call)

/-- An id somebody waits under belongs to a request of that call, the signaled one. -/
theorem IdsApart.owner (apart : IdsApart wrs) {wr : IbvSendWr} (member : wr ∈ buildChain (wrs other))
    (same : wr.wrId = lastWrId (wrs call)) : other = call ∧ wr.isSignaled = true := by
  rcases mem_buildChain member with ⟨signals, id⟩ | ⟨_, request, inner, id⟩
  · exact ⟨apart.last (id.symm.trans same), signals⟩
  · exact absurd (id.trans same) (apart.inner call other request inner)

/-- A completion tells what became of a request: a success is pushed for a signaled one only. -/
def Reports (state : BatchState ι) (wc : WorkCompletion) (call : ι) (wr : IbvSendWr) : Prop :=
  wr.wrId = wc.wrId ∧
    (wc.status = .success ∧ (call, wr) ∈ state.executed ∧ wr.isSignaled = true ∨
      (∃ name, wc.status = .failed name) ∧ (call, wr) ∈ state.flushed)

/-- What the channel of a call says is so. -/
def Told (state : BatchState ι) (call : ι) : Oneshot → Prop
  | .empty => True
  | .dropped => ∃ result, state.calls call = .returned result
  | .sent (.ok wc) => wc.status = .success ∧ ∃ wr, (call, wr) ∈ state.executed ∧ wr.isSignaled = true
  | .sent (.error _) => ∃ wr, (call, wr) ∈ state.flushed

variable [DecidableEq ι]

/-- What a call has returned is so. -/
def Answered (wrs : ι → List SendWorkRequest) (state : BatchState ι) (call : ι) :
    Except RdmaError (BitVec 64) → Prop
  | .ok wrId => wrId = lastWrId (wrs call) ∧ ∃ wr, (call, wr) ∈ state.executed ∧ wr.isSignaled = true
  | .error _ => wrs call = [] ∨ requestsOf call (posted state) ≠ buildChain (wrs call) ∨
      ∃ wr, (call, wr) ∈ state.flushed

structure Honest (wrs : ι → List SendWorkRequest) (state : BatchState ι) : Prop where
  transit : ∀ wc ∈ state.harvested ++ state.queue, ∃ call wr, Reports state wc call wr
  told : ∀ call, Told state call (state.waiters.channels call)
  answered : ∀ call result, state.calls call = .returned result → Answered wrs state call result

/-- What a step leaves of what was executed, flushed, returned or accepted for a call that has returned. -/
structure Grows (state next : BatchState ι) : Prop where
  executed : ∀ entry ∈ state.executed, entry ∈ next.executed
  flushed : ∀ entry ∈ state.flushed, entry ∈ next.flushed
  returned : ∀ call result, state.calls call = .returned result → next.calls call = .returned result ∧
    requestsOf call (posted next) = requestsOf call (posted state)

theorem BatchEffect.grows (effect : BatchEffect wrs state next) : Grows state next := by
  have moves : ∀ mover pc, (∀ result, state.calls mover ≠ .returned result) →
      ∀ call result, state.calls call = .returned result →
        update state.calls mover pc call = .returned result ∧ mover ≠ call := by
    intro mover pc active call result back
    have differs : mover ≠ call := fun same => active result (same ▸ back)
    exact ⟨by rwa [update_of_ne differs.symm], differs⟩
  cases effect with
  | register call found | cleanup call error found | receive call told found finished =>
    exact ⟨fun _ => id, fun _ => id, fun other result back =>
      ⟨(moves call _ (by simp [found]) other result back).1, rfl⟩⟩
  | post call found some_ | refuse call accepted error found part short =>
    refine ⟨fun _ => id, fun _ => id, fun other result back => ?_⟩
    obtain ⟨same, differs⟩ := moves call _ (by simp [found]) other result back
    exact ⟨same, by simp [posted, requestsOf_append, requestsOf_others differs, BatchState.setCall]⟩
  | succeed outcome call wr rest head success sound =>
    exact ⟨fun _ => List.mem_append_left _, fun _ => id, fun other result back =>
      ⟨back, by simp [posted, head, sound]⟩⟩
  | fail outcome call wr rest head failure =>
    exact ⟨fun _ => id, fun _ => List.mem_append_left _, fun other result back =>
      ⟨back, by simp [posted, head]⟩⟩
  | poll idle | dispatch => exact ⟨fun _ => id, fun _ => id, fun _ _ back => ⟨back, rfl⟩⟩

theorem Reports.grows {wc : WorkCompletion} {wr : IbvSendWr} (reports : Reports state wc call wr)
    (grows : Grows state next) : Reports next wc call wr :=
  ⟨reports.1, reports.2.imp (fun ⟨success, done, signals⟩ => ⟨success, grows.executed _ done, signals⟩)
    fun ⟨failure, gone⟩ => ⟨failure, grows.flushed _ gone⟩⟩

theorem Told.grows {channel : Oneshot} (told : Told state call channel) (grows : Grows state next) :
    Told next call channel := by
  cases channel with
  | empty => trivial
  | dropped =>
    obtain ⟨result, back⟩ := told
    exact ⟨result, (grows.returned call result back).1⟩
  | sent outcome =>
    cases outcome with
    | ok wc =>
      obtain ⟨success, wr, done, signals⟩ := told
      exact ⟨success, wr, grows.executed _ done, signals⟩
    | error error =>
      obtain ⟨wr, gone⟩ := told
      exact ⟨wr, grows.flushed _ gone⟩

theorem Answered.grows {result : Except RdmaError (BitVec 64)} (answered : Answered wrs state call result)
    (grows : Grows state next) (back : state.calls call = .returned result) :
    Answered wrs next call result := by
  cases result with
  | ok wrId =>
    obtain ⟨id, wr, done, signals⟩ := answered
    exact ⟨id, wr, grows.executed _ done, signals⟩
  | error error =>
    rw [Answered, (grows.returned call _ back).2]
    exact answered.imp_right (Or.imp_right fun ⟨wr, gone⟩ => ⟨wr, grows.flushed _ gone⟩)

/-- A completion that reaches a waiter reports what became of the last request of its batch. -/
theorem Honest.delivered (honest : Honest wrs state) (apart : IdsApart wrs)
    (inOrder : InOrder wrs state) (attended : Attended wrs state) {wc : WorkCompletion}
    (member : wc ∈ state.harvested ++ state.queue) (waits : state.waiters.pending wc.wrId = some call) :
    Told state call (.sent wc.result) := by
  obtain ⟨other, wr, id, came⟩ := honest.transit wc member
  have accepted : (other, wr) ∈ posted state := by
    simp only [posted, List.mem_append]
    rcases came with ⟨_, done, _⟩ | ⟨_, gone⟩
    · exact .inl (.inl done)
    · exact .inl (.inr gone)
  have same : wr.wrId = lastWrId (wrs call) := id.trans (attended.entry _ call waits).1
  obtain ⟨rfl, _⟩ := apart.owner (inOrder.mem_buildChain accepted) same
  rcases came with ⟨success, done, signals⟩ | ⟨⟨name, failure⟩, gone⟩
  · simp only [WorkCompletion.result, success]
    exact ⟨success, wr, done, signals⟩
  · simp only [WorkCompletion.result, failure]
    exact ⟨wr, gone⟩

/-- What a call makes of a channel that tells the truth. -/
theorem Told.finish (told : Told state call (state.waiters.channels call))
    (found : state.calls call = .awaiting) {result : Except RdmaError (BitVec 64)}
    (finished : finishBatch (lastWrId (wrs call)) (state.waiters.channels call) = some result) :
    Answered wrs state call result := by
  cases channel : state.waiters.channels call with
  | empty =>
    rw [channel] at finished
    cases finished
  | dropped =>
    rw [channel] at told
    obtain ⟨_, back⟩ := told
    cases found.symm.trans back
  | sent outcome =>
    rw [channel] at told finished
    cases outcome with
    | error error =>
      obtain rfl : .error error = result := Option.some.inj finished
      exact .inr (.inr told)
    | ok wc =>
      obtain ⟨success, wr, done⟩ := told
      simp only [finishBatch, success, Option.some.injEq] at finished
      exact finished ▸ ⟨rfl, wr, done⟩

theorem Honest.effect (honest : Honest wrs state) (apart : IdsApart wrs)
    (inOrder : InOrder wrs state) (attended : Attended wrs state)
    (effect : BatchEffect wrs state next) : Honest wrs next := by
  have grows := effect.grows
  -- What stood before the step still does; only what is new has to be looked at.
  have transit : ∀ wc ∈ state.harvested ++ state.queue, ∃ call wr, Reports next wc call wr := by
    intro wc member
    obtain ⟨call, wr, reports⟩ := honest.transit wc member
    exact ⟨call, wr, reports.grows grows⟩
  have told : ∀ call, Told next call (state.waiters.channels call) :=
    fun call => (honest.told call).grows grows
  have answered : ∀ call result, state.calls call = .returned result → Answered wrs next call result :=
    fun call result back => (honest.answered call result back).grows grows back
  have moved : ∀ mover pc, (∀ result, pc = .returned result → Answered wrs next mover result) →
      ∀ call result, update state.calls mover pc call = .returned result →
        Answered wrs next call result := by
    intro mover pc fresh call result back
    rw [update_apply] at back
    split at back
    · next same => exact same ▸ fresh result back
    · exact answered call result back
  cases effect with
  | register call found =>
    refine ⟨transit, fun other => ?_, moved call _ fun result absurd => by cases absurd⟩
    have untouched : state.waiters.pending (lastWrId (wrs call)) ≠ some other := by
      intro waits
      obtain rfl := apart.last (attended.entry _ other waits).1
      exact attended.not_pending_of_idle found _ waits
    exact (touches_insert ..).kept other untouched ▸ told other
  | post call found some_ => exact ⟨transit, told, moved call _ fun result absurd => by cases absurd⟩
  | refuse call accepted error found part short =>
    exact ⟨transit, told, moved call _ fun result absurd => by cases absurd⟩
  | cleanup call error found =>
    have short : Answered wrs state call (.error error) := by
      have stage := inOrder call
      rw [found] at stage
      exact (em (wrs call = [])).imp id fun some_ => .inl (stage.2 some_)
    refine ⟨transit, fun other => ?_, moved call _ fun result same => ?_⟩
    · by_cases waits : state.waiters.pending (lastWrId (wrs call)) = some other
      · obtain rfl := apart.last (attended.entry _ other waits).1
        have lost : (state.waiters.remove (lastWrId (wrs call))).channels call = .dropped := by
          simp [Waiters.remove, dropSender_channels, waits]
        change Told _ _ ((state.waiters.remove (lastWrId (wrs call))).channels call)
        rw [lost]
        exact ⟨.error error, update_self ..⟩
      · exact (touches_remove ..).kept other waits ▸ told other
    · cases same
      exact short
  | succeed outcome call wr rest head success sound =>
    refine ⟨fun wc member => ?_, told, answered⟩
    dsimp only at member
    by_cases signals : wr.isSignaled = true
    · rw [if_pos signals, ← List.append_assoc, List.mem_append, List.mem_singleton] at member
      rcases member with before | rfl
      · exact transit wc before
      · exact ⟨call, wr, rfl, .inl ⟨beq_iff_eq.mp success, by simp, signals⟩⟩
    · rw [if_neg signals] at member
      exact transit wc member
  | fail outcome call wr rest head failure =>
    refine ⟨fun wc member => ?_, told, answered⟩
    dsimp only at member
    rw [← List.append_assoc, List.mem_append, List.mem_singleton] at member
    rcases member with before | rfl
    · exact transit wc before
    · have failed : ∃ name, outcome.status = .failed name := by
        cases status : outcome.status with
        | success => simp [WorkCompletion.isSuccess, status] at failure
        | failed name => exact ⟨name, rfl⟩
      exact ⟨call, wr, rfl, .inr ⟨failed, by simp⟩⟩
  | poll idle =>
    refine ⟨fun wc member => transit wc ?_, told, answered⟩
    rw [idle, List.nil_append]
    rwa [List.take_append_drop] at member
  | dispatch wc rest head =>
    have transits : ∀ other ∈ rest ++ state.queue, other ∈ state.harvested ++ state.queue := by
      rw [head]
      exact fun other => List.mem_cons_of_mem wc
    refine ⟨fun other member => transit other (transits other member), fun call => ?_, answered⟩
    change Told _ _ ((state.waiters.deliver wc).channels call)
    rw [deliver_channels]
    split
    · next waits =>
        exact (honest.delivered apart inOrder attended (by simp [head]) waits).grows grows
    · exact told call
  | receive call result found finished =>
    refine ⟨transit, told, moved call _ fun other same => ?_⟩
    cases same
    exact (honest.told call).finish found finished

private theorem honest_initial (wrs : ι → List SendWorkRequest) :
    Honest wrs (.initial : BatchState ι) where
  transit _ member := by cases member
  told _ := trivial
  answered _ _ back := by cases back

/-- The order in the queues, who is told and what they are told, together. -/
structure Accounted (wrs : ι → List SendWorkRequest) (state : BatchState ι) : Prop where
  inOrder : InOrder wrs state
  attended : Attended wrs state
  honest : Honest wrs state

theorem Accounted.effect (accounted : Accounted wrs state) (apart : IdsApart wrs)
    (effect : BatchEffect wrs state next) : Accounted wrs next :=
  ⟨accounted.inOrder.effect effect, accounted.attended.effect effect,
    accounted.honest.effect apart accounted.inOrder accounted.attended effect⟩

/-- What was executed of a batch, all of it exactly if nothing of it is missing or was flushed. -/
theorem Answered.executed {result : Except RdmaError (BitVec 64)} (answered : Answered wrs state call result)
    (inOrder : InOrder wrs state) :
    (∀ wrId, result = .ok wrId → wrId = lastWrId (wrs call) ∧ wrs call ≠ [] ∧
        requestsOf call state.executed = buildChain (wrs call)) ∧
      ∀ error, result = .error error → wrs call ≠ [] →
        requestsOf call state.executed ≠ buildChain (wrs call) := by
  refine ⟨fun wrId is => ?_, fun error is some_ whole => ?_⟩
  · subst is
    obtain ⟨id, wr, done, signals⟩ := answered
    have member : wr ∈ requestsOf call state.executed := mem_requestsOf.mpr done
    have part := inOrder.executed_part call
    refine ⟨id, fun empty => ?_, eq_buildChain_of_signaled part member signals⟩
    have inside := part.subset member
    rw [empty] at inside
    cases inside
  · subst is
    have part := (inOrder call).part
    have split : requestsOf call (posted state) = requestsOf call state.executed ++
        (requestsOf call state.flushed ++ requestsOf call state.sendQueue) := by
      rw [posted, List.append_assoc, requestsOf_append, requestsOf_append]
    have nothing : requestsOf call state.flushed ++ requestsOf call state.sendQueue = [] := by
      have shorter := part.length_le
      rw [split, whole, List.length_append] at shorter
      exact List.eq_nil_of_length_eq_zero (by omega)
    rcases answered with empty | short | ⟨wr, gone⟩
    · exact some_ empty
    · exact short (by rw [split, nothing, whole, List.append_nil])
    · have member : wr ∈ requestsOf call state.flushed := mem_requestsOf.mpr gone
      rw [(List.append_eq_nil_iff.mp nothing).1] at member
      cases member

/-- With ids kept apart, in every order of the calls, the send queue and the poller: the requests of a batch
are executed in their order without a gap, and a call returns the id of its last request if all of them
were executed, an error otherwise. -/
theorem batch_succeeds_iff_all_executed (apart : IdsApart wrs) {labels : List (BatchLabel ι)}
    {final : BatchState ι} (reached : run (BatchState.step wrs) .initial labels = some final) (call : ι) :
    requestsOf call final.executed <+: buildChain (wrs call) ∧
      ∀ result, final.calls call = .returned result →
        if wrs call ≠ [] ∧ requestsOf call final.executed = buildChain (wrs call) then
          result = .ok (lastWrId (wrs call))
        else ∃ error, result = .error error := by
  have accounted : Accounted wrs final :=
    run_invariant (fun before taken => before.effect apart (batchEffect_of_step taken))
      ⟨inOrder_initial wrs, attended_initial wrs, honest_initial wrs⟩ reached
  obtain ⟨inOrder, _, honest⟩ := accounted
  refine ⟨inOrder.executed_part call, fun result back => ?_⟩
  obtain ⟨succeeded, failed⟩ := (honest.answered call result back).executed inOrder
  cases result with
  | ok wrId =>
    obtain ⟨id, all⟩ := succeeded wrId rfl
    rw [if_pos all, id]
  | error error =>
    rw [if_neg (fun ⟨some_, whole⟩ => failed error rfl some_ whole)]
    exact ⟨error, rfl⟩

/-- A write of two parts under the ids 1 and 2, and a read under the id 3. -/
def writeAndRead (reads : Bool) : List SendWorkRequest :=
  bif reads then [⟨3, .rdmaRead, 0, [], some 64, some 7, none, none⟩]
  else [⟨1, .rdmaWrite, 2, [], some 0, some 7, none, none⟩, ⟨2, .rdmaWrite, 0, [], some 8, some 7, none, none⟩]

private theorem apart_writeAndRead : IdsApart writeAndRead where
  last := fun first second => by revert first second; decide
  inner := by decide

/-- The write is executed and the read behind it is refused by the other side. -/
def readFails : List (BatchLabel Bool) :=
  [.register false, .register true, .post false .success, .post true .success,
    .execute ⟨0, .success, 0, 0⟩, .execute ⟨0, .success, 0, 0⟩, .execute ⟨0, .failed "IBV_WC_REM_ACCESS_ERR", 0, 0⟩,
    .poll, .dispatch, .dispatch, .receive true, .receive false]

theorem write_succeeds_before_failed_read : ∃ final,
    run (BatchState.step writeAndRead) .initial readFails = some final ∧
      final.calls false = .returned (.ok 2) ∧
      (requestsOf false final.executed <+: buildChain (writeAndRead false) ∧
        ∀ result, final.calls false = .returned result →
          if writeAndRead false ≠ [] ∧
              requestsOf false final.executed = buildChain (writeAndRead false) then
            result = .ok (lastWrId (writeAndRead false))
          else ∃ error, result = .error error) := by
  have back : (run (BatchState.step writeAndRead) .initial readFails).map (·.calls false) =
      some (.returned (.ok 2)) := by decide +kernel
  obtain ⟨final, reached, returned⟩ := Option.map_eq_some_iff.mp back
  exact ⟨final, reached, returned, batch_succeeds_iff_all_executed apart_writeAndRead reached false⟩

end Answers

end Rdmas.Soundness
