import Mathlib.Algebra.Order.Group.Nat
import Mathlib.Data.List.Nodup
import Rdmas.Math.Runs
import Rdmas.Model.RdmaRuntime

/-! # Completions reach their waiters

The calls of one runtime share a map of waiters, a completion queue and a poller. Seen from outside each
call goes through phases of its own, as if nobody else were there: it takes an id, registers, posts, its
request flies, its completion travels, is delivered and picked up; or the post fails and it cleans up.
The machine represents such phases at every moment, and a step moves one call to its next phase. Whose
entry a completion finds, who may remove it and what is left at the end can then be read off.
-/

namespace Rdmas.Soundness

open Rdmas.Model Runs Function

variable {ι : Type} {ops : ι → RuntimeOp} {outcome : ι → WorkCompletion}

/-- What has become of one call, taken on its own. -/
inductive Phase where
  | idle
  | issued (wrId : BitVec 64)
  | registered (wrId : BitVec 64)
  | refused (wrId : BitVec 64) (error : RdmaError)
  | flying (wrId : BitVec 64)
  | travelling (wrId : BitVec 64)
  | delivered (wrId : BitVec 64)
  | failed (wrId : BitVec 64) (error : RdmaError)
  | finished (wrId : BitVec 64)

/-- The completion of a call, under the id it was posted with. -/
def ownCompletion (outcome : ι → WorkCompletion) (call : ι) (wrId : BitVec 64) : WorkCompletion :=
  { outcome call with wrId }

namespace Phase

def pc (op : RuntimeOp) (own : BitVec 64 → WorkCompletion) : Phase → RuntimePc
  | .idle => .idle
  | .issued wrId => .issued wrId
  | .registered wrId => .registered wrId
  | .refused wrId error => .refused wrId error
  | .flying wrId | .travelling wrId | .delivered wrId => .awaiting wrId
  | .failed wrId error => .returned wrId (.error error)
  | .finished wrId => .returned wrId (RdmaRuntime.finish op (own wrId).result)

def request : Phase → RequestState
  | .flying wrId => .inFlight wrId
  | .travelling _ | .delivered _ | .finished _ => .completed
  | _ => .absent

def channel (own : BitVec 64 → WorkCompletion) : Phase → Oneshot
  | .delivered wrId | .finished wrId => .sent (own wrId).result
  | .failed _ _ => .dropped
  | _ => .empty

/-- The id under which the call has an entry in the pending map. -/
def expects : Phase → Option (BitVec 64)
  | .registered wrId | .refused wrId _ | .flying wrId | .travelling wrId => some wrId
  | _ => none

/-- The id of a completion that is queued or harvested. -/
def travels : Phase → Option (BitVec 64)
  | .travelling wrId => some wrId
  | _ => none

/-- The id of a call that has not returned. -/
def id : Phase → Option (BitVec 64)
  | .issued wrId | .registered wrId | .refused wrId _ | .flying wrId | .travelling wrId
  | .delivered wrId => some wrId
  | _ => none

theorem id_of_expects {phase : Phase} {wrId : BitVec 64} (expects : phase.expects = some wrId) :
    phase.id = some wrId := by
  cases phase with
  | registered | refused | flying | travelling => exact expects
  | idle | issued | delivered | failed | finished => cases expects

end Phase

variable (state : RuntimeState ι) (call : ι) in
/-- How a call gets from one phase to the next, and by which step. A dispatch moves the call whose
completion is the first of the batch. -/
inductive PhaseStep : RuntimeLabel ι → Phase → Phase → Prop where
  | issue (wrId : BitVec 64) : PhaseStep (.issue call) .idle (.issued wrId)
  | register (wrId : BitVec 64) : PhaseStep (.register call) (.issued wrId) (.registered wrId)
  | refuse (wrId : BitVec 64) (error : RdmaError) :
      PhaseStep (.post call (some error)) (.registered wrId) (.refused wrId error)
  | post (wrId : BitVec 64) : PhaseStep (.post call none) (.registered wrId) (.flying wrId)
  | cleanup (wrId : BitVec 64) (error : RdmaError) :
      PhaseStep (.cleanup call) (.refused wrId error) (.failed wrId error)
  | complete (wrId : BitVec 64) : PhaseStep (.complete call) (.flying wrId) (.travelling wrId)
  | dispatch (wc : WorkCompletion) (rest : List (ι × WorkCompletion))
      (first : state.harvested = (call, wc) :: rest) :
      PhaseStep .dispatch (.travelling wc.wrId) (.delivered wc.wrId)
  | receive (wrId : BitVec 64) : PhaseStep (.receive call) (.delivered wrId) (.finished wrId)

/-- The state is what the phases of its calls make it: nothing else is in the map, the channels, the
queue or the hands of the poller, and no two calls share an id. -/
structure RunsInPhases (ops : ι → RuntimeOp) (outcome : ι → WorkCompletion) (phases : ι → Phase)
    (state : RuntimeState ι) : Prop where
  calls : state.calls = fun call => (phases call).pc (ops call) (ownCompletion outcome call)
  requests : state.requests = fun call => (phases call).request
  channels : state.channels = fun call => (phases call).channel (ownCompletion outcome call)
  pending : ∀ wrId call, state.pending wrId = some call ↔ (phases call).expects = some wrId
  transit : ∀ call wc, (call, wc) ∈ state.harvested ++ state.queue ↔
    (phases call).travels.map (ownCompletion outcome call) = some wc
  once : ((state.harvested ++ state.queue).map Prod.fst).Nodup
  counter : state.nextWrId = BitVec.ofNat 64 (state.issued + 1)
  bounded : ∀ call wrId, (phases call).id = some wrId → wrId.toNat ≤ state.issued
  distinct : ∀ left right wrId, (phases left).id = some wrId → (phases right).id = some wrId →
    left = right

theorem runsInPhases_initial : RunsInPhases ops outcome (fun _ => .idle) (.initial : RuntimeState ι) where
  calls := rfl
  requests := rfl
  channels := rfl
  pending _ _ := by simp [RuntimeState.initial, Waiters.initial, PendingMap.empty, Phase.expects]
  transit _ _ := by simp [RuntimeState.initial, Phase.travels]
  once := List.nodup_nil
  counter := rfl
  bounded _ _ found := nomatch found
  distinct _ _ _ found := nomatch found

variable {phases : ι → Phase} {state next final : RuntimeState ι} {label : RuntimeLabel ι}
variable {labels : List (RuntimeLabel ι)} {call : ι}

namespace RunsInPhases

variable (represents : RunsInPhases ops outcome phases state)
include represents

theorem pc_eq (call : ι) :
    state.calls call = (phases call).pc (ops call) (ownCompletion outcome call) :=
  congrFun represents.calls call

theorem request_eq (call : ι) :
    state.requests call = (phases call).request :=
  congrFun represents.requests call

theorem channel_eq (call : ι) :
    state.channels call = (phases call).channel (ownCompletion outcome call) :=
  congrFun represents.channels call

/-- An id whose call is not waiting under it has no entry. -/
theorem pending_none {wrId : BitVec 64}
    (owned : (phases call).id = some wrId) (unexpected : (phases call).expects = none) :
    state.pending wrId = none := by
  cases found : state.pending wrId with
  | none => rfl
  | some waiter =>
    have expects := (represents.pending wrId waiter).mp found
    obtain rfl := represents.distinct waiter call wrId (Phase.id_of_expects expects) owned
    rw [unexpected] at expects
    cases expects

/-- The completion at the head of the batch is that of a call waiting under its id. -/
theorem head {wc : WorkCompletion}
    {rest : List (ι × WorkCompletion)} (harvested : state.harvested = (call, wc) :: rest) :
    ∃ wrId, phases call = .travelling wrId ∧ wc = ownCompletion outcome call wrId := by
  have travels := (represents.transit call wc).mp (by rw [harvested]; exact List.mem_cons_self)
  cases phase : phases call with
  | travelling wrId =>
    rw [phase] at travels
    exact ⟨wrId, rfl, (Option.some.inj travels).symm⟩
  | idle | issued | registered | refused | flying | delivered | failed | finished =>
    rw [phase] at travels
    cases travels

end RunsInPhases

variable [DecidableEq ι]

section Projections

/-- What is read off the phases changes where a phase changes. -/
theorem project_update {β : Type} (f : ι → Phase → β) (phases : ι → Phase) (call : ι) (phase : Phase) :
    update (fun other => f other (phases other)) call (f call phase) =
      fun other => f other (update phases call phase other) :=
  funext fun other => (Function.apply_update f phases call phase other).symm

/-- And not at all if the new phase reads the same. -/
private theorem project_same {β : Type} (f : ι → Phase → β) {phases : ι → Phase} {call : ι} {phase : Phase}
    (same : f call phase = f call (phases call)) :
    (fun other => f other (phases other)) =
      fun other => f other (update phases call phase other) := by
  rw [← project_update, same]
  exact (update_eq_self call _).symm

/-- A call that enters a phase with its old id, or without one, brings no new id. -/
theorem id_of_update {phase : Phase} (known : phase.id = none ∨ phase.id = (phases call).id) {other : ι}
    {wrId : BitVec 64} (found : (update phases call phase other).id = some wrId) :
    (phases other).id = some wrId := by
  rw [update_apply] at found
  split at found
  · next same =>
      rcases known with none | kept
      · rw [none] at found
        cases found
      · rw [same, ← kept, found]
  · exact found

end Projections

/-- The counter has handed out fewer than 2 ^ 64 ids, this one included. -/
def FewCalls (state : RuntimeState ι) (label : RuntimeLabel ι) : Prop :=
  ∀ call, label = .issue call → state.issued + 1 < 2 ^ 64

namespace RunsInPhases

variable (represents : RunsInPhases ops outcome phases state)
include represents

/-- The program counters after a call has moved on. -/
theorem calls_update (phase : Phase) :
    update state.calls call (phase.pc (ops call) (ownCompletion outcome call)) =
      fun other => (update phases call phase other).pc (ops other)
        (ownCompletion outcome other) := by
  rw [represents.calls]
  exact project_update (fun other phase => phase.pc (ops other) (ownCompletion outcome other)) ..

theorem calls_same {phase : Phase} (same : phase.pc (ops call) (ownCompletion outcome call) =
      (phases call).pc (ops call) (ownCompletion outcome call)) :
    state.calls = fun other => (update phases call phase other).pc (ops other)
      (ownCompletion outcome other) :=
  represents.calls.trans
    (project_same (fun other phase => phase.pc (ops other) (ownCompletion outcome other)) same)

theorem requests_update (phase : Phase) :
    update state.requests call phase.request =
      fun other => (update phases call phase other).request := by
  rw [represents.requests]
  exact project_update (fun _ => Phase.request) ..

theorem requests_same {phase : Phase} (same : phase.request = (phases call).request) :
    state.requests = fun other => (update phases call phase other).request :=
  represents.requests.trans (project_same (fun _ => Phase.request) same)

theorem channels_update (phase : Phase) :
    update state.channels call (phase.channel (ownCompletion outcome call)) =
      fun other => (update phases call phase other).channel (ownCompletion outcome other) := by
  rw [represents.channels]
  exact project_update (fun other => Phase.channel (ownCompletion outcome other)) ..

theorem channels_same {phase : Phase} (same : phase.channel (ownCompletion outcome call) =
      (phases call).channel (ownCompletion outcome call)) :
    state.channels =
      fun other => (update phases call phase other).channel (ownCompletion outcome other) :=
  represents.channels.trans
    (project_same (fun other => Phase.channel (ownCompletion outcome other)) same)

theorem pending_same {phase : Phase}
    (same : phase.expects = (phases call).expects) (wrId : BitVec 64) (other : ι) :
    state.pending wrId = some other ↔
      (update phases call phase other).expects = some wrId := by
  have kept := congrFun (project_same (fun _ => Phase.expects) same) other
  rw [represents.pending, kept]

theorem transit_same {phase : Phase}
    (same : phase.travels = (phases call).travels) (other : ι) (wc : WorkCompletion) :
    (other, wc) ∈ state.harvested ++ state.queue ↔
      (update phases call phase other).travels.map (ownCompletion outcome other) =
        some wc := by
  have kept := congrFun (project_same (fun _ => Phase.travels) same) other
  rw [represents.transit, kept]

/-- Putting an entry for a call under an id that has none. -/
theorem pending_insert {phase : Phase}
    {wrId : BitVec 64} (vacant : state.pending wrId = none) (before : (phases call).expects = none)
    (after : phase.expects = some wrId) (query : BitVec 64) (other : ι) :
    state.pending.insert wrId call query = some other ↔
      (update phases call phase other).expects = some query := by
  simp only [PendingMap.insert, update_apply]
  by_cases isCall : other = call
  · subst isCall
    rw [if_pos rfl, after]
    constructor
    · intro found
      split at found
      · next same => rw [same]
      · have expects := (represents.pending query other).mp found
        rw [before] at expects
        cases expects
    · intro same
      rw [if_pos (Option.some.inj same).symm]
  · rw [if_neg isCall, ← represents.pending]
    split
    · next same =>
        rw [same, vacant]
        exact iff_of_false (fun found => isCall (Option.some.inj found).symm) (Option.some_ne_none _).symm
    · exact Iff.rfl

/-- Removing the entry of a call. -/
theorem pending_remove {phase : Phase}
    {wrId : BitVec 64} (before : (phases call).expects = some wrId) (after : phase.expects = none)
    (query : BitVec 64) (other : ι) :
    state.pending.remove wrId query = some other ↔
      (update phases call phase other).expects = some query := by
  have own := (represents.pending wrId call).mpr before
  simp only [PendingMap.remove, update_apply]
  by_cases isCall : other = call
  · subst isCall
    rw [if_pos rfl, after]
    refine iff_of_false (fun found => ?_) (Option.some_ne_none _).symm
    split at found
    · cases found
    · next differs =>
        have expects := (represents.pending query other).mp found
        rw [before] at expects
        exact differs (Option.some.inj expects).symm
  · rw [if_neg isCall, ← represents.pending]
    split
    · next same =>
        rw [same, own]
        exact iff_of_false (Option.some_ne_none _).symm fun found => isCall (Option.some.inj found).symm
    · exact Iff.rfl

theorem issue
    (few : state.issued + 1 < 2 ^ 64) (at_ : phases call = .idle) :
    RunsInPhases ops outcome (update phases call (.issued state.nextWrId))
      { state.setCall call (.issued state.nextWrId) with
        nextWrId := state.nextWrId + 1
        issued := state.issued + 1 } := by
  have fresh : state.nextWrId.toNat = state.issued + 1 := by
    rw [represents.counter, BitVec.toNat_ofNat, Nat.mod_eq_of_lt few]
  have ids : ∀ other wrId, (update phases call (.issued state.nextWrId) other).id =
      some wrId → (other = call ∧ wrId = state.nextWrId) ∨ (phases other).id = some wrId := by
    intro other wrId found
    rw [update_apply] at found
    split at found
    · next same => exact .inl ⟨same, (Option.some.inj found).symm⟩
    · exact .inr found
  have older : ∀ other, (phases other).id ≠ some state.nextWrId := by
    intro other found
    have bound := represents.bounded other _ found
    omega
  refine ⟨represents.calls_update (.issued state.nextWrId),
    represents.requests_same (by rw [at_]; rfl), represents.channels_same (by rw [at_]; rfl),
    represents.pending_same (by rw [at_]; rfl), represents.transit_same (by rw [at_]; rfl),
    represents.once, ?_, ?_, ?_⟩
  · rw [represents.counter]
    exact (BitVec.ofNat_add _ 1).symm
  · intro other wrId found
    rcases ids other wrId found with ⟨_, rfl⟩ | old
    · exact fresh.le
    · exact (represents.bounded other wrId old).trans (Nat.le_succ _)
  · intro left right wrId leftId rightId
    rcases ids left wrId leftId with ⟨leftNew, newest⟩ | leftOld <;>
      rcases ids right wrId rightId with ⟨rightNew, same⟩ | rightOld
    · exact leftNew.trans rightNew.symm
    · exact absurd (newest ▸ rightOld) (older right)
    · exact absurd (same ▸ leftOld) (older left)
    · exact represents.distinct left right wrId leftOld rightOld

/-- A call that keeps its id, or gives it up, leaves the ids in order. -/
theorem move {phase : Phase} (known : phase.id = none ∨ phase.id = (phases call).id)
    (calls : next.calls = fun other => (update phases call phase other).pc (ops other)
      (ownCompletion outcome other))
    (requests : next.requests = fun other => (update phases call phase other).request)
    (channels : next.channels = fun other => (update phases call phase other).channel
      (ownCompletion outcome other)) (pending : ∀ wrId other, next.pending wrId = some other ↔
      (update phases call phase other).expects = some wrId)
    (transit : ∀ other wc, (other, wc) ∈ next.harvested ++ next.queue ↔
      (update phases call phase other).travels.map (ownCompletion outcome other) = some wc)
    (once : ((next.harvested ++ next.queue).map Prod.fst).Nodup)
    (counter : next.nextWrId = state.nextWrId) (issued : next.issued = state.issued) :
    RunsInPhases ops outcome (update phases call phase) next where
  calls := calls
  requests := requests
  channels := channels
  pending := pending
  transit := transit
  once := once
  counter := by rw [counter, issued, represents.counter]
  bounded other wrId found := issued ▸ represents.bounded other wrId (id_of_update known found)
  distinct left right wrId leftId rightId :=
    represents.distinct left right wrId (id_of_update known leftId) (id_of_update known rightId)

theorem register {wrId : BitVec 64} (at_ : phases call = .issued wrId) :
    RunsInPhases ops outcome (update phases call (.registered wrId))
      { state.setCall call (.registered wrId) with
        toWaiters := state.toWaiters.insert wrId call } := by
  have vacant : state.pending wrId = none :=
    represents.pending_none (by rw [at_]; rfl) (by rw [at_]; rfl)
  have kept : state.toWaiters.dropSender wrId = state.toWaiters := by
    simp only [Waiters.dropSender, vacant]
  rw [Waiters.insert, kept]
  exact represents.move (.inr (by rw [at_]; rfl)) (represents.calls_update (.registered wrId))
    (represents.requests_same (by rw [at_]; rfl)) (represents.channels_same (by rw [at_]; rfl))
    (represents.pending_insert vacant (by rw [at_]; rfl) rfl)
    (represents.transit_same (by rw [at_]; rfl)) represents.once rfl rfl

theorem refuse {wrId : BitVec 64} (at_ : phases call = .registered wrId) (error : RdmaError) :
    RunsInPhases ops outcome (update phases call (.refused wrId error))
      (state.setCall call (.refused wrId error)) :=
  represents.move (.inr (by rw [at_]; rfl)) (represents.calls_update (.refused wrId error))
    (represents.requests_same (by rw [at_]; rfl)) (represents.channels_same (by rw [at_]; rfl))
    (represents.pending_same (by rw [at_]; rfl)) (represents.transit_same (by rw [at_]; rfl))
    represents.once rfl rfl

theorem post {wrId : BitVec 64} (at_ : phases call = .registered wrId) :
    RunsInPhases ops outcome (update phases call (.flying wrId))
      ((state.setCall call (.awaiting wrId)).setRequest call (.inFlight wrId)) :=
  represents.move (.inr (by rw [at_]; rfl)) (represents.calls_update (.flying wrId))
    (represents.requests_update (.flying wrId)) (represents.channels_same (by rw [at_]; rfl))
    (represents.pending_same (by rw [at_]; rfl)) (represents.transit_same (by rw [at_]; rfl))
    represents.once rfl rfl

theorem cleanup {wrId : BitVec 64} {error : RdmaError} (at_ : phases call = .refused wrId error) :
    RunsInPhases ops outcome (update phases call (.failed wrId error))
      { state.setCall call (.returned wrId (.error error)) with
        toWaiters := state.toWaiters.remove wrId } := by
  have own : state.pending wrId = some call := (represents.pending wrId call).mpr (by rw [at_]; rfl)
  have dropped : state.toWaiters.dropSender wrId = state.toWaiters.setChannel call .dropped := by
    simp only [Waiters.dropSender, own]
  rw [Waiters.remove, dropped]
  exact represents.move (.inl rfl) (represents.calls_update (.failed wrId error))
    (represents.requests_same (by rw [at_]; rfl)) (represents.channels_update (.failed wrId error))
    (represents.pending_remove (by rw [at_]; rfl) rfl)
    (represents.transit_same (by rw [at_]; rfl)) represents.once rfl rfl

theorem complete {wrId : BitVec 64} (at_ : phases call = .flying wrId) :
    RunsInPhases ops outcome (update phases call (.travelling wrId))
      { state.setRequest call .completed with
        queue := state.queue ++ [(call, ownCompletion outcome call wrId)] } := by
  have absent : ∀ wc, (call, wc) ∉ state.harvested ++ state.queue := by
    intro wc member
    have travels := (represents.transit call wc).mp member
    rw [at_] at travels
    cases travels
  refine represents.move (.inr (by rw [at_]; rfl)) (represents.calls_same (by rw [at_]; rfl))
    (represents.requests_update (.travelling wrId)) (represents.channels_same (by rw [at_]; rfl))
    (represents.pending_same (by rw [at_]; rfl)) ?_ ?_ rfl rfl
  · intro other wc
    change (other, wc) ∈ state.harvested ++
      (state.queue ++ [(call, ownCompletion outcome call wrId)]) ↔ _
    rw [← List.append_assoc, List.mem_append, List.mem_singleton, Prod.mk.injEq,
      update_apply]
    split
    · next isCall =>
        subst isCall
        constructor
        · rintro (member | ⟨_, rfl⟩)
          · exact absurd member (absent wc)
          · rfl
        · intro same
          exact .inr ⟨rfl, (Option.some.inj same).symm⟩
    · next differs =>
        rw [← represents.transit]
        exact or_iff_left fun last => differs last.1
  · change ((state.harvested ++
      (state.queue ++ [(call, ownCompletion outcome call wrId)])).map Prod.fst).Nodup
    rw [← List.append_assoc, List.map_append, List.nodup_append]
    refine ⟨represents.once, List.nodup_singleton _, ?_⟩
    intro owner member other last same
    obtain ⟨⟨_, wc⟩, inTransit, rfl⟩ := List.mem_map.mp member
    have isCall : other = call := by simpa using last
    exact absent wc (by rw [← isCall, ← same]; exact inTransit)

omit [DecidableEq ι] in
theorem poll
    (idle : state.harvested = []) :
    RunsInPhases ops outcome phases { state with
      harvested := state.queue.take pollBatch
      queue := state.queue.drop pollBatch } := by
  have same : state.queue.take pollBatch ++ state.queue.drop pollBatch =
      state.harvested ++ state.queue := by rw [List.take_append_drop, idle, List.nil_append]
  exact ⟨represents.calls, represents.requests, represents.channels, represents.pending,
    same ▸ represents.transit, same ▸ represents.once, represents.counter, represents.bounded,
    represents.distinct⟩

theorem dispatch {wrId : BitVec 64} {rest : List (ι × WorkCompletion)} (at_ : phases call = .travelling wrId)
    (harvested : state.harvested = (call, ownCompletion outcome call wrId) :: rest) :
    RunsInPhases ops outcome (update phases call (.delivered wrId))
      { state with
        toWaiters := state.toWaiters.deliver (ownCompletion outcome call wrId)
        harvested := rest } := by
  have own : state.pending wrId = some call := (represents.pending wrId call).mpr (by rw [at_]; rfl)
  have once := represents.once
  have transit := represents.transit
  rw [harvested] at once transit
  obtain ⟨gone, once⟩ := List.nodup_cons.mp once
  have delivered : state.toWaiters.deliver (ownCompletion outcome call wrId) =
      { state.toWaiters.setChannel call (.sent (ownCompletion outcome call wrId).result) with
        pending := state.pending.remove wrId } := by
    have found : state.pending (ownCompletion outcome call wrId).wrId = some call := own
    simp only [Waiters.deliver, PendingMap.dispatch, found]
    rfl
  rw [delivered]
  refine represents.move (.inr (by rw [at_]; rfl)) (represents.calls_same (by rw [at_]; rfl))
    (represents.requests_same (by rw [at_]; rfl)) (represents.channels_update (.delivered wrId))
    (represents.pending_remove (by rw [at_]; rfl) rfl) ?_ once rfl rfl
  intro other wc
  rw [update_apply]
  split
  · next isCall =>
      subst isCall
      exact iff_of_false (fun member => gone (List.mem_map.mpr ⟨_, member, rfl⟩))
        (Option.some_ne_none _).symm
  · next differs =>
      change (other, wc) ∈ rest ++ state.queue ↔ _
      rw [← transit, List.cons_append, List.mem_cons]
      exact (or_iff_right fun first => differs (Prod.mk.inj first).1).symm

theorem receive {wrId : BitVec 64} (at_ : phases call = .delivered wrId) :
    RunsInPhases ops outcome (update phases call (.finished wrId))
      (state.setCall call (.returned wrId
        (RdmaRuntime.finish (ops call) (ownCompletion outcome call wrId).result))) :=
  represents.move (.inl rfl) (represents.calls_update (.finished wrId))
    (represents.requests_same (by rw [at_]; rfl)) (represents.channels_same (by rw [at_]; rfl))
    (represents.pending_same (by rw [at_]; rfl)) (represents.transit_same (by rw [at_]; rfl))
    represents.once rfl rfl

/-- Every step of the machine moves one call to its next phase, or is a poll, which moves none. -/
theorem step (few : FewCalls state label) (taken : state.step ops outcome label = some next) :
    (label = .poll ∧ RunsInPhases ops outcome phases next) ∨
      ∃ call phase, PhaseStep state call label (phases call) phase ∧
        RunsInPhases ops outcome (update phases call phase) next := by
  cases label with
  | issue call =>
    cases at_ : phases call with
    | idle =>
      simp only [RuntimeState.step, represents.calls, at_, Phase.pc, Option.some.injEq] at taken
      exact .inr ⟨call, _, at_ ▸ .issue state.nextWrId,
        taken ▸ represents.issue (few call rfl) at_⟩
    | _ => simp [RuntimeState.step, represents.calls, at_, Phase.pc] at taken
  | register call =>
    cases at_ : phases call with
    | issued wrId =>
      simp only [RuntimeState.step, represents.calls, at_, Phase.pc, Option.some.injEq] at taken
      exact .inr ⟨call, _, at_ ▸ .register wrId, taken ▸ represents.register at_⟩
    | _ => simp [RuntimeState.step, represents.calls, at_, Phase.pc] at taken
  | post call refusal =>
    cases at_ : phases call with
    | registered wrId =>
      cases refusal with
      | some error =>
        simp only [RuntimeState.step, represents.calls, at_, Phase.pc, Option.some.injEq] at taken
        exact .inr ⟨call, _, at_ ▸ .refuse wrId error, taken ▸ represents.refuse at_ error⟩
      | none =>
        simp only [RuntimeState.step, represents.calls, at_, Phase.pc, Option.some.injEq] at taken
        exact .inr ⟨call, _, at_ ▸ .post wrId, taken ▸ represents.post at_⟩
    | _ => simp [RuntimeState.step, represents.calls, at_, Phase.pc] at taken
  | cleanup call =>
    cases at_ : phases call with
    | refused wrId error =>
      simp only [RuntimeState.step, represents.calls, at_, Phase.pc, Option.some.injEq] at taken
      exact .inr ⟨call, _, at_ ▸ .cleanup wrId error, taken ▸ represents.cleanup at_⟩
    | _ => simp [RuntimeState.step, represents.calls, at_, Phase.pc] at taken
  | complete call =>
    cases at_ : phases call with
    | flying wrId =>
      simp only [RuntimeState.step, represents.requests, at_, Phase.request,
        Option.some.injEq] at taken
      exact .inr ⟨call, _, at_ ▸ .complete wrId, taken ▸ represents.complete at_⟩
    | _ => simp [RuntimeState.step, represents.requests, at_, Phase.request] at taken
  | poll =>
    cases harvested : state.harvested with
    | nil =>
      simp only [RuntimeState.step, harvested, Option.some.injEq] at taken
      exact .inl ⟨rfl, taken ▸ represents.poll harvested⟩
    | cons => simp [RuntimeState.step, harvested] at taken
  | dispatch =>
    cases harvested : state.harvested with
    | nil => simp [RuntimeState.step, harvested] at taken
    | cons entry rest =>
      obtain ⟨call, wc⟩ := entry
      obtain ⟨wrId, at_, rfl⟩ := represents.head harvested
      simp only [RuntimeState.step, harvested, Option.some.injEq] at taken
      exact .inr ⟨call, _, at_ ▸ .dispatch _ rest harvested,
        taken ▸ represents.dispatch at_ harvested⟩
  | receive call =>
    cases at_ : phases call with
    | delivered wrId =>
      simp only [RuntimeState.step, represents.calls, represents.channels, at_, Phase.pc,
        Phase.channel, Option.some.injEq] at taken
      exact .inr ⟨call, _, at_ ▸ .receive wrId, taken ▸ represents.receive at_⟩
    | flying | travelling =>
      simp [RuntimeState.step, represents.calls, represents.channels, at_, Phase.pc,
        Phase.channel] at taken
    | _ => simp [RuntimeState.step, represents.calls, at_, Phase.pc] at taken

end RunsInPhases

section Delivery

/-- What a step may do to the waiters: a completion that is dispatched finds the entry of the very call
whose request it completes, and an empty channel; an entry disappears only by the dispatch of its call's
own completion or by the call's own cleanup; and a result that was sent stays the only one. -/
def HandsOver (ops : ι → RuntimeOp) (outcome : ι → WorkCompletion) (state : RuntimeState ι)
    (label : RuntimeLabel ι) : Prop :=
  ∀ next, state.step ops outcome label = some next →
    (∀ owner wc rest, label = .dispatch → state.harvested = (owner, wc) :: rest →
      state.calls owner = .awaiting wc.wrId ∧ state.pending wc.wrId = some owner ∧
        state.channels owner = .empty ∧ next.channels owner = .sent wc.result) ∧
    (∀ wrId call, state.pending wrId = some call → next.pending wrId ≠ some call →
      label = .cleanup call ∨ ∃ wc rest, label = .dispatch ∧
        state.harvested = (call, wc) :: rest ∧ wc.wrId = wrId) ∧
    ∀ call result, state.channels call = .sent result → next.channels call = .sent result

omit [DecidableEq ι] in
/-- A result that was sent is not touched any more. -/
theorem PhaseStep.channel_sent {phase phase' : Phase} {own : BitVec 64 → WorkCompletion}
    {result : Except RdmaError WorkCompletion} (moves : PhaseStep state call label phase phase')
    (sent : phase.channel own = .sent result) : phase'.channel own = .sent result := by
  cases moves with
  | issue | register | refuse | post | cleanup | complete | dispatch => cases sent
  | receive => exact sent

omit [DecidableEq ι] in
/-- A call gives its entry up in two ways. -/
theorem PhaseStep.unexpected {phase phase' : Phase} {wrId : BitVec 64}
    (moves : PhaseStep state call label phase phase') (before : phase.expects = some wrId)
    (after : phase'.expects ≠ some wrId) :
    label = .cleanup call ∨ ∃ wc rest, label = .dispatch ∧
      state.harvested = (call, wc) :: rest ∧ wc.wrId = wrId := by
  cases moves with
  | issue | register | receive => cases before
  | refuse | post | complete => exact absurd before after
  | cleanup => exact .inl rfl
  | dispatch wc rest first => exact .inr ⟨wc, rest, rfl, first, Option.some.inj before⟩

theorem RunsInPhases.handsOver (represents : RunsInPhases ops outcome phases state)
    (few : FewCalls state label) : HandsOver ops outcome state label := by
  intro next taken
  refine ⟨?_, ?_, ?_⟩
  · rintro owner wc rest rfl harvested
    obtain ⟨wrId, at_, rfl⟩ := represents.head harvested
    simp only [RuntimeState.step, harvested, Option.some.injEq] at taken
    have onward := represents.dispatch at_ harvested
    rw [taken] at onward
    refine ⟨?_, ?_, ?_, ?_⟩
    · rw [represents.pc_eq, at_]
      rfl
    · exact (represents.pending _ owner).mpr (by rw [at_]; rfl)
    · rw [represents.channel_eq, at_]
      rfl
    · rw [onward.channel_eq, update_self]
      rfl
  · intro wrId call before after
    have expects := (represents.pending wrId call).mp before
    rcases represents.step few taken with ⟨rfl, onward⟩ | ⟨mover, phase, moves, onward⟩
    · exact absurd ((onward.pending wrId call).mpr expects) after
    · have unexpected := mt (onward.pending wrId call).mpr after
      rw [update_apply] at unexpected
      split at unexpected
      · next same =>
          subst same
          exact moves.unexpected expects unexpected
      · exact absurd expects unexpected
  · intro call result sent
    rw [represents.channel_eq] at sent
    rcases represents.step few taken with ⟨rfl, onward⟩ | ⟨mover, phase, moves, onward⟩
    · rw [onward.channel_eq, sent]
    · rw [onward.channel_eq, update_apply]
      split
      · next same =>
          subst same
          exact moves.channel_sent sent
      · exact sent

end Delivery

section Progress

/-- A completion in transit has arrived. -/
def Phase.settle : Phase → Phase
  | .travelling wrId => .delivered wrId
  | phase => phase

omit [DecidableEq ι] in
/-- With nothing in transit there is nothing left to settle. -/
theorem RunsInPhases.settled (represents : RunsInPhases ops outcome phases state)
    (empty : state.harvested ++ state.queue = []) : (fun call => (phases call).settle) = phases := by
  funext call
  cases at_ : phases call with
  | travelling wrId =>
    have member := (represents.transit call (ownCompletion outcome call wrId)).mpr (by rw [at_]; rfl)
    rw [empty] at member
    cases member
  | idle | issued | registered | refused | flying | delivered | failed | finished => rfl

/-- Settling does not see whether a completion has been handed over already. -/
theorem settle_update {wrId : BitVec 64} (at_ : phases call = .travelling wrId) :
    (fun other => (update phases call (.delivered wrId) other).settle) =
      fun other => (phases other).settle := by
  refine (project_same (fun _ => Phase.settle) ?_).symm
  rw [at_]
  rfl

/-- The steps of the poller. -/
def Polls (label : RuntimeLabel ι) : Prop := label = .poll ∨ label = .dispatch

/-- The poller can hand over all it has harvested. -/
theorem RunsInPhases.handOver_harvested (represents : RunsInPhases ops outcome phases state) :
    ∃ labels next phases', (∀ label ∈ labels, Polls label) ∧
      run (RuntimeState.step ops outcome) state labels = some next ∧
      RunsInPhases ops outcome phases' next ∧
      (fun call => (phases' call).settle) = (fun call => (phases call).settle) ∧
      next.harvested = [] ∧ next.queue = state.queue := by
  induction harvested : state.harvested generalizing state phases with
  | nil => exact ⟨[], state, phases, by simp, rfl, represents, rfl, harvested, rfl⟩
  | cons entry rest ih =>
    obtain ⟨owner, wc⟩ := entry
    obtain ⟨wrId, at_, rfl⟩ := represents.head harvested
    obtain ⟨labels, next, phases', polls, reached, onward, same, empty, queue⟩ :=
      ih (represents.dispatch at_ harvested) rfl
    refine ⟨.dispatch :: labels, next, phases', ?_, ?_, onward, same.trans (settle_update at_), empty,
      queue⟩
    · exact List.forall_mem_cons.mpr ⟨.inr rfl, polls⟩
    · refine run_cons_eq_some.mpr ⟨_, ?_, reached⟩
      simp only [RuntimeState.step, harvested]

/-- The poller can always work off the batch and the queue, without any call taking a step. -/
theorem RunsInPhases.drain (represents : RunsInPhases ops outcome phases state) :
    ∃ labels drained, (∀ label ∈ labels, Polls label) ∧
      run (RuntimeState.step ops outcome) state labels = some drained ∧
      RunsInPhases ops outcome (fun call => (phases call).settle) drained := by
  induction size : state.queue.length using Nat.strong_induction_on generalizing state phases with
  | _ size ih =>
    subst size
    obtain ⟨labels, next, phases', polls, reached, onward, same, empty, queue⟩ :=
      represents.handOver_harvested
    cases waiting : next.queue with
    | nil =>
      refine ⟨labels, next, polls, reached, ?_⟩
      rw [← same, onward.settled (by rw [empty, waiting]; rfl)]
      exact onward
    | cons first others =>
      have shorter : (next.queue.drop pollBatch).length < state.queue.length := by
        rw [← queue, waiting, List.length_drop, List.length_cons]
        exact Nat.sub_lt (Nat.succ_pos _) (by decide)
      obtain ⟨later, drained, laterPolls, drains, represented⟩ :=
        ih _ shorter (onward.poll empty) rfl
      refine ⟨labels ++ .poll :: later, drained, ?_, ?_, same ▸ represented⟩
      · rw [List.forall_mem_append]
        exact ⟨polls, List.forall_mem_cons.mpr ⟨.inl rfl, laterPolls⟩⟩
      · refine run_append_eq_some.mpr ⟨next, reached, run_cons_eq_some.mpr ⟨_, ?_, drains⟩⟩
        simp only [RuntimeState.step, empty]

/-- The steps that take a posted call to its result: its request completes, the poller works, it picks the
result up. No other call has to move. -/
def Concludes (call : ι) (label : RuntimeLabel ι) : Prop :=
  label = .complete call ∨ Polls label ∨ label = .receive call

/-- The result a call is owed from a state on can be obtained. -/
def CanReturn (ops : ι → RuntimeOp) (outcome : ι → WorkCompletion) (state : RuntimeState ι) (call : ι)
    (wrId : BitVec 64) : Prop :=
  ∃ later settled, (∀ label ∈ later, Concludes call label) ∧
    run (RuntimeState.step ops outcome) state later = some settled ∧
    settled.calls call = .returned wrId
      (RdmaRuntime.finish (ops call) (ownCompletion outcome call wrId).result)

theorem CanReturn.before {wrId : BitVec 64} (concludes : ∀ label ∈ labels, Concludes call label)
    (reached : run (RuntimeState.step ops outcome) state labels = some next)
    (onward : CanReturn ops outcome next call wrId) : CanReturn ops outcome state call wrId := by
  obtain ⟨later, settled, laterConcludes, drains, returned⟩ := onward
  exact ⟨labels ++ later, settled, List.forall_mem_append.mpr ⟨concludes, laterConcludes⟩,
    run_append_eq_some.mpr ⟨next, reached, drains⟩, returned⟩

theorem RunsInPhases.canReturn_delivered (represents : RunsInPhases ops outcome phases state)
    {wrId : BitVec 64} (at_ : phases call = .delivered wrId) :
    CanReturn ops outcome state call wrId := by
  have taken : state.step ops outcome (.receive call) = some (state.setCall call (.returned wrId
      (RdmaRuntime.finish (ops call) (ownCompletion outcome call wrId).result))) := by
    simp only [RuntimeState.step, represents.pc_eq, represents.channel_eq, at_, Phase.pc,
      Phase.channel]
  exact ⟨[.receive call], _, List.forall_mem_singleton.mpr (.inr (.inr rfl)),
    run_cons_eq_some.mpr ⟨_, taken, rfl⟩, update_self ..⟩

theorem RunsInPhases.canReturn_travelling (represents : RunsInPhases ops outcome phases state)
    {wrId : BitVec 64} (at_ : phases call = .travelling wrId) :
    CanReturn ops outcome state call wrId := by
  obtain ⟨labels, drained, polls, reached, onward⟩ := represents.drain
  refine .before (fun label member => .inr (.inl (polls label member))) reached
    (onward.canReturn_delivered ?_)
  rw [at_]
  rfl

theorem RunsInPhases.canReturn (represents : RunsInPhases ops outcome phases state) {wrId : BitVec 64}
    (awaiting : state.calls call = .awaiting wrId) : CanReturn ops outcome state call wrId := by
  rw [represents.pc_eq] at awaiting
  cases at_ : phases call with
  | flying id =>
    rw [at_] at awaiting
    obtain rfl := RuntimePc.awaiting.inj awaiting
    have taken : state.step ops outcome (.complete call) = some { state.setRequest call .completed with
        queue := state.queue ++ [(call, ownCompletion outcome call id)] } := by
      simp only [RuntimeState.step, represents.requests, at_, Phase.request]
      rfl
    exact .before (List.forall_mem_singleton.mpr (.inl rfl)) (run_cons_eq_some.mpr ⟨_, taken, rfl⟩)
      ((represents.complete at_).canReturn_travelling (update_self ..))
  | travelling id =>
    rw [at_] at awaiting
    obtain rfl := RuntimePc.awaiting.inj awaiting
    exact represents.canReturn_travelling at_
  | delivered id =>
    rw [at_] at awaiting
    obtain rfl := RuntimePc.awaiting.inj awaiting
    exact represents.canReturn_delivered at_
  | idle | issued | registered | refused | failed | finished =>
    rw [at_] at awaiting
    cases awaiting

end Progress

section Runs

/-- The ids handed out are counted, one for each call that starts. -/
theorem issued_of_step (taken : state.step ops outcome label = some next) :
    state.issued ≤ next.issued ∧ ∀ call, label = .issue call → next.issued = state.issued + 1 := by
  cases label with
  | issue call =>
    simp only [RuntimeState.step] at taken
    split at taken
    · cases taken
      exact ⟨Nat.le_succ _, fun _ _ => rfl⟩
    · cases taken
  | register | post | cleanup | complete | poll | dispatch | receive =>
    refine ⟨Eq.le ?_, fun _ same => by cases same⟩
    simp only [RuntimeState.step] at taken
    repeat' split at taken
    all_goals cases taken
    all_goals rfl

/-- A run that has handed out fewer than 2 ^ 64 ids at its end has done so all along. -/
theorem fewCalls_of_run (reached : run (RuntimeState.step ops outcome) state labels = some final)
    (few : final.issued < 2 ^ 64) :
    Throughout (RuntimeState.step ops outcome) FewCalls state labels := by
  induction labels generalizing state with
  | nil => trivial
  | cons label rest ih =>
    obtain ⟨next, taken, onward⟩ := run_cons_eq_some.mp reached
    have keep : ∀ {state : RuntimeState ι} {label after}, next.issued ≤ state.issued →
        state.step ops outcome label = some after → next.issued ≤ after.issued :=
      fun bound taken => bound.trans (issued_of_step taken).1
    have grows := run_invariant keep le_rfl onward
    refine ⟨fun call isIssue => ?_, fun other takenToo => ?_⟩
    · have counted := (issued_of_step taken).2 call isIssue
      omega
    · obtain rfl := Option.some.inj (taken.symm.trans takenToo)
      exact ih onward

/-- The phases of the calls move along with the machine. -/
theorem runsInPhases_step (represented : ∃ phases, RunsInPhases ops outcome phases state)
    (few : FewCalls state label) (taken : state.step ops outcome label = some next) :
    ∃ phases, RunsInPhases ops outcome phases next := by
  obtain ⟨phases, represents⟩ := represented
  rcases represents.step few taken with ⟨_, onward⟩ | ⟨call, phase, _, onward⟩
  · exact ⟨phases, onward⟩
  · exact ⟨_, onward⟩

theorem runsInPhases_of_run (reached : run (RuntimeState.step ops outcome) .initial labels = some final)
    (few : final.issued < 2 ^ 64) : ∃ phases, RunsInPhases ops outcome phases final := by
  have start : ∃ phases, RunsInPhases ops outcome phases (.initial : RuntimeState ι) :=
    ⟨_, runsInPhases_initial⟩
  obtain ⟨phases, represents⟩ :=
    (fewCalls_of_run reached few).invariant runsInPhases_step start reached
  exact ⟨phases, represents⟩

omit [DecidableEq ι] in
/-- A call that posted and has returned was given what its own completion says. -/
theorem RunsInPhases.returned (represents : RunsInPhases ops outcome phases state) {wrId : BitVec 64}
    {result : Except RdmaError RuntimeReply} (returned : state.calls call = .returned wrId result)
    (posted : state.requests call ≠ .absent) :
    result = RdmaRuntime.finish (ops call) (ownCompletion outcome call wrId).result := by
  rw [represents.pc_eq] at returned
  rw [represents.request_eq] at posted
  cases at_ : phases call with
  | finished id =>
    rw [at_] at returned
    obtain ⟨rfl, rfl⟩ := RuntimePc.returned.inj returned
    rfl
  | failed id error => exact absurd (by rw [at_]; rfl) posted
  | idle | issued | registered | refused | flying | travelling | delivered =>
    rw [at_] at returned
    cases returned

omit [DecidableEq ι] in
/-- Whoever has an entry is still on its way. -/
theorem RunsInPhases.pending_empty (represents : RunsInPhases ops outcome phases state) (ended : ∀ call,
      state.calls call = .idle ∨ ∃ wrId result, state.calls call = .returned wrId result) :
    state.pending = .empty := by
  funext wrId
  cases found : state.pending wrId with
  | none => rfl
  | some call =>
    have expects := (represents.pending wrId call).mp found
    have stopped := ended call
    rw [represents.pc_eq] at stopped
    cases at_ : phases call with
    | idle | issued | delivered | failed | finished =>
      rw [at_] at expects
      cases expects
    | registered | refused | flying | travelling =>
      rw [at_] at stopped
      rcases stopped with idle | ⟨_, _, returned⟩
      · cases idle
      · cases returned

/-- However the calls of a runtime and its poller interleave, with fewer than 2 ^ 64 calls in all: every
step hands completions to their own waiters and leaves the others alone; a call that posted and returned
has the result of its own completion; one that still waits can get it without anybody else moving; and
once every call has returned, or never started, no entry is left in the map. -/
theorem completions_reach_their_waiters (ops : ι → RuntimeOp) (outcome : ι → WorkCompletion)
    (labels : List (RuntimeLabel ι)) (final : RuntimeState ι)
    (reached : run (RuntimeState.step ops outcome) .initial labels = some final)
    (few : final.issued < 2 ^ 64) :
    Throughout (RuntimeState.step ops outcome) (HandsOver ops outcome) .initial labels ∧
      (∀ call wrId result, final.calls call = .returned wrId result →
        final.requests call ≠ .absent →
          result = RdmaRuntime.finish (ops call) (ownCompletion outcome call wrId).result) ∧
      (∀ call wrId, final.calls call = .awaiting wrId → CanReturn ops outcome final call wrId) ∧
      ((∀ call, final.calls call = .idle ∨ ∃ wrId result, final.calls call = .returned wrId result) →
        final.pending = .empty) := by
  obtain ⟨phases, represents⟩ := runsInPhases_of_run reached few
  refine ⟨?_, ?_, ?_, represents.pending_empty⟩
  · exact (fewCalls_of_run reached few).derive runsInPhases_step
      (fun ⟨_, represents⟩ few => represents.handsOver few) ⟨_, runsInPhases_initial⟩
  · intro call wrId result
    exact represents.returned
  · intro call wrId
    exact represents.canReturn

/-- One call reads while the post of another is refused; the read gets the ten bytes of its own
completion. -/
theorem read_completes_beside_refused_post :
    ∃ final : RuntimeState Bool,
      run (RuntimeState.step (fun _ => .read) fun _ => ⟨0, .success, 10, 0⟩) .initial
        [.issue true, .issue false, .register false, .register true, .post true none,
          .complete true, .post false (some (.internal "refused")), .poll, .cleanup false, .dispatch,
          .receive true] = some final ∧
      final.calls true = .returned 1 (.ok (.bytes 10)) ∧ final.pending = .empty := by
  refine ⟨_, rfl, rfl, ?_⟩
  obtain ⟨_, _, _, none⟩ := completions_reach_their_waiters (fun _ => .read)
    (fun _ : Bool => ⟨0, .success, 10, 0⟩)
    [.issue true, .issue false, .register false, .register true, .post true none,
      .complete true, .post false (some (.internal "refused")), .poll, .cleanup false, .dispatch,
      .receive true] _ rfl (by decide)
  refine none fun call => .inr ?_
  cases call with
  | true => exact ⟨_, _, rfl⟩
  | false => exact ⟨_, _, rfl⟩

end Runs

end Rdmas.Soundness
