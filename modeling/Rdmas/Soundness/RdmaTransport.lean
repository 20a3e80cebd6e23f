import Rdmas.Math.Runs
import Rdmas.Model.RdmaTransport

/-! # Whose completion a transport operation reports

An operation polls the shared queue once, right after posting, and takes whatever is at its head: the
completion of another call, or nothing at all while its own is still under way or has been drained by the
poller thread. A read or a write reports its own completion exactly in those runs in which the head of the
queue, when it polls, happens to tell the truth about it.
-/

namespace Rdmas.Soundness

open Rdmas.Model Runs Function

variable {ι : Type} {ops : ι → TransportOp} {outcome : ι → WorkCompletion}
variable {state next : TransportState ι} {label : TransportLabel ι} {labels : List (TransportLabel ι)}

/-- The completion at the head of the queue is a success. -/
def HeadSucceeds (state : TransportState ι) : Prop :=
  ∃ owner wc, state.queue.head? = some (owner, wc) ∧ wc.isSuccess = true

/-- The queue pair has produced the completion of the call, and it is a success. -/
def HasSucceeded (outcome : ι → WorkCompletion) (state : TransportState ι) (call : ι) : Prop :=
  state.requests call = .completed ∧ (outcome call).isSuccess = true

/-- When a read or a write polls, it finds a success at the head of the queue if and only if its own
request has completed with success, and a request that is going to succeed has completed by then. -/
def HeadTellsTruth (ops : ι → TransportOp) (outcome : ι → WorkCompletion) (state : TransportState ι)
    (label : TransportLabel ι) : Prop :=
  ∀ call failure wrId, label = .poll call failure → ops call ≠ .cas →
    state.calls call = .posted wrId →
    (failure = none ∧ HeadSucceeds state → HasSucceeded outcome state call) ∧
      ((outcome call).isSuccess = true → failure = none ∧ HeadSucceeds state)

section Properties

variable [DecidableEq ι]

/-- What a read or a write should return at its poll: `Ok` only if its own completion has been produced
with success, and `Err` only if that completion is not, and never becomes, a success. -/
def ReportsOwn (ops : ι → TransportOp) (outcome : ι → WorkCompletion) (state : TransportState ι)
    (label : TransportLabel ι) : Prop :=
  ∀ call failure next, label = .poll call failure → ops call ≠ .cas →
    state.step ops outcome label = some next →
    (next.calls call = .returned (.ok .done) → HasSucceeded outcome state call) ∧
      ∀ error, next.calls call = .returned (.error error) → (outcome call).isSuccess = false

end Properties

theorem polledSuccess_head_iff (state : TransportState ι) :
    RdmaTransport.polledSuccess ((state.queue.take 1).map Prod.snd) = true ↔ HeadSucceeds state := by
  cases queue : state.queue with
  | nil => simp [HeadSucceeds, queue, RdmaTransport.polledSuccess]
  | cons entry rest =>
    obtain ⟨owner, wc⟩ := entry
    simp [HeadSucceeds, queue, RdmaTransport.polledSuccess]

/-- A read or a write succeeds exactly on a polled success. -/
theorem finish_eq {op : TransportOp} (reads : op ≠ .cas) (wcs : List WorkCompletion) :
    ∃ message, RdmaTransport.finish op wcs =
      if RdmaTransport.polledSuccess wcs then .ok .done else .error (.internal message) := by
  cases op with
  | read => exact ⟨_, rfl⟩
  | write => exact ⟨_, rfl⟩
  | cas => exact absurd rfl reads

variable [DecidableEq ι]

/-- What a read or a write returns at its poll. -/
theorem poll_returns {call : ι} {failure : Option RdmaError} {wrId : BitVec 64}
    (reads : ops call ≠ .cas) (posted : state.calls call = .posted wrId)
    (taken : state.step ops outcome (.poll call failure) = some next) :
    (failure = none ∧ HeadSucceeds state ∧ next.calls call = .returned (.ok .done)) ∨
      (¬ (failure = none ∧ HeadSucceeds state) ∧
        ∃ error, next.calls call = .returned (.error error)) := by
  cases failure with
  | some error =>
    simp only [TransportState.step, posted, Option.some.injEq] at taken
    subst taken
    refine .inr ⟨fun both => ?_, error, update_self _ _ _⟩
    cases both.1
  | none =>
    obtain ⟨message, finished⟩ := finish_eq reads ((state.queue.take 1).map Prod.snd)
    simp only [TransportState.step, posted, finished, Option.some.injEq] at taken
    subst taken
    by_cases head : HeadSucceeds state
    · have polled := (polledSuccess_head_iff state).mpr head
      refine .inl ⟨rfl, head, ?_⟩
      simp only [TransportState.setCall, update_self, polled, if_true]
    · have polled := mt (polledSuccess_head_iff state).mp head
      refine .inr ⟨fun both => head both.2, .internal message, ?_⟩
      simp only [TransportState.setCall, update_self, polled, Bool.false_eq_true, if_false]

private theorem poll_enabled {call : ι} {wrId : BitVec 64} (posted : state.calls call = .posted wrId)
    (ops : ι → TransportOp) (outcome : ι → WorkCompletion) (failure : Option RdmaError) :
    ∃ next, state.step ops outcome (.poll call failure) = some next := by
  refine Option.isSome_iff_exists.mp ?_
  cases failure <;> simp [TransportState.step, posted]

theorem posted_of_poll {call : ι} {failure : Option RdmaError}
    (taken : state.step ops outcome (.poll call failure) = some next) :
    ∃ wrId, state.calls call = .posted wrId := by
  simp only [TransportState.step] at taken
  split at taken
  · next wrId at_ => exact ⟨wrId, at_⟩
  · cases taken

private theorem reportsOwn_iff :
    ReportsOwn ops outcome state label ↔ HeadTellsTruth ops outcome state label := by
  constructor
  · rintro reports call failure wrId rfl reads posted
    obtain ⟨next, taken⟩ := poll_enabled posted ops outcome failure
    obtain ⟨success, failed⟩ := reports call failure next rfl reads taken
    rcases poll_returns reads posted taken with ⟨polled, head, ok⟩ | ⟨unseen, error, err⟩
    · exact ⟨fun _ => success ok, fun _ => ⟨polled, head⟩⟩
    · have lost := failed error err
      refine ⟨fun seen => absurd seen unseen, fun succeeds => ?_⟩
      rw [lost] at succeeds
      cases succeeds
  · rintro truth call failure next rfl reads taken
    obtain ⟨wrId, posted⟩ := posted_of_poll taken
    obtain ⟨sound, complete⟩ := truth call failure wrId rfl reads posted
    rcases poll_returns reads posted taken with ⟨polled, head, ok⟩ | ⟨unseen, error, err⟩
    · refine ⟨fun _ => sound ⟨polled, head⟩, fun error err => ?_⟩
      rw [ok] at err
      cases err
    · refine ⟨fun ok => ?_, fun _ _ => Bool.eq_false_iff.mpr fun succeeds => unseen (complete succeeds)⟩
      rw [err] at ok
      cases ok

/-- The call has not posted its request yet. -/
def Unposted : TransportPc → Prop
  | .idle | .issued _ => True
  | _ => False

/-- A call that has not posted has no request, and every entry of the queue completes the request it is
tagged with. -/
structure QueueSound (outcome : ι → WorkCompletion) (state : TransportState ι) : Prop where
  absent : ∀ call, Unposted (state.calls call) → state.requests call = .absent
  entries : ∀ owner wc, (owner, wc) ∈ state.queue →
    state.requests owner = .completed ∧ wc.isSuccess = (outcome owner).isSuccess

omit [DecidableEq ι] in
theorem queueSound_initial : QueueSound outcome (.initial : TransportState ι) where
  absent _ _ := rfl
  entries _ _ member := absurd member List.not_mem_nil

namespace QueueSound

variable (sound : QueueSound outcome state)
include sound

/-- A call that moves on without touching its request, or an entry that is taken from the queue. -/
theorem advance {call : ι} {pc : TransportPc} (unposted : Unposted pc → state.requests call = .absent)
    (calls : next.calls = update state.calls call pc) (requests : next.requests = state.requests)
    (shorter : next.queue.Sublist state.queue) : QueueSound outcome next := by
  refine ⟨fun other early => ?_, fun owner wc member => ?_⟩
  · rw [requests]
    rw [calls, update_apply] at early
    split at early
    · next same => exact same ▸ unposted early
    · exact sound.absent other early
  · rw [requests]
    exact sound.entries owner wc (shorter.subset member)

theorem post {call : ι} {wrId : BitVec 64} (issued : state.calls call = .issued wrId) :
    QueueSound outcome ((state.setCall call (.posted wrId)).setRequest call (.inFlight wrId)) := by
  have fresh : state.requests call = .absent := sound.absent call (by rw [issued]; trivial)
  refine ⟨fun other early => ?_, fun owner wc member => ?_⟩
  · simp only [TransportState.setCall, TransportState.setRequest, update_apply] at early ⊢
    split at early
    · exact early.elim
    · next differs =>
        rw [if_neg differs]
        exact sound.absent other early
  · obtain ⟨completed, same⟩ := sound.entries owner wc member
    have differs : owner ≠ call := by
      rintro rfl
      rw [fresh] at completed
      cases completed
    exact ⟨(update_of_ne differs _ _).trans completed, same⟩

theorem complete {call : ι} {wrId : BitVec 64} (flying : state.requests call = .inFlight wrId) :
    QueueSound outcome { state.setRequest call .completed with
      queue := state.queue ++ [(call, { outcome call with wrId })] } := by
  refine ⟨fun other early => ?_, fun owner wc member => ?_⟩
  · have fresh := sound.absent other early
    have differs : other ≠ call := by
      rintro rfl
      rw [flying] at fresh
      cases fresh
    exact (update_of_ne differs _ _).trans fresh
  · rcases List.mem_append.mp member with queued | last
    · obtain ⟨completed, same⟩ := sound.entries owner wc queued
      refine ⟨?_, same⟩
      simp only [TransportState.setRequest, update_apply]
      split
      · rfl
      · exact completed
    · obtain ⟨rfl, rfl⟩ := Prod.mk.inj (List.mem_singleton.mp last)
      exact ⟨update_self _ _ _, rfl⟩

theorem step (taken : state.step ops outcome label = some next) : QueueSound outcome next := by
  cases label with
  | issue call =>
    simp only [TransportState.step] at taken
    split at taken
    · next at_ =>
      cases taken
      exact sound.advance (fun _ => sound.absent call (by rw [at_]; trivial)) rfl rfl (.refl _)
    · cases taken
  | post call refusal =>
    simp only [TransportState.step] at taken
    split at taken
    · next wrId at_ =>
      cases refusal with
      | some error =>
        cases taken
        exact sound.advance False.elim rfl rfl (.refl _)
      | none => exact Option.some.inj taken ▸ sound.post at_
    · cases taken
  | complete call =>
    simp only [TransportState.step] at taken
    split at taken
    · next wrId at_ => exact Option.some.inj taken ▸ sound.complete at_
    · cases taken
  | poll call failure =>
    obtain ⟨wrId, at_⟩ := posted_of_poll taken
    cases failure with
    | some error =>
      simp only [TransportState.step, at_, Option.some.injEq] at taken
      subst taken
      exact sound.advance False.elim rfl rfl (.refl _)
    | none =>
      simp only [TransportState.step, at_, Option.some.injEq] at taken
      subst taken
      exact sound.advance False.elim rfl rfl (List.drop_sublist _ _)
  | pollerPoll =>
    cases taken
    exact ⟨sound.absent, fun owner wc member => sound.entries owner wc (List.mem_of_mem_drop member)⟩

end QueueSound

/-- The poll goes through and finds the call's own completion at the head of the queue. -/
def FindsOwn (state : TransportState ι) (call : ι) (failure : Option RdmaError) : Prop :=
  failure = none ∧ state.queue.head?.map Prod.fst = some call

instance (state : TransportState ι) (call : ι) (failure : Option RdmaError) :
    Decidable (FindsOwn state call failure) :=
  inferInstanceAs (Decidable (_ ∧ _))

/-- Reads and writes poll when their own completion is at the head of the queue. -/
def OwnAtHead (ops : ι → TransportOp) (state : TransportState ι) : TransportLabel ι → Prop
  | .poll call failure => ops call ≠ .cas → FindsOwn state call failure
  | _ => True

instance decidableOwnAtHead (ops : ι → TransportOp) (state : TransportState ι) :
    (label : TransportLabel ι) → Decidable (OwnAtHead ops state label)
  | .poll call failure => inferInstanceAs (Decidable (ops call ≠ .cas → FindsOwn state call failure))
  | .issue _ | .post _ _ | .complete _ | .pollerPoll => .isTrue trivial

omit [DecidableEq ι] in
theorem FindsOwn.head {call : ι} {failure : Option RdmaError} (own : FindsOwn state call failure) :
    ∃ wc, state.queue.head? = some (call, wc) := by
  obtain ⟨⟨owner, wc⟩, head, rfl⟩ := Option.map_eq_some_iff.mp own.2
  exact ⟨wc, head⟩

omit [DecidableEq ι] in
/-- Its own completion at the head tells a call the truth. -/
theorem QueueSound.headTellsTruth (sound : QueueSound outcome state)
    (own : OwnAtHead ops state label) : HeadTellsTruth ops outcome state label := by
  rintro call failure wrId rfl reads _
  obtain ⟨wc, head⟩ := (own reads).head
  obtain ⟨completed, same⟩ := sound.entries call wc (List.mem_of_mem_head? head)
  refine ⟨fun seen => ?_, fun succeeds => ⟨(own reads).1, call, wc, head, same.trans succeeds⟩⟩
  obtain ⟨_, owner, other, front, success⟩ := seen
  rw [head, Option.some.injEq, Prod.mk.injEq] at front
  obtain ⟨rfl, rfl⟩ := front
  exact ⟨completed, same ▸ success⟩

/-- Reads and writes report their own completion at every poll exactly if the head of the queue tells them
the truth about it. -/
theorem reportsOwn_iff_headTellsTruth (ops : ι → TransportOp) (outcome : ι → WorkCompletion)
    (labels : List (TransportLabel ι)) :
    Throughout (TransportState.step ops outcome) (ReportsOwn ops outcome) .initial labels ↔
      Throughout (TransportState.step ops outcome) (HeadTellsTruth ops outcome) .initial labels :=
  throughout_congr (fun {_ _} (_ : True) => reportsOwn_iff) (fun _ _ _ => trivial) trivial

/-- For any calls with any outcomes and any interleaving of their posts and polls with the completions and
the poller thread: if each read and write polls when its own completion is at the head of the queue, each
reports its own completion. -/
theorem reportsOwn_of_ownAtHead (ops : ι → TransportOp) (outcome : ι → WorkCompletion)
    (labels : List (TransportLabel ι))
    (own : Throughout (TransportState.step ops outcome) (OwnAtHead ops) .initial labels) :
    Throughout (TransportState.step ops outcome) (ReportsOwn ops outcome) .initial labels :=
  own.derive (fun sound _ taken => QueueSound.step sound taken)
    (fun sound own => reportsOwn_iff.mpr (sound.headTellsTruth own)) queueSound_initial

/-- A read that succeeds and a write that fails, one behind the other: each is told its own outcome. -/
theorem calls_in_turn_report_own :
    let ops : Fin 2 → TransportOp := fun call => if call = 0 then .read else .write
    let outcome : Fin 2 → WorkCompletion := fun call =>
      if call = 0 then ⟨0, .success, 8, 0⟩ else ⟨0, .failed "IBV_WC_REM_ACCESS_ERR", 0, 0⟩
    let labels : List (TransportLabel (Fin 2)) := [.issue 0, .post 0 none, .complete 0, .poll 0 none,
      .issue 1, .post 1 none, .pollerPoll, .complete 1, .poll 1 none]
    (run (TransportState.step ops outcome) .initial labels).map (fun final => (final.calls 0, final.calls 1)) =
        some (.returned (.ok .done), .returned (.error (.internal "WRITE completion failed"))) ∧
      Throughout (TransportState.step ops outcome) (ReportsOwn ops outcome) .initial labels :=
  ⟨by decide +kernel, reportsOwn_of_ownAtHead _ _ _ (by decide +kernel)⟩

/-- A single read returns `Err` because it polls before its completion, a success, is produced. Of two
concurrent reads one takes the other's success and returns `Ok` with its own request still under way,
which then fails. -/
theorem transport_misreports_completion :
    let outcome : Fin 2 → WorkCompletion := fun call =>
      if call = 0 then ⟨0, .success, 8, 0⟩ else ⟨0, .failed "IBV_WC_REM_ACCESS_ERR", 0, 0⟩
    let step := TransportState.step (fun _ => .read) outcome
    (run step .initial [.issue 0, .post 0 none, .poll 0 none, .complete 0]).map
        (fun final => (final.calls 0, final.queue)) =
      some (.returned (.error (.internal "READ completion failed")), [(0, ⟨1, .success, 8, 0⟩)]) ∧
    (run step .initial [.issue 0, .post 0 none, .issue 1, .post 1 none, .complete 0, .poll 1 none]).map
        (fun final => (final.calls 1, final.requests 1)) =
      some (.returned (.ok .done), .inFlight 2) ∧
    (outcome 1).isSuccess = false := by
  decide +kernel

end Rdmas.Soundness
