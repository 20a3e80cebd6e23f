import Rdmas.Model.Completion

/-! # The asynchronous runtime

`RdmaRuntime` of `runtime/ops.rs` together with the busy-polling thread of `runtime/poller.rs`. Taking an id,
registering the waiter, posting, cleaning up after a failed post and awaiting the channel are separate
steps of a call; polling and dispatching are separate steps of the poller, one completion at a time. Any
of them may be interleaved with the completions of the queue pair. A poll that fails changes nothing and
is left out.
-/

namespace Rdmas.Model

inductive RuntimeOp where
  | read
  | write
  | cas
deriving DecidableEq, Repr

/-- What a successful operation returns: the byte count of a read, `()` for a write, the verdict for a
swap. -/
inductive RuntimeReply where
  | bytes (byteLen : BitVec 32)
  | done
  | swapped (verdict : Bool)
deriving DecidableEq, Repr

namespace RdmaRuntime

/-- What an operation makes of the result of `post_and_wait`. -/
def finish (op : RuntimeOp) (result : Except RdmaError WorkCompletion) :
    Except RdmaError RuntimeReply := do
  let wc ← result
  match op with
  | .read => .ok (.bytes wc.byteLen)
  | .write => .ok .done
  | .cas => .ok (.swapped wc.isSuccess)

/-- The error of an await whose sender is gone. -/
def channelDropped (wrId : BitVec 64) : RdmaError :=
  .internal ("Oneshot channel dropped for wr_id=" ++ toString wrId.toNat ++
    ": poller may have panicked")

end RdmaRuntime

/-- Where a call stands. -/
inductive RuntimePc where
  | idle
  | issued (wrId : BitVec 64)
  | registered (wrId : BitVec 64)
  | refused (wrId : BitVec 64) (error : RdmaError)
  | awaiting (wrId : BitVec 64)
  | returned (wrId : BitVec 64) (result : Except RdmaError RuntimeReply)
deriving DecidableEq

/-- The runtime, its poller and its completion queue. Completions are tagged with the call whose request
they complete; `issued` counts the ids handed out. -/
structure RuntimeState (ι : Type) extends Waiters ι where
  nextWrId : BitVec 64
  issued : ℕ
  calls : ι → RuntimePc
  requests : ι → RequestState
  queue : List (ι × WorkCompletion)
  harvested : List (ι × WorkCompletion)

inductive RuntimeLabel (ι : Type) where
  | issue (call : ι)
  | register (call : ι)
  | post (call : ι) (refusal : Option RdmaError)
  | cleanup (call : ι)
  | complete (call : ι)
  | poll
  | dispatch
  | receive (call : ι)
deriving DecidableEq, Repr

namespace RuntimeState

variable {ι : Type} [DecidableEq ι]

/-- The runtime has been created and no call has started. -/
def initial : RuntimeState ι := ⟨.initial, 1, 0, fun _ => .idle, fun _ => .absent, [], []⟩

def setCall (state : RuntimeState ι) (call : ι) (pc : RuntimePc) : RuntimeState ι :=
  { state with calls := Function.update state.calls call pc }

def setRequest (state : RuntimeState ι) (call : ι) (request : RequestState) : RuntimeState ι :=
  { state with requests := Function.update state.requests call request }

/-- One step; `none` where the label does not fit. -/
def step (ops : ι → RuntimeOp) (outcome : ι → WorkCompletion) (state : RuntimeState ι) :
    RuntimeLabel ι → Option (RuntimeState ι)
  | .issue call =>
      match state.calls call with
      | .idle => some { state.setCall call (.issued state.nextWrId) with
          nextWrId := state.nextWrId + 1
          issued := state.issued + 1 }
      | _ => none
  | .register call =>
      match state.calls call with
      | .issued wrId => some { state.setCall call (.registered wrId) with
          toWaiters := state.toWaiters.insert wrId call }
      | _ => none
  | .post call refusal =>
      match state.calls call with
      | .registered wrId =>
          match refusal with
          | some error => some (state.setCall call (.refused wrId error))
          | none => some ((state.setCall call (.awaiting wrId)).setRequest call (.inFlight wrId))
      | _ => none
  | .cleanup call =>
      match state.calls call with
      | .refused wrId error =>
          some { state.setCall call (.returned wrId (.error error)) with
            toWaiters := state.toWaiters.remove wrId }
      | _ => none
  | .complete call =>
      match state.requests call with
      | .inFlight wrId => some { state.setRequest call .completed with
          queue := state.queue ++ [(call, { outcome call with wrId })] }
      | _ => none
  | .poll =>
      match state.harvested with
      | [] => some { state with
          harvested := state.queue.take pollBatch
          queue := state.queue.drop pollBatch }
      | _ :: _ => none
  | .dispatch =>
      match state.harvested with
      | (_, wc) :: rest => some { state with
          toWaiters := state.toWaiters.deliver wc
          harvested := rest }
      | [] => none
  | .receive call =>
      match state.calls call with
      | .awaiting wrId =>
          match state.channels call with
          | .sent result =>
              some (state.setCall call (.returned wrId (RdmaRuntime.finish (ops call) result)))
          | .dropped =>
              some (state.setCall call
                (.returned wrId (.error (RdmaRuntime.channelDropped wrId))))
          | .empty => none
      | _ => none

end RuntimeState

end Rdmas.Model
