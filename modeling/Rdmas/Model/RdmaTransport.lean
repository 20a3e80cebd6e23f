import Rdmas.Model.Completion

/-! # The RDMA transport

`RdmaTransport` of `transport/rdma.rs`: each operation posts one work request and then polls the
completion queue once, for one entry. The poller thread that `connect` spawns on the same queue has a
waiter map nobody registers in, so whatever it harvests is dropped. Calls are identified by the caller;
the completion of each is given from outside, since the transport has no say in it.
-/

namespace Rdmas.Model

inductive TransportOp where
  | read
  | write
  | cas
deriving DecidableEq, Repr

/-- What a successful operation returns: `()` for a read or a write, the verdict for a swap. -/
inductive TransportReply where
  | done
  | swapped (verdict : Bool)
deriving DecidableEq, Repr

namespace RdmaTransport

/-- `!wcs.is_empty() && wcs[0].is_success()`. -/
def polledSuccess : List WorkCompletion → Bool
  | [] => false
  | wc :: _ => wc.isSuccess

/-- The end of a read or a write. -/
def checkCompletion (message : String) (wcs : List WorkCompletion) : Except RdmaError TransportReply :=
  if polledSuccess wcs then .ok .done else .error (.internal message)

def finishRead : List WorkCompletion → Except RdmaError TransportReply :=
  checkCompletion "READ completion failed"

def finishWrite : List WorkCompletion → Except RdmaError TransportReply :=
  checkCompletion "WRITE completion failed"

def finishCas (wcs : List WorkCompletion) : Except RdmaError TransportReply :=
  .ok (.swapped (polledSuccess wcs))

/-- What an operation makes of the completions it has polled. -/
def finish : TransportOp → List WorkCompletion → Except RdmaError TransportReply
  | .read => finishRead
  | .write => finishWrite
  | .cas => finishCas

end RdmaTransport

/-- Where a call stands. -/
inductive TransportPc where
  | idle
  | issued (wrId : BitVec 64)
  | posted (wrId : BitVec 64)
  | returned (result : Except RdmaError TransportReply)
deriving DecidableEq

/-- The transport and its completion queue. Each entry of the queue is tagged with the call whose
request it completes. -/
structure TransportState (ι : Type) where
  nextWrId : BitVec 64
  calls : ι → TransportPc
  requests : ι → RequestState
  queue : List (ι × WorkCompletion)

inductive TransportLabel (ι : Type) where
  | issue (call : ι)
  | post (call : ι) (refusal : Option RdmaError)
  | complete (call : ι)
  | poll (call : ι) (failure : Option RdmaError)
  | pollerPoll
deriving DecidableEq, Repr

namespace TransportState

variable {ι : Type} [DecidableEq ι]

/-- The transport is connected and no call has started. -/
def initial : TransportState ι := ⟨1, fun _ => .idle, fun _ => .absent, []⟩

def setCall (state : TransportState ι) (call : ι) (pc : TransportPc) : TransportState ι :=
  { state with calls := Function.update state.calls call pc }

def setRequest (state : TransportState ι) (call : ι) (request : RequestState) : TransportState ι :=
  { state with requests := Function.update state.requests call request }

/-- One step: `fetch_add` on the id counter, `post_send`, a completion, the poll of a call, or a poll by
the poller thread. A request that was posted completes once, with the outcome given for it. -/
def step (ops : ι → TransportOp) (outcome : ι → WorkCompletion) (state : TransportState ι) :
    TransportLabel ι → Option (TransportState ι)
  | .issue call =>
      match state.calls call with
      | .idle => some { state.setCall call (.issued state.nextWrId) with
          nextWrId := state.nextWrId + 1 }
      | _ => none
  | .post call refusal =>
      match state.calls call with
      | .issued wrId =>
          match refusal with
          | some error => some (state.setCall call (.returned (.error error)))
          | none => some ((state.setCall call (.posted wrId)).setRequest call (.inFlight wrId))
      | _ => none
  | .complete call =>
      match state.requests call with
      | .inFlight wrId => some { state.setRequest call .completed with
          queue := state.queue ++ [(call, { outcome call with wrId })] }
      | _ => none
  | .poll call failure =>
      match state.calls call with
      | .posted _ =>
          match failure with
          | some error => some (state.setCall call (.returned (.error error)))
          | none =>
              let wcs := (state.queue.take 1).map Prod.snd
              some { state.setCall call (.returned (RdmaTransport.finish (ops call) wcs)) with
                queue := state.queue.drop 1 }
      | _ => none
  | .pollerPoll => some { state with queue := state.queue.drop pollBatch }

end TransportState

end Rdmas.Model
