import Rdmas.Model.RdmaRuntime

/-! # Batches of work requests

`QueuePair::post_send_batch` of `rdma/qp.rs` and `RdmaRuntime::rdma_batch` of `runtime/ops.rs`, with the send
queue a batch goes through and the poller that answers it. A single operation is a batch of one as far as the
queue pair is concerned. The library accepts the requests of a chain one after the other and may stop before
the end; what it has accepted is executed in order. A request that succeeds completes if it is signaled; one
that fails completes in any case, and so does, flushed, everything behind it.
-/

namespace Rdmas.Model

/-- Send work request opcode for one-sided and two-sided operations. -/
inductive SendWrOpcode where
  | rdmaRead
  | rdmaWrite
  | rdmaCompareSwap
  | send
deriving DecidableEq, Repr

/-- A scatter/gather entry describing a local memory segment. -/
structure ScatterGatherEntry where
  addr : BitVec 64
  length : BitVec 32
  lkey : BitVec 32
deriving DecidableEq, Repr

/-- An RDMA send work request as the callers build it. -/
structure SendWorkRequest where
  wrId : BitVec 64
  opcode : SendWrOpcode
  sendFlags : BitVec 32
  sge : List ScatterGatherEntry
  remoteAddr : Option (BitVec 64)
  remoteRkey : Option (BitVec 32)
  compareAdd : Option (BitVec 64)
  swap : Option (BitVec 64)
deriving DecidableEq, Repr

/-- The operation-specific fields of an `ibv_send_wr`, a union in the bindings. -/
inductive IbvWrFields where
  | rdma (remoteAddr : BitVec 64) (rkey : BitVec 32)
  | atomic (remoteAddr compareAdd swap : BitVec 64) (rkey : BitVec 32)
  | zeroed
deriving DecidableEq, Repr

/-- A work request as the library takes it; the link to the next one is the order in a list. -/
structure IbvSendWr where
  wrId : BitVec 64
  opcode : SendWrOpcode
  sendFlags : BitVec 32
  sgList : List ScatterGatherEntry
  wr : IbvWrFields
deriving DecidableEq, Repr

/-- `IBV_SEND_SIGNALED`, the second flag of the verbs header. -/
def ibvSendSignaled : BitVec 32 := 0x2

def IbvSendWr.isSignaled (wr : IbvSendWr) : Bool := wr.sendFlags &&& ibvSendSignaled != 0

/-- Set the operation-specific fields; what is missing is 0. -/
def SendWorkRequest.fields (wr : SendWorkRequest) : IbvWrFields :=
  match wr.opcode with
  | .rdmaRead | .rdmaWrite => .rdma (wr.remoteAddr.getD 0) (wr.remoteRkey.getD 0)
  | .rdmaCompareSwap =>
      .atomic (wr.remoteAddr.getD 0) (wr.compareAdd.getD 0) (wr.swap.getD 0) (wr.remoteRkey.getD 0)
  | .send => .zeroed

def SendWorkRequest.toIbv (wr : SendWorkRequest) (sendFlags : BitVec 32) : IbvSendWr :=
  ⟨wr.wrId, wr.opcode, sendFlags, wr.sge, wr.fields⟩

/-- The chain that is posted: only the last request is signaled, whatever the callers asked for. -/
def buildChain (wrs : List SendWorkRequest) : List IbvSendWr :=
  wrs.mapIdx fun i wr =>
    let isLast := i == wrs.length - 1
    wr.toIbv (if isLast then wr.sendFlags ||| ibvSendSignaled else wr.sendFlags &&& ~~~ibvSendSignaled)

/-- The id under which a batch waits; 0 for an empty one. -/
def lastWrId (wrs : List SendWorkRequest) : BitVec 64 := (wrs.getLast?.map (·.wrId)).getD 0

/-- What `ibv_post_send` returns for a chain: success, or an error code and how many requests it has
accepted nevertheless. -/
inductive PostReturn where
  | success
  | failed (ret : Int) (accepted : ℕ)
deriving DecidableEq, Repr

/-- `post_send_batch`: what goes to the send queue, and the error if there is one. -/
def postSendBatch (wrs : List SendWorkRequest) (answer : PostReturn) : List IbvSendWr × Option RdmaError :=
  if wrs.isEmpty then ([], some (.internal "empty batch"))
  else
    match answer with
    | .success => (buildChain wrs, none)
    | .failed ret accepted =>
        ((buildChain wrs).take (min accepted (wrs.length - 1)),
          some (.hardwareError ("ibv_post_send (batch) failed: ret=" ++ toString ret)))

/-- What `rdma_batch` makes of what its channel holds. -/
def finishBatch (lastId : BitVec 64) (channel : Oneshot) : Option (Except RdmaError (BitVec 64)) :=
  match channel with
  | .empty => none
  | .dropped => some (.error (.internal ("Oneshot channel dropped for batch wr_id=" ++
      toString lastId.toNat ++ ": poller may have panicked")))
  | .sent (.error error) => some (.error error)
  | .sent (.ok wc) =>
      match wc.status with
      | .success => some (.ok lastId)
      | .failed name => some (.error (.hardwareError ("batch WC error: status=" ++ name)))

/-- Where a call of `rdma_batch` stands. -/
inductive BatchPc where
  | idle
  | registered
  | refused (error : RdmaError)
  | awaiting
  | returned (result : Except RdmaError (BitVec 64))
deriving DecidableEq

/-- The runtime, its queue pair, its completion queue and its poller. The requests that were accepted are
executed with success, failed or flushed, or still in the send queue; they are listed with the call that
posted them. The queue pair is in its error state as soon as a request has failed. -/
structure BatchState (ι : Type) where
  waiters : Waiters ι
  calls : ι → BatchPc
  executed : List (ι × IbvSendWr)
  flushed : List (ι × IbvSendWr)
  sendQueue : List (ι × IbvSendWr)
  queue : List WorkCompletion
  harvested : List WorkCompletion

inductive BatchLabel (ι : Type) where
  | register (call : ι)
  | post (call : ι) (answer : PostReturn)
  | cleanup (call : ι)
  | execute (outcome : WorkCompletion)
  | poll
  | dispatch
  | receive (call : ι)
deriving DecidableEq, Repr

namespace BatchState

variable {ι : Type} [DecidableEq ι]

/-- Nothing has been called. -/
def initial : BatchState ι := ⟨.initial, fun _ => .idle, [], [], [], [], []⟩

def setCall (state : BatchState ι) (call : ι) (pc : BatchPc) : BatchState ι :=
  { state with calls := Function.update state.calls call pc }

/-- One step; `none` where the label does not fit. -/
def step (wrs : ι → List SendWorkRequest) (state : BatchState ι) : BatchLabel ι → Option (BatchState ι)
  | .register call =>
      match state.calls call with
      | .idle => some { state.setCall call .registered with
          waiters := state.waiters.insert (lastWrId (wrs call)) call }
      | _ => none
  | .post call answer =>
      match state.calls call with
      | .registered =>
          let (accepted, refusal) := postSendBatch (wrs call) answer
          some { state.setCall call (match refusal with
              | some error => .refused error
              | none => .awaiting) with
            sendQueue := state.sendQueue ++ accepted.map fun wr => (call, wr) }
      | _ => none
  | .cleanup call =>
      match state.calls call with
      | .refused error => some { state.setCall call (.returned (.error error)) with
          waiters := state.waiters.remove (lastWrId (wrs call)) }
      | _ => none
  | .execute outcome =>
      match state.sendQueue with
      | [] => none
      | (call, wr) :: rest =>
          let completion := { outcome with wrId := wr.wrId }
          if outcome.isSuccess then
            -- Nothing succeeds any more on a queue pair in its error state.
            if state.flushed.isEmpty then
              some { state with
                executed := state.executed ++ [(call, wr)]
                sendQueue := rest
                queue := if wr.isSignaled then state.queue ++ [completion] else state.queue }
            else none
          else
            some { state with
              flushed := state.flushed ++ [(call, wr)]
              sendQueue := rest
              queue := state.queue ++ [completion] }
  | .poll =>
      match state.harvested with
      | [] => some { state with
          harvested := state.queue.take pollBatch
          queue := state.queue.drop pollBatch }
      | _ :: _ => none
  | .dispatch =>
      match state.harvested with
      | wc :: rest => some { state with
          waiters := state.waiters.deliver wc
          harvested := rest }
      | [] => none
  | .receive call =>
      match state.calls call with
      | .awaiting =>
          (finishBatch (lastWrId (wrs call)) (state.waiters.channels call)).map fun result =>
            state.setCall call (.returned result)
      | _ => none

end BatchState

end Rdmas.Model
