import Rdmas.Model.RdmaRuntime
import Rdmas.Model.RdmaTransport

/-! # Compare-and-swap on a remote word

Clients swap one 64-bit word of a remote host, each through a transport or a runtime of its own, with
`RdmaTransport::cas` or `RdmaRuntime::rdma_cas`. The adapter of the remote side executes the requests that
were posted one at a time, in any order. By the rule of the verbs library a request completes after it was
executed, with success whether or not the comparison matched, and brings back the original word.
-/

namespace Rdmas.Model

variable {κ ι : Type}

/-- The completion of a swap, whatever became of the comparison. -/
def casCompletion : WorkCompletion := ⟨0, .success, 8, 0⟩

/-- What `RdmaTransport::cas` has returned. -/
def TransportPc.casReply : TransportPc → Option (Except RdmaError Bool)
  | .returned (.ok (.swapped verdict)) => some (.ok verdict)
  | .returned (.error error) => some (.error error)
  | _ => none

/-- What `RdmaRuntime::rdma_cas` has returned. -/
def RuntimePc.casReply : RuntimePc → Option (Except RdmaError Bool)
  | .returned _ (.ok (.swapped verdict)) => some (.ok verdict)
  | .returned _ (.error error) => some (.error error)
  | _ => none

/-- A client, by the path it swaps with. -/
inductive CasClient (ι : Type) where
  | transport (state : TransportState ι)
  | runtime (state : RuntimeState ι)

inductive ClientLabel (ι : Type) where
  | transport (label : TransportLabel ι)
  | runtime (label : RuntimeLabel ι)
deriving DecidableEq, Repr

/-- The call whose request the step completes. -/
def ClientLabel.completes : ClientLabel ι → Option ι
  | .transport (.complete call) | .runtime (.complete call) => some call
  | _ => none

namespace CasClient

def requests : CasClient ι → ι → RequestState
  | .transport state => state.requests
  | .runtime state => state.requests

def reply : CasClient ι → ι → Option (Except RdmaError Bool)
  | .transport state, call => (state.calls call).casReply
  | .runtime state, call => (state.calls call).casReply

def step [DecidableEq ι] : CasClient ι → ClientLabel ι → Option (CasClient ι)
  | .transport state, .transport label =>
      (state.step (fun _ => .cas) (fun _ => casCompletion) label).map .transport
  | .runtime state, .runtime label =>
      (state.step (fun _ => .cas) (fun _ => casCompletion) label).map .runtime
  | _, _ => none

end CasClient

/-- The word and its clients. Of every request that was executed, `executed` has the word it found, which
is what the request brings back, and the word it left. -/
structure CasSystem (κ ι : Type) where
  word : BitVec 64
  clients : κ → CasClient ι
  executed : κ × ι → Option (BitVec 64 × BitVec 64)

inductive CasLabel (κ ι : Type) where
  | client (client : κ) (label : ClientLabel ι)
  | execute (client : κ) (call : ι)
deriving DecidableEq, Repr

inductive CasPath where
  | transport
  | runtime

namespace CasSystem

/-- Nobody has called yet. -/
def initial (word : BitVec 64) (paths : κ → CasPath) : CasSystem κ ι where
  word := word
  clients client :=
    match paths client with
    | .transport => .transport .initial
    | .runtime => .runtime .initial
  executed _ := none

def reply (system : CasSystem κ ι) (swap : κ × ι) : Option (Except RdmaError Bool) :=
  (system.clients swap.1).reply swap.2

variable [DecidableEq κ] [DecidableEq ι]

/-- One step: a client moves on, or the adapter executes a request. What completes was executed. -/
def step (compare swap : κ × ι → BitVec 64) (system : CasSystem κ ι) :
    CasLabel κ ι → Option (CasSystem κ ι)
  | .client client label =>
      if label.completes.all fun call => (system.executed (client, call)).isSome then
        ((system.clients client).step label).map fun next =>
          { system with clients := Function.update system.clients client next }
      else none
  | .execute client call =>
      match (system.clients client).requests call, system.executed (client, call) with
      | .inFlight _, none =>
          let after := if system.word = compare (client, call) then swap (client, call) else system.word
          some { system with
            word := after
            executed := Function.update system.executed (client, call) (some (system.word, after)) }
      | _, _ => none

end CasSystem

end Rdmas.Model
