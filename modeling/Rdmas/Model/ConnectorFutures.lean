import Mathlib.Algebra.Ring.Nat
import Mathlib.Data.List.Basic
import Mathlib.Logic.Function.Basic

/-! # Futures of the connector

How `RDMANativeConnector` tells of finished batches, with its callers on any number of threads and the demux
thread of LMCache. A `submit_*` call draws a future id, processes its batch under the locks of the store,
pushes the completion and writes to the eventfd; a call that panics stops before it pushes. The demux thread
sleeps until the eventfd is readable, takes all completions with `drain_completions` and reads the eventfd,
which clears it. The comment of `drain_completions` puts the read after the drain; the other order is a
parameter. The eventfd does not count beyond `u64::MAX - 1`; a write that would is refused, and the refusal
ignored.
-/

namespace Rdmas.Model

/-- Where a `submit_*` call stands. -/
inductive SubmitPc where
  | idle
  | drawn (futureId : BitVec 64)
  | pushed (futureId : BitVec 64)
  | returned (futureId : BitVec 64)
  | panicked (futureId : BitVec 64)
deriving DecidableEq, Repr

inductive DemuxPc where
  | waiting
  | woken
  | between
deriving DecidableEq, Repr

/-- The shared counters and lists, the threads, and everything that was drained, in order. -/
structure FuturesState (ι : Type) where
  nextId : BitVec 64
  completions : List (BitVec 64 × List Bool)
  counter : BitVec 64
  calls : ι → SubmitPc
  demux : DemuxPc
  drained : List (BitVec 64 × List Bool)

inductive FuturesLabel (ι : Type) where
  | draw (call : ι)
  | push (call : ι) (results : List Bool)
  | panic (call : ι)
  | notify (call : ι)
  | wake
  | drain
  | clear
deriving DecidableEq, Repr

namespace FuturesState

variable {ι : Type} [DecidableEq ι]

def initial : FuturesState ι := ⟨1, [], 0, fun _ => .idle, .waiting, []⟩

def setCall (state : FuturesState ι) (call : ι) (pc : SubmitPc) : FuturesState ι :=
  { state with calls := Function.update state.calls call pc }

/-- A write of 1 to the eventfd. -/
def signal (counter : BitVec 64) : BitVec 64 :=
  if counter.toNat + 1 ≤ 2 ^ 64 - 2 then counter + 1 else counter

/-- One step; `none` where the label does not fit. -/
def step (clearsFirst : Bool) (state : FuturesState ι) : FuturesLabel ι → Option (FuturesState ι)
  | .draw call =>
      match state.calls call with
      | .idle => some { state.setCall call (.drawn state.nextId) with nextId := state.nextId + 1 }
      | _ => none
  | .push call results =>
      match state.calls call with
      | .drawn futureId => some { state.setCall call (.pushed futureId) with
          completions := state.completions ++ [(futureId, results)] }
      | _ => none
  | .panic call =>
      match state.calls call with
      | .drawn futureId => some (state.setCall call (.panicked futureId))
      | _ => none
  | .notify call =>
      match state.calls call with
      | .pushed futureId => some { state.setCall call (.returned futureId) with
          counter := signal state.counter }
      | _ => none
  | .wake =>
      if state.demux = .waiting ∧ state.counter ≠ 0 then some { state with demux := .woken } else none
  | .drain =>
      if state.demux = bif clearsFirst then .between else .woken then
        some { state with
          completions := []
          drained := state.drained ++ state.completions
          demux := bif clearsFirst then .waiting else .between }
      else none
  | .clear =>
      if state.demux = bif clearsFirst then .woken else .between then
        some { state with counter := 0, demux := bif clearsFirst then .between else .waiting }
      else none

end FuturesState

end Rdmas.Model
