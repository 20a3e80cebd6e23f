import Mathlib.Data.List.Basic
import Mathlib.Logic.Function.Basic
import Rdmas.Model.Error

/-! # Completions and their waiters

Work completions of `rdma/cq.rs`, and the map from request ids to waiters through which the poller
threads of `runtime/poller.rs` hand each completion to the call that awaits it. The bindings of the
verbs library are generated, so a failed status is known by its name only.
-/

namespace Rdmas.Model

/-- `ibv_wc_status`: success, or one of the error codes. -/
inductive WcStatus where
  | success
  | failed (name : String)
deriving DecidableEq, Repr

/-- A single work completion entry, with the fields somebody reads. -/
structure WorkCompletion where
  wrId : BitVec 64
  status : WcStatus
  byteLen : BitVec 32
  vendorErr : BitVec 32
deriving DecidableEq, Repr

namespace WorkCompletion

def isSuccess (wc : WorkCompletion) : Bool := wc.status == .success

/-- What a poller sends to the waiter of a completion. -/
def result (wc : WorkCompletion) : Except RdmaError WorkCompletion :=
  match wc.status with
  | .success => .ok wc
  | .failed name =>
      .error (.hardwareError ("WC error: status=" ++ name ++ ", vendor_err=" ++
        toString wc.vendorErr.toNat))

end WorkCompletion

/-- What the queue pair has done with the request of a call. -/
inductive RequestState where
  | absent
  | inFlight (wrId : BitVec 64)
  | completed
deriving DecidableEq, Repr

/-- The shared pending-completion map, from request ids to senders. -/
abbrev PendingMap (ω : Type) := BitVec 64 → Option ω

namespace PendingMap

variable {ω : Type}

def empty : PendingMap ω := fun _ => none

def insert (pending : PendingMap ω) (wrId : BitVec 64) (sender : ω) : PendingMap ω :=
  Function.update pending wrId (some sender)

def remove (pending : PendingMap ω) (wrId : BitVec 64) : PendingMap ω :=
  Function.update pending wrId none

/-- Look one completion up and take its sender out; a completion without an entry is dropped. -/
def dispatch (pending : PendingMap ω) (wc : WorkCompletion) :
    PendingMap ω × Option (ω × Except RdmaError WorkCompletion) :=
  match pending wc.wrId with
  | some sender => (pending.remove wc.wrId, some (sender, wc.result))
  | none => (pending, none)

/-- Dispatch a batch, and list what was sent to whom. -/
def dispatchAll (pending : PendingMap ω) :
    List WorkCompletion → PendingMap ω × List (ω × Except RdmaError WorkCompletion)
  | [] => (pending, [])
  | wc :: rest =>
      let (pending, sent) := pending.dispatch wc
      let (pending, later) := pending.dispatchAll rest
      (pending, sent.toList ++ later)

end PendingMap

/-- The oneshot channel of a call. -/
inductive Oneshot where
  | empty
  | sent (result : Except RdmaError WorkCompletion)
  | dropped
deriving DecidableEq

/-- The pending map with the channels its senders belong to. -/
structure Waiters (ι : Type) where
  pending : PendingMap ι
  channels : ι → Oneshot

namespace Waiters

variable {ι : Type} [DecidableEq ι]

def initial : Waiters ι := ⟨.empty, fun _ => .empty⟩

def setChannel (waiters : Waiters ι) (call : ι) (channel : Oneshot) : Waiters ι :=
  { waiters with channels := Function.update waiters.channels call channel }

/-- Whoever waited under an id loses its sender when the entry is overwritten or removed. -/
def dropSender (waiters : Waiters ι) (wrId : BitVec 64) : Waiters ι :=
  match waiters.pending wrId with
  | some waiter => waiters.setChannel waiter .dropped
  | none => waiters

/-- Insert the sender of a call. -/
def insert (waiters : Waiters ι) (wrId : BitVec 64) (call : ι) : Waiters ι :=
  { waiters.dropSender wrId with pending := waiters.pending.insert wrId call }

/-- Remove an entry. -/
def remove (waiters : Waiters ι) (wrId : BitVec 64) : Waiters ι :=
  { waiters.dropSender wrId with pending := waiters.pending.remove wrId }

/-- Hand one completion to whoever waits under its id. -/
def deliver (waiters : Waiters ι) (wc : WorkCompletion) : Waiters ι :=
  let (pending, sent) := waiters.pending.dispatch wc
  match sent with
  | some (waiter, result) => { waiters.setChannel waiter (.sent result) with pending }
  | none => waiters

end Waiters

/-- Entries a poller thread asks for in one `poll`. -/
def pollBatch : ℕ := 16

end Rdmas.Model
