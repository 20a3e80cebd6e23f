import Rdmas.Model.RemoteInsert

/-! # Allocations and insertions on one server

`allocate_remote` and the Extent branch of `insert_remote` are two copies of one protocol on the same
bump word. Here calls of both kinds run against the same table and free-list region.
-/

namespace Rdmas.Model

open LittleEndian ByteMemory

/-- The arguments of the calls: payloads to allocate, keys and values to insert. -/
structure RemoteCalls (ι κ : Type) where
  data : ι → Bytes
  inserts : κ → InsertCall

structure RemoteState (ι κ : Type) where
  table : CuckooTable
  region : Memory
  allocations : ι → AllocPc
  insertions : κ → InsertPc

inductive RemoteLabel (ι κ : Type) where
  | allocate (call : ι)
  | insert (client : κ)
deriving DecidableEq, Repr

namespace RemoteState

variable {ι κ : Type}

/-- No call has started. -/
def initial (table : CuckooTable) (region : Memory) : RemoteState ι κ :=
  ⟨table, region, fun _ => .start, fun _ => .reading .first⟩

variable [DecidableEq ι] [DecidableEq κ]

/-- The next transport operation of one call. -/
def step (xxh64 : Xxh64) (calls : RemoteCalls ι κ) (state : RemoteState ι κ) :
    RemoteLabel ι κ → Option (RemoteState ι κ)
  | .allocate call =>
      ((state.allocations call).step xxh64 (calls.data call) state.region).map
        fun (region, pc) =>
          { state with region, allocations := Function.update state.allocations call pc }
  | .insert client =>
      ((state.insertions client).step xxh64 (calls.inserts client) state.table state.region).map
        fun (table, region, pc) =>
          { state with table, region, insertions := Function.update state.insertions client pc }

end RemoteState

end Rdmas.Model
