import Mathlib.Data.List.AList
import Rdmas.Model.ControlServer
import Rdmas.Model.EpochGc

/-! # The registry of the control server

The hash map of `ControlServer` with its iteration, which `min_active_ts` of `control/server.rs` needs: each
client id once, with the activity it told of and the time of its last heartbeat. The order of the entries
stands for that of the iteration.
-/

namespace Rdmas.Model

abbrev ClientTable := AList fun _ : BitVec 64 => BitVec 32 × ℕ

namespace ClientTable

variable (clients : ClientTable)

/-- What `heartbeat` does to the map. -/
def heartbeat (clientId : BitVec 64) (activeTs : BitVec 32) (now : ℕ) : ClientTable :=
  clients.insert clientId (activeTs, now)

/-- What `deregister` does to the map. -/
def deregister (clientId : BitVec 64) : ClientTable := clients.erase clientId

/-- The timestamps of `clients.values()`. -/
def timestamps : List (BitVec 32) := clients.entries.map fun entry => entry.2.1

/-- Get min active_ts across all clients (for GC). -/
def minActiveTs : BitVec 32 := minTimestamp clients.timestamps

/-- The map as the handlers see it. -/
def registry : ClientRegistry := fun id => clients.lookup id

theorem heartbeat_registry (clientId : BitVec 64) (activeTs : BitVec 32) (now : ℕ)
    (id : BitVec 64) : (clients.heartbeat clientId activeTs now).registry id =
      if id = clientId then some (activeTs, now) else clients.registry id := by
  rw [registry, heartbeat]
  split
  · next same => rw [same, AList.lookup_insert]
  · next differs => rw [AList.lookup_insert_ne differs, registry]

theorem deregister_registry (clientId id : BitVec 64) :
    (clients.deregister clientId).registry id = if id = clientId then none else clients.registry id := by
  rw [registry, deregister]
  split
  · next same => rw [same, AList.lookup_erase]
  · next differs => rw [AList.lookup_erase_ne differs, registry]

/-- The handlers of the server work on the map. -/
theorem registry_heartbeat (server : ControlServer) (clients : ClientTable) (clientId : BitVec 64)
    (activeTs : BitVec 32) (now : ℕ) : (clients.heartbeat clientId activeTs now).registry =
      (server.heartbeat clients.registry clientId activeTs now).1 :=
  funext (heartbeat_registry clients clientId activeTs now)

theorem registry_deregister (clients : ClientTable) (clientId : BitVec 64) :
    (clients.deregister clientId).registry = ControlServer.deregister clients.registry clientId :=
  funext (deregister_registry clients clientId)

theorem mem_timestamps {clients : ClientTable} {ts : BitVec 32} :
    ts ∈ clients.timestamps ↔ ∃ id heard, clients.registry id = some (ts, heard) := by
  simp only [timestamps, List.mem_map, registry, AList.mem_lookup_iff.eq, ← Option.mem_def]
  constructor
  · rintro ⟨⟨id, ts, heard⟩, listed, rfl⟩
    exact ⟨id, heard, listed⟩
  · rintro ⟨id, heard, listed⟩
    exact ⟨_, listed, rfl⟩

end ClientTable

end Rdmas.Model
