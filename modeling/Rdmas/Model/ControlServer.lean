import Rdmas.Model.Bootstrap

/-! # The control server

What `ControlServer` of `control/server.rs` answers: `discover` tells a client about the memory regions of
its server, a heartbeat about the server's generation. The address of the free-list header is that of a
field of the running engine, so it is an argument; so are the registry of clients, which only heartbeats
and departures touch, and the time.
-/

namespace Rdmas.Model

inductive RegionType where
  | hashTable
  | largeObject
  | freeList
deriving DecidableEq, Repr

structure RegionMetadata where
  vaddr : ℕ
  rkey : BitVec 32
  size : ℕ
  regionType : RegionType
  generation : BitVec 64
deriving DecidableEq, Repr

structure ServerMetadata where
  generation : BitVec 64
  regions : List RegionMetadata
  bucketCount : ℕ
deriving DecidableEq, Repr

structure HeartbeatResponse where
  generation : BitVec 64
  reconnect : Bool
  serverVersion : BitVec 32
deriving DecidableEq, Repr

structure GetVersionResponse where
  serviceVersion : BitVec 32
  serviceVersionStr : String
  minCompatibleVersion : BitVec 32
deriving DecidableEq, Repr

/-- Client id to the activity it told of and the time of its last heartbeat. -/
def ClientRegistry := BitVec 64 → Option (BitVec 32 × ℕ)

structure ControlServer where
  engine : BootstrappedEngine
  generation : BitVec 64

namespace ControlServer

def new (engine : BootstrappedEngine) : ControlServer := ⟨engine, 1⟩

def discover (server : ControlServer) (freeListHeaderAddr : ℕ) : ServerMetadata where
  generation := server.generation
  bucketCount := server.engine.bucketCount
  regions := [
    ⟨0, 0, server.engine.bucketCount * 64, .hashTable, server.generation⟩,
    ⟨0, 0, server.engine.largeObjectCapacity, .largeObject, server.generation⟩,
    ⟨freeListHeaderAddr, 0, 64, .freeList, server.generation⟩]

def serviceVersion : BitVec 32 := 1

def serviceVersionStr : String := "1.0.0"

def minCompatibleVersion : BitVec 32 := 1

def heartbeat (server : ControlServer) (clients : ClientRegistry) (clientId : BitVec 64)
    (activeTs : BitVec 32) (now : ℕ) : ClientRegistry × HeartbeatResponse :=
  (fun id => if id = clientId then some (activeTs, now) else clients id,
    ⟨server.generation, false, serviceVersion⟩)

def deregister (clients : ClientRegistry) (clientId : BitVec 64) : ClientRegistry :=
  fun id => if id = clientId then none else clients id

def getVersion : GetVersionResponse := ⟨serviceVersion, serviceVersionStr, minCompatibleVersion⟩

end ControlServer

end Rdmas.Model
