import Rdmas.Model.ControlServer

/-! # Client sessions

`ClientSession` of `client/session.rs`, as far as the control plane is concerned. The answers a call gets
are its arguments: the version and the metadata, or none where the RPC fails, and whether a transport could
be created.
-/

namespace Rdmas.Model

inductive ClientSessionError where
  | grpc
  | rdma
  | versionMismatch (message : String)
deriving DecidableEq, Repr

structure ClientSession where
  clientId : BitVec 64
  metadata : ServerMetadata
  serverVersion : BitVec 32
deriving DecidableEq, Repr

/-- `ServerMetadata::default()` -/
def ServerMetadata.default : ServerMetadata := ⟨0, [], 0⟩

namespace ClientSession

def minCompatibleVersion : BitVec 32 := 1

def versionMismatchMessage (version minimum : ℕ) : String :=
  s!"Server version {version} is incompatible; minimum required is {minimum}"

def connect (clientId : BitVec 64) (version : Option GetVersionResponse)
    (discovered : Option ServerMetadata) (transport : Bool) : Except ClientSessionError ClientSession :=
  match version with
  | none => .error .grpc
  | some version =>
      if version.serviceVersion < minCompatibleVersion then
        .error (.versionMismatch
          (versionMismatchMessage version.serviceVersion.toNat minCompatibleVersion.toNat))
      else
        match discovered with
        | none => .error .grpc
        | some metadata =>
            if transport then .ok ⟨clientId, metadata, version.serviceVersion⟩ else .error .rdma

/-- Fetch the metadata again; on failure the cached copy stays. -/
def refreshMetadata (session : ClientSession) (discovered : Option ServerMetadata) :
    ClientSession × Except ClientSessionError Unit :=
  match discovered with
  | none => (session, .error .grpc)
  | some metadata => ({ session with metadata }, .ok ())

def invalidateMrMetadata (session : ClientSession) : ClientSession :=
  { session with metadata := .default }

def checkReconnectNeeded (session : ClientSession) (response : HeartbeatResponse) : Bool :=
  response.reconnect || response.generation != session.metadata.generation

/-- Invalidate the cached metadata, discover, create a transport, adopt what was discovered. -/
def reconnect (session : ClientSession) (discovered : Option ServerMetadata) (transport : Bool) :
    ClientSession × Except ClientSessionError Unit :=
  let invalidated := session.invalidateMrMetadata
  match discovered with
  | none => (invalidated, .error .grpc)
  | some metadata =>
      if transport then ({ invalidated with metadata }, .ok ()) else (invalidated, .error .rdma)

end ClientSession

end Rdmas.Model
