import Rdmas.Math.ByteMemory
import Rdmas.Math.StreamProgram
import Rdmas.Model.Error

/-! # The TCP transport and its peer

`TcpTransport` of `transport/tcp.rs` and `handle_client` of the integration tests, the reference server of
the frame protocol. Both are programs over the two byte streams of a connection. A call draws a request
id, waits for the stream lock, and keeps it until it returns. The streams are reliable, so the branches
for an I/O error are not taken. The server's buffer is a flat memory with its length; an index the source
would reject with a panic ends the handler.
-/

namespace Rdmas.Model

open LittleEndian

def opRead : Byte := 0x01

def opWrite : Byte := 0x02

def opCas : Byte := 0x03

/-- The calls of a transport. A read fills the buffer it is given; the local key is never used. -/
inductive TcpOp where
  | read (buf : Bytes) (remoteAddr : BitVec 64) (rkey : BitVec 32)
  | write (buf : Bytes) (remoteAddr : BitVec 64) (rkey : BitVec 32)
  | cas (compare swap remoteAddr : BitVec 64) (rkey : BitVec 32)
deriving DecidableEq, Repr

/-- What a successful call leaves with its caller: the filled buffer, nothing, or the verdict. -/
inductive TcpReply where
  | filled (buf : Bytes)
  | written
  | swapped (verdict : Bool)
deriving DecidableEq, Repr

namespace TcpTransport

abbrev Client := StreamProgram Byte (Except RdmaError TcpReply)

/-- The four fields every request begins with. -/
def sendHead (opcode : Byte) (reqId remoteAddr : BitVec 64) (rkey : BitVec 32) (next : Client) : Client :=
  .writeAll [opcode] <| .writeAll (encode 8 reqId.toNat) <| .writeAll (encode 8 remoteAddr.toNat) <|
    .writeAll (encode 4 rkey.toNat) next

/-- Read the response to a READ: request id (8), status (1) and length (4), then the data. -/
def awaitRead (buf : Bytes) : Client :=
  .readExact 13 fun header =>
    if header.getD 8 0 ≠ 0 then .done (.error (.internal "TCP READ failed"))
    else
      let dataLen := decode ((header.drop 9).take 4)
      let copyLen := min dataLen buf.length
      .readExact dataLen fun data => .done (.ok (.filled (data.take copyLen ++ buf.drop copyLen)))

def read (reqId : BitVec 64) (buf : Bytes) (remoteAddr : BitVec 64) (rkey : BitVec 32) : Client :=
  sendHead opRead reqId remoteAddr rkey <| .writeAll (encode 4 buf.length) <| awaitRead buf

/-- Read the response to a WRITE: request id (8) and status (1). -/
def awaitWrite : Client :=
  .readExact 9 fun resp =>
    if resp.getD 8 0 ≠ 0 then .done (.error (.internal "TCP WRITE failed")) else .done (.ok .written)

def write (reqId : BitVec 64) (buf : Bytes) (remoteAddr : BitVec 64) (rkey : BitVec 32) : Client :=
  sendHead opWrite reqId remoteAddr rkey <| .writeAll (encode 4 buf.length) <| .writeAll buf awaitWrite

/-- Read the response to a CAS: request id (8), status (1) and verdict (1). -/
def awaitCas : Client :=
  .readExact 10 fun resp =>
    .done (.ok (.swapped (decide (resp.getD 8 0 = 0) && decide (resp.getD 9 0 = 1))))

def cas (reqId compare swap remoteAddr : BitVec 64) (rkey : BitVec 32) : Client :=
  sendHead opCas reqId remoteAddr rkey <| .writeAll (encode 8 compare.toNat) <|
    .writeAll (encode 8 swap.toNat) awaitCas

/-- The program of a call that has drawn a request id. -/
def call (reqId : BitVec 64) : TcpOp → Client
  | .read buf remoteAddr rkey => read reqId buf remoteAddr rkey
  | .write buf remoteAddr rkey => write reqId buf remoteAddr rkey
  | .cas compare swap remoteAddr rkey => cas reqId compare swap remoteAddr rkey

/-- A call is over with its first result. -/
def noLoop : Except RdmaError TcpReply → Option Client := fun _ => none

end TcpTransport

/-- How the handler of a connection ends. -/
inductive HandlerExit where
  | unknownOpcode
  | panicked
deriving DecidableEq, Repr

namespace TcpServer

abbrev Handler := StreamProgram Byte (Except HandlerExit ByteMemory.Memory)

variable (size : ℕ) (buffer : ByteMemory.Memory)

/-- The READ branch: `params` are address (8), rkey (4) and length (4). -/
def handleRead (reqId : ℕ) (params : Bytes) : Handler :=
  let offset := decode (params.take 8)
  let dataLen := decode ((params.drop 12).take 4)
  -- `offset + data_len` overflows.
  if 2 ^ 64 ≤ offset + dataLen then .done (.error .panicked)
  else
    let stop := min (offset + dataLen) size
    let actualLen := stop - offset
    .writeAll (encode 8 reqId ++ [0x00] ++ encode 4 actualLen) <|
      if 0 < actualLen then
        .writeAll (ByteMemory.read buffer offset actualLen) <| .done (.ok buffer)
      else .done (.ok buffer)

/-- The WRITE branch once its payload is read. -/
def storePayload (reqId offset : ℕ) (data : Bytes) : Handler :=
  if 2 ^ 64 ≤ offset + data.length then .done (.error .panicked)
  else
    let stop := min (offset + data.length) size
    -- `end - offset` underflows.
    if stop < offset then .done (.error .panicked)
    else .writeAll (encode 8 reqId ++ [0x00]) <|
      .done (.ok (ByteMemory.write buffer offset (data.take (stop - offset))))

def handleWrite (reqId : ℕ) (params : Bytes) : Handler :=
  let offset := decode (params.take 8)
  let dataLen := decode ((params.drop 12).take 4)
  .readExact dataLen fun data => storePayload size buffer reqId offset data

/-- The CAS branch: `params` are address (8), rkey (4), the expected and the new word (8 each). -/
def handleCas (reqId : ℕ) (params : Bytes) : Handler :=
  let offset := decode (params.take 8)
  let compare := decode ((params.drop 12).take 8)
  let swap := decode ((params.drop 20).take 8)
  if 2 ^ 64 ≤ offset + 8 then .done (.error .panicked)
  else if offset + 8 ≤ size then
    if ByteMemory.word buffer 8 offset = compare then
      .writeAll (encode 8 reqId ++ [0x00, 1]) <| .done (.ok (ByteMemory.write buffer offset (encode 8 swap)))
    else .writeAll (encode 8 reqId ++ [0x00, 0]) <| .done (.ok buffer)
  else .writeAll (encode 8 reqId ++ [0x01, 0x00]) <| .done (.ok buffer)

/-- The branch of an opcode. -/
def dispatch (opcode : Byte) (reqId : ℕ) : Handler :=
  if opcode = opRead then .readExact 16 (handleRead size buffer reqId)
  else if opcode = opWrite then .readExact 16 (handleWrite size buffer reqId)
  else if opcode = opCas then .readExact 28 (handleCas size buffer reqId)
  else .done (.error .unknownOpcode)

/-- One turn of the handler's loop: read an opcode and a request id, then serve the request. -/
def handleClient : Handler :=
  .readExact 1 fun opcode => .readExact 8 fun reqIdBuf =>
    dispatch size buffer (opcode.getD 0 0) (decode reqIdBuf)

/-- The loop goes on with the buffer it has until the handler ends. -/
def handlerLoop : Except HandlerExit ByteMemory.Memory → Option Handler
  | .ok buffer => some (handleClient size buffer)
  | .error _ => none

end TcpServer

/-- A call of a task, with the request id it has drawn. -/
structure TcpCall (ι : Type) where
  task : ι
  reqId : BitVec 64
  op : TcpOp
deriving DecidableEq, Repr

/-- A connection: the transport with its lock, the two streams, and the handler. The calls in the order in
which they took the lock, and those that have returned with what they returned, are recorded. -/
structure TcpConnection (ι : Type) where
  requestId : BitVec 64
  waiting : List (TcpCall ι)
  holder : Option (TcpCall ι × TcpTransport.Client)
  handler : TcpServer.Handler
  toServer : Bytes
  toClient : Bytes
  taken : List (TcpCall ι)
  returned : List (TcpCall ι × Except RdmaError TcpReply)

inductive TcpLabel (ι : Type) where
  | issue (task : ι) (op : TcpOp)
  | lock (index : ℕ)
  | client (chunk : ℕ)
  | server (chunk : ℕ)
  | finish
deriving DecidableEq, Repr

namespace TcpConnection

variable {ι : Type}

/-- Connected, with a fresh request counter and the handler at the top of its loop. -/
def connect (size : ℕ) (buffer : ByteMemory.Memory) : TcpConnection ι :=
  ⟨1, [], none, TcpServer.handleClient size buffer, [], [], [], []⟩

/-- One step: `fetch_add` on the id counter, the lock passing to one of the calls that wait for it, a chunk
moved by the call that holds it or by the handler, or the return of that call. The streams hold at most
`capacity` bytes each, if they are bounded. -/
def step (capacity : Option ℕ) (size : ℕ) (state : TcpConnection ι) :
    TcpLabel ι → Option (TcpConnection ι)
  | .issue task op => some { state with
      requestId := state.requestId + 1
      waiting := state.waiting ++ [⟨task, state.requestId, op⟩] }
  | .lock index =>
      match state.holder, state.waiting[index]? with
      | none, some call => some { state with
          waiting := state.waiting.eraseIdx index
          holder := some (call, TcpTransport.call call.reqId call.op)
          taken := state.taken ++ [call] }
      | _, _ => none
  | .client chunk =>
      match state.holder with
      | none => none
      | some (call, program) =>
          (program.advance capacity TcpTransport.noLoop state.toClient state.toServer chunk).map
            fun (next, toClient, toServer) => { state with
              holder := some (call, next)
              toClient
              toServer }
  | .server chunk =>
      (state.handler.advance capacity (TcpServer.handlerLoop size) state.toServer state.toClient
        chunk).map fun (handler, toServer, toClient) => { state with handler, toServer, toClient }
  | .finish =>
      match state.holder with
      | some (call, .done result) => some { state with
          holder := none
          returned := state.returned ++ [(call, result)] }
      | _ => none

end TcpConnection

end Rdmas.Model
