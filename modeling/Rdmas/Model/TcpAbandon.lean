import Rdmas.Model.TcpResponse

/-! # Abandoned calls on the TCP transport

The calls of one `TcpTransport` when the future of any of them may be dropped at any of its await points. A
dropped call gives the stream lock back and leaves both streams as they are. The peer is any server that
answers every complete request frame once and in order, with the request's own id: which response it gives
is a matter of the run, as is what it does with a byte that begins no request. Positions are counted in
the bytes of the requests, from the start of the connection.
-/

namespace Rdmas.Model

open LittleEndian

namespace TcpServer

/-- The length of the request frame that the bytes begin with, once they tell: opcode (1), request id (8)
and parameters, which for a WRITE end with the length of the payload. -/
def frameLength (bytes : Bytes) : Option ℕ :=
  if bytes.head? = some opRead then some 25
  else if bytes.head? = some opWrite then
    if 25 ≤ bytes.length then some (25 + decode ((bytes.drop 21).take 4)) else none
  else if bytes.head? = some opCas then some 37
  else none

/-- The complete request frame in front, and what follows it. -/
def nextFrame (bytes : Bytes) : Option (Bytes × Bytes) :=
  (frameLength bytes).bind fun length =>
    if length ≤ bytes.length then some (bytes.take length, bytes.drop length) else none

def isOpcode (opcode : Byte) : Bool := opcode == opRead || opcode == opWrite || opcode == opCas

/-- The request id of a frame. -/
def requestIdOf (frame : Bytes) : BitVec 64 := BitVec.ofNat 64 (decode ((frame.drop 1).take 8))

end TcpServer

/-- A call that has taken the lock, with the position at which its request begins. -/
structure PlacedCall where
  reqId : BitVec 64
  op : TcpOp
  position : ℕ
deriving DecidableEq, Repr

/-- A request that was answered, with the position at which its frame begins. -/
structure ServedRequest where
  position : ℕ
  frame : Bytes
  response : TcpResponse
deriving DecidableEq, Repr

/-- The transport with its lock, the two streams and the answers given. -/
structure TcpTraffic where
  requestId : BitVec 64
  waiting : List (BitVec 64 × TcpOp)
  holder : Option (PlacedCall × TcpTransport.Client)
  toServer : Bytes
  toClient : Bytes
  consumed : ℕ
  served : List ServedRequest
  returned : List (PlacedCall × Except RdmaError TcpReply)

inductive TrafficLabel where
  | issue (op : TcpOp)
  | lock (index : ℕ)
  | client (chunk : ℕ)
  | serve (response : TcpResponse)
  | garble (bytes : Bytes)
  | finish
  | abandon
  | forget (index : ℕ)
deriving DecidableEq, Repr

namespace TcpTraffic

def connect : TcpTraffic := ⟨1, [], none, [], [], 0, [], []⟩

/-- One step. A call is dropped while it holds the lock (`abandon`) or while it waits for it (`forget`). -/
def step (state : TcpTraffic) : TrafficLabel → Option TcpTraffic
  | .issue op => some { state with
      requestId := state.requestId + 1
      waiting := state.waiting ++ [(state.requestId, op)] }
  | .lock index =>
      match state.holder, state.waiting[index]? with
      | none, some (reqId, op) => some { state with
          waiting := state.waiting.eraseIdx index
          holder := some (⟨reqId, op, state.consumed + state.toServer.length⟩, TcpTransport.call reqId op) }
      | _, _ => none
  | .client chunk =>
      match state.holder with
      | none => none
      | some (call, program) =>
          (program.advance none TcpTransport.noLoop state.toClient state.toServer chunk).map
            fun (next, toClient, toServer) => { state with
              holder := some (call, next)
              toClient
              toServer }
  | .serve response =>
      match TcpServer.nextFrame state.toServer with
      | none => none
      | some (frame, rest) =>
          if response.reqId = TcpServer.requestIdOf frame then some { state with
            toServer := rest
            toClient := state.toClient ++ response.frame (frame.headD 0)
            consumed := state.consumed + frame.length
            served := state.served ++ [⟨state.consumed, frame, response⟩] }
          else none
  | .garble bytes =>
      match state.toServer with
      | [] => none
      | opcode :: rest =>
          if TcpServer.isOpcode opcode then none
          else some { state with
            toServer := rest
            toClient := state.toClient ++ bytes
            consumed := state.consumed + 1 }
  | .finish =>
      match state.holder with
      | some (call, .done result) => some { state with
          holder := none
          returned := state.returned ++ [(call, result)] }
      | _ => none
  | .abandon => if state.holder.isSome then some { state with holder := none } else none
  | .forget index =>
      if index < state.waiting.length then some { state with waiting := state.waiting.eraseIdx index }
      else none

end TcpTraffic

end Rdmas.Model
