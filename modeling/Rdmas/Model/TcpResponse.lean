import Rdmas.Model.Tcp

/-! # Response frames of the TCP transport

The frames of `transport/tcp.rs` that answer a call, and what the call makes of the bytes that arrive. The
stream may end before the frame does; `read_exact` then fails with an I/O error, whose text is a parameter.
-/

namespace Rdmas.Model

open LittleEndian

/-- What a response can say. The length of the data fits its field. -/
structure TcpResponse where
  reqId : BitVec 64
  status : Byte
  data : Bytes
  swapped : Byte
  fits : data.length < 2 ^ 32
deriving DecidableEq, Repr

namespace TcpResponse

/-- What follows the status: length and data behind a READ, the verdict behind a CAS. -/
def body (response : TcpResponse) (opcode : Byte) : Bytes :=
  if opcode = opRead then encode 4 response.data.length ++ response.data
  else if opcode = opCas then [response.swapped]
  else []

/-- The frame that answers a request with the opcode. -/
def frame (response : TcpResponse) (opcode : Byte) : Bytes :=
  encode 8 response.reqId.toNat ++ response.status :: response.body opcode

end TcpResponse

namespace TcpTransport

/-- A call that has sent its request. -/
def await : TcpOp → Client
  | .read buf _ _ => awaitRead buf
  | .write _ _ _ => awaitWrite
  | .cas _ _ _ _ => awaitCas

/-- What a call returns when these bytes arrive before the stream ends. -/
def answer (eof : String) (op : TcpOp) (arrived : Bytes) : Except RdmaError TcpReply :=
  ((await op).feed arrived).elim (.error (.internal eof)) Prod.fst

end TcpTransport

namespace TcpReply

/-- The buffer that a read has filled. -/
def bytes : TcpReply → Bytes
  | .filled buf => buf
  | _ => []

/-- The verdict of a swap. -/
def verdict : TcpReply → Bool
  | .swapped verdict => verdict
  | _ => false

end TcpReply

end Rdmas.Model
