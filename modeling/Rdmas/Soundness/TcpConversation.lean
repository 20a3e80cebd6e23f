import Mathlib.Algebra.BigOperators.Group.List.Basic
import Mathlib.Data.List.Perm.Basic
import Rdmas.Model.Tcp

/-! # The TCP conversation as a memory

Each request is a frame that the handler parses block by block, and each answer one that the caller
parses; neither has a length of its own in front, so the two sides agree because every block they read
was sized by fields read before. `serves` says this once for every call. The stream lock keeps one
exchange at a time under way, and the calls come out as if executed one after the other on the buffer.
-/

namespace Rdmas.Soundness

open Rdmas.Model LittleEndian StreamProgram TcpServer
open TcpTransport (noLoop awaitRead awaitWrite awaitCas)

/-- What a call does to a byte buffer of its own, and what it is told. -/
def TcpOp.execute (buffer : ByteMemory.Memory) : TcpOp → ByteMemory.Memory × TcpReply
  | .read buf remoteAddr _ => (buffer, .filled (ByteMemory.read buffer remoteAddr.toNat buf.length))
  | .write buf remoteAddr _ => (ByteMemory.write buffer remoteAddr.toNat buf, .written)
  | .cas compare swap remoteAddr _ =>
      if ByteMemory.word buffer 8 remoteAddr.toNat = compare.toNat then
        (ByteMemory.write buffer remoteAddr.toNat (encode 8 swap.toNat), .swapped true)
      else (buffer, .swapped false)

/-- The range of a call lies inside the buffer, and its length fits the frame. -/
def TcpOp.Inside (size : ℕ) : TcpOp → Prop
  | .read buf remoteAddr _ => remoteAddr.toNat + buf.length ≤ size ∧ buf.length < 2 ^ 32
  | .write buf remoteAddr _ => remoteAddr.toNat + buf.length ≤ size ∧ buf.length < 2 ^ 32
  | .cas _ _ remoteAddr _ => remoteAddr.toNat + 8 ≤ size

instance (size : ℕ) : (op : TcpOp) → Decidable (TcpOp.Inside size op)
  | .read _ _ _ => inferInstanceAs (Decidable (_ ∧ _))
  | .write _ _ _ => inferInstanceAs (Decidable (_ ∧ _))
  | .cas _ _ _ _ => inferInstanceAs (Decidable (_ ≤ _))

/-- The opcode of a call. -/
def TcpOp.opcode : TcpOp → Byte
  | .read _ _ _ => opRead
  | .write _ _ _ => opWrite
  | .cas _ _ _ _ => opCas

/-- The parameters of a request, and the payload behind them. -/
def TcpOp.params : TcpOp → Bytes
  | .read buf remoteAddr rkey =>
      encode 8 remoteAddr.toNat ++ (encode 4 rkey.toNat ++ encode 4 buf.length)
  | .write buf remoteAddr rkey =>
      encode 8 remoteAddr.toNat ++ (encode 4 rkey.toNat ++ encode 4 buf.length)
  | .cas compare swap remoteAddr rkey =>
      encode 8 remoteAddr.toNat ++ (encode 4 rkey.toNat ++
        (encode 8 compare.toNat ++ encode 8 swap.toNat))

def TcpOp.data : TcpOp → Bytes
  | .write buf _ _ => buf
  | _ => []

/-- The number of bytes the answer brings. -/
def TcpOp.fetched : TcpOp → ℕ
  | .read buf _ _ => buf.length
  | _ => 0

/-- The frame of a request. -/
def TcpOp.request (reqId : BitVec 64) (op : TcpOp) : Bytes :=
  [opcode op] ++ (encode 8 reqId.toNat ++ (params op ++ data op))

/-- The frame of the answer to a request whose range lies inside the buffer. -/
def TcpOp.response (reqId : BitVec 64) (buffer : ByteMemory.Memory) : TcpOp → Bytes
  | .read buf remoteAddr _ =>
      (encode 8 reqId.toNat ++ [0x00] ++ encode 4 buf.length) ++
        ByteMemory.read buffer remoteAddr.toNat buf.length
  | .write _ _ _ => encode 8 reqId.toNat ++ [0x00]
  | .cas compare _ remoteAddr _ =>
      encode 8 reqId.toNat ++
        [0x00, if ByteMemory.word buffer 8 remoteAddr.toNat = compare.toNat then 1 else 0]

/-- A call and the handler understand each other: the handler parses the request, the caller the answer,
and the call has the effect and the result it has on the buffer alone. -/
structure Understood (size : ℕ) (buffer : ByteMemory.Memory) (reqId : BitVec 64) (op : TcpOp)
    (waiting : TcpTransport.Client) (answering : Handler) : Prop where
  sends : Sends noLoop waiting (TcpTransport.call reqId op) (TcpOp.request reqId op)
    ((TcpOp.data op).length + 43)
  receives : Receives (handlerLoop size) answering (handleClient size buffer) (TcpOp.request reqId op)
    ((TcpOp.data op).length + 40)
  listens : Receives noLoop (.done (.ok (TcpOp.execute buffer op).2)) waiting
    (TcpOp.response reqId buffer op) (TcpOp.fetched op + 15)
  answers : Sends (handlerLoop size) (handleClient size (TcpOp.execute buffer op).1) answering
    (TcpOp.response reqId buffer op) (TcpOp.fetched op + 16)

section Frames

variable {size : ℕ} {buffer : ByteMemory.Memory} {reqId remoteAddr : BitVec 64} {rkey : BitVec 32}

private theorem sends_head {opcode : Byte} {next waiting : TcpTransport.Client} {symbols : Bytes} {work : ℕ}
    (onward : Sends noLoop waiting next symbols work) :
    Sends noLoop waiting (TcpTransport.sendHead opcode reqId remoteAddr rkey next)
      ([opcode] ++ (encode 8 reqId.toNat ++ (encode 8 remoteAddr.toNat ++ (encode 4 rkey.toNat ++ symbols))))
      (1 + (8 + (8 + (4 + work + 1) + 1) + 1) + 1) := by
  unfold TcpTransport.sendHead
  exact .block List.length_singleton (.block (encode_length 8 reqId.toNat)
    (.block (encode_length 8 remoteAddr.toNat) (.block (encode_length 4 rkey.toNat) onward)))

private theorem receives_head {opcode : Byte} {answering : Handler} {symbols : Bytes} {work : ℕ}
    (onward : Receives (handlerLoop size) answering (dispatch size buffer opcode reqId.toNat) symbols work) :
    Receives (handlerLoop size) answering (handleClient size buffer)
      ([opcode] ++ (encode 8 reqId.toNat ++ symbols)) (1 + (8 + work + 1) + 1) := by
  unfold handleClient
  refine .block List.length_singleton (.block (encode_length 8 reqId.toNat) ?_)
  rwa [decode_encode_of_lt reqId.isLt]

/-- A request is served, and the loop starts over. -/
theorem back_to_loop (size : ℕ) (buffer : ByteMemory.Memory) :
    Sends (handlerLoop size) (handleClient size buffer) (.done (.ok buffer)) [] 1 :=
  .again rfl (@Sends.here _ _ _ _ 0)

/-- The handler sends the last block of its answer, and the loop starts over. -/
theorem sends_last (size : ℕ) (buffer : ByteMemory.Memory) {block : Bytes} {count : ℕ}
    (length : block.length = count) :
    Sends (handlerLoop size) (handleClient size buffer) (.writeAll block (.done (.ok buffer))) block
      (count + 2) := by
  have sent := Sends.block length (back_to_loop size buffer)
  rwa [List.append_nil] at sent

/-- What stands behind the request id of an answer. -/
theorem getD_behind_id (reqId : BitVec 64) (rest : Bytes) (index : ℕ) :
    (encode 8 reqId.toNat ++ rest).getD (8 + index) 0 = rest.getD index 0 := by
  have behind : (encode 8 reqId.toNat).length ≤ 8 + index := by
    rw [encode_length]
    omega
  rw [List.getD_append_right _ _ _ _ behind, encode_length, Nat.add_sub_cancel_left]

/-- The address leads the parameters. -/
theorem decode_address (remoteAddr : BitVec 64) (rest : Bytes) :
    decode ((encode 8 remoteAddr.toNat ++ rest).take 8) = remoteAddr.toNat := by
  rw [List.take_left' (encode_length 8 _), decode_encode_of_lt remoteAddr.isLt]

/-- The fields behind address and key begin at byte 12. -/
theorem decode_behind_key {width value : ℕ} (remoteAddr : BitVec 64) (rkey : BitVec 32) (rest : Bytes)
    (bound : value < 256 ^ width) :
    decode (((encode 8 remoteAddr.toNat ++ (encode 4 rkey.toNat ++ (encode width value ++ rest))).drop
      12).take width) = value := by
  rw [← List.append_assoc]
  exact decode_field _ rest (by simp) bound

/-- The length of a read or a write is the last field. -/
theorem decode_length (remoteAddr : BitVec 64) (rkey : BitVec 32) {length : ℕ} (short : length < 2 ^ 32) :
    decode (((encode 8 remoteAddr.toNat ++ (encode 4 rkey.toNat ++ encode 4 length)).drop 12).take 4) =
      length := by
  have field := @decode_behind_key 4 _ remoteAddr rkey [] short
  rwa [List.append_nil] at field

private theorem dispatch_read : dispatch size buffer opRead reqId.toNat =
    .readExact 16 (handleRead size buffer reqId.toNat) := if_pos rfl

private theorem dispatch_write : dispatch size buffer opWrite reqId.toNat =
    .readExact 16 (handleWrite size buffer reqId.toNat) := by
  rw [dispatch, if_neg (by decide), if_pos rfl]

private theorem dispatch_cas : dispatch size buffer opCas reqId.toNat =
    .readExact 28 (handleCas size buffer reqId.toNat) := by
  rw [dispatch, if_neg (by decide), if_neg (by decide), if_pos rfl]

/-- Whatever its opcode, the handler comes to the parameters of a request. -/
theorem receives_request {op : TcpOp} {answering : Handler} {next : Bytes → Handler} {count work : ℕ}
    (branch : dispatch size buffer (TcpOp.opcode op) reqId.toNat = .readExact count next)
    (length : (TcpOp.params op).length = count)
    (onward : Receives (handlerLoop size) answering (next (TcpOp.params op)) (TcpOp.data op) work) :
    Receives (handlerLoop size) answering (handleClient size buffer) (TcpOp.request reqId op)
      (1 + (8 + (count + work + 1) + 1) + 1) := by
  unfold TcpOp.request
  exact receives_head (branch ▸ .block length onward)

/-- The header of an answer: status and length stand behind the request id. -/
theorem awaitRead_header (reqId : BitVec 64) {value : ℕ} (short : value < 2 ^ 32) :
    (encode 8 reqId.toNat ++ [(0x00 : Byte)] ++ encode 4 value).getD 8 0 = 0 ∧
      decode (((encode 8 reqId.toNat ++ [(0x00 : Byte)] ++ encode 4 value).drop 9).take 4) = value := by
  constructor
  · rw [List.append_assoc]
    exact getD_behind_id reqId _ 0
  · have field := @decode_field 4 value 9 (encode 8 reqId.toNat ++ [(0x00 : Byte)]) [] (by simp) short
    rwa [List.append_nil] at field

section Read

variable {buf : Bytes}

theorem sends_read : Sends noLoop (awaitRead buf)
    (TcpTransport.read reqId buf remoteAddr rkey) (TcpOp.request reqId (.read buf remoteAddr rkey)) 43 := by
  have sent : Sends noLoop (awaitRead buf) (TcpTransport.read reqId buf remoteAddr rkey) _ _ :=
    sends_head (.block (encode_length 4 buf.length) (@Sends.here _ _ _ _ 0))
  simpa only [TcpOp.request, TcpOp.opcode, TcpOp.params, TcpOp.data, List.append_assoc] using
    sent.mono (show 30 ≤ 43 by omega)

private theorem receives_read : Receives (handlerLoop size)
    (handleRead size buffer reqId.toNat (TcpOp.params (.read buf remoteAddr rkey)))
    (handleClient size buffer) (TcpOp.request reqId (.read buf remoteAddr rkey)) 40 := by
  have received : Receives (handlerLoop size)
      (handleRead size buffer reqId.toNat (TcpOp.params (.read buf remoteAddr rkey)))
      (handleClient size buffer) (TcpOp.request reqId (.read buf remoteAddr rkey)) _ :=
    receives_request dispatch_read (by simp [TcpOp.params]) (@Receives.here _ _ _ _ 0)
  exact received.mono (by omega)

/-- The caller of a read takes as many bytes as the header announces, which is what it asked for. -/
theorem listens_read (short : buf.length < 2 ^ 32) :
    Receives noLoop (.done (.ok (.filled (ByteMemory.read buffer remoteAddr.toNat buf.length))))
      (awaitRead buf) (TcpOp.response reqId buffer (.read buf remoteAddr rkey))
      (buf.length + 15) := by
  obtain ⟨status, told⟩ := awaitRead_header reqId short
  have length := ByteMemory.read_length buffer remoteAddr.toNat buf.length
  have filled : (ByteMemory.read buffer remoteAddr.toNat buf.length).take (min buf.length buf.length) ++
      buf.drop (min buf.length buf.length) = ByteMemory.read buffer remoteAddr.toNat buf.length := by
    rw [Nat.min_self, List.drop_length, List.append_nil, List.take_of_length_le length.le]
  have data : Receives noLoop (.done (.ok (.filled (ByteMemory.read buffer remoteAddr.toNat buf.length))))
      (.readExact buf.length fun data => .done (.ok (.filled (data.take (min buf.length buf.length) ++
        buf.drop (min buf.length buf.length)))))
      (ByteMemory.read buffer remoteAddr.toNat buf.length) (buf.length + 1) := by
    refine .last length ?_
    rw [filled]
  have received : Receives noLoop
      (.done (.ok (.filled (ByteMemory.read buffer remoteAddr.toNat buf.length))))
      (awaitRead buf) (TcpOp.response reqId buffer (.read buf remoteAddr rkey))
      (13 + (buf.length + 1) + 1) := by
    unfold awaitRead TcpOp.response
    refine .block (by simp) ?_
    rw [if_neg (not_not_intro status), told]
    exact data
  exact received.mono (by omega)

/-- The handler of a read inside the buffer sends all the bytes it was asked for. -/
theorem answers_read (addressable : size < 2 ^ 64) (inside : TcpOp.Inside size (.read buf remoteAddr rkey)) :
    Sends (handlerLoop size) (handleClient size buffer)
      (handleRead size buffer reqId.toNat (TcpOp.params (.read buf remoteAddr rkey)))
      (TcpOp.response reqId buffer (.read buf remoteAddr rkey)) (buf.length + 16) := by
  obtain ⟨fits, short⟩ := inside
  have length : decode (((TcpOp.params (.read buf remoteAddr rkey)).drop 12).take 4) = buf.length :=
    decode_length remoteAddr rkey short
  have address : decode ((TcpOp.params (.read buf remoteAddr rkey)).take 8) = remoteAddr.toNat :=
    decode_address _ _
  have actual : min (remoteAddr.toNat + buf.length) size - remoteAddr.toNat = buf.length := by omega
  have header : (encode 8 reqId.toNat ++ [(0x00 : Byte)] ++ encode 4 buf.length).length = 13 := by simp
  unfold handleRead TcpOp.response
  simp only [length, address, actual]
  rw [if_neg (by omega)]
  split
  · have sent := Sends.block header
      (sends_last size buffer (ByteMemory.read_length buffer remoteAddr.toNat buf.length))
    exact sent.mono (by omega)
  · -- Nothing was asked for, and only the header is sent.
    have empty : buf.length = 0 := by omega
    have sent := Sends.block header (back_to_loop size buffer)
    rw [empty] at sent ⊢
    exact sent.mono (by omega)

private theorem understood_read (addressable : size < 2 ^ 64)
    (inside : TcpOp.Inside size (.read buf remoteAddr rkey)) :
    Understood size buffer reqId (.read buf remoteAddr rkey) (awaitRead buf)
      (handleRead size buffer reqId.toNat (TcpOp.params (.read buf remoteAddr rkey))) :=
  ⟨sends_read.mono (by omega), receives_read.mono (by omega), listens_read inside.2,
    answers_read addressable inside⟩

end Read

section Write

variable {buf : Bytes}

theorem sends_write : Sends noLoop awaitWrite
    (TcpTransport.write reqId buf remoteAddr rkey) (TcpOp.request reqId (.write buf remoteAddr rkey))
    (buf.length + 43) := by
  have sent : Sends noLoop awaitWrite (TcpTransport.write reqId buf remoteAddr rkey) _ _ :=
    sends_head (.block (encode_length 4 buf.length) (.block rfl (@Sends.here _ _ _ _ 0)))
  rw [List.append_nil] at sent
  simpa only [TcpOp.request, TcpOp.opcode, TcpOp.params, TcpOp.data, List.append_assoc] using
    sent.mono (show _ ≤ buf.length + 43 by omega)

/-- The handler of a write reads as many bytes of payload as the caller sent. -/
theorem receives_write (short : buf.length < 2 ^ 32) : Receives (handlerLoop size)
    (storePayload size buffer reqId.toNat remoteAddr.toNat buf)
    (handleClient size buffer) (TcpOp.request reqId (.write buf remoteAddr rkey)) (buf.length + 40) := by
  have length : decode (((TcpOp.params (.write buf remoteAddr rkey)).drop 12).take 4) = buf.length :=
    decode_length remoteAddr rkey short
  have address : decode ((TcpOp.params (.write buf remoteAddr rkey)).take 8) = remoteAddr.toNat :=
    decode_address _ _
  have payload : Receives (handlerLoop size) (storePayload size buffer reqId.toNat remoteAddr.toNat buf)
      (handleWrite size buffer reqId.toNat (TcpOp.params (.write buf remoteAddr rkey)))
      (TcpOp.data (.write buf remoteAddr rkey)) (buf.length + 1) := by
    unfold handleWrite TcpOp.data
    rw [length, address]
    exact .last rfl rfl
  have received := receives_request dispatch_write (by simp [TcpOp.params]) payload
  exact received.mono (by omega)

theorem listens_write : Receives noLoop (.done (.ok .written)) awaitWrite
    (TcpOp.response reqId buffer (.write buf remoteAddr rkey)) 15 := by
  have status : (encode 8 reqId.toNat ++ [(0x00 : Byte)]).getD 8 0 = 0 := getD_behind_id reqId _ 0
  have received : Receives noLoop (.done (.ok .written)) awaitWrite
      (encode 8 reqId.toNat ++ [(0x00 : Byte)]) (9 + 1) := by
    unfold awaitWrite
    refine .last (by simp) ?_
    rw [if_neg (not_not_intro status)]
  exact received.mono (by omega)

/-- The handler of a write inside the buffer stores all of the payload. -/
theorem answers_write (addressable : size < 2 ^ 64)
    (inside : TcpOp.Inside size (.write buf remoteAddr rkey)) :
    Sends (handlerLoop size) (handleClient size (ByteMemory.write buffer remoteAddr.toNat buf))
      (storePayload size buffer reqId.toNat remoteAddr.toNat buf)
      (TcpOp.response reqId buffer (.write buf remoteAddr rkey)) 16 := by
  obtain ⟨fits, _⟩ := inside
  have whole : min (remoteAddr.toNat + buf.length) size - remoteAddr.toNat = buf.length := by omega
  unfold storePayload
  rw [if_neg (by omega)]
  simp only [whole, List.take_length]
  rw [if_neg (by omega)]
  have header : (encode 8 reqId.toNat ++ [(0x00 : Byte)]).length = 9 := by simp
  exact (sends_last size (ByteMemory.write buffer remoteAddr.toNat buf) header).mono (by omega)

private theorem understood_write (addressable : size < 2 ^ 64)
    (inside : TcpOp.Inside size (.write buf remoteAddr rkey)) :
    Understood size buffer reqId (.write buf remoteAddr rkey) awaitWrite
      (storePayload size buffer reqId.toNat remoteAddr.toNat buf) :=
  ⟨sends_write, receives_write inside.2, listens_write.mono (by omega),
    (answers_write addressable inside).mono (by omega)⟩

end Write

section Cas

variable {compare swap : BitVec 64}

theorem sends_cas : Sends noLoop awaitCas
    (TcpTransport.cas reqId compare swap remoteAddr rkey)
    (TcpOp.request reqId (.cas compare swap remoteAddr rkey)) 43 := by
  have sent : Sends noLoop awaitCas (TcpTransport.cas reqId compare swap remoteAddr rkey) _ _ :=
    sends_head (.block (encode_length 8 compare.toNat) (.block (encode_length 8 swap.toNat)
      (@Sends.here _ _ _ _ 0)))
  simpa only [TcpOp.request, TcpOp.opcode, TcpOp.params, TcpOp.data, List.append_assoc] using sent

private theorem receives_cas : Receives (handlerLoop size)
    (handleCas size buffer reqId.toNat (TcpOp.params (.cas compare swap remoteAddr rkey)))
    (handleClient size buffer) (TcpOp.request reqId (.cas compare swap remoteAddr rkey)) 40 := by
  have received : Receives (handlerLoop size)
      (handleCas size buffer reqId.toNat (TcpOp.params (.cas compare swap remoteAddr rkey)))
      (handleClient size buffer) (TcpOp.request reqId (.cas compare swap remoteAddr rkey)) _ :=
    receives_request dispatch_cas (by simp [TcpOp.params]) (@Receives.here _ _ _ _ 0)
  exact received.mono (by omega)

/-- The verdict is the last byte of the answer. -/
theorem hears_verdict (reqId : BitVec 64) (verdict : Byte) :
    Receives noLoop (.done (.ok (.swapped (decide (verdict = 1))))) awaitCas
      (encode 8 reqId.toNat ++ [(0x00 : Byte), verdict]) 15 := by
  have status : (encode 8 reqId.toNat ++ [(0x00 : Byte), verdict]).getD 8 0 = 0 :=
    getD_behind_id reqId _ 0
  have told : (encode 8 reqId.toNat ++ [(0x00 : Byte), verdict]).getD 9 0 = verdict :=
    getD_behind_id reqId _ 1
  have received : Receives noLoop (.done (.ok (.swapped (decide (verdict = 1))))) awaitCas
      (encode 8 reqId.toNat ++ [(0x00 : Byte), verdict]) (10 + 1) := by
    unfold awaitCas
    refine .last (by simp) ?_
    rw [status, told, decide_eq_true rfl, Bool.true_and]
  exact received.mono (by omega)

/-- The handler of a swap inside the buffer compares the word it finds there. -/
theorem answers_cas (addressable : size < 2 ^ 64)
    (inside : TcpOp.Inside size (.cas compare swap remoteAddr rkey)) :
    Sends (handlerLoop size)
      (handleClient size (TcpOp.execute buffer (.cas compare swap remoteAddr rkey)).1)
      (handleCas size buffer reqId.toNat (TcpOp.params (.cas compare swap remoteAddr rkey)))
      (TcpOp.response reqId buffer (.cas compare swap remoteAddr rkey)) 16 := by
  have fits : remoteAddr.toNat + 8 ≤ size := inside
  have address : decode ((TcpOp.params (.cas compare swap remoteAddr rkey)).take 8) = remoteAddr.toNat :=
    decode_address _ _
  have expected : decode (((TcpOp.params (.cas compare swap remoteAddr rkey)).drop 12).take 8) =
      compare.toNat := decode_behind_key _ _ _ compare.isLt
  have wanted : decode (((TcpOp.params (.cas compare swap remoteAddr rkey)).drop 20).take 8) =
      swap.toNat := by
    have field := @decode_field 8 swap.toNat 20
      (encode 8 remoteAddr.toNat ++ (encode 4 rkey.toNat ++ encode 8 compare.toNat)) [] (by simp) swap.isLt
    rwa [List.append_nil, List.append_assoc, List.append_assoc] at field
  have answer : ∀ verdict : Byte, ∀ next, Sends (handlerLoop size) (handleClient size next)
      (.writeAll (encode 8 reqId.toNat ++ [0x00, verdict]) (.done (.ok next)))
      (encode 8 reqId.toNat ++ [0x00, verdict]) 16 := by
    intro verdict next
    have header : (encode 8 reqId.toNat ++ [0x00, verdict]).length = 10 := by simp
    exact (sends_last size next header).mono (by omega)
  have low : ¬ 2 ^ 64 ≤ remoteAddr.toNat + 8 := by omega
  simp only [handleCas, TcpOp.response, TcpOp.execute, address, expected, wanted, if_neg low, if_pos fits]
  by_cases equal : ByteMemory.word buffer 8 remoteAddr.toNat = compare.toNat
  · simp only [if_pos equal]
    exact answer 1 _
  · simp only [if_neg equal]
    exact answer 0 _

private theorem understood_cas (addressable : size < 2 ^ 64)
    (inside : TcpOp.Inside size (.cas compare swap remoteAddr rkey)) :
    Understood size buffer reqId (.cas compare swap remoteAddr rkey) awaitCas
      (handleCas size buffer reqId.toNat (TcpOp.params (.cas compare swap remoteAddr rkey))) := by
  refine ⟨sends_cas.mono (by omega), receives_cas.mono (by omega), ?_,
    (answers_cas addressable inside).mono (by omega)⟩
  have told := (hears_verdict reqId
    (if ByteMemory.word buffer 8 remoteAddr.toNat = compare.toNat then 1 else 0)).mono
      (show 15 ≤ TcpOp.fetched (.cas compare swap remoteAddr rkey) + 15 by omega)
  simp only [TcpOp.execute, TcpOp.response]
  by_cases equal : ByteMemory.word buffer 8 remoteAddr.toNat = compare.toNat
  · simp only [if_pos equal] at told ⊢
    exact told
  · simp only [if_neg equal] at told ⊢
    exact told

end Cas

/-- Every call inside the buffer is understood. -/
theorem understood {op : TcpOp} (addressable : size < 2 ^ 64) (inside : TcpOp.Inside size op) :
    ∃ waiting answering, Understood size buffer reqId op waiting answering := by
  cases op with
  | read buf remoteAddr rkey => exact ⟨_, _, understood_read addressable inside⟩
  | write buf remoteAddr rkey => exact ⟨_, _, understood_write addressable inside⟩
  | cas compare swap remoteAddr rkey => exact ⟨_, _, understood_cas addressable inside⟩

end Frames

variable {ι : Type}

/-- The calls one after the other on the buffer, with what each of them is told. -/
def executeAll (buffer : ByteMemory.Memory) :
    List (TcpCall ι) → ByteMemory.Memory × List (TcpCall ι × Except RdmaError TcpReply)
  | [] => (buffer, [])
  | call :: rest =>
      let (next, reply) := TcpOp.execute buffer call.op
      let (final, replies) := executeAll next rest
      (final, (call, .ok reply) :: replies)

private theorem executeAll_append (buffer : ByteMemory.Memory) (front : List (TcpCall ι)) (call : TcpCall ι) :
    executeAll buffer (front ++ [call]) =
      ((TcpOp.execute (executeAll buffer front).1 call.op).1,
        (executeAll buffer front).2 ++
          [(call, .ok (TcpOp.execute (executeAll buffer front).1 call.op).2)]) := by
  induction front generalizing buffer with
  | nil => rfl
  | cons first rest ih => simp only [List.cons_append, executeAll, ih]

/-- A bound on the steps that a call takes once it has drawn its request id. -/
def TcpOp.steps (op : TcpOp) : ℕ := 2 * ((data op).length + fetched op) + 116

/-- The steps left for the calls that wait for the lock. -/
def stepsOf (waiting : List (TcpCall ι)) : ℕ := (waiting.map fun call => TcpOp.steps call.op).sum

/-- What holds of a connection throughout, with a bound on the steps it has left. While nobody holds the
lock the streams are empty and the handler only has to come back to its loop; otherwise one exchange is
under way, with the effect of the calls before it already in the buffer. -/
inductive Conversing (size : ℕ) (buffer : ByteMemory.Memory) : TcpConnection ι → ℕ → Prop
  | free {requestId waiting handler taken work}
      (inside : ∀ call ∈ waiting, TcpOp.Inside size call.op)
      (rests : Sends (handlerLoop size) (handleClient size (executeAll buffer taken).1) handler [] work) :
      Conversing size buffer
        ⟨requestId, waiting, none, handler, [], [], taken, (executeAll buffer taken).2⟩
        (work + stepsOf waiting)
  | held {requestId waiting call program handler toServer toClient earlier work}
      (inside : ∀ call ∈ waiting, TcpOp.Inside size call.op)
      (underway : Underway noLoop (handlerLoop size)
        (.done (.ok (TcpOp.execute (executeAll buffer earlier).1 call.op).2))
        (handleClient size (TcpOp.execute (executeAll buffer earlier).1 call.op).1)
        (TcpOp.request call.reqId call.op)
        (TcpOp.response call.reqId (executeAll buffer earlier).1 call.op)
        program handler toServer toClient work) :
      Conversing size buffer
        ⟨requestId, waiting, some (call, program), handler, toServer, toClient, earlier ++ [call],
          (executeAll buffer earlier).2⟩
        (work + 1 + stepsOf waiting)

/-- What a step asks of the calls it starts. -/
def TcpLabel.Inside (size : ℕ) : TcpLabel ι → Prop
  | .issue _ op => TcpOp.Inside size op
  | _ => True

instance (size : ℕ) : (label : TcpLabel ι) → Decidable (TcpLabel.Inside size label)
  | .issue _ op => inferInstanceAs (Decidable (TcpOp.Inside size op))
  | .lock _ => inferInstanceAs (Decidable True)
  | .client _ => inferInstanceAs (Decidable True)
  | .server _ => inferInstanceAs (Decidable True)
  | .finish => inferInstanceAs (Decidable True)

/-- The steps a label brings in: those of the call it starts. -/
def TcpLabel.steps : TcpLabel ι → ℕ
  | .issue _ op => TcpOp.steps op + 1
  | _ => 0

section Steps

variable {size budget chunk : ℕ} {buffer : ByteMemory.Memory} {capacity : Option ℕ}
variable {state next : TcpConnection ι} {label : TcpLabel ι}

private theorem response_ne_nil (reqId : BitVec 64) (buffer : ByteMemory.Memory) (op : TcpOp) :
    TcpOp.response reqId buffer op ≠ [] := by
  cases op <;> simp [TcpOp.response]

/-- The handler waits at the top of its loop for an opcode. -/
theorem still_handleClient (size : ℕ) (buffer : ByteMemory.Memory) :
    Still (handlerLoop size) (handleClient size buffer) := by
  intro capacity outgoing chunk
  unfold handleClient
  rw [advance, if_neg (by decide), if_neg]
  rintro ⟨positive, _, none_⟩
  rw [List.length_nil] at none_
  omega

theorem still_done (result : Except RdmaError TcpReply) : Still noLoop (.done result) := by
  intro capacity outgoing chunk
  rw [advance]
  split <;> rfl

private theorem stepsOf_append (front back : List (TcpCall ι)) :
    stepsOf (front ++ back) = stepsOf front + stepsOf back := by
  rw [stepsOf, List.map_append, List.sum_append, stepsOf, stepsOf]

/-- The waiting calls without one of them. -/
theorem stepsOf_eraseIdx {waiting : List (TcpCall ι)} {index : ℕ} {call : TcpCall ι}
    (found : waiting[index]? = some call) :
    stepsOf waiting = TcpOp.steps call.op + stepsOf (waiting.eraseIdx index) := by
  obtain ⟨bound, rfl⟩ := List.getElem?_eq_some_iff.mp found
  have perm := (List.getElem_cons_eraseIdx_perm bound).map fun call => TcpOp.steps call.op
  rw [stepsOf, ← perm.sum_eq, List.map_cons, List.sum_cons, stepsOf]

namespace Conversing

variable (conversing : Conversing size buffer state budget)
include conversing

theorem issue {task : ι} {op : TcpOp}
    (allowed : TcpOp.Inside size op) (taken : state.step capacity size (.issue task op) = some next) :
    ∃ left, Conversing size buffer next left ∧ left = budget + TcpOp.steps op := by
  cases taken
  have more : ∀ {waiting : List (TcpCall ι)} {reqId}, (∀ call ∈ waiting, TcpOp.Inside size call.op) →
      ∀ call ∈ waiting ++ [⟨task, reqId, op⟩], TcpOp.Inside size call.op := by
    intro waiting reqId inside call member
    rcases List.mem_append.mp member with old | new
    · exact inside call old
    · rw [List.mem_singleton.mp new]
      exact allowed
  have one : ∀ reqId, stepsOf [(⟨task, reqId, op⟩ : TcpCall ι)] = TcpOp.steps op := by
    intro reqId
    rw [stepsOf, List.map_singleton, List.sum_singleton]
  cases conversing with
  | free inside rests =>
    refine ⟨_, .free (more inside) rests, ?_⟩
    rw [stepsOf_append, one, Nat.add_assoc]
  | held inside underway =>
    refine ⟨_, .held (more inside) underway, ?_⟩
    rw [stepsOf_append, one, Nat.add_assoc _ (stepsOf _)]

theorem lock {index : ℕ} (addressable : size < 2 ^ 64)
    (taken : state.step capacity size (.lock index) = some next) :
    ∃ left, Conversing size buffer next left ∧ left < budget := by
  cases conversing with
  | held inside underway => cases taken
  | @free requestId waiting handler earlier work inside rests =>
    simp only [TcpConnection.step] at taken
    split at taken
    · next call _ found =>
      cases taken
      obtain ⟨waitingFor, answering, heard⟩ :=
        @understood size (executeAll buffer earlier).1 call.reqId call.op addressable
          (inside call (List.mem_of_getElem? found))
      have exchange : Underway noLoop (handlerLoop size) _ _ _ _ _ handler [] [] _ :=
        .asking heard.sends (rests.receives heard.receives) heard.listens heard.answers List.suffix_rfl
      refine ⟨_, .held (fun other member => inside other (List.mem_of_mem_eraseIdx member)) exchange, ?_⟩
      rw [stepsOf_eraseIdx found, TcpOp.steps]
      omega
    · cases taken

theorem client (taken : state.step capacity size (.client chunk) = some next) :
    ∃ left, Conversing size buffer next left ∧ left < budget := by
  cases conversing with
  | free inside rests => cases taken
  | held inside underway =>
    simp only [TcpConnection.step, Option.map_eq_some_iff] at taken
    obtain ⟨⟨program, toClient, toServer⟩, moves, rfl⟩ := taken
    obtain ⟨left, less, onward⟩ := underway.ask (still_done _) (response_ne_nil _ _ _) moves
    exact ⟨_, .held inside onward, by omega⟩

theorem server (taken : state.step capacity size (.server chunk) = some next) :
    ∃ left, Conversing size buffer next left ∧ left < budget := by
  simp only [TcpConnection.step, Option.map_eq_some_iff] at taken
  obtain ⟨⟨handler, toServer, toClient⟩, moves, rfl⟩ := taken
  cases conversing with
  | free inside rests =>
    -- Nothing has come in, so the handler can only be on its way back to the loop.
    rcases rests.step moves with ⟨rfl, _⟩ | ⟨sent, rest, left, split, queues, onward, less⟩
    · rw [still_handleClient] at moves
      cases moves
    · obtain ⟨rfl, rfl⟩ := List.append_eq_nil_iff.mp split.symm
      cases queues
      refine ⟨_, .free inside onward, ?_⟩
      dsimp only
      omega
  | held inside underway =>
    obtain ⟨left, less, onward⟩ := underway.serve (still_handleClient _ _) (response_ne_nil _ _ _) moves
    refine ⟨_, .held inside onward, ?_⟩
    dsimp only
    omega

theorem finish (taken : state.step capacity size .finish = some next) :
    ∃ left, Conversing size buffer next left ∧ left < budget := by
  cases conversing with
  | free inside rests => cases taken
  | @held requestId waiting call program handler toServer toClient earlier work inside underway =>
    simp only [TcpConnection.step] at taken
    split at taken
    · next held result same =>
      cases same
      cases taken
      obtain ⟨rfl, rfl, rfl, left, less, rests⟩ :=
        underway.finished (fun _ => rfl) (response_ne_nil _ _ _)
      have whole := executeAll_append buffer earlier call
      rw [← congrArg Prod.fst whole] at rests
      have free := @Conversing.free ι size buffer requestId waiting handler (earlier ++ [call]) left inside
        rests
      rw [whole] at free
      exact ⟨_, free, by omega⟩
    · cases taken

/-- Every step keeps the conversation going and is paid for by the steps left. -/
theorem step (addressable : size < 2 ^ 64)
    (allowed : TcpLabel.Inside size label) (taken : state.step capacity size label = some next) :
    ∃ left, Conversing size buffer next left ∧ 1 + left ≤ budget + TcpLabel.steps label := by
  cases label with
  | issue task op =>
    obtain ⟨left, onward, paid⟩ := conversing.issue allowed taken
    exact ⟨left, onward, by rw [paid, TcpLabel.steps]; omega⟩
  | lock index =>
    obtain ⟨left, onward, less⟩ := conversing.lock addressable taken
    exact ⟨left, onward, by omega⟩
  | client chunk =>
    obtain ⟨left, onward, less⟩ := conversing.client taken
    exact ⟨left, onward, by omega⟩
  | server chunk =>
    obtain ⟨left, onward, less⟩ := conversing.server taken
    exact ⟨left, onward, by omega⟩
  | finish =>
    obtain ⟨left, onward, less⟩ := conversing.finish taken
    exact ⟨left, onward, by omega⟩

/-- A run is no longer than the steps left at its start and those of the calls it starts. -/
theorem run {labels : List (TcpLabel ι)} (addressable : size < 2 ^ 64)
    (inside : ∀ label ∈ labels, TcpLabel.Inside size label)
    (reached : Runs.run (TcpConnection.step capacity size) state labels = some next) :
    ∃ left, Conversing size buffer next left ∧
      labels.length + left ≤ budget + (labels.map TcpLabel.steps).sum := by
  induction labels generalizing state budget with
  | nil =>
    cases reached
    exact ⟨budget, conversing, by simp⟩
  | cons label rest ih =>
    obtain ⟨middle, taken, onward⟩ := Runs.run_cons_eq_some.mp reached
    obtain ⟨left, converses, paid⟩ := conversing.step addressable (inside label List.mem_cons_self) taken
    obtain ⟨final, ends, bound⟩ := ih converses
      (fun later member => inside later (List.mem_cons_of_mem _ member)) onward
    refine ⟨final, ends, ?_⟩
    rw [List.length_cons, List.map_cons, List.sum_cons]
    omega

end Conversing

/-- The connection can go on without a new call. -/
def TcpConnection.CanMove (capacity : Option ℕ) (size : ℕ) (state : TcpConnection ι) : Prop :=
  ∃ label, (∀ task op, label ≠ .issue task op) ∧ (state.step capacity size label).isSome = true

/-- As long as a call waits or holds the lock, the connection can go on. -/
theorem Conversing.canMove (conversing : Conversing size buffer state budget) (room : capacity ≠ some 0) :
    TcpConnection.CanMove capacity size state ∨ (state.holder = none ∧ state.waiting = []) := by
  cases conversing with
  | @free requestId waiting handler taken work inside rests =>
    cases waiting with
    | nil => exact .inr ⟨rfl, rfl⟩
    | cons call rest => exact .inl ⟨.lock 0, by simp, rfl⟩
  | held inside underway =>
    left
    rcases underway.enabled (response_ne_nil _ _ _) room with rfl | ⟨chunk, moves⟩ | ⟨chunk, moves⟩
    · exact ⟨.finish, by simp, rfl⟩
    · refine ⟨.client chunk, by simp, ?_⟩
      simpa only [TcpConnection.step, Option.isSome_map] using moves
    · refine ⟨.server chunk, by simp, ?_⟩
      simpa only [TcpConnection.step, Option.isSome_map] using moves

/-- The handler has not ended: it is on its way to another request. -/
theorem Conversing.serving (conversing : Conversing size buffer state budget) (exit : HandlerExit) :
    state.handler ≠ .done (.error exit) := by
  have differs : ∀ buffer, handleClient size buffer ≠ .done (.error exit) := by
    intro buffer same
    cases same
  cases conversing with
  | free inside rests => exact rests.ne_done rfl (differs _)
  | held inside underway => exact underway.ne_done rfl (differs _)

end Steps

/-- What a connection shows after a run: both sides are in step, every answer is the one of the calls
executed one after the other in the order in which they took the lock, and no call is stuck. -/
structure FaithfulMemory (capacity : Option ℕ) (size : ℕ) (buffer : ByteMemory.Memory)
    (labels : List (TcpLabel ι)) (state : TcpConnection ι) : Prop where
  /-- The calls that have returned are the first ones that took the lock, with the answers of the
  sequential execution. Only the call that holds the lock is missing. -/
  answers : ∃ outstanding, (executeAll buffer state.taken).2 = state.returned ++ outstanding ∧
    outstanding.map Prod.fst = state.holder.toList.map Prod.fst
  /-- Between two calls nothing is under way, and the handler is back at its loop with the buffer of the
  sequential execution as soon as it has looped, without a byte sent or received. -/
  idle : state.holder = none → state.toServer = [] ∧ state.toClient = [] ∧
    ∃ work, Sends (handlerLoop size) (handleClient size (executeAll buffer state.taken).1) state.handler []
      work
  /-- During a call, what is under way belongs to its own frames. -/
  busy : ∀ call program, state.holder = some (call, program) →
    state.toServer <:+: TcpOp.request call.reqId call.op ∧
    state.toClient <:+: TcpOp.response call.reqId (executeAll buffer state.taken.dropLast).1 call.op
  /-- The handler never meets a request it cannot serve. -/
  serving : ∀ exit, state.handler ≠ .done (.error exit)
  /-- A connection that cannot go on has no call left. -/
  returns : TcpConnection.CanMove capacity size state ∨ (state.holder = none ∧ state.waiting = [])
  /-- And it cannot go on for ever without new calls. -/
  bounded : labels.length ≤ (labels.map TcpLabel.steps).sum

/-- The calls of any number of tasks over one connection, in chunks of any size, behave as calls on the
buffer itself. -/
theorem tcp_conversation_is_faithful_memory {capacity : Option ℕ} (room : capacity ≠ some 0) {size : ℕ}
    (addressable : size < 2 ^ 63) (buffer : ByteMemory.Memory) {labels : List (TcpLabel ι)}
    {state : TcpConnection ι} (inside : ∀ label ∈ labels, TcpLabel.Inside size label)
    (reached : Runs.run (TcpConnection.step capacity size) (.connect size buffer) labels = some state) :
    FaithfulMemory capacity size buffer labels state := by
  have start : Conversing size buffer (TcpConnection.connect size buffer : TcpConnection ι) 0 :=
    @Conversing.free ι size buffer 1 [] _ [] 0 (by simp) .here
  obtain ⟨left, conversing, bound⟩ := start.run (by omega) inside reached
  refine ⟨?_, ?_, ?_, conversing.serving, conversing.canMove room, by omega⟩
  · cases conversing with
    | free inside rests => exact ⟨[], by simp, rfl⟩
    | held inside underway => exact ⟨_, by rw [executeAll_append], rfl⟩
  · intro free
    cases conversing with
    | free inside rests => exact ⟨rfl, rfl, _, rests⟩
    | held inside underway => cases free
  · intro call program holds
    cases conversing with
    | free inside rests => cases holds
    | held inside underway =>
      cases holds
      rw [List.dropLast_concat]
      exact underway.within

/-- Two tasks call at once; the one that swaps a word takes the lock first and returns. -/
def swapBeforeRead : List (TcpLabel ℕ) :=
  [.issue 0 (.cas 0 7 0 5), .issue 1 (.read [0] 0 5), .lock 0] ++
    [1, 0, 8, 0, 8, 0, 4, 0, 8, 0, 8, 0].map .client ++ [1, 0, 8, 0, 28, 0, 10].map .server ++
    [.client 10, .client 0, .finish]

theorem tcp_conversation_of_two_tasks :
    ∃ state, Runs.run (TcpConnection.step none 8) (.connect 8 fun _ => 0) swapBeforeRead = some state ∧
      state.returned = [(⟨0, 1, .cas 0 7 0 5⟩, .ok (.swapped true))] ∧
      FaithfulMemory none 8 (fun _ => 0) swapBeforeRead state := by
  have runs : (Runs.run (TcpConnection.step none 8) (.connect 8 fun _ => 0) swapBeforeRead).any
      fun state => state.returned == [(⟨0, 1, .cas 0 7 0 5⟩, .ok (.swapped true))] := by decide +kernel
  obtain ⟨state, reached, returned⟩ := (Option.any_eq_true _ _).mp runs
  refine ⟨state, reached, beq_iff_eq.mp returned, ?_⟩
  exact tcp_conversation_is_faithful_memory (by decide) (by decide) _ (by decide) reached

end Rdmas.Soundness
