import Rdmas.Model.TcpAbandon
import Rdmas.Soundness.TcpResponses

/-! # Later calls after an abandoned one

The caller never compares the request id that a response echoes, so a response is told from another only
by its place in the stream. As long as nothing is under way whenever the stream lock is free, every call
reads its own response. A call that is dropped while a byte of it is under way ends that: the next one
completes the old request or reads the old response, and returns `Ok` with what is not its own.
-/

namespace Rdmas.Soundness

open Rdmas.Model LittleEndian StreamProgram Runs
open TcpTransport (noLoop await)
open TcpServer (frameLength nextFrame isOpcode requestIdOf)

/-- What a call makes of a response that arrives as a whole. -/
def answerTo (op : TcpOp) (response : TcpResponse) : Option (Except RdmaError TcpReply) :=
  ((await op).feed (response.frame (TcpOp.opcode op))).map Prod.fst

/-- The server was sent the request of this call, at the place where the call sent it, and the call returned
what the response says. -/
def Own (state : TcpTraffic) (call : PlacedCall) (reply : TcpReply) : Prop :=
  ∃ answered ∈ state.served, answered.position = call.position ∧
    answered.frame = TcpOp.request call.reqId call.op ∧ answerTo call.op answered.response = some (.ok reply)

/-- Every call that has returned `Ok` has returned the result of its own request. -/
def OwnResults (state : TcpTraffic) : Prop :=
  ∀ entry ∈ state.returned, ∀ reply, entry.2 = .ok reply → Own state entry.1 reply

/-- The payload of the request fits the length field of its frame. -/
def TcpOp.Fits : TcpOp → Prop
  | .write buf _ _ => buf.length < 2 ^ 32
  | _ => True

/-- Nothing out of the ordinary: no call is abandoned, the call that takes the lock fits its frame, and a
READ is not refused with data behind the refusal. -/
def Plain (state : TcpTraffic) : TrafficLabel → Prop
  | .lock index => ∀ call ∈ state.waiting[index]?, TcpOp.Fits call.2
  | .serve response => ∀ next ∈ nextFrame state.toServer, next.1.head? = some opRead →
      response.status = 0 ∨ response.data = []
  | .abandon => False
  | _ => True

/-- A step that is plain, or abandons a call of which nothing is under way. -/
def Clean (state : TcpTraffic) (label : TrafficLabel) : Prop :=
  Plain state label ∨ label = .abandon ∧ state.toServer = [] ∧ state.toClient = []

instance : (op : TcpOp) → Decidable (TcpOp.Fits op)
  | .read _ _ _ => inferInstanceAs (Decidable True)
  | .write _ _ _ => inferInstanceAs (Decidable (_ < _))
  | .cas _ _ _ _ => inferInstanceAs (Decidable True)

instance (state : TcpTraffic) : (label : TrafficLabel) → Decidable (Plain state label)
  | .issue _ => inferInstanceAs (Decidable True)
  | .lock index => inferInstanceAs (Decidable (∀ call ∈ state.waiting[index]?, TcpOp.Fits call.2))
  | .client _ => inferInstanceAs (Decidable True)
  | .serve response => inferInstanceAs (Decidable (∀ next ∈ nextFrame state.toServer,
      next.1.head? = some opRead → response.status = 0 ∨ response.data = []))
  | .garble _ => inferInstanceAs (Decidable True)
  | .finish => inferInstanceAs (Decidable True)
  | .abandon => inferInstanceAs (Decidable False)
  | .forget _ => inferInstanceAs (Decidable True)

instance (state : TcpTraffic) (label : TrafficLabel) : Decidable (Clean state label) :=
  inferInstanceAs (Decidable (_ ∨ _))

/-- Whatever happens after the step, if it is plain, every call that returns `Ok` returns the result of its
own request. -/
def Harmless (state : TcpTraffic) (label : TrafficLabel) : Prop :=
  ∀ next, state.step label = some next →
    ∀ final, ReachesBy TcpTraffic.step Plain next final → OwnResults final

section Requests

variable {bytes frame rest more : Bytes} {op : TcpOp} {reqId : BitVec 64}

/-- The length of a frame is told by the bytes that are there. -/
theorem frameLength_append {length : ℕ} (told : frameLength bytes = some length) :
    frameLength (bytes ++ more) = some length := by
  cases bytes with
  | nil => cases told
  | cons opcode tail =>
    have head : (opcode :: tail ++ more).head? = (opcode :: tail).head? := rfl
    unfold frameLength at told ⊢
    rw [head]
    split at told
    · rwa [if_pos ‹_›]
    rw [if_neg ‹_›]
    split at told
    · rw [if_pos ‹_›]
      split at told
      · next enough =>
        rw [if_pos (by rw [List.length_append]; omega), List.drop_append_of_le_length (by omega),
          List.take_append_of_le_length (by rw [List.length_drop]; omega)]
        exact told
      · cases told
    rw [if_neg ‹_›]
    exact told

/-- A complete frame is the same whatever follows it. -/
theorem nextFrame_append (told : nextFrame bytes = some (frame, rest)) :
    nextFrame (bytes ++ more) = some (frame, rest ++ more) := by
  obtain ⟨length, counted, taken⟩ := Option.bind_eq_some_iff.mp told
  rw [nextFrame, frameLength_append counted, Option.bind_some]
  split at taken
  · next enough =>
    cases taken
    rw [if_pos (by rw [List.length_append]; omega), List.take_append_of_le_length enough,
      List.drop_append_of_le_length enough]
  · cases taken

/-- The length that the request of a call announces. -/
def announced : TcpOp → ℕ
  | .read _ _ _ => 25
  | .write buf _ _ => 25 + buf.length % 2 ^ 32
  | .cas _ _ _ _ => 37

theorem request_head? : (TcpOp.request reqId op).head? = some (TcpOp.opcode op) := rfl

private theorem write_request_length {buf : Bytes} {remoteAddr : BitVec 64} {rkey : BitVec 32} :
    (TcpOp.request reqId (.write buf remoteAddr rkey)).length = 25 + buf.length := by
  simp [TcpOp.request, TcpOp.params, TcpOp.data]
  omega

private theorem request_length (fits : TcpOp.Fits op) : (TcpOp.request reqId op).length = announced op := by
  cases op with
  | read buf remoteAddr rkey => simp [TcpOp.request, TcpOp.params, TcpOp.data, announced]
  | write buf remoteAddr rkey => rw [announced, Nat.mod_eq_of_lt fits, write_request_length]
  | cas compare swap remoteAddr rkey => simp [TcpOp.request, TcpOp.params, TcpOp.data, announced]

private theorem frameLength_request : frameLength (TcpOp.request reqId op) = some (announced op) := by
  cases op with
  | read buf remoteAddr rkey => rfl
  | cas compare swap remoteAddr rkey => rfl
  | write buf remoteAddr rkey =>
    have parts : TcpOp.request reqId (.write buf remoteAddr rkey) =
        ([opWrite] ++ encode 8 reqId.toNat ++ encode 8 remoteAddr.toNat ++ encode 4 rkey.toNat) ++
          (encode 4 buf.length ++ buf) := by
      simp [TcpOp.request, TcpOp.opcode, TcpOp.params, TcpOp.data]
    have front : ([opWrite] ++ encode 8 reqId.toNat ++ encode 8 remoteAddr.toNat ++
        encode 4 rkey.toNat).length = 21 := by simp
    have enough : 25 ≤ (TcpOp.request reqId (.write buf remoteAddr rkey)).length := by
      rw [parts, List.length_append, front, List.length_append, encode_length]
      omega
    rw [frameLength, request_head?, TcpOp.opcode, if_neg (by decide), if_pos rfl, if_pos enough, parts,
      List.drop_left' front, List.take_left' (encode_length 4 _), decode_encode, announced]
    rfl

private theorem nextFrame_request (complete : announced op ≤ (TcpOp.request reqId op).length) :
    nextFrame (TcpOp.request reqId op) = some ((TcpOp.request reqId op).take (announced op),
      (TcpOp.request reqId op).drop (announced op)) := by
  rw [nextFrame, frameLength_request, Option.bind_some, if_pos complete]

/-- A request that fits its frame is a frame, and nothing else. -/
theorem nextFrame_request_of_fits (fits : TcpOp.Fits op) :
    nextFrame (TcpOp.request reqId op) = some (TcpOp.request reqId op, []) := by
  have length : (TcpOp.request reqId op).length = announced op := request_length fits
  rw [nextFrame_request length.ge, ← length, List.take_length, List.drop_length]

/-- A request that is longer than it announces leaves something behind its frame. -/
theorem split_request (longer : announced op < (TcpOp.request reqId op).length) :
    ∃ frame behind, nextFrame (TcpOp.request reqId op) = some (frame, behind) ∧ 0 < frame.length ∧
      behind ≠ [] ∧ frame.headD 0 = TcpOp.opcode op := by
  have positive : 0 < announced op := by
    cases op <;> simp only [announced] <;> omega
  refine ⟨_, _, nextFrame_request longer.le, ?_, ?_, ?_⟩
  · rw [List.length_take_of_le longer.le]
    exact positive
  · rw [← List.length_pos_iff, List.length_drop]
    omega
  · obtain ⟨count, same⟩ := Nat.exists_eq_succ_of_ne_zero positive.ne'
    rw [same]
    rfl

/-- A frame found in the front of a request is the request. -/
theorem eq_of_nextFrame (fits : TcpOp.Fits op) (parts : bytes ++ more = TcpOp.request reqId op)
    (told : nextFrame bytes = some (frame, rest)) :
    frame = TcpOp.request reqId op ∧ rest = [] ∧ more = [] := by
  have whole := @nextFrame_append _ _ _ more told
  rw [parts, nextFrame_request_of_fits fits, Option.some.injEq, Prod.mk.injEq] at whole
  exact ⟨whole.1.symm, List.append_eq_nil_iff.mp whole.2.symm⟩

end Requests

section Calls

variable {op : TcpOp} {response : TcpResponse}

private theorem sends_call (reqId : BitVec 64) (op : TcpOp) :
    ∃ work, Sends noLoop (await op) (TcpTransport.call reqId op) (TcpOp.request reqId op) work := by
  cases op with
  | read buf remoteAddr rkey => exact ⟨_, sends_read⟩
  | write buf remoteAddr rkey => exact ⟨_, sends_write⟩
  | cas compare swap remoteAddr rkey => exact ⟨_, sends_cas⟩

/-- A call that has sent its request reads something. -/
theorem await_eq (op : TcpOp) : ∃ count next, await op = .readExact (count + 1) next := by
  cases op with
  | read buf remoteAddr rkey => exact ⟨12, _, rfl⟩
  | write buf remoteAddr rkey => exact ⟨8, _, rfl⟩
  | cas compare swap remoteAddr rkey => exact ⟨9, _, rfl⟩

private theorem still_await (op : TcpOp) : Still noLoop (await op) := by
  intro capacity outgoing chunk
  obtain ⟨count, next, reads⟩ := await_eq op
  rw [reads, advance, if_neg (Nat.succ_ne_zero count), if_neg]
  rintro ⟨positive, _, none_⟩
  rw [List.length_nil] at none_
  omega

/-- A response of the ordinary kind is read to its end. -/
theorem feed_await (plain : TcpOp.opcode op = opRead → response.status = 0 ∨ response.data = []) :
    ∃ result, (await op).feed (response.frame (TcpOp.opcode op)) = some (result, []) := by
  cases op with
  | read buf remoteAddr rkey =>
    by_cases accepted : response.status = 0
    · have fed := @feed_awaitRead response buf [] accepted
      rw [List.append_nil] at fed
      exact ⟨_, fed⟩
    · have empty : response.data = [] := (plain rfl).resolve_left accepted
      refine ⟨.error (.internal "TCP READ failed"), ?_⟩
      rw [await, TcpOp.opcode, frame_opRead, feed_awaitRead_header, if_pos accepted, empty]
  | write buf remoteAddr rkey =>
    have fed := @feed_awaitWrite response []
    rw [List.append_nil] at fed
    exact ⟨_, fed⟩
  | cas compare swap remoteAddr rkey =>
    have fed := @feed_awaitCas response []
    rw [List.append_nil] at fed
    exact ⟨_, fed⟩

private theorem hears (plain : TcpOp.opcode op = opRead → response.status = 0 ∨ response.data = []) :
    ∃ result work, answerTo op response = some result ∧
      Receives noLoop (.done result) (await op) (response.frame (TcpOp.opcode op)) work := by
  obtain ⟨result, fed⟩ := feed_await plain
  obtain ⟨taken, work, split, receives⟩ := @receives_of_feed _ _ noLoop _ _ _ _ fed
  rw [List.append_nil] at split
  exact ⟨result, work, by rw [answerTo, fed, Option.map_some], split ▸ receives⟩

end Calls

/-- Where the call that holds the lock stands: it sends its request, or its own response is coming in. -/
inductive TrafficPhase (served : List ServedRequest) (consumed : ℕ) :
    Option (PlacedCall × TcpTransport.Client) → Bytes → Bytes → Prop
  | free : TrafficPhase served consumed none [] []
  | asking {call program toServer unsent work} (fits : TcpOp.Fits call.op)
      (position : call.position = consumed)
      (sends : Sends noLoop (await call.op) program unsent work)
      (request : toServer ++ unsent = TcpOp.request call.reqId call.op) :
      TrafficPhase served consumed (some (call, program)) toServer []
  | answering {call program toClient result work}
      (receives : Receives noLoop (.done result) program toClient work)
      (own : ∃ answered ∈ served, answered.position = call.position ∧
        answered.frame = TcpOp.request call.reqId call.op ∧
        answerTo call.op answered.response = some result) :
      TrafficPhase served consumed (some (call, program)) [] toClient

/-- Both sides are in step, and have been so far. -/
structure InStep (state : TcpTraffic) : Prop where
  logged : ∀ answered ∈ state.served, answered.position < state.consumed
  own : OwnResults state
  phase : TrafficPhase state.served state.consumed state.holder state.toServer state.toClient

private theorem inStep_connect : InStep .connect :=
  ⟨by simp [TcpTraffic.connect], by simp [OwnResults, TcpTraffic.connect], .free⟩

section Steps

variable {state next : TcpTraffic} {label : TrafficLabel}

/-- What is its own stays so when more requests are answered. -/
theorem Own.mono {call : PlacedCall} {reply : TcpReply} (own : Own state call reply)
    (grows : state.served ⊆ next.served) : Own next call reply := by
  obtain ⟨answered, member, rest⟩ := own
  exact ⟨answered, grows member, rest⟩

/-- A frame begins before the place behind it. -/
theorem logged_snoc {served : List ServedRequest} {consumed : ℕ} {frame : Bytes} {response : TcpResponse}
    (logged : ∀ answered ∈ served, answered.position < consumed) (nonempty : 0 < frame.length) :
    ∀ answered ∈ served ++ [⟨consumed, frame, response⟩], answered.position < consumed + frame.length := by
  intro answered member
  rcases List.mem_append.mp member with old | new
  · exact Nat.lt_add_right _ (logged answered old)
  · rw [List.mem_singleton.mp new]
    exact Nat.lt_add_of_pos_right nonempty

namespace InStep

variable (inStep : InStep state)
include inStep

/-- The lock is taken when nothing is under way. -/
theorem lock_cases {index : ℕ} (taken : state.step (.lock index) = some next) :
    state.toServer = [] ∧ state.toClient = [] ∧ ∃ reqId op, state.waiting[index]? = some (reqId, op) ∧
      next = { state with
        waiting := state.waiting.eraseIdx index
        holder := some (⟨reqId, op, state.consumed⟩, TcpTransport.call reqId op) } := by
  cases state
  obtain ⟨logged, own, phase⟩ := inStep
  cases phase with
  | asking fits position sends request => cases taken
  | answering receives answered => cases taken
  | free =>
    simp only [TcpTraffic.step] at taken
    split at taken
    · next reqId op _ found => exact ⟨rfl, rfl, reqId, op, found, (Option.some.inj taken).symm⟩
    · cases taken

/-- What is answered is the request of the call that holds the lock, sent to its end. -/
theorem serve_cases {response : TcpResponse} (taken : state.step (.serve response) = some next) :
    ∃ call program work, state.holder = some (call, program) ∧ call.position = state.consumed ∧
      Sends noLoop (await call.op) program [] work ∧
      nextFrame state.toServer = some (TcpOp.request call.reqId call.op, []) ∧
      next = { state with
        toServer := []
        toClient := response.frame (TcpOp.opcode call.op)
        consumed := state.consumed + (TcpOp.request call.reqId call.op).length
        served := state.served ++ [⟨state.consumed, TcpOp.request call.reqId call.op, response⟩] } := by
  cases state
  obtain ⟨logged, own, phase⟩ := inStep
  cases phase with
  | free => cases taken
  | answering receives answered => cases taken
  | @asking call program _ unsent work fits position sends request =>
    simp only [TcpTraffic.step] at taken
    split at taken
    · cases taken
    next frame rest told =>
    split at taken
    · obtain ⟨rfl, rfl, rfl⟩ := eq_of_nextFrame fits request told
      exact ⟨call, program, work, rfl, position, sends, told, (Option.some.inj taken).symm⟩
    · cases taken

theorem lock {index : ℕ} (plain : Plain state (.lock index))
    (taken : state.step (.lock index) = some next) : InStep next := by
  obtain ⟨served, silent, reqId, op, found, rfl⟩ := inStep.lock_cases taken
  obtain ⟨work, sends⟩ := sends_call reqId op
  refine ⟨inStep.logged, inStep.own, ?_⟩
  dsimp only
  rw [served, silent]
  exact .asking (plain _ found) rfl sends rfl

theorem client {chunk : ℕ} (taken : state.step (.client chunk) = some next) : InStep next := by
  obtain ⟨requestId, waiting, holder, toServer, toClient, consumed, served, returned⟩ := state
  obtain ⟨logged, own, phase⟩ := inStep
  cases phase with
  | free => cases taken
  | asking fits position sends request =>
    simp only [TcpTraffic.step, Option.map_eq_some_iff] at taken
    obtain ⟨⟨program, toClient, toServer⟩, moves, rfl⟩ := taken
    rcases sends.step moves with ⟨rfl, _⟩ | ⟨sent, rest, left, rfl, queues, onward, _⟩
    · rw [still_await] at moves
      cases moves
    · cases queues
      refine ⟨logged, own, .asking fits position onward ?_⟩
      rw [List.append_assoc, request]
  | @answering call program toClient result work receives answered =>
    have receiving : Receives noLoop (.done result) program (toClient ++ []) work := by
      rwa [List.append_nil]
    simp only [TcpTraffic.step, Option.map_eq_some_iff] at taken
    obtain ⟨⟨later, incoming, outgoing⟩, moves, rfl⟩ := taken
    rcases receiving.step moves with ⟨rfl, nothing⟩ | ⟨left, onward, _, _, silent⟩
    · rw [(List.append_eq_nil_iff.mp nothing).1, still_done] at moves
      cases moves
    · cases silent
      rw [List.append_nil] at onward
      exact ⟨logged, own, .answering onward answered⟩

theorem serve {response : TcpResponse} (plain : Plain state (.serve response))
    (taken : state.step (.serve response) = some next) : InStep next := by
  obtain ⟨call, program, work, holder, position, sends, told, rfl⟩ := inStep.serve_cases taken
  have ordinary : TcpOp.opcode call.op = opRead → response.status = 0 ∨ response.data = [] :=
    fun same => plain _ told (by rw [request_head?, same])
  obtain ⟨result, listening, answer, receives⟩ := hears ordinary
  refine ⟨logged_snoc inStep.logged (Nat.succ_pos _), ?_, ?_⟩
  · exact fun entry member reply ok =>
      (inStep.own entry member reply ok).mono (List.subset_append_left _ _)
  · dsimp only
    rw [holder]
    exact .answering (sends.receives receives)
      ⟨_, List.mem_append_right _ (List.mem_singleton_self _), position.symm, rfl, answer⟩

/-- What has been sent of a request begins with its opcode. -/
theorem garble {bytes : Bytes} : state.step (.garble bytes) = none := by
  obtain ⟨requestId, waiting, holder, toServer, toClient, consumed, served, returned⟩ := state
  obtain ⟨_, _, phase⟩ := inStep
  cases phase with
  | free => rfl
  | answering receives answered => rfl
  | @asking call program _ unsent work fits position sends request =>
    cases toServer with
    | nil => rfl
    | cons opcode rest =>
      have same : opcode = TcpOp.opcode call.op := List.head_eq_of_cons_eq request
      have known : isOpcode opcode = true := by
        rw [same]
        cases call.op <;> rfl
      exact if_pos known

theorem finish (taken : state.step .finish = some next) : InStep next := by
  cases state
  obtain ⟨logged, own, phase⟩ := inStep
  cases phase with
  | free => cases taken
  | @asking call program _ unsent work fits position sends request =>
    simp only [TcpTraffic.step] at taken
    split at taken
    · next held result same =>
      cases same
      obtain ⟨count, reads, waits⟩ := await_eq call.op
      refine absurd rfl (sends.ne_done rfl ?_)
      rw [waits]
      rintro ⟨⟩
    · cases taken
  | @answering call program toClient result work receives answered =>
    simp only [TcpTraffic.step] at taken
    split at taken
    · next held returning same =>
      cases same
      cases taken
      cases receives with
      | again goesOn _ => cases goesOn
      | here =>
        refine ⟨logged, ?_, .free⟩
        intro entry member reply ok
        rcases List.mem_append.mp member with old | new
        · exact (own entry old reply ok).mono (List.Subset.refl _)
        · obtain rfl := List.mem_singleton.mp new
          cases ok
          exact answered
    · cases taken

theorem abandon (nothing : state.toServer = [] ∧ state.toClient = [])
    (taken : state.step .abandon = some next) : InStep next := by
  rw [TcpTraffic.step, Option.ite_none_right_eq_some] at taken
  obtain rfl := Option.some.inj taken.2
  refine ⟨inStep.logged, inStep.own, ?_⟩
  rw [nothing.1, nothing.2]
  exact .free

/-- Clean steps keep both sides in step. -/
theorem step (clean : Clean state label) (taken : state.step label = some next) : InStep next := by
  rcases clean with plain | ⟨rfl, nothing⟩
  · cases label with
    | issue op =>
      cases taken
      exact ⟨inStep.logged, inStep.own, inStep.phase⟩
    | lock index => exact inStep.lock plain taken
    | client chunk => exact inStep.client taken
    | serve response => exact inStep.serve plain taken
    | garble bytes =>
      rw [inStep.garble] at taken
      cases taken
    | finish => exact inStep.finish taken
    | abandon => exact plain.elim
    | forget index =>
      rw [TcpTraffic.step, Option.ite_none_right_eq_some] at taken
      obtain rfl := Option.some.inj taken.2
      exact ⟨inStep.logged, inStep.own, inStep.phase⟩
  · exact inStep.abandon nothing taken

/-- After a clean step nothing is spoiled. -/
theorem harmless (clean : Clean state label) : Harmless state label := by
  rintro next taken final ⟨labels, throughout, reached⟩
  have ordinary : ∀ {state label next}, InStep state → Plain state label →
      TcpTraffic.step state label = some next → InStep next :=
    fun inStep plain taken => inStep.step (.inl plain) taken
  exact (throughout.invariant ordinary (inStep.step clean taken) reached).own

end InStep

end Steps

section Handler

variable {size : ℕ} {buffer : ByteMemory.Memory} {reqId : BitVec 64} {op : TcpOp}

private theorem requestIdOf_request : requestIdOf (TcpOp.request reqId op) = reqId := by
  rw [requestIdOf, TcpOp.request, List.drop_left' List.length_singleton, List.take_left' (encode_length 8 _),
    ofNat_decode_encode]

private theorem fits_of_inside (inside : TcpOp.Inside size op) : TcpOp.Fits op := by
  cases op with
  | read buf remoteAddr rkey => trivial
  | write buf remoteAddr rkey => exact inside.2
  | cas compare swap remoteAddr rkey => trivial

private theorem response_eq_frame (inside : TcpOp.Inside size op) : ∃ response : TcpResponse,
    response.reqId = reqId ∧ response.status = 0 ∧
      TcpOp.response reqId buffer op = response.frame (TcpOp.opcode op) := by
  cases op with
  | read buf remoteAddr rkey =>
    have length := ByteMemory.read_length buffer remoteAddr.toNat buf.length
    rw [TcpOp.response]
    generalize ByteMemory.read buffer remoteAddr.toNat buf.length = data at length ⊢
    refine ⟨⟨reqId, 0, data, 0, length.trans_lt inside.2⟩, rfl, rfl, ?_⟩
    rw [TcpOp.opcode, frame_opRead, readHeader]
    dsimp only
    rw [length, List.append_assoc (encode 8 _), List.singleton_append]
  | write buf remoteAddr rkey => exact ⟨⟨reqId, 0, [], 0, by decide⟩, rfl, rfl, rfl⟩
  | cas compare swap remoteAddr rkey =>
    rw [TcpOp.response]
    generalize (if ByteMemory.word buffer 8 remoteAddr.toNat = compare.toNat then (1 : Byte) else 0) = verdict
    exact ⟨⟨reqId, 0, [], verdict, by decide⟩, rfl, rfl, rfl⟩

/-- The reference handler is such a server: it reads the frame of a call inside its buffer to the end,
answers it with the id of the request, and is back at its loop. -/
theorem handler_serves (addressable : size < 2 ^ 64) (inside : TcpOp.Inside size op) :
    ∃ frame response answering reading speaking,
      nextFrame (TcpOp.request reqId op) = some (frame, []) ∧ response.reqId = requestIdOf frame ∧
      Receives (TcpServer.handlerLoop size) answering (TcpServer.handleClient size buffer) frame reading ∧
      Sends (TcpServer.handlerLoop size) (TcpServer.handleClient size (TcpOp.execute buffer op).1) answering
        (TcpResponse.frame response (TcpOp.opcode op)) speaking := by
  obtain ⟨_, answering, heard⟩ := @understood size buffer reqId op addressable inside
  obtain ⟨response, echoes, _, same⟩ := @response_eq_frame size buffer reqId op inside
  exact ⟨_, response, answering, _, _, nextFrame_request_of_fits (fits_of_inside inside),
    echoes.trans requestIdOf_request.symm, heard.receives, same ▸ heard.answers⟩

end Handler

section Drives

variable {state : TcpTraffic} {call : PlacedCall} {program later : TcpTransport.Client}
variable {incoming outgoing : Bytes} {op : TcpOp}

/-- The call that holds the lock is driven on. -/
theorem client_reaches (holds : state.holder = some (call, program))
    (driven : Reaches (move noLoop) (program, state.toClient, state.toServer) (later, incoming, outgoing)) :
    ReachesBy TcpTraffic.step Plain state { state with
      holder := some (call, later)
      toClient := incoming
      toServer := outgoing } := by
  obtain ⟨chunks, driving⟩ := driven
  induction chunks generalizing state program with
  | nil =>
    cases driving
    rw [← holds]
    exact .refl _ _
  | cons chunk rest ih =>
    obtain ⟨⟨middle, toClient, toServer⟩, moves, onward⟩ := run_cons_eq_some.mp driving
    have moved : program.advance none noLoop state.toClient state.toServer chunk =
        some (middle, toClient, toServer) := moves
    have taken : state.step (.client chunk) =
        some { state with holder := some (call, middle), toClient, toServer } := by
      simp only [TcpTraffic.step, holds, moved, Option.map_some]
    exact .head taken trivial (ih rfl onward)

/-- A new call has taken the lock and sent its request. -/
structure Asked (op : TcpOp) (state asked : TcpTraffic) : Prop where
  reaches : ReachesBy TcpTraffic.step Plain state asked
  holder : asked.holder = some (⟨state.requestId, op, state.consumed + state.toServer.length⟩, await op)
  toServer : asked.toServer = state.toServer ++ TcpOp.request state.requestId op
  toClient : asked.toClient = state.toClient
  consumed : asked.consumed = state.consumed
  served : asked.served = state.served

theorem exists_asked (free : state.holder = none) (fits : TcpOp.Fits op) : ∃ asked, Asked op state asked := by
  have issued : state.step (.issue op) = some { state with
      requestId := state.requestId + 1
      waiting := state.waiting ++ [(state.requestId, op)] } := rfl
  have last : (state.waiting ++ [(state.requestId, op)])[state.waiting.length]? =
      some (state.requestId, op) := List.getElem?_concat_length
  have locked : TcpTraffic.step { state with
      requestId := state.requestId + 1
      waiting := state.waiting ++ [(state.requestId, op)] } (.lock state.waiting.length) = some { state with
        requestId := state.requestId + 1
        waiting := (state.waiting ++ [(state.requestId, op)]).eraseIdx state.waiting.length
        holder := some (⟨state.requestId, op, state.consumed + state.toServer.length⟩,
          TcpTransport.call state.requestId op) } := by
    simp only [TcpTraffic.step, free, last]
  have allowed : Plain { state with
      requestId := state.requestId + 1
      waiting := state.waiting ++ [(state.requestId, op)] } (.lock state.waiting.length) := by
    intro call found
    cases last.symm.trans found
    exact fits
  obtain ⟨work, sends⟩ := sends_call state.requestId op
  exact ⟨_, .head issued trivial (.head locked allowed (client_reaches rfl (sends.drive _ _))),
    rfl, rfl, rfl, rfl, rfl⟩

/-- The call that holds the lock reads what it waits for and returns. -/
theorem return_reaches {result : Except RdmaError TcpReply} {taken more : Bytes} {work : ℕ}
    (holds : state.holder = some (call, program))
    (receives : Receives noLoop (.done result) program taken work) (arrived : state.toClient = taken ++ more) :
    ReachesBy TcpTraffic.step Plain state { state with
      holder := none
      toClient := more
      returned := state.returned ++ [(call, result)] } := by
  have driven := receives.drive more state.toServer
  rw [← arrived] at driven
  have finished : TcpTraffic.step { state with
      holder := some (call, .done result)
      toClient := more } .finish = some { state with
        holder := none
        toClient := more
        returned := state.returned ++ [(call, result)] } := rfl
  exact (client_reaches holds driven).trans (.head finished trivial (.refl _ _))

end Drives

section Poison

variable {state next middle : TcpTraffic} {label : TrafficLabel}

/-- Some plain run ends with a call that returned `Ok` with what is not its own. -/
def Poisoned (state : TcpTraffic) : Prop :=
  ∃ final, ReachesBy TcpTraffic.step Plain state final ∧ ¬ OwnResults final

theorem Poisoned.of_reaches (reaches : ReachesBy TcpTraffic.step Plain state next)
    (poisoned : Poisoned next) : Poisoned state := by
  obtain ⟨final, onward, wrong⟩ := poisoned
  exact ⟨final, reaches.trans onward, wrong⟩

theorem Poisoned.not_harmless (taken : state.step label = some next) (poisoned : Poisoned next) :
    ¬ Harmless state label := by
  obtain ⟨final, onward, wrong⟩ := poisoned
  exact fun harmless => wrong (harmless next taken final onward)

/-- A call that returns `Ok` although nothing was answered at its place. -/
theorem poisoned_of_unanswered {call : PlacedCall} {program : TcpTransport.Client} {reply : TcpReply}
    {taken more : Bytes} {work : ℕ} (holds : state.holder = some (call, program))
    (receives : Receives noLoop (.done (.ok reply)) program taken work)
    (arrived : state.toClient = taken ++ more)
    (unanswered : ∀ answered ∈ state.served, answered.position = call.position →
      answerTo call.op answered.response ≠ some (.ok reply)) : Poisoned state := by
  refine ⟨_, return_reaches holds receives arrived, fun own => ?_⟩
  obtain ⟨answered, member, position, _, answer⟩ :=
    own (call, .ok reply) (List.mem_append_right _ (List.mem_singleton_self _)) reply rfl
  exact unanswered answered member position answer

/-- Enough bytes make a complete frame of anything that begins with an opcode. -/
theorem nextFrame_of_length {opcode : Byte} {rest : Bytes} (known : isOpcode opcode = true)
    (long : 25 + (2 ^ 32 - 1) ≤ (opcode :: rest).length) :
    ∃ frame behind, nextFrame (opcode :: rest) = some (frame, behind) := by
  have counted : ∃ length, frameLength (opcode :: rest) = some length ∧ length ≤ 25 + (2 ^ 32 - 1) := by
    simp only [isOpcode, Bool.or_eq_true, beq_iff_eq] at known
    rcases known with (rfl | rfl) | rfl
    · exact ⟨25, rfl, by omega⟩
    · have field : decode (((opWrite :: rest).drop 21).take 4) < 2 ^ 32 := by
        rw [decode_take]
        exact Nat.mod_lt _ (by decide)
      refine ⟨25 + decode (((opWrite :: rest).drop 21).take 4), ?_, by omega⟩
      have enough : 25 ≤ (opWrite :: rest).length := by omega
      exact if_pos enough
    · exact ⟨37, rfl, by omega⟩
  obtain ⟨length, told, bound⟩ := counted
  exact ⟨_, _, by rw [nextFrame, told, Option.bind_some, if_pos (bound.trans long)]⟩

/-- The server answers the frame in front. -/
theorem serve_reaches {frame behind : Bytes} {response : TcpResponse}
    (told : nextFrame state.toServer = some (frame, behind)) (echoes : response.reqId = requestIdOf frame)
    (accepted : response.status = 0) :
    ReachesBy TcpTraffic.step Plain state { state with
      toServer := behind
      toClient := state.toClient ++ response.frame (frame.headD 0)
      consumed := state.consumed + frame.length
      served := state.served ++ [⟨state.consumed, frame, response⟩] } := by
  have served : state.step (.serve response) = some { state with
      toServer := behind
      toClient := state.toClient ++ response.frame (frame.headD 0)
      consumed := state.consumed + frame.length
      served := state.served ++ [⟨state.consumed, frame, response⟩] } := by
    simp only [TcpTraffic.step, told, if_pos echoes]
  exact .head served (fun _ _ _ => .inl accepted) (.refl _ _)

/-- The server takes what is in front for a request and accepts it, or answers to a byte that begins none. -/
theorem server_reaches {opcode : Byte} {rest : Bytes} (queue : state.toServer = opcode :: rest)
    (quiet : state.toClient = []) (long : 25 + (2 ^ 32 - 1) ≤ (opcode :: rest).length) :
    ∃ next, ReachesBy TcpTraffic.step Plain state next ∧ next.holder = state.holder ∧
      (∃ (reqId : BitVec 64) (more : Bytes), next.toClient = (encode 8 reqId.toNat ++ [0x00]) ++ more) ∧
      ∀ answered ∈ next.served, answered ∈ state.served ∨ answered.position = state.consumed := by
  by_cases known : isOpcode opcode = true
  · obtain ⟨frame, behind, told⟩ := nextFrame_of_length known long
    have accepts := @serve_reaches state frame behind ⟨requestIdOf frame, 0, [], 0, by decide⟩
      (by rw [queue, told]) rfl rfl
    refine ⟨_, accepts, rfl, ⟨requestIdOf frame, TcpResponse.body ⟨requestIdOf frame, 0, [], 0, by decide⟩
      (frame.headD 0), ?_⟩, ?_⟩
    · rw [quiet, List.nil_append, TcpResponse.frame, List.append_assoc, List.singleton_append]
    · intro answered member
      rcases List.mem_append.mp member with old | new
      · exact .inl old
      · rw [List.mem_singleton.mp new]
        exact .inr rfl
  · have garbled : state.step (.garble (encode 8 (0 : BitVec 64).toNat ++ [0x00])) = some { state with
        toServer := rest
        toClient := state.toClient ++ (encode 8 (0 : BitVec 64).toNat ++ [0x00])
        consumed := state.consumed + 1 } := by
      simp only [TcpTraffic.step, queue, if_neg known]
    refine ⟨_, .head garbled trivial (.refl _ _), rfl, ⟨0, [], ?_⟩, fun _ member => .inl member⟩
    rw [quiet, List.nil_append, List.append_nil]

/-- What is left of a request is taken for the beginning of the next one. -/
theorem poisoned_of_request (free : state.holder = none) (quiet : state.toClient = [])
    (left : state.toServer ≠ []) (logged : ∀ answered ∈ state.served, answered.position < state.consumed) :
    Poisoned state := by
  -- A write that is long enough to complete whatever frame the bytes left begin.
  obtain ⟨payload, length⟩ : ∃ payload : Bytes, payload.length = 2 ^ 32 - 1 :=
    ⟨List.replicate (2 ^ 32 - 1) 0, List.length_replicate⟩
  have fits : TcpOp.Fits (.write payload 0 0) := by
    rw [TcpOp.Fits, length]
    omega
  obtain ⟨opcode, rest, begins⟩ := List.exists_cons_of_ne_nil left
  obtain ⟨asked, asks⟩ := exists_asked free fits
  have queue : asked.toServer = opcode :: (rest ++ TcpOp.request state.requestId (.write payload 0 0)) := by
    rw [asks.toServer, begins, List.cons_append]
  have long : 25 + (2 ^ 32 - 1) ≤
      (opcode :: (rest ++ TcpOp.request state.requestId (.write payload 0 0))).length := by
    rw [List.length_cons, List.length_append, request_length fits, announced, length]
    omega
  obtain ⟨next, answers, holder, ⟨reqId, more, arrived⟩, log⟩ :=
    server_reaches queue (asks.toClient.trans quiet) long
  have written : Receives noLoop (.done (.ok .written)) (await (.write payload 0 0))
      (encode 8 reqId.toNat ++ [0x00]) 15 := @listens_write (fun _ => 0) reqId 0 0 payload
  refine .of_reaches (asks.reaches.trans answers)
    (poisoned_of_unanswered (holder.trans asks.holder) written arrived ?_)
  intro answered member position
  have shifted : 0 < state.toServer.length := List.length_pos_iff.mpr left
  have before : answered.position ≤ state.consumed := by
    rcases log answered member with old | new
    · exact (logged answered (asks.served ▸ old)).le
    · exact (new.trans asks.consumed).le
  dsimp only at position
  omega

/-- What a swap makes of any ten bytes. -/
def verdictOf (block : Bytes) : Bool := decide (block.getD 8 0 = 0) && decide (block.getD 9 0 = 1)

private theorem hears_block {block : Bytes} (length : block.length = 10) {compare swap remoteAddr : BitVec 64}
    {rkey : BitVec 32} :
    Receives noLoop (.done (.ok (.swapped (verdictOf block)))) (await (.cas compare swap remoteAddr rkey))
      block 11 :=
  .last length rfl

private theorem answerTo_cas {response : TcpResponse} {compare swap remoteAddr : BitVec 64} {rkey : BitVec 32}
    (accepted : response.status = 0) : answerTo (.cas compare swap remoteAddr rkey) response =
      some (.ok (.swapped (decide (response.swapped = 1)))) := by
  have fed := @feed_awaitCas response []
  rw [List.append_nil, decide_eq_true accepted, Bool.true_and] at fed
  exact congrArg (Option.map Prod.fst) fed

/-- To a swap, the server may answer the contrary of any verdict. -/
theorem exists_contrary (reqId : BitVec 64) (verdict : Bool) : ∃ response : TcpResponse,
    response.reqId = reqId ∧ response.status = 0 ∧ decide (response.swapped = 1) ≠ verdict := by
  cases verdict with
  | true => exact ⟨⟨reqId, 0, [], 0, by decide⟩, rfl, rfl, by simp⟩
  | false => exact ⟨⟨reqId, 0, [], 1, by decide⟩, rfl, rfl, by simp⟩

/-- A swap that finds some bytes in front of its response reads all of it but the verdict. -/
theorem poisoned_of_part {asked : TcpTraffic} (asks : Asked (.cas 0 0 0 0) state asked)
    (served : state.toServer = []) (left : state.toClient ≠ []) (few : state.toClient.length < 10)
    (logged : ∀ answered ∈ state.served, answered.position < state.consumed) : Poisoned asked := by
  obtain ⟨frame, isRequest⟩ : ∃ frame, frame = TcpOp.request state.requestId (.cas 0 0 0 0) := ⟨_, rfl⟩
  obtain ⟨stale, isStale⟩ : ∃ stale, stale =
    state.toClient ++ (encode 8 (requestIdOf frame).toNat ++ [(0x00 : Byte)]) := ⟨_, rfl⟩
  have something : 0 < state.toClient.length := List.length_pos_iff.mpr left
  have length : (stale.take 10).length = 10 := by
    refine List.length_take_of_le ?_
    rw [isStale, List.length_append, List.length_append, encode_length, List.length_singleton]
    omega
  obtain ⟨response, echoes, accepted, contrary⟩ :=
    exists_contrary (requestIdOf frame) (verdictOf (stale.take 10))
  have told : nextFrame asked.toServer = some (frame, []) := by
    rw [asks.toServer, served, List.nil_append, isRequest]
    exact nextFrame_request_of_fits trivial
  have opcode : frame.headD 0 = opCas := by
    rw [isRequest]
    rfl
  have arrived : asked.toClient ++ response.frame (frame.headD 0) =
      stale.take 10 ++ (stale.drop 10 ++ [response.swapped]) := by
    rw [← List.append_assoc, List.take_append_drop, opcode, frame_opCas, asks.toClient, echoes, accepted,
      isStale, List.append_assoc, List.append_assoc]
    rfl
  refine .of_reaches (serve_reaches told echoes accepted)
    (poisoned_of_unanswered asks.holder (hears_block length) arrived ?_)
  intro answered member position
  rcases List.mem_append.mp member with old | new
  · have before := logged answered (asks.served ▸ old)
    rw [served, List.length_nil] at position
    exact absurd position (Nat.ne_of_lt before)
  · rw [List.mem_singleton.mp new, answerTo_cas accepted]
    simpa using contrary

/-- What is left of a response is taken for that to the next request. -/
theorem poisoned_of_response (free : state.holder = none) (served : state.toServer = [])
    (left : state.toClient ≠ []) (logged : ∀ answered ∈ state.served, answered.position < state.consumed) :
    Poisoned state := by
  obtain ⟨asked, asks⟩ := exists_asked free (show TcpOp.Fits (.cas 0 0 0 0) from trivial)
  refine .of_reaches asks.reaches ?_
  rcases Nat.lt_or_ge state.toClient.length 10 with few | enough
  · exact poisoned_of_part asks served left few logged
  · -- The call is content with what is there.
    have arrived : asked.toClient = state.toClient.take 10 ++ state.toClient.drop 10 := by
      rw [asks.toClient, List.take_append_drop]
    refine poisoned_of_unanswered asks.holder (hears_block (List.length_take_of_le enough)) arrived ?_
    intro answered member position
    have before := logged answered (asks.served ▸ member)
    rw [served, List.length_nil] at position
    exact absurd position (Nat.ne_of_lt before)

private theorem abandon_poisons (inStep : InStep state) (taken : state.step .abandon = some next)
    (underway : ¬(state.toServer = [] ∧ state.toClient = [])) : Poisoned next := by
  cases state
  obtain ⟨logged, own, phase⟩ := inStep
  cases phase with
  | free => cases taken
  | asking fits position sends request =>
    cases taken
    exact poisoned_of_request rfl rfl (fun empty => underway ⟨empty, rfl⟩) logged
  | answering receives answered =>
    cases taken
    exact poisoned_of_response rfl rfl (fun empty => underway ⟨rfl, empty⟩) logged

/-- The length field of a longer payload does not cover it, and what is left begins the next frame. -/
theorem overlong_poisons {index : ℕ} (inStep : InStep state) (taken : state.step (.lock index) = some next)
    (overlong : ¬ Plain state (.lock index)) : Poisoned next := by
  obtain ⟨served, silent, reqId, op, found, rfl⟩ := inStep.lock_cases taken
  have exceeds : ¬ TcpOp.Fits op := by
    refine fun fits => overlong fun call same => ?_
    cases found.symm.trans same
    exact fits
  cases op with
  | read buf remoteAddr rkey => exact absurd trivial exceeds
  | cas compare swap remoteAddr rkey => exact absurd trivial exceeds
  | write buf remoteAddr rkey =>
    have longer : announced (.write buf remoteAddr rkey) <
        (TcpOp.request reqId (.write buf remoteAddr rkey)).length := by
      have wraps : buf.length % 2 ^ 32 < 2 ^ 32 := Nat.mod_lt _ (by decide)
      have long : 2 ^ 32 ≤ buf.length := Nat.not_lt.mp exceeds
      rw [write_request_length, announced]
      omega
    obtain ⟨frame, behind, told, nonempty, left, opcode⟩ := split_request longer
    obtain ⟨work, sends⟩ := sends_call reqId (.write buf remoteAddr rkey)
    -- The request is sent, its frame is answered, and the call returns.
    refine .of_reaches (client_reaches rfl (sends.drive _ _)) ?_
    refine .of_reaches (@serve_reaches _ frame behind ⟨requestIdOf frame, 0, [], 0, by decide⟩
      (by rw [← told, served, List.nil_append]) rfl rfl) ?_
    have written : Receives noLoop (.done (.ok .written)) (await (.write buf remoteAddr rkey))
        (encode 8 (requestIdOf frame).toNat ++ [0x00]) 15 :=
      @listens_write (fun _ => 0) (requestIdOf frame) remoteAddr rkey buf
    have arrived : state.toClient ++
        TcpResponse.frame ⟨requestIdOf frame, 0, [], 0, by decide⟩ (frame.headD 0) =
          (encode 8 (requestIdOf frame).toNat ++ [0x00]) ++ [] := by
      rw [opcode, silent, List.nil_append, List.append_nil]
      rfl
    exact .of_reaches (return_reaches rfl written arrived)
      (poisoned_of_request rfl rfl left (logged_snoc inStep.logged nonempty))

/-- The data behind a refusal are not read. -/
theorem refusal_poisons {response : TcpResponse} (inStep : InStep state)
    (taken : state.step (.serve response) = some next) (refused : ¬ Plain state (.serve response)) :
    Poisoned next := by
  obtain ⟨call, program, work, holder, position, sends, told, rfl⟩ := inStep.serve_cases taken
  have denied : response.status ≠ 0 := fun zero => refused fun _ _ _ => .inl zero
  have data : response.data ≠ [] := fun empty => refused fun _ _ _ => .inr empty
  have isRead : TcpOp.opcode call.op = opRead := by
    by_contra other
    refine refused fun next same head => absurd (Option.some.inj ?_) other
    cases told.symm.trans same
    exact head
  obtain ⟨reqId, op, place⟩ := call
  cases op with
  | write buf remoteAddr rkey => exact absurd isRead (show opWrite ≠ opRead by decide)
  | cas compare swap remoteAddr rkey => exact absurd isRead (show opCas ≠ opRead by decide)
  | read buf remoteAddr rkey =>
    have fed : (await (.read buf remoteAddr rkey)).feed (readHeader response ++ response.data) =
        some (.error (.internal "TCP READ failed"), response.data) := by
      rw [await, feed_awaitRead_header, if_pos denied]
    obtain ⟨header, listening, split, receives⟩ := @receives_of_feed _ _ noLoop _ _ _ _ fed
    have arrived : response.frame opRead = header ++ response.data := by
      rw [← split, frame_opRead]
    exact .of_reaches (return_reaches holder (sends.receives receives) arrived)
      (poisoned_of_response rfl rfl data (logged_snoc inStep.logged (Nat.succ_pos _)))

theorem InStep.harmless_iff (inStep : InStep state) (taken : state.step label = some next) :
    Harmless state label ↔ Clean state label := by
  constructor
  · intro harmless
    by_contra unclean
    obtain ⟨unplain, underway⟩ := not_or.mp unclean
    refine Poisoned.not_harmless taken ?_ harmless
    cases label with
    | issue op => exact absurd trivial unplain
    | lock index => exact overlong_poisons inStep taken unplain
    | client chunk => exact absurd trivial unplain
    | serve response => exact refusal_poisons inStep taken unplain
    | garble bytes => exact absurd trivial unplain
    | finish => exact absurd trivial unplain
    | abandon => exact abandon_poisons inStep taken fun nothing => underway ⟨rfl, nothing⟩
    | forget index => exact absurd trivial unplain
  · exact inStep.harmless

end Poison

/-- A run keeps every call to its own response exactly if all its steps are plain, but for calls that are
abandoned while nothing of them is under way. -/
theorem abandoned_calls_poison_nothing_iff {labels : List TrafficLabel} {final : TcpTraffic}
    (reached : run TcpTraffic.step .connect labels = some final) :
    (OwnResults final ∧ Throughout TcpTraffic.step Harmless .connect labels) ↔
      Throughout TcpTraffic.step Clean .connect labels := by
  have same : Throughout TcpTraffic.step Harmless .connect labels ↔
      Throughout TcpTraffic.step Clean .connect labels :=
    throughout_congr_of_run InStep.harmless_iff InStep.step inStep_connect reached
  constructor
  · exact fun harmless => same.mp harmless.2
  · intro clean
    exact ⟨(clean.invariant InStep.step inStep_connect reached).own, same.mpr clean⟩

/-- The steps in which a READ sends its request. -/
def sendingRead : List TrafficLabel := [1, 0, 8, 0, 8, 0, 4, 0, 4, 0].map .client

/-- A call that is dropped before it has sent anything, and one after it. -/
def droppedInTime : List TrafficLabel :=
  [.issue (.read [0] 0 5), .lock 0, .abandon, .issue (.read [0] 8 5), .lock 0] ++ sendingRead ++
    [.serve ⟨2, 0, [9], 0, by decide⟩, .client 13, .client 0, .client 1, .client 0, .finish]

theorem dropped_in_time_poisons_nothing :
    ∃ final, run TcpTraffic.step .connect droppedInTime = some final ∧
      final.returned = [(⟨2, .read [0] 8 5, 0⟩, .ok (.filled [9]))] ∧ OwnResults final ∧
      Throughout TcpTraffic.step Harmless .connect droppedInTime := by
  have runs : (run TcpTraffic.step .connect droppedInTime).any fun final =>
      final.returned == [(⟨2, .read [0] 8 5, 0⟩, .ok (.filled [9]))] := by decide +kernel
  obtain ⟨final, reached, returned⟩ := (Option.any_eq_true _ _).mp runs
  refine ⟨final, reached, beq_iff_eq.mp returned, ?_⟩
  exact (abandoned_calls_poison_nothing_iff reached).mpr (by decide +kernel)

/-- A call that is dropped when it has sent its request. Its response is read by the next call, whose own
request has not been answered. -/
def droppedTooLate : List TrafficLabel :=
  [.issue (.read [0] 0 5), .lock 0] ++ sendingRead ++ [.abandon, .issue (.read [0] 8 5), .lock 0] ++
    sendingRead ++ [.serve ⟨1, 0, [9], 0, by decide⟩, .client 13, .client 0, .client 1, .client 0, .finish]

theorem response_of_dropped_call_is_returned :
    ∃ final, run TcpTraffic.step .connect droppedTooLate = some final ∧
      final.returned = [(⟨2, .read [0] 8 5, 25⟩, .ok (.filled [9]))] ∧
      final.served.map ServedRequest.position = [0] ∧ ¬ OwnResults final := by
  have runs : (run TcpTraffic.step .connect droppedTooLate).any fun final =>
      final.returned == [(⟨2, .read [0] 8 5, 25⟩, .ok (.filled [9]))] &&
        final.served.map ServedRequest.position == [0] := by decide +kernel
  obtain ⟨final, reached, shows⟩ := (Option.any_eq_true _ _).mp runs
  obtain ⟨returned, served⟩ := (Bool.and_eq_true _ _).mp shows
  rw [beq_iff_eq] at returned served
  refine ⟨final, reached, returned, served, fun own => ?_⟩
  have mine : Own final ⟨2, .read [0] 8 5, 25⟩ (.filled [9]) :=
    own (⟨2, .read [0] 8 5, 25⟩, .ok (.filled [9])) (by rw [returned]; exact List.mem_singleton_self _) _ rfl
  obtain ⟨answered, member, position, _⟩ := mine
  have place : answered.position ∈ final.served.map ServedRequest.position := List.mem_map_of_mem member
  rw [served, position] at place
  exact absurd place (by decide)

end Rdmas.Soundness
