import Rdmas.Model.RemoteCalls
import Rdmas.Soundness.TcpConversation

/-! # What a TCP response is taken for

A call decodes the bytes that arrive by hand, with a length from the wire. A refused READ or WRITE and a
frame that breaks off are errors; a READ that brings less than its buffer and a refused CAS are not. Where a
caller takes a buffer for a bucket, the bytes that the response did not bring are those the buffer held.
-/

namespace Rdmas.Soundness

open Rdmas.Model LittleEndian FixedBytes StreamProgram TcpTransport ClientReader

section Callers

variable {transport : Transport} {regions : RemoteRegions} {key : HashedKey}
variable {answer : TcpOp → Except RdmaError TcpReply}

/-- Every read fills its buffer with what the transport reads. -/
def FillsFrom (transport : Transport) (lkey : BitVec 32) (answer : TcpOp → Except RdmaError TcpReply) :
    Prop :=
  ∀ buf remoteAddr rkey, answer (.read buf remoteAddr rkey) =
    (transport.read buf.length lkey remoteAddr rkey).map fun bytes => .filled bytes.toList

theorem FillsFrom.read (fills : FillsFrom transport regions.lkey answer) {buf : Bytes} {n : ℕ}
    (length : buf.length = n) (remoteAddr : BitVec 64) (rkey : BitVec 32) :
    answer (.read buf remoteAddr rkey) =
      (transport.read n regions.lkey remoteAddr rkey).map fun bytes => .filled bytes.toList := by
  subst length
  exact fills buf remoteAddr rkey

theorem ofBuffer_toList (bytes : Vector Byte 64) :
    HashBucket.ofBuffer bytes.toList = HashBucket.fromBytes bytes := by
  rw [HashBucket.ofBuffer, copyFromSlice_toList]

theorem eval_extractValueProgram (fills : FillsFrom transport regions.lkey answer) (bucket : HashBucket) :
    (extractValueProgram bucket regions).eval answer =
      some <$> extractValue bucket transport regions := by
  unfold extractValueProgram extractValue
  split
  · rfl
  · generalize bucket.extentRef = extent
    obtain ⟨offset, length⟩ := extent
    dsimp only
    rw [CallProgram.eval, fills.read List.length_replicate]
    cases transport.read _ _ _ _ <;> rfl

/-- A probe that ends in nothing goes on, whatever the buffer holds. -/
theorem eval_probeProgram (fills : FillsFrom transport regions.lkey answer) {buf : Bytes}
    (length : buf.length = 64) (idx : ℕ) {next : Bytes → RemoteProgram (Option ReadResult)}
    {later : Except RdmaError (Option ReadResult)}
    (goesOn : ∀ bytes : Vector Byte 64, (next bytes.toList).eval answer = later) :
    (probeProgram key regions buf idx next).eval answer =
      (probeRemote key transport regions idx >>= fun found =>
        if found.isSome then pure found else later) := by
  rw [probeProgram, CallProgram.eval, fills.read length, probeRemote]
  cases transport.read _ _ _ _ with
  | error error => rfl
  | ok bytes =>
    change (if _ then _ else _ : RemoteProgram _).eval answer = _
    rw [TcpReply.bytes, ofBuffer_toList]
    simp only [bind, Except.bind]
    split
    · rw [eval_extractValueProgram fills]
      cases extractValue _ transport regions <;> rfl
    · exact goesOn bytes

/-- On a transport that fills its buffers the program is `get_remote`. -/
theorem eval_getRemoteProgram (fills : FillsFrom transport regions.lkey answer) (bucketCount : ℕ) :
    (getRemoteProgram key regions bucketCount).eval answer =
      getRemote key transport regions bucketCount := by
  unfold getRemoteProgram getRemote
  split
  · rfl
  split
  · rfl
  have second : ∀ bytes : Vector Byte 64,
      (probeProgram key regions bytes.toList (((key.hash >>> 32).toNat % bucketCount) ||| 1)
        fun _ => .done (.ok none)).eval answer =
          probeRemote key transport regions (((key.hash >>> 32).toNat % bucketCount) ||| 1) := by
    intro bytes
    rw [eval_probeProgram fills bytes.length_toList _ fun _ => rfl]
    rcases probeRemote key transport regions _ with error | _ | found <;> rfl
  dsimp only
  rw [eval_probeProgram fills List.length_replicate _ second]
  rcases probeRemote key transport regions (key.hash.toNat % bucketCount) with
    error | _ | found <;> rfl

end Callers

/-- The response does what the call asked for, unless it says that it does not. -/
def TcpOp.Delivered (response : TcpResponse) : TcpOp → Prop
  | .read buf _ _ => response.status = 0 → buf.length ≤ response.data.length
  | .write _ _ _ => True
  | .cas _ _ _ _ => response.status = 0

instance (response : TcpResponse) : (op : TcpOp) → Decidable (TcpOp.Delivered response op)
  | .read _ _ _ => inferInstanceAs (Decidable (_ → _))
  | .write _ _ _ => inferInstanceAs (Decidable True)
  | .cas _ _ _ _ => inferInstanceAs (Decidable (_ = _))

/-- Wherever the program makes the call and gets these bytes, it ends with an error. -/
def StopsAt {ρ : Type} (eof : String) (op : TcpOp) (arrived : Bytes) (program : RemoteProgram ρ) : Prop :=
  ∀ earlier rest next, program.after (answer eof) earlier = some (.call op next) →
    ∃ error, program.run (answer eof) (earlier ++ arrived :: rest) = some (.error error)

/-- A call returns `Ok` only when it is done. -/
structure OkMeansDone (eof : String) (op : TcpOp) (response : TcpResponse) (arrived : Bytes) : Prop where
  filled : ∀ bytes, answer eof op arrived = .ok (.filled bytes) →
    response.status = 0 ∧ bytes.length = TcpOp.fetched op ∧ bytes <+: response.data
  written : answer eof op arrived = .ok .written → response.status = 0
  swapped : ∀ verdict, answer eof op arrived = .ok (.swapped verdict) →
    response.status = 0 ∧ verdict = decide (response.swapped = 1)
  failed : response.status ≠ 0 ∨ response.data.length < TcpOp.fetched op ∨
      arrived ≠ response.frame (TcpOp.opcode op) →
    ∃ error, answer eof op arrived = .error error
  /-- A short read is taken for a bucket neither by `get_remote` nor by `insert_remote`. -/
  unseen : TcpOp.fetched op = 64 → response.data.length < 64 →
    (∀ key regions bucketCount,
      StopsAt eof op arrived (getRemoteProgram key regions bucketCount)) ∧
    ∀ xxh64 call table bucketCount,
      StopsAt eof op arrived (ClientWriter.insertRemoteProgram xxh64 call table bucketCount)

section Frames

variable {response : TcpResponse} {buf arrived rest : Bytes} {eof : String} {op : TcpOp}

/-- The bytes in front of the data of a READ. -/
def readHeader (response : TcpResponse) : Bytes :=
  encode 8 response.reqId.toNat ++ response.status :: encode 4 response.data.length

theorem frame_opRead : response.frame opRead = readHeader response ++ response.data := by
  rw [TcpResponse.frame, TcpResponse.body, if_pos rfl, readHeader, List.append_assoc, List.cons_append]

theorem frame_opWrite : response.frame opWrite = encode 8 response.reqId.toNat ++ [response.status] := rfl

theorem frame_opCas :
    response.frame opCas = encode 8 response.reqId.toNat ++ [response.status, response.swapped] := rfl

private theorem readHeader_length : (readHeader response).length = 13 := by simp [readHeader]

private theorem readHeader_status : (readHeader response).getD 8 0 = response.status :=
  getD_behind_id response.reqId _ 0

private theorem readHeader_data_len :
    decode (((readHeader response).drop 9).take 4) = response.data.length := by
  have field := @decode_field 4 response.data.length 9
    (encode 8 response.reqId.toNat ++ [response.status]) [] (by simp) response.fits
  rwa [List.append_nil, List.append_assoc, List.singleton_append] at field

/-- The header of a READ has arrived. -/
theorem feed_awaitRead_header : (awaitRead buf).feed (readHeader response ++ rest) =
    if response.status ≠ 0 then some (.error (.internal "TCP READ failed"), rest)
    else feed (.readExact response.data.length fun data => .done (.ok (.filled
      (data.take (min response.data.length buf.length) ++ buf.drop (min response.data.length buf.length)))))
      rest := by
  rw [awaitRead, feed_readExact readHeader_length, readHeader_status, readHeader_data_len]
  split <;> rfl

/-- A buffer that is filled as far as the data go keeps the rest of its bytes. -/
theorem feed_awaitRead (accepted : response.status = 0) :
    (awaitRead buf).feed (response.frame opRead ++ rest) =
      some (.ok (.filled (response.data.take buf.length ++ buf.drop response.data.length)), rest) := by
  have copied : response.data.take (min response.data.length buf.length) ++
      buf.drop (min response.data.length buf.length) =
        response.data.take buf.length ++ buf.drop response.data.length := by
    rcases Nat.le_total response.data.length buf.length with short | long
    · rw [Nat.min_eq_left short, List.take_length, List.take_of_length_le short]
    · rw [Nat.min_eq_right long, List.drop_length, List.drop_of_length_le long]
  rw [frame_opRead, List.append_assoc, feed_awaitRead_header, if_neg (not_not_intro accepted),
    feed_readExact rfl, feed, copied]

theorem feed_awaitWrite : TcpTransport.awaitWrite.feed (response.frame opWrite ++ rest) =
    some (if response.status ≠ 0 then .error (.internal "TCP WRITE failed") else .ok .written, rest) := by
  have length : (response.frame opWrite).length = 9 := by simp [frame_opWrite]
  have status : (response.frame opWrite).getD 8 0 = response.status := getD_behind_id response.reqId _ 0
  rw [awaitWrite, feed_readExact length, status]
  split <;> rfl

theorem feed_awaitCas : TcpTransport.awaitCas.feed (response.frame opCas ++ rest) =
    some (.ok (.swapped (decide (response.status = 0) && decide (response.swapped = 1))), rest) := by
  have length : (response.frame opCas).length = 10 := by simp [frame_opCas]
  have status : (response.frame opCas).getD 8 0 = response.status := getD_behind_id response.reqId _ 0
  have verdict : (response.frame opCas).getD 9 0 = response.swapped := getD_behind_id response.reqId _ 1
  rw [awaitCas, feed_readExact length, status, verdict, feed]

private theorem answer_of_feed {reply : Except RdmaError TcpReply}
    (fed : (await op).feed arrived = some (reply, rest)) :
    answer eof op arrived = reply := by
  rw [answer, fed]
  rfl

private theorem answer_of_starved (fed : (await op).feed arrived = none) :
    answer eof op arrived = .error (.internal eof) := by
  rw [answer, fed]
  rfl

/-- A frame that breaks off is an error, also for a READ whose header has come through. -/
theorem answer_of_broken (begins : arrived <+: response.frame (TcpOp.opcode op))
    (broken : arrived ≠ response.frame (TcpOp.opcode op)) :
    ∃ error, answer eof op arrived = .error error := by
  have shorter : arrived.length < (response.frame (TcpOp.opcode op)).length :=
    begins.length_le.lt_of_ne fun same => broken (begins.eq_of_length same)
  cases op with
  | write buf remoteAddr rkey =>
    have length : (response.frame opWrite).length = 9 := by simp [frame_opWrite]
    exact ⟨_, answer_of_starved (feed_eq_none (length ▸ shorter))⟩
  | cas compare swap remoteAddr rkey =>
    have length : (response.frame opCas).length = 10 := by simp [frame_opCas]
    exact ⟨_, answer_of_starved (feed_eq_none (length ▸ shorter))⟩
  | read buf remoteAddr rkey =>
    rw [TcpOp.opcode, frame_opRead] at begins shorter
    rcases Nat.lt_or_ge arrived.length 13 with few | many
    · exact ⟨_, answer_of_starved (feed_eq_none few)⟩
    · obtain ⟨more, rfl⟩ := List.prefix_of_prefix_length_le (List.prefix_append _ _) begins
        (readHeader_length.trans_le many)
      rw [List.length_append, List.length_append, Nat.add_lt_add_iff_left] at shorter
      by_cases accepted : response.status = 0
      · refine ⟨_, answer_of_starved ?_⟩
        rw [await, feed_awaitRead_header, if_neg (not_not_intro accepted), feed_eq_none shorter]
      · have refused : (await (.read buf remoteAddr rkey)).feed (readHeader response ++ more) =
            some (.error (.internal "TCP READ failed"), more) := by
          rw [await, feed_awaitRead_header, if_pos accepted]
        exact ⟨_, answer_of_feed refused⟩

theorem answer_read_refused {remoteAddr : BitVec 64} {rkey : BitVec 32} (refused : response.status ≠ 0) :
    answer eof (.read buf remoteAddr rkey) (response.frame opRead) =
      .error (.internal "TCP READ failed") := by
  have fed : (await (.read buf remoteAddr rkey)).feed (response.frame opRead) =
      some (.error (.internal "TCP READ failed"), response.data) := by
    rw [await, frame_opRead, feed_awaitRead_header, if_pos refused]
  exact answer_of_feed fed

theorem answer_read_accepted {remoteAddr : BitVec 64} {rkey : BitVec 32} (accepted : response.status = 0) :
    answer eof (.read buf remoteAddr rkey) (response.frame opRead) =
      .ok (.filled (response.data.take buf.length ++ buf.drop response.data.length)) := by
  have fed := @feed_awaitRead response buf [] accepted
  rw [List.append_nil] at fed
  exact answer_of_feed fed

private theorem answer_write {remoteAddr : BitVec 64} {rkey : BitVec 32} :
    answer eof (.write buf remoteAddr rkey) (response.frame opWrite) =
      if response.status ≠ 0 then .error (.internal "TCP WRITE failed") else .ok .written := by
  have fed := @feed_awaitWrite response []
  rw [List.append_nil] at fed
  exact answer_of_feed fed

private theorem answer_cas {compare swap remoteAddr : BitVec 64} {rkey : BitVec 32} :
    answer eof (.cas compare swap remoteAddr rkey) (response.frame opCas) =
      .ok (.swapped (decide (response.status = 0) && decide (response.swapped = 1))) := by
  have fed := @feed_awaitCas response []
  rw [List.append_nil] at fed
  exact answer_of_feed fed

/-- A call that fails is mistaken for nothing. -/
theorem okMeansDone_of_error {error : RdmaError}
    (fails : answer eof op arrived = .error error) : OkMeansDone eof op response arrived := by
  have never : ∀ reply, answer eof op arrived ≠ .ok reply := by
    intro reply told
    cases fails.symm.trans told
  have stops : ∀ {ρ : Type} (program : RemoteProgram ρ), StopsAt eof op arrived program :=
    fun program earlier rest next reached => ⟨error, CallProgram.run_of_call_fails reached fails⟩
  exact ⟨fun _ told => absurd told (never _), fun told => absurd told (never _),
    fun _ told => absurd told (never _), fun _ => ⟨error, fails⟩,
    fun _ _ => ⟨fun _ _ _ => stops _, fun _ _ _ _ => stops _⟩⟩

/-- Nor is one that brings as much as was asked for and says what the response says. -/
theorem okMeansDone_of_ok {reply : TcpReply}
    (told : answer eof op (response.frame (TcpOp.opcode op)) = .ok reply)
    (accepted : response.status = 0) (whole : TcpOp.fetched op ≤ response.data.length)
    (filled : ∀ bytes, reply = .filled bytes → bytes.length = TcpOp.fetched op ∧ bytes <+: response.data)
    (swapped : ∀ verdict, reply = .swapped verdict → verdict = decide (response.swapped = 1)) :
    OkMeansDone eof op response (response.frame (TcpOp.opcode op)) := by
  have only : ∀ {other}, answer eof op (response.frame (TcpOp.opcode op)) = .ok other →
      reply = other := fun same => Except.ok.inj (told.symm.trans same)
  refine ⟨fun bytes same => ⟨accepted, filled bytes (only same)⟩, fun _ => accepted,
    fun verdict same => ⟨accepted, swapped verdict (only same)⟩, ?_, ?_⟩
  · rintro (refused | short | broken)
    · exact absurd accepted refused
    · exact absurd whole (Nat.not_le.mpr short)
    · exact absurd rfl broken
  · intro bucket short
    exact absurd (bucket.ge.trans whole) (Nat.not_le.mpr short)

private theorem okMeansDone_read {remoteAddr : BitVec 64} {rkey : BitVec 32} (accepted : response.status = 0)
    (whole : buf.length ≤ response.data.length) :
    OkMeansDone eof (.read buf remoteAddr rkey) response (response.frame opRead) := by
  have told := @answer_read_accepted response buf eof remoteAddr rkey accepted
  rw [List.drop_of_length_le whole, List.append_nil] at told
  refine okMeansDone_of_ok told accepted whole ?_ (by rintro _ ⟨⟩)
  rintro _ ⟨⟩
  exact ⟨List.length_take_of_le whole, List.take_prefix _ _⟩

theorem okMeansDone_write {remoteAddr : BitVec 64} {rkey : BitVec 32} (accepted : response.status = 0) :
    OkMeansDone eof (.write buf remoteAddr rkey) response (response.frame opWrite) :=
  okMeansDone_of_ok (answer_write.trans (if_neg (not_not_intro accepted))) accepted (Nat.zero_le _)
    (by rintro _ ⟨⟩) (by rintro _ ⟨⟩)

private theorem okMeansDone_cas {compare swap remoteAddr : BitVec 64} {rkey : BitVec 32}
    (accepted : response.status = 0) :
    OkMeansDone eof (.cas compare swap remoteAddr rkey) response (response.frame opCas) := by
  have told := @answer_cas response eof compare swap remoteAddr rkey
  rw [decide_eq_true accepted, Bool.true_and] at told
  refine okMeansDone_of_ok told accepted (Nat.zero_le _) (by rintro _ ⟨⟩) ?_
  rintro _ ⟨⟩
  rfl

private theorem okMeansDone_whole_iff : OkMeansDone eof op response (response.frame (TcpOp.opcode op)) ↔
    TcpOp.Delivered response op := by
  cases op with
  | read buf remoteAddr rkey =>
    by_cases accepted : response.status = 0
    · constructor
      · intro done _
        by_contra short
        obtain ⟨error, fails⟩ := done.failed (.inr (.inl (Nat.not_le.mp short)))
        cases fails.symm.trans (answer_read_accepted accepted)
      · exact fun delivered => okMeansDone_read accepted (delivered accepted)
    · exact ⟨fun _ zero => absurd zero accepted,
        fun _ => okMeansDone_of_error (answer_read_refused accepted)⟩
  | write buf remoteAddr rkey =>
    refine ⟨fun _ => trivial, fun _ => ?_⟩
    by_cases accepted : response.status = 0
    · exact okMeansDone_write accepted
    · exact okMeansDone_of_error (answer_write.trans (if_pos accepted))
  | cas compare swap remoteAddr rkey =>
    constructor
    · intro done
      by_contra refused
      obtain ⟨error, fails⟩ := done.failed (.inl refused)
      cases fails.symm.trans answer_cas
    · exact okMeansDone_cas

/-- A response is taken for what it is exactly if a READ is not answered with success and too few bytes, and
a CAS is not refused. -/
theorem tcp_ok_means_done_iff (eof : String) (op : TcpOp) (response : TcpResponse) {arrived : Bytes}
    (begins : arrived <+: response.frame (TcpOp.opcode op)) :
    OkMeansDone eof op response arrived ↔
      (arrived = response.frame (TcpOp.opcode op) → TcpOp.Delivered response op) := by
  by_cases whole : arrived = response.frame (TcpOp.opcode op)
  · subst whole
    rw [okMeansDone_whole_iff]
    exact ⟨fun delivered _ => delivered, fun delivered => delivered rfl⟩
  · obtain ⟨error, fails⟩ := answer_of_broken begins whole
    exact ⟨fun _ same => absurd same whole, fun _ => okMeansDone_of_error fails⟩

/-- A read of two bytes that are all there. -/
theorem tcp_ok_means_done_of_whole_read :
    answer "early eof" (.read [0, 0] 8 5)
        (TcpResponse.frame ⟨7, 0, [3, 4], 0, by decide⟩ opRead) = .ok (.filled [3, 4]) ∧
      OkMeansDone "early eof" (.read [0, 0] 8 5) ⟨7, 0, [3, 4], 0, by decide⟩
        (TcpResponse.frame ⟨7, 0, [3, 4], 0, by decide⟩ opRead) :=
  ⟨by decide +kernel, (tcp_ok_means_done_iff _ _ _ List.prefix_rfl).mpr (by decide +kernel)⟩

/-- The handler answers a READ beyond its buffer with success and no data. Both reads of `get_remote` then
leave the zeros of its buffer, and the key is reported missing. A CAS there is refused, and reported as a
lost race. -/
theorem empty_read_is_taken_for_empty_bucket :
    TcpServer.handleRead 64 (fun _ => 0) 1 (TcpOp.params (.read (List.replicate 64 0) 4096 5)) =
        .writeAll (TcpResponse.frame ⟨1, 0, [], 0, by decide⟩ opRead) (.done (.ok fun _ => 0)) ∧
      (getRemoteProgram ⟨4, zeros 16⟩ ⟨4096, 5, 0, 0, 0⟩ 4).run
          (answer "early eof")
          [TcpResponse.frame ⟨1, 0, [], 0, by decide⟩ opRead,
            TcpResponse.frame ⟨2, 0, [], 0, by decide⟩ opRead] = some (.ok none) ∧
      ¬ OkMeansDone "early eof" (.read (List.replicate 64 0) 4096 5) ⟨1, 0, [], 0, by decide⟩
          (TcpResponse.frame ⟨1, 0, [], 0, by decide⟩ opRead) ∧
      answer "early eof" (.cas 0 4 4096 5)
          (TcpResponse.frame ⟨3, 1, [], 0, by decide⟩ opCas) = .ok (.swapped false) ∧
      ¬ OkMeansDone "early eof" (.cas 0 4 4096 5) ⟨3, 1, [], 0, by decide⟩
          (TcpResponse.frame ⟨3, 1, [], 0, by decide⟩ opCas) :=
  ⟨rfl, by decide +kernel, fun done => absurd (okMeansDone_whole_iff.mp done) (by decide),
    by decide +kernel, fun done => absurd (okMeansDone_whole_iff.mp done) (by decide)⟩

end Frames

end Rdmas.Soundness
