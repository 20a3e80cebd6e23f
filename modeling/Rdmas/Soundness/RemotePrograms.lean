import Rdmas.Model.RemoteReaders
import Rdmas.Soundness.RemoteInsert
import Rdmas.Soundness.RemoteRead
import Rdmas.Soundness.TcpResponses

/-! # Remote calls step by step

`get_remote` and `insert_remote` appear twice: as programs of transport calls, and as machines that take one
step for each call, so that calls of several clients can be interleaved. A step of `insert_remote` is the
next call of its program, answered from the server's memory as it is then, so however the calls of several
clients are interleaved each goes through its program. What is left of `get_remote` returns the same before
and after a step, so that alone it returns what the function returns.
-/

namespace Rdmas.Soundness

open Rdmas.Model LittleEndian ByteMemory ClientReader ClientWriter Runs

section Reads

section Definitions

variable (transport : Transport) (regions : RemoteRegions) (key : HashedKey) (table : CuckooTable)

/-- The steps of a read while nobody changes the table. -/
def readAlone (pc : GetPc) (_ : Unit) : Option GetPc := pc.step transport regions key table

/-- What is left of a read. -/
def restOfRead : GetPc → Except RdmaError (Option ReadResult)
  | .probing .first => do
      let found ← probeRemote key transport regions (key.bucketIdx table .first)
      if found.isSome then pure found else probeRemote key transport regions (key.bucketIdx table .second)
  | .probing .second => probeRemote key transport regions (key.bucketIdx table .second)
  | .fetching bucket => some <$> extractValue bucket transport regions
  | .returned result => result

/-- Alone, a read returns what is left of it. -/
def Returns (pc : GetPc) : Prop :=
  Reaches (readAlone transport regions key table) pc (.returned (restOfRead transport regions key table pc))

end Definitions

variable {transport : Transport} {regions : RemoteRegions} {key : HashedKey} {table : CuckooTable}
variable {memory : Memory} {size : ℕ} {pc next : GetPc}

private theorem restOfRead_start : restOfRead transport regions key table (.start key) =
    getRemote key transport regions table.bucketCount := by
  have power := isPowerOfTwo_eq_true.mpr table.powerOfTwo
  simp only [GetPc.start, getRemote, power, Bool.not_true, Bool.false_eq_true, if_false]
  split
  · rfl
  · change (probeRemote _ _ _ (table.h1 key.hash) >>= _) = (probeRemote _ _ _ (table.h1 key.hash) >>= _)
    rcases probeRemote key transport regions (table.h1 key.hash) with error | _ | found <;> rfl

private theorem restOfRead_matched (bucket : HashBucket) :
    restOfRead transport regions key table (.matched transport regions bucket) =
      some <$> extractValue bucket transport regions := by
  rw [GetPc.matched]
  split <;> rfl

section Served

variable (serves : Serves transport regions table.buckets memory size) (two : 2 ≤ table.bucketCount)
include serves two

/-- A step changes nothing about what the read will return, if the transport serves the table. -/
theorem restOfRead_step (taken : readAlone transport regions key table pc () = some next) :
    restOfRead transport regions key table next = restOfRead transport regions key table pc := by
  have probed : ∀ home, probeRemote key transport regions (key.bucketIdx table home) = _ := fun home =>
    probeRemote_served serves (by cases home; exacts [table.h1_lt _, table.h2_lt two _])
  cases pc with
  | probing home =>
    simp only [readAlone, GetPc.step] at taken
    split at taken
    · next accepted =>
      rw [← Option.some.inj taken, restOfRead_matched]
      cases home with
      | first =>
        rw [restOfRead, probed, if_pos accepted]
        cases extractValue _ transport regions <;> rfl
      | second => rw [restOfRead, probed, if_pos accepted]
    · next refused =>
      rw [← Option.some.inj taken]
      cases home with
      | first =>
        rw [restOfRead, probed .first, if_neg refused]
        rfl
      | second =>
        rw [restOfRead, probed, if_neg refused]
        rfl
  | fetching bucket => exact Option.some.inj taken ▸ rfl
  | returned result => cases taken

theorem Returns.head (taken : readAlone transport regions key table pc () = some next)
    (onward : Returns transport regions key table next) : Returns transport regions key table pc := by
  rw [Returns, ← restOfRead_step serves two taken]
  exact .head taken onward

private theorem returns_probing {home : Home} (missed : Returns transport regions key table (.missed home)) :
    Returns transport regions key table (.probing home) := by
  by_cases accepted : (!(table.bucket (key.bucketIdx table home)).isLocked &&
      (table.bucket (key.bucketIdx table home)).matchesKey key.hash key.digest) = true
  · refine .head serves two (if_pos accepted) ?_
    rw [GetPc.matched]
    split
    · exact .refl _
    · exact .head serves two rfl (.refl _)
  · exact .head serves two (if_neg accepted) missed

/-- On a table that nobody changes the machine returns what `get_remote` does, and so does the program. -/
theorem reaches_getRemote {answer : TcpOp → Except RdmaError TcpReply}
    (fills : FillsFrom transport regions.lkey answer) :
    Reaches (readAlone transport regions key table) (.start key)
        (.returned (getRemote key transport regions table.bucketCount)) ∧
      (getRemoteProgram key regions table.bucketCount).eval answer =
        getRemote key transport regions table.bucketCount := by
  refine ⟨?_, eval_getRemoteProgram fills _⟩
  rw [← restOfRead_start]
  change Returns transport regions key table (.start key)
  rw [GetPc.start]
  split
  · exact .refl _
  · exact returns_probing serves two (returns_probing serves two (.refl _))

end Served

end Reads

section Inserts

/-- Where the client finds a bucket. -/
def bucketAddr (remote : RemoteTable) (idx : ℕ) : BitVec 64 :=
  remote.hashTableVaddr + BitVec.ofNat 64 (idx * 64)

section Server

variable (remote : RemoteTable) (table : CuckooTable) (region : Memory)

/-- The server's memory answers a call on a bucket, on the bump word or on a place in the free-list region. -/
inductive MemoryAnswers : TcpOp → TcpReply → CuckooTable → Memory → Prop where
  | read (idx : ℕ) (buf : Bytes) : MemoryAnswers (.read buf (bucketAddr remote idx) remote.hashTableRkey)
      (.filled (table.bucket idx).toBytes.toList) table region
  | cas (idx : ℕ) (compare swap : BitVec 64) (verdict : Bool)
      (compares : verdict = true ↔ (table.bucket idx).lockVersion = compare) :
      MemoryAnswers (.cas compare swap (bucketAddr remote idx) remote.hashTableRkey) (.swapped verdict)
        (if verdict then table.setBucket idx { table.bucket idx with lockVersion := swap } else table) region
  | write (idx : ℕ) (bucket : HashBucket) :
      MemoryAnswers (.write bucket.toBytes.toList (bucketAddr remote idx) remote.hashTableRkey) .written
        (table.setBucket idx bucket) region
  | readBump (buf : Bytes) : MemoryAnswers (.read buf remote.freeListVaddr remote.freeListRkey)
      (.filled (encode 8 (bumpOffset region))) table region
  | casBump (compare swap : BitVec 64) (verdict : Bool)
      (compares : verdict = true ↔ bumpOffset region = compare.toNat) :
      MemoryAnswers (.cas compare swap remote.freeListVaddr remote.freeListRkey) (.swapped verdict) table
        (if verdict then ByteMemory.write region 0 (encode 8 swap.toNat) else region)
  | writeRegion (offset : ℕ) (bytes : Bytes) :
      MemoryAnswers (.write bytes (remote.freeListVaddr + BitVec.ofNat 64 offset) remote.freeListRkey) .written
        table (ByteMemory.write region offset bytes)

variable {remote table region} in
theorem MemoryAnswers.bucketCount {request : TcpOp} {reply : TcpReply} {later : CuckooTable} {after : Memory}
    (answers : MemoryAnswers remote table region request reply later after) :
    later.bucketCount = table.bucketCount := by
  cases answers with
  | cas idx compare swap verdict => cases verdict <;> rfl
  | _ => rfl

/-- The next call of the program is answered from the server's memory, and the rest is left. -/
def Calls (program : RemoteProgram WriteResult) (later : CuckooTable) (after : Memory)
    (rest : RemoteProgram WriteResult) : Prop :=
  ∃ request onward reply, program = .call request onward ∧
    MemoryAnswers remote table region request reply later after ∧ onward reply = rest

end Server

/-- The answers that an allocation under way has got. -/
def allocReplies : AllocPc → List TcpReply
  | .haveOld offset => [.filled (encode 8 offset)]
  | .reserved offset => [.filled (encode 8 offset), .swapped true]
  | .headerWritten offset => [.filled (encode 8 offset), .swapped true, .written]
  | .payloadWritten offset => [.filled (encode 8 offset), .swapped true, .written, .written]
  | _ => []

section Positions

variable (xxh64 : Xxh64) (call : InsertCall) (remote : RemoteTable) (table : CuckooTable)

/-- What follows `try_insert_remote_at`. -/
def afterTry : Home → Bool → RemoteProgram WriteResult
  | home, true => .done (.ok (.inserted (call.bucketIdx table home)))
  | .second, false => .done (.ok .tableFull)
  | .first, false => tryInsertRemoteAtProgram xxh64 call remote
      (bucketAddr remote (call.bucketIdx table .second)) fun inserted =>
        .done (.ok (if inserted then .inserted (call.bucketIdx table .second) else .tableFull))

/-- The swap on a candidate bucket and what follows it. -/
def claimHome (home : Home) (oldLv : BitVec 64) : ℕ → RemoteProgram WriteResult :=
  claimProgram call remote (bucketAddr remote (call.bucketIdx table home)) oldLv
    (afterTry xxh64 call remote table home)

/-- What is left of an insertion. -/
def restOfInsert : InsertPc → RemoteProgram WriteResult
  | .reading home => tryInsertRemoteAtProgram xxh64 call remote
      (bucketAddr remote (call.bucketIdx table home)) (afterTry xxh64 call remote table home)
  | .allocating home oldLv allocation =>
      (allocateProgram xxh64 call remote (claimHome xxh64 call remote table home oldLv)).resume
        (allocReplies allocation)
  | .claiming home oldLv oldOffset => claimHome xxh64 call remote table home oldLv oldOffset
  | .writing home oldOffset => (claimHome xxh64 call remote table home 0 oldOffset).resume [.swapped true]
  | .returned result => .done result

end Positions

variable {xxh64 : Xxh64} {call : InsertCall} {remote : RemoteTable} {table later : CuckooTable}
variable {region after : Memory} {pc next : InsertPc} {home : Home} {oldLv : BitVec 64}

private theorem restOfInsert_start : restOfInsert xxh64 call remote table (.reading .first) =
    insertRemoteProgram xxh64 call remote table.bucketCount := by
  refine congrArg (tryInsertRemoteAtProgram xxh64 call remote _) (funext fun inserted => ?_)
  cases inserted <;> rfl

private theorem restOfInsert_congr (same : table.bucketCount = later.bucketCount) (pc : InsertPc) :
    restOfInsert xxh64 call remote table pc = restOfInsert xxh64 call remote later pc := by
  have homes : ∀ home, call.bucketIdx table home = call.bucketIdx later home := bucketIdx_congr same call
  have onward : afterTry xxh64 call remote table = afterTry xxh64 call remote later := by
    funext home inserted
    cases home <;> cases inserted <;> simp only [afterTry, homes]
  have claims : claimHome xxh64 call remote table = claimHome xxh64 call remote later := by
    funext home oldLv
    simp only [claimHome, onward, homes]
  cases pc <;> simp only [restOfInsert, onward, claims, homes]

private theorem restOfInsert_declined (home : Home) : restOfInsert xxh64 call remote table (.declined home) =
    afterTry xxh64 call remote table home false := by
  cases home with
  | first =>
    refine congrArg (tryInsertRemoteAtProgram xxh64 call remote _) (funext fun inserted => ?_)
    cases inserted <;> rfl
  | second => rfl

private theorem claimHome_word (offset : ℕ) : claimHome xxh64 call remote table home oldLv
    (BitVec.ofNat 64 (decode (encode 8 offset))).toNat = claimHome xxh64 call remote table home oldLv offset := by
  have same : call.newBucket (BitVec.ofNat 64 offset).toNat = call.newBucket offset := by
    simp only [InsertCall.newBucket, BitVec.ofNat_toNat, BitVec.setWidth_eq]
  rw [ofNat_decode, claimHome, claimProgram, claimProgram, same]

/-- What has been read of the bump word is a word. -/
def Narrow : InsertPc → Prop
  | .allocating _ _ (.haveOld oldOffset) => oldOffset < 2 ^ 64
  | _ => True

private theorem narrow_declined (home : Home) : Narrow (.declined home) := by
  cases home <;> trivial

/-- Every step of an allocation is the next call of what is left of the insertion. -/
theorem restOfInsert_allocating {allocation moved : AllocPc}
    (narrow : Narrow (.allocating home oldLv allocation))
    (taken : allocation.step xxh64 call.value region = some (after, moved)) :
    Narrow (.allocated home oldLv moved) ∧
      Calls remote table region (restOfInsert xxh64 call remote table (.allocating home oldLv allocation))
        table after (restOfInsert xxh64 call remote table (.allocated home oldLv moved)) := by
  cases allocation with
  | start =>
    cases taken
    exact ⟨word_lt _ 8 _, _, _, _, rfl, .readBump _, rfl⟩
  | haveOld oldOffset =>
    have word : (BitVec.ofNat 64 oldOffset).toNat = oldOffset := Nat.mod_eq_of_lt narrow
    have swap : (BitVec.ofNat 64 oldOffset + BitVec.ofNat 64 (extentTotal call.value.length)).toNat =
        (oldOffset + extentTotal call.value.length) % 256 ^ 8 := by
      rw [← BitVec.ofNat_add, BitVec.toNat_ofNat]
      rfl
    simp only [AllocPc.step] at taken
    split at taken
    · next same =>
      cases taken
      refine ⟨trivial, _, _, .swapped true, rfl, ?_, rfl⟩
      rw [TcpReply.bytes, ofNat_decode, ← encode_mod, ← swap]
      exact .casBump _ _ true (iff_of_true rfl (same.trans word.symm))
    · next differs =>
      cases taken
      refine ⟨trivial, _, _, .swapped false, rfl, ?_, rfl⟩
      rw [TcpReply.bytes, ofNat_decode]
      exact .casBump _ _ false (iff_of_false Bool.false_ne_true (word.symm ▸ differs))
  | reserved offset =>
    cases taken
    refine ⟨trivial, _, _, .written, rfl, ?_, rfl⟩
    simp only [TcpReply.bytes, ofNat_decode]
    exact .writeRegion _ _
  | headerWritten offset =>
    cases taken
    refine ⟨trivial, _, _, .written, rfl, ?_, rfl⟩
    simp only [TcpReply.bytes, ofNat_decode, BitVec.add_assoc, ← BitVec.ofNat_add]
    exact .writeRegion _ _
  | payloadWritten offset =>
    cases taken
    refine ⟨trivial, _, _, .written, rfl, ?_, claimHome_word offset⟩
    simp only [TcpReply.bytes, ofNat_decode, BitVec.add_assoc, show (24 : BitVec 64) = .ofNat 64 24 from rfl,
      ← BitVec.ofNat_add]
    exact .writeRegion _ _
  | finished offset => cases taken
  | casFailed => cases taken

/-- Every step of an insertion is the next call of what is left of it. -/
theorem restOfInsert_step (narrow : Narrow pc)
    (taken : pc.step xxh64 call table region = some (later, after, next)) :
    Narrow next ∧ Calls remote table region (restOfInsert xxh64 call remote table pc) later after
      (restOfInsert xxh64 call remote later next) := by
  cases pc with
  | reading home =>
    have read : HashBucket.ofBuffer (TcpReply.filled
        (table.bucket (call.bucketIdx table home)).toBytes.toList).bytes = _ := ofBuffer_toList _
    rw [HashBucket.fromBytes_toBytes] at read
    simp only [InsertPc.step] at taken
    split at taken
    · next locked =>
      cases taken
      refine ⟨narrow_declined home, _, _, _, rfl, .read _ _, ?_⟩
      simp only [read, if_pos locked, restOfInsert_declined]
    · next unlocked =>
      split at taken
      · next free =>
        split at taken
        · next mode =>
          cases taken
          refine ⟨trivial, _, _, _, rfl, .read _ _, ?_⟩
          simp only [read, if_neg unlocked, if_pos free, mode]
          rfl
        · next mode =>
          cases taken
          refine ⟨trivial, _, _, _, rfl, .read _ _, ?_⟩
          simp only [read, if_neg unlocked, if_pos free, mode]
          rfl
      · next occupied =>
        cases taken
        refine ⟨narrow_declined home, _, _, _, rfl, .read _ _, ?_⟩
        simp only [read, if_neg unlocked, if_neg occupied, restOfInsert_declined]
  | allocating home oldLv allocation =>
    obtain ⟨⟨after, moved⟩, allocates, same⟩ := Option.map_eq_some_iff.mp taken
    cases same
    exact restOfInsert_allocating narrow allocates
  | claiming home oldLv oldOffset =>
    simp only [InsertPc.step] at taken
    split at taken
    · next same =>
      cases taken
      exact ⟨trivial, _, _, _, rfl, .cas _ _ _ true (iff_of_true rfl same), rfl⟩
    · next differs =>
      cases taken
      exact ⟨narrow_declined home, _, _, _, rfl,
        .cas _ _ _ false (iff_of_false Bool.false_ne_true differs), (restOfInsert_declined home).symm⟩
  | writing home oldOffset =>
    cases taken
    exact ⟨trivial, _, _, _, rfl, .write _ _, rfl⟩
  | returned result => cases taken

section Interleaved

variable {ι : Type} [DecidableEq ι] {calls : ι → InsertCall} {origin : CuckooTable}

variable (xxh64 remote calls origin) in
/-- Every insertion stands where its program stands once its calls have been answered. -/
def FollowsPrograms (state : InsertState ι) : Prop :=
  state.table.bucketCount = origin.bucketCount ∧ ∀ client, Narrow (state.clients client) ∧
    ∃ replies, restOfInsert xxh64 (calls client) remote state.table (state.clients client) =
      (insertRemoteProgram xxh64 (calls client) remote origin.bucketCount).resume replies

theorem FollowsPrograms.step {state next : InsertState ι} {client : ι}
    (follows : FollowsPrograms xxh64 remote calls origin state)
    (taken : state.step xxh64 calls client = some next) :
    FollowsPrograms xxh64 remote calls origin next := by
  obtain ⟨count, stands⟩ := follows
  obtain ⟨⟨table, region, pc⟩, moves, rfl⟩ := Option.map_eq_some_iff.mp taken
  obtain ⟨narrow, replies, left⟩ := stands client
  obtain ⟨still, request, onward, reply, head, answers, rest⟩ :
      Narrow pc ∧ Calls remote _ _ _ table region _ := restOfInsert_step narrow moves
  have same := answers.bucketCount
  refine ⟨same.trans count, fun other => ?_⟩
  by_cases mine : other = client
  · subst mine
    simp only [Function.update_self]
    refine ⟨still, replies ++ [reply], ?_⟩
    rw [CallProgram.resume_append, ← left, head, ← rest, CallProgram.resume, CallProgram.resume_nil]
  · simp only [Function.update_of_ne mine]
    rw [restOfInsert_congr same]
    exact stands other

/-- However the insertions of several clients are interleaved, each goes through its program. -/
theorem insertions_follow_programs (region : Memory) {schedule : List ι} {state : InsertState ι}
    (reached : run (InsertState.step xxh64 calls) (.initial origin region) schedule = some state) :
    FollowsPrograms xxh64 remote calls origin state := by
  have start : FollowsPrograms xxh64 remote calls origin (.initial origin region) :=
    ⟨rfl, fun _ => ⟨trivial, [], restOfInsert_start⟩⟩
  exact run_invariant FollowsPrograms.step start reached

end Interleaved

end Inserts

end Rdmas.Soundness
