import Mathlib.Data.Fintype.Basic
import Rdmas.Model.RemoteReaders
import Rdmas.Soundness.RemoteRoundTrip

/-! # What remote reads find while others insert

The swap of an insertion changes the lock word of a slot whose old key and body are still there, and the
lock word says how to read the body. For Inline values the swap stores 0, so a reader notices at most that
a deleted slot is no longer marked, which it does not look at. Whatever the interleaving, it returns a value
of the first table or one that a finished insertion of its key has stored, even where insertions overwrite
each other. Where every slot is claimed once, a finished insertion also stays where readers find it.
-/

namespace Rdmas.Soundness

open Rdmas.Model LittleEndian ByteMemory Runs ClientReader Function

section Effects

variable {ι κ : Type} [DecidableEq ι] [DecidableEq κ] {xxh64 : Xxh64}
variable {calls : ι → InsertCall} {keys : κ → HashedKey} {transport : Transport} {regions : RemoteRegions}
variable {state next : RemoteTraffic ι κ} {label : RemoteAccess ι κ}

variable (calls keys transport regions state) in
/-- What one operation can do: an insertion goes on, or a reader does. -/
inductive AccessEffect : RemoteAccess ι κ → RemoteTraffic ι κ → Prop where
  | insert (client : ι) (inserts : InsertState ι)
      (effect : InsertEffect calls state.inserts client inserts) :
      AccessEffect (.insert client) { state with inserts }
  | hit (reader : κ) (home : Home) (found : state.readers reader = .probing home)
      (unlocked : (state.inserts.table.bucket
        ((keys reader).bucketIdx state.inserts.table home)).isLocked = false)
      (matching : (state.inserts.table.bucket
        ((keys reader).bucketIdx state.inserts.table home)).matchesKey
          (keys reader).hash (keys reader).digest = true) : AccessEffect (.get reader)
        { state with readers := update state.readers reader (.matched transport regions
              (state.inserts.table.bucket ((keys reader).bucketIdx state.inserts.table home))) }
  | miss (reader : κ) (home : Home) (found : state.readers reader = .probing home)
      (refused : (state.inserts.table.bucket
          ((keys reader).bucketIdx state.inserts.table home)).isLocked = true ∨
        (state.inserts.table.bucket ((keys reader).bucketIdx state.inserts.table home)).matchesKey
          (keys reader).hash (keys reader).digest = false) :
      AccessEffect (.get reader) { state with readers := update state.readers reader (.missed home) }
  | fetch (reader : κ) (bucket : HashBucket) (found : state.readers reader = .fetching bucket) :
      AccessEffect (.get reader)
        { state with readers := update state.readers reader (.extracted transport regions bucket) }

private theorem accessEffect_of_step
    (taken : state.step xxh64 calls keys transport regions label = some next) :
    AccessEffect calls keys transport regions state label next := by
  cases label with
  | insert client =>
    obtain ⟨inserts, moved, rfl⟩ := Option.map_eq_some_iff.mp taken
    exact .insert client inserts (insertEffect_of_step moved)
  | get reader =>
    obtain ⟨pc, moved, rfl⟩ := Option.map_eq_some_iff.mp taken
    cases found : state.readers reader with
    | probing home =>
      simp only [found, GetPc.step] at moved
      split at moved
      · next accepted =>
          cases moved
          simp only [Bool.and_eq_true, Bool.not_eq_true'] at accepted
          exact .hit reader home found accepted.1 accepted.2
      · next refused =>
          cases moved
          refine .miss reader home found ?_
          simpa only [Bool.and_eq_true, Bool.not_eq_true', not_and_or, Bool.not_eq_false,
            Bool.not_eq_true] using refused
    | fetching bucket =>
      rw [found] at moved
      cases moved
      exact .fetch reader bucket found
    | returned result =>
      rw [found] at moved
      cases moved

end Effects

section Origins

variable {ι : Type} {origin : CuckooTable} {calls : ι → InsertCall} {state next : InsertState ι}
variable {client : ι}

/-- A slot holds what it held at first, possibly with the word of a claim, or what a finished insertion has
written. -/
inductive SlotOrigin (origin : CuckooTable) (calls : ι → InsertCall) (state : InsertState ι) (idx : ℕ) :
    HashBucket → Prop where
  | original : SlotOrigin origin calls state idx (origin.bucket idx)
  | claimed (gone : (origin.bucket idx).isTombstone = true ∨ (origin.bucket idx).keyHash = 0) :
      SlotOrigin origin calls state idx { origin.bucket idx with lockVersion := 0 }
  | written (client : ι) (finished : state.clients client = .returned (.ok (.inserted idx))) :
      SlotOrigin origin calls state idx ((calls client).newBucket 0)

/-- Where the contents of the slots are from. A call about to claim has read 0, a deleted slot, or a slot
that was empty at first. -/
structure Sourced (origin : CuckooTable) (calls : ι → InsertCall) (state : InsertState ι) : Prop where
  count : state.table.bucketCount = origin.bucketCount
  slots : ∀ idx, SlotOrigin origin calls state idx (state.table.bucket idx)
  attempted : ∀ client home oldLv, attempt (state.clients client) = some (home, oldLv) →
    oldLv = 0 ∨ LockWord.isTombstone oldLv = true ∨
      (origin.bucket ((calls client).bucketIdx origin home)).keyHash = 0

private theorem sourced_initial (origin : CuckooTable) (calls : ι → InsertCall) (region : Memory) :
    Sourced origin calls (.initial origin region) where
  count := rfl
  slots _ := .original
  attempted _ _ _ found := by cases found

theorem newBucket_lockVersion_inline {call : InsertCall} (inline : call.mode = .inline) (oldOffset : ℕ) :
    (call.newBucket oldOffset).lockVersion = 0 := by
  rw [InsertCall.newBucket_lockVersion, inline]
  rfl

private theorem newBucket_inline_offset {call : InsertCall} (inline : call.mode = .inline) (oldOffset : ℕ) :
    call.newBucket oldOffset = call.newBucket 0 := by
  simp only [InsertCall.newBucket, inline]

/-- What a call knows of a slot it has read as free. -/
theorem SlotOrigin.read_free {idx : ℕ} {bucket : HashBucket} (inline : ∀ client, (calls client).mode = .inline)
    (from_ : SlotOrigin origin calls state idx bucket) (free : bucket.isFree = true) :
    bucket.lockVersion = 0 ∨ LockWord.isTombstone bucket.lockVersion = true ∨
      (origin.bucket idx).keyHash = 0 := by
  cases from_ with
  | original =>
    rcases Bool.or_eq_true_iff.mp free with empty | deleted
    · exact .inr (.inr (beq_iff_eq.mp (Bool.and_eq_true_iff.mp empty).1))
    · exact .inr (.inl deleted)
  | claimed => exact .inl rfl
  | written writer => exact .inl (newBucket_lockVersion_inline (inline writer) 0)

/-- A claim stores 0 in the word of a slot, which changes it only if the slot is deleted or empty. -/
theorem SlotOrigin.claim {idx : ℕ} {bucket : HashBucket} (inline : ∀ client, (calls client).mode = .inline)
    (from_ : SlotOrigin origin calls state idx bucket)
    (known : bucket.lockVersion = 0 ∨ LockWord.isTombstone bucket.lockVersion = true ∨
      (origin.bucket idx).keyHash = 0) :
    SlotOrigin origin calls state idx { bucket with lockVersion := 0 } := by
  cases from_ with
  | original =>
    rcases known with zero | deleted | empty
    · rw [← zero]
      exact .original
    · exact .claimed (.inl deleted)
    · exact .claimed (.inr empty)
  | claimed gone => exact .claimed gone
  | written writer finished =>
    rw [← newBucket_lockVersion_inline (inline writer) 0]
    exact .written writer finished

variable [DecidableEq ι]

/-- An insertion that has returned does not go on. -/
theorem InsertEffect.keeps_returned {other : ι} {result : Except RdmaError WriteResult}
    (effect : InsertEffect calls state client next) (finished : state.clients other = .returned result) :
    next.clients other = .returned result := by
  have differs : ∀ {pc : InsertPc}, state.clients client ≠ .returned result →
      update state.clients client pc other = .returned result := by
    intro pc running
    rw [update_of_ne, finished]
    rintro rfl
    exact running finished
  cases effect with
  | decline _ found | approach _ _ found | claim _ _ _ found | lose _ _ _ found | write _ _ found =>
    exact differs (by rw [found]; rintro ⟨⟩)
  | prepare _ _ _ _ found =>
    refine differs fun returned => ?_
    rw [returned] at found
    cases found

theorem SlotOrigin.mono {idx : ℕ} {bucket : HashBucket} (from_ : SlotOrigin origin calls state idx bucket)
    (effect : InsertEffect calls state client next) : SlotOrigin origin calls next idx bucket := by
  cases from_ with
  | original => exact .original
  | claimed gone => exact .claimed gone
  | written writer finished => exact .written writer (effect.keeps_returned finished)

theorem Sourced.move (sourced : Sourced origin calls state) {region : Memory} {pc : InsertPc}
    (effect : InsertEffect calls state client
      ⟨state.table, region, update state.clients client pc⟩)
    (known : ∀ home oldLv, attempt pc = some (home, oldLv) →
      oldLv = 0 ∨ LockWord.isTombstone oldLv = true ∨
        (origin.bucket ((calls client).bucketIdx origin home)).keyHash = 0) :
    Sourced origin calls ⟨state.table, region, update state.clients client pc⟩ where
  count := sourced.count
  slots idx := (sourced.slots idx).mono effect
  attempted other home oldLv found := by
    simp only [update_apply] at found
    split at found
    · next same => exact same ▸ known home oldLv found
    · exact sourced.attempted other home oldLv found

private theorem attempt_declined (home : Home) : attempt (.declined home) = none := by
  cases home <;> rfl

theorem Sourced.step (inline : ∀ client, (calls client).mode = .inline)
    (sourced : Sourced origin calls state) (effect : InsertEffect calls state client next) :
    Sourced origin calls next := by
  have sameIdx := bucketIdx_congr sourced.count (calls client)
  cases effect with
  | decline home found refused =>
    refine sourced.move (.decline home found refused) fun _ _ heads => ?_
    rw [attempt_declined] at heads
    cases heads
  | approach home pc found free heads =>
    refine sourced.move (.approach home pc found free heads) fun other oldLv aims => ?_
    obtain ⟨rfl, rfl⟩ := Prod.mk.inj (Option.some.inj (heads.symm.trans aims))
    rw [← sameIdx]
    exact (sourced.slots _).read_free inline free
  | prepare home oldLv region pc found heads =>
    refine sourced.move (.prepare home oldLv region pc found heads) fun other word aims => ?_
    rcases heads with same | rfl
    · exact sourced.attempted client other word (found.trans (same.symm.trans aims))
    · cases aims
  | claim home oldLv oldOffset found current =>
    have effect := InsertEffect.claim home oldLv oldOffset found current
    refine ⟨sourced.count, fun idx => ?_, fun other otherHome word aims => ?_⟩
    · rcases state.table.bucket_setBucket_or ((calls client).bucketIdx state.table home) idx
          { state.table.bucket ((calls client).bucketIdx state.table home) with
            lockVersion := (calls client).mode.toU64 <<< 2 } with kept | ⟨rfl, stored⟩
      · rw [kept]
        exact (sourced.slots idx).mono effect
      · have known := sourced.attempted client home oldLv (by rw [found]; rfl)
        rw [← current, ← sameIdx] at known
        have word : (calls client).mode.toU64 <<< 2 = 0 := by rw [inline client]; rfl
        have cleared := ((sourced.slots _).claim inline known).mono effect
        rw [← word] at cleared
        rw [stored]
        exact cleared
    · simp only [update_apply] at aims
      split at aims
      · cases aims
      · exact sourced.attempted other otherHome word aims
  | lose home oldLv oldOffset found stale =>
    refine sourced.move (.lose home oldLv oldOffset found stale) fun _ _ heads => ?_
    rw [attempt_declined] at heads
    cases heads
  | write home oldOffset found =>
    have effect : InsertEffect calls state client _ := .write home oldOffset found
    refine ⟨sourced.count, fun idx => ?_, fun other otherHome word aims => ?_⟩
    · rcases state.table.bucket_setBucket_or ((calls client).bucketIdx state.table home) idx
          ((calls client).newBucket oldOffset) with kept | ⟨rfl, stored⟩
      · rw [kept]
        exact (sourced.slots idx).mono effect
      · rw [stored, newBucket_inline_offset (inline client)]
        exact .written client (update_self ..)
    · simp only [update_apply] at aims
      split at aims
      · cases aims
      · exact sourced.attempted other otherHome word aims

end Origins

section Genuine

variable {ι κ : Type} {origin : CuckooTable} {calls : ι → InsertCall} {transport : Transport}
variable {regions : RemoteRegions} {key : HashedKey}

/-- What a reader of a key may return: the value of a slot that bore the key at first, or what a finished
insertion of the key has stored. -/
def GenuineValue (origin : CuckooTable) (calls : ι → InsertCall) (transport : Transport)
    (regions : RemoteRegions) (clients : ι → InsertPc) (key : HashedKey) (result : ReadResult) : Prop :=
  (∃ idx, (origin.bucket idx).matchesKey key.hash key.digest = true ∧
    extractValue (origin.bucket idx) transport regions = .ok result) ∨
  ∃ client idx, (calls client).key = key ∧ clients client = .returned (.ok (.inserted idx)) ∧
    result = ⟨storedValue (calls client).value .inline, .inline⟩

/-- The value of a bucket, as a reader of the key will extract it, is genuine. -/
def GenuineBucket (origin : CuckooTable) (calls : ι → InsertCall) (transport : Transport)
    (regions : RemoteRegions) (clients : ι → InsertPc) (key : HashedKey) (bucket : HashBucket) : Prop :=
  ∀ result, extractValue bucket transport regions = .ok result →
    GenuineValue origin calls transport regions clients key result

private theorem extractValue_inline {bucket : HashBucket} (inline : bucket.isInline = true) :
    extractValue bucket transport regions = .ok ⟨bucket.inlineValue.toList, .inline⟩ := if_pos inline

private theorem matchesKey_newBucket {call : InsertCall} {oldOffset : ℕ} :
    (call.newBucket oldOffset).matchesKey key.hash key.digest = true ↔ call.key = key := by
  rw [matchesKey_iff, HashBucket.toEntry, InsertCall.newBucket_keyHash, InsertCall.newBucket_keyOrDigest]

private theorem isInline_newBucket {call : InsertCall} (inline : call.mode = .inline) (oldOffset : ℕ) :
    (call.newBucket oldOffset).isInline = true := by
  rw [HashBucket.isInline, newBucket_lockVersion_inline inline]
  rfl

/-- A bucket that a reader accepts has a genuine value, if all that was deleted at first is Inline. -/
theorem SlotOrigin.genuine {state : InsertState ι} {idx : ℕ} {bucket : HashBucket}
    (inline : ∀ client, (calls client).mode = .inline)
    (deleted : ∀ idx, (origin.bucket idx).isTombstone = true → (origin.bucket idx).isInline = true)
    (nonzero : key.hash ≠ 0) (from_ : SlotOrigin origin calls state idx bucket)
    (matching : bucket.matchesKey key.hash key.digest = true) :
    GenuineBucket origin calls transport regions state.clients key bucket := by
  intro result extracted
  cases from_ with
  | original => exact .inl ⟨idx, matching, extracted⟩
  | claimed gone =>
    refine .inl ⟨idx, matching, ?_⟩
    rcases gone with tombstone | empty
    · -- Both words say Inline, so the body is the value either way.
      have cleared : ({ origin.bucket idx with lockVersion := 0 } : HashBucket).isInline = true := by
        simp [HashBucket.isInline]
      rw [extractValue_inline (deleted idx tombstone), ← extracted, extractValue_inline cleared]
      rfl
    · exact absurd ((congrArg HashedKey.hash (matchesKey_iff.mp matching)).symm.trans empty) nonzero
  | written client finished =>
    refine .inr ⟨client, idx, matchesKey_newBucket.mp matching, finished, ?_⟩
    rw [extractValue_inline (isInline_newBucket (inline client) 0), Except.ok.injEq] at extracted
    rw [← extracted, HashBucket.inlineValue, body_newBucket (inline client), storedValue]

variable [DecidableEq ι] [DecidableEq κ] {xxh64 : Xxh64} {keys : κ → HashedKey}

/-- A reader looks for a key that is not 0; what it has matched or returned is genuine. -/
def GenuineAt (origin : CuckooTable) (calls : ι → InsertCall) (transport : Transport)
    (regions : RemoteRegions) (clients : ι → InsertPc) (key : HashedKey) : GetPc → Prop
  | .probing _ => key.hash ≠ 0
  | .fetching bucket => GenuineBucket origin calls transport regions clients key bucket
  | .returned result => ∀ value, result = .ok (some value) →
      GenuineValue origin calls transport regions clients key value

theorem GenuineValue.mono {state next : InsertState ι} {client : ι} {result : ReadResult}
    (genuine : GenuineValue origin calls transport regions state.clients key result)
    (effect : InsertEffect calls state client next) :
    GenuineValue origin calls transport regions next.clients key result := by
  refine genuine.imp_right ?_
  rintro ⟨writer, idx, same, finished, stored⟩
  exact ⟨writer, idx, same, effect.keeps_returned finished, stored⟩

theorem GenuineAt.mono {state next : InsertState ι} {client : ι} {pc : GetPc}
    (genuine : GenuineAt origin calls transport regions state.clients key pc)
    (effect : InsertEffect calls state client next) :
    GenuineAt origin calls transport regions next.clients key pc := by
  cases pc with
  | probing => exact genuine
  | fetching bucket => exact fun result extracted => (genuine result extracted).mono effect
  | returned result => exact fun value returned => (genuine value returned).mono effect

omit [DecidableEq ι] in
private theorem genuineAt_extracted {clients : ι → InsertPc} {bucket : HashBucket}
    (genuine : GenuineBucket origin calls transport regions clients key bucket) :
    GenuineAt origin calls transport regions clients key (.extracted transport regions bucket) := by
  intro value returned
  cases extracted : extractValue bucket transport regions with
  | error error =>
    rw [extracted] at returned
    cases returned
  | ok result =>
    rw [extracted] at returned
    obtain rfl := Option.some.inj (Except.ok.inj returned)
    exact genuine result extracted

omit [DecidableEq ι] in
private theorem genuineAt_matched {clients : ι → InsertPc} {bucket : HashBucket}
    (genuine : GenuineBucket origin calls transport regions clients key bucket) :
    GenuineAt origin calls transport regions clients key (.matched transport regions bucket) := by
  rw [GetPc.matched]
  split
  · exact genuineAt_extracted genuine
  · exact genuine

/-- The slots have their sources, and the readers what they may return. -/
structure GenuineReads (origin : CuckooTable) (calls : ι → InsertCall) (keys : κ → HashedKey)
    (transport : Transport) (regions : RemoteRegions) (state : RemoteTraffic ι κ) : Prop where
  sourced : Sourced origin calls state.inserts
  readers : ∀ reader, GenuineAt origin calls transport regions state.inserts.clients (keys reader)
    (state.readers reader)

omit [DecidableEq ι] [DecidableEq κ] in
private theorem genuineReads_initial (region : Memory) :
    GenuineReads origin calls keys transport regions (.initial origin region keys) where
  sourced := sourced_initial origin calls region
  readers reader := by
    simp only [RemoteTraffic.initial, GetPc.start]
    split
    · exact fun value returned => by cases returned
    · next nonzero => exact nonzero

theorem GenuineReads.step {state next : RemoteTraffic ι κ} {label : RemoteAccess ι κ}
    (inline : ∀ client, (calls client).mode = .inline)
    (deleted : ∀ idx, (origin.bucket idx).isTombstone = true → (origin.bucket idx).isInline = true)
    (genuine : GenuineReads origin calls keys transport regions state)
    (taken : state.step xxh64 calls keys transport regions label = some next) :
    GenuineReads origin calls keys transport regions next := by
  have moved : ∀ {reader pc}, GenuineAt origin calls transport regions state.inserts.clients (keys reader) pc →
      GenuineReads origin calls keys transport regions
        { state with readers := update state.readers reader pc } := by
    intro reader pc now
    refine ⟨genuine.sourced, fun other => ?_⟩
    simp only [update_apply]
    split
    · next same => exact same ▸ now
    · exact genuine.readers other
  cases accessEffect_of_step taken with
  | insert client inserts effect =>
    exact ⟨genuine.sourced.step inline effect, fun reader => (genuine.readers reader).mono effect⟩
  | hit reader home found unlocked matching =>
    have nonzero : (keys reader).hash ≠ 0 := by
      have before := genuine.readers reader
      rwa [found] at before
    exact moved (genuineAt_matched ((genuine.sourced.slots _).genuine inline deleted nonzero matching))
  | miss reader home found refused =>
    have nonzero : (keys reader).hash ≠ 0 := by
      have before := genuine.readers reader
      rwa [found] at before
    refine moved ?_
    cases home with
    | first => exact nonzero
    | second => exact fun value returned => by cases returned
  | fetch reader bucket found =>
    have before := genuine.readers reader
    rw [found] at before
    exact moved (genuineAt_extracted before)

/-- For every table in which nothing but Inline entries was deleted, any number of Inline insertions and
remote reads on any keys, and every interleaving of their transport operations: what a reader of a key returns is
the value of a slot that bore the key at first, or what a finished insertion of that key has stored. -/
theorem remote_reads_are_genuine (xxh64 : Xxh64) (calls : ι → InsertCall)
    (keys : κ → HashedKey) (transport : Transport) (regions : RemoteRegions) (origin : CuckooTable)
    (region : Memory) (inline : ∀ client, (calls client).mode = .inline)
    (deleted : ∀ idx, (origin.bucket idx).isTombstone = true → (origin.bucket idx).isInline = true)
    (labels : List (RemoteAccess ι κ)) {final : RemoteTraffic ι κ}
    (reached : run (RemoteTraffic.step xxh64 calls keys transport regions) (.initial origin region keys) labels =
      some final)
    {reader : κ} {result : ReadResult} (returned : final.readers reader = .returned (.ok (some result))) :
    (∃ idx, (origin.bucket idx).matchesKey (keys reader).hash (keys reader).digest = true ∧
      extractValue (origin.bucket idx) transport regions = .ok result) ∨
    ∃ client idx, (calls client).key = keys reader ∧
      final.inserts.clients client = .returned (.ok (.inserted idx)) ∧
      result = ⟨storedValue (calls client).value .inline, .inline⟩ := by
  have genuine : GenuineReads origin calls keys transport regions final :=
    run_invariant (fun genuine taken => genuine.step inline deleted taken) (genuineReads_initial region) reached
  have now := genuine.readers reader
  rw [returned] at now
  exact now result rfl

/-- Two clients claim one empty slot. The value of the first is read before the second writes over it. -/
theorem overwritten_insert_was_read :
    let calls : Bool → InsertCall := fun client =>
      ⟨⟨bif client then 9 else 1, FixedBytes.zeros 16⟩, [bif client then 0x62 else 0x61], .inline⟩
    let stepOf := RemoteTraffic.step (fun _ _ => 0) calls (fun _ : Unit => ⟨1, FixedBytes.zeros 16⟩)
      ⟨fun _ _ _ _ => .error .timeout⟩ ⟨0, 1, 0, 2, 3⟩
    ∃ final, run stepOf (.initial (.new 8 4 ⟨3, rfl⟩) (fun _ => 0) fun _ => ⟨1, FixedBytes.zeros 16⟩)
        [.insert false, .insert false, .insert true, .insert true, .insert false, .get (), .insert true] =
          some final ∧
      final.readers () = .returned (.ok (some ⟨0x61 :: List.replicate 31 0, .inline⟩)) ∧
      ∃ client idx, (calls client).key = ⟨1, FixedBytes.zeros 16⟩ ∧
        final.inserts.clients client = .returned (.ok (.inserted idx)) ∧
        storedValue (calls client).value .inline = 0x61 :: List.replicate 31 0 := by
  intro calls stepOf
  have seen : (run stepOf (.initial (.new 8 4 ⟨3, rfl⟩) (fun _ => 0) fun _ => ⟨1, FixedBytes.zeros 16⟩)
      [.insert false, .insert false, .insert true, .insert true, .insert false, .get (), .insert true]).map
      (fun final => final.readers ()) =
        some (.returned (.ok (some ⟨0x61 :: List.replicate 31 0, .inline⟩))) := by
    decide +kernel
  obtain ⟨final, reached, returned⟩ := Option.map_eq_some_iff.mp seen
  refine ⟨final, reached, returned, ?_⟩
  have fresh : ∀ idx, (CuckooTable.new 8 4 ⟨3, rfl⟩).bucket idx = .zeroed := bucket_new 8 4 ⟨3, rfl⟩
  have genuine := remote_reads_are_genuine _ calls _ _ _ _ _ (by decide)
    (fun idx deleted => by rw [fresh] at deleted; cases deleted) _ reached returned
  rcases genuine with ⟨idx, matching, _⟩ | ⟨client, idx, same, finished, stored⟩
  · rw [fresh] at matching
    exact absurd matching (by decide)
  · exact ⟨client, idx, same, finished, (congrArg ReadResult.value stored).symm⟩

end Genuine

section Durable

variable {ι κ : Type} {calls : ι → InsertCall} {keys : κ → HashedKey} {transport : Transport}
variable {regions : RemoteRegions}

/-- The slot a client has claimed, written to or not. -/
def claimOf (calls : ι → InsertCall) (state : InsertState ι) (client : ι) : Option ℕ :=
  claim state.table (calls client) (state.clients client)

/-- The home a call is about to claim, and the word it expects there. -/
def pendingSwap : InsertPc → Option (Home × BitVec 64)
  | .claiming home oldLv _ => some (home, oldLv)
  | _ => none

/-- If the next operation of a client is a swap that succeeds, it is the first one on its slot. -/
def SwapsFirst (calls : ι → InsertCall) (state : InsertState ι) (client : ι) : Prop :=
  ∀ aim ∈ pendingSwap (state.clients client),
    (state.table.bucket ((calls client).bucketIdx state.table aim.1)).lockVersion = aim.2 →
      ∀ other, claimOf calls state other ≠ some ((calls client).bucketIdx state.table aim.1)

def ClaimsFirst (calls : ι → InsertCall) (state : RemoteTraffic ι κ) : RemoteAccess ι κ → Prop
  | .insert client => SwapsFirst calls state.inserts client
  | .get _ => True

instance [Fintype ι] (calls : ι → InsertCall) (state : RemoteTraffic ι κ) (label : RemoteAccess ι κ) :
    Decidable (ClaimsFirst calls state label) :=
  match label with
  | .insert client => inferInstanceAs (Decidable (∀ aim ∈ pendingSwap (state.inserts.clients client), _))
  | .get _ => inferInstanceAs (Decidable True)

/-- No slot is claimed twice; a finished insertion stands in one of its homes. -/
structure ClaimedOnce (calls : ι → InsertCall) (state : InsertState ι) : Prop where
  two : 2 ≤ state.table.bucketCount
  alone : ∀ client other idx, claimOf calls state client = some idx → claimOf calls state other = some idx →
    client = other
  stored : ∀ client idx, state.clients client = .returned (.ok (.inserted idx)) →
    (∃ home, idx = (calls client).bucketIdx state.table home) ∧
      ∃ oldOffset, state.table.bucket idx = (calls client).newBucket oldOffset

private theorem claimedOnce_initial {table : CuckooTable} (two : 2 ≤ table.bucketCount) (region : Memory) :
    ClaimedOnce calls (.initial table region) where
  two := two
  alone _ _ _ found := by cases found
  stored _ _ found := by cases found

private theorem claim_setBucket (table : CuckooTable) (idx : ℕ) (bucket : HashBucket) (call : InsertCall)
    (pc : InsertPc) : claim (table.setBucket idx bucket) call pc = claim table call pc := by
  cases pc with
  | writing home => cases home <;> rfl
  | reading | allocating | claiming => rfl
  | returned result =>
    rcases result with error | (idx | _) <;> rfl

private theorem bucketIdx_setBucket (table : CuckooTable) (idx : ℕ) (bucket : HashBucket) (call : InsertCall)
    (home : Home) : call.bucketIdx (table.setBucket idx bucket) home = call.bucketIdx table home := by
  cases home <;> rfl

theorem claim_eq_none_of_attempt {table : CuckooTable} {call : InsertCall} {pc : InsertPc} {home : Home}
    {oldLv : BitVec 64} (heads : attempt pc = some (home, oldLv) ∨ pc = .returned (.error .casFailed)) :
    claim table call pc = none := by
  rcases heads with heads | rfl
  · exact claim_of_attempt heads
  · rfl

variable [DecidableEq ι] {state next : InsertState ι} {client : ι}

/-- A client that has claimed nothing takes a step that claims nothing. -/
theorem ClaimedOnce.move (once : ClaimedOnce calls state) (region : Memory) {pc : InsertPc}
    (unclaimed : claim state.table (calls client) pc = none) :
    ClaimedOnce calls ⟨state.table, region, update state.clients client pc⟩ := by
  have same : ∀ {other idx}, claimOf calls ⟨state.table, region, update state.clients client pc⟩ other =
      some idx → claimOf calls state other = some idx := by
    intro other idx found
    simp only [claimOf, update_apply] at found
    split at found
    · next isClient =>
        rw [isClient, unclaimed] at found
        cases found
    · exact found
  refine ⟨once.two, fun first second idx left right => once.alone first second idx (same left) (same right),
    fun other idx finished => ?_⟩
  simp only [update_apply] at finished
  split at finished
  · rw [finished] at unclaimed
    cases unclaimed
  · exact once.stored other idx finished

/-- A client stores into a slot nobody else has claimed. -/
theorem ClaimedOnce.put (once : ClaimedOnce calls state) (region : Memory) {pc : InsertPc} {idx : ℕ}
    {bucket : HashBucket} (claims : claim state.table (calls client) pc = some idx)
    (others : ∀ other ≠ client, claimOf calls state other ≠ some idx)
    (own : ∀ place, pc = .returned (.ok (.inserted place)) →
      (∃ home, place = (calls client).bucketIdx state.table home) ∧
        ∃ oldOffset, (state.table.setBucket idx bucket).bucket place = (calls client).newBucket oldOffset) :
    ClaimedOnce calls ⟨state.table.setBucket idx bucket, region, update state.clients client pc⟩ := by
  have same : ∀ other, claimOf calls
      ⟨state.table.setBucket idx bucket, region, update state.clients client pc⟩ other =
        if other = client then some idx else claimOf calls state other := by
    intro other
    simp only [claimOf, update_apply, claim_setBucket]
    split
    · next isClient => rw [isClient, claims]
    · rfl
  refine ⟨once.two, fun first second place left right => ?_, fun other place finished => ?_⟩
  · rw [same] at left right
    split at left <;> split at right
    · next isFirst isSecond => rw [isFirst, isSecond]
    · next other => exact absurd (right.trans left.symm) (others second other)
    · next other _ => exact absurd (left.trans right.symm) (others first other)
    · exact once.alone first second place left right
  · simp only [update_apply] at finished
    simp only [bucketIdx_setBucket]
    split at finished
    · next isClient => exact isClient ▸ own place finished
    · next isOther =>
        obtain ⟨home, oldOffset, stored⟩ := once.stored other place finished
        refine ⟨home, oldOffset, ?_⟩
        rw [← stored]
        refine (state.table.bucket_setBucket_or idx place bucket).resolve_right ?_
        rintro ⟨rfl, _⟩
        exact others other isOther (by rw [claimOf, finished, claim])

theorem ClaimedOnce.step (once : ClaimedOnce calls state) (effect : InsertEffect calls state client next)
    (first : SwapsFirst calls state client) : ClaimedOnce calls next := by
  cases effect with
  | decline home found refused => exact once.move _ (claim_declined _ _ home)
  | approach home pc found free heads => exact once.move _ (claim_of_attempt heads)
  | prepare home oldLv region pc found heads => exact once.move region (claim_eq_none_of_attempt heads)
  | claim home oldLv oldOffset found current =>
    have aims : pendingSwap (state.clients client) = some (home, oldLv) := by rw [found, pendingSwap]
    refine once.put _ rfl (fun other _ => first _ aims current other) fun place finished => ?_
    cases finished
  | lose home oldLv oldOffset found stale => exact once.move _ (claim_declined _ _ home)
  | write home oldOffset found =>
    have mine : claimOf calls state client = some ((calls client).bucketIdx state.table home) := by
      rw [claimOf, found, claim]
    refine once.put _ rfl (fun other differs taken => differs (once.alone other client _ taken mine)) ?_
    rintro place ⟨⟩
    refine ⟨⟨home, rfl⟩, oldOffset, ?_⟩
    rw [state.table.bucket_setBucket (bucketIdx_lt once.two _ home), if_pos rfl]

variable [DecidableEq κ] {xxh64 : Xxh64}

/-- The bucket bore the key and stood in one of the key's homes at some moment of the run from `start`. -/
def Stood (step : RemoteTraffic ι κ → RemoteAccess ι κ → Option (RemoteTraffic ι κ)) (start : RemoteTraffic ι κ)
    (labels : List (RemoteAccess ι κ)) (key : HashedKey) (bucket : HashBucket) : Prop :=
  bucket.matchesKey key.hash key.digest = true ∧ ∃ earlier seen home, earlier <+: labels ∧
    run step start earlier = some seen ∧
      bucket = seen.inserts.table.bucket (key.bucketIdx seen.inserts.table home)

omit [DecidableEq ι] [DecidableEq κ] in
theorem Stood.mono {step : RemoteTraffic ι κ → RemoteAccess ι κ → Option (RemoteTraffic ι κ)}
    {start : RemoteTraffic ι κ} {labels more : List (RemoteAccess ι κ)} {key : HashedKey} {bucket : HashBucket}
    (stood : Stood step start labels key bucket) (part : labels <+: more) : Stood step start more key bucket := by
  obtain ⟨matching, earlier, seen, home, before, rest⟩ := stood
  exact ⟨matching, earlier, seen, home, before.trans part, rest⟩

/-- A reader that began when an insertion of its key had finished: past the first home only if the key is in the
second, and never empty-handed. -/
def Finds (transport : Transport) (regions : RemoteRegions) (table : CuckooTable) (key : HashedKey)
    (idx : ℕ) (stood : HashBucket → Prop) : GetPc → Prop
  | .probing .first => True
  | .probing .second => idx = key.bucketIdx table .second
  | .fetching bucket => stood bucket
  | .returned result => ∃ bucket, stood bucket ∧ result = some <$> extractValue bucket transport regions

/-- A finished insertion, and a reader of its key. -/
structure Watching (xxh64 : Xxh64) (calls : ι → InsertCall) (keys : κ → HashedKey) (transport : Transport)
    (regions : RemoteRegions) (start : RemoteTraffic ι κ) (client : ι) (reader : κ) (idx : ℕ)
    (past : List (RemoteAccess ι κ)) (state : RemoteTraffic ι κ) : Prop where
  since : run (RemoteTraffic.step xxh64 calls keys transport regions) start past = some state
  once : ClaimedOnce calls state.inserts
  finished : state.inserts.clients client = .returned (.ok (.inserted idx))
  finds : Finds transport regions state.inserts.table (keys reader) idx
    (Stood (RemoteTraffic.step xxh64 calls keys transport regions) start past (keys reader))
    (state.readers reader)

omit [DecidableEq ι] [DecidableEq κ] in
theorem Finds.mono {table other : CuckooTable} (same : table.bucketCount = other.bucketCount) {key : HashedKey}
    {idx : ℕ} {pc : GetPc} {stood later : HashBucket → Prop} (stays : ∀ bucket, stood bucket → later bucket)
    (finds : Finds transport regions table key idx stood pc) :
    Finds transport regions other key idx later pc := by
  rcases pc with (_ | _) | bucket | result
  · trivial
  · simpa only [Finds, HashedKey.bucketIdx, CuckooTable.h2, same] using finds
  · exact stays bucket finds
  · obtain ⟨bucket, held, read⟩ := finds
    exact ⟨bucket, stays bucket held, read⟩

omit [DecidableEq ι] [DecidableEq κ] in
private theorem finds_matched {table : CuckooTable} {key : HashedKey} {idx : ℕ} {bucket : HashBucket}
    {stood : HashBucket → Prop} (held : stood bucket) :
    Finds transport regions table key idx stood (.matched transport regions bucket) := by
  rw [GetPc.matched]
  split
  · exact ⟨bucket, held, rfl⟩
  · exact held

theorem InsertEffect.bucketCount (effect : InsertEffect calls state client next) :
    next.table.bucketCount = state.table.bucketCount := by
  cases effect <;> rfl

theorem Watching.step {start state next : RemoteTraffic ι κ} {label : RemoteAccess ι κ} {reader : κ} {idx : ℕ}
    {past : List (RemoteAccess ι κ)} (same : (calls client).key = keys reader)
    (watching : Watching xxh64 calls keys transport regions start client reader idx past state)
    (first : ClaimsFirst calls state label)
    (taken : state.step xxh64 calls keys transport regions label = some next) :
    Watching xxh64 calls keys transport regions start client reader idx (past ++ [label]) next := by
  have since : run (RemoteTraffic.step xxh64 calls keys transport regions) start (past ++ [label]) = some next :=
    run_append_eq_some.mpr ⟨state, watching.since, run_cons_eq_some.mpr ⟨next, taken, rfl⟩⟩
  have grown : past <+: past ++ [label] := List.prefix_append ..
  have finds := watching.finds.mono rfl fun _ stood => stood.mono grown
  have moved : ∀ {other pc}, next = { state with readers := update state.readers other pc } →
      (other = reader → Finds transport regions state.inserts.table (keys reader) idx
        (Stood (RemoteTraffic.step xxh64 calls keys transport regions) start (past ++ [label]) (keys reader)) pc) →
      Watching xxh64 calls keys transport regions start client reader idx (past ++ [label]) next := by
    rintro other pc rfl now
    refine ⟨since, watching.once, watching.finished, ?_⟩
    simp only [update_apply]
    split
    · next isReader => exact now isReader.symm
    · exact finds
  cases accessEffect_of_step taken with
  | insert other inserts effect =>
    exact ⟨since, watching.once.step effect first, effect.keeps_returned watching.finished,
      finds.mono effect.bucketCount.symm fun _ => id⟩
  | hit other home found unlocked matching =>
    refine moved rfl fun isReader => finds_matched ?_
    subst isReader
    exact ⟨matching, past, state, home, grown, watching.since, rfl⟩
  | miss other home found refused =>
    refine moved rfl fun isReader => ?_
    subst isReader
    -- The slot of the finished insertion is unlocked and bears the key, so it is not the one just read.
    obtain ⟨⟨place, placed⟩, oldOffset, stored⟩ := watching.once.stored client idx watching.finished
    have elsewhere : idx ≠ (keys other).bucketIdx state.inserts.table home := by
      intro here
      rw [← here, stored, isLocked_newBucket, matchesKey_newBucket.mpr same] at refused
      cases refused with
      | inl locked => cases locked
      | inr differs => cases differs
    cases home with
    | first =>
      cases place with
      | first => exact absurd (placed.trans (by rw [← same]; rfl)) elsewhere
      | second => exact placed.trans (by rw [← same]; rfl)
    | second =>
      rw [found] at finds
      exact absurd finds elsewhere
  | fetch other bucket found =>
    refine moved rfl fun isReader => ?_
    subst isReader
    rw [found] at finds
    exact ⟨bucket, finds, rfl⟩

/-- For every table, any number of insertions of either mode and remote reads, and every interleaving in which a
swap succeeds on a slot only once: a reader that reads its first bucket after an insertion of its key has returned
`Inserted` returns what it reads off a bucket that has since stood with its key in one of its homes. -/
theorem inserted_key_is_found (xxh64 : Xxh64) (calls : ι → InsertCall)
    (keys : κ → HashedKey) (transport : Transport) (regions : RemoteRegions) {table : CuckooTable}
    (two : 2 ≤ table.bucketCount) (region : Memory) {front back : List (RemoteAccess ι κ)}
    {middle final : RemoteTraffic ι κ}
    (reached : run (RemoteTraffic.step xxh64 calls keys transport regions) (.initial table region keys) front =
      some middle)
    (onward : run (RemoteTraffic.step xxh64 calls keys transport regions) middle back = some final)
    (first : Throughout (RemoteTraffic.step xxh64 calls keys transport regions) (ClaimsFirst calls)
      (.initial table region keys) (front ++ back))
    {client : ι} {reader : κ} {idx : ℕ} (same : (calls client).key = keys reader)
    (inserted : middle.inserts.clients client = .returned (.ok (.inserted idx)))
    (fresh : middle.readers reader = .probing .first) {result : Except RdmaError (Option ReadResult)}
    (returned : final.readers reader = .returned result) :
    ∃ bucket, Stood (RemoteTraffic.step xxh64 calls keys transport regions) middle back (keys reader) bucket ∧
      result = some <$> extractValue bucket transport regions := by
  have keep : ∀ {state label next}, ClaimedOnce calls state.inserts → ClaimsFirst calls state label →
      RemoteTraffic.step xxh64 calls keys transport regions state label = some next →
      ClaimedOnce calls next.inserts := by
    intro state label next once first taken
    cases accessEffect_of_step taken with
    | insert other inserts effect => exact once.step effect first
    | hit | miss | fetch => exact once
  have once := Throughout.invariant keep (claimedOnce_initial two region) first.left reached
  have begun : Watching xxh64 calls keys transport regions middle client reader idx [] middle :=
    ⟨rfl, once, inserted, by rw [fresh]; trivial⟩
  have watching : Watching xxh64 calls keys transport regions middle client reader idx ([] ++ back) final :=
    Throughout.invariant_past (fun watching first taken => watching.step same first taken) begun
      (first.right reached) onward
  have finds := watching.finds
  rwa [returned] at finds

/-- An insertion finishes while another one is under way; a reader that begins then finds it. -/
theorem finished_insert_is_found_beside_another :
    let calls : Bool → InsertCall := fun client =>
      ⟨⟨bif client then 2 else 1, FixedBytes.zeros 16⟩, [0x61], .inline⟩
    let stepOf := RemoteTraffic.step (fun _ _ => 0) calls (fun _ : Unit => ⟨1, FixedBytes.zeros 16⟩)
      ⟨fun _ _ _ _ => .error .timeout⟩ ⟨0, 1, 0, 2, 3⟩
    ∃ middle final,
      run stepOf (.initial (.new 8 4 ⟨3, rfl⟩) (fun _ => 0) fun _ => ⟨1, FixedBytes.zeros 16⟩)
        [.insert false, .insert true, .insert false, .insert false] = some middle ∧
      run stepOf middle [.insert true, .get (), .insert true] = some final ∧
      final.readers () = .returned (.ok (some ⟨0x61 :: List.replicate 31 0, .inline⟩)) ∧
      ∃ bucket, Stood stepOf middle [.insert true, .get (), .insert true] ⟨1, FixedBytes.zeros 16⟩ bucket ∧
        .ok (some ⟨0x61 :: List.replicate 31 0, .inline⟩) =
          some <$> extractValue bucket ⟨fun _ _ _ _ => .error .timeout⟩ ⟨0, 1, 0, 2, 3⟩ := by
  intro calls stepOf
  have seen : ((run stepOf (.initial (.new 8 4 ⟨3, rfl⟩) (fun _ => 0) fun _ => ⟨1, FixedBytes.zeros 16⟩)
      [.insert false, .insert true, .insert false, .insert false]).map fun middle =>
        (middle.inserts.clients false, middle.readers (),
          (run stepOf middle [.insert true, .get (), .insert true]).map fun final => final.readers ())) =
      some (.returned (.ok (.inserted 1)), .probing .first,
        some (.returned (.ok (some ⟨0x61 :: List.replicate 31 0, .inline⟩)))) := by
    decide +kernel
  obtain ⟨middle, reached, facts⟩ := Option.map_eq_some_iff.mp seen
  simp only [Prod.mk.injEq] at facts
  obtain ⟨inserted, fresh, later⟩ := facts
  obtain ⟨final, onward, returned⟩ := Option.map_eq_some_iff.mp later
  exact ⟨middle, final, reached, onward, returned,
    inserted_key_is_found _ calls (fun _ => ⟨1, FixedBytes.zeros 16⟩) _ _ (by decide) _ reached onward
      (by decide +kernel) rfl inserted fresh returned⟩

end Durable

end Rdmas.Soundness
