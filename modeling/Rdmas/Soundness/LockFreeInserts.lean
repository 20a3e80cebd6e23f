import Mathlib.Data.Finset.Card
import Mathlib.Data.List.Nodup
import Rdmas.Math.Linearization
import Rdmas.Model.LockFreeInserts
import Rdmas.Soundness.RemoteInsert

/-! # Lock-free inserts take effect one at a time, if no slot is taken twice

A call is decided when it finds its slot free or has been refused twice; what it stores afterwards is
fixed. As long as no slot is found free by two calls, the table and the results are those of the same calls
made one after another in the order of these decisions. The condition cannot be weakened: each success of a
sequence of calls uses up one free slot, so results that count a slot twice are not those of any sequence.
-/

namespace Rdmas.Soundness

open Rdmas.Model Runs Linearization FixedBytes Function

section Sequential

variable {table : CuckooTable} {call : InsertCall} {home : Home} {idx : ℕ}

/-- One call by itself. -/
def insertAlone {ι : Type} (calls : ι → InsertCall) (table : CuckooTable) (client : ι) :
    CuckooTable × Except CuckooError Unit :=
  table.insertLockFree (calls client).key (calls client).value (calls client).mode

/-- The table after a call has taken a slot. -/
def takeSlot (table : CuckooTable) (call : InsertCall) (idx : ℕ) : CuckooTable :=
  table.setBucket idx ((table.bucket idx).writeBucketRaw call.key call.value call.mode)

private theorem tryCasInsert_eq_takeSlot (table : CuckooTable) (call : InsertCall) (idx : ℕ) :
    table.tryCasInsert call.key call.value call.mode idx =
      if (table.bucket idx).isAvailable then (takeSlot table call idx, true) else (table, false) := by
  simp only [CuckooTable.tryCasInsert, HashBucket.isAvailable, takeSlot]
  by_cases locked : (table.bucket idx).isLocked = true <;> simp [locked]

/-- A call takes a slot if it is available and the first home, when it is another one, is not. -/
theorem insertLockFree_take (nonzero : call.key.hash ≠ 0)
    (available : (table.bucket (call.bucketIdx table home)).isAvailable = true)
    (earlier : home = .second → (table.bucket (call.bucketIdx table .first)).isAvailable = false) :
    table.insertLockFree call.key call.value call.mode = (takeSlot table call (call.bucketIdx table home), .ok ()) := by
  simp only [CuckooTable.insertLockFree, if_neg nonzero, tryCasInsert_eq_takeSlot]
  cases home with
  | first =>
    simp only [InsertCall.bucketIdx] at available ⊢
    simp [available]
  | second =>
    have earlier := earlier rfl
    simp only [InsertCall.bucketIdx] at earlier available ⊢
    simp [earlier, available]

private theorem insertLockFree_refused (nonzero : call.key.hash ≠ 0)
    (refused : ∀ home, (table.bucket (call.bucketIdx table home)).isAvailable = false) :
    table.insertLockFree call.key call.value call.mode = (table, .error .tableFull) := by
  have first := refused .first
  have second := refused .second
  simp only [InsertCall.bucketIdx] at first second
  rw [CuckooTable.insertLockFree, if_neg nonzero]
  simp [tryCasInsert_eq_takeSlot, first, second]

private theorem insertLockFree_invalid (zero : call.key.hash = 0) :
    table.insertLockFree call.key call.value call.mode = (table, .error .invalidKey) := by
  simp [CuckooTable.insertLockFree, zero]

/-- A slot that was taken is not available. -/
theorem isAvailable_writeBucketRaw (nonzero : call.key.hash ≠ 0) (bucket : HashBucket) :
    (bucket.writeBucketRaw call.key call.value call.mode).isAvailable = false := by
  have hash : (bucket.writeBucketRaw call.key call.value call.mode).keyHash = call.key.hash := by
    unfold HashBucket.writeBucketRaw
    split <;> rfl
  have word : (bucket.writeBucketRaw call.key call.value call.mode).lockVersion =
      call.mode.toU64 <<< 2 := by
    unfold HashBucket.writeBucketRaw
    split <;> rfl
  simpa [HashBucket.isAvailable, HashBucket.isEmpty, HashBucket.isTombstone, hash, word,
    LockWord.isTombstone_modeBits] using fun _ => nonzero

/-- The slots that a call could take. -/
def availableSlots (table : CuckooTable) : Finset ℕ :=
  (Finset.range table.bucketCount).filter fun idx => (table.bucket idx).isAvailable = true

private theorem mem_availableSlots : idx ∈ availableSlots table ↔
    idx < table.bucketCount ∧ (table.bucket idx).isAvailable = true := by
  rw [availableSlots, Finset.mem_filter, Finset.mem_range]

private theorem availableSlots_takeSlot (nonzero : call.key.hash ≠ 0) (bound : idx < table.bucketCount) :
    availableSlots (takeSlot table call idx) = (availableSlots table).erase idx := by
  ext query
  rw [Finset.mem_erase, mem_availableSlots, mem_availableSlots, takeSlot, table.bucket_setBucket bound]
  change query < table.bucketCount ∧ _ ↔ _
  split
  · next same => simp [same, isAvailable_writeBucketRaw nonzero]
  · next differs => simp [Ne.symm differs]

private theorem takeSlot_bucketCount (table : CuckooTable) (call : InsertCall) (idx : ℕ) :
    (takeSlot table call idx).bucketCount = table.bucketCount := rfl

/-- What a call made alone does to the slots. -/
theorem insertAlone_cases {ι : Type} (calls : ι → InsertCall) (two : 2 ≤ table.bucketCount) (client : ι) :
    (∃ idx, idx ∈ availableSlots table ∧ (calls client).key.hash ≠ 0 ∧
        insertAlone calls table client = (takeSlot table (calls client) idx, .ok ())) ∨
      ∃ error, insertAlone calls table client = (table, .error error) := by
  by_cases zero : (calls client).key.hash = 0
  · exact .inr ⟨_, insertLockFree_invalid zero⟩
  by_cases refused : ∀ home, (table.bucket ((calls client).bucketIdx table home)).isAvailable = false
  · exact .inr ⟨_, insertLockFree_refused zero refused⟩
  left
  have slot : ∀ {home}, (table.bucket ((calls client).bucketIdx table home)).isAvailable = true →
      (calls client).bucketIdx table home ∈ availableSlots table :=
    fun available => mem_availableSlots.mpr ⟨bucketIdx_lt two _ _, available⟩
  cases first : (table.bucket ((calls client).bucketIdx table .first)).isAvailable with
  | true => exact ⟨_, slot first, zero, insertLockFree_take zero first (fun absurd => by cases absurd)⟩
  | false =>
    cases second : (table.bucket ((calls client).bucketIdx table .second)).isAvailable with
    | true => exact ⟨_, slot second, zero, insertLockFree_take zero second fun _ => first⟩
    | false =>
      refine absurd (fun home => ?_) refused
      cases home with
      | first => exact first
      | second => exact second

/-- Every success of a sequence of calls uses up one available slot. -/
theorem card_availableSlots_outcome {ι : Type} (calls : ι → InsertCall) (two : 2 ≤ table.bucketCount)
    (order : List ι) :
    (availableSlots (outcome (insertAlone calls) table order)).card +
      ((responses (insertAlone calls) table order).filter fun entry => entry.2 = .ok ()).length =
        (availableSlots table).card := by
  induction order generalizing table with
  | nil => rfl
  | cons client rest ih =>
    rw [outcome, responses, List.filter_cons]
    rcases insertAlone_cases calls two client with ⟨idx, slot, nonzero, taken⟩ | ⟨error, failed⟩
    · have left := availableSlots_takeSlot nonzero (mem_availableSlots.mp slot).1
      have fewer := Finset.card_erase_add_one slot
      rw [← left] at fewer
      have later := ih (two.trans_eq (takeSlot_bucketCount table (calls client) idx).symm)
      simp only [taken, decide_true, if_true, List.length_cons]
      omega
    · simpa [failed] using ih two

end Sequential

section Stores

variable {mode : BucketMode} {call : InsertCall}

/-- The fields still to be stored from one on. -/
def BucketField.onward (mode : BucketMode) : BucketField → List BucketField
  | .lockVersion => .lockVersion :: .keyHash :: .keyOrDigest :: bodyOf mode
  | .keyHash => .keyHash :: .keyOrDigest :: bodyOf mode
  | .keyOrDigest => .keyOrDigest :: bodyOf mode
  | .body => [.body]
where
  bodyOf : BucketMode → List BucketField
    | .inline => [.body]
    | .extent => []

/-- The bucket once a call has stored the fields from one on. -/
def finishStores (call : InsertCall) (field : BucketField) (bucket : HashBucket) : HashBucket :=
  (BucketField.onward call.mode field).foldl (fun bucket field => bucket.storeField call field) bucket

/-- The stores of a call together are the raw writer. -/
theorem finishStores_lockVersion (call : InsertCall) (bucket : HashBucket) :
    finishStores call .lockVersion bucket = bucket.writeBucketRaw call.key call.value call.mode := by
  rw [finishStores]
  cases mode : call.mode <;>
    simp [BucketField.onward, BucketField.onward.bodyOf, HashBucket.storeField, HashBucket.writeBucketRaw,
      HashBucket.setInlineValue, mode]

/-- After a store either the following fields are left or the bucket is finished. -/
theorem finishStores_storeField (call : InsertCall) (field : BucketField) (bucket : HashBucket) :
    (∃ later, field.next call.mode = some later ∧
        finishStores call field bucket = finishStores call later (bucket.storeField call field)) ∨
      field.next call.mode = none ∧ finishStores call field bucket = bucket.storeField call field := by
  cases field with
  | lockVersion => exact .inl ⟨.keyHash, rfl, by simp only [finishStores, BucketField.onward, List.foldl_cons]⟩
  | keyHash => exact .inl ⟨.keyOrDigest, rfl, by simp only [finishStores, BucketField.onward, List.foldl_cons]⟩
  | keyOrDigest =>
    simp only [finishStores, BucketField.onward, BucketField.next, List.foldl_cons]
    cases call.mode with
    | inline => exact .inl ⟨.body, rfl, by simp only [BucketField.onward.bodyOf]⟩
    | extent => exact .inr ⟨rfl, by simp only [BucketField.onward.bodyOf, List.foldl_nil]⟩
  | body => exact .inr ⟨rfl, by simp only [finishStores, BucketField.onward, List.foldl_cons, List.foldl_nil]⟩

end Stores

/-- What a call is bound to return. -/
def LockFreePc.verdict : LockFreePc → Option (Except CuckooError Unit)
  | .storing _ _ => some (.ok ())
  | .returned result => some result
  | _ => none

section Steps

variable {ι : Type} [DecidableEq ι] {calls : ι → InsertCall} {table : CuckooTable}
variable {state next : LockFreeState ι} {client : ι}

variable (calls state client) in
/-- What one access of a call can do. -/
inductive RawEffect : LockFreeState ι → Prop where
  | reject (found : state.calls client = .start) (zero : (calls client).key.hash = 0) :
      RawEffect (state.setCall client (.returned (.error .invalidKey)))
  | start (found : state.calls client = .start) (nonzero : (calls client).key.hash ≠ 0) :
      RawEffect (state.setCall client (.probing .first))
  | take (home : Home) (found : state.calls client = .probing home)
      (available : (state.table.bucket ((calls client).bucketIdx state.table home)).isAvailable = true) :
      RawEffect { state.setCall client (.storing home .lockVersion) with
        taken := (client, (calls client).bucketIdx state.table home) :: state.taken }
  | refuse (home : Home) (found : state.calls client = .probing home)
      (refused : (state.table.bucket ((calls client).bucketIdx state.table home)).isAvailable = false) :
      RawEffect (state.setCall client (.refused home))
  | store (home : Home) (field : BucketField) (found : state.calls client = .storing home field) :
      RawEffect { state.setCall client (.stored (calls client).mode home field) with
        table := state.table.setBucket ((calls client).bucketIdx state.table home)
          ((state.table.bucket ((calls client).bucketIdx state.table home)).storeField (calls client) field) }

private theorem rawEffect_of_step (taken : state.step calls client = some next) :
    RawEffect calls state client next := by
  simp only [LockFreeState.step] at taken
  split at taken
  · next found =>
    split at taken
    · next zero => exact Option.some.inj taken ▸ .reject found zero
    · next nonzero => exact Option.some.inj taken ▸ .start found nonzero
  · next home found =>
    split at taken
    · next available => exact Option.some.inj taken ▸ .take home found available
    · next refused => exact Option.some.inj taken ▸ .refuse home found (Bool.eq_false_iff.mpr refused)
  · next home field found => exact Option.some.inj taken ▸ .store home field found
  · cases taken

/-- The step at which a call is bound to its result. -/
def decidesInsert (calls : ι → InsertCall) (state : LockFreeState ι) (client : ι) : Bool :=
  match state.calls client with
  | .start => (calls client).key.hash == 0
  | .probing home => home == .second ||
      (state.table.bucket ((calls client).bucketIdx state.table home)).isAvailable
  | _ => false

/-- Which slots have been taken and by whom; nothing else has been written to. -/
structure SlotClaims (calls : ι → InsertCall) (table : CuckooTable) (state : LockFreeState ι) : Prop where
  count : state.table.bucketCount = table.bucketCount
  nonzero : ∀ client home, state.calls client = .probing home → (calls client).key.hash ≠ 0
  storing : ∀ client home field, state.calls client = .storing home field →
    (client, (calls client).bucketIdx table home) ∈ state.taken
  verdict : ∀ client, (∃ idx, (client, idx) ∈ state.taken) ↔
    LockFreePc.verdict (state.calls client) = some (.ok ())
  once : (state.taken.map Prod.fst).Nodup
  frame : ∀ idx, idx ∉ state.taken.map Prod.snd → state.table.bucket idx = table.bucket idx
  available : ∀ idx ∈ state.taken.map Prod.snd, (table.bucket idx).isAvailable = true

omit [DecidableEq ι] in
private theorem slotClaims_initial (calls : ι → InsertCall) (table : CuckooTable) :
    SlotClaims calls table (.initial table) where
  count := rfl
  nonzero _ _ found := by cases found
  storing _ _ _ found := by cases found
  verdict _ := by simp [LockFreeState.initial, LockFreePc.verdict]
  once := List.nodup_nil
  frame _ _ := rfl
  available _ member := absurd member List.not_mem_nil

namespace SlotClaims

variable (claims : SlotClaims calls table state)
include claims

/-- A call that neither takes a slot nor stores anything. -/
theorem settle {pc : LockFreePc}
    (idle : ∀ home field, pc ≠ .storing home field) (same : LockFreePc.verdict pc = some (.ok ()) ↔
      LockFreePc.verdict (state.calls client) = some (.ok ()))
    (nonzero : ∀ home, pc = .probing home → (calls client).key.hash ≠ 0) :
    SlotClaims calls table (state.setCall client pc) where
  count := claims.count
  nonzero other home found := by
    simp only [LockFreeState.setCall, update_apply] at found
    split at found
    · next isClient => exact isClient ▸ nonzero home found
    · exact claims.nonzero other home found
  storing other home field found := by
    simp only [LockFreeState.setCall, update_apply] at found
    split at found
    · exact absurd found (idle home field)
    · exact claims.storing other home field found
  verdict other := by
    simp only [LockFreeState.setCall, update_apply]
    split
    · next isClient => rw [same, isClient, claims.verdict]
    · exact claims.verdict other
  once := claims.once
  frame := claims.frame
  available := claims.available

/-- A call takes a slot. -/
theorem take {home : Home} (found : state.calls client = .probing home)
    (available : (state.table.bucket ((calls client).bucketIdx state.table home)).isAvailable = true) :
    SlotClaims calls table { state.setCall client (.storing home .lockVersion) with
      taken := (client, (calls client).bucketIdx state.table home) :: state.taken } where
  count := claims.count
  nonzero other home found := by
    simp only [LockFreeState.setCall, update_apply] at found
    split at found
    · cases found
    · exact claims.nonzero other home found
  storing other otherHome field found := by
    simp only [LockFreeState.setCall, update_apply] at found
    split at found
    · next isClient =>
        obtain ⟨rfl, rfl⟩ := LockFreePc.storing.inj found
        subst isClient
        rw [bucketIdx_congr claims.count]
        exact List.mem_cons_self
    · exact List.mem_cons_of_mem _ (claims.storing other otherHome field found)
  verdict other := by
    simp only [LockFreeState.setCall, update_apply, List.mem_cons, Prod.mk.injEq]
    split
    · next isClient => simp [isClient, LockFreePc.verdict]
    · next differs => simpa [differs] using claims.verdict other
  once := by
    rw [List.map_cons, List.nodup_cons]
    refine ⟨fun member => ?_, claims.once⟩
    obtain ⟨⟨other, idx⟩, listed, same⟩ := List.mem_map.mp member
    have early := (claims.verdict other).mp ⟨idx, listed⟩
    rw [show other = client from same, found] at early
    cases early
  frame idx absent := claims.frame idx fun member => absent (List.mem_cons_of_mem _ member)
  available idx member := by
    by_cases earlier : idx ∈ state.taken.map Prod.snd
    · exact claims.available idx earlier
    · -- Nobody has written to the slot: it is as it was in the beginning.
      rw [← claims.frame idx earlier]
      rcases List.mem_cons.mp member with rfl | listed
      · exact available
      · exact absurd listed earlier

/-- A call stores a field in the slot it has taken. -/
theorem store {home : Home} {field : BucketField}
    (found : state.calls client = .storing home field) (bucket : HashBucket) :
    SlotClaims calls table { state.setCall client (.stored (calls client).mode home field) with
      table := state.table.setBucket ((calls client).bucketIdx state.table home) bucket } where
  count := claims.count
  nonzero other otherHome found := by
    simp only [LockFreeState.setCall, update_apply, LockFreePc.stored] at found
    split at found
    · split at found <;> cases found
    · exact claims.nonzero other otherHome found
  storing other otherHome otherField later := by
    simp only [LockFreeState.setCall, update_apply, LockFreePc.stored] at later
    split at later
    · next isClient =>
        subst isClient
        have own := claims.storing other home field found
        split at later
        · obtain ⟨rfl, _⟩ := LockFreePc.storing.inj later
          exact own
        · cases later
    · exact claims.storing other otherHome otherField later
  verdict other := by
    simp only [LockFreeState.setCall, update_apply, LockFreePc.stored]
    rw [claims.verdict]
    split
    · next isClient =>
        rw [isClient, found]
        split <;> rfl
    · exact Iff.rfl
  once := claims.once
  frame idx absent := by
    have apart : (calls client).bucketIdx state.table home ≠ idx := by
      rintro rfl
      rw [bucketIdx_congr claims.count] at absent
      exact absent (List.mem_map_of_mem (f := Prod.snd) (claims.storing client home field found))
    rw [← claims.frame idx absent]
    exact (state.table.bucket_setBucket_or _ idx bucket).resolve_right fun written => apart written.1
  available := claims.available

theorem effect (effect : RawEffect calls state client next) : SlotClaims calls table next := by
  cases effect with
  | reject found zero =>
    exact claims.settle (fun _ _ absurd => by cases absurd) (by simp [found, LockFreePc.verdict])
      (fun _ absurd => by cases absurd)
  | start found nonzero =>
    exact claims.settle (fun _ _ absurd => by cases absurd) (by simp [found, LockFreePc.verdict])
      (fun _ _ => nonzero)
  | take home found available => exact claims.take found available
  | refuse home found refused =>
    refine claims.settle (fun _ _ absurd => ?_) ?_ (fun _ _ => claims.nonzero client home found)
    · cases home <;> cases absurd
    · cases home <;> simp [found, LockFreePc.refused, LockFreePc.verdict]
  | store home field found => exact claims.store found _

end SlotClaims

/-- The history lists every call that is bound to its result, with that result. -/
structure Verdicts (pcs : ι → LockFreePc) (history : List (ι × Except CuckooError Unit)) : Prop where
  bound : ∀ client result, (client, result) ∈ history ↔ LockFreePc.verdict (pcs client) = some result
  once : (history.map Prod.fst).Nodup

section History

variable {pcs : ι → LockFreePc} {history : List (ι × Except CuckooError Unit)} {pc : LockFreePc}

theorem Verdicts.keep (recorded : Verdicts pcs history)
    (same : LockFreePc.verdict pc = LockFreePc.verdict (pcs client)) :
    Verdicts (update pcs client pc) history where
  bound other result := by
    rw [recorded.bound, update_apply]
    split
    · next isClient => rw [same, isClient]
    · rfl
  once := recorded.once

theorem Verdicts.append (recorded : Verdicts pcs history)
    (fresh : LockFreePc.verdict (pcs client) = none) {result : Except CuckooError Unit}
    (bound : LockFreePc.verdict pc = some result) :
    Verdicts (update pcs client pc) (history ++ [(client, result)]) where
  bound other answer := by
    rw [List.mem_append, List.mem_singleton, recorded.bound, update_apply, Prod.mk.injEq]
    split
    · next isClient => simp [isClient, fresh, bound, eq_comm]
    · next differs => simp [differs]
  once := by
    rw [List.map_append, List.map_singleton]
    refine List.Nodup.append recorded.once (List.nodup_singleton _) ?_
    intro other member isClient
    obtain ⟨⟨known, answer⟩, listed, same⟩ := List.mem_map.mp member
    have early := (recorded.bound known answer).mp listed
    rw [show known = other from same, List.mem_singleton.mp isClient, fresh] at early
    cases early

end History

/-- The object is the table with the stores in progress finished, and the history says what the calls on
it returned. -/
structure Linearized (calls : ι → InsertCall) (table : CuckooTable) (state : LockFreeState ι)
    (object : CuckooTable) (history : List (ι × Except CuckooError Unit)) : Prop where
  count : object.bucketCount = table.bucketCount
  settled : ∀ idx, (∀ client home field, state.calls client = .storing home field →
    (calls client).bucketIdx table home ≠ idx) → object.bucket idx = state.table.bucket idx
  storing : ∀ client home field, state.calls client = .storing home field →
    object.bucket ((calls client).bucketIdx table home) =
      finishStores (calls client) field (state.table.bucket ((calls client).bucketIdx table home))
  closed : ∀ idx ∈ state.taken.map Prod.snd, (object.bucket idx).isAvailable = false
  refused : ∀ client, state.calls client = .probing .second →
    (object.bucket ((calls client).bucketIdx table .first)).isAvailable = false
  recorded : Verdicts state.calls history

variable {object : CuckooTable} {history later : List (ι × Except CuckooError Unit)}

omit [DecidableEq ι] in
private theorem linearized_initial (calls : ι → InsertCall) (table : CuckooTable) :
    Linearized calls table (.initial table) table [] where
  count := rfl
  settled _ _ := rfl
  storing _ _ _ found := by cases found
  closed _ member := absurd member List.not_mem_nil
  refused _ found := by cases found
  recorded := ⟨fun _ _ => by simp [LockFreeState.initial, LockFreePc.verdict], List.nodup_nil⟩

namespace Linearized

variable (linearized : Linearized calls table state object history)
include linearized

omit [DecidableEq ι] in
/-- A slot that a call finds unavailable is so in the object: either nobody is storing to it, or somebody
has taken it. -/
theorem unavailable (claims : SlotClaims calls table state) {idx : ℕ}
    (refused : (state.table.bucket idx).isAvailable = false) : (object.bucket idx).isAvailable = false := by
  by_cases busy : ∃ other home field, state.calls other = .storing home field ∧
      (calls other).bucketIdx table home = idx
  · obtain ⟨other, home, field, found, rfl⟩ := busy
    exact linearized.closed _ (List.mem_map_of_mem (f := Prod.snd) (claims.storing other home field found))
  · push Not at busy
    rw [linearized.settled idx busy]
    exact refused

/-- A call that was not storing and is not storing afterwards, with the object as it is. -/
theorem idle {pc : LockFreePc}
    (before : ∀ home field, state.calls client ≠ .storing home field)
    (after : ∀ home field, pc ≠ .storing home field) (refused : pc = .probing .second →
      (object.bucket ((calls client).bucketIdx table .first)).isAvailable = false)
    (recorded : Verdicts (update state.calls client pc) later) :
    Linearized calls table (state.setCall client pc) object later := by
  have same : ∀ other home field, (state.setCall client pc).calls other = .storing home field ↔
      state.calls other = .storing home field := by
    intro other home field
    simp only [LockFreeState.setCall, update_apply]
    split
    · next isClient =>
        rw [isClient]
        exact iff_of_false (after home field) (before home field)
    · rfl
  refine ⟨linearized.count, ?_, ?_, linearized.closed, ?_, recorded⟩
  · intro idx free
    exact linearized.settled idx fun other home field found =>
      free other home field ((same other home field).mpr found)
  · intro other home field found
    exact linearized.storing other home field ((same other home field).mp found)
  · intro other found
    simp only [LockFreeState.setCall, update_apply] at found
    split at found
    · next isClient => exact isClient ▸ refused found
    · exact linearized.refused other found

/-- A call takes a slot that nobody has taken. -/
theorem take (claims : SlotClaims calls table state) (two : 2 ≤ table.bucketCount) {home : Home}
    (found : state.calls client = .probing home)
    (untaken : (calls client).bucketIdx table home ∉ state.taken.map Prod.snd) :
    Linearized calls table
      { state.setCall client (.storing home .lockVersion) with
        taken := (client, (calls client).bucketIdx state.table home) :: state.taken }
      (takeSlot object (calls client) ((calls client).bucketIdx table home))
      (history ++ [(client, .ok ())]) := by
  generalize slot : (calls client).bucketIdx table home = idx at untaken ⊢
  have nonzero := claims.nonzero client home found
  have bound : idx < object.bucketCount := by
    rw [linearized.count, ← slot]
    exact bucketIdx_lt two _ _
  have apart : ∀ other otherHome field, state.calls other = .storing otherHome field →
      (calls other).bucketIdx table otherHome ≠ idx := by
    rintro other otherHome field storing rfl
    exact untaken (List.mem_map_of_mem (f := Prod.snd) (claims.storing other otherHome field storing))
  have same := linearized.settled idx apart
  have closes : ∀ query, (object.bucket query).isAvailable = false →
      ((takeSlot object (calls client) idx).bucket query).isAvailable = false := by
    intro query closed
    rw [takeSlot, object.bucket_setBucket bound]
    split
    · exact isAvailable_writeBucketRaw nonzero _
    · exact closed
  refine ⟨linearized.count, ?_, ?_, ?_, ?_, linearized.recorded.append (by rw [found]; rfl) rfl⟩
  · intro query free
    have differs : idx ≠ query := by
      rintro rfl
      refine free client home .lockVersion ?_ slot
      exact update_self ..
    rw [takeSlot, object.bucket_setBucket bound, if_neg differs]
    refine linearized.settled query fun other otherHome field storing => ?_
    refine free other otherHome field ?_
    have others : other ≠ client := by
      rintro rfl
      rw [found] at storing
      cases storing
    exact (update_of_ne others ..).trans storing
  · intro other otherHome field storing
    simp only [LockFreeState.setCall, update_apply] at storing
    split at storing
    · next isClient =>
        obtain ⟨rfl, rfl⟩ := LockFreePc.storing.inj storing
        subst isClient
        rw [slot, takeSlot, object.bucket_setBucket bound, if_pos rfl, finishStores_lockVersion, same]
        rfl
    · have differs := apart other otherHome field storing
      rw [takeSlot, object.bucket_setBucket bound, if_neg differs.symm]
      exact linearized.storing other otherHome field storing
  · intro query member
    rw [List.map_cons, bucketIdx_congr claims.count, slot] at member
    rcases List.mem_cons.mp member with rfl | earlier
    · rw [takeSlot, object.bucket_setBucket bound, if_pos rfl]
      exact isAvailable_writeBucketRaw nonzero _
    · exact closes query (linearized.closed query earlier)
  · intro other probing
    simp only [LockFreeState.setCall, update_apply] at probing
    split at probing
    · cases probing
    · exact closes _ (linearized.refused other probing)

/-- A call stores a field in a slot that only it has taken. -/
theorem store
    (claims : SlotClaims calls table state) (two : 2 ≤ table.bucketCount) {home : Home} {field : BucketField}
    (found : state.calls client = .storing home field) (distinct : (state.taken.map Prod.snd).Nodup) :
    Linearized calls table
      { state.setCall client (.stored (calls client).mode home field) with
        table := state.table.setBucket ((calls client).bucketIdx state.table home)
          ((state.table.bucket ((calls client).bucketIdx state.table home)).storeField (calls client) field) }
      object history := by
  rw [bucketIdx_congr claims.count]
  generalize slot : (calls client).bucketIdx table home = idx
  have bound : idx < state.table.bucketCount := by
    rw [claims.count, ← slot]
    exact bucketIdx_lt two _ _
  -- The only call that stores to this slot.
  have alone : ∀ other otherHome otherField, state.calls other = .storing otherHome otherField →
      (calls other).bucketIdx table otherHome = idx → other = client := by
    intro other otherHome otherField storing same
    have theirs := claims.storing other otherHome otherField storing
    have own := claims.storing client home field found
    rw [same] at theirs
    rw [slot] at own
    exact congrArg Prod.fst (List.inj_on_of_nodup_map distinct theirs own rfl)
  have before := linearized.storing client home field found
  rw [slot] at before
  have kept : LockFreePc.verdict (.stored (calls client).mode home field) =
      LockFreePc.verdict (state.calls client) := by
    rw [found, LockFreePc.stored]
    split <;> rfl
  refine ⟨linearized.count, ?_, ?_, linearized.closed, ?_, linearized.recorded.keep kept⟩
  · intro query free
    rw [state.table.bucket_setBucket bound]
    split
    · next same =>
        -- The call is done: what it was to finish is what it has just stored.
        subst same
        rw [before]
        rcases finishStores_storeField (calls client) field (state.table.bucket idx) with
          ⟨later, more, _⟩ | ⟨_, done⟩
        · refine absurd slot (free client home later ?_)
          exact (update_self ..).trans (by rw [LockFreePc.stored, more])
        · exact done
    · next differs =>
        refine linearized.settled query fun other otherHome otherField storing => ?_
        by_cases isClient : other = client
        · subst isClient
          rw [found] at storing
          obtain ⟨rfl, rfl⟩ := LockFreePc.storing.inj storing
          rwa [slot]
        · exact free other otherHome otherField ((update_of_ne isClient ..).trans storing)
  · intro other otherHome otherField storing
    simp only [LockFreeState.setCall, update_apply] at storing
    split at storing
    · next isClient =>
        subst isClient
        rcases finishStores_storeField (calls other) field (state.table.bucket idx) with
          ⟨later, more, onward⟩ | ⟨last, _⟩
        · rw [LockFreePc.stored, more] at storing
          obtain ⟨rfl, rfl⟩ := LockFreePc.storing.inj storing
          rw [slot, state.table.bucket_setBucket bound, if_pos rfl, ← onward]
          exact before
        · rw [LockFreePc.stored, last] at storing
          cases storing
    · next others =>
        have differs : idx ≠ (calls other).bucketIdx table otherHome :=
          fun same => others (alone other otherHome otherField storing same.symm)
        rw [state.table.bucket_setBucket bound, if_neg differs]
        exact linearized.storing other otherHome otherField storing
  · intro other probing
    simp only [LockFreeState.setCall, update_apply] at probing
    split at probing
    · rw [LockFreePc.stored] at probing
      split at probing <;> cases probing
    · exact linearized.refused other probing

end Linearized

/-- The machine and the object, as long as no slot is taken twice. -/
structure Simulated (calls : ι → InsertCall) (table : CuckooTable) (state : LockFreeState ι)
    (object : CuckooTable) (history : List (ι × Except CuckooError Unit)) : Prop where
  claims : SlotClaims calls table state
  linearized : (state.taken.map Prod.snd).Nodup → Linearized calls table state object history

theorem Simulated.quiet (two : 2 ≤ table.bucketCount)
    (simulated : Simulated calls table state object history) (taken : state.step calls client = some next)
    (quiet : decidesInsert calls state client = false) : Simulated calls table next object history := by
  have effect := rawEffect_of_step taken
  refine ⟨simulated.claims.effect effect, ?_⟩
  cases effect with
  | reject found zero => simp [decidesInsert, found, zero] at quiet
  | start found nonzero =>
    intro distinct
    have linearized := simulated.linearized distinct
    refine linearized.idle (by simp [found]) (by simp) (by simp) (linearized.recorded.keep ?_)
    rw [found]
    rfl
  | take home found available => simp [decidesInsert, found, available] at quiet
  | refuse home found refused =>
    intro distinct
    have linearized := simulated.linearized distinct
    obtain rfl : home = .first := by
      cases home with
      | first => rfl
      | second => simp [decidesInsert, found] at quiet
    have closed := linearized.unavailable simulated.claims refused
    rw [bucketIdx_congr simulated.claims.count] at closed
    refine linearized.idle (by simp [found]) (by simp [LockFreePc.refused]) (fun _ => closed)
      (linearized.recorded.keep ?_)
    rw [found]
    rfl
  | store home field found =>
    intro distinct
    exact (simulated.linearized distinct).store simulated.claims two found distinct

theorem Simulated.decisive (two : 2 ≤ table.bucketCount)
    (simulated : Simulated calls table state object history) (taken : state.step calls client = some next)
    (decisive : decidesInsert calls state client = true) :
    Simulated calls table next (insertAlone calls object client).1
      (history ++ [(client, (insertAlone calls object client).2)]) := by
  have effect := rawEffect_of_step taken
  have claims := simulated.claims
  refine ⟨claims.effect effect, ?_⟩
  cases effect with
  | reject found zero =>
    intro distinct
    have linearized := simulated.linearized distinct
    rw [insertAlone, insertLockFree_invalid zero]
    exact linearized.idle (by simp [found]) (by simp) (by simp)
      (linearized.recorded.append (by rw [found]; rfl) rfl)
  | start found nonzero =>
    rw [decidesInsert, found] at decisive
    exact absurd (beq_iff_eq.mp decisive) nonzero
  | take home found available =>
    intro distinct
    obtain ⟨untaken, distinct⟩ := List.nodup_cons.mp distinct
    have linearized := simulated.linearized distinct
    rw [bucketIdx_congr claims.count] at untaken available
    replace untaken : (calls client).bucketIdx table home ∉ state.taken.map Prod.snd := untaken
    have unwritten := linearized.settled ((calls client).bucketIdx table home)
      fun other otherHome field storing same => untaken (by
        rw [← same]
        exact List.mem_map_of_mem (f := Prod.snd) (claims.storing other otherHome field storing))
    have slot : ∀ home, (calls client).bucketIdx object home = (calls client).bucketIdx table home :=
      bucketIdx_congr linearized.count _
    have alone : insertAlone calls object client =
        (takeSlot object (calls client) ((calls client).bucketIdx table home), .ok ()) := by
      rw [← slot]
      refine insertLockFree_take (claims.nonzero client home found) ?_ ?_
      · rw [slot, unwritten]
        exact available
      · rintro rfl
        rw [slot]
        exact linearized.refused client found
    rw [alone]
    exact linearized.take claims two found untaken
  | refuse home found refused =>
    intro distinct
    have linearized := simulated.linearized distinct
    obtain rfl : home = .second := by
      cases home with
      | first => simp [decidesInsert, found, refused] at decisive
      | second => rfl
    have alone : insertAlone calls object client = (object, .error .tableFull) := by
      refine insertLockFree_refused (claims.nonzero client _ found) fun home => ?_
      cases home with
      | first =>
        rw [bucketIdx_congr linearized.count]
        exact linearized.refused client found
      | second =>
        rw [bucketIdx_congr (linearized.count.trans claims.count.symm)]
        exact linearized.unavailable claims refused
    rw [alone]
    exact linearized.idle (by simp [found]) (by simp [LockFreePc.refused]) (by simp [LockFreePc.refused])
      (linearized.recorded.append (by rw [found]; rfl) rfl)
  | store home field found => simp [decidesInsert, found] at decisive

end Steps

/-- A sequence of calls made one after another explains a state: they are the calls that are bound to their
results, with these results, and the table is theirs wherever nobody is storing. -/
structure Explains {ι : Type} (calls : ι → InsertCall) (table : CuckooTable) (state : LockFreeState ι)
    (order : List ι) : Prop where
  recorded : Verdicts state.calls (responses (insertAlone calls) table order)
  settled : ∀ idx, (∀ client home field, state.calls client = .storing home field →
    (calls client).bucketIdx table home ≠ idx) →
    (outcome (insertAlone calls) table order).bucket idx = state.table.bucket idx

private theorem outcome_bucketCount {ι : Type} (calls : ι → InsertCall) {table : CuckooTable}
    (two : 2 ≤ table.bucketCount) (order : List ι) :
    (outcome (insertAlone calls) table order).bucketCount = table.bucketCount := by
  induction order generalizing table with
  | nil => rfl
  | cons client rest ih =>
    rw [outcome]
    rcases insertAlone_cases calls two client with ⟨idx, _, _, taken⟩ | ⟨error, failed⟩
    · rw [taken]
      exact ih (two.trans_eq (takeSlot_bucketCount table (calls client) idx).symm)
    · rw [failed]
      exact ih two

/-- A sequence that explains a state has used up one slot for every call that took one, so no slot was
taken twice. -/
theorem Explains.distinct {ι : Type} [DecidableEq ι] {calls : ι → InsertCall} {table : CuckooTable}
    {state : LockFreeState ι} {order : List ι} (explains : Explains calls table state order)
    (claims : SlotClaims calls table state) (two : 2 ≤ table.bucketCount) :
    (state.taken.map Prod.snd).Nodup := by
  have spent := card_availableSlots_outcome calls two order
  set successes := (responses (insertAlone calls) table order).filter fun entry => entry.2 = .ok ()
    with listed
  have takers : (state.taken.map Prod.fst).Perm (successes.map Prod.fst) := by
    have sub : (successes.map Prod.fst).Sublist ((responses (insertAlone calls) table order).map Prod.fst) :=
      List.Sublist.map _ List.filter_sublist
    refine (List.perm_ext_iff_of_nodup claims.once (sub.nodup explains.recorded.once)).mpr fun client => ?_
    have bound := explains.recorded.bound client (.ok ())
    simp only [List.mem_map, listed, List.mem_filter, Prod.exists, exists_and_right, exists_eq_right,
      decide_eq_true_eq, claims.verdict, ← bound]
  have lengths := takers.length_eq
  rw [List.length_map, List.length_map] at lengths
  have covered : availableSlots table ⊆
      availableSlots (outcome (insertAlone calls) table order) ∪ (state.taken.map Prod.snd).toFinset := by
    intro idx member
    rw [Finset.mem_union, List.mem_toFinset]
    by_cases taken : idx ∈ state.taken.map Prod.snd
    · exact .inr taken
    · left
      obtain ⟨bound, available⟩ := mem_availableSlots.mp member
      rw [mem_availableSlots, outcome_bucketCount calls two, explains.settled idx, claims.frame idx taken]
      · exact ⟨bound, available⟩
      · rintro client home field storing rfl
        exact taken (List.mem_map_of_mem (f := Prod.snd) (claims.storing client home field storing))
  have counted := (Finset.card_le_card covered).trans (Finset.card_union_le _ _)
  have atMost := List.toFinset_card_le (state.taken.map Prod.snd)
  rw [List.length_map] at atMost
  rw [← Multiset.coe_nodup, ← Multiset.toFinset_card_eq_card_iff_nodup]
  change (state.taken.map Prod.snd).toFinset.card = (state.taken.map Prod.snd).length
  rw [List.length_map]
  omega

/-- However the accesses of lock-free inserts are interleaved, no slot that was locked or occupied before is
touched. If no slot was found free by two calls, the calls took effect one after another in the order of
their decisions; and only then are the table and the results those of any sequence of the calls. -/
theorem lock_free_inserts_linearize_iff {ι : Type} [DecidableEq ι] (calls : ι → InsertCall)
    {table : CuckooTable} (two : 2 ≤ table.bucketCount) {accesses : List ι} {final : LockFreeState ι}
    (reached : run (LockFreeState.step calls) (.initial table) accesses = some final) :
    (∀ idx, (table.bucket idx).isAvailable = false → final.table.bucket idx = table.bucket idx) ∧
      ((final.taken.map Prod.snd).Nodup → Explains calls table final
        (decided (LockFreeState.step calls) (decidesInsert calls) (.initial table) accesses)) ∧
      ∀ order, Explains calls table final order → (final.taken.map Prod.snd).Nodup := by
  have simulated : Simulated calls table final _ _ := run_simulates
    (fun simulated taken quiet => simulated.quiet two taken quiet)
    (fun simulated taken decisive => simulated.decisive two taken decisive)
    ⟨slotClaims_initial calls table, fun _ => linearized_initial calls table⟩ reached
  have claims := simulated.claims
  refine ⟨fun idx closed => claims.frame idx fun taken => ?_, fun distinct => ?_, fun order explains => ?_⟩
  · have available := claims.available idx taken
    rw [closed] at available
    cases available
  · have linearized := simulated.linearized distinct
    exact ⟨linearized.recorded, linearized.settled⟩
  · exact explains.distinct claims two

/-- Two keys with different first homes, their accesses alternating: the second call was decided second. -/
theorem alternating_inserts_take_effect_in_order :
    let calls : Bool → InsertCall := fun second =>
      bif second then ⟨⟨3, zeros 16⟩, [8], .inline⟩ else ⟨⟨2, zeros 16⟩, [7], .inline⟩
    let table := CuckooTable.new 2 16 ⟨1, rfl⟩
    let accesses := [false, true, false, true, true, false, false, true, true, false, true, false]
    ∃ final, run (LockFreeState.step calls) (.initial table) accesses = some final ∧
      Explains calls table final [false, true] := by
  intro calls table accesses
  have slots : (run (LockFreeState.step calls) (.initial table) accesses).map
      (fun state => state.taken.map Prod.snd) = some [1, 0] := by decide +kernel
  obtain ⟨final, reached, taken⟩ := Option.map_eq_some_iff.mp slots
  have order : [false, true] =
      decided (LockFreeState.step calls) (decidesInsert calls) (.initial table) accesses := by decide +kernel
  refine ⟨final, reached, ?_⟩
  rw [order]
  exact (lock_free_inserts_linearize_iff calls (le_refl 2) reached).2.1 (taken ▸ by decide)

/-- Where both find one slot free, both succeed and the first key is gone. -/
example :
    let calls : Bool → InsertCall := fun second =>
      bif second then ⟨⟨4, zeros 16⟩, [8], .inline⟩ else ⟨⟨2, zeros 16⟩, [7], .inline⟩
    let final := run (LockFreeState.step calls) (.initial (CuckooTable.new 2 16 ⟨1, rfl⟩))
      [false, true, false, true, false, false, false, false, true, true, true, true]
    final.map (fun state => ((state.calls false, state.calls true), state.table.lookup ⟨2, zeros 16⟩)) =
      some ((.returned (.ok ()), .returned (.ok ())), none) := by
  decide +kernel

end Rdmas.Soundness
