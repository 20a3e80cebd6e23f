import Rdmas.Model.CuckooLockFree
import Rdmas.Model.RemoteInsert

/-! # Lock-free inserts beside each other

`insert_lock_free` of `engine/cuckoo.rs` as it runs beside other calls of itself. The copy of the bucket
that `try_cas_insert` inspects is one step, and so is every field that `write_bucket_raw` stores; the steps
of any number of calls may be interleaved. No word is swapped, so that between the copy and the stores
another call may find the same slot free.
-/

namespace Rdmas.Model

open FixedBytes

/-- The fields of a bucket in the order in which the raw writer stores them. -/
inductive BucketField where
  | lockVersion
  | keyHash
  | keyOrDigest
  | body
deriving DecidableEq, Repr

/-- The field stored after one. The body of an Extent bucket is left to the caller. -/
def BucketField.next (mode : BucketMode) : BucketField → Option BucketField
  | .lockVersion => some .keyHash
  | .keyHash => some .keyOrDigest
  | .keyOrDigest =>
      match mode with
      | .inline => some .body
      | .extent => none
  | .body => none

/-- Store one field of a call's entry. -/
def HashBucket.storeField (bucket : HashBucket) (call : InsertCall) : BucketField → HashBucket
  | .lockVersion => { bucket with lockVersion := call.mode.toU64 <<< 2 }
  | .keyHash => { bucket with keyHash := call.key.hash }
  | .keyOrDigest => { bucket with keyOrDigest := call.key.digest }
  | .body => bucket.setInlineValue (copyFromSlice (zeros 32) 0 (call.value.take (min call.value.length 32)))

/-- Where a call stands. -/
inductive LockFreePc where
  | start
  | probing (home : Home)
  | storing (home : Home) (field : BucketField)
  | returned (result : Except CuckooError Unit)
deriving DecidableEq

/-- `try_cas_insert` returned `false`. -/
def LockFreePc.refused : Home → LockFreePc
  | .first => .probing .second
  | .second => .returned (.error .tableFull)

/-- What follows the store of a field. -/
def LockFreePc.stored (mode : BucketMode) (home : Home) (field : BucketField) : LockFreePc :=
  match field.next mode with
  | some later => .storing home later
  | none => .returned (.ok ())

/-- The slots `try_cas_insert` takes. -/
def HashBucket.isAvailable (bucket : HashBucket) : Bool :=
  !bucket.isLocked && (bucket.isEmpty || bucket.isTombstone)

/-- The table and the calls on it. For the statements the slots that were found free are listed with the
calls that found them, the latest first. -/
structure LockFreeState (ι : Type) where
  table : CuckooTable
  calls : ι → LockFreePc
  taken : List (ι × ℕ)

namespace LockFreeState

variable {ι : Type} [DecidableEq ι]

/-- No call has started. -/
def initial (table : CuckooTable) : LockFreeState ι := ⟨table, fun _ => .start, []⟩

def setCall (state : LockFreeState ι) (client : ι) (pc : LockFreePc) : LockFreeState ι :=
  { state with calls := Function.update state.calls client pc }

/-- The next access of one call. -/
def step (calls : ι → InsertCall) (state : LockFreeState ι) (client : ι) : Option (LockFreeState ι) :=
  let call := calls client
  match state.calls client with
  | .start =>
      if call.key.hash = 0 then some (state.setCall client (.returned (.error .invalidKey)))
      else some (state.setCall client (.probing .first))
  | .probing home =>
      let idx := call.bucketIdx state.table home
      if (state.table.bucket idx).isAvailable then
        some { state.setCall client (.storing home .lockVersion) with
          taken := (client, idx) :: state.taken }
      else some (state.setCall client (.refused home))
  | .storing home field =>
      let idx := call.bucketIdx state.table home
      some { state.setCall client (.stored call.mode home field) with
        table := state.table.setBucket idx ((state.table.bucket idx).storeField call field) }
  | .returned _ => none

end LockFreeState

end Rdmas.Model
