import Rdmas.Model.ClientRead
import Rdmas.Model.ClientWrite

/-! # Batched client writes

`OptimizedClientReader` and `BatchBuilder` of `client/opt.rs`. A builder keeps writes until it is flushed; it
does not flush by itself when it is full.
-/

namespace Rdmas.Model

open LittleEndian

namespace OptimizedClientReader

/-- `ClientReader::get` with its errors taken for misses. -/
def getFast (key : HashedKey) (buckets : List HashBucket) (largeObjects : Option LargeObjectRegion)
    (bucketCount : ℕ) : Option (Bytes × BucketMode) :=
  match ClientReader.get key buckets largeObjects bucketCount with
  | .ok (some result) => some (result.value, result.mode)
  | _ => none

end OptimizedClientReader

structure BatchBuilder where
  pending : List InsertCall
  maxBatch : ℕ
deriving DecidableEq, Repr

namespace BatchBuilder

def new (maxBatch : ℕ) : BatchBuilder := ⟨[], maxBatch⟩

def add (builder : BatchBuilder) (call : InsertCall) : BatchBuilder :=
  { builder with pending := builder.pending ++ [call] }

/-- Insert writes one after the other, counting those reported as inserted. -/
def insertPending (bucketCount : ℕ) : List InsertCall → ClientMemory → ℕ → ClientMemory × ℕ
  | [], memory, success => (memory, success)
  | call :: pending, memory, success =>
      match ClientWriter.insert call memory bucketCount with
      | (memory, .ok (.inserted _)) => insertPending bucketCount pending memory (success + 1)
      | (memory, _) => insertPending bucketCount pending memory success

/-- Flush all pending writes; returns how many succeeded. -/
def flushLocal (builder : BatchBuilder) (memory : ClientMemory) (bucketCount : ℕ) :
    BatchBuilder × ClientMemory × ℕ :=
  ({ builder with pending := [] }, insertPending bucketCount builder.pending memory 0)

end BatchBuilder

end Rdmas.Model
