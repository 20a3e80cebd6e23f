import Rdmas.Model.ClientRead
import Rdmas.Model.RemoteInsert

/-! # Remote reads beside remote insertions

`ClientReader::get_remote` as a machine, next to the one of `insert_remote`, on the table of one server.
Every transport READ is a step: the bucket of the first home, that of the second, the bytes of an extent.
An insertion puts its extent into the free-list region, so nobody writes where a reader looks for extents;
what a reader gets from there is up to the transport.
-/

namespace Rdmas.Model

open LittleEndian ByteMemory

def HashedKey.bucketIdx (key : HashedKey) (table : CuckooTable) : Home → ℕ
  | .first => table.h1 key.hash
  | .second => table.h2 key.hash

/-- Where a call of `get_remote` stands: before it reads a bucket, before it reads the extent of the bucket
it has matched, or at its end. -/
inductive GetPc where
  | probing (home : Home)
  | fetching (bucket : HashBucket)
  | returned (result : Except RdmaError (Option ReadResult))
deriving DecidableEq

namespace GetPc

/-- The sanity checks; the bucket count is the table's own, a power of two. -/
def start (key : HashedKey) : GetPc :=
  if key.hash = 0 then .returned (.error .invalidKey) else .probing .first

/-- The bucket is locked or another key's. -/
def missed : Home → GetPc
  | .first => .probing .second
  | .second => .returned (.ok none)

section Steps

variable (transport : Transport) (regions : RemoteRegions)

def extracted (bucket : HashBucket) : GetPc :=
  .returned (some <$> ClientReader.extractValue bucket transport regions)

/-- Only an Extent value takes another READ. -/
def matched (bucket : HashBucket) : GetPc :=
  if bucket.isInline then extracted transport regions bucket else .fetching bucket

/-- One READ of a call. -/
def step (key : HashedKey) (table : CuckooTable) : GetPc → Option GetPc
  | .probing home =>
      let bucket := table.bucket (key.bucketIdx table home)
      if !bucket.isLocked && bucket.matchesKey key.hash key.digest then
        some (matched transport regions bucket)
      else some (missed home)
  | .fetching bucket => some (extracted transport regions bucket)
  | .returned _ => none

end Steps

end GetPc

/-- The server, the insertions on it and the reads of it. -/
structure RemoteTraffic (ι κ : Type) where
  inserts : InsertState ι
  readers : κ → GetPc

inductive RemoteAccess (ι κ : Type) where
  | insert (client : ι)
  | get (reader : κ)
deriving DecidableEq, Repr

namespace RemoteTraffic

variable {ι κ : Type}

/-- No call has read anything. -/
def initial (table : CuckooTable) (region : Memory) (keys : κ → HashedKey) : RemoteTraffic ι κ :=
  ⟨.initial table region, fun reader => .start (keys reader)⟩

variable [DecidableEq ι] [DecidableEq κ]

/-- The next operation of one call. -/
def step (xxh64 : Xxh64) (calls : ι → InsertCall) (keys : κ → HashedKey)
    (transport : Transport) (regions : RemoteRegions) (state : RemoteTraffic ι κ) :
    RemoteAccess ι κ → Option (RemoteTraffic ι κ)
  | .insert client =>
      (state.inserts.step xxh64 calls client).map fun inserts => { state with inserts }
  | .get reader =>
      ((state.readers reader).step transport regions (keys reader) state.inserts.table).map
        fun pc => { state with readers := Function.update state.readers reader pc }

end RemoteTraffic

end Rdmas.Model
