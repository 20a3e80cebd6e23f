import Rdmas.Model.RemoteAlloc

/-! # Readers of remote extents

`verify_extent_checksum` of `engine/concurrency.rs`, and the machine in which any number of readers
look at extents while `allocate_remote` calls are under way. A reader makes two READs: the 32-byte header
at an offset somebody has reserved, and as many payload bytes behind it as the header says.
-/

namespace Rdmas.Model

open LittleEndian ByteMemory

/-- The header in the 32 bytes at an address. -/
def ExtentHeaderV2.load (memory : Memory) (address : ℕ) : ExtentHeaderV2 :=
  ⟨word memory 4 address, memory (address + 4), word memory 4 (address + 8),
    word memory 8 (address + 16), word memory 8 (address + 24)⟩

/-- A zero checksum is a write in progress; otherwise it has to be that of the payload. -/
def verifyExtentChecksum (xxh64 : Xxh64) (header : ExtentHeaderV2) (payload : Bytes) : Bool :=
  if header.checksum = 0 then false
  else
    let computed := xxh64 payload 0
    computed.toNat == header.checksum

/-- Where a reader stands. It remembers whose extent it reads and, for the statements about finished
allocations, whether that call had returned when the header was read. -/
inductive ExtentReaderPc (ι : Type) where
  | idle
  | haveHeader (call : ι) (offset : ℕ) (header : ExtentHeaderV2) (returned : Bool)
  | judged (call : ι) (offset : ℕ) (payload : Bytes) (accepted returned : Bool)
deriving DecidableEq, Repr

/-- The calls on the region and the readers of what they store. -/
structure ExtentReadState (ι ρ : Type) where
  alloc : AllocState ι
  readers : ρ → ExtentReaderPc ι

inductive ExtentReadLabel (ι ρ : Type) where
  | allocate (call : ι)
  | readHeader (reader : ρ) (call : ι)
  | readPayload (reader : ρ)
deriving DecidableEq, Repr

namespace ExtentReadState

variable {ι ρ : Type} [DecidableEq ι] [DecidableEq ρ]

/-- No call and no reader has started. -/
def initial (region : Memory) : ExtentReadState ι ρ := ⟨.initial region, fun _ => .idle⟩

def setReader (state : ExtentReadState ι ρ) (reader : ρ) (pc : ExtentReaderPc ι) :
    ExtentReadState ι ρ :=
  { state with readers := Function.update state.readers reader pc }

/-- One operation of a call, or one READ of a reader. A reader may start over at any time. -/
def step (xxh64 : Xxh64) (data : ι → Bytes) (state : ExtentReadState ι ρ) :
    ExtentReadLabel ι ρ → Option (ExtentReadState ι ρ)
  | .allocate call => (state.alloc.step xxh64 data call).map fun alloc => { state with alloc }
  | .readHeader reader call =>
      (state.alloc.calls call).granted.map fun offset =>
        state.setReader reader (.haveHeader call offset (.load state.alloc.region offset)
          (state.alloc.calls call == .finished offset))
  | .readPayload reader =>
      match state.readers reader with
      | .haveHeader call offset header returned =>
          let payload := ByteMemory.read state.alloc.region (offset + headerSize) header.dataLen
          some (state.setReader reader (.judged call offset payload
            (verifyExtentChecksum xxh64 header payload) returned))
      | _ => none

end ExtentReadState

end Rdmas.Model
