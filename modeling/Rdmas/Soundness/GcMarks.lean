import Rdmas.Soundness.PackedRegion

/-! # Marks and payloads

`mark_for_gc` takes whatever decodes as a header for an extent and writes eight bytes behind it. On an
allocated extent these bytes are the mark of a V2 header, or the magic of a V1 header; on any other offset
they belong to someone else. Offset 16 before a V2 extent always decodes, as a V1 header. The runs in
which no mark does harm are characterised by a condition on each mark and the bytes it meets.
-/

namespace Rdmas.Soundness

open Rdmas.Model LittleEndian ByteMemory Tiling Runs

/-- One call on a region. A call that panics has no successor; a sweep goes over any enumeration of the
allocated set. -/
def regionStep (xxh64 : Xxh64) (region : LargeObjectRegion) : RegionOp → Option LargeObjectRegion
  | .allocate data => some (region.allocate data).1
  | .writeExtentV1 data => some (region.writeExtentV1 data).1
  | .writeExtentV2Checksummed data => some (region.writeExtentV2Checksummed xxh64 data).1
  | .free offset => (region.checkedFree offset).map Prod.fst
  | .markForGc offset epoch => (region.checkedMarkForGc offset epoch).map Prod.fst
  | .sweep minActiveEpoch order =>
      if order.Nodup ∧ order.toFinset = region.allocated then
        some (region.sweep minActiveEpoch order).1
      else none

/-- The epoch does not change how the header is read: its low half is not the magic of a V1 header, or is
that of the V1 header it falls on. The latter does not matter if the length of the V1 extent makes a V2
magic of version 0. -/
def EpochFits (region : LargeObjectRegion) (offset : ℕ) (epoch : BitVec 64) (decoded : DecodedHeader) :
    Prop :=
  if decoded.isV2 then epoch.toNat % 2 ^ 32 ≠ extentMagic
  else epoch.toNat % 2 ^ 32 = extentMagic ∨
    word region.buffer 4 offset = extentMagic ∧ region.buffer (offset + 4) = 0

/-- A mark that does no harm: the end of its header is a 64-bit number, and if the bytes at its offset
decode as a header then they are the header of an allocated extent that the epoch fits. -/
def HarmlessMark (region : LargeObjectRegion) : RegionOp → Prop
  | .markForGc offset epoch => offset + 24 < 2 ^ 64 ∧
      ∀ decoded ∈ region.readDecodedHeader offset, decoded.magic = extentMagic →
        offset ∈ region.allocated ∧ EpochFits region offset epoch decoded
  | _ => True

instance (region : LargeObjectRegion) (offset : ℕ) (epoch : BitVec 64) (decoded : DecodedHeader) :
    Decidable (EpochFits region offset epoch decoded) :=
  inferInstanceAs (Decidable (ite _ _ _))

instance (region : LargeObjectRegion) : (op : RegionOp) → Decidable (HarmlessMark region op)
  | .allocate _ => inferInstanceAs (Decidable True)
  | .writeExtentV1 _ => inferInstanceAs (Decidable True)
  | .writeExtentV2Checksummed _ => inferInstanceAs (Decidable True)
  | .free _ => inferInstanceAs (Decidable True)
  | .markForGc _ _ => inferInstanceAs (Decidable (_ ∧ ∀ decoded ∈ _, _))
  | .sweep _ _ => inferInstanceAs (Decidable True)

/-- A mark returns, and leaves what is read of every allocated extent; of anything but an allocated extent
it is refused and leaves the whole buffer. -/
def TouchesNoPayload (region : LargeObjectRegion) : RegionOp → Prop
  | .markForGc offset epoch => ∃ marked outcome,
      region.checkedMarkForGc offset epoch = some (marked, outcome) ∧
      (∀ other ∈ region.allocated, marked.read other = region.read other) ∧
      (offset ∉ region.allocated → (∃ error, outcome = .error error) ∧ marked.buffer = region.buffer)
  | _ => True

section Marks

variable {region : LargeObjectRegion} {offset : ℕ} {epoch : BitVec 64} {decoded : DecodedHeader}

/-- The region with an epoch written behind an offset. -/
def marked (region : LargeObjectRegion) (offset : ℕ) (epoch : BitVec 64) : LargeObjectRegion :=
  { region with buffer := write region.buffer (offset + 16) (encode 8 epoch.toNat) }

theorem markForGc_of_header (decodes : region.readDecodedHeader offset = some decoded)
    (magic : decoded.magic = extentMagic) :
    region.markForGc offset epoch = (marked region offset epoch, .ok ()) := by
  have inside := (decoded_bounds decodes magic).1
  have room := (le_totalLen decoded).1
  simp only [LargeObjectRegion.markForGc, decodes]
  rw [if_neg (not_not_intro magic), if_pos (by omega)]
  rfl

/-- What does not decode as a header is refused. -/
theorem markForGc_refused (epoch : BitVec 64)
    (foreign : ∀ decoded ∈ region.readDecodedHeader offset, decoded.magic ≠ extentMagic) :
    ∃ error, region.markForGc offset epoch = (region, .error error) := by
  simp only [LargeObjectRegion.markForGc]
  cases decodes : region.readDecodedHeader offset with
  | none => exact ⟨_, rfl⟩
  | some decoded =>
    simp only [if_pos (foreign decoded decodes)]
    exact ⟨_, rfl⟩

private theorem checkedMarkForGc_eq_none (wraps : 2 ^ 64 ≤ offset + 24) :
    region.checkedMarkForGc offset epoch = none := by
  rw [LargeObjectRegion.checkedMarkForGc, checkedReadDecodedHeader_eq_none wraps]
  rfl

section Words

private theorem word_marked_low :
    word (marked region offset epoch).buffer 4 (offset + 16) = epoch.toNat % 2 ^ 32 := by
  rw [word_eq_mod (show 4 ≤ 8 by decide), marked, word_write epoch.isLt]
  rfl

private theorem word_marked_before {width address : ℕ} (before : address + width ≤ offset + 16) :
    word (marked region offset epoch).buffer width address = word region.buffer width address :=
  word_write_outside (.inl before)

private theorem marked_before {address : ℕ} (before : address < offset + 16) :
    (marked region offset epoch).buffer address = region.buffer address :=
  write_outside (.inl before)

private theorem read_marked_behind {address length : ℕ} (behind : offset + 24 ≤ address) :
    ByteMemory.read (marked region offset epoch).buffer address length =
      ByteMemory.read region.buffer address length :=
  read_write_outside (.inr (by rw [encode_length]; omega))

end Words

/-- A mark that only changes the mark of the header spares its extent. -/
theorem spared_of_marked (mark : ℕ) (decodes : region.readDecodedHeader offset = some decoded)
    (after : (marked region offset epoch).readDecodedHeader offset =
      some { decoded with epochMark := mark }) :
    Spared region (marked region offset epoch) offset := by
  have room := (le_totalLen decoded).1
  have size : (marked region offset epoch).size = region.size := rfl
  refine ⟨⟨decoded, mark, decodes, after⟩, ?_, ?_⟩
  · have data : ByteMemory.read (marked region offset epoch).buffer (offset + decoded.headerSize)
        decoded.dataLen = ByteMemory.read region.buffer (offset + decoded.headerSize) decoded.dataLen :=
      read_marked_behind (by omega)
    simp only [LargeObjectRegion.read, decodes, after, size, Option.bind_eq_bind, Option.bind_some]
    rw [← data]
    rfl
  · have checksum : word (marked region offset epoch).buffer 8 (offset + 24) =
        word region.buffer 8 (offset + 24) := congrArg decode (read_marked_behind le_rfl)
    simp only [LargeObjectRegion.readChecksum, decodes, after, size, Option.bind_eq_bind,
      Option.bind_some, checksum]

/-- A mark that fits spares its extent. -/
theorem spared_marked (decodes : region.readDecodedHeader offset = some decoded)
    (magic : decoded.magic = extentMagic) (fits : EpochFits region offset epoch decoded) :
    Spared region (marked region offset epoch) offset := by
  rw [EpochFits] at fits
  rcases header_of_decodes decodes magic with ⟨legacy, rfl⟩ | ⟨modern, rfl⟩
  · have still : LegacyHeader (marked region offset epoch) offset := by
      refine ⟨legacy.room, fits.imp (fun low => word_marked_low.trans low) fun version => ?_⟩
      rw [word_marked_before (by omega), marked_before (by omega)]
      exact version
    refine spared_of_marked (word region.buffer 8 (offset + 8)) decodes (still.decodes.trans ?_)
    rw [word_marked_before (by omega), word_marked_before (by omega)]
  · have still : ModernHeader (marked region offset epoch) offset := by
      refine ⟨modern.room, ?_, ?_, ?_⟩
      · rw [word_marked_low]
        exact fits
      · rw [word_marked_before (by omega)]
        exact modern.magic
      · rw [marked_before (by omega)]
        exact modern.version
    refine spared_of_marked (word (marked region offset epoch).buffer 8 (offset + 16)) decodes
      (still.decodes.trans ?_)
    rw [word_marked_before (by omega)]

/-- What is read has a header, and the length it says. -/
theorem header_of_read {data : Bytes} (reads : region.read offset = some data) :
    ∃ decoded, region.readDecodedHeader offset = some decoded ∧ decoded.magic = extentMagic ∧
      data.length = decoded.dataLen := by
  simp only [LargeObjectRegion.read, Option.bind_eq_bind] at reads
  obtain ⟨decoded, decodes, reads⟩ := Option.bind_eq_some_iff.mp reads
  split at reads
  · cases reads
  · next magic =>
      split at reads
      · cases reads
      · cases reads
        exact ⟨decoded, decodes, not_not.mp magic, read_length _ _ _⟩

/-- A mark that does not fit makes its extent unreadable, or changes the length that is read. -/
theorem read_marked_ne (packed : Packed region) (member : offset ∈ region.allocated)
    (decodes : region.readDecodedHeader offset = some decoded) (magic : decoded.magic = extentMagic)
    (misfits : ¬ EpochFits region offset epoch decoded) :
    (marked region offset epoch).read offset ≠ region.read offset := by
  intro same
  rw [packed.read_eq member decodes magic] at same
  obtain ⟨later, laterDecodes, laterMagic, length⟩ := header_of_read same
  rw [read_length] at length
  have first : word (marked region offset epoch).buffer 8 offset = word region.buffer 8 offset :=
    word_marked_before (by omega)
  have short : ∀ memory, word memory 4 (offset + 8) < 2 ^ 32 := fun memory => word_lt memory 4 _
  rw [EpochFits] at misfits
  rcases header_of_decodes decodes magic with ⟨legacy, rfl⟩ | ⟨modern, rfl⟩
  · simp only [Bool.false_eq_true, if_false, not_or] at misfits
    rcases header_of_decodes laterDecodes laterMagic with ⟨still, rfl⟩ | ⟨turned, rfl⟩
    · rcases still.magic with low | ⟨word, version⟩
      · exact misfits.1 (word_marked_low.symm.trans low)
      · rw [word_marked_before (by omega)] at word
        rw [marked_before (by omega)] at version
        exact misfits.2 ⟨word, version⟩
    · have long := RegionState.le_word_of_version turned.version
      have := short (marked region offset epoch).buffer
      simp only at length
      omega
  · simp only [if_true, not_not] at misfits
    rcases header_of_decodes laterDecodes laterMagic with ⟨turned, rfl⟩ | ⟨still, rfl⟩
    · have long := RegionState.le_word_of_version modern.version
      have := short region.buffer
      simp only at length
      omega
    · exact still.unmistakable (word_marked_low.trans misfits)

/-- A mark of an allocated extent that fits spares every extent. -/
theorem Packed.spared_marked (packed : Packed region) (member : offset ∈ region.allocated)
    (decodes : region.readDecodedHeader offset = some decoded) (magic : decoded.magic = extentMagic)
    (fits : EpochFits region offset epoch decoded) (other : ℕ) (otherMember : other ∈ region.allocated) :
    Spared region (marked region offset epoch) other := by
  by_cases own : other = offset
  · subst own
    exact Soundness.spared_marked decodes magic fits
  · have room := le_totalLen decoded
    refine packed.spared member otherMember own rfl fun query missed => ?_
    rw [extentRange_of_decodes decodes] at missed
    simp only [Contains] at missed
    exact write_outside (by rw [encode_length]; omega)

end Marks

section Steps

variable {xxh64 : Xxh64} {region next : LargeObjectRegion} {op : RegionOp}
variable {offset : ℕ} {epoch : BitVec 64} {decoded : DecodedHeader}

/-- A harmless mark either is one of an allocated extent, and spares every extent, or is refused. -/
theorem Packed.mark_cases (packed : Packed region)
    (harmless : ∀ decoded ∈ region.readDecodedHeader offset, decoded.magic = extentMagic →
      offset ∈ region.allocated ∧ EpochFits region offset epoch decoded) :
    (offset ∈ region.allocated ∧ region.markForGc offset epoch = (marked region offset epoch, .ok ()) ∧
        ∀ other ∈ region.allocated, Spared region (marked region offset epoch) other) ∨
      ∃ error, region.markForGc offset epoch = (region, .error error) := by
  by_cases header : ∃ decoded, region.readDecodedHeader offset = some decoded ∧
      decoded.magic = extentMagic
  · obtain ⟨decoded, decodes, magic⟩ := header
    obtain ⟨member, fits⟩ := harmless decoded decodes magic
    exact .inl ⟨member, markForGc_of_header decodes magic,
      packed.spared_marked member decodes magic fits⟩
  · exact .inr (markForGc_refused epoch fun decoded decodes magic => header ⟨decoded, decodes, magic⟩)

/-- In a packed region a mark touches no payload exactly if it is harmless. -/
theorem Packed.touchesNoPayload_iff (packed : Packed region) :
    TouchesNoPayload region op ↔ HarmlessMark region op := by
  cases op with
  | allocate | writeExtentV1 | writeExtentV2Checksummed | free | sweep => exact Iff.rfl
  | markForGc offset epoch =>
    simp only [TouchesNoPayload, HarmlessMark]
    constructor
    · rintro ⟨after, outcome, returned, reads, refused⟩
      have fits : offset + 24 < 2 ^ 64 := by
        by_contra wraps
        rw [checkedMarkForGc_eq_none (Nat.not_lt.mp wraps)] at returned
        cases returned
      rw [checkedMarkForGc_of_lt packed.small fits, Option.some.injEq] at returned
      refine ⟨fits, fun decoded decodes magic => ?_⟩
      rw [markForGc_of_header decodes magic] at returned
      obtain ⟨rfl, rfl⟩ := Prod.mk.inj returned
      have member : offset ∈ region.allocated := by
        by_contra missing
        obtain ⟨⟨_, accepted⟩, _⟩ := refused missing
        cases accepted
      refine ⟨member, ?_⟩
      by_contra misfits
      exact read_marked_ne packed member decodes magic misfits (reads offset member)
    · rintro ⟨fits, harmless⟩
      refine ⟨(region.markForGc offset epoch).1, (region.markForGc offset epoch).2,
        checkedMarkForGc_of_lt packed.small fits epoch, ?_⟩
      rcases packed.mark_cases harmless with ⟨member, wrote, spared⟩ | ⟨error, unchanged⟩
      · rw [wrote]
        exact ⟨fun other otherMember => (spared other otherMember).read,
          fun missing => absurd member missing⟩
      · rw [unchanged]
        exact ⟨fun _ _ => rfl, fun _ => ⟨⟨error, rfl⟩, rfl⟩⟩

/-- An allocated extent of a packed region is freed without a wrap. -/
theorem Packed.checkedFree_eq (packed : Packed region) (offset : ℕ) :
    region.checkedFree offset = some (region.free offset) := by
  by_cases member : offset ∈ region.allocated
  · refine checkedFree_of_sumsFit packed.small ?_
    obtain ⟨decoded, decodes, magic⟩ := packed.headers offset member
    have inside := packed.inside member decodes
    have fits := packed.fits
    have small := packed.small
    have room := le_totalLen decoded
    refine ⟨by omega, fun other found _ => ?_⟩
    obtain rfl := Option.some.inj (decodes.symm.trans found)
    omega
  · rw [LargeObjectRegion.checkedFree, LargeObjectRegion.free, if_pos member, if_pos member]
    rfl

/-- A harmless call keeps the region packed and spares what stays allocated. -/
theorem Packed.step (packed : Packed region) (harmless : HarmlessMark region op)
    (taken : regionStep xxh64 region op = some next) :
    Packed next ∧ ∀ other ∈ region.allocated, other ∈ next.allocated → Spared region next other := by
  cases op with
  | allocate data =>
    cases taken
    obtain ⟨still, spared⟩ := packed.allocate data
    exact ⟨still, fun other member _ => spared other member⟩
  | writeExtentV1 data =>
    cases taken
    obtain ⟨still, spared⟩ := packed.writeExtentV1 data
    exact ⟨still, fun other member _ => spared other member⟩
  | writeExtentV2Checksummed data =>
    cases taken
    obtain ⟨still, spared⟩ := packed.writeExtentV2Checksummed xxh64 data
    exact ⟨still, fun other member _ => spared other member⟩
  | free offset =>
    rw [regionStep, packed.checkedFree_eq] at taken
    cases taken
    exact packed.free offset
  | markForGc offset epoch =>
    obtain ⟨fits, harmless⟩ := harmless
    rw [regionStep, checkedMarkForGc_of_lt packed.small fits] at taken
    cases taken
    rcases packed.mark_cases harmless with ⟨member, wrote, spared⟩ | ⟨error, unchanged⟩
    · rw [wrote]
      exact ⟨packed.of_spared rfl spared, fun other otherMember _ => spared other otherMember⟩
    · rw [unchanged]
      exact ⟨packed, fun other member _ => packed.spared_self member⟩
  | sweep minActiveEpoch order =>
    simp only [regionStep, Option.ite_none_right_eq_some, Option.some.injEq] at taken
    obtain ⟨⟨distinct, enumerates⟩, rfl⟩ := taken
    refine packed.sweep minActiveEpoch distinct fun offset member => ?_
    rw [← enumerates]
    exact List.mem_toFinset.mpr member

/-- Regions reached by harmless calls are packed. -/
theorem packed_of_run {size : ℕ} (small : size < 2 ^ 63) {ops : List RegionOp}
    (harmless : Throughout (regionStep xxh64) HarmlessMark (.new size) ops)
    (reached : run (regionStep xxh64) (.new size) ops = some region) : Packed region :=
  harmless.invariant (fun packed harmless taken => (packed.step harmless taken).1) (packed_new small)
    reached

end Steps

/-- In every run of calls on a fresh region, every mark touches no payload exactly when every mark of the
run is harmless at its turn. -/
theorem marks_touch_no_payload_iff (xxh64 : Xxh64) (size : ℕ) (small : size < 2 ^ 63) (ops : List RegionOp) :
    Throughout (regionStep xxh64) TouchesNoPayload (.new size) ops ↔
      Throughout (regionStep xxh64) HarmlessMark (.new size) ops :=
  throughout_congr (fun packed => packed.touchesNoPayload_iff)
    (fun packed harmless taken => (packed.step harmless taken).1) (packed_new small)

/-- Marks of a V2 extent, of a V1 extent with an epoch whose low half is the magic, of an offset inside a
payload and of one far behind the buffer. -/
theorem marks_of_run_touch_no_payload :
    Throughout (regionStep fun _ _ => 0) TouchesNoPayload (.new 128)
      [.allocate [1, 2, 3], .writeExtentV1 [4], .markForGc 0 5, .markForGc 40 0x152444D41,
        .markForGc 33 5, .markForGc 0x123456789ABCDEF 5] :=
  (marks_touch_no_payload_iff (fun _ _ => 0) 128 (by decide) _).mpr (by decide +kernel)

/-- The offset 16 bytes before an allocated extent is no extent, but decodes as a V1 header by the magic of
the extent. Its mark is accepted and overwrites the header of the extent, which is then unreadable. -/
theorem mark_before_extent_destroys_it :
    let region := (RegionState.run (fun _ _ => 0) (.fresh 128) [.allocate [1], .allocate [2]]).region
    let after := region.markForGc 24 5
    region.allocated = {0, 40} ∧ after.2 = .ok () ∧ region.read 40 = some [2] ∧
      after.1.read 40 = none := by
  intro region after
  refine ⟨?_, ?_, ?_, ?_⟩
  · decide +kernel
  · decide +kernel
  · decide +kernel
  · decide +kernel

end Rdmas.Soundness
