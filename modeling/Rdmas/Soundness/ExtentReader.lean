import Rdmas.Model.ExtentReader
import Rdmas.Soundness.ExtentRecords
import Rdmas.Soundness.RemoteAlloc

/-! # Half-written extents are never accepted

A call writes its header with a zero checksum, then the payload, then the checksum, all inside the range
its swap reserved. What lies at a reserved offset is therefore determined by how far its call has come:
nothing, the header with a zero checksum, or the finished header in front of the payload. A reader whose
header carries a checksum looks at an extent that no longer changes.
-/

namespace Rdmas.Soundness

open Rdmas.Model LittleEndian ByteMemory Tiling Runs Function

variable {xxh64 : Xxh64}

/-- The header that lies at the offset of a call. -/
def headerOf (xxh64 : Xxh64) (data : Bytes) : AllocPc → ExtentHeaderV2
  | .headerWritten _ | .payloadWritten _ => ⟨extentMagic, 1, data.length, 0, 0⟩
  | .finished _ => ⟨extentMagic, 1, data.length, 0, (xxh64 data 0).toNat⟩
  | _ => ⟨0, 0, 0, 0, 0⟩

section Load

variable {memory other : Memory} {offset : ℕ}

/-- A header depends on its 32 bytes only. -/
theorem load_congr (same : ∀ query, offset ≤ query → query < offset + headerSize →
      memory query = other query) :
    ExtentHeaderV2.load memory offset = ExtentHeaderV2.load other offset := by
  have words : ∀ skip width, skip + width ≤ headerSize →
      word memory width (offset + skip) = word other width (offset + skip) := by
    intro skip width bound
    exact congrArg decode (read_congr fun query lower upper => same query (by omega) (by omega))
  simp only [ExtentHeaderV2.load, words 8 4 (by decide), words 16 8 (by decide),
    words 24 8 (by decide), same (offset + 4) (by omega) (by simp only [headerSize]; omega),
    show word memory 4 offset = word other 4 offset from words 0 4 (by decide)]

/-- A header that was just written is read back, its fields cut to their widths. -/
theorem load_write (memory : Memory) (offset : ℕ) (header : ExtentHeaderV2) :
    ExtentHeaderV2.load (write memory offset header.toBytes) offset =
      ⟨header.magic % 2 ^ 32, header.version, header.dataLen % 2 ^ 32, header.epochMark % 2 ^ 64,
        header.checksum % 2 ^ 64⟩ := by
  obtain ⟨magic, version, length, epoch, checksum⟩ := ExtentRecord.words_of_header memory offset header
  simp only [ExtentHeaderV2.load, magic, version, length, epoch, checksum]

/-- Storing the checksum changes that field alone. -/
theorem load_write_checksum (memory : Memory) (offset : ℕ) (checksum : BitVec 64) :
    ExtentHeaderV2.load (write memory (offset + 24) (encode 8 checksum.toNat)) offset =
      { ExtentHeaderV2.load memory offset with checksum := checksum.toNat } := by
  have stored : word (write memory (offset + 24) (encode 8 checksum.toNat)) 8 (offset + 24) =
      checksum.toNat := word_write checksum.isLt
  simp only [ExtentHeaderV2.load, stored]
  rw [word_write_outside (.inl (by omega)), word_write_outside (.inl (by omega)),
    word_write_outside (.inl (by omega)), write_outside (.inl (by omega))]

private theorem load_zero (zero : ∀ query, offset ≤ query → memory query = 0) :
    ExtentHeaderV2.load memory offset = ⟨0, 0, 0, 0, 0⟩ := by
  have words : ∀ skip width, word memory width (offset + skip) = 0 :=
    fun skip width => word_of_zero fun query lower _ => zero query (by omega)
  simp only [ExtentHeaderV2.load, words, zero (offset + 4) (by omega),
    show word memory 4 offset = 0 from words 0 4]

end Load

section Headers

variable {ι : Type} [DecidableEq ι] {data : ι → Bytes} {state next : AllocState ι} {call : ι}

/-- The region is zero beyond the bump offset, and at every reserved offset lies the header that its
call has got to. -/
structure Headed (xxh64 : Xxh64) (data : ι → Bytes) (state : AllocState ι) :
    Prop where
  fresh : ∀ address, bumpOffset state.region ≤ address → state.region address = 0
  header : ∀ call offset, (state.calls call).granted = some offset →
    ExtentHeaderV2.load state.region offset = headerOf xxh64 (data call) (state.calls call)

omit [DecidableEq ι] in
private theorem headed_initial {region : Memory}
    (zero : ∀ address, bumpOffset region ≤ address → region address = 0) :
    Headed xxh64 data (.initial region) where
  fresh := zero
  header _ _ found := nomatch found

/-- What the next write of a call leaves at its own offset. -/
theorem load_pendingWrite {region : Memory} {bytes payload : Bytes} {pc pc' : AllocPc}
    {offset address : ℕ} (short : payload.length < 2 ^ 32)
    (pending : pc.pendingWrite xxh64 payload = some (address, bytes, pc'))
    (granted : pc.granted = some offset)
    (before : ExtentHeaderV2.load region offset = headerOf xxh64 payload pc) :
    ExtentHeaderV2.load (write region address bytes) offset = headerOf xxh64 payload pc' := by
  cases pc with
  | start | haveOld | finished | casFailed => cases pending
  | reserved =>
    cases pending
    cases granted
    have magic : extentMagic % 2 ^ 32 = extentMagic := Nat.mod_eq_of_lt (by decide)
    rw [load_write]
    simp only [headerOf, magic, Nat.mod_eq_of_lt short, Nat.zero_mod]
  | headerWritten =>
    cases pending
    cases granted
    exact (load_congr fun query _ upper => write_outside (.inl upper)).trans before
  | payloadWritten =>
    cases pending
    cases granted
    rw [load_write_checksum, before]
    rfl

/-- A swap that succeeds leaves everything behind the bump word as it was. -/
theorem Headed.reserve {base : ℕ} (behind : 64 ≤ base) (partitioned : Partitioned data base state)
    (headed : Headed xxh64 data state) (found : state.calls call = .haveOld (bumpOffset state.region))
    (below : BelowLimit data state call) :
    Headed xxh64 data (reserveNext data state call) := by
  have bump := bumpOffset_reserve found below
  have ordered := partitioned.ordered
  have same : ∀ query, base ≤ query → (reserveNext data state call).region query = state.region query :=
    fun query lower => write_outside (.inr (by rw [encode_length]; omega))
  refine ⟨fun address beyond => ?_, fun other offset granted => ?_⟩
  · rw [bump] at beyond
    exact (same address (by omega)).trans (headed.fresh address (by omega))
  · simp only [reserveNext, update_apply] at granted ⊢
    split
    · next isCall =>
        rw [if_pos isCall] at granted
        cases granted
        exact load_zero fun query lower =>
          (same query (by omega)).trans (headed.fresh query lower)
    · next differs =>
        rw [if_neg differs] at granted
        have room := partitioned.inside other offset granted
        exact (load_congr fun query lower _ => same query (by omega)).trans
          (headed.header other offset granted)

/-- A write of a call brings its own header forward and leaves the others alone. -/
theorem Headed.write {base : ℕ} (behind : 64 ≤ base) (partitioned : Partitioned data base state)
    (headed : Headed xxh64 data state) (short : (data call).length < 2 ^ 32)
    {address : ℕ} {bytes : Bytes} {pc : AllocPc}
    (pending : (state.calls call).pendingWrite xxh64 (data call) = some (address, bytes, pc)) :
    Headed xxh64 data ⟨ByteMemory.write state.region address bytes,
      update state.calls call pc⟩ := by
  obtain ⟨offset, granted, stays, lower, upper⟩ := pendingWrite_inside pending
  have room := partitioned.inside call offset granted
  have bump : bumpOffset (ByteMemory.write state.region address bytes) = bumpOffset state.region :=
    word_write_outside (.inl (by omega))
  refine ⟨fun query beyond => ?_, fun other otherOffset held => ?_⟩
  · rw [bump] at beyond
    exact (write_outside (.inr (by omega))).trans (headed.fresh query beyond)
  · simp only [update_apply] at held ⊢
    split
    · next isCall =>
        subst isCall
        rw [if_pos rfl, stays, Option.some.injEq] at held
        subst held
        exact load_pendingWrite short pending granted (headed.header other offset granted)
    · next differs =>
        rw [if_neg differs] at held
        have otherRoom := le_extentTotal (data other).length
        rw [load_congr fun query first last =>
          partitioned.write_frame pending differs held ⟨first, by simp only; omega⟩]
        exact headed.header other otherOffset held

theorem Headed.step {base : ℕ} (behind : 64 ≤ base) (partitioned : Partitioned data base state)
    (headed : Headed xxh64 data state) (short : (data call).length < 2 ^ 32)
    (below : BelowLimit data state call) (taken : state.step xxh64 data call = some next) :
    Headed xxh64 data next := by
  rcases alloc_step_cases taken with
    ⟨pc, before, after, _, rfl⟩ | ⟨found, rfl⟩ | ⟨address, bytes, pc, pending, rfl⟩
  · refine ⟨headed.fresh, fun other offset held => ?_⟩
    simp only [update_apply] at held ⊢
    split
    · next isCall =>
        rw [if_pos isCall, after] at held
        cases held
    · next differs =>
        rw [if_neg differs] at held
        exact headed.header other offset held
  · exact headed.reserve behind partitioned found below
  · exact headed.write behind partitioned short pending

/-- A call that has returned makes no further step. -/
theorem finished_of_step (taken : state.step xxh64 data call = some next) {other : ι} {offset : ℕ}
    (finished : state.calls other = .finished offset) : next.calls other = .finished offset := by
  obtain ⟨⟨region, pc⟩, moved, rfl⟩ := Option.map_eq_some_iff.mp taken
  have differs : other ≠ call := by
    rintro rfl
    rw [finished] at moved
    cases moved
  exact (update_of_ne differs _ _).trans finished

/-- A reserved offset stays reserved. -/
theorem granted_stays (taken : state.step xxh64 data call = some next) {other : ι} {offset : ℕ}
    (granted : (state.calls other).granted = some offset) :
    (next.calls other).granted = some offset := by
  rcases alloc_step_cases taken with
    ⟨pc, before, after, _, rfl⟩ | ⟨found, rfl⟩ | ⟨address, bytes, pc, pending, rfl⟩
  · exact (granted_update (after.trans before.symm) other).trans granted
  · have differs : other ≠ call := by
      rintro rfl
      rw [found] at granted
      cases granted
    exact (congrArg AllocPc.granted (update_of_ne differs _ _)).trans granted
  · obtain ⟨_, held, stays, _⟩ := pendingWrite_inside pending
    exact (granted_update (stays.trans held.symm) other).trans granted

end Headers

section Readers

variable {ι ρ : Type} {data : ι → Bytes} {alloc next : AllocState ι}

/-- The call has returned and this is the header it left. -/
def Settled (xxh64 : Xxh64) (data : ι → Bytes) (alloc : AllocState ι)
    (call : ι) (offset : ℕ) (header : ExtentHeaderV2) : Prop :=
  alloc.calls call = .finished offset ∧
    header = headerOf xxh64 (data call) (.finished offset)

/-- What a reader may rely on: a header with a checksum, or one read after the call returned, is
the final one, and the verdict on a payload is right. -/
def ReaderSound (xxh64 : Xxh64) (data : ι → Bytes) (alloc : AllocState ι) : ExtentReaderPc ι → Prop
  | .idle => True
  | .haveHeader call offset header returned =>
      (alloc.calls call).granted = some offset ∧
        (header.checksum ≠ 0 ∨ returned = true → Settled xxh64 data alloc call offset header)
  | .judged call offset payload accepted returned =>
      (alloc.calls call).granted = some offset ∧ (accepted = true → payload = data call) ∧
        (returned = true → accepted = decide (xxh64 (data call) 0 ≠ 0))

/-- A header read at a reserved offset has a checksum only if the call has returned. -/
theorem readerSound_header (headed : Headed xxh64 data alloc) {call : ι} {offset : ℕ}
    (granted : (alloc.calls call).granted = some offset) :
    ReaderSound xxh64 data alloc (.haveHeader call offset (.load alloc.region offset)
      (alloc.calls call == .finished offset)) := by
  refine ⟨granted, fun complete => ?_⟩
  have finished : alloc.calls call = .finished offset := by
    rcases complete with checksum | returned
    · rw [headed.header call offset granted] at checksum
      cases at_ : alloc.calls call with
      | finished =>
        rw [at_] at granted
        exact congrArg _ (Option.some.inj granted)
      | start | haveOld | reserved | headerWritten | payloadWritten | casFailed =>
        rw [at_] at checksum
        exact absurd rfl checksum
    · exact beq_iff_eq.mp returned
  exact ⟨finished, (headed.header call offset granted).trans (by rw [finished])⟩

/-- The checksum of a final header is compared with that of the very payload it was computed from. -/
theorem readerSound_payload {base : ℕ} (partitioned : Partitioned data base alloc) {call : ι}
    {offset : ℕ} {header : ExtentHeaderV2} {returned : Bool}
    (sound : ReaderSound xxh64 data alloc (.haveHeader call offset header returned)) :
    let payload := ByteMemory.read alloc.region (offset + headerSize) header.dataLen
    ReaderSound xxh64 data alloc
      (.judged call offset payload (verifyExtentChecksum xxh64 header payload) returned) := by
  intro payload
  have settled : header.checksum ≠ 0 ∨ returned = true →
      payload = data call ∧ header.checksum = (xxh64 (data call) 0).toNat := by
    intro complete
    obtain ⟨finished, rfl⟩ := sound.2 complete
    exact ⟨partitioned.payload call offset (by rw [finished]; rfl), rfl⟩
  refine ⟨sound.1, fun accepted => ?_, fun after => ?_⟩
  · have checksum : header.checksum ≠ 0 := by
      intro zero
      simp only [verifyExtentChecksum, zero, if_true, Bool.false_eq_true] at accepted
    exact (settled (.inl checksum)).1
  · obtain ⟨same, checksum⟩ := settled (.inr after)
    have zero_iff : (xxh64 (data call) 0).toNat = 0 ↔ xxh64 (data call) 0 = 0 := by
      rw [BitVec.toNat_eq]
      rfl
    simp only [verifyExtentChecksum, same, checksum, zero_iff, beq_self_eq_true]
    split
    · next zero => exact (decide_eq_false (not_not.mpr zero)).symm
    · next nonzero => exact (decide_eq_true nonzero).symm

variable [DecidableEq ι]

/-- What a reader relies on survives the steps of the calls. -/
theorem ReaderSound.step {pc : ExtentReaderPc ι} (sound : ReaderSound xxh64 data alloc pc) {call : ι}
    (taken : alloc.step xxh64 data call = some next) : ReaderSound xxh64 data next pc := by
  cases pc with
  | idle => trivial
  | haveHeader reserved offset header returned =>
    refine ⟨granted_stays taken sound.1, fun complete => ?_⟩
    obtain ⟨finished, final⟩ := sound.2 complete
    exact ⟨finished_of_step taken finished, final⟩
  | judged reserved offset payload accepted returned =>
    exact ⟨granted_stays taken sound.1, sound.2⟩

/-- Calls and readers together. -/
structure ReadersSound (xxh64 : Xxh64) (data : ι → Bytes) (base : ℕ)
    (state : ExtentReadState ι ρ) : Prop where
  partitioned : Partitioned data base state.alloc
  headed : Headed xxh64 data state.alloc
  readers : ∀ reader, ReaderSound xxh64 data state.alloc (state.readers reader)

variable [DecidableEq ρ] {state final : ExtentReadState ι ρ} {labels : List (ExtentReadLabel ι ρ)}

omit [DecidableEq ι] in
theorem ReadersSound.setReader {base : ℕ} (sound : ReadersSound xxh64 data base state) {reader : ρ}
    {pc : ExtentReaderPc ι} (correct : ReaderSound xxh64 data state.alloc pc) :
    ReadersSound xxh64 data base (state.setReader reader pc) := by
  refine ⟨sound.partitioned, sound.headed, fun other => ?_⟩
  simp only [ExtentReadState.setReader, update_apply]
  split
  · exact correct
  · exact sound.readers other

/-- The swaps of the calls stay below 64 bits. -/
def AllocatesBelowLimit (data : ι → Bytes) (state : ExtentReadState ι ρ)
    (label : ExtentReadLabel ι ρ) : Prop :=
  ∀ call, label = .allocate call → BelowLimit data state.alloc call

instance [Fintype ι] (data : ι → Bytes) (state : ExtentReadState ι ρ) (label : ExtentReadLabel ι ρ) :
    Decidable (AllocatesBelowLimit data state label) :=
  inferInstanceAs (Decidable (∀ call, label = .allocate call → BelowLimit data state.alloc call))

theorem ReadersSound.step {base : ℕ} (behind : 64 ≤ base)
    (short : ∀ call, (data call).length < 2 ^ 32) (sound : ReadersSound xxh64 data base state)
    {label : ExtentReadLabel ι ρ} (below : AllocatesBelowLimit data state label)
    {next : ExtentReadState ι ρ} (taken : state.step xxh64 data label = some next) :
    ReadersSound xxh64 data base next := by
  cases label with
  | allocate call =>
    obtain ⟨alloc, moved, rfl⟩ := Option.map_eq_some_iff.mp taken
    have limit := below call rfl
    exact ⟨sound.partitioned.step behind limit moved,
      sound.headed.step behind sound.partitioned (short call) limit moved,
      fun reader => (sound.readers reader).step moved⟩
  | readHeader reader call =>
    obtain ⟨offset, granted, rfl⟩ := Option.map_eq_some_iff.mp taken
    exact sound.setReader (readerSound_header sound.headed granted)
  | readPayload reader =>
    have current := sound.readers reader
    cases at_ : state.readers reader with
    | idle | judged =>
      simp only [ExtentReadState.step, at_] at taken
      cases taken
    | haveHeader call offset header returned =>
      rw [at_] at current
      simp only [ExtentReadState.step, at_, Option.some.injEq] at taken
      subst taken
      exact sound.setReader (readerSound_payload sound.partitioned current)

/-- From any region that is zero beyond a bump offset behind the header, for any calls, readers and
interleaving: a payload is accepted only if it is the data of the call that reserved the offset, and if
that call had returned when the header was read, it is accepted exactly when its checksum is not
zero. -/
theorem accepted_extent_is_complete (region : Memory) (behind : 64 ≤ bumpOffset region)
    (zero : ∀ address, bumpOffset region ≤ address → region address = 0)
    (short : ∀ call, (data call).length < 2 ^ 32)
    (below : Throughout (ExtentReadState.step xxh64 data) (AllocatesBelowLimit data)
      (.initial region : ExtentReadState ι ρ) labels)
    (reached : run (ExtentReadState.step xxh64 data) (.initial region) labels = some final) :
    ∀ reader call offset payload accepted returned,
      final.readers reader = .judged call offset payload accepted returned →
      (final.alloc.calls call).granted = some offset ∧
        (accepted = true → payload = data call) ∧
        (returned = true → accepted = decide (xxh64 (data call) 0 ≠ 0)) := by
  have start : ReadersSound xxh64 data (bumpOffset region)
      (.initial region : ExtentReadState ι ρ) :=
    ⟨partitioned_initial data region, headed_initial zero, fun _ => trivial⟩
  have sound := below.invariant
    (fun kept limit taken => ReadersSound.step behind short kept limit taken) start reached
  intro reader call offset payload accepted returned verdict
  have correct := sound.readers reader
  rwa [verdict] at correct

/-- A reader that comes between the header and the payload rejects what it finds; one that comes after
the call has returned accepts the payload. -/
theorem extent_accepted_after_return :
    let region := write (fun _ => 0) 0 (encode 8 64)
    let labels : List (ExtentReadLabel Unit (Fin 2)) := [.allocate (), .allocate (), .allocate (),
      .readHeader 0 (), .allocate (), .allocate (), .readPayload 0, .readHeader 1 (), .readPayload 1]
    ∃ final, run (ExtentReadState.step (fun _ _ => 0xD24EC4F1A98C6E5B) fun _ => [0x61])
        (.initial region) labels = some final ∧
      final.readers 0 = .judged () 64 [0x61] false false ∧
      ∃ payload accepted, final.readers 1 = .judged () 64 payload accepted true ∧
        accepted = true ∧ payload = [0x61] := by
  intro region labels
  have ends : (run (ExtentReadState.step (fun _ _ => 0xD24EC4F1A98C6E5B) fun _ => [0x61])
      (.initial region) labels).map (fun final => (final.readers 0, final.readers 1)) =
      some (.judged () 64 [0x61] false false, .judged () 64 [0x61] true true) := by decide +kernel
  obtain ⟨final, reached, seen⟩ := Option.map_eq_some_iff.mp ends
  obtain ⟨early, late⟩ := Prod.mk.inj seen
  have bump : bumpOffset region = 64 := by decide +kernel
  have zero : ∀ address, bumpOffset region ≤ address → region address = 0 := by
    intro address beyond
    rw [bump] at beyond
    exact write_outside (.inr (by rw [encode_length]; omega))
  have below : Throughout (ExtentReadState.step (fun _ _ => 0xD24EC4F1A98C6E5B) fun _ => [0x61])
      (AllocatesBelowLimit fun _ => [0x61]) (.initial region) labels := by decide +kernel
  obtain ⟨_, complete, exactly⟩ := accepted_extent_is_complete region bump.ge zero
    (fun _ => by decide) below reached 1 () 64 _ _ _ late
  exact ⟨final, reached, early, _, _, late, exactly rfl, complete rfl⟩

end Readers

end Rdmas.Soundness
