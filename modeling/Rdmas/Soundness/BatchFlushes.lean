import Rdmas.Model.BatchBuilder
import Rdmas.Soundness.ClientOverwrite

/-! # Batches and the writes they stand for

Whatever is added and flushed in whatever portions, the memory is the one that the flushed writes leave when
they are made one by one, and the counts of the flushes add up to the count of those. If every write is
counted, the live entries are the old ones and one for each write. Insertions do not look for earlier entries
of their keys, so the batches are seen by readers as they were written exactly if all their keys are new and
none occurs twice.
-/

namespace Rdmas.Soundness

open Rdmas.Model LittleEndian FixedBytes Runs

/-- A builder at work, with what its flushes have returned and the writes they have made. -/
structure BatchSession where
  builder : BatchBuilder
  memory : ClientMemory
  counted : ℕ
  flushed : List InsertCall

inductive BatchCall where
  | add (call : InsertCall)
  | flushLocal
deriving DecidableEq, Repr

namespace BatchSession

def initial (maxBatch : ℕ) (memory : ClientMemory) : BatchSession := ⟨.new maxBatch, memory, 0, []⟩

def step (bucketCount : ℕ) (session : BatchSession) : BatchCall → Option BatchSession
  | .add call => some { session with builder := session.builder.add call }
  | .flushLocal =>
      let (builder, memory, success) := session.builder.flushLocal session.memory bucketCount
      some ⟨builder, memory, session.counted + success, session.flushed ++ session.builder.pending⟩

end BatchSession

section Portions

variable {bucketCount : ℕ} {memory : ClientMemory}

open BatchBuilder

private theorem insertPending_start (pending : List InsertCall) (memory : ClientMemory) (success : ℕ) :
    insertPending bucketCount pending memory success =
      ((insertPending bucketCount pending memory 0).1,
        success + (insertPending bucketCount pending memory 0).2) := by
  induction pending generalizing memory success with
  | nil => rfl
  | cons call pending ih =>
    simp only [insertPending]
    split
    · rw [ih _ (success + 1), ih _ (0 + 1)]
      simp only [Prod.mk.injEq, true_and]
      omega
    · exact ih _ success

/-- Two portions leave what they leave together. -/
theorem insertPending_append (front back : List InsertCall) (memory : ClientMemory) (success : ℕ) :
    insertPending bucketCount (front ++ back) memory success =
      insertPending bucketCount back (insertPending bucketCount front memory success).1
        (insertPending bucketCount front memory success).2 := by
  induction front generalizing memory success with
  | nil => rfl
  | cons call front ih =>
    simp only [List.cons_append, insertPending]
    split
    · exact ih _ (success + 1)
    · exact ih _ success

private theorem insertPending_le (bucketCount : ℕ) (pending : List InsertCall) (memory : ClientMemory) :
    (insertPending bucketCount pending memory 0).2 ≤ pending.length := by
  induction pending generalizing memory with
  | nil => exact Nat.le_refl _
  | cons call pending ih =>
    simp only [insertPending, List.length_cons]
    split
    · rw [insertPending_start]
      have rest := ih ‹_›
      omega
    · have rest := ih ‹_›
      omega

/-- If all writes are counted, the first is, and so are the others behind it. -/
theorem inserted_of_counted {call : InsertCall} {pending : List InsertCall}
    (all : (insertPending bucketCount (call :: pending) memory 0).2 = (call :: pending).length) :
    let first := ClientWriter.insert call memory bucketCount
    (∃ idx, first.2 = .ok (.inserted idx)) ∧
      (insertPending bucketCount pending first.1 0).2 = pending.length ∧
      (insertPending bucketCount (call :: pending) memory 0).1 =
        (insertPending bucketCount pending first.1 0).1 := by
  rcases outcome : ClientWriter.insert call memory bucketCount with ⟨next, error | idx | _⟩
  · have fewer := insertPending_le bucketCount pending next
    simp only [insertPending, outcome, List.length_cons] at all
    omega
  · simp only [insertPending, outcome, List.length_cons] at all ⊢
    rw [insertPending_start] at all
    refine ⟨⟨idx, rfl⟩, ?_, ?_⟩
    · simp only at all
      omega
    · rw [insertPending_start pending next (0 + 1)]
  · have fewer := insertPending_le bucketCount pending next
    simp only [insertPending, outcome, List.length_cons] at all
    omega

/-- The session so far is its flushed writes, made one by one. -/
theorem session_eq_insertPending {labels : List BatchCall} {maxBatch : ℕ} {final : BatchSession}
    (reached : run (BatchSession.step bucketCount) (.initial maxBatch memory) labels = some final) :
    insertPending bucketCount final.flushed memory 0 = (final.memory, final.counted) := by
  have keep : ∀ {session : BatchSession} {label : BatchCall} {next : BatchSession},
      insertPending bucketCount session.flushed memory 0 = (session.memory, session.counted) →
      session.step bucketCount label = some next →
      insertPending bucketCount next.flushed memory 0 = (next.memory, next.counted) := by
    intro session label next same taken
    cases label with
    | add call =>
      cases taken
      exact same
    | flushLocal =>
      cases taken
      rw [insertPending_append, same, insertPending_start]
  have replayed := run_invariant keep rfl reached
  exact replayed

end Portions

section Counted

variable {table after : CuckooTable} {largeObjects : Option LargeObjectRegion} {pending : List InsertCall}

open BatchBuilder

/-- A table is another one with entries added. -/
structure AddsAll (table : CuckooTable) (entries : List Entry) (after : CuckooTable) : Prop where
  count : after.bucketCount = table.bucketCount
  placed : Placed after
  unlocked : Unlocked after
  entries : liveEntries after = liveEntries table + entries

/-- Writes that are all counted add an entry each. -/
theorem insertPending_adds (two : 2 ≤ table.bucketCount) (placed : Placed table) (unlocked : Unlocked table)
    (inline_ : ∀ call ∈ pending, call.mode = .inline) (nonzero : ∀ call ∈ pending, call.key.hash ≠ 0)
    (all : (insertPending table.bucketCount pending (memoryOf table largeObjects) 0).2 = pending.length) :
    ∃ after, AddsAll table (pending.map InlineEntry) after ∧
      (insertPending table.bucketCount pending (memoryOf table largeObjects) 0).1 =
        memoryOf after largeObjects := by
  induction pending generalizing table with
  | nil => exact ⟨table, ⟨rfl, placed, unlocked, (add_zero _).symm⟩, rfl⟩
  | cons call pending ih =>
    obtain ⟨⟨idx, inserted⟩, rest, same⟩ := inserted_of_counted all
    obtain ⟨middle, entry, written, stores, adds, memory⟩ :=
      insert_inserted two placed unlocked (nonzero call List.mem_cons_self) inserted
    cases stores with
    | extent mode =>
      rw [inline_ call List.mem_cons_self] at mode
      cases mode
    | inline =>
      rw [memory, ← adds.count] at rest same
      obtain ⟨after, addsRest, final⟩ := ih (adds.count ▸ two) adds.placed adds.unlocked
        (fun call member => inline_ call (List.mem_cons_of_mem _ member))
        (fun call member => nonzero call (List.mem_cons_of_mem _ member)) rest
      refine ⟨after, ⟨addsRest.count.trans adds.count, addsRest.placed, addsRest.unlocked, ?_⟩, ?_⟩
      · rw [addsRest.entries, adds.entries, List.map_cons, add_assoc]
        rfl
      · rw [← final, ← same, adds.count]

theorem AddsAll.timesLive_eq {calls : List InsertCall} (adds : AddsAll table (calls.map InlineEntry) after)
    (key : HashedKey) : timesLive after.buckets key =
      timesLive table.buckets key + (calls.map InsertCall.key).count key := by
  have split : timesLive after.buckets key = (liveEntries after).countP fun entry => entry.key = key := rfl
  have batch : (calls.map InlineEntry).countP (fun entry => entry.key = key) =
      (calls.map InsertCall.key).count key := by
    rw [List.countP_map, List.count, List.countP_map]
    refine List.countP_congr fun call _ => ?_
    simp only [Function.comp_apply, InlineEntry, beq_iff_eq]
    exact decide_eq_true_iff
  rw [split, adds.entries, Multiset.countP_add, Multiset.coe_countP, batch]
  rfl

/-- Entries of new and distinct keys keep every key live at most once. -/
theorem AddsAll.wellPlaced {calls : List InsertCall} (adds : AddsAll table (calls.map InlineEntry) after)
    (valid : WellPlaced table) (distinct : (calls.map InsertCall.key).Nodup)
    (new : ∀ call ∈ calls, timesLive table.buckets call.key = 0) : WellPlaced after where
  two := adds.count ▸ valid.two
  placed := adds.placed
  distinct := by
    have keys : (calls.map InlineEntry).map Entry.key = calls.map InsertCall.key := by
      rw [List.map_map]
      rfl
    rw [DistinctKeys, adds.entries, Multiset.map_add, Multiset.map_coe, keys]
    refine Multiset.nodup_add.mpr ⟨valid.distinct, distinct, ?_⟩
    rw [Multiset.disjoint_left]
    intro key old fresh
    obtain ⟨entry, live, rfl⟩ := Multiset.mem_map.mp old
    obtain ⟨call, member, same⟩ := List.mem_map.mp (Multiset.mem_coe.mp fresh)
    exact timesLive_eq_zero.mp (new call member) entry live same.symm

private theorem readValue_inlineEntry (call : InsertCall) :
    Entry.readValue (InlineEntry call) largeObjects = some ⟨padded (call.value.take 32), .inline⟩ := by
  have body : (CuckooTable.packBody call.value .inline).toList = padded (call.value.take 32) :=
    toList_packBody call.value .inline
  simp only [Entry.readValue, LookupResult.readValue, Entry.result, InlineEntry, body]

/-- The other keys read as before. -/
theorem AddsAll.get_other {calls : List InsertCall} {key : HashedKey}
    (adds : AddsAll table (calls.map InlineEntry) after) (valid : WellPlaced table)
    (unlocked : Unlocked table) (afterValid : WellPlaced after) (other : key ∉ calls.map InsertCall.key) :
    ClientReader.get key after.buckets largeObjects table.bucketCount =
      ClientReader.get key table.buckets largeObjects table.bucketCount := by
  have added : ∀ entry, entry ∈ liveEntries after ↔ entry ∈ liveEntries table ∨
      entry ∈ calls.map InlineEntry := by
    intro entry
    rw [adds.entries, Multiset.mem_add, Multiset.mem_coe]
  by_cases zero : key.hash = 0
  · rw [get_of_hash_eq_zero zero, get_of_hash_eq_zero zero]
  · by_cases live : ∃ entry ∈ liveEntries table, entry.key = key
    · obtain ⟨entry, member, owner⟩ := live
      rw [get_of_live valid unlocked member owner, ← adds.count,
        get_of_live afterValid adds.unlocked ((added entry).mpr (.inl member)) owner]
    · have before : ∀ entry ∈ liveEntries table, entry.key ≠ key :=
        fun entry member owner => live ⟨entry, member, owner⟩
      rw [get_of_absent valid.two unlocked zero before, ← adds.count,
        get_of_absent afterValid.two adds.unlocked zero]
      intro entry member owner
      rcases (added entry).mp member with old | fresh
      · exact before entry old owner
      · obtain ⟨call, flushed, rfl⟩ := List.mem_map.mp fresh
        exact other (List.mem_map.mpr ⟨call, flushed, owner⟩)

/-- After any adds and flushes of Inline writes, all of them counted, each flushed key reads the value written
under it, from one bucket, and the other keys read as before, exactly if the flushed keys are distinct and
none was live. -/
theorem batches_read_back_iff {labels : List BatchCall} {maxBatch : ℕ} {final : BatchSession}
    (valid : WellPlaced table) (unlocked : Unlocked table)
    (reached : run (BatchSession.step table.bucketCount)
      (.initial maxBatch ⟨table.buckets, largeObjects⟩) labels = some final)
    (inline_ : ∀ call ∈ final.flushed, call.mode = .inline)
    (nonzero : ∀ call ∈ final.flushed, call.key.hash ≠ 0) (counted : final.counted = final.flushed.length) :
    ((∀ call ∈ final.flushed, OptimizedClientReader.getFast call.key final.memory.buckets
          final.memory.largeObjects table.bucketCount = some (padded (call.value.take 32), .inline) ∧
          timesLive final.memory.buckets call.key = 1) ∧
        ∀ key, key ∉ final.flushed.map InsertCall.key →
          OptimizedClientReader.getFast key final.memory.buckets final.memory.largeObjects
              table.bucketCount =
            OptimizedClientReader.getFast key table.buckets largeObjects table.bucketCount) ↔
      (final.flushed.map InsertCall.key).Nodup ∧
        ∀ call ∈ final.flushed, timesLive table.buckets call.key = 0 := by
  have replayed := session_eq_insertPending reached
  have all : (insertPending table.bucketCount final.flushed (memoryOf table largeObjects) 0).2 =
      final.flushed.length := by
    rw [← counted]
    exact congrArg Prod.snd replayed
  obtain ⟨after, adds, memory⟩ :=
    insertPending_adds valid.two valid.placed unlocked inline_ nonzero all
  have same : final.memory = memoryOf after largeObjects :=
    (congrArg Prod.fst replayed).symm.trans memory
  have buckets : final.memory.buckets = after.buckets := congrArg ClientMemory.buckets same
  have objects : final.memory.largeObjects = largeObjects := congrArg ClientMemory.largeObjects same
  rw [buckets, objects]
  constructor
  · rintro ⟨own, -⟩
    have once : ∀ call ∈ final.flushed, timesLive table.buckets call.key = 0 ∧
        (final.flushed.map InsertCall.key).count call.key = 1 := by
      intro call member
      have sum := adds.timesLive_eq call.key
      have present := List.count_pos_iff.mpr (List.mem_map_of_mem (f := InsertCall.key) member)
      rw [(own call member).2] at sum
      omega
    refine ⟨List.nodup_iff_count_le_one.mpr fun key => ?_, fun call member => (once call member).1⟩
    by_cases member : key ∈ final.flushed.map InsertCall.key
    · obtain ⟨call, flushed, rfl⟩ := List.mem_map.mp member
      exact (once call flushed).2.le
    · rw [List.count_eq_zero_of_not_mem member]
      exact Nat.zero_le 1
  · rintro ⟨distinct, new⟩
    have afterValid := adds.wellPlaced valid distinct new
    refine ⟨fun call member => ⟨?_, ?_⟩, fun key other => ?_⟩
    · have live : InlineEntry call ∈ liveEntries after := by
        rw [adds.entries]
        exact Multiset.mem_add.mpr (.inr (Multiset.mem_coe.mpr (List.mem_map_of_mem member)))
      have owner : (InlineEntry call).key = call.key := rfl
      rw [OptimizedClientReader.getFast, ← adds.count, get_of_live afterValid adds.unlocked live owner,
        readValue_inlineEntry]
    · rw [adds.timesLive_eq, new call member, Nat.zero_add]
      exact List.count_eq_one_of_mem distinct (List.mem_map_of_mem member)
    · rw [OptimizedClientReader.getFast, adds.get_other valid unlocked afterValid other]
      rfl

/-- Two keys with one first home, written in two portions, are both read back. -/
theorem two_portions_are_read_back :
    let table := CuckooTable.new 2 16 two_powerOfTwo
    let labels : List BatchCall := [.add ⟨⟨4, zeros 16⟩, [1], .inline⟩, .flushLocal,
      .add ⟨⟨2, zeros 16⟩, [9], .inline⟩, .flushLocal]
    ∃ final, run (BatchSession.step 2) (.initial 8 ⟨table.buckets, none⟩) labels = some final ∧
      ∀ call ∈ final.flushed, OptimizedClientReader.getFast call.key final.memory.buckets
          final.memory.largeObjects 2 = some (padded (call.value.take 32), .inline) ∧
        timesLive final.memory.buckets call.key = 1 := by
  intro table labels
  have facts : (run (BatchSession.step 2) (.initial 8 ⟨table.buckets, none⟩) labels).map
      (fun final => (final.flushed, final.counted)) =
      some ([⟨⟨4, zeros 16⟩, [1], .inline⟩, ⟨⟨2, zeros 16⟩, [9], .inline⟩], 2) := by decide +kernel
  obtain ⟨final, reached, shape⟩ := Option.map_eq_some_iff.mp facts
  simp only [Prod.mk.injEq] at shape
  obtain ⟨flushed, counted⟩ := shape
  have valid : WellPlaced table := .new 16 two_powerOfTwo le_rfl
  have unlocked : Unlocked table := unlocked_new 2 16 two_powerOfTwo
  have count : table.bucketCount = 2 := rfl
  have readBack := batches_read_back_iff valid unlocked (count ▸ reached) (by rw [flushed]; decide)
    (by rw [flushed]; decide) (by rw [flushed, counted]; rfl)
  refine ⟨final, reached, (readBack.mpr ⟨?_, ?_⟩).1⟩
  · rw [flushed]
    decide
  · rw [flushed]
    decide +kernel

end Counted

end Rdmas.Soundness
