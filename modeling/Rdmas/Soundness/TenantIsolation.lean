import Rdmas.Model.Tenant
import Rdmas.Soundness.CacheCoherence
import Rdmas.Soundness.ConnectorEviction

/-! # Tenants on one table

All tenants work on the same buckets. Insertions of one move entries of another about and, when the table is
full, throw them out; what they never do is change what another tenant finds under its keys into something
that tenant has not stored. What holds tenants apart is that their hashed keys differ, which a seed does not
by itself ensure: it is asked for of the keys of the run.
-/

namespace Rdmas.Soundness

open Rdmas.Model LittleEndian FixedBytes Function

/-- What a tenant asks of the table under one of its keys. -/
inductive TenantRequest where
  | insert (value : Bytes) (mode : BucketMode)
  | insertExtent (offset length : BitVec 64)
  | delete
deriving DecidableEq, Repr

structure TenantCall where
  tenant : TenantNamespace
  key : Bytes
  request : TenantRequest
deriving DecidableEq, Repr

namespace TenantCall

variable (xxh64 : Xxh64)

def hashedKey (call : TenantCall) : HashedKey := call.tenant.hashedKey xxh64 call.key

/-- The call on the table. -/
def op (call : TenantCall) : TableOp :=
  match call.request with
  | .insert value mode => .insert (call.hashedKey xxh64) value mode
  | .insertExtent offset length => .insertExtent (call.hashedKey xxh64) offset length
  | .delete => .delete (call.hashedKey xxh64)

theorem key_op (call : TenantCall) : (call.op xxh64).key = call.hashedKey xxh64 := by
  unfold op
  split <;> rfl

/-- The calls of one tenant, in their order. -/
def ownedBy (tenant : TenantNamespace) (calls : List TenantCall) : List TenantCall :=
  calls.filter fun call => call.tenant = tenant

end TenantCall

section Newest

variable {table : CuckooTable} {map : HashedKey → Option LookupResult}

/-- Whatever is in the table is what the calls last stored under its key. -/
structure NeverStale (table : CuckooTable) (map : HashedKey → Option LookupResult) : Prop where
  valid : WellPlaced table
  newest : ∀ entry ∈ liveEntries table, map entry.key = some (Entry.result entry)

theorem NeverStale.apply (fresh : NeverStale table map) (op : TableOp) :
    NeverStale (op.apply table).1 (update map op.key op.reported) := by
  refine ⟨op.wellPlaced_apply fresh.valid, fun entry member => ?_⟩
  rcases op.mem_apply fresh.valid member with stored | ⟨old, other⟩
  · rw [op.key_of_storedEntry stored, update_self, op.reported_of_storedEntry stored]
  · rw [update_of_ne other, fresh.newest entry old]

theorem NeverStale.runTable (fresh : NeverStale table map) (ops : List TableOp) :
    NeverStale (runTable table ops)
      (ops.foldl (fun map op => update map op.key op.reported) map) := by
  induction ops generalizing table map with
  | nil => exact fresh
  | cons op rest ih => exact ih (fresh.apply op)

private theorem neverStale_new {bucketCount : ℕ} (maxKick : ℕ)
    (powerOfTwo : bucketCount.isPowerOfTwo) (two : 2 ≤ bucketCount) :
    NeverStale (.new bucketCount maxKick powerOfTwo) fun _ => none := by
  refine ⟨WellPlaced.new maxKick powerOfTwo two, fun entry member => ?_⟩
  rw [liveEntries_new] at member
  exact absurd member (Multiset.notMem_zero entry)

theorem NeverStale.lookup (fresh : NeverStale table map) {key : HashedKey} (nonzero : key.hash ≠ 0) :
    table.lookup key = none ∨ table.lookup key = map key := by
  cases found : table.lookup key with
  | none => exact .inl rfl
  | some result =>
    obtain ⟨entry, member, rfl, rfl⟩ := (lookup_eq_some_iff fresh.valid nonzero).mp found
    exact .inr (fresh.newest entry member).symm

end Newest

/-- Calls on other keys do not matter to what was last stored under a key. -/
theorem storedMap_filter {α : Type*} {ops : α → TableOp} {keeps : α → Bool} {calls : List α} {key : HashedKey}
    (others : ∀ call ∈ calls, keeps call = false → (ops call).key ≠ key) :
    storedMap (calls.map ops) key = storedMap ((calls.filter keeps).map ops) key := by
  induction calls using List.reverseRecOn with
  | nil => rfl
  | append_singleton rest call ih =>
    have earlier := ih fun other member => others other (List.mem_append_left _ member)
    have step : ∀ before : List TableOp, ∀ op, storedMap (before ++ [op]) =
        update (storedMap before) op.key op.reported := by
      intro before op
      rw [storedMap, List.foldl_append]
      rfl
    rw [List.map_append, List.map_singleton, step, List.filter_append]
    cases kept : keeps call with
    | true =>
      rw [List.filter_singleton, kept, cond_true, List.map_append, List.map_singleton, step]
      simp only [update_apply, earlier]
    | false =>
      have differs := others call (List.mem_append_right _ (List.mem_singleton_self _)) kept
      rw [List.filter_singleton, kept, cond_false, List.append_nil, update_of_ne differs.symm, earlier]

section Isolation

variable {xxh64 : Xxh64} {names : Set (TenantNamespace × Bytes)}

/-- What a tenant's own calls have last stored under one of its keys. -/
def ownStored (xxh64 : Xxh64) (calls : List TenantCall) (tenant : TenantNamespace)
    (key : Bytes) : Option LookupResult :=
  storedMap ((TenantCall.ownedBy tenant calls).map (TenantCall.op xxh64)) (tenant.hashedKey xxh64 key)

/-- Whatever the tenants call on a table: under each of its keys a tenant finds nothing or what it has last
stored there itself, and exactly that if no call found the table full. -/
def Isolated (xxh64 : Xxh64) (names : Set (TenantNamespace × Bytes)) : Prop :=
  ∀ (bucketCount maxKick : ℕ) (powerOfTwo : bucketCount.isPowerOfTwo), 2 ≤ bucketCount →
    ∀ calls : List TenantCall, (∀ call ∈ calls, (call.tenant, call.key) ∈ names) →
    ∀ tenant key, (tenant, key) ∈ names →
      let ops := calls.map (TenantCall.op xxh64)
      let found := (runTable (.new bucketCount maxKick powerOfTwo) ops).lookup (tenant.hashedKey xxh64 key)
      (found = none ∨ found = ownStored xxh64 calls tenant key) ∧
        (.inserted (.error .tableFull) ∉ outcomes (.new bucketCount maxKick powerOfTwo) ops →
          found = ownStored xxh64 calls tenant key)

/-- Keys of different tenants hash differently. -/
def HashedApart (xxh64 : Xxh64) (names : Set (TenantNamespace × Bytes)) : Prop :=
  ∀ tenant key other otherKey, (tenant, key) ∈ names → (other, otherKey) ∈ names → other ≠ tenant →
    other.hashedKey xxh64 otherKey ≠ tenant.hashedKey xxh64 key

private theorem isolated_of_hashedApart (nonzero : ∀ name ∈ names, name.1.hashKey xxh64 name.2 ≠ 0)
    (apart : HashedApart xxh64 names) : Isolated xxh64 names := by
  intro bucketCount maxKick powerOfTwo two calls named tenant key name ops found
  have keyNonzero : (tenant.hashedKey xxh64 key).hash ≠ 0 := nonzero _ name
  have own : storedMap ops (tenant.hashedKey xxh64 key) = ownStored xxh64 calls tenant key := by
    refine storedMap_filter fun call member foreign => ?_
    rw [TenantCall.key_op]
    exact apart tenant key call.tenant call.key name (named call member) (of_decide_eq_false foreign)
  refine ⟨?_, fun fits => ?_⟩
  · rw [← own]
    exact ((neverStale_new maxKick powerOfTwo two).runTable ops).lookup keyNonzero
  · have represents := (represents_new maxKick powerOfTwo two).runTable (fun op member => ?_) fits
    · exact (represents.lookup _ keyNonzero).trans own
    · obtain ⟨call, given, rfl⟩ := List.mem_map.mp member
      rw [TenantCall.key_op]
      exact nonzero _ (named call given)

/-- The first insertion into a table is found. -/
theorem lookup_first_insert {key : HashedKey} (nonzero : key.hash ≠ 0) (value : Bytes) :
    (runTable (.new 2 0 ⟨1, rfl⟩) [.insert key value .inline]).lookup key ≠ none := by
  have two : 2 ≤ (CuckooTable.new 2 0 ⟨1, rfl⟩).bucketCount := Nat.le_refl 2
  have valid := (TableOp.insert key value .inline).wellPlaced_apply (WellPlaced.new 0 ⟨1, rfl⟩ two)
  have live : liveEntries ((TableOp.insert key value .inline).apply (.new 2 0 ⟨1, rfl⟩)).1 =
      {⟨key, CuckooTable.packBody value .inline, .inline⟩} := by
    rw [TableOp.apply_of_storedEntry rfl, if_neg nonzero]
    exact liveEntries_insertRaw_new 0 ⟨1, rfl⟩ two nonzero
  intro nothing
  exact (lookup_eq_none_iff valid nonzero).mp nothing _ (live ▸ Multiset.mem_singleton_self _) rfl

/-- Tenants are isolated exactly if the keys they use hash apart. -/
theorem tenants_isolated_iff (xxh64 : Xxh64)
    (names : Set (TenantNamespace × Bytes)) (nonzero : ∀ name ∈ names, name.1.hashKey xxh64 name.2 ≠ 0) :
    Isolated xxh64 names ↔ HashedApart xxh64 names := by
  refine ⟨fun isolated tenant key other otherKey name otherName foreign same => ?_,
    isolated_of_hashedApart nonzero⟩
  -- The other tenant stores something, and this one finds it.
  have seen := (isolated 2 0 ⟨1, rfl⟩ (by decide) [⟨other, otherKey, .insert [] .inline⟩] (by simpa)
    tenant key name).1
  have own : ownStored xxh64 [⟨other, otherKey, .insert [] .inline⟩] tenant key = none := by
    rw [ownStored, TenantCall.ownedBy, List.filter_singleton, decide_eq_false foreign]
    rfl
  rw [own, or_self] at seen
  rw [← same] at seen
  have otherNonzero : (other.hashedKey xxh64 otherKey).hash ≠ 0 := nonzero _ otherName
  exact lookup_first_insert otherNonzero [] seen

/-- Two tenants with the same key, under a hash that is the seed. -/
theorem seeds_isolate_shared_key :
    Isolated (fun _ seed => seed) {(⟨1⟩, [0x61]), (⟨2⟩, [0x61])} := by
  refine (tenants_isolated_iff _ _ ?_).mpr ?_
  · rintro name (rfl | rfl) <;> decide
  · intro tenant key other otherKey name otherName foreign
    simp only [Set.mem_insert_iff, Set.mem_singleton_iff, Prod.mk.injEq] at name otherName
    obtain ⟨rfl, rfl⟩ | ⟨rfl, rfl⟩ := name <;> obtain ⟨rfl, rfl⟩ | ⟨rfl, rfl⟩ := otherName
    · exact absurd rfl foreign
    · decide
    · decide
    · exact absurd rfl foreign

end Isolation

end Rdmas.Soundness
