import Mathlib.Algebra.Order.Group.Multiset
import Mathlib.Data.Multiset.MapFold
import Mathlib.Tactic.Abel

/-! # Arrays of slots that may hold an item

A slot holds an item or nothing, as told by `content`. The multiset of held items changes under an
array update by exactly the old and the new content of the updated slot, which is the conservation
law that relocation arguments count with. Distinct keys pin every key to one position.
-/

namespace SlotArray

variable {σ ε κ : Type*} (content : σ → Option ε)

/-- All items held, with multiplicity. -/
def contents (slots : List σ) : Multiset ε := (slots.filterMap content : List ε)

/-- What one slot contributes. -/
def held (slot : σ) : Multiset ε := ((content slot).toList : List ε)

variable {content}

theorem held_some {slot : σ} {item : ε} (holds : content slot = some item) :
    held content slot = {item} := by simp [held, holds]

theorem held_none {slot : σ} (vacant : content slot = none) : held content slot = 0 := by
  simp [held, vacant]

theorem contents_cons (slot : σ) (slots : List σ) :
    contents content (slot :: slots) = held content slot + contents content slots := by
  cases holds : content slot with
  | none => simp [contents, held, holds]
  | some item => simp [contents, held, holds]

theorem contents_replicate {slot : σ} (vacant : content slot = none) (count : ℕ) :
    contents content (List.replicate count slot) = 0 := by
  rw [contents, List.filterMap_eq_nil_iff.mpr, Multiset.coe_nil]
  intro other member
  rw [List.eq_of_mem_replicate member, vacant]

/-- An update trades the old content of its slot for the new one. -/
theorem contents_set {slots : List σ} {index : ℕ} (bound : index < slots.length) (slot : σ) :
    contents content (slots.set index slot) + held content slots[index] =
      contents content slots + held content slot := by
  induction slots generalizing index with
  | nil => simp at bound
  | cons first rest ih =>
    cases index with
    | zero =>
      simp only [List.set_cons_zero, List.getElem_cons_zero, contents_cons]
      abel
    | succ index =>
      have step := ih (Nat.lt_of_succ_lt_succ bound)
      simp only [List.set_cons_succ, List.getElem_cons_succ, contents_cons, add_assoc, step]

/-- Reading fewer slots as full yields fewer items. -/
theorem contents_map_le {hide : σ → σ}
    (hides : ∀ slot item, content (hide slot) = some item → content slot = some item) (slots : List σ) :
    contents content (slots.map hide) ≤ contents content slots := by
  induction slots with
  | nil => exact le_rfl
  | cons slot rest ih =>
    rw [List.map_cons, contents_cons, contents_cons]
    refine add_le_add ?_ ih
    cases shown : content (hide slot) with
    | none =>
      rw [held_none shown]
      exact Multiset.zero_le _
    | some item => rw [held_some shown, held_some (hides slot item shown)]

theorem mem_contents {slots : List σ} {item : ε} :
    item ∈ contents content slots ↔
      ∃ index, ∃ bound : index < slots.length, content slots[index] = some item := by
  rw [contents, Multiset.mem_coe, List.mem_filterMap]
  constructor
  · rintro ⟨slot, member, holds⟩
    obtain ⟨index, bound, rfl⟩ := List.getElem_of_mem member
    exact ⟨index, bound, holds⟩
  · rintro ⟨index, bound, holds⟩
    exact ⟨slots[index], List.getElem_mem bound, holds⟩

/-- With distinct keys, a key is held at one position only. -/
theorem position_unique (key : ε → κ) {slots : List σ} (distinct : ((contents content slots).map key).Nodup)
    {left right : ℕ} (leftBound : left < slots.length) (rightBound : right < slots.length)
    {item other : ε} (holds : content slots[left] = some item)
    (otherHolds : content slots[right] = some other) (same : key item = key other) :
    left = right := by
  have pairwise : slots.Pairwise fun a b =>
      ∀ x, content a = some x → ∀ y, content b = some y → key x ≠ key y := by
    rw [contents, Multiset.map_coe, Multiset.coe_nodup] at distinct
    exact List.pairwise_filterMap.mp (List.pairwise_map.mp distinct)
  rw [List.pairwise_iff_getElem] at pairwise
  rcases lt_trichotomy left right with before | equal | after
  · exact absurd same (pairwise left right leftBound rightBound before item holds other otherHolds)
  · exact equal
  · exact absurd same.symm
      (pairwise right left rightBound leftBound after other otherHolds item holds)

section Keyed

variable [DecidableEq κ] (key : ε → κ)

/-- Dropping a key that is absent drops nothing. -/
theorem filter_ne_of_absent {items : Multiset ε} {query : κ} (absent : ∀ item ∈ items, key item ≠ query) :
    items.filter (fun item => key item ≠ query) = items := Multiset.filter_eq_self.mpr absent

/-- With distinct keys, dropping a held key drops exactly its item. -/
theorem filter_ne_add_singleton {rest : Multiset ε} {item : ε} (distinct : ((rest + {item}).map key).Nodup) :
    (rest + {item}).filter (fun other => key other ≠ key item) = rest := by
  rw [Multiset.add_comm, Multiset.singleton_add, Multiset.map_cons, Multiset.nodup_cons] at distinct
  rw [Multiset.filter_add, filter_ne_of_absent key]
  · simp
  · intro other member same
    exact distinct.1 (same ▸ Multiset.mem_map_of_mem key member)

end Keyed

end SlotArray
