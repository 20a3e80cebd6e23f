import Mathlib.Algebra.BigOperators.Group.Multiset.Basic
import Mathlib.Algebra.Order.Group.Multiset
import Mathlib.Algebra.Ring.Nat
import Mathlib.Data.Multiset.Count

/-! # Tilings of an interval by ranges

A range is a start and a length. A collection of ranges tiles an interval when every address of the
interval lies in exactly one range and no other address lies in any; it is only packed below a bound when
no address lies in two and none from the bound on in any. Counting makes the order of the
ranges irrelevant: pushing a range at the end, splitting one and dropping an empty one are equations
between counts. Empty ranges contain nothing and are harmless.
-/

namespace Tiling

abbrev Range := ℕ × ℕ

def Contains (range : Range) (address : ℕ) : Prop :=
  range.1 ≤ address ∧ address < range.1 + range.2

instance (range : Range) (address : ℕ) : Decidable (Contains range address) :=
  inferInstanceAs (Decidable (_ ∧ _))

/-- Two ranges share no address. -/
def Apart (left right : Range) : Prop := ∀ address, Contains left address → ¬ Contains right address

/-- Of two non-empty ranges that share no address, one ends before the other. -/
theorem Apart.before_or_behind {left right : Range} (apart : Apart left right) (leftRoom : 0 < left.2)
    (rightRoom : 0 < right.2) : left.1 + left.2 ≤ right.1 ∨ right.1 + right.2 ≤ left.1 := by
  -- The larger of the two starts would lie in both ranges.
  have atLeft := apart left.1
  have atRight := apart right.1
  simp only [Contains] at atLeft atRight
  omega

/-- The number of ranges an address lies in. -/
def cover (ranges : Multiset Range) (address : ℕ) : ℕ :=
  ranges.countP fun range => Contains range address

/-- Every address of the interval lies in exactly one range, and no other address in any. -/
def Tiles (ranges : Multiset Range) (lower upper : ℕ) : Prop :=
  ∀ address, cover ranges address = if lower ≤ address ∧ address < upper then 1 else 0

/-- No address lies in two of the ranges, and none from the bound on in any. -/
def Packs (ranges : Multiset Range) (upper : ℕ) : Prop :=
  ∀ address, cover ranges address ≤ if address < upper then 1 else 0

section Cover

variable (ranges : Multiset Range) (address : ℕ)

theorem cover_cons (range : Range) :
    cover (range ::ₘ ranges) address =
      cover ranges address + if Contains range address then 1 else 0 :=
  Multiset.countP_cons _ _ _

theorem cover_add (others : Multiset Range) :
    cover (ranges + others) address = cover ranges address + cover others address :=
  Multiset.countP_add _ _ _

/-- Cutting a range in two changes no count. -/
theorem cover_split (start front back : ℕ) :
    cover ((start, front + back) ::ₘ ranges) address =
      cover ((start, front) ::ₘ (start + front, back) ::ₘ ranges) address := by
  simp only [cover_cons]
  split_ifs <;> simp only [Contains] at * <;> omega

/-- The back of a range may lie anywhere in a list. -/
theorem cover_middle {start front length : ℕ} (fits : front ≤ length) (before after : List Range)
    (address : ℕ) :
    cover ((start, front) ::ₘ ((before ++ (start + front, length - front) :: after : List Range) :
        Multiset Range)) address =
      cover ((start, length) ::ₘ ((before ++ after : List Range) : Multiset Range)) address := by
  obtain ⟨back, rfl⟩ := Nat.exists_eq_add_of_le fits
  rw [Multiset.coe_eq_coe.mpr List.perm_middle, ← Multiset.cons_coe, Nat.add_sub_cancel_left, cover_split]

/-- A longer range covers more. -/
theorem cover_cons_le {front length : ℕ} (shorter : front ≤ length) (start : ℕ) :
    cover ((start, front) ::ₘ ranges) address ≤ cover ((start, length) ::ₘ ranges) address := by
  simp only [cover_cons]
  split_ifs <;> simp only [Contains] at * <;> omega

theorem cover_pos {ranges : Multiset Range} {address : ℕ} :
    0 < cover ranges address ↔ ∃ range ∈ ranges, Contains range address := Multiset.countP_pos

end Cover

section Total

/-- The sum of the lengths. -/
def total (ranges : Multiset Range) : ℕ := (ranges.map Prod.snd).sum

variable (ranges : Multiset Range)

theorem total_cons (range : Range) : total (range ::ₘ ranges) = range.2 + total ranges := by
  rw [total, total, Multiset.map_cons, Multiset.sum_cons]

theorem total_add (others : Multiset Range) : total (ranges + others) = total ranges + total others := by
  rw [total, total, total, Multiset.map_add, Multiset.sum_add]

theorem total_coe (listing : List Range) : total listing = (listing.map Prod.snd).sum := by
  rw [total, Multiset.map_coe, Multiset.sum_coe]

end Total

variable {ranges rest : Multiset Range} {lower upper : ℕ}

theorem packs_zero (upper : ℕ) : Packs 0 upper := fun _ => Nat.zero_le _

/-- Ranges that cover no more than packed ones are packed. -/
theorem Packs.of_cover_le {others : Multiset Range} (packs : Packs ranges upper)
    (fewer : ∀ address, cover others address ≤ cover ranges address) : Packs others upper :=
  fun address => (fewer address).trans (packs address)

/-- A range set aside behind the bound. -/
theorem Packs.push (packs : Packs ranges upper) (length : ℕ) :
    Packs ((upper, length) ::ₘ ranges) (upper + length) := by
  intro address
  have before := packs address
  rw [cover_cons]
  split_ifs at before ⊢ <;> simp only [Contains] at * <;> omega

/-- The ranges at two different places of a packing share no address. -/
theorem Packs.apart {range other : Range} (packs : Packs (range ::ₘ rest) upper) (member : other ∈ rest) :
    Apart range other := by
  intro address inRange inOther
  have covered := cover_pos.mpr ⟨other, member, inOther⟩
  have once := packs address
  rw [cover_cons, if_pos inRange] at once
  split at once <;> omega

/-- A non-empty packed range lies below the bound. -/
theorem Packs.bounds {range : Range} (packs : Packs ranges upper) (member : range ∈ ranges)
    (nonempty : 0 < range.2) : range.1 + range.2 ≤ upper := by
  by_contra beyond
  have inside : Contains range (range.1 + range.2 - 1) := ⟨by omega, by omega⟩
  have covered := cover_pos.mpr ⟨range, member, inside⟩
  have once := packs (range.1 + range.2 - 1)
  rw [if_neg (by omega)] at once
  omega

theorem tiles_zero (bound : ℕ) : Tiles 0 bound bound := by
  intro address
  rw [if_neg (by omega)]
  rfl

namespace Tiles

variable (tiles : Tiles ranges lower upper)
include tiles

/-- A range added at the upper end extends the tiling by its length. -/
theorem push (ordered : lower ≤ upper) (length : ℕ) :
    Tiles ((upper, length) ::ₘ ranges) lower (upper + length) := by
  intro address
  rw [cover_cons, tiles address]
  split_ifs <;> simp only [Contains] at * <;> omega

theorem contains_iff (address : ℕ) :
    (lower ≤ address ∧ address < upper) ↔ ∃ range ∈ ranges, Contains range address := by
  rw [← cover_pos, tiles address]
  split
  · next inside => exact iff_of_true inside Nat.one_pos
  · next outside => exact iff_of_false outside (Nat.lt_irrefl 0)

theorem packs : Packs ranges upper := by
  intro address
  rw [tiles address]
  split_ifs <;> omega

/-- A non-empty range of a tiling lies within the tiled interval. -/
theorem bounds {range : Range} (member : range ∈ ranges)
    (nonempty : 0 < range.2) : lower ≤ range.1 ∧ range.1 + range.2 ≤ upper := by
  have first := (tiles.contains_iff range.1).mpr ⟨range, member, le_rfl, by omega⟩
  have last := (tiles.contains_iff (range.1 + range.2 - 1)).mpr
    ⟨range, member, by omega, by omega⟩
  omega

end Tiles

/-- In any listing of a tiling the ranges are pairwise apart. -/
theorem Tiles.pairwise {listing : List Range} (tiles : Tiles (listing : Multiset Range) lower upper) :
    listing.Pairwise Apart := by
  rw [List.pairwise_iff_forall_sublist]
  intro left right chosen
  obtain ⟨others, split⟩ := Multiset.le_iff_exists_add.mp (Multiset.coe_le.mpr chosen.subperm)
  rw [split, ← Multiset.cons_coe, ← Multiset.cons_coe, Multiset.coe_nil, Multiset.cons_add,
    Multiset.cons_add, zero_add] at tiles
  exact tiles.packs.apart (Multiset.mem_cons_self _ _)

end Tiling
