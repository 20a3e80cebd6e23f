import Mathlib.Data.List.Sort

/-! # The first entries of a ranked list

A list is ranked if its entries stand in ascending order of a rank. Which entries are among the first
`n` depends on the order of those with equal rank, but only around the cut: an entry can be on the near
side exactly if fewer than `n` entries rank below it, and on the far side exactly if more than `n` rank
no higher. `exists_ranked` finds an order that puts two given entries on the two sides.
-/

namespace Ranking

variable {α : Type*} {rank : α → ℕ} {list : List α} {n : ℕ} {near far : α}

/-- Ascending in the rank. -/
def Ranked (rank : α → ℕ) (list : List α) : Prop := list.Pairwise fun left right => rank left ≤ rank right

theorem ranked_insertionSort (rank : α → ℕ) (list : List α) :
    Ranked rank (list.insertionSort fun left right => rank left ≤ rank right) := by
  have total : Std.Total fun left right : α => rank left ≤ rank right := ⟨fun _ _ => Nat.le_total _ _⟩
  have trans : IsTrans α fun left right : α => rank left ≤ rank right := ⟨fun _ _ _ => Nat.le_trans⟩
  exact List.pairwise_insertionSort _ list

/-- No entry on the near side ranks above one on the far side. -/
theorem Ranked.le_of_cut (ranked : Ranked rank list) (front : near ∈ list.take n)
    (back : far ∈ list.drop n) : rank near ≤ rank far := by
  rw [Ranked, ← List.take_append_drop n list] at ranked
  exact (List.pairwise_append.mp ranked).2.2 near front far back

/-- Fewer than `n` entries rank below one on the near side. -/
theorem Ranked.countP_lt (ranked : Ranked rank list) (front : near ∈ list.take n) :
    list.countP (fun entry => rank entry < rank near) < n := by
  have behind : (list.drop n).countP (fun entry => rank entry < rank near) = 0 := by
    rw [List.countP_eq_zero]
    intro entry member
    have ordered := ranked.le_of_cut front member
    simpa using ordered
  have before : (list.take n).countP (fun entry => rank entry < rank near) < (list.take n).length := by
    refine Nat.lt_of_le_of_ne List.countP_le_length fun all => ?_
    have below := List.countP_eq_length.mp all near front
    simp at below
  have short : (list.take n).length ≤ n := List.length_take_le n list
  calc list.countP (fun entry => rank entry < rank near)
      = (list.take n).countP (fun entry => rank entry < rank near) +
          (list.drop n).countP (fun entry => rank entry < rank near) := by
        rw [← List.countP_append, List.take_append_drop]
    _ < n := by omega

theorem lt_length_of_mem_drop (back : far ∈ list.drop n) : n < list.length := by
  have some := List.length_pos_of_mem back
  rw [List.length_drop] at some
  omega

/-- More than `n` entries rank no higher than one on the far side. -/
theorem Ranked.lt_countP (ranked : Ranked rank list) (back : far ∈ list.drop n) :
    n < list.countP (fun entry => rank entry ≤ rank far) := by
  have before : (list.take n).countP (fun entry => rank entry ≤ rank far) = (list.take n).length := by
    rw [List.countP_eq_length]
    intro entry member
    have ordered := ranked.le_of_cut member back
    simpa using ordered
  have behind : 0 < (list.drop n).countP (fun entry => rank entry ≤ rank far) :=
    List.countP_pos_iff.mpr ⟨far, back, by simp⟩
  have long : (list.take n).length = n :=
    List.length_take_of_le (lt_length_of_mem_drop back).le
  calc n < (list.take n).countP (fun entry => rank entry ≤ rank far) +
          (list.drop n).countP (fun entry => rank entry ≤ rank far) := by omega
    _ = list.countP (fun entry => rank entry ≤ rank far) := by
        rw [← List.countP_append, List.take_append_drop]

section Ties

variable [DecidableEq α]

/-- Among entries of one rank, one given entry comes first and another one last. -/
def tie (near far entry : α) : ℕ := if entry = near then 0 else if entry = far then 2 else 1

theorem tie_le (near far entry : α) : tie near far entry ≤ 2 := by
  unfold tie
  split
  · omega
  · split <;> omega

theorem tie_near (near far : α) : tie near far near = 0 := if_pos rfl

theorem tie_far (differ : near ≠ far) : tie near far far = 2 := by
  rw [tie, if_neg differ.symm, if_pos rfl]

theorem tie_pos {entry : α} (other : entry ≠ near) : 0 < tie near far entry := by
  rw [tie, if_neg other]
  split <;> omega

theorem tie_lt {entry : α} (other : entry ≠ far) : tie near far entry < 2 := by
  unfold tie
  rw [if_neg other]
  split <;> omega

/-- Two entries stand on the two sides of the cut in some order, if their ranks allow it. -/
theorem exists_ranked (distinct : list.Nodup) (differ : near ≠ far) (nearIn : near ∈ list)
    (farIn : far ∈ list) (few : list.countP (fun entry => rank entry < rank near) < n)
    (many : n < list.countP (fun entry => rank entry ≤ rank far)) :
    ∃ order : List α, order.Perm list ∧ Ranked rank order ∧ near ∈ order.take n ∧ far ∈ order.drop n := by
  let refined := fun entry => 3 * rank entry + tie near far entry
  let order := list.insertionSort fun left right => refined left ≤ refined right
  have perm : order.Perm list := List.perm_insertionSort _ list
  have ranked : Ranked refined order := ranked_insertionSort refined list
  have once : (order.take n ++ order.drop n).Nodup := by
    rw [List.take_append_drop]
    exact perm.nodup_iff.mpr distinct
  have apart := (List.nodup_append.mp once).2.2
  have side : ∀ {entry}, entry ∈ list → entry ∈ order.take n ∨ entry ∈ order.drop n := by
    intro entry member
    rw [← List.mem_append, List.take_append_drop]
    exact perm.mem_iff.mpr member
  have coarse : Ranked rank order := ranked.imp fun {left right} ordered => by
    have bound := tie_le near far right
    have shifted : 3 * rank left + tie near far left ≤ 3 * rank right + tie near far right := ordered
    omega
  rw [← perm.countP_eq] at few many
  rw [← List.take_append_drop n order, List.countP_append] at few many
  refine ⟨order, perm, coarse, ?_, ?_⟩
  · -- Otherwise the whole near side ranks below it, and that is too much.
    refine (side nearIn).resolve_right fun back => ?_
    have below : (order.take n).countP (fun entry => rank entry < rank near) = (order.take n).length := by
      rw [List.countP_eq_length]
      intro entry member
      have ordered : 3 * rank entry + tie near far entry ≤ 3 * rank near + tie near far near :=
        ranked.le_of_cut member back
      have positive := @tie_pos _ near far _ entry (apart entry member near back)
      rw [tie_near] at ordered
      simp only [decide_eq_true_eq]
      omega
    have long : (order.take n).length = n := List.length_take_of_le (lt_length_of_mem_drop back).le
    omega
  · -- Otherwise the whole far side ranks above it, and too little is left.
    refine (side farIn).resolve_left fun front => ?_
    have above : (order.drop n).countP (fun entry => rank entry ≤ rank far) = 0 := by
      rw [List.countP_eq_zero]
      intro entry member
      have ordered : 3 * rank far + tie near far far ≤ 3 * rank entry + tie near far entry :=
        ranked.le_of_cut front member
      have small := @tie_lt _ near far _ entry (apart far front entry member).symm
      rw [tie_far differ] at ordered
      simp only [decide_eq_true_eq]
      omega
    have counted : (order.take n).countP (fun entry => rank entry ≤ rank far) ≤ (order.take n).length :=
      List.countP_le_length
    have short : (order.take n).length ≤ n := List.length_take_le n order
    omega

end Ties

end Ranking
