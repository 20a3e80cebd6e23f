import Rdmas.Math.LittleEndian

/-! # Slices of fixed-size byte arrays

`copyFromSlice` overwrites a range of an array and `slice` reads one. A range just overwritten
reads back as the copied bytes; a range apart from it is untouched.
-/

namespace FixedBytes

open LittleEndian

variable {n : ℕ}

def zeros (n : ℕ) : Vector Byte n := Vector.replicate n 0

variable (array : Vector Byte n)

/-- The array with `bytes` copied over the range from `start` on. -/
def copyFromSlice (start : ℕ) (bytes : Bytes) : Vector Byte n :=
  Vector.ofFn fun index =>
    if start ≤ index ∧ index < start + bytes.length then bytes.getD (index - start) 0
    else array[index]

/-- The `length` bytes from `start` on. -/
def slice (start length : ℕ) : Bytes := (array.toList.drop start).take length

theorem slice_length {start length : ℕ} (bound : start + length ≤ n) :
    (slice array start length).length = length := by
  simp only [slice, List.length_take, List.length_drop, Vector.length_toList]
  omega

theorem slice_getElem {start length index : ℕ} (bound : start + length ≤ n)
    (inside : index < length) :
    (slice array start length)[index]? = some (array[start + index]) := by
  rw [slice, List.getElem?_take_of_lt inside, List.getElem?_drop, Vector.getElem?_toList,
    Vector.getElem?_eq_getElem]

/-- The range just copied reads back exactly. -/
theorem slice_copyFromSlice (start : ℕ) (bytes : Bytes)
    (bound : start + bytes.length ≤ n) :
    slice (copyFromSlice array start bytes) start bytes.length = bytes := by
  apply List.ext_getElem?
  intro index
  by_cases inside : index < bytes.length
  · rw [slice_getElem _ bound inside, List.getElem?_eq_getElem inside]
    simp [copyFromSlice, inside]
  · rw [List.getElem?_eq_none (by rw [slice_length _ bound]; omega),
      List.getElem?_eq_none (by omega)]

/-- A range apart from the copied one keeps its bytes. -/
theorem slice_copyFromSlice_apart {start length target : ℕ} {bytes : Bytes}
    (bound : start + length ≤ n) (apart : start + length ≤ target ∨ target + bytes.length ≤ start) :
    slice (copyFromSlice array target bytes) start length = slice array start length := by
  apply List.ext_getElem?
  intro index
  by_cases inside : index < length
  · rw [slice_getElem _ bound inside, slice_getElem _ bound inside]
    simp only [copyFromSlice, Vector.getElem_ofFn]
    rw [if_neg (by omega)]
    rfl
  · rw [List.getElem?_eq_none (by rw [slice_length _ bound]; omega),
      List.getElem?_eq_none (by rw [slice_length _ bound]; omega)]

/-- Two adjacent copies are one copy. -/
theorem copyFromSlice_append (start : ℕ) (front back : Bytes) :
    copyFromSlice (copyFromSlice array start front) (start + front.length) back =
      copyFromSlice array start (front ++ back) := by
  apply Vector.ext
  intro index bound
  simp only [copyFromSlice, Vector.getElem_ofFn, List.length_append, Fin.getElem_fin]
  by_cases late : start + front.length ≤ index
  · have skip : (front ++ back).getD (index - start) 0 =
        back.getD (index - (start + front.length)) 0 := by
      rw [List.getD_append_right _ _ _ _ (by omega), Nat.sub_sub]
    rw [skip, if_neg (show ¬ (start ≤ index ∧ index < start + front.length) by omega)]
    exact if_congr (by omega) rfl rfl
  · rw [if_neg (by omega)]
    by_cases early : start ≤ index
    · rw [if_pos (by omega), if_pos (by omega), List.getD_append _ _ _ _ (by omega)]
    · rw [if_neg (by omega), if_neg (by omega)]

/-- An array is the copy of all its bytes. -/
theorem copyFromSlice_toList (base array : Vector Byte n) : copyFromSlice base 0 array.toList = array := by
  apply Vector.ext
  intro index bound
  simp [copyFromSlice]

/-- Copying to the front of a zero array pads the bytes with zeros. -/
theorem toList_copyFromSlice_zeros {bytes : Bytes} (bound : bytes.length ≤ n) :
    (copyFromSlice (zeros n) 0 bytes).toList = bytes ++ List.replicate (n - bytes.length) 0 := by
  apply List.ext_getElem
  · simp only [Vector.length_toList, List.length_append, List.length_replicate]
    omega
  · intro index left right
    simp only [Vector.getElem_toList, copyFromSlice, Vector.getElem_ofFn, zeros]
    by_cases inside : index < bytes.length
    · rw [if_pos (by omega), List.getElem_append_left inside, Nat.sub_zero,
        List.getD_eq_getElem _ _ inside]
    · rw [if_neg (by omega), List.getElem_append_right (by omega)]
      simp

end FixedBytes
