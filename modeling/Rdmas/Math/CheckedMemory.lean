import Rdmas.Math.ByteMemory

/-! # Checked arithmetic and slices

A program that checks its arithmetic and its slices stops when a sum or product of machine words does not
fit a word, a difference is negative, or a slice does not lie in its buffer. A stopped computation is
`none`; what it would have gone on with is the number or the block itself.
-/

namespace CheckedMemory

open LittleEndian ByteMemory

/-- The sum of two machine words of so many bits. -/
def sum (bits left right : ℕ) : Option ℕ :=
  if left + right < 2 ^ bits then some (left + right) else none

/-- The product of two machine words of so many bits. -/
def product (bits left right : ℕ) : Option ℕ :=
  if left * right < 2 ^ bits then some (left * right) else none

/-- The difference of two machine words. -/
def difference (left right : ℕ) : Option ℕ := if right ≤ left then some (left - right) else none

/-- `buffer[start..stop]`, for a buffer of the given length. -/
def slice (memory : Memory) (length start stop : ℕ) : Option Bytes :=
  if start ≤ stop ∧ stop ≤ length then some (read memory start (stop - start)) else none

/-- `buffer[index]`. -/
def get (memory : Memory) (length index : ℕ) : Option Byte :=
  if index < length then some (memory index) else none

/-- The little-endian number in `buffer[start + skip..start + skip + width]`. -/
def field (bits : ℕ) (memory : Memory) (length start skip width : ℕ) : Option ℕ := do
  let first ← sum bits start skip
  let last ← sum bits start (skip + width)
  let bytes ← slice memory length first last
  return decode bytes

variable {bits left right start stop skip width length index : ℕ} {memory : Memory}

theorem sum_of_lt (fits : left + right < 2 ^ bits) : sum bits left right = some (left + right) :=
  if_pos fits

theorem sum_eq_none (wraps : 2 ^ bits ≤ left + right) : sum bits left right = none :=
  if_neg (Nat.not_lt.mpr wraps)

theorem product_of_lt (fits : left * right < 2 ^ bits) : product bits left right = some (left * right) :=
  if_pos fits

theorem difference_of_le (ordered : right ≤ left) : difference left right = some (left - right) :=
  if_pos ordered

/-- A sum that does not reach beyond a buffer fits a word. -/
theorem sum_of_le (small : length < 2 ^ bits) (inside : left + right ≤ length) :
    sum bits left right = some (left + right) :=
  sum_of_lt (inside.trans_lt small)

theorem slice_of_le (ordered : start ≤ stop) (inside : stop ≤ length) :
    slice memory length start stop = some (read memory start (stop - start)) :=
  if_pos ⟨ordered, inside⟩

theorem get_of_lt (inside : index < length) : get memory length index = some (memory index) :=
  if_pos inside

/-- A field inside a buffer is read without stopping. -/
theorem field_of_le (small : length < 2 ^ bits) (inside : start + (skip + width) ≤ length) :
    field bits memory length start skip width = some (word memory width (start + skip)) := by
  have first : sum bits start skip = some (start + skip) := sum_of_le small (by omega)
  have ordered : start + skip ≤ start + (skip + width) := by omega
  have between : start + (skip + width) - (start + skip) = width := by omega
  rw [field, first, sum_of_le small inside]
  simp only [Option.bind_eq_bind, Option.bind_some, slice_of_le ordered inside, between]
  rfl

end CheckedMemory
