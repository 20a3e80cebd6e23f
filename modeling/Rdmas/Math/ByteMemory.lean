import Rdmas.Math.LittleEndian

/-! # Flat byte memory

A memory is a total function from addresses to bytes; bounds are the business of whoever computes
the addresses. Block reads and writes obey two laws only: a block read inside a fresh write is
the matching slice of what was written, and a block read that misses the write is unchanged.
-/

namespace ByteMemory

open LittleEndian

abbrev Memory := ℕ → Byte

/-- The `length` bytes from `address` on. -/
def read (memory : Memory) (address length : ℕ) : Bytes :=
  (List.range length).map fun index => memory (address + index)

/-- Replace the bytes from `address` on by a block. -/
def write (memory : Memory) (address : ℕ) (bytes : Bytes) : Memory := fun query =>
  if address ≤ query ∧ query < address + bytes.length then bytes.getD (query - address) 0
  else memory query

@[simp] theorem read_length (memory : Memory) (address length : ℕ) :
    (read memory address length).length = length := by simp [read]

theorem write_outside {memory : Memory} {address query : ℕ} {bytes : Bytes}
    (outside : query < address ∨ address + bytes.length ≤ query) :
    write memory address bytes query = memory query := by
  rw [write, if_neg (by omega)]

theorem write_inside {memory : Memory} {address offset : ℕ} {bytes : Bytes} (bound : offset < bytes.length) :
    write memory address bytes (address + offset) = bytes.getD offset 0 := by
  rw [write, if_pos (by omega), Nat.add_sub_cancel_left]

/-- A block depends on its own bytes only. -/
theorem read_congr {left right : Memory} {address length : ℕ}
    (same : ∀ query, address ≤ query → query < address + length → left query = right query) :
    read left address length = read right address length := by
  apply List.map_congr_left
  intro index member
  have bound := List.mem_range.mp member
  exact same _ (by omega) (by omega)

/-- A block apart from the written one is unchanged. -/
theorem read_write_outside {memory : Memory} {address length target : ℕ} {bytes : Bytes}
    (apart : address + length ≤ target ∨ target + bytes.length ≤ address) :
    read (write memory target bytes) address length = read memory address length :=
  read_congr fun _ lower upper => write_outside (by omega)

/-- A block inside the written one is the matching slice of it. -/
theorem read_write_inside {memory : Memory} {address skip length : ℕ} {bytes : Bytes}
    (bound : skip + length ≤ bytes.length) :
    read (write memory address bytes) (address + skip) length = (bytes.drop skip).take length := by
  apply List.ext_getElem
  · simp only [read_length, List.length_take, List.length_drop]
    omega
  · intro index left _
    rw [read_length] at left
    have inside : skip + index < bytes.length := by omega
    simp only [read, List.getElem_map, List.getElem_range, List.getElem_take, List.getElem_drop]
    rw [Nat.add_assoc, write_inside inside, List.getD_eq_getElem _ _ inside]

/-- Reading back exactly what was written. -/
theorem read_write (memory : Memory) (address : ℕ) (bytes : Bytes) :
    read (write memory address bytes) address bytes.length = bytes := by
  have slice : read (write memory address bytes) (address + 0) bytes.length = _ :=
    read_write_inside (by omega)
  rwa [Nat.add_zero, List.drop_zero, List.take_length] at slice

/-- A little-endian word of memory. -/
def word (memory : Memory) (width address : ℕ) : ℕ := decode (read memory address width)

/-- A word of zero bytes is zero. -/
theorem word_of_zero {memory : Memory} {width address : ℕ}
    (zero : ∀ query, address ≤ query → query < address + width → memory query = 0) :
    word memory width address = 0 := by
  have bytes : read memory address width = List.replicate width 0 := by
    rw [show read memory address width = read (fun _ => 0) address width from read_congr zero, read,
      List.map_const', List.length_range]
  rw [word, bytes, decode_zeros]

theorem word_write {memory : Memory} {width address value : ℕ} (bound : value < 256 ^ width) :
    word (write memory address (encode width value)) width address = value := by
  have same := read_write memory address (encode width value)
  rw [encode_length] at same
  rw [word, same, decode_encode_of_lt bound]

theorem word_write_outside {memory : Memory} {width address target : ℕ} {bytes : Bytes}
    (apart : address + width ≤ target ∨ target + bytes.length ≤ address) :
    word (write memory target bytes) width address = word memory width address := by
  rw [word, word, read_write_outside apart]

theorem read_take {memory : Memory} {address short long : ℕ} (shorter : short ≤ long) :
    (read memory address long).take short = read memory address short := by
  rw [read, ← List.map_take, List.take_range, Nat.min_eq_left shorter, read]

/-- Adjacent blocks are read as one. -/
theorem read_append (memory : Memory) (address front back : ℕ) :
    read memory address (front + back) =
      read memory address front ++ read memory (address + front) back := by
  rw [read, List.range_add, List.map_append, List.map_map, read, read]
  refine congrArg _ (List.map_congr_left fun index _ => ?_)
  rw [Function.comp_apply, Nat.add_assoc]

/-- A word is made of its low and its high part. -/
theorem word_add (memory : Memory) (address front back : ℕ) :
    word memory (front + back) address =
      word memory front address + 256 ^ front * word memory back (address + front) := by
  rw [word, read_append, decode_append, read_length, word, word]

/-- A narrow word is the low part of a wider one. -/
theorem word_eq_mod {memory : Memory} {address short long : ℕ} (shorter : short ≤ long) :
    word memory short address = word memory long address % 256 ^ short := by
  rw [word, word, ← decode_take, read_take shorter]

theorem word_lt (memory : Memory) (width address : ℕ) : word memory width address < 256 ^ width := by
  rw [word_eq_mod le_rfl]
  exact Nat.mod_lt _ (Nat.pow_pos (by decide))

/-- A word lying inside a written block is decoded from the matching slice. -/
theorem word_write_inside {memory : Memory} {address skip width : ℕ} {bytes : Bytes}
    (bound : skip + width ≤ bytes.length) :
    word (write memory address bytes) width (address + skip) =
      decode ((bytes.drop skip).take width) := by
  rw [word, read_write_inside bound]

end ByteMemory
