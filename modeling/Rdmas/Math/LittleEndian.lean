import Mathlib.Data.List.GetD
import Mathlib.Data.Nat.Basic
import Mathlib.Tactic.Ring

/-! # Little-endian byte strings

Fixed-width numbers travel as byte strings whose first byte is the least significant. Encoding
truncates to the chosen width, so decoding recovers the number modulo `256 ^ width`, and in
particular every number that fits the width.
-/

namespace LittleEndian

abbrev Byte := BitVec 8
abbrev Bytes := List Byte

/-- The `width` low bytes of a number, least significant first. -/
def encode : ℕ → ℕ → Bytes
  | 0, _ => []
  | width + 1, value => BitVec.ofNat 8 value :: encode width (value / 256)

/-- The number denoted by a byte string of any length. -/
def decode : Bytes → ℕ
  | [] => 0
  | byte :: rest => byte.toNat + 256 * decode rest

@[simp] theorem encode_length (width value : ℕ) : (encode width value).length = width := by
  induction width generalizing value with
  | zero => rfl
  | succ width ih => simp only [encode, List.length_cons, ih]

/-- Decoding an encoding loses exactly the bytes beyond the width. -/
theorem decode_encode (width value : ℕ) : decode (encode width value) = value % 256 ^ width := by
  induction width generalizing value with
  | zero => simp [encode, decode, Nat.mod_one]
  | succ width ih =>
    rw [encode, decode, ih, BitVec.toNat_ofNat, pow_succ' 256 width, Nat.mod_mul]

/-- Only the digits that fit are encoded. -/
theorem encode_mod (width value : ℕ) : encode width (value % 256 ^ width) = encode width value := by
  induction width generalizing value with
  | zero => rfl
  | succ width ih =>
    rw [encode, encode, pow_succ' 256 width, Nat.mod_mul_right_div_self, ih]
    congr 1
    exact BitVec.eq_of_toNat_eq (by simp)

theorem decode_encode_of_lt {width value : ℕ} (bound : value < 256 ^ width) :
    decode (encode width value) = value := by
  rw [decode_encode, Nat.mod_eq_of_lt bound]

/-- The low bytes denote the low digits. -/
theorem decode_take (count : ℕ) (bytes : Bytes) :
    decode (bytes.take count) = decode bytes % 256 ^ count := by
  induction count generalizing bytes with
  | zero => simp [decode, Nat.mod_one]
  | succ count ih =>
    cases bytes with
    | nil => simp [decode]
    | cons byte rest =>
      have small : byte.toNat < 256 := byte.isLt
      rw [List.take_succ_cons, decode, decode, ih, pow_succ' 256 count, Nat.mod_mul,
        Nat.add_mul_mod_self_left, Nat.mod_eq_of_lt small, Nat.add_mul_div_left _ _ (by decide),
        Nat.div_eq_of_lt small, Nat.zero_add]

/-- A number is found again in the field it was written to. -/
theorem decode_field {width value skip : ℕ} (front rest : Bytes) (before : front.length = skip)
    (bound : value < 256 ^ width) :
    decode (((front ++ (encode width value ++ rest)).drop skip).take width) = value := by
  rw [List.drop_left' before, List.take_left' (encode_length width value), decode_encode_of_lt bound]

/-- What stands behind a block weighs by the length of the block. -/
theorem decode_append (front back : Bytes) :
    decode (front ++ back) = decode front + 256 ^ front.length * decode back := by
  induction front with
  | nil => simp [decode]
  | cons byte rest ih =>
    rw [List.cons_append, decode, decode, ih, List.length_cons, pow_succ' 256 rest.length]
    ring

theorem decode_zeros (width : ℕ) : decode (List.replicate width 0) = 0 := by
  induction width with
  | zero => rfl
  | succ width ih =>
    rw [List.replicate_succ, decode, ih]
    rfl

/-- Eight bytes hold the low 64 bits of a number. -/
theorem ofNat_decode (value : ℕ) : BitVec.ofNat 64 (decode (encode 8 value)) = BitVec.ofNat 64 value := by
  rw [decode_encode]
  exact BitVec.eq_of_toNat_eq (by simp [BitVec.toNat_ofNat])

/-- A 64-bit word survives its trip through eight bytes. -/
theorem ofNat_decode_encode (word : BitVec 64) :
    BitVec.ofNat 64 (decode (encode 8 word.toNat)) = word := by
  rw [ofNat_decode, BitVec.ofNat_toNat, BitVec.setWidth_eq]

end LittleEndian
