import Rdmas.Model.Extent

/-! # How the bytes at an offset decode

An offset is tried as a V1 header first, by its magic at byte 16, and then as a V2 header by its magic at
byte 0 and its version; a V2 magic of version 0 is taken for a V1 header too. What the decoder returns is
one of the two headers, or says that there is no magic.
-/

namespace Rdmas.Soundness

open Rdmas.Model LittleEndian ByteMemory

/-- Decoding looks at 24 bytes only. -/
theorem readDecodedHeader_congr {left right : LargeObjectRegion} {offset : ℕ} (size : left.size = right.size)
    (same : ∀ query, offset ≤ query → query < offset + 24 → left.buffer query = right.buffer query) :
    left.readDecodedHeader offset = right.readDecodedHeader offset := by
  have words : ∀ width address, offset ≤ address → address + width ≤ offset + 24 →
      word left.buffer width address = word right.buffer width address := by
    intro width address lower upper
    rw [word, word, read_congr fun query above below => same query (by omega) (by omega)]
  have version := same (offset + 4) (by omega) (by omega)
  simp only [LargeObjectRegion.readDecodedHeader, size, version, words 4 offset (by omega) (by omega),
    words 8 offset (by omega) (by omega), words 4 (offset + 8) (by omega) (by omega),
    words 8 (offset + 8) (by omega) (by omega), words 4 (offset + 16) (by omega) (by omega),
    words 8 (offset + 16) (by omega) (by omega)]

/-- The bytes at the offset are read as a V1 header: its magic at byte 16, or a V2 magic of version 0. -/
structure LegacyHeader (region : LargeObjectRegion) (off : ℕ) : Prop where
  room : off + 24 ≤ region.size
  magic : word region.buffer 4 (off + 16) = extentMagic ∨
    word region.buffer 4 off = extentMagic ∧ region.buffer (off + 4) = 0

/-- The bytes at the offset are read as a V2 header. -/
structure ModernHeader (region : LargeObjectRegion) (off : ℕ) : Prop where
  room : off + 32 ≤ region.size
  unmistakable : word region.buffer 4 (off + 16) ≠ extentMagic
  magic : word region.buffer 4 off = extentMagic
  version : region.buffer (off + 4) = 1

section Headers

variable {region : LargeObjectRegion} {off : ℕ} {decoded : DecodedHeader}

theorem LegacyHeader.decodes (header : LegacyHeader region off) :
    region.readDecodedHeader off =
      some ⟨extentMagic, word region.buffer 8 off, word region.buffer 8 (off + 8), false⟩ := by
  have room := header.room
  simp only [LargeObjectRegion.readDecodedHeader]
  by_cases first : word region.buffer 4 (off + 16) = extentMagic
  · rw [if_pos ⟨room, first⟩, first]
  · obtain ⟨magic, version⟩ := header.magic.resolve_left first
    have within : off + 5 ≤ region.size := by omega
    rw [if_neg (fun legacy => first legacy.2), if_pos within, magic, if_neg (not_not_intro rfl), version]
    exact if_neg (by omega)

theorem ModernHeader.decodes (header : ModernHeader region off) :
    region.readDecodedHeader off =
      some ⟨extentMagic, word region.buffer 4 (off + 8), word region.buffer 8 (off + 16), true⟩ := by
  have room := header.room
  have within : off + 5 ≤ region.size := by omega
  simp only [LargeObjectRegion.readDecodedHeader]
  rw [if_neg (fun legacy => header.unmistakable legacy.2), if_pos within, header.magic,
    if_neg (not_not_intro rfl), header.version]
  exact if_neg (by omega)

/-- Without a magic in either place, the bytes decode as such. -/
theorem readDecodedHeader_of_ne (room : off + 24 ≤ region.size)
    (first : word region.buffer 4 (off + 16) ≠ extentMagic)
    (second : word region.buffer 4 off ≠ extentMagic) :
    region.readDecodedHeader off = some ⟨word region.buffer 4 off, 0, 0, false⟩ := by
  have within : off + 5 ≤ region.size := by omega
  simp only [LargeObjectRegion.readDecodedHeader]
  rw [if_neg (fun legacy => first legacy.2), if_pos within, if_pos second]

variable (decodes : region.readDecodedHeader off = some decoded)
include decodes

/-- Whatever decodes is one of the two headers, or has no magic. -/
private theorem decodes_cases : LegacyHeader region off ∨ ModernHeader region off ∨
    decoded.magic ≠ extentMagic ∧ decoded.isV2 = false := by
  simp only [LargeObjectRegion.readDecodedHeader] at decodes
  split at decodes
  · next legacy => exact .inl ⟨legacy.1, .inl legacy.2⟩
  · next first =>
      split at decodes
      · split at decodes
        · next other =>
            cases decodes
            exact .inr (.inr ⟨other, rfl⟩)
        · next found =>
            have found := not_not.mp found
            split at decodes
            · next version =>
                split at decodes
                · cases decodes
                · next room => exact .inl ⟨by omega, .inr ⟨found, BitVec.eq_of_toNat_eq version⟩⟩
            · next version =>
                split at decodes
                · cases decodes
                · next room =>
                    exact .inr (.inl ⟨by omega, fun legacy => first ⟨by omega, legacy⟩, found,
                      BitVec.eq_of_toNat_eq version⟩)
            · cases decodes
      · cases decodes

/-- With the magic it is one of the two headers. -/
theorem header_of_decodes (magic : decoded.magic = extentMagic) :
    LegacyHeader region off ∧
        decoded = ⟨extentMagic, word region.buffer 8 off, word region.buffer 8 (off + 8), false⟩ ∨
      ModernHeader region off ∧
        decoded = ⟨extentMagic, word region.buffer 4 (off + 8), word region.buffer 8 (off + 16), true⟩ := by
  rcases decodes_cases decodes with legacy | modern | ⟨other, _⟩
  · exact .inl ⟨legacy, Option.some.inj (decodes.symm.trans legacy.decodes)⟩
  · exact .inr ⟨modern, Option.some.inj (decodes.symm.trans modern.decodes)⟩
  · exact absurd magic other

/-- A header that decodes with the magic lies in the buffer, and a V2 length has 32 bits. -/
theorem decoded_bounds (magic : decoded.magic = extentMagic) :
    off + decoded.headerSize ≤ region.size ∧ (decoded.isV2 = true → decoded.dataLen < 2 ^ 32) := by
  rcases header_of_decodes decodes magic with ⟨legacy, rfl⟩ | ⟨modern, rfl⟩
  · exact ⟨legacy.room, by rintro ⟨⟩⟩
  · exact ⟨modern.room, fun _ => word_lt _ 4 _⟩

/-- Only a header with the magic is decoded as a V2 one. -/
theorem magic_of_isV2 (modern : decoded.isV2 = true) : decoded.magic = extentMagic := by
  rcases decodes_cases decodes with legacy | modern | ⟨_, legacy⟩
  · rw [Option.some.inj (decodes.symm.trans legacy.decodes)]
  · rw [Option.some.inj (decodes.symm.trans modern.decodes)]
  · cases modern.symm.trans legacy

end Headers

end Rdmas.Soundness
