import Stormglass.LittleEndian
import Stormglass.Stream

/-!
# The CRC-32C of a byte string

`Crc32c` folds a table step over the bytes. A step exchanges the low octet of the
register for a table entry and moves the rest down, so it is the same function
`advance` of the register for every byte, applied after the byte was mixed in.

`advance` is injective, because the top octets of the table entries are distinct. Up
to four bytes mixed in one after another are one word mixed in at the beginning, and
so two strings that differ inside a window of four bytes have different checksums.
-/

namespace Stormglass

namespace Crc32c

/-- The Castagnoli polynomial, bit-reversed. -/
def poly : UInt32 := 0x82F63B78

/-- One round of `BuildTable`. -/
def shiftBit (crc : UInt32) : UInt32 :=
  if crc &&& 1 ≠ 0 then (crc >>> 1) ^^^ poly else crc >>> 1

/-- An entry of `kTable`. -/
def tableEntry (index : UInt32) : UInt32 := shiftBit^[8] index

/-- The loop body of `Crc32c`. -/
def step (crc : UInt32) (byte : UInt8) : UInt32 :=
  tableEntry ((crc ^^^ byte.toUInt32) &&& 0xFF) ^^^ (crc >>> 8)

end Crc32c

/-- `Crc32c` with the initial value 0. -/
def crc32c (data : Bytes) : UInt32 := ~~~ data.foldl Crc32c.step (~~~ 0)

example : crc32c [0x31, 0x32, 0x33, 0x34, 0x35, 0x36, 0x37, 0x38, 0x39] = 0xE3069283 := by
  decide +kernel

namespace Crc32c

/-- The register after a byte that was already mixed in. -/
def advance (crc : UInt32) : UInt32 := tableEntry (crc &&& 0xFF) ^^^ (crc >>> 8)

theorem toNat_and_low (crc : UInt32) : (crc &&& 0xFF).toNat = crc.toNat % 256 := by
  rw [UInt32.toNat_and]
  exact Nat.and_two_pow_sub_one_eq_mod crc.toNat 8

theorem toNat_shiftRight (crc : UInt32) (bits : UInt32) (small : bits.toNat < 32) :
    (crc >>> bits).toNat = crc.toNat / 2 ^ bits.toNat := by
  rw [UInt32.toNat_shiftRight, Nat.mod_eq_of_lt small, Nat.shiftRight_eq_div_pow]

/-- A register is its low octet and the rest. -/
theorem eq_of_low_of_high {left right : UInt32} (low : left &&& 0xFF = right &&& 0xFF)
    (high : left >>> 8 = right >>> 8) : left = right := by
  apply UInt32.toNat_inj.mp
  have lowNat := congrArg UInt32.toNat low
  have highNat := congrArg UInt32.toNat high
  rw [toNat_and_low, toNat_and_low] at lowNat
  rw [toNat_shiftRight _ 8 (by decide), toNat_shiftRight _ 8 (by decide)] at highNat
  have eight : (2 : Nat) ^ (8 : UInt32).toNat = 256 := by decide
  rw [eight] at highNat
  omega

/-- Undoes one round of `BuildTable`. -/
def unshiftBit (crc : UInt32) : UInt32 :=
  if crc &&& 0x80000000 ≠ 0 then ((crc ^^^ poly) <<< 1) ||| 1 else crc <<< 1

/-- The index of a table entry, from the top octet of the entry. -/
def indexOfTop (top : UInt32) : UInt32 := unshiftBit^[8] (top <<< 24) &&& 0xFF

/-- The top octets of the table entries are distinct. -/
theorem indexOfTop_tableEntry (crc : UInt32) :
    indexOfTop (tableEntry (crc &&& 0xFF) >>> 24) = crc &&& 0xFF := by
  have table : ∀ index : Fin 256,
      indexOfTop (tableEntry (UInt32.ofNat index) >>> 24) = UInt32.ofNat index := by
    decide +kernel
  have small : (crc &&& 0xFF).toNat < 256 := by
    rw [toNat_and_low]
    exact Nat.mod_lt _ (by decide)
  simpa using table ⟨(crc &&& 0xFF).toNat, small⟩

/-- The top octet of the advanced register is that of the table entry. -/
theorem advance_top (crc : UInt32) : advance crc >>> 24 = tableEntry (crc &&& 0xFF) >>> 24 := by
  have cleared : crc >>> 8 >>> 24 = 0 := by
    apply UInt32.toNat_inj.mp
    rw [toNat_shiftRight _ 24 (by decide), toNat_shiftRight _ 8 (by decide)]
    have small := crc.toNat_lt
    have eight : (2 : Nat) ^ (8 : UInt32).toNat = 2 ^ 8 := by decide
    have rest : (2 : Nat) ^ (24 : UInt32).toNat = 2 ^ 24 := by decide
    rw [eight, rest]
    change _ = 0
    omega
  rw [advance, UInt32.shiftRight_xor, cleared, UInt32.xor_zero]

theorem advance_injective : Function.Injective advance := by
  intro left right same
  have low : left &&& 0xFF = right &&& 0xFF := by
    have top : tableEntry (left &&& 0xFF) >>> 24 = tableEntry (right &&& 0xFF) >>> 24 := by
      rw [← advance_top, ← advance_top, same]
    rw [← indexOfTop_tableEntry left, ← indexOfTop_tableEntry right, top]
  have high : left >>> 8 = right >>> 8 := by
    unfold advance at same
    rw [low] at same
    exact UInt32.xor_right_inj _ |>.mp same
  exact eq_of_low_of_high low high

theorem toUInt32_shiftRight (byte : UInt8) : byte.toUInt32 >>> 8 = 0 := by
  apply UInt32.toNat_inj.mp
  rw [toNat_shiftRight _ 8 (by decide), UInt8.toNat_toUInt32]
  exact Nat.div_eq_of_lt byte.toNat_lt

theorem step_eq_advance (crc : UInt32) (byte : UInt8) :
    step crc byte = advance (crc ^^^ byte.toUInt32) := by
  rw [step, advance, UInt32.shiftRight_xor, toUInt32_shiftRight, UInt32.xor_zero]

theorem xor_and_low (left right : UInt32) :
    (left ^^^ right) &&& 0xFF = (left &&& 0xFF) ^^^ (right &&& 0xFF) := by
  apply UInt32.toBitVec_inj.mp
  apply BitVec.eq_of_getElem_eq
  simp [Bool.and_xor_distrib_right]

/-- What is above the low octet can be mixed in before the step or after it. -/
theorem advance_xor (crc word : UInt32) (cleared : word &&& 0xFF = 0) :
    advance (crc ^^^ word) = advance crc ^^^ (word >>> 8) := by
  rw [advance, advance, xor_and_low, cleared, UInt32.xor_zero,
    UInt32.shiftRight_xor, UInt32.xor_assoc]

/-- The word that up to four bytes spell. -/
def word (bytes : Bytes) : UInt32 := UInt32.ofNat (LittleEndian.decode bytes)

theorem toNat_word {bytes : Bytes} (short : bytes.length ≤ 4) :
    (word bytes).toNat = LittleEndian.decode bytes := by
  have bound := LittleEndian.decode_lt bytes
  have range : 256 ^ bytes.length ≤ 256 ^ 4 := Nat.pow_le_pow_right (by decide) short
  rw [word, UInt32.toNat_ofNat', Nat.mod_eq_of_lt (by omega)]

/-- Three bytes can be moved up by an octet and back. -/
theorem shift_word {rest : Bytes} (short : rest.length ≤ 3) :
    (word rest <<< 8) &&& 0xFF = 0 ∧ (word rest <<< 8) >>> 8 = word rest := by
  have bound := LittleEndian.decode_lt rest
  have range : 256 ^ rest.length ≤ 256 ^ 3 := Nat.pow_le_pow_right (by decide) short
  have shifted : (word rest <<< 8).toNat = LittleEndian.decode rest * 256 := by
    rw [UInt32.toNat_shiftLeft, toNat_word (by omega), Nat.shiftLeft_eq]
    change LittleEndian.decode rest * 256 % 2 ^ 32 = _
    exact Nat.mod_eq_of_lt (by omega)
  constructor
  · apply UInt32.toNat_inj.mp
    rw [toNat_and_low, shifted]
    exact Nat.mul_mod_left _ 256
  · apply UInt32.toNat_inj.mp
    rw [toNat_shiftRight _ 8 (by decide), shifted, toNat_word (by omega)]
    exact Nat.mul_div_left _ (by decide)

theorem word_cons {byte : UInt8} {rest : Bytes} (short : rest.length ≤ 3) :
    word (byte :: rest) = byte.toUInt32 ^^^ (word rest <<< 8) := by
  have small := byte.toNat_lt
  have spelled : (word (byte :: rest)).toNat = byte.toNat + 256 * LittleEndian.decode rest := by
    have four : (byte :: rest).length ≤ 4 := Nat.succ_le_succ short
    rw [toNat_word four, LittleEndian.decode]
  obtain ⟨cleared, restored⟩ := shift_word short
  apply eq_of_low_of_high
  · rw [xor_and_low, cleared, UInt32.xor_zero]
    apply UInt32.toNat_inj.mp
    rw [toNat_and_low, toNat_and_low, spelled, UInt8.toNat_toUInt32]
    omega
  · rw [UInt32.shiftRight_xor, toUInt32_shiftRight, restored, UInt32.zero_xor]
    apply UInt32.toNat_inj.mp
    rw [toNat_shiftRight _ 8 (by decide), spelled, toNat_word (by omega)]
    exact Nat.add_mul_div_left _ _ (by decide) |>.trans (by omega)

/-- Up to four bytes are one word mixed into the register. -/
theorem foldl_step {bytes : Bytes} (short : bytes.length ≤ 4) (crc : UInt32) :
    bytes.foldl step crc = advance^[bytes.length] (crc ^^^ word bytes) := by
  induction bytes generalizing crc with
  | nil => simp [word, LittleEndian.decode]
  | cons byte rest inductionHypothesis =>
    have shorter : rest.length ≤ 3 := Nat.le_of_succ_le_succ short
    obtain ⟨cleared, restored⟩ := shift_word shorter
    rw [List.foldl_cons, inductionHypothesis (by omega), step_eq_advance, List.length_cons,
      Function.iterate_succ_apply, word_cons shorter, ← UInt32.xor_assoc,
      advance_xor _ _ cleared, restored]

theorem foldl_step_injective (bytes : Bytes) :
    Function.Injective (fun crc => bytes.foldl step crc) := by
  induction bytes with
  | nil => exact Function.injective_id
  | cons byte rest inductionHypothesis =>
    intro left right same
    have earlier : step left byte = step right byte := inductionHypothesis same
    rw [step_eq_advance, step_eq_advance] at earlier
    exact UInt32.xor_left_inj _ |>.mp (advance_injective earlier)

/-- Up to four bytes are determined by the register they lead to. -/
theorem bytes_eq_of_foldl_step {left right : Bytes} (short : left.length ≤ 4)
    (sameLength : left.length = right.length) {crc : UInt32}
    (same : left.foldl step crc = right.foldl step crc) : left = right := by
  rw [foldl_step short, foldl_step (sameLength ▸ short), sameLength] at same
  have words : word left = word right :=
    UInt32.xor_right_inj _ |>.mp (advance_injective.iterate _ same)
  have spelled : LittleEndian.decode left = LittleEndian.decode right := by
    rw [← toNat_word short, ← toNat_word (sameLength ▸ short), words]
  rw [← LittleEndian.encode_decode left, ← LittleEndian.encode_decode right, sameLength, spelled]

end Crc32c

/-- Two strings that differ only inside a window of four bytes have different
checksums. -/
theorem crc32c_detects {front back left right : Bytes} (short : left.length ≤ 4)
    (sameLength : left.length = right.length)
    (same : crc32c (front ++ left ++ back) = crc32c (front ++ right ++ back)) :
    left = right := by
  have registers : (front ++ left ++ back).foldl Crc32c.step (~~~ 0) =
      (front ++ right ++ back).foldl Crc32c.step (~~~ 0) := UInt32.not_inj.mp same
  rw [List.foldl_append, List.foldl_append, List.foldl_append, List.foldl_append] at registers
  exact Crc32c.bytes_eq_of_foldl_step short sameLength
    (Crc32c.foldl_step_injective back registers)

end Stormglass
