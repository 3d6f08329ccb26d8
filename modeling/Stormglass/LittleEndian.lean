import Mathlib

/-!
# Little-endian numbers

A number of a fixed width is a list of bytes, least significant first. Encoding keeps
the number modulo the range of the width, and decoding a list of bytes and encoding it
at its own length are inverse to each other, so a field of a format is determined by
its value and its width.

A signed number of `w` bytes is written as its two's complement.
-/

namespace LittleEndian

/-- The lowest `width` bytes of a number. -/
def encode : Nat → Nat → List UInt8
  | 0, _ => []
  | width + 1, value => UInt8.ofNat value :: encode width (value / 256)

/-- The number that a list of bytes spells. -/
def decode : List UInt8 → Nat
  | [] => 0
  | byte :: rest => byte.toNat + 256 * decode rest

@[simp] theorem length_encode (width value : Nat) : (encode width value).length = width := by
  induction width generalizing value with
  | zero => rfl
  | succ width inductionHypothesis => rw [encode, List.length_cons, inductionHypothesis]

theorem decode_lt (bytes : List UInt8) : decode bytes < 256 ^ bytes.length := by
  induction bytes with
  | nil => decide
  | cons byte rest inductionHypothesis =>
    have small := byte.toNat_lt
    rw [decode, List.length_cons, Nat.pow_succ]
    omega

/-- Decoding an encoding reduces the number to the width. -/
theorem decode_encode (width value : Nat) :
    decode (encode width value) = value % 256 ^ width := by
  induction width generalizing value with
  | zero => simp [encode, decode, Nat.mod_one]
  | succ width inductionHypothesis =>
    have split : value % 256 ^ (width + 1) =
        value % 256 + 256 * (value / 256 % 256 ^ width) := by
      rw [Nat.pow_succ, Nat.mul_comm, Nat.mod_mul]
    rw [encode, decode, inductionHypothesis, UInt8.toNat_ofNat', split]

theorem decode_encode_of_lt {width value : Nat} (fits : value < 256 ^ width) :
    decode (encode width value) = value := by
  rw [decode_encode, Nat.mod_eq_of_lt fits]

/-- Encoding a decoded list gives the list back. -/
theorem encode_decode (bytes : List UInt8) : encode bytes.length (decode bytes) = bytes := by
  induction bytes with
  | nil => rfl
  | cons byte rest inductionHypothesis =>
    have small := byte.toNat_lt
    have low : UInt8.ofNat (byte.toNat + 256 * decode rest) = byte := by
      apply UInt8.toNat_inj.mp
      rw [UInt8.toNat_ofNat']
      omega
    have high : (byte.toNat + 256 * decode rest) / 256 = decode rest := by omega
    rw [decode, List.length_cons, encode, low, high, inductionHypothesis]

/-- The two's complement of a signed number in `width` bytes. -/
def encodeSigned (width : Nat) (value : Int) : List UInt8 :=
  encode width (value % 256 ^ width).toNat

/-- The signed number that a list of bytes spells. -/
def decodeSigned (bytes : List UInt8) : Int :=
  (decode bytes : Int).bmod (256 ^ bytes.length)

@[simp] theorem length_encodeSigned (width : Nat) (value : Int) :
    (encodeSigned width value).length = width := length_encode _ _

/-- Decoding a signed encoding gives the number of the range that it is congruent to. -/
theorem decodeSigned_encodeSigned (width : Nat) (value : Int) :
    decodeSigned (encodeSigned width value) = value.bmod (256 ^ width) := by
  have positive : (0 : Int) < 256 ^ width := by positivity
  have lower := Int.emod_nonneg value positive.ne'
  have upper := Int.emod_lt_of_pos value positive
  have fits : (value % 256 ^ width).toNat < 256 ^ width := by
    zify
    rwa [Int.toNat_of_nonneg lower]
  rw [decodeSigned, encodeSigned, decode_encode_of_lt fits, length_encode,
    Int.toNat_of_nonneg lower]
  exact_mod_cast Int.emod_bmod value (256 ^ width)

theorem decodeSigned_encodeSigned_of_fits {width : Nat} {value : Int}
    (fits : value.bmod (256 ^ width) = value) :
    decodeSigned (encodeSigned width value) = value := by
  rw [decodeSigned_encodeSigned, fits]

/-- Encoding a decoded signed number gives the bytes back. -/
theorem encodeSigned_decodeSigned (bytes : List UInt8) :
    encodeSigned bytes.length (decodeSigned bytes) = bytes := by
  have small := decode_lt bytes
  have residue : decodeSigned bytes % (256 : Int) ^ bytes.length = decode bytes := by
    have bmod := Int.bmod_emod (x := (decode bytes : Int)) (m := 256 ^ bytes.length)
    push_cast at bmod
    rw [decodeSigned, bmod, Int.emod_eq_of_lt (by positivity) (by exact_mod_cast small)]
  rw [encodeSigned, residue, Int.toNat_natCast, encode_decode]

end LittleEndian
