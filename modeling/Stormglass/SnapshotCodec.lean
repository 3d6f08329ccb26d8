import Stormglass.LittleEndian
import Stormglass.Participant

/-!
# The codec of the snapshot layer

`Encoder` appends little-endian numbers and length-prefixed blobs. `Decoder` reads them
back from a span and throws once the span is too short. A decoder is a program in a state
monad over the bytes that are left.

Each read has one lemma: on the encoding of a value it returns the value and leaves what
follows.
-/

namespace Stormglass.Snapshot

open LittleEndian

/-- An evaluation that finds a value has returned it. -/
theorem ok_of_toOption {ε α : Type} {result : Except ε α} {value : α}
    (found : result.toOption = some value) : result = .ok value := by
  cases result with
  | error failure => cases found
  | ok other => rw [Option.some.inj found]

namespace Encoder

/-- `Encoder::Blob` -/
def blob (bytes : Bytes) : Except String Bytes := do
  require (¬ bytes.length > 2 ^ 32 - 1) "encoded blob too large"
  pure (encode 4 bytes.length ++ bytes)

theorem blob_eq_ok {bytes encoded : Bytes} :
    blob bytes = .ok encoded ↔
      bytes.length < 2 ^ 32 ∧ encoded = encode 4 bytes.length ++ bytes := by
  unfold blob require
  by_cases large : bytes.length > 2 ^ 32 - 1
  · have fails : ¬ bytes.length < 2 ^ 32 := by omega
    simp only [large, not_true, if_false, fails, false_and, iff_false]
    rintro ⟨⟩
  · have fits : bytes.length < 2 ^ 32 := by omega
    simp only [large, not_false_iff, if_true, fits, true_and]
    change Except.ok _ = Except.ok _ ↔ _
    rw [Except.ok.injEq, eq_comm]

end Encoder

/-- `Decoder`, with the bytes that remain as its state. -/
abbrev Decoder := StateT Bytes (Except String)

namespace Decoder

/-- `Need`, and then the next bytes. -/
def take (count : Nat) : Decoder Bytes := do
  require (¬ count > (← get).length) "truncated serialized data"
  modifyGet fun rest => (rest.take count, rest.drop count)

def u8 : Decoder Nat := decode <$> take 1

def u32 : Decoder Nat := decode <$> take 4

def u64 : Decoder Nat := decode <$> take 8

def i64 : Decoder Int := decodeSigned <$> take 8

def blob : Decoder Bytes := do
  take (← u32)

/-- `Count`: a number of elements that the remaining bytes can hold. -/
def count (minimumBytes : Nat) : Decoder Nat := do
  let number ← u32
  require (¬ number > (← get).length / minimumBytes) "impossible serialized count"
  pure number

/-- `End` -/
def finish : Decoder Unit := do
  require ((← get) = []) "trailing serialized data"

variable {α β : Type}

theorem bind_run {first : Decoder α} {next : α → Decoder β} {data rest : Bytes} {value : α}
    (ran : first.run data = .ok (value, rest)) :
    (first >>= next).run data = (next value).run rest := by
  rw [StateT.run_bind, ran]
  rfl

theorem require_bind_run {condition : Prop} [Decidable condition] (holds : condition)
    (message : String) (next : Unit → Decoder α) (data : Bytes) :
    (require condition message >>= next).run data = (next ()).run data := by
  rw [require, if_pos holds]
  rfl

theorem require_bind_fails {condition : Prop} [Decidable condition] (fails : ¬ condition)
    (message : String) (next : Unit → Decoder α) (data : Bytes) :
    (require condition message >>= next).run data = .error message := by
  rw [require, if_neg fails]
  rfl

/-- Reading some bytes succeeds exactly if they are there. -/
theorem take_eq (count : Nat) (data : Bytes) :
    (take count).run data = if count ≤ data.length then .ok (data.take count, data.drop count)
      else .error "truncated serialized data" := by
  have unfolded : (take count).run data =
      (require (¬ count > data.length) "truncated serialized data" >>= fun _ =>
        (modifyGet fun rest => (rest.take count, rest.drop count) : Decoder Bytes)).run data := rfl
  rw [unfolded]
  by_cases enough : count ≤ data.length
  · rw [if_pos enough, require_bind_run (not_lt.mpr enough)]
    rfl
  · rw [if_neg enough, require_bind_fails (not_not.mpr (not_le.mp enough))]

theorem take_run (bytes rest : Bytes) :
    (take bytes.length).run (bytes ++ rest) = .ok (bytes, rest) := by
  rw [take_eq, if_pos (by simp), List.take_left, List.drop_left]

theorem map_take_run (convert : Bytes → α) {width : Nat} {bytes : Bytes}
    (length : bytes.length = width)
    (rest : Bytes) :
    ((convert <$> take width : Decoder α)).run (bytes ++ rest) = .ok (convert bytes, rest) := by
  subst length
  rw [StateT.run_map, take_run]
  rfl

/-- A sequence that succeeds has succeeded at each part. -/
theorem bind_run_ok {first : Decoder α} {next : α → Decoder β} {data rest : Bytes} {value : β}
    (ran : (first >>= next).run data = .ok (value, rest)) :
    ∃ middle left, first.run data = .ok (middle, left) ∧
      (next middle).run left = .ok (value, rest) := by
  rw [StateT.run_bind] at ran
  cases found : first.run data with
  | error message =>
    rw [found] at ran
    cases ran
  | ok outcome =>
    rw [found] at ran
    exact ⟨outcome.1, outcome.2, rfl, ran⟩

theorem length_of_take {count : Nat} {data bytes rest : Bytes}
    (ran : (take count).run data = .ok (bytes, rest)) : bytes.length ≤ count := by
  obtain ⟨before, left, got, ran⟩ := bind_run_ok ran
  obtain ⟨-, middle, -, ran⟩ := bind_run_ok ran
  cases ran
  exact List.length_take_le _ _

theorem u32_lt {data rest : Bytes} {value : Nat} (ran : u32.run data = .ok (value, rest)) :
    value < 2 ^ 32 := by
  rw [u32, StateT.run_map] at ran
  cases found : (take 4).run data with
  | error message =>
    rw [found] at ran
    cases ran
  | ok outcome =>
    rw [found] at ran
    cases ran
    have short := length_of_take found
    calc decode outcome.1
      _ < 256 ^ outcome.1.length := decode_lt _
      _ ≤ 256 ^ 4 := Nat.pow_le_pow_right (by decide) short

/-- A blob has a 32-bit length. -/
theorem length_of_blob {data bytes rest : Bytes} (ran : blob.run data = .ok (bytes, rest)) :
    bytes.length < 2 ^ 32 := by
  obtain ⟨length, left, counted, taken⟩ := bind_run_ok ran
  exact lt_of_le_of_lt (length_of_take taken) (u32_lt counted)

theorem u8_run {value : Nat} (fits : value < 2 ^ 8) (rest : Bytes) :
    u8.run (encode 1 value ++ rest) = .ok (value, rest) := by
  rw [u8, map_take_run decode (length_encode 1 value), decode_encode_of_lt fits]

theorem u32_run {value : Nat} (fits : value < 2 ^ 32) (rest : Bytes) :
    u32.run (encode 4 value ++ rest) = .ok (value, rest) := by
  rw [u32, map_take_run decode (length_encode 4 value), decode_encode_of_lt fits]

theorem u64_run {value : Nat} (fits : value < 2 ^ 64) (rest : Bytes) :
    u64.run (encode 8 value ++ rest) = .ok (value, rest) := by
  rw [u64, map_take_run decode (length_encode 8 value), decode_encode_of_lt fits]

theorem i64_run {value : Int} (fits : value.bmod (2 ^ 64) = value) (rest : Bytes) :
    i64.run (encodeSigned 8 value ++ rest) = .ok (value, rest) := by
  rw [i64, map_take_run decodeSigned (length_encodeSigned 8 value),
    decodeSigned_encodeSigned_of_fits fits]

theorem blob_run {bytes encoded : Bytes} (encodes : Encoder.blob bytes = .ok encoded)
    (rest : Bytes) :
    blob.run (encoded ++ rest) = .ok (bytes, rest) := by
  obtain ⟨fits, rfl⟩ := Encoder.blob_eq_ok.mp encodes
  rw [blob, List.append_assoc, bind_run (u32_run fits _), take_run]

/-- A count is accepted when what follows is long enough. -/
theorem count_run {number minimumBytes : Nat} (fits : number < 2 ^ 32) {rest : Bytes}
    (room : number ≤ rest.length / minimumBytes) :
    (count minimumBytes).run (encode 4 number ++ rest) = .ok (number, rest) := by
  have unfolded : (count minimumBytes).run (encode 4 number ++ rest) =
      (u32 >>= fun number => get >>= fun left : Bytes =>
        require (¬ number > left.length / minimumBytes) "impossible serialized count" >>= fun _ =>
          (pure number : Decoder Nat)).run (encode 4 number ++ rest) := rfl
  rw [unfolded, bind_run (u32_run fits rest)]
  have holds : ¬ number > rest.length / minimumBytes := not_lt.mpr room
  exact require_bind_run holds "impossible serialized count" (fun _ => pure number) rest

theorem finish_run : finish.run [] = .ok ((), []) := rfl

end Decoder

/-- The bytes of the items are room enough for their count. -/
theorem count_fits {items minimumBytes : Nat} {encoded : Bytes} (positive : 0 < minimumBytes)
    (long : minimumBytes * items ≤ encoded.length) (rest : Bytes) :
    items ≤ (encoded ++ rest).length / minimumBytes := by
  rw [Nat.le_div_iff_mul_le positive, List.length_append, Nat.mul_comm]
  exact long.trans (Nat.le_add_right _ _)

end Stormglass.Snapshot
