import Stormglass.CheckpointRoundTrip

/-!
# Local corruption of a checkpoint file

A file that the writer produced and a file of the same length that differs from it
inside four consecutive bytes cannot both be accepted. If the body changed, the stored
checksum is too far away to have changed as well, and the checksum tells the bodies
apart. If the body is the same, the number of panes in the header fixes the one in the
trailer and the body fixes the checksum.
-/

namespace Stormglass.CheckpointReader

open LittleEndian

/-- Two strings agree outside a window of four bytes. -/
def AgreeOutside (start : Nat) (left right : Bytes) : Prop :=
  left.length = right.length ∧
    ∀ index, index < start ∨ start + 4 ≤ index → left[index]? = right[index]?

namespace AgreeOutside

variable {start : Nat} {left right : Bytes}

section

variable (agree : AgreeOutside start left right)

include agree

theorem take_eq : left.take start = right.take start := by
  apply List.ext_getElem?
  intro index
  rw [List.getElem?_take, List.getElem?_take]
  split
  · exact agree.2 index (.inl ‹_›)
  · rfl

theorem drop_eq (position : Nat) (behind : start + 4 ≤ position) :
    left.drop position = right.drop position := by
  apply List.ext_getElem?
  intro index
  rw [List.getElem?_drop, List.getElem?_drop]
  exact agree.2 _ (.inr (by omega))

/-- Shorter prefixes agree outside the window as well. -/
theorem take (length : Nat) :
    AgreeOutside start (left.take length) (right.take length) := by
  refine ⟨by rw [List.length_take, List.length_take, agree.1], fun index outside => ?_⟩
  rw [List.getElem?_take, List.getElem?_take, agree.2 index outside]

/-- The checksum tells strings apart that agree outside a window. -/
theorem eq_of_crc32c (same : crc32c left = crc32c right) : left = right := by
  have split (bytes : Bytes) :
      bytes = bytes.take start ++ (bytes.drop start).take 4 ++ bytes.drop (start + 4) := by
    rw [List.append_assoc, ← List.drop_drop, List.take_append_drop, List.take_append_drop]
  have short : ((left.drop start).take 4).length ≤ 4 := List.length_take_le _ _
  have sameLength : ((left.drop start).take 4).length = ((right.drop start).take 4).length := by
    simp only [List.length_take, List.length_drop, agree.1]
  have window : (left.drop start).take 4 = (right.drop start).take 4 := by
    rw [split left, split right, ← agree.take_eq, ← agree.drop_eq _ le_rfl] at same
    exact crc32c_detects short sameLength same
  rw [split left, split right, agree.take_eq, window, agree.drop_eq _ le_rfl]

end

end AgreeOutside

theorem length_fileLayout (version : Nat) (contents : CheckpointData) :
    (fileLayout version contents).length = (bodyLayout version contents).length + 12 := by
  simp only [fileLayout, List.length_append, length_encode]

theorem take_fileLayout (version : Nat) (contents : CheckpointData) :
    (fileLayout version contents).take (bodyLayout version contents).length =
      bodyLayout version contents := by
  rw [fileLayout, List.append_assoc, List.take_left]

theorem drop_fileLayout (version : Nat) (contents : CheckpointData) :
    (fileLayout version contents).drop ((bodyLayout version contents).length + 8) =
      encode 4 (crc32c (bodyLayout version contents)).toNat := by
  apply List.drop_left'
  rw [List.length_append, length_encode]

theorem encode_panes_here (version : Nat) (contents : CheckpointData) :
    encode 8 contents.panes.length <+: (bodyLayout version contents).drop 24 := by
  have whole : bodyLayout version contents <+: (bodyLayout version contents).drop 0 :=
    List.prefix_refl _
  obtain ⟨_, _, _, _, here, _⟩ := bodyLayout_prefix_iff.mp whole
  exact here

/-- The body determines the encoded number of panes. -/
theorem encode_panes_eq {version other : Nat} {left right : CheckpointData}
    (same : bodyLayout version left = bodyLayout other right) :
    encode 8 left.panes.length = encode 8 right.panes.length := by
  have leftHere := encode_panes_here version left
  rw [same] at leftHere
  apply (List.prefix_of_prefix_length_le leftHere (encode_panes_here other right)
    (by simp)).eq_of_length
  simp

/-- Two layouts that agree outside a window of four bytes are equal. -/
theorem fileLayout_eq_of_agree {start version other : Nat} {left right : CheckpointData}
    (agree : AgreeOutside start (fileLayout version left) (fileLayout other right)) :
    fileLayout version left = fileLayout other right := by
  have length : (bodyLayout version left).length = (bodyLayout other right).length := by
    have whole := agree.1
    rw [length_fileLayout, length_fileLayout] at whole
    omega
  have bodies := agree.take (bodyLayout version left).length
  rw [take_fileLayout, length, take_fileLayout] at bodies
  have body : bodyLayout version left = bodyLayout other right := by
    by_cases early : start < (bodyLayout version left).length
    · -- the checksum is eight bytes behind the body, so it did not change
      have stored := agree.drop_eq ((bodyLayout version left).length + 8) (by omega)
      rw [drop_fileLayout, length, drop_fileLayout] at stored
      have checksums := congrArg decode stored
      rw [decode_encode_of_lt (UInt32.toNat_lt _), decode_encode_of_lt (UInt32.toNat_lt _)]
        at checksums
      exact bodies.eq_of_crc32c (UInt32.toNat_inj.mp checksums)
    · have fronts := bodies.take_eq
      rwa [List.take_of_length_le (by omega), List.take_of_length_le (by omega)] at fronts
  rw [fileLayout, fileLayout, body, encode_panes_eq body]

/-- **Local corruption is always detected.** A file of the writer, in whatever order it
lists its entries, that was changed inside four consecutive bytes is not loaded. -/
theorem tryLoad_corrupted (offset : Nat) (watermark : Timestamp) (state : KeyedWindowState)
    (walk : state.Walk) (start : Nat) (corrupted : Bytes)
    (agree : AgreeOutside start corrupted (CheckpointWriter.payload offset watermark state walk))
    (changed : corrupted ≠ CheckpointWriter.payload offset watermark state walk) :
    tryLoad corrupted = none := by
  rw [CheckpointWriter.payload_eq] at agree changed
  rw [Option.eq_none_iff_forall_ne_some]
  intro contents loaded
  obtain ⟨version, _, rfl⟩ := parse_sound (tryLoad_eq_some.mp loaded)
  exact changed (fileLayout_eq_of_agree agree)

/-- A file with two panes, listed backwards, a fired window and a pending one, and with another
byte for the key of its first pane. -/
theorem tryLoad_corrupted_key :
    tryLoad ((CheckpointWriter.payload 3 KeyedProcessor.lateProcessor.watermark
      KeyedProcessor.lateProcessor.state
      KeyedProcessor.lateProcessor.state.sorted.reverse).set 36 107) = none := by
  apply tryLoad_corrupted 3 KeyedProcessor.lateProcessor.watermark
    KeyedProcessor.lateProcessor.state KeyedProcessor.lateProcessor.state.sorted.reverse 36
  · refine ⟨by simp, fun index outside => ?_⟩
    rw [List.getElem?_set_ne (by omega)]
  · intro same
    have key := congrArg (fun bytes => bytes[36]?) same
    rw [List.getElem?_set_self (by decide +kernel)] at key
    exact absurd key (by decide +kernel)

end Stormglass.CheckpointReader
