import Stormglass.GeneratorReplay

/-!
# The places a generator can be led back to

An offset counts records and does not tell the controls apart that stand between two records. A
generator hands out the controls of a record in the same round, and a barrier is the last of
them, so seeking to the offset of a barrier leads back to the place behind it.
-/

namespace Stormglass

namespace DeterministicGenerator

variable {ε : Type} [RandomEngine ε]

/-- A round has at most one barrier, and it is the last item. -/
theorem round_barrier (generator : DeterministicGenerator ε) :
    ∃ front, (∀ item ∈ front, item.barrier? = none) ∧
      (generator.round.1 = front ∨
        generator.round.1 = front ++ [barrierItem (generator.offset + 1)]) := by
  let drawn := generator.generateRecord
  let counted := { drawn.2 with offset := drawn.2.offset + 1 }
  have kept := (injectWatermark_kept counted).2
  have plain : ∀ item ∈ .record drawn.1 :: counted.injectWatermark.1, item.barrier? = none := by
    unfold injectWatermark
    dsimp only
    split <;> simp [BatchItem.barrier?, watermarkItem]
  have last : counted.injectWatermark.2.injectBarrier.1 = [] ∨
      counted.injectWatermark.2.injectBarrier.1 = [barrierItem (generator.offset + 1)] := by
    unfold injectBarrier
    dsimp only
    rw [kept]
    split_ifs
    · exact .inr rfl
    · exact .inl rfl
    · exact .inl rfl
  have items : generator.round.1 = (.record drawn.1 :: counted.injectWatermark.1) ++
      counted.injectWatermark.2.injectBarrier.1 := rfl
  refine ⟨_, plain, last.imp (fun none_ => ?_) fun one => ?_⟩
  · rw [items, none_, List.append_nil]
  · rw [items, one]

/-- A barrier ends its round and is stamped with the records so far. -/
theorem rounds_barrier {count place stamp : Nat} {generator : DeterministicGenerator ε}
    {item : BatchItem} (here : (generator.rounds count).1[place]? = some item)
    (barrier : item.barrier? = some stamp) :
    ∃ earlier ≤ count, (generator.rounds earlier).1.length = place + 1 ∧
      stamp = generator.offset + earlier := by
  induction count generalizing generator place with
  | zero => cases here
  | succ count inductionHypothesis =>
    rw [rounds_succ] at here
    by_cases first : place < generator.round.1.length
    · rw [List.getElem?_append_left first] at here
      obtain ⟨front, plain, same | same⟩ := generator.round_barrier
      · rw [plain item (same ▸ List.mem_of_getElem? here)] at barrier
        cases barrier
      · refine ⟨1, by omega, ?_⟩
        rw [rounds_succ, rounds, List.append_nil]
        rw [same] at here first ⊢
        by_cases early : place < front.length
        · rw [List.getElem?_append_left early] at here
          rw [plain item (List.mem_of_getElem? here)] at barrier
          cases barrier
        · obtain rfl : place = front.length := by simp at first; omega
          rw [List.getElem?_concat_length] at here
          cases here
          exact ⟨by simp, (Option.some.inj barrier).symm⟩
    · rw [List.getElem?_append_right (not_lt.mp first)] at here
      obtain ⟨earlier, bounded, reached, same⟩ := inductionHypothesis here
      rw [generator.round_spec.offset] at same
      refine ⟨earlier + 1, by omega, ?_, by omega⟩
      rw [rounds_succ, List.length_append, reached]
      omega

section Places

variable (ε) (config : GeneratorConfig) (valid : config.Valid)

/-- The stream of a generator up to a number of rounds. -/
def roundsOf (count : Nat) : Batch :=
  ((initial config valid : DeterministicGenerator ε).rounds count).1

/-- The stream of a generator. -/
def wholeStream : Batch := roundsOf ε config valid config.numRecords

variable {ε config valid} {count : Nat}

/-- The rounds up to a place, and those behind it. -/
theorem wholeStream_split (inside : count ≤ config.numRecords) :
    wholeStream ε config valid = roundsOf ε config valid count ++
      (((initial config valid : DeterministicGenerator ε).rounds count).2.rounds
        (config.numRecords - count)).1 := by
  obtain ⟨left, total⟩ := Nat.exists_eq_add_of_le inside
  rw [wholeStream, roundsOf, total, rounds_add, Nat.add_sub_cancel_left]
  rfl

theorem take_wholeStream (inside : count ≤ config.numRecords) :
    (wholeStream ε config valid).take (roundsOf ε config valid count).length =
      roundsOf ε config valid count := by
  rw [wholeStream_split inside, List.take_left]

/-- A generator that was led to an offset hands out the rounds behind it. -/
theorem seek_delivers (count : Nat) :
    ∃ batches, Source.Delivers ((initial config valid : DeterministicGenerator ε).seek count)
        batches ∧
      batches.flatten = (((initial config valid : DeterministicGenerator ε).rounds count).2.rounds
        (config.numRecords - count)).1 := by
  obtain ⟨batches, delivers, flat⟩ :=
    ((initial config valid : DeterministicGenerator ε).seek count).delivers_rounds
  refine ⟨batches, delivers, ?_⟩
  rw [flat, seek_eq, rounds_config, rounds_offset]
  congr 3
  exact Nat.zero_add count

/-- The stream up to a barrier is the rounds that the offset of the barrier counts. -/
theorem wholeStream_barrier {front back : Batch} {control : ControlRecord}
    (split : wholeStream ε config valid = front ++ .control control :: back)
    (kind : control.type = .checkpointBarrier) :
    control.checkpointOffset ≤ config.numRecords ∧
      roundsOf ε config valid control.checkpointOffset = front ++ [.control control] := by
  have here : (wholeStream ε config valid)[front.length]? = some (.control control) := by
    rw [split]
    simp
  have stamp : (BatchItem.control control).barrier? = some control.checkpointOffset := by
    cases control
    cases kind
    rfl
  obtain ⟨count, inside, reached, same⟩ := rounds_barrier here stamp
  have counted : control.checkpointOffset = count := same.trans (Nat.zero_add count)
  have length : (roundsOf ε config valid count).length =
      (front ++ [BatchItem.control control]).length := by
    rw [List.length_append]
    exact reached
  rw [List.append_cons] at split
  rw [counted, ← take_wholeStream inside, length, split, List.take_left]
  exact ⟨inside, rfl⟩

end Places

end DeterministicGenerator

end Stormglass
