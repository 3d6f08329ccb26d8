import Stormglass.Generator

/-!
# Replaying the generator

The stream of a generator is the items of its rounds, one round for each record. Handing
out records in batches and skipping them run through the same rounds, so the stream does
not depend on the batch size, and a generator that has been repositioned hands out the
rounds that are left.

The items of a round are a record and the controls stamped with the offset after it. This
makes the rounds that are left recognisable in the stream: they are what remains without
the first records and the controls stamped up to the offset.
-/

namespace Stormglass

/-- A stream without its first records and without the controls up to an offset. -/
def withoutFirst : Nat → Nat → Batch → Batch
  | _, _, [] => []
  | count + 1, offset, .record _ :: rest => withoutFirst count offset rest
  | 0, offset, .record data :: rest => .record data :: withoutFirst 0 offset rest
  | count, offset, .control control :: rest =>
    if control.checkpointOffset ≤ offset then withoutFirst count offset rest
    else .control control :: withoutFirst count offset rest

/-- Two configurations that agree on everything that reaches a record. -/
structure GeneratorConfig.Similar (first second : GeneratorConfig) : Prop where
  seed : first.seed = second.seed
  numKeys : first.numKeys = second.numKeys
  eventTimeStep : first.eventTimeStep = second.eventTimeStep
  maxDisorder : first.maxDisorder = second.maxDisorder
  watermarkInterval : first.watermarkInterval = second.watermarkInterval
  checkpointInterval : first.checkpointInterval = second.checkpointInterval
  disorderMode : first.disorderMode = second.disorderMode
  tail : first.disorderMode = .heavyTailed →
    first.lateFraction = second.lateFraction ∧ first.lateTail = second.lateTail

namespace DeterministicGenerator

variable {ε : Type}

/-- Controls that carry an offset. -/
def StampedWith (offset : Nat) (items : Batch) : Prop :=
  ∀ item ∈ items, ∃ control, item = .control control ∧ control.checkpointOffset = offset

section

variable (generator : DeterministicGenerator ε)

include generator

theorem injectWatermark_stamped :
    StampedWith generator.offset generator.injectWatermark.1 := by
  unfold injectWatermark
  dsimp only
  split
  · intro item member
    exact ⟨_, List.mem_singleton.mp member, rfl⟩
  · exact fun _ member => absurd member List.not_mem_nil

theorem injectBarrier_stamped :
    StampedWith generator.offset generator.injectBarrier.1 := by
  unfold injectBarrier
  dsimp only
  split
  · split
    · intro item member
      exact ⟨_, List.mem_singleton.mp member, rfl⟩
    · exact fun _ member => absurd member List.not_mem_nil
  · exact fun _ member => absurd member List.not_mem_nil

/-- The watermark leaves its counter behind, and nothing else. -/
theorem injectWatermark_after :
    generator.injectWatermark.2 = { generator with
      recordsSinceWatermark :=
        if generator.config.watermarkInterval ≤ generator.recordsSinceWatermark + 1 then 0
        else generator.recordsSinceWatermark + 1 } := by
  unfold injectWatermark
  dsimp only
  split <;> rfl

/-- The barrier leaves its counter behind, and nothing else. -/
theorem injectBarrier_after :
    generator.injectBarrier.2 =
      if 0 < generator.config.checkpointInterval then
        { generator with
          recordsSinceCheckpoint :=
            if generator.config.checkpointInterval ≤ generator.recordsSinceCheckpoint + 1 then 0
            else generator.recordsSinceCheckpoint + 1 }
      else generator := by
  unfold injectBarrier
  dsimp only
  split
  · split <;> rfl
  · rfl

theorem injectWatermark_kept :
    generator.injectWatermark.2.config = generator.config ∧
      generator.injectWatermark.2.offset = generator.offset := by
  rw [injectWatermark_after]
  exact ⟨rfl, rfl⟩

theorem injectBarrier_kept :
    generator.injectBarrier.2.config = generator.config ∧
      generator.injectBarrier.2.offset = generator.offset := by
  rw [injectBarrier_after]
  split <;> exact ⟨rfl, rfl⟩

end

variable [RandomEngine ε]

/-- Skipping a record is handing it out without looking at it. -/
theorem skip_eq (generator : DeterministicGenerator ε) : generator.skip = generator.round.2 := by
  unfold skip round
  dsimp only
  rw [injectBarrier_after, injectWatermark_after]

theorem iterate_skip (count : Nat) (generator : DeterministicGenerator ε) :
    skip^[count] generator = (generator.rounds count).2 := by
  induction count generalizing generator with
  | zero => rfl
  | succ count inductionHypothesis =>
    rw [Function.iterate_succ_apply, inductionHypothesis, skip_eq]
    rfl

theorem rounds_succ (count : Nat) (generator : DeterministicGenerator ε) :
    generator.rounds (count + 1) =
      (generator.round.1 ++ (generator.round.2.rounds count).1,
        (generator.round.2.rounds count).2) := rfl

/-- Rounds in two portions. -/
theorem rounds_add (first second : Nat) (generator : DeterministicGenerator ε) :
    generator.rounds (first + second) =
      ((generator.rounds first).1 ++ ((generator.rounds first).2.rounds second).1,
        ((generator.rounds first).2.rounds second).2) := by
  induction first generalizing generator with
  | zero => simp [rounds]
  | succ first inductionHypothesis =>
    rw [Nat.add_right_comm]
    simp only [rounds, inductionHypothesis, List.append_assoc]

/-- What a round hands out and what it leaves alone: a record, and controls stamped with the
offset after it. -/
structure Round (before : DeterministicGenerator ε) (items : Batch)
    (after : DeterministicGenerator ε) : Prop where
  config : after.config = before.config
  offset : after.offset = before.offset + 1
  items : ∃ data controls, items = .record data :: controls ∧
    StampedWith (before.offset + 1) controls

theorem round_spec (generator : DeterministicGenerator ε) :
    Round generator generator.round.1 generator.round.2 := by
  let drawn := generator.generateRecord
  let counted := { drawn.2 with offset := drawn.2.offset + 1 }
  have first := injectWatermark_kept counted
  have second := injectBarrier_kept counted.injectWatermark.2
  refine ⟨second.1.trans first.1, second.2.trans first.2, drawn.1, _, rfl, ?_⟩
  intro item member
  rcases List.mem_append.mp member with watermark | barrier
  · exact injectWatermark_stamped counted item watermark
  · have stamped := injectBarrier_stamped counted.injectWatermark.2 item barrier
    rwa [first.2] at stamped

theorem rounds_config (count : Nat) (generator : DeterministicGenerator ε) :
    (generator.rounds count).2.config = generator.config := by
  induction count generalizing generator with
  | zero => rfl
  | succ count inductionHypothesis =>
    exact (inductionHypothesis generator.round.2).trans generator.round_spec.config

theorem rounds_offset (count : Nat) (generator : DeterministicGenerator ε) :
    (generator.rounds count).2.offset = generator.offset + count := by
  induction count generalizing generator with
  | zero => rfl
  | succ count inductionHypothesis =>
    have later := inductionHypothesis generator.round.2
    rw [generator.round_spec.offset] at later
    exact later.trans (by omega)

/-- The batches of a generator are its remaining rounds, however they are grouped. -/
theorem delivers_rounds (generator : DeterministicGenerator ε) :
    ∃ batches, Source.Delivers generator batches ∧
      batches.flatten = (generator.rounds (generator.config.numRecords - generator.offset)).1 := by
  generalize left : generator.config.numRecords - generator.offset = remaining
  induction remaining using Nat.strongRecOn generalizing generator with
  | ind remaining inductionHypothesis =>
    by_cases ended : generator.config.numRecords ≤ generator.offset
    · refine ⟨[], .ended (if_pos ended), ?_⟩
      have nothing : remaining = 0 := by omega
      rw [nothing]
      rfl
    · have positive := generator.valid.batchSize
      let size := min generator.config.batchSize (generator.config.numRecords - generator.offset)
      obtain ⟨batches, delivers, flat⟩ :=
        inductionHypothesis (remaining - size) (by omega) (generator.rounds size).2
          (by rw [rounds_config, rounds_offset]; omega)
      refine ⟨(generator.rounds size).1 :: batches, .handed (if_neg ended) delivers, ?_⟩
      have split : remaining = size + (remaining - size) := by omega
      rw [split, rounds_add, List.flatten_cons, flat]

/-- Controls stamped up to an offset are removed. -/
theorem withoutFirst_stamped {count stamp offset : Nat} (early : stamp ≤ offset) {controls : Batch}
    (stamped : StampedWith stamp controls) (rest : Batch) :
    withoutFirst count offset (controls ++ rest) = withoutFirst count offset rest := by
  induction controls with
  | nil => rfl
  | cons item controls inductionHypothesis =>
    obtain ⟨control, rfl, same⟩ := stamped item List.mem_cons_self
    rw [List.cons_append, withoutFirst, if_pos (same ▸ early)]
    exact inductionHypothesis fun other member => stamped other (List.mem_cons_of_mem _ member)

/-- The controls of a number of rounds are stamped beyond the offset they start from. -/
theorem rounds_stamped (count : Nat) (generator : DeterministicGenerator ε) :
    ∀ control, .control control ∈ (generator.rounds count).1 →
      generator.offset < control.checkpointOffset := by
  induction count generalizing generator with
  | zero => exact fun _ member => absurd member List.not_mem_nil
  | succ count inductionHypothesis =>
    intro control member
    rw [rounds_succ] at member
    rcases List.mem_append.mp member with here | later
    · obtain ⟨data, controls, items, stamped⟩ := generator.round_spec.items
      rw [items] at here
      rcases List.mem_cons.mp here with record | here
      · cases record
      · obtain ⟨found, same, stamp⟩ := stamped _ here
        cases BatchItem.control.inj same
        omega
    · have beyond := inductionHypothesis generator.round.2 control later
      rw [generator.round_spec.offset] at beyond
      omega

/-- Records and controls stamped beyond the offset are kept. -/
theorem withoutFirst_late {offset : Nat} {items : Batch}
    (late : ∀ control, .control control ∈ items → offset < control.checkpointOffset) :
    withoutFirst 0 offset items = items := by
  induction items with
  | nil => rfl
  | cons item rest inductionHypothesis =>
    have kept := inductionHypothesis fun control member =>
      late control (List.mem_cons_of_mem item member)
    cases item with
    | record data => rw [withoutFirst, kept]
    | control control =>
      have beyond := late control List.mem_cons_self
      rw [withoutFirst, if_neg (by omega), kept]

/-- The first rounds are removed. -/
theorem withoutFirst_rounds {count offset : Nat} {generator : DeterministicGenerator ε}
    (reached : generator.offset + count = offset) (rest : Batch) :
    withoutFirst count offset ((generator.rounds count).1 ++ rest) =
      withoutFirst 0 offset rest := by
  induction count generalizing generator with
  | zero => rfl
  | succ count inductionHypothesis =>
    obtain ⟨data, controls, items, stamped⟩ := generator.round_spec.items
    rw [rounds_succ, items, List.append_assoc, List.cons_append, withoutFirst,
      withoutFirst_stamped (by omega) stamped]
    exact inductionHypothesis (by rw [generator.round_spec.offset]; omega)

/-- The same generator with another batch size. -/
def regroup (generator : DeterministicGenerator ε) (batchSize : Nat) (positive : batchSize ≠ 0) :
    DeterministicGenerator ε where
  config := { generator.config with batchSize := batchSize }
  valid := { generator.valid with batchSize := positive }
  rng := generator.rng
  offset := generator.offset
  recordsSinceWatermark := generator.recordsSinceWatermark
  recordsSinceCheckpoint := generator.recordsSinceCheckpoint
  maxEventTimeSeen := generator.maxEventTimeSeen

/-- Two generators in the same state whose configurations differ at most in what does not
reach a record: the length of the stream, its grouping, and the tail of a bounded disorder. -/
structure Paced (first second : DeterministicGenerator ε) : Prop where
  similar : first.config.Similar second.config
  rng : first.rng = second.rng
  offset : first.offset = second.offset
  sinceWatermark : first.recordsSinceWatermark = second.recordsSinceWatermark
  sinceCheckpoint : first.recordsSinceCheckpoint = second.recordsSinceCheckpoint
  maxEventTimeSeen : first.maxEventTimeSeen = second.maxEventTimeSeen

namespace Paced

variable {first second : DeterministicGenerator ε}

theorem drawEventTime (paced : Paced first second) (baseMs : Int) :
    first.drawEventTime baseMs = second.drawEventTime baseMs := by
  obtain ⟨-, -, -, disorder, -, -, mode, tail⟩ := paced.similar
  unfold DeterministicGenerator.drawEventTime
  by_cases heavy : second.config.disorderMode = .heavyTailed
  · obtain ⟨fraction, length⟩ := tail (mode.trans heavy)
    simp only [paced.rng, disorder, mode, fraction, length]
  · have light : first.config.disorderMode ≠ .heavyTailed :=
      fun same => heavy (mode.symm.trans same)
    simp only [heavy, light, false_and, if_false, disorder, paced.rng]

theorem generateRecord (paced : Paced first second) :
    first.generateRecord.1 = second.generateRecord.1 ∧
      Paced first.generateRecord.2 second.generateRecord.2 := by
  have drawn := paced.drawEventTime (first.offset * first.config.eventTimeStep)
  obtain ⟨-, keys, step, -⟩ := paced.similar
  unfold DeterministicGenerator.generateRecord
  dsimp only
  rw [drawn, paced.offset, keys, step, paced.maxEventTimeSeen]
  exact ⟨rfl, paced.similar, rfl, rfl, paced.sinceWatermark, paced.sinceCheckpoint, rfl⟩

omit [RandomEngine ε] in
theorem injectWatermark (paced : Paced first second) :
    first.injectWatermark.1 = second.injectWatermark.1 ∧
      Paced first.injectWatermark.2 second.injectWatermark.2 := by
  obtain ⟨-, -, -, disorder, interval, -⟩ := paced.similar
  unfold DeterministicGenerator.injectWatermark
  rw [interval, paced.sinceWatermark, paced.maxEventTimeSeen, disorder, paced.offset]
  dsimp only
  split
  · exact ⟨rfl, paced.similar, paced.rng, rfl, rfl, paced.sinceCheckpoint, rfl⟩
  · exact ⟨rfl, paced.similar, paced.rng, rfl, rfl, paced.sinceCheckpoint, rfl⟩

omit [RandomEngine ε] in
theorem injectBarrier (paced : Paced first second) :
    first.injectBarrier.1 = second.injectBarrier.1 ∧
      Paced first.injectBarrier.2 second.injectBarrier.2 := by
  obtain ⟨-, -, -, -, -, interval, -⟩ := paced.similar
  unfold DeterministicGenerator.injectBarrier
  rw [interval, paced.sinceCheckpoint, paced.offset]
  dsimp only
  split
  · split
    · exact ⟨rfl, paced.similar, paced.rng, rfl, paced.sinceWatermark, rfl, paced.maxEventTimeSeen⟩
    · exact ⟨rfl, paced.similar, paced.rng, rfl, paced.sinceWatermark, rfl, paced.maxEventTimeSeen⟩
  · exact ⟨rfl, paced⟩

/-- A round does not read what the configurations may differ in. -/
theorem round (paced : Paced first second) :
    first.round.1 = second.round.1 ∧ Paced first.round.2 second.round.2 := by
  obtain ⟨record, drawn⟩ := paced.generateRecord
  have counted : Paced { first.generateRecord.2 with offset := first.generateRecord.2.offset + 1 }
      { second.generateRecord.2 with offset := second.generateRecord.2.offset + 1 } :=
    ⟨drawn.similar, drawn.rng, congrArg (· + 1) drawn.offset, drawn.sinceWatermark,
      drawn.sinceCheckpoint, drawn.maxEventTimeSeen⟩
  obtain ⟨watermark, middle⟩ := counted.injectWatermark
  obtain ⟨barrier, last⟩ := middle.injectBarrier
  refine ⟨?_, last⟩
  unfold DeterministicGenerator.round
  dsimp only
  rw [record, watermark, barrier]

theorem rounds (paced : Paced first second) (count : Nat) :
    (first.rounds count).1 = (second.rounds count).1 := by
  induction count generalizing first second with
  | zero => rfl
  | succ count inductionHypothesis =>
    obtain ⟨items, later⟩ := paced.round
    rw [rounds_succ, rounds_succ, items, inductionHypothesis later]

end Paced

theorem rounds_regroup {batchSize : Nat} (positive : batchSize ≠ 0) (count : Nat)
    (generator : DeterministicGenerator ε) :
    ((generator.regroup batchSize positive).rounds count).1 = (generator.rounds count).1 := by
  have similar : (generator.regroup batchSize positive).config.Similar generator.config :=
    ⟨rfl, rfl, rfl, rfl, rfl, rfl, rfl, fun _ => ⟨rfl, rfl⟩⟩
  have paced : Paced (generator.regroup batchSize positive) generator :=
    ⟨similar, rfl, rfl, rfl, rfl, rfl⟩
  exact paced.rounds count

theorem records_rounds (count : Nat) (generator : DeterministicGenerator ε) :
    (records (generator.rounds count).1).length = count := by
  induction count generalizing generator with
  | zero => rfl
  | succ count inductionHypothesis =>
    obtain ⟨data, controls, items, stamped⟩ := generator.round_spec.items
    have none : records controls = [] := by
      rw [records, List.filterMap_eq_nil_iff]
      intro item member
      obtain ⟨control, rfl, -⟩ := stamped item member
      rfl
    have split : records (.record data :: controls) = [data] := by
      change data :: records controls = _
      rw [none]
    rw [rounds_succ, records_append, List.length_append, inductionHypothesis, items, split]
    exact Nat.add_comm 1 count

/-- Seeking starts over, whatever the generator was used for before. -/
theorem seek_eq (generator : DeterministicGenerator ε) (offset : Nat) :
    generator.seek offset = ((initial generator.config generator.valid).rounds offset).2 :=
  iterate_skip offset _

/-- The uninterrupted stream has `num_records` records. After `Seek(O)` a generator hands it out,
in batches of any size, without its first `O` records and the controls stamped up to `O`. -/
theorem seek_replays_suffix (generator : DeterministicGenerator ε) (offset : Nat)
    (inside : offset ≤ generator.config.numRecords) (batchSize : Nat) (positive : batchSize ≠ 0) :
    ∃ whole rest,
      Source.Delivers
        ((initial generator.config generator.valid : DeterministicGenerator ε).regroup batchSize
          positive) whole ∧
      (records whole.flatten).length = generator.config.numRecords ∧
      Source.Delivers (Source.seek generator offset) rest ∧
      rest.flatten = withoutFirst offset offset whole.flatten := by
  let start : DeterministicGenerator ε := initial generator.config generator.valid
  obtain ⟨whole, delivers, flat⟩ := delivers_rounds (start.regroup batchSize positive)
  obtain ⟨rest, continues, flatRest⟩ := delivers_rounds (generator.seek offset)
  refine ⟨whole, rest, delivers, ?_, continues, ?_⟩
  · rw [flat, records_rounds]
    rfl
  have config : (generator.seek offset).config = generator.config := by
    rw [seek_eq]
    exact rounds_config offset start
  have position : (generator.seek offset).offset = offset := by
    rw [seek_eq, rounds_offset]
    exact Nat.zero_add offset
  have total : (start.regroup batchSize positive).config.numRecords -
      (start.regroup batchSize positive).offset =
        offset + (generator.config.numRecords - offset) := by
    change generator.config.numRecords - 0 = _
    omega
  rw [flat, total, rounds_regroup, rounds_add, flatRest, config, position, ← seek_eq,
    withoutFirst_rounds (Nat.zero_add offset)]
  symm
  apply withoutFirst_late
  intro control member
  have beyond := rounds_stamped _ _ control member
  rwa [position] at beyond

/-- An engine that always draws the lower bound. -/
@[reducible] def lowestDraws : RandomEngine Unit where
  seed _ := ()
  uniform low _ _ := (low, ())
  bernoulli _ _ := (false, ())
  -- what a stream writes for a whole number
  doubleText value := signedText value.num

/-- Five records with a watermark after every second one and a barrier after every third. -/
def fiveRecords : GeneratorConfig where
  numRecords := 5
  maxDisorder := 0
  watermarkInterval := 2
  checkpointInterval := 3

theorem fiveRecords_replay :
    ∃ whole rest,
      @Source.Delivers _ (@instPositionedSource Unit lowestDraws).toSource
        (regroup (@initial Unit lowestDraws fiveRecords (by decide)) 2 (by decide)) whole ∧
      (records whole.flatten).length = 5 ∧
      @Source.Delivers _ (@instPositionedSource Unit lowestDraws).toSource
        (@seek Unit lowestDraws (@initial Unit lowestDraws fiveRecords (by decide)) 3) rest ∧
      rest.flatten = withoutFirst 3 3 whole.flatten :=
  @seek_replays_suffix Unit lowestDraws (@initial Unit lowestDraws fiveRecords (by decide)) 3
    (by decide) 2 (by decide)

end DeterministicGenerator

end Stormglass
