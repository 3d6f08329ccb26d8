import Stormglass.GeneratorReplay
import Stormglass.PunctualRuns

/-!
# Bounded disorder is never late

In its bounded mode the generator draws the event time of a record at most the allowed
disorder behind the nominal time of the record, and its watermarks trail the largest event
time by the same amount. The nominal times grow, so a watermark is behind every later
record, and a run over the generator meets no late record.

Of the random engine only the documented range of `std::uniform_int_distribution` is used.
-/

namespace Stormglass

namespace DeterministicGenerator

variable {ε : Type} [RandomEngine ε]

/-- `std::uniform_int_distribution` draws from its closed range. -/
def UniformInRange (ε : Type) [RandomEngine ε] : Prop :=
  ∀ (low high : Int) (rng : ε), low ≤ high →
    low ≤ (RandomEngine.uniform low high rng).1 ∧ (RandomEngine.uniform low high rng).1 ≤ high

/-- The configurations of the bounded mode whose nominal times are representable. -/
structure BoundedMode (config : GeneratorConfig) : Prop where
  mode : config.disorderMode = .bounded
  disorder : config.maxDisorder ≤ 2 ^ 63 - 1
  representable : ∀ offset : Nat, offset < config.numRecords →
    offset * config.eventTimeStep ≤ 2 ^ 63 - 1

/-- It is enough that the nominal time at the end of the stream is representable. -/
theorem BoundedMode.of_end {config : GeneratorConfig} (valid : config.Valid)
    (mode : config.disorderMode = .bounded) (disorder : config.maxDisorder ≤ 2 ^ 63 - 1)
    (last : config.numRecords * config.eventTimeStep ≤ 2 ^ 63 - 1) : BoundedMode config := by
  refine ⟨mode, disorder, ?_⟩
  intro offset few
  have earlier : (offset : Int) ≤ config.numRecords := by omega
  exact (mul_le_mul_of_nonneg_right earlier valid.eventTimeStep).trans last

/-- A generator together with the items it has handed out: the watermarks trail the nominal
time of the next record by the disorder. -/
structure Trails (generator : DeterministicGenerator ε) (items : Batch) : Prop where
  started : 0 < generator.offset → 0 ≤ generator.maxEventTimeSeen.ms
  seen : generator.maxEventTimeSeen.ms ≤ generator.offset * generator.config.eventTimeStep
  behind : (highestWatermark items).ms ≤
    max 0 (generator.offset * generator.config.eventTimeStep - generator.config.maxDisorder)
  onTime : OnTime items

theorem drawEventTime_bounded (uniform : UniformInRange ε) {generator : DeterministicGenerator ε}
    (mode : generator.config.disorderMode = .bounded) (baseMs : Int) :
    baseMs - generator.config.maxDisorder ≤ (generator.drawEventTime baseMs).1 ∧
      (generator.drawEventTime baseMs).1 ≤ baseMs := by
  have disorder := generator.valid.maxDisorder
  have range := uniform (-generator.config.maxDisorder) 0 generator.rng (by omega)
  unfold drawEventTime
  simp only [mode, reduceCtorEq, false_and, if_false]
  omega

/-- The event time of a record lies between its nominal time and the disorder before it, cut
at zero. -/
theorem generateRecord_time (uniform : UniformInRange ε) {generator : DeterministicGenerator ε}
    (bounded : BoundedMode generator.config)
    (more : generator.offset < generator.config.numRecords) :
    max 0 (generator.offset * generator.config.eventTimeStep - generator.config.maxDisorder) ≤
        generator.generateRecord.1.eventTime.ms ∧
      generator.generateRecord.1.eventTime.ms ≤
        generator.offset * generator.config.eventTimeStep := by
  have step := generator.valid.eventTimeStep
  have nonneg := mul_nonneg (Int.natCast_nonneg generator.offset) step
  have representable := bounded.representable generator.offset more
  obtain ⟨lower, upper⟩ := drawEventTime_bounded uniform bounded.mode
    (generator.offset * generator.config.eventTimeStep)
  change _ ≤ (Timestamp.ofMs (if _ < 0 then 0 else _)).ms ∧
    (Timestamp.ofMs (if _ < 0 then 0 else _)).ms ≤ _
  split
  · rw [Timestamp.ofMs_ms (by omega) (by omega)]
    omega
  · rw [Timestamp.ofMs_ms (by omega) (by omega)]
    omega

namespace Trails

variable {generator : DeterministicGenerator ε} {items : Batch}

theorem initial (config : GeneratorConfig) (valid : config.Valid) :
    Trails (initial config valid : DeterministicGenerator ε) [] := by
  have least : (⊥ : Timestamp).ms ≤ 0 := by decide
  refine ⟨fun started => absurd started (Nat.lt_irrefl 0), ?_, ?_, onTime_nil⟩
  · change (⊥ : Timestamp).ms ≤ ((0 : Nat) : Int) * config.eventTimeStep
    rwa [Nat.cast_zero, zero_mul]
  · exact least.trans (le_max_left 0 _)

/-- The next record is not older than the watermarks, and the nominal time moves on. -/
theorem record (trails : Trails generator items) (uniform : UniformInRange ε)
    (bounded : BoundedMode generator.config)
    (more : generator.offset < generator.config.numRecords) :
    Trails { generator.generateRecord.2 with offset := generator.offset + 1 }
      (items ++ [.record generator.generateRecord.1]) := by
  obtain ⟨lower, upper⟩ := generateRecord_time uniform bounded more
  have step := generator.valid.eventTimeStep
  have advanced : ((generator.offset + 1 : Nat) : Int) * generator.config.eventTimeStep =
      generator.offset * generator.config.eventTimeStep + generator.config.eventTimeStep := by
    push_cast
    ring
  have largest : generator.generateRecord.2.maxEventTimeSeen =
      if generator.maxEventTimeSeen < generator.generateRecord.1.eventTime then
        generator.generateRecord.1.eventTime else generator.maxEventTimeSeen := rfl
  have seen := trails.seen
  have behind := trails.behind
  refine ⟨?_, ?_, ?_, ?_⟩
  · intro _
    change 0 ≤ generator.generateRecord.2.maxEventTimeSeen.ms
    rw [largest]
    split
    · omega
    · rename_i older
      rw [Timestamp.lt_iff] at older
      omega
  · change generator.generateRecord.2.maxEventTimeSeen.ms ≤
      ((generator.offset + 1 : Nat) : Int) * generator.config.eventTimeStep
    rw [largest, advanced]
    split
    · omega
    · omega
  · change _ ≤ max 0 (((generator.offset + 1 : Nat) : Int) * generator.config.eventTimeStep -
      generator.config.maxDisorder)
    rw [highestWatermark_record, advanced]
    omega
  · apply trails.onTime.record
    rw [Timestamp.le_iff]
    exact behind.trans lower

omit [RandomEngine ε] in
/-- The time of a watermark, which `InjectWatermark` cuts at zero. -/
theorem injected_time (bounded : BoundedMode generator.config)
    (nonneg : 0 ≤ generator.maxEventTimeSeen.ms) :
    (if Timestamp.ofMs (generator.maxEventTimeSeen.ms - generator.config.maxDisorder) < .ofMs 0
      then Timestamp.ofMs 0
      else .ofMs (generator.maxEventTimeSeen.ms - generator.config.maxDisorder)).ms =
      max 0 (generator.maxEventTimeSeen.ms - generator.config.maxDisorder) := by
  have disorder := generator.valid.maxDisorder
  have limit := bounded.disorder
  have largest := generator.maxEventTimeSeen.upper
  have zero : (Timestamp.ofMs 0).ms = 0 := by decide
  have time : (Timestamp.ofMs (generator.maxEventTimeSeen.ms - generator.config.maxDisorder)).ms =
      generator.maxEventTimeSeen.ms - generator.config.maxDisorder :=
    Timestamp.ofMs_ms (by omega) (by omega)
  split
  · rename_i early
    rw [Timestamp.lt_iff, time, zero] at early
    omega
  · rename_i early
    rw [Timestamp.lt_iff, time, zero] at early
    omega

omit [RandomEngine ε] in
/-- A watermark trails the largest event time by the disorder. -/
theorem watermark (trails : Trails generator items) (bounded : BoundedMode generator.config)
    (started : 0 < generator.offset) :
    Trails generator.injectWatermark.2 (items ++ generator.injectWatermark.1) := by
  unfold injectWatermark
  dsimp only
  split
  · refine ⟨trails.started, trails.seen, ?_, trails.onTime.control _⟩
    have time := injected_time bounded (trails.started started)
    have seen := trails.seen
    have behind := trails.behind
    rw [highestWatermark_watermark]
    rcases max_choice (highestWatermark items) _ with same | injected
    · rw [same]
      exact behind
    · rw [injected, time]
      dsimp only
      omega
  · rw [List.append_nil]
    exact ⟨trails.started, trails.seen, trails.behind, trails.onTime⟩

omit [RandomEngine ε] in
/-- A barrier changes no time. -/
theorem barrier (trails : Trails generator items) :
    Trails generator.injectBarrier.2 (items ++ generator.injectBarrier.1) := by
  unfold injectBarrier
  dsimp only
  split
  · split
    · refine ⟨trails.started, trails.seen, ?_, trails.onTime.control _⟩
      rw [barrierItem, highestWatermark_barrier]
      exact trails.behind
    · rw [List.append_nil]
      exact ⟨trails.started, trails.seen, trails.behind, trails.onTime⟩
  · rw [List.append_nil]
    exact trails

theorem round (trails : Trails generator items) (uniform : UniformInRange ε)
    (bounded : BoundedMode generator.config)
    (more : generator.offset < generator.config.numRecords) :
    Trails generator.round.2 (items ++ generator.round.1) := by
  have recorded := trails.record uniform bounded more
  have marked := (recorded.watermark bounded (Nat.succ_pos _)).barrier
  rwa [List.append_assoc, List.append_assoc] at marked

/-- The rounds up to the last record. -/
theorem rounds (trails : Trails generator items) (uniform : UniformInRange ε)
    (bounded : BoundedMode generator.config) {count : Nat}
    (few : generator.offset + count ≤ generator.config.numRecords) :
    Trails (generator.rounds count).2 (items ++ (generator.rounds count).1) := by
  induction count generalizing generator items with
  | zero => rwa [DeterministicGenerator.rounds, List.append_nil]
  | succ count inductionHypothesis =>
    have spec := generator.round_spec
    have later := inductionHypothesis (trails.round uniform bounded (by omega))
      (spec.config ▸ bounded) (by rw [spec.offset, spec.config]; omega)
    rwa [List.append_assoc] at later

end Trails

/-- A generator in the bounded mode hands out a stream on time. A run over it, however it
ends, meets no late record. It returns if and only if the assigner takes every event time and no
pane overflows, and then it reports each key and window once with all its records. -/
theorem bounded_disorder_never_late (uniform : UniformInRange ε) (config : GeneratorConfig)
    (valid : config.Valid) (bounded : BoundedMode config) :
    let generator : DeterministicGenerator ε := initial config valid
    ∃ batches, Source.Delivers generator batches ∧ OnTime batches.flatten ∧
      ∀ (kind : AssignerType) (lateness : Nat) (checkpointing : Bool) (fuel : Nat),
        let run := Pipeline.run fuel generator kind.makeAssigner lateness checkpointing
        KeyedProcessor.Untouched (Pipeline.outcome run).2.2.stats ∧
          (batches.length < fuel →
            ((∃ pipeline, run = .ok pipeline) ↔
              Assignable kind.makeAssigner batches.flatten ∧
                Representable kind.makeAssigner lateness batches.flatten) ∧
            ∀ pipeline, run = .ok pipeline → ∀ key window,
              KeyedWindowState.resultsFor key window pipeline.results =
                expectedResults (contributions kind.makeAssigner key window batches.flatten)) := by
  intro generator
  obtain ⟨batches, delivers, flat⟩ := delivers_rounds generator
  have trails : Trails (generator.rounds (config.numRecords - 0)).2
      ([] ++ (generator.rounds (config.numRecords - 0)).1) :=
    (Trails.initial config valid).rounds uniform bounded (Nat.zero_add _).le
  have onTime : OnTime batches.flatten := flat ▸ trails.onTime
  refine ⟨batches, delivers, onTime, ?_⟩
  intro kind lateness checkpointing fuel run
  refine ⟨Pipeline.run_untouched kind.covers (delivers.onTime onTime) fuel lateness checkpointing,
    ?_⟩
  intro enough
  refine ⟨⟨?_, ?_⟩, ?_⟩
  · rintro ⟨pipeline, returned⟩
    exact Pipeline.fits_of_run delivers enough returned
  · rintro ⟨domain, room⟩
    obtain ⟨pipeline, returned, -⟩ :=
      Pipeline.run_exactly kind.covers delivers onTime domain room enough checkpointing
    exact ⟨pipeline, returned⟩
  · intro pipeline returned
    obtain ⟨domain, room⟩ := Pipeline.fits_of_run delivers enough returned
    obtain ⟨other, same, exactly⟩ :=
      Pipeline.run_exactly kind.covers delivers onTime domain room enough checkpointing
    obtain rfl : pipeline = other := Except.ok.inj (returned.symm.trans same)
    exact exactly

/-- An engine that moves every second record as far back as it may. -/
@[reducible] def alternatingDraws : RandomEngine Nat where
  seed _ := 0
  uniform low high drawn := (if drawn % 4 = 0 then high else low, drawn + 1)
  bernoulli _ drawn := (false, drawn + 1)
  doubleText value := signedText value.num

theorem alternatingDraws_inRange : @UniformInRange Nat alternatingDraws := by
  intro low high drawn ordered
  dsimp only [RandomEngine.uniform]
  split
  · exact ⟨ordered, le_rfl⟩
  · exact ⟨le_rfl, ordered⟩

/-- Six records at a distance of ten that may be fifteen early. -/
def sixRecords : GeneratorConfig where
  numRecords := 6
  eventTimeStep := 10
  maxDisorder := 15
  watermarkInterval := 2

/-- The records are out of order, but on time. -/
theorem sixRecords_never_late :
    letI := alternatingDraws
    let generator : DeterministicGenerator Nat := initial sixRecords (by decide)
    (records (generator.rounds 6).1).map (·.eventTime.ms) = [0, 0, 20, 15, 40, 35] ∧
      ∃ batches, Source.Delivers generator batches ∧ OnTime batches.flatten ∧
        ∀ (kind : AssignerType) (lateness fuel : Nat), KeyedProcessor.Untouched
          (Pipeline.outcome (Pipeline.run fuel generator kind.makeAssigner lateness
            true)).2.2.stats := by
  let _ := alternatingDraws
  intro generator
  have bounded : BoundedMode sixRecords := .of_end (by decide) rfl (by decide) (by decide)
  obtain ⟨batches, delivers, onTime, runs⟩ := bounded_disorder_never_late alternatingDraws_inRange
    sixRecords (by decide) bounded
  refine ⟨?_, batches, delivers, onTime, fun kind lateness fuel => (runs kind lateness true fuel).1⟩
  decide +kernel

/-- Two records of one key at the times zero and one. -/
def twoRecords : GeneratorConfig where
  numRecords := 2
  numKeys := 1
  maxDisorder := 0

/-- The longest tumbling window. Its domain is the time zero. -/
def longestWindow : TumblingAssigner where
  size := 2 ^ 63 - 1
  positive := by decide
  bounded := le_rfl

/-- The first record of the bounded generator is in a window, but the assigner refuses the
event time of the second one, and the run reports nothing. -/
theorem longestWindow_stops_run :
    letI := lowestDraws
    let generator : DeterministicGenerator Unit := initial twoRecords (by decide)
    let first : Window := windowAt 0 (2 ^ 63 - 1)
    BoundedMode twoRecords ∧
      (∃ batches, Source.Delivers generator batches ∧ batches.length < 3 ∧
        contributions longestWindow.assignWindows (ascii ['k', 'e', 'y', '-', '0', '0', '0', '0'])
          first batches.flatten = [1]) ∧
      ∃ pipeline, Pipeline.run 3 generator longestWindow.assignWindows 0 false =
          .error (.outOfRange "event time outside supported nonnegative window domain", pipeline) ∧
        pipeline.results = [] := by
  let _ := lowestDraws
  intro generator first
  refine ⟨.of_end (by decide) rfl (by decide) (by decide), ?_, ?_⟩
  · refine ⟨[(generator.rounds 2).1], .handed rfl (.ended rfl), by decide, ?_⟩
    decide +kernel
  · have checked : (match Pipeline.run 3 generator longestWindow.assignWindows 0 false with
        | .error (failure, pipeline) => decide (failure = .outOfRange
            "event time outside supported nonnegative window domain") && pipeline.results.isEmpty
        | .ok _ => false) = true := by decide +kernel
    split at checked
    · rename_i failure pipeline stopped
      rw [Bool.and_eq_true, decide_eq_true_eq, List.isEmpty_iff] at checked
      exact ⟨pipeline, by rw [stopped, checked.1], checked.2⟩
    · cases checked

end DeterministicGenerator

end Stormglass
