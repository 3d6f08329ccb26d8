import Stormglass.CheckpointDirectory
import Stormglass.Source

/-!
# The deterministic generator

`DeterministicGenerator` produces records from a seeded random engine and interleaves
watermarks and barriers at fixed intervals. `Seek` starts over and generates the records up
to the requested offset again without handing them out.

The engine and the distributions of the standard library are functions of the state of the
engine, and so is the text of a floating-point number; nothing else is assumed about them.
Timestamps wrap like two's complement numbers.

Seeking runs through the same states as handing records out, since the controls of the
stream draw nothing from the engine.
-/

namespace Stormglass

/-- What the generator uses of the standard library: the random engine with its two
distributions, and the output of a `double` with 17 digits. -/
class RandomEngine (ε : Type) where
  seed : Nat → ε
  uniform : Int → Int → ε → Int × ε
  bernoulli : Rat → ε → Bool × ε
  doubleText : Rat → Bytes

inductive DisorderMode where
  | bounded
  | heavyTailed
deriving DecidableEq

structure GeneratorConfig where
  seed : Nat := 42
  numKeys : Nat := 10
  numRecords : Nat := 100000
  eventTimeStep : Int := 1
  maxDisorder : Int := 5000
  batchSize : Nat := 1024
  watermarkInterval : Nat := 100
  checkpointInterval : Nat := 0
  disorderMode : DisorderMode := .bounded
  lateFraction : Rat := 0
  lateTail : Int := 0
deriving DecidableEq

/-- The check of the constructor. -/
structure GeneratorConfig.Valid (config : GeneratorConfig) : Prop where
  numKeys : config.numKeys ≠ 0
  batchSize : config.batchSize ≠ 0
  watermarkInterval : config.watermarkInterval ≠ 0
  maxDisorder : 0 ≤ config.maxDisorder
  eventTimeStep : 0 ≤ config.eventTimeStep
  lateFraction : 0 ≤ config.lateFraction ∧ config.lateFraction ≤ 1

theorem GeneratorConfig.valid_iff (config : GeneratorConfig) :
    config.Valid ↔ config.numKeys ≠ 0 ∧ config.batchSize ≠ 0 ∧ config.watermarkInterval ≠ 0 ∧
      0 ≤ config.maxDisorder ∧ 0 ≤ config.eventTimeStep ∧
        0 ≤ config.lateFraction ∧ config.lateFraction ≤ 1 := by
  constructor
  · rintro ⟨keys, batch, interval, disorder, step, fraction⟩
    exact ⟨keys, batch, interval, disorder, step, fraction⟩
  · rintro ⟨keys, batch, interval, disorder, step, fraction⟩
    exact ⟨keys, batch, interval, disorder, step, fraction⟩

instance (config : GeneratorConfig) : Decidable config.Valid :=
  decidable_of_iff' _ config.valid_iff

/-- A generator has passed the check of its constructor. -/
structure DeterministicGenerator (ε : Type) where
  config : GeneratorConfig
  valid : config.Valid
  rng : ε
  offset : Nat
  recordsSinceWatermark : Nat
  recordsSinceCheckpoint : Nat
  maxEventTimeSeen : Timestamp

namespace DeterministicGenerator

variable {ε : Type} [RandomEngine ε]

/-- A generator before its first record. -/
def initial (config : GeneratorConfig) (valid : config.Valid) : DeterministicGenerator ε where
  config := config
  valid := valid
  rng := RandomEngine.seed config.seed
  offset := 0
  recordsSinceWatermark := 0
  recordsSinceCheckpoint := 0
  maxEventTimeSeen := ⊥

/-- The constructor. -/
def create (config : GeneratorConfig) : Except Failure (DeterministicGenerator ε) :=
  if valid : config.Valid then .ok (initial config valid)
  else .error (.invalidArgument "invalid generator configuration")

/-- The event time of the next record before it is cut at zero, and the engine after its
draws. A heavy-tailed generator tosses a coin first. -/
def drawEventTime (generator : DeterministicGenerator ε) (baseMs : Int) : Int × ε :=
  let config := generator.config
  let jitter := fun rng : ε =>
    let drawn := RandomEngine.uniform (-config.maxDisorder) 0 rng
    (baseMs + drawn.1, drawn.2)
  if config.disorderMode = .heavyTailed ∧ 0 < config.lateFraction then
    let coin := RandomEngine.bernoulli config.lateFraction generator.rng
    if coin.1 = true then
      let drawn := RandomEngine.uniform 1 (max 1 config.lateTail) coin.2
      (baseMs - config.maxDisorder - drawn.1, drawn.2)
    else jitter coin.2
  else jitter generator.rng

/-- `GenerateRecord` -/
def generateRecord (generator : DeterministicGenerator ε) : Record × DeterministicGenerator ε :=
  let number := generator.offset % generator.config.numKeys
  let baseMs := generator.offset * generator.config.eventTimeStep
  let event := generator.drawEventTime baseMs
  let eventTime := Timestamp.ofMs (if event.1 < 0 then 0 else event.1)
  let value := RandomEngine.uniform 1 1000 event.2
  ({ key := ascii ['k', 'e', 'y', '-'] ++ decimalDigits (max 4 (Nat.log 10 number + 1)) number
     value := value.1
     eventTime := eventTime
     processingTime := Timestamp.ofMs baseMs },
    { generator with
      rng := value.2
      maxEventTimeSeen :=
        if generator.maxEventTimeSeen < eventTime then eventTime else generator.maxEventTimeSeen })

/-- The watermark that the interval asks for after a record. -/
def injectWatermark (generator : DeterministicGenerator ε) : Batch × DeterministicGenerator ε :=
  let since := generator.recordsSinceWatermark + 1
  if generator.config.watermarkInterval ≤ since then
    let time := Timestamp.ofMs (generator.maxEventTimeSeen.ms - generator.config.maxDisorder)
    ([watermarkItem (if time < .ofMs 0 then .ofMs 0 else time) generator.offset],
      { generator with recordsSinceWatermark := 0 })
  else ([], { generator with recordsSinceWatermark := since })

/-- The barrier that the interval asks for after a record, if there are barriers. -/
def injectBarrier (generator : DeterministicGenerator ε) : Batch × DeterministicGenerator ε :=
  if 0 < generator.config.checkpointInterval then
    let since := generator.recordsSinceCheckpoint + 1
    if generator.config.checkpointInterval ≤ since then
      ([barrierItem generator.offset], { generator with recordsSinceCheckpoint := 0 })
    else ([], { generator with recordsSinceCheckpoint := since })
  else ([], generator)

/-- One round of the loop of `Next`. -/
def round (generator : DeterministicGenerator ε) : Batch × DeterministicGenerator ε :=
  let (record, generator) := generator.generateRecord
  let generator := { generator with offset := generator.offset + 1 }
  let (watermark, generator) := generator.injectWatermark
  let (barrier, generator) := generator.injectBarrier
  (.record record :: (watermark ++ barrier), generator)

/-- The items of a number of rounds. -/
def rounds : Nat → DeterministicGenerator ε → Batch × DeterministicGenerator ε
  | 0, generator => ([], generator)
  | count + 1, generator =>
    let (items, generator) := generator.round
    let (rest, generator) := rounds count generator
    (items ++ rest, generator)

/-- `Next` -/
def next (generator : DeterministicGenerator ε) : Option (Batch × DeterministicGenerator ε) :=
  if generator.config.numRecords ≤ generator.offset then none
  else some (generator.rounds
    (min generator.config.batchSize (generator.config.numRecords - generator.offset)))

/-- One round of the loop of `Seek`: the counters without the controls. -/
def skip (generator : DeterministicGenerator ε) : DeterministicGenerator ε :=
  let generator := generator.generateRecord.2
  let generator := { generator with offset := generator.offset + 1 }
  let since := generator.recordsSinceWatermark + 1
  let generator := { generator with
    recordsSinceWatermark := if generator.config.watermarkInterval ≤ since then 0 else since }
  if 0 < generator.config.checkpointInterval then
    let since := generator.recordsSinceCheckpoint + 1
    { generator with
      recordsSinceCheckpoint := if generator.config.checkpointInterval ≤ since then 0 else since }
  else generator

/-- `Seek` -/
def seek (generator : DeterministicGenerator ε) (offset : Nat) : DeterministicGenerator ε :=
  skip^[offset] (initial generator.config generator.valid)

/-- A signed number as a stream writes it. -/
def signedText (value : Int) : Bytes :=
  if value < 0 then ascii ['-'] ++ toDecimal value.natAbs else toDecimal value.natAbs

/-- `Descriptor`: everything that determines the stream but its length and its grouping. -/
def descriptor (generator : DeterministicGenerator ε) : Bytes :=
  let config := generator.config
  let field := fun (name : String) (text : Bytes) => ascii name.toList ++ text
  field "generator(seed=" (toDecimal config.seed) ++
    field ",keys=" (toDecimal config.numKeys) ++
    field ",step_ms=" (signedText config.eventTimeStep) ++
    field ",disorder_ms=" (signedText config.maxDisorder) ++
    field ",watermark_interval=" (toDecimal config.watermarkInterval) ++
    field ",checkpoint_interval=" (toDecimal config.checkpointInterval) ++
    field ",disorder_mode="
      (toDecimal (match config.disorderMode with | .bounded => 0 | .heavyTailed => 1)) ++
    (if config.disorderMode = .heavyTailed then
      field ",late_fraction=" (@RandomEngine.doubleText ε _ config.lateFraction) ++
        field ",late_tail_ms=" (signedText config.lateTail)
    else []) ++
    ascii [')']

instance : PositionedSource (DeterministicGenerator ε) where
  next := next
  seek := seek
  descriptor := descriptor
  currentOffset := offset

end DeterministicGenerator

end Stormglass
