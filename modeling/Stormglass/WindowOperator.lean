import Stormglass.CheckpointGrammar
import Stormglass.OracleAgreement
import Stormglass.SnapshotCodec

/-!
# The window operator of the snapshot network

`WindowOperator` feeds the messages of several inputs to one keyed processor. A payload
holds a record or a watermark of its input. The operator keeps the last watermark of each
input and gives their minimum to the processor.

`create` fails like the constructor, and `apply` fails like `Apply`: with the operator it
leaves behind. `capture` writes the operator down, and `restore` reads that into a fresh
operator. It checks everything before it changes the operator.
-/

namespace Stormglass.Snapshot

open LittleEndian

/-- A message of an input. -/
inductive Input where
  | record (record : Record)
  | watermark (time : Timestamp)
deriving DecidableEq

namespace Input

/-- The record of a message. -/
def record? : Input → Option Record
  | record data => some data
  | watermark _ => none

/-- The watermark of a message. -/
def watermark? : Input → Option Timestamp
  | record _ => none
  | watermark time => some time

end Input

structure WindowOperator where
  watermarks : Std.ExtTreeMap NodeId Timestamp
  windowMs : Int64
  slideMs : Int64
  latenessMs : Int64
  processor : KeyedProcessor
  records : Nat := 0
  touched : Bool := false

namespace WindowOperator

/-- `WindowOperator::Data` -/
def data (record : Record) : Except String Bytes := do
  let key ← Encoder.blob record.key
  pure (encode 1 1 ++ key ++ encodeSigned 8 record.value ++ encodeSigned 8 record.eventTime.ms ++
    encodeSigned 8 record.processingTime.ms)

/-- `WindowOperator::Watermark` -/
def watermark (time : Timestamp) : Bytes := encode 1 2 ++ encodeSigned 8 time.ms

/-- The payload of a message. -/
def payload : Input → Except String Bytes
  | .record record => data record
  | .watermark time => .ok (watermark time)

/-- The payloads of messages, each with its input. -/
def payloads : List (NodeId × Input) → Except String (List (NodeId × Bytes))
  | [] => .ok []
  | (input, message) :: rest => do
      let bytes ← payload message
      let later ← payloads rest
      pure ((input, bytes) :: later)

/-- The reads of `Apply`. -/
def readPayload : Decoder Input := do
  let kind ← Decoder.u8
  if kind = 1 then
    let key ← Decoder.blob
    let value ← Decoder.i64
    let eventTime ← Decoder.i64
    let processingTime ← Decoder.i64
    Decoder.finish
    pure (.record
      { key, value, eventTime := .ofMs eventTime, processingTime := .ofMs processingTime })
  else if kind = 2 then
    let time ← Decoder.i64
    Decoder.finish
    pure (.watermark (.ofMs time))
  else throw "unknown window input payload"

/-- The assigner of a configuration: sliding windows if there is a slide. -/
def chooseAssigner (windowMs slideMs : Int64) : Except Failure AssignerType :=
  if slideMs.toInt ≠ 0 then
    if positive : 0 < windowMs.toInt ∧ 0 < slideMs.toInt then
      .ok (.sliding
        { windowSize := windowMs.toInt
          slide := slideMs.toInt
          positive := positive
          bounded := ⟨Int64.toInt_le windowMs, Int64.toInt_le slideMs⟩ })
    else .error (.invalidArgument "window size and slide must be positive")
  else
    if positive : 0 < windowMs.toInt then
      .ok (.tumbling
        { size := windowMs.toInt
          positive := positive
          bounded := Int64.toInt_le windowMs })
    else .error (.invalidArgument "window size must be positive")

/-- The loop of the constructor that starts every input at `Timestamp::min()`. -/
def addInputs : List NodeId → Std.ExtTreeMap NodeId Timestamp →
    Except Failure (Std.ExtTreeMap NodeId Timestamp)
  | [], watermarks => .ok watermarks
  | input :: rest, watermarks =>
      if input ∈ watermarks then .error (.invalidArgument "duplicate window input")
      else addInputs rest (watermarks.insert input ⊥)

/-- The constructor. -/
def create (inputs : List NodeId) (windowMs slideMs latenessMs : Int64) :
    Except Failure WindowOperator := do
  if inputs = [] ∨ slideMs.toInt < 0 then
    throw (.invalidArgument "invalid window input/slide configuration")
  let watermarks ← addInputs inputs ∅
  let assigner ← chooseAssigner windowMs slideMs
  if latenessMs.toInt < 0 then throw (.invalidArgument "lateness must be nonnegative")
  pure
    { watermarks := watermarks
      windowMs := windowMs
      slideMs := slideMs
      latenessMs := latenessMs
      processor := .create assigner.makeAssigner latenessMs.toInt.toNat false }

/-- The least of the inputs' watermarks. -/
def combined (watermarks : Std.ExtTreeMap NodeId Timestamp) : Timestamp :=
  watermarks.foldl (fun minimum _ value => min minimum value) ⊤

/-- The record branch of `Apply`. -/
def applyRecord (operator : WindowOperator) (record : Record) :
    Except (Failure × WindowOperator) (List Effect × WindowOperator) :=
  if operator.records = 2 ^ 64 - 1 then
    .error (.overflowError "window record count overflow", operator)
  else
    match operator.processor.processRecord record with
    | .error (failure, processor) => .error (failure, { operator with processor := processor })
    | .ok processor =>
        .ok ([], { operator with processor := processor, records := operator.records + 1 })

/-- The watermark branch of `Apply`, for an input at the given watermark. -/
def applyWatermark (operator : WindowOperator) (input : NodeId) (current time : Timestamp) :
    Except (Failure × WindowOperator) (List Effect × WindowOperator) :=
  if time < current then
    .error (.runtimeError "network source watermark regressed", operator)
  else
    let watermarks := operator.watermarks.insert input time
    let processed := operator.processor.processControl
      { type := .watermark, watermark := combined watermarks, checkpointOffset := operator.records }
    .ok (processed.1, { operator with watermarks := watermarks, processor := processed.2 })

/-- `WindowOperator::Apply`, with what it does to the sink. -/
def apply (operator : WindowOperator) (input : NodeId) (payload : Bytes) :
    Except (Failure × WindowOperator) (List Effect × WindowOperator) :=
  match operator.watermarks[input]? with
  | none => .error (.runtimeError "unknown window input", operator)
  | some current =>
    let operator := { operator with touched := true }
    match readPayload.run payload with
    | .error message => .error (.runtimeError message, operator)
    | .ok (.record record, _) => operator.applyRecord record
    | .ok (.watermark time, _) => operator.applyWatermark input current time

/-- `WindowOperator::FinalFlush` -/
def finalFlush (operator : WindowOperator) : List Effect × WindowOperator :=
  let flushed := operator.processor.finalFlush
  (flushed.1, { operator with processor := flushed.2 })

/-- Apply payloads in order, collecting the effects. -/
def applyAll : WindowOperator → List (NodeId × Bytes) →
    Except (Failure × WindowOperator) (List Effect × WindowOperator)
  | operator, [] => .ok ([], operator)
  | operator, (input, payload) :: rest => do
      let (effects, middle) ← operator.apply input payload
      let (later, final) ← middle.applyAll rest
      pure (effects ++ later, final)

/-- Apply all payloads and flush: the emitted results and the operator at the end. -/
def run (operator : WindowOperator) (payloads : List (NodeId × Bytes)) :
    Except (Failure × WindowOperator) (List WindowResult × WindowOperator) := do
  let (effects, final) ← operator.applyAll payloads
  let (last, flushed) := final.finalFlush
  pure (emissions (effects ++ last), flushed)

/-- A pane as `Capture` writes it. -/
def writePane (entry : PaneEntry) : Except String Bytes := do
  let key ← Encoder.blob entry.key
  pure (key ++ entry.window.encode ++ encodeSigned 8 entry.sum ++ encode 8 entry.count)

/-- An input as `Capture` writes it. -/
def writeInput (entry : NodeId × Timestamp) : Bytes :=
  encode 4 entry.1.toNat ++ encodeSigned 8 entry.2.ms

/-- A counted list of windows. The count is cut to 32 bits. -/
def writeWindows (windows : List Window) : Bytes :=
  encode 4 windows.length ++ windows.flatMap Window.encode

/-- The first word of a snapshot. -/
def snapshotMagic : Nat := 0x53475731

/-- `WindowOperator::Capture`, with what it does to the sink. -/
def capture (operator : WindowOperator)
    (walk : operator.processor.state.Walk := operator.processor.state.sorted) :
    List Effect × Except String Bytes :=
  let state := operator.processor.capture operator.records walk
  ([.flush], do
    let panes ← state.panes.mapM writePane
    pure (encode 4 snapshotMagic ++
      encodeSigned 8 operator.windowMs.toInt ++
      encodeSigned 8 operator.slideMs.toInt ++
      encodeSigned 8 operator.latenessMs.toInt ++
      encode 8 operator.records ++
      encodeSigned 8 state.watermark.ms ++
      (encode 4 operator.watermarks.size ++ operator.watermarks.toList.flatMap writeInput) ++
      (encode 4 state.panes.length ++ panes.flatten) ++
      writeWindows state.firedWindows ++
      writeWindows state.refiredWindows))

/-- `ReadWindow` -/
def readWindow : Decoder Window := do
  let start ← Decoder.i64
  let close ← Decoder.i64
  require (¬ (start < 0 ∨ close ≤ start)) "invalid saved window"
  pure { start := .ofMs start, close := .ofMs close }

/-- The loop of `Restore` over the inputs. -/
def readInputs (known : Std.ExtTreeMap NodeId Timestamp) :
    Nat → Std.ExtTreeMap NodeId Timestamp → Decoder (Std.ExtTreeMap NodeId Timestamp)
  | 0, restored => pure restored
  | left + 1, restored => do
      let id := UInt32.ofNat (← Decoder.u32)
      let time := Timestamp.ofMs (← Decoder.i64)
      require (id ∈ known ∧ id ∉ restored) "window snapshot inputs mismatch"
      readInputs known left (restored.insert id time)

/-- The loop of `Restore` over the panes, with those read so far. -/
def readPanes : Nat → List PaneEntry → Decoder (List PaneEntry)
  | 0, panes => pure panes
  | left + 1, panes => do
      let key ← Decoder.blob
      let window ← readWindow
      let sum ← Decoder.i64
      let count ← Decoder.u64
      require (count ≠ 0 ∧ ∀ other ∈ panes, ¬ (other.key = key ∧ other.window = window))
        "duplicate/empty saved pane"
      readPanes left (panes ++ [{ key, window, sum, count }])

/-- The loop of `Restore` over a list of windows. -/
def readWindowList : Nat → Decoder (List Window)
  | 0 => pure []
  | left + 1 => do
      let window ← readWindow
      let rest ← readWindowList left
      pure (window :: rest)

/-- The beginning of a snapshot: the configuration it was taken with. -/
def readConfiguration (operator : WindowOperator) : Decoder Unit := do
  let mismatch := "window snapshot configuration mismatch"
  require ((← Decoder.u32) = snapshotMagic) mismatch
  require ((← Decoder.i64) = operator.windowMs.toInt) mismatch
  require ((← Decoder.i64) = operator.slideMs.toInt) mismatch
  require ((← Decoder.i64) = operator.latenessMs.toInt) mismatch

/-- The reads and checks of `Restore`: the saved state and the saved watermarks. -/
def readSnapshot (operator : WindowOperator) :
    Decoder (CheckpointData × Std.ExtTreeMap NodeId Timestamp) := do
  operator.readConfiguration
  let offset ← Decoder.u64
  let watermark := Timestamp.ofMs (← Decoder.i64)
  let restored ← readInputs operator.watermarks (← Decoder.count 12) ∅
  require (restored.size = operator.watermarks.size) "window snapshot input missing"
  require (combined restored = watermark) "inconsistent saved watermark combiner"
  let panes ← readPanes (← Decoder.count 36) []
  let firedWindows ← readWindowList (← Decoder.count 16)
  let refiredWindows ← readWindowList (← Decoder.count 16)
  Decoder.finish
  require (∀ window ∈ refiredWindows, window ∈ firedWindows) "pending re-fire without fired window"
  pure ({ offset, watermark, panes, firedWindows, refiredWindows }, restored)

/-- `WindowOperator::Restore` -/
def restore (operator : WindowOperator) (bytes : Bytes) : Except Failure WindowOperator :=
  if operator.touched = true then
    .error (.runtimeError "window restore requires fresh operator")
  else
    match operator.readSnapshot.run bytes with
    | .error message => .error (.runtimeError message)
    | .ok ((state, restored), _) =>
      .ok { operator with
        processor := operator.processor.restore state
        watermarks := restored
        records := state.offset
        touched := true }

end WindowOperator

end Stormglass.Snapshot
