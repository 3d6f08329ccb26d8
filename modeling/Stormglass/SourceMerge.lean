import Stormglass.Source
import Stormglass.MinWatermarkCombiner

/-!
# Deterministic fan-in of several sources

`SourceMerge` interleaves `k` channels in a fixed rotation, combines their
watermarks and aligns their barriers. One call of `produceOneMergedStep` services
the first channel of the rotation that is neither exhausted nor blocked at a
barrier: it consumes an idle tick of a configured gap, or pulls one item.

The model follows the source function by function. `next` of a channel is the
`Source` interface; the steady clock is an argument of each step, because only a
live merge with wall-clock idleness reads it. A step also reports the channel and
the item it pulled. The code does not return that pair: it observes which
channel's turn it was and which item the turn consumed.
-/

namespace Stormglass

/-- A pause of a channel, in its own record index: after `startOffset` records it
stays quiet for `length` turns. -/
structure IdleSpan where
  startOffset : Nat
  length : Nat
deriving DecidableEq

/-- The options of a merge over arbitrary channels. -/
structure SourceMergeConfig where
  mergedBatchSize : Nat := 1024
  liveInputs : Bool := false
  idleTimeoutWall : Nat := 0
  idleTimeout : Nat := 0
deriving DecidableEq

/-- One channel: its source, its buffered batch and its merge bookkeeping. -/
structure SourceState (σ : Type) where
  source : σ
  buf : Batch
  cursor : Nat
  exhausted : Bool
  idleSpans : List IdleSpan
  nextSpan : Nat
  gapRemaining : Nat
  dataPulled : Nat
  consecutiveEmpty : Nat
  idle : Bool
  lastItem : Nat
  barriersSeen : Nat

structure SourceMerge (σ : Type) (k : Nat) where
  config : SourceMergeConfig
  states : Fin k → SourceState σ
  combiner : MinWatermarkCombiner k
  rr : Nat
  mergedOffset : Nat
  epochClosed : Nat

inductive StepResult where
  | produced
  | noData
  | exhausted
deriving DecidableEq

inductive PullResult where
  | item (item : BatchItem)
  | noData
  | exhausted
deriving DecidableEq

/-- What one step returns, appends and leaves behind. -/
structure StepOutcome (σ : Type) (k : Nat) where
  result : StepResult
  pulled : Option (Fin k × BatchItem)
  emitted : Batch
  data : Nat
  merge : SourceMerge σ k

namespace SourceState

variable {σ : Type}

/-- A channel at the start of its stream, with the clock at construction. -/
def fresh (source : σ) (idleSpans : List IdleSpan) (now : Nat) : SourceState σ where
  source := source
  buf := []
  cursor := 0
  exhausted := false
  idleSpans := idleSpans
  nextSpan := 0
  gapRemaining := 0
  dataPulled := 0
  consecutiveEmpty := 0
  idle := false
  lastItem := now
  barriersSeen := 0

/-- A gap begins when exactly its start offset has been pulled. Spans are tried
one at a time, so a span whose offset has been passed is never entered. -/
def openGap (state : SourceState σ) : SourceState σ :=
  match state.idleSpans[state.nextSpan]? with
  | some span =>
      if state.gapRemaining = 0 ∧ span.startOffset = state.dataPulled then
        { state with gapRemaining := span.length, nextSpan := state.nextSpan + 1 }
      else state
  | none => state

/-- Take the item at the cursor of the buffered batch. -/
def takeBuffered (config : SourceMergeConfig) (now : Nat) (state : SourceState σ) :
    PullResult × SourceState σ :=
  match state.buf[state.cursor]? with
  | some item =>
      (.item item,
        { state with
          cursor := state.cursor + 1
          lastItem := if 0 < config.idleTimeoutWall then now else state.lastItem })
  | none => (.noData, state)

/-- Take the next item, fetching a batch when the buffer is used up. Only a live
merge may see an empty batch. -/
def pullNextItem [Source σ] (config : SourceMergeConfig) (now : Nat) (state : SourceState σ) :
    Except Failure (PullResult × SourceState σ) :=
  if state.buf.length ≤ state.cursor then
    match Source.next state.source with
    | none => .ok (.exhausted, { state with exhausted := true })
    | some ([], rest) =>
        if config.liveInputs = true then .ok (.noData, { state with source := rest })
        else .error (.logicError
          "SourceMerge input returned an empty batch; set live_inputs for live sources")
    | some (batch, rest) =>
        .ok ({ state with source := rest, buf := batch, cursor := 0 }.takeBuffered config now)
  else .ok (state.takeBuffered config now)

end SourceState

namespace SourceMerge

variable {σ : Type} {k : Nat}

/-- Construction over arbitrary channels. The constructor rejects a zero batch
size, wall-clock idleness without live inputs, and unsorted idle spans. -/
def construct (inputs : Fin k → σ × List IdleSpan) (config : SourceMergeConfig) (now : Nat) :
    Except Failure (SourceMerge σ k) :=
  if config.mergedBatchSize = 0 then
    .error (.invalidArgument "merged batch size must be positive")
  else if 0 < config.idleTimeoutWall ∧ config.liveInputs = false then
    .error (.invalidArgument "idle_timeout_wall requires live_inputs")
  else if ∃ channel, ¬ ((inputs channel).2.map IdleSpan.startOffset).Pairwise (· ≤ ·) then
    .error (.invalidArgument "idle spans must be sorted by start_offset")
  else .ok
    { config := config
      states := fun channel => .fresh (inputs channel).1 (inputs channel).2 now
      combiner := .initial k
      rr := 0
      mergedOffset := 0
      epochClosed := 0 }

def setState (merge : SourceMerge σ k) (channel : Fin k) (state : SourceState σ) :
    SourceMerge σ k :=
  { merge with states := Function.update merge.states channel state }

/-- Held at a barrier of the open epoch. -/
def IsChannelBlocked (merge : SourceMerge σ k) (channel : Fin k) : Prop :=
  merge.epochClosed < (merge.states channel).barriersSeen

instance (merge : SourceMerge σ k) (channel : Fin k) :
    Decidable (merge.IsChannelBlocked channel) :=
  inferInstanceAs (Decidable (_ < _))

/-- Neither idle nor exhausted: a member of the watermark minimum and of the
barrier alignment set. -/
def Active (merge : SourceMerge σ k) (channel : Fin k) : Prop :=
  (merge.states channel).idle = false ∧ (merge.states channel).exhausted = false

instance (merge : SourceMerge σ k) (channel : Fin k) : Decidable (merge.Active channel) :=
  inferInstanceAs (Decidable (_ ∧ _))

/-- The merged watermark control records that a combiner report appends. -/
def announce (merge : SourceMerge σ k) : Option Timestamp → Batch
  | some watermark => [watermarkItem watermark merge.mergedOffset]
  | none => []

/-- Close the open epoch when every active channel has delivered its barrier. -/
def maybeCloseEpoch (merge : SourceMerge σ k) : Batch × SourceMerge σ k :=
  if ∃ channel, merge.Active channel ∧
      (merge.states channel).barriersSeen < merge.epochClosed + 1 then ([], merge)
  else if ∃ channel, merge.Active channel then
    ([barrierItem merge.mergedOffset], { merge with epochClosed := merge.epochClosed + 1 })
  else ([], merge)

/-- Exclude a channel from the combiner, append the watermark that releases, and
try to close the open epoch. -/
def excludeChannel (merge : SourceMerge σ k) (channel : Fin k) : Batch × SourceMerge σ k :=
  let report := merge.combiner.markIdle channel
  let merge : SourceMerge σ k := { merge with combiner := report.2 }
  let closed := merge.maybeCloseEpoch
  (merge.announce report.1 ++ closed.1, closed.2)

/-- Mark a channel idle and exclude it. -/
def markChannelIdle (merge : SourceMerge σ k) (channel : Fin k) : Batch × SourceMerge σ k :=
  (merge.setState channel { merge.states channel with idle := true }).excludeChannel channel

/-- A channel that produces an item rejoins the minimum. The combiner's report is
not used here. -/
def resume (merge : SourceMerge σ k) (channel : Fin k) : SourceMerge σ k :=
  if (merge.states channel).idle = true then
    { merge.setState channel { merge.states channel with idle := false } with
      combiner := (merge.combiner.markActive channel).2 }
  else merge

/-- Deliver one pulled item of a channel that has already rejoined. -/
def deliver (merge : SourceMerge σ k) (channel : Fin k) (item : BatchItem) :
    StepOutcome σ k :=
  let state := merge.states channel
  match item with
  | .record data =>
      { result := .produced, pulled := some (channel, item), emitted := [.record data], data := 1
        merge :=
          { merge.setState channel { state with dataPulled := state.dataPulled + 1 } with
            mergedOffset := merge.mergedOffset + 1 } }
  | .control { type := .watermark, watermark, .. } =>
      let report := merge.combiner.observe channel watermark
      { result := .produced, pulled := some (channel, item), emitted := merge.announce report.1
        data := 0, merge := { merge with combiner := report.2 } }
  | .control { type := .checkpointBarrier, .. } =>
      let closed := maybeCloseEpoch
        (merge.setState channel { state with barriersSeen := state.barriersSeen + 1 })
      { result := .produced, pulled := some (channel, item), emitted := closed.1, data := 0
        merge := closed.2 }

/-- One idle tick of the open gap, with the idleness policy. -/
def tick (merge : SourceMerge σ k) (channel : Fin k) (state : SourceState σ) : StepOutcome σ k :=
  let state :=
    { state with
      gapRemaining := state.gapRemaining - 1, consecutiveEmpty := state.consecutiveEmpty + 1 }
  let merge : SourceMerge σ k :=
    { merge.setState channel state with rr := (channel.val + 1) % k }
  if 0 < merge.config.idleTimeout ∧ state.idle = false ∧
      merge.config.idleTimeout ≤ state.consecutiveEmpty then
    let idled := merge.markChannelIdle channel
    { result := .produced, pulled := none, emitted := idled.1, data := 0, merge := idled.2 }
  else { result := .produced, pulled := none, emitted := [], data := 0, merge := merge }

/-- A turn of one channel that is neither exhausted nor blocked. -/
def serve [Source σ] (merge : SourceMerge σ k) (now : Nat) (channel : Fin k) :
    Except Failure (StepOutcome σ k) :=
  let state := (merge.states channel).openGap
  if 0 < state.gapRemaining then .ok (merge.tick channel state)
  else
    match state.pullNextItem merge.config now with
    | .error failure => .error failure
    | .ok (.noData, state) =>
        -- A live channel with nothing to deliver yields its turn.
        let merge : SourceMerge σ k :=
          { merge.setState channel state with rr := (channel.val + 1) % k }
        if 0 < merge.config.idleTimeoutWall ∧ state.idle = false ∧
            merge.config.idleTimeoutWall ≤ now - state.lastItem then
          let idled := merge.markChannelIdle channel
          .ok { result := .noData, pulled := none, emitted := idled.1, data := 0
                merge := idled.2 }
        else .ok { result := .noData, pulled := none, emitted := [], data := 0, merge := merge }
    | .ok (.exhausted, state) =>
        -- The rotation does not advance: the closed epoch may unblock an earlier channel.
        let excluded := (merge.setState channel state).excludeChannel channel
        .ok { result := .produced, pulled := none, emitted := excluded.1, data := 0
              merge := excluded.2 }
    | .ok (.item item, state) =>
        let merge : SourceMerge σ k :=
          { merge.setState channel state with rr := (channel.val + 1) % k }
        let merge := merge.resume channel
        let merge := merge.setState channel
          { merge.states channel with consecutiveEmpty := 0 }
        .ok (merge.deliver channel item)

/-- The channel whose turn the given attempt is. -/
def turn (merge : SourceMerge σ k) (attempt : Fin k) : Fin k :=
  ⟨(merge.rr + attempt.val) % k, Nat.mod_lt _ attempt.pos⟩

/-- The first channel of the rotation that is neither exhausted nor blocked. -/
def pickChannel (merge : SourceMerge σ k) : Option (Fin k) :=
  ((List.finRange k).map merge.turn).find? (fun channel =>
    (merge.states channel).exhausted = false ∧ ¬ merge.IsChannelBlocked channel)

def produceOneMergedStep [Source σ] (merge : SourceMerge σ k) (now : Nat) :
    Except Failure (StepOutcome σ k) :=
  match merge.pickChannel with
  | some channel => merge.serve now channel
  | none =>
      .ok { result := .exhausted, pulled := none, emitted := [], data := 0, merge := merge }

def AllExhausted (merge : SourceMerge σ k) : Prop :=
  ∀ channel, (merge.states channel).exhausted = true

instance (merge : SourceMerge σ k) : Decidable merge.AllExhausted :=
  inferInstanceAs (Decidable (∀ _, _))

/-- What one call of `Next()` returns: the batch or the end of input, the items
its steps pulled, and the merge it leaves behind. -/
structure NextOutcome (σ : Type) (k : Nat) where
  batch : Option Batch
  pulled : List (Fin k × BatchItem)
  merge : SourceMerge σ k

/-- The loop of `Next()`: steps until the batch has its data records, the stream
drains, or every channel was quiet in turn. -/
def nextLoop [Source σ] : Nat → (clock : Nat → Nat) → SourceMerge σ k → Batch →
    (dataInBatch quietSteps : Nat) → List (Fin k × BatchItem) →
    Except Failure (Batch × List (Fin k × BatchItem) × SourceMerge σ k)
  | fuel, clock, merge, out, dataInBatch, quietSteps, pulled =>
    if dataInBatch < merge.config.mergedBatchSize then
      match fuel with
      | 0 => .error .unfinished
      | fuel + 1 =>
        match merge.produceOneMergedStep (clock 0) with
        | .error failure => .error failure
        | .ok step =>
          let out := out ++ step.emitted
          let pulled := pulled ++ step.pulled.toList
          let later := fun reading => clock (reading + 1)
          match step.result with
          | .exhausted => .ok (out, pulled, step.merge)
          | .noData =>
              if k ≤ quietSteps + 1 then .ok (out, pulled, step.merge)
              else nextLoop fuel later step.merge out (dataInBatch + step.data)
                (quietSteps + 1) pulled
          | .produced =>
              nextLoop fuel later step.merge out (dataInBatch + step.data) 0 pulled
    else .ok (out, pulled, merge)

/-- `Next()`, with fuel for its loop and the clock readings of its steps. -/
def next [Source σ] (fuel : Nat) (clock : Nat → Nat) (merge : SourceMerge σ k) :
    Except Failure (NextOutcome σ k) :=
  if k = 0 ∨ merge.AllExhausted then .ok { batch := none, pulled := [], merge := merge }
  else
    match merge.nextLoop fuel clock [] 0 0 [] with
    | .error failure => .error failure
    | .ok (out, pulled, after) =>
      if out = [] then
        if after.AllExhausted ∨ after.config.liveInputs = false then
          .ok { batch := none, pulled := pulled, merge := after }
        else .ok { batch := some [], pulled := pulled, merge := after }
      else .ok { batch := some out, pulled := pulled, merge := after }

end SourceMerge

end Stormglass
