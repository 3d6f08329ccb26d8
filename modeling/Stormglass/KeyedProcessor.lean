import Stormglass.KeyedWindowState

/-!
# The windowing core of one worker

`KeyedProcessor` applies records and control records to its window state. A
watermark that advances fires the windows it closes, re-fires the windows that took
late data, and collects the windows past their deadline. A barrier flushes the sink
and writes a checkpoint. The final flush fires what is left.

An operation reports what it does to the outside as a list of effects in order.
`Pipeline::Run` repeats the same orchestration over its own state, so the model uses
these definitions for both.
-/

namespace Stormglass

/-- The counters of a worker. -/
structure Stats where
  recordsProcessed : Nat := 0
  windowsFired : Nat := 0
  windowsRefired : Nat := 0
  lateRecordsAccepted : Nat := 0
  lateRecordsDropped : Nat := 0
  watermarksAdvanced : Nat := 0
  checkpointsWritten : Nat := 0
deriving DecidableEq

structure PaneEntry where
  key : Bytes
  window : Window
  sum : Int
  count : Nat
deriving DecidableEq

/-- The content of a checkpoint file. -/
structure CheckpointData where
  offset : Nat
  watermark : Timestamp
  panes : List PaneEntry
  firedWindows : List Window
  refiredWindows : List Window
deriving DecidableEq

namespace KeyedWindowState

/-- The visits of `ForEachPane`, in key order. -/
def forEachPane (state : KeyedWindowState) : List PaneEntry :=
  state.windows.toList.flatMap (fun entry =>
    entry.2.toList.map (fun pane =>
      { key := pane.1, window := entry.1, sum := pane.2.sum, count := pane.2.count }))

/-- What is listed when the hash containers of a state are walked, in whatever order. -/
structure Walk (state : KeyedWindowState) where
  panes : List PaneEntry
  firedWindows : List Window
  refiredWindows : List Window
  allPanes : panes.Perm state.forEachPane
  allFired : firedWindows.Perm state.firedWindows.toList
  allRefired : refiredWindows.Perm state.refiredWindows.toList

/-- The walk in key order. -/
def sorted (state : KeyedWindowState) : state.Walk where
  panes := state.forEachPane
  firedWindows := state.firedWindows.toList
  refiredWindows := state.refiredWindows.toList
  allPanes := .refl _
  allFired := .refl _
  allRefired := .refl _

namespace Walk

variable {state : KeyedWindowState}

/-- The same walk backwards. -/
def reverse (walk : state.Walk) : state.Walk where
  panes := walk.panes.reverse
  firedWindows := walk.firedWindows.reverse
  refiredWindows := walk.refiredWindows.reverse
  allPanes := walk.panes.reverse_perm.trans walk.allPanes
  allFired := walk.firedWindows.reverse_perm.trans walk.allFired
  allRefired := walk.refiredWindows.reverse_perm.trans walk.allRefired

theorem mem_firedWindows (walk : state.Walk) {window : Window} :
    window ∈ walk.firedWindows ↔ state.IsFired window :=
  walk.allFired.mem_iff.trans Std.ExtTreeSet.mem_toList

theorem mem_refiredWindows (walk : state.Walk) {window : Window} :
    window ∈ walk.refiredWindows ↔ state.IsRefired window :=
  walk.allRefired.mem_iff.trans Std.ExtTreeSet.mem_toList

end Walk

end KeyedWindowState

/-- What a processor does to its sink and to its checkpoint directory. -/
inductive Effect where
  | emit (result : WindowResult)
  | flush
  | checkpoint (data : CheckpointData)
deriving DecidableEq

structure KeyedProcessor where
  assigner : WindowAssigner
  allowedLateness : Nat
  /-- A checkpoint directory is configured. -/
  checkpointing : Bool
  watermark : Timestamp
  state : KeyedWindowState
  stats : Stats

namespace KeyedProcessor

/-- A new processor. Its tracker stands at `Timestamp::min()`. -/
def create (assigner : WindowAssigner) (allowedLateness : Nat) (checkpointing : Bool) :
    KeyedProcessor where
  assigner := assigner
  allowedLateness := allowedLateness
  checkpointing := checkpointing
  watermark := ⊥
  state := { allowedLateness := allowedLateness }
  stats := {}

/-- The loop over the windows of a record, with its two flags. A refused addition
stops it. -/
def addToWindows (record : Record) (watermark : Timestamp) (useLateness : Bool) :
    List Window → KeyedWindowState → (anyDropped anyLateAccepted : Bool) →
      Except (Failure × KeyedWindowState) (KeyedWindowState × Bool × Bool)
  | [], state, anyDropped, anyLateAccepted => .ok (state, anyDropped, anyLateAccepted)
  | window :: rest, state, anyDropped, anyLateAccepted =>
      let wasFired := useLateness && decide (state.IsFired window)
      match state.addWithLateness record.key window record.value watermark with
      | .error thrown => .error thrown
      | .ok (accepted, state) =>
          addToWindows record watermark useLateness rest state (anyDropped || !accepted)
            (anyLateAccepted || (accepted && wasFired))

/-- Apply one record. A failure comes with the processor it leaves behind. -/
def processRecord (processor : KeyedProcessor) (record : Record) :
    Except (Failure × KeyedProcessor) KeyedProcessor :=
  match processor.assigner record.eventTime with
  | .error failure => .error (failure, processor)
  | .ok windows =>
    match addToWindows record processor.watermark (decide (0 < processor.allowedLateness)) windows
        processor.state false false with
    | .error (failure, state) => .error (failure, { processor with state := state })
    | .ok (state, anyDropped, anyLateAccepted) =>
      .ok { processor with
        state := state
        stats := { processor.stats with
          lateRecordsDropped := processor.stats.lateRecordsDropped + anyDropped.toNat
          lateRecordsAccepted := processor.stats.lateRecordsAccepted + anyLateAccepted.toNat
          recordsProcessed := processor.stats.recordsProcessed + 1 } }

/-- The work of a watermark that advances the tracker. -/
def advanceTo (processor : KeyedProcessor) (watermark : Timestamp) :
    List WindowResult × KeyedProcessor :=
  let expired := processor.state.expiredWindows watermark
  let first := KeyedWindowState.fireAll expired processor.state
  if 0 < processor.allowedLateness then
    let refired := first.2.refiredWindows.toList
    let again := KeyedWindowState.fireAll refired first.2
    let cleared := again.2.clearRefired
    let collected := cleared.garbageCollect (cleared.garbageCollectableWindows watermark)
    (first.1 ++ again.1,
      { processor with
        watermark := watermark
        state := collected
        stats := { processor.stats with
          windowsFired := processor.stats.windowsFired + expired.length
          windowsRefired := processor.stats.windowsRefired + refired.length
          watermarksAdvanced := processor.stats.watermarksAdvanced + 1 } })
  else
    (first.1,
      { processor with
        watermark := watermark
        state := first.2
        stats := { processor.stats with
          windowsFired := processor.stats.windowsFired + expired.length
          watermarksAdvanced := processor.stats.watermarksAdvanced + 1 } })

/-- Copy the state at a barrier. -/
def capture (processor : KeyedProcessor) (offset : Nat)
    (walk : processor.state.Walk := processor.state.sorted) : CheckpointData where
  offset := offset
  watermark := processor.watermark
  panes := walk.panes
  firedWindows := walk.firedWindows
  refiredWindows := walk.refiredWindows

/-- Apply one control record. -/
def processControl (processor : KeyedProcessor) (control : ControlRecord) :
    List Effect × KeyedProcessor :=
  match control.type with
  | .watermark =>
      if processor.watermark < control.watermark then
        let advanced := processor.advanceTo control.watermark
        (advanced.1.map .emit, advanced.2)
      else ([], processor)
  | .checkpointBarrier =>
      if processor.checkpointing = true then
        ([.flush, .checkpoint (processor.capture control.checkpointOffset)],
          { processor with
            stats := { processor.stats with
              checkpointsWritten := processor.stats.checkpointsWritten + 1 } })
      else ([], processor)

/-- Fire every remaining window. -/
def finalFlush (processor : KeyedProcessor) : List Effect × KeyedProcessor :=
  if 0 < processor.allowedLateness then
    let refired := processor.state.refiredWindows.toList
    let again := KeyedWindowState.fireAll refired processor.state
    let cleared := again.2.clearRefired
    let (results, fired, rest) := KeyedWindowState.fireUnfired cleared.allWindows cleared
    ((again.1 ++ results).map .emit ++ [.flush],
      { processor with
        state := rest.garbageCollect rest.allWindows
        stats := { processor.stats with
          windowsRefired := processor.stats.windowsRefired + refired.length
          windowsFired := processor.stats.windowsFired + fired } })
  else
    let all := processor.state.allWindows
    let rest := KeyedWindowState.fireAll all processor.state
    (rest.1.map .emit ++ [.flush],
      { processor with
        state := rest.2
        stats := { processor.stats with
          windowsFired := processor.stats.windowsFired + all.length } })

/-- Load a checkpoint: its panes, its marks and its watermark. -/
def restore (processor : KeyedProcessor) (data : CheckpointData) : KeyedProcessor :=
  let panes := data.panes.foldl
    (fun state entry => state.restorePane entry.key entry.window entry.sum entry.count)
    processor.state
  { processor with
    state := (panes.restoreFiredWindows data.firedWindows).restoreRefiredWindows
      data.refiredWindows
    watermark := max processor.watermark data.watermark }

/-- Apply one item. -/
def processItem (processor : KeyedProcessor) :
    BatchItem → Except (Failure × KeyedProcessor) (List Effect × KeyedProcessor)
  | .record record => (processor.processRecord record).map (fun after => ([], after))
  | .control control => .ok (processor.processControl control)

/-- Apply items in order, collecting their effects. A failure keeps what was done
before it. -/
def processItems : KeyedProcessor → List BatchItem →
    Except (Failure × List Effect × KeyedProcessor) (List Effect × KeyedProcessor)
  | processor, [] => .ok ([], processor)
  | processor, item :: rest =>
      match processor.processItem item with
      | .error (failure, after) => .error (failure, [], after)
      | .ok (effects, after) =>
        match processItems after rest with
        | .error (failure, later, final) => .error (failure, effects ++ later, final)
        | .ok (later, final) => .ok (effects ++ later, final)

/-- A record does not move the watermark. -/
theorem processRecord_watermark {processor after : KeyedProcessor} {record : Record}
    (applied : processor.processRecord record = .ok after) :
    after.watermark = processor.watermark := by
  unfold processRecord at applied
  split at applied
  · cases applied
  · split at applied
    · cases applied
    · cases Except.ok.inj applied
      rfl

theorem advanceTo_watermark (processor : KeyedProcessor) (watermark : Timestamp) :
    (processor.advanceTo watermark).2.watermark = watermark := by
  unfold advanceTo
  dsimp only
  split <;> rfl

end KeyedProcessor

/-- The results that a list of effects emits. -/
def emissions (effects : List Effect) : List WindowResult :=
  effects.filterMap (fun effect => match effect with
    | .emit result => some result
    | _ => none)

@[simp] theorem emissions_nil : emissions [] = [] := rfl

@[simp] theorem emissions_append (first second : List Effect) :
    emissions (first ++ second) = emissions first ++ emissions second :=
  List.filterMap_append

@[simp] theorem emissions_map_emit (results : List WindowResult) :
    emissions (results.map .emit) = results := by
  rw [emissions, List.filterMap_map]
  exact List.filterMap_some

/-- Emitting results and flushing emits exactly them. -/
theorem emissions_emit_flush (results : List WindowResult) :
    emissions (results.map .emit ++ [.flush]) = results := by
  rw [emissions_append, emissions_map_emit]
  exact List.append_nil results

end Stormglass
