import Stormglass.CheckpointRoundTrip
import Stormglass.WindowInterleaving

/-!
# Restoring the window operator

`Restore` refuses a snapshot whose combined watermark is not the minimum of the inputs, that
names a pane twice or a pane without records, that holds a window which does not lie in
nonnegative time, or that expects a window to fire again which has not fired. None of this
can be written by an operator that has only applied payloads: `Sound` collects what every
successful call of `Apply` keeps.

The reader returns what was written, and the restored operator then answers every further
payload and the final flush like the one that was captured.
-/

namespace Stormglass

/-- A window in nonnegative time that is not empty. -/
def Window.Proper (window : Window) : Prop := 0 ≤ window.start.ms ∧ window.start < window.close

/-- The windows of an event time are proper. -/
theorem Exactly.proper {size slide time : Int} {windows : List Window}
    (exactly : Exactly size slide time windows) (bounded : time ≤ 2 ^ 63 - 1 - size)
    {window : Window}
    (member : window ∈ windows) : window.Proper := by
  obtain ⟨start, ⟨-, nonneg, before, inside⟩, rfl⟩ := (exactly.members window).mp member
  have first : (windowAt start size).start.ms = start :=
    Timestamp.ofMs_ms (by omega) (by omega)
  have last : (windowAt start size).close.ms = start + size :=
    Timestamp.ofMs_ms (by omega) (by omega)
  refine ⟨by omega, ?_⟩
  change (windowAt start size).start.ms < (windowAt start size).close.ms
  omega

theorem AssignerType.assigned_proper (kind : AssignerType) {eventTime : Timestamp}
    {windows : List Window} (assigned : kind.makeAssigner eventTime = .ok windows) :
    ∀ window ∈ windows, window.Proper := by
  intro window member
  cases kind with
  | tumbling assigner =>
    obtain ⟨-, bounded, exactly⟩ := assigner.assignWindows_exactly assigned
    exact exactly.proper bounded member
  | sliding assigner =>
    obtain ⟨-, bounded, exactly⟩ := assigner.assignWindows_exactly assigned
    exact exactly.proper (by omega) member

namespace KeyedWindowState

/-- Every pane has a key that a blob can hold, a record and a proper window, and the windows
that have fired are proper. -/
structure Filled (state : KeyedWindowState) : Prop where
  panes : ∀ key window pane, state.pane key window = some pane →
    key.length < 2 ^ 32 ∧ pane.count ≠ 0 ∧ window.Proper
  fired : ∀ window, state.IsFired window → window.Proper

namespace Filled

variable {state after : KeyedWindowState} {windows : List Window}

theorem empty (lateness : Nat) : Filled { allowedLateness := lateness } := by
  constructor
  · intro key window pane found
    simp [KeyedWindowState.pane] at found
  · intro window fired
    simp [IsFired] at fired

theorem addPane (filled : Filled state) {key : Bytes} (short : key.length < 2 ^ 32)
    {window : Window}
    (proper : window.Proper) {value : Int} (added : state.addPane key window value = .ok after) :
    Filled after := by
  unfold KeyedWindowState.addPane at added
  cases counted : (state.paneOrNew key window).add value with
  | error failure => simp [counted] at added
  | ok pane =>
    obtain rfl : state.setPane key window pane = after := by simpa [counted] using added
    have nonempty : pane.count ≠ 0 := by
      unfold Pane.add at counted
      split at counted
      · cases counted
      · cases counted
        exact Nat.succ_ne_zero _
    refine ⟨?_, filled.fired⟩
    intro other place stored found
    rw [pane_setPane] at found
    split at found
    next here =>
      obtain ⟨rfl, rfl⟩ := here
      cases found
      exact ⟨short, nonempty, proper⟩
    · exact filled.panes other place stored found

theorem addWithLateness (filled : Filled state) {key : Bytes} (short : key.length < 2 ^ 32)
    {window : Window} (proper : window.Proper) {value : Int} {watermark : Timestamp}
    {accepted : Bool}
    (added : state.addWithLateness key window value watermark = .ok (accepted, after)) :
    Filled after := by
  unfold KeyedWindowState.addWithLateness at added
  split at added
  · cases added
    exact filled
  · cases result : state.addPane key window value with
    | error thrown => simp [result] at added
    | ok stored =>
      have later := filled.addPane short proper result
      rw [result] at added
      dsimp only at added
      split at added
      · cases added
        exact ⟨later.panes, later.fired⟩
      · cases added
        exact later

/-- Only stored windows fire, and these have a pane. -/
theorem firing (filled : Filled state) (consistent : Consistent state)
    (fires : Firing windows state after) : Filled after := by
  constructor
  · intro key window pane found
    rw [fires.pane] at found
    split at found
    · cases found
    · exact filled.panes key window pane found
  · intro window fired
    rcases (fires.fired window).mp fired with before | ⟨-, -, stored⟩
    · exact filled.fired window before
    · obtain ⟨key, pane, found⟩ := consistent.occupied window stored
      exact (filled.panes key window pane found).2.2

theorem collected (filled : Filled state) (collection : Collected windows state after) :
    Filled after := by
  constructor
  · intro key window pane found
    rw [collection.pane] at found
    split at found
    · cases found
    · exact filled.panes key window pane found
  · intro window fired
    exact filled.fired window ((collection.fired window).mp fired).1

theorem addToWindows (filled : Filled state) {record : Record} (short : record.key.length < 2 ^ 32)
    (proper : ∀ window ∈ windows, window.Proper) {watermark : Timestamp}
    {useLateness anyDropped anyLate : Bool} {flags : Bool × Bool}
    (added : KeyedProcessor.addToWindows record watermark useLateness windows state anyDropped
      anyLate = .ok (after, flags)) : Filled after := by
  induction windows generalizing state anyDropped anyLate with
  | nil =>
    cases added
    exact filled
  | cons window rest inductionHypothesis =>
    unfold KeyedProcessor.addToWindows at added
    cases result : state.addWithLateness record.key window record.value watermark with
    | error thrown => simp [result] at added
    | ok outcome =>
      rw [result] at added
      exact inductionHypothesis
        (filled.addWithLateness short (proper window List.mem_cons_self) result)
        (fun other member => proper other (List.mem_cons_of_mem _ member)) added

end Filled

end KeyedWindowState

namespace KeyedProcessor

variable {processor after : KeyedProcessor}

/-- A record that is applied leaves a filled state. -/
theorem processRecord_filled {kind : AssignerType} (filled : processor.state.Filled)
    (assigns : processor.assigner = kind.makeAssigner) {record : Record}
    (short : record.key.length < 2 ^ 32) (processed : processor.processRecord record = .ok after) :
    after.state.Filled := by
  unfold processRecord at processed
  rw [assigns] at processed
  cases assigned : kind.makeAssigner record.eventTime with
  | error failure => simp [assigned] at processed
  | ok windows =>
    rw [assigned] at processed
    dsimp only at processed
    split at processed
    · cases processed
    next state anyDropped anyLate added =>
      cases processed
      exact filled.addToWindows short (kind.assigned_proper assigned) added

theorem advanceTo_filled {assigner : WindowAssigner} {lateness : Nat}
    (carried : Carried assigner lateness processor) (filled : processor.state.Filled)
    (watermark : Timestamp) : (processor.advanceTo watermark).2.state.Filled := by
  obtain ⟨first, _⟩ := KeyedWindowState.fireAll_spec _ processor.state
    (processor.state.expiredWindows_nodup watermark)
  have once := filled.firing carried.consistent first
  unfold advanceTo
  dsimp only
  split
  · obtain ⟨second, _⟩ := KeyedWindowState.fireAll_spec _
      (KeyedWindowState.fireAll (processor.state.expiredWindows watermark) processor.state).2
      (KeyedWindowState.refiredWindows_nodup _)
    have twice := once.firing (carried.consistent.firing first) second
    have cleared : (KeyedWindowState.clearRefired _).Filled := ⟨twice.panes, twice.fired⟩
    exact cleared.collected (KeyedWindowState.garbageCollect_spec _ _)
  · exact once

end KeyedProcessor

namespace Snapshot

open LittleEndian CheckpointReader

namespace WindowOperator

/-! ## Reading what was written -/

theorem readWindow_run {window : Window} (proper : window.Proper) (rest : Bytes) :
    readWindow.run (window.encode ++ rest) = .ok (window, rest) := by
  obtain ⟨nonneg, nonempty⟩ := proper
  have valid : ¬ (window.start.ms < 0 ∨ window.close.ms ≤ window.start.ms) := by
    have ordered : window.start.ms < window.close.ms := nonempty
    omega
  rw [readWindow, Window.encode, List.append_assoc,
    Decoder.bind_run (Decoder.i64_run (Timestamp.fits window.start).bmod _),
    Decoder.bind_run (Decoder.i64_run (Timestamp.fits window.close).bmod _),
    Decoder.require_bind_run valid, ofMs_ms, ofMs_ms]
  rfl

theorem readWindowList_run {windows : List Window} (proper : ∀ window ∈ windows, window.Proper)
    (rest : Bytes) :
    (readWindowList windows.length).run (windows.flatMap Window.encode ++ rest) =
      .ok (windows, rest) := by
  induction windows with
  | nil => rfl
  | cons window windows inductionHypothesis =>
    have later :=
      inductionHypothesis fun other member => proper other (List.mem_cons_of_mem _ member)
    rw [List.flatMap_cons, List.append_assoc, List.length_cons, readWindowList,
      Decoder.bind_run (readWindow_run (proper window List.mem_cons_self) _),
      Decoder.bind_run later]
    rfl

/-- The inputs are read into a map, in the order in which they were written. -/
theorem readInputs_run {known : Std.ExtTreeMap NodeId Timestamp}
    {entries : List (NodeId × Timestamp)} (listed : ∀ entry ∈ entries, entry.1 ∈ known)
    (distinct : (entries.map Prod.fst).Nodup) {restored : Std.ExtTreeMap NodeId Timestamp}
    (absent : ∀ entry ∈ entries, entry.1 ∉ restored) (rest : Bytes) :
    (readInputs known entries.length restored).run (entries.flatMap writeInput ++ rest) =
      .ok (restored.insertMany entries, rest) := by
  induction entries generalizing restored with
  | nil =>
    rw [Std.ExtTreeMap.insertMany_nil]
    rfl
  | cons entry entries inductionHypothesis =>
    obtain ⟨fresh, others⟩ := List.nodup_cons.mp distinct
    have later := inductionHypothesis
      (fun other member => listed other (List.mem_cons_of_mem _ member)) others
      (absent_insert fresh absent)
    rw [List.flatMap_cons, List.append_assoc, List.length_cons, readInputs, writeInput,
      List.append_assoc, Decoder.bind_run (Decoder.u32_run entry.1.toNat_lt _),
      Decoder.bind_run (Decoder.i64_run (Timestamp.fits entry.2).bmod _),
      UInt32.ofNat_toNat, ofMs_ms,
      Decoder.require_bind_run ⟨listed entry List.mem_cons_self, absent entry List.mem_cons_self⟩,
      Std.ExtTreeMap.insertMany_cons]
    exact later

/-- The same bytes as in a checkpoint file. -/
theorem writePane_eq {entry : PaneEntry} (fits : PaneFits entry) :
    writePane entry = .ok entry.encode := by
  have key : Encoder.blob entry.key = .ok (encode 4 entry.key.length ++ entry.key) :=
    Encoder.blob_eq_ok.mpr ⟨fits.key, rfl⟩
  rw [writePane, key]
  simp [PaneEntry.encode, Window.encode]

theorem mapM_writePane {entries : List PaneEntry} (fits : ∀ entry ∈ entries, PaneFits entry) :
    entries.mapM writePane = .ok (entries.map PaneEntry.encode) := by
  induction entries with
  | nil => rfl
  | cons entry entries inductionHypothesis =>
    rw [List.mapM_cons, writePane_eq (fits entry List.mem_cons_self),
      inductionHypothesis fun other member => fits other (List.mem_cons_of_mem _ member)]
    rfl

/-- A pane that `Restore` accepts. -/
structure PaneSaved (entry : PaneEntry) : Prop extends PaneFits entry where
  nonempty : entry.count ≠ 0
  proper : entry.window.Proper

/-- Two entries for different panes. -/
def Apart (first second : PaneEntry) : Prop :=
  ¬ (first.key = second.key ∧ first.window = second.window)

theorem Apart.symm {first second : PaneEntry} (apart : Apart first second) : Apart second first :=
  fun same => apart ⟨same.1.symm, same.2.symm⟩

/-- The panes are read behind those read before. -/
theorem readPanes_run {earlier entries : List PaneEntry}
    (saved : ∀ entry ∈ entries, PaneSaved entry)
    (apart : (earlier ++ entries).Pairwise Apart) (rest : Bytes) :
    (readPanes entries.length earlier).run (entries.flatMap PaneEntry.encode ++ rest) =
      .ok (earlier ++ entries, rest) := by
  induction entries generalizing earlier with
  | nil =>
    rw [List.append_nil]
    rfl
  | cons entry entries inductionHypothesis =>
    have own := saved entry List.mem_cons_self
    have key : Encoder.blob entry.key = .ok (encode 4 entry.key.length ++ entry.key) :=
      Encoder.blob_eq_ok.mpr ⟨own.key, rfl⟩
    have fresh : entry.count ≠ 0 ∧
        ∀ other ∈ earlier, ¬ (other.key = entry.key ∧ other.window = entry.window) :=
      ⟨own.nonempty, fun other member =>
        (List.pairwise_append.mp apart).2.2 other member entry List.mem_cons_self⟩
    have later : (readPanes entries.length (earlier ++ [entry])).run
        (entries.flatMap PaneEntry.encode ++ rest) = .ok (earlier ++ [entry] ++ entries, rest) :=
      inductionHypothesis (fun other member => saved other (List.mem_cons_of_mem _ member))
        (by simpa using apart)
    have layout : entry.encode ++ entries.flatMap PaneEntry.encode ++ rest =
        (encode 4 entry.key.length ++ entry.key) ++ (entry.window.encode ++
          (encodeSigned 8 entry.sum ++ (encode 8 entry.count ++
            (entries.flatMap PaneEntry.encode ++ rest)))) := by
      simp [PaneEntry.encode, Window.encode]
    rw [List.flatMap_cons, layout, List.length_cons, readPanes,
      Decoder.bind_run (Decoder.blob_run key _),
      Decoder.bind_run (readWindow_run own.proper _),
      Decoder.bind_run (Decoder.i64_run own.sum.bmod _),
      Decoder.bind_run (Decoder.u64_run own.count _), Decoder.require_bind_run fresh, later]
    simp

/-- The bytes of a snapshot, for a configuration, a state and the watermarks of the inputs. -/
def snapshotLayout (operator : WindowOperator) (state : CheckpointData)
    (inputs : List (NodeId × Timestamp)) : Bytes :=
  encode 4 snapshotMagic ++
    (encodeSigned 8 operator.windowMs.toInt ++ (encodeSigned 8 operator.slideMs.toInt ++
    (encodeSigned 8 operator.latenessMs.toInt ++ (encode 8 state.offset ++
    (encodeSigned 8 state.watermark.ms ++ (encode 4 inputs.length ++ (inputs.flatMap writeInput ++
    (encode 4 state.panes.length ++ (state.panes.flatMap PaneEntry.encode ++
    (encode 4 state.firedWindows.length ++ (state.firedWindows.flatMap Window.encode ++
    (encode 4 state.refiredWindows.length ++
      (state.refiredWindows.flatMap Window.encode ++ [])))))))))))))

/-- `Capture` writes the layout when no key is too long. -/
theorem capture_eq {operator : WindowOperator} {walk : operator.processor.state.Walk}
    (fits : ∀ entry ∈ walk.panes, PaneFits entry) :
    operator.capture walk =
      ([.flush], .ok (operator.snapshotLayout (operator.processor.capture operator.records walk)
        operator.watermarks.toList)) := by
  rw [capture, KeyedProcessor.capture, mapM_writePane fits, ← Std.ExtTreeMap.length_toList]
  simp only [snapshotLayout, writeWindows, List.append_assoc, List.append_nil, List.flatMap_def]
  rfl

theorem toInt_bmod (value : Int64) : value.toInt.bmod (2 ^ 64) = value.toInt := by
  apply FitsSigned.bmod
  exact ⟨Int64.le_toInt value, Int64.toInt_le value⟩

/-- An operator reads its own configuration back. -/
theorem readConfiguration_run (operator : WindowOperator) (rest : Bytes) :
    operator.readConfiguration.run (encode 4 snapshotMagic ++
      (encodeSigned 8 operator.windowMs.toInt ++ (encodeSigned 8 operator.slideMs.toInt ++
        (encodeSigned 8 operator.latenessMs.toInt ++ rest)))) = .ok ((), rest) := by
  rw [readConfiguration, Decoder.bind_run (Decoder.u32_run (by decide) _),
    Decoder.require_bind_run rfl, Decoder.bind_run (Decoder.i64_run (toInt_bmod _) _),
    Decoder.require_bind_run rfl, Decoder.bind_run (Decoder.i64_run (toInt_bmod _) _),
    Decoder.require_bind_run rfl, Decoder.bind_run (Decoder.i64_run (toInt_bmod _) _), require,
    if_pos rfl]
  rfl

/-- What `Restore` demands of a snapshot, for the operator that reads it. -/
structure Restorable (target : WindowOperator) (state : CheckpointData)
    (watermarks : Std.ExtTreeMap NodeId Timestamp) : Prop where
  offset : state.offset < 2 ^ 64
  inputs : ∀ input : NodeId, input ∈ watermarks → input ∈ target.watermarks
  size : watermarks.size = target.watermarks.size
  fewInputs : watermarks.size < 2 ^ 32
  minimum : combined watermarks = state.watermark
  fewPanes : state.panes.length < 2 ^ 32
  panes : ∀ entry ∈ state.panes, PaneSaved entry
  apart : state.panes.Pairwise Apart
  fewFired : state.firedWindows.length < 2 ^ 32
  fired : ∀ window ∈ state.firedWindows, window.Proper
  fewPending : state.refiredWindows.length < 2 ^ 32
  pending : ∀ window ∈ state.refiredWindows, window ∈ state.firedWindows

theorem length_flatMap_writeInput (entries : List (NodeId × Timestamp)) :
    (entries.flatMap writeInput).length = 12 * entries.length := by
  induction entries with
  | nil => rfl
  | cons entry entries inductionHypothesis =>
    rw [List.flatMap_cons, List.length_append, writeInput, List.length_append, length_encode,
      length_encodeSigned, inductionHypothesis, List.length_cons]
    omega

/-- Watermarks of known inputs are read back as they are. -/
theorem readInputs_toList {known watermarks : Std.ExtTreeMap NodeId Timestamp}
    (listed : ∀ input : NodeId, input ∈ watermarks → input ∈ known) (rest : Bytes) :
    (readInputs known watermarks.toList.length ∅).run
        (watermarks.toList.flatMap writeInput ++ rest) =
      .ok (watermarks, rest) := by
  have keys : (watermarks.toList.map Prod.fst).Nodup := by
    rw [Std.ExtTreeMap.map_fst_toList_eq_keys]
    exact Std.ExtTreeMap.nodup_keys
  have ran := readInputs_run (fun entry member => listed entry.1 (by
    rw [Std.ExtTreeMap.mem_iff_isSome_getElem?,
      Std.ExtTreeMap.mem_toList_iff_getElem?_eq_some.mp member]
    rfl)) keys (fun entry _ => Std.ExtTreeMap.not_mem_empty) rest
  rwa [insertMany_toList] at ran

variable {watermarks : Std.ExtTreeMap NodeId Timestamp}

/-- The reader returns what was written. -/
theorem readSnapshot_run {target : WindowOperator} {state : CheckpointData}
    (restorable : Restorable target state watermarks) :
    target.readSnapshot.run (target.snapshotLayout state watermarks.toList) =
      .ok ((state, watermarks), []) := by
  have fewInputs : watermarks.toList.length < 2 ^ 32 := by
    rw [Std.ExtTreeMap.length_toList]
    exact restorable.fewInputs
  have proper : ∀ window ∈ state.refiredWindows, window.Proper := fun window member =>
    restorable.fired window (restorable.pending window member)
  have apart : ([] ++ state.panes).Pairwise Apart := restorable.apart
  rw [readSnapshot, snapshotLayout, Decoder.bind_run (readConfiguration_run target _),
    Decoder.bind_run (Decoder.u64_run restorable.offset _),
    Decoder.bind_run (Decoder.i64_run (Timestamp.fits state.watermark).bmod _),
    Decoder.bind_run (Decoder.count_run fewInputs (count_fits (by decide)
      (length_flatMap_writeInput _).ge _)),
    Decoder.bind_run (readInputs_toList restorable.inputs _),
    Decoder.require_bind_run restorable.size, ofMs_ms, Decoder.require_bind_run restorable.minimum,
    Decoder.bind_run (Decoder.count_run restorable.fewPanes (count_fits (by decide)
      (length_entries _) _)),
    Decoder.bind_run (readPanes_run restorable.panes apart _),
    Decoder.bind_run (Decoder.count_run restorable.fewFired (count_fits (by decide)
      (length_flatMap_encodeWindow _).ge _)),
    Decoder.bind_run (readWindowList_run restorable.fired _),
    Decoder.bind_run (Decoder.count_run restorable.fewPending (count_fits (by decide)
      (length_flatMap_encodeWindow _).ge _)),
    Decoder.bind_run (readWindowList_run proper _), Decoder.bind_run Decoder.finish_run,
    Decoder.require_bind_run restorable.pending]
  rfl

/-- A fresh operator takes over what it has read. -/
theorem restore_eq {target : WindowOperator} (untouched : target.touched = false)
    {bytes rest : Bytes} {state : CheckpointData}
    (read : target.readSnapshot.run bytes = .ok ((state, watermarks), rest)) :
    target.restore bytes = .ok { target with
      processor := target.processor.restore state
      watermarks := watermarks
      records := state.offset
      touched := true } := by
  rw [restore, if_neg (by simp [untouched]), read]

/-! ## What `Apply` keeps -/

/-- An operator that was created as `fresh` and has only applied payloads. -/
structure Sound (kind : AssignerType) (fresh operator : WindowOperator) : Prop where
  configuration : operator.windowMs = fresh.windowMs ∧ operator.slideMs = fresh.slideMs ∧
    operator.latenessMs = fresh.latenessMs
  inputs : ∀ input : NodeId, input ∈ operator.watermarks ↔ input ∈ fresh.watermarks
  size : operator.watermarks.size = fresh.watermarks.size
  carried : operator.processor.Carried kind.makeAssigner fresh.latenessMs.toInt.toNat
  filled : operator.processor.state.Filled
  minimum : operator.processor.watermark = combined operator.watermarks
  counted : operator.records < 2 ^ 64

/-- The minimum is one of the watermarks at most. -/
theorem combined_le {input : NodeId} {current : Timestamp}
    (found : watermarks[input]? = some current) :
    combined watermarks ≤ current :=
  le_combined_iff.mp le_rfl input current found

/-- An input that moves forward does not lower the minimum. -/
theorem combined_mono {input : NodeId} {current time : Timestamp}
    (found : watermarks[input]? = some current) (forward : current ≤ time) :
    combined watermarks ≤ combined (watermarks.insert input time) := by
  rw [le_combined_iff]
  intro other stands stored
  rw [Std.ExtTreeMap.getElem?_insert] at stored
  split at stored
  · cases stored
    exact (combined_le found).trans forward
  · exact combined_le stored

/-- The key of a record that was read is short. -/
theorem readPayload_short {payload rest : Bytes} {record : Record}
    (read : readPayload.run payload = .ok (.record record, rest)) : record.key.length < 2 ^ 32 := by
  obtain ⟨kind, afterKind, -, read⟩ := Decoder.bind_run_ok read
  split at read
  · obtain ⟨key, afterKey, keyRead, read⟩ := Decoder.bind_run_ok read
    obtain ⟨value, afterValue, -, read⟩ := Decoder.bind_run_ok read
    obtain ⟨eventTime, afterEvent, -, read⟩ := Decoder.bind_run_ok read
    obtain ⟨processingTime, afterTimes, -, read⟩ := Decoder.bind_run_ok read
    obtain ⟨-, done, -, read⟩ := Decoder.bind_run_ok read
    cases read
    exact Decoder.length_of_blob keyRead
  · split at read
    · obtain ⟨time, afterTime, -, read⟩ := Decoder.bind_run_ok read
      obtain ⟨-, done, -, read⟩ := Decoder.bind_run_ok read
      cases read
    · cases read

namespace Sound

variable {kind : AssignerType} {fresh operator after : WindowOperator} {effects : List Effect}

section

variable (sound : Sound kind fresh operator)

include sound

theorem applyRecord {record : Record} (short : record.key.length < 2 ^ 32)
    (applied : operator.applyRecord record = .ok (effects, after)) : Sound kind fresh after := by
  have counted := sound.counted
  unfold WindowOperator.applyRecord at applied
  split at applied
  · cases applied
  next below =>
    cases processed : operator.processor.processRecord record with
    | error thrown => simp [processed] at applied
    | ok processor =>
      rw [processed] at applied
      cases applied
      have carried := sound.carried.record record
      rw [processed] at carried
      refine ⟨sound.configuration, sound.inputs, sound.size, carried, ?_, ?_, ?_⟩
      · exact KeyedProcessor.processRecord_filled sound.filled sound.carried.assigns short processed
      · exact (KeyedProcessor.processRecord_watermark processed).trans sound.minimum
      · change operator.records + 1 < 2 ^ 64
        omega

theorem applyWatermark {input : NodeId} {current time : Timestamp}
    (found : operator.watermarks[input]? = some current)
    (applied : operator.applyWatermark input current time = .ok (effects, after)) :
    Sound kind fresh after := by
  have known : input ∈ operator.watermarks := by
    rw [Std.ExtTreeMap.mem_iff_isSome_getElem?, found]
    rfl
  unfold WindowOperator.applyWatermark at applied
  split at applied
  · cases applied
  next forward =>
    cases applied
    have rises := combined_mono found (not_lt.mp forward)
    refine ⟨sound.configuration, ?_, ?_, sound.carried.control _, ?_, ?_, sound.counted⟩
    · intro other
      refine Std.ExtTreeMap.mem_insert.trans ?_
      rw [Std.LawfulEqOrd.compare_eq_iff_eq, ← sound.inputs]
      constructor
      · rintro (rfl | stored)
        · exact known
        · exact stored
      · exact .inr
    · refine Std.ExtTreeMap.size_insert.trans ?_
      rw [if_pos (Std.ExtTreeMap.mem_iff_contains.mp known)]
      exact sound.size
    · unfold KeyedProcessor.processControl
      dsimp only
      split
      · exact KeyedProcessor.advanceTo_filled sound.carried sound.filled _
      · exact sound.filled
    · unfold KeyedProcessor.processControl
      dsimp only
      split
      · exact KeyedProcessor.advanceTo_watermark _ _
      next same =>
        apply le_antisymm
        · rw [sound.minimum]
          exact rises
        · exact not_lt.mp same

theorem apply {input : NodeId} {payload : Bytes}
    (applied : operator.apply input payload = .ok (effects, after)) : Sound kind fresh after := by
  unfold WindowOperator.apply at applied
  split at applied
  · cases applied
  next current found =>
    have touched : Sound kind fresh { operator with touched := true } :=
      ⟨sound.configuration, sound.inputs, sound.size, sound.carried, sound.filled, sound.minimum,
        sound.counted⟩
    dsimp only at applied
    split at applied
    · cases applied
    next read => exact touched.applyRecord (readPayload_short read) applied
    next read => exact touched.applyWatermark found applied

theorem applyAll {payloads : List (NodeId × Bytes)}
    (applied : operator.applyAll payloads = .ok (effects, after)) : Sound kind fresh after := by
  induction payloads generalizing operator effects with
  | nil =>
    cases applied
    exact sound
  | cons first rest inductionHypothesis =>
    obtain ⟨input, payload⟩ := first
    unfold WindowOperator.applyAll at applied
    cases one : operator.apply input payload with
    | error thrown =>
      rw [one] at applied
      cases applied
    | ok outcome =>
      obtain ⟨done, middle⟩ := outcome
      cases others : middle.applyAll rest with
      | error thrown =>
        rw [one] at applied
        change (middle.applyAll rest >>= _) = _ at applied
        rw [others] at applied
        cases applied
      | ok outcome =>
        rw [one] at applied
        change (middle.applyAll rest >>= _) = _ at applied
        rw [others] at applied
        cases applied
        exact inductionHypothesis (sound.apply one) others

end

end Sound

/-- A new operator. -/
theorem Sound.create {inputs : List NodeId} {windowMs slideMs latenessMs : Int64}
    {fresh : WindowOperator} (created : create inputs windowMs slideMs latenessMs = .ok fresh) :
    ∃ kind : AssignerType, fresh.touched = false ∧
      fresh.processor = .create kind.makeAssigner fresh.latenessMs.toInt.toNat false ∧
      fresh.watermarks.size = inputs.length ∧ Sound kind fresh fresh := by
  obtain ⟨nonempty, kind, watermarks, chosen, added, rfl⟩ := create_eq created
  obtain ⟨-, -, entries⟩ := addInputs_spec added
  have size := addInputs_size added
  obtain ⟨first, listed⟩ := List.exists_mem_of_ne_nil inputs nonempty
  have stands : watermarks[first]? = some ⊥ := by rw [entries, if_pos listed]
  exact ⟨kind, rfl, rfl, by simpa using size, ⟨rfl, rfl, rfl⟩, fun _ => Iff.rfl, rfl,
    .create _ _ _, .empty _, (le_bot_iff.mp (combined_le stands)).symm, Nat.two_pow_pos 64⟩

/-- The entries of `Capture` belong to different panes. -/
theorem forEachPane_apart (state : KeyedWindowState) : state.forEachPane.Pairwise Apart := by
  unfold KeyedWindowState.forEachPane
  rw [List.pairwise_flatMap]
  constructor
  · rintro ⟨window, panes⟩ -
    rw [List.pairwise_map]
    refine Std.ExtTreeMap.distinct_keys_toList.imp ?_
    rintro first second different ⟨same, -⟩
    exact different (Std.LawfulEqOrd.compare_eq_iff_eq.mpr same)
  · refine Std.ExtTreeMap.distinct_keys_toList.imp ?_
    rintro ⟨window, panes⟩ ⟨place, others⟩ different first firstMember second secondMember ⟨-, same⟩
    obtain ⟨_, -, rfl⟩ := List.mem_map.mp firstMember
    obtain ⟨_, -, rfl⟩ := List.mem_map.mp secondMember
    exact different (Std.LawfulEqOrd.compare_eq_iff_eq.mpr same)

/-- What a sound operator captures can be restored. -/
theorem Sound.restorable {kind : AssignerType} {fresh operator : WindowOperator}
    (sound : Sound kind fresh operator) (fewInputs : fresh.watermarks.size < 2 ^ 32)
    (fewPanes : operator.processor.state.totalPanes < 2 ^ 32)
    (fewWindows : operator.processor.state.firedWindows.size < 2 ^ 32)
    (walk : operator.processor.state.Walk) :
    Restorable fresh (operator.processor.capture operator.records walk) operator.watermarks := by
  have consistent := sound.carried.consistent
  have pending : ∀ window ∈ walk.refiredWindows, window ∈ walk.firedWindows := by
    intro window refired
    rw [walk.mem_refiredWindows] at refired
    rw [walk.mem_firedWindows]
    exact consistent.pending window refired
  have few : walk.firedWindows.length < 2 ^ 32 := by
    rw [walk.allFired.length_eq, Std.ExtTreeSet.length_toList]
    exact fewWindows
  refine
    { offset := sound.counted
      inputs := fun input => (sound.inputs input).mp
      size := sound.size
      fewInputs := by rw [sound.size]; exact fewInputs
      minimum := sound.minimum.symm
      fewPanes := by
        rwa [CheckpointWriter.totalPanes_eq_length, ← walk.allPanes.length_eq] at fewPanes
      panes := ?_
      apart := (walk.allPanes.pairwise_iff Apart.symm).mpr (forEachPane_apart _)
      fewFired := few
      fired := fun window fired => sound.filled.fired window (walk.mem_firedWindows.mp fired)
      fewPending := ?_
      pending := pending }
  · intro entry member
    have found := KeyedWindowState.mem_forEachPane.mp (walk.allPanes.mem_iff.mp member)
    obtain ⟨short, nonempty, proper⟩ := sound.filled.panes _ _ _ found
    obtain ⟨sum, count⟩ := consistent.fits _ _ _ found
    exact ⟨⟨short, sum, count⟩, nonempty, proper⟩
  · refine lt_of_le_of_lt ?_ few
    have distinct := operator.processor.state.refiredWindows_nodup
    exact (walk.allRefired.nodup_iff.mpr distinct).length_le_of_subset pending

/-! ## The same answers -/

/-- The results of every payload, and of the final flush, without their order. A payload that
is refused reports its failure, and the operator it leaves behind goes on. -/
def responses :
    WindowOperator → List (NodeId × Bytes) → List (Except Failure (Multiset WindowResult))
  | operator, [] => [.ok (emissions operator.finalFlush.1)]
  | operator, (input, payload) :: rest =>
      match operator.apply input payload with
      | .error (failure, after) => .error failure :: after.responses rest
      | .ok (effects, after) => .ok (emissions effects) :: after.responses rest

/-- Two operators that differ at most in counters of their processors. -/
structure Alike (left right : WindowOperator) : Prop where
  watermarks : left.watermarks = right.watermarks
  records : left.records = right.records
  processor : left.processor.Twins right.processor

namespace Alike

variable {left right : WindowOperator}

/-- Two calls fail alike, or report the same results and leave alike operators. -/
def Matches (left right : Except (Failure × WindowOperator) (List Effect × WindowOperator)) :
    Prop :=
  match left, right with
  | .error (failure, leftAfter), .error (other, rightAfter) =>
      failure = other ∧ Alike leftAfter rightAfter
  | .ok (effects, leftAfter), .ok (others, rightAfter) =>
      emissions effects = emissions others ∧ Alike leftAfter rightAfter
  | _, _ => False

theorem applyRecord (alike : Alike left right) (record : Record) :
    Matches (left.applyRecord record) (right.applyRecord record) := by
  unfold WindowOperator.applyRecord
  rw [alike.records]
  split
  · exact ⟨rfl, alike⟩
  · rcases alike.processor.record record with
      ⟨failure, leftAfter, rightAfter, leftFails, rightFails, after⟩ |
      ⟨leftAfter, rightAfter, leftDone, rightDone, after⟩
    · rw [leftFails, rightFails]
      exact ⟨rfl, alike.watermarks, rfl, after⟩
    · rw [leftDone, rightDone]
      exact ⟨rfl, alike.watermarks, rfl, after⟩

theorem applyWatermark (alike : Alike left right) (input : NodeId) (current time : Timestamp) :
    Matches (left.applyWatermark input current time) (right.applyWatermark input current time) := by
  unfold WindowOperator.applyWatermark
  split
  · exact ⟨rfl, alike⟩
  · have same := alike.processor.control
      { type := .watermark
        watermark := combined (right.watermarks.insert input time)
        checkpointOffset := right.records }
    rw [alike.watermarks, alike.records]
    exact ⟨same.1, rfl, rfl, same.2⟩

theorem apply (alike : Alike left right) (input : NodeId) (payload : Bytes) :
    Matches (left.apply input payload) (right.apply input payload) := by
  have touched : Alike { left with touched := true } { right with touched := true } :=
    ⟨alike.watermarks, alike.records, alike.processor⟩
  have known : left.watermarks[input]? = right.watermarks[input]? := by rw [alike.watermarks]
  unfold WindowOperator.apply
  rw [known]
  cases right.watermarks[input]? with
  | none => exact ⟨rfl, alike⟩
  | some current =>
    dsimp only
    match readPayload.run payload with
    | .error message => exact ⟨rfl, touched⟩
    | .ok (.record record, _) => exact touched.applyRecord record
    | .ok (.watermark time, _) => exact touched.applyWatermark input current time

/-- Alike operators respond alike. -/
theorem responses (alike : Alike left right) (payloads : List (NodeId × Bytes)) :
    left.responses payloads = right.responses payloads := by
  induction payloads generalizing left right with
  | nil =>
    rw [WindowOperator.responses, WindowOperator.responses, WindowOperator.finalFlush,
      WindowOperator.finalFlush, alike.processor.finalFlush]
  | cons first rest inductionHypothesis =>
    obtain ⟨input, payload⟩ := first
    have same := alike.apply input payload
    unfold WindowOperator.responses
    cases one : left.apply input payload with
    | error thrown =>
      cases other : right.apply input payload with
      | error failed =>
        rw [one, other] at same
        dsimp only
        rw [same.1, inductionHypothesis same.2]
      | ok outcome =>
        rw [one, other] at same
        exact same.elim
    | ok outcome =>
      cases other : right.apply input payload with
      | error failed =>
        rw [one, other] at same
        exact same.elim
      | ok result =>
        rw [one, other] at same
        dsimp only
        rw [same.1, inductionHypothesis same.2]

end Alike

/-- The same inputs and configuration make the same operator, in whatever order the inputs
are listed. -/
theorem create_same {inputs others : List NodeId} {windowMs slideMs latenessMs : Int64}
    {fresh target : WindowOperator}
    (created : create inputs windowMs slideMs latenessMs = .ok fresh)
    (again : create others windowMs slideMs latenessMs = .ok target)
    (same : ∀ input : NodeId, input ∈ others ↔ input ∈ inputs) : target = fresh := by
  obtain ⟨-, kind, watermarks, chosen, added, rfl⟩ := create_eq created
  obtain ⟨-, other, marks, chooses, adds, rfl⟩ := create_eq again
  obtain rfl : kind = other := Except.ok.inj (chosen.symm.trans chooses)
  obtain rfl : marks = watermarks := by
    apply Std.ExtTreeMap.ext_getElem?
    intro input
    rw [(addInputs_spec adds).2.2, (addInputs_spec added).2.2]
    simp only [same]
  rfl

/-- **A snapshot of the operator is a faithful copy.** With fewer than `2^32` inputs, panes
and fired windows, whatever payloads an operator has applied: its watermark is the minimum of
the inputs, every pane has a record and a proper window, a fresh operator of the same inputs
and configuration accepts the snapshot, in whatever order it lists panes and windows, and then
has the same watermarks, record count, panes and marks and responds alike to all further
payloads and to the final flush. -/
theorem operator_snapshot_round_trip {inputs others : List NodeId}
    {windowMs slideMs latenessMs : Int64} {fresh target operator : WindowOperator}
    (created : create inputs windowMs slideMs latenessMs = .ok fresh)
    {payloads : List (NodeId × Bytes)} {effects : List Effect}
    (applied : fresh.applyAll payloads = .ok (effects, operator))
    (fewInputs : inputs.length < 2 ^ 32)
    (fewPanes : operator.processor.state.totalPanes < 2 ^ 32)
    (fewWindows : operator.processor.state.firedWindows.size < 2 ^ 32)
    (again : create others windowMs slideMs latenessMs = .ok target)
    (same : ∀ input : NodeId, input ∈ others ↔ input ∈ inputs)
    (walk : operator.processor.state.Walk) :
    operator.processor.watermark = combined operator.watermarks ∧
      (∀ key window pane, operator.processor.state.pane key window = some pane →
        0 < pane.count ∧ 0 ≤ window.start.ms ∧ window.start < window.close) ∧
      ∃ bytes restored, operator.capture walk = ([.flush], .ok bytes) ∧
        target.restore bytes = .ok restored ∧
        restored.watermarks = operator.watermarks ∧
        restored.records = operator.records ∧
        restored.processor.watermark = operator.processor.watermark ∧
        restored.processor.state.windows = operator.processor.state.windows ∧
        restored.processor.state.firedWindows = operator.processor.state.firedWindows ∧
        restored.processor.state.refiredWindows = operator.processor.state.refiredWindows ∧
        ∀ later, restored.responses later = operator.responses later := by
  obtain rfl := create_same created again same
  obtain ⟨kind, untouched, processor, size, initial⟩ := Sound.create created
  have sound := initial.applyAll applied
  have restorable := sound.restorable (by rwa [size]) fewPanes fewWindows walk
  refine ⟨sound.minimum, ?_, ?_⟩
  · intro key window pane found
    obtain ⟨-, nonempty, proper⟩ := sound.filled.panes key window pane found
    exact ⟨Nat.pos_of_ne_zero nonempty, proper⟩
  · let state := operator.processor.capture operator.records walk
    let restored : WindowOperator :=
      { target with
        processor := target.processor.restore state
        watermarks := operator.watermarks
        records := operator.records
        touched := true }
    have layout : operator.snapshotLayout state operator.watermarks.toList =
        target.snapshotLayout state operator.watermarks.toList := by
      obtain ⟨size, slide, lateness⟩ := sound.configuration
      rw [snapshotLayout, snapshotLayout, size, slide, lateness]
    have reads : target.restore (operator.snapshotLayout state operator.watermarks.toList) =
        .ok restored := by
      rw [layout]
      exact restore_eq untouched (readSnapshot_run restorable)
    have twins : restored.processor.Twins operator.processor := by
      change (target.processor.restore state).Twins operator.processor
      rw [processor]
      exact KeyedProcessor.restore_contents sound.carried operator.records false walk
    have alike : Alike restored operator := ⟨rfl, rfl, twins⟩
    refine ⟨_, restored, capture_eq fun entry member => (restorable.panes entry member).toPaneFits,
      reads, rfl, rfl, twins.watermark, ?_, ?_, ?_, alike.responses⟩
    · rw [twins.state]
    · rw [twins.state]
    · rw [twins.state]

/-- Records of two keys, watermarks that close their window, and a late record. -/
def lateSchedule : List (NodeId × Input) :=
  [(1, sample 107 5), (2, sample 108 6), (1, .watermark (.ofMs 12)), (2, .watermark (.ofMs 11)),
    (2, sample 107 7)]
where
  sample (key : UInt8) (value : Int) : Input :=
    .record { key := [key], value := value, eventTime := .ofMs 3, processingTime := .ofMs 3 }

/-- The window of the late record waits for a re-fire, and a snapshot that lists the panes
backwards keeps that. -/
theorem lateSchedule_restored : ∃ fresh sent effects operator bytes restored,
    create [1, 2] 10 0 5 = .ok fresh ∧ payloads lateSchedule = .ok sent ∧
      fresh.applyAll sent = .ok (effects, operator) ∧
      operator.processor.state.refiredWindows.toList = [windowAt 0 10] ∧
      operator.processor.state.sorted.reverse.panes.map (·.key) = [[108], [107]] ∧
      operator.capture operator.processor.state.sorted.reverse = ([.flush], .ok bytes) ∧
      fresh.restore bytes = .ok restored ∧ restored.responses [] = operator.responses [] := by
  have checked : ((create [1, 2] 10 0 5).toOption.bind fun fresh =>
      (payloads lateSchedule).toOption.bind fun sent =>
        (fresh.applyAll sent).toOption.map fun result =>
          decide (result.2.processor.state.refiredWindows.toList = [windowAt 0 10] ∧
            result.2.processor.state.sorted.reverse.panes.map (·.key) = [[108], [107]] ∧
            result.2.processor.state.totalPanes < 2 ^ 32 ∧
            result.2.processor.state.firedWindows.size < 2 ^ 32)) = some true := by
    decide +kernel
  obtain ⟨fresh, created, rest⟩ := Option.bind_eq_some_iff.mp checked
  obtain ⟨sent, encoded, last⟩ := Option.bind_eq_some_iff.mp rest
  obtain ⟨⟨effects, operator⟩, applied, decided⟩ := Option.map_eq_some_iff.mp last
  obtain ⟨pending, listed, panes, windows⟩ := of_decide_eq_true decided
  replace created := ok_of_toOption created
  replace encoded := ok_of_toOption encoded
  replace applied := ok_of_toOption applied
  obtain ⟨-, -, bytes, restored, captured, restores, -, -, -, -, -, -, same⟩ :=
    operator_snapshot_round_trip created applied (by decide) panes windows created
      (fun _ => Iff.rfl) operator.processor.state.sorted.reverse
  exact ⟨fresh, sent, effects, operator, bytes, restored, created, encoded, applied, pending,
    listed, captured, restores, same []⟩

/-! ## Every node as an input -/

theorem addInputs_ok {inputs : List NodeId} (distinct : inputs.Nodup)
    {before : Std.ExtTreeMap NodeId Timestamp} (absent : ∀ input ∈ inputs, input ∉ before) :
    ∃ after, addInputs inputs before = .ok after := by
  induction inputs generalizing before with
  | nil => exact ⟨before, rfl⟩
  | cons first rest inductionHypothesis =>
    obtain ⟨fresh, others⟩ := List.nodup_cons.mp distinct
    rw [addInputs, if_neg (absent first List.mem_cons_self)]
    apply inductionHypothesis others
    intro input member stored
    rcases Std.ExtTreeMap.mem_insert.mp stored with same | before
    · rw [Std.LawfulEqOrd.compare_eq_iff_eq] at same
      exact fresh (same ▸ member)
    · exact absent input (List.mem_cons_of_mem _ member) before

theorem create_ok {inputs : List NodeId} (nonempty : inputs ≠ []) (distinct : inputs.Nodup) :
    ∃ fresh, create inputs 10 0 0 = .ok fresh := by
  obtain ⟨watermarks, added⟩ := addInputs_ok distinct
    (fun input _ => (Std.ExtTreeMap.not_mem_empty : input ∉ (∅ : Std.ExtTreeMap NodeId Timestamp)))
  have slide : ¬ (0 : Int64).toInt < 0 := by decide
  obtain ⟨kind, chosen⟩ : ∃ kind, chooseAssigner 10 0 = .ok kind := ⟨_, rfl⟩
  unfold create
  simp only [nonempty, slide, or_self, if_false, added, chosen]
  exact ⟨_, rfl⟩

/-- The ids of all nodes. -/
def everyNode : List NodeId := (List.range (2 ^ 32)).map UInt32.ofNat

theorem length_everyNode : everyNode.length = 2 ^ 32 := by
  rw [everyNode, List.length_map, List.length_range]

theorem everyNode_nodup : everyNode.Nodup := by
  refine List.Nodup.map_on ?_ List.nodup_range
  intro first firstMember second secondMember same
  have numbers := congrArg UInt32.toNat same
  rwa [UInt32.toNat_ofNat_of_lt' (List.mem_range.mp firstMember),
    UInt32.toNat_ofNat_of_lt' (List.mem_range.mp secondMember)] at numbers

theorem everyNode_ne_nil : everyNode ≠ [] := by
  intro empty
  have length := length_everyNode
  rw [empty, List.length_nil] at length
  exact absurd length (Nat.two_pow_pos 32).ne

/-- The count of `2^32` inputs is written as zero. -/
theorem encode_everyNode : encode 4 (2 ^ 32) = encode 4 0 := by decide

/-- A snapshot with a count of zero inputs is refused by an operator that has some. -/
theorem readSnapshot_zero {target : WindowOperator} {state : CheckpointData}
    (offset : state.offset < 2 ^ 64) {inputs : List (NodeId × Timestamp)}
    (count : encode 4 inputs.length = encode 4 0) (some : target.watermarks.size ≠ 0) :
    target.readSnapshot.run (target.snapshotLayout state inputs) =
      .error "window snapshot input missing" := by
  have missing : ¬ (∅ : Std.ExtTreeMap NodeId Timestamp).size = target.watermarks.size := by
    rw [Std.ExtTreeMap.size_empty]
    exact some.symm
  have none (rest : Bytes) : (readInputs target.watermarks 0 ∅).run rest = .ok (∅, rest) := rfl
  rw [readSnapshot, snapshotLayout, count, Decoder.bind_run (readConfiguration_run target _),
    Decoder.bind_run (Decoder.u64_run offset _),
    Decoder.bind_run (Decoder.i64_run (Timestamp.fits state.watermark).bmod _),
    Decoder.bind_run (Decoder.count_run (Nat.two_pow_pos 32) (Nat.zero_le _)),
    Decoder.bind_run (none _), Decoder.require_bind_fails missing]

/-- An operator over all nodes cannot be restored, not even before its first payload. -/
theorem every_node_not_restored :
    everyNode.length = 2 ^ 32 ∧ ∃ fresh bytes, create everyNode 10 0 0 = .ok fresh ∧
      fresh.processor.state.totalPanes = 0 ∧ fresh.processor.state.firedWindows.size = 0 ∧
      fresh.capture = ([.flush], .ok bytes) ∧
      fresh.restore bytes = .error (.runtimeError "window snapshot input missing") := by
  obtain ⟨fresh, created⟩ := create_ok everyNode_ne_nil everyNode_nodup
  obtain ⟨kind, untouched, processor, size, sound⟩ := Sound.create created
  rw [length_everyNode] at size
  have some : fresh.watermarks.size ≠ 0 := by
    rw [size]
    exact (Nat.two_pow_pos 32).ne'
  have count : encode 4 fresh.watermarks.toList.length = encode 4 0 := by
    rw [Std.ExtTreeMap.length_toList, size, encode_everyNode]
  have panes : fresh.processor.state.sorted.panes = [] := by
    rw [processor]
    rfl
  refine ⟨length_everyNode, fresh, _, created, ?_, ?_, capture_eq ?_, ?_⟩
  · rw [processor]
    rfl
  · rw [processor]
    rfl
  · rw [panes]
    exact fun entry member => absurd member List.not_mem_nil
  · rw [restore, if_neg (by simp [untouched]), readSnapshot_zero sound.counted count some]

end WindowOperator

end Snapshot

end Stormglass
