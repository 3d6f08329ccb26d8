import Stormglass.OnTimeStreams
import Stormglass.OracleAgreement
import Stormglass.Pipeline

/-!
# Runs over streams without late records

A processor that consumes a stream on time keeps no mark for a window that is still open
and no pending re-fire at all, so each of its three counters of late data stays at zero. This
needs nothing of the event times or of the sums: it also holds for a run that an exception
or the end of the observation stops.

If in addition every event time is in the domain of the assigner and no pane overflows,
the run ends, and each key and window is reported once with all its records.
-/

namespace Stormglass

open KeyedWindowState

/-! ## Streams on time, item by item -/

section Items

variable {items : Batch}

theorem onTime_nil : OnTime [] := by
  intro before record starts
  simpa using starts.length_le

/-- A last record that is not older than the watermarks before it. -/
theorem OnTime.record (onTime : OnTime items) {record : Record}
    (time : highestWatermark items ≤ record.eventTime) : OnTime (items ++ [.record record]) := by
  intro before other starts
  rcases List.prefix_concat_iff.mp starts with whole | earlier
  · obtain ⟨rfl, last⟩ := List.append_inj' whole rfl
    cases last
    exact time
  · exact onTime before other earlier

theorem OnTime.control (onTime : OnTime items) (control : ControlRecord) :
    OnTime (items ++ [.control control]) := by
  intro before record starts
  rcases List.prefix_concat_iff.mp starts with whole | earlier
  · obtain ⟨-, last⟩ := List.append_inj' whole rfl
    cases last
  · exact onTime before record earlier

/-- Items without a record are no reason to be late. -/
theorem OnTime.controls (onTime : OnTime items) {more : Batch} (none : records more = []) :
    OnTime (items ++ more) := by
  induction more using List.reverseRecOn with
  | nil => rwa [List.append_nil]
  | append_singleton more item inductionHypothesis =>
    rw [records_append, List.append_eq_nil_iff] at none
    rw [← List.append_assoc]
    cases item with
    | record data => simp [records, BatchItem.record?] at none
    | control control => exact (inductionHypothesis none.1).control control

theorem OnTime.of_isPrefix {longer : Batch} (onTime : OnTime longer) (starts : items <+: longer) :
    OnTime items :=
  fun before record inside => onTime before record (inside.trans starts)

/-- A source that delivers a stream on time is on time within any number of calls. -/
theorem Source.Delivers.onTime {σ : Type} [Source σ] {source : σ} {batches : List Batch}
    (delivers : Source.Delivers source batches) (onTime : OnTime batches.flatten) (calls : Nat) :
    OnTime (Source.itemsWithin calls source) := by
  apply onTime.of_isPrefix
  rw [← delivers.itemsWithin_eq (Nat.le_max_right calls batches.length)]
  exact Source.itemsWithin_prefix source (Nat.le_max_left calls batches.length)

end Items

namespace KeyedProcessor

/-- No counter of late data has moved. -/
structure Untouched (stats : Stats) : Prop where
  dropped : stats.lateRecordsDropped = 0
  accepted : stats.lateRecordsAccepted = 0
  refired : stats.windowsRefired = 0

/-- A processor after a stream on time. -/
structure Punctual (assigner : WindowAssigner) (items : Batch) (processor : KeyedProcessor) :
    Prop where
  assigns : processor.assigner = assigner
  watermark : processor.watermark = highestWatermark items
  closed : ∀ window, processor.state.IsFired window → window.close ≤ processor.watermark
  unmarked : processor.state.refiredWindows = ∅
  untouched : Untouched processor.stats

/-- Before the deadline a value that is stored is accepted. -/
theorem addWithLateness_early {state after : KeyedWindowState} {key : Bytes} {window : Window}
    {value : Int} {watermark : Timestamp} {accepted : Bool}
    (early : watermark < window.deadline state.allowedLateness)
    (added : state.addWithLateness key window value watermark = .ok (accepted, after)) :
    accepted = true := by
  rw [addWithLateness, if_neg (not_le.mpr early)] at added
  split at added
  · cases added
  · split at added
    · cases added
      rfl
    · cases added
      rfl

/-- Open windows accept without a mark. -/
theorem addToWindows_open {record : Record} {watermark : Timestamp} {useLateness : Bool}
    {windows : List Window} {state after : KeyedWindowState}
    (ahead : ∀ window ∈ windows, watermark < window.close)
    (closed : ∀ window, state.IsFired window → window.close ≤ watermark)
    {anyDropped dropped anyLate late : Bool}
    (looped : addToWindows record watermark useLateness windows state anyDropped anyLate =
      .ok (after, dropped, late)) :
    after.firedWindows = state.firedWindows ∧ after.refiredWindows = state.refiredWindows ∧
      dropped = anyDropped ∧ late = anyLate := by
  induction windows generalizing state anyDropped anyLate with
  | nil =>
    cases looped
    exact ⟨rfl, rfl, rfl, rfl⟩
  | cons window rest inductionHypothesis =>
    have here := ahead window List.mem_cons_self
    have unfired :
        ¬ state.IsFired window := fun fired => absurd (closed window fired) (not_le.mpr here)
    rw [addToWindows] at looped
    cases one : state.addWithLateness record.key window record.value watermark with
    | error thrown => simp [one] at looped
    | ok step =>
      obtain ⟨accepted, middle⟩ := step
      obtain ⟨fired, refired⟩ := addWithLateness_marks unfired one
      have taken : accepted = true := addWithLateness_early
        (here.trans_le (window.close_le_deadline state.allowedLateness)) one
      subst taken
      simp only [one, Bool.not_true, Bool.or_false, unfired, decide_false, Bool.and_false] at looped
      have rest := inductionHypothesis
        (fun other member => ahead other (List.mem_cons_of_mem _ member))
        (fun other marked => closed other (by rwa [IsFired, fired] at marked)) looped
      rwa [fired, refired] at rest

namespace Punctual

variable {assigner : WindowAssigner} {items : Batch} {processor : KeyedProcessor}

theorem create (assigner : WindowAssigner) (lateness : Nat) (checkpointing : Bool) :
    Punctual assigner [] (create assigner lateness checkpointing) := by
  refine ⟨rfl, rfl, ?_, rfl, ⟨rfl, rfl, rfl⟩⟩
  intro window fired
  simp [KeyedProcessor.create, IsFired] at fired

/-- A record on time moves no counter. A refused one moves none either. -/
theorem record (punctual : Punctual assigner items processor) (covers : Covers assigner)
    {record : Record} (time : highestWatermark items ≤ record.eventTime) :
    match processor.processRecord record with
    | .ok after => Punctual assigner (items ++ [.record record]) after
    | .error (_, after) => Untouched after.stats := by
  have still := highestWatermark_record items record
  unfold processRecord
  rw [punctual.assigns]
  cases assigned : assigner record.eventTime with
  | error failure => exact punctual.untouched
  | ok windows =>
    dsimp only
    cases looped : addToWindows record processor.watermark
        (decide (0 < processor.allowedLateness)) windows processor.state false false with
    | error thrown => exact punctual.untouched
    | ok outcome =>
      obtain ⟨after, dropped, late⟩ := outcome
      have ahead : ∀ window ∈ windows, processor.watermark < window.close := by
        intro window member
        rw [punctual.watermark]
        exact time.trans_lt (covers _ _ assigned window member)
      obtain ⟨fired, refired, rfl, rfl⟩ := addToWindows_open ahead punctual.closed looped
      refine ⟨rfl, punctual.watermark.trans still.symm, ?_, refired.trans punctual.unmarked,
        ⟨punctual.untouched.dropped, punctual.untouched.accepted, punctual.untouched.refired⟩⟩
      intro window marked
      rw [IsFired, fired] at marked
      exact punctual.closed window marked

/-- A watermark fires windows that it closes, and nothing a second time. -/
theorem advanceTo (punctual : Punctual assigner items processor) {watermark : Timestamp}
    (advances : processor.watermark < watermark) (offset : Nat) :
    Punctual assigner (items ++ [watermarkItem watermark offset])
      (processor.advanceTo watermark).2 := by
  obtain ⟨untouchedDropped, untouchedAccepted, untouchedRefired⟩ := punctual.untouched
  have moved : watermark = highestWatermark (items ++ [watermarkItem watermark offset]) := by
    rw [highestWatermark_watermark, ← punctual.watermark]
    exact (max_eq_right advances.le).symm
  obtain ⟨fires, -⟩ := fireAll_spec _ processor.state
    (processor.state.expiredWindows_nodup watermark)
  have closed : ∀ window, (fireAll (processor.state.expiredWindows watermark)
      processor.state).2.IsFired window → window.close ≤ watermark := by
    intro window fired
    rcases (fires.fired window).mp fired with before | ⟨-, expired, -⟩
    · exact (punctual.closed window before).trans advances.le
    · exact ((processor.state.mem_expiredWindows watermark window).mp expired).2.1
  have quiet := fires.refired.trans punctual.unmarked
  have nothing : (∅ : Std.ExtTreeSet Window).toList = [] := rfl
  generalize firing : fireAll (processor.state.expiredWindows watermark) processor.state = fired
    at closed quiet
  unfold KeyedProcessor.advanceTo
  simp only [firing, quiet, nothing, fireAll, List.length_nil, Nat.add_zero]
  by_cases some : 0 < processor.allowedLateness
  · rw [if_pos some]
    have collection := garbageCollect_spec
      (fired.2.clearRefired.garbageCollectableWindows watermark) fired.2.clearRefired
    refine ⟨punctual.assigns, moved, ?_, ?_, untouchedDropped, untouchedAccepted,
      untouchedRefired⟩
    · intro window marked
      exact closed window ((collection.fired window).mp marked).1
    · apply Std.ExtTreeSet.eq_empty_iff_forall_not_mem.mpr
      intro window marked
      have before := ((collection.refired window).mp marked).1
      simp [IsRefired, clearRefired] at before
  · rw [if_neg some]
    exact ⟨punctual.assigns, moved, closed, quiet, untouchedDropped, untouchedAccepted,
      untouchedRefired⟩

theorem control (punctual : Punctual assigner items processor) (control : ControlRecord) :
    Punctual assigner (items ++ [.control control]) (processor.processControl control).2 := by
  obtain ⟨type, watermark, offset⟩ := control
  unfold processControl
  cases type with
  | watermark =>
    dsimp only
    split
    · rename_i advances
      exact punctual.advanceTo advances offset
    · rename_i behind
      have still : processor.watermark =
          highestWatermark (items ++ [watermarkItem watermark offset]) := by
        rw [highestWatermark_watermark, ← punctual.watermark]
        exact (max_eq_left (not_lt.mp behind)).symm
      exact ⟨punctual.assigns, still, punctual.closed, punctual.unmarked, punctual.untouched⟩
  | checkpointBarrier =>
    have still := punctual.watermark.trans (highestWatermark_barrier items watermark offset).symm
    dsimp only
    split
    · exact ⟨punctual.assigns, still, punctual.closed, punctual.unmarked,
        ⟨punctual.untouched.dropped, punctual.untouched.accepted, punctual.untouched.refired⟩⟩
    · exact ⟨punctual.assigns, still, punctual.closed, punctual.unmarked, punctual.untouched⟩

/-- Whatever a batch on time leads to, no counter has moved. -/
theorem batch {batch : Batch} (punctual : Punctual assigner items processor)
    (covers : Covers assigner) (onTime : OnTime (items ++ batch)) :
    match processor.processItems batch with
    | .ok (_, after) => Punctual assigner (items ++ batch) after
    | .error (_, _, after) => Untouched after.stats := by
  induction batch generalizing items processor with
  | nil => rwa [List.append_nil]
  | cons item rest inductionHypothesis =>
    rw [← List.singleton_append, ← List.append_assoc] at onTime
    have grouped : items ++ item :: rest = items ++ [item] ++ rest := by simp
    rw [grouped]
    unfold processItems
    cases item with
    | record record =>
      have time := onTime items record (List.prefix_append _ _)
      have after := punctual.record covers time
      unfold processItem
      dsimp only
      cases one : processor.processRecord record with
      | error thrown =>
        rw [one] at after
        exact after
      | ok middle =>
        rw [one] at after
        have later := inductionHypothesis after onTime
        dsimp only [Except.map]
        cases rested : middle.processItems rest with
        | error thrown =>
          rw [rested] at later
          exact later
        | ok outcome =>
          rw [rested] at later
          exact later
    | control control =>
      have later := inductionHypothesis (punctual.control control) onTime
      unfold processItem
      dsimp only
      cases rested : (processor.processControl control).2.processItems rest with
      | error thrown =>
        rw [rested] at later
        exact later
      | ok outcome =>
        rw [rested] at later
        exact later

/-- The final flush re-fires nothing. -/
theorem finalFlush (punctual : Punctual assigner items processor) :
    Untouched processor.finalFlush.2.stats := by
  obtain ⟨dropped, accepted, refired⟩ := punctual.untouched
  unfold KeyedProcessor.finalFlush
  dsimp only
  split
  · refine ⟨dropped, accepted, ?_⟩
    rw [punctual.unmarked]
    exact refired
  · exact ⟨dropped, accepted, refired⟩

end Punctual

end KeyedProcessor

/-- A stream on time in the domain, without an overflow, is processed, and the output is
exact. -/
theorem processItems_exactly {assigner : WindowAssigner} {lateness : Nat} (checkpointing : Bool)
    {items : Batch} (covers : Covers assigner) (onTime : OnTime items)
    (domain : Assignable assigner items) (room : Representable assigner lateness items) :
    ∃ effects processor,
      (KeyedProcessor.create assigner lateness checkpointing).processItems items =
        .ok (effects, processor) ∧
      TracksExactly assigner lateness items (emissions effects) processor := by
  induction items using List.reverseRecOn with
  | nil => exact ⟨[], _, rfl, TracksExactly.create assigner lateness checkpointing⟩
  | append_singleton items item inductionHypothesis =>
    obtain ⟨effects, middle, processed, tracks⟩ :=
      inductionHypothesis onTime.dropLast domain.dropLast room.dropLast
    obtain ⟨more, after, last, exactly⟩ := tracks.item covers item onTime domain room
    have one : middle.processItems [item] = .ok (more, after) := by
      simp [KeyedProcessor.processItems, last]
    refine ⟨effects ++ more, after, processItems_append processed one, ?_⟩
    rwa [emissions_append]

/-! ## A processed stream is in the domain and overflows nothing -/

section Processed

variable {assigner : WindowAssigner} {lateness : Nat}

/-- An addition succeeds only if the sum and the count stay representable. -/
theorem Pane.holds_of_add {values : List Int} {value : Int} {pane : Pane} (holds : Holds values)
    (added : (holding values).add value = .ok pane) : Holds (values ++ [value]) := by
  rw [add] at added
  split at added
  · cases added
  · rename_i fits
    obtain ⟨lower, upper, few⟩ := holds values List.prefix_rfl
    simp only [holding] at fits
    intro front starts
    rcases List.prefix_concat_iff.mp starts with rfl | earlier
    · rw [List.sum_append, List.sum_singleton, List.length_append, List.length_singleton]
      omega
    · exact holds front earlier

theorem add_of_addWithLateness {state : KeyedWindowState} {key : Bytes} {window : Window}
    {value : Int} {watermark : Timestamp} {stored : Bool × KeyedWindowState}
    (early : watermark < window.deadline state.allowedLateness)
    (added : state.addWithLateness key window value watermark = .ok stored) :
    ∃ pane, (state.paneOrNew key window).add value = .ok pane := by
  rw [addWithLateness, if_neg (not_le.mpr early), addPane] at added
  cases one : (state.paneOrNew key window).add value with
  | error failure => simp [one] at added
  | ok pane => exact ⟨pane, rfl⟩

/-- A loop over the windows of a record that ends has overflown no pane. -/
theorem Represents.addToWindows_holds {now : Timestamp} {accounts : Accounts}
    {state : KeyedWindowState} {record : Record} {useLateness anyDropped anyLate : Bool}
    {windows : List Window} {after : KeyedWindowState × Bool × Bool}
    (represents : Represents lateness now accounts state)
    (holds : ∀ key window, Pane.Holds (accounts key window).accepted)
    (looped : KeyedProcessor.addToWindows record now useLateness windows state anyDropped anyLate =
      .ok after) (key : Bytes) (window : Window) :
    Pane.Holds
      (deposits lateness accounts record.key record.value windows key window).accepted := by
  induction windows generalizing accounts state anyDropped anyLate with
  | nil =>
    rw [deposits_nil]
    exact holds key window
  | cons first rest inductionHypothesis =>
    rw [KeyedProcessor.addToWindows] at looped
    rw [← deposits_cons]
    by_cases late : first.deadline lateness ≤ now
    · rw [KeyedWindowState.addWithLateness_late (represents.allowed.symm ▸ late)] at looped
      rw [represents.deposit_late record.key late]
      exact inductionHypothesis represents holds looped
    · have early : now < first.deadline lateness := not_le.mp late
      have accepting : now < first.deadline state.allowedLateness := represents.allowed.symm ▸ early
      have same := represents.paneOrNew_eq record.key early
      have room : Pane.Holds ((accounts record.key first).accepted ++ [record.value]) := by
        cases one : state.addWithLateness record.key first record.value now with
        | error thrown => simp [one] at looped
        | ok stored =>
          obtain ⟨pane, fits⟩ := add_of_addWithLateness accepting one
          rw [same] at fits
          exact Pane.holds_of_add (holds record.key first) fits
      obtain ⟨middle, accepted, added⟩ := KeyedWindowState.addWithLateness_accepted accepting
        ((congrArg (Pane.add · record.value) same).trans (Pane.add_holding room))
      rw [accepted] at looped
      refine inductionHypothesis (represents.add early added) ?_ looped
      intro other place
      by_cases here : other = record.key ∧ place = first
      · obtain ⟨rfl, rfl⟩ := here
        rw [deposit_accepted (by rwa [represents.frontier])]
        exact room
      · rw [deposit, if_neg here]
        exact holds other place

theorem representable_nil : Representable assigner lateness [] := by
  intro key window front starts
  have nothing : (account assigner lateness [] key window).accepted = [] := rfl
  rw [nothing, List.prefix_nil] at starts
  rw [starts]
  decide

/-- An item that is processed is in the domain, and no pane overflows. -/
theorem Stands.item_fits {items : Batch} {processor : KeyedProcessor}
    (stands : Stands assigner lateness items processor) {item : BatchItem}
    {result : List Effect × KeyedProcessor} (processed : processor.processItem item = .ok result)
    (domain : Assignable assigner items) (room : Representable assigner lateness items) :
    Assignable assigner (items ++ [item]) ∧ Representable assigner lateness (items ++ [item]) := by
  match item with
  | .record record =>
    rw [KeyedProcessor.processItem, KeyedProcessor.processRecord, stands.assigns] at processed
    cases assigned : assigner record.eventTime with
    | error failure => simp [assigned, Except.map] at processed
    | ok windows =>
      cases looped : KeyedProcessor.addToWindows record processor.watermark
          (decide (0 < processor.allowedLateness)) windows processor.state false false with
      | error thrown => simp [assigned, looped, Except.map] at processed
      | ok after =>
        constructor
        · intro other member
          rw [records_append] at member
          rcases List.mem_append.mp member with before | last
          · exact domain other before
          · obtain rfl : other = record := List.mem_singleton.mp last
            exact ⟨windows, assigned⟩
        · intro key window
          rw [account_record assigner lateness items assigned]
          exact stands.represents.addToWindows_holds room looped key window
  | .control { type := .watermark, watermark, checkpointOffset } =>
    constructor
    · intro other member
      rw [records_append] at member
      exact domain other (by simpa [records, BatchItem.record?] using member)
    · intro key window
      have same := account_watermark assigner lateness items watermark checkpointOffset
      rw [watermarkItem] at same
      rw [same, Represents.advanced_accepted]
      exact room key window
  | .control { type := .checkpointBarrier, watermark, checkpointOffset } =>
    constructor
    · intro other member
      rw [records_append] at member
      exact domain other (by simpa [records, BatchItem.record?] using member)
    · intro key window
      rw [account_barrier]
      exact room key window

/-- A stream that is processed is in the domain, and no pane overflows. -/
theorem fits_of_processItems {checkpointing : Bool} {items : Batch}
    {result : List Effect × KeyedProcessor}
    (processed : (KeyedProcessor.create assigner lateness checkpointing).processItems items =
      .ok result) :
    Assignable assigner items ∧ Representable assigner lateness items := by
  induction items using List.reverseRecOn generalizing result with
  | nil => exact ⟨fun record member => absurd member List.not_mem_nil, representable_nil⟩
  | append_singleton items item inductionHypothesis =>
    obtain ⟨earlier, middle, later, front, back, -⟩ := processItems_split processed
    obtain ⟨domain, room⟩ := inductionHypothesis front
    obtain ⟨effects, processor, whole, tracks⟩ := processItems_tracks checkpointing domain room
    obtain ⟨rfl, rfl⟩ := Prod.mk.inj (Except.ok.inj (front.symm.trans whole))
    rw [KeyedProcessor.processItems] at back
    cases last : middle.processItem item with
    | error thrown => simp [last] at back
    | ok step => exact tracks.toStands.item_fits last domain room

end Processed

/-! ## Runs of the engine -/

/-- The windows of both kinds of assigner end after the time they are for. -/
theorem AssignerType.covers (kind : AssignerType) : Covers kind.makeAssigner := by
  cases kind with
  | tumbling assigner => exact assigner.covers
  | sliding assigner => exact assigner.covers

namespace Pipeline

variable {σ : Type} [Source σ] {assigner : WindowAssigner}

/-- The loop from a processor after a stream on time. -/
theorem runLoop_untouched {past : Batch} (covers : Covers assigner) (fuel : Nat)
    {pipeline : Pipeline σ} (punctual : pipeline.processor.Punctual assigner past)
    (onTime : OnTime (past ++ Source.itemsWithin fuel pipeline.source)) :
    KeyedProcessor.Untouched (outcome (runLoop fuel pipeline)).2.2.stats := by
  induction fuel generalizing past pipeline with
  | zero => exact punctual.untouched
  | succ fuel inductionHypothesis =>
    rw [runLoop]
    rw [Source.itemsWithin] at onTime
    cases observed : Source.next pipeline.source with
    | none => exact punctual.finalFlush
    | some handed =>
      obtain ⟨batch, rest⟩ := handed
      rw [observed] at onTime
      dsimp only at onTime ⊢
      by_cases empty : batch = []
      · rw [if_pos empty]
        rw [empty, List.nil_append] at onTime
        exact inductionHypothesis punctual onTime
      · rw [if_neg empty]
        rw [← List.append_assoc] at onTime
        have after := punctual.batch covers (onTime.of_isPrefix (List.prefix_append _ _))
        cases applied : pipeline.processor.processItems batch with
        | error thrown =>
          rw [applied] at after
          exact after
        | ok result =>
          rw [applied] at after
          exact inductionHypothesis after onTime

/-- A run over a source on time, however it ends, has dropped nothing, accepted nothing late
and re-fired nothing. -/
theorem run_untouched (covers : Covers assigner) {source : σ}
    (onTime : ∀ calls, OnTime (Source.itemsWithin calls source)) (fuel lateness : Nat)
    (checkpointing : Bool) :
    KeyedProcessor.Untouched
      (outcome (run fuel source assigner lateness checkpointing)).2.2.stats :=
  runLoop_untouched covers fuel (KeyedProcessor.Punctual.create assigner lateness checkpointing)
    (onTime fuel)

/-- A run that returns has met only event times in the domain, and no pane overflowed. -/
theorem fits_of_run {source : σ} {batches : List Batch} (delivers : Source.Delivers source batches)
    {lateness fuel : Nat} {checkpointing : Bool} (enough : batches.length < fuel)
    {pipeline : Pipeline σ}
    (returned : run fuel source assigner lateness checkpointing = .ok pipeline) :
    Assignable assigner batches.flatten ∧ Representable assigner lateness batches.flatten := by
  have left : outcome (run fuel source assigner lateness checkpointing) =
      processed (.create assigner lateness checkpointing) batches.flatten [] :=
    runLoop_outcome delivers _ enough []
  rw [returned, processed] at left
  cases consumed : (KeyedProcessor.create assigner lateness checkpointing).processItems
      batches.flatten with
  | error thrown => simp [outcome, consumed] at left
  | ok result => exact fits_of_processItems consumed

/-- A run over a stream on time in the domain, without an overflow, ends and reports each
key and window once with all its records. -/
theorem run_exactly (covers : Covers assigner) {source : σ} {batches : List Batch}
    (delivers : Source.Delivers source batches) (onTime : OnTime batches.flatten) {lateness : Nat}
    (domain : Assignable assigner batches.flatten)
    (room : Representable assigner lateness batches.flatten) {fuel : Nat}
    (enough : batches.length < fuel) (checkpointing : Bool) :
    ∃ pipeline, run fuel source assigner lateness checkpointing = .ok pipeline ∧
      ∀ key window, resultsFor key window pipeline.results =
        expectedResults (contributions assigner key window batches.flatten) := by
  obtain ⟨effects, processor, processed, tracks⟩ :=
    processItems_exactly checkpointing covers onTime domain room
  obtain ⟨pipeline, finished, -, done⟩ := runLoop_eq delivers processed enough []
  refine ⟨pipeline, finished, ?_⟩
  intro key window
  rw [results, done, List.nil_append]
  exact tracks.flush covers onTime key window

end Pipeline

end Stormglass
