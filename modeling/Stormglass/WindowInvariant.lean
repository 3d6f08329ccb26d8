import Stormglass.CheckpointRoundTrip

/-!
# What the window state always satisfies

The state keeps three containers that must agree: the stored windows with their panes,
the windows that have fired, and the fired windows that await a re-fire. Collection
looks at fired windows only, so a window that is past its deadline but not marked as
fired would stay forever, and a mark without panes would survive its window.

`Settled` says that neither happens at a given watermark. Between the two halves of an
advance it fails: the windows that were just fired may already be past their deadline.
`Due` is what holds there, and collection turns it back into `Settled`.
-/

namespace Stormglass

open CheckpointReader

namespace KeyedWindowState

/-- The marks, the counts and the deadlines of a state at a watermark. -/
structure Settled (lateness : Nat) (watermark : Timestamp) (state : KeyedWindowState) : Prop where
  backed : ∀ window, state.IsFired window → window ∈ state.windows
  counted : ∀ key window pane, state.pane key window = some pane → 1 ≤ pane.count
  live : ∀ window ∈ state.windows, watermark < window.deadline lateness
  closed : ∀ window, state.IsFired window → window.close ≤ watermark
  strict : lateness = 0 → ∀ window, ¬ state.IsFired window

/-- The state between firing and collection: every window that is left unfired ends
after the watermark. -/
structure Due (lateness : Nat) (watermark : Timestamp) (state : KeyedWindowState) : Prop where
  backed : ∀ window, state.IsFired window → window ∈ state.windows
  counted : ∀ key window pane, state.pane key window = some pane → 1 ≤ pane.count
  unfired : ∀ window ∈ state.windows, ¬ state.IsFired window → watermark < window.close
  closed : ∀ window, state.IsFired window → window.close ≤ watermark
  strict : lateness = 0 → ∀ window, ¬ state.IsFired window

/-- With lateness, firing keeps every mark on a stored window. -/
theorem Firing.backed {windows : List Window} {before after : KeyedWindowState}
    (fires : Firing windows before after) (some : before.allowedLateness ≠ 0)
    (backed : ∀ window, before.IsFired window → window ∈ before.windows) (window : Window)
    (fired : after.IsFired window) : window ∈ after.windows := by
  rw [fires.stored]
  refine ⟨?_, fun none => some none.1⟩
  rcases (fires.fired window).mp fired with marked | ⟨-, -, stored⟩
  · exact backed window marked
  · exact stored

/-- Collecting every stored window leaves nothing, if no re-fire is pending. -/
theorem Collected.all {before after : KeyedWindowState}
    (collection : Collected before.allWindows before after)
    (backed : ∀ window, before.IsFired window → window ∈ before.windows)
    (cleared : ∀ window, ¬ before.IsRefired window) :
    (∀ window, window ∉ after.windows) ∧ (∀ window, ¬ after.IsFired window) ∧
      ∀ window, ¬ after.IsRefired window := by
  refine ⟨?_, ?_, ?_⟩
  · intro window stored
    obtain ⟨old, kept⟩ := (collection.stored window).mp stored
    exact kept ((before.mem_allWindows window).mpr old)
  · intro window fired
    obtain ⟨old, kept⟩ := (collection.fired window).mp fired
    exact kept ((before.mem_allWindows window).mpr (backed window old))
  · intro window refired
    exact cleared window ((collection.refired window).mp refired).1

namespace Settled

variable {lateness : Nat} {watermark : Timestamp} {state after : KeyedWindowState}

theorem empty (lateness : Nat) (watermark : Timestamp) :
    Settled lateness watermark { allowedLateness := lateness } := by
  refine ⟨?_, ?_, ?_, ?_, ?_⟩
  · intro window fired
    simp [IsFired] at fired
  · intro key window pane found
    simp [KeyedWindowState.pane] at found
  · intro window stored
    simp at stored
  · intro window fired
    simp [IsFired] at fired
  · intro _ window fired
    simp [IsFired] at fired

section

variable (settled : Settled lateness watermark state)

include settled

/-- Storing a pane that counts a value, in a window before its deadline. -/
theorem setPane {pane : Pane} (positive : 1 ≤ pane.count) (key : Bytes) {window : Window}
    (early : watermark < window.deadline lateness) :
    Settled lateness watermark (state.setPane key window pane) := by
  refine ⟨?_, ?_, ?_, settled.closed, settled.strict⟩
  · intro place fired
    exact (state.mem_setPane key window place pane).mpr (.inr (settled.backed place fired))
  · intro other place found stored
    rw [pane_setPane] at stored
    split at stored
    · cases stored
      exact positive
    · exact settled.counted other place found stored
  · intro place stored
    rcases (state.mem_setPane key window place pane).mp stored with rfl | before
    · exact early
    · exact settled.live place before

/-- An addition creates no empty pane: only a pane that already counts values can
refuse one. -/
theorem addPane (key : Bytes) {window : Window} (early : watermark < window.deadline lateness)
    {value : Int} (fits : FitsSigned value) :
    match state.addPane key window value with
    | .ok after => Settled lateness watermark after
    | .error (_, after) => Settled lateness watermark after := by
  unfold KeyedWindowState.addPane
  cases added : (state.paneOrNew key window).add value with
  | ok pane =>
    apply settled.setPane _ key early
    rw [Pane.count_of_add added]
    exact Nat.le_add_left 1 _
  | error failure =>
    apply settled.setPane _ key early
    unfold KeyedWindowState.paneOrNew at added ⊢
    cases found : state.pane key window with
    | none =>
      rw [found, Option.getD_none, Pane.add_new fits.1 fits.2] at added
      cases added
    | some pane => exact settled.counted key window pane found

theorem addWithLateness (allowed : state.allowedLateness = lateness) (key : Bytes) (window : Window)
    {value : Int} (fits : FitsSigned value) :
    match state.addWithLateness key window value watermark with
    | .ok (_, after) => Settled lateness watermark after
    | .error (_, after) => Settled lateness watermark after := by
  unfold KeyedWindowState.addWithLateness
  rw [allowed]
  by_cases late : window.deadline lateness ≤ watermark
  · rw [if_pos late]
    exact settled
  · have added := settled.addPane key (not_le.mp late) fits
    rw [if_neg late]
    cases result : state.addPane key window value with
    | error thrown =>
      rw [result] at added
      exact added
    | ok stored =>
      rw [result] at added
      dsimp only at added ⊢
      by_cases fired : stored.IsFired window
      · rw [if_pos fired]
        exact ⟨added.backed, added.counted, added.live, added.closed, added.strict⟩
      · rw [if_neg fired]
        exact added

/-- Firing the windows that the new watermark closes. -/
theorem fireExpired (allowed : state.allowedLateness = lateness) {later : Timestamp}
    (advances : watermark ≤ later) (fires : Firing (state.expiredWindows later) state after) :
    Due lateness later after := by
  have expired := state.mem_expiredWindows later
  refine ⟨?_, ?_, ?_, ?_, ?_⟩
  · intro window fired
    rw [fires.stored, allowed]
    rcases (fires.fired window).mp fired with before | ⟨some, -, stored⟩
    · exact ⟨settled.backed window before, fun none => settled.strict none.1 window before⟩
    · exact ⟨stored, fun none => some (allowed.trans none.1)⟩
  · intro key window pane found
    rw [fires.pane] at found
    split at found
    · cases found
    · exact settled.counted key window pane found
  · intro window kept unmarked
    obtain ⟨stored, survives⟩ := (fires.stored window).mp kept
    by_contra ended
    have unfired : ¬ state.IsFired window :=
      fun before => unmarked ((fires.fired window).mpr (.inl before))
    have listed := (expired window).mpr ⟨stored, not_lt.mp ended, unfired⟩
    by_cases none : state.allowedLateness = 0
    · exact survives ⟨none, listed⟩
    · exact unmarked ((fires.fired window).mpr (.inr ⟨none, listed, stored⟩))
  · intro window fired
    rcases (fires.fired window).mp fired with before | ⟨-, listed, -⟩
    · exact (settled.closed window before).trans advances
    · exact ((expired window).mp listed).2.1
  · intro none window fired
    rcases (fires.fired window).mp fired with before | ⟨some, -, -⟩
    · exact settled.strict none window before
    · exact some (allowed.trans none)

end

end Settled

namespace Due

variable {lateness : Nat} {watermark : Timestamp} {state after : KeyedWindowState}

/-- Without lateness nothing is kept past its end. -/
theorem settled_of_strict (due : Due 0 watermark state) : Settled 0 watermark state := by
  refine ⟨due.backed, due.counted, ?_, due.closed, due.strict⟩
  intro window stored
  rw [Window.deadline_zero]
  exact due.unfired window stored (due.strict rfl window)

/-- Firing fired windows again changes nothing that matters here. -/
theorem fireAgain (due : Due lateness watermark state) (some : state.allowedLateness ≠ 0)
    {windows : List Window} (fired : ∀ window ∈ windows, state.IsFired window)
    (fires : Firing windows state after) : Due lateness watermark after := by
  have marks : ∀ window, after.IsFired window ↔ state.IsFired window := by
    intro window
    rw [fires.fired]
    exact ⟨fun marked => marked.elim id (fun listed => fired window listed.2.1), .inl⟩
  have stored : ∀ window, window ∈ after.windows ↔ window ∈ state.windows := by
    intro window
    rw [fires.stored]
    exact ⟨And.left, fun before => ⟨before, fun none => some none.1⟩⟩
  refine ⟨fires.backed some due.backed, ?_, ?_, ?_, ?_⟩
  · intro key window pane found
    rw [fires.pane, if_neg (fun none => some none.1)] at found
    exact due.counted key window pane found
  · intro window kept unmarked
    exact due.unfired window ((stored window).mp kept)
      (fun before => unmarked ((marks window).mpr before))
  · intro window marked
    exact due.closed window ((marks window).mp marked)
  · intro none window marked
    exact due.strict none window ((marks window).mp marked)

theorem clearRefired (due : Due lateness watermark state) :
    Due lateness watermark state.clearRefired :=
  ⟨due.backed, due.counted, due.unfired, due.closed, due.strict⟩

/-- Collection removes exactly the windows past their deadline. -/
theorem collect (due : Due lateness watermark state) (allowed : state.allowedLateness = lateness)
    (collection : Collected (state.garbageCollectableWindows watermark) state after) :
    Settled lateness watermark after := by
  refine ⟨?_, ?_, ?_, ?_, ?_⟩
  · intro window marked
    obtain ⟨before, kept⟩ := (collection.fired window).mp marked
    exact (collection.stored window).mpr ⟨due.backed window before, kept⟩
  · intro key window pane found
    rw [collection.pane] at found
    split at found
    · cases found
    · exact due.counted key window pane found
  · intro window stored
    obtain ⟨before, kept⟩ := (collection.stored window).mp stored
    by_cases fired : state.IsFired window
    · by_contra late
      apply kept
      rw [mem_garbageCollectableWindows, allowed]
      exact ⟨fired, not_lt.mp late⟩
    · exact (due.unfired window before fired).trans_le (window.close_le_deadline lateness)
  · intro window marked
    exact due.closed window ((collection.fired window).mp marked).1
  · intro none window marked
    exact due.strict none window ((collection.fired window).mp marked).1

end Due

end KeyedWindowState

namespace KeyedProcessor

/-- The states of a processor that starts fresh or restores the captured state of
another such processor, and then handles any records, watermarks and barriers. The value
of a record is in the range of its type. A record that is refused leaves a state behind
as well. -/
inductive Visits (assigner : WindowAssigner) (lateness : Nat) : KeyedProcessor → Prop where
  | create (checkpointing : Bool) :
      Visits assigner lateness (create assigner lateness checkpointing)
  | restored {captured : KeyedProcessor} (before : Visits assigner lateness captured)
      (offset : Nat) (walk : captured.state.Walk) (checkpointing : Bool) :
      Visits assigner lateness
        ((create assigner lateness checkpointing).restore (captured.capture offset walk))
  | record {processor after : KeyedProcessor} (before : Visits assigner lateness processor)
      (record : Record) (value : FitsSigned record.value)
      (processed : processor.processRecord record = .ok after) :
      Visits assigner lateness after
  | refused {processor after : KeyedProcessor} (before : Visits assigner lateness processor)
      (record : Record) (value : FitsSigned record.value) (failure : Failure)
      (thrown : processor.processRecord record = .error (failure, after)) :
      Visits assigner lateness after
  | control {processor : KeyedProcessor} (before : Visits assigner lateness processor)
      (control : ControlRecord) :
      Visits assigner lateness (processor.processControl control).2

/-- The whole invariant of a processor, at its own watermark. -/
structure Invariant (assigner : WindowAssigner) (lateness : Nat) (processor : KeyedProcessor) :
    Prop where
  carried : Carried assigner lateness processor
  settled : processor.state.Settled lateness processor.watermark

namespace Invariant

variable {assigner : WindowAssigner} {lateness : Nat} {processor : KeyedProcessor}

theorem create (assigner : WindowAssigner) (lateness : Nat) (checkpointing : Bool) :
    Invariant assigner lateness (create assigner lateness checkpointing) :=
  ⟨Carried.create assigner lateness checkpointing, .empty lateness _⟩

/-- The invariant does not read the counters. -/
theorem twins {left right : KeyedProcessor} (invariant : Invariant assigner lateness right)
    (twins : Twins left right) : Invariant assigner lateness left := by
  obtain ⟨⟨assigns, allowed, shared, consistent⟩, settled⟩ := invariant
  refine ⟨⟨twins.assigner.trans assigns, twins.allowedLateness.trans allowed, ?_, ?_⟩, ?_⟩
  · rw [twins.state, shared]
  · rwa [twins.state]
  · rwa [twins.state, twins.watermark]

theorem addToWindows {state : KeyedWindowState} {watermark : Timestamp}
    (settled : state.Settled lateness watermark) (consistent : state.Consistent)
    (allowed : state.allowedLateness = lateness) {record : Record}
    (value : FitsSigned record.value) (useLateness : Bool) (windows : List Window)
    (anyDropped anyLate : Bool) :
    match KeyedProcessor.addToWindows record watermark useLateness windows state anyDropped
        anyLate with
    | .ok (after, _, _) => after.Settled lateness watermark
    | .error (_, after) => after.Settled lateness watermark := by
  induction windows generalizing state anyDropped anyLate with
  | nil => exact settled
  | cons window rest inductionHypothesis =>
    have added := settled.addWithLateness allowed record.key window value
    have kept := consistent.addWithLateness record.key window record.value watermark
    unfold KeyedProcessor.addToWindows
    cases result : state.addWithLateness record.key window record.value watermark with
    | error thrown =>
      rw [result] at added
      exact added
    | ok outcome =>
      obtain ⟨accepted, next⟩ := outcome
      rw [result] at added kept
      exact inductionHypothesis added kept.1 (kept.2.trans allowed) _ _

section

variable (invariant : Invariant assigner lateness processor)

include invariant

theorem record {record : Record} (value : FitsSigned record.value) :
    match processor.processRecord record with
    | .ok after => Invariant assigner lateness after
    | .error (_, after) => Invariant assigner lateness after := by
  have carried := invariant.carried.record record
  unfold processRecord at carried ⊢
  cases assigned : processor.assigner record.eventTime with
  | error failure => exact invariant
  | ok windows =>
    have added := addToWindows invariant.settled invariant.carried.consistent
      invariant.carried.shared value (decide (0 < processor.allowedLateness)) windows false false
    rw [assigned] at carried
    dsimp only at carried ⊢
    cases result : KeyedProcessor.addToWindows record processor.watermark
        (decide (0 < processor.allowedLateness)) windows processor.state false false with
    | error thrown =>
      rw [result] at added carried
      exact ⟨carried, added⟩
    | ok outcome =>
      rw [result] at added carried
      exact ⟨carried, added⟩

/-- An advance fires, fires again, clears and collects. -/
theorem advanceTo {watermark : Timestamp} (advances : processor.watermark < watermark) :
    Invariant assigner lateness (processor.advanceTo watermark).2 := by
  refine ⟨invariant.carried.advanceTo watermark, ?_⟩
  obtain ⟨⟨-, allowed, shared, consistent⟩, settled⟩ := invariant
  obtain ⟨first, -⟩ := KeyedWindowState.fireAll_spec _ processor.state
    (processor.state.expiredWindows_nodup watermark)
  have due := settled.fireExpired shared (le_of_lt advances) first
  have firstAllowed := first.lateness.trans shared
  unfold KeyedProcessor.advanceTo
  by_cases some : 0 < processor.allowedLateness
  · rw [if_pos some]
    obtain ⟨second, -⟩ := KeyedWindowState.fireAll_spec _ _ (KeyedWindowState.refiredWindows_nodup
      (KeyedWindowState.fireAll (processor.state.expiredWindows watermark) processor.state).2)
    have pending := (consistent.firing first).pending
    have again := due.fireAgain (by omega)
      (fun window refired => pending window ((KeyedWindowState.mem_refiredWindows _ _).mp refired))
      second
    exact again.clearRefired.collect (second.lateness.trans firstAllowed)
      (KeyedWindowState.garbageCollect_spec _ _)
  · rw [if_neg some]
    have none : lateness = 0 := by omega
    subst none
    exact due.settled_of_strict

theorem control (control : ControlRecord) :
    Invariant assigner lateness (processor.processControl control).2 := by
  cases kind : control.type with
  | watermark =>
    unfold processControl
    rw [kind]
    dsimp only
    split
    · rename_i advances
      exact invariant.advanceTo advances
    · exact invariant
  | checkpointBarrier => exact invariant.twins (Twins.barrier processor kind).2

/-- The final flush leaves nothing behind. -/
theorem finalFlush :
    (∀ window, window ∉ processor.finalFlush.2.state.windows) ∧
      (∀ window, ¬ processor.finalFlush.2.state.IsFired window) ∧
      ∀ window, ¬ processor.finalFlush.2.state.IsRefired window := by
  obtain ⟨⟨-, allowed, shared, consistent⟩, settled⟩ := invariant
  unfold KeyedProcessor.finalFlush
  by_cases some : 0 < processor.allowedLateness
  · have late : processor.state.allowedLateness ≠ 0 := by omega
    rw [if_pos some]
    dsimp only
    rw [KeyedWindowState.fireUnfired_eq _ _ (KeyedWindowState.allWindows_nodup _)]
    obtain ⟨again, -⟩ := KeyedWindowState.fireAll_spec _ processor.state
      processor.state.refiredWindows_nodup
    generalize (KeyedWindowState.fireAll processor.state.refiredWindows.toList
      processor.state).2 = twice at again ⊢
    obtain ⟨rest, -⟩ := KeyedWindowState.fireAll_spec
      (twice.clearRefired.allWindows.filter (fun window => ¬ twice.clearRefired.IsFired window))
      twice.clearRefired ((KeyedWindowState.allWindows_nodup _).filter _)
    apply (KeyedWindowState.garbageCollect_spec _ _).all
    · apply rest.backed
      · exact again.lateness.trans_ne late
      · exact again.backed late settled.backed
    · intro window refired
      rw [KeyedWindowState.IsRefired, rest.refired] at refired
      simp [KeyedWindowState.clearRefired] at refired
  · have none : processor.state.allowedLateness = 0 := by omega
    have unmarked := settled.strict (by omega)
    rw [if_neg some]
    dsimp only
    obtain ⟨fires, -⟩ := KeyedWindowState.fireAll_spec _ processor.state
      processor.state.allWindows_nodup
    have unfired : ∀ window, ¬ (KeyedWindowState.fireAll processor.state.allWindows
        processor.state).2.IsFired window := by
      intro window fired
      rcases (fires.fired window).mp fired with before | ⟨late, -⟩
      · exact unmarked window before
      · exact late none
    refine ⟨?_, unfired, ?_⟩
    · intro window stored
      obtain ⟨before, kept⟩ := (fires.stored window).mp stored
      exact kept ⟨none, (processor.state.mem_allWindows window).mpr before⟩
    · intro window refired
      exact unfired window ((consistent.firing fires).pending window refired)

end

end Invariant

/-- A run keeps the invariant. -/
theorem Visits.invariant {assigner : WindowAssigner} {lateness : Nat} {processor : KeyedProcessor}
    (visits : Visits assigner lateness processor) : Invariant assigner lateness processor := by
  induction visits with
  | create checkpointing => exact Invariant.create assigner lateness checkpointing
  | restored _ offset walk checkpointing inductionHypothesis =>
    exact inductionHypothesis.twins
      (restore_contents inductionHypothesis.carried offset checkpointing walk)
  | record _ record value processed inductionHypothesis =>
    have after := inductionHypothesis.record value
    rwa [processed] at after
  | refused _ record value failure thrown inductionHypothesis =>
    have after := inductionHypothesis.record value
    rwa [thrown] at after
  | control _ control inductionHypothesis => exact inductionHypothesis.control control

/-- **The window state stays well formed.** In every state of a run, pending re-fires are
among the fired windows and these among the stored ones; every stored window has a pane
and every pane counts a value; no stored window is past its saturated deadline, and every
fired window has ended; without lateness there are no marks. After the final flush nothing
is left. -/
theorem window_state_well_formed {assigner : WindowAssigner} {lateness : Nat}
    {processor : KeyedProcessor} (visits : Visits assigner lateness processor) :
    (∀ window, processor.state.IsRefired window → processor.state.IsFired window) ∧
      (∀ window, processor.state.IsFired window →
        ∃ key pane, processor.state.pane key window = some pane) ∧
      (∀ window ∈ processor.state.windows,
        ∃ key pane, processor.state.pane key window = some pane) ∧
      (∀ key window pane, processor.state.pane key window = some pane → 1 ≤ pane.count) ∧
      (∀ window ∈ processor.state.windows,
        processor.watermark.ms < min (window.close.ms + lateness) (2 ^ 63 - 1)) ∧
      (∀ window, processor.state.IsFired window → window.close ≤ processor.watermark) ∧
      (lateness = 0 →
        processor.state.firedWindows = ∅ ∧ processor.state.refiredWindows = ∅) ∧
      processor.finalFlush.2.state.windows = ∅ ∧
        processor.finalFlush.2.state.firedWindows = ∅ ∧
        processor.finalFlush.2.state.refiredWindows = ∅ := by
  have invariant := visits.invariant
  obtain ⟨noWindow, noFired, noRefired⟩ := invariant.finalFlush
  obtain ⟨⟨-, -, -, consistent⟩, settled⟩ := invariant
  refine ⟨consistent.pending, ?_, consistent.occupied, settled.counted, ?_, settled.closed, ?_,
    Std.ExtTreeMap.eq_empty_iff_forall_not_mem.mpr noWindow,
    Std.ExtTreeSet.eq_empty_iff_forall_not_mem.mpr noFired,
    Std.ExtTreeSet.eq_empty_iff_forall_not_mem.mpr noRefired⟩
  · intro window fired
    exact consistent.occupied window (settled.backed window fired)
  · intro window stored
    have early := settled.live window stored
    rwa [Timestamp.lt_iff, Window.deadline_ms] at early
  · intro none
    have unfired := settled.strict none
    exact ⟨Std.ExtTreeSet.eq_empty_iff_forall_not_mem.mpr unfired,
      Std.ExtTreeSet.eq_empty_iff_forall_not_mem.mpr
        (fun window refired => unfired window (consistent.pending window refired))⟩

/-- A late record marks its fired window. The restored copy has the mark, backed by a
pane, and flushing it leaves nothing. -/
theorem restored_mark_well_formed : ∃ processor, Visits tenMs.assignWindows 5 processor ∧
    processor.state.IsRefired (windowAt 0 10) ∧
    (∃ key pane, processor.state.pane key (windowAt 0 10) = some pane) ∧
    processor.finalFlush.2.state.windows = ∅ := by
  let sample : Record :=
    { key := [107], value := 5, eventTime := .ofMs 3, processingTime := .ofMs 3 }
  let closing : ControlRecord :=
    { type := .watermark, watermark := .ofMs 12, checkpointOffset := 1 }
  have checked : (match (create tenMs.assignWindows 5 true).processRecord sample with
      | .error _ => false
      | .ok one =>
        match (one.processControl closing).2.processRecord sample with
        | .error _ => false
        | .ok two =>
          decide (((create tenMs.assignWindows 5 true).restore (two.capture 2)).state.IsRefired
            (windowAt 0 10))) = true := by
    decide +kernel
  split at checked
  · cases checked
  · rename_i one first
    split at checked
    · cases checked
    · rename_i two second
      have fits : FitsSigned sample.value := ⟨by decide, by decide⟩
      have visits := ((((Visits.create true).record sample fits first).control closing).record
        sample fits second).restored 2 two.state.sorted true
      have refired := of_decide_eq_true checked
      have formed := window_state_well_formed visits
      exact ⟨_, visits, refired, formed.2.1 _ (formed.1 _ refired), formed.2.2.2.2.2.2.2.1⟩

end KeyedProcessor

end Stormglass
