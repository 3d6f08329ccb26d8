import Stormglass.CheckpointGrammar
import Stormglass.WindowEngine

/-!
# Writing a checkpoint and restoring it

The reader refuses a file whose pending windows have not fired, and the format stores
panes but no windows. A state survives the file because its pending windows have fired,
every window it stores has a pane, and its panes fit their fields. `Consistent` collects
these facts; they hold for every state that a processor reaches.

A restored processor has the panes, the marks and the watermark of the one that was
written. Only the counters differ, and no result depends on them.
-/

namespace Stormglass

open CheckpointReader

/-- The accumulator is in the range of its types. -/
def Pane.InRange (pane : Pane) : Prop := FitsSigned pane.sum ∧ pane.count < 2 ^ 64

theorem Pane.InRange.add {pane after : Pane} {value : Int} (range : pane.InRange)
    (added : pane.add value = .ok after) : after.InRange := by
  obtain ⟨⟨lower, upper⟩, count⟩ := range
  unfold Pane.add at added
  split at added
  · cases added
  · cases added
    refine ⟨⟨?_, ?_⟩, ?_⟩
    · change -2 ^ 63 ≤ pane.sum + value
      omega
    · change pane.sum + value ≤ 2 ^ 63 - 1
      omega
    · change pane.count + 1 < 2 ^ 64
      omega

namespace KeyedWindowState

/-- A state that the file format can carry. -/
structure Consistent (state : KeyedWindowState) : Prop where
  pending : ∀ window, state.IsRefired window → state.IsFired window
  occupied : ∀ window ∈ state.windows, ∃ key pane, state.pane key window = some pane
  fits : ∀ key window pane, state.pane key window = some pane → pane.InRange

namespace Consistent

variable {state after : KeyedWindowState}

theorem empty (lateness : Nat) : Consistent { allowedLateness := lateness } := by
  refine ⟨?_, ?_, ?_⟩
  · intro window refired
    simp [IsRefired] at refired
  · intro window stored
    simp at stored
  · intro key window pane found
    simp [KeyedWindowState.pane] at found

section

variable (consistent : Consistent state)

include consistent

theorem paneOrNew (key : Bytes) (window : Window) :
    (state.paneOrNew key window).InRange := by
  unfold KeyedWindowState.paneOrNew
  cases found : state.pane key window with
  | none => exact ⟨⟨by decide, by decide⟩, by decide⟩
  | some pane => exact consistent.fits key window pane found

/-- Storing a pane keeps the state consistent. -/
theorem setPane {pane : Pane} (range : pane.InRange) (key : Bytes) (window : Window) :
    Consistent (state.setPane key window pane) := by
  refine ⟨consistent.pending, ?_, ?_⟩
  · intro place stored
    by_cases here : place = window
    · exact ⟨key, pane, by rw [pane_setPane, if_pos ⟨rfl, here⟩]⟩
    · have before := ((state.mem_setPane key window place pane).mp stored).resolve_left here
      obtain ⟨other, old, found⟩ := consistent.occupied place before
      exact ⟨other, old, by rw [pane_setPane, if_neg (fun own => here own.2), found]⟩
  · intro other place found stored
    rw [pane_setPane] at stored
    split at stored
    · cases stored
      exact range
    · exact consistent.fits other place found stored

theorem addPane (key : Bytes) (window : Window) (value : Int) :
    match state.addPane key window value with
    | .ok after => Consistent after ∧ after.allowedLateness = state.allowedLateness
    | .error (_, after) => Consistent after ∧ after.allowedLateness = state.allowedLateness := by
  have range := consistent.paneOrNew key window
  unfold KeyedWindowState.addPane
  cases added : (state.paneOrNew key window).add value with
  | error failure => exact ⟨consistent.setPane range key window, rfl⟩
  | ok pane => exact ⟨consistent.setPane (range.add added) key window, rfl⟩

theorem addWithLateness (key : Bytes) (window : Window) (value : Int) (watermark : Timestamp) :
    match state.addWithLateness key window value watermark with
    | .ok (_, after) => Consistent after ∧ after.allowedLateness = state.allowedLateness
    | .error (_, after) => Consistent after ∧ after.allowedLateness = state.allowedLateness := by
  have added := consistent.addPane key window value
  unfold KeyedWindowState.addWithLateness
  by_cases late : window.deadline state.allowedLateness ≤ watermark
  · rw [if_pos late]
    exact ⟨consistent, rfl⟩
  · rw [if_neg late]
    cases result : state.addPane key window value with
    | error thrown =>
      rw [result] at added
      exact added
    | ok stored =>
      rw [result] at added
      dsimp only at added ⊢
      obtain ⟨added, lateness⟩ := added
      by_cases fired : stored.IsFired window
      · rw [if_pos fired]
        refine ⟨⟨?_, added.occupied, added.fits⟩, lateness⟩
        intro place refired
        change place ∈ stored.refiredWindows.insert window at refired
        rw [Std.ExtTreeSet.mem_insert, Std.LawfulEqOrd.compare_eq_iff_eq] at refired
        rcases refired with rfl | before
        · exact fired
        · exact added.pending place before
      · rw [if_neg fired]
        exact ⟨added, lateness⟩

/-- Firing windows keeps the state consistent. -/
theorem firing {windows : List Window} (fired : Firing windows state after) : Consistent after := by
  refine ⟨?_, ?_, ?_⟩
  · intro window refired
    have before : state.IsRefired window := by
      unfold IsRefired at refired ⊢
      rwa [fired.refired] at refired
    exact (fired.fired window).mpr (.inl (consistent.pending window before))
  · intro window stored
    obtain ⟨before, kept⟩ := (fired.stored window).mp stored
    obtain ⟨key, pane, found⟩ := consistent.occupied window before
    exact ⟨key, pane, by rw [fired.pane, if_neg kept, found]⟩
  · intro key window pane found
    rw [fired.pane] at found
    split at found
    · cases found
    · exact consistent.fits key window pane found

theorem collected {windows : List Window} (collection : Collected windows state after) :
    Consistent after := by
  refine ⟨?_, ?_, ?_⟩
  · intro window refired
    obtain ⟨before, kept⟩ := (collection.refired window).mp refired
    exact (collection.fired window).mpr ⟨consistent.pending window before, kept⟩
  · intro window stored
    obtain ⟨before, kept⟩ := (collection.stored window).mp stored
    obtain ⟨key, pane, found⟩ := consistent.occupied window before
    exact ⟨key, pane, by rw [collection.pane, if_neg kept, found]⟩
  · intro key window pane found
    rw [collection.pane] at found
    split at found
    · cases found
    · exact consistent.fits key window pane found

theorem fireAll (windows : List Window) (distinct : windows.Nodup) :
    Consistent (KeyedWindowState.fireAll windows state).2 ∧
      (KeyedWindowState.fireAll windows state).2.allowedLateness = state.allowedLateness := by
  obtain ⟨fired, _⟩ := fireAll_spec windows state distinct
  exact ⟨consistent.firing fired, fired.lateness⟩

theorem garbageCollect (windows : List Window) :
    Consistent (state.garbageCollect windows) ∧
      (state.garbageCollect windows).allowedLateness = state.allowedLateness :=
  ⟨consistent.collected (garbageCollect_spec windows state),
    (garbageCollect_spec windows state).lateness⟩

theorem clearRefired : Consistent state.clearRefired := by
  refine ⟨?_, consistent.occupied, consistent.fits⟩
  intro window refired
  simp [IsRefired, KeyedWindowState.clearRefired] at refired

end

/-- A state is determined by its panes and its marks. -/
theorem eq_of_views (left : Consistent state) (right : Consistent after)
    (lateness : after.allowedLateness = state.allowedLateness)
    (panes : ∀ key window, after.pane key window = state.pane key window)
    (fired : ∀ window, after.IsFired window ↔ state.IsFired window)
    (refired : ∀ window, after.IsRefired window ↔ state.IsRefired window) : after = state := by
  have absent {one two : KeyedWindowState} (consistent : Consistent two)
      (same : ∀ key window, two.pane key window = one.pane key window) {window : Window}
      (missing : one.windows[window]? = none) : two.windows[window]? = none := by
    by_contra present
    have stored : window ∈ two.windows := by
      rw [Std.ExtTreeMap.mem_iff_isSome_getElem?]
      exact Option.isSome_iff_ne_none.mpr present
    obtain ⟨key, pane, found⟩ := consistent.occupied window stored
    rw [same, KeyedWindowState.pane, missing] at found
    simp at found
  have windows : after.windows = state.windows := by
    apply Std.ExtTreeMap.ext_getElem?
    intro window
    cases here : state.windows[window]? with
    | none => exact absent right panes here
    | some inner =>
      cases there : after.windows[window]? with
      | none =>
        rw [absent left (fun key window => (panes key window).symm) there] at here
        cases here
      | some other =>
        congr 1
        apply Std.ExtTreeMap.ext_getElem?
        intro key
        have same := panes key window
        rwa [KeyedWindowState.pane, KeyedWindowState.pane, here, there, Option.bind_some,
          Option.bind_some] at same
  cases after
  cases state
  simp only [KeyedWindowState.mk.injEq]
  exact ⟨windows, lateness, Std.ExtTreeSet.ext_mem (fun window => fired window),
    Std.ExtTreeSet.ext_mem (fun window => refired window)⟩

end Consistent

/-- The entries of the body are the panes. -/
theorem mem_forEachPane {state : KeyedWindowState} {entry : PaneEntry} :
    entry ∈ state.forEachPane ↔
      state.pane entry.key entry.window = some { sum := entry.sum, count := entry.count } := by
  unfold forEachPane KeyedWindowState.pane
  rw [List.mem_flatMap]
  constructor
  · rintro ⟨⟨window, panes⟩, stored, member⟩
    obtain ⟨⟨key, pane⟩, found, rfl⟩ := List.mem_map.mp member
    rw [Std.ExtTreeMap.mem_toList_iff_getElem?_eq_some] at stored found
    simp [stored, found]
  · intro found
    obtain ⟨panes, stored, inside⟩ := Option.bind_eq_some_iff.mp found
    refine ⟨(entry.window, panes), ?_, List.mem_map.mpr
      ⟨(entry.key, { sum := entry.sum, count := entry.count }), ?_, rfl⟩⟩
    · rwa [Std.ExtTreeMap.mem_toList_iff_getElem?_eq_some]
    · rwa [Std.ExtTreeMap.mem_toList_iff_getElem?_eq_some]

/-- The loop of `Restore` over the panes. -/
def restorePanes (state : KeyedWindowState) (entries : List PaneEntry) : KeyedWindowState :=
  entries.foldl
    (fun state entry => state.restorePane entry.key entry.window entry.sum entry.count) state

theorem restorePanes_cons (state : KeyedWindowState) (entry : PaneEntry)
    (rest : List PaneEntry) :
    state.restorePanes (entry :: rest) =
      (state.restorePane entry.key entry.window entry.sum entry.count).restorePanes rest := rfl

/-- The loop touches nothing but the panes. -/
theorem restorePanes_marks (entries : List PaneEntry) (state : KeyedWindowState) :
    (state.restorePanes entries).allowedLateness = state.allowedLateness ∧
      (state.restorePanes entries).firedWindows = state.firedWindows ∧
      (state.restorePanes entries).refiredWindows = state.refiredWindows := by
  induction entries generalizing state with
  | nil => exact ⟨rfl, rfl, rfl⟩
  | cons entry rest inductionHypothesis => exact inductionHypothesis _

theorem Consistent.restorePanes {entries : List PaneEntry} {state : KeyedWindowState}
    (consistent : Consistent state)
    (fits : ∀ entry ∈ entries, ({ sum := entry.sum, count := entry.count } : Pane).InRange) :
    Consistent (state.restorePanes entries) := by
  induction entries generalizing state with
  | nil => exact consistent
  | cons entry rest inductionHypothesis =>
    rw [restorePanes_cons]
    have own := fits entry List.mem_cons_self
    apply inductionHypothesis (consistent.setPane own entry.key entry.window)
    exact fun other member => fits other (List.mem_cons_of_mem entry member)

/-- Restoring entries that agree with a target, and that complete what is already
there, gives the panes of the target. -/
theorem pane_restorePanes {target : KeyedWindowState} {entries : List PaneEntry}
    {state : KeyedWindowState}
    (agree : ∀ entry ∈ entries, target.pane entry.key entry.window =
      some { sum := entry.sum, count := entry.count })
    (below : ∀ key window pane, state.pane key window = some pane →
      target.pane key window = some pane)
    (complete : ∀ key window pane, target.pane key window = some pane →
      state.pane key window = some pane ∨
        ({ key, window, sum := pane.sum, count := pane.count } : PaneEntry) ∈ entries)
    (key : Bytes) (window : Window) :
    (state.restorePanes entries).pane key window = target.pane key window := by
  induction entries generalizing state with
  | nil =>
    cases found : target.pane key window with
    | none =>
      by_contra present
      obtain ⟨pane, here⟩ := Option.ne_none_iff_exists'.mp present
      rw [below key window pane here] at found
      cases found
    | some pane => exact (complete key window pane found).resolve_right (by simp)
  | cons entry rest inductionHypothesis =>
    rw [restorePanes_cons]
    have own := agree entry List.mem_cons_self
    apply inductionHypothesis
    · exact fun other member => agree other (List.mem_cons_of_mem entry member)
    · intro other place pane found
      rw [restorePane, pane_setPane] at found
      split at found
      · rename_i same
        obtain ⟨rfl, rfl⟩ := same
        rw [own, found]
      · exact below other place pane found
    · intro other place pane found
      rw [restorePane, pane_setPane]
      by_cases same : other = entry.key ∧ place = entry.window
      · obtain ⟨rfl, rfl⟩ := same
        rw [own] at found
        exact .inl (by rw [if_pos ⟨rfl, rfl⟩, found])
      · rw [if_neg same]
        refine (complete other place pane found).imp_right fun member => ?_
        rcases List.mem_cons.mp member with rfl | later
        · exact absurd ⟨rfl, rfl⟩ same
        · exact later

theorem mem_foldl_insert (windows : List Window) (set : Std.ExtTreeSet Window)
    (window : Window) :
    window ∈ windows.foldl (fun set window => set.insert window) set ↔
      window ∈ set ∨ window ∈ windows := by
  induction windows generalizing set with
  | nil => simp
  | cons place rest inductionHypothesis =>
    rw [List.foldl_cons, inductionHypothesis, Std.ExtTreeSet.mem_insert,
      Std.LawfulEqOrd.compare_eq_iff_eq, List.mem_cons, eq_comm]
    tauto

theorem mem_restoreFired (state : KeyedWindowState) (windows : List Window) (window : Window) :
    (state.restoreFiredWindows windows).IsFired window ↔
      state.IsFired window ∨ window ∈ windows :=
  mem_foldl_insert windows state.firedWindows window

theorem mem_restoreRefired (state : KeyedWindowState) (windows : List Window)
    (window : Window) :
    (state.restoreRefiredWindows windows).IsRefired window ↔
      state.IsRefired window ∨ window ∈ windows :=
  mem_foldl_insert windows state.refiredWindows window

end KeyedWindowState

namespace KeyedProcessor

/-- The states of a processor with the given assigner and lateness: a new one, one
restored from an accepted file, and whatever records and control records make of them.
A record that is refused leaves a state behind as well. -/
inductive Reachable (assigner : WindowAssigner) (lateness : Nat) : KeyedProcessor → Prop where
  | create (checkpointing : Bool) :
      Reachable assigner lateness (create assigner lateness checkpointing)
  | restored (checkpointing : Bool) (file : Bytes) (data : CheckpointData)
      (loaded : tryLoad file = some data) :
      Reachable assigner lateness ((create assigner lateness checkpointing).restore data)
  | record {processor after : KeyedProcessor} (record : Record)
      (before : Reachable assigner lateness processor)
      (processed : processor.processRecord record = .ok after) :
      Reachable assigner lateness after
  | refused {processor after : KeyedProcessor} (record : Record) (failure : Failure)
      (before : Reachable assigner lateness processor)
      (thrown : processor.processRecord record = .error (failure, after)) :
      Reachable assigner lateness after
  | control {processor : KeyedProcessor} (control : ControlRecord)
      (before : Reachable assigner lateness processor) :
      Reachable assigner lateness (processor.processControl control).2

/-- The configuration of a processor, and a state that the file format can carry. -/
structure Carried (assigner : WindowAssigner) (lateness : Nat) (processor : KeyedProcessor) :
    Prop where
  assigns : processor.assigner = assigner
  allowed : processor.allowedLateness = lateness
  shared : processor.state.allowedLateness = lateness
  consistent : processor.state.Consistent

namespace Carried

variable {assigner : WindowAssigner} {lateness : Nat} {processor : KeyedProcessor}

theorem create (assigner : WindowAssigner) (lateness : Nat) (checkpointing : Bool) :
    Carried assigner lateness (create assigner lateness checkpointing) :=
  ⟨rfl, rfl, rfl, .empty lateness⟩

theorem restore (carried : Carried assigner lateness processor) {data : CheckpointData}
    (fits : ∀ entry ∈ data.panes, ({ sum := entry.sum, count := entry.count } : Pane).InRange)
    (pending : ∀ window ∈ data.refiredWindows, window ∈ data.firedWindows) :
    Carried assigner lateness (processor.restore data) := by
  have panes := carried.consistent.restorePanes fits
  obtain ⟨sameLateness, sameFired, sameRefired⟩ :=
    KeyedWindowState.restorePanes_marks data.panes processor.state
  refine ⟨carried.assigns, carried.allowed, sameLateness.trans carried.shared, ?_,
    panes.occupied, panes.fits⟩
  intro window refired
  have marked := (KeyedWindowState.mem_restoreRefired _ _ window).mp refired
  apply (KeyedWindowState.mem_restoreFired _ _ window).mpr
  exact marked.imp (panes.pending window) (pending window)

theorem addToWindows {state : KeyedWindowState} (consistent : state.Consistent)
    (record : Record) (watermark : Timestamp) (useLateness : Bool) (windows : List Window)
    (anyDropped anyLate : Bool) :
    match KeyedProcessor.addToWindows record watermark useLateness windows state anyDropped
        anyLate with
    | .ok (after, _, _) => after.Consistent ∧ after.allowedLateness = state.allowedLateness
    | .error (_, after) => after.Consistent ∧ after.allowedLateness = state.allowedLateness := by
  induction windows generalizing state anyDropped anyLate with
  | nil => exact ⟨consistent, rfl⟩
  | cons window rest inductionHypothesis =>
    have added := consistent.addWithLateness record.key window record.value watermark
    unfold KeyedProcessor.addToWindows
    cases result : state.addWithLateness record.key window record.value watermark with
    | error thrown =>
      rw [result] at added
      exact added
    | ok outcome =>
      obtain ⟨accepted, next⟩ := outcome
      rw [result] at added
      have later := inductionHypothesis added.1 (anyDropped || !accepted)
        (anyLate || (accepted && (useLateness && decide (state.IsFired window))))
      rw [added.2] at later
      exact later

theorem record (carried : Carried assigner lateness processor) (record : Record) :
    match processor.processRecord record with
    | .ok after => Carried assigner lateness after
    | .error (_, after) => Carried assigner lateness after := by
  unfold processRecord
  cases processor.assigner record.eventTime with
  | error failure => exact carried
  | ok windows =>
    have added := addToWindows carried.consistent record processor.watermark
      (decide (0 < processor.allowedLateness)) windows false false
    dsimp only
    cases result : KeyedProcessor.addToWindows record processor.watermark
        (decide (0 < processor.allowedLateness)) windows processor.state false false with
    | error thrown =>
      rw [result] at added
      exact ⟨carried.assigns, carried.allowed, added.2.trans carried.shared, added.1⟩
    | ok outcome =>
      rw [result] at added
      exact ⟨carried.assigns, carried.allowed, added.2.trans carried.shared, added.1⟩

theorem advanceTo (carried : Carried assigner lateness processor) (watermark : Timestamp) :
    Carried assigner lateness (processor.advanceTo watermark).2 := by
  obtain ⟨first, firstLateness⟩ := carried.consistent.fireAll _
    (processor.state.expiredWindows_nodup watermark)
  unfold KeyedProcessor.advanceTo
  by_cases late : 0 < processor.allowedLateness
  · obtain ⟨second, secondLateness⟩ := first.fireAll _ (KeyedWindowState.refiredWindows_nodup _)
    have collected := second.clearRefired.garbageCollect
    rw [if_pos late]
    refine ⟨carried.assigns, carried.allowed, ?_, (collected _).1⟩
    exact (collected _).2.trans (secondLateness.trans (firstLateness.trans carried.shared))
  · rw [if_neg late]
    exact ⟨carried.assigns, carried.allowed, firstLateness.trans carried.shared, first⟩

theorem control (carried : Carried assigner lateness processor) (control : ControlRecord) :
    Carried assigner lateness (processor.processControl control).2 := by
  unfold processControl
  cases control.type with
  | watermark =>
    dsimp only
    split
    · exact carried.advanceTo control.watermark
    · exact carried
  | checkpointBarrier =>
    dsimp only
    split
    · exact ⟨carried.assigns, carried.allowed, carried.shared, carried.consistent⟩
    · exact carried

end Carried

theorem Reachable.carried {assigner : WindowAssigner} {lateness : Nat}
    {processor : KeyedProcessor} (reachable : Reachable assigner lateness processor) :
    Carried assigner lateness processor := by
  induction reachable with
  | create checkpointing => exact Carried.create assigner lateness checkpointing
  | restored checkpointing file data loaded =>
    obtain ⟨version, grammatical, _⟩ := parse_sound (tryLoad_eq_some.mp loaded)
    apply (Carried.create assigner lateness checkpointing).restore _ grammatical.pending
    exact fun entry member =>
      ⟨(grammatical.entries entry member).sum, (grammatical.entries entry member).count⟩
  | record record _ processed inductionHypothesis =>
    have after := inductionHypothesis.record record
    rwa [processed] at after
  | refused record failure _ thrown inductionHypothesis =>
    have after := inductionHypothesis.record record
    rwa [thrown] at after
  | control control _ inductionHypothesis => exact inductionHypothesis.control control

/-! ## Equal but for the counters -/

/-- Two processors that differ at most in their counters and in whether they write
checkpoints. -/
structure Twins (left right : KeyedProcessor) : Prop where
  assigner : left.assigner = right.assigner
  allowedLateness : left.allowedLateness = right.allowedLateness
  watermark : left.watermark = right.watermark
  state : left.state = right.state

/-- The results of every item, and of the final flush, without their order. A refused
item ends the run. -/
def responses : KeyedProcessor → List BatchItem → List (Except Failure (Multiset WindowResult))
  | processor, [] => [.ok (emissions processor.finalFlush.1)]
  | processor, item :: rest =>
      match processor.processItem item with
      | .error (failure, _) => [.error failure]
      | .ok (effects, after) => .ok (emissions effects) :: responses after rest

namespace Twins

variable {left right : KeyedProcessor}

theorem record (twins : Twins left right) (record : Record) :
    (∃ failure leftAfter rightAfter, left.processRecord record = .error (failure, leftAfter) ∧
      right.processRecord record = .error (failure, rightAfter) ∧ Twins leftAfter rightAfter) ∨
    ∃ leftAfter rightAfter, left.processRecord record = .ok leftAfter ∧
      right.processRecord record = .ok rightAfter ∧ Twins leftAfter rightAfter := by
  unfold processRecord
  rw [twins.assigner, twins.allowedLateness, twins.watermark, twins.state]
  cases right.assigner record.eventTime with
  | error failure => exact .inl ⟨failure, _, _, rfl, rfl, twins⟩
  | ok windows =>
    dsimp only
    cases KeyedProcessor.addToWindows record right.watermark
        (decide (0 < right.allowedLateness)) windows right.state false false with
    | error thrown => exact .inl ⟨_, _, _, rfl, rfl, rfl, rfl, rfl, rfl⟩
    | ok outcome =>
      exact .inr ⟨_, _, rfl, rfl, rfl, rfl, rfl, rfl⟩

theorem advanceTo (twins : Twins left right) (watermark : Timestamp) :
    (left.advanceTo watermark).1 = (right.advanceTo watermark).1 ∧
      Twins (left.advanceTo watermark).2 (right.advanceTo watermark).2 := by
  unfold KeyedProcessor.advanceTo
  rw [twins.allowedLateness, twins.state]
  split
  · exact ⟨rfl, twins.assigner, rfl, rfl, rfl⟩
  · exact ⟨rfl, twins.assigner, rfl, rfl, rfl⟩

theorem symm (twins : Twins left right) : Twins right left :=
  ⟨twins.assigner.symm, twins.allowedLateness.symm, twins.watermark.symm, twins.state.symm⟩

theorem trans {other : KeyedProcessor} (twins : Twins left right) (next : Twins right other) :
    Twins left other :=
  ⟨twins.assigner.trans next.assigner, twins.allowedLateness.trans next.allowedLateness,
    twins.watermark.trans next.watermark, twins.state.trans next.state⟩

/-- A barrier reports no result and changes only counters. -/
theorem barrier (processor : KeyedProcessor) {control : ControlRecord}
    (barrier : control.type = .checkpointBarrier) :
    emissions (processor.processControl control).1 = [] ∧
      Twins (processor.processControl control).2 processor := by
  unfold processControl
  rw [barrier]
  dsimp only
  split
  · exact ⟨rfl, rfl, rfl, rfl, rfl⟩
  · exact ⟨rfl, rfl, rfl, rfl, rfl⟩

theorem control (twins : Twins left right) (control : ControlRecord) :
    emissions (left.processControl control).1 = emissions (right.processControl control).1 ∧
      Twins (left.processControl control).2 (right.processControl control).2 := by
  cases kind : control.type with
  | watermark =>
    obtain ⟨results, after⟩ := twins.advanceTo control.watermark
    unfold processControl
    rw [kind, twins.watermark]
    dsimp only
    split
    · exact ⟨by rw [results], after⟩
    · exact ⟨rfl, twins⟩
  | checkpointBarrier =>
    obtain ⟨leftQuiet, leftTwins⟩ := barrier left kind
    obtain ⟨rightQuiet, rightTwins⟩ := barrier right kind
    exact ⟨by rw [leftQuiet, rightQuiet], leftTwins.trans (twins.trans rightTwins.symm)⟩

theorem finalFlush (twins : Twins left right) : left.finalFlush.1 = right.finalFlush.1 := by
  unfold KeyedProcessor.finalFlush
  rw [twins.allowedLateness, twins.state]
  split
  · rfl
  · rfl

/-- Twins respond alike to every continuation. -/
theorem responses (twins : Twins left right) (items : List BatchItem) :
    left.responses items = right.responses items := by
  induction items generalizing left right with
  | nil => rw [KeyedProcessor.responses, KeyedProcessor.responses, twins.finalFlush]
  | cons item rest inductionHypothesis =>
    unfold KeyedProcessor.responses processItem
    cases item with
    | record record =>
      dsimp only
      rcases twins.record record with ⟨failure, _, _, leftFails, rightFails, -⟩ |
        ⟨_, _, leftDone, rightDone, after⟩
      · rw [leftFails, rightFails]
        rfl
      · rw [leftDone, rightDone]
        exact congrArg _ (inductionHypothesis after)
    | control control =>
      obtain ⟨results, after⟩ := twins.control control
      dsimp only
      rw [results, inductionHypothesis after]

end Twins

/-! ## The round trip -/

/-- A state whose keys and containers are within the ranges of the format: a key has a
32-bit length, and a container a 64-bit size. -/
structure Storable (state : KeyedWindowState) : Prop where
  keys : ∀ key window pane, state.pane key window = some pane → key.length < 2 ^ 32
  panes : state.totalPanes < 2 ^ 64
  fired : state.firedWindows.size < 2 ^ 64

/-- The contents of the file of a consistent state are grammatical. -/
theorem grammatical_contents {state : KeyedWindowState} (consistent : state.Consistent)
    (storable : Storable state) {offset : Nat} (offsetFits : offset < 2 ^ 64)
    (watermark : Timestamp) (walk : state.Walk) :
    Grammatical 3 (CheckpointWriter.contents offset watermark walk) := by
  have pending : ∀ window ∈ walk.refiredWindows, window ∈ walk.firedWindows := by
    intro window refired
    rw [walk.mem_refiredWindows] at refired
    rw [walk.mem_firedWindows]
    exact consistent.pending window refired
  have few : walk.firedWindows.length < 2 ^ 64 := by
    rw [walk.allFired.length_eq, Std.ExtTreeSet.length_toList]
    exact storable.fired
  have fewer : walk.refiredWindows.length ≤ walk.firedWindows.length :=
    (walk.allRefired.nodup_iff.mpr state.refiredWindows_nodup).length_le_of_subset pending
  refine ⟨by decide, offsetFits, ?_, ?_, few, lt_of_le_of_lt fewer few, by simp, by simp, pending⟩
  · have panes := storable.panes
    rwa [CheckpointWriter.totalPanes_eq_length, ← walk.allPanes.length_eq] at panes
  · intro entry member
    have found := KeyedWindowState.mem_forEachPane.mp (walk.allPanes.mem_iff.mp member)
    obtain ⟨sum, count⟩ := consistent.fits _ _ _ found
    exact ⟨storable.keys _ _ _ found, sum, count⟩

/-- The file of a reachable state loads. -/
theorem tryLoad_payload {assigner : WindowAssigner} {lateness : Nat} {processor : KeyedProcessor}
    (reachable : Reachable assigner lateness processor) (storable : Storable processor.state)
    {offset : Nat} (offsetFits : offset < 2 ^ 64) (walk : processor.state.Walk) :
    tryLoad (CheckpointWriter.payload offset processor.watermark processor.state walk) =
      some (CheckpointWriter.contents offset processor.watermark walk) := by
  rw [tryLoad_eq_some, CheckpointWriter.payload_eq]
  exact parse_fileLayout (grammatical_contents reachable.carried.consistent storable offsetFits
    processor.watermark walk)

/-- Restoring the contents of a state gives the state back, in whatever order they are listed. -/
theorem restore_contents {assigner : WindowAssigner} {lateness : Nat}
    {processor : KeyedProcessor} (carried : Carried assigner lateness processor) (offset : Nat)
    (checkpointing : Bool) (walk : processor.state.Walk) :
    Twins ((create assigner lateness checkpointing).restore
      (CheckpointWriter.contents offset processor.watermark walk)) processor := by
  have fresh := Carried.create assigner lateness checkpointing
  have found : ∀ entry ∈ walk.panes, processor.state.pane entry.key entry.window =
      some { sum := entry.sum, count := entry.count } :=
    fun entry member => KeyedWindowState.mem_forEachPane.mp (walk.allPanes.mem_iff.mp member)
  have pending : ∀ window ∈ walk.refiredWindows, window ∈ walk.firedWindows :=
    fun window refired => walk.mem_firedWindows.mpr
      (carried.consistent.pending window (walk.mem_refiredWindows.mp refired))
  have restored := @Carried.restore _ _ _ fresh
    (CheckpointWriter.contents offset processor.watermark walk)
    (fun entry member => carried.consistent.fits _ _ _ (found entry member)) pending
  obtain ⟨_, firedMarks, refiredMarks⟩ := KeyedWindowState.restorePanes_marks walk.panes
    (create assigner lateness checkpointing).state
  refine ⟨carried.assigns.symm, carried.allowed.symm, ?_, ?_⟩
  · exact max_eq_right bot_le
  · apply carried.consistent.eq_of_views restored.consistent
    · rw [restored.shared, carried.shared]
    · apply KeyedWindowState.pane_restorePanes
      · exact found
      · intro key window pane found
        simp [create, KeyedWindowState.pane] at found
      · intro key window pane found
        exact .inr (walk.allPanes.mem_iff.mpr (KeyedWindowState.mem_forEachPane.mpr found))
    · intro window
      refine (KeyedWindowState.mem_restoreFired _ _ window).trans ?_
      change window ∈ (KeyedWindowState.restorePanes _ walk.panes).firedWindows ∨
        window ∈ walk.firedWindows ↔ _
      rw [firedMarks, walk.mem_firedWindows]
      simp [create]
    · intro window
      refine (KeyedWindowState.mem_restoreRefired _ _ window).trans ?_
      change window ∈ (KeyedWindowState.restorePanes _ walk.panes).refiredWindows ∨
        window ∈ walk.refiredWindows ↔ _
      rw [refiredMarks, walk.mem_refiredWindows]
      simp [create]

/-- **A checkpoint is a faithful copy.** The file of a reachable processor is accepted,
in whatever order the containers were walked, and a fresh processor that restores it has
the same panes, marks and watermark and responds alike to every continuation. -/
theorem checkpoint_round_trip {assigner : WindowAssigner} {lateness : Nat}
    {processor : KeyedProcessor} (reachable : Reachable assigner lateness processor)
    (storable : Storable processor.state) (offset : Nat) (offsetFits : offset < 2 ^ 64)
    (walk : processor.state.Walk) (checkpointing : Bool) :
    ∃ data, tryLoad (CheckpointWriter.payload offset processor.watermark processor.state walk) =
        some data ∧
      ((create assigner lateness checkpointing).restore data).state.windows =
        processor.state.windows ∧
      ((create assigner lateness checkpointing).restore data).state.firedWindows =
        processor.state.firedWindows ∧
      ((create assigner lateness checkpointing).restore data).state.refiredWindows =
        processor.state.refiredWindows ∧
      ((create assigner lateness checkpointing).restore data).watermark =
        processor.watermark ∧
      ∀ items, ((create assigner lateness checkpointing).restore data).responses items =
        processor.responses items := by
  have carried := reachable.carried
  have twins := restore_contents carried offset checkpointing walk
  refine ⟨_, tryLoad_payload reachable storable offsetFits walk, ?_, ?_, ?_, twins.watermark,
    twins.responses⟩
  · rw [twins.state]
  · rw [twins.state]
  · rw [twins.state]

/-- Whatever a list of items leaves behind is reachable. -/
theorem Reachable.items {assigner : WindowAssigner} {lateness : Nat}
    {processor : KeyedProcessor} (reachable : Reachable assigner lateness processor)
    (items : List BatchItem) :
    match processor.processItems items with
    | .ok (_, after) => Reachable assigner lateness after
    | .error (_, _, after) => Reachable assigner lateness after := by
  induction items generalizing processor with
  | nil => exact reachable
  | cons item rest inductionHypothesis =>
    unfold processItems
    cases item with
    | record record =>
      unfold processItem
      dsimp only
      cases result : processor.processRecord record with
      | error thrown => exact .refused record thrown.1 reachable result
      | ok after =>
        have later := inductionHypothesis (.record record reachable result)
        dsimp only [Except.map]
        cases rested : after.processItems rest with
        | error thrown =>
          rw [rested] at later
          exact later
        | ok outcome =>
          rw [rested] at later
          exact later
    | control control =>
      have later := inductionHypothesis (.control control reachable)
      unfold processItem
      dsimp only
      cases rested : (processor.processControl control).2.processItems rest with
      | error thrown =>
        rw [rested] at later
        exact later
      | ok outcome =>
        rw [rested] at later
        exact later

theorem storable_of_all {state : KeyedWindowState}
    (keys : state.forEachPane.all (fun entry => entry.key.length < 2 ^ 32) = true)
    (panes : state.totalPanes < 2 ^ 64) (fired : state.firedWindows.size < 2 ^ 64) :
    Storable state := by
  refine ⟨?_, panes, fired⟩
  intro key window pane found
  have member : ({ key, window, sum := pane.sum, count := pane.count } : PaneEntry) ∈
      state.forEachPane := KeyedWindowState.mem_forEachPane.mpr found
  simpa using List.all_eq_true.mp keys _ member

/-- The late stream, and a late record of a second key. -/
def twoLate : Batch :=
  lateStream ++ [.record
    { key := [108], value := 3, eventTime := .ofMs 5, processingTime := .ofMs 5 }]

/-- The processor after these records: its only window has two panes, has fired and waits for a
re-fire. -/
def lateProcessor : KeyedProcessor :=
  match (create tenMs.assignWindows 5 true).processItems twoLate with
  | .ok (_, processor) => processor
  | .error (_, _, processor) => processor

/-- The pending re-fire survives a checkpoint that lists the panes backwards. -/
theorem lateProcessor_round_trip :
    lateProcessor.state.refiredWindows.toList = [windowAt 0 10] ∧
    lateProcessor.state.sorted.reverse.panes.map (·.key) = [[108], [107]] ∧
    ∃ data, tryLoad (CheckpointWriter.payload 3 lateProcessor.watermark lateProcessor.state
        lateProcessor.state.sorted.reverse) = some data ∧
      ((create tenMs.assignWindows 5 true).restore data).responses [] =
        lateProcessor.responses [] := by
  have reachable : Reachable tenMs.assignWindows 5 lateProcessor := by
    have fresh : Reachable tenMs.assignWindows 5 (create tenMs.assignWindows 5 true) :=
      .create true
    have after := fresh.items twoLate
    unfold lateProcessor
    split
    · rename_i found
      rwa [found] at after
    · rename_i found
      rwa [found] at after
  refine ⟨by decide +kernel, by decide +kernel, ?_⟩
  obtain ⟨data, loaded, _, _, _, _, same⟩ := checkpoint_round_trip reachable
    (storable_of_all (by decide +kernel) (by decide +kernel) (by decide +kernel)) 3 (by decide)
    lateProcessor.state.sorted.reverse true
  exact ⟨data, loaded, same []⟩

end KeyedProcessor

end Stormglass
