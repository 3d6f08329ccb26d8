import Stormglass.KeyedProcessor
import Stormglass.WindowGeometry

/-!
# Records that cannot be applied

`ProcessRecord` adds a value to the pane of each window of its record, one after
another. A pane refuses an addition that overflows, and the exception leaves the
additions to the earlier windows in place. So a record that cannot be applied is
unapplied exactly when nothing was added before the refusal: when the first window
that still accepts the record refuses it.
-/

namespace Stormglass

/-- The window assigners of the library. -/
inductive Windowing : WindowAssigner → Prop where
  | tumbling (assigner : TumblingAssigner) : Windowing assigner.assignWindows
  | sliding (assigner : SlidingAssigner) : Windowing assigner.assignWindows

theorem Windowing.nodup {assigner : WindowAssigner} (windowing : Windowing assigner)
    {eventTime : Timestamp} {windows : List Window} (assigned : assigner eventTime = .ok windows) :
    windows.Nodup := by
  cases windowing with
  | tumbling assigner => exact (assigner.assignWindows_exactly assigned).2.2.nodup
  | sliding assigner => exact (assigner.assignWindows_exactly assigned).2.2.nodup

namespace KeyedWindowState

variable {state : KeyedWindowState} {key : Bytes} {window : Window} {value : Int}
  {watermark : Timestamp}

/-- Storing the pane that is there changes nothing. -/
theorem setPane_same {pane : Pane} (found : state.pane key window = some pane) :
    state.setPane key window pane = state := by
  obtain ⟨panes, stored, held⟩ := Option.bind_eq_some_iff.mp found
  have inner : (state.windows.getD window ∅).insert key pane = panes := by
    rw [Std.ExtTreeMap.getD_eq_getD_getElem?, stored, Option.getD_some]
    apply Std.ExtTreeMap.ext_getElem?
    intro other
    rw [Std.ExtTreeMap.getElem?_insert]
    split
    · next same =>
      rw [← Std.LawfulEqOrd.compare_eq_iff_eq.mp same, held]
    · rfl
  have outer : state.windows.insert window panes = state.windows := by
    apply Std.ExtTreeMap.ext_getElem?
    intro place
    rw [Std.ExtTreeMap.getElem?_insert]
    split
    · next same =>
      rw [← Std.LawfulEqOrd.compare_eq_iff_eq.mp same, stored]
    · rfl
  rw [setPane, inner, outer]

/-- Only a stored pane refuses a value, and it stays as it is. -/
theorem addWithLateness_refused {failure : Failure} (lower : -2 ^ 63 ≤ value)
    (upper : value ≤ 2 ^ 63 - 1) (early : watermark < window.deadline state.allowedLateness)
    (refused : (state.paneOrNew key window).add value = .error failure) :
    state.addWithLateness key window value watermark = .error (failure, state) := by
  have kept : state.setPane key window (state.paneOrNew key window) = state := by
    cases found : state.pane key window with
    | none =>
      rw [paneOrNew, found, Option.getD_none, Pane.add_new lower upper] at refused
      cases refused
    | some pane =>
      rw [paneOrNew, found]
      exact setPane_same found
  rw [addWithLateness, if_neg (not_le.mpr early), addPane, refused]
  dsimp only
  rw [kept]

end KeyedWindowState

namespace KeyedProcessor

/-- The windows of a list that still accept records. -/
def openWindows (state : KeyedWindowState) (watermark : Timestamp) (windows : List Window) :
    List Window :=
  windows.filter (fun window => ¬ window.deadline state.allowedLateness ≤ watermark)

/-- The pane of a window refuses the value of a record. -/
def Refuses (state : KeyedWindowState) (record : Record) (window : Window) : Prop :=
  ∃ failure, (state.paneOrNew record.key window).add record.value = .error failure

section Loop

variable {state : KeyedWindowState} {record : Record} {watermark : Timestamp} {window : Window}
  {windows : List Window}

/-- An addition to one window leaves the others as they are. -/
theorem refuses_congr {after : KeyedWindowState} {place : Window} {pane : Pane}
    (added : KeyedWindowState.Added record.key window pane state after) (other : place ≠ window) :
    Refuses after record place ↔ Refuses state record place := by
  unfold Refuses KeyedWindowState.paneOrNew
  rw [added.pane, if_neg (fun same => other same.2)]

theorem openWindows_congr {after : KeyedWindowState}
    (allowed : after.allowedLateness = state.allowedLateness) :
    openWindows after watermark windows = openWindows state watermark windows := by
  rw [openWindows, openWindows, allowed]

theorem mem_openWindows :
    window ∈ openWindows state watermark windows ↔
      window ∈ windows ∧ watermark < window.deadline state.allowedLateness := by
  simp [openWindows]

variable {useLateness anyDropped anyLateAccepted : Bool}

/-- What the first round of the loop does. -/
inductive Round (record : Record) (watermark : Timestamp) (window : Window)
    (state : KeyedWindowState) : Except (Failure × KeyedWindowState) KeyedWindowState → Prop where
  | late (closed : window.deadline state.allowedLateness ≤ watermark) :
      Round record watermark window state (.ok state)
  | refused {failure : Failure} (early : watermark < window.deadline state.allowedLateness)
      (refuses : Refuses state record window) :
      Round record watermark window state (.error (failure, state))
  | accepted {pane : Pane} {after : KeyedWindowState}
      (early : watermark < window.deadline state.allowedLateness)
      (fits : (state.paneOrNew record.key window).add record.value = .ok pane)
      (added : KeyedWindowState.Added record.key window pane state after) :
      Round record watermark window state (.ok after)

/-- The loop stops at a refused addition and otherwise goes on with the next window. -/
theorem addToWindows_cons (lower : -2 ^ 63 ≤ record.value) (upper : record.value ≤ 2 ^ 63 - 1)
    (window : Window) (windows : List Window) (state : KeyedWindowState) :
    ∃ result, Round record watermark window state result ∧
      match result with
      | .error thrown => addToWindows record watermark useLateness (window :: windows) state
          anyDropped anyLateAccepted = .error thrown
      | .ok after => ∃ dropped late, addToWindows record watermark useLateness (window :: windows)
          state anyDropped anyLateAccepted =
            addToWindows record watermark useLateness windows after dropped late := by
  rcases le_or_gt (window.deadline state.allowedLateness) watermark with closed | early
  · refine ⟨.ok state, .late closed, ?_⟩
    simp only [addToWindows, KeyedWindowState.addWithLateness_late closed]
    exact ⟨_, _, rfl⟩
  · cases fits : (state.paneOrNew record.key window).add record.value with
    | error failure =>
      refine ⟨.error (failure, state), .refused early ⟨failure, fits⟩, ?_⟩
      dsimp only
      rw [addToWindows, KeyedWindowState.addWithLateness_refused lower upper early fits]
    | ok pane =>
      obtain ⟨after, ran, added⟩ := KeyedWindowState.addWithLateness_accepted early fits
      refine ⟨.ok after, .accepted early fits added, ?_⟩
      simp only [addToWindows, ran]
      exact ⟨_, _, rfl⟩

end Loop

/-! The loop over windows that are all different, for a value of its type. -/

section Distinct

variable {record : Record} {watermark : Timestamp} {useLateness : Bool}

/-- If the first open window refuses, nothing is changed. -/
theorem addToWindows_refused_first (lower : -2 ^ 63 ≤ record.value)
    (upper : record.value ≤ 2 ^ 63 - 1) {windows : List Window} {state : KeyedWindowState}
    {first : Window} (leads : (openWindows state watermark windows).head? = some first)
    (refuses : Refuses state record first) (anyDropped anyLateAccepted : Bool) :
    ∃ failure, addToWindows record watermark useLateness windows state anyDropped
      anyLateAccepted = .error (failure, state) := by
  induction windows generalizing anyDropped anyLateAccepted with
  | nil => cases leads
  | cons window windows inductionHypothesis =>
    obtain ⟨result, round, looped⟩ := addToWindows_cons lower upper window windows state
    cases round with
    | late closed =>
      obtain ⟨dropped, late, looped⟩ := looped
      rw [openWindows, List.filter_cons, if_neg (by simpa using closed)] at leads
      rw [looped]
      exact inductionHypothesis leads dropped late
    | refused early refuses => exact ⟨_, looped⟩
    | accepted early fits added =>
      rw [openWindows, List.filter_cons, if_pos (by simpa using early)] at leads
      obtain rfl := Option.some.inj leads
      obtain ⟨failure, refused⟩ := refuses
      rw [refused] at fits
      cases fits

/-- The loop fails exactly when an open window refuses. -/
theorem addToWindows_fails_iff (lower : -2 ^ 63 ≤ record.value)
    (upper : record.value ≤ 2 ^ 63 - 1) {windows : List Window} (distinct : windows.Nodup)
    (state : KeyedWindowState) (useLateness anyDropped anyLateAccepted : Bool) :
    (∃ thrown, addToWindows record watermark useLateness windows state anyDropped
      anyLateAccepted = .error thrown) ↔
      ∃ window ∈ openWindows state watermark windows, Refuses state record window := by
  induction windows generalizing state anyDropped anyLateAccepted with
  | nil => simp [addToWindows, openWindows]
  | cons window windows inductionHypothesis =>
    obtain ⟨absent, distinct⟩ := List.nodup_cons.mp distinct
    obtain ⟨result, round, looped⟩ := addToWindows_cons lower upper window windows state
    cases round with
    | late closed =>
      obtain ⟨dropped, late, looped⟩ := looped
      rw [looped, inductionHypothesis distinct, openWindows, openWindows, List.filter_cons,
        if_neg (by simpa using closed)]
    | refused early refuses =>
      constructor
      · intro _
        exact ⟨window, mem_openWindows.mpr ⟨List.mem_cons_self, early⟩, refuses⟩
      · intro _
        exact ⟨_, looped⟩
    | accepted early fits added =>
      obtain ⟨dropped, late, looped⟩ := looped
      rw [looped, inductionHypothesis distinct, openWindows_congr added.lateness]
      constructor
      · rintro ⟨place, member, refuses⟩
        obtain ⟨listed, before⟩ := mem_openWindows.mp member
        have other : place ≠ window := fun same => absent (same ▸ listed)
        exact ⟨place, mem_openWindows.mpr ⟨List.mem_cons_of_mem _ listed, before⟩,
          (refuses_congr added other).mp refuses⟩
      · rintro ⟨place, member, refuses⟩
        obtain ⟨listed, before⟩ := mem_openWindows.mp member
        have other : place ≠ window := by
          rintro rfl
          obtain ⟨failure, refused⟩ := refuses
          rw [refused] at fits
          cases fits
        have later : place ∈ windows := (List.mem_cons.mp listed).resolve_left other
        exact ⟨place, mem_openWindows.mpr ⟨later, before⟩, (refuses_congr added other).mpr refuses⟩

/-- A window outside the list keeps its panes, also when the loop fails. -/
theorem pane_of_addToWindows_error (lower : -2 ^ 63 ≤ record.value)
    (upper : record.value ≤ 2 ^ 63 - 1) {windows : List Window} {state after : KeyedWindowState}
    {failure : Failure} {anyDropped anyLateAccepted : Bool}
    (failed : addToWindows record watermark useLateness windows state anyDropped
      anyLateAccepted = .error (failure, after)) {place : Window} (outside : place ∉ windows)
    (key : Bytes) : after.pane key place = state.pane key place := by
  induction windows generalizing state anyDropped anyLateAccepted with
  | nil => cases failed
  | cons window windows inductionHypothesis =>
    rw [List.mem_cons, not_or] at outside
    obtain ⟨result, round, looped⟩ := addToWindows_cons lower upper window windows state
    cases round with
    | late closed =>
      obtain ⟨dropped, late, looped⟩ := looped
      exact inductionHypothesis (looped.symm.trans failed) outside.2
    | refused early refuses =>
      cases looped.symm.trans failed
      rfl
    | accepted early fits added =>
      obtain ⟨dropped, late, looped⟩ := looped
      rw [inductionHypothesis (looped.symm.trans failed) outside.2, added.pane,
        if_neg (fun same => outside.1 same.2)]

/-- If the first open window accepts the value and a later one refuses it, the first
pane has changed. -/
theorem addToWindows_changes (lower : -2 ^ 63 ≤ record.value)
    (upper : record.value ≤ 2 ^ 63 - 1) {windows : List Window} (distinct : windows.Nodup)
    {state after : KeyedWindowState} {failure : Failure} {anyDropped anyLateAccepted : Bool}
    (failed : addToWindows record watermark useLateness windows state anyDropped
      anyLateAccepted = .error (failure, after)) {first : Window}
    (leads : (openWindows state watermark windows).head? = some first)
    (fits : ¬ Refuses state record first) : after ≠ state := by
  induction windows generalizing anyDropped anyLateAccepted with
  | nil => cases leads
  | cons window windows inductionHypothesis =>
    obtain ⟨absent, distinct⟩ := List.nodup_cons.mp distinct
    obtain ⟨result, round, looped⟩ := addToWindows_cons lower upper window windows state
    cases round with
    | late closed =>
      obtain ⟨dropped, late, looped⟩ := looped
      rw [openWindows, List.filter_cons, if_neg (by simpa using closed)] at leads
      exact inductionHypothesis distinct (looped.symm.trans failed) leads
    | refused early refuses =>
      rw [openWindows, List.filter_cons, if_pos (by simpa using early)] at leads
      obtain rfl := Option.some.inj leads
      exact absurd refuses fits
    | @accepted pane middle early grown added =>
      obtain ⟨dropped, late, looped⟩ := looped
      have kept := pane_of_addToWindows_error lower upper (looped.symm.trans failed)
        absent record.key
      rw [added.pane, if_pos ⟨rfl, rfl⟩] at kept
      rintro rfl
      rw [KeyedWindowState.paneOrNew, kept, Option.getD_some] at grown
      have counted := Pane.count_of_add grown
      omega

end Distinct

/-- If any window that still accepts the record refuses its value, then the first one
does. This is a condition on the state before the call and on the record. -/
def RefusesAtOnce (processor : KeyedProcessor) (record : Record) : Prop :=
  ∀ windows, processor.assigner record.eventTime = .ok windows →
    (∃ window ∈ openWindows processor.state processor.watermark windows,
      Refuses processor.state record window) →
    ∃ first, (openWindows processor.state processor.watermark windows).head? = some first ∧
      Refuses processor.state record first

/-- A record that cannot be applied leaves the processor as it was, with its panes, its
marks, its watermark and its statistics, exactly when the first window that still accepts
the record is one that refuses it. -/
theorem failed_record_unapplied_iff (processor : KeyedProcessor)
    (windowing : Windowing processor.assigner) (record : Record)
    (typed : -2 ^ 63 ≤ record.value ∧ record.value ≤ 2 ^ 63 - 1) :
    (∀ failure after, processor.processRecord record = .error (failure, after) →
      after = processor) ↔ processor.RefusesAtOnce record := by
  obtain ⟨lower, upper⟩ := typed
  constructor
  · intro unapplied windows assigned refused
    have distinct := windowing.nodup assigned
    obtain ⟨window, member, refuses⟩ := refused
    obtain ⟨⟨failure, after⟩, failed⟩ := (addToWindows_fails_iff lower upper distinct
      processor.state (decide (0 < processor.allowedLateness)) false false).mpr
        ⟨window, member, refuses⟩
    cases leads : (openWindows processor.state processor.watermark windows).head? with
    | none =>
      rw [List.head?_eq_none_iff] at leads
      rw [leads] at member
      cases member
    | some first =>
      refine ⟨first, rfl, ?_⟩
      by_contra fits
      have threw : processor.processRecord record =
          .error (failure, { processor with state := after }) := by
        rw [processRecord, assigned]
        dsimp only
        rw [failed]
      have same := congrArg KeyedProcessor.state (unapplied _ _ threw)
      exact addToWindows_changes lower upper distinct failed leads fits same
  · intro atOnce failure after threw
    rw [processRecord] at threw
    cases assigned : processor.assigner record.eventTime with
    | error refused =>
      rw [assigned] at threw
      cases threw
      rfl
    | ok windows =>
      rw [assigned] at threw
      dsimp only at threw
      cases looped : addToWindows record processor.watermark
          (decide (0 < processor.allowedLateness)) windows processor.state false false with
      | ok result =>
        rw [looped] at threw
        cases threw
      | error thrown =>
        obtain ⟨first, leads, refuses⟩ := atOnce windows assigned
          ((addToWindows_fails_iff lower upper (windowing.nodup assigned) processor.state _ false
            false).mp ⟨thrown, looped⟩)
        obtain ⟨cause, unchanged⟩ :=
          addToWindows_refused_first lower upper leads refuses false false
        rw [unchanged] at threw
        cases threw
        rfl

/-- Windows of twenty milliseconds that start every ten. -/
def halfOverlapping : SlidingAssigner where
  windowSize := 20
  slide := 10
  positive := by decide
  bounded := by decide

/-- A record of one key. -/
def valueAt (value time : Int) : Record where
  key := [107]
  value := value
  eventTime := .ofMs time
  processingTime := .ofMs time

/-- A processor whose windows from ten and from twenty hold the greatest sum. -/
def filled : KeyedProcessor :=
  match (create halfOverlapping.assignWindows 0 false).processRecord (valueAt (2 ^ 63 - 1) 25) with
  | .ok processor => processor
  | .error thrown => thrown.2

theorem filled_reached :
    (create halfOverlapping.assignWindows 0 false).processRecord (valueAt (2 ^ 63 - 1) 25) =
      .ok filled := rfl

/-- A record of the windows from zero and from ten overflows the second one. The
exception leaves it applied to the first one. -/
theorem overflow_partly_applied :
    (create halfOverlapping.assignWindows 0 false).processRecord (valueAt (2 ^ 63 - 1) 25) =
      .ok filled ∧
    ∃ after, filled.processRecord (valueAt 1 15) =
        .error (.overflowError "pane aggregate overflow", after) ∧
      filled.state.pane [107] (windowAt 0 20) = none ∧
      after.state.pane [107] (windowAt 0 20) = some { sum := 1, count := 1 } :=
  ⟨filled_reached, _, rfl, by decide +kernel, by decide +kernel⟩

/-- A record whose first window overflows is not applied. -/
theorem first_overflow_unapplied :
    (∃ thrown, filled.processRecord (valueAt 1 25) = .error thrown) ∧
      ∀ failure after, filled.processRecord (valueAt 1 25) = .error (failure, after) →
        after = filled := by
  refine ⟨⟨_, rfl⟩, ?_⟩
  apply (failed_record_unapplied_iff filled (.sliding halfOverlapping) (valueAt 1 25)
    (by decide)).mpr
  intro windows assigned _
  obtain rfl : [windowAt 10 20, windowAt 20 20] = windows := Except.ok.inj assigned
  exact ⟨windowAt 10 20, by decide +kernel, _, rfl⟩

end KeyedProcessor

end Stormglass
