import Stormglass.PartitionInvariance

/-!
# Records accepted late

A processor counts a record as accepted late when one of its windows still accepts it
and has fired. A window fires at a watermark that advances past its end while the
window holds a record, of any key of the same processor. A worker holds the records of
its own keys only, so a window may have fired in the single-threaded engine and not on
the worker of a late record.

The counters are described by the stream alone. Their totals agree exactly when every
record that is late for the whole stream is late for the share of its worker.
-/

namespace Stormglass

/-- The record belongs to the window. -/
def Assigned (assigner : WindowAssigner) (record : Record) (window : Window) : Prop :=
  ∃ windows, assigner record.eventTime = .ok windows ∧ window ∈ windows

/-- A watermark has advanced to the end of the window or past it while the window held
a record. -/
def HasFired (assigner : WindowAssigner) (items : Batch) (window : Window) : Prop :=
  ∃ front control rest, items = front ++ .control control :: rest ∧ control.type = .watermark ∧
    highestWatermark front < control.watermark ∧ window.close ≤ control.watermark ∧
    ∃ record ∈ records front, Assigned assigner record window

/-- A record that comes after the items is accepted into a window that has fired. -/
def AcceptedLate (assigner : WindowAssigner) (lateness : Nat) (items : Batch) (record : Record) :
    Prop :=
  ∃ window, Assigned assigner record window ∧
    highestWatermark items < window.deadline lateness ∧ HasFired assigner items window

section Firing

variable {assigner : WindowAssigner} {lateness : Nat} {items : Batch} {window : Window}

/-- A window fires at the last item or has fired before it. -/
theorem hasFired_append (item : BatchItem) :
    HasFired assigner (items ++ [item]) window ↔ HasFired assigner items window ∨
      ∃ control, item = .control control ∧ control.type = .watermark ∧
        highestWatermark items < control.watermark ∧ window.close ≤ control.watermark ∧
        ∃ record ∈ records items, Assigned assigner record window := by
  constructor
  · rintro ⟨front, control, rest, split, fires⟩
    rcases List.eq_nil_or_concat rest with rfl | ⟨middle, last, rfl⟩
    · obtain ⟨rfl, same⟩ := List.append_inj' split rfl
      exact Or.inr ⟨control, List.singleton_inj.mp same, fires⟩
    · have regrouped : items ++ [item] = (front ++ .control control :: middle) ++ [last] := by
        simpa using split
      obtain ⟨rfl, _⟩ := List.append_inj' regrouped rfl
      exact Or.inl ⟨front, control, middle, rfl, fires⟩
  · rintro (⟨front, control, rest, rfl, fires⟩ | ⟨control, rfl, fires⟩)
    · exact ⟨front, control, rest ++ [item], by simp, fires⟩
    · exact ⟨items, control, [], rfl, fires⟩

theorem hasFired_record (record : Record) :
    HasFired assigner (items ++ [.record record]) window ↔ HasFired assigner items window := by
  rw [hasFired_append]
  constructor
  · rintro (fired | ⟨_, ⟨⟩, _⟩)
    exact fired
  · exact Or.inl

end Firing

namespace KeyedProcessor

open KeyedWindowState

/-- What adding to windows does to the stored windows and to the marks, and when it
notes that a fired window has accepted. -/
structure Spread (windows : List Window) (watermark : Timestamp) (useLateness : Bool)
    (before after : KeyedWindowState) (early late : Bool) : Prop where
  lateness : after.allowedLateness = before.allowedLateness
  stored : ∀ window, window ∈ after.windows ↔ window ∈ before.windows ∨
    (window ∈ windows ∧ watermark < window.deadline before.allowedLateness)
  fired : ∀ window, after.IsFired window ↔ before.IsFired window
  noted : late = true ↔ early = true ∨ (useLateness = true ∧ ∃ window ∈ windows,
    watermark < window.deadline before.allowedLateness ∧ before.IsFired window)

theorem addToWindows_spread {record : Record} {watermark : Timestamp} {useLateness : Bool}
    {windows : List Window} {before after : KeyedWindowState}
    {anyDropped dropped anyLateAccepted late : Bool}
    (looped : addToWindows record watermark useLateness windows before anyDropped
      anyLateAccepted = .ok (after, dropped, late)) :
    Spread windows watermark useLateness before after anyLateAccepted late := by
  induction windows generalizing before anyDropped anyLateAccepted with
  | nil =>
    obtain ⟨rfl, rfl, rfl⟩ : before = after ∧ anyDropped = dropped ∧ anyLateAccepted = late := by
      simpa [addToWindows] using looped
    exact ⟨rfl, by simp, by simp, by simp⟩
  | cons window windows inductionHypothesis =>
    rw [addToWindows] at looped
    rcases le_or_gt (window.deadline before.allowedLateness) watermark with closed | early
    · rw [addWithLateness_late closed] at looped
      have rest := inductionHypothesis looped
      refine ⟨rest.lateness, ?_, rest.fired, ?_⟩
      · intro place
        rw [rest.stored, List.mem_cons]
        constructor
        · rintro (held | ⟨listed, before⟩)
          · exact Or.inl held
          · exact Or.inr ⟨Or.inr listed, before⟩
        · rintro (held | ⟨rfl | listed, before⟩)
          · exact Or.inl held
          · exact absurd before (not_lt.mpr closed)
          · exact Or.inr ⟨listed, before⟩
      · rw [rest.noted]
        simp [not_lt.mpr closed]
    · cases fits : (before.paneOrNew record.key window).add record.value with
      | error failure =>
        simp [addWithLateness, not_le.mpr early, addPane, fits] at looped
      | ok pane =>
        obtain ⟨middle, ran, added⟩ := addWithLateness_accepted early fits
        rw [ran] at looped
        have rest := inductionHypothesis looped
        refine ⟨rest.lateness.trans added.lateness, ?_, ?_, ?_⟩
        · intro place
          rw [rest.stored, added.stored, added.lateness, List.mem_cons]
          constructor
          · rintro ((rfl | held) | ⟨listed, before⟩)
            · exact Or.inr ⟨Or.inl rfl, early⟩
            · exact Or.inl held
            · exact Or.inr ⟨Or.inr listed, before⟩
          · rintro (held | ⟨rfl | listed, before⟩)
            · exact Or.inl (Or.inr held)
            · exact Or.inl (Or.inl rfl)
            · exact Or.inr ⟨listed, before⟩
        · intro place
          rw [rest.fired, added.fired]
        · rw [rest.noted, added.lateness]
          simp only [added.fired, Bool.or_eq_true, Bool.and_eq_true, decide_eq_true_eq,
            List.exists_mem_cons_iff, early, true_and]
          tauto

/-- With lateness, an advance keeps the windows before their deadline and marks those
that end by it. -/
theorem advanceTo_marks {processor : KeyedProcessor} {time : Timestamp}
    (late : 0 < processor.allowedLateness)
    (allowed : processor.state.allowedLateness = processor.allowedLateness)
    (refiredFired : ∀ window, processor.state.IsRefired window → processor.state.IsFired window)
    {window : Window} (early : time < window.deadline processor.allowedLateness) :
    (window ∈ (processor.advanceTo time).2.state.windows ↔ window ∈ processor.state.windows) ∧
      ((processor.advanceTo time).2.state.IsFired window ↔ processor.state.IsFired window ∨
        (window ∈ processor.state.windows ∧ window.close ≤ time)) := by
  obtain ⟨first, again, rounds, after⟩ := advanceTo_late time late
  have grace : processor.state.allowedLateness ≠ 0 := by omega
  have graceFirst : first.allowedLateness ≠ 0 := rounds.expired.lateness ▸ grace
  have graceAgain : again.clearRefired.allowedLateness = processor.allowedLateness :=
    (rounds.refired.lateness.trans rounds.expired.lateness).trans allowed
  have collected := garbageCollect_spec (again.clearRefired.garbageCollectableWindows time)
    again.clearRefired
  have kept : window ∉ again.clearRefired.garbageCollectableWindows time := by
    rw [mem_garbageCollectableWindows, graceAgain]
    exact fun gone => absurd early (not_lt.mpr gone.2)
  rw [after]
  constructor
  · rw [collected.stored]
    change window ∈ again.windows ∧ _ ↔ _
    rw [rounds.refired.stored, rounds.expired.stored]
    simp [kept, grace, graceFirst]
  · rw [collected.fired]
    change again.IsFired window ∧ _ ↔ _
    rw [rounds.refired.fired, rounds.expired.fired, mem_expiredWindows, mem_refiredWindows]
    constructor
    · rintro ⟨(fired | ⟨_, ⟨stored, closed, _⟩, _⟩) | ⟨_, again, _⟩, _⟩
      · exact Or.inl fired
      · exact Or.inr ⟨stored, closed⟩
      · exact Or.inl (refiredFired window again)
    · rintro (fired | ⟨stored, closed⟩)
      · exact ⟨Or.inl (Or.inl fired), kept⟩
      · by_cases before : processor.state.IsFired window
        · exact ⟨Or.inl (Or.inl before), kept⟩
        · exact ⟨Or.inl (Or.inr ⟨grace, ⟨stored, closed, before⟩, stored⟩), kept⟩

/-- Only records are counted as accepted late. -/
theorem processControl_lateRecordsAccepted (processor : KeyedProcessor) (control : ControlRecord) :
    (processor.processControl control).2.stats.lateRecordsAccepted =
      processor.stats.lateRecordsAccepted := by
  unfold processControl advanceTo
  split
  · split
    · dsimp only
      split <;> rfl
    · rfl
  · split <;> rfl

theorem finalFlush_lateRecordsAccepted (processor : KeyedProcessor) :
    processor.finalFlush.2.stats.lateRecordsAccepted = processor.stats.lateRecordsAccepted := by
  unfold finalFlush
  dsimp only
  split <;> rfl

end KeyedProcessor

/-! ## The marks of a stream -/

/-- Before their deadlines, a processor stores the windows of the records and marks
those that have fired. -/
structure Marked (assigner : WindowAssigner) (lateness : Nat) (items : Batch)
    (processor : KeyedProcessor) : Prop where
  stored : ∀ window, highestWatermark items < window.deadline lateness →
    (window ∈ processor.state.windows ↔ ∃ record ∈ records items, Assigned assigner record window)
  fired : ∀ window, highestWatermark items < window.deadline lateness →
    (processor.state.IsFired window ↔ HasFired assigner items window)

namespace Marked

variable {assigner : WindowAssigner} {lateness : Nat} {items : Batch} {processor : KeyedProcessor}

theorem create (assigner : WindowAssigner) (lateness : Nat) (checkpointing : Bool) :
    Marked assigner lateness [] (.create assigner lateness checkpointing) := by
  constructor
  · intro window _
    simp [KeyedProcessor.create]
  · intro window _
    simp [KeyedProcessor.create, KeyedWindowState.IsFired, HasFired]

/-- A record is stored, and it is counted if it is accepted late. -/
theorem record (marked : Marked assigner lateness items processor)
    (stands : Stands assigner lateness items processor) (late : 0 < lateness) {record : Record}
    {after : KeyedProcessor} (applied : processor.processRecord record = .ok after) :
    Marked assigner lateness (items ++ [.record record]) after ∧
      (after.stats.lateRecordsAccepted = processor.stats.lateRecordsAccepted + 1 ∧
          AcceptedLate assigner lateness items record ∨
        after.stats.lateRecordsAccepted = processor.stats.lateRecordsAccepted ∧
          ¬ AcceptedLate assigner lateness items record) := by
  rw [KeyedProcessor.processRecord] at applied
  cases assigned : processor.assigner record.eventTime with
  | error failure =>
    rw [assigned] at applied
    cases applied
  | ok windows =>
    rw [assigned] at applied
    dsimp only at applied
    cases looped : KeyedProcessor.addToWindows record processor.watermark
        (decide (0 < processor.allowedLateness)) windows processor.state false false with
    | error thrown =>
      rw [looped] at applied
      cases applied
    | ok result =>
      obtain ⟨state, dropped, noted⟩ := result
      rw [looped] at applied
      obtain rfl := Except.ok.inj applied
      have spread := KeyedProcessor.addToWindows_spread looped
      have member (window : Window) : Assigned assigner record window ↔ window ∈ windows := by
        rw [← stands.assigns]
        constructor
        · rintro ⟨others, found, listed⟩
          rw [assigned] at found
          rwa [Except.ok.inj found]
        · exact fun listed => ⟨windows, assigned, listed⟩
      have same := highestWatermark_record items record
      refine ⟨⟨?_, ?_⟩, ?_⟩
      · intro window early
        rw [same] at early
        rw [spread.stored, marked.stored window early, records_append, stands.represents.allowed,
          stands.watermark]
        simp only [List.mem_append, records_record, List.mem_singleton, or_and_right, exists_or,
          exists_eq_left, member, early, and_true]
      · intro window early
        rw [same] at early
        rw [spread.fired, marked.fired window early, hasFired_record]
      · have counted : noted = true ↔ AcceptedLate assigner lateness items record := by
          rw [spread.noted, stands.represents.allowed, stands.watermark, stands.allowed]
          simp only [Bool.false_eq_true, false_or, decide_eq_true_eq, late, true_and]
          constructor
          · rintro ⟨window, listed, early, fired⟩
            exact ⟨window, (member window).mpr listed, early, (marked.fired window early).mp fired⟩
          · rintro ⟨window, listed, early, fired⟩
            exact ⟨window, (member window).mp listed, early, (marked.fired window early).mpr fired⟩
        cases noted with
        | true => exact Or.inl ⟨rfl, counted.mp rfl⟩
        | false => exact Or.inr ⟨rfl, fun accepted => Bool.false_ne_true (counted.mpr accepted)⟩

/-- A control record counts nothing. -/
theorem control (marked : Marked assigner lateness items processor)
    (stands : Stands assigner lateness items processor) (late : 0 < lateness)
    (control : ControlRecord) :
    Marked assigner lateness (items ++ [.control control])
      (processor.processControl control).2 := by
  have recorded : records (items ++ [.control control]) = records items := by
    rw [records_append]
    exact List.append_nil _
  have highest : highestWatermark items ≤ highestWatermark (items ++ [.control control]) := by
    rw [highestWatermark_append]
    exact le_max_left _ _
  -- A control record that moves no mark leaves the state as it is.
  have still (idle : (processor.processControl control).2.state = processor.state)
      (past : control.type = .watermark → control.watermark ≤ highestWatermark items) :
      Marked assigner lateness (items ++ [.control control])
        (processor.processControl control).2 := by
    constructor
    · intro window early
      rw [idle, recorded, marked.stored window (highest.trans_lt early)]
    · intro window early
      rw [idle, marked.fired window (highest.trans_lt early), hasFired_append]
      constructor
      · exact Or.inl
      · rintro (fired | ⟨_, ⟨⟩, isWatermark, forward, _⟩)
        · exact fired
        · exact absurd forward (not_lt.mpr (past isWatermark))
  match kind : control.type with
  | .checkpointBarrier =>
    apply still
    · unfold KeyedProcessor.processControl
      rw [kind]
      dsimp only
      split <;> rfl
    · intro other
      rw [kind] at other
      cases other
  | .watermark =>
    rcases le_or_gt control.watermark processor.watermark with behind | forward
    · apply still
      · simp [KeyedProcessor.processControl, kind, not_lt.mpr behind]
      · intro _
        rw [← stands.watermark]
        exact behind
    · have advanced : (processor.processControl control).2 =
          (processor.advanceTo control.watermark).2 := by
        simp [KeyedProcessor.processControl, kind, forward]
      have reached : highestWatermark (items ++ [.control control]) = control.watermark := by
        have one : highestWatermark [.control control] = control.watermark := by
          cases control
          cases kind
          exact max_bot_left _
        rw [highestWatermark_append, one, ← stands.watermark]
        exact max_eq_right forward.le
      have marks (window : Window)
          (early : highestWatermark (items ++ [.control control]) < window.deadline lateness) :=
        KeyedProcessor.advanceTo_marks (stands.allowed ▸ late)
          (stands.represents.allowed.trans stands.allowed.symm) stands.represents.refiredFired
          (stands.allowed ▸ reached ▸ early)
      rw [advanced]
      constructor
      · intro window early
        rw [(marks window early).1, recorded, marked.stored window (highest.trans_lt early)]
      · intro window early
        rw [(marks window early).2, marked.fired window (highest.trans_lt early),
          marked.stored window (highest.trans_lt early), hasFired_append]
        constructor
        · rintro (fired | ⟨held, closed⟩)
          · exact Or.inl fired
          · exact Or.inr ⟨control, rfl, kind, stands.watermark ▸ forward, closed, held⟩
        · rintro (fired | ⟨_, ⟨⟩, _, _, closed, held⟩)
          · exact Or.inl fired
          · exact Or.inr ⟨held, closed⟩

end Marked

/-! ## Counting -/

section Counting

open Classical in
/-- One for a record that is late for what came before it. -/
noncomputable def lateHere (late : Batch → Record → Prop) (past : Batch) (item : BatchItem) : Nat :=
  if ∃ record, item = .record record ∧ late past record then 1 else 0

/-- The records of a stream that are late for what came before them. -/
noncomputable def lateCount (late : Batch → Record → Prop) : (past : Batch) → Batch → Nat
  | _, [] => 0
  | past, item :: rest => lateHere late past item + lateCount late (past ++ [item]) rest

variable {late narrow wide : Batch → Record → Prop}

theorem lateHere_record {past : Batch} {record : Record} (counted : late past record) :
    lateHere late past (.record record) = 1 :=
  if_pos ⟨record, rfl, counted⟩

theorem lateHere_early {past : Batch} {record : Record} (uncounted : ¬ late past record) :
    lateHere late past (.record record) = 0 :=
  if_neg fun ⟨_, same, counted⟩ => uncounted (BatchItem.record.inj same ▸ counted)

theorem lateHere_control (past : Batch) (control : ControlRecord) :
    lateHere late past (.control control) = 0 :=
  if_neg fun ⟨_, same, _⟩ => nomatch same

theorem lateHere_congr {past other : Batch} {record : Record}
    (same : narrow past record ↔ wide other record) :
    lateHere narrow past (.record record) = lateHere wide other (.record record) := by
  by_cases counted : narrow past record
  · rw [lateHere_record counted, lateHere_record (same.mp counted)]
  · rw [lateHere_early counted, lateHere_early fun again => counted (same.mpr again)]

theorem lateCount_append (past items : Batch) (item : BatchItem) :
    lateCount late past (items ++ [item]) =
      lateCount late past items + lateHere late (past ++ items) item := by
  induction items generalizing past with
  | nil => simp [lateCount]
  | cons first rest inductionHypothesis =>
    rw [List.cons_append, lateCount, lateCount, inductionHypothesis, List.append_assoc,
      List.singleton_append, Nat.add_assoc]

/-- Records that are late by a narrow notion and by a wide one: counting one item. -/
theorem lateHere_le (implied : ∀ past record, narrow past record → wide past record)
    (past : Batch) (item : BatchItem) :
    lateHere narrow past item ≤ lateHere wide past item ∧
      (lateHere narrow past item = lateHere wide past item ↔
        ∀ record, item = .record record → wide past record → narrow past record) := by
  match item with
  | .control control =>
    rw [lateHere_control, lateHere_control]
    exact ⟨Nat.le_refl 0, by simp⟩
  | .record record =>
    by_cases inside : narrow past record
    · rw [lateHere_record inside, lateHere_record (implied past record inside)]
      refine ⟨Nat.le_refl 1, iff_of_true rfl ?_⟩
      rintro _ ⟨⟩ _
      exact inside
    · by_cases outside : wide past record
      · rw [lateHere_early inside, lateHere_record outside]
        refine ⟨Nat.zero_le 1, iff_of_false Nat.zero_ne_one ?_⟩
        exact fun agree => inside (agree record rfl outside)
      · rw [lateHere_early inside, lateHere_early outside]
        refine ⟨Nat.le_refl 0, iff_of_true rfl ?_⟩
        rintro _ ⟨⟩ counted
        exact absurd counted outside

/-- The counts of a narrow and of a wide notion are equal exactly when the two agree at
every record. -/
theorem lateCount_le (implied : ∀ past record, narrow past record → wide past record)
    (past items : Batch) :
    lateCount narrow past items ≤ lateCount wide past items ∧
      (lateCount narrow past items = lateCount wide past items ↔
        ∀ front record rest, items = front ++ .record record :: rest →
          wide (past ++ front) record → narrow (past ++ front) record) := by
  induction items generalizing past with
  | nil => simp [lateCount]
  | cons item rest inductionHypothesis =>
    obtain ⟨fewerHere, sameHere⟩ := lateHere_le implied past item
    obtain ⟨fewer, same⟩ := inductionHypothesis (past ++ [item])
    have split : lateHere narrow past item + lateCount narrow (past ++ [item]) rest =
          lateHere wide past item + lateCount wide (past ++ [item]) rest ↔
        lateHere narrow past item = lateHere wide past item ∧
          lateCount narrow (past ++ [item]) rest = lateCount wide (past ++ [item]) rest := by
      omega
    rw [lateCount, lateCount]
    refine ⟨Nat.add_le_add fewerHere fewer, ?_⟩
    rw [split, sameHere, same]
    constructor
    · rintro ⟨here, later⟩ front record rest parts
      cases front with
      | nil =>
        rw [List.nil_append, List.cons.injEq] at parts
        rw [List.append_nil]
        exact here record parts.1
      | cons first front =>
        rw [List.cons_append, List.cons.injEq] at parts
        obtain ⟨rfl, parts⟩ := parts
        have tail := later front record rest parts
        rwa [List.append_assoc, List.singleton_append] at tail
    · intro agree
      constructor
      · rintro record rfl
        have head := agree [] record rest rfl
        rwa [List.append_nil] at head
      · rintro front record later rfl
        rw [List.append_assoc, List.singleton_append]
        exact agree (item :: front) record later rfl

variable {n : Nat} [NeZero n]

/-- Counting in the share of a worker is counting the records of the worker. -/
theorem lateCount_routed (partition : Fin n) (past items : Batch) :
    lateCount late (routed partition past) (routed partition items) =
      lateCount (fun past record => partitionForKey record.key = partition ∧
        late (routed partition past) record) past items := by
  induction items generalizing past with
  | nil => rfl
  | cons item rest inductionHypothesis =>
    rw [lateCount, ← inductionHypothesis, ← List.singleton_append, routed_append, routed_append]
    match item with
    | .control control =>
      have kept : routed partition [.control control] = [.control control] := rfl
      rw [kept, List.singleton_append, lateCount, lateHere_control, lateHere_control]
    | .record record =>
      by_cases mine : partitionForKey record.key = partition
      · have kept : routed partition [.record record] = [.record record] := by simp [routed, mine]
        rw [kept, List.singleton_append, lateCount]
        congr 1
        apply lateHere_congr
        exact (and_iff_right mine).symm
      · have left : routed partition [.record record] = [] := by simp [routed, mine]
        rw [left, List.nil_append, List.append_nil, lateHere_early fun both => mine both.1,
          Nat.zero_add]

/-- The workers together count every record for the share of its own worker. -/
theorem sum_lateCount (late : Fin n → Batch → Record → Prop) (past items : Batch) :
    ((List.finRange n).map (fun partition => lateCount (fun past record =>
        partitionForKey record.key = partition ∧ late partition past record) past items)).sum =
      lateCount (fun past record => late (partitionForKey record.key) past record) past items := by
  rw [← Fin.sum_univ_def]
  induction items generalizing past with
  | nil => simp [lateCount]
  | cons item rest inductionHypothesis =>
    simp only [lateCount]
    rw [Finset.sum_add_distrib, inductionHypothesis]
    congr 1
    cases item with
    | control control => simp [lateHere_control]
    | record record =>
      have elsewhere (partition : Fin n) (other : partition ≠ partitionForKey record.key) :
          lateHere (fun past record => partitionForKey record.key = partition ∧
            late partition past record) past (.record record) = 0 :=
        lateHere_early fun both => other both.1.symm
      rw [Finset.sum_eq_single (partitionForKey record.key)
        (fun partition _ other => elsewhere partition other) (by simp)]
      apply lateHere_congr
      exact and_iff_right rfl

end Counting

/-! ## The counters of the engines -/

section Engines

variable {n : Nat} [NeZero n] {assigner : WindowAssigner} {lateness : Nat} {items : Batch}

/-- A processor counts the records that are accepted late in its stream. -/
theorem processItems_lateRecordsAccepted (checkpointing : Bool) (late : 0 < lateness)
    (domain : Assignable assigner items) (room : Representable assigner lateness items)
    {effects : List Effect} {processor : KeyedProcessor}
    (processed : (KeyedProcessor.create assigner lateness checkpointing).processItems items =
      .ok (effects, processor)) :
    Marked assigner lateness items processor ∧ Stands assigner lateness items processor ∧
      processor.stats.lateRecordsAccepted =
        lateCount (AcceptedLate assigner lateness) [] items := by
  induction items using List.reverseRecOn generalizing effects processor with
  | nil =>
    cases processed
    exact ⟨Marked.create assigner lateness checkpointing,
      Stands.create assigner lateness checkpointing, rfl⟩
  | append_singleton items item inductionHypothesis =>
    obtain ⟨earlier, middle, later, before, after, _⟩ := processItems_split processed
    obtain ⟨marked, stands, counted⟩ :=
      inductionHypothesis domain.dropLast room.dropLast before
    obtain ⟨more, final, one, advances⟩ := stands.item item domain room
    obtain ⟨rfl, rfl⟩ : later = more ++ [] ∧ processor = final := by
      simpa [KeyedProcessor.processItems, one, eq_comm] using after
    rw [lateCount_append, ← counted, List.nil_append]
    cases item with
    | control control =>
      have controlled : (more, processor) = middle.processControl control :=
        (Except.ok.inj one).symm
      have same : processor = (middle.processControl control).2 := congrArg Prod.snd controlled
      rw [lateHere_control]
      refine ⟨?_, advances.stands, ?_⟩
      · rw [same]
        exact marked.control stands late control
      · rw [same]
        exact middle.processControl_lateRecordsAccepted control
    | record record =>
      have applied : middle.processRecord record = .ok processor := by
        change (middle.processRecord record).map _ = _ at one
        cases result : middle.processRecord record with
        | error thrown =>
          rw [result] at one
          cases one
        | ok other =>
          rw [result] at one
          cases one
          rfl
      obtain ⟨grown, counts | counts⟩ := marked.record stands late applied
      · rw [lateHere_record counts.2]
        exact ⟨grown, advances.stands, counts.1⟩
      · rw [lateHere_early counts.2]
        exact ⟨grown, advances.stands, counts.1⟩

theorem highestWatermark_routed (partition : Fin n) (items : Batch) :
    highestWatermark (routed partition items) = highestWatermark items := by
  have same : watermarks (routed partition items) = watermarks items := by
    rw [watermarks, routed, List.filterMap_filter, watermarks]
    apply List.filterMap_congr
    intro item _
    cases item with
    | record record => exact ite_self none
    | control control => rfl
  rw [highestWatermark, same, highestWatermark]

/-- What has fired on a worker has fired in the whole stream. -/
theorem HasFired.of_routed {partition : Fin n} {window : Window}
    (fired : HasFired assigner (routed partition items) window) :
    HasFired assigner items window := by
  induction items using List.reverseRecOn with
  | nil => exact fired
  | append_singleton items item inductionHypothesis =>
    rw [routed_append] at fired
    match item with
    | .control control =>
      have kept : routed partition [.control control] = [.control control] := rfl
      rw [kept, hasFired_append, highestWatermark_routed, records_routed] at fired
      rw [hasFired_append]
      rcases fired with fired | ⟨other, own, isWatermark, forward, closed, record, member, assigned⟩
      · exact Or.inl (inductionHypothesis fired)
      · exact Or.inr ⟨other, own, isWatermark, forward, closed, record,
          List.mem_of_mem_filter member, assigned⟩
    | .record record =>
      rw [hasFired_record]
      by_cases mine : partitionForKey record.key = partition
      · have kept : routed partition [.record record] = [.record record] := by simp [routed, mine]
        rw [kept, hasFired_record] at fired
        exact inductionHypothesis fired
      · have left : routed partition [.record record] = [] := by simp [routed, mine]
        rw [left, List.append_nil] at fired
        exact inductionHypothesis fired

theorem AcceptedLate.of_routed {partition : Fin n} {record : Record}
    (accepted : AcceptedLate assigner lateness (routed partition items) record) :
    AcceptedLate assigner lateness items record := by
  obtain ⟨window, assigned, early, fired⟩ := accepted
  rw [highestWatermark_routed] at early
  exact ⟨window, assigned, early, fired.of_routed⟩

/-- Every record that is accepted late into a window that has fired is accepted into one
that has fired for a record of the same worker. This is a condition on the stream, the
windows and the assignment of keys to workers. -/
def FiresWithOwnKeys (n : Nat) [NeZero n] (assigner : WindowAssigner) (lateness : Nat)
    (items : Batch) : Prop :=
  ∀ past record rest, items = past ++ .record record :: rest →
    AcceptedLate assigner lateness past record →
    AcceptedLate assigner lateness (routed (partitionForKey record.key : Fin n) past) record

/-- The sum of the workers' counts equals the count of the whole stream exactly under
the condition. -/
theorem sum_lateRecordsAccepted_iff :
    ((List.finRange n).map (fun partition =>
        lateCount (AcceptedLate assigner lateness) [] (routed partition items))).sum =
      lateCount (AcceptedLate assigner lateness) [] items ↔
        FiresWithOwnKeys n assigner lateness items := by
  have shares (partition : Fin n) :
      lateCount (AcceptedLate assigner lateness) [] (routed partition items) =
        lateCount (fun past record => partitionForKey record.key = partition ∧
          AcceptedLate assigner lateness (routed partition past) record) [] items :=
    lateCount_routed partition [] items
  simp only [shares]
  rw [sum_lateCount (fun partition past record =>
    AcceptedLate assigner lateness (routed partition past) record)]
  exact (lateCount_le (fun _ _ => AcceptedLate.of_routed) [] items).2

end Engines

namespace PartitionedPipeline

variable {n : Nat} [NeZero n] {σ : Type} [Source σ] {τ : Type} [Source τ]

/-- The runs of both engines on a stream, with their counts of records accepted late. -/
theorem lateRecordsAccepted_of_runs (config : PartitionedConfig)
    (capacity : 0 < config.queueCapacity) (late : 0 < config.allowedLateness) {source : σ}
    {batches : List Batch} (delivers : Source.Delivers source batches) {single : τ}
    {singleBatches : List Batch} (singleDelivers : Source.Delivers single singleBatches)
    (sameStream : singleBatches.flatten = batches.flatten) (checkpointing : Bool)
    (domain : Assignable config.assigner batches.flatten)
    (room : Representable config.assigner config.allowedLateness batches.flatten)
    {fuel : Nat} (enough : singleBatches.length < fuel) :
    let begin : PartitionedPipeline n σ := start config source (fun _ => ∅) {}
    ∃ pipeline, Pipeline.run fuel single config.assigner config.allowedLateness checkpointing =
        .ok pipeline ∧
      pipeline.processor.stats.lateRecordsAccepted =
        lateCount (AcceptedLate config.assigner config.allowedLateness) [] batches.flatten ∧
      (∀ final, Reaches begin final → final.finished = true →
        final.stats Stats.lateRecordsAccepted = ((List.finRange n).map (fun partition =>
          lateCount (AcceptedLate config.assigner config.allowedLateness) []
            (routed partition batches.flatten))).sum) ∧
      ∃ final, Reaches begin final ∧ final.finished = true := by
  intro begin
  obtain ⟨fresh, created⟩ := start_fresh config source ({} : SinkLog n)
  have flowing := start_flowing config source (fun _ : Fin n => ∅) {} (fresh ▸ delivers)
  simp only [created] at flowing
  have shares (partition : Fin n) := processItems_tracks config.checkpointing
    (assignable_routed domain partition) (representable_routed room partition)
  have whole (partition : Fin n) : ∃ result,
      (KeyedProcessor.create config.assigner config.allowedLateness
        config.checkpointing).processItems (routed partition batches.flatten) = .ok result := by
    obtain ⟨effects, last, processed, _⟩ := shares partition
    exact ⟨_, processed⟩
  obtain ⟨effects, processor, processed, _⟩ := processItems_tracks checkpointing domain room
  obtain ⟨_, _, counted⟩ :=
    processItems_lateRecordsAccepted checkpointing late domain room processed
  rw [← sameStream] at processed
  obtain ⟨pipeline, ran, last, _⟩ := Pipeline.runLoop_eq singleDelivers processed enough []
  refine ⟨pipeline, ran, ?_, ?_, ?_⟩
  · rw [last, KeyedProcessor.finalFlush_lateRecordsAccepted, counted]
  · intro final reached finished
    obtain ⟨_, _, _, here⟩ := flowing.reaches whole reached
    have each (partition : Fin n) :
        (final.workers partition).processor.stats.lateRecordsAccepted =
          lateCount (AcceptedLate config.assigner config.allowedLateness) []
            (routed partition batches.flatten) := by
      obtain ⟨_, last, processed, same, _⟩ := here.finished_worker finished partition
      rw [same, KeyedProcessor.finalFlush_lateRecordsAccepted]
      exact (processItems_lateRecordsAccepted config.checkpointing late
        (assignable_routed domain partition) (representable_routed room partition)
        processed).2.2
    simp only [stats, each]
  · refine exists_finished (flowing.terminates whole) ?_
    intro state reached unfinished
    obtain ⟨_, _, _, here⟩ := flowing.reaches whole reached
    refine here.not_stuck ((Exclusive.start config source (fun _ => ∅) {}).reaches reached) ?_
      unfinished
    rw [reached.config]
    exact capacity

/-- The workers together report the late records of the single-threaded engine exactly
when the windows of the stream fire with their own keys. For every stream in the domain
without overflow, in any batches, both engines finish, and the condition decides whether
their totals agree, however the threads interleave. -/
theorem late_accepted_totals_agree_iff (config : PartitionedConfig)
    (capacity : 0 < config.queueCapacity) (late : 0 < config.allowedLateness) (source : σ)
    (batches : List Batch) (delivers : Source.Delivers source batches) (single : τ)
    (singleBatches : List Batch) (singleDelivers : Source.Delivers single singleBatches)
    (sameStream : singleBatches.flatten = batches.flatten) (checkpointing : Bool)
    (domain : Assignable config.assigner batches.flatten)
    (room : Representable config.assigner config.allowedLateness batches.flatten)
    (fuel : Nat) (enough : singleBatches.length < fuel) :
    let begin : PartitionedPipeline n σ := start config source (fun _ => ∅) {}
    ∃ pipeline, Pipeline.run fuel single config.assigner config.allowedLateness checkpointing =
        .ok pipeline ∧
      (∃ final, Reaches begin final ∧ final.finished = true) ∧
      ∀ final, Reaches begin final → final.finished = true →
        (final.stats Stats.lateRecordsAccepted = pipeline.processor.stats.lateRecordsAccepted ↔
          FiresWithOwnKeys n config.assigner config.allowedLateness batches.flatten) := by
  obtain ⟨pipeline, ran, counted, totals, finishes⟩ := lateRecordsAccepted_of_runs (n := n) config
    capacity late delivers singleDelivers sameStream checkpointing domain room enough
  refine ⟨pipeline, ran, finishes, ?_⟩
  intro final reached finished
  rw [totals final reached finished, counted]
  exact sum_lateRecordsAccepted_iff

end PartitionedPipeline

/-- The condition holds for a stream whose records all go to one worker. -/
theorem firesWithOwnKeys_of_one_worker {n : Nat} [NeZero n] {assigner : WindowAssigner}
    {lateness : Nat} {items : Batch} (partition : Fin n)
    (one : ∀ record ∈ records items, partitionForKey record.key = partition) :
    FiresWithOwnKeys n assigner lateness items := by
  rintro past record rest rfl accepted
  have own : partitionForKey record.key = partition := by
    apply one
    rw [← List.singleton_append, records_append, records_append]
    simp
  have all : routed partition past = past := by
    apply List.filter_eq_self.mpr
    intro item member
    match item with
    | .control control => rfl
    | .record data =>
      apply decide_eq_true
      apply one
      rw [records_append]
      exact List.mem_append_left _ (List.mem_filterMap.mpr ⟨_, member, rfl⟩)
  rw [own, all]
  exact accepted

namespace PartitionedPipeline

/-- The late stream has one key: some run on two workers finishes and counts its late
record. -/
theorem lateStream_counted :
    ∃ pipeline, Pipeline.run 2 undivided tenMs.assignWindows 5 true = .ok pipeline ∧
      ∃ final : PartitionedPipeline 2 ScriptedSource,
        Reaches (start narrow halved (fun _ => ∅) {}) final ∧ final.finished = true ∧
        final.stats Stats.lateRecordsAccepted =
          pipeline.processor.stats.lateRecordsAccepted := by
  obtain ⟨pipeline, ran, ⟨final, reached, finished⟩, agree⟩ := late_accepted_totals_agree_iff
    (n := 2) narrow (by decide) (by decide) halved halved.script (ScriptedSource.delivers halved)
    undivided undivided.script (ScriptedSource.delivers undivided) (by decide +kernel) true
    (assignable_of_all (by decide +kernel))
    (representable_of_magnitude (by decide +kernel) (by decide +kernel)) 2 (by decide)
  refine ⟨pipeline, ran, final, reached, finished, (agree final reached finished).mpr ?_⟩
  exact firesWithOwnKeys_of_one_worker (partitionForKey [107]) (by decide +kernel)

/-- A record of the key `a`, a watermark at the end of its window, and a late record of
the key `b` in the same window. -/
def twoKeys : ScriptedSource where
  script := [[sample 97, watermarkItem (.ofMs 10) 1, sample 98]]
where
  sample (key : UInt8) : BatchItem :=
    .record { key := [key], value := 1, eventTime := .ofMs 5, processingTime := .ofMs 5 }

/-- The window fires with the key of another worker only. -/
theorem twoKeys_not_fired_with_own :
    ¬ FiresWithOwnKeys 2 tenMs.assignWindows 5 twoKeys.script.flatten := by
  intro own
  have assigned : Assigned tenMs.assignWindows
      { key := [98], value := 1, eventTime := .ofMs 5, processingTime := .ofMs 5 }
      (windowAt 0 10) := ⟨[windowAt 0 10], rfl, List.mem_singleton_self _⟩
  obtain ⟨window, _, _, front, control, rest, split, _, _, _, record, member, _⟩ :=
    own [twoKeys.sample 97, watermarkItem (.ofMs 10) 1] _ [] rfl
      ⟨windowAt 0 10, assigned, by decide +kernel,
        [twoKeys.sample 97], _, [], rfl, rfl, by decide +kernel, by decide +kernel,
        _, List.mem_singleton_self _, assigned⟩
  have none : records (routed (partitionForKey [98] : Fin 2)
      [twoKeys.sample 97, watermarkItem (.ofMs 10) 1]) = [] := by decide +kernel
  have inside : record ∈ records (routed (partitionForKey [98] : Fin 2)
      [twoKeys.sample 97, watermarkItem (.ofMs 10) 1]) := by
    rw [split, records_append]
    exact List.mem_append_left _ member
  rw [none] at inside
  cases inside

/-- Both engines finish on the two keys, and two workers do not count the late record
that the single-threaded engine counts. -/
theorem twoKeys_counts_differ :
    ∃ pipeline, Pipeline.run 2 twoKeys tenMs.assignWindows 5 false = .ok pipeline ∧
      (∃ final : PartitionedPipeline 2 ScriptedSource,
        Reaches (start narrow twoKeys (fun _ => ∅) {}) final ∧ final.finished = true) ∧
      ∀ final : PartitionedPipeline 2 ScriptedSource,
        Reaches (start narrow twoKeys (fun _ => ∅) {}) final → final.finished = true →
        final.stats Stats.lateRecordsAccepted ≠
          pipeline.processor.stats.lateRecordsAccepted := by
  obtain ⟨pipeline, ran, counted, totals, finishes⟩ := lateRecordsAccepted_of_runs (n := 2)
    narrow (by decide) (by decide) (ScriptedSource.delivers twoKeys)
    (ScriptedSource.delivers twoKeys) rfl false
    (assignable_of_all (by decide +kernel))
    (representable_of_magnitude (by decide +kernel) (by decide +kernel))
    (show twoKeys.remaining.length < 2 by decide)
  refine ⟨pipeline, ran, finishes, ?_⟩
  intro final reached finished same
  rw [totals final reached finished, counted] at same
  exact twoKeys_not_fired_with_own (sum_lateRecordsAccepted_iff.mp same)

end PartitionedPipeline

end Stormglass
