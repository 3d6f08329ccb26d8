import Stormglass.WindowEngine
import Stormglass.WindowGeometry

/-!
# Streams without late records

In a stream on time, no record is older than the watermarks before it. Every window of a
record then ends after the current watermark, so nothing is refused, no fired window takes
another record, and no window fires twice, whatever lateness is allowed. Each key and window
is reported exactly once, with all its records.
-/

namespace Stormglass

open KeyedWindowState

/-- No record is older than a watermark before it. -/
def OnTime (items : Batch) : Prop :=
  ∀ before record, before ++ [.record record] <+: items → highestWatermark before ≤ record.eventTime

/-- The windows of a time end after it. -/
def Covers (assigner : WindowAssigner) : Prop :=
  ∀ time windows, assigner time = .ok windows → ∀ window ∈ windows, time < window.close

/-- The values of all records of a key and window, in order. -/
def contributions (assigner : WindowAssigner) (key : Bytes) (window : Window) (items : Batch) :
    List Int :=
  (records items).flatMap (contribution assigner key window)

theorem Exactly.lt_close {size slide : Int} {time : Timestamp} {windows : List Window}
    (exactly : Exactly size slide time.ms windows) (bounded : time.ms ≤ 2 ^ 63 - 1 - size)
    {window : Window} (member : window ∈ windows) : time < window.close := by
  obtain ⟨start, ⟨_, lower, below, above⟩, rfl⟩ := (exactly.members window).mp member
  rw [Timestamp.lt_iff]
  change time.ms < (Timestamp.ofMs (start + size)).ms
  rw [Timestamp.ofMs_ms (by omega) (by omega)]
  omega

theorem TumblingAssigner.covers (assigner : TumblingAssigner) : Covers assigner.assignWindows := by
  intro time windows assigned window member
  obtain ⟨_, bounded, exactly⟩ := assigner.assignWindows_exactly assigned
  exact exactly.lt_close bounded member

theorem SlidingAssigner.covers (assigner : SlidingAssigner) : Covers assigner.assignWindows := by
  intro time windows assigned window member
  obtain ⟨_, bounded, exactly⟩ := assigner.assignWindows_exactly assigned
  exact exactly.lt_close bounded member

/-- A record contributes at most once to each window. -/
theorem Exactly.contribution_length {size slide : Int} {assigner : WindowAssigner}
    {record : Record} (exactly : ∀ windows, assigner record.eventTime = .ok windows →
      Exactly size slide record.eventTime.ms windows) (key : Bytes) (window : Window) :
    (contribution assigner key window record).length ≤ 1 := by
  rw [contribution]
  split
  · split
    · next windows assigned =>
      have once := List.nodup_iff_count_le_one.mp (exactly windows assigned).nodup window
      rw [List.count_eq_length_filter] at once
      rw [List.length_map]
      exact once
    · exact Nat.zero_le 1
  · exact Nat.zero_le 1

section Accounts

variable {assigner : WindowAssigner} {lateness : Nat} {items : Batch}

theorem OnTime.dropLast {item : BatchItem} (onTime : OnTime (items ++ [item])) : OnTime items :=
  fun before record starts => onTime before record (starts.trans (List.prefix_append _ _))

theorem account_frontier (items : Batch) (key : Bytes) (window : Window) :
    (account assigner lateness items key window).frontier = highestWatermark items := by
  induction items using List.reverseRecOn with
  | nil => rfl
  | append_singleton items item inductionHypothesis =>
    rw [account_append, highestWatermark_append]
    match item with
    | .record record =>
      have still : highestWatermark [.record record] = ⊥ := rfl
      change (Ledger.receive _ _ _).frontier = _
      rw [still, max_bot_right, ← inductionHypothesis, Ledger.receive]
      split <;> rfl
    | .control { type := .watermark, watermark, checkpointOffset } =>
      have moved : highestWatermark [.control
          { type := .watermark, watermark, checkpointOffset }] = watermark := by
        simp [highestWatermark, watermarks, BatchItem.watermark?]
      change (Ledger.advance _ watermark _).frontier = _
      rw [moved, Ledger.advance, inductionHypothesis]
      split_ifs with forward closed
      · rw [Ledger.publish_frontier, max_eq_right forward.le]
      · rw [max_eq_right forward.le]
      · rw [inductionHypothesis, max_eq_left (not_lt.mp forward)]
    | .control { type := .checkpointBarrier, watermark, checkpointOffset } =>
      have still : highestWatermark [.control
          { type := .checkpointBarrier, watermark, checkpointOffset }] = ⊥ := rfl
      change (Ledger.receive _ [] _).frontier = _
      rw [still, max_bot_right, ← inductionHypothesis, Ledger.receive]
      split <;> rfl

/-- A record on time that contributes to a window finds it open. -/
theorem open_of_contribution (covers : Covers assigner) {record : Record}
    (onTime : OnTime (items ++ [.record record])) {key : Bytes} {window : Window}
    (contributes : contribution assigner key window record ≠ []) :
    highestWatermark items < window.close := by
  have time := onTime items record List.prefix_rfl
  rw [contribution] at contributes
  by_cases own : record.key = key
  · cases assigned : assigner record.eventTime with
    | error failure => simp [own, assigned] at contributes
    | ok windows =>
      have member : window ∈ windows := by simpa [own, assigned] using contributes
      exact lt_of_le_of_lt time (covers _ _ assigned window member)
  · exact absurd (if_neg own) contributes

/-- On time, an account accepts everything and publishes at most once. -/
theorem account_onTime (lateness : Nat) (covers : Covers assigner) (onTime : OnTime items)
    (key : Bytes) (window : Window) :
    (account assigner lateness items key window).accepted =
        contributions assigner key window items ∧
      (account assigner lateness items key window).Single := by
  induction items using List.reverseRecOn with
  | nil => exact ⟨rfl, .inl rfl⟩
  | append_singleton items item inductionHypothesis =>
    obtain ⟨accepted, single⟩ := inductionHypothesis onTime.dropLast
    have kept : Ledger.Kept window.close (window.deadline lateness)
        (account assigner lateness items key window) :=
      Ledger.run_kept (window.close_le_deadline lateness) ⊥ _
    have more : contributions assigner key window (items ++ [item]) =
        contributions assigner key window items ++ contributions assigner key window [item] := by
      rw [contributions, records_append, List.flatMap_append]
      rfl
    rw [account_append, more, ← accepted]
    match item with
    | .record record =>
      have own : contributions assigner key window [.record record] =
          contribution assigner key window record := by
        simp [contributions, records, BatchItem.record?]
      change (Ledger.receive _ (contribution assigner key window record) _).accepted = _ ∧
        (Ledger.receive _ (contribution assigner key window record) _).Single
      rw [own]
      have early (contributes : contribution assigner key window record ≠ []) :
          (account assigner lateness items key window).frontier < window.close := by
        rw [account_frontier]
        exact open_of_contribution covers onTime contributes
      refine ⟨?_, single.receive_open kept early⟩
      by_cases none : contribution assigner key window record = []
      · rw [none, Ledger.receive_nil, List.append_nil]
      · rw [Ledger.receive, if_pos ((early none).trans_le (window.close_le_deadline lateness))]
    | .control { type := .watermark, watermark, checkpointOffset } =>
      have nothing : contributions assigner key window [.control
          { type := .watermark, watermark, checkpointOffset }] = [] := rfl
      rw [nothing, List.append_nil]
      refine ⟨?_, single.advance window.close watermark⟩
      change (Ledger.advance _ watermark _).accepted = _
      unfold Ledger.advance
      split_ifs <;> simp
    | .control { type := .checkpointBarrier, watermark, checkpointOffset } =>
      have nothing : contributions assigner key window [.control
          { type := .checkpointBarrier, watermark, checkpointOffset }] = [] := rfl
      change (Ledger.receive _ [] _).accepted = _ ∧ (Ledger.receive _ [] _).Single
      rw [nothing, List.append_nil, Ledger.receive_nil]
      exact ⟨rfl, single⟩

end Accounts

/-- No window waits for a re-fire, and a window that has published before its deadline is
marked as fired. -/
structure Calm (lateness : Nat) (now : Timestamp) (accounts : Accounts)
    (state : KeyedWindowState) : Prop where
  unmarked : ∀ window, ¬ state.IsRefired window
  marked : ∀ key window, (accounts key window).published ≠ [] → now < window.deadline lateness →
    state.IsFired window

section Calm

variable {lateness : Nat} {now time : Timestamp} {accounts : Accounts} {state : KeyedWindowState}

/-- A firing round repeats nothing while the state is calm. -/
theorem Calm.repeats_nothing (calm : Calm lateness now accounts state) {key : Bytes}
    {window : Window}
    (chosen : state.IsRefired window ∨ (¬ state.IsFired window ∧ window ∈ state.windows))
    (published : (accounts key window).published ≠ []) (early : now < window.deadline lateness) :
    False := by
  rcases chosen with again | ⟨unfired, _⟩
  · exact calm.unmarked window again
  · exact unfired (calm.marked key window published early)

/-- A value for a window that has not fired changes no mark. -/
theorem addWithLateness_marks {key : Bytes} {window : Window} {value : Int} {accepted : Bool}
    {after : KeyedWindowState} (unfired : ¬ state.IsFired window)
    (added : state.addWithLateness key window value now = .ok (accepted, after)) :
    after.firedWindows = state.firedWindows ∧ after.refiredWindows = state.refiredWindows := by
  rw [addWithLateness] at added
  split at added
  · cases added
    exact ⟨rfl, rfl⟩
  · rw [addPane] at added
    cases sum : (state.paneOrNew key window).add value with
    | error failure => simp [sum] at added
    | ok pane =>
      have same : ¬ (state.setPane key window pane).IsFired window := unfired
      simp only [sum, if_neg same] at added
      cases added
      exact ⟨rfl, rfl⟩

/-- The loop over windows that have not fired changes no mark. -/
theorem addToWindows_marks (record : Record) (useLateness : Bool) (windows : List Window)
    {anyDropped anyLateAccepted : Bool} {after : KeyedWindowState} {flags : Bool × Bool}
    (unfired : ∀ window ∈ windows, ¬ state.IsFired window)
    (looped : KeyedProcessor.addToWindows record now useLateness windows state anyDropped
      anyLateAccepted = .ok (after, flags)) :
    after.firedWindows = state.firedWindows ∧ after.refiredWindows = state.refiredWindows := by
  induction windows generalizing state anyDropped anyLateAccepted with
  | nil =>
    cases looped
    exact ⟨rfl, rfl⟩
  | cons window rest inductionHypothesis =>
    rw [KeyedProcessor.addToWindows] at looped
    cases one : state.addWithLateness record.key window record.value now with
    | error thrown => simp [one] at looped
    | ok step =>
      obtain ⟨accepted, middle⟩ := step
      obtain ⟨fired, refired⟩ := addWithLateness_marks (unfired window (by simp)) one
      simp only [one] at looped
      rw [← fired, ← refired]
      refine inductionHypothesis ?_ looped
      intro other member
      rw [IsFired, fired]
      exact unfired other (List.mem_cons_of_mem _ member)

/-- An advance leaves a calm state. -/
theorem advanceTo_calm {processor : KeyedProcessor}
    (represents : Represents lateness now accounts processor.state)
    (allowed : processor.allowedLateness = lateness) (forward : now < time) :
    Calm lateness time (Represents.advanced accounts time) (processor.advanceTo time).2.state := by
  have moved := KeyedProcessor.advanceTo_represents represents allowed forward
  rcases Nat.eq_zero_or_pos lateness with strict | late
  · constructor
    · intro window again
      have positive := (moved.firedClosed window (moved.refiredFired window again)).2
      omega
    · intro key window published early
      have positive := moved.late_of_published published early
      omega
  · obtain ⟨first, again, rounds, after⟩ := KeyedProcessor.advanceTo_late time (allowed.symm ▸ late)
    have collected := garbageCollect_spec (again.clearRefired.garbageCollectableWindows time)
      again.clearRefired
    have grace : processor.state.allowedLateness ≠ 0 := by
      rw [represents.allowed]
      omega
    rw [after]
    constructor
    · intro window refired
      have kept := ((collected.refired window).mp refired).1
      simp [IsRefired, clearRefired] at kept
    · intro key window published early
      have closed := (moved.kept key window).closed published
      rw [represents.advanced_frontier forward] at closed
      have nonempty : (accounts key window).accepted ≠ [] := by
        obtain ⟨publication, member⟩ := List.exists_mem_of_ne_nil _ published
        have covered := (moved.kept key window).covered publication member
        rw [Represents.advanced_accepted] at covered
        intro empty
        rw [empty, List.prefix_nil] at covered
        exact (moved.kept key window).nonempty publication member covered
      have found : processor.state.pane key window =
          some (Pane.holding (accounts key window).accepted) := by
        rw [represents.pane, if_pos ⟨nonempty, forward.trans early⟩]
      have stored := mem_of_pane found
      have fired : again.IsFired window := by
        rw [rounds.refired.fired, rounds.expired.fired, mem_expiredWindows]
        by_cases before : processor.state.IsFired window
        · exact Or.inl (Or.inl before)
        · exact Or.inl (Or.inr ⟨grace, ⟨stored, closed, before⟩, stored⟩)
      rw [collected.fired]
      refine ⟨fired, ?_⟩
      rw [mem_garbageCollectableWindows]
      rintro ⟨_, passed⟩
      rw [show again.clearRefired.allowedLateness = lateness from
        rounds.refired.lateness.trans (rounds.expired.lateness.trans represents.allowed)] at passed
      exact absurd early (not_lt.mpr passed)

end Calm

/-- A processor that has consumed a stream on time: it is calm, and its emissions are exactly
the publications. -/
structure TracksExactly (assigner : WindowAssigner) (lateness : Nat) (items : Batch)
    (emitted : List WindowResult) (processor : KeyedProcessor) : Prop
    extends Tracks assigner lateness items emitted processor where
  calm : Calm lateness processor.watermark (account assigner lateness items) processor.state
  exactly : ∀ key window, resultsFor key window emitted =
    publishedResults (account assigner lateness items key window)

section Runs

variable {assigner : WindowAssigner} {lateness : Nat} {items : Batch}
  {emitted : List WindowResult} {processor after : KeyedProcessor}

theorem TracksExactly.create (assigner : WindowAssigner) (lateness : Nat) (checkpointing : Bool) :
    TracksExactly assigner lateness [] [] (.create assigner lateness checkpointing) := by
  refine ⟨Tracks.create assigner lateness checkpointing, ?_, fun _ _ => rfl⟩
  constructor
  · intro window again
    simp [KeyedProcessor.create, IsRefired] at again
  · intro key window published
    exact absurd rfl published

/-- A record on time changes no mark. -/
theorem Stands.record_calm (stands : Stands assigner lateness items processor)
    (calm : Calm lateness processor.watermark (account assigner lateness items) processor.state)
    (covers : Covers assigner) {record : Record} (onTime : OnTime (items ++ [.record record]))
    (processed : processor.processRecord record = .ok after) :
    Calm lateness after.watermark (account assigner lateness (items ++ [.record record]))
      after.state := by
  rw [KeyedProcessor.processRecord, stands.assigns] at processed
  cases assigned : assigner record.eventTime with
  | error failure => simp [assigned] at processed
  | ok windows =>
    cases looped : KeyedProcessor.addToWindows record processor.watermark
        (decide (0 < processor.allowedLateness)) windows processor.state false false with
    | error thrown => simp [assigned, looped] at processed
    | ok outcome =>
      simp only [assigned, looped] at processed
      cases processed
      have unfired : ∀ window ∈ windows, ¬ processor.state.IsFired window := by
        intro window member fired
        have closed := (stands.represents.firedClosed window fired).1
        have time := onTime items record List.prefix_rfl
        rw [← stands.watermark] at time
        exact absurd (covers _ _ assigned window member) (not_lt.mpr (closed.trans time))
      obtain ⟨fired, refired⟩ := addToWindows_marks record _ windows unfired looped
      constructor
      · intro window again
        rw [IsRefired, refired] at again
        exact calm.unmarked window again
      · intro key window published early
        rw [account_append] at published
        change (Ledger.receive _ (contribution assigner key window record) _).published ≠ []
          at published
        rw [Ledger.receive_published] at published
        rw [IsFired, fired]
        exact calm.marked key window published early

/-- A watermark reports what its advance publishes, and nothing twice. -/
theorem Stands.watermark_calm (stands : Stands assigner lateness items processor)
    (calm : Calm lateness processor.watermark (account assigner lateness items) processor.state)
    (watermark : Timestamp) (offset : Nat) {effects : List Effect}
    (processed : processor.processControl
      { type := .watermark, watermark := watermark, checkpointOffset := offset } =
        (effects, after)) :
    Calm lateness after.watermark
        (account assigner lateness (items ++ [watermarkItem watermark offset])) after.state ∧
      ∀ key window, Reports False (account assigner lateness items key window)
        (account assigner lateness (items ++ [watermarkItem watermark offset]) key window)
        (resultsFor key window (emissions effects)) := by
  rw [account_watermark]
  rw [KeyedProcessor.processControl] at processed
  dsimp only at processed
  split at processed
  · next forward =>
    cases processed
    obtain ⟨_, _, arrived, _, _⟩ := Stands.advanceTo_counters processor watermark
    rw [arrived, emissions_map_emit]
    constructor
    · exact advanceTo_calm stands.represents stands.allowed forward
    · intro key window
      exact KeyedProcessor.advanceTo_reports_of stands.represents stands.allowed forward key window
        calm.repeats_nothing
  · next behind =>
    cases processed
    rw [stands.account_still behind]
    exact ⟨calm, fun _ _ => .silent rfl⟩

/-- One more item of a stream on time is processed, and the output stays exact. -/
theorem TracksExactly.item (tracks : TracksExactly assigner lateness items emitted processor)
    (covers : Covers assigner) (item : BatchItem) (onTime : OnTime (items ++ [item]))
    (domain : Assignable assigner (items ++ [item]))
    (room : Representable assigner lateness (items ++ [item])) :
    ∃ effects after, processor.processItem item = .ok (effects, after) ∧
      TracksExactly assigner lateness (items ++ [item]) (emitted ++ emissions effects) after := by
  obtain ⟨effects, after, processed, advances⟩ := tracks.toStands.item item domain room
  refine ⟨effects, after, processed, ?_⟩
  have step : Calm lateness after.watermark (account assigner lateness (items ++ [item]))
      after.state ∧ ∀ key window, Reports False (account assigner lateness items key window)
        (account assigner lateness (items ++ [item]) key window)
        (resultsFor key window (emissions effects)) := by
    match item with
    | .record record =>
      rw [KeyedProcessor.processItem] at processed
      cases one : processor.processRecord record with
      | error thrown => simp [one, Except.map] at processed
      | ok next =>
        simp only [one, Except.map] at processed
        cases processed
        refine ⟨tracks.toStands.record_calm tracks.calm covers onTime one, ?_⟩
        intro key window
        apply Reports.silent
        rw [account_append]
        exact Ledger.receive_published _ _ _
    | .control { type := .watermark, watermark, checkpointOffset } =>
      exact tracks.toStands.watermark_calm tracks.calm watermark checkpointOffset
        (Except.ok.inj processed)
    | .control { type := .checkpointBarrier, watermark, checkpointOffset } =>
      rw [account_barrier]
      have outcome := Except.ok.inj processed
      rw [KeyedProcessor.processControl] at outcome
      dsimp only at outcome
      split at outcome <;> cases outcome <;> exact ⟨tracks.calm, fun _ _ => .silent rfl⟩
  refine ⟨tracks.toTracks.advance advances, step.1, ?_⟩
  intro key window
  rw [resultsFor_append]
  exact (step.2 key window).exact (tracks.exactly key window)

/-- A stream on time loses no record. -/
theorem lateRecords_onTime (covers : Covers assigner) (onTime : OnTime items) :
    lateRecords assigner lateness ⊥ items = [] := by
  induction items using List.reverseRecOn with
  | nil => rfl
  | append_singleton items item inductionHypothesis =>
    rw [lateRecords_append, inductionHypothesis onTime.dropLast, bot_sup_eq, List.nil_append]
    cases item with
    | control control => rfl
    | record record =>
      have time := onTime items record List.prefix_rfl
      have early : IsLate assigner lateness (highestWatermark items) record = false := by
        rw [IsLate]
        split
        · next windows assigned =>
          rw [List.any_eq_false]
          intro window member
          have ends := covers _ _ assigned window member
          rw [decide_eq_true_eq, not_le]
          exact (lt_of_le_of_lt time ends).trans_le (window.close_le_deadline lateness)
        · rfl
      simp [BatchItem.record?, early]

/-- The result of values that share a key and window, if there are any: their sum and count. -/
def expectedResults (values : List Int) : List AggregateResult :=
  if values = [] then [] else [{ value := values.sum, count := values.length }]

/-- The order of the values does not matter. -/
theorem expectedResults_perm {first second : List Int} (perm : first.Perm second) :
    expectedResults first = expectedResults second := by
  have empty : first = [] ↔ second = [] := by
    rw [← List.length_eq_zero_iff, perm.length_eq, List.length_eq_zero_iff]
  simp only [expectedResults, empty, perm.sum_eq, perm.length_eq]

/-- After the final flush, a stream on time has the result of each key and window once. -/
theorem TracksExactly.flush {effects : List Effect}
    (tracks : TracksExactly assigner lateness items (emissions effects) processor)
    (covers : Covers assigner) (onTime : OnTime items) (key : Bytes) (window : Window) :
    resultsFor key window (emissions (effects ++ processor.finalFlush.1)) =
      expectedResults (contributions assigner key window items) := by
  obtain ⟨accepted, single⟩ := account_onTime lateness covers onTime key window
  have reports := KeyedProcessor.finalFlush_reports_of tracks.represents tracks.allowed key window
    tracks.calm.repeats_nothing
  have settled := (tracks.represents.kept key window).publish_settled
  rw [emissions_append, resultsFor_append, reports.exact (tracks.exactly key window),
    expectedResults, ← accepted]
  rcases single.publish with none | one
  · have empty : (account assigner lateness items key window).accepted = [] := by
      rw [← settled, Ledger.settled, none]
      rfl
    rw [publishedResults, none, if_pos empty]
    rfl
  · rw [Ledger.publish_accepted] at one
    have nonempty := (tracks.represents.kept key window).toCovered.publish.nonempty
    rw [one] at nonempty
    rw [publishedResults, one, if_neg (nonempty _ (by simp))]
    rfl

end Runs

end Stormglass
