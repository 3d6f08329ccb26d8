import Stormglass.WindowAccounts

/-!
# Online correctness of the window engine

`account` is the specification of a key and a window for a finite stream: the ledger
that receives the record's value for each of its assigned windows and moves with the
watermarks. `Stands` says that a processor represents the accounts of a stream, and
`Advances` what one more item does to it. `Tracks` adds the output: the emissions of
a processor that has consumed the whole stream echo the publications.

From it follow the results of the module: after every advancing watermark the latest
result of each closed window is the sum and count of everything accepted so far, the
final flush leaves no account behind, and without lateness each account is reported
exactly once.
-/

namespace Stormglass

/-- The contributions of a record to one key and window. -/
def contribution (assigner : WindowAssigner) (key : Bytes) (window : Window) (record : Record) :
    List Int :=
  if record.key = key then
    match assigner record.eventTime with
    | .ok windows => (windows.filter (· = window)).map (fun _ => record.value)
    | .error _ => []
  else []

/-- What an item means to the account of one key and window. -/
def accountEvent (assigner : WindowAssigner) (key : Bytes) (window : Window) :
    BatchItem → Ledger.Event Timestamp Int
  | .record record => .receive (contribution assigner key window record)
  | .control { type := .watermark, watermark, .. } => .advance watermark
  | .control { type := .checkpointBarrier, .. } => .receive []

/-- The accounts of a finite stream. -/
def account (assigner : WindowAssigner) (lateness : Nat) (items : Batch) : Accounts :=
  fun key window => Ledger.run window.close (window.deadline lateness) ⊥
    (items.map (accountEvent assigner key window))

/-- Every record of the stream lies in the assigner's domain. -/
def Assignable (assigner : WindowAssigner) (items : Batch) : Prop :=
  ∀ record ∈ records items, ∃ windows, assigner record.eventTime = .ok windows

/-- No pane of the stream overflows. -/
def Representable (assigner : WindowAssigner) (lateness : Nat) (items : Batch) : Prop :=
  ∀ key window, Pane.Holds (account assigner lateness items key window).accepted

/-- Some window of the record is past its deadline. -/
def IsLate (assigner : WindowAssigner) (lateness : Nat) (now : Timestamp) (record : Record) :
    Bool :=
  match assigner record.eventTime with
  | .ok windows => windows.any (fun window => window.deadline lateness ≤ now)
  | .error _ => false

/-- The records that lose a window to lateness when they arrive, in order. -/
def lateRecords (assigner : WindowAssigner) (lateness : Nat) :
    (now : Timestamp) → Batch → List Record
  | _, [] => []
  | now, item :: rest =>
      ((item.record?).filter (IsLate assigner lateness now)).toList ++
        lateRecords assigner lateness (max now (item.watermark?.getD ⊥)) rest

section Accounts

variable (assigner : WindowAssigner) (lateness : Nat)

theorem account_append (items : Batch) (item : BatchItem) (key : Bytes) (window : Window) :
    account assigner lateness (items ++ [item]) key window =
      (account assigner lateness items key window).step window.close (window.deadline lateness)
        (accountEvent assigner key window item) := by
  rw [account, List.map_append, Ledger.run, List.foldl_append]
  rfl

/-- A record in the domain is a deposit into each of its windows. -/
theorem account_record (items : Batch) {record : Record} {windows : List Window}
    (assigned : assigner record.eventTime = .ok windows) :
    account assigner lateness (items ++ [.record record]) =
      Represents.deposits lateness (account assigner lateness items) record.key record.value
        windows := by
  funext key window
  rw [account_append, Represents.deposits]
  change Ledger.receive _ (contribution assigner key window record) _ = _
  rw [contribution, assigned]
  by_cases own : key = record.key
  · rw [if_pos own, if_pos own.symm]
  · rw [if_neg own, if_neg (fun same => own same.symm)]
    exact Ledger.receive_nil _ _

theorem account_watermark (items : Batch) (watermark : Timestamp) (offset : Nat) :
    account assigner lateness (items ++ [watermarkItem watermark offset]) =
      Represents.advanced (account assigner lateness items) watermark := by
  funext key window
  rw [account_append]
  rfl

theorem account_barrier (items : Batch) (stamp : Timestamp) (offset : Nat) :
    account assigner lateness (items ++ [.control
      { type := .checkpointBarrier, watermark := stamp, checkpointOffset := offset }]) =
      account assigner lateness items := by
  funext key window
  rw [account_append]
  exact Ledger.receive_nil _ _

theorem lateRecords_append (now : Timestamp) (items : Batch) (item : BatchItem) :
    lateRecords assigner lateness now (items ++ [item]) =
      lateRecords assigner lateness now items ++
        ((item.record?).filter
          (IsLate assigner lateness (max now (highestWatermark items)))).toList := by
  induction items generalizing now with
  | nil => simp [lateRecords, highestWatermark, watermarks]
  | cons first rest inductionHypothesis =>
    have split : highestWatermark (first :: rest) =
        max (first.watermark?.getD ⊥) (highestWatermark rest) := by
      rw [← List.singleton_append, highestWatermark_append]
      congr 1
      cases found : first.watermark? <;> simp [highestWatermark, watermarks, found]
    rw [List.cons_append, lateRecords, lateRecords, inductionHypothesis, split, ← max_assoc,
      List.append_assoc]

end Accounts

/-- A processor that stands after the items: it has their watermark and represents
their accounts. -/
structure Stands (assigner : WindowAssigner) (lateness : Nat) (items : Batch)
    (processor : KeyedProcessor) : Prop where
  assigns : processor.assigner = assigner
  allowed : processor.allowedLateness = lateness
  watermark : processor.watermark = highestWatermark items
  represents : Represents lateness processor.watermark (account assigner lateness items)
    processor.state

/-- What one more item does: the processor stands after it, its emissions report how
the accounts move and belong to closed windows, and its counters count the record. -/
structure Advances (assigner : WindowAssigner) (lateness : Nat) (items : Batch) (item : BatchItem)
    (processor : KeyedProcessor) (emitted : List WindowResult) (after : KeyedProcessor) : Prop where
  stands : Stands assigner lateness (items ++ [item]) after
  reports : ∀ key window, Reports (0 < lateness) (account assigner lateness items key window)
    (account assigner lateness (items ++ [item]) key window)
    (KeyedWindowState.resultsFor key window emitted)
  closed : ∀ result ∈ emitted, result.window.close ≤ after.watermark
  forward : processor.watermark ≤ after.watermark
  processed : after.stats.recordsProcessed =
    processor.stats.recordsProcessed + item.record?.toList.length
  dropped : after.stats.lateRecordsDropped = processor.stats.lateRecordsDropped +
    ((item.record?).filter (IsLate assigner lateness (highestWatermark items))).toList.length

namespace Stands

open KeyedWindowState

variable {assigner : WindowAssigner} {lateness : Nat} {items : Batch} {processor : KeyedProcessor}

theorem create (assigner : WindowAssigner) (lateness : Nat) (checkpointing : Bool) :
    Stands assigner lateness [] (.create assigner lateness checkpointing) := by
  have empty (key : Bytes) (window : Window) :
      account assigner lateness [] key window = Ledger.opened ⊥ := rfl
  refine ⟨rfl, rfl, rfl, ?_⟩
  refine ⟨rfl, fun _ _ => rfl, ?_, ?_, ?_, ?_, ?_⟩
  · intro key window
    rw [empty]
    exact Ledger.opened_kept ⊥
  · intro key window
    rw [empty]
    simp [KeyedProcessor.create, KeyedWindowState.pane, Ledger.opened]
  · intro key window fired
    simp [KeyedProcessor.create, IsFired] at fired
  · intro window again
    simp [KeyedProcessor.create, IsRefired] at again
  · intro window fired
    simp [KeyedProcessor.create, IsFired] at fired

/-- A record in the domain is deposited, and counted once if some window lost it. -/
theorem record (stands : Stands assigner lateness items processor) {record : Record}
    {windows : List Window} (assigned : assigner record.eventTime = .ok windows)
    (room : ∀ key window,
      Pane.Holds (account assigner lateness (items ++ [.record record]) key window).accepted) :
    ∃ after, processor.processRecord record = .ok after ∧
      Advances assigner lateness items (.record record) processor [] after := by
  have deposits := account_record assigner lateness items assigned
  rw [deposits] at room
  obtain ⟨state, lateAccepted, looped, represents⟩ := stands.represents.addToWindows_spec record
    (decide (0 < processor.allowedLateness)) windows (fun place _ => room record.key place)
    false false
  have published (key : Bytes) (window : Window) :
      (account assigner lateness (items ++ [.record record]) key window).published =
        (account assigner lateness items key window).published := by
    rw [deposits, Represents.deposits]
    split
    · exact Ledger.receive_published _ _ _
    · rfl
  have clock := highestWatermark_record items record
  have processed : processor.processRecord record = .ok { processor with
      state := state
      stats := { processor.stats with
        lateRecordsDropped := processor.stats.lateRecordsDropped + (false || windows.any
          (fun window => window.deadline lateness ≤ processor.watermark)).toNat
        lateRecordsAccepted := processor.stats.lateRecordsAccepted + lateAccepted.toNat
        recordsProcessed := processor.stats.recordsProcessed + 1 } } := by
    rw [KeyedProcessor.processRecord, stands.assigns, assigned]
    simp only [looped]
  refine ⟨_, processed, ?_⟩
  refine ⟨⟨stands.assigns, stands.allowed, stands.watermark.trans clock.symm, ?_⟩, ?_, by simp,
    le_rfl, rfl, ?_⟩
  · rw [deposits]
    exact represents
  · intro key window
    exact .silent (published key window)
  · rw [← stands.watermark]
    simp only [IsLate, BatchItem.record?, Option.filter, assigned, Bool.false_or]
    cases windows.any (fun window => window.deadline lateness ≤ processor.watermark) <;> rfl

/-- A watermark that does not advance the tracker moves no account. -/
theorem account_still (stands : Stands assigner lateness items processor)
    {watermark : Timestamp} (behind : ¬ processor.watermark < watermark) :
    Represents.advanced (account assigner lateness items) watermark =
      account assigner lateness items := by
  funext key window
  rw [Represents.advanced, Ledger.advance, stands.represents.frontier, if_neg behind]

/-- The stats of an advance count no records. -/
theorem advanceTo_counters (processor : KeyedProcessor) (time : Timestamp) :
    (processor.advanceTo time).2.stats.recordsProcessed = processor.stats.recordsProcessed ∧
      (processor.advanceTo time).2.stats.lateRecordsDropped =
        processor.stats.lateRecordsDropped ∧
      (processor.advanceTo time).2.watermark = time ∧
      (processor.advanceTo time).2.assigner = processor.assigner ∧
      (processor.advanceTo time).2.allowedLateness = processor.allowedLateness := by
  unfold KeyedProcessor.advanceTo
  dsimp only
  split <;> exact ⟨rfl, rfl, rfl, rfl, rfl⟩

section

variable (stands : Stands assigner lateness items processor)

include stands

/-- Every result of an advance belongs to a window that the advance closes. -/
theorem advanceTo_closed {time : Timestamp} (forward : processor.watermark < time) :
    ∀ result ∈ (processor.advanceTo time).1, result.window.close ≤ time := by
  intro result member
  by_contra open_
  have listed : result.result ∈
      resultsFor result.key result.window (processor.advanceTo time).1 := by
    rw [resultsFor, List.mem_map]
    exact ⟨result, List.mem_filter.mpr ⟨member, by simp⟩, rfl⟩
  rw [KeyedProcessor.advanceTo_results stands.represents stands.allowed forward,
    if_neg (fun both => open_ both.1)] at listed
  simp at listed

/-- A watermark moves every account and emits what that publishes. -/
theorem watermark_item (watermark : Timestamp) (offset : Nat) {effects : List Effect}
    {after : KeyedProcessor} (processed : processor.processControl
      { type := .watermark, watermark := watermark, checkpointOffset := offset } =
        (effects, after)) :
    Advances assigner lateness items (watermarkItem watermark offset) processor
      (emissions effects) after := by
  have moved := account_watermark assigner lateness items watermark offset
  have clock := highestWatermark_watermark items watermark offset
  rw [KeyedProcessor.processControl] at processed
  simp only at processed
  split at processed
  · next forward =>
    obtain ⟨rfl, rfl⟩ := Prod.mk.inj processed
    obtain ⟨counted, late, arrived, assigns, allowed⟩ := advanceTo_counters processor watermark
    rw [emissions_map_emit]
    refine ⟨⟨assigns.trans stands.assigns, allowed.trans stands.allowed, ?_, ?_⟩, ?_, ?_, ?_,
      counted, late⟩
    · rw [arrived, clock, ← stands.watermark, max_eq_right forward.le]
    · rw [arrived, moved]
      exact KeyedProcessor.advanceTo_represents stands.represents stands.allowed forward
    · rw [moved]
      exact KeyedProcessor.advanceTo_reports stands.represents stands.allowed forward
    · rw [arrived]
      exact stands.advanceTo_closed forward
    · rw [arrived]
      exact forward.le
  · next behind =>
    obtain ⟨rfl, rfl⟩ := Prod.mk.inj processed
    rw [emissions_nil]
    refine ⟨⟨stands.assigns, stands.allowed, ?_, ?_⟩, ?_, by simp, le_rfl, rfl, rfl⟩
    · rw [clock, ← stands.watermark, max_eq_left (not_lt.mp behind)]
    · rw [moved, stands.account_still behind]
      exact stands.represents
    · intro key window
      rw [moved, stands.account_still behind]
      exact .silent rfl

/-- A barrier emits nothing and moves no account. -/
theorem barrier_item (stamp : Timestamp) (offset : Nat) {effects : List Effect}
    {after : KeyedProcessor} (processed : processor.processControl
      { type := .checkpointBarrier, watermark := stamp, checkpointOffset := offset } =
        (effects, after)) :
    Advances assigner lateness items (.control
        { type := .checkpointBarrier, watermark := stamp, checkpointOffset := offset }) processor
      (emissions effects) after := by
  have quiet : emissions effects = [] := by
    rw [KeyedProcessor.processControl] at processed
    simp only at processed
    split at processed <;> obtain ⟨rfl, rfl⟩ := Prod.mk.inj processed <;> rfl
  have same : after.assigner = processor.assigner ∧
      after.allowedLateness = processor.allowedLateness ∧
      after.watermark = processor.watermark ∧ after.state = processor.state ∧
      after.stats.recordsProcessed = processor.stats.recordsProcessed ∧
      after.stats.lateRecordsDropped = processor.stats.lateRecordsDropped := by
    rw [KeyedProcessor.processControl] at processed
    simp only at processed
    split at processed <;> obtain ⟨rfl, rfl⟩ := Prod.mk.inj processed <;>
      exact ⟨rfl, rfl, rfl, rfl, rfl, rfl⟩
  obtain ⟨assigns, allowed, arrived, state, counted, late⟩ := same
  have still := account_barrier assigner lateness items stamp offset
  rw [quiet]
  refine ⟨⟨assigns.trans stands.assigns, allowed.trans stands.allowed, ?_, ?_⟩, ?_, by simp,
    arrived.ge, counted, late⟩
  · rw [arrived, stands.watermark, highestWatermark_append]
    exact (max_bot_right _).symm
  · rw [still, arrived, state]
    exact stands.represents
  · intro key window
    rw [still]
    exact .silent rfl

/-- One more item in the domain, without overflow, is processed. -/
theorem item (item : BatchItem) (domain : Assignable assigner (items ++ [item]))
    (room : Representable assigner lateness (items ++ [item])) :
    ∃ effects after, processor.processItem item = .ok (effects, after) ∧
      Advances assigner lateness items item processor (emissions effects) after := by
  match item with
  | .record record =>
    obtain ⟨windows, assigned⟩ := domain record (by simp [records, BatchItem.record?])
    obtain ⟨after, processed, advances⟩ := stands.record assigned room
    refine ⟨[], after, ?_, advances⟩
    rw [KeyedProcessor.processItem, processed]
    rfl
  | .control { type := .watermark, watermark, checkpointOffset } =>
    exact ⟨_, _, rfl, stands.watermark_item watermark checkpointOffset rfl⟩
  | .control { type := .checkpointBarrier, watermark, checkpointOffset } =>
    exact ⟨_, _, rfl, stands.barrier_item watermark checkpointOffset rfl⟩

end

end Stands

/-- A processor that has consumed the items from its creation: moreover its emissions
echo the publications of the accounts and belong to closed windows, and its counters
count the records and the late ones. -/
structure Tracks (assigner : WindowAssigner) (lateness : Nat) (items : Batch)
    (emitted : List WindowResult) (processor : KeyedProcessor) : Prop
    extends Stands assigner lateness items processor where
  echoes : ∀ key window, Echoes (KeyedWindowState.resultsFor key window emitted)
    (publishedResults (account assigner lateness items key window))
  once : lateness = 0 → ∀ key window, KeyedWindowState.resultsFor key window emitted =
    publishedResults (account assigner lateness items key window)
  closed : ∀ result ∈ emitted, result.window.close ≤ processor.watermark
  processed : processor.stats.recordsProcessed = (records items).length
  dropped : processor.stats.lateRecordsDropped = (lateRecords assigner lateness ⊥ items).length

namespace Tracks

open KeyedWindowState

variable {assigner : WindowAssigner} {lateness : Nat} {items : Batch}
  {emitted : List WindowResult} {processor : KeyedProcessor}

/-- Reports of one step extend the echoes and, without lateness, the exact output. -/
theorem extend {reported : List WindowResult} {before after : Accounts}
    (echoes : ∀ key window, Echoes (resultsFor key window emitted)
      (publishedResults (before key window)))
    (once : lateness = 0 → ∀ key window, resultsFor key window emitted =
      publishedResults (before key window))
    (reports : ∀ key window, Reports (0 < lateness) (before key window) (after key window)
      (resultsFor key window reported)) :
    (∀ key window, Echoes (resultsFor key window (emitted ++ reported))
      (publishedResults (after key window))) ∧
    (lateness = 0 → ∀ key window, resultsFor key window (emitted ++ reported) =
      publishedResults (after key window)) := by
  constructor
  · intro key window
    rw [resultsFor_append]
    exact (reports key window).echoes (echoes key window)
  · intro strict key window
    have exactly := reports key window
    have never : (0 < lateness) = False := by simp [strict]
    rw [never] at exactly
    rw [resultsFor_append]
    exact exactly.exact (once strict key window)

theorem create (assigner : WindowAssigner) (lateness : Nat) (checkpointing : Bool) :
    Tracks assigner lateness [] [] (.create assigner lateness checkpointing) := by
  refine ⟨Stands.create assigner lateness checkpointing, ?_, ?_, by simp, rfl, rfl⟩
  · intro key window
    exact Echoes.nil
  · intro _ key window
    rfl

/-- A tracking processor tracks whatever one more item does. -/
theorem advance (tracks : Tracks assigner lateness items emitted processor) {item : BatchItem}
    {more : List WindowResult} {after : KeyedProcessor}
    (advances : Advances assigner lateness items item processor more after) :
    Tracks assigner lateness (items ++ [item]) (emitted ++ more) after := by
  obtain ⟨echoes, once⟩ := extend tracks.echoes tracks.once advances.reports
  refine ⟨advances.stands, echoes, once, ?_, ?_, ?_⟩
  · intro result member
    rcases List.mem_append.mp member with earlier | now
    · exact (tracks.closed result earlier).trans advances.forward
    · exact advances.closed result now
  · rw [advances.processed, tracks.processed, records_append, List.length_append]
    cases found : item.record? <;> simp [records, found]
  · rw [advances.dropped, tracks.dropped, lateRecords_append, List.length_append, bot_sup_eq]

end Tracks

section Runs

open KeyedWindowState

variable {assigner : WindowAssigner} {lateness : Nat} {effects : List Effect}

/-- Later items only extend what an account has accepted. -/
theorem account_accepted_grows (items : Batch) (item : BatchItem) (key : Bytes)
    (window : Window) :
    (account assigner lateness items key window).accepted <+:
      (account assigner lateness (items ++ [item]) key window).accepted := by
  rw [account_append]
  exact Ledger.step_accepted_prefix _ _ _ _

theorem Representable.dropLast {items : Batch} {item : BatchItem}
    (room : Representable assigner lateness (items ++ [item])) :
    Representable assigner lateness items := by
  intro key window
  exact (room key window).mono (account_accepted_grows items item key window)

theorem Assignable.dropLast {items : Batch} {item : BatchItem}
    (domain : Assignable assigner (items ++ [item])) : Assignable assigner items := by
  intro record member
  refine domain record ?_
  rw [records_append]
  exact List.mem_append_left _ member

theorem processItems_append {processor middle final : KeyedProcessor} {first second : Batch}
    {earlier later : List Effect}
    (left : processor.processItems first = .ok (earlier, middle))
    (right : middle.processItems second = .ok (later, final)) :
    processor.processItems (first ++ second) = .ok (earlier ++ later, final) := by
  induction first generalizing processor earlier with
  | nil =>
    obtain ⟨rfl, rfl⟩ := Prod.mk.inj (Except.ok.inj left)
    exact right
  | cons item rest inductionHypothesis =>
    rw [KeyedProcessor.processItems] at left
    cases one : processor.processItem item with
    | error thrown => simp [one] at left
    | ok step =>
      cases more : step.2.processItems rest with
      | error thrown => simp [one, more] at left
      | ok result =>
        simp only [one, more] at left
        obtain ⟨rfl, rfl⟩ := Prod.mk.inj (Except.ok.inj left)
        have tail := inductionHypothesis more
        rw [List.cons_append, KeyedProcessor.processItems]
        simp only [one, tail, List.append_assoc]

/-- Processing a stream is processing its two parts one after the other. -/
theorem processItems_split {processor final : KeyedProcessor} {first second : Batch}
    (whole : processor.processItems (first ++ second) = .ok (effects, final)) :
    ∃ earlier middle later, processor.processItems first = .ok (earlier, middle) ∧
      middle.processItems second = .ok (later, final) ∧ effects = earlier ++ later := by
  induction first generalizing processor effects with
  | nil => exact ⟨[], processor, effects, rfl, whole, rfl⟩
  | cons item rest inductionHypothesis =>
    rw [List.cons_append, KeyedProcessor.processItems] at whole
    cases one : processor.processItem item with
    | error thrown => simp [one] at whole
    | ok step =>
      cases more : step.2.processItems (rest ++ second) with
      | error thrown => simp [one, more] at whole
      | ok result =>
        simp only [one, more] at whole
        obtain ⟨rfl, rfl⟩ := Prod.mk.inj (Except.ok.inj whole)
        obtain ⟨earlier, middle, later, front, back, split⟩ := inductionHypothesis more
        refine ⟨step.1 ++ earlier, middle, later, ?_, back, ?_⟩
        · rw [KeyedProcessor.processItems]
          simp only [one, front]
        · rw [split, List.append_assoc]

/-- A processor consumes every finite stream in the domain without overflow, and
tracks it. -/
theorem processItems_tracks (checkpointing : Bool) {items : Batch}
    (domain : Assignable assigner items) (room : Representable assigner lateness items) :
    ∃ effects processor,
      (KeyedProcessor.create assigner lateness checkpointing).processItems items =
        .ok (effects, processor) ∧
      Tracks assigner lateness items (emissions effects) processor := by
  induction items using List.reverseRecOn with
  | nil => exact ⟨[], _, rfl, Tracks.create assigner lateness checkpointing⟩
  | append_singleton items item inductionHypothesis =>
    obtain ⟨effects, middle, processed, tracks⟩ :=
      inductionHypothesis domain.dropLast room.dropLast
    obtain ⟨more, after, last, advances⟩ := tracks.toStands.item item domain room
    have one : middle.processItems [item] = .ok (more, after) := by
      simp [KeyedProcessor.processItems, last]
    refine ⟨effects ++ more, after, processItems_append processed one, ?_⟩
    rw [emissions_append]
    exact tracks.advance advances

/-- The output of an up-to-date account ends with its sum and count. -/
theorem last_result_of_echoes {output : List AggregateResult} {ledger : Ledger Timestamp Int}
    (echoes : Echoes output (publishedResults ledger))
    (settled : ledger.settled = ledger.accepted) (nonempty : ledger.accepted ≠ []) :
    output.getLast? = some (Pane.holding ledger.accepted).result :=
  echoes.last.trans (publishedResults_last settled nonempty)

/-- The latest result of a key and window is the sum and count of its accepted
contributions. -/
def UpToDate (accounts : Accounts) (results : List WindowResult) (key : Bytes)
    (window : Window) : Prop :=
  (resultsFor key window results).getLast? =
    some (Pane.holding (accounts key window).accepted).result

/-- An advancing watermark brings every closed window up to date and emits nothing
for open ones. -/
theorem Tracks.upToDate_after_watermark {items : Batch} {processor : KeyedProcessor}
    (tracks : Tracks assigner lateness items (emissions effects) processor) {watermark : Timestamp}
    (offset : Nat) (forward : processor.watermark < watermark) :
    let fired := processor.processControl
      { type := .watermark, watermark := watermark, checkpointOffset := offset }
    (∀ key window, window.close ≤ watermark →
        (account assigner lateness items key window).accepted ≠ [] →
        UpToDate (account assigner lateness items) (emissions (effects ++ fired.1)) key window) ∧
      ∀ result ∈ emissions (effects ++ fired.1), result.window.close ≤ watermark := by
  intro fired
  have next : Tracks assigner lateness (items ++ [watermarkItem watermark offset])
      (emissions effects ++ emissions fired.1) fired.2 :=
    tracks.advance (tracks.toStands.watermark_item watermark offset rfl)
  have moved := account_watermark assigner lateness items watermark offset
  have arrived : fired.2.watermark = watermark := by
    have clock := next.watermark
    rw [highestWatermark_append, ← tracks.watermark] at clock
    rw [clock]
    simpa [highestWatermark, watermarks] using forward.le
  rw [emissions_append]
  constructor
  · intro key window closed nonempty
    have before : (account assigner lateness items key window).frontier < watermark := by
      rw [tracks.represents.frontier]
      exact forward
    have settled := (tracks.represents.kept key window).advance_settled before closed
    have accepted := Represents.advanced_accepted (account assigner lateness items) watermark key
      window
    have echoes := next.echoes key window
    rw [moved] at echoes
    rw [UpToDate, ← accepted]
    refine last_result_of_echoes echoes ?_ ?_
    · rw [accepted]
      exact settled
    · rw [accepted]
      exact nonempty
  · intro result member
    rw [← arrived]
    exact next.closed result member

/-- The output after the final flush echoes accounts that have published all. -/
theorem Tracks.flush_echoes {items : Batch} {processor : KeyedProcessor}
    (tracks : Tracks assigner lateness items (emissions effects) processor) :
    (∀ key window, Echoes (resultsFor key window (emissions (effects ++ processor.finalFlush.1)))
      (publishedResults (account assigner lateness items key window).publish)) ∧
    (lateness = 0 → ∀ key window,
      resultsFor key window (emissions (effects ++ processor.finalFlush.1)) =
        publishedResults (account assigner lateness items key window).publish) := by
  have reports := KeyedProcessor.finalFlush_reports tracks.represents tracks.allowed
  rw [emissions_append]
  exact Tracks.extend tracks.echoes tracks.once reports

/-- The final flush brings every account up to date; without lateness it completes
exactly one result for each. -/
theorem Tracks.upToDate_after_flush {items : Batch} {processor : KeyedProcessor}
    (tracks : Tracks assigner lateness items (emissions effects) processor) :
    (∀ key window, (account assigner lateness items key window).accepted ≠ [] →
      UpToDate (account assigner lateness items)
        (emissions (effects ++ processor.finalFlush.1)) key window) ∧
    (lateness = 0 → ∀ key window, (account assigner lateness items key window).accepted ≠ [] →
      resultsFor key window (emissions (effects ++ processor.finalFlush.1)) =
        [(Pane.holding (account assigner lateness items key window).accepted).result]) := by
  obtain ⟨echoes, once⟩ := tracks.flush_echoes
  constructor
  · intro key window nonempty
    have settled := (tracks.represents.kept key window).publish_settled
    have accepted := Ledger.publish_accepted (account assigner lateness items key window)
    rw [UpToDate, ← accepted]
    refine last_result_of_echoes (echoes key window) ?_ ?_
    · rw [accepted]
      exact settled
    · rw [accepted]
      exact nonempty
  · intro strict key window nonempty
    have settled := (tracks.represents.kept key window).publish_settled
    have single : (account assigner lateness items key window).Single := by
      rw [account, strict, Window.deadline_zero]
      exact Ledger.run_single _ _ _
    rw [once strict key window]
    rcases single.publish with none | one
    · rw [Ledger.settled, none] at settled
      exact absurd settled.symm nonempty
    · rw [publishedResults, one, Ledger.publish_accepted]
      rfl

/-- Online correctness. A processor consumes any stream in the domain without
overflow. After every further watermark that advances it, the latest result of each
closed window is the sum and count of the contributions accepted so far, and no open
window has a result. The final flush completes every window, and without lateness
each window has exactly one result. -/
theorem engine_results_are_accepted_sums (assigner : WindowAssigner) (lateness : Nat)
    (checkpointing : Bool) (items : Batch) (domain : Assignable assigner items)
    (room : Representable assigner lateness items) :
    ∃ effects processor,
      (KeyedProcessor.create assigner lateness checkpointing).processItems items =
        .ok (effects, processor) ∧
      (∀ watermark offset, processor.watermark < watermark →
        let fired := processor.processControl
          { type := .watermark, watermark := watermark, checkpointOffset := offset }
        (∀ key window, window.close ≤ watermark →
          (account assigner lateness items key window).accepted ≠ [] →
          UpToDate (account assigner lateness items) (emissions (effects ++ fired.1)) key
            window) ∧
        ∀ result ∈ emissions (effects ++ fired.1), result.window.close ≤ watermark) ∧
      (∀ key window, (account assigner lateness items key window).accepted ≠ [] →
        UpToDate (account assigner lateness items)
          (emissions (effects ++ processor.finalFlush.1)) key window) ∧
      (lateness = 0 → ∀ key window,
        (account assigner lateness items key window).accepted ≠ [] →
        resultsFor key window (emissions (effects ++ processor.finalFlush.1)) =
          [(Pane.holding (account assigner lateness items key window).accepted).result]) := by
  obtain ⟨effects, processor, processed, tracks⟩ :=
    processItems_tracks checkpointing domain room
  obtain ⟨flushed, once⟩ := tracks.upToDate_after_flush
  refine ⟨effects, processor, processed, ?_, flushed, once⟩
  intro watermark offset forward
  exact tracks.upToDate_after_watermark offset forward

/-- The number of windows of a record. -/
def assignedCount (assigner : WindowAssigner) (record : Record) : Nat :=
  (assigner record.eventTime).toOption.elim 0 List.length

/-- The total magnitude that a stream adds to all its panes. -/
def magnitude (assigner : WindowAssigner) (items : Batch) : Nat :=
  ((records items).map (fun record =>
    assignedCount assigner record * record.value.natAbs)).sum

/-- The number of additions of a stream to all its panes. -/
def additions (assigner : WindowAssigner) (items : Batch) : Nat :=
  ((records items).map (assignedCount assigner)).sum

/-- What one record contributes to one account is part of what it adds to all. -/
theorem contribution_bounded (assigner : WindowAssigner) (key : Bytes) (window : Window)
    (record : Record) :
    ((contribution assigner key window record).map Int.natAbs).sum ≤
        assignedCount assigner record * record.value.natAbs ∧
      (contribution assigner key window record).length ≤ assignedCount assigner record := by
  unfold contribution assignedCount
  split
  · cases assigner record.eventTime with
    | error failure => simp [Except.toOption]
    | ok windows =>
      have fewer : (windows.filter (· = window)).length ≤ windows.length :=
        List.length_filter_le _ windows
      simp only [Except.toOption, Option.elim_some, List.map_map, List.length_map]
      refine ⟨?_, fewer⟩
      rw [Function.comp_def, List.map_const', List.sum_replicate, smul_eq_mul]
      exact Nat.mul_le_mul_right _ fewer
  · simp

theorem account_bounded (items : Batch) (key : Bytes) (window : Window) :
    ((account assigner lateness items key window).accepted.map Int.natAbs).sum ≤
        magnitude assigner items ∧
      (account assigner lateness items key window).accepted.length ≤
        additions assigner items := by
  induction items using List.reverseRecOn with
  | nil => exact ⟨Nat.le_refl 0, Nat.le_refl 0⟩
  | append_singleton items item inductionHypothesis =>
    obtain ⟨total, count⟩ := inductionHypothesis
    match item with
    | .record record =>
      obtain ⟨more, longer⟩ := contribution_bounded assigner key window record
      rw [account_append]
      change (((Ledger.receive _ (contribution assigner key window record) _).accepted.map
        Int.natAbs).sum ≤ _) ∧ (Ledger.receive _ _ _).accepted.length ≤ _
      simp only [magnitude, additions, records_append, List.map_append, List.sum_append,
        records_record, List.map_singleton, List.sum_singleton] at total count ⊢
      unfold Ledger.receive
      split
      · simp only [List.map_append, List.sum_append, List.length_append]
        omega
      · omega
    | .control { type := .watermark, watermark, checkpointOffset } =>
      have moved := account_watermark assigner lateness items watermark checkpointOffset
      rw [watermarkItem] at moved
      rw [moved, Represents.advanced_accepted]
      simpa [magnitude, additions, records, BatchItem.record?] using ⟨total, count⟩
    | .control { type := .checkpointBarrier, watermark, checkpointOffset } =>
      rw [account_barrier]
      simpa [magnitude, additions, records, BatchItem.record?] using ⟨total, count⟩

/-- A sum of integers is at most the sum of their magnitudes. -/
theorem natAbs_sum_le (values : List Int) : values.sum.natAbs ≤ (values.map Int.natAbs).sum := by
  induction values with
  | nil => exact Nat.le_refl 0
  | cons value rest inductionHypothesis =>
    rw [List.sum_cons, List.map_cons, List.sum_cons]
    exact (Int.natAbs_add_le _ _).trans (Nat.add_le_add_left inductionHypothesis _)

/-- A stream of small total magnitude overflows no pane. -/
theorem representable_of_magnitude {items : Batch}
    (light : magnitude assigner items ≤ 2 ^ 63 - 1)
    (few : additions assigner items ≤ 2 ^ 64 - 1) :
    Representable assigner lateness items := by
  intro key window front early
  obtain ⟨total, count⟩ :
      ((account assigner lateness items key window).accepted.map Int.natAbs).sum ≤
        magnitude assigner items ∧ _ := account_bounded items key window
  have covered : (front.map Int.natAbs).sum ≤
      ((account assigner lateness items key window).accepted.map Int.natAbs).sum :=
    (early.sublist.map Int.natAbs).sum_le_sum (fun _ _ => Nat.zero_le _)
  have bounded := natAbs_sum_le front
  have shorter := early.length_le
  refine ⟨?_, ?_, ?_⟩ <;> omega

/-- The domain of an assigner is decidable on a stream. -/
theorem assignable_of_all {items : Batch}
    (all : (records items).all (fun record => (assigner record.eventTime).toOption.isSome) = true) :
    Assignable assigner items := by
  intro record member
  have inside := List.all_eq_true.mp all record member
  cases found : assigner record.eventTime with
  | error failure => simp [found, Except.toOption] at inside
  | ok windows => exact ⟨windows, rfl⟩

/-- Two records of one key, the second one late: it is accepted by a processor with
lateness 5 and dropped without lateness. -/
def lateStream : Batch :=
  [sample 3 1, watermarkItem (.ofMs 10) 1, sample 4 2]
where
  sample (time value : Int) : BatchItem :=
    .record { key := [107], value := value, eventTime := .ofMs time, processingTime := .ofMs time }

/-- Tumbling windows of ten milliseconds. -/
def tenMs : TumblingAssigner := { size := 10, positive := by decide, bounded := by decide }

/-- At the end of the late stream, the only window is up to date. -/
theorem lateStream_up_to_date : ∃ effects processor,
    (KeyedProcessor.create tenMs.assignWindows 5 false).processItems lateStream =
      .ok (effects, processor) ∧
    UpToDate (account tenMs.assignWindows 5 lateStream)
      (emissions (effects ++ processor.finalFlush.1)) [107] (windowAt 0 10) := by
  obtain ⟨effects, processor, processed, _, flushed, _⟩ := engine_results_are_accepted_sums
    tenMs.assignWindows 5 false lateStream (assignable_of_all (by decide +kernel))
    (representable_of_magnitude (by decide +kernel) (by decide +kernel))
  exact ⟨effects, processor, processed, flushed [107] (windowAt 0 10) (by decide +kernel)⟩

end Runs

end Stormglass
