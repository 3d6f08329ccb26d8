import Stormglass.PartitionedProgress

/-!
# Partitioning does not change the results

A worker sees its own records and every watermark, so the accounts of its keys are
those of the whole stream, and the accounts of other keys stay empty. The results of
a run are therefore the results of the single-threaded engine, in whatever order the
threads take their steps.
-/

namespace Stormglass

section Shares

variable {n : Nat} [NeZero n] (assigner : WindowAssigner) (lateness : Nat) (partition : Fin n)

/-- A record of another worker does not touch the account of a key. -/
theorem account_foreign (items : Batch) {record : Record} {key : Bytes}
    (foreign : record.key ≠ key) (window : Window) :
    account assigner lateness (items ++ [.record record]) key window =
      account assigner lateness items key window := by
  rw [account_append]
  change Ledger.receive _ (contribution assigner key window record) _ = _
  rw [contribution, if_neg foreign]
  exact Ledger.receive_nil _ _

/-- The accounts of a worker's keys are those of the whole stream. -/
theorem account_routed (items : Batch) {key : Bytes} (own : partitionForKey key = partition)
    (window : Window) :
    account assigner lateness (routed partition items) key window =
      account assigner lateness items key window := by
  induction items using List.reverseRecOn with
  | nil => rfl
  | append_singleton items item inductionHypothesis =>
    rw [routed_append]
    match item with
    | .control control =>
      have kept : routed partition [.control control] = [.control control] := rfl
      rw [kept, account_append, account_append, inductionHypothesis]
    | .record record =>
      by_cases mine : partitionForKey record.key = partition
      · have kept : routed partition [.record record] = [.record record] := by
          simp [routed, mine]
        rw [kept, account_append, account_append, inductionHypothesis]
      · have left : routed partition [.record record] = [] := by
          simp [routed, mine]
        have foreign : record.key ≠ key := by
          intro same
          rw [same] at mine
          exact mine own
        rw [left, List.append_nil, inductionHypothesis, account_foreign _ _ items foreign]

/-- The accounts of other keys stay empty. -/
theorem account_routed_foreign (items : Batch) {key : Bytes}
    (foreign : partitionForKey key ≠ partition) (window : Window) :
    (account assigner lateness (routed partition items) key window).accepted = [] := by
  induction items using List.reverseRecOn with
  | nil => rfl
  | append_singleton items item inductionHypothesis =>
    rw [routed_append]
    match item with
    | .control { type := .watermark, watermark, checkpointOffset } =>
      change (account assigner lateness (routed partition items ++
        [watermarkItem watermark checkpointOffset]) key window).accepted = []
      rw [account_watermark, Represents.advanced_accepted, inductionHypothesis]
    | .control { type := .checkpointBarrier, watermark, checkpointOffset } =>
      change (account assigner lateness (routed partition items ++ [.control
        { type := .checkpointBarrier, watermark := watermark,
          checkpointOffset := checkpointOffset }]) key window).accepted = []
      rw [account_barrier, inductionHypothesis]
    | .record record =>
      by_cases mine : partitionForKey record.key = partition
      · have kept : routed partition [.record record] = [.record record] := by
          simp [routed, mine]
        have other : record.key ≠ key := by
          rintro rfl
          exact foreign mine
        rw [kept, account_foreign _ _ _ other, inductionHypothesis]
      · have left : routed partition [.record record] = [] := by
          simp [routed, mine]
        rw [left, List.append_nil, inductionHypothesis]

theorem records_routed (items : Batch) :
    records (routed partition items) =
      (records items).filter (fun record => partitionForKey record.key = partition) := by
  induction items with
  | nil => rfl
  | cons item items inductionHypothesis =>
    rw [← List.singleton_append, routed_append, records_append, records_append,
      List.filter_append, inductionHypothesis]
    congr 1
    match item with
    | .control control => rfl
    | .record record =>
      by_cases mine : partitionForKey record.key = partition <;>
        simp [routed, records, BatchItem.record?, mine]

/-- Every worker sees every watermark, so it counts the late ones of its records. -/
theorem lateRecords_routed (now : Timestamp) (items : Batch) :
    lateRecords assigner lateness now (routed partition items) =
      (lateRecords assigner lateness now items).filter
        (fun record => partitionForKey record.key = partition) := by
  induction items generalizing now with
  | nil => rfl
  | cons item items inductionHypothesis =>
    rw [lateRecords, List.filter_append, ← inductionHypothesis]
    cases item with
    | control control =>
      have kept : routed partition (.control control :: items) =
          .control control :: routed partition items := rfl
      rw [kept, lateRecords]
      rfl
    | record record =>
      have still : max now ((BatchItem.record record).watermark?.getD ⊥) = now := max_bot_right _
      by_cases mine : partitionForKey record.key = partition
      · have kept : routed partition (.record record :: items) =
            .record record :: routed partition items := by simp [routed, mine]
        rw [kept, lateRecords, still]
        congr 1
        by_cases late : IsLate assigner lateness now record = true <;>
          simp [BatchItem.record?, Option.filter, late, mine]
      · have left : routed partition (.record record :: items) = routed partition items := by
          simp [routed, mine]
        rw [left, still]
        by_cases late : IsLate assigner lateness now record = true <;>
          simp [BatchItem.record?, Option.filter, late, mine]

end Shares

/-- Two outputs agree: the same results occur, and each key and window ends with the
same one. -/
def SameResults (left right : List WindowResult) : Prop :=
  (∀ result, result ∈ left ↔ result ∈ right) ∧
    ∀ key window, (KeyedWindowState.resultsFor key window left).getLast? =
      (KeyedWindowState.resultsFor key window right).getLast?

/-- Outputs that echo the same accounts agree. -/
theorem sameResults_of_echoes {left right : List WindowResult}
    {published : Bytes → Window → List AggregateResult}
    (first : ∀ key window, Echoes (KeyedWindowState.resultsFor key window left)
      (published key window))
    (second : ∀ key window, Echoes (KeyedWindowState.resultsFor key window right)
      (published key window)) : SameResults left right := by
  constructor
  · rintro ⟨key, window, value⟩
    rw [← KeyedWindowState.mem_resultsFor, ← KeyedWindowState.mem_resultsFor,
      (first key window).members, (second key window).members]
  · intro key window
    rw [(first key window).last, (second key window).last]

/-- The shares of a list have its length together. -/
theorem sum_shares {n : Nat} {α : Type} (part : α → Fin n) (values : List α) :
    ((List.finRange n).map (fun partition =>
      (values.filter (fun value => part value = partition)).length)).sum = values.length := by
  rw [← Fin.sum_univ_def]
  induction values with
  | nil => simp
  | cons value values inductionHypothesis =>
    have split (partition : Fin n) :
        ((value :: values).filter (fun value => part value = partition)).length =
          (if part value = partition then 1 else 0) +
            (values.filter (fun value => part value = partition)).length := by
      rw [List.filter_cons]
      by_cases own : part value = partition
      · simp [own, Nat.add_comm]
      · simp [own]
    simp only [split]
    rw [Finset.sum_add_distrib, inductionHypothesis, Finset.sum_ite_eq, if_pos (Finset.mem_univ _),
      List.length_cons, Nat.add_comm]

namespace KeyedProcessor

/-- The final flush counts no records. -/
theorem finalFlush_counters (processor : KeyedProcessor) :
    processor.finalFlush.2.stats.recordsProcessed = processor.stats.recordsProcessed ∧
      processor.finalFlush.2.stats.lateRecordsDropped = processor.stats.lateRecordsDropped := by
  unfold finalFlush
  dsimp only
  split <;> exact ⟨rfl, rfl⟩

end KeyedProcessor

namespace PartitionedPipeline

open KeyedWindowState

variable {n : Nat} [NeZero n] {σ : Type} [Source σ]

/-- A worker that has processed and flushed its share of a stream. -/
structure Done (assigner : WindowAssigner) (lateness : Nat) (items : Batch) (partition : Fin n)
    (output : List WindowResult) (processor : KeyedProcessor) : Prop where
  echoes : ∀ key window, Echoes (resultsFor key window output)
    (publishedResults (account assigner lateness (routed partition items) key window).publish)
  processed : processor.stats.recordsProcessed = (records (routed partition items)).length
  dropped : processor.stats.lateRecordsDropped =
    (lateRecords assigner lateness ⊥ (routed partition items)).length

section Shares

variable {assigner : WindowAssigner} {lateness : Nat} {items : Batch}

theorem assignable_routed (domain : Assignable assigner items) (partition : Fin n) :
    Assignable assigner (routed partition items) := by
  intro record member
  rw [records_routed] at member
  exact domain record (List.mem_of_mem_filter member)

theorem representable_routed (room : Representable assigner lateness items) (partition : Fin n) :
    Representable assigner lateness (routed partition items) := by
  intro key window
  by_cases own : partitionForKey key = partition
  · rw [account_routed assigner lateness partition items own]
    exact room key window
  · rw [account_routed_foreign assigner lateness partition items own]
    exact (room key window).mono List.nil_prefix

/-- A worker can process its share, and its output is about its own keys. -/
theorem share_done (checkpointing : Bool) (domain : Assignable assigner items)
    (room : Representable assigner lateness items) (partition : Fin n) :
    ∃ effects last,
      (KeyedProcessor.create assigner lateness checkpointing).processItems
        (routed partition items) = .ok (effects, last) ∧
      Done assigner lateness items partition (emissions (effects ++ last.finalFlush.1))
        last.finalFlush.2 := by
  obtain ⟨effects, last, processed, tracks⟩ := processItems_tracks checkpointing
    (assignable_routed domain partition) (representable_routed room partition)
  obtain ⟨counted, late⟩ := last.finalFlush_counters
  exact ⟨effects, last, processed, tracks.flush_echoes.1, counted.trans tracks.processed,
    late.trans tracks.dropped⟩

/-- The keys of a worker's results are its own. -/
theorem Done.own_keys {partition : Fin n} {output : List WindowResult}
    {processor : KeyedProcessor}
    (done : Done assigner lateness items partition output processor) :
    ∀ result ∈ output, partitionForKey result.key = partition := by
  intro result member
  by_contra foreign
  have listed := (done.echoes result.key result.window).members result.result
  rw [mem_resultsFor] at listed
  have published := listed.mp member
  have none := account_routed_foreign assigner lateness partition items foreign result.window
  have kept : Ledger.Covered (account assigner lateness (routed partition items) result.key
      result.window).publish :=
    (Ledger.run_kept (Window.close_le_deadline _ _) ⊥ _).toCovered.publish
  rw [publishedResults, List.mem_map] at published
  obtain ⟨publication, found, _⟩ := published
  have early := kept.covered publication found
  rw [Ledger.publish_accepted, none, List.prefix_nil] at early
  exact kept.nonempty publication found early

end Shares

/-- When every delivery of a log is about a key of its worker, the results of a key
are those that its worker delivered. -/
theorem resultsFor_deliveredBy {log : List (Fin n × WindowResult)}
    (own : ∀ partition, ∀ result ∈ deliveredBy partition log,
      partitionForKey result.key = partition) (key : Bytes) (window : Window) :
    resultsFor key window (log.map Prod.snd) =
      resultsFor key window (deliveredBy (partitionForKey key) log) := by
  unfold resultsFor deliveredBy
  rw [List.filter_map, List.filter_map, List.filter_filter]
  congr 2
  apply List.filter_congr
  intro entry member
  have mine : partitionForKey entry.2.key = entry.1 := by
    apply own
    rw [deliveredBy, List.mem_map]
    exact ⟨entry, List.mem_filter.mpr ⟨member, by simp⟩, rfl⟩
  simp only [Function.comp_apply, Bool.decide_and]
  by_cases same : entry.2.key = key
  · rw [same] at mine
    simp [same, mine]
  · simp [same]

/-- A run that finds no checkpoint starts with new processors at the source. -/
theorem start_fresh (config : PartitionedConfig) (source : σ) (sink : SinkLog n) :
    (start config source (fun _ => ∅) sink).source = source ∧
      ∀ partition, ((start config source (fun _ => ∅) sink).workers partition).processor =
        .create config.assigner config.allowedLateness config.checkpointing := by
  have none : highestComplete (fun _ : Fin n => (∅ : Directory)) = none := rfl
  constructor
  · simp [start, none]
  · intro partition
    simp [start, none]

section Runs

variable {assigner : WindowAssigner} {lateness : Nat} {items : Batch}

/-- The results of a finished run echo the accounts of the stream, and its counters
are those of the stream. -/
theorem Flowing.finished_echoes {base : Fin n → KeyedProcessor} {batches : List Batch}
    {taken : Batch} {ended : Bool} {recent : List (Fin n × WindowResult)}
    {pipeline : PartitionedPipeline n σ}
    (flowing : Flowing base batches [] taken ended recent pipeline)
    (finished : pipeline.finished = true) (same : batches.flatten = items)
    (shares : ∀ partition, ∃ effects last,
      (base partition).processItems (routed partition items) = .ok (effects, last) ∧
      Done assigner lateness items partition (emissions (effects ++ last.finalFlush.1))
        last.finalFlush.2) :
    (∀ key window, Echoes (resultsFor key window pipeline.sink.results)
      (publishedResults (account assigner lateness items key window).publish)) ∧
    pipeline.stats Stats.recordsProcessed = (records items).length ∧
    pipeline.stats Stats.lateRecordsDropped = (lateRecords assigner lateness ⊥ items).length := by
  have done (partition : Fin n) : Done assigner lateness items partition
      (deliveredBy partition recent) (pipeline.workers partition).processor := by
    obtain ⟨effects, last, processed, final, output⟩ := flowing.finished_worker finished partition
    obtain ⟨_, _, read, done⟩ := shares partition
    rw [same] at processed
    obtain ⟨rfl, rfl⟩ := Prod.mk.inj (Except.ok.inj (processed.symm.trans read))
    rw [output, final]
    exact done
  refine ⟨?_, ?_, ?_⟩
  · intro key window
    have log : pipeline.sink.results = recent.map Prod.snd := by
      rw [SinkLog.results, flowing.log, List.nil_append]
    rw [log, resultsFor_deliveredBy (fun partition => (done partition).own_keys),
      ← account_routed assigner lateness (partitionForKey key : Fin n) items rfl]
    exact (done (partitionForKey key)).echoes key window
  · simp only [stats, (done _).processed, records_routed]
    exact sum_shares (fun record : Record => partitionForKey record.key) (records items)
  · simp only [stats, (done _).dropped, lateRecords_routed]
    exact sum_shares (fun record : Record => partitionForKey record.key)
      (lateRecords assigner lateness ⊥ items)

/-- A state that is never stuck and whose runs all end reaches a finished one. -/
theorem exists_finished {pipeline : PartitionedPipeline n σ}
    (terminates : Acc (fun after before => Steps before after) pipeline)
    (notStuck : ∀ state, Reaches pipeline state → state.finished = false →
      ∃ after, Steps state after) :
    ∃ final, Reaches pipeline final ∧ final.finished = true := by
  induction terminates with
  | intro pipeline _ inductionHypothesis =>
    cases finished : pipeline.finished with
    | true => exact ⟨pipeline, Relation.ReflTransGen.refl, finished⟩
    | false =>
      obtain ⟨after, stepped⟩ := notStuck pipeline Relation.ReflTransGen.refl finished
      obtain ⟨final, reached, done⟩ := inductionHypothesis after stepped
        (fun state later => notStuck state (Relation.ReflTransGen.head stepped later))
      exact ⟨final, Relation.ReflTransGen.head stepped reached, done⟩

/-- Partitioning does not change the results. For every stream in the domain without
overflow, in any batches, and however the router, the workers and the deliveries to
the sink interleave: no state of a run has failed or is stuck, no run goes on for
ever, and a finished run has delivered the results of the single-threaded engine, with
the same last result for each key and window and the same counts of records. -/
theorem partitioned_matches_pipeline {τ : Type} [Source τ] (config : PartitionedConfig)
    (capacity : 0 < config.queueCapacity) (source : σ) (batches : List Batch)
    (delivers : Source.Delivers source batches) (single : τ) (singleBatches : List Batch)
    (singleDelivers : Source.Delivers single singleBatches)
    (sameStream : singleBatches.flatten = batches.flatten) (checkpointing : Bool)
    (domain : Assignable config.assigner batches.flatten)
    (room : Representable config.assigner config.allowedLateness batches.flatten)
    (fuel : Nat) (enough : singleBatches.length < fuel) :
    let begin : PartitionedPipeline n σ := start config source (fun _ => ∅) {}
    ∃ pipeline, Pipeline.run fuel single config.assigner config.allowedLateness checkpointing =
        .ok pipeline ∧
      (∀ state, Reaches begin state → state.error = none ∧
        (state.finished = false → ∃ after, Steps state after) ∧
        (state.finished = true → SameResults state.sink.results pipeline.results ∧
          state.stats Stats.recordsProcessed = pipeline.processor.stats.recordsProcessed ∧
          state.stats Stats.lateRecordsDropped =
            pipeline.processor.stats.lateRecordsDropped)) ∧
      Acc (fun after before => Steps before after) begin ∧
      ∃ final, Reaches begin final ∧ final.finished = true := by
  intro begin
  obtain ⟨fresh, created⟩ := start_fresh config source ({} : SinkLog n)
  have flowing := start_flowing config source (fun _ : Fin n => ∅) {} (fresh ▸ delivers)
  simp only [created] at flowing
  have shares (partition : Fin n) :=
    share_done config.checkpointing domain room partition
  have whole (partition : Fin n) : ∃ result,
      (KeyedProcessor.create config.assigner config.allowedLateness
        config.checkpointing).processItems (routed partition batches.flatten) = .ok result := by
    obtain ⟨effects, last, processed, _⟩ := shares partition
    exact ⟨_, processed⟩
  -- The single-threaded engine on the same stream.
  rw [← sameStream] at domain room
  obtain ⟨effects, processor, processed, tracks⟩ := processItems_tracks checkpointing domain room
  obtain ⟨pipeline, ran, last, done⟩ := Pipeline.runLoop_eq singleDelivers processed enough []
  obtain ⟨counted, late⟩ := processor.finalFlush_counters
  have notStuck (state : PartitionedPipeline n σ) (reached : Reaches begin state)
      (unfinished : state.finished = false) : ∃ after, Steps state after := by
    obtain ⟨_, _, _, here⟩ := flowing.reaches whole reached
    have exclusive := (Exclusive.start config source (fun _ => ∅) {}).reaches reached
    refine here.not_stuck exclusive ?_ unfinished
    rw [reached.config]
    exact capacity
  have terminates := flowing.terminates whole
  refine ⟨pipeline, ran, ?_, terminates, exists_finished terminates notStuck⟩
  intro state reached
  obtain ⟨_, _, _, here⟩ := flowing.reaches whole reached
  refine ⟨here.correct, notStuck state reached, ?_⟩
  intro finished
  obtain ⟨echoes, records, dropped⟩ := here.finished_echoes finished sameStream.symm
    (sameStream ▸ shares)
  refine ⟨sameResults_of_echoes echoes ?_, ?_, ?_⟩
  · rw [Pipeline.results, done, List.nil_append]
    exact tracks.flush_echoes.1
  · rw [records, last, counted, tracks.processed]
  · rw [dropped, last, late, tracks.dropped]

/-- Two workers with queues of one batch, and late data for five milliseconds. -/
def narrow : PartitionedConfig where
  assigner := tenMs.assignWindows
  allowedLateness := 5
  queueCapacity := 1
  checkpointing := false
  checkpointRetention := 0

/-- The late stream in two batches. -/
def halved : ScriptedSource := { script := [lateStream.take 2, lateStream.drop 2] }

/-- The late stream in one batch. -/
def undivided : ScriptedSource := { script := [lateStream] }

/-- The late stream on two workers: some run finishes, with the results of the
single-threaded engine on one batch. -/
theorem lateStream_partitioned :
    ∃ pipeline, Pipeline.run 2 undivided tenMs.assignWindows 5 true = .ok pipeline ∧
      ∃ final : PartitionedPipeline 2 ScriptedSource,
        Reaches (start narrow halved (fun _ => ∅) {}) final ∧ final.finished = true ∧
        SameResults final.sink.results pipeline.results := by
  obtain ⟨pipeline, ran, runs, _, final, reached, finished⟩ := partitioned_matches_pipeline (n := 2)
    narrow (by decide) halved halved.script (ScriptedSource.delivers halved) undivided
    undivided.script (ScriptedSource.delivers undivided) (by decide +kernel) true
    (assignable_of_all (by decide +kernel))
    (representable_of_magnitude (by decide +kernel) (by decide +kernel)) 2 (by decide)
  exact ⟨pipeline, ran, final, reached, finished, ((runs final reached).2.2 finished).1⟩

end Runs

end PartitionedPipeline

end Stormglass
