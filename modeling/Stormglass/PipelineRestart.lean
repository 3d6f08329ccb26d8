import Stormglass.GeneratorPlaces
import Stormglass.Pipeline
import Stormglass.ProcessorReplay

/-!
# Restarting the single-threaded engine

A run is killed behind one of its checkpoints, and a new one restores that checkpoint and seeks its
source. However often this happens, the results before the checkpoints and those of the last run are
together the results of a run that was never killed, each once.

The file of a checkpoint lists its entries in the order of hash tables, which is any order here. The
results of a firing leave it in such an order too, and a restore changes it. So results are compared
for each key and window: there the order is that of the firings.

A restored processor is a twin of the one that was written, and the source is led back to its place.
-/

namespace Stormglass

/-- The same data, listed in another order. -/
structure CheckpointData.Relists (file data : CheckpointData) : Prop where
  offset : file.offset = data.offset
  watermark : file.watermark = data.watermark
  panes : file.panes.Perm data.panes
  firedWindows : file.firedWindows.Perm data.firedWindows
  refiredWindows : file.refiredWindows.Perm data.refiredWindows

namespace Pipeline

variable {σ : Type} [Source σ]

/-- `TryRestore` of a new engine that has found a checkpoint. -/
def tryRestore (source : σ) (assigner : WindowAssigner) (allowedLateness : Nat)
    (data : CheckpointData) : Pipeline σ where
  source := Source.seek source data.offset
  processor := (KeyedProcessor.create assigner allowedLateness true).restore data

/-- The end of a run that may take so many rounds: it is killed behind a call, a checkpoint, whose
file lists the entries in some order. -/
structure Kill where
  fuel : Nat
  call : Nat
  listed : CheckpointData → CheckpointData
  relists : ∀ data, (listed data).Relists data

/-- The engine that takes over from a killed one, and all results up to the checkpoint. -/
def restart (source : σ) (assigner : WindowAssigner) (allowedLateness : Nat)
    (state : Pipeline σ × List WindowResult) (kill : Kill) :
    Option (Pipeline σ × List WindowResult) :=
  match runLoop kill.fuel state.1 with
  | .error _ => none
  | .ok done =>
      match done.effects[kill.call]? with
      | some (.checkpoint data) =>
          some (tryRestore source assigner allowedLateness (kill.listed data),
            state.2 ++ emissions (done.effects.take kill.call))
      | _ => none

/-- More fuel does not change a finished run. -/
theorem runLoop_le {fuel more : Nat} {pipeline done : Pipeline σ}
    (ran : runLoop fuel pipeline = .ok done) (enough : fuel ≤ more) :
    runLoop more pipeline = .ok done := by
  induction fuel generalizing pipeline more with
  | zero => cases ran
  | succ fuel inductionHypothesis =>
    obtain ⟨more, rfl⟩ : ∃ rest, more = rest + 1 := ⟨more - 1, by omega⟩
    have still : fuel ≤ more := by omega
    rw [runLoop] at ran ⊢
    cases called : Source.next pipeline.source with
    | none => rwa [called] at ran
    | some handed =>
      rw [called] at ran
      dsimp only at ran ⊢
      split_ifs at ran ⊢
      · exact inductionHypothesis ran still
      · cases taken : pipeline.processor.processItems handed.1 with
        | error thrown =>
          rw [taken] at ran
          cases ran
        | ok result =>
          rw [taken] at ran
          exact inductionHypothesis ran still

end Pipeline

/-! ## The calls of a run -/

namespace KeyedProcessor

/-- The final flush writes no checkpoint. -/
theorem finalFlush_writes_nothing (processor : KeyedProcessor) (data : CheckpointData) :
    Effect.checkpoint data ∉ processor.finalFlush.1 := by
  unfold finalFlush
  dsimp only
  split <;> simp

/-- A file gives the captured processor back, in whatever order it lists the entries. -/
theorem Twins.of_relists {assigner : WindowAssigner} {lateness offset : Nat}
    {processor : KeyedProcessor} (carried : Carried assigner lateness processor)
    {file : CheckpointData} (relists : file.Relists (processor.capture offset)) :
    Twins ((create assigner lateness true).restore file) processor := by
  obtain ⟨place, watermark, panes, fired, refired⟩ := file
  obtain ⟨-, same, allPanes, allFired, allRefired⟩ := relists
  obtain rfl : watermark = processor.watermark := same
  exact restore_contents carried _ true ⟨panes, fired, refired, allPanes, allFired, allRefired⟩

end KeyedProcessor

/-! ## Chains of restarts -/

namespace Pipeline

open KeyedProcessor DeterministicGenerator

variable {ε : Type} [RandomEngine ε] {config : GeneratorConfig} {valid : config.Valid}
  {assigner : WindowAssigner} {allowedLateness count : Nat} {base last : KeyedProcessor}
  {state after : Pipeline (DeterministicGenerator ε) × List WindowResult} {whole : List Effect}

/-- The engine continues the run of a processor behind a number of rounds, and the results up to
there have been emitted. -/
structure Continues (config : GeneratorConfig) (valid : config.Valid) (base : KeyedProcessor)
    (state : Pipeline (DeterministicGenerator ε) × List WindowResult) (count : Nat) : Prop where
  source : state.1.source = (initial config valid).seek count
  inside : count ≤ config.numRecords
  idle : state.1.effects = []
  reached : ∃ made behind, base.processItems (roundsOf ε config valid count) = .ok (made, behind) ∧
    Twins state.1.processor behind ∧ state.2 = emissions made

/-- What is left of the run, and which checkpoints it writes. -/
theorem Continues.run (continues : Continues config valid base state count)
    (completed : base.processItems (wholeStream ε config valid) = .ok (whole, last)) :
    ∃ needed done, (∀ fuel, needed ≤ fuel → runLoop fuel state.1 = .ok done) ∧
      state.2 ++ done.results = emissions (whole ++ last.finalFlush.1) ∧
      ∀ call data, done.effects[call]? = some (.checkpoint data) →
        data.offset ≤ config.numRecords ∧ ∃ made behind,
          base.processItems (roundsOf ε config valid data.offset) = .ok (made, behind) ∧
          data = behind.capture data.offset ∧
          emissions made = state.2 ++ emissions (done.effects.take call) := by
  obtain ⟨⟨source, processor, effects⟩, kept⟩ := state
  obtain ⟨rfl, inside, rfl, before, middle, reached, twins, rfl⟩ := continues
  rw [wholeStream_split inside] at completed
  obtain ⟨earlier, between, rest, front, remaining, rfl⟩ := processItems_split completed
  obtain ⟨rfl, rfl⟩ := Prod.mk.inj (Except.ok.inj (reached.symm.trans front))
  obtain ⟨batches, delivers, flat⟩ := @seek_delivers ε _ _ valid count
  obtain ⟨effects, final, processed, ends, same, writes⟩ := twins.items remaining
  rw [← flat] at processed
  obtain ⟨done, ran, -, all⟩ := runLoop_eq delivers processed (Nat.lt_succ_self _) []
  rw [List.nil_append] at all
  refine ⟨_, done, fun fuel enough => runLoop_le ran enough, ?_, fun call data written => ?_⟩
  · rw [results, all, emissions_append, emissions_append, emissions_append, same, ends.finalFlush,
      List.append_assoc]
  · rw [all] at written ⊢
    have early : call < effects.length := by
      by_contra beyond
      rw [List.getElem?_append_right (not_lt.mp beyond)] at written
      exact finalFlush_writes_nothing _ _ (List.mem_of_getElem? written)
    rw [List.getElem?_append_left early] at written
    obtain ⟨front, control, back, made, behind, split, kind, taken, rfl, upTo⟩ :=
      writes call data written
    -- The items up to the barrier are the rounds that its offset counts.
    have stream : wholeStream ε config valid =
        (roundsOf ε config valid count ++ front) ++ .control control :: back := by
      rw [wholeStream_split inside, split, List.append_assoc]
    obtain ⟨bounded, rounds⟩ := wholeStream_barrier stream kind
    have there := processItems_append reached taken
    rw [← List.append_assoc, ← rounds] at there
    rw [List.take_append_of_le_length early.le, ← upTo, ← emissions_append]
    exact ⟨bounded, _, behind, there, rfl, rfl⟩

/-- A run that takes over at a checkpoint continues behind the barrier. -/
theorem Continues.next (new : base = .create assigner allowedLateness true)
    (completed : base.processItems (wholeStream ε config valid) = .ok (whole, last))
    (continues : Continues config valid base state count) {kill : Kill}
    (ran : restart (initial config valid) assigner allowedLateness state kill = some after) :
    ∃ offset, Continues config valid base after offset := by
  obtain ⟨needed, done, runs, -, writes⟩ := continues.run completed
  unfold restart at ran
  split at ran
  · cases ran
  · next early finished =>
    obtain rfl : early = done := Except.ok.inj
      ((runLoop_le finished (Nat.le_max_left _ needed)).symm.trans (runs _ (Nat.le_max_right _ _)))
    split at ran
    · next data written =>
      obtain rfl := Option.some.inj ran
      obtain ⟨inside, made, behind, reached, same, upTo⟩ := writes _ data written
      have reachable : Reachable assigner allowedLateness base := new ▸ .create true
      have there := reachable.items (roundsOf ε config valid data.offset)
      rw [reached] at there
      have source : Source.seek (initial config valid) (kill.listed data).offset =
          (initial config valid : DeterministicGenerator ε).seek data.offset := by
        rw [(kill.relists data).offset]
        rfl
      have relists : (kill.listed data).Relists (behind.capture data.offset) := by
        rw [← same]
        exact kill.relists data
      exact ⟨data.offset, source, inside, rfl, made, behind, reached,
        .of_relists there.carried relists, upTo.symm⟩
    · cases ran

theorem Continues.chain (new : base = .create assigner allowedLateness true)
    (completed : base.processItems (wholeStream ε config valid) = .ok (whole, last))
    (continues : Continues config valid base state count) {kills : List Kill}
    (ran : kills.foldlM (restart (initial config valid) assigner allowedLateness) state =
      some after) : ∃ offset, Continues config valid base after offset := by
  induction kills generalizing state count with
  | nil =>
    obtain rfl := Option.some.inj ran
    exact ⟨count, continues⟩
  | cons kill kills inductionHypothesis =>
    rw [List.foldlM_cons] at ran
    obtain ⟨middle, first, rest⟩ := Option.bind_eq_some_iff.mp ran
    obtain ⟨offset, later⟩ := continues.next new completed first
    exact inductionHypothesis later rest

/-- A job whose runs are killed behind checkpoints, any number of times, emits for every key and
window what a run that was never killed emits, each result once and in the same order. -/
theorem restarted_runs_emit_once
    (completed : (KeyedProcessor.create assigner allowedLateness true).processItems
      (wholeStream ε config valid) = .ok (whole, last)) {kills : List Kill}
    (ran : kills.foldlM (restart (initial config valid) assigner allowedLateness)
      (create (initial config valid) assigner allowedLateness true, []) = some after) :
    ∃ needed single done, (∀ fuel, needed ≤ fuel →
        run fuel (initial config valid : DeterministicGenerator ε) assigner allowedLateness true =
          .ok single ∧ runLoop fuel after.1 = .ok done) ∧
      ∀ key window, KeyedWindowState.resultsFor key window (after.2 ++ done.results) =
        KeyedWindowState.resultsFor key window single.results := by
  have start : Continues config valid (.create assigner allowedLateness true)
      (create (initial config valid : DeterministicGenerator ε) assigner allowedLateness true, [])
      0 :=
    ⟨rfl, Nat.zero_le _, rfl, [], _, rfl, ⟨rfl, rfl, rfl, rfl⟩, rfl⟩
  obtain ⟨offset, behind⟩ := start.chain rfl completed ran
  obtain ⟨one, single, runs, all, -⟩ := start.run completed
  obtain ⟨other, done, continued, rest, -⟩ := behind.run completed
  refine ⟨max one other, single, done, fun fuel enough => ⟨runs fuel (le_of_max_le_left enough),
    continued fuel (le_of_max_le_right enough)⟩, fun key window => ?_⟩
  rw [rest, ← all]
  rfl

section Pairs

attribute [local instance] lowestDraws

/-- Five records with a barrier after every second one. -/
def pairs : GeneratorConfig := { fiveRecords with checkpointInterval := 2 }

theorem pairs_valid : pairs.Valid := by decide

def pairsSource : DeterministicGenerator Unit := initial pairs pairs_valid

def pairsAssigner : WindowAssigner := TumblingAssigner.assignWindows ⟨2, by decide, by decide⟩

/-- A run that is killed behind a call and whose checkpoint lists its entries backwards. -/
def backwards (call : Nat) : Kill where
  fuel := 9
  call := call
  listed data :=
    { data with
      panes := data.panes.reverse
      firedWindows := data.firedWindows.reverse
      refiredWindows := data.refiredWindows.reverse }
  relists _ := ⟨rfl, rfl, List.reverse_perm _, List.reverse_perm _, List.reverse_perm _⟩

/-- The first run is killed behind the first barrier, and the one that takes over behind the
second. -/
theorem pairs_restarted :
    ∃ after, [backwards 1, backwards 3].foldlM (restart pairsSource pairsAssigner 0)
        (create pairsSource pairsAssigner 0 true, []) = some after ∧
      ∃ needed single done, (∀ fuel, needed ≤ fuel →
          run fuel pairsSource pairsAssigner 0 true = .ok single ∧
          runLoop fuel after.1 = .ok done) ∧
        ∀ key window, KeyedWindowState.resultsFor key window (after.2 ++ done.results) =
          KeyedWindowState.resultsFor key window single.results := by
  have restarted : ([backwards 1, backwards 3].foldlM (restart pairsSource pairsAssigner 0)
      (create pairsSource pairsAssigner 0 true, [])).isSome = true := by decide +kernel
  have taken : ((KeyedProcessor.create pairsAssigner 0 true).processItems
      (wholeStream Unit pairs pairs_valid)).toBool = true := by decide +kernel
  obtain ⟨after, ran⟩ := Option.isSome_iff_exists.mp restarted
  cases completed : (KeyedProcessor.create pairsAssigner 0 true).processItems
      (wholeStream Unit pairs pairs_valid) with
  | ok result => exact ⟨after, ran, restarted_runs_emit_once completed ran⟩
  | error thrown =>
    rw [completed] at taken
    cases taken

end Pairs

end Pipeline

end Stormglass
