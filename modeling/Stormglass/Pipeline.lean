import Stormglass.WindowEngine
import Stormglass.Source

/-!
# The single-threaded engine

`Pipeline::Run` pulls batches from its source, applies their items in order, and
flushes at the end of input. The model is a run that is not asked to stop and finds
no checkpoint to restore. How the source groups its items into batches, and how
often it has no data yet, makes no difference to what such a run does.
-/

namespace Stormglass

/-- The engine and everything it has done to its sink and checkpoint directory. -/
structure Pipeline (σ : Type) where
  source : σ
  processor : KeyedProcessor
  effects : List Effect := []

namespace Pipeline

variable {σ : Type} [Source σ]

def create (source : σ) (assigner : WindowAssigner) (allowedLateness : Nat)
    (checkpointing : Bool) : Pipeline σ where
  source := source
  processor := .create assigner allowedLateness checkpointing

/-- The final flush. -/
def finish (pipeline : Pipeline σ) : Pipeline σ :=
  let flushed := pipeline.processor.finalFlush
  { pipeline with processor := flushed.2, effects := pipeline.effects ++ flushed.1 }

/-- The main loop. The fuel bounds the number of batches. A failure comes with the
engine it leaves behind. -/
def runLoop : (fuel : Nat) → Pipeline σ → Except (Failure × Pipeline σ) (Pipeline σ)
  | 0, pipeline => .error (.unfinished, pipeline)
  | fuel + 1, pipeline =>
      match Source.next pipeline.source with
      | none => .ok pipeline.finish
      | some (batch, rest) =>
          -- A live source has no data yet; the wait is not modelled.
          if batch = [] then runLoop fuel { pipeline with source := rest }
          else
            match pipeline.processor.processItems batch with
            | .error (failure, effects, processor) =>
                .error (failure,
                  { source := rest, processor := processor
                    effects := pipeline.effects ++ effects })
            | .ok (effects, processor) =>
                runLoop fuel
                  { source := rest, processor := processor, effects := pipeline.effects ++ effects }

def run (fuel : Nat) (source : σ) (assigner : WindowAssigner) (allowedLateness : Nat)
    (checkpointing : Bool) : Except (Failure × Pipeline σ) (Pipeline σ) :=
  runLoop fuel (create source assigner allowedLateness checkpointing)

/-- The results that reached the sink. -/
def results (pipeline : Pipeline σ) : List WindowResult := emissions pipeline.effects

/-- The loop does what processing all items at once and flushing does. -/
theorem runLoop_eq {source : σ} {batches : List Batch} (delivers : Source.Delivers source batches)
    {processor final : KeyedProcessor} {effects : List Effect}
    (processed : processor.processItems batches.flatten = .ok (effects, final))
    {fuel : Nat} (enough : batches.length < fuel) (earlier : List Effect) :
    ∃ pipeline,
      runLoop fuel { source := source, processor := processor, effects := earlier } =
        .ok pipeline ∧
      pipeline.processor = final.finalFlush.2 ∧
      pipeline.effects = earlier ++ (effects ++ final.finalFlush.1) := by
  induction delivers generalizing processor effects fuel earlier with
  | @ended source observed =>
    obtain ⟨fuel, rfl⟩ : ∃ rest, fuel = rest + 1 := ⟨fuel - 1, by omega⟩
    obtain ⟨rfl, rfl⟩ := Prod.mk.inj (Except.ok.inj processed)
    refine ⟨finish ⟨source, processor, earlier⟩, ?_, rfl, rfl⟩
    rw [runLoop, observed]
  | @handed source rest batch batches observed later inductionHypothesis =>
    obtain ⟨fuel, rfl⟩ : ∃ rest, fuel = rest + 1 := ⟨fuel - 1, by omega⟩
    rw [List.length_cons] at enough
    rw [List.flatten_cons] at processed
    obtain ⟨first, middle, second, before, after, split⟩ := processItems_split processed
    rw [runLoop, observed]
    dsimp only
    by_cases empty : batch = []
    · subst empty
      rw [if_pos rfl]
      exact inductionHypothesis processed (by omega) earlier
    · rw [if_neg empty, before]
      obtain ⟨pipeline, looped, same, done⟩ :=
        inductionHypothesis after (by omega : batches.length < fuel) (earlier ++ first)
      refine ⟨pipeline, looped, same, ?_⟩
      rw [done, split]
      simp only [List.append_assoc]

/-- What a run leaves behind apart from its source: the failure if there was one, what it has
done, and its processor. -/
def outcome (result : Except (Failure × Pipeline σ) (Pipeline σ)) :
    Option Failure × List Effect × KeyedProcessor :=
  match result with
  | .ok pipeline => (none, pipeline.effects, pipeline.processor)
  | .error (failure, pipeline) => (some failure, pipeline.effects, pipeline.processor)

/-- What processing all items at once and flushing leaves behind. -/
def processed (processor : KeyedProcessor) (items : Batch) (earlier : List Effect) :
    Option Failure × List Effect × KeyedProcessor :=
  match processor.processItems items with
  | .ok (effects, final) =>
    (none, earlier ++ (effects ++ final.finalFlush.1), final.finalFlush.2)
  | .error (failure, effects, final) => (some failure, earlier ++ effects, final)

/-- Items in two portions. -/
theorem processed_append {processor : KeyedProcessor} {first : Batch} (second : Batch)
    (earlier : List Effect) :
    processed processor (first ++ second) earlier =
      match processor.processItems first with
      | .ok (effects, middle) => processed middle second (earlier ++ effects)
      | .error (failure, effects, final) => (some failure, earlier ++ effects, final) := by
  induction first generalizing processor earlier with
  | nil => simp [KeyedProcessor.processItems]
  | cons item first inductionHypothesis =>
    cases one : processor.processItem item with
    | error thrown => simp [processed, KeyedProcessor.processItems, one]
    | ok result =>
      obtain ⟨effects, middle⟩ := result
      have rest := @inductionHypothesis middle (earlier ++ effects)
      simp only [processed, List.cons_append, KeyedProcessor.processItems, one] at rest ⊢
      cases later : middle.processItems (first ++ second) <;>
        cases front : middle.processItems first <;>
          simp_all [List.append_assoc]

/-- The loop leaves behind what processing all items at once and flushing does, also when an
item is refused. -/
theorem runLoop_outcome {source : σ} {batches : List Batch}
    (delivers : Source.Delivers source batches) (processor : KeyedProcessor) {fuel : Nat}
    (enough : batches.length < fuel) (earlier : List Effect) :
    outcome (runLoop fuel { source := source, processor := processor, effects := earlier }) =
      processed processor batches.flatten earlier := by
  induction delivers generalizing processor fuel earlier with
  | ended observed =>
    obtain ⟨fuel, rfl⟩ : ∃ rest, fuel = rest + 1 := ⟨fuel - 1, by omega⟩
    rw [runLoop, observed]
    rfl
  | @handed source rest batch batches observed later inductionHypothesis =>
    obtain ⟨fuel, rfl⟩ : ∃ rest, fuel = rest + 1 := ⟨fuel - 1, by omega⟩
    rw [List.length_cons] at enough
    rw [runLoop, observed, List.flatten_cons, processed_append]
    dsimp only
    by_cases empty : batch = []
    · subst empty
      rw [if_pos rfl, inductionHypothesis processor (by omega)]
      simp [KeyedProcessor.processItems]
    · rw [if_neg empty]
      cases front : processor.processItems batch with
      | error thrown => rfl
      | ok result => exact inductionHypothesis result.2 (by omega) (earlier ++ result.1)

end Pipeline

end Stormglass
