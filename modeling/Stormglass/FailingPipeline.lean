import Stormglass.PartitionedRuns

/-!
# Runs with exceptions

`PartitionedPipeline` cancels a run in one step. Here an exception may leave any thread at any
point, and `fail` then takes its own steps beside the other threads: it remembers the exception,
sets the flag `cancelled`, and closes the queues one after the other. A load of the flag and the
call it guards are two steps, so a thread may act on a value that no longer holds.

The calls themselves are those of `PartitionedPipeline`, and a run that meets no exception is a
run of it.
-/

namespace Stormglass

inductive Thread (n : Nat) where
  | router
  | worker (index : Fin n)
deriving DecidableEq

/-- What is left of a call of `fail`. -/
inductive FailTask (n : Nat) where
  | record (failure : Failure)
  | cancel
  | close (partition : Fin n)
deriving DecidableEq

/-- The state of a run with exceptions. -/
structure FailingPipeline (n : Nat) (σ : Type) where
  pipeline : PartitionedPipeline n σ
  /-- The thread has loaded `cancelled`, found it unset, and goes on to the guarded call. -/
  admitted : Thread n → Bool := fun _ => false
  handlers : Thread n → List (FailTask n) := fun _ => []
  /-- The messages that each worker has processed. The code does not keep this history. -/
  handled : Fin n → WorkerBatch := fun _ => []

namespace FailingPipeline

open PartitionedPipeline (endTasks batchTasks)

variable {n : Nat} {σ : Type}

def start [NeZero n] [Source σ] (config : PartitionedConfig) (source : σ)
    (directories : Fin n → Directory) (sink : SinkLog n) : FailingPipeline n σ :=
  { pipeline := PartitionedPipeline.start config source directories sink }

/-- The steps of `fail`. -/
def failTasks (failure : Failure) : List (FailTask n) :=
  .record failure :: .cancel :: (List.finRange n).map .close

def setAdmitted (state : FailingPipeline n σ) (thread : Thread n) (value : Bool) :
    FailingPipeline n σ :=
  { state with admitted := Function.update state.admitted thread value }

/-- Replaces the state of a worker. -/
def setWorker (state : FailingPipeline n σ) (index : Fin n) (worker : Worker) :
    FailingPipeline n σ :=
  { state with pipeline := state.pipeline.setWorker index worker }

/-- A worker has processed one more message. -/
def note (state : FailingPipeline n σ) (index : Fin n) (message : WorkerMessage) :
    FailingPipeline n σ :=
  { state with
    handled := Function.update state.handled index (state.handled index ++ [message]) }

/-- What the exception unwinds: the router has nothing left to do, a worker gives back the
mutexes that its guards hold and leaves its function. -/
def unwind (pipeline : PartitionedPipeline n σ) : Thread n → PartitionedPipeline n σ
  | .router => { pipeline with router := [] }
  | .worker index =>
      { pipeline with
        holder := if pipeline.holder = some index then none else pipeline.holder
        tracker := { pipeline.tracker with
          holder := if pipeline.tracker.holder = some index then none
            else pipeline.tracker.holder } }.setWorker index
        { pipeline.workers index with acts := [], stage := .exited }

/-- An exception reaches the handler of the thread. -/
def throw (state : FailingPipeline n σ) (thread : Thread n) (failure : Failure) :
    FailingPipeline n σ :=
  { state with
    pipeline := unwind state.pipeline thread
    admitted := Function.update state.admitted thread false
    handlers := Function.update state.handlers thread (failTasks failure) }

/-- One step of `fail`. -/
def failStep (pipeline : PartitionedPipeline n σ) : FailTask n → PartitionedPipeline n σ
  | .record failure => { pipeline with error := pipeline.error <|> some failure }
  | .cancel => { pipeline with cancelled := true }
  | .close partition =>
      pipeline.setWorker partition { pipeline.workers partition with closed := true }

/-- One step of the router. -/
def routerStep [NeZero n] [Source σ] (state : FailingPipeline n σ) :
    Option (FailingPipeline n σ) :=
  match state.pipeline.router with
  | .pull :: rest =>
      if state.admitted .router = true then
        match Source.next state.pipeline.source with
        | none =>
            some ({ state with
              pipeline := { state.pipeline with router := endTasks ++ rest } }.setAdmitted
            .router false)
        | some (batch, source) =>
            some ({ state with
              pipeline := { state.pipeline with
                source := source
                router := batchTasks batch ++ RouterTask.pull :: rest } }.setAdmitted
            .router false)
      else if state.pipeline.cancelled = true then
        some { state with pipeline := { state.pipeline with router := endTasks ++ rest } }
      else some (state.setAdmitted .router true)
  | _ => state.pipeline.routerStep.map (fun pipeline => { state with pipeline := pipeline })

/-- One step of a worker between calls. -/
def stageStep (state : FailingPipeline n σ) (index : Fin n) : Option (FailingPipeline n σ) :=
  let worker := state.pipeline.workers index
  match worker.stage with
  | .handling [] =>
      some (state.setWorker index
        { worker with acts := Act.drainActs worker.pending, stage := .popping })
  | .handling (.endOfStream :: _) =>
      some ((state.setWorker index
        { worker with acts := Act.drainActs worker.pending, stage := .stopped }).note index
          .endOfStream)
  | .handling (.item item :: messages) =>
      match worker.processor.processItem item with
      | .error (failure, processor) =>
          some ((state.setWorker index { worker with processor := processor }).throw
            (.worker index) failure)
      | .ok (effects, processor) =>
          some ((state.setWorker index
            { worker with
              processor := processor
              acts := effects.flatMap Act.ofEffect
              stage := .handling messages }).note index (.item item))
  | .popping =>
      if state.admitted (.worker index) = true then
        match worker.queue with
        | batch :: queue =>
            some ((state.setWorker index
              { worker with queue := queue, stage := .handling batch }).setAdmitted
            (.worker index) false)
        | [] =>
            if worker.closed = true then
              some ((state.setWorker index { worker with stage := .stopped }).setAdmitted
                (.worker index) false)
            else none
      else if state.pipeline.cancelled = true then
        some (state.setWorker index { worker with stage := .stopped })
      else some (state.setAdmitted (.worker index) true)
  | .stopped =>
      if state.admitted (.worker index) = true then
        some ((state.setWorker index
          { worker with
            processor := worker.processor.finalFlush.2
            acts := worker.processor.finalFlush.1.flatMap Act.ofEffect
            stage := .exited }).setAdmitted (.worker index) false)
      else if state.pipeline.cancelled = true then
        some (state.setWorker index { worker with stage := .exited })
      else some (state.setAdmitted (.worker index) true)
  | .exited => none

def workerStep (state : FailingPipeline n σ) (index : Fin n) : Option (FailingPipeline n σ) :=
  match (state.pipeline.workers index).acts with
  | act :: rest =>
      (state.pipeline.actStep index act rest).map
        (fun pipeline => { state with pipeline := pipeline })
  | [] => state.stageStep index

/-- A thread goes on: with its handler if it has thrown, otherwise with its function. -/
def threadStep [NeZero n] [Source σ] (state : FailingPipeline n σ) (thread : Thread n) :
    Option (FailingPipeline n σ) :=
  match state.handlers thread with
  | task :: rest =>
      some { state with
        pipeline := failStep state.pipeline task
        handlers := Function.update state.handlers thread rest }
  | [] =>
      match thread with
      | .router => state.routerStep
      | .worker index => state.workerStep index

/-- The thread is inside its `try` block. -/
def Inside (state : FailingPipeline n σ) : Thread n → Prop
  | .router => state.handlers .router = [] ∧ state.pipeline.router ≠ []
  | .worker index =>
      state.handlers (.worker index) = [] ∧ ¬ (state.pipeline.workers index).Returned

instance (state : FailingPipeline n σ) (thread : Thread n) : Decidable (state.Inside thread) :=
  match thread with
  | .router => inferInstanceAs (Decidable (_ ∧ _))
  | .worker _ => inferInstanceAs (Decidable (_ ∧ _))

/-- All threads have returned. -/
def Joined (state : FailingPipeline n σ) : Prop :=
  state.handlers .router = [] ∧ state.pipeline.router = [] ∧
    ∀ index, state.handlers (.worker index) = [] ∧ (state.pipeline.workers index).Returned

instance (state : FailingPipeline n σ) : Decidable state.Joined :=
  inferInstanceAs (Decidable (_ ∧ _))

/-- Whose step is next. An exception may leave a thread at any point of its `try` block. -/
inductive Action (n : Nat) where
  | run (thread : Thread n)
  | throw (thread : Thread n) (failure : Failure)
  | prune (index partition : Fin n) (offset : Nat)
  | merge
deriving DecidableEq

def step [NeZero n] [Source σ] (state : FailingPipeline n σ) :
    Action n → Option (FailingPipeline n σ)
  | .run thread => state.threadStep thread
  | .throw thread failure => if state.Inside thread then some (state.throw thread failure) else none
  | .prune index partition offset =>
      (state.pipeline.pruneStep index partition offset).map
        (fun pipeline => { state with pipeline := pipeline })
  | .merge =>
      if state.Joined then
        state.pipeline.mergeStep.map (fun pipeline => { state with pipeline := pipeline })
      else none

def Steps [NeZero n] [Source σ] (state after : FailingPipeline n σ) : Prop :=
  ∃ action, state.step action = some after

/-- The states of a run from a given one. -/
def Reaches [NeZero n] [Source σ] : FailingPipeline n σ → FailingPipeline n σ → Prop :=
  Relation.ReflTransGen Steps

/-- The next step of the worker calls `FinalFlush`. -/
def Flushing (state : FailingPipeline n σ) (index : Fin n) : Prop :=
  state.handlers (.worker index) = [] ∧ (state.pipeline.workers index).acts = [] ∧
    (state.pipeline.workers index).stage = .stopped ∧ state.admitted (.worker index) = true

end FailingPipeline

end Stormglass
