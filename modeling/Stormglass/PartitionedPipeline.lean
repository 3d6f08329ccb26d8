import Stormglass.KeyedProcessor
import Stormglass.Source

/-!
# The multi-worker engine

`PartitionedPipeline::Run` is a system of threads: a router that pulls batches from
the source and pushes each worker's share into a bounded queue, and workers that pop
batches, process their messages, and hand results to the shared sink under a mutex.
With a checkpoint directory a run starts from the highest checkpoint that every
partition holds, and every barrier writes one file for each partition.

The model is a transition system. An action names the thread that takes the next
atomic step: one queue operation, one message, one delivery to the sink, one flush,
one checkpoint renamed into place, or one old file deleted. A step that would block
is not enabled. The run is not asked to stop; a failure of a worker, which cancels
the run, is modelled as one step.
-/

namespace Stormglass

/-- The 64-bit FNV-1a hash. -/
def fnv1a64 (data : Bytes) : UInt64 :=
  data.foldl (fun hash byte => (hash ^^^ byte.toUInt64) * 1099511628211) 14695981039346656037

section Partitions

variable {n : Nat} [NeZero n]

/-- The worker of a key. -/
def partitionForKey (key : Bytes) : Fin n :=
  ⟨(fnv1a64 key).toNat % n, Nat.mod_lt _ (NeZero.pos n)⟩

/-- The share of a worker: its records, and every control record. -/
def routed (partition : Fin n) (items : Batch) : Batch :=
  items.filter (fun item => match item with
    | .record record => partitionForKey record.key = partition
    | .control _ => true)

end Partitions

/-- `EndOfStream` follows the last item. -/
inductive WorkerMessage where
  | item (item : BatchItem)
  | endOfStream
deriving DecidableEq

abbrev WorkerBatch := List WorkerMessage

/-- What is left of the call that a worker is executing. `forward` is the loop of
`DeliverLocked`, and `prune` that of `PruneBelowLocked`. -/
inductive Act where
  | emit (result : WindowResult)
  | lock
  | forward
  | flush
  | unlock
  | save (data : CheckpointData)
  | report (offset : Nat)
  | prune (cutoff : Nat)
deriving DecidableEq

namespace Act

/-- The steps of `ForwardingSink::Flush`. -/
def flushActs : List Act := [lock, forward, flush, unlock]

/-- The steps of `ForwardingSink::Drain`. -/
def drainActs (pending : List WindowResult) : List Act :=
  if pending = [] then [] else [lock, forward, unlock]

/-- The steps that carry out an effect of the processor. -/
def ofEffect : Effect → List Act
  | .emit result => [emit result]
  | .flush => flushActs
  | .checkpoint data => [save data, report data.offset]

end Act

/-- Where the loop of a worker continues after the current call. -/
inductive Stage where
  | handling (messages : WorkerBatch)
  | popping
  | stopped
  | exited
deriving DecidableEq

/-- A worker thread with its input queue, its forwarding sink and its processor. -/
structure Worker where
  processor : KeyedProcessor
  queue : List WorkerBatch := []
  closed : Bool := false
  pending : List WindowResult := []
  acts : List Act := []
  stage : Stage := .popping

/-- The thread has returned. -/
def Worker.Returned (worker : Worker) : Prop := worker.acts = [] ∧ worker.stage = .exited

instance (worker : Worker) : Decidable worker.Returned := inferInstanceAs (Decidable (_ ∧ _))

/-- What is left of the router thread. -/
inductive RouterTask (n : Nat) where
  | pull
  | push (partition : Fin n) (batch : WorkerBatch)
  | close (partition : Fin n)
deriving DecidableEq

/-- The valid checkpoint files of a partition, by offset. -/
abbrev Directory := Std.ExtTreeMap Nat CheckpointData

/-- `PartitionedCheckpointTracker`. Its mutex is held while files are deleted. -/
structure Tracker (n : Nat) where
  retain : Nat
  latest : Fin n → Option Nat := fun _ => none
  complete : List Nat := []
  holder : Option (Fin n) := none

/-- The caller's sink: what was emitted, by which worker, and how much of it the last
flush covered. -/
structure SinkLog (n : Nat) where
  emitted : List (Fin n × WindowResult) := []
  flushed : Nat := 0

namespace SinkLog

variable {n : Nat}

def emit (sink : SinkLog n) (worker : Fin n) (result : WindowResult) : SinkLog n :=
  { sink with emitted := sink.emitted ++ [(worker, result)] }

def flush (sink : SinkLog n) : SinkLog n := { sink with flushed := sink.emitted.length }

def results (sink : SinkLog n) : List WindowResult := sink.emitted.map Prod.snd

end SinkLog

structure PartitionedConfig where
  assigner : WindowAssigner
  allowedLateness : Nat
  queueCapacity : Nat
  checkpointing : Bool
  checkpointRetention : Nat

/-- The state of a run. -/
structure PartitionedPipeline (n : Nat) (σ : Type) where
  config : PartitionedConfig
  source : σ
  router : List (RouterTask n) := [.pull]
  workers : Fin n → Worker
  sink : SinkLog n
  /-- The worker that holds the sink mutex. -/
  holder : Option (Fin n) := none
  directories : Fin n → Directory
  tracker : Tracker n
  error : Option Failure := none
  cancelled : Bool := false
  finished : Bool := false

/-- `HighestCompleteCheckpoint`: the highest offset present in every partition. -/
def highestComplete {n : Nat} [NeZero n] (directories : Fin n → Directory) : Option Nat :=
  ((directories 0).keys.filter
    (fun offset => ∀ partition, offset ∈ directories partition)).max?

namespace Tracker

variable {n : Nat}

/-- The newest checkpoint that every partition has reported in this run. -/
def candidate (latest : Fin n → Option Nat) : Option Nat :=
  if ∀ partition, (latest partition).isSome = true then
    ((List.finRange n).filterMap latest).min?
  else none

/-- `OnPartitionCheckpoint` up to the deletion of files, whose bound is returned. -/
def onPartitionCheckpoint (tracker : Tracker n) (partition : Fin n) (offset : Nat) :
    Option Nat × Tracker n :=
  let latest := Function.update tracker.latest partition (some offset)
  let reported := { tracker with latest := latest }
  match candidate latest with
  | none => (none, reported)
  | some newest =>
      if tracker.complete.getLast?.any (fun last => newest ≤ last) then (none, reported)
      else
        let complete := tracker.complete ++ [newest]
        if tracker.retain = 0 then
          (none, { reported with complete := complete.drop (complete.length - 1) })
        else
          let kept := complete.drop (complete.length - tracker.retain)
          (kept.head?, { reported with complete := kept })

end Tracker

namespace PartitionedPipeline

variable {n : Nat} {σ : Type}

/-- The state in which the threads of a run start. It restores the highest complete
checkpoint of the directories, if there is one. -/
def start [NeZero n] [Source σ] (config : PartitionedConfig) (source : σ)
    (directories : Fin n → Directory) (sink : SinkLog n) : PartitionedPipeline n σ :=
  let fresh := KeyedProcessor.create config.assigner config.allowedLateness config.checkpointing
  let restored := if config.checkpointing = true then highestComplete directories else none
  { config := config
    source := match restored with
      | none => source
      | some offset => Source.seek source offset
    workers := fun partition =>
      { processor := match restored.bind (fun offset => (directories partition)[offset]?) with
          | none => fresh
          | some data => fresh.restore data }
    sink := sink
    directories := directories
    tracker := { retain := config.checkpointRetention, complete := restored.toList } }

def setWorker (pipeline : PartitionedPipeline n σ) (index : Fin n) (worker : Worker) :
    PartitionedPipeline n σ :=
  { pipeline with workers := Function.update pipeline.workers index worker }

/-- `fail`: remember the first error and close every queue. -/
def fail (pipeline : PartitionedPipeline n σ) (failure : Failure) : PartitionedPipeline n σ :=
  { pipeline with
    error := pipeline.error <|> some failure
    cancelled := true
    workers := fun index => { pipeline.workers index with closed := true } }

/-- The pushes of one source batch, one for each worker with a nonempty share. -/
def batchTasks [NeZero n] (batch : Batch) : List (RouterTask n) :=
  (List.finRange n).filterMap (fun partition =>
    let share := routed partition batch
    if share = [] then none else some (.push partition (share.map .item)))

/-- The sentinels at the end of the input. -/
def endTasks : List (RouterTask n) :=
  (List.finRange n).flatMap (fun partition => [.push partition [.endOfStream], .close partition])

/-- One step of the router. -/
def routerStep [NeZero n] [Source σ] (pipeline : PartitionedPipeline n σ) :
    Option (PartitionedPipeline n σ) :=
  match pipeline.router with
  | [] => none
  | .pull :: rest =>
      if pipeline.cancelled = true then some { pipeline with router := endTasks ++ rest }
      else
        match Source.next pipeline.source with
        | none => some { pipeline with router := endTasks ++ rest }
        | some (batch, source) =>
            some { pipeline with source := source, router := batchTasks batch ++ .pull :: rest }
  | .push partition batch :: rest =>
      let worker := pipeline.workers partition
      if worker.closed = true then some { pipeline with router := [] }
      else if worker.queue.length < pipeline.config.queueCapacity then
        some ({ pipeline with router := rest }.setWorker partition
          { worker with queue := worker.queue ++ [batch] })
      else none
  | .close partition :: rest =>
      some ({ pipeline with router := rest }.setWorker partition
        { pipeline.workers partition with closed := true })

/-- One step of a worker inside a call. -/
def actStep (pipeline : PartitionedPipeline n σ) (index : Fin n) (act : Act) (rest : List Act) :
    Option (PartitionedPipeline n σ) :=
  let worker := pipeline.workers index
  match act with
  | .emit result =>
      some (pipeline.setWorker index
        { worker with acts := rest, pending := worker.pending ++ [result] })
  | .lock =>
      if pipeline.holder = none then
        some ({ pipeline with holder := some index }.setWorker index { worker with acts := rest })
      else none
  | .forward =>
      match worker.pending with
      | [] => some (pipeline.setWorker index { worker with acts := rest })
      | result :: pending =>
          some ({ pipeline with sink := pipeline.sink.emit index result }.setWorker index
            { worker with pending := pending })
  | .flush =>
      some ({ pipeline with sink := pipeline.sink.flush }.setWorker index
        { worker with acts := rest })
  | .unlock =>
      some ({ pipeline with holder := none }.setWorker index { worker with acts := rest })
  | .save data =>
      some ({ pipeline with
        directories := Function.update pipeline.directories index
          ((pipeline.directories index).insert data.offset data) }.setWorker index
        { worker with acts := rest })
  | .report offset =>
      if pipeline.tracker.holder = none then
        match pipeline.tracker.onPartitionCheckpoint index offset with
        | (none, tracker) =>
            some ({ pipeline with tracker := tracker }.setWorker index { worker with acts := rest })
        | (some cutoff, tracker) =>
            some ({ pipeline with tracker := { tracker with holder := some index } }.setWorker index
              { worker with acts := .prune cutoff :: rest })
      else none
  | .prune _ =>
      -- Deletion is best effort, so it may end with files left.
      some ({ pipeline with tracker := { pipeline.tracker with holder := none } }.setWorker index
        { worker with acts := rest })

/-- One step of a worker between calls. -/
def stageStep (pipeline : PartitionedPipeline n σ) (index : Fin n) :
    Option (PartitionedPipeline n σ) :=
  let worker := pipeline.workers index
  match worker.stage with
  | .handling [] =>
      some (pipeline.setWorker index
        { worker with acts := Act.drainActs worker.pending, stage := .popping })
  | .handling (.endOfStream :: _) =>
      some (pipeline.setWorker index
        { worker with acts := Act.drainActs worker.pending, stage := .stopped })
  | .handling (.item item :: messages) =>
      match worker.processor.processItem item with
      | .error (failure, processor) =>
          some ((pipeline.setWorker index
            { worker with processor := processor, stage := .exited }).fail failure)
      | .ok (effects, processor) =>
          some (pipeline.setWorker index
            { worker with
              processor := processor
              acts := effects.flatMap Act.ofEffect
              stage := .handling messages })
  | .popping =>
      if pipeline.cancelled = true then
        some (pipeline.setWorker index { worker with stage := .stopped })
      else
        match worker.queue with
        | batch :: queue =>
            some (pipeline.setWorker index { worker with queue := queue, stage := .handling batch })
        | [] =>
            if worker.closed = true then
              some (pipeline.setWorker index { worker with stage := .stopped })
            else none
  | .stopped =>
      if pipeline.cancelled = true then
        some (pipeline.setWorker index { worker with stage := .exited })
      else
        let flushed := worker.processor.finalFlush
        some (pipeline.setWorker index
          { worker with
            processor := flushed.2
            acts := flushed.1.flatMap Act.ofEffect
            stage := .exited })
  | .exited => none

def workerStep (pipeline : PartitionedPipeline n σ) (index : Fin n) :
    Option (PartitionedPipeline n σ) :=
  match (pipeline.workers index).acts with
  | act :: rest => pipeline.actStep index act rest
  | [] => pipeline.stageStep index

/-- A worker that is pruning deletes one file below its bound. -/
def pruneStep (pipeline : PartitionedPipeline n σ) (index partition : Fin n) (offset : Nat) :
    Option (PartitionedPipeline n σ) :=
  match (pipeline.workers index).acts with
  | .prune cutoff :: _ =>
      if offset < cutoff ∧ offset ∈ pipeline.directories partition then
        some { pipeline with
          directories := Function.update pipeline.directories partition
            ((pipeline.directories partition).erase offset) }
      else none
  | _ => none

/-- The calling thread joins all others and flushes the sink. After an error it
throws instead. -/
def mergeStep (pipeline : PartitionedPipeline n σ) : Option (PartitionedPipeline n σ) :=
  if pipeline.finished = false ∧ pipeline.router = [] ∧
      (∀ index, (pipeline.workers index).Returned) then
    if pipeline.error.isSome = true then some { pipeline with finished := true }
    else some { pipeline with finished := true, sink := pipeline.sink.flush }
  else none

/-- Which thread takes the next step. -/
inductive Action (n : Nat) where
  | router
  | worker (index : Fin n)
  | prune (index partition : Fin n) (offset : Nat)
  | merge
deriving DecidableEq

def step [NeZero n] [Source σ] (pipeline : PartitionedPipeline n σ) :
    Action n → Option (PartitionedPipeline n σ)
  | .router => pipeline.routerStep
  | .worker index => pipeline.workerStep index
  | .prune index partition offset => pipeline.pruneStep index partition offset
  | .merge => pipeline.mergeStep

/-- One thread takes a step. -/
def Steps [NeZero n] [Source σ] (pipeline after : PartitionedPipeline n σ) : Prop :=
  ∃ action, pipeline.step action = some after

/-- The states of a run from a given one. -/
def Reaches [NeZero n] [Source σ] : PartitionedPipeline n σ → PartitionedPipeline n σ → Prop :=
  Relation.ReflTransGen Steps

/-- The counters of a finished run: sums over the workers. -/
def stats (pipeline : PartitionedPipeline n σ) (counter : Stats → Nat) : Nat :=
  ((List.finRange n).map (fun index => counter (pipeline.workers index).processor.stats)).sum

end PartitionedPipeline

end Stormglass
