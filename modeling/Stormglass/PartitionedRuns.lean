import Stormglass.PartitionedPipeline
import Stormglass.Pipeline

/-!
# Runs of the multi-worker engine

Whatever the threads do in whatever order, every worker consumes exactly its share
of the items that the router has taken, in order, and every result it produces is
delivered, waits in its forwarding sink, or is about to be emitted. `Move` lists
what a step of a worker can do; `Flowing` is the invariant, and it holds in every
state of a run.
-/

namespace Stormglass

section Shares

variable {n : Nat} [NeZero n]

@[simp] theorem routed_append (partition : Fin n) (first second : Batch) :
    routed partition (first ++ second) = routed partition first ++ routed partition second :=
  List.filter_append ..

@[simp] theorem routed_nil (partition : Fin n) : routed partition [] = [] := rfl

end Shares

/-- The results that a worker's current call will still emit. -/
def Act.emits (acts : List Act) : List WindowResult :=
  acts.filterMap (fun act => match act with
    | .emit result => some result
    | _ => none)

@[simp] theorem Act.emits_nil : Act.emits [] = [] := rfl

@[simp] theorem Act.emits_drainActs (pending : List WindowResult) :
    Act.emits (Act.drainActs pending) = [] := by
  unfold drainActs
  split <;> rfl

/-- A call emits what its effects emit. -/
theorem Act.emits_effects (effects : List Effect) :
    Act.emits (effects.flatMap Act.ofEffect) = emissions effects := by
  induction effects with
  | nil => rfl
  | cons effect rest inductionHypothesis =>
    rw [List.flatMap_cons, Act.emits, List.filterMap_append]
    change Act.emits (Act.ofEffect effect) ++ Act.emits (rest.flatMap Act.ofEffect) = _
    rw [inductionHypothesis]
    cases effect <;> rfl

/-- The rest of a call leaves no result waiting: what it emits, it forwards. -/
def Act.Clears : (waiting : Bool) → List Act → Prop
  | waiting, [] => waiting = false
  | _, .emit _ :: rest => Clears true rest
  | _, .forward :: rest => Clears false rest
  | waiting, _ :: rest => Clears waiting rest

/-- The final flush ends by forwarding everything. -/
theorem Act.clears_finalFlush (processor : KeyedProcessor) (waiting : Bool) :
    Act.Clears waiting (processor.finalFlush.1.flatMap Act.ofEffect) := by
  obtain ⟨results, effects⟩ : ∃ results : List WindowResult,
      processor.finalFlush.1 = results.map .emit ++ [.flush] := by
    unfold KeyedProcessor.finalFlush
    dsimp only
    split <;> exact ⟨_, rfl⟩
  rw [effects]
  clear effects
  induction results generalizing waiting with
  | nil => rfl
  | cons result rest inductionHypothesis => exact inductionHypothesis true

namespace Stage

/-- The messages of the batch that a worker is handling. -/
def messages : Stage → WorkerBatch
  | .handling messages => messages
  | _ => []

/-- The loop of the worker still reads messages. -/
def Reading : Stage → Prop
  | .handling _ => True
  | .popping => True
  | _ => False

end Stage

namespace Worker

/-- What one step does to its own worker. `out` is what reaches the caller's sink. -/
inductive Move (worker : Worker) : List WindowResult → Worker → Prop where
  | emitted {result : WindowResult} {rest : List Act}
      (calling : worker.acts = .emit result :: rest) :
      Move worker [] { worker with acts := rest, pending := worker.pending ++ [result] }
  | forwarded {result : WindowResult} {pending : List WindowResult} {rest : List Act}
      (calling : worker.acts = .forward :: rest) (waiting : worker.pending = result :: pending) :
      Move worker [result] { worker with pending := pending }
  | passed {act : Act} {rest : List Act} (calling : worker.acts = act :: rest)
      (silent : ∀ result, act ≠ .emit result)
      (empty : act = .forward → worker.pending = []) :
      Move worker [] { worker with acts := rest }
  | pruning {offset cutoff : Nat} {rest : List Act}
      (calling : worker.acts = .report offset :: rest) :
      Move worker [] { worker with acts := .prune cutoff :: rest }
  | drained (idle : worker.acts = []) (reading : worker.stage = .handling []) :
      Move worker []
        { worker with acts := Act.drainActs worker.pending, stage := .popping }
  | ended {later : WorkerBatch} (idle : worker.acts = [])
      (reading : worker.stage = .handling (.endOfStream :: later)) :
      Move worker []
        { worker with acts := Act.drainActs worker.pending, stage := .stopped }
  | handled {item : BatchItem} {messages : WorkerBatch} {effects : List Effect}
      {processor : KeyedProcessor} (idle : worker.acts = [])
      (reading : worker.stage = .handling (.item item :: messages))
      (processed : worker.processor.processItem item = .ok (effects, processor)) :
      Move worker []
        { worker with
          processor := processor
          acts := effects.flatMap Act.ofEffect
          stage := .handling messages }
  | popped {batch : WorkerBatch} {queue : List WorkerBatch} (idle : worker.acts = [])
      (reading : worker.stage = .popping) (queued : worker.queue = batch :: queue) :
      Move worker [] { worker with queue := queue, stage := .handling batch }
  | closedDown (idle : worker.acts = []) (reading : worker.stage = .popping)
      (empty : worker.queue = []) (closed : worker.closed = true) :
      Move worker [] { worker with stage := .stopped }
  | flushed (idle : worker.acts = []) (reading : worker.stage = .stopped) :
      Move worker []
        { worker with
          processor := worker.processor.finalFlush.2
          acts := worker.processor.finalFlush.1.flatMap Act.ofEffect
          stage := .exited }

/-- A worker that has left its loop forwards what it still holds. -/
def Clearing (worker : Worker) : Prop :=
  worker.stage = .exited → Act.Clears (decide (worker.pending ≠ [])) worker.acts

theorem Move.clearing {worker after : Worker} {out : List WindowResult}
    (move : worker.Move out after) (clearing : worker.Clearing) : after.Clearing := by
  intro exited
  cases move with
  | emitted calling =>
    have clears := clearing exited
    rw [calling, Act.Clears] at clears
    simpa using clears
  | forwarded calling waiting =>
    have clears := clearing exited
    rw [calling] at clears ⊢
    exact clears
  | @passed act rest calling silent empty =>
    have clears := clearing exited
    rw [calling] at clears
    cases act with
    | emit result => exact absurd rfl (silent result)
    | forward => simpa [empty rfl, Act.Clears] using clears
    | lock | flush | unlock | save | report | prune => exact clears
  | pruning calling =>
    have clears := clearing exited
    rw [calling] at clears
    exact clears
  | drained | ended | handled | popped | closedDown => simp at exited
  | flushed => exact Act.clears_finalFlush _ _

end Worker

namespace PartitionedPipeline

variable {n : Nat} {σ : Type}

/-- A step of one worker leaves the router, the flags and the other workers alone. -/
structure Local (pipeline : PartitionedPipeline n σ) (index : Fin n) (out : List WindowResult)
    (worker : Worker) (after : PartitionedPipeline n σ) : Prop where
  config : after.config = pipeline.config
  source : after.source = pipeline.source
  router : after.router = pipeline.router
  workers : after.workers = Function.update pipeline.workers index worker
  sink : after.sink.emitted = pipeline.sink.emitted ++ out.map (index, ·)
  error : after.error = pipeline.error
  cancelled : after.cancelled = pipeline.cancelled
  finished : after.finished = pipeline.finished

theorem setWorker_local (pipeline : PartitionedPipeline n σ) (index : Fin n) (worker : Worker) :
    Local pipeline index [] worker (pipeline.setWorker index worker) :=
  ⟨rfl, rfl, rfl, rfl, by simp [setWorker], rfl, rfl, rfl⟩

/-- Inside a call, a worker only moves results along. -/
theorem actStep_move {pipeline after : PartitionedPipeline n σ} {index : Fin n} {act : Act}
    {rest : List Act} (calling : (pipeline.workers index).acts = act :: rest)
    (stepped : pipeline.actStep index act rest = some after) :
    ∃ out worker, (pipeline.workers index).Move out worker ∧
      Local pipeline index out worker after := by
  have silently (silent : ∀ result, act ≠ .emit result)
      (empty : act = .forward → (pipeline.workers index).pending = []) :
      (pipeline.workers index).Move [] { pipeline.workers index with acts := rest } :=
    .passed calling silent empty
  cases act with
  | emit result =>
    obtain rfl := Option.some.inj stepped
    exact ⟨[], _, .emitted calling, setWorker_local _ _ _⟩
  | lock =>
    rw [actStep] at stepped
    split at stepped
    · obtain rfl := Option.some.inj stepped
      exact ⟨[], _, silently (by simp) (by simp),
        ⟨rfl, rfl, rfl, rfl, by simp [setWorker], rfl, rfl, rfl⟩⟩
    · simp at stepped
  | forward =>
    rw [actStep] at stepped
    split at stepped
    · next empty =>
      obtain rfl := Option.some.inj stepped
      exact ⟨[], _, silently (by simp) (fun _ => empty), setWorker_local _ _ _⟩
    · next result pending waiting =>
      obtain rfl := Option.some.inj stepped
      exact ⟨[result], _, .forwarded calling waiting, ⟨rfl, rfl, rfl, rfl, rfl, rfl, rfl, rfl⟩⟩
  | flush =>
    obtain rfl := Option.some.inj stepped
    exact ⟨[], _, silently (by simp) (by simp),
      ⟨rfl, rfl, rfl, rfl, by simp [setWorker, SinkLog.flush], rfl, rfl, rfl⟩⟩
  | unlock | save | prune =>
    obtain rfl := Option.some.inj stepped
    exact ⟨[], _, silently (by simp) (by simp),
      ⟨rfl, rfl, rfl, rfl, by simp [setWorker], rfl, rfl, rfl⟩⟩
  | report offset =>
    rw [actStep] at stepped
    split at stepped
    · split at stepped
      · obtain rfl := Option.some.inj stepped
        exact ⟨[], _, silently (by simp) (by simp),
          ⟨rfl, rfl, rfl, rfl, by simp [setWorker], rfl, rfl, rfl⟩⟩
      · obtain rfl := Option.some.inj stepped
        exact ⟨[], _, .pruning calling,
          ⟨rfl, rfl, rfl, rfl, by simp [setWorker], rfl, rfl, rfl⟩⟩
    · simp at stepped

/-- Between calls, a worker reads its messages one by one. -/
theorem stageStep_move {pipeline after : PartitionedPipeline n σ} {index : Fin n}
    (running : pipeline.cancelled = false) (idle : (pipeline.workers index).acts = [])
    (succeeds : ∀ item messages,
      (pipeline.workers index).stage = .handling (.item item :: messages) →
      ∃ result, (pipeline.workers index).processor.processItem item = .ok result)
    (stepped : pipeline.stageStep index = some after) :
    ∃ worker, (pipeline.workers index).Move [] worker ∧ Local pipeline index [] worker after := by
  rw [stageStep] at stepped
  split at stepped
  · next reading =>
    obtain rfl := Option.some.inj stepped
    exact ⟨_, .drained idle reading, setWorker_local _ _ _⟩
  · next later reading =>
    obtain rfl := Option.some.inj stepped
    exact ⟨_, .ended idle reading, setWorker_local _ _ _⟩
  · next item messages reading =>
    obtain ⟨⟨effects, processor⟩, processed⟩ := succeeds item messages reading
    rw [processed] at stepped
    obtain rfl := Option.some.inj stepped
    exact ⟨_, .handled idle reading processed, setWorker_local _ _ _⟩
  · next reading =>
    rw [if_neg (by simp [running])] at stepped
    split at stepped
    · next batch queue queued =>
      obtain rfl := Option.some.inj stepped
      exact ⟨_, .popped idle reading queued, setWorker_local _ _ _⟩
    · next empty =>
      split at stepped
      · next closed =>
        obtain rfl := Option.some.inj stepped
        exact ⟨_, .closedDown idle reading empty closed, setWorker_local _ _ _⟩
      · simp at stepped
  · next reading =>
    rw [if_neg (by simp [running])] at stepped
    obtain rfl := Option.some.inj stepped
    exact ⟨_, .flushed idle reading, setWorker_local _ _ _⟩
  · simp at stepped

/-- What the router will still push to a worker. -/
def routerMessages (router : List (RouterTask n)) (partition : Fin n) : WorkerBatch :=
  router.flatMap (fun task => match task with
    | .push target batch => if target = partition then batch else []
    | _ => [])

/-- The messages on their way to a worker, in order. -/
def waiting (pipeline : PartitionedPipeline n σ) (partition : Fin n) : WorkerBatch :=
  (pipeline.workers partition).stage.messages ++ (pipeline.workers partition).queue.flatten ++
    routerMessages pipeline.router partition

/-- The results of a log that came from one worker. -/
def deliveredBy (partition : Fin n) (log : List (Fin n × WindowResult)) : List WindowResult :=
  (log.filter (fun entry => entry.1 = partition)).map Prod.snd

theorem deliveredBy_append (partition : Fin n) (first second : List (Fin n × WindowResult)) :
    deliveredBy partition (first ++ second) =
      deliveredBy partition first ++ deliveredBy partition second := by
  simp [deliveredBy]

theorem deliveredBy_self (partition : Fin n) (out : List WindowResult) :
    deliveredBy partition (out.map (partition, ·)) = out := by
  simp [deliveredBy, List.filter_map, Function.comp_def]

theorem deliveredBy_other {partition other : Fin n} (different : other ≠ partition)
    (out : List WindowResult) : deliveredBy partition (out.map (other, ·)) = [] := by
  simp [deliveredBy, List.filter_map, Function.comp_def, different]

end PartitionedPipeline

/-- Where a worker stands in its share of the input. `input` are the messages on
their way to it, and `output` is everything it has produced. -/
inductive Worker.Standing (base : KeyedProcessor) (share : Batch) (ended : Bool)
    (input : WorkerBatch) (output : List WindowResult) (worker : Worker) : Prop where
  | reading (consumed : Batch) (effects : List Effect)
      (active : worker.stage.Reading)
      (processed : base.processItems consumed = .ok (effects, worker.processor))
      (split : consumed.map .item ++ input =
        share.map .item ++ if ended = true then [.endOfStream] else [])
      (produced : output = emissions effects)
  | stopped (effects : List Effect) (staged : worker.stage = .stopped)
      (processed : base.processItems share = .ok (effects, worker.processor))
      (final : ended = true) (arrived : input = []) (produced : output = emissions effects)
  | exited (effects : List Effect) (last : KeyedProcessor) (staged : worker.stage = .exited)
      (processed : base.processItems share = .ok (effects, last))
      (flushed : worker.processor = last.finalFlush.2)
      (final : ended = true) (arrived : input = [])
      (produced : output = emissions (effects ++ last.finalFlush.1))

namespace Worker.Standing

variable {base : KeyedProcessor} {share : Batch} {ended : Bool} {input : WorkerBatch}
  {output : List WindowResult} {worker : Worker}

/-- Before the sentinel there are only items, so the sentinel comes last. -/
theorem ended_of_head {consumed : Batch} {later : WorkerBatch}
    (split : consumed.map WorkerMessage.item ++ .endOfStream :: later =
      share.map .item ++ if ended = true then [.endOfStream] else []) :
    ended = true ∧ consumed = share ∧ later = [] := by
  induction consumed generalizing share with
  | nil =>
    cases share with
    | nil =>
      cases ended with
      | false => simp at split
      | true => simpa using split
    | cons first rest => simp at split
  | cons item consumed inductionHypothesis =>
    cases share with
    | nil => cases ended <;> simp at split
    | cons first rest =>
      simp only [List.map_cons, List.cons_append, List.cons.injEq,
        WorkerMessage.item.injEq] at split
      obtain ⟨rfl, split⟩ := split
      obtain ⟨final, rfl, last⟩ := inductionHypothesis split
      exact ⟨final, rfl, last⟩

/-- A worker has consumed a part of its share. -/
theorem consumed_prefix {consumed : Batch} (split : consumed.map WorkerMessage.item ++ input =
      share.map .item ++ if ended = true then [.endOfStream] else []) :
    consumed <+: share := by
  induction consumed generalizing share with
  | nil => exact List.nil_prefix
  | cons first consumed inductionHypothesis =>
    cases share with
    | nil => cases ended <;> simp at split
    | cons head rest =>
      simp only [List.map_cons, List.cons_append, List.cons.injEq,
        WorkerMessage.item.injEq] at split
      obtain ⟨rfl, split⟩ := split
      rw [List.prefix_cons_inj]
      exact inductionHypothesis split

/-- An item at the head of the input is the next one of the share. -/
theorem next_of_head {consumed : Batch} {item : BatchItem} {later : WorkerBatch}
    (split : consumed.map WorkerMessage.item ++ .item item :: later =
      share.map .item ++ if ended = true then [.endOfStream] else []) :
    consumed ++ [item] <+: share :=
  consumed_prefix (by simpa using split)

/-- Only the stage and the processor matter. -/
theorem congr {other : Worker} (standing : Standing base share ended input output worker)
    (stage : other.stage = worker.stage) (processor : other.processor = worker.processor) :
    Standing base share ended input output other := by
  cases standing with
  | reading consumed effects active processed split produced =>
    exact .reading consumed effects (stage ▸ active) (processor ▸ processed) split produced
  | stopped effects staged processed final arrived produced =>
    exact .stopped effects (stage.trans staged) (processor ▸ processed) final arrived produced
  | exited effects last staged processed flushed final arrived produced =>
    exact .exited effects last (stage.trans staged) processed (processor.trans flushed) final
      arrived produced

/-- The router takes more input, or finds its end. -/
theorem extend (standing : Standing base share false input output worker) (more : Batch)
    (final : Bool) :
    Standing base (share ++ more) final
      (input ++ (more.map .item ++ if final = true then [.endOfStream] else [])) output worker := by
  cases standing with
  | reading consumed effects active processed split produced =>
    refine .reading consumed effects active processed ?_ produced
    rw [← List.append_assoc, split]
    simp
  | stopped effects staged processed final arrived => simp at final
  | exited effects last staged processed flushed final => simp at final

/-- Every item that a worker meets is processed, if its whole share can be. -/
theorem succeeds {whole : Batch} {result : List Effect × KeyedProcessor}
    (standing : Standing base share ended input output worker) (part : share <+: whole)
    (processed : base.processItems whole = .ok result) {item : BatchItem}
    {messages : WorkerBatch} (staged : worker.stage = .handling (.item item :: messages))
    (arriving : ∃ later, input = .item item :: later) :
    ∃ result, worker.processor.processItem item = .ok result := by
  obtain ⟨later, arriving⟩ := arriving
  cases standing with
  | reading consumed effects active read split produced =>
    rw [arriving] at split
    obtain ⟨rest, front⟩ := (next_of_head split).trans part
    rw [← front, List.append_assoc] at processed
    obtain ⟨earlier, middle, more, before, after, _⟩ := processItems_split processed
    obtain ⟨rfl, rfl⟩ := Prod.mk.inj (Except.ok.inj (read.symm.trans before))
    cases one : worker.processor.processItem item with
    | ok result => exact ⟨result, rfl⟩
    | error thrown => simp [KeyedProcessor.processItems, one] at after
  | stopped effects other => simp [staged] at other
  | exited effects last other => simp [staged] at other

/-- A worker's step keeps its place in the input and loses no output. -/
theorem move {out delivered : List WindowResult} {after : Worker} {coming : WorkerBatch}
    (standing : Standing base share ended (worker.stage.messages ++ worker.queue.flatten ++ coming)
      (delivered ++ (worker.pending ++ Act.emits worker.acts)) worker)
    (shut : worker.acts = [] → worker.stage = .popping → worker.queue = [] →
      worker.closed = true → ended = true ∧ coming = [])
    (move : worker.Move out after) :
    Standing base share ended (after.stage.messages ++ after.queue.flatten ++ coming)
      (delivered ++ out ++ (after.pending ++ Act.emits after.acts)) after := by
  -- Inside a call only the place of the output changes.
  have calling {acts : List Act} {pending : List WindowResult}
      (kept : out ++ (pending ++ Act.emits acts) = worker.pending ++ Act.emits worker.acts) :
      Standing base share ended (worker.stage.messages ++ worker.queue.flatten ++ coming)
        (delivered ++ out ++ (pending ++ Act.emits acts))
        { worker with acts := acts, pending := pending } := by
    rw [List.append_assoc delivered, kept]
    exact standing.congr rfl rfl
  cases move with
  | emitted acts => exact calling (by simp [acts, Act.emits])
  | forwarded acts waiting => exact calling (by simp [waiting])
  | @passed act rest acts silent empty =>
    refine calling ?_
    cases act with
    | emit result => exact absurd rfl (silent result)
    | lock | forward | flush | unlock | save | report | prune => simp [acts, Act.emits]
  | pruning acts => exact calling (by simp [acts, Act.emits])
  | drained idle staged =>
    cases standing with
    | reading consumed effects active processed split produced =>
      refine .reading consumed effects trivial processed ?_ ?_
      · simpa [staged, Stage.messages] using split
      · simpa [idle] using produced
    | stopped effects other => simp [staged] at other
    | exited effects last other => simp [staged] at other
  | ended idle staged =>
    cases standing with
    | reading consumed effects active processed split produced =>
      simp only [staged, Stage.messages, List.cons_append] at split
      obtain ⟨final, rfl, none⟩ := ended_of_head split
      simp only [List.append_eq_nil_iff] at none
      refine .stopped effects rfl processed final ?_ ?_
      · simp [Stage.messages, none]
      · simpa [idle] using produced
    | stopped effects other => simp [staged] at other
    | exited effects last other => simp [staged] at other
  | @handled item messages effects processor idle staged processed =>
    cases standing with
    | reading consumed earlier active read split produced =>
      have one : worker.processor.processItems [item] = .ok (effects, processor) := by
        simp [KeyedProcessor.processItems, processed]
      refine .reading (consumed ++ [item]) (earlier ++ effects) trivial
        (processItems_append read one) ?_ ?_
      · simpa [staged, Stage.messages] using split
      · simp only [idle, Act.emits_nil, List.append_nil] at produced
        rw [Act.emits_effects, emissions_append, ← produced]
        simp
    | stopped effects other => simp [staged] at other
    | exited effects last other => simp [staged] at other
  | popped idle staged queued =>
    cases standing with
    | reading consumed effects active processed split produced =>
      refine .reading consumed effects trivial processed ?_ ?_
      · simpa [staged, queued, Stage.messages] using split
      · simpa using produced
    | stopped effects other => simp [staged] at other
    | exited effects last other => simp [staged] at other
  | closedDown idle staged empty closed =>
    -- The queue is closed after the sentinel, so the sentinel cannot be missing.
    obtain ⟨final, none⟩ := shut idle staged empty closed
    cases standing with
    | reading consumed effects active processed split produced =>
      rw [staged, empty, none, final] at split
      have last := congrArg List.getLast? split
      simp only [Stage.messages, List.flatten_nil, List.append_nil, List.getLast?_map, if_true,
        List.getLast?_append, List.getLast?_singleton] at last
      cases found : consumed.getLast? <;> simp [found] at last
    | stopped effects other => simp [staged] at other
    | exited effects last other => simp [staged] at other
  | flushed idle staged =>
    cases standing with
    | reading consumed effects active => simp [staged, Stage.Reading] at active
    | stopped effects other processed final arrived produced =>
      refine .exited effects worker.processor rfl processed rfl final ?_ ?_
      · simpa [staged, Stage.messages] using arrived
      · simp only [idle, Act.emits_nil, List.append_nil] at produced
        rw [Act.emits_effects, emissions_append, ← produced]
        simp
    | exited effects last other => simp [staged] at other

end Worker.Standing

namespace PartitionedPipeline

variable {n : Nat} [NeZero n] {σ : Type} [Source σ]

/-- How much of the input the router has taken. -/
inductive Supply (batches : List Batch) (taken : Batch) (ended : Bool)
    (pipeline : PartitionedPipeline n σ) : Prop where
  | pulling (remaining : List Batch) (delivers : Source.Delivers pipeline.source remaining)
      (split : taken ++ remaining.flatten = batches.flatten)
      (tasks : ∃ pushes, pipeline.router = pushes ++ [.pull] ∧
        ∀ task ∈ pushes, ∃ target batch, task = .push target batch ∧ batch ≠ [])
      (more : ended = false)
  | exhausted (all : taken = batches.flatten) (tasks : pipeline.router <:+ endTasks)
      (final : ended = true)

/-- The state of a run from processors `base` on a source that delivers `batches`:
the router has taken some items, nothing has failed, and every worker stands in its
share of what was taken. -/
structure Flowing (base : Fin n → KeyedProcessor) (batches : List Batch)
    (earlier : List (Fin n × WindowResult)) (taken : Batch) (ended : Bool)
    (recent : List (Fin n × WindowResult)) (pipeline : PartitionedPipeline n σ) : Prop where
  running : pipeline.cancelled = false
  correct : pipeline.error = none
  supply : Supply batches taken ended pipeline
  log : pipeline.sink.emitted = earlier ++ recent
  standing : ∀ partition, (pipeline.workers partition).Standing (base partition)
    (routed partition taken) ended (pipeline.waiting partition)
    (deliveredBy partition recent ++ ((pipeline.workers partition).pending ++
      Act.emits (pipeline.workers partition).acts))
  shut : ∀ partition, (pipeline.workers partition).closed = true →
    ended = true ∧ routerMessages pipeline.router partition = []
  clearing : ∀ partition, (pipeline.workers partition).Clearing
  joined : pipeline.finished = true →
    pipeline.router = [] ∧ ∀ partition, (pipeline.workers partition).Returned

omit [NeZero n] in
/-- The supply depends on the source and the router only. -/
theorem Supply.same {batches : List Batch} {taken : Batch} {ended : Bool}
    {pipeline after : PartitionedPipeline n σ} (supply : Supply batches taken ended pipeline)
    (source : after.source = pipeline.source) (router : after.router = pipeline.router) :
    Supply batches taken ended after := by
  cases supply with
  | pulling remaining delivers split tasks more =>
    exact .pulling remaining (source ▸ delivers) split (router ▸ tasks) more
  | exhausted all tasks final => exact .exhausted all (router ▸ tasks) final

omit [NeZero n] in
/-- Any task but a pull leaves the supply as it is. -/
theorem Supply.tail {batches : List Batch} {taken : Batch} {ended : Bool}
    {pipeline after : PartitionedPipeline n σ} (supply : Supply batches taken ended pipeline)
    {task : RouterTask n} {rest : List (RouterTask n)} (router : pipeline.router = task :: rest)
    (other : task ≠ .pull) (source : after.source = pipeline.source)
    (next : after.router = rest) : Supply batches taken ended after := by
  cases supply with
  | pulling remaining delivers split tasks more =>
    obtain ⟨pushes, shape, pushing⟩ := tasks
    rw [router] at shape
    cases pushes with
    | nil => exact absurd (List.cons.inj shape).1 other
    | cons first others =>
      refine .pulling remaining (source ▸ delivers) split ⟨others, ?_, ?_⟩ more
      · rw [next]
        exact (List.cons.inj shape).2
      · exact fun task member => pushing task (List.mem_cons_of_mem first member)
  | exhausted all tasks final =>
    refine .exhausted all ?_ final
    rw [router] at tasks
    rw [next]
    exact (List.suffix_cons task rest).trans tasks

section RouterTasks

omit [NeZero n] in
theorem routerMessages_append (first second : List (RouterTask n)) (partition : Fin n) :
    routerMessages (first ++ second) partition =
      routerMessages first partition ++ routerMessages second partition :=
  List.flatMap_append

omit [NeZero n] in
theorem routerMessages_push (target : Fin n) (batch : WorkerBatch) (rest : List (RouterTask n)) :
    routerMessages (.push target batch :: rest) target =
      batch ++ routerMessages rest target := by
  simp [routerMessages]

omit [NeZero n] in
theorem routerMessages_push_of_ne {target partition : Fin n} (elsewhere : partition ≠ target)
    (batch : WorkerBatch) (rest : List (RouterTask n)) :
    routerMessages (.push target batch :: rest) partition = routerMessages rest partition := by
  simp [routerMessages, elsewhere.symm]

/-- The pushes of a batch bring every worker its share. -/
theorem routerMessages_batchTasks (batch : Batch) (partition : Fin n) :
    routerMessages (batchTasks batch) partition = (routed partition batch).map .item := by
  have pushes (targets : List (Fin n)) : routerMessages (targets.filterMap (fun target =>
      if routed target batch = [] then none
      else some (.push target ((routed target batch).map .item)))) partition =
        (targets.filter (· = partition)).flatMap
          (fun target => (routed target batch).map .item) := by
    induction targets with
    | nil => rfl
    | cons target rest inductionHypothesis =>
      rw [List.filterMap_cons, List.filter_cons]
      by_cases empty : routed target batch = []
      · rw [if_pos empty, inductionHypothesis]
        by_cases own : target = partition
        · subst own
          simp [empty]
        · simp [own]
      · rw [if_neg empty]
        change routerMessages (_ :: _) partition = _
        rw [← List.singleton_append, routerMessages_append, inductionHypothesis]
        by_cases own : target = partition <;> simp [routerMessages, own]
  rw [batchTasks, pushes]
  have single : (List.finRange n).filter (· = partition) = [partition] := by
    rw [List.filter_eq, List.count_eq_one_of_mem (List.nodup_finRange n) (List.mem_finRange _)]
    rfl
  rw [single]
  simp

omit [NeZero n] in
/-- Every worker gets one sentinel. -/
theorem routerMessages_endTasks (partition : Fin n) :
    routerMessages endTasks partition = [.endOfStream] := by
  have pushes (targets : List (Fin n)) : routerMessages (targets.flatMap (fun target =>
      [.push target [.endOfStream], .close target])) partition =
        (targets.filter (· = partition)).map (fun _ => .endOfStream) := by
    induction targets with
    | nil => rfl
    | cons target rest inductionHypothesis =>
      rw [List.flatMap_cons, routerMessages_append, inductionHypothesis, List.filter_cons]
      by_cases own : target = partition <;> simp [routerMessages, own]
  have single : (List.finRange n).filter (· = partition) = [partition] := by
    rw [List.filter_eq, List.count_eq_one_of_mem (List.nodup_finRange n) (List.mem_finRange _)]
    rfl
  rw [endTasks, pushes, single]
  rfl

omit [NeZero n] in
/-- A queue is closed right after its sentinel. -/
theorem push_before_close {targets : List (Fin n)} {done rest : List (RouterTask n)}
    {partition : Fin n} (split : targets.flatMap (fun target =>
      [.push target [.endOfStream], .close target]) = done ++ .close partition :: rest) :
    routerMessages done partition ≠ [] := by
  induction targets generalizing done with
  | nil => simp at split
  | cons target targets inductionHypothesis =>
    match done with
    | [] => simp at split
    | [first] =>
      simp only [List.flatMap_cons, List.cons_append, List.nil_append, List.cons.injEq,
        RouterTask.close.injEq] at split
      obtain ⟨rfl, rfl, _⟩ := split
      simp [routerMessages]
    | first :: second :: later =>
      simp only [List.flatMap_cons, List.cons_append, List.nil_append, List.cons.injEq] at split
      have more := inductionHypothesis split.2.2
      intro none
      apply more
      rw [routerMessages, List.flatMap_cons, List.flatMap_cons, List.append_eq_nil_iff,
        List.append_eq_nil_iff] at none
      exact none.2.2

omit [NeZero n] in
/-- A closed queue gets no more messages. -/
theorem routerMessages_after_close {rest : List (RouterTask n)} {partition : Fin n}
    (tasks : .close partition :: rest <:+ endTasks) : routerMessages rest partition = [] := by
  obtain ⟨done, split⟩ := tasks
  have before := push_before_close split.symm
  have all := routerMessages_endTasks partition
  rw [← split, ← List.singleton_append, routerMessages_append, routerMessages_append] at all
  have lengths := congrArg List.length all
  have positive := List.length_pos_iff.mpr before
  simp only [List.length_append, List.length_singleton] at lengths
  exact List.length_eq_zero_iff.mp (by omega)

end RouterTasks

omit [NeZero n] [Source σ] in
/-- A step of one worker, when it has no failing item. -/
theorem workerStep_move {pipeline after : PartitionedPipeline n σ} {index : Fin n}
    (running : pipeline.cancelled = false)
    (succeeds : (pipeline.workers index).acts = [] → ∀ item messages,
      (pipeline.workers index).stage = .handling (.item item :: messages) →
        ∃ result, (pipeline.workers index).processor.processItem item = .ok result)
    (stepped : pipeline.workerStep index = some after) :
    ∃ out worker, (pipeline.workers index).Move out worker ∧
      Local pipeline index out worker after := by
  rw [workerStep] at stepped
  split at stepped
  · next act rest calling => exact actStep_move calling stepped
  · next idle =>
    obtain ⟨worker, moved, own⟩ := stageStep_move running idle (succeeds idle) stepped
    exact ⟨[], worker, moved, own⟩

omit [NeZero n] [Source σ] in
/-- An item that cannot be processed leaves an error behind. -/
theorem workerStep_succeeds {pipeline after : PartitionedPipeline n σ} {index : Fin n}
    (stepped : pipeline.workerStep index = some after) (correct : after.error = none)
    (idle : (pipeline.workers index).acts = []) (item : BatchItem) (messages : WorkerBatch)
    (staged : (pipeline.workers index).stage = .handling (.item item :: messages)) :
    ∃ result, (pipeline.workers index).processor.processItem item = .ok result := by
  cases processed : (pipeline.workers index).processor.processItem item with
  | ok result => exact ⟨result, rfl⟩
  | error thrown =>
    rw [workerStep, idle] at stepped
    simp only [stageStep, staged, processed] at stepped
    obtain rfl := Option.some.inj stepped
    cases earlier : pipeline.error <;> simp [fail, setWorker, earlier] at correct

/-- The error of a run is never forgotten. -/
theorem Steps.correct {pipeline after : PartitionedPipeline n σ} (stepped : Steps pipeline after)
    (correct : after.error = none) : pipeline.error = none := by
  obtain ⟨action, stepped⟩ := stepped
  cases action with
  | router =>
    rw [PartitionedPipeline.step, routerStep] at stepped
    grind [setWorker]
  | worker index =>
    rw [PartitionedPipeline.step, workerStep] at stepped
    split at stepped
    · next act rest calling =>
      obtain ⟨out, worker, moved, own⟩ := actStep_move calling stepped
      exact own.error.symm.trans correct
    · next idle =>
      rw [stageStep] at stepped
      grind [setWorker, fail]
  | prune index partition offset =>
    rw [PartitionedPipeline.step, pruneStep] at stepped
    grind
  | merge =>
    rw [PartitionedPipeline.step, mergeStep] at stepped
    grind

namespace Flowing

variable {base : Fin n → KeyedProcessor} {batches : List Batch}
  {earlier recent : List (Fin n × WindowResult)} {taken : Batch} {ended : Bool}
  {pipeline after : PartitionedPipeline n σ}

section

variable (flowing : Flowing base batches earlier taken ended recent pipeline)
  {rest : List (RouterTask n)}

include flowing

/-- What the router has taken is a part of the input. -/
theorem taken_prefix :
    taken <+: batches.flatten := by
  cases flowing.supply with
  | pulling remaining delivers split tasks more => exact ⟨_, split⟩
  | exhausted all tasks final => rw [all]

/-- No worker meets an item that it cannot process. -/
theorem succeeds (whole : ∀ partition, ∃ result,
      (base partition).processItems (routed partition batches.flatten) = .ok result) {index : Fin n}
    (item : BatchItem) (messages : WorkerBatch)
    (staged : (pipeline.workers index).stage = .handling (.item item :: messages)) :
    ∃ result, (pipeline.workers index).processor.processItem item = .ok result := by
  have share : routed index taken <+: routed index batches.flatten := by
    obtain ⟨rest, split⟩ := flowing.taken_prefix
    rw [← split, routed_append]
    exact List.prefix_append _ _
  obtain ⟨result, processed⟩ := whole index
  refine (flowing.standing index).succeeds share processed staged ?_
  rw [waiting, staged, Stage.messages, List.cons_append, List.cons_append]
  exact ⟨_, rfl⟩

/-- A worker's step keeps the invariant. -/
theorem worker_step {index : Fin n}
    (succeeds : (pipeline.workers index).acts = [] → ∀ item messages,
      (pipeline.workers index).stage = .handling (.item item :: messages) →
        ∃ result, (pipeline.workers index).processor.processItem item = .ok result)
    (stepped : pipeline.workerStep index = some after) :
    ∃ out, Flowing base batches earlier taken ended (recent ++ out) after := by
  obtain ⟨out, worker, moved, own⟩ := workerStep_move flowing.running succeeds stepped
  refine ⟨out.map (index, ·), ?_⟩
  constructor
  · rw [own.cancelled]
    exact flowing.running
  · rw [own.error]
    exact flowing.correct
  · exact flowing.supply.same own.source own.router
  · rw [own.sink, flowing.log, List.append_assoc]
  · intro partition
    have standing := flowing.standing partition
    rw [waiting, own.router, deliveredBy_append, own.workers]
    by_cases here : partition = index
    · subst here
      rw [Function.update_self, deliveredBy_self]
      exact standing.move (fun _ _ _ => flowing.shut partition) moved
    · rw [Function.update_of_ne here, deliveredBy_other (fun same => here same.symm),
        List.append_nil]
      exact standing
  · intro partition closed
    rw [own.router]
    rw [own.workers] at closed
    by_cases here : partition = index
    · subst here
      rw [Function.update_self] at closed
      refine flowing.shut partition ?_
      cases moved <;> exact closed
    · rw [Function.update_of_ne here] at closed
      exact flowing.shut partition closed
  · rw [own.workers]
    exact (Function.forall_update_iff _ fun _ => Worker.Clearing).mpr
      ⟨moved.clearing (flowing.clearing index), fun other _ => flowing.clearing other⟩
  · intro finished
    rw [own.finished] at finished
    obtain ⟨idle, exited⟩ := (flowing.joined finished).2 index
    rw [workerStep, idle] at stepped
    simp [stageStep, exited] at stepped

/-- The pull is the last task, so nothing else is waiting at the router. -/
theorem pull_alone (router : pipeline.router = .pull :: rest) :
    rest = [] := by
  cases flowing.supply with
  | exhausted all tasks final =>
    have inside : .pull ∈ (endTasks : List (RouterTask n)) := by
      rw [router] at tasks
      exact tasks.subset List.mem_cons_self
    simp [endTasks] at inside
  | pulling remaining delivers split tasks open_ =>
    obtain ⟨pushes, shape, pushing⟩ := tasks
    cases pushes with
    | nil => simpa [router] using shape
    | cons first others =>
      rw [router, List.cons_append] at shape
      obtain ⟨target, batch, other, _⟩ := pushing first List.mem_cons_self
      rw [other] at shape
      simp at shape

/-- A pull takes the next batch or finds the end of the input. -/
theorem pull_step (router : pipeline.router = .pull :: rest)
    (stepped : pipeline.routerStep = some after) :
    ∃ more final, Flowing base batches earlier (taken ++ more) final recent after := by
  obtain rfl := flowing.pull_alone router
  rw [routerStep, router] at stepped
  dsimp only at stepped
  rw [if_neg (by simp [flowing.running])] at stepped
  cases flowing.supply with
  | exhausted all tasks final =>
    have inside : .pull ∈ (endTasks : List (RouterTask n)) := by
      rw [router] at tasks
      exact tasks.subset List.mem_cons_self
    simp [endTasks] at inside
  | pulling remaining delivers split tasks open_ =>
    have idle (partition : Fin n) : routerMessages pipeline.router partition = [] := by
      rw [router]
      rfl
    have unfinished {goal : Prop} (finished : pipeline.finished = true) : goal := by
      have idle := (flowing.joined finished).1
      simp [router] at idle
    have shutNone (partition : Fin n) : (pipeline.workers partition).closed = false := by
      cases closed : (pipeline.workers partition).closed with
      | false => rfl
      | true => simp [(flowing.shut partition closed).1] at open_
    cases delivers with
    | ended observed =>
      rw [observed] at stepped
      obtain rfl := Option.some.inj stepped
      refine ⟨[], true, ?_⟩
      rw [List.append_nil]
      refine ⟨flowing.running, flowing.correct, .exhausted ?_ ?_ rfl, flowing.log, ?_, ?_,
        flowing.clearing, unfinished⟩
      · simpa using split
      · simp
      · intro partition
        have standing := flowing.standing partition
        rw [waiting, idle, List.append_nil, open_] at standing
        rw [waiting, List.append_nil, routerMessages_endTasks]
        have more := standing.extend [] true
        rw [List.append_nil] at more
        exact more
      · intro partition closed
        simp [shutNone partition] at closed
    | @handed source rest batch later observed delivered =>
      rw [observed] at stepped
      obtain rfl := Option.some.inj stepped
      refine ⟨batch, false, ?_⟩
      refine ⟨flowing.running, flowing.correct, .pulling later delivered ?_ ?_ rfl, flowing.log,
        ?_, ?_, flowing.clearing, unfinished⟩
      · simpa [List.append_assoc] using split
      · refine ⟨batchTasks batch, rfl, ?_⟩
        intro task member
        obtain ⟨target, _, found⟩ := List.mem_filterMap.mp member
        dsimp only at found
        split at found
        · simp at found
        · next some_ => exact ⟨_, _, (Option.some.inj found).symm, by simpa using some_⟩
      · intro partition
        have standing := flowing.standing partition
        rw [waiting, idle, List.append_nil, open_] at standing
        rw [waiting, routerMessages_append, routerMessages_batchTasks, routed_append]
        exact standing.extend (routed partition batch) false
      · intro partition closed
        simp [shutNone partition] at closed

/-- The router pushes no empty batches. -/
theorem push_nonempty {target : Fin n} {batch : WorkerBatch}
    (router : pipeline.router = .push target batch :: rest) : batch ≠ [] := by
  cases flowing.supply with
  | pulling remaining delivers split tasks more =>
    obtain ⟨pushes, shape, pushing⟩ := tasks
    rw [router] at shape
    cases pushes with
    | nil => simp at shape
    | cons first others =>
      obtain ⟨_, _, same, nonempty⟩ := pushing first List.mem_cons_self
      rw [same, List.cons_append, List.cons.injEq, RouterTask.push.injEq] at shape
      rw [shape.1.2]
      exact nonempty
  | exhausted all tasks final =>
    have sentinel : .push target batch ∈ (endTasks : List (RouterTask n)) := by
      rw [router] at tasks
      exact tasks.subset List.mem_cons_self
    obtain rfl : batch = [.endOfStream] := by simpa [endTasks] using sentinel
    simp

/-- Nothing is pushed into a closed queue. -/
theorem push_open {target : Fin n} {batch : WorkerBatch}
    (router : pipeline.router = .push target batch :: rest) :
    (pipeline.workers target).closed = false := by
  cases closed : (pipeline.workers target).closed with
  | false => rfl
  | true =>
    obtain ⟨_, none⟩ := flowing.shut target closed
    rw [router, routerMessages_push, List.append_eq_nil_iff] at none
    exact absurd none.1 (flowing.push_nonempty router)

/-- A push moves a batch from the router to the queue of its worker. -/
theorem push_step {target : Fin n} {batch : WorkerBatch}
    (router : pipeline.router = .push target batch :: rest)
    (stepped : pipeline.routerStep = some after) :
    Flowing base batches earlier taken ended recent after := by
  have open_ := flowing.push_open router
  have own : routerMessages pipeline.router target = batch ++ routerMessages rest target :=
    router ▸ routerMessages_push target batch rest
  have others (partition : Fin n) (here : partition ≠ target) :
      routerMessages pipeline.router partition = routerMessages rest partition :=
    router ▸ routerMessages_push_of_ne here batch rest
  rw [routerStep, router] at stepped
  dsimp only at stepped
  rw [if_neg (by simp [open_])] at stepped
  split at stepped
  · obtain rfl := Option.some.inj stepped
    refine ⟨flowing.running, flowing.correct, ?_, flowing.log, ?_, ?_, ?_, ?_⟩
    · exact flowing.supply.tail router (by simp) rfl rfl
    · intro partition
      have standing := flowing.standing partition
      rw [waiting] at standing
      by_cases here : partition = target
      · subst here
        rw [own, ← List.append_assoc] at standing
        simp only [waiting, setWorker, Function.update_self, List.flatten_append,
          List.flatten_singleton]
        rw [List.append_assoc _ _ batch] at standing
        exact standing.congr rfl rfl
      · rw [others partition here] at standing
        simp only [waiting, setWorker, Function.update_of_ne here]
        exact standing
    · intro partition closed
      by_cases here : partition = target
      · subst here
        simp [setWorker, open_] at closed
      · simp only [setWorker, Function.update_of_ne here] at closed
        obtain ⟨final, none⟩ := flowing.shut partition closed
        rw [others partition here] at none
        exact ⟨final, none⟩
    · exact (Function.forall_update_iff _ fun _ => Worker.Clearing).mpr
        ⟨flowing.clearing target, fun other _ => flowing.clearing other⟩
    · intro finished
      have idle := (flowing.joined finished).1
      simp [router] at idle
  · simp at stepped

/-- A queue is closed when its sentinel has been pushed. -/
theorem close_step {target : Fin n} (router : pipeline.router = .close target :: rest)
    (stepped : pipeline.routerStep = some after) :
    Flowing base batches earlier taken ended recent after := by
  have same (partition : Fin n) :
      routerMessages pipeline.router partition = routerMessages rest partition := by
    rw [router]
    rfl
  obtain ⟨final, tasks⟩ : ended = true ∧ .close target :: rest <:+ endTasks := by
    cases flowing.supply with
    | exhausted all tasks final => exact ⟨final, router ▸ tasks⟩
    | pulling remaining delivers split tasks more =>
      obtain ⟨pushes, shape, pushing⟩ := tasks
      rw [router] at shape
      cases pushes with
      | nil => simp at shape
      | cons first others =>
        obtain ⟨_, _, other, _⟩ := pushing first List.mem_cons_self
        rw [other] at shape
        simp at shape
  rw [routerStep, router] at stepped
  obtain rfl := Option.some.inj stepped
  refine ⟨flowing.running, flowing.correct, ?_, flowing.log, ?_, ?_, ?_, ?_⟩
  · exact flowing.supply.tail router (by simp) rfl rfl
  · intro partition
    have standing := flowing.standing partition
    rw [waiting, same] at standing
    by_cases here : partition = target
    · subst here
      simp only [waiting, setWorker, Function.update_self]
      exact standing.congr rfl rfl
    · simp only [waiting, setWorker, Function.update_of_ne here]
      exact standing
  · intro partition closed
    refine ⟨final, ?_⟩
    by_cases here : partition = target
    · subst here
      exact routerMessages_after_close tasks
    · simp only [setWorker, Function.update_of_ne here] at closed
      rw [← (flowing.shut partition closed).2, same]
      rfl
  · exact (Function.forall_update_iff _ fun _ => Worker.Clearing).mpr
      ⟨flowing.clearing target, fun other _ => flowing.clearing other⟩
  · intro finished
    have idle := (flowing.joined finished).1
    simp [router] at idle

/-- A step of any thread keeps the invariant. -/
theorem step (succeeds : ∀ index, pipeline.workerStep index = some after →
      (pipeline.workers index).acts = [] → ∀ item messages,
        (pipeline.workers index).stage = .handling (.item item :: messages) →
          ∃ result, (pipeline.workers index).processor.processItem item = .ok result)
    (stepped : Steps pipeline after) :
    ∃ taken ended recent, Flowing base batches earlier taken ended recent after := by
  obtain ⟨action, stepped⟩ := stepped
  cases action with
  | router =>
    match router : pipeline.router with
    | [] =>
      rw [PartitionedPipeline.step, routerStep, router] at stepped
      simp at stepped
    | .pull :: rest =>
      obtain ⟨more, final, next⟩ := flowing.pull_step router stepped
      exact ⟨_, _, _, next⟩
    | .push target batch :: rest => exact ⟨_, _, _, flowing.push_step router stepped⟩
    | .close target :: rest => exact ⟨_, _, _, flowing.close_step router stepped⟩
  | worker index =>
    obtain ⟨out, next⟩ := flowing.worker_step (succeeds index stepped) stepped
    exact ⟨_, _, _, next⟩
  | prune index partition offset =>
    rw [PartitionedPipeline.step, pruneStep] at stepped
    split at stepped
    · split at stepped
      · obtain rfl := Option.some.inj stepped
        exact ⟨taken, ended, recent, flowing.running, flowing.correct,
          flowing.supply.same rfl rfl, flowing.log, flowing.standing, flowing.shut,
          flowing.clearing, flowing.joined⟩
      · simp at stepped
    · simp at stepped
  | merge =>
    rw [PartitionedPipeline.step, mergeStep] at stepped
    split at stepped
    · next returned =>
      rw [if_neg (by simp [flowing.correct])] at stepped
      obtain rfl := Option.some.inj stepped
      exact ⟨taken, ended, recent, flowing.running, flowing.correct,
        flowing.supply.same rfl rfl, flowing.log, flowing.standing, flowing.shut,
        flowing.clearing, fun _ => returned.2⟩
    · simp at stepped

/-- The invariant holds in every state of a run. -/
theorem reaches (whole : ∀ partition, ∃ result,
      (base partition).processItems (routed partition batches.flatten) = .ok result)
    (reached : Reaches pipeline after) :
    ∃ taken ended recent, Flowing base batches earlier taken ended recent after := by
  induction reached with
  | refl => exact ⟨taken, ended, recent, flowing⟩
  | tail _ stepped inductionHypothesis =>
    obtain ⟨_, _, _, here⟩ := inductionHypothesis
    exact here.step (fun _ _ _ => here.succeeds whole) stepped

/-- So it does in every state of a run without an error, whatever the input is. -/
theorem reaches_correct (reached : Reaches pipeline after) (correct : after.error = none) :
    ∃ taken ended recent, Flowing base batches earlier taken ended recent after := by
  induction reached with
  | refl => exact ⟨taken, ended, recent, flowing⟩
  | tail _ stepped inductionHypothesis =>
    obtain ⟨_, _, _, here⟩ := inductionHypothesis (stepped.correct correct)
    exact here.step (fun _ moved => workerStep_succeeds moved correct) stepped

/-- When the router and a worker have returned, the worker has processed its whole share,
flushed, and delivered everything it produced. -/
theorem returned_worker (idle : pipeline.router = []) {partition : Fin n}
    (returned : (pipeline.workers partition).Returned) :
    ∃ effects last, (base partition).processItems (routed partition batches.flatten) =
        .ok (effects, last) ∧
      (pipeline.workers partition).processor = last.finalFlush.2 ∧
      deliveredBy partition recent = emissions (effects ++ last.finalFlush.1) := by
  obtain ⟨acts, exited⟩ := returned
  have all : taken = batches.flatten := by
    cases flowing.supply with
    | pulling remaining delivers split tasks more =>
      obtain ⟨pushes, shape, _⟩ := tasks
      simp [idle] at shape
    | exhausted all tasks final => exact all
  have empty : (pipeline.workers partition).pending = [] := by
    have clears := flowing.clearing partition exited
    rw [acts] at clears
    simpa [Act.Clears] using clears
  cases flowing.standing partition with
  | reading consumed effects active => simp [exited, Stage.Reading] at active
  | stopped effects staged => simp [exited] at staged
  | exited effects last staged processed flushed final arrived produced =>
    rw [all] at processed
    refine ⟨effects, last, processed, flushed, ?_⟩
    rw [← produced, empty, acts]
    simp

/-- So it is for every worker when the run has finished. -/
theorem finished_worker (finished : pipeline.finished = true) (partition : Fin n) :
    ∃ effects last, (base partition).processItems (routed partition batches.flatten) =
        .ok (effects, last) ∧
      (pipeline.workers partition).processor = last.finalFlush.2 ∧
      deliveredBy partition recent = emissions (effects ++ last.finalFlush.1) := by
  obtain ⟨idle, returned⟩ := flowing.joined finished
  exact flowing.returned_worker idle (returned partition)

end

end Flowing

/-- A run starts with the invariant. -/
theorem start_flowing (config : PartitionedConfig) (source : σ) (directories : Fin n → Directory)
    (sink : SinkLog n) {batches : List Batch}
    (delivers : Source.Delivers (start config source directories sink).source batches) :
    Flowing (fun partition => ((start config source directories sink).workers partition).processor)
      batches sink.emitted [] false [] (start config source directories sink) := by
  refine ⟨rfl, rfl, .pulling batches delivers rfl ⟨[], rfl, by simp⟩ rfl, ?_, ?_, ?_, ?_, ?_⟩
  · exact (List.append_nil _).symm
  · intro partition
    exact .reading [] [] trivial rfl rfl rfl
  · intro partition closed
    simp [start] at closed
  · intro partition exited
    simp [start] at exited
  · intro finished
    simp [start] at finished

end PartitionedPipeline

end Stormglass
