import Stormglass.PartitionedRuns

/-!
# Progress of the multi-worker engine

No state of a run is stuck: until the run has finished some thread can take a step,
however small the queues are, because a worker holds a mutex only while it can go
on and the router waits only for a worker that has input. And no run goes on for
ever: every step lowers a rank.
-/

namespace Stormglass

/-- The rest of a call uses the sink mutex properly: it delivers and flushes only
while it holds the mutex, and does not end with it. -/
def Act.Guarded : (held : Bool) → List Act → Prop
  | held, [] => held = false
  | held, .lock :: rest => held = false ∧ Guarded true rest
  | held, .forward :: rest => held = true ∧ Guarded true rest
  | held, .flush :: rest => held = true ∧ Guarded true rest
  | held, .unlock :: rest => held = true ∧ Guarded false rest
  | held, .emit _ :: rest => held = false ∧ Guarded false rest
  | held, .save _ :: rest => held = false ∧ Guarded false rest
  | held, .report _ :: rest => held = false ∧ Guarded false rest
  | held, .prune _ :: rest => held = false ∧ Guarded false rest

theorem Act.guarded_drainActs (pending : List WindowResult) :
    Act.Guarded false (Act.drainActs pending) := by
  unfold drainActs
  split <;> simp [Guarded]

theorem Act.guarded_effects (effects : List Effect) :
    Act.Guarded false (effects.flatMap Act.ofEffect) := by
  induction effects with
  | nil => rfl
  | cons effect rest inductionHypothesis =>
    cases effect with
    | emit result => exact ⟨rfl, inductionHypothesis⟩
    | flush => exact ⟨rfl, rfl, rfl, rfl, inductionHypothesis⟩
    | checkpoint data => exact ⟨rfl, rfl, inductionHypothesis⟩

/-- Reporting leaves the mutex of the tracker to its caller. -/
theorem Tracker.onPartitionCheckpoint_holder {n : Nat} (tracker : Tracker n) (partition : Fin n)
    (offset : Nat) :
    (tracker.onPartitionCheckpoint partition offset).2.holder = tracker.holder := by
  unfold onPartitionCheckpoint
  dsimp only
  split
  · rfl
  · split
    · rfl
    · split <;> rfl

namespace PartitionedPipeline

variable {n : Nat} [NeZero n] {σ : Type} [Source σ]

/-- The mutexes are held by the workers that are inside them. -/
structure Exclusive (pipeline : PartitionedPipeline n σ) : Prop where
  sink : ∀ index, Act.Guarded (decide (pipeline.holder = some index)) (pipeline.workers index).acts
  tracker : ∀ index, pipeline.tracker.holder = some index →
    ∃ cutoff rest, (pipeline.workers index).acts = .prune cutoff :: rest

namespace Exclusive

variable {pipeline after : PartitionedPipeline n σ}

omit [NeZero n] [Source σ] in
/-- The mutexes see nothing but the acts of the workers. -/
theorem of_same_acts (exclusive : Exclusive pipeline) (holder : after.holder = pipeline.holder)
    (tracker : after.tracker = pipeline.tracker)
    (acts : ∀ index, (after.workers index).acts = (pipeline.workers index).acts) :
    Exclusive after := by
  constructor
  · intro index
    rw [holder, acts]
    exact exclusive.sink index
  · intro index held
    rw [tracker] at held
    rw [acts]
    exact exclusive.tracker index held

omit [NeZero n] [Source σ] in
/-- One worker steps, and the mutexes change for that worker only. -/
theorem of_update (exclusive : Exclusive pipeline) {index : Fin n} {worker : Worker}
    (workers : after.workers = Function.update pipeline.workers index worker)
    (holder : ∀ other, other ≠ index → (after.holder = some other ↔ pipeline.holder = some other))
    (guarded : Act.Guarded (decide (after.holder = some index)) worker.acts)
    (tracker : ∀ other, other ≠ index → after.tracker.holder = some other →
      pipeline.tracker.holder = some other)
    (pruning : after.tracker.holder = some index →
      ∃ cutoff rest, worker.acts = .prune cutoff :: rest) : Exclusive after := by
  constructor
  · intro other
    rw [workers]
    by_cases here : other = index
    · subst here
      rw [Function.update_self]
      exact guarded
    · rw [Function.update_of_ne here, decide_eq_decide.mpr (holder other here)]
      exact exclusive.sink other
  · intro other held
    rw [workers]
    by_cases here : other = index
    · subst here
      rw [Function.update_self]
      exact pruning held
    · rw [Function.update_of_ne here]
      exact exclusive.tracker other (tracker other here held)

omit [NeZero n] [Source σ] in
/-- One worker continues with other acts while the mutexes stay as they are. -/
theorem proceed (exclusive : Exclusive pipeline) {index : Fin n} {worker : Worker}
    (workers : after.workers = Function.update pipeline.workers index worker)
    (holder : after.holder = pipeline.holder)
    (tracker : after.tracker.holder = pipeline.tracker.holder)
    (guarded : Act.Guarded (decide (pipeline.holder = some index)) worker.acts)
    (outside : ∀ cutoff rest, (pipeline.workers index).acts ≠ .prune cutoff :: rest) :
    Exclusive after := by
  refine exclusive.of_update workers ?_ (holder ▸ guarded) ?_ ?_
  · intro other _
    rw [holder]
  · intro other _ held
    exact tracker ▸ held
  · intro held
    rw [tracker] at held
    obtain ⟨cutoff, rest, acts⟩ := exclusive.tracker index held
    exact absurd acts (outside cutoff rest)

omit [NeZero n] [Source σ] in
theorem act_step (exclusive : Exclusive pipeline) {index : Fin n} {act : Act} {rest : List Act}
    (calling : (pipeline.workers index).acts = act :: rest)
    (stepped : pipeline.actStep index act rest = some after) : Exclusive after := by
  have guarded := exclusive.sink index
  rw [calling] at guarded
  have inTracker (held : pipeline.tracker.holder = some index) :
      ∃ cutoff, act = .prune cutoff := by
    obtain ⟨cutoff, _, acts⟩ := exclusive.tracker index held
    rw [calling] at acts
    exact ⟨cutoff, (List.cons.inj acts).1⟩
  cases act with
  | emit result =>
    obtain rfl := Option.some.inj stepped
    obtain ⟨free, later⟩ := guarded
    exact exclusive.proceed rfl rfl rfl (free ▸ later) (by simp [calling])
  | lock =>
    rw [actStep] at stepped
    split at stepped
    · next free =>
      obtain rfl := Option.some.inj stepped
      refine exclusive.of_update rfl ?_ ?_ (fun _ _ held => held) ?_
      · intro other here
        simpa [setWorker, free] using here.symm
      · simpa [setWorker] using guarded.2
      · intro held
        obtain ⟨_, impossible⟩ := inTracker held
        exact Act.noConfusion impossible
    · simp at stepped
  | forward =>
    obtain ⟨mine, later⟩ := guarded
    rw [actStep] at stepped
    split at stepped
    · obtain rfl := Option.some.inj stepped
      exact exclusive.proceed rfl rfl rfl (mine ▸ later) (by simp [calling])
    · obtain rfl := Option.some.inj stepped
      refine exclusive.proceed rfl rfl rfl ?_ (by simp [calling])
      rw [calling]
      exact ⟨mine, later⟩
  | flush =>
    obtain rfl := Option.some.inj stepped
    obtain ⟨mine, later⟩ := guarded
    exact exclusive.proceed rfl rfl rfl (mine ▸ later) (by simp [calling])
  | unlock =>
    obtain rfl := Option.some.inj stepped
    obtain ⟨mine, later⟩ := guarded
    have held : pipeline.holder = some index := of_decide_eq_true mine
    refine exclusive.of_update rfl ?_ ?_ (fun _ _ held => held) ?_
    · intro other here
      simpa [setWorker, held] using here.symm
    · simpa [setWorker] using later
    · intro held
      obtain ⟨_, impossible⟩ := inTracker held
      exact Act.noConfusion impossible
  | save data =>
    obtain rfl := Option.some.inj stepped
    obtain ⟨free, later⟩ := guarded
    exact exclusive.proceed rfl rfl rfl (free ▸ later) (by simp [calling])
  | report offset =>
    obtain ⟨free, later⟩ := guarded
    rw [actStep] at stepped
    split at stepped
    · next unheld =>
      have kept := pipeline.tracker.onPartitionCheckpoint_holder index offset
      split at stepped
      · next tracker reported =>
        obtain rfl := Option.some.inj stepped
        rw [reported] at kept
        exact exclusive.proceed rfl rfl kept (free ▸ later) (by simp [calling])
      · next cutoff tracker reported =>
        obtain rfl := Option.some.inj stepped
        refine exclusive.of_update rfl (fun _ _ => Iff.rfl) ⟨free, later⟩ ?_ ?_
        · intro other here held
          exact absurd (Option.some.inj held).symm here
        · intro _
          exact ⟨cutoff, rest, rfl⟩
    · simp at stepped
  | prune cutoff =>
    obtain rfl := Option.some.inj stepped
    obtain ⟨free, later⟩ := guarded
    refine exclusive.of_update rfl (fun _ _ => Iff.rfl) (free ▸ later) ?_ ?_
    · intro other _ held
      simp [setWorker] at held
    · intro held
      simp [setWorker] at held

omit [NeZero n] [Source σ] in
/-- Between calls a worker is outside both mutexes, and every call starts outside. -/
theorem stage_step (exclusive : Exclusive pipeline) {index : Fin n}
    (idle : (pipeline.workers index).acts = [])
    (stepped : pipeline.stageStep index = some after) : Exclusive after := by
  have free : decide (pipeline.holder = some index) = false := by
    have guarded := exclusive.sink index
    rw [idle] at guarded
    exact guarded
  have next {worker : Worker} {pipeline_ : PartitionedPipeline n σ}
      (workers : pipeline_.workers = Function.update pipeline.workers index worker)
      (holder : pipeline_.holder = pipeline.holder)
      (tracker : pipeline_.tracker = pipeline.tracker)
      (guarded : Act.Guarded false worker.acts) : Exclusive pipeline_ :=
    exclusive.proceed workers holder (tracker ▸ rfl) (free ▸ guarded) (by simp [idle])
  have still : Act.Guarded false (pipeline.workers index).acts := by
    rw [idle]
    rfl
  rw [stageStep] at stepped
  split at stepped
  · obtain rfl := Option.some.inj stepped
    exact next rfl rfl rfl (Act.guarded_drainActs _)
  · obtain rfl := Option.some.inj stepped
    exact next rfl rfl rfl (Act.guarded_drainActs _)
  · split at stepped
    · next failure processor failed =>
      obtain rfl := Option.some.inj stepped
      have thrown : Exclusive (pipeline.setWorker index
          { pipeline.workers index with processor := processor, stage := .exited }) :=
        next rfl rfl rfl still
      exact thrown.of_same_acts rfl rfl (fun _ => rfl)
    · obtain rfl := Option.some.inj stepped
      exact next rfl rfl rfl (Act.guarded_effects _)
  · split at stepped
    · obtain rfl := Option.some.inj stepped
      exact next rfl rfl rfl still
    · split at stepped
      · obtain rfl := Option.some.inj stepped
        exact next rfl rfl rfl still
      · split at stepped
        · obtain rfl := Option.some.inj stepped
          exact next rfl rfl rfl still
        · simp at stepped
  · split at stepped
    · obtain rfl := Option.some.inj stepped
      exact next rfl rfl rfl still
    · obtain rfl := Option.some.inj stepped
      exact next rfl rfl rfl (Act.guarded_effects _)
  · simp at stepped

/-- A step of any thread respects the mutexes. -/
theorem step (exclusive : Exclusive pipeline) (stepped : Steps pipeline after) :
    Exclusive after := by
  have update (router : List (RouterTask n)) (target : Fin n) (worker : Worker)
      (acts : worker.acts = (pipeline.workers target).acts) :
      Exclusive ({ pipeline with router := router }.setWorker target worker) := by
    refine exclusive.of_same_acts rfl rfl ?_
    intro index
    by_cases here : index = target
    · subst here
      simpa [setWorker] using acts
    · simp [setWorker, Function.update_of_ne here]
  obtain ⟨action, stepped⟩ := stepped
  cases action with
  | router =>
    rw [PartitionedPipeline.step, routerStep] at stepped
    split at stepped
    · simp at stepped
    · split at stepped
      · obtain rfl := Option.some.inj stepped
        exact exclusive.of_same_acts rfl rfl (fun _ => rfl)
      · split at stepped <;> obtain rfl := Option.some.inj stepped <;>
          exact exclusive.of_same_acts rfl rfl (fun _ => rfl)
    · dsimp only at stepped
      split at stepped
      · obtain rfl := Option.some.inj stepped
        exact exclusive.of_same_acts rfl rfl (fun _ => rfl)
      · split at stepped
        · obtain rfl := Option.some.inj stepped
          exact update _ _ _ rfl
        · simp at stepped
    · obtain rfl := Option.some.inj stepped
      exact update _ _ _ rfl
  | worker index =>
    rw [PartitionedPipeline.step, workerStep] at stepped
    split at stepped
    · next act rest calling => exact exclusive.act_step calling stepped
    · next idle => exact exclusive.stage_step idle stepped
  | prune index partition offset =>
    rw [PartitionedPipeline.step, pruneStep] at stepped
    split at stepped
    · split at stepped
      · obtain rfl := Option.some.inj stepped
        exact exclusive.of_same_acts rfl rfl (fun _ => rfl)
      · simp at stepped
    · simp at stepped
  | merge =>
    rw [PartitionedPipeline.step, mergeStep] at stepped
    split at stepped
    · split at stepped <;> obtain rfl := Option.some.inj stepped <;>
        exact exclusive.of_same_acts rfl rfl (fun _ => rfl)
    · simp at stepped

theorem start (config : PartitionedConfig) (source : σ) (directories : Fin n → Directory)
    (sink : SinkLog n) : Exclusive (PartitionedPipeline.start config source directories sink) := by
  constructor
  · intro index
    rfl
  · intro index held
    simp [PartitionedPipeline.start] at held

theorem reaches (exclusive : Exclusive pipeline) (reached : Reaches pipeline after) :
    Exclusive after := by
  induction reached with
  | refl => exact exclusive
  | tail _ stepped inductionHypothesis => exact inductionHypothesis.step stepped

omit [NeZero n] [Source σ] in
/-- Some worker inside a call can go on. -/
theorem enabled_of_calling (exclusive : Exclusive pipeline) {index : Fin n} {act : Act}
    {rest : List Act} (calling : (pipeline.workers index).acts = act :: rest) :
    ∃ index after, pipeline.workerStep index = some after := by
  -- A worker that holds the sink mutex has an act that needs no other mutex.
  by_cases free : pipeline.holder = none
  · have own : pipeline.workerStep index = pipeline.actStep index act rest := by
      rw [workerStep, calling]
    cases act with
    | lock => exact ⟨index, _, own.trans (if_pos free)⟩
    | forward =>
      rw [actStep] at own
      cases waiting : (pipeline.workers index).pending with
      | nil => exact ⟨index, _, own.trans (by rw [waiting])⟩
      | cons result pending => exact ⟨index, _, own.trans (by rw [waiting])⟩
    | report offset =>
      by_cases unheld : pipeline.tracker.holder = none
      · rw [actStep, if_pos unheld] at own
        split at own <;> exact ⟨index, _, own⟩
      · obtain ⟨pruner, held⟩ := Option.ne_none_iff_exists'.mp unheld
        obtain ⟨cutoff, later, acts⟩ := exclusive.tracker pruner held
        have pruning :
            pipeline.workerStep pruner = pipeline.actStep pruner (.prune cutoff) later := by
          rw [workerStep, acts]
        exact ⟨pruner, _, pruning⟩
    | emit | flush | unlock | save | prune => exact ⟨index, _, own⟩
  · obtain ⟨holder, held⟩ := Option.ne_none_iff_exists'.mp free
    have guarded := exclusive.sink holder
    rw [held, decide_eq_true rfl] at guarded
    cases acts : (pipeline.workers holder).acts with
    | nil => simp [acts, Act.Guarded] at guarded
    | cons first later =>
      have own : pipeline.workerStep holder = pipeline.actStep holder first later := by
        rw [workerStep, acts]
      rw [acts] at guarded
      cases first with
      | forward =>
        rw [actStep] at own
        cases waiting : (pipeline.workers holder).pending with
        | nil => exact ⟨holder, _, own.trans (by rw [waiting])⟩
        | cons result pending => exact ⟨holder, _, own.trans (by rw [waiting])⟩
      | flush | unlock => exact ⟨holder, _, own⟩
      | emit | lock | save | report | prune => simp [Act.Guarded] at guarded

end Exclusive

omit [NeZero n] [Source σ] in
theorem workerStep_config {pipeline after : PartitionedPipeline n σ} {index : Fin n}
    (stepped : pipeline.workerStep index = some after) : after.config = pipeline.config := by
  rw [workerStep] at stepped
  split at stepped
  · next act rest calling =>
    obtain ⟨_, _, _, own⟩ := actStep_move calling stepped
    exact own.config
  · rw [stageStep] at stepped
    split at stepped
    · obtain rfl := Option.some.inj stepped
      rfl
    · obtain rfl := Option.some.inj stepped
      rfl
    · split at stepped <;> obtain rfl := Option.some.inj stepped <;> rfl
    · split at stepped
      · obtain rfl := Option.some.inj stepped
        rfl
      · split at stepped
        · obtain rfl := Option.some.inj stepped
          rfl
        · split at stepped
          · obtain rfl := Option.some.inj stepped
            rfl
          · simp at stepped
    · split at stepped <;> obtain rfl := Option.some.inj stepped <;> rfl
    · simp at stepped

/-- The configuration of a run never changes. -/
theorem Steps.config {pipeline after : PartitionedPipeline n σ} (stepped : Steps pipeline after) :
    after.config = pipeline.config := by
  obtain ⟨action, stepped⟩ := stepped
  cases action with
  | router =>
    rw [step, routerStep] at stepped
    split at stepped
    · simp at stepped
    · split at stepped
      · obtain rfl := Option.some.inj stepped
        rfl
      · split at stepped <;> obtain rfl := Option.some.inj stepped <;> rfl
    · dsimp only at stepped
      split at stepped
      · obtain rfl := Option.some.inj stepped
        rfl
      · split at stepped
        · obtain rfl := Option.some.inj stepped
          rfl
        · simp at stepped
    · obtain rfl := Option.some.inj stepped
      rfl
  | worker index => exact workerStep_config stepped
  | prune index partition offset =>
    rw [step, pruneStep] at stepped
    split at stepped
    · split at stepped
      · obtain rfl := Option.some.inj stepped
        rfl
      · simp at stepped
    · simp at stepped
  | merge =>
    rw [step, mergeStep] at stepped
    split at stepped
    · split at stepped <;> obtain rfl := Option.some.inj stepped <;> rfl
    · simp at stepped

theorem Reaches.config {pipeline after : PartitionedPipeline n σ}
    (reached : Reaches pipeline after) :
    after.config = pipeline.config := by
  induction reached with
  | refl => rfl
  | tail _ stepped inductionHypothesis => exact stepped.config.trans inductionHypothesis

section Stuck

variable {base : Fin n → KeyedProcessor} {batches : List Batch}
  {earlier recent : List (Fin n × WindowResult)} {taken : Batch} {ended : Bool}
  {pipeline : PartitionedPipeline n σ}

omit [NeZero n] [Source σ] in
/-- Between calls, a worker waits only at an empty open queue, and stops only at the
end of its thread. -/
theorem stageStep_enabled {index : Fin n} (running : pipeline.cancelled = false)
    (active : (pipeline.workers index).stage ≠ .exited)
    (ready : (pipeline.workers index).stage = .popping → (pipeline.workers index).queue ≠ []) :
    ∃ after, pipeline.stageStep index = some after := by
  unfold stageStep
  dsimp only
  split
  · exact ⟨_, rfl⟩
  · exact ⟨_, rfl⟩
  · split <;> exact ⟨_, rfl⟩
  · next popping =>
    rw [if_neg (by simp [running])]
    split
    · exact ⟨_, rfl⟩
    · next empty => exact absurd empty (ready popping)
  · split <;> exact ⟨_, rfl⟩
  · next exited => exact absurd exited active

section

variable (flowing : Flowing base batches earlier taken ended recent pipeline)

include flowing

/-- A worker that has read everything has nothing on its way to it. -/
theorem Flowing.waiting_exited {index : Fin n} (exited : (pipeline.workers index).stage = .exited) :
    pipeline.waiting index = [] := by
  cases flowing.standing index with
  | reading consumed effects active => simp [exited, Stage.Reading] at active
  | stopped effects staged => simp [exited] at staged
  | exited effects last staged processed flushed final arrived => exact arrived

/-- A worker at its queue gets its sentinel before the router ends. -/
theorem Flowing.queue_nonempty {index : Fin n} (popping : (pipeline.workers index).stage = .popping)
    (idle : pipeline.router = []) : (pipeline.workers index).queue ≠ [] := by
  intro empty
  have final : ended = true := by
    cases flowing.supply with
    | pulling remaining delivers split tasks more =>
      obtain ⟨pushes, shape, _⟩ := tasks
      simp [idle] at shape
    | exhausted all tasks final => exact final
  cases flowing.standing index with
  | reading consumed effects active processed split produced =>
    rw [waiting, popping, empty, idle, final] at split
    have last := congrArg List.getLast? split
    simp only [Stage.messages, routerMessages, List.flatten_nil, List.append_nil, List.flatMap_nil,
      List.getLast?_map, if_true, List.getLast?_append, List.getLast?_singleton] at last
    cases found : consumed.getLast? <;> simp [found] at last
  | stopped effects staged => simp [popping] at staged
  | exited effects last staged => simp [popping] at staged

/-- The router waits only for a worker that has a batch to pop. -/
theorem Flowing.router_or_worker (capacity : 0 < pipeline.config.queueCapacity)
    (idle : ∀ index, (pipeline.workers index).acts = [])
    (waits : ∀ index, (pipeline.workers index).stage = .popping ∨
      (pipeline.workers index).stage = .exited) (busy : pipeline.router ≠ []) :
    ∃ after, Steps pipeline after := by
  match router : pipeline.router with
  | [] => exact absurd router busy
  | .pull :: rest =>
    have own : pipeline.step .router = pipeline.routerStep := rfl
    rw [routerStep, router] at own
    dsimp only at own
    rw [if_neg (by simp [flowing.running])] at own
    split at own <;> exact ⟨_, .router, own⟩
  | .close target :: rest =>
    have own : pipeline.step .router = pipeline.routerStep := rfl
    rw [routerStep, router] at own
    exact ⟨_, .router, own⟩
  | .push target batch :: rest =>
    have own : pipeline.step .router = pipeline.routerStep := rfl
    rw [routerStep, router] at own
    dsimp only at own
    rw [if_neg (by simp [flowing.push_open router])] at own
    split at own
    · exact ⟨_, .router, own⟩
    · next full =>
      have queued : (pipeline.workers target).queue ≠ [] := by
        intro empty
        rw [empty] at full
        exact full capacity
      rcases waits target with popping | exited
      · have active : (pipeline.workers target).stage ≠ .exited := by simp [popping]
        obtain ⟨after, popped⟩ := stageStep_enabled flowing.running active (fun _ => queued)
        refine ⟨after, .worker target, ?_⟩
        rw [PartitionedPipeline.step, workerStep, idle target]
        exact popped
      · have none := flowing.waiting_exited exited
        rw [waiting, router, routerMessages_push] at none
        simp [flowing.push_nonempty router] at none

/-- No state of a run is stuck before the run has finished. -/
theorem Flowing.not_stuck (exclusive : Exclusive pipeline)
    (capacity : 0 < pipeline.config.queueCapacity) (unfinished : pipeline.finished = false) :
    ∃ after, Steps pipeline after := by
  by_cases calling : ∃ index, (pipeline.workers index).acts ≠ []
  · obtain ⟨index, busy⟩ := calling
    obtain ⟨act, rest, acts⟩ := List.exists_cons_of_ne_nil busy
    obtain ⟨worker, after, stepped⟩ := exclusive.enabled_of_calling acts
    exact ⟨after, .worker worker, stepped⟩
  · have idle (index : Fin n) : (pipeline.workers index).acts = [] := by
      by_contra busy
      exact calling ⟨index, busy⟩
    have between (index : Fin n) (active : (pipeline.workers index).stage ≠ .exited)
        (ready : (pipeline.workers index).stage = .popping → (pipeline.workers index).queue ≠ []) :
        ∃ after, Steps pipeline after := by
      obtain ⟨after, stepped⟩ := stageStep_enabled flowing.running active ready
      refine ⟨after, .worker index, ?_⟩
      rw [PartitionedPipeline.step, workerStep, idle index]
      exact stepped
    by_cases waits : ∀ index, (pipeline.workers index).stage = .popping ∨
        (pipeline.workers index).stage = .exited
    · by_cases busy : pipeline.router = []
      · by_cases returned : ∀ index, (pipeline.workers index).stage = .exited
        · have joined : pipeline.step .merge = pipeline.mergeStep := rfl
          rw [mergeStep, if_pos ⟨unfinished, busy, fun index => ⟨idle index, returned index⟩⟩]
            at joined
          split at joined <;> exact ⟨_, .merge, joined⟩
        · obtain ⟨index, active⟩ := not_forall.mp returned
          have popping := (waits index).resolve_right active
          exact between index active (fun _ => flowing.queue_nonempty popping busy)
      · exact flowing.router_or_worker capacity idle waits busy
    · obtain ⟨index, neither⟩ := not_forall.mp waits
      obtain ⟨notPopping, active⟩ := not_or.mp neither
      exact between index active (fun popping => absurd popping notPopping)

end

end Stuck

end PartitionedPipeline

/-- The weight of an act covers what it leaves behind: a waiting result, a file, or a
deletion to do. -/
def Act.weight : Act → Nat
  | .emit _ => 2
  | .save _ => 2
  | .report _ => 2
  | _ => 1

namespace Worker

/-- How far the loop of a worker is from its end. -/
def stageRank : Stage → Nat
  | .handling _ => 3
  | .popping => 2
  | .stopped => 1
  | .exited => 0

/-- The reading that a worker has to do. -/
def backlog (worker : Worker) : Nat :=
  worker.stage.messages.length + worker.queue.flatten.length + 2 * worker.queue.length +
    stageRank worker.stage

/-- What is left of its current call. -/
def load (worker : Worker) : Nat := (worker.acts.map Act.weight).sum + worker.pending.length

/-- Every move between calls reads on. -/
theorem Move.backlog_lt {worker after : Worker} {out : List WindowResult}
    (move : worker.Move out after) (idle : worker.acts = []) :
    after.backlog < worker.backlog := by
  cases move with
  | emitted calling | forwarded calling | passed calling | pruning calling =>
    simp [idle] at calling
  | drained _ staged => simp [backlog, staged, Stage.messages, stageRank]
  | ended _ staged =>
    simp only [backlog, staged, Stage.messages, stageRank, List.length_cons, List.length_nil]
    omega
  | handled _ staged =>
    simp only [backlog, staged, Stage.messages, stageRank, List.length_cons]
    omega
  | popped _ staged queued =>
    simp only [backlog, staged, queued, Stage.messages, stageRank, List.flatten_cons,
      List.length_append, List.length_cons, List.length_nil]
    omega
  | closedDown _ staged => simp [backlog, staged, Stage.messages, stageRank]
  | flushed _ staged => simp [backlog, staged, Stage.messages, stageRank]

end Worker

namespace PartitionedPipeline

variable {n : Nat} {σ : Type}

def backlog (pipeline : PartitionedPipeline n σ) : Nat :=
  ∑ index, (pipeline.workers index).backlog

/-- The work of all current calls, and the files that they may still delete. -/
def load (pipeline : PartitionedPipeline n σ) : Nat :=
  ∑ index, (pipeline.workers index).load + ∑ index, (pipeline.directories index).size +
    if pipeline.finished = true then 0 else 1

/-- A sum over the partitions changes by the one that is updated. -/
theorem sum_update {α : Type} (values : Fin n → α) (index : Fin n) (value : α)
    (weight : α → Nat) :
    ∑ other, weight (Function.update values index value other) + weight (values index) =
      ∑ other, weight (values other) + weight value := by
  have split (weights : Fin n → Nat) :
      ∑ other, weights other = weights index + ∑ other ∈ Finset.univ.erase index, weights other :=
    (Finset.add_sum_erase Finset.univ weights (Finset.mem_univ index)).symm
  have others : ∑ other ∈ Finset.univ.erase index,
      weight (Function.update values index value other) =
        ∑ other ∈ Finset.univ.erase index, weight (values other) := by
    apply Finset.sum_congr rfl
    intro other member
    rw [Function.update_of_ne (Finset.ne_of_mem_erase member)]
  rw [split, split (fun other => weight (values other)), others, Function.update_self]
  omega

/-- A lighter call makes a lighter state, even if it leaves a file behind. -/
theorem load_lt {pipeline after : PartitionedPipeline n σ} {index : Fin n} {worker : Worker}
    {files : Nat} (workers : after.workers = Function.update pipeline.workers index worker)
    (finished : after.finished = pipeline.finished)
    (directories : ∑ other, (after.directories other).size ≤
      ∑ other, (pipeline.directories other).size + files)
    (lighter : worker.load + files < (pipeline.workers index).load) :
    after.load < pipeline.load := by
  have changed := sum_update pipeline.workers index worker Worker.load
  unfold load
  rw [workers, finished]
  omega

theorem load_lt_of_same_files {pipeline after : PartitionedPipeline n σ} {index : Fin n}
    {worker : Worker} (workers : after.workers = Function.update pipeline.workers index worker)
    (finished : after.finished = pipeline.finished)
    (directories : after.directories = pipeline.directories)
    (lighter : worker.load < (pipeline.workers index).load) : after.load < pipeline.load :=
  load_lt workers finished (by rw [directories, Nat.add_zero]) lighter

/-- Every step inside a call lightens the state and reads nothing. -/
theorem actStep_load {pipeline after : PartitionedPipeline n σ} {index : Fin n} {act : Act}
    {rest : List Act} (calling : (pipeline.workers index).acts = act :: rest)
    (stepped : pipeline.actStep index act rest = some after) :
    after.backlog = pipeline.backlog ∧ after.load < pipeline.load := by
  constructor
  · obtain ⟨out, worker, moved, own⟩ := actStep_move calling stepped
    have changed := sum_update pipeline.workers index worker Worker.backlog
    have same : worker.backlog = (pipeline.workers index).backlog := by
      cases moved with
      | emitted | forwarded | passed | pruning => rfl
      | drained idle | ended idle | handled idle | popped idle | closedDown idle | flushed idle =>
        simp [calling] at idle
    unfold backlog
    rw [own.workers]
    omega
  · have weight : (pipeline.workers index).load =
        act.weight + (rest.map Act.weight).sum + (pipeline.workers index).pending.length := by
      rw [Worker.load, calling]
      rfl
    cases act with
    | emit result =>
      obtain rfl := Option.some.inj stepped
      refine load_lt_of_same_files rfl rfl rfl ?_
      rw [weight]
      simp only [Worker.load, Act.weight, List.length_append, List.length_singleton]
      omega
    | lock =>
      rw [actStep] at stepped
      split at stepped
      · obtain rfl := Option.some.inj stepped
        refine load_lt_of_same_files rfl rfl rfl ?_
        rw [weight]
        simp only [Worker.load, Act.weight]
        omega
      · simp at stepped
    | forward =>
      rw [actStep] at stepped
      split at stepped
      · obtain rfl := Option.some.inj stepped
        refine load_lt_of_same_files rfl rfl rfl ?_
        rw [weight]
        simp only [Worker.load, Act.weight]
        omega
      · next waiting =>
        obtain rfl := Option.some.inj stepped
        refine load_lt_of_same_files rfl rfl rfl ?_
        simp only [Worker.load, waiting, List.length_cons]
        exact Nat.lt_succ_self _
    | flush | unlock | prune =>
      obtain rfl := Option.some.inj stepped
      refine load_lt_of_same_files rfl rfl rfl ?_
      rw [weight]
      simp only [Worker.load, Act.weight]
      omega
    | save data =>
      obtain rfl := Option.some.inj stepped
      have one := sum_update pipeline.directories index
        ((pipeline.directories index).insert data.offset data) Std.ExtTreeMap.size
      have grown : ((pipeline.directories index).insert data.offset data).size ≤
          (pipeline.directories index).size + 1 := Std.ExtTreeMap.size_insert_le
      have directories : ∑ other, (Function.update pipeline.directories index
          ((pipeline.directories index).insert data.offset data) other).size ≤
            ∑ other, (pipeline.directories other).size + 1 := by omega
      refine load_lt rfl rfl directories ?_
      rw [weight]
      simp only [Worker.load, Act.weight]
      omega
    | report offset =>
      rw [actStep] at stepped
      split at stepped
      · split at stepped
        · obtain rfl := Option.some.inj stepped
          refine load_lt_of_same_files rfl rfl rfl ?_
          rw [weight]
          simp only [Worker.load, Act.weight]
          omega
        · obtain rfl := Option.some.inj stepped
          refine load_lt_of_same_files rfl rfl rfl ?_
          rw [weight]
          simp only [Worker.load, Act.weight, List.map_cons, List.sum_cons]
          omega
      · simp at stepped

section Termination

variable [NeZero n] [Source σ]

/-- The number of pulls that the router has to make. -/
inductive Outstanding (pipeline : PartitionedPipeline n σ) : Nat → Prop where
  | none (past : .pull ∉ pipeline.router) : Outstanding pipeline 0
  | some {remaining : List Batch} (delivers : Source.Delivers pipeline.source remaining) :
      Outstanding pipeline (remaining.length + 1)

variable {base : Fin n → KeyedProcessor} {batches : List Batch}
  {earlier recent : List (Fin n × WindowResult)} {taken : Batch} {ended : Bool}
  {pipeline after : PartitionedPipeline n σ}

theorem Flowing.outstanding (flowing : Flowing base batches earlier taken ended recent pipeline) :
    ∃ pulls, Outstanding pipeline pulls := by
  cases flowing.supply with
  | pulling remaining delivers => exact ⟨_, .some delivers⟩
  | exhausted all tasks final =>
    refine ⟨0, .none ?_⟩
    intro member
    have inside := tasks.subset member
    simp [endTasks] at inside

omit [NeZero n] in
theorem Outstanding.same {pulls : Nat} (outstanding : Outstanding pipeline pulls)
    (source : after.source = pipeline.source) (router : after.router ⊆ pipeline.router) :
    Outstanding after pulls := by
  cases outstanding with
  | none past => exact .none (fun member => past (router member))
  | some delivers => exact .some (source ▸ delivers)

/-- The rank of a state: pulls, then tasks of the router, then reading, then calls. -/
structure Ranked (pipeline : PartitionedPipeline n σ) (pulls tasks reading calls : Nat) : Prop where
  pulls : Outstanding pipeline pulls
  tasks : pipeline.router.length = tasks
  reading : pipeline.backlog = reading
  calls : pipeline.load = calls

/-- One rank is below another. -/
abbrev Below : Nat × Nat × Nat × Nat → Nat × Nat × Nat × Nat → Prop :=
  Prod.Lex (· < ·) (Prod.Lex (· < ·) (Prod.Lex (· < ·) (· < ·)))

section

variable (flowing : Flowing base batches earlier taken ended recent pipeline)

include flowing

theorem Flowing.router_rank_lt {pulls tasks reading calls : Nat}
    (ranked : Ranked pipeline pulls tasks reading calls)
    (stepped : pipeline.routerStep = some after) :
    ∃ pulls' tasks' reading' calls', Ranked after pulls' tasks' reading' calls' ∧
      Below (pulls', tasks', reading', calls') (pulls, tasks, reading, calls) := by
  match router : pipeline.router with
  | [] =>
    rw [routerStep, router] at stepped
    simp at stepped
  | .pull :: rest =>
    obtain rfl := flowing.pull_alone router
    rw [routerStep, router] at stepped
    dsimp only at stepped
    rw [if_neg (by simp [flowing.running])] at stepped
    cases ranked.pulls with
    | none past => simp [router] at past
    | some delivers =>
      cases delivers with
      | ended observed =>
        rw [observed] at stepped
        obtain rfl := Option.some.inj stepped
        exact ⟨0, _, _, _, ⟨.none (by simp [endTasks]), rfl, rfl, rfl⟩, .left _ _ Nat.one_pos⟩
      | handed observed later =>
        rw [observed] at stepped
        obtain rfl := Option.some.inj stepped
        exact ⟨_, _, _, _, ⟨.some later, rfl, rfl, rfl⟩, .left _ _ (Nat.lt_succ_self _)⟩
  | .push target batch :: rest =>
    have shorter : rest.length < tasks := by
      rw [← ranked.tasks, router]
      exact Nat.lt_succ_self _
    rw [routerStep, router] at stepped
    dsimp only at stepped
    rw [if_neg (by simp [flowing.push_open router])] at stepped
    split at stepped
    · obtain rfl := Option.some.inj stepped
      refine ⟨pulls, rest.length, _, _, ⟨?_, rfl, rfl, rfl⟩, .right _ (.left _ _ shorter)⟩
      exact ranked.pulls.same rfl (router ▸ List.subset_cons_self _ _)
    · simp at stepped
  | .close target :: rest =>
    have shorter : rest.length < tasks := by
      rw [← ranked.tasks, router]
      exact Nat.lt_succ_self _
    rw [routerStep, router] at stepped
    obtain rfl := Option.some.inj stepped
    refine ⟨pulls, rest.length, _, _, ⟨?_, rfl, rfl, rfl⟩, .right _ (.left _ _ shorter)⟩
    exact ranked.pulls.same rfl (router ▸ List.subset_cons_self _ _)

/-- Every step lowers the rank. -/
theorem Flowing.rank_lt (whole : ∀ partition, ∃ result,
      (base partition).processItems (routed partition batches.flatten) = .ok result)
    {pulls tasks reading calls : Nat} (ranked : Ranked pipeline pulls tasks reading calls)
    (stepped : Steps pipeline after) :
    ∃ pulls' tasks' reading' calls', Ranked after pulls' tasks' reading' calls' ∧
      Below (pulls', tasks', reading', calls') (pulls, tasks, reading, calls) := by
  obtain ⟨action, stepped⟩ := stepped
  cases action with
  | router => exact flowing.router_rank_lt ranked stepped
  | worker index =>
    rw [PartitionedPipeline.step, workerStep] at stepped
    split at stepped
    · next act rest calling =>
      obtain ⟨_, _, _, own⟩ := actStep_move calling stepped
      obtain ⟨reading_, lighter⟩ := actStep_load calling stepped
      refine ⟨pulls, tasks, reading, _, ⟨?_, ?_, ?_, rfl⟩, .right _ (.right _ (.right _ ?_))⟩
      · exact ranked.pulls.same own.source (own.router ▸ List.Subset.refl _)
      · rw [own.router, ranked.tasks]
      · rw [reading_, ranked.reading]
      · rw [← ranked.calls]
        exact lighter
    · next idle =>
      obtain ⟨worker, moved, own⟩ :=
        stageStep_move flowing.running idle (flowing.succeeds whole) stepped
      have changed := sum_update pipeline.workers index worker Worker.backlog
      have less := moved.backlog_lt idle
      refine ⟨pulls, tasks, _, _, ⟨?_, ?_, rfl, rfl⟩, .right _ (.right _ (.left _ _ ?_))⟩
      · exact ranked.pulls.same own.source (own.router ▸ List.Subset.refl _)
      · rw [own.router, ranked.tasks]
      · rw [← ranked.reading, backlog, backlog, own.workers]
        omega
  | prune index partition offset =>
    rw [PartitionedPipeline.step, pruneStep] at stepped
    split at stepped
    · split at stepped
      · next present =>
        obtain rfl := Option.some.inj stepped
        have changed := sum_update pipeline.directories partition
          ((pipeline.directories partition).erase offset) Std.ExtTreeMap.size
        have smaller : ((pipeline.directories partition).erase offset).size <
            (pipeline.directories partition).size := by
          have positive : (pipeline.directories partition).size ≠ 0 := by
            intro none
            rw [← Std.ExtTreeMap.eq_empty_iff_size_eq_zero] at none
            simp [none] at present
          rw [Std.ExtTreeMap.size_erase, if_pos (Std.ExtTreeMap.mem_iff_contains.mp present.2)]
          omega
        refine ⟨pulls, tasks, reading, _, ⟨?_, ranked.tasks, ranked.reading, rfl⟩,
          .right _ (.right _ (.right _ ?_))⟩
        · exact ranked.pulls.same rfl (List.Subset.refl _)
        · rw [← ranked.calls, load, load]
          simp only
          omega
      · simp at stepped
    · simp at stepped
  | merge =>
    rw [PartitionedPipeline.step, mergeStep] at stepped
    split at stepped
    · next joined =>
      rw [if_neg (by simp [flowing.correct])] at stepped
      obtain rfl := Option.some.inj stepped
      refine ⟨pulls, tasks, reading, _, ⟨?_, ranked.tasks, ranked.reading, rfl⟩,
        .right _ (.right _ (.right _ ?_))⟩
      · exact ranked.pulls.same rfl (List.Subset.refl _)
      · rw [← ranked.calls, load, load]
        simp [joined.1]
    · simp at stepped

/-- No run goes on for ever. -/
theorem Flowing.terminates (whole : ∀ partition, ∃ result,
      (base partition).processItems (routed partition batches.flatten) = .ok result) :
    Acc (fun after before => Steps before after) pipeline := by
  have wellFounded : WellFounded Below :=
    WellFounded.prod_lex wellFounded_lt
      (WellFounded.prod_lex wellFounded_lt (WellFounded.prod_lex wellFounded_lt wellFounded_lt))
  have all (rank : Nat × Nat × Nat × Nat) :
      ∀ (pipeline : PartitionedPipeline n σ) taken ended recent,
      Flowing base batches earlier taken ended recent pipeline →
      Ranked pipeline rank.1 rank.2.1 rank.2.2.1 rank.2.2.2 →
      Acc (fun after before => Steps before after) pipeline := by
    induction rank using wellFounded.induction with
    | _ rank inductionHypothesis =>
      intro pipeline taken ended recent flowing ranked
      constructor
      intro after stepped
      obtain ⟨_, _, _, _, lower, below⟩ := flowing.rank_lt whole ranked stepped
      obtain ⟨_, _, _, next⟩ := flowing.step (fun _ _ _ => flowing.succeeds whole) stepped
      exact inductionHypothesis _ below after _ _ _ next lower
  obtain ⟨pulls, outstanding⟩ := flowing.outstanding
  exact all (pulls, _, _, _) pipeline taken ended recent flowing ⟨outstanding, rfl, rfl, rfl⟩

end

end Termination

end PartitionedPipeline

end Stormglass
