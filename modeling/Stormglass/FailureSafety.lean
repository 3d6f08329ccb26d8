import Stormglass.FailingPipeline
import Stormglass.PartitionInvariance

/-!
# A failing run publishes no partial window

Two things can mislead a worker of a failing run: a sentinel that the router pushes because it has
seen the flag, and a queue that `fail` has closed before the sentinel came. In both cases the flag
is set first, so a worker that is misled finds it set before `FinalFlush`. `Course` says what a
worker can have done when the flag may be set: it goes on in its share of what the router has
taken, or it has halted with a part of the output.
-/

namespace Stormglass

section Output

variable {base : KeyedProcessor} {whole share : Batch} {output : List WindowResult}

/-- The output belongs to a worker that has consumed a part of its input, or all of it and then
flushed. -/
def Within (base : KeyedProcessor) (whole : Batch) (output : List WindowResult) : Prop :=
  ∃ consumed effects last, base.processItems consumed = .ok (effects, last) ∧
    (consumed <+: whole ∧ output <+: emissions effects ∨
      consumed = whole ∧ output <+: emissions (effects ++ last.finalFlush.1))

theorem Within.of_prefix {part : List WindowResult} (within : Within base whole output)
    (shorter : part <+: output) : Within base whole part := by
  obtain ⟨consumed, effects, last, processed, some_ | all⟩ := within
  · exact ⟨consumed, effects, last, processed, .inl ⟨some_.1, shorter.trans some_.2⟩⟩
  · exact ⟨consumed, effects, last, processed, .inr ⟨all.1, shorter.trans all.2⟩⟩

/-- Such an output is the beginning of what the whole input gives. -/
theorem Within.prefix_whole {effects : List Effect} {last : KeyedProcessor}
    (within : Within base whole output)
    (processed : base.processItems whole = .ok (effects, last)) :
    output <+: emissions (effects ++ last.finalFlush.1) := by
  obtain ⟨consumed, earlier, middle, read, ⟨⟨rest, rfl⟩, begins⟩ | ⟨rfl, begins⟩⟩ := within
  · obtain ⟨first, between, later, before, after, rfl⟩ := processItems_split processed
    obtain ⟨rfl, rfl⟩ := Prod.mk.inj (Except.ok.inj (read.symm.trans before))
    rw [List.append_assoc, emissions_append]
    exact begins.trans (List.prefix_append _ _)
  · obtain ⟨rfl, rfl⟩ := Prod.mk.inj (Except.ok.inj (read.symm.trans processed))
    exact begins

end Output

/-- What a worker has done in a run that may have failed. `share` is its part of what the router
has taken, `whole` its part of the stream, `input` what is or was on its way to it. -/
inductive Worker.Course (base : KeyedProcessor) (whole share : Batch)
    (ended cancelled admitted : Bool)
    (handled input : WorkerBatch) (delivered : List WindowResult) (worker : Worker) : Prop where
  | going
      (standing : worker.Standing base share ended input
        (delivered ++ (worker.pending ++ Act.emits worker.acts)))
      (account : handled ++ input =
        share.map .item ++ if ended = true then [.endOfStream] else [])
      (entered : admitted = true → worker.stage = .popping ∨ worker.stage = .stopped)
      (complete : worker.stage = .exited ∨ worker.stage = .stopped ∧ admitted = true →
        share = whole)
  | halted (idle : worker.acts = [])
      (staged : worker.stage = .exited ∨
        worker.stage = .stopped ∧ cancelled = true ∧ admitted = false)
      (cut : Within base whole (delivered ++ worker.pending))

namespace Worker.Course

variable {base : KeyedProcessor} {whole share : Batch} {ended cancelled admitted : Bool}
  {handled input : WorkerBatch} {delivered : List WindowResult} {worker : Worker}

section

variable (course : Course base whole share ended cancelled admitted handled input delivered worker)

include course

/-- What a worker has produced belongs to its input. -/
theorem within (part : share <+: whole) : Within base whole (delivered ++ worker.pending) := by
  cases course with
  | halted idle staged cut => exact cut
  | going standing account entered complete =>
    have produced : Within base whole
        (delivered ++ (worker.pending ++ Act.emits worker.acts)) := by
      cases standing with
      | reading consumed effects active processed split produced =>
        exact ⟨consumed, effects, worker.processor, processed,
          .inl ⟨(Standing.consumed_prefix split).trans part, by rw [produced]⟩⟩
      | stopped effects staged processed final arrived produced =>
        exact ⟨share, effects, worker.processor, processed, .inl ⟨part, by rw [produced]⟩⟩
      | exited effects last staged processed flushed final arrived produced =>
        exact ⟨share, effects, last, processed, .inr ⟨complete (.inl staged), by rw [produced]⟩⟩
    refine produced.of_prefix ?_
    rw [← List.append_assoc]
    exact List.prefix_append _ _

/-- The flag may be set. -/
theorem cancel : Course base whole share ended true admitted handled input delivered worker := by
  cases course with
  | going standing account entered complete => exact .going standing account entered complete
  | halted idle staged cut =>
    exact .halted idle (staged.imp_right fun stopped => ⟨stopped.1, rfl, stopped.2.2⟩) cut

/-- The queue may be closed. -/
theorem close :
    Course base whole share ended cancelled admitted handled input delivered
      { worker with closed := true } := by
  cases course with
  | going standing account entered complete =>
    exact .going (standing.congr rfl rfl) account entered complete
  | halted idle staged cut => exact .halted idle staged cut

/-- A message moves from the router to the queue. -/
theorem requeue (queue : List WorkerBatch) :
    Course base whole share ended cancelled admitted handled input delivered
      { worker with queue := queue } := by
  cases course with
  | going standing account entered complete =>
    exact .going (standing.congr rfl rfl) account entered complete
  | halted idle staged cut => exact .halted idle staged cut

end

/-- The router takes more input, or stops. -/
theorem extend (course : Course base whole share false cancelled admitted handled input delivered
      worker) (more : Batch) (final : Bool) :
    Course base whole (share ++ more) final cancelled admitted handled
      (input ++ (more.map .item ++ if final = true then [.endOfStream] else [])) delivered
      worker := by
  cases course with
  | halted idle staged cut => exact .halted idle staged cut
  | going standing account entered complete =>
    refine .going (standing.extend more final) ?_ entered ?_
    · rw [← List.append_assoc, account]
      simp
    · intro left
      cases standing with
      | reading consumed effects active =>
        rcases left with exited | ⟨stopped, _⟩
        · simp [exited, Stage.Reading] at active
        · simp [stopped, Stage.Reading] at active
      | stopped effects staged processed final => simp at final
      | exited effects last staged processed flushed final => simp at final

/-- A worker leaves its function before its end. -/
theorem leave (course : Course base whole share ended cancelled admitted handled input delivered
      worker) (part : share <+: whole) {after : Worker} (idle : after.acts = [])
    (staged : after.stage = .exited) (kept : after.pending = worker.pending) {value : Bool}
    {rest : WorkerBatch} :
    Course base whole share ended cancelled value handled rest delivered after :=
  .halted idle (.inl staged) (kept ▸ course.within part)

section Steps

variable {coming : WorkerBatch}

/-- Inside a call a worker only moves results along. -/
theorem call {out : List WindowResult} {after : Worker}
    (course : Course base whole share ended cancelled admitted handled
      (worker.stage.messages ++ worker.queue.flatten ++ coming) delivered worker)
    (calling : worker.acts ≠ []) (moved : worker.Move out after) :
    Course base whole share ended cancelled admitted handled
      (after.stage.messages ++ after.queue.flatten ++ coming) (delivered ++ out) after := by
  obtain ⟨stage, queue⟩ : after.stage = worker.stage ∧ after.queue = worker.queue := by
    cases moved with
    | emitted | forwarded | passed | pruning => exact ⟨rfl, rfl⟩
    | drained idle | ended idle | handled idle | popped idle | closedDown idle | flushed idle =>
      exact absurd idle calling
  cases course with
  | halted idle => exact absurd idle calling
  | going standing account entered complete =>
    refine .going (standing.move (fun idle => absurd idle calling) moved) ?_ ?_ ?_
    · rw [stage, queue]
      exact account
    · rw [stage]
      exact entered
    · rw [stage]
      exact complete

/-- A worker that handles a batch has not halted, and is not about to pop or to flush. -/
theorem going_of_handling {messages : WorkerBatch}
    (course : Course base whole share ended cancelled admitted handled input delivered worker)
    (staged : worker.stage = .handling messages) :
    worker.Standing base share ended input
        (delivered ++ (worker.pending ++ Act.emits worker.acts)) ∧
      handled ++ input = share.map .item ++ (if ended = true then [.endOfStream] else []) ∧
      admitted = false := by
  cases course with
  | halted idle other => simp [staged] at other
  | going standing account entered complete =>
    refine ⟨standing, account, ?_⟩
    cases admitted with
    | false => rfl
    | true => simp [staged] at entered

/-- The batch is handled. -/
theorem drain (course : Course base whole share ended cancelled admitted handled
      (worker.stage.messages ++ worker.queue.flatten ++ coming) delivered worker)
    (idle : worker.acts = []) (staged : worker.stage = .handling []) :
    Course base whole share ended cancelled admitted handled
      ([] ++ worker.queue.flatten ++ coming) delivered
      { worker with acts := Act.drainActs worker.pending, stage := .popping } := by
  obtain ⟨standing, account, none⟩ := course.going_of_handling staged
  have next := standing.move (by simp [staged]) (.drained idle staged)
  rw [List.append_nil] at next
  refine .going next ?_ ?_ ?_
  · simpa [staged, Stage.messages] using account
  · simp
  · simp

/-- The sentinel is the last message. -/
theorem read_sentinel {later : WorkerBatch}
    (course : Course base whole share ended cancelled admitted handled
      (worker.stage.messages ++ worker.queue.flatten ++ coming) delivered worker)
    (idle : worker.acts = []) (staged : worker.stage = .handling (.endOfStream :: later)) :
    Course base whole share ended cancelled admitted (handled ++ [.endOfStream])
      ([] ++ worker.queue.flatten ++ coming) delivered
      { worker with acts := Act.drainActs worker.pending, stage := .stopped } := by
  obtain ⟨standing, account, none⟩ := course.going_of_handling staged
  have next := standing.move (by simp [staged]) (.ended idle staged)
  rw [List.append_nil] at next
  have last : later ++ worker.queue.flatten ++ coming = [] := by
    cases standing with
    | reading consumed effects active processed split produced =>
      rw [staged] at split
      exact (Standing.ended_of_head split).2.2
    | stopped effects other => simp [staged] at other
    | exited effects last other => simp [staged] at other
  refine .going next ?_ ?_ ?_
  · rw [staged, Stage.messages, List.cons_append, List.cons_append, last] at account
    simp only [List.append_eq_nil_iff] at last
    simpa [last] using account
  · simp
  · simp [none]

/-- An item is processed. -/
theorem read_item {item : BatchItem} {messages : WorkerBatch} {effects : List Effect}
    {processor : KeyedProcessor}
    (course : Course base whole share ended cancelled admitted handled
      (worker.stage.messages ++ worker.queue.flatten ++ coming) delivered worker)
    (idle : worker.acts = []) (staged : worker.stage = .handling (.item item :: messages))
    (processed : worker.processor.processItem item = .ok (effects, processor)) :
    Course base whole share ended cancelled admitted (handled ++ [.item item])
      (messages ++ worker.queue.flatten ++ coming) delivered
      { worker with
        processor := processor
        acts := effects.flatMap Act.ofEffect
        stage := .handling messages } := by
  obtain ⟨standing, account, none⟩ := course.going_of_handling staged
  have next := standing.move (by simp [staged]) (.handled idle staged processed)
  rw [List.append_nil] at next
  refine .going next ?_ ?_ ?_
  · simpa [staged, Stage.messages] using account
  · simp [none]
  · simp

/-- A batch is popped. -/
theorem pop {batch : WorkerBatch} {queue : List WorkerBatch}
    (course : Course base whole share ended cancelled admitted handled
      (worker.stage.messages ++ worker.queue.flatten ++ coming) delivered worker)
    (idle : worker.acts = []) (staged : worker.stage = .popping)
    (queued : worker.queue = batch :: queue) :
    Course base whole share ended cancelled false handled
      (batch ++ queue.flatten ++ coming) delivered
      { worker with queue := queue, stage := .handling batch } := by
  cases course with
  | halted idle other => simp [staged] at other
  | going standing account entered complete =>
    have next := standing.move (by simp [queued]) (.popped idle staged queued)
    rw [List.append_nil] at next
    refine .going next ?_ ?_ ?_
    · simpa [staged, queued, Stage.messages] using account
    · simp
    · simp

/-- A worker stops reading because the flag is set. -/
theorem halt (course : Course base whole share ended true admitted handled input delivered worker)
    (part : share <+: whole) (idle : worker.acts = []) (outside : admitted = false)
    {rest : WorkerBatch} :
    Course base whole share ended true admitted handled rest delivered
      { worker with stage := .stopped } :=
  .halted idle (.inr ⟨rfl, rfl, outside⟩) (course.within part)

/-- A worker finds its queue closed and empty. Unless the flag is set, the router has closed it,
and then the sentinel would have come first. -/
theorem find_closed
    (course : Course base whole share ended cancelled admitted handled
      (worker.stage.messages ++ worker.queue.flatten ++ coming) delivered worker)
    (part : share <+: whole) (idle : worker.acts = []) (staged : worker.stage = .popping)
    (empty : worker.queue = []) (closed : worker.closed = true)
    (shut : cancelled = false → ended = true ∧ coming = []) :
    Course base whole share ended cancelled false handled
      ([] ++ worker.queue.flatten ++ coming) delivered { worker with stage := .stopped } := by
  cases cancelled with
  | true => exact .halted idle (.inr ⟨rfl, rfl, rfl⟩) (course.within part)
  | false =>
    cases course with
    | halted idle other => simp [staged] at other
    | going standing account entered complete =>
      have next := standing.move (fun _ _ _ _ => shut rfl) (.closedDown idle staged empty closed)
      rw [List.append_nil] at next
      refine .going next ?_ ?_ ?_
      · simpa [staged, Stage.messages] using account
      · simp
      · simp

/-- A worker finds the flag unset. Before its last step that means that it has seen everything. -/
theorem enter
    (course : Course base whole share ended false admitted handled input delivered worker)
    (staged : worker.stage = .popping ∨ worker.stage = .stopped)
    (complete : ended = true → share = whole) :
    Course base whole share ended false true handled input delivered worker := by
  cases course with
  | halted idle other => rcases staged with staged | staged <;> simp [staged] at other
  | going standing account entered _ =>
    refine .going standing account (fun _ => staged) ?_
    intro left
    cases standing with
    | reading consumed effects active =>
      rcases left with exited | ⟨stopped, _⟩
      · simp [exited, Stage.Reading] at active
      · simp [stopped, Stage.Reading] at active
    | stopped effects staged processed final => exact complete final
    | exited effects last staged processed flushed final => exact complete final

/-- The last flush. -/
theorem flush
    (course : Course base whole share ended cancelled true handled
      (worker.stage.messages ++ worker.queue.flatten ++ coming) delivered worker)
    (idle : worker.acts = []) (staged : worker.stage = .stopped) :
    Course base whole share ended cancelled false handled
      ([] ++ worker.queue.flatten ++ coming) delivered
      { worker with
        processor := worker.processor.finalFlush.2
        acts := worker.processor.finalFlush.1.flatMap Act.ofEffect
        stage := .exited } := by
  cases course with
  | halted idle other => simp [staged] at other
  | going standing account entered complete =>
    have next := standing.move (by simp [staged]) (.flushed idle staged)
    rw [List.append_nil] at next
    refine .going next ?_ ?_ (fun _ => complete (.inr ⟨staged, rfl⟩))
    · simpa [staged, Stage.messages] using account
    · simp

/-- Before its last flush a worker has processed all of its messages. -/
theorem handled_of_flushing
    (course : Course base whole share ended cancelled true handled input delivered worker)
    (staged : worker.stage = .stopped) : handled = whole.map .item ++ [.endOfStream] := by
  cases course with
  | halted idle other => simp [staged] at other
  | going standing account entered complete =>
    cases standing with
    | reading consumed effects active => simp [staged, Stage.Reading] at active
    | stopped effects staged processed final arrived produced =>
      rw [← complete (.inr ⟨staged, rfl⟩)]
      simpa [final, arrived] using account
    | exited effects last other => simp [staged] at other

end Steps

end Worker.Course

namespace FailingPipeline

open PartitionedPipeline

variable {n : Nat} [NeZero n] {σ : Type} [Source σ]

omit [NeZero n] [Source σ] in
theorem setWorker_self (pipeline : PartitionedPipeline n σ) (index : Fin n) :
    pipeline.setWorker index (pipeline.workers index) = pipeline := by
  simp [PartitionedPipeline.setWorker]

omit [NeZero n] [Source σ] in
@[simp] theorem note_handled_self (state : FailingPipeline n σ) (index : Fin n)
    (message : WorkerMessage) :
    (state.note index message).handled index = state.handled index ++ [message] :=
  Function.update_self ..

omit [NeZero n] [Source σ] in
@[simp] theorem setAdmitted_self (state : FailingPipeline n σ) (thread : Thread n) (value : Bool) :
    (state.setAdmitted thread value).admitted thread = value :=
  Function.update_self ..

omit [NeZero n] [Source σ] in
theorem setAdmitted_other (state : FailingPipeline n σ) {index other : Fin n} (value : Bool)
    (elsewhere : other ≠ index) :
    (state.setAdmitted (.worker index) value).admitted (.worker other) =
      state.admitted (.worker other) :=
  Function.update_of_ne (by simpa using elsewhere) _ _

omit [NeZero n] [Source σ] in
theorem setAdmitted_router (state : FailingPipeline n σ) (value : Bool) (index : Fin n) :
    (state.setAdmitted .router value).admitted (.worker index) =
      state.admitted (.worker index) := by
  simp [setAdmitted]

/-- `fail` closes no queue before it has set the flag. -/
def Ordered : (cancelled : Bool) → List (FailTask n) → Prop
  | _, [] => True
  | cancelled, .record _ :: rest => Ordered cancelled rest
  | _, .cancel :: rest => Ordered true rest
  | cancelled, .close _ :: rest => cancelled = true ∧ Ordered cancelled rest

omit [NeZero n] in
theorem ordered_closes (targets : List (Fin n)) :
    Ordered true (targets.map FailTask.close) := by
  induction targets with
  | nil => trivial
  | cons target rest inductionHypothesis => exact ⟨rfl, inductionHypothesis⟩

omit [NeZero n] in
theorem ordered_failTasks (cancelled : Bool) (failure : Failure) :
    Ordered cancelled (failTasks failure : List (FailTask n)) :=
  ordered_closes _

omit [NeZero n] in
theorem Ordered.cancel {cancelled : Bool} {tasks : List (FailTask n)}
    (ordered : Ordered cancelled tasks) : Ordered true tasks := by
  induction tasks with
  | nil => trivial
  | cons task rest inductionHypothesis =>
    cases task with
    | record failure => exact inductionHypothesis ordered
    | cancel => exact ordered
    | close partition => exact ⟨rfl, inductionHypothesis ordered.2⟩

/-- How much of the input the router has taken. `lost` is what it had taken and not pushed when
it returned early. -/
inductive Supplied (batches : List Batch) (taken : Batch) (ended : Bool)
    (lost : Fin n → WorkerBatch) (pipeline : PartitionedPipeline n σ) : Prop where
  | pulling (remaining : List Batch) (delivers : Source.Delivers pipeline.source remaining)
      (split : taken ++ remaining.flatten = batches.flatten)
      (tasks : ∃ pushes, pipeline.router = pushes ++ [.pull] ∧
        ∀ task ∈ pushes, ∃ target batch, task = .push target batch)
      (more : ended = false) (kept : ∀ partition, lost partition = [])
  | closing (part : taken <+: batches.flatten) (tasks : pipeline.router <:+ endTasks)
      (final : ended = true) (kept : pipeline.router ≠ [] → ∀ partition, lost partition = [])
  | gone (part : taken <+: batches.flatten) (idle : pipeline.router = []) (more : ended = false)

omit [NeZero n] in
theorem Supplied.part {batches : List Batch} {taken : Batch} {ended : Bool}
    {lost : Fin n → WorkerBatch} {pipeline : PartitionedPipeline n σ}
    (supply : Supplied batches taken ended lost pipeline) : taken <+: batches.flatten := by
  cases supply with
  | pulling remaining delivers split => exact ⟨_, split⟩
  | closing part => exact part
  | gone part => exact part

omit [NeZero n] in
theorem Supplied.same {batches : List Batch} {taken : Batch} {ended : Bool}
    {lost : Fin n → WorkerBatch} {pipeline after : PartitionedPipeline n σ}
    (supply : Supplied batches taken ended lost pipeline)
    (source : after.source = pipeline.source) (router : after.router = pipeline.router) :
    Supplied batches taken ended lost after := by
  cases supply with
  | pulling remaining delivers split tasks more kept =>
    exact .pulling remaining (source ▸ delivers) split (router ▸ tasks) more kept
  | closing part tasks final kept => exact .closing part (router ▸ tasks) final (router ▸ kept)
  | gone part idle more => exact .gone part (router.trans idle) more

/-- What is or was on its way to a worker and has not reached its queue. -/
def coming (router : List (RouterTask n)) (lost : Fin n → WorkerBatch) (partition : Fin n) :
    WorkerBatch :=
  routerMessages router partition ++ lost partition

/-- The invariant of a run that may fail: whatever the threads have seen of the flag, every worker
keeps to its course. -/
structure Safe (base : Fin n → KeyedProcessor) (batches : List Batch)
    (earlier : List (Fin n × WindowResult)) (taken : Batch) (ended : Bool)
    (recent : List (Fin n × WindowResult)) (lost : Fin n → WorkerBatch)
    (state : FailingPipeline n σ) : Prop where
  supply : Supplied batches taken ended lost state.pipeline
  complete : ended = true → state.pipeline.cancelled = false → taken = batches.flatten
  log : state.pipeline.sink.emitted = earlier ++ recent
  course : ∀ partition, (state.pipeline.workers partition).Course (base partition)
    (routed partition batches.flatten) (routed partition taken) ended state.pipeline.cancelled
    (state.admitted (.worker partition)) (state.handled partition)
    ((state.pipeline.workers partition).stage.messages ++
      (state.pipeline.workers partition).queue.flatten ++
      coming state.pipeline.router lost partition)
    (deliveredBy partition recent)
  shut : state.pipeline.cancelled = false → ∀ partition,
    (state.pipeline.workers partition).closed = true →
      ended = true ∧ coming state.pipeline.router lost partition = []
  ordered : ∀ thread, Ordered state.pipeline.cancelled (state.handlers thread)

namespace Safe

variable {base : Fin n → KeyedProcessor} {batches : List Batch}
  {earlier recent : List (Fin n × WindowResult)} {taken : Batch} {ended : Bool}
  {lost : Fin n → WorkerBatch} {state after : FailingPipeline n σ}

section

variable (safe : Safe base batches earlier taken ended recent lost state)
  {rest : List (RouterTask n)}

include safe

theorem share_prefix (partition : Fin n) :
    routed partition taken <+: routed partition batches.flatten := by
  obtain ⟨rest, split⟩ := safe.supply.part
  rw [← split, routed_append]
  exact List.prefix_append _ _

/-- A step of one worker leaves the courses of the others alone. -/
theorem of_worker {index : Fin n} {out : List WindowResult} {worker : Worker}
    (own : Local state.pipeline index out worker after.pipeline)
    (closed : worker.closed = (state.pipeline.workers index).closed)
    (admitted : ∀ other ≠ index, after.admitted (.worker other) = state.admitted (.worker other))
    (handled : ∀ other ≠ index, after.handled other = state.handled other)
    (ordered : ∀ thread, Ordered state.pipeline.cancelled (after.handlers thread))
    (course : worker.Course (base index) (routed index batches.flatten) (routed index taken) ended
      state.pipeline.cancelled (after.admitted (.worker index)) (after.handled index)
      (worker.stage.messages ++ worker.queue.flatten ++ coming state.pipeline.router lost index)
      (deliveredBy index recent ++ out)) :
    Safe base batches earlier taken ended (recent ++ out.map (index, ·)) lost after := by
  constructor
  · exact safe.supply.same own.source own.router
  · rw [own.cancelled]
    exact safe.complete
  · rw [own.sink, safe.log, List.append_assoc]
  · intro partition
    rw [own.workers, own.router, own.cancelled, deliveredBy_append]
    by_cases here : partition = index
    · subst here
      rw [Function.update_self, deliveredBy_self]
      exact course
    · rw [Function.update_of_ne here, deliveredBy_other (fun same => here same.symm),
        List.append_nil, admitted partition here, handled partition here]
      exact safe.course partition
  · rw [own.cancelled, own.router, own.workers]
    intro running partition shut
    refine safe.shut running partition ?_
    by_cases here : partition = index
    · subst here
      rw [Function.update_self, closed] at shut
      exact shut
    · rw [Function.update_of_ne here] at shut
      exact shut
  · rw [own.cancelled]
    exact ordered

/-- An exception on a worker. -/
theorem throw_worker {index : Fin n} (processor : KeyedProcessor) (failure : Failure)
    (own : Local state.pipeline index []
      { state.pipeline.workers index with processor := processor } after.pipeline)
    (admitted : after.admitted = state.admitted) (handled : after.handled = state.handled)
    (handlers : after.handlers = state.handlers) :
    Safe base batches earlier taken ended (recent ++ []) lost
      (after.throw (.worker index) failure) := by
  have left : Local state.pipeline index []
      { state.pipeline.workers index with processor := processor, acts := [], stage := .exited }
      (after.throw (.worker index) failure).pipeline := by
    refine ⟨own.config, own.source, own.router, ?_, own.sink, own.error, own.cancelled,
      own.finished⟩
    simp [throw, unwind, PartitionedPipeline.setWorker, own.workers]
  refine safe.of_worker left rfl ?_ ?_ ?_ ?_
  · intro other elsewhere
    simp [throw, admitted, elsewhere]
  · intro other _
    simp [throw, handled]
  · intro thread
    by_cases here : thread = .worker index
    · subst here
      simpa [throw] using ordered_failTasks _ failure
    · simpa [throw, here, handlers] using safe.ordered thread
  · rw [List.append_nil, show (after.throw (.worker index) failure).handled = state.handled from
      handled]
    refine (safe.course index).leave (safe.share_prefix index) ?_ ?_ ?_ <;> rfl

/-- A worker goes on with its function. -/
theorem worker_step {index : Fin n} (stepped : state.workerStep index = some after) :
    ∃ out, Safe base batches earlier taken ended (recent ++ out) lost after := by
  rw [workerStep] at stepped
  split at stepped
  · next act rest calling =>
    obtain ⟨pipeline, moving, rfl⟩ := Option.map_eq_some_iff.mp stepped
    obtain ⟨out, worker, moved, own⟩ := actStep_move calling moving
    refine ⟨_, safe.of_worker own ?_ (fun _ _ => rfl) (fun _ _ => rfl) safe.ordered ?_⟩
    · cases moved <;> rfl
    · exact (safe.course index).call (by simp [calling]) moved
  · next idle =>
    -- Every step between calls replaces the worker and delivers nothing.
    have replaced {worker : Worker} {next : FailingPipeline n σ}
        (pipeline : next.pipeline = state.pipeline.setWorker index worker)
        (closed : worker.closed = (state.pipeline.workers index).closed)
        (admitted : ∀ other ≠ index,
          next.admitted (.worker other) = state.admitted (.worker other))
        (handled : ∀ other ≠ index, next.handled other = state.handled other)
        (handlers : next.handlers = state.handlers)
        (course : worker.Course (base index) (routed index batches.flatten) (routed index taken)
          ended state.pipeline.cancelled (next.admitted (.worker index)) (next.handled index)
          (worker.stage.messages ++ worker.queue.flatten ++
            coming state.pipeline.router lost index) (deliveredBy index recent)) :
        ∃ out, Safe base batches earlier taken ended (recent ++ out) lost next := by
      refine ⟨_, safe.of_worker (pipeline ▸ setWorker_local _ _ _) closed admitted handled
        (handlers ▸ safe.ordered) ?_⟩
      rw [List.append_nil]
      exact course
    have course := safe.course index
    have complete (running : state.pipeline.cancelled = false) (final : ended = true) :
        routed index taken = routed index batches.flatten := by
      rw [safe.complete final running]
    rw [stageStep] at stepped
    split at stepped
    · next staged =>
      obtain rfl := Option.some.inj stepped
      exact replaced rfl rfl (fun _ _ => rfl) (fun _ _ => rfl) rfl (course.drain idle staged)
    · next later staged =>
      obtain rfl := Option.some.inj stepped
      refine replaced rfl rfl (fun _ _ => rfl) ?_ rfl ?_
      · exact fun other elsewhere => Function.update_of_ne elsewhere _ _
      · rw [note_handled_self]
        exact course.read_sentinel idle staged
    · next item messages staged =>
      split at stepped
      · next failure processor processed =>
        obtain rfl := Option.some.inj stepped
        exact ⟨_, safe.throw_worker processor failure (setWorker_local _ _ _) rfl rfl rfl⟩
      · next effects processor processed =>
        obtain rfl := Option.some.inj stepped
        refine replaced rfl rfl (fun _ _ => rfl) ?_ rfl ?_
        · exact fun other elsewhere => Function.update_of_ne elsewhere _ _
        · rw [note_handled_self]
          exact course.read_item idle staged processed
    · next staged =>
      split at stepped
      · split at stepped
        · next batch queue queued =>
          obtain rfl := Option.some.inj stepped
          refine replaced rfl rfl (fun _ => setAdmitted_other _ _) (fun _ _ => rfl) rfl ?_
          rw [setAdmitted_self]
          exact course.pop idle staged queued
        · next empty =>
          split at stepped
          · next closed =>
            obtain rfl := Option.some.inj stepped
            refine replaced rfl rfl (fun _ => setAdmitted_other _ _) (fun _ _ => rfl) rfl ?_
            rw [setAdmitted_self]
            exact course.find_closed (safe.share_prefix index) idle staged empty closed
              (fun running => safe.shut running index closed)
          · simp at stepped
      · next outside =>
        split at stepped
        · next cancelled =>
          obtain rfl := Option.some.inj stepped
          refine replaced rfl rfl (fun _ _ => rfl) (fun _ _ => rfl) rfl ?_
          rw [cancelled] at course ⊢
          exact course.halt (safe.share_prefix index) idle (by simpa using outside)
        · next running =>
          obtain rfl := Option.some.inj stepped
          refine replaced (setWorker_self _ _).symm rfl (fun _ => setAdmitted_other _ _)
            (fun _ _ => rfl) rfl ?_
          rw [setAdmitted_self]
          rw [Bool.eq_false_iff.mpr running] at course ⊢
          exact course.enter (.inl staged) (complete (Bool.eq_false_iff.mpr running))
    · next staged =>
      split at stepped
      · next inside =>
        obtain rfl := Option.some.inj stepped
        refine replaced rfl rfl (fun _ => setAdmitted_other _ _) (fun _ _ => rfl) rfl ?_
        rw [setAdmitted_self]
        rw [inside] at course
        exact course.flush idle staged
      · next outside =>
        split at stepped
        · next cancelled =>
          obtain rfl := Option.some.inj stepped
          refine replaced rfl rfl (fun _ _ => rfl) (fun _ _ => rfl) rfl ?_
          refine course.leave (safe.share_prefix index) ?_ ?_ ?_
          · exact idle
          · rfl
          · rfl
        · next running =>
          obtain rfl := Option.some.inj stepped
          refine replaced (setWorker_self _ _).symm rfl (fun _ => setAdmitted_other _ _)
            (fun _ _ => rfl) rfl ?_
          rw [setAdmitted_self]
          rw [Bool.eq_false_iff.mpr running] at course ⊢
          exact course.enter (.inr staged) (complete (Bool.eq_false_iff.mpr running))
    · simp at stepped

/-- The router returns early: what it had taken and not pushed is lost. -/
theorem vanish (pipeline : after.pipeline = { state.pipeline with router := [] })
    (admitted : ∀ partition,
      after.admitted (.worker partition) = state.admitted (.worker partition))
    (handled : after.handled = state.handled)
    (ordered : ∀ thread, Ordered state.pipeline.cancelled (after.handlers thread)) :
    Safe base batches earlier taken ended recent (coming state.pipeline.router lost) after := by
  have same (partition : Fin n) : coming ([] : List (RouterTask n))
      (coming state.pipeline.router lost) partition = coming state.pipeline.router lost partition :=
    List.nil_append _
  constructor
  · rw [pipeline]
    cases safe.supply with
    | pulling remaining delivers split tasks more kept => exact .gone ⟨_, split⟩ rfl more
    | closing part tasks final kept =>
      exact .closing part List.nil_suffix final (fun busy => absurd rfl busy)
    | gone part idle more => exact .gone part rfl more
  · rw [pipeline]
    exact safe.complete
  · rw [pipeline]
    exact safe.log
  · intro partition
    rw [pipeline, admitted, handled]
    dsimp only
    rw [same]
    exact safe.course partition
  · rw [pipeline]
    intro running partition closed
    rw [same]
    exact safe.shut running partition closed
  · rw [pipeline]
    exact ordered

/-- The router pulls only while nothing is lost and no queue has its sentinel. -/
theorem pulling (router : state.pipeline.router = .pull :: rest) :
    rest = [] ∧ ended = false ∧ (∀ partition, lost partition = []) ∧
      ∃ remaining, Source.Delivers state.pipeline.source remaining ∧
        taken ++ remaining.flatten = batches.flatten := by
  cases safe.supply with
  | closing part tasks final kept =>
    have inside : .pull ∈ (endTasks : List (RouterTask n)) := by
      rw [router] at tasks
      exact tasks.subset List.mem_cons_self
    simp [endTasks] at inside
  | gone part idle more => simp [router] at idle
  | pulling remaining delivers split tasks more kept =>
    refine ⟨?_, more, kept, remaining, delivers, split⟩
    obtain ⟨pushes, shape, pushing⟩ := tasks
    cases pushes with
    | nil => simpa [router] using shape
    | cons first others =>
      rw [router, List.cons_append] at shape
      obtain ⟨target, batch, other⟩ := pushing first List.mem_cons_self
      rw [other] at shape
      simp at shape

/-- The router takes more of the input, or decides to end. -/
theorem take_more (router : state.pipeline.router = .pull :: rest) (more : Batch) {final : Bool}
    (workers : after.pipeline.workers = state.pipeline.workers)
    (cancelled : after.pipeline.cancelled = state.pipeline.cancelled)
    (sink : after.pipeline.sink = state.pipeline.sink)
    (messages : ∀ partition, routerMessages after.pipeline.router partition =
      (routed partition more).map .item ++ if final = true then [.endOfStream] else [])
    (supply : Supplied batches (taken ++ more) final lost after.pipeline)
    (complete : final = true → state.pipeline.cancelled = false → taken ++ more = batches.flatten)
    (admitted : ∀ partition,
      after.admitted (.worker partition) = state.admitted (.worker partition))
    (handled : after.handled = state.handled) (handlers : after.handlers = state.handlers) :
    Safe base batches earlier (taken ++ more) final recent lost after := by
  obtain ⟨rfl, open_, kept, _⟩ := safe.pulling router
  have idle (partition : Fin n) : coming state.pipeline.router lost partition = [] := by
    rw [coming, router, kept]
    rfl
  constructor
  · exact supply
  · rw [cancelled]
    exact complete
  · rw [sink]
    exact safe.log
  · intro partition
    have course := safe.course partition
    rw [idle, List.append_nil, open_] at course
    rw [workers, cancelled, admitted, handled, routed_append, coming, messages, kept,
      List.append_nil]
    exact course.extend (routed partition more) final
  · rw [cancelled, workers]
    intro running partition closed
    simp [(safe.shut running partition closed).1] at open_
  · rw [cancelled, handlers]
    exact safe.ordered

/-- The router loads the flag or calls `Next`. -/
theorem pull_step (router : state.pipeline.router = .pull :: rest)
    (stepped : state.routerStep = some after) :
    ∃ taken ended, Safe base batches earlier taken ended recent lost after := by
  obtain ⟨rfl, open_, kept, remaining, delivers, split⟩ := safe.pulling router
  have sentinels (partition : Fin n) : routerMessages (endTasks ++ []) partition =
      (routed partition ([] : Batch)).map .item ++
        if true = true then [.endOfStream] else [] := by
    rw [List.append_nil, routerMessages_endTasks]
    rfl
  rw [routerStep, router] at stepped
  dsimp only at stepped
  split at stepped
  · cases delivers with
    | ended observed =>
      rw [observed] at stepped
      obtain rfl := Option.some.inj stepped
      have all : taken ++ [] = batches.flatten := by simpa using split
      refine ⟨taken ++ [], true, safe.take_more router [] rfl rfl rfl sentinels
        (.closing ?_ ?_ rfl (fun _ => kept)) (fun _ _ => all) (setAdmitted_router _ _) rfl rfl⟩
      · rw [all]
      · exact (List.append_nil _).symm ▸ List.suffix_refl _
    | @handed source rest batch later observed delivered =>
      rw [observed] at stepped
      obtain rfl := Option.some.inj stepped
      refine ⟨taken ++ batch, false, safe.take_more router batch rfl rfl rfl ?_
        (.pulling later delivered ?_ ⟨batchTasks batch, rfl, ?_⟩ rfl kept) (by simp)
          (setAdmitted_router _ _)
        rfl rfl⟩
      · intro partition
        change routerMessages (batchTasks batch ++ [.pull]) partition = _
        rw [routerMessages_append, routerMessages_batchTasks]
        rfl
      · simpa [List.append_assoc] using split
      · intro task member
        obtain ⟨target, _, found⟩ := List.mem_filterMap.mp member
        dsimp only at found
        split at found
        · simp at found
        · exact ⟨_, _, (Option.some.inj found).symm⟩
  · split at stepped
    · next cancelled =>
      obtain rfl := Option.some.inj stepped
      refine ⟨taken ++ [], true, safe.take_more router [] rfl rfl rfl sentinels
        (.closing ?_ ?_ rfl (fun _ => kept)) (by simp [cancelled]) (fun _ => rfl) rfl rfl⟩
      · rw [List.append_nil]
        exact safe.supply.part
      · exact (List.append_nil _).symm ▸ List.suffix_refl _
    · obtain rfl := Option.some.inj stepped
      refine ⟨taken, ended, safe.supply, safe.complete, safe.log, ?_, safe.shut, safe.ordered⟩
      intro partition
      rw [setAdmitted_router]
      exact safe.course partition

/-- Any task but a pull leaves the supply as it is. -/
theorem supply_tail {task : RouterTask n} (router : state.pipeline.router = task :: rest)
    (other : task ≠ .pull) :
    (∀ {pipeline : PartitionedPipeline n σ}, pipeline.source = state.pipeline.source →
      pipeline.router = rest → Supplied batches taken ended lost pipeline) ∧
      ∀ partition, lost partition = [] := by
  cases safe.supply with
  | pulling remaining delivers split tasks more kept =>
    refine ⟨fun source next => .pulling remaining (source ▸ delivers) split ?_ more kept, kept⟩
    obtain ⟨pushes, shape, pushing⟩ := tasks
    rw [router] at shape
    cases pushes with
    | nil => exact absurd (List.cons.inj shape).1 other
    | cons first others =>
      refine ⟨others, next.trans (List.cons.inj shape).2, ?_⟩
      exact fun task member => pushing task (List.mem_cons_of_mem first member)
  | closing part tasks final kept =>
    have none := kept (by simp [router])
    rw [router] at tasks
    refine ⟨fun _ next => .closing part ?_ final (fun _ => none), none⟩
    rw [next]
    exact (List.suffix_cons task rest).trans tasks
  | gone part idle more => simp [router] at idle

/-- A push reaches the queue, or finds it closed. -/
theorem push_step {target : Fin n} {batch : WorkerBatch}
    (router : state.pipeline.router = .push target batch :: rest)
    (stepped : state.routerStep = some after) :
    ∃ lost, Safe base batches earlier taken ended recent lost after := by
  rw [FailingPipeline.routerStep, router] at stepped
  obtain ⟨pipeline, pushed, rfl⟩ := Option.map_eq_some_iff.mp stepped
  rw [PartitionedPipeline.routerStep, router] at pushed
  dsimp only at pushed
  split at pushed
  · obtain rfl := Option.some.inj pushed
    exact ⟨_, safe.vanish rfl (fun _ => rfl) rfl safe.ordered⟩
  · next openQueue =>
    split at pushed
    · obtain rfl := Option.some.inj pushed
      obtain ⟨supply, _⟩ := safe.supply_tail router (by simp)
      refine ⟨lost, supply rfl rfl, safe.complete, safe.log, ?_, ?_,
        safe.ordered⟩
      · intro partition
        have course := safe.course partition
        by_cases here : partition = target
        · subst here
          rw [coming, router, routerMessages_push] at course
          simp only [PartitionedPipeline.setWorker, Function.update_self, List.flatten_append,
            List.flatten_singleton, coming]
          simp only [List.append_assoc] at course ⊢
          exact course.requeue _
        · rw [coming, router, routerMessages_push_of_ne here] at course
          simp only [PartitionedPipeline.setWorker, Function.update_of_ne here]
          exact course
      · intro running partition closed
        by_cases here : partition = target
        · subst here
          simp [PartitionedPipeline.setWorker, openQueue] at closed
        · simp only [PartitionedPipeline.setWorker, Function.update_of_ne here] at closed
          have shut := safe.shut running partition closed
          rw [coming, router, routerMessages_push_of_ne here] at shut
          exact shut
    · simp at pushed

/-- A queue is closed when its sentinel has been pushed. -/
theorem close_step {target : Fin n} (router : state.pipeline.router = .close target :: rest)
    (stepped : state.routerStep = some after) :
    Safe base batches earlier taken ended recent lost after := by
  rw [FailingPipeline.routerStep, router] at stepped
  obtain ⟨pipeline, pushed, rfl⟩ := Option.map_eq_some_iff.mp stepped
  rw [PartitionedPipeline.routerStep, router] at pushed
  obtain rfl := Option.some.inj pushed
  obtain ⟨final, tasks⟩ : ended = true ∧ .close target :: rest <:+ endTasks := by
    cases safe.supply with
    | closing part tasks final kept => exact ⟨final, router ▸ tasks⟩
    | gone part idle more => simp [router] at idle
    | pulling remaining delivers split tasks more kept =>
      obtain ⟨pushes, shape, pushing⟩ := tasks
      rw [router] at shape
      cases pushes with
      | nil => simp at shape
      | cons first others =>
        obtain ⟨_, _, other⟩ := pushing first List.mem_cons_self
        rw [other] at shape
        simp at shape
  have same (partition : Fin n) :
      coming state.pipeline.router lost partition = coming rest lost partition := by
    rw [coming, router]
    rfl
  obtain ⟨supply, kept⟩ := safe.supply_tail router (by simp)
  refine ⟨supply rfl rfl, safe.complete, safe.log, ?_, ?_, safe.ordered⟩
  · intro partition
    have course := safe.course partition
    rw [same] at course
    by_cases here : partition = target
    · subst here
      simp only [PartitionedPipeline.setWorker, Function.update_self]
      exact course.close
    · simp only [PartitionedPipeline.setWorker, Function.update_of_ne here]
      exact course
  · intro running partition closed
    refine ⟨final, ?_⟩
    by_cases here : partition = target
    · subst here
      change routerMessages rest partition ++ lost partition = []
      rw [routerMessages_after_close tasks, kept]
      rfl
    · simp only [PartitionedPipeline.setWorker, Function.update_of_ne here] at closed
      change coming rest lost partition = []
      rw [← same]
      exact (safe.shut running partition closed).2

/-- A step of `fail`. -/
theorem fail_step {thread : Thread n} {task : FailTask n} {rest : List (FailTask n)}
    (handling : state.handlers thread = task :: rest) :
    Safe base batches earlier taken ended recent lost
      { state with
        pipeline := failStep state.pipeline task
        handlers := Function.update state.handlers thread rest } := by
  have ordered {cancelled : Bool} (others : ∀ other, Ordered cancelled (state.handlers other))
      (own : Ordered cancelled rest) (other : Thread n) :
      Ordered cancelled (Function.update state.handlers thread rest other) := by
    by_cases here : other = thread
    · subst here
      simpa using own
    · simpa [here] using others other
  have task_ordered := safe.ordered thread
  rw [handling] at task_ordered
  cases task with
  | record failure =>
    exact ⟨safe.supply.same rfl rfl, safe.complete, safe.log, safe.course, safe.shut,
      ordered safe.ordered task_ordered⟩
  | cancel =>
    refine ⟨safe.supply.same rfl rfl, by simp [failStep], safe.log, ?_, by simp [failStep],
      ordered (fun other => (safe.ordered other).cancel) task_ordered⟩
    exact fun partition => (safe.course partition).cancel
  | close target =>
    obtain ⟨cancelled, own⟩ := task_ordered
    refine ⟨safe.supply.same rfl rfl, safe.complete, safe.log, ?_, ?_, ordered safe.ordered own⟩
    · intro partition
      have course := safe.course partition
      by_cases here : partition = target
      · subst here
        simp only [failStep, PartitionedPipeline.setWorker, Function.update_self]
        exact course.close
      · simp only [failStep, PartitionedPipeline.setWorker, Function.update_of_ne here]
        exact course
    · intro running
      exact absurd (cancelled.symm.trans running) (by simp)

/-- A step of any thread keeps the invariant. -/
theorem step (stepped : Steps state after) :
    ∃ taken ended recent lost, Safe base batches earlier taken ended recent lost after := by
  obtain ⟨action, stepped⟩ := stepped
  cases action with
  | run thread =>
    rw [FailingPipeline.step] at stepped
    unfold threadStep at stepped
    split at stepped
    · next task rest handling =>
      obtain rfl := Option.some.inj stepped
      exact ⟨_, _, _, _, safe.fail_step handling⟩
    · cases thread with
      | worker index =>
        obtain ⟨out, next⟩ := safe.worker_step stepped
        exact ⟨_, _, _, _, next⟩
      | router =>
        dsimp only at stepped
        cases router : state.pipeline.router with
        | nil =>
          rw [FailingPipeline.routerStep, router] at stepped
          simp [PartitionedPipeline.routerStep, router] at stepped
        | cons task rest =>
          cases task with
          | pull =>
            obtain ⟨_, _, next⟩ := safe.pull_step router stepped
            exact ⟨_, _, _, _, next⟩
          | push target batch =>
            obtain ⟨_, next⟩ := safe.push_step router stepped
            exact ⟨_, _, _, _, next⟩
          | close target => exact ⟨_, _, _, _, safe.close_step router stepped⟩
  | throw thread failure =>
    rw [FailingPipeline.step] at stepped
    split at stepped
    · obtain rfl := Option.some.inj stepped
      cases thread with
      | worker index =>
        have own := setWorker_local state.pipeline index (state.pipeline.workers index)
        rw [setWorker_self] at own
        exact ⟨_, _, _, _, safe.throw_worker _ failure own rfl rfl rfl⟩
      | router =>
        refine ⟨_, _, _, _, safe.vanish rfl ?_ rfl ?_⟩
        · intro partition
          simp [FailingPipeline.throw]
        · intro thread
          by_cases here : thread = .router
          · subst here
            simpa [FailingPipeline.throw] using ordered_failTasks _ failure
          · simpa [FailingPipeline.throw, here] using safe.ordered thread
    · simp at stepped
  | prune index partition offset =>
    obtain ⟨pipeline, pruned, rfl⟩ := Option.map_eq_some_iff.mp stepped
    rw [pruneStep] at pruned
    split at pruned
    · split at pruned
      · obtain rfl := Option.some.inj pruned
        exact ⟨taken, ended, recent, lost, safe.supply.same rfl rfl, safe.complete, safe.log,
          safe.course, safe.shut, safe.ordered⟩
      · simp at pruned
    · simp at pruned
  | merge =>
    rw [FailingPipeline.step] at stepped
    split at stepped
    · obtain ⟨pipeline, merged, rfl⟩ := Option.map_eq_some_iff.mp stepped
      rw [mergeStep] at merged
      split at merged
      · split at merged
        · obtain rfl := Option.some.inj merged
          exact ⟨taken, ended, recent, lost, safe.supply.same rfl rfl, safe.complete, safe.log,
            safe.course, safe.shut, safe.ordered⟩
        · obtain rfl := Option.some.inj merged
          exact ⟨taken, ended, recent, lost, safe.supply.same rfl rfl, safe.complete, safe.log,
            safe.course, safe.shut, safe.ordered⟩
      · simp at merged
    · simp at stepped

/-- The invariant holds in every state of a run. -/
theorem reaches (reached : Reaches state after) :
    ∃ taken ended recent lost, Safe base batches earlier taken ended recent lost after := by
  induction reached with
  | refl => exact ⟨taken, ended, recent, lost, safe⟩
  | tail _ stepped inductionHypothesis =>
    obtain ⟨_, _, _, _, here⟩ := inductionHypothesis
    exact here.step stepped

end

end Safe

/-- A run starts with the invariant. -/
theorem start_safe (config : PartitionedConfig) (source : σ) (directories : Fin n → Directory)
    (sink : SinkLog n) {batches : List Batch}
    (delivers : Source.Delivers (PartitionedPipeline.start config source directories sink).source
      batches) :
    Safe (fun partition =>
        ((PartitionedPipeline.start config source directories sink).workers partition).processor)
      batches sink.emitted [] false [] (fun _ => []) (start config source directories sink) := by
  refine ⟨.pulling batches delivers rfl ⟨[], rfl, by simp⟩ rfl (fun _ => rfl), by simp, ?_, ?_, ?_,
    fun _ => trivial⟩
  · exact (List.append_nil _).symm
  · intro partition
    refine .going (.reading [] [] trivial rfl rfl rfl) rfl ?_ ?_
    · intro entered
      simp [start] at entered
    · simp [start, PartitionedPipeline.start]
  · intro _ partition closed
    simp [start, PartitionedPipeline.start] at closed

section Calm

/-- No exception has left a thread. -/
structure Calm (state : FailingPipeline n σ) : Prop where
  correct : state.pipeline.error = none
  running : state.pipeline.cancelled = false
  quiet : ∀ thread, state.handlers thread = []

/-- An exception is remembered, or is about to be. -/
def Disturbed (state : FailingPipeline n σ) : Prop :=
  state.pipeline.error ≠ none ∨
    ∃ thread failure rest, state.handlers thread = .record failure :: rest

variable {state after : FailingPipeline n σ}

omit [NeZero n] [Source σ] in
theorem throw_disturbed (state : FailingPipeline n σ) (thread : Thread n) (failure : Failure) :
    (state.throw thread failure).Disturbed :=
  .inr ⟨thread, failure, _, Function.update_self ..⟩

omit [NeZero n] [Source σ] in
theorem unwind_error (pipeline : PartitionedPipeline n σ) (thread : Thread n) :
    (unwind pipeline thread).error = pipeline.error := by
  cases thread <;> rfl

omit [NeZero n] [Source σ] in
/-- A worker that goes on leaves the error and the handlers of the others alone. -/
theorem workerStep_kept {index : Fin n} (stepped : state.workerStep index = some after) :
    after.pipeline.error = state.pipeline.error ∧
      ∀ thread ≠ .worker index, after.handlers thread = state.handlers thread := by
  rw [workerStep] at stepped
  split at stepped
  · next act rest calling =>
    obtain ⟨pipeline, moving, rfl⟩ := Option.map_eq_some_iff.mp stepped
    obtain ⟨_, _, _, own⟩ := actStep_move calling moving
    exact ⟨own.error, fun _ _ => rfl⟩
  · rw [stageStep] at stepped
    split at stepped
    · obtain rfl := Option.some.inj stepped
      exact ⟨rfl, fun _ _ => rfl⟩
    · obtain rfl := Option.some.inj stepped
      exact ⟨rfl, fun _ _ => rfl⟩
    · split at stepped
      · obtain rfl := Option.some.inj stepped
        exact ⟨unwind_error _ _, fun thread elsewhere => Function.update_of_ne elsewhere _ _⟩
      · obtain rfl := Option.some.inj stepped
        exact ⟨rfl, fun _ _ => rfl⟩
    · grind [setWorker, setAdmitted, PartitionedPipeline.setWorker]
    · grind [setWorker, setAdmitted, PartitionedPipeline.setWorker]
    · simp at stepped

/-- So does the router. -/
theorem routerStep_kept (stepped : state.routerStep = some after) :
    after.pipeline.error = state.pipeline.error ∧
      after.pipeline.cancelled = state.pipeline.cancelled ∧ after.handlers = state.handlers := by
  rw [routerStep] at stepped
  split at stepped
  · grind [setAdmitted]
  · obtain ⟨pipeline, moving, rfl⟩ := Option.map_eq_some_iff.mp stepped
    rw [PartitionedPipeline.routerStep] at moving
    grind [PartitionedPipeline.setWorker]

/-- An exception is not forgotten. -/
theorem Disturbed.step (disturbed : Disturbed state) (stepped : Steps state after) :
    Disturbed after := by
  have kept (error : after.pipeline.error = state.pipeline.error)
      (handlers : ∀ thread failure rest, state.handlers thread = .record failure :: rest →
        after.handlers thread = state.handlers thread) : Disturbed after := by
    rcases disturbed with remembered | ⟨thread, failure, rest, pending⟩
    · exact .inl (error ▸ remembered)
    · exact .inr ⟨thread, failure, rest, (handlers thread failure rest pending).trans pending⟩
  obtain ⟨action, stepped⟩ := stepped
  cases action with
  | run thread =>
    rw [FailingPipeline.step] at stepped
    unfold threadStep at stepped
    split at stepped
    · next task rest handling =>
      obtain rfl := Option.some.inj stepped
      have apart (other : Thread n) (failure : Failure) (later : List (FailTask n))
          (pending : state.handlers other = .record failure :: later)
          (different : task ≠ .record failure) :
          Function.update state.handlers thread rest other = state.handlers other := by
        refine Function.update_of_ne ?_ _ _
        rintro rfl
        exact different (List.cons.inj (handling.symm.trans pending)).1
      cases task with
      | record failure =>
        left
        cases earlier : state.pipeline.error <;> simp [failStep, earlier]
      | cancel | close =>
        exact kept rfl (fun other failure later pending =>
          apart other failure later pending (by simp))
    · next none =>
      cases thread with
      | router =>
        obtain ⟨error, _, handlers⟩ := routerStep_kept stepped
        exact kept error (fun _ _ _ _ => by rw [handlers])
      | worker index =>
        obtain ⟨error, others⟩ := workerStep_kept stepped
        refine kept error (fun thread _ _ pending => others thread ?_)
        rintro rfl
        simp [none] at pending
  | throw thread failure =>
    rw [FailingPipeline.step] at stepped
    split at stepped
    · obtain rfl := Option.some.inj stepped
      exact throw_disturbed _ _ _
    · simp at stepped
  | prune index partition offset =>
    obtain ⟨pipeline, pruned, rfl⟩ := Option.map_eq_some_iff.mp stepped
    refine kept ?_ (fun _ _ _ _ => rfl)
    rw [pruneStep] at pruned
    grind
  | merge =>
    rw [FailingPipeline.step] at stepped
    split at stepped
    · obtain ⟨pipeline, merged, rfl⟩ := Option.map_eq_some_iff.mp stepped
      refine kept ?_ (fun _ _ _ _ => rfl)
      rw [mergeStep] at merged
      grind
    · simp at stepped

/-- A step that keeps the run calm is one of `PartitionedPipeline`, or a load of the flag. -/
def Matched (state after : FailingPipeline n σ) : Prop :=
  Calm after ∧ (after.pipeline = state.pipeline ∨
    PartitionedPipeline.Steps state.pipeline after.pipeline)

theorem Calm.router_step (calm : Calm state) (stepped : state.routerStep = some after) :
    Matched state after := by
  have running : ¬ state.pipeline.cancelled = true := by simp [calm.running]
  obtain ⟨error, cancelled, handlers⟩ := routerStep_kept stepped
  refine ⟨⟨error.trans calm.correct, cancelled.trans calm.running, handlers ▸ calm.quiet⟩, ?_⟩
  rw [routerStep] at stepped
  split at stepped
  · next rest router =>
    split at stepped
    · right
      refine ⟨.router, ?_⟩
      rw [PartitionedPipeline.step, PartitionedPipeline.routerStep, router]
      dsimp only
      rw [if_neg running]
      cases observed : Source.next state.pipeline.source with
      | none =>
        rw [observed] at stepped
        obtain rfl := Option.some.inj stepped
        rfl
      | some pulled =>
        rw [observed] at stepped
        obtain rfl := Option.some.inj stepped
        rfl
    · obtain rfl := Option.some.inj stepped
      exact .inl rfl
  · obtain ⟨pipeline, moving, rfl⟩ := Option.map_eq_some_iff.mp stepped
    exact .inr ⟨.router, moving⟩

theorem Calm.stage_step (calm : Calm state) {index : Fin n}
    (idle : (state.pipeline.workers index).acts = [])
    (stepped : state.stageStep index = some after) : Disturbed after ∨ Matched state after := by
  have running : ¬ state.pipeline.cancelled = true := by simp [calm.running]
  -- The step replaces the worker as the step of `PartitionedPipeline` does.
  have replaced {worker : Worker} {next : FailingPipeline n σ}
      (pipeline : next.pipeline = state.pipeline.setWorker index worker)
      (handlers : next.handlers = state.handlers)
      (moving : state.pipeline.stageStep index = some (state.pipeline.setWorker index worker)) :
      Disturbed next ∨ Matched state next := by
    refine .inr ⟨⟨pipeline ▸ calm.correct, pipeline ▸ calm.running, handlers ▸ calm.quiet⟩,
      .inr ⟨.worker index, ?_⟩⟩
    rw [PartitionedPipeline.step, PartitionedPipeline.workerStep, idle, pipeline]
    exact moving
  have loaded (value : Bool) :
      Disturbed (state.setAdmitted (.worker index) value) ∨
        Matched state (state.setAdmitted (.worker index) value) :=
    .inr ⟨⟨calm.correct, calm.running, calm.quiet⟩, .inl rfl⟩
  rw [stageStep] at stepped
  split at stepped
  · next staged =>
    obtain rfl := Option.some.inj stepped
    exact replaced rfl rfl (by simp [PartitionedPipeline.stageStep, staged])
  · next later staged =>
    obtain rfl := Option.some.inj stepped
    exact replaced rfl rfl (by simp [PartitionedPipeline.stageStep, staged])
  · next item messages staged =>
    split at stepped
    · obtain rfl := Option.some.inj stepped
      exact .inl (throw_disturbed _ _ _)
    · next effects processor processed =>
      obtain rfl := Option.some.inj stepped
      exact replaced rfl rfl (by simp [PartitionedPipeline.stageStep, staged, processed])
  · next staged =>
    split at stepped
    · split at stepped
      · next batch queue queued =>
        obtain rfl := Option.some.inj stepped
        exact replaced rfl rfl
          (by simp [PartitionedPipeline.stageStep, staged, calm.running, queued])
      · next empty =>
        split at stepped
        · next closed =>
          obtain rfl := Option.some.inj stepped
          exact replaced rfl rfl
            (by simp [PartitionedPipeline.stageStep, staged, calm.running, empty, closed])
        · simp at stepped
    · obtain rfl := Option.some.inj stepped
      exact loaded true
  · next staged =>
    split at stepped
    · obtain rfl := Option.some.inj stepped
      exact replaced rfl rfl (by simp [PartitionedPipeline.stageStep, staged, calm.running])
    · obtain rfl := Option.some.inj stepped
      exact loaded true
  · simp at stepped

/-- A step of a calm run meets an exception or is matched. -/
theorem Calm.step (calm : Calm state) (stepped : Steps state after) :
    Disturbed after ∨ Matched state after := by
  obtain ⟨action, stepped⟩ := stepped
  cases action with
  | run thread =>
    rw [FailingPipeline.step] at stepped
    unfold threadStep at stepped
    rw [calm.quiet] at stepped
    cases thread with
    | router => exact .inr (calm.router_step stepped)
    | worker index =>
      dsimp only at stepped
      rw [workerStep] at stepped
      split at stepped
      · next act rest calling =>
        obtain ⟨pipeline, moving, rfl⟩ := Option.map_eq_some_iff.mp stepped
        obtain ⟨_, _, _, own⟩ := actStep_move calling moving
        refine .inr ⟨⟨own.error.trans calm.correct, own.cancelled.trans calm.running, calm.quiet⟩,
          .inr ⟨.worker index, ?_⟩⟩
        rw [PartitionedPipeline.step, PartitionedPipeline.workerStep, calling]
        exact moving
      · next idle => exact calm.stage_step idle stepped
  | throw thread failure =>
    rw [FailingPipeline.step] at stepped
    split at stepped
    · obtain rfl := Option.some.inj stepped
      exact .inl (throw_disturbed _ _ _)
    · simp at stepped
  | prune index partition offset =>
    obtain ⟨pipeline, pruned, rfl⟩ := Option.map_eq_some_iff.mp stepped
    refine .inr ⟨?_, .inr ⟨.prune index partition offset, pruned⟩⟩
    rw [pruneStep] at pruned
    split at pruned
    · split at pruned
      · obtain rfl := Option.some.inj pruned
        exact ⟨calm.correct, calm.running, calm.quiet⟩
      · simp at pruned
    · simp at pruned
  | merge =>
    rw [FailingPipeline.step] at stepped
    split at stepped
    · obtain ⟨pipeline, merged, rfl⟩ := Option.map_eq_some_iff.mp stepped
      refine .inr ⟨?_, .inr ⟨.merge, merged⟩⟩
      rw [mergeStep, calm.correct] at merged
      split at merged
      · obtain rfl := Option.some.inj merged
        exact ⟨rfl, calm.running, calm.quiet⟩
      · simp at merged
    · simp at stepped

/-- A run without an exception is a run of `PartitionedPipeline`. -/
theorem reaches_calm (config : PartitionedConfig) (source : σ) (directories : Fin n → Directory)
    (sink : SinkLog n) (reached : Reaches (start config source directories sink) state) :
    Disturbed state ∨ Calm state ∧ PartitionedPipeline.Reaches
      (PartitionedPipeline.start config source directories sink) state.pipeline := by
  induction reached with
  | refl => exact .inr ⟨⟨rfl, rfl, fun _ => rfl⟩, .refl⟩
  | tail _ stepped inductionHypothesis =>
    rcases inductionHypothesis with disturbed | ⟨calm, coarse⟩
    · exact .inl (disturbed.step stepped)
    · rcases calm.step stepped with disturbed | ⟨still, same | moved⟩
      · exact .inl disturbed
      · exact .inr ⟨still, same ▸ coarse⟩
      · exact .inr ⟨still, coarse.tail moved⟩

/-- When all threads of a run have returned without an error, every worker has delivered what its
whole share of the stream gives. -/
theorem delivered_of_correct (config : PartitionedConfig) (source : σ)
    (directories : Fin n → Directory) (sink : SinkLog n) {batches : List Batch}
    (delivers : Source.Delivers (PartitionedPipeline.start config source directories sink).source
      batches)
    (reached : Reaches (start config source directories sink) state) (joined : state.Joined)
    (correct : state.pipeline.error = none) (partition : Fin n) :
    ∃ effects last,
      ((PartitionedPipeline.start config source directories sink).workers
        partition).processor.processItems
        (routed partition batches.flatten) = .ok (effects, last) ∧
      deliveredBy partition state.pipeline.sink.emitted =
        deliveredBy partition sink.emitted ++ emissions (effects ++ last.finalFlush.1) := by
  obtain ⟨noHandler, idle, returned⟩ := joined
  rcases reaches_calm config source directories sink reached with disturbed | ⟨_, coarse⟩
  · rcases disturbed with remembered | ⟨thread, failure, rest, pending⟩
    · exact absurd correct remembered
    · cases thread with
      | router => simp [noHandler] at pending
      | worker index => simp [(returned index).1] at pending
  · obtain ⟨taken, ended, recent, flowing⟩ :=
      (start_flowing config source directories sink delivers).reaches_correct coarse correct
    obtain ⟨effects, last, processed, _, delivered⟩ :=
      flowing.returned_worker idle (returned partition).2
    refine ⟨effects, last, processed, ?_⟩
    rw [flowing.log, deliveredBy_append, delivered]

end Calm

omit [NeZero n] in
theorem mem_deliveredBy {log : List (Fin n × WindowResult)} {partition : Fin n}
    {result : WindowResult} :
    result ∈ deliveredBy partition log ↔ (partition, result) ∈ log := by
  simp [deliveredBy]

/-- Whatever exceptions are thrown and whatever the threads see of them, every worker hands to the
caller's sink the first of the results that it hands over in a run without an exception, and it
calls `FinalFlush` only after it has processed its whole share of the stream and the sentinel. -/
theorem no_partial_window (config : PartitionedConfig) (source : σ)
    (directories : Fin n → Directory) (sink : SinkLog n) (batches : List Batch)
    (delivers : Source.Delivers (PartitionedPipeline.start config source directories sink).source
      batches)
    (state : FailingPipeline n σ)
    (reached : Reaches (start config source directories sink) state) :
    (∀ free : FailingPipeline n σ, Reaches (start config source directories sink) free →
      free.Joined → free.pipeline.error = none →
        (∀ partition, deliveredBy partition state.pipeline.sink.emitted <+:
          deliveredBy partition free.pipeline.sink.emitted) ∧
        ∀ result ∈ state.pipeline.sink.results, result ∈ free.pipeline.sink.results) ∧
    ∀ index, state.Flushing index →
      state.handled index = (routed index batches.flatten).map .item ++ [.endOfStream] := by
  obtain ⟨taken, ended, recent, lost, safe⟩ :=
    (start_safe config source directories sink delivers).reaches reached
  refine ⟨?_, ?_⟩
  · intro free reachedFree joined correct
    have begins (partition : Fin n) : deliveredBy partition state.pipeline.sink.emitted <+:
        deliveredBy partition free.pipeline.sink.emitted := by
      obtain ⟨effects, last, processed, delivered⟩ := delivered_of_correct config source
        directories sink delivers reachedFree joined correct partition
      have within := (safe.course partition).within (safe.share_prefix partition)
      rw [safe.log, delivered, deliveredBy_append, List.prefix_append_right_inj]
      exact (List.prefix_append _ _).trans (within.prefix_whole processed)
    refine ⟨begins, ?_⟩
    intro result member
    obtain ⟨⟨partition, _⟩, inside, rfl⟩ := List.mem_map.mp member
    have found := (begins partition).subset (mem_deliveredBy.mpr inside)
    exact List.mem_map.mpr ⟨_, mem_deliveredBy.mp found, rfl⟩
  · rintro index ⟨_, _, staged, admitted⟩
    have course := safe.course index
    rw [admitted] at course
    exact course.handled_of_flushing staged

/-- A schedule. An action that is not enabled is passed over. -/
def follow (state : FailingPipeline n σ) (schedule : List (Action n)) : FailingPipeline n σ :=
  schedule.foldl (fun state action => (state.step action).getD state) state

theorem reaches_follow (state : FailingPipeline n σ) (schedule : List (Action n)) :
    Reaches state (state.follow schedule) := by
  induction schedule generalizing state with
  | nil => exact .refl
  | cons action rest inductionHypothesis =>
    refine Relation.ReflTransGen.trans ?_ (inductionHypothesis _)
    dsimp only
    cases stepped : state.step action with
    | none => exact .refl
    | some after => exact .single ⟨action, stepped⟩

/-- A turn of the router and of each worker, with the number of their steps. -/
def turn (router : Nat) (workers : Fin n → Nat) : List (Action n) :=
  List.replicate router (.run .router) ++
    (List.finRange n).flatMap (fun index => List.replicate (workers index) (.run (.worker index)))

/-- A worker throws after it has handed over the first of two results. -/
theorem thrown_run_hands_over_first :
    let initial : FailingPipeline 2 ScriptedSource := start narrow halved (fun _ => ∅) {}
    let state := initial.follow
      (turn 4 ![10, 5] ++ .throw (.worker 0) .unfinished :: turn 0 ![4, 6] ++ turn 8 ![0, 0])
    let free := initial.follow (turn 4 ![10, 5] ++ turn 3 ![10, 5] ++ turn 6 ![12, 8])
    (state.Joined ∧ state.pipeline.error = some .unfinished ∧
      state.pipeline.sink.results.length = 1) ∧
    (free.Joined ∧ free.pipeline.error = none ∧ free.pipeline.sink.results.length = 2) ∧
    ∀ partition, deliveredBy partition state.pipeline.sink.emitted <+:
      deliveredBy partition free.pipeline.sink.emitted := by
  intro initial state free
  have finished : free.Joined ∧ free.pipeline.error = none ∧
      free.pipeline.sink.results.length = 2 := by decide +kernel
  refine ⟨by decide +kernel, finished, ?_⟩
  exact ((no_partial_window narrow halved (fun _ => ∅) {} halved.script
    (ScriptedSource.delivers halved) state (reaches_follow _ _)).1 free (reaches_follow _ _)
    finished.1 finished.2.1).1

end FailingPipeline

end Stormglass
