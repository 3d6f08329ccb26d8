import Stormglass.MergeSource
import Stormglass.Pipeline

/-!
# A merge of one channel

A merge of a single channel without idle spans passes the channel's items on. It appends
every record and every barrier, and a watermark when it exceeds all watermarks before it.
The watermarks that are left out are those that an engine ignores, so an engine does the
same over the merge as over the channel.
-/

namespace Stormglass

/-- A stream without the watermarks that do not exceed the given one and all earlier ones. -/
def advancing : Timestamp → Batch → Batch
  | _, [] => []
  | highest, .record data :: rest => .record data :: advancing highest rest
  | highest, .control control :: rest =>
    match control.type with
    | .watermark =>
      if highest < control.watermark then .control control :: advancing control.watermark rest
      else advancing highest rest
    | .checkpointBarrier => .control control :: advancing highest rest

/-- Every control is stamped with the number of records before it, and a barrier carries
`Timestamp::min()`. -/
def Stamped : Nat → Batch → Prop
  | _, [] => True
  | count, .record _ :: rest => Stamped (count + 1) rest
  | count, .control control :: rest =>
    control.checkpointOffset = count ∧
      (control.type = .checkpointBarrier → control.watermark = ⊥) ∧ Stamped count rest

namespace ItemMerge

/-- A machine with one channel that is neither idle nor exhausted, has no idle span left and
is level with the closed epochs, after a number of records and a highest watermark. -/
structure Single (machine : ItemMerge 1) (count : Nat) (highest : Timestamp) : Prop where
  exhausted : (machine.skeleton.states 0).exhausted = false
  idle : (machine.skeleton.states 0).idle = false
  idleSpans : (machine.skeleton.states 0).idleSpans = []
  gap : (machine.skeleton.states 0).gapRemaining = 0
  barriersSeen : (machine.skeleton.states 0).barriersSeen = machine.skeleton.epochClosed
  active : machine.skeleton.combiner.active 0 = true
  perSource : machine.skeleton.combiner.perSource 0 = highest
  emitted : machine.skeleton.combiner.emitted = highest
  offset : machine.skeleton.mergedOffset = count

variable {machine : ItemMerge 1} {count : Nat} {highest : Timestamp} {rest : Batch}

theorem Single.pickChannel (single : Single machine count highest) :
    machine.skeleton.pickChannel = some 0 := by
  have free : ¬ machine.skeleton.IsChannelBlocked 0 := by
    rw [SourceMerge.IsChannelBlocked, single.barriersSeen]
    exact lt_irrefl _
  have only (attempt : Fin 1) : machine.skeleton.turn attempt = 0 := Subsingleton.elim _ _
  have turns : (List.finRange 1).map machine.skeleton.turn = [0] := by
    rw [show List.finRange 1 = [0] by decide, List.map_singleton, only]
  rw [SourceMerge.pickChannel, turns]
  apply List.find?_cons_of_pos
  simp [single.exhausted, free]

theorem Single.openGap (single : Single machine count highest) :
    (machine.skeleton.states 0).openGap = machine.skeleton.states 0 := by
  simp [SourceState.openGap, single.idleSpans]

/-- The merge that the item of a turn is delivered to. -/
def awake (machine : ItemMerge 1) : SourceMerge Unit 1 :=
  { machine.skeleton.setState 0 { machine.skeleton.states 0 with consecutiveEmpty := 0 } with
    rr := 0 }

theorem Single.serve_cons (single : Single machine count highest) {item : BatchItem}
    (ahead : machine.ahead 0 = item :: rest) :
    machine.serve 0 = (machine.awake.deliver 0 item, Function.update machine.ahead 0 rest) := by
  have noGap : ¬ 0 < (machine.skeleton.states 0).gapRemaining := by
    rw [single.gap]
    exact lt_irrefl 0
  have same : machine.skeleton.setState 0 (machine.skeleton.states 0) = machine.skeleton := by
    simp [SourceMerge.setState]
  have busy : SourceMerge.resume { machine.skeleton with rr := 0 } 0 =
      { machine.skeleton with rr := 0 } := by
    apply if_neg
    rw [single.idle]
    decide
  unfold serve
  rw [single.openGap]
  dsimp only
  rw [if_neg noGap, ahead, same]
  exact congrArg (fun merge : SourceMerge Unit 1 =>
    ((merge.setState 0 { merge.states 0 with consecutiveEmpty := 0 }).deliver 0 item,
      Function.update machine.ahead 0 rest)) busy

/-- One step of a single channel: what it appends, and the channel after it. -/
structure Single.Steps (machine : ItemMerge 1) (items : Batch) (count : Nat) (highest : Timestamp)
    (rest : Batch) (next : ItemMerge 1) : Prop where
  step : machine.step = some (items, next)
  single : Single next count highest
  ahead : next.ahead 0 = rest

theorem Single.step_cons (single : Single machine count highest) {item : BatchItem}
    (ahead : machine.ahead 0 = item :: rest) :
    machine.step = some ((machine.awake.deliver 0 item).emitted,
      { skeleton := (machine.awake.deliver 0 item).merge
        ahead := Function.update machine.ahead 0 rest }) := by
  rw [step, single.pickChannel, Option.map_some, single.serve_cons ahead]

theorem Single.step_record (single : Single machine count highest) {data : Record}
    (ahead : machine.ahead 0 = .record data :: rest) :
    ∃ next, Single.Steps machine [.record data] (count + 1) highest rest next := by
  refine ⟨_, single.step_cons ahead, ?_, by simp⟩
  constructor <;>
    simp [awake, SourceMerge.deliver, SourceMerge.setState, single.exhausted, single.idle,
      single.idleSpans, single.gap, single.barriersSeen, single.active, single.perSource,
      single.emitted, single.offset]

/-- The minimum over one active channel is its watermark. -/
theorem frontier_single {combiner : MinWatermarkCombiner 1} (active : combiner.active 0 = true) :
    combiner.frontier = combiner.perSource 0 := by
  have someActive : ∃ channel, combiner.active channel = true := ⟨0, active⟩
  rw [MinWatermarkCombiner.frontier, MinWatermarkCombiner.minimumOver, if_pos someActive]
  simp [Finset.filter_singleton, active]

section

variable (single : Single machine count highest)

include single

theorem Single.step_watermark {time : Timestamp} {offset : Nat}
    (ahead : machine.ahead 0 = watermarkItem time offset :: rest) :
    ∃ next, Single.Steps machine (if highest < time then [watermarkItem time count] else [])
      count (max highest time) rest next := by
  let observed : MinWatermarkCombiner 1 := { machine.skeleton.combiner with
    active := Function.update machine.skeleton.combiner.active 0 true
    perSource := MinWatermarkCombiner.raised machine.skeleton.combiner.perSource 0 time }
  have own : observed.perSource 0 = max highest time := by
    simp [observed, MinWatermarkCombiner.raised, single.perSource]
  have frontier : observed.frontier = max highest time :=
    (frontier_single (by simp [observed])).trans own
  have report : machine.skeleton.combiner.observe 0 time =
      (if highest < time then some time else none,
        { observed with emitted := max highest time }) := by
    have settled : observed.emitted = highest := single.emitted
    rw [MinWatermarkCombiner.observe_eq]
    change observed.recompute = _
    rw [MinWatermarkCombiner.recompute_eq, frontier, settled]
    by_cases advances : highest < time
    · simp [advances, max_eq_right advances.le]
    · simp [advances, max_eq_left (not_lt.mp advances)]
  let announced : MinWatermarkCombiner 1 := { observed with emitted := max highest time }
  let next : ItemMerge 1 :=
    { skeleton := { machine.awake with combiner := announced }
      ahead := Function.update machine.ahead 0 rest }
  have items : machine.awake.announce (if highest < time then some time else none) =
      if highest < time then [watermarkItem time count] else [] := by
    have counted : machine.awake.mergedOffset = count := single.offset
    split
    · rw [SourceMerge.announce, counted]
    · rfl
  refine ⟨next, ?_, ?_, by simp [next]⟩
  · rw [single.step_cons ahead, ← items]
    have combined : machine.awake.combiner.observe 0 time = _ := report
    simp only [SourceMerge.deliver, watermarkItem, combined]
    rfl
  · constructor <;>
      simp [next, awake, SourceMerge.setState, single.exhausted, single.idle, single.idleSpans,
        single.gap, single.barriersSeen, single.offset, announced, observed]
    exact own

/-- A single active channel closes the epoch of its barrier. -/
theorem Single.step_barrier {stamp : Timestamp} {offset : Nat}
    (ahead : machine.ahead 0 = .control ⟨.checkpointBarrier, stamp, offset⟩ :: rest) :
    ∃ next, Single.Steps machine [barrierItem count] count highest rest next := by
  let counted : SourceMerge Unit 1 := machine.awake.setState 0
    { machine.awake.states 0 with barriersSeen := (machine.awake.states 0).barriersSeen + 1 }
  have state : counted.states 0 = { machine.skeleton.states 0 with
      consecutiveEmpty := 0, barriersSeen := (machine.skeleton.states 0).barriersSeen + 1 } := by
    simp [counted, awake, SourceMerge.setState]
  have active : counted.Active 0 := by
    rw [SourceMerge.Active, state]
    exact ⟨single.idle, single.exhausted⟩
  have closed : counted.maybeCloseEpoch = ([barrierItem count],
      { counted with epochClosed := counted.epochClosed + 1 }) := by
    have seen : (counted.states 0).barriersSeen = counted.epochClosed + 1 := by
      rw [state]
      exact congrArg (· + 1) single.barriersSeen
    have offset : counted.mergedOffset = count := single.offset
    rcases SourceMerge.maybeCloseEpoch_cases counted with ⟨_, channel, _, behind⟩ | ⟨_, none⟩ |
      ⟨closes, _⟩
    · rw [Subsingleton.elim channel 0, seen] at behind
      omega
    · exact absurd ⟨0, active⟩ none
    · rw [closes, offset]
  let next : ItemMerge 1 :=
    { skeleton := { counted with epochClosed := counted.epochClosed + 1 }
      ahead := Function.update machine.ahead 0 rest }
  refine ⟨next, ?_, ?_, by simp [next]⟩
  · rw [single.step_cons ahead]
    have delivered : machine.awake.deliver 0 (.control ⟨.checkpointBarrier, stamp, offset⟩) =
        { result := .produced
          pulled := some (0, .control ⟨.checkpointBarrier, stamp, offset⟩)
          emitted := counted.maybeCloseEpoch.1, data := 0
          merge := counted.maybeCloseEpoch.2 } := rfl
    rw [delivered, closed]
  · constructor <;>
      simp [next, counted, awake, SourceMerge.setState, single.exhausted, single.idle,
        single.idleSpans, single.gap, single.barriersSeen, single.active, single.perSource,
        single.emitted, single.offset]

/-- At the end of its only channel the machine appends nothing and stops. -/
theorem Single.stream_nil (ended : machine.ahead 0 = []) :
    machine.stream = [] := by
  let closed : SourceMerge Unit 1 := machine.skeleton.setState 0
    { machine.skeleton.states 0 with exhausted := true }
  let idled : SourceMerge Unit 1 :=
    { closed with combiner := (machine.skeleton.combiner.markIdle 0).2 }
  have exhausted (channel : Fin 1) : (idled.states channel).exhausted = true := by
    rw [Subsingleton.elim channel 0]
    simp [idled, closed, SourceMerge.setState]
  have silent : (machine.skeleton.combiner.markIdle 0).1 = none := by
    have none : ¬ ∃ channel,
        Function.update machine.skeleton.combiner.active 0 false channel = true := by
      rintro ⟨channel, active⟩
      rw [Subsingleton.elim channel 0, Function.update_self] at active
      cases active
    rw [MinWatermarkCombiner.markIdle, MinWatermarkCombiner.recompute, if_neg none]
  have inactive : ¬ ∃ channel, idled.Active channel := by
    rintro ⟨channel, _, live⟩
    rw [exhausted channel] at live
    cases live
  have still : idled.maybeCloseEpoch = ([], idled) := by
    rcases SourceMerge.maybeCloseEpoch_cases idled with ⟨_, channel, active, _⟩ | ⟨same, _⟩ |
      ⟨_, some, _⟩
    · exact absurd ⟨channel, active⟩ inactive
    · exact same
    · exact absurd some inactive
  have noGap : ¬ 0 < (machine.skeleton.states 0).gapRemaining := by
    rw [single.gap]
    exact lt_irrefl 0
  have stepped : machine.step = some ([], { skeleton := idled, ahead := machine.ahead }) := by
    have excluded : closed.excludeChannel 0 =
        (closed.announce (machine.skeleton.combiner.markIdle 0).1 ++ idled.maybeCloseEpoch.1,
          idled.maybeCloseEpoch.2) := rfl
    rw [silent, still] at excluded
    rw [step, single.pickChannel, Option.map_some, serve, single.openGap]
    dsimp only
    rw [if_neg noGap, ended]
    dsimp only
    rw [excluded]
    rfl
  have stopped : step { skeleton := idled, ahead := machine.ahead } = none := by
    rw [step, SourceMerge.pickChannel_of_allExhausted exhausted]
    rfl
  rw [stream_some stepped, stream_none stopped, List.append_nil]

/-- The stream of a single channel is its trajectory without the watermarks that do not
advance. -/
theorem Single.stream (stamped : Stamped count (machine.ahead 0)) :
    machine.stream = advancing highest (machine.ahead 0) := by
  generalize trajectory : machine.ahead 0 = items at stamped
  induction items generalizing machine count highest with
  | nil => rw [single.stream_nil trajectory, advancing]
  | cons item rest inductionHypothesis =>
    match item, stamped with
    | .record data, stamped =>
      obtain ⟨next, steps⟩ := single.step_record trajectory
      rw [stream_some steps.step, inductionHypothesis steps.single steps.ahead stamped]
      rfl
    | .control ⟨.watermark, time, offset⟩, ⟨same, _, stamped⟩ =>
      obtain ⟨next, steps⟩ := single.step_watermark trajectory
      rw [stream_some steps.step, inductionHypothesis steps.single steps.ahead stamped]
      change offset = count at same
      subst same
      by_cases advances : highest < time
      · simp [advancing, advances, max_eq_right advances.le, watermarkItem]
      · simp [advancing, advances, max_eq_left (not_lt.mp advances)]
    | .control ⟨.checkpointBarrier, stamp, offset⟩, ⟨same, least, stamped⟩ =>
      obtain ⟨next, steps⟩ := single.step_barrier trajectory
      rw [stream_some steps.step, inductionHypothesis steps.single steps.ahead stamped]
      have lowest : stamp = ⊥ := least rfl
      change offset = count at same
      subst same lowest
      rfl

end

end ItemMerge

namespace KeyedProcessor

/-- The watermarks that do not advance are those that the processor ignores. -/
theorem processItems_advancing (processor : KeyedProcessor) (items : Batch) :
    processor.processItems (advancing processor.watermark items) =
      processor.processItems items := by
  induction items generalizing processor with
  | nil => rfl
  | cons item rest inductionHypothesis =>
    match item with
    | .record data =>
      rw [advancing, processItems, processItems]
      cases applied : processor.processRecord data with
      | error thrown => simp [processItem, applied, Except.map]
      | ok after =>
        have same := inductionHypothesis after
        rw [processRecord_watermark applied] at same
        simp [processItem, applied, Except.map, same]
    | .control ⟨.watermark, time, offset⟩ =>
      by_cases advances : processor.watermark < time
      · have same := inductionHypothesis (processor.advanceTo time).2
        rw [advanceTo_watermark] at same
        simp [advancing, advances, processItems, processItem, processControl, same]
      · have same := inductionHypothesis processor
        simp only [advancing, if_neg advances, same, processItems, processItem, processControl]
        cases processor.processItems rest <;> simp
    | .control ⟨.checkpointBarrier, stamp, offset⟩ =>
      have kept (watermark : Timestamp)
          (captured : (processor.processControl ⟨.checkpointBarrier, stamp, offset⟩).2.watermark =
            watermark) :
          (processor.processControl ⟨.checkpointBarrier, stamp, offset⟩).2.processItems
              (advancing watermark rest) =
            (processor.processControl ⟨.checkpointBarrier, stamp, offset⟩).2.processItems rest := by
        rw [← captured]
        exact inductionHypothesis _
      have captured : (processor.processControl ⟨.checkpointBarrier, stamp, offset⟩).2.watermark =
          processor.watermark := by
        unfold processControl
        dsimp only
        split <;> rfl
      simp only [advancing, processItems, processItem, kept _ captured]

end KeyedProcessor

namespace SourceMerge

/-- The stream of a merge of one channel without idle spans is the channel's trajectory
without the watermarks that do not strictly exceed `Timestamp::min()` and all earlier ones.
An engine with any assigner and any lateness leaves the same behind over both. -/
theorem one_channel_passes_through {σ : Type} [Source σ] {source : σ} {trajectory : Batch}
    (supplies : Supplies source trajectory) (stamped : Stamped 0 trajectory)
    {config : SourceMergeConfig} {created : Nat} {start : SourceMerge σ 1}
    (constructed : construct (fun _ => (source, [])) config created = .ok start) :
    Drains start (advancing ⊥ trajectory) ∧
      ∀ (assigner : WindowAssigner) (allowedLateness : Nat) (checkpointing : Bool),
        ∃ bound, ∀ fuel more, bound ≤ fuel → bound ≤ more →
          Pipeline.outcome (Pipeline.run fuel start assigner allowedLateness checkpointing) =
            Pipeline.outcome (Pipeline.run more source assigner allowedLateness checkpointing) := by
  have positive := construct_positive constructed
  have tended := construct_tended constructed fun _ => supplies
  let machine : ItemMerge 1 := freshMachine (fun _ => (source, [])) config fun _ => trajectory
  have single : machine.Single 0 ⊥ := by
    constructor <;> rfl
  have stream : machine.stream = advancing ⊥ trajectory := single.stream stamped
  constructor
  · rw [← stream]
    exact tended.drains positive
  · intro assigner allowedLateness checkpointing
    obtain ⟨batches, delivers, -, flat⟩ :=
      tended.refines.supplies (by rw [tended.config]; exact positive)
    obtain ⟨bare, deliversBare, -, flatBare⟩ := supplies
    refine ⟨max batches.length bare.length + 1, ?_⟩
    intro fuel more enough enoughBare
    let processor := KeyedProcessor.create assigner allowedLateness checkpointing
    have merged := Pipeline.runLoop_outcome delivers processor (by omega : batches.length < fuel) []
    have alone := Pipeline.runLoop_outcome deliversBare processor (by omega : bare.length < more) []
    have ignored : Pipeline.processed processor (advancing ⊥ trajectory) [] =
        Pipeline.processed processor trajectory [] := by
      unfold Pipeline.processed
      rw [← processor.processItems_advancing trajectory]
      rfl
    calc
      Pipeline.outcome (Pipeline.run fuel start assigner allowedLateness checkpointing)
        = Pipeline.processed processor batches.flatten [] := merged
      _ = Pipeline.processed processor (advancing ⊥ trajectory) [] := by
        rw [flat]
        exact congrArg (Pipeline.processed processor · []) stream
      _ = Pipeline.processed processor trajectory [] := ignored
      _ = Pipeline.outcome (Pipeline.run more source assigner allowedLateness checkpointing) := by
        rw [← flatBare]
        exact alone.symm

/-- A script with a watermark that falls back and a barrier after it. -/
def regressing : ScriptedSource where
  script := [[.record { key := [1], value := 1, eventTime := .ofMs 4, processingTime := ⊥ },
      .control { type := .watermark, watermark := .ofMs 4, checkpointOffset := 1 }],
    [.record { key := [2], value := 1, eventTime := .ofMs 9, processingTime := ⊥ },
      .control { type := .watermark, watermark := .ofMs 3, checkpointOffset := 2 },
      .control { type := .checkpointBarrier, watermark := ⊥, checkpointOffset := 2 }],
    [.control { type := .watermark, watermark := .ofMs 9, checkpointOffset := 2 }]]
  position := 0

theorem regressing_passes_through :
    ∃ start, construct (fun _ : Fin 1 => (regressing, [])) { mergedBatchSize := 2 } 0 = .ok start ∧
      Drains start (advancing ⊥ regressing.script.flatten) := by
  have supplies : Supplies regressing regressing.script.flatten :=
    (scripted_replays rfl (by decide)).first
  have stamped : Stamped 0 regressing.script.flatten := by
    simp [regressing, Stamped]
  obtain ⟨start, constructed⟩ : ∃ start, construct (fun _ : Fin 1 => (regressing, []))
      { mergedBatchSize := 2 } 0 = .ok start := ⟨_, rfl⟩
  exact ⟨start, constructed, (one_channel_passes_through supplies stamped constructed).1⟩

end SourceMerge

end Stormglass
