import Stormglass.MergeProgress
import Stormglass.MergeSource
import Stormglass.MergeWatermarks
import Stormglass.PunctualRuns

/-!
# Merging keeps watermarks true

A watermark of a channel is true if no later record of the channel is older. A merge
without idleness keeps this: its watermark is not above the one of any channel that can
still deliver, because a channel leaves the minimum only at its end of input. So no record of
the merged stream is older than a merged watermark before it, and an engine over the merge
meets no late record.

With idleness a channel leaves the minimum while it still has records, and none of this holds.
-/

namespace Stormglass

namespace MinWatermarkCombiner

variable {k : Nat} {combiner : MinWatermarkCombiner k}

/-- The merged watermark has not passed the watermark of an active channel. -/
def Below (combiner : MinWatermarkCombiner k) : Prop :=
  ∀ channel, combiner.active channel = true → combiner.emitted ≤ combiner.perSource channel

theorem initial_below : (initial k).Below := fun _ _ => bot_le

theorem Below.recompute (below : combiner.Below) : combiner.recompute.2.Below := by
  rw [recompute_eq]
  intro channel active
  exact max_le (below channel active) (minimumOver_le _ _ channel active)

/-- A recomputation never lowers the merged watermark, and reports nothing above it. -/
theorem recompute_reports (combiner : MinWatermarkCombiner k) :
    combiner.emitted ≤ combiner.recompute.2.emitted ∧
      ∀ watermark ∈ combiner.recompute.1.toList, watermark ≤ combiner.recompute.2.emitted := by
  rw [recompute_eq]
  refine ⟨le_max_left _ _, ?_⟩
  intro watermark reported
  split at reported
  · obtain rfl := List.mem_singleton.mp reported
    exact le_max_right _ _
  · exact absurd reported List.not_mem_nil

/-- A channel that leaves does not put the others behind. -/
theorem Below.markIdle (below : combiner.Below) (channel : Fin k) :
    (combiner.markIdle channel).2.Below := by
  apply Below.recompute
  intro other active
  by_cases own : other = channel
  · simp [own] at active
  · simp only [Function.update_of_ne own] at active
    exact below other active

/-- An active channel that reports a watermark only moves ahead. -/
theorem Below.observe (below : combiner.Below) {channel : Fin k}
    (active : combiner.active channel = true) (watermark : Timestamp) :
    (combiner.observe channel watermark).2.Below := by
  rw [observe_eq]
  apply Below.recompute
  intro other included
  by_cases own : other = channel
  · subst own
    simp only [raised, Function.update_self]
    exact (below other active).trans (le_max_left _ _)
  · simp only [raised, Function.update_of_ne own] at included ⊢
    exact below other included

end MinWatermarkCombiner

/-- A bound of every watermark is one of the greatest. -/
theorem highestWatermark_le {items : Batch} {bound : Timestamp}
    (bounded : ∀ watermark ∈ watermarks items, watermark ≤ bound) :
    highestWatermark items ≤ bound := by
  rw [highestWatermark]
  exact List.foldlRecOn (motive := (· ≤ bound)) (watermarks items) max bot_le
    (fun _ below watermark member => max_le below (bounded watermark member))

namespace SourceMerge

variable {σ : Type} {k : Nat} [Source σ]

/-- Neither policy of idleness is on. -/
def NeverIdles (config : SourceMergeConfig) : Prop :=
  config.idleTimeout = 0 ∧ config.idleTimeoutWall = 0

section Turns

variable {merge : SourceMerge σ k} {channel : Fin k} {step : StepOutcome σ k} {now : Nat}

/-- Without idleness a turn marks no channel idle. -/
theorem serve_awake (never : NeverIdles merge.config)
    (awake : ∀ other, (merge.states other).idle = false)
    (served : merge.serve now channel = .ok step) (other : Fin k) :
    (step.merge.states other).idle = false := by
  obtain ⟨remaining, span, opened, -⟩ := (merge.states channel).openGap_eq
  have kept {state : SourceState σ} (idle : state.idle = false) :
      (Function.update merge.states channel state other).idle = false := by
    by_cases own : other = channel
    · subst own
      rwa [Function.update_self]
    · rw [Function.update_of_ne own]
      exact awake other
  unfold serve at served
  dsimp only at served
  split at served
  next gap =>
    obtain rfl := Except.ok.inj served
    unfold tick
    dsimp only
    rw [if_neg (fun policy => absurd policy.1 (by simp [setState, never.1]))]
    apply kept
    rw [opened]
    exact awake channel
  next noGap =>
    split at served
    · cases served
    next state pulled =>
      have polled := (SourceState.served_noData noGap pulled).1
      rw [if_neg (fun policy => absurd policy.1 (by simp [setState, never.2]))] at served
      obtain rfl := Except.ok.inj served
      exact kept (polled.idle.trans (awake channel))
    next state pulled =>
      obtain ⟨last, -, rfl⟩ := SourceState.served_ended noGap pulled
      obtain rfl := Except.ok.inj served
      simp only [excludeChannel, maybeCloseEpoch_states, setState]
      exact kept (last.idle.trans (awake channel))
    next item state pulled =>
      obtain rfl := Except.ok.inj served
      rw [resume_eq]
      simp only [setState, Function.update_self, Function.update_idem]
      unfold deliver
      split
      · simp only [setState, Function.update_self, Function.update_idem]
        exact kept rfl
      · exact kept rfl
      · simp only [setState, Function.update_self, Function.update_idem, maybeCloseEpoch_states]
        exact kept rfl

/-- What a turn does to the merged watermark: it stays below the active channels, it does not
fall, and the merged stream carries nothing above it. -/
structure Keeps (merge : SourceMerge σ k) (step : StepOutcome σ k) : Prop where
  below : step.merge.combiner.Below
  risen : merge.combiner.emitted ≤ step.merge.combiner.emitted
  announced : ∀ watermark ∈ watermarks step.emitted, watermark ≤ step.merge.combiner.emitted

theorem turn_keeps (aligned : Aligned merge) (live : (merge.states channel).exhausted = false)
    (awake : ∀ other, (merge.states other).idle = false)
    (still : ∀ other, (step.merge.states other).idle = false) (below : merge.combiner.Below)
    (taken : Turn merge channel step) : Keeps merge step := by
  have joined : merge.rejoined channel = merge.combiner := by
    rw [rejoined, awake channel, if_neg Bool.false_ne_true]
  have active : merge.combiner.active channel = true :=
    (aligned.activity channel).mpr ⟨awake channel, live⟩
  have left := MinWatermarkCombiner.recompute_reports { merge.combiner with
    active := Function.update merge.combiner.active channel false }
  cases taken with
  | quiet served spent => exact ⟨below, le_rfl, by simp [watermarks]⟩
  | idled served spent wasActive after =>
    subst after
    simpa using still channel
  | ended served ended after =>
    subst after
    refine ⟨?_, ?_, ?_⟩
    · rw [maybeCloseEpoch_combiner]
      exact below.markIdle channel
    · rw [maybeCloseEpoch_combiner]
      exact left.1
    · rw [watermarks_append, watermarks_announce, watermarks_maybeCloseEpoch, List.append_nil,
        maybeCloseEpoch_combiner]
      exact left.2
  | record served =>
    refine ⟨?_, ?_, by simp [watermarks, BatchItem.watermark?]⟩
    · rw [joined]
      exact below
    · rw [joined]
  | @watermark frontier offset state served =>
    have reports := MinWatermarkCombiner.recompute_reports { merge.combiner with
      active := Function.update merge.combiner.active channel true
      perSource := MinWatermarkCombiner.raised merge.combiner.perSource channel frontier }
    refine ⟨?_, ?_, ?_⟩
    · rw [joined]
      exact below.observe active frontier
    · dsimp only
      rw [joined, MinWatermarkCombiner.observe_eq]
      exact reports.1
    · dsimp only
      rw [watermarks_announce, joined, MinWatermarkCombiner.observe_eq]
      exact reports.2
  | barrier served after =>
    subst after
    refine ⟨?_, ?_, ?_⟩
    · rw [maybeCloseEpoch_combiner, joined]
      exact below
    · rw [maybeCloseEpoch_combiner, joined]
    · rw [watermarks_maybeCloseEpoch]
      simp

/-- Only the delivery of a record appends a record. -/
theorem turn_record (taken : Turn merge channel step) :
    records step.emitted = [] ∨
      ∃ data, step.emitted = [.record data] ∧ step.pulled = some (channel, .record data) := by
  cases taken with
  | quiet served spent => exact Or.inl rfl
  | idled served spent wasActive after => exact Or.inl (by simp)
  | ended served ended after => exact Or.inl (by simp)
  | record served => exact Or.inr ⟨_, rfl, rfl⟩
  | watermark served => exact Or.inl (by simp)
  | barrier served after => exact Or.inl (by simp)

end Turns

/-- A point of a run of a merge without idleness over true channels. -/
structure Truthful (sources : Fin k → σ) (trace : Trace σ k) : Prop where
  reached : Reached sources trace
  never : NeverIdles trace.merge.config
  awake : ∀ channel, (trace.merge.states channel).idle = false
  below : trace.merge.combiner.Below
  announced : ∀ watermark ∈ watermarks trace.out, watermark ≤ trace.merge.combiner.emitted
  onTime : OnTime trace.out

namespace Truthful

variable {sources : Fin k → σ} {trace : Trace σ k} {step : StepOutcome σ k} {now : Nat}

section

variable (truthful : Truthful sources trace)

include truthful

/-- A step of the merge keeps its watermarks true. The merged watermark is not above the one of
the channel whose record is delivered, and the record is not older than that one. -/
theorem extend (honest : ∀ channel calls, OnTime (Source.itemsWithin calls (sources channel)))
    (stepped : trace.merge.produceOneMergedStep now = .ok step) :
    Truthful sources (trace.extend step) := by
  have reached := truthful.reached.extend stepped
  rcases step_cases stepped with ⟨channel, picked, served, taken⟩ | ⟨_, rfl⟩
  · have live := (pickChannel_free picked).1
    have still := serve_awake truthful.never truthful.awake served
    have keeps := turn_keeps truthful.reached.aligned live truthful.awake still truthful.below taken
    refine ⟨reached, ?_, still, keeps.below, ?_, ?_⟩
    · change NeverIdles step.merge.config
      rw [turn_config taken]
      exact truthful.never
    · intro watermark member
      have parts : watermark ∈ watermarks (trace.out ++ step.emitted) := member
      rw [watermarks_append] at parts
      rcases List.mem_append.mp parts with before | appended
      · exact (truthful.announced watermark before).trans keeps.risen
      · exact keeps.announced watermark appended
    · change OnTime (trace.out ++ step.emitted)
      rcases turn_record taken with none | ⟨data, emitted, pulled⟩
      · exact truthful.onTime.controls none
      · rw [emitted]
        apply truthful.onTime.record
        obtain ⟨calls, leads⟩ := reached.drawn.leads channel
        have delivered : pulledFrom (trace.extend step).pulled channel =
            pulledFrom trace.pulled channel ++ [.record data] := by
          simp [Trace.extend, pulled]
        have active : trace.merge.combiner.active channel = true :=
          (truthful.reached.aligned.activity channel).mpr ⟨truthful.awake channel, live⟩
        calc highestWatermark trace.out
          _ ≤ trace.merge.combiner.emitted := highestWatermark_le truthful.announced
          _ ≤ trace.merge.combiner.perSource channel := truthful.below channel active
          _ = highestWatermark (pulledFrom trace.pulled channel) :=
            truthful.reached.accounted.perSource channel
          _ ≤ data.eventTime := by
            apply honest channel (calls + 0)
            rw [leads, delivered]
            exact List.prefix_append _ _
  · refine ⟨reached, truthful.never, truthful.awake, truthful.below, ?_, ?_⟩
    · simpa [Trace.extend] using truthful.announced
    · simpa [Trace.extend] using truthful.onTime

/-- The loop of `Next()` is a sequence of steps, and its batch is what they append. -/
theorem nextLoop (honest : ∀ channel calls, OnTime (Source.itemsWithin calls (sources channel)))
    {fuel : Nat} {clock : Nat → Nat} {out all : Batch} {dataInBatch quietSteps : Nat}
    {pulled drawn : List (Fin k × BatchItem)} {after : SourceMerge σ k}
    (ran : trace.merge.nextLoop fuel clock out dataInBatch quietSteps pulled =
      .ok (all, drawn, after)) :
    ∃ later emitted, Truthful sources later ∧ later.merge = after ∧ all = out ++ emitted ∧
      later.out = trace.out ++ emitted := by
  induction fuel generalizing trace clock out dataInBatch quietSteps pulled with
  | zero =>
    unfold SourceMerge.nextLoop at ran
    split at ran
    · cases ran
    · obtain ⟨rfl, -, rfl⟩ := by simpa using ran
      exact ⟨trace, [], truthful, rfl, by simp, by simp⟩
  | succ fuel inductionHypothesis =>
    unfold SourceMerge.nextLoop at ran
    split at ran
    · cases stepped : trace.merge.produceOneMergedStep (clock 0) with
      | error failure => simp [stepped] at ran
      | ok step =>
        have extended := truthful.extend honest stepped
        simp only [stepped] at ran
        have stops (same : all = out ++ step.emitted) (left : step.merge = after) :
            ∃ later emitted, Truthful sources later ∧ later.merge = after ∧ all = out ++ emitted ∧
              later.out = trace.out ++ emitted :=
          ⟨trace.extend step, step.emitted, extended, left, same, rfl⟩
        have continues {clock : Nat → Nat} {dataInBatch quietSteps : Nat}
            (rest : step.merge.nextLoop fuel clock (out ++ step.emitted) dataInBatch quietSteps
              (pulled ++ step.pulled.toList) = .ok (all, drawn, after)) :
            ∃ later emitted, Truthful sources later ∧ later.merge = after ∧ all = out ++ emitted ∧
              later.out = trace.out ++ emitted := by
          obtain ⟨later, emitted, held, same, whole, grown⟩ := inductionHypothesis extended rest
          refine ⟨later, step.emitted ++ emitted, held, same, ?_, ?_⟩
          · rw [whole, List.append_assoc]
          · rw [grown, ← List.append_assoc]
            rfl
        cases kind : step.result with
        | exhausted =>
          obtain ⟨rfl, -, rfl⟩ := by simpa [kind] using ran
          exact stops rfl rfl
        | noData =>
          simp only [kind] at ran
          split at ran
          · obtain ⟨rfl, -, rfl⟩ := by simpa using ran
            exact stops rfl rfl
          · exact continues ran
        | produced =>
          simp only [kind] at ran
          exact continues ran
    · obtain ⟨rfl, -, rfl⟩ := by simpa using ran
      exact ⟨trace, [], truthful, rfl, by simp, by simp⟩

/-- A call of a merge as a source hands out what a sequence of steps appends. -/
theorem source_next (honest : ∀ channel calls, OnTime (Source.itemsWithin calls (sources channel)))
    {batch : Batch} {rest : SourceMerge σ k}
    (called : Source.next trace.merge = some (batch, rest)) :
    ∃ later, Truthful sources later ∧ later.merge = rest ∧ later.out = trace.out ++ batch := by
  obtain ⟨fuel, pulled, looped⟩ := source_next_loop called
  obtain ⟨later, emitted, held, same, rfl, grown⟩ := truthful.nextLoop honest looped
  exact ⟨later, held, same, grown⟩

/-- The items that calls of a merge hand out are on time. -/
theorem itemsWithin (honest : ∀ channel calls, OnTime (Source.itemsWithin calls (sources channel)))
    (calls : Nat) : OnTime (trace.out ++ Source.itemsWithin calls trace.merge) := by
  induction calls generalizing trace with
  | zero => rw [Source.itemsWithin, List.append_nil]; exact truthful.onTime
  | succ calls inductionHypothesis =>
    rw [Source.itemsWithin]
    cases called : Source.next trace.merge with
    | none => rw [List.append_nil]; exact truthful.onTime
    | some handed =>
      obtain ⟨later, held, same, grown⟩ := truthful.source_next honest called
      have rest := inductionHypothesis held
      rwa [same, grown, List.append_assoc] at rest

end

end Truthful

section Runs

variable {inputs : Fin k → σ × List IdleSpan} {config : SourceMergeConfig} {now : Nat}
  {start : SourceMerge σ k}

theorem construct_truthful (constructed : construct inputs config now = .ok start)
    (never : NeverIdles config) :
    Truthful (fun channel => (inputs channel).1) (Trace.initial start) := by
  have reached := construct_reached constructed
  obtain rfl := construct_eq constructed
  exact ⟨reached, never, fun _ => rfl, MinWatermarkCombiner.initial_below,
    fun _ member => absurd member List.not_mem_nil, onTime_nil⟩

/-- Over channels whose watermarks are true, with any pauses, barriers and lengths, a merge
without idleness appends no record that is older than a watermark before it, at every point
of every run. An engine over the merge drops no record and fires no window twice. -/
theorem merging_keeps_watermarks_true (constructed : construct inputs config now = .ok start)
    (never : NeverIdles config)
    (honest : ∀ channel calls, OnTime (Source.itemsWithin calls (inputs channel).1)) :
    (∀ readings trace, run start readings = .ok trace → OnTime trace.out) ∧
      (∀ calls, OnTime (Source.itemsWithin calls start)) ∧
      ∀ (kind : AssignerType) (lateness : Nat) (checkpointing : Bool) (fuel : Nat),
        KeyedProcessor.Untouched (Pipeline.outcome
          (Pipeline.run fuel start kind.makeAssigner lateness checkpointing)).2.2.stats := by
  have first := construct_truthful constructed never
  have handed (calls : Nat) : OnTime (Source.itemsWithin calls start) :=
    first.itemsWithin honest calls
  refine ⟨?_, handed, ?_⟩
  · intro readings trace ran
    refine (run_induction (Truthful _) first ?_ ran).onTime
    intro before reading step truthful stepped
    exact truthful.extend honest stepped
  · intro kind lateness checkpointing fuel
    exact Pipeline.run_untouched kind.covers handed fuel lateness checkpointing

/-- A channel with a pause and a channel without records, which exhausts first. -/
theorem lopsided_watermarks_true :
    ∃ start, construct lopsided { mergedBatchSize := 1 } 0 = .ok start ∧
      (∀ calls, OnTime (Source.itemsWithin calls start)) ∧
      ∀ (kind : AssignerType) (lateness fuel : Nat), KeyedProcessor.Untouched (Pipeline.outcome
        (Pipeline.run fuel start kind.makeAssigner lateness false)).2.2.stats := by
  obtain ⟨start, constructed⟩ : ∃ start, construct lopsided { mergedBatchSize := 1 } 0 =
      .ok start := ⟨_, rfl⟩
  have honest (channel : Fin 2) (calls : Nat) :
      OnTime (Source.itemsWithin calls (lopsided channel).1) := by
    apply (ScriptedSource.delivers _).onTime
    fin_cases channel
    · exact (((onTime_nil.record (by decide)).control _).record (by decide)).control _
    · exact onTime_nil.control _
  obtain ⟨-, handed, untouched⟩ :=
    merging_keeps_watermarks_true constructed ⟨rfl, rfl⟩ honest
  exact ⟨start, constructed, handed, fun kind lateness fuel => untouched kind lateness false fuel⟩

end Runs

end SourceMerge

end Stormglass
