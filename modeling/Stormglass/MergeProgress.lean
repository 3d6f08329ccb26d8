import Stormglass.MergeRuns

/-!
# Draining a merge

A merge over finite channels that deliver nonempty batches terminates. Its weight
is the number of items still to pull, of idle ticks still to take and of channels
still open; every step but the last one lowers it. A step that finds no channel
finds every channel exhausted, because a blocked channel always has a peer that can
move.

`drain` calls `Next()` until the end of input. It returns every record of every
channel once and in the channel's order.
-/

namespace Stormglass

namespace SourceMerge

variable {σ : Type} {k : Nat}

/-- Repeated calls of `Next()` until it returns no batch: the batches, the items
pulled for them, and the merge at the end of input. -/
def drain [Source σ] (fuel : Nat) :
    Nat → (clocks : Nat → Nat → Nat) → SourceMerge σ k →
      Except Failure (List Batch × List (Fin k × BatchItem) × SourceMerge σ k)
  | 0, _, _ => .error .unfinished
  | calls + 1, clocks, merge =>
    match merge.next fuel (clocks 0) with
    | .error failure => .error failure
    | .ok outcome =>
      match outcome.batch with
      | none => .ok ([], outcome.pulled, outcome.merge)
      | some batch =>
        match drain fuel calls (fun call => clocks (call + 1)) outcome.merge with
        | .error failure => .error failure
        | .ok (batches, pulled, final) =>
            .ok (batch :: batches, outcome.pulled ++ pulled, final)

section Steps

variable [Source σ] {merge : SourceMerge σ k} {channel : Fin k} {step : StepOutcome σ k}
  {now : Nat}

/-- A step changes no option. -/
theorem turn_config (taken : Turn merge channel step) : step.merge.config = merge.config := by
  cases taken with
  | quiet served spent => rfl
  | idled served spent wasActive after =>
    subst after
    exact maybeCloseEpoch_config _
  | ended served ended after =>
    subst after
    exact maybeCloseEpoch_config _
  | record served => rfl
  | watermark served => rfl
  | barrier served after =>
    subst after
    exact maybeCloseEpoch_config _

/-- A step counts the records it appends. -/
theorem turn_data (taken : Turn merge channel step) :
    step.data = (records step.emitted).length := by
  cases taken with
  | quiet served spent => rfl
  | idled served spent wasActive after => simp
  | ended served ended after => simp
  | record served => rfl
  | watermark served => simp
  | barrier served after => simp

/-- A pull fails only on an empty batch of a merge that is not live. -/
theorem pullNextItem_ok {config : SourceMergeConfig} {state : SourceState σ}
    (nonempty : ∀ rest, Source.next state.source ≠ some ([], rest)) :
    ∃ answer, state.pullNextItem config now = .ok answer := by
  unfold SourceState.pullNextItem
  split
  · split
    · exact ⟨_, rfl⟩
    · next rest observed => exact absurd observed (nonempty rest)
    · exact ⟨_, rfl⟩
  · exact ⟨_, rfl⟩

theorem serve_ok (merge : SourceMerge σ k) (channel : Fin k) (now : Nat)
    (nonempty : ∀ rest, Source.next (merge.states channel).source ≠ some ([], rest)) :
    ∃ step, merge.serve now channel = .ok step := by
  obtain ⟨gap, span, opened, _⟩ := SourceState.openGap_eq (merge.states channel)
  have pulls : ∃ answer, (merge.states channel).openGap.pullNextItem merge.config now =
      .ok answer := by
    apply pullNextItem_ok
    rw [opened]
    exact nonempty
  obtain ⟨⟨pull, state⟩, pulled⟩ := pulls
  unfold serve
  dsimp only
  split
  · exact ⟨_, rfl⟩
  · rw [pulled]
    cases pull with
    | item item => exact ⟨_, rfl⟩
    | noData =>
      dsimp only
      split <;> exact ⟨_, rfl⟩
    | exhausted => exact ⟨_, rfl⟩

omit [Source σ] in
/-- A merge that finds no channel to serve is drained: a blocked channel would be
active, and then some active channel is not blocked. -/
theorem allExhausted_of_pickChannel_none (aligned : Aligned merge)
    (none : merge.pickChannel = none) : merge.AllExhausted := by
  intro channel
  rcases pickChannel_none none channel with exhausted | blocked
  · exact exhausted
  · have active : merge.Active channel := by
      by_contra inactive
      exact absurd blocked (not_lt.mpr (aligned.parked channel inactive))
    obtain ⟨other, otherActive, free⟩ := aligned.unclosed ⟨channel, active⟩
    rcases pickChannel_none none other with exhausted | held
    · simp [otherActive.2] at exhausted
    · exact absurd held (not_lt.mpr free)

/-- In a merge that is not live, a turn pulls an item, takes an idle tick or finds
the end of its channel. -/
theorem turn_advances (taken : Turn merge channel step)
    (offline : merge.config.liveInputs = false) :
    step.result = .produced ∧
      (step.merge.states channel).ticks ≤ (merge.states channel).ticks ∧
      (step.pulled ≠ none ∨
        (step.merge.states channel).ticks < (merge.states channel).ticks ∨
        (step.merge.states channel).exhausted = true) := by
  cases taken with
  | @quiet result state served spent =>
    rcases spent with ⟨rfl, fewer⟩ | ⟨_, live⟩
    · simp only [Function.update_self, true_and]
      exact ⟨served.ticks, Or.inr (Or.inl fewer)⟩
    · simp [offline] at live
  | @idled result state excluded served spent wasActive after =>
    rcases spent with ⟨rfl, fewer⟩ | ⟨_, live⟩
    · have own : (excluded.maybeCloseEpoch.2.states channel).ticks = state.ticks := by
        rw [maybeCloseEpoch_states, after]
        simp [SourceState.ticks]
      rw [own]
      exact ⟨rfl, served.ticks, Or.inr (Or.inl fewer)⟩
    · simp [offline] at live
  | @ended state excluded served ended after =>
    have own : excluded.maybeCloseEpoch.2.states channel = { state with exhausted := true } := by
      rw [maybeCloseEpoch_states, after]
      simp
    rw [own]
    exact ⟨rfl, served.ticks, Or.inr (Or.inr rfl)⟩
  | record served =>
    simp only [Function.update_self, true_and]
    exact ⟨served.ticks, Or.inl (by simp)⟩
  | watermark served =>
    simp only [Function.update_self, true_and]
    exact ⟨served.ticks, Or.inl (by simp)⟩
  | @barrier stamp offset state counted served after =>
    have own : (counted.maybeCloseEpoch.2.states channel).ticks = state.ticks := by
      rw [maybeCloseEpoch_states, after]
      simp [SourceState.ticks]
    rw [own]
    exact ⟨rfl, served.ticks, Or.inl (by simp)⟩

end Steps

section Weights

variable [Source σ] {sources : Fin k → σ} {trajectories : Fin k → List Batch}
  {trace : Trace σ k} {step : StepOutcome σ k} {now : Nat}

/-- Finite channels that deliver nonempty batches. -/
structure Supplied (sources : Fin k → σ) (trajectories : Fin k → List Batch) : Prop where
  delivers : ∀ channel, Source.Delivers (sources channel) (trajectories channel)
  nonempty : ∀ channel, [] ∉ trajectories channel

/-- What one channel still contributes to a run. -/
def channelWeight (trajectories : Fin k → List Batch) (trace : Trace σ k) (channel : Fin k) :
    Nat :=
  ((trajectories channel).flatten.length - (pulledFrom trace.pulled channel).length) +
    (trace.merge.states channel).ticks +
    (if (trace.merge.states channel).exhausted = true then 0 else 1)

def weight (trajectories : Fin k → List Batch) (trace : Trace σ k) : Nat :=
  ∑ channel, channelWeight trajectories trace channel

/-- The items pulled from a channel and the items ahead of it make up its
trajectory. -/
theorem Drawn.trajectory (drawn : Drawn sources trace) (supplied : Supplied sources trajectories)
    (channel : Fin k) :
    (trajectories channel).flatten = pulledFrom trace.pulled channel ++
      (trace.merge.states channel).ahead (trajectories channel).length := by
  obtain ⟨calls, leads⟩ := drawn.leads channel
  rw [← leads, (supplied.delivers channel).itemsWithin_eq (Nat.le_add_left _ _)]

/-- No channel of a supplied run hands out an empty batch. -/
theorem Drawn.nonempty (drawn : Drawn sources trace) (supplied : Supplied sources trajectories)
    (channel : Fin k) (rest : σ) :
    Source.next (trace.merge.states channel).source ≠ some ([], rest) := by
  intro handed
  obtain ⟨remaining, delivers, suffix⟩ :=
    (supplied.delivers channel).reaches (drawn.reaches channel)
  cases delivers with
  | ended observed =>
    rw [observed] at handed
    simp at handed
  | handed observed later =>
    rw [observed] at handed
    obtain ⟨rfl, rfl⟩ := Prod.mk.inj (Option.some.inj handed)
    exact supplied.nonempty channel (suffix.subset (List.mem_cons_self))

/-- Every turn lowers the weight. -/
theorem turn_weight {channel : Fin k} (reached : Reached sources trace)
    (supplied : Supplied sources trajectories)
    (live : (trace.merge.states channel).exhausted = false)
    (offline : trace.merge.config.liveInputs = false)
    (taken : Turn trace.merge channel step) :
    weight trajectories (trace.extend step) < weight trajectories trace := by
  have draws := turn_draws taken
  obtain ⟨_, ticks, progress⟩ := turn_advances taken offline
  have drawnAfter := reached.drawn.extend live draws
  have others (other : Fin k) (different : other ≠ channel) :
      channelWeight trajectories (trace.extend step) other =
        channelWeight trajectories trace other := by
    have state : (trace.extend step).merge.states other = trace.merge.states other :=
      draws.others other different
    have pulled : pulledFrom (trace.extend step).pulled other = pulledFrom trace.pulled other := by
      simp [Trace.extend, draws.tagged other different]
    rw [channelWeight, channelWeight, state, pulled]
  have own : channelWeight trajectories (trace.extend step) channel <
      channelWeight trajectories trace channel := by
    have whole := congrArg List.length (drawnAfter.trajectory supplied channel)
    have pulled : (pulledFrom (trace.extend step).pulled channel).length =
        (pulledFrom trace.pulled channel).length + step.pulled.toList.length := by
      change (pulledFrom (trace.pulled ++ step.pulled.toList) channel).length = _
      rw [pulledFrom_append, List.length_append, draws.upcoming]
      cases (trace.merge.states channel).upcoming with
      | none => rfl
      | some item => simp
    have later : (trace.extend step).merge.states channel = step.merge.states channel := rfl
    rw [List.length_append] at whole
    rw [channelWeight, channelWeight, live, later]
    generalize (trajectories channel).flatten.length = total at whole ⊢
    rcases progress with drawn | fewer | ended
    · have one : step.pulled.toList.length = 1 := by
        cases found : step.pulled with
        | none => exact absurd found drawn
        | some entry => rfl
      split <;> simp <;> omega
    · split <;> simp <;> omega
    · rw [ended]
      simp
      omega
  refine Finset.sum_lt_sum ?_ ⟨channel, Finset.mem_univ channel, own⟩
  intro other _
  by_cases same : other = channel
  · rw [same]
    exact own.le
  · exact (others other same).le

/-- A reached point of a merge that is not live and was accepted by its
constructor. -/
structure Draining (sources : Fin k → σ) (trace : Trace σ k) : Prop where
  reached : Reached sources trace
  offline : trace.merge.config.liveInputs = false
  positive : 0 < trace.merge.config.mergedBatchSize

/-- A step of a supplied merge succeeds. It ends the stream with every channel
exhausted, or it lowers the weight. -/
theorem Draining.steps (draining : Draining sources trace)
    (supplied : Supplied sources trajectories) (now : Nat) :
    (trace.merge.AllExhausted ∧ trace.merge.produceOneMergedStep now = .ok
      { result := .exhausted, pulled := none, emitted := [], data := 0, merge := trace.merge }) ∨
    ∃ step, trace.merge.produceOneMergedStep now = .ok step ∧ step.result = .produced ∧
      step.data = (records step.emitted).length ∧ Draining sources (trace.extend step) ∧
      step.merge.config = trace.merge.config ∧
      weight trajectories (trace.extend step) < weight trajectories trace := by
  cases picked : trace.merge.pickChannel with
  | none =>
    refine Or.inl ⟨allExhausted_of_pickChannel_none draining.reached.aligned picked, ?_⟩
    rw [produceOneMergedStep, picked]
  | some channel =>
    obtain ⟨step, served⟩ := serve_ok trace.merge channel now
      (draining.reached.drawn.nonempty supplied channel)
    have stepped : trace.merge.produceOneMergedStep now = .ok step := by
      rw [produceOneMergedStep, picked]
      exact served
    have taken := serve_turn served
    have options := turn_config taken
    obtain ⟨produced, _⟩ := turn_advances taken draining.offline
    refine Or.inr ⟨step, stepped, produced, turn_data taken, ?_, options, ?_⟩
    · refine ⟨draining.reached.extend stepped, ?_, ?_⟩
      · exact (congrArg SourceMergeConfig.liveInputs options).trans draining.offline
      · change 0 < step.merge.config.mergedBatchSize
        rw [options]
        exact draining.positive
    · exact turn_weight draining.reached supplied (pickChannel_free picked).1 draining.offline
        taken

/-- A run of steps from one point to a later one, with what it appends and
pulls. -/
structure Continues (sources : Fin k → σ) (trajectories : Fin k → List Batch)
    (trace later : Trace σ k) (emitted : Batch) (drawn : List (Fin k × BatchItem)) : Prop where
  draining : Draining sources later
  options : later.merge.config = trace.merge.config
  out : later.out = trace.out ++ emitted
  pulled : later.pulled = trace.pulled ++ drawn
  bounded : weight trajectories later ≤ weight trajectories trace
  progress : emitted ≠ [] → weight trajectories later < weight trajectories trace

theorem Continues.refl (draining : Draining sources trace) :
    Continues sources trajectories trace trace [] [] :=
  ⟨draining, rfl, (List.append_nil _).symm, (List.append_nil _).symm, le_refl _,
    fun nonempty => absurd rfl nonempty⟩

/-- A step that lowers the weight, followed by a run. -/
theorem Continues.cons {later : Trace σ k} {emitted : Batch} {drawn : List (Fin k × BatchItem)}
    (options : step.merge.config = trace.merge.config)
    (lower : weight trajectories (trace.extend step) < weight trajectories trace)
    (rest : Continues sources trajectories (trace.extend step) later emitted drawn) :
    Continues sources trajectories trace later (step.emitted ++ emitted)
      (step.pulled.toList ++ drawn) := by
  have below : weight trajectories later < weight trajectories trace :=
    lt_of_le_of_lt rest.bounded lower
  refine ⟨rest.draining, rest.options.trans options, ?_, ?_, below.le, fun _ => below⟩
  · rw [rest.out, Trace.extend, List.append_assoc]
  · rw [rest.pulled, Trace.extend, List.append_assoc]

/-- The loop of `Next()` ends within the weight. It stops at the end of the stream
or with a full batch. -/
theorem nextLoop_spec (supplied : Supplied sources trajectories) (fuel : Nat)
    (clock : Nat → Nat) (draining : Draining sources trace)
    (enough : weight trajectories trace < fuel) (out : Batch) (dataInBatch quietSteps : Nat)
    (pulled : List (Fin k × BatchItem)) :
    ∃ later emitted drawn,
      trace.merge.nextLoop fuel clock out dataInBatch quietSteps pulled =
        .ok (out ++ emitted, pulled ++ drawn, later.merge) ∧
      Continues sources trajectories trace later emitted drawn ∧
      (later.merge.AllExhausted ∨
        trace.merge.config.mergedBatchSize ≤ dataInBatch + (records emitted).length) := by
  induction fuel generalizing clock trace out dataInBatch quietSteps pulled with
  | zero => exact absurd enough (Nat.not_lt_zero _)
  | succ fuel inductionHypothesis =>
    by_cases room : dataInBatch < trace.merge.config.mergedBatchSize
    · rcases draining.steps supplied (clock 0) with ⟨ended, stepped⟩ |
        ⟨step, stepped, produced, counted, drains, options, lower⟩
      · refine ⟨trace, [], [], ?_, Continues.refl draining, Or.inl ended⟩
        rw [nextLoop, if_pos room, stepped]
        simp
      · obtain ⟨later, emitted, drawn, looped, continues, stops⟩ :=
          inductionHypothesis (fun reading => clock (reading + 1)) drains (by omega)
            (out ++ step.emitted) (dataInBatch + step.data) 0 (pulled ++ step.pulled.toList)
        refine ⟨later, step.emitted ++ emitted, step.pulled.toList ++ drawn, ?_,
          Continues.cons options lower continues, ?_⟩
        · rw [nextLoop, if_pos room, stepped]
          simp only [produced]
          rw [← List.append_assoc, ← List.append_assoc]
          exact looped
        · rcases stops with ended | full
          · exact Or.inl ended
          · right
            have size : (trace.extend step).merge.config = trace.merge.config := options
            rw [size] at full
            rw [records_append, List.length_append]
            omega
    · refine ⟨trace, [], [], ?_, Continues.refl draining, Or.inr (by simpa using room)⟩
      rw [nextLoop, if_neg room]
      simp

/-- A call of `Next()` returns. It reports the end of input only when every channel
is exhausted, and otherwise returns a nonempty batch. -/
theorem next_spec (supplied : Supplied sources trajectories) {fuel : Nat} (clock : Nat → Nat)
    (draining : Draining sources trace) (enough : weight trajectories trace < fuel) :
    ∃ outcome later, trace.merge.next fuel clock = .ok outcome ∧ outcome.merge = later.merge ∧
      Continues sources trajectories trace later (outcome.batch.getD []) outcome.pulled ∧
      (outcome.batch = none → later.merge.AllExhausted) ∧
      (∀ batch, outcome.batch = some batch → batch ≠ []) := by
  by_cases drained : k = 0 ∨ trace.merge.AllExhausted
  · refine ⟨{ batch := none, pulled := [], merge := trace.merge }, trace, ?_, rfl,
      Continues.refl draining, ?_, by simp⟩
    · rw [next, if_pos drained]
    · intro _
      rcases drained with none | ended
      · intro channel
        exact absurd channel.pos (by omega)
      · exact ended
  · obtain ⟨later, emitted, drawn, looped, continues, stops⟩ :=
      nextLoop_spec supplied fuel clock draining enough [] 0 0 []
    rw [List.nil_append, List.nil_append] at looped
    by_cases empty : emitted = []
    · subst empty
      have ended : later.merge.AllExhausted := by
        rcases stops with ended | full
        · exact ended
        · have positive := draining.positive
          simp at full
          omega
      refine ⟨{ batch := none, pulled := drawn, merge := later.merge }, later, ?_, rfl,
        continues, fun _ => ended, by simp⟩
      rw [next, if_neg drained, looped]
      simp [ended]
    · refine ⟨{ batch := some emitted, pulled := drawn, merge := later.merge }, later, ?_, rfl,
        continues, by simp, ?_⟩
      · rw [next, if_neg drained, looped]
        simp [empty]
      · rintro batch same
        obtain rfl := Option.some.inj same
        exact empty

/-- Draining a supplied merge ends, with every channel exhausted. -/
theorem drain_spec (supplied : Supplied sources trajectories) {fuel : Nat} (calls : Nat)
    (clocks : Nat → Nat → Nat) (draining : Draining sources trace)
    (enough : weight trajectories trace < fuel) (often : weight trajectories trace < calls) :
    ∃ batches pulled later, drain fuel calls clocks trace.merge =
        .ok (batches, pulled, later.merge) ∧
      Draining sources later ∧ later.out = trace.out ++ batches.flatten ∧
      later.pulled = trace.pulled ++ pulled ∧ later.merge.AllExhausted := by
  induction calls generalizing trace clocks with
  | zero => exact absurd often (Nat.not_lt_zero _)
  | succ calls inductionHypothesis =>
    obtain ⟨outcome, later, returned, same, continues, ends, nonempty⟩ :=
      next_spec supplied (clocks 0) draining enough
    cases answer : outcome.batch with
    | none =>
      refine ⟨[], outcome.pulled, later, ?_, continues.draining, ?_, continues.pulled,
        ends answer⟩
      · rw [drain, returned]
        simp [answer, same]
      · rw [continues.out, answer]
        rfl
    | some batch =>
      have lower : weight trajectories later < weight trajectories trace := by
        apply continues.progress
        rw [answer]
        exact nonempty batch answer
      obtain ⟨batches, pulled, final, drained, drains, out, log, ended⟩ :=
        inductionHypothesis (fun call => clocks (call + 1)) continues.draining (by omega)
          (by omega)
      refine ⟨batch :: batches, outcome.pulled ++ pulled, final, ?_, drains, ?_, ?_, ended⟩
      · rw [drain, returned]
        simp only [answer, same]
        rw [drained]
      · rw [out, continues.out, answer]
        simp
      · rw [log, continues.pulled, List.append_assoc]

end Weights

/-- Repeated calls of `Next()` on a merge of finite channels reach the end of
input, whatever the clock reads. Then every channel is exhausted, the merged records
are the pulled ones, and the items pulled from each channel are its whole
trajectory: no record is lost, duplicated or reordered within its channel. -/
theorem drain_delivers_every_trajectory [Source σ] {inputs : Fin k → σ × List IdleSpan}
    {config : SourceMergeConfig} {created : Nat} {start : SourceMerge σ k}
    {trajectories : Fin k → List Batch}
    (constructed : construct inputs config created = .ok start)
    (offline : config.liveInputs = false)
    (supplied : Supplied (fun channel => (inputs channel).1) trajectories) :
    ∃ bound, ∀ fuel calls clocks, bound ≤ fuel → bound ≤ calls →
      ∃ batches pulled final, drain fuel calls clocks start = .ok (batches, pulled, final) ∧
        final.AllExhausted ∧
        records batches.flatten = records (pulled.map Prod.snd) ∧
        ∀ channel, pulledFrom pulled channel = (trajectories channel).flatten := by
  have reached := construct_reached constructed
  have draining : Draining (fun channel => (inputs channel).1) (Trace.initial start) := by
    refine ⟨reached, ?_, ?_⟩
    · obtain rfl := construct_eq constructed
      exact offline
    · have positive : config.mergedBatchSize ≠ 0 := by
        intro zero
        rw [construct, if_pos zero] at constructed
        simp at constructed
      obtain rfl := construct_eq constructed
      exact Nat.pos_of_ne_zero positive
  refine ⟨weight trajectories (Trace.initial start) + 1, ?_⟩
  intro fuel calls clocks enough often
  obtain ⟨batches, pulled, later, drained, drains, out, log, ended⟩ :=
    drain_spec supplied calls clocks draining enough often
  refine ⟨batches, pulled, later.merge, drained, ended, ?_, ?_⟩
  · have data := drains.reached.accounted.data
    rw [out, log] at data
    exact data
  · intro channel
    have whole := drains.reached.drawn.trajectory supplied channel
    obtain ⟨used, last⟩ := drains.reached.drawn.ended channel (ended channel)
    have nothing (calls : Nat) : (later.merge.states channel).ahead calls = [] := by
      rw [SourceState.ahead, List.drop_eq_nil_of_le used]
      cases calls with
      | zero => rfl
      | succ calls => simp [Source.itemsWithin, last]
    rw [nothing, log, List.append_nil] at whole
    exact whole.symm

/-- A channel with two batches and a pause beside a channel without records. -/
def lopsided : Fin 2 → ScriptedSource × List IdleSpan
  | 0 => ({ script := [[sample, barrierItem 1], [sample, watermarkItem (.ofMs 5) 2]] }, [⟨1, 2⟩])
  | 1 => ({ script := [[watermarkItem (.ofMs 7) 0]] }, [])
where
  sample : BatchItem :=
    .record { key := [], value := 1, eventTime := .ofMs 20, processingTime := .ofMs 20 }

/-- Draining the lopsided channels delivers both of them whole. -/
theorem lopsided_drained :
    ∃ start bound, construct lopsided { mergedBatchSize := 1, idleTimeout := 1 } 0 = .ok start ∧
      ∀ fuel calls clocks, bound ≤ fuel → bound ≤ calls →
        ∃ batches pulled final, drain fuel calls clocks start = .ok (batches, pulled, final) ∧
          final.AllExhausted ∧
          records batches.flatten = records (pulled.map Prod.snd) ∧
          ∀ channel, pulledFrom pulled channel = (lopsided channel).1.script.flatten := by
  have supplied : Supplied (fun channel => (lopsided channel).1)
      (fun channel => (lopsided channel).1.script) := by
    constructor
    · intro channel
      fin_cases channel
      · exact ScriptedSource.delivers _
      · exact ScriptedSource.delivers _
    · decide
  obtain ⟨start, constructed⟩ : ∃ start, construct lopsided
      { mergedBatchSize := 1, idleTimeout := 1 } 0 = .ok start := ⟨_, rfl⟩
  obtain ⟨bound, drained⟩ := drain_delivers_every_trajectory constructed rfl supplied
  exact ⟨start, bound, constructed, drained⟩

end SourceMerge

end Stormglass
