import Stormglass.MergeRuns

/-!
# The merged watermark

The combiner's `Current()` is the running maximum of the minimum watermark over
the active channels. This holds at every point of every run.

The merged stream carries that value except in one situation. A channel that
resumes rejoins the minimum at the watermark it kept, and the merge drops the
report of that recomputation. With another active channel the report is empty,
because one more channel cannot raise a minimum. With no active channel the
minimum jumps to the resumed channel's watermark, and no control record says so.
`Swallows` describes the state before such a step.
-/

namespace Stormglass

namespace SourceMerge

variable {σ : Type} {k : Nat}

/-- No channel is active, and the given one kept a watermark that the merge has
not reached. -/
def Jumps (merge : SourceMerge σ k) (channel : Fin k) : Prop :=
  (∀ other, ¬ merge.Active other) ∧ merge.combiner.current < merge.combiner.perSource channel

instance (merge : SourceMerge σ k) (channel : Fin k) : Decidable (merge.Jumps channel) :=
  inferInstanceAs (Decidable (_ ∧ _))

/-- The item that resumes the channel leaves its jump unannounced: it is no
watermark above the one that the channel kept. -/
def Hides (merge : SourceMerge σ k) (channel : Fin k) (item : BatchItem) : Prop :=
  merge.Jumps channel ∧ ∀ watermark, item.watermark? = some watermark →
    watermark ≤ merge.combiner.perSource channel

/-- The next step pulls an item that hides a jump. -/
def Swallows [Source σ] (merge : SourceMerge σ k) : Prop :=
  ∃ channel item, merge.pickChannel = some channel ∧
    (merge.states channel).upcoming = some item ∧ merge.Hides channel item

/-- The combiner is settled: its minimum does not exceed what it has reached. -/
def Settled (merge : SourceMerge σ k) : Prop :=
  merge.combiner.frontier ≤ merge.combiner.current

section Turns

variable {merge : SourceMerge σ k} {channel : Fin k}

theorem recompute_emitted (combiner : MinWatermarkCombiner k) :
    combiner.recompute.2.emitted = max combiner.emitted combiner.frontier := by
  rw [MinWatermarkCombiner.recompute_eq]

theorem recompute_report (combiner : MinWatermarkCombiner k) :
    combiner.recompute.1.toList =
      if combiner.emitted < combiner.frontier then [combiner.frontier] else [] := by
  rw [MinWatermarkCombiner.recompute_eq]
  split <;> rfl

/-- With no active channel, the combiner has no active channel either. -/
theorem Aligned.inactive (aligned : Aligned merge) (none : ∀ other, ¬ merge.Active other) :
    ¬ ∃ other, merge.combiner.active other = true := by
  rintro ⟨other, active⟩
  exact none other ((aligned.activity other).mp active)

/-- Rejoining moves the merged watermark exactly when the channel jumps, and then
to the watermark that the channel kept. -/
theorem rejoined_emitted (aligned : Aligned merge) (settled : Settled merge)
    (live : (merge.states channel).exhausted = false) :
    (merge.rejoined channel).emitted =
      if merge.Jumps channel then merge.combiner.perSource channel
      else merge.combiner.current := by
  by_cases idle : (merge.states channel).idle = true
  · rw [rejoined, if_pos idle, MinWatermarkCombiner.markActive, recompute_emitted]
    by_cases none : ∀ other, ¬ merge.Active other
    · have alone : MinWatermarkCombiner.frontier { merge.combiner with
          active := Function.update merge.combiner.active channel true } =
          merge.combiner.perSource channel :=
        MinWatermarkCombiner.minimumOver_only _ channel (aligned.inactive none)
      rw [alone]
      by_cases above : merge.combiner.current < merge.combiner.perSource channel
      · rw [if_pos ⟨none, above⟩]
        exact max_eq_right (le_of_lt above)
      · rw [if_neg (fun jumps => above jumps.2)]
        exact max_eq_left (not_lt.mp above)
    · obtain ⟨other, active⟩ := not_forall_not.mp none
      have lower : MinWatermarkCombiner.frontier { merge.combiner with
          active := Function.update merge.combiner.active channel true } ≤
          merge.combiner.frontier :=
        MinWatermarkCombiner.minimumOver_include _ channel
          ⟨other, (aligned.activity other).mpr active⟩
      rw [if_neg (fun jumps => none jumps.1)]
      exact max_eq_left (lower.trans settled)
  · have active : merge.Active channel := ⟨by simpa using idle, live⟩
    rw [rejoined, if_neg idle, if_neg (fun jumps => jumps.1 channel active)]
    rfl

/-- A recomputation of an unmoved combiner reports exactly its advance. -/
theorem recompute_announced (combiner : MinWatermarkCombiner k) :
    combiner.recompute.1.toList =
      if combiner.emitted < combiner.recompute.2.emitted then [combiner.recompute.2.emitted]
      else [] := by
  rw [recompute_report, recompute_emitted]
  by_cases advances : combiner.emitted < combiner.frontier
  · rw [max_eq_right (le_of_lt advances)]
  · rw [max_eq_left (not_lt.mp advances), if_neg advances, if_neg (lt_irrefl _)]

variable {step : StepOutcome σ k}

/-- The combiner after an exclusion, and the record that announces its advance. -/
theorem markIdle_spec (combiner : MinWatermarkCombiner k) (channel : Fin k) :
    (combiner.markIdle channel).2.emitted =
        max combiner.emitted (combiner.markIdle channel).2.frontier ∧
      (combiner.markIdle channel).1.toList =
        if combiner.emitted < (combiner.markIdle channel).2.emitted then
          [(combiner.markIdle channel).2.emitted]
        else [] := by
  refine ⟨?_, recompute_announced _⟩
  rw [MinWatermarkCombiner.markIdle, MinWatermarkCombiner.recompute_eq]
  rfl

/-- A report of a channel that has rejoined: the minimum does not fall, and the
merged watermark follows it. -/
theorem observe_spec (aligned : Aligned merge)
    (live : (merge.states channel).exhausted = false) (frontier : Timestamp) :
    ((merge.rejoined channel).observe channel frontier).2.emitted =
        max (merge.rejoined channel).emitted
          ((merge.rejoined channel).observe channel frontier).2.frontier ∧
      (merge.rejoined channel).frontier ≤
        ((merge.rejoined channel).observe channel frontier).2.frontier := by
  have joined := rejoined_active aligned live
  rw [MinWatermarkCombiner.observe_eq, MinWatermarkCombiner.recompute_eq]
  refine ⟨rfl, ?_⟩
  have same : Function.update (merge.rejoined channel).active channel true =
      (merge.rejoined channel).active := by
    rw [joined, Function.update_idem]
  rw [same]
  apply MinWatermarkCombiner.minimumOver_mono
  intro other
  by_cases own : other = channel
  · subst own
    simp [MinWatermarkCombiner.raised]
  · simp [MinWatermarkCombiner.raised, Function.update_of_ne own]

/-- After every turn the merged watermark is the maximum of its old value and the
new minimum. -/
theorem turn_current [Source σ] (aligned : Aligned merge) (settled : Settled merge)
    (live : (merge.states channel).exhausted = false) (taken : Turn merge channel step) :
    step.merge.combiner.current =
      max merge.combiner.current step.merge.combiner.frontier := by
  have still : merge.combiner.current = max merge.combiner.current merge.combiner.frontier :=
    (max_eq_left settled).symm
  have rejoins : (merge.rejoined channel).emitted =
      max merge.combiner.emitted (merge.rejoined channel).frontier := by
    unfold rejoined
    split
    · rw [MinWatermarkCombiner.markActive, MinWatermarkCombiner.recompute_eq]
      rfl
    · exact still
  cases taken with
  | quiet served spent => exact still
  | idled served spent wasActive after =>
    subst after
    rw [maybeCloseEpoch_combiner]
    exact (markIdle_spec _ channel).1
  | ended served ended after =>
    subst after
    rw [maybeCloseEpoch_combiner]
    exact (markIdle_spec _ channel).1
  | record served => exact rejoins
  | @watermark frontier offset state served =>
    obtain ⟨advanced, above⟩ := observe_spec aligned live frontier
    change _ = max _ ((merge.rejoined channel).observe channel frontier).2.frontier
    calc ((merge.rejoined channel).observe channel frontier).2.emitted
      _ = max (max merge.combiner.emitted (merge.rejoined channel).frontier)
            ((merge.rejoined channel).observe channel frontier).2.frontier := by
          rw [advanced, rejoins]
      _ = max merge.combiner.emitted
            ((merge.rejoined channel).observe channel frontier).2.frontier := by
          rw [max_assoc, max_eq_right above]
  | barrier served after =>
    subst after
    rw [maybeCloseEpoch_combiner]
    exact rejoins

/-- A turn appends its advance as one watermark record, unless it hides a jump. -/
def Announced (merge : SourceMerge σ k) (step : StepOutcome σ k) : Prop :=
  watermarks step.emitted =
    if merge.combiner.current < step.merge.combiner.current then [step.merge.combiner.current]
    else []

/-- A turn that hides a jump advances and appends no watermark record. -/
def Hidden (merge : SourceMerge σ k) (step : StepOutcome σ k) : Prop :=
  watermarks step.emitted = [] ∧ merge.combiner.current < step.merge.combiner.current

/-- An item other than a watermark only rejoins its channel: what it hides is
exactly the jump. -/
theorem rejoined_announced (aligned : Aligned merge) (settled : Settled merge)
    (live : (merge.states channel).exhausted = false) {item : BatchItem}
    (data : item.watermark? = none) (silent : watermarks step.emitted = [])
    (combiner : step.merge.combiner = merge.rejoined channel) :
    (¬ merge.Hides channel item → Announced merge step) ∧
      (merge.Hides channel item → Hidden merge step) := by
  have current : step.merge.combiner.current =
      if merge.Jumps channel then merge.combiner.perSource channel
      else merge.combiner.current := by
    rw [combiner]
    exact rejoined_emitted aligned settled live
  constructor
  · intro shown
    have noJump : ¬ merge.Jumps channel := by
      intro jumps
      exact shown ⟨jumps, fun watermark found => by simp [data] at found⟩
    rw [if_neg noJump] at current
    simp [Announced, current, silent]
  · intro hidden
    rw [if_pos hidden.1] at current
    exact ⟨silent, by rw [current]; exact hidden.1.2⟩

/-- The merged watermark after a jump and a report of the resumed channel. -/
theorem observe_jumped (aligned : Aligned merge) (settled : Settled merge)
    (live : (merge.states channel).exhausted = false) (jumps : merge.Jumps channel)
    (frontier : Timestamp) :
    ((merge.rejoined channel).observe channel frontier).2.emitted =
      max (merge.combiner.perSource channel) frontier := by
  have kept : (merge.rejoined channel).emitted = merge.combiner.perSource channel := by
    rw [rejoined_emitted aligned settled live, if_pos jumps]
  have alone : MinWatermarkCombiner.frontier { merge.rejoined channel with
      active := Function.update (merge.rejoined channel).active channel true
      perSource := MinWatermarkCombiner.raised (merge.rejoined channel).perSource channel
        frontier } = max (merge.combiner.perSource channel) frontier := by
    rw [MinWatermarkCombiner.frontier, rejoined_active aligned live, Function.update_idem,
      MinWatermarkCombiner.minimumOver_only _ channel (aligned.inactive jumps.1)]
    simp [MinWatermarkCombiner.raised, rejoined_perSource]
  rw [MinWatermarkCombiner.observe_eq, recompute_emitted, alone]
  change max (merge.rejoined channel).emitted _ = _
  rw [kept, ← max_assoc, max_self]

/-- A watermark announces what it advances; after a jump it announces nothing when
it does not pass the kept watermark. -/
theorem observe_announced (aligned : Aligned merge) (settled : Settled merge)
    (live : (merge.states channel).exhausted = false) {frontier : Timestamp} {offset : Nat}
    (report : watermarks step.emitted =
      ((merge.rejoined channel).observe channel frontier).1.toList)
    (combiner : step.merge.combiner = ((merge.rejoined channel).observe channel frontier).2) :
    (¬ merge.Hides channel (watermarkItem frontier offset) → Announced merge step) ∧
      (merge.Hides channel (watermarkItem frontier offset) → Hidden merge step) := by
  have listed : watermarks step.emitted =
      if (merge.rejoined channel).emitted < step.merge.combiner.current then
        [step.merge.combiner.current]
      else [] := by
    rw [report, combiner, MinWatermarkCombiner.observe_eq]
    exact recompute_announced _
  have before := rejoined_emitted aligned settled live
  by_cases jumps : merge.Jumps channel
  · have after : step.merge.combiner.current =
        max (merge.combiner.perSource channel) frontier := by
      rw [combiner]
      exact observe_jumped aligned settled live jumps frontier
    rw [before, if_pos jumps, after] at listed
    constructor
    · intro shown
      have passes : merge.combiner.perSource channel < frontier := by
        by_contra below
        refine shown ⟨jumps, ?_⟩
        intro watermark found
        obtain rfl : frontier = watermark := by simpa using found
        exact not_lt.mp below
      rw [max_eq_right (le_of_lt passes)] at listed after
      rw [Announced, after, listed, if_pos passes, if_pos (jumps.2.trans passes)]
    · rintro ⟨_, within⟩
      have below : frontier ≤ merge.combiner.perSource channel := within frontier (by simp)
      rw [max_eq_left below] at listed after
      rw [if_neg (lt_irrefl _)] at listed
      exact ⟨listed, by rw [after]; exact jumps.2⟩
  · rw [before, if_neg jumps] at listed
    exact ⟨fun _ => listed, fun hidden => absurd hidden.1 jumps⟩

/-- Whether a turn announces its advance is decided by its upcoming item. -/
structure Disclosed [Source σ] (merge : SourceMerge σ k) (channel : Fin k)
    (step : StepOutcome σ k) : Prop where
  announced : (∀ item, (merge.states channel).upcoming = some item →
    ¬ merge.Hides channel item) → Announced merge step
  hidden : ∀ item, (merge.states channel).upcoming = some item → merge.Hides channel item →
    Hidden merge step

/-- A turn that pulls nothing hides nothing. -/
theorem Disclosed.unpulled [Source σ] (first : (merge.states channel).upcoming = none)
    (announced : Announced merge step) : Disclosed merge channel step := by
  refine ⟨fun _ => announced, ?_⟩
  intro item found
  rw [first] at found
  simp at found

theorem Disclosed.item [Source σ] {item : BatchItem}
    (first : (merge.states channel).upcoming = some item)
    (both : (¬ merge.Hides channel item → Announced merge step) ∧
      (merge.Hides channel item → Hidden merge step)) : Disclosed merge channel step := by
  refine ⟨fun shown => both.1 (shown item first), ?_⟩
  intro other found hidden
  obtain rfl : item = other := Option.some.inj (first.symm.trans found)
  exact both.2 hidden

/-- Every turn announces its advance or hides a jump. -/
theorem turn_disclosed [Source σ] (aligned : Aligned merge) (settled : Settled merge)
    (live : (merge.states channel).exhausted = false) (taken : Turn merge channel step) :
    Disclosed merge channel step := by
  cases taken with
  | quiet served spent =>
    refine .unpulled served.upcoming ?_
    simp [Announced, watermarks]
  | idled served spent wasActive after =>
    subst after
    refine .unpulled served.upcoming ?_
    simpa [Announced, MinWatermarkCombiner.current] using (markIdle_spec merge.combiner channel).2
  | ended served ended after =>
    subst after
    refine .unpulled served.upcoming ?_
    simpa [Announced, MinWatermarkCombiner.current] using (markIdle_spec merge.combiner channel).2
  | record served =>
    exact .item served.upcoming (rejoined_announced aligned settled live rfl rfl rfl)
  | watermark served =>
    exact .item served.upcoming
      (observe_announced aligned settled live (watermarks_announce merge _) rfl)
  | barrier served after =>
    subst after
    exact .item served.upcoming (rejoined_announced aligned settled live rfl
      (watermarks_maybeCloseEpoch _) (maybeCloseEpoch_combiner _))

end Turns

section Runs

variable [Source σ] {trace : Trace σ k} {step : StepOutcome σ k} {now : Nat}

/-- At a reached point the combiner's minimum is the minimum over the active
channels of the watermarks they have delivered. -/
theorem Reached.frontier_eq {sources : Fin k → σ} (reached : Reached sources trace) :
    trace.merge.combiner.frontier = activeMinimum trace.merge trace.pulled := by
  have active : trace.merge.combiner.active =
      fun channel => decide (trace.merge.Active channel) := by
    funext channel
    rw [Bool.eq_iff_iff, decide_eq_true_iff]
    exact reached.aligned.activity channel
  have perSource : trace.merge.combiner.perSource =
      fun channel => highestWatermark (pulledFrom trace.pulled channel) :=
    funext reached.accounted.perSource
  rw [MinWatermarkCombiner.frontier, active, perSource, activeMinimum]

/-- The merged watermark is the running maximum of the active minimum. -/
structure Peaked (sources : Fin k → σ) (trace : Trace σ k) : Prop where
  reached : Reached sources trace
  settled : Settled trace.merge
  peak : trace.merge.combiner.current = trace.peak

/-- A step never lowers the merged watermark, and leaves it settled. -/
theorem step_current {merge : SourceMerge σ k} (aligned : Aligned merge)
    (settled : Settled merge) (stepped : merge.produceOneMergedStep now = .ok step) :
    step.merge.combiner.current =
      max merge.combiner.current step.merge.combiner.frontier := by
  rcases step_cases stepped with ⟨channel, picked, _, taken⟩ | ⟨_, rfl⟩
  · exact turn_current aligned settled (pickChannel_free picked).1 taken
  · exact (max_eq_left settled).symm

theorem Peaked.extend {sources : Fin k → σ} (peaked : Peaked sources trace)
    (stepped : trace.merge.produceOneMergedStep now = .ok step) :
    Peaked sources (trace.extend step) := by
  have reached := peaked.reached.extend stepped
  have current := step_current peaked.reached.aligned peaked.settled stepped
  refine ⟨reached, ?_, ?_⟩
  · change step.merge.combiner.frontier ≤ step.merge.combiner.current
    rw [current]
    exact le_max_right _ _
  · have minimum : step.merge.combiner.frontier =
        activeMinimum step.merge (trace.pulled ++ step.pulled.toList) := reached.frontier_eq
    change step.merge.combiner.current = max trace.peak _
    rw [current, peaked.peak, minimum]

/-- A step that is not swallowed appends exactly its advance, and one that is
swallowed advances without a record. -/
theorem step_disclosed {merge : SourceMerge σ k} (aligned : Aligned merge)
    (settled : Settled merge) (stepped : merge.produceOneMergedStep now = .ok step) :
    (¬ merge.Swallows → Announced merge step) ∧ (merge.Swallows → Hidden merge step) := by
  rcases step_cases stepped with ⟨channel, picked, _, taken⟩ | ⟨picked, rfl⟩
  · have disclosed := turn_disclosed aligned settled (pickChannel_free picked).1 taken
    constructor
    · intro shown
      refine disclosed.announced ?_
      intro item first hides
      exact shown ⟨channel, item, picked, first, hides⟩
    · rintro ⟨other, item, chosen, first, hides⟩
      obtain rfl : channel = other := Option.some.inj (picked.symm.trans chosen)
      exact disclosed.hidden item first hides
  · constructor
    · intro _
      simp [Announced, watermarks]
    · rintro ⟨other, item, chosen, _⟩
      rw [picked] at chosen
      simp at chosen

/-- The last watermark record is the merged watermark, and the merged watermark is
the running maximum of the active minimum. Before the first record both are
`Timestamp::min()`. -/
def Watermarked (trace : Trace σ k) : Prop :=
  lastWatermark trace.out = trace.merge.combiner.current ∧
    trace.merge.combiner.current = trace.peak

omit [Source σ] in
/-- An announced step moves the last watermark record with the merged watermark. -/
theorem Announced.lastWatermark_extend (announced : Announced trace.merge step)
    (monotone : trace.merge.combiner.current ≤ step.merge.combiner.current)
    (carried : lastWatermark trace.out = trace.merge.combiner.current) :
    lastWatermark (trace.extend step).out = step.merge.combiner.current := by
  change lastWatermark (trace.out ++ step.emitted) = _
  rw [lastWatermark_append, announced]
  split
  · rfl
  · next still =>
    rw [List.getLastD_nil, carried]
    exact le_antisymm monotone (not_lt.mp still)

omit [Source σ] in
/-- A hidden step leaves the last watermark record behind. -/
theorem Hidden.lastWatermark_extend (hidden : Hidden trace.merge step) :
    lastWatermark (trace.extend step).out = lastWatermark trace.out := by
  change lastWatermark (trace.out ++ step.emitted) = _
  rw [lastWatermark_append, hidden.1, List.getLastD_nil]

omit [Source σ] in
/-- Before the first watermark the minimum is `Timestamp::min()`. -/
theorem initial_frontier : (MinWatermarkCombiner.initial k).frontier = ⊥ := by
  by_cases channels : ∃ channel, (MinWatermarkCombiner.initial k).active channel = true
  · obtain ⟨channel, active⟩ := channels
    exact le_bot_iff.mp (MinWatermarkCombiner.minimumOver_le _ _ channel active)
  · rw [MinWatermarkCombiner.frontier, MinWatermarkCombiner.minimumOver, if_neg channels]

theorem run_peaked {inputs : Fin k → σ × List IdleSpan} {config : SourceMergeConfig}
    {created : Nat} {start : SourceMerge σ k}
    (constructed : construct inputs config created = .ok start) {readings : List Nat}
    (ran : run start readings = .ok trace) :
    Peaked (fun channel => (inputs channel).1) trace := by
  have fresh : start.combiner = .initial k := by
    obtain rfl := construct_eq constructed
    rfl
  have reached := construct_reached constructed
  refine run_induction (Peaked _) ⟨reached, ?_, ?_⟩ ?_ ran
  · change start.combiner.frontier ≤ start.combiner.current
    rw [fresh, initial_frontier]
    exact bot_le
  · have minimum : start.combiner.frontier = activeMinimum start [] := reached.frontier_eq
    change start.combiner.current = activeMinimum start []
    rw [← minimum, fresh, initial_frontier]
    rfl
  · intro before reading step peaked stepped
    exact peaked.extend stepped

/-- Along a run, the merged stream carries the merged watermark at every point if
and only if no step of the run swallows a watermark. -/
theorem watermarked_iff_not_swallowed {inputs : Fin k → σ × List IdleSpan}
    {config : SourceMergeConfig} {created : Nat} {start : SourceMerge σ k}
    (constructed : construct inputs config created = .ok start) {readings : List Nat}
    (ran : run start readings = .ok trace) :
    (∀ earlier point, earlier <+: readings → run start earlier = .ok point →
        Watermarked point) ↔
      ∀ earlier reading point, earlier ++ [reading] <+: readings →
        run start earlier = .ok point → ¬ point.merge.Swallows := by
  constructor
  · intro carried earlier reading point early reached swallows
    obtain ⟨after, last⟩ := run_prefix ran early
    obtain ⟨before, step, same, stepped, rfl⟩ := run_snoc last
    obtain rfl : before = point := Except.ok.inj (same.symm.trans reached)
    have peaked := run_peaked constructed reached
    have hidden := (step_disclosed peaked.reached.aligned peaked.settled stepped).2 swallows
    have stale : lastWatermark before.out = before.merge.combiner.current :=
      (carried earlier before ((List.prefix_append _ _).trans early) reached).1
    have current : lastWatermark (before.extend step).out = step.merge.combiner.current :=
      (carried _ _ early last).1
    rw [hidden.lastWatermark_extend, stale] at current
    exact absurd current hidden.2.ne
  · intro shown earlier
    induction earlier using List.reverseRecOn with
    | nil =>
      intro point _ reached
      have peaked := run_peaked constructed reached
      obtain rfl := Except.ok.inj reached
      refine ⟨?_, peaked.peak⟩
      obtain rfl := construct_eq constructed
      rfl
    | append_singleton earlier reading inductionHypothesis =>
      intro point early reached
      have peaked := run_peaked constructed reached
      refine ⟨?_, peaked.peak⟩
      obtain ⟨before, step, same, stepped, rfl⟩ := run_snoc reached
      have invariant := run_peaked constructed same
      have carried := inductionHypothesis before ((List.prefix_append _ _).trans early) same
      have announced := (step_disclosed invariant.reached.aligned invariant.settled stepped).1
        (shown earlier reading before early same)
      refine announced.lastWatermark_extend ?_ carried.1
      rw [step_current invariant.reached.aligned invariant.settled stepped]
      exact le_max_left _ _

end Runs

/-- Two channels that each deliver a watermark, pause after their first record and
resume. The watermark of the first channel is the higher one. -/
def pausing : Fin 2 → ScriptedSource × List IdleSpan
  | 0 => ({ script := [[watermarkItem (.ofMs 10) 0, sample, sample]] }, [⟨1, 1⟩])
  | 1 => ({ script := [[watermarkItem (.ofMs 5) 0, sample, sample]] }, [⟨1, 1⟩])
where
  sample : BatchItem :=
    .record { key := [], value := 1, eventTime := .ofMs 20, processingTime := .ofMs 20 }

/-- The merge over the two pausing channels. -/
def pausingStart : SourceMerge ScriptedSource 2 where
  config := { idleTimeout := 1 }
  states channel := .fresh (pausing channel).1 (pausing channel).2 0
  combiner := .initial 2
  rr := 0
  mergedOffset := 0
  epochClosed := 0

/-- Both pauses make both channels idle. When the first channel resumes, the merged
watermark moves from 5 to 10 and the merged stream still ends at 5. -/
theorem resumed_watermark_swallowed :
    ∃ start trace, construct pausing { idleTimeout := 1 } 0 = .ok start ∧
      run start [0, 0, 0, 0, 0, 0, 0] = .ok trace ∧
      trace.merge.combiner.current = .ofMs 10 ∧ lastWatermark trace.out = .ofMs 5 ∧
      ¬ Watermarked trace := by
  obtain ⟨trace, ran, observed⟩ := run_observed pausingStart
    (fun trace => (trace.merge.combiner.current, lastWatermark trace.out))
    [0, 0, 0, 0, 0, 0, 0] (.ofMs 10, .ofMs 5) (by decide +kernel)
  obtain ⟨current, last⟩ := Prod.mk.inj observed
  refine ⟨pausingStart, trace, rfl, ran, current, last, ?_⟩
  intro carried
  have same : Timestamp.ofMs 5 = Timestamp.ofMs 10 := last ▸ current ▸ carried.1
  exact absurd same (by decide)

/-- The equivalence at the six steps before that resumption. -/
theorem watermarked_until_resumption :
    ∃ start trace, construct pausing { idleTimeout := 1 } 0 = .ok start ∧
      run start [0, 0, 0, 0, 0, 0] = .ok trace ∧
      ((∀ earlier point, earlier <+: [0, 0, 0, 0, 0, 0] → run start earlier = .ok point →
          Watermarked point) ↔
        ∀ earlier reading point, earlier ++ [reading] <+: [0, 0, 0, 0, 0, 0] →
          run start earlier = .ok point → ¬ point.merge.Swallows) := by
  obtain ⟨trace, ran, _⟩ := run_observed pausingStart (fun _ => ()) [0, 0, 0, 0, 0, 0] ()
    (by decide +kernel)
  have constructed : construct pausing { idleTimeout := 1 } 0 = .ok pausingStart := rfl
  exact ⟨pausingStart, trace, constructed, ran, watermarked_iff_not_swallowed constructed ran⟩

end SourceMerge

end Stormglass
