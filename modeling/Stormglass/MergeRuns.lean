import Stormglass.MergeTurns

/-!
# Runs of a merge

A run is a sequence of steps from a constructed merge. Its trace accumulates the
items pulled from the channels and the items appended to the merged stream.
`next` is one such sequence, so what holds after every step holds at every point
of every sequence of `Next()` calls.

`Accounted` connects the counters of the merge to the trace.
-/

namespace Stormglass

namespace SourceMerge

variable {σ : Type} {k : Nat}

/-- The items of one channel in a log of pulls, in order. -/
def pulledFrom (pulled : List (Fin k × BatchItem)) (channel : Fin k) : Batch :=
  (pulled.filter (fun entry => entry.1 = channel)).map Prod.snd

@[simp] theorem pulledFrom_append (first second : List (Fin k × BatchItem)) (channel : Fin k) :
    pulledFrom (first ++ second) channel =
      pulledFrom first channel ++ pulledFrom second channel := by
  simp [pulledFrom]

@[simp] theorem pulledFrom_nil (channel : Fin k) : pulledFrom [] channel = [] := rfl

@[simp] theorem pulledFrom_own (channel : Fin k) (item : BatchItem) :
    pulledFrom [(channel, item)] channel = [item] := by
  simp [pulledFrom]

theorem pulledFrom_other {channel other : Fin k} (different : other ≠ channel)
    (item : BatchItem) : pulledFrom [(channel, item)] other = [] := by
  simp [pulledFrom, Ne.symm different]

/-- The minimum watermark over the channels that are neither idle nor exhausted. -/
def activeMinimum (merge : SourceMerge σ k) (pulled : List (Fin k × BatchItem)) : Timestamp :=
  MinWatermarkCombiner.minimumOver (fun channel => decide (merge.Active channel))
    (fun channel => highestWatermark (pulledFrom pulled channel))

/-- A point of a run: what was pulled, what was appended, and the merge there.
`peak` is the running maximum of the active minimum over the points so far. -/
structure Trace (σ : Type) (k : Nat) where
  pulled : List (Fin k × BatchItem)
  out : Batch
  peak : Timestamp
  merge : SourceMerge σ k

namespace Trace

/-- The first point of a run. -/
def initial (start : SourceMerge σ k) : Trace σ k :=
  { pulled := [], out := [], peak := activeMinimum start [], merge := start }

/-- The point after a step. -/
def extend (trace : Trace σ k) (step : StepOutcome σ k) : Trace σ k :=
  { pulled := trace.pulled ++ step.pulled.toList
    out := trace.out ++ step.emitted
    peak := max trace.peak (activeMinimum step.merge (trace.pulled ++ step.pulled.toList))
    merge := step.merge }

def step [Source σ] (trace : Trace σ k) (now : Nat) : Except Failure (Trace σ k) :=
  (trace.merge.produceOneMergedStep now).map trace.extend

end Trace

/-- The run with the given clock readings, one for each step. -/
def run [Source σ] (start : SourceMerge σ k) (readings : List Nat) :
    Except Failure (Trace σ k) :=
  readings.foldlM Trace.step (Trace.initial start)

section Runs

variable [Source σ] {start : SourceMerge σ k}

@[simp] theorem run_nil (start : SourceMerge σ k) : run start [] = .ok (Trace.initial start) := rfl

/-- The last step of a run. -/
theorem run_snoc {readings : List Nat} {now : Nat} {trace : Trace σ k}
    (ran : run start (readings ++ [now]) = .ok trace) :
    ∃ before step, run start readings = .ok before ∧
      before.merge.produceOneMergedStep now = .ok step ∧ trace = before.extend step := by
  unfold run at ran ⊢
  rw [List.foldlM_append] at ran
  cases earlier : readings.foldlM Trace.step (Trace.initial start) with
  | error failure =>
    rw [earlier] at ran
    simp [bind, Except.bind] at ran
  | ok before =>
    rw [earlier] at ran
    cases stepped : before.merge.produceOneMergedStep now with
    | error failure =>
      simp [bind, Except.bind, Trace.step, stepped, Except.map] at ran
    | ok step =>
      refine ⟨before, step, rfl, stepped, ?_⟩
      simpa [bind, Except.bind, Trace.step, stepped, Except.map, pure, Except.pure] using ran.symm

/-- A run passes every earlier point. -/
theorem run_prefix {readings earlier : List Nat} {trace : Trace σ k}
    (ran : run start readings = .ok trace) (early : earlier <+: readings) :
    ∃ point, run start earlier = .ok point := by
  obtain ⟨later, rfl⟩ := early
  unfold run at ran ⊢
  rw [List.foldlM_append] at ran
  cases reached : earlier.foldlM Trace.step (Trace.initial start) with
  | error failure =>
    rw [reached] at ran
    simp [bind, Except.bind] at ran
  | ok point => exact ⟨point, rfl⟩

/-- A run is known by what an evaluation observes of it. -/
theorem run_observed {α : Type} (start : SourceMerge σ k) (observe : Trace σ k → α)
    (readings : List Nat) (value : α)
    (found : (run start readings).toOption.map observe = some value) :
    ∃ trace, run start readings = .ok trace ∧ observe trace = value := by
  cases ran : run start readings with
  | error failure => simp [ran, Except.toOption] at found
  | ok trace =>
    refine ⟨trace, rfl, ?_⟩
    simpa [ran, Except.toOption] using found

/-- A successful step extends a run. -/
theorem run_extend {readings : List Nat} {now : Nat} {before : Trace σ k}
    {step : StepOutcome σ k} (ran : run start readings = .ok before)
    (stepped : before.merge.produceOneMergedStep now = .ok step) :
    run start (readings ++ [now]) = .ok (before.extend step) := by
  unfold run at ran ⊢
  rw [List.foldlM_append, ran]
  simp [bind, Except.bind, Trace.step, stepped, Except.map, pure, Except.pure]

/-- What holds initially and is kept by every step holds at every point of every
run. -/
theorem run_induction (invariant : Trace σ k → Prop) (first : invariant (Trace.initial start))
    (kept : ∀ (before : Trace σ k) (now : Nat) (step : StepOutcome σ k), invariant before →
      before.merge.produceOneMergedStep now = .ok step → invariant (before.extend step))
    {readings : List Nat} {trace : Trace σ k} (ran : run start readings = .ok trace) :
    invariant trace := by
  induction readings using List.reverseRecOn generalizing trace with
  | nil =>
    rw [run_nil] at ran
    exact Except.ok.inj ran ▸ first
  | append_singleton readings now inductionHypothesis =>
    obtain ⟨before, step, earlier, stepped, rfl⟩ := run_snoc ran
    exact kept before now step (inductionHypothesis earlier) stepped

end Runs

/-- The counters of a merge count what its trace holds: the merged offset counts
the appended records, which are the pulled ones; each channel's counters count
its own records and barriers; the closed epochs are the appended barriers; and
the combiner records the greatest watermark of each channel. -/
structure Accounted (trace : Trace σ k) : Prop where
  data : records trace.out = records (trace.pulled.map Prod.snd)
  offset : trace.merge.mergedOffset = (records trace.out).length
  dataPulled : ∀ channel,
    (trace.merge.states channel).dataPulled = (records (pulledFrom trace.pulled channel)).length
  barriersSeen : ∀ channel,
    (trace.merge.states channel).barriersSeen = (barriers (pulledFrom trace.pulled channel)).length
  epochClosed : trace.merge.epochClosed = (barriers trace.out).length
  perSource : ∀ channel,
    trace.merge.combiner.perSource channel = highestWatermark (pulledFrom trace.pulled channel)

section Accounts

variable {merge : SourceMerge σ k} {channel : Fin k} {step : StepOutcome σ k}

/-- What a step adds to each counter is what it pulls and appends. -/
structure Counted (merge : SourceMerge σ k) (step : StepOutcome σ k) : Prop where
  data : records step.emitted = records (step.pulled.toList.map Prod.snd)
  offset : step.merge.mergedOffset = merge.mergedOffset + (records step.emitted).length
  dataPulled : ∀ channel, (step.merge.states channel).dataPulled =
    (merge.states channel).dataPulled +
      (records (pulledFrom step.pulled.toList channel)).length
  barriersSeen : ∀ channel, (step.merge.states channel).barriersSeen =
    (merge.states channel).barriersSeen +
      (barriers (pulledFrom step.pulled.toList channel)).length
  epochClosed : step.merge.epochClosed = merge.epochClosed + (barriers step.emitted).length
  perSource : ∀ channel, step.merge.combiner.perSource channel =
    max (merge.combiner.perSource channel)
      (highestWatermark (pulledFrom step.pulled.toList channel))

theorem rejoined_perSource (merge : SourceMerge σ k) (channel : Fin k) :
    (merge.rejoined channel).perSource = merge.combiner.perSource := by
  unfold rejoined
  split
  · simp [MinWatermarkCombiner.markActive]
  · rfl

/-- A turn counts what it pulls for its channel only. -/
theorem Counted.turn {state : SourceState σ} (item : Option BatchItem)
    (pulled : step.pulled = item.map (channel, ·))
    (states : step.merge.states = Function.update merge.states channel state)
    (dataPulled : state.dataPulled =
      (merge.states channel).dataPulled + (records item.toList).length)
    (barriersSeen : state.barriersSeen =
      (merge.states channel).barriersSeen + (barriers item.toList).length)
    (data : records step.emitted = records item.toList)
    (offset : step.merge.mergedOffset = merge.mergedOffset + (records item.toList).length)
    (closed : step.merge.epochClosed = merge.epochClosed + (barriers step.emitted).length)
    (perSource : step.merge.combiner.perSource = MinWatermarkCombiner.raised
      merge.combiner.perSource channel (highestWatermark item.toList)) :
    Counted merge step := by
  have own : pulledFrom step.pulled.toList channel = item.toList := by
    cases item <;> simp [pulled]
  have others (other : Fin k) (different : other ≠ channel) :
      pulledFrom step.pulled.toList other = [] := by
    cases item <;> simp [pulled, pulledFrom_other different]
  constructor
  · rw [data, pulled]
    cases item <;> rfl
  · rw [data, offset]
  · intro other
    by_cases same : other = channel
    · rw [same, states, own, Function.update_self, dataPulled]
    · simp [states, others other same, Function.update_of_ne same]
  · intro other
    by_cases same : other = channel
    · rw [same, states, own, Function.update_self, barriersSeen]
    · simp [states, others other same, Function.update_of_ne same, barriers]
  · exact closed
  · intro other
    by_cases same : other = channel
    · simp [same, own, perSource, MinWatermarkCombiner.raised]
    · simp [others other same, perSource, MinWatermarkCombiner.raised, Function.update_of_ne same,
        highestWatermark, watermarks]

/-- Nothing is raised by an item that is no watermark. -/
theorem raised_bot (perSource : Fin k → Timestamp) (channel : Fin k) :
    MinWatermarkCombiner.raised perSource channel ⊥ = perSource := by
  simp [MinWatermarkCombiner.raised]

/-- Every turn counts exactly what it pulls and appends. -/
theorem turn_counted [Source σ] (taken : Turn merge channel step) : Counted merge step := by
  cases taken with
  | quiet served spent =>
    exact .turn none rfl rfl served.dataPulled served.barriersSeen rfl rfl rfl (raised_bot _ _).symm
  | idled served spent wasActive after =>
    subst after
    refine .turn none rfl (maybeCloseEpoch_states _) served.dataPulled served.barriersSeen
      (by simp) (maybeCloseEpoch_mergedOffset _) (by simp [maybeCloseEpoch_eq]) ?_
    simp [MinWatermarkCombiner.markIdle, raised_bot, highestWatermark, watermarks]
  | ended served ended after =>
    subst after
    refine .turn none rfl (maybeCloseEpoch_states _) served.dataPulled served.barriersSeen
      (by simp) (maybeCloseEpoch_mergedOffset _) (by simp [maybeCloseEpoch_eq]) ?_
    simp [MinWatermarkCombiner.markIdle, raised_bot, highestWatermark, watermarks]
  | record served =>
    refine .turn (some _) rfl rfl ?_ served.barriersSeen rfl rfl rfl ?_
    · exact congrArg (· + 1) served.dataPulled
    · exact (rejoined_perSource merge channel).trans (raised_bot _ _).symm
  | @watermark frontier offset state served =>
    have own : highestWatermark [watermarkItem frontier offset] = frontier := by
      simp [highestWatermark, watermarks]
    refine .turn (some _) rfl rfl served.dataPulled served.barriersSeen ?_ rfl ?_ ?_
    · exact records_announce merge _
    · rw [barriers_announce]
      rfl
    · rw [Option.toList_some, own, MinWatermarkCombiner.observe_eq, recompute_perSource,
        rejoined_perSource]
  | barrier served after =>
    subst after
    refine .turn (some _) rfl (maybeCloseEpoch_states _) served.dataPulled ?_
      (records_maybeCloseEpoch _) (maybeCloseEpoch_mergedOffset _) ?_ ?_
    · exact congrArg (· + 1) served.barriersSeen
    · rw [maybeCloseEpoch_eq]
    · rw [maybeCloseEpoch_combiner]
      exact (rejoined_perSource merge channel).trans (raised_bot _ _).symm

theorem step_counted [Source σ] {now : Nat}
    (stepped : merge.produceOneMergedStep now = .ok step) : Counted merge step := by
  rcases step_cases stepped with ⟨channel, _, _, taken⟩ | ⟨_, rfl⟩
  · exact turn_counted taken
  · constructor <;> simp [barriers, highestWatermark, watermarks]

/-- A step that counts what it adds keeps the accounts. -/
theorem Accounted.extend {trace : Trace σ k} (accounted : Accounted trace)
    (counted : Counted trace.merge step) : Accounted (trace.extend step) := by
  constructor
  · simp [Trace.extend, accounted.data, counted.data]
  · simp [Trace.extend, counted.offset, accounted.offset]
  · intro channel
    simp [Trace.extend, counted.dataPulled, accounted.dataPulled]
  · intro channel
    simp [Trace.extend, counted.barriersSeen, accounted.barriersSeen]
  · simp [Trace.extend, counted.epochClosed, accounted.epochClosed]
  · intro channel
    simp [Trace.extend, counted.perSource, accounted.perSource, highestWatermark_append]

end Accounts

/-- Each channel has delivered its own items in order: what was pulled from it and
what is still ahead of it are, together, what its source delivers. An exhausted
channel is at its end of input. -/
structure Drawn [Source σ] (sources : Fin k → σ) (trace : Trace σ k) : Prop where
  leads : ∀ channel, ∃ calls, ∀ more, Source.itemsWithin (calls + more) (sources channel) =
    pulledFrom trace.pulled channel ++ (trace.merge.states channel).ahead more
  reaches : ∀ channel, Source.Reaches (sources channel) (trace.merge.states channel).source
  ended : ∀ channel, (trace.merge.states channel).exhausted = true →
    (trace.merge.states channel).Ended

section Draws

variable [Source σ] {merge : SourceMerge σ k} {channel : Fin k} {step : StepOutcome σ k}

/-- What a turn does to the reading position of its channel. -/
structure Draws (merge : SourceMerge σ k) (channel : Fin k) (step : StepOutcome σ k) : Prop where
  others : ∀ other, other ≠ channel → step.merge.states other = merge.states other
  tagged : ∀ other, other ≠ channel → pulledFrom step.pulled.toList other = []
  upcoming : step.pulled = (merge.states channel).upcoming.map (fun item => (channel, item))
  leads : ∃ calls, ∀ more, (merge.states channel).ahead (calls + more) =
    (merge.states channel).upcoming.toList ++ (step.merge.states channel).ahead more
  reaches : Source.Reaches (merge.states channel).source (step.merge.states channel).source
  ended : (step.merge.states channel).exhausted = true →
    (merge.states channel).exhausted = false → (step.merge.states channel).Ended

/-- The reading position of the channel is that of the served state. -/
theorem Draws.of_served {state after : SourceState σ} {item : Option BatchItem}
    (served : SourceState.Served (merge.states channel) item state)
    (states : step.merge.states = Function.update merge.states channel after)
    (pulled : step.pulled = item.map (fun item => (channel, item)))
    (source : after.source = state.source) (buf : after.buf = state.buf)
    (cursor : after.cursor = state.cursor)
    (ended : after.exhausted = state.exhausted ∨ after.Ended) : Draws merge channel step := by
  have own : step.merge.states channel = after := by rw [states, Function.update_self]
  have position (more : Nat) : after.ahead more = state.ahead more := by
    rw [SourceState.ahead, SourceState.ahead, source, buf, cursor]
  constructor
  · intro other different
    rw [states, Function.update_of_ne different]
  · intro other different
    rw [pulled]
    cases item with
    | none => rfl
    | some item => exact pulledFrom_other different item
  · rw [pulled, served.upcoming]
  · obtain ⟨calls, leads⟩ := served.leads
    refine ⟨calls, ?_⟩
    intro more
    rw [own, position, served.upcoming]
    exact leads more
  · rw [own, source]
    exact served.reaches
  · intro now before
    rw [own] at now ⊢
    rcases ended with same | atEnd
    · rw [same, served.exhausted, before] at now
      simp at now
    · exact atEnd

/-- Every turn draws the next item of its channel and of no other. -/
theorem turn_draws (taken : Turn merge channel step) : Draws merge channel step := by
  cases taken with
  | quiet served spent => exact .of_served served rfl rfl rfl rfl rfl (Or.inl rfl)
  | idled served spent wasActive after =>
    subst after
    exact .of_served served (maybeCloseEpoch_states _) rfl rfl rfl rfl (Or.inl rfl)
  | ended served ended after =>
    subst after
    exact .of_served served (maybeCloseEpoch_states _) rfl rfl rfl rfl (Or.inr ended)
  | record served => exact .of_served served rfl rfl rfl rfl rfl (Or.inl rfl)
  | watermark served => exact .of_served served rfl rfl rfl rfl rfl (Or.inl rfl)
  | barrier served after =>
    subst after
    exact .of_served served (maybeCloseEpoch_states _) rfl rfl rfl rfl (Or.inl rfl)

/-- A turn of a channel that is not exhausted keeps the trajectories. -/
theorem Drawn.extend {sources : Fin k → σ} {trace : Trace σ k} (drawn : Drawn sources trace)
    (live : (trace.merge.states channel).exhausted = false)
    (draws : Draws trace.merge channel step) : Drawn sources (trace.extend step) := by
  have still (other : Fin k) (different : other ≠ channel) :
      (trace.extend step).merge.states other = trace.merge.states other :=
    draws.others other different
  constructor
  · intro other
    obtain ⟨calls, leads⟩ := drawn.leads other
    by_cases own : other = channel
    · subst own
      obtain ⟨further, later⟩ := draws.leads
      have logged : pulledFrom step.pulled.toList other =
          (trace.merge.states other).upcoming.toList := by
        rw [draws.upcoming]
        cases (trace.merge.states other).upcoming with
        | none => rfl
        | some item => exact pulledFrom_own other item
      refine ⟨calls + further, ?_⟩
      intro more
      rw [Nat.add_assoc, leads, later]
      simp [Trace.extend, logged]
    · refine ⟨calls, ?_⟩
      intro more
      rw [still other own, leads]
      simp [Trace.extend, draws.tagged other own]
  · intro other
    by_cases own : other = channel
    · subst own
      exact (drawn.reaches other).trans draws.reaches
    · rw [still other own]
      exact drawn.reaches other
  · intro other exhausted
    by_cases own : other = channel
    · subst own
      exact draws.ended exhausted live
    · rw [still other own] at exhausted ⊢
      exact drawn.ended other exhausted

theorem step_drawn {sources : Fin k → σ} {trace : Trace σ k} {now : Nat}
    (drawn : Drawn sources trace)
    (stepped : trace.merge.produceOneMergedStep now = .ok step) :
    Drawn sources (trace.extend step) := by
  rcases step_cases stepped with ⟨channel, picked, _, taken⟩ | ⟨_, rfl⟩
  · exact drawn.extend (pickChannel_free picked).1 (turn_draws taken)
  · refine ⟨?_, drawn.reaches, drawn.ended⟩
    simpa [Trace.extend] using drawn.leads

end Draws

section Reachable

variable {inputs : Fin k → σ × List IdleSpan} {config : SourceMergeConfig} {now : Nat}
  {start : SourceMerge σ k}

/-- What holds at every point of every run of a constructed merge. -/
structure Reached [Source σ] (sources : Fin k → σ) (trace : Trace σ k) : Prop where
  accounted : Accounted trace
  aligned : Aligned trace.merge
  drawn : Drawn sources trace

theorem Reached.extend [Source σ] {sources : Fin k → σ} {trace : Trace σ k} {reading : Nat}
    {step : StepOutcome σ k} (reached : Reached sources trace)
    (stepped : trace.merge.produceOneMergedStep reading = .ok step) :
    Reached sources (trace.extend step) :=
  ⟨reached.accounted.extend (step_counted stepped), step_aligned reached.aligned stepped,
    step_drawn reached.drawn stepped⟩

/-- A constructed merge has pulled and appended nothing. -/
theorem construct_reached [Source σ] (constructed : construct inputs config now = .ok start) :
    Reached (fun channel => (inputs channel).1) (Trace.initial start) := by
  refine ⟨?_, construct_aligned constructed, ?_⟩
  · obtain rfl := construct_eq constructed
    constructor <;> simp [Trace.initial, SourceState.fresh, MinWatermarkCombiner.initial,
      barriers, highestWatermark, watermarks]
  · obtain rfl := construct_eq constructed
    constructor
    · intro channel
      exact ⟨0, fun more => by simp [Trace.initial, SourceState.fresh, SourceState.ahead]⟩
    · intro channel
      exact .refl
    · intro channel exhausted
      simp [Trace.initial, SourceState.fresh] at exhausted

theorem run_reached [Source σ] (constructed : construct inputs config now = .ok start)
    {readings : List Nat} {trace : Trace σ k} (ran : run start readings = .ok trace) :
    Reached (fun channel => (inputs channel).1) trace := by
  refine run_induction (Reached _) (construct_reached constructed) ?_ ran
  intro before reading step reached stepped
  exact reached.extend stepped

end Reachable

end SourceMerge

end Stormglass
