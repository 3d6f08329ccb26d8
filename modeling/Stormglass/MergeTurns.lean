import Stormglass.SourceMerge

/-!
# Turns of a merge

`Turn` says once what a step can do to a merge: tick or poll quietly, drop the
channel as idle or as ended, or deliver a record, a watermark or a barrier. Each
invariant of a merge is then a case analysis over a turn, never an unfolding of
the step function.

`Aligned` is the invariant of the barrier alignment. Its last clause is what makes
the alignment free of deadlock.
-/

namespace Stormglass

namespace SourceState

variable {σ : Type} [Source σ] {state after : SourceState σ} {config : SourceMergeConfig}

/-- The items that a channel still delivers, within a number of further calls of
its source: the rest of its buffer and then the source's items. -/
def ahead (state : SourceState σ) (calls : Nat) : Batch :=
  state.buf.drop state.cursor ++ Source.itemsWithin calls state.source

/-- The first item ahead, before any gap is considered. -/
def front (state : SourceState σ) : Option BatchItem :=
  if state.buf.length ≤ state.cursor then
    (Source.next state.source).bind (fun handed => handed.1.head?)
  else state.buf[state.cursor]?

/-- The item that the channel's turn pulls: nothing in a gap, at the end of input
or while a live input is quiet. -/
def upcoming (state : SourceState σ) : Option BatchItem :=
  if 0 < state.openGap.gapRemaining then none else state.front

/-- The idle ticks that a channel can still take. -/
def ticks (state : SourceState σ) : Nat :=
  state.gapRemaining + ((state.idleSpans.drop state.nextSpan).map IdleSpan.length).sum

/-- How a turn moves its channel: the bookkeeping of the merge is untouched, the
pulled item is the next one ahead, and the source only moves forward. -/
structure Served (before : SourceState σ) (item : Option BatchItem) (after : SourceState σ) :
    Prop where
  idle : after.idle = before.idle
  exhausted : after.exhausted = before.exhausted
  barriersSeen : after.barriersSeen = before.barriersSeen
  dataPulled : after.dataPulled = before.dataPulled
  upcoming : before.upcoming = item
  leads : ∃ calls, ∀ more, before.ahead (calls + more) = item.toList ++ after.ahead more
  reaches : Source.Reaches before.source after.source
  ticks : after.ticks ≤ before.ticks

/-- A channel at its end of input. -/
def Ended (state : SourceState σ) : Prop :=
  state.buf.length ≤ state.cursor ∧ Source.next state.source = none

omit [Source σ] in
/-- Opening a gap touches only the gap: the ticks it adds are those of the span it
consumes. -/
theorem openGap_eq (state : SourceState σ) :
    ∃ gap span, state.openGap = { state with gapRemaining := gap, nextSpan := span } ∧
      gap + ((state.idleSpans.drop span).map IdleSpan.length).sum = state.ticks := by
  unfold openGap
  split
  · next span found =>
    split
    · next opens =>
      refine ⟨span.length, state.nextSpan + 1, rfl, ?_⟩
      obtain ⟨inside, rfl⟩ := List.getElem?_eq_some_iff.mp found
      rw [ticks, List.drop_eq_getElem_cons inside, opens.1]
      simp only [List.map_cons, List.sum_cons, Nat.zero_add]
    · exact ⟨_, _, rfl, rfl⟩
  · exact ⟨_, _, rfl, rfl⟩

/-- A turn that neither pulls an item nor moves the source. -/
theorem Served.quiet {before after : SourceState σ} (idle : after.idle = before.idle)
    (exhausted : after.exhausted = before.exhausted)
    (barriersSeen : after.barriersSeen = before.barriersSeen)
    (dataPulled : after.dataPulled = before.dataPulled)
    (upcoming : before.upcoming = none) (buf : after.buf = before.buf)
    (cursor : after.cursor = before.cursor) (source : after.source = before.source)
    (ticks : after.ticks ≤ before.ticks) : Served before none after := by
  refine ⟨idle, exhausted, barriersSeen, dataPulled, upcoming, ⟨0, ?_⟩, ?_, ticks⟩
  · intro more
    simp [ahead, buf, cursor, source]
  · rw [source]
    exact .refl

omit [Source σ] in
/-- Taking from a buffer that holds an item moves the cursor past it. -/
theorem takeBuffered_inside (config : SourceMergeConfig) (now : Nat) (state : SourceState σ)
    (inside : state.cursor < state.buf.length) :
    ∃ clock, state.takeBuffered config now =
      (.item state.buf[state.cursor],
        { state with cursor := state.cursor + 1, lastItem := clock }) := by
  unfold takeBuffered
  rw [List.getElem?_eq_getElem inside]
  exact ⟨_, rfl⟩

/-- A pull takes the first item ahead, or finds a quiet live input, or finds the
end of input. -/
theorem pullNextItem_cases {now : Nat} {pull : PullResult}
    (pulled : state.pullNextItem config now = .ok (pull, after)) :
    (∃ item source buf cursor clock, pull = .item item ∧ state.front = some item ∧
      after = { state with source := source, buf := buf, cursor := cursor, lastItem := clock } ∧
      (∃ calls, ∀ more, state.ahead (calls + more) = item :: after.ahead more) ∧
      Source.Reaches state.source source) ∨
    (∃ rest, pull = .noData ∧ config.liveInputs = true ∧ state.buf.length ≤ state.cursor ∧
      Source.next state.source = some ([], rest) ∧ after = { state with source := rest }) ∨
    (pull = .exhausted ∧ state.Ended ∧ after = { state with exhausted := true }) := by
  unfold pullNextItem at pulled
  split at pulled
  · next empty =>
    have drained : state.buf.drop state.cursor = [] := List.drop_eq_nil_of_le empty
    split at pulled
    · next observed =>
      obtain ⟨rfl, rfl⟩ := Prod.mk.inj (Except.ok.inj pulled)
      exact Or.inr (Or.inr ⟨rfl, ⟨empty, observed⟩, rfl⟩)
    · next rest observed =>
      split at pulled
      · next live =>
        obtain ⟨rfl, rfl⟩ := Prod.mk.inj (Except.ok.inj pulled)
        exact Or.inr (Or.inl ⟨rest, rfl, live, empty, observed, rfl⟩)
      · simp at pulled
    · next batch rest nonempty observed =>
      cases batch with
      | nil => exact (nonempty rfl).elim
      | cons item batch =>
        obtain ⟨clock, taken⟩ := takeBuffered_inside config now
          { state with source := rest, buf := item :: batch, cursor := 0 } (Nat.succ_pos _)
        rw [taken] at pulled
        obtain ⟨rfl, rfl⟩ := Prod.mk.inj (Except.ok.inj pulled)
        refine Or.inl ⟨item, rest, item :: batch, 1, clock, rfl, ?_, rfl, ⟨1, ?_⟩, ?_⟩
        · simp [front, empty, observed]
        · intro more
          rw [Nat.add_comm]
          simp [ahead, drained, Source.itemsWithin, observed]
        · exact Relation.ReflTransGen.single ⟨_, observed⟩
  · next inside =>
    have inside : state.cursor < state.buf.length := not_le.mp inside
    obtain ⟨clock, taken⟩ := takeBuffered_inside config now state inside
    rw [taken] at pulled
    obtain ⟨rfl, rfl⟩ := Prod.mk.inj (Except.ok.inj pulled)
    refine Or.inl ⟨_, state.source, state.buf, state.cursor + 1, clock, rfl, ?_, rfl,
      ⟨0, ?_⟩, .refl⟩
    · simp [front, not_le.mpr inside, inside]
    · intro more
      rw [Nat.zero_add, ahead, List.drop_eq_getElem_cons inside]
      rfl

/-- A turn inside a gap takes one idle tick. -/
theorem served_tick (state : SourceState σ) (gap : 0 < state.openGap.gapRemaining) :
    Served state none
        { state.openGap with
          gapRemaining := state.openGap.gapRemaining - 1
          consecutiveEmpty := state.openGap.consecutiveEmpty + 1 } ∧
      ticks { state.openGap with
        gapRemaining := state.openGap.gapRemaining - 1
        consecutiveEmpty := state.openGap.consecutiveEmpty + 1 } < state.ticks := by
  have quiet : state.upcoming = none := by simp [upcoming, gap]
  obtain ⟨remaining, span, opened, total⟩ := openGap_eq state
  rw [opened] at gap ⊢
  have fewer : remaining - 1 + ((state.idleSpans.drop span).map IdleSpan.length).sum <
      state.ticks := by
    simp only at gap
    omega
  exact ⟨.quiet rfl rfl rfl rfl quiet rfl rfl rfl (le_of_lt fewer), fewer⟩

/-- A turn that pulls an item. -/
theorem served_item {now : Nat} {item : BatchItem} (noGap : ¬ 0 < state.openGap.gapRemaining)
    (pulled : state.openGap.pullNextItem config now = .ok (.item item, after)) :
    Served state (some item) after := by
  have first : state.upcoming = state.front := if_neg noGap
  obtain ⟨remaining, span, opened, total⟩ := openGap_eq state
  rw [opened] at pulled
  rcases pullNextItem_cases pulled with ⟨_, source, buf, cursor, clock, same, found, rfl,
    leads, reaches⟩ | ⟨_, impossible, _⟩ | ⟨impossible, _⟩
  · obtain rfl := PullResult.item.inj same
    exact ⟨rfl, rfl, rfl, rfl, first.trans found, leads, reaches, total.le⟩
  · simp at impossible
  · simp at impossible

/-- A turn that finds a live input quiet. -/
theorem served_noData {now : Nat} (noGap : ¬ 0 < state.openGap.gapRemaining)
    (pulled : state.openGap.pullNextItem config now = .ok (.noData, after)) :
    Served state none after ∧ config.liveInputs = true := by
  have first : state.upcoming = state.front := if_neg noGap
  obtain ⟨remaining, span, opened, total⟩ := openGap_eq state
  rw [opened] at pulled
  rcases pullNextItem_cases pulled with ⟨_, _, _, _, _, impossible, _⟩ |
    ⟨rest, _, live, empty, observed, rfl⟩ | ⟨impossible, _⟩
  · simp at impossible
  · have drained : state.buf.drop state.cursor = [] := List.drop_eq_nil_of_le empty
    refine ⟨⟨rfl, rfl, rfl, rfl, ?_, ⟨1, ?_⟩, .single ⟨[], observed⟩, total.le⟩, live⟩
    · rw [first, front, if_pos empty]
      exact congrArg (Option.bind · _) observed
    · intro more
      rw [Nat.add_comm, ahead, drained]
      have called : Source.next state.source = some ([], rest) := observed
      simp [ahead, drained, Source.itemsWithin, called]
  · simp at impossible

/-- A turn that finds the end of input. -/
theorem served_ended {now : Nat} (noGap : ¬ 0 < state.openGap.gapRemaining)
    (pulled : state.openGap.pullNextItem config now = .ok (.exhausted, after)) :
    Served state none state.openGap ∧ state.openGap.Ended ∧
      after = { state.openGap with exhausted := true } := by
  have first : state.upcoming = state.front := if_neg noGap
  obtain ⟨remaining, span, opened, total⟩ := openGap_eq state
  rw [opened] at pulled ⊢
  rcases pullNextItem_cases pulled with ⟨_, _, _, _, _, impossible, _⟩ |
    ⟨_, impossible, _⟩ | ⟨_, ⟨empty, observed⟩, rfl⟩
  · simp at impossible
  · simp at impossible
  · refine ⟨.quiet rfl rfl rfl rfl ?_ rfl rfl rfl total.le, ⟨empty, observed⟩, rfl⟩
    rw [first, front, if_pos empty]
    exact congrArg (Option.bind · _) observed

end SourceState

namespace SourceMerge

variable {σ : Type} {k : Nat}

/-- The combiner after a channel that produced an item has rejoined. -/
def rejoined (merge : SourceMerge σ k) (channel : Fin k) : MinWatermarkCombiner k :=
  if (merge.states channel).idle = true then (merge.combiner.markActive channel).2
  else merge.combiner

/-- Everything that one turn of a channel can do to the merge and to the merged
stream. A turn that closes an alignment appends the released watermark first and
the aligned barrier last. -/
inductive Turn [Source σ] (merge : SourceMerge σ k) (channel : Fin k) : StepOutcome σ k → Prop where
  | quiet {result : StepResult} {state : SourceState σ}
      (served : SourceState.Served (merge.states channel) none state)
      (spent : (result = .produced ∧ state.ticks < (merge.states channel).ticks) ∨
        (result = .noData ∧ merge.config.liveInputs = true)) :
      Turn merge channel
        { result := result, pulled := none, emitted := [], data := 0
          merge := { merge with
            states := Function.update merge.states channel state
            rr := (channel.val + 1) % k } }
  | idled {result : StepResult} {state : SourceState σ} {excluded : SourceMerge σ k}
      (served : SourceState.Served (merge.states channel) none state)
      (spent : (result = .produced ∧ state.ticks < (merge.states channel).ticks) ∨
        (result = .noData ∧ merge.config.liveInputs = true))
      (wasActive : (merge.states channel).idle = false)
      (after : excluded = { merge with
        states := Function.update merge.states channel { state with idle := true }
        rr := (channel.val + 1) % k
        combiner := (merge.combiner.markIdle channel).2 }) :
      Turn merge channel
        { result := result, pulled := none
          emitted := merge.announce (merge.combiner.markIdle channel).1 ++
            excluded.maybeCloseEpoch.1
          data := 0, merge := excluded.maybeCloseEpoch.2 }
  | ended {state : SourceState σ} {excluded : SourceMerge σ k}
      (served : SourceState.Served (merge.states channel) none state)
      (ended : state.Ended)
      (after : excluded = { merge with
        states := Function.update merge.states channel { state with exhausted := true }
        combiner := (merge.combiner.markIdle channel).2 }) :
      Turn merge channel
        { result := .produced, pulled := none
          emitted := merge.announce (merge.combiner.markIdle channel).1 ++
            excluded.maybeCloseEpoch.1
          data := 0, merge := excluded.maybeCloseEpoch.2 }
  | record {data : Record} {state : SourceState σ}
      (served : SourceState.Served (merge.states channel) (some (.record data)) state) :
      Turn merge channel
        { result := .produced, pulled := some (channel, .record data)
          emitted := [.record data], data := 1
          merge := { merge with
            states := Function.update merge.states channel { state with
              idle := false, consecutiveEmpty := 0, dataPulled := state.dataPulled + 1 }
            rr := (channel.val + 1) % k
            combiner := merge.rejoined channel
            mergedOffset := merge.mergedOffset + 1 } }
  | watermark {frontier : Timestamp} {offset : Nat} {state : SourceState σ}
      (served : SourceState.Served (merge.states channel)
        (some (watermarkItem frontier offset)) state) :
      Turn merge channel
        { result := .produced, pulled := some (channel, watermarkItem frontier offset)
          emitted := merge.announce ((merge.rejoined channel).observe channel frontier).1
          data := 0
          merge := { merge with
            states := Function.update merge.states channel { state with
              idle := false, consecutiveEmpty := 0 }
            rr := (channel.val + 1) % k
            combiner := ((merge.rejoined channel).observe channel frontier).2 } }
  | barrier {stamp : Timestamp} {offset : Nat} {state : SourceState σ}
      {counted : SourceMerge σ k}
      (served : SourceState.Served (merge.states channel) (some (.control
        { type := .checkpointBarrier, watermark := stamp, checkpointOffset := offset })) state)
      (after : counted = { merge with
        states := Function.update merge.states channel { state with
          idle := false, consecutiveEmpty := 0, barriersSeen := state.barriersSeen + 1 }
        rr := (channel.val + 1) % k
        combiner := merge.rejoined channel }) :
      Turn merge channel
        { result := .produced
          pulled := some (channel, .control
            { type := .checkpointBarrier, watermark := stamp, checkpointOffset := offset })
          emitted := counted.maybeCloseEpoch.1, data := 0
          merge := counted.maybeCloseEpoch.2 }

/-- Rejoining clears the flag whether or not it was set. -/
theorem resume_eq (merge : SourceMerge σ k) (channel : Fin k) :
    merge.resume channel =
      { merge with
        states := Function.update merge.states channel
          { merge.states channel with idle := false }
        combiner := merge.rejoined channel } := by
  unfold resume rejoined
  by_cases quiet : (merge.states channel).idle = true
  · rw [if_pos quiet, if_pos quiet]
    rfl
  · have same : { merge.states channel with idle := false } = merge.states channel := by
      have flag : (merge.states channel).idle = false := by simpa using quiet
      rw [← flag]
    rw [if_neg quiet, if_neg quiet, same, Function.update_eq_self]

/-- Every successful turn is one of the described ones. -/
theorem serve_turn [Source σ] {merge : SourceMerge σ k} {now : Nat} {channel : Fin k}
    {step : StepOutcome σ k} (served : merge.serve now channel = .ok step) :
    Turn merge channel step := by
  unfold serve at served
  dsimp only at served
  split at served
  · next gap =>
    obtain ⟨ticked, spent⟩ := SourceState.served_tick (merge.states channel) gap
    obtain rfl := Except.ok.inj served
    unfold tick
    dsimp only
    split
    · next idles =>
      simp only [markChannelIdle, setState, Function.update_self, Function.update_idem,
        excludeChannel]
      exact .idled ticked (Or.inl ⟨rfl, spent⟩) (ticked.idle ▸ idles.2.1) rfl
    · exact .quiet ticked (Or.inl ⟨rfl, spent⟩)
  · next noGap =>
    split at served
    · simp at served
    · next state pulled =>
      obtain ⟨polled, live⟩ := SourceState.served_noData noGap pulled
      split at served
      · next idles =>
        obtain rfl := Except.ok.inj served
        simp only [markChannelIdle, setState, Function.update_self, Function.update_idem,
          excludeChannel]
        exact .idled polled (Or.inr ⟨rfl, live⟩) (polled.idle ▸ idles.2.1) rfl
      · obtain rfl := Except.ok.inj served
        exact .quiet polled (Or.inr ⟨rfl, live⟩)
    · next state pulled =>
      obtain rfl := Except.ok.inj served
      obtain ⟨last, ended, rfl⟩ := SourceState.served_ended noGap pulled
      simp only [setState, excludeChannel]
      exact .ended last ended rfl
    · next item state pulled =>
      have taken := SourceState.served_item noGap pulled
      obtain rfl := Except.ok.inj served
      have rejoins : rejoined { merge.setState channel state with rr := (channel.val + 1) % k }
          channel = merge.rejoined channel := by
        simp [rejoined, setState, taken.idle]
      rw [resume_eq, rejoins]
      simp only [setState, Function.update_self, Function.update_idem]
      unfold deliver
      split
      · simp only [setState, Function.update_self, Function.update_idem]
        exact .record taken
      · exact .watermark taken
      · simp only [setState, Function.update_self, Function.update_idem]
        exact .barrier taken rfl

/-- Closing an epoch either finds an active channel that has not aligned, or
finds no active channel, or appends the aligned barrier. -/
theorem maybeCloseEpoch_cases (merge : SourceMerge σ k) :
    (merge.maybeCloseEpoch = ([], merge) ∧
      ∃ channel, merge.Active channel ∧
        (merge.states channel).barriersSeen ≤ merge.epochClosed) ∨
    (merge.maybeCloseEpoch = ([], merge) ∧ ¬ ∃ channel, merge.Active channel) ∨
    (merge.maybeCloseEpoch = ([barrierItem merge.mergedOffset],
        { merge with epochClosed := merge.epochClosed + 1 }) ∧
      (∃ channel, merge.Active channel) ∧
      ∀ channel, merge.Active channel →
        merge.epochClosed + 1 ≤ (merge.states channel).barriersSeen) := by
  unfold maybeCloseEpoch
  by_cases behind : ∃ channel, merge.Active channel ∧
      (merge.states channel).barriersSeen < merge.epochClosed + 1
  · obtain ⟨channel, active, late⟩ := behind
    rw [if_pos ⟨channel, active, late⟩]
    exact Or.inl ⟨rfl, channel, active, by omega⟩
  · rw [if_neg behind]
    by_cases someActive : ∃ channel, merge.Active channel
    · rw [if_pos someActive]
      refine Or.inr (Or.inr ⟨rfl, someActive, ?_⟩)
      intro channel active
      by_contra late
      exact behind ⟨channel, active, by omega⟩
    · rw [if_neg someActive]
      exact Or.inr (Or.inl ⟨rfl, someActive⟩)

section Closing

variable (merge : SourceMerge σ k)

/-- Closing an epoch touches only the number of closed epochs, which counts the
barrier it appends. -/
theorem maybeCloseEpoch_eq :
    merge.maybeCloseEpoch.2 = { merge with
      epochClosed := merge.epochClosed + (barriers merge.maybeCloseEpoch.1).length } := by
  rcases maybeCloseEpoch_cases merge with ⟨same, _⟩ | ⟨same, _⟩ | ⟨same, _⟩ <;> rw [same] <;> rfl

@[simp] theorem maybeCloseEpoch_states :
    merge.maybeCloseEpoch.2.states = merge.states := by
  rw [maybeCloseEpoch_eq]

@[simp] theorem maybeCloseEpoch_combiner :
    merge.maybeCloseEpoch.2.combiner = merge.combiner := by
  rw [maybeCloseEpoch_eq]

@[simp] theorem maybeCloseEpoch_mergedOffset :
    merge.maybeCloseEpoch.2.mergedOffset = merge.mergedOffset := by
  rw [maybeCloseEpoch_eq]

@[simp] theorem maybeCloseEpoch_config :
    merge.maybeCloseEpoch.2.config = merge.config := by
  rw [maybeCloseEpoch_eq]

@[simp] theorem records_maybeCloseEpoch : records merge.maybeCloseEpoch.1 = [] := by
  rcases maybeCloseEpoch_cases merge with ⟨same, _⟩ | ⟨same, _⟩ | ⟨same, _⟩ <;> rw [same] <;> rfl

@[simp] theorem watermarks_maybeCloseEpoch : watermarks merge.maybeCloseEpoch.1 = [] := by
  rcases maybeCloseEpoch_cases merge with ⟨same, _⟩ | ⟨same, _⟩ | ⟨same, _⟩ <;> rw [same] <;> rfl

@[simp] theorem records_announce (report : Option Timestamp) :
    records (merge.announce report) = [] := by
  cases report <;> rfl

@[simp] theorem barriers_announce (report : Option Timestamp) :
    barriers (merge.announce report) = [] := by
  cases report <;> rfl

@[simp] theorem watermarks_announce (report : Option Timestamp) :
    watermarks (merge.announce report) = report.toList := by
  cases report <;> rfl

end Closing

/-- The combiner's active set is exactly the set of channels that are neither
idle nor exhausted; no channel is more than one barrier ahead of the closed
epochs; and a channel outside the alignment set is not ahead. -/
structure Level (merge : SourceMerge σ k) : Prop where
  activity : ∀ channel, merge.combiner.active channel = true ↔ merge.Active channel
  bounded : ∀ channel, (merge.states channel).barriersSeen ≤ merge.epochClosed + 1
  parked : ∀ channel, ¬ merge.Active channel →
    (merge.states channel).barriersSeen ≤ merge.epochClosed

/-- Between steps, moreover, some active channel has not aligned whenever there
is an active channel. This is why a blocked channel always has a peer that can
still move. -/
structure Aligned (merge : SourceMerge σ k) : Prop extends Level merge where
  unclosed : (∃ channel, merge.Active channel) →
    ∃ channel, merge.Active channel ∧ (merge.states channel).barriersSeen ≤ merge.epochClosed

/-- Closing an epoch re-establishes the last clause: either nothing was closed
for the stated reason, or every channel of the alignment set is now level. -/
theorem maybeCloseEpoch_aligned {merge : SourceMerge σ k} (level : Level merge) :
    Aligned merge.maybeCloseEpoch.2 := by
  rcases maybeCloseEpoch_cases merge with ⟨same, behind⟩ | ⟨same, none⟩ | ⟨same, some, _⟩
  · rw [same]
    exact ⟨level, fun _ => behind⟩
  · rw [same]
    exact ⟨level, fun present => absurd present none⟩
  · rw [same]
    refine ⟨⟨level.activity, ?_, ?_⟩, ?_⟩
    · intro channel
      exact Nat.le_succ_of_le (level.bounded channel)
    · intro channel excluded
      exact Nat.le_succ_of_le (level.parked channel excluded)
    · intro _
      obtain ⟨channel, active⟩ := some
      exact ⟨channel, active, level.bounded channel⟩

section Preservation

variable {merge : SourceMerge σ k} {channel : Fin k}

@[simp] theorem recompute_active (combiner : MinWatermarkCombiner k) :
    combiner.recompute.2.active = combiner.active := by
  rw [MinWatermarkCombiner.recompute_eq]

@[simp] theorem recompute_perSource (combiner : MinWatermarkCombiner k) :
    combiner.recompute.2.perSource = combiner.perSource := by
  rw [MinWatermarkCombiner.recompute_eq]

/-- Rejoining makes the channel active and leaves the others alone. -/
theorem rejoined_active (aligned : Aligned merge)
    (live : (merge.states channel).exhausted = false) :
    (merge.rejoined channel).active = Function.update merge.combiner.active channel true := by
  unfold rejoined
  split
  · simp [MinWatermarkCombiner.markActive]
  · next awake =>
    have active : merge.combiner.active channel = true :=
      (aligned.activity channel).mpr ⟨by simpa using awake, live⟩
    rw [← active, Function.update_eq_self]

/-- A turn changes one channel. Its flags and its barrier count decide whether
the merge stays level. -/
theorem Level.changed {after : SourceMerge σ k} (level : Level merge) (channel : Fin k)
    (joins : Bool) (others : ∀ other, other ≠ channel → after.states other = merge.states other)
    (closed : after.epochClosed = merge.epochClosed)
    (active : after.combiner.active = Function.update merge.combiner.active channel joins)
    (flags : after.Active channel ↔ joins = true)
    (bounded : (after.states channel).barriersSeen ≤ merge.epochClosed + 1)
    (parked : joins = false → (after.states channel).barriersSeen ≤ merge.epochClosed) :
    Level after := by
  have same (other : Fin k) (different : other ≠ channel) :
      after.Active other ↔ merge.Active other := by
    simp only [Active, others other different]
  constructor
  · intro other
    by_cases own : other = channel
    · subst own
      simp [active, flags]
    · rw [active, Function.update_of_ne own, same other own]
      exact level.activity other
  · intro other
    rw [closed]
    by_cases own : other = channel
    · subst own
      exact bounded
    · rw [others other own]
      exact level.bounded other
  · intro other inactive
    rw [closed]
    by_cases own : other = channel
    · subst own
      exact parked (by simpa [flags] using inactive)
    · rw [others other own]
      exact level.parked other (fun present => inactive ((same other own).mpr present))

/-- An active channel that has not aligned is the witness of the last clause. -/
theorem Level.aligned (level : Level merge) (channel : Fin k) (active : merge.Active channel)
    (free : (merge.states channel).barriersSeen ≤ merge.epochClosed) : Aligned merge :=
  ⟨level, fun _ => ⟨channel, active, free⟩⟩

/-- A quiet turn keeps the flags and the counts that alignment reads. -/
theorem Aligned.quiet {state : SourceState σ} {rotation : Nat} (aligned : Aligned merge)
    (idle : state.idle = (merge.states channel).idle)
    (exhausted : state.exhausted = (merge.states channel).exhausted)
    (barriersSeen : state.barriersSeen = (merge.states channel).barriersSeen) :
    Aligned { merge with
      states := Function.update merge.states channel state, rr := rotation } := by
  have others (other : Fin k) (different : other ≠ channel) :
      Function.update merge.states channel state other = merge.states other :=
    Function.update_of_ne different _ _
  have same (other : Fin k) : Active { merge with
      states := Function.update merge.states channel state, rr := rotation } other ↔
      merge.Active other := by
    by_cases own : other = channel
    · subst own
      simp [Active, idle, exhausted]
    · simp [Active, others other own]
  have counts (other : Fin k) : (Function.update merge.states channel state other).barriersSeen =
      (merge.states other).barriersSeen := by
    by_cases own : other = channel
    · subst own
      simp [barriersSeen]
    · rw [others other own]
  refine ⟨⟨?_, ?_, ?_⟩, ?_⟩
  · intro other
    rw [same]
    exact aligned.activity other
  · intro other
    exact (counts other).trans_le (aligned.bounded other)
  · intro other inactive
    exact (counts other).trans_le
      (aligned.parked other (fun active => inactive ((same other).mpr active)))
  · rintro ⟨present, active⟩
    obtain ⟨other, otherActive, free⟩ := aligned.unclosed ⟨present, (same present).mp active⟩
    exact ⟨other, (same other).mpr otherActive, (counts other).trans_le free⟩

/-- A turn of a channel that is neither exhausted nor blocked keeps the merge
aligned. -/
theorem turn_aligned [Source σ] {step : StepOutcome σ k} (aligned : Aligned merge)
    (live : (merge.states channel).exhausted = false)
    (free : (merge.states channel).barriersSeen ≤ merge.epochClosed)
    (taken : Turn merge channel step) : Aligned step.merge := by
  have rejoins := rejoined_active aligned live
  have others (state : SourceState σ) (other : Fin k) (different : other ≠ channel) :
      Function.update merge.states channel state other = merge.states other :=
    Function.update_of_ne different _ _
  cases taken with
  | quiet served spent =>
    exact aligned.quiet served.idle served.exhausted served.barriersSeen
  | idled served spent wasActive after =>
    subst after
    have count := served.barriersSeen
    apply maybeCloseEpoch_aligned
    refine aligned.toLevel.changed channel false (others _) rfl ?_ ?_ ?_ ?_
    · simp [MinWatermarkCombiner.markIdle]
    · simp [Active]
    · simp only [Function.update_self]
      omega
    · intro _
      simp only [Function.update_self]
      omega
  | ended served ended after =>
    subst after
    have count := served.barriersSeen
    apply maybeCloseEpoch_aligned
    refine aligned.toLevel.changed channel false (others _) rfl ?_ ?_ ?_ ?_
    · simp [MinWatermarkCombiner.markIdle]
    · simp [Active]
    · simp only [Function.update_self]
      omega
    · intro _
      simp only [Function.update_self]
      omega
  | record served =>
    have count := served.barriersSeen
    refine Level.aligned (aligned.toLevel.changed channel true (others _) rfl rejoins
      ?_ ?_ (by simp)) channel ?_ ?_
    · simp [Active, served.exhausted, live]
    · simp only [Function.update_self]
      omega
    · simp [Active, served.exhausted, live]
    · simp only [Function.update_self]
      omega
  | watermark served =>
    have count := served.barriersSeen
    refine Level.aligned (aligned.toLevel.changed channel true (others _) rfl
      ?_ ?_ ?_ (by simp)) channel ?_ ?_
    · simp [MinWatermarkCombiner.observe, rejoins, Function.update_idem]
    · simp [Active, served.exhausted, live]
    · simp only [Function.update_self]
      omega
    · simp [Active, served.exhausted, live]
    · simp only [Function.update_self]
      omega
  | barrier served after =>
    subst after
    have count := served.barriersSeen
    apply maybeCloseEpoch_aligned
    refine aligned.toLevel.changed channel true (others _) rfl rejoins ?_ ?_ (by simp)
    · simp [Active, served.exhausted, live]
    · simp only [Function.update_self]
      omega

end Preservation

/-- A merge that the constructor accepts starts with fresh channels. -/
theorem construct_eq {inputs : Fin k → σ × List IdleSpan} {config : SourceMergeConfig}
    {now : Nat} {start : SourceMerge σ k} (constructed : construct inputs config now = .ok start) :
    start =
      { config := config
        states := fun channel => .fresh (inputs channel).1 (inputs channel).2 now
        combiner := .initial k
        rr := 0
        mergedOffset := 0
        epochClosed := 0 } := by
  unfold construct at constructed
  split at constructed
  · simp at constructed
  split at constructed
  · simp at constructed
  split at constructed
  · simp at constructed
  exact (Except.ok.inj constructed).symm

/-- A merge without progress is aligned: every channel is active and no barrier has
been seen. -/
theorem fresh_aligned (config : SourceMergeConfig) (inputs : Fin k → σ × List IdleSpan)
    (now : Nat) :
    Aligned
      { config := config
        states := fun channel => .fresh (inputs channel).1 (inputs channel).2 now
        combiner := .initial k
        rr := 0
        mergedOffset := 0
        epochClosed := 0 } := by
  refine ⟨⟨?_, ?_, ?_⟩, ?_⟩
  · intro channel
    simp [MinWatermarkCombiner.initial, Active, SourceState.fresh]
  · intro channel
    exact Nat.zero_le _
  · intro channel _
    exact Nat.le_refl _
  · rintro ⟨channel, active⟩
    exact ⟨channel, active, Nat.le_refl _⟩

theorem construct_aligned {inputs : Fin k → σ × List IdleSpan} {config : SourceMergeConfig}
    {now : Nat} {start : SourceMerge σ k} (constructed : construct inputs config now = .ok start) :
    Aligned start := by
  obtain rfl := construct_eq constructed
  exact fresh_aligned config inputs now

/-- The channel that the rotation picks is neither exhausted nor blocked. -/
theorem pickChannel_free {merge : SourceMerge σ k} {channel : Fin k}
    (picked : merge.pickChannel = some channel) :
    (merge.states channel).exhausted = false ∧
      (merge.states channel).barriersSeen ≤ merge.epochClosed := by
  have accepted := List.find?_some picked
  simp only [IsChannelBlocked, decide_eq_true_eq, not_lt] at accepted
  exact accepted

/-- The rotation reaches every channel. -/
theorem turn_surjective (merge : SourceMerge σ k) (channel : Fin k) :
    ∃ attempt, merge.turn attempt = channel := by
  have positive : 0 < k := channel.pos
  refine ⟨⟨(channel.val + (k - merge.rr % k)) % k, Nat.mod_lt _ positive⟩, ?_⟩
  apply Fin.ext
  have bound : merge.rr % k < k := Nat.mod_lt _ positive
  have inside : channel.val < k := channel.isLt
  have cancel : merge.rr % k + (channel.val + (k - merge.rr % k)) = channel.val + k := by omega
  change (merge.rr + (channel.val + (k - merge.rr % k)) % k) % k = channel.val
  rw [Nat.add_mod_mod, ← Nat.mod_add_mod, cancel, Nat.add_mod_right, Nat.mod_eq_of_lt inside]

/-- When no channel is picked, each one is exhausted or blocked. -/
theorem pickChannel_none {merge : SourceMerge σ k} (none : merge.pickChannel = none)
    (channel : Fin k) :
    (merge.states channel).exhausted = true ∨ merge.IsChannelBlocked channel := by
  obtain ⟨attempt, reached⟩ := turn_surjective merge channel
  have refused := List.find?_eq_none.mp none channel
    (List.mem_map.mpr ⟨attempt, List.mem_finRange attempt, reached⟩)
  by_contra neither
  apply refused
  simp only [decide_eq_true_eq]
  exact ⟨by simpa using fun ended => neither (Or.inl ended),
    fun blocked => neither (Or.inr blocked)⟩

/-- A step is a turn of a free channel, or it finds none and changes nothing. -/
theorem step_cases [Source σ] {merge : SourceMerge σ k} {now : Nat} {step : StepOutcome σ k}
    (stepped : merge.produceOneMergedStep now = .ok step) :
    (∃ channel, merge.pickChannel = some channel ∧ merge.serve now channel = .ok step ∧
      Turn merge channel step) ∨
    (merge.pickChannel = none ∧ step =
      { result := .exhausted, pulled := none, emitted := [], data := 0, merge := merge }) := by
  unfold produceOneMergedStep at stepped
  split at stepped
  · next channel picked => exact Or.inl ⟨channel, picked, stepped, serve_turn stepped⟩
  · next picked => exact Or.inr ⟨picked, (Except.ok.inj stepped).symm⟩

theorem step_aligned [Source σ] {merge : SourceMerge σ k} {now : Nat} {step : StepOutcome σ k}
    (aligned : Aligned merge) (stepped : merge.produceOneMergedStep now = .ok step) :
    Aligned step.merge := by
  rcases step_cases stepped with ⟨channel, picked, _, taken⟩ | ⟨_, rfl⟩
  · obtain ⟨live, free⟩ := pickChannel_free picked
    exact turn_aligned aligned live free taken
  · exact aligned

end SourceMerge

end Stormglass
