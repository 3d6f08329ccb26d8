import Stormglass.MergeRuns

/-!
# Barrier alignment

A channel that has delivered its barrier of the open epoch is blocked until the
epoch closes, so the barrier is the last item pulled from it. When the merged
barrier is appended, every active channel stands right behind its own barrier of
that epoch: the merged prefix is a consistent cut of the channels.
-/

namespace Stormglass

/-- The items that precede the barrier with the given number, counted from one. -/
def beforeBarrier : Nat → Batch → Batch
  | 0, _ => []
  | _, [] => []
  | count + 1, item :: rest =>
      match item.barrier? with
      | none => item :: beforeBarrier (count + 1) rest
      | some _ => if count = 0 then [] else item :: beforeBarrier count rest

/-- A prefix that ends with its last barrier is what precedes that barrier. -/
theorem beforeBarrier_eq (earlier rest : Batch) (item : BatchItem)
    (barrier : item.barrier?.isSome = true) :
    beforeBarrier ((barriers earlier).length + 1) (earlier ++ item :: rest) = earlier := by
  induction earlier with
  | nil =>
    obtain ⟨offset, found⟩ := Option.isSome_iff_exists.mp barrier
    simp [beforeBarrier, barriers, found]
  | cons first earlier inductionHypothesis =>
    cases found : first.barrier? with
    | none =>
      have same : barriers (first :: earlier) = barriers earlier := by simp [barriers, found]
      rw [same]
      simp [beforeBarrier, found, inductionHypothesis]
    | some offset =>
      have more : (barriers (first :: earlier)).length = (barriers earlier).length + 1 := by
        simp [barriers, found]
      rw [more]
      simp [beforeBarrier, found, inductionHypothesis]

namespace SourceMerge

variable {σ : Type} {k : Nat}

/-- The last item of a stream prefix is a barrier. -/
def EndsAtBarrier (items : Batch) : Prop :=
  ∃ earlier item, items = earlier ++ [item] ∧ item.barrier?.isSome = true

/-- A blocked channel stands right behind a barrier. -/
def Held (trace : Trace σ k) : Prop :=
  ∀ channel, trace.merge.IsChannelBlocked channel →
    EndsAtBarrier (pulledFrom trace.pulled channel)

section Turns

variable [Source σ] {merge : SourceMerge σ k} {channel : Fin k} {step : StepOutcome σ k}

/-- A step that appends a barrier appends it last, stamps it with the merged
offset, closes one epoch, and finds every active channel aligned. -/
structure Closes (merge : SourceMerge σ k) (step : StepOutcome σ k) : Prop where
  emitted : ∃ front, step.emitted = front ++ [barrierItem step.merge.mergedOffset] ∧
    barriers front = [] ∧ records front = []
  epoch : step.merge.epochClosed = merge.epochClosed + 1
  delivered : ∀ channel, step.merge.Active channel →
    merge.epochClosed + 1 ≤ (step.merge.states channel).barriersSeen

omit [Source σ] in
/-- The attempt to close an epoch closes it whenever it appends a barrier. -/
theorem maybeCloseEpoch_closes {changed : SourceMerge σ k} {front : Batch}
    (epoch : changed.epochClosed = merge.epochClosed)
    (plain : barriers front = []) (controls : records front = [])
    (emitted : step.emitted = front ++ changed.maybeCloseEpoch.1)
    (after : step.merge = changed.maybeCloseEpoch.2)
    (appended : barriers step.emitted ≠ []) : Closes merge step := by
  rcases maybeCloseEpoch_cases changed with ⟨same, _⟩ | ⟨same, _⟩ | ⟨same, _, aligned⟩
  · rw [emitted, same] at appended
    simp [plain] at appended
  · rw [emitted, same] at appended
    simp [plain] at appended
  · rw [same] at emitted after
    refine ⟨⟨front, ?_, plain, controls⟩, ?_, ?_⟩
    · rw [emitted, after]
    · rw [after, ← epoch]
    · intro channel active
      rw [after] at active ⊢
      rw [← epoch]
      exact aligned channel active

theorem turn_closes (taken : Turn merge channel step) (appended : barriers step.emitted ≠ []) :
    Closes merge step := by
  cases taken with
  | quiet served spent => exact absurd rfl appended
  | idled served spent wasActive after =>
    exact maybeCloseEpoch_closes (by rw [after]) (barriers_announce merge _)
      (records_announce merge _) rfl rfl appended
  | ended served ended after =>
    exact maybeCloseEpoch_closes (by rw [after]) (barriers_announce merge _)
      (records_announce merge _) rfl rfl appended
  | record served => exact absurd rfl appended
  | watermark served => exact absurd (barriers_announce merge _) appended
  | barrier served after =>
    exact maybeCloseEpoch_closes (by rw [after]) rfl rfl (List.nil_append _).symm rfl appended

/-- After a turn, every channel that is ahead of the epochs closed before the turn
stands right behind a barrier: it was blocked already, or the turn pulled its
barrier. -/
theorem Held.behind {trace : Trace σ k} (held : Held trace)
    (free : (trace.merge.states channel).barriersSeen ≤ trace.merge.epochClosed)
    (counted : Counted trace.merge step) (draws : Draws trace.merge channel step)
    (other : Fin k)
    (ahead : trace.merge.epochClosed < (step.merge.states other).barriersSeen) :
    EndsAtBarrier (pulledFrom (trace.extend step).pulled other) := by
  change EndsAtBarrier (pulledFrom (trace.pulled ++ step.pulled.toList) other)
  rw [pulledFrom_append]
  by_cases own : other = channel
  · -- Its count passed the closed epochs in this turn, so the turn pulled a barrier.
    subst own
    have seen := counted.barriersSeen other
    rw [draws.upcoming] at seen ⊢
    cases first : (trace.merge.states other).upcoming with
    | none =>
      rw [first] at seen
      simp [barriers] at seen
      omega
    | some item =>
      rw [first] at seen
      refine ⟨pulledFrom trace.pulled other, item, ?_, ?_⟩
      · rw [Option.map_some, Option.toList_some, pulledFrom_own]
      · rw [Option.map_some, Option.toList_some, pulledFrom_own] at seen
        cases found : item.barrier? with
        | none =>
          have nothing : barriers [item] = [] := by simp [barriers, found]
          rw [nothing, List.length_nil] at seen
          omega
        | some offset => rfl
  · rw [draws.tagged other own, List.append_nil]
    rw [draws.others other own] at ahead
    exact held other ahead

omit [Source σ] in
/-- One turn counts at most one barrier. -/
theorem pulled_barriers_le (pulled : Option (Fin k × BatchItem)) (channel : Fin k) :
    (barriers (pulledFrom pulled.toList channel)).length ≤ 1 := by
  calc (barriers (pulledFrom pulled.toList channel)).length
    _ ≤ (pulledFrom pulled.toList channel).length := List.length_filterMap_le _ _
    _ ≤ pulled.toList.length := by
        rw [pulledFrom, List.length_map]
        exact List.length_filter_le _ _
    _ ≤ 1 := by cases pulled <;> simp

/-- After a turn, no channel is more than one barrier ahead of the epochs closed
before the turn. -/
theorem turn_bounded (aligned : Aligned merge)
    (free : (merge.states channel).barriersSeen ≤ merge.epochClosed)
    (counted : Counted merge step) (draws : Draws merge channel step) (other : Fin k) :
    (step.merge.states other).barriersSeen ≤ merge.epochClosed + 1 := by
  by_cases own : other = channel
  · subst own
    have seen := counted.barriersSeen other
    have few := pulled_barriers_le step.pulled other
    omega
  · rw [draws.others other own]
    exact aligned.bounded other

theorem Held.extend {trace : Trace σ k} (held : Held trace)
    (free : (trace.merge.states channel).barriersSeen ≤ trace.merge.epochClosed)
    (counted : Counted trace.merge step) (draws : Draws trace.merge channel step) :
    Held (trace.extend step) := by
  intro other blocked
  have epochs := counted.epochClosed
  have ahead : step.merge.epochClosed < (step.merge.states other).barriersSeen := blocked
  exact held.behind free counted draws other (by omega)

end Turns

section Runs

variable [Source σ] {inputs : Fin k → σ × List IdleSpan} {config : SourceMergeConfig}
  {created : Nat} {start : SourceMerge σ k} {readings : List Nat}

theorem run_held (constructed : construct inputs config created = .ok start)
    {trace : Trace σ k} (ran : run start readings = .ok trace) : Held trace := by
  have both : Reached (fun channel => (inputs channel).1) trace ∧ Held trace := by
    refine run_induction (fun trace => Reached _ trace ∧ Held trace)
      ⟨construct_reached constructed, ?_⟩ ?_ ran
    · intro channel blocked
      obtain rfl := construct_eq constructed
      exact absurd blocked (Nat.lt_irrefl 0)
    · rintro before reading step ⟨reached, held⟩ stepped
      refine ⟨reached.extend stepped, ?_⟩
      rcases step_cases stepped with ⟨channel, picked, _, taken⟩ | ⟨_, rfl⟩
      · exact held.extend (pickChannel_free picked).2 (turn_counted taken)
          (turn_draws taken)
      · intro channel blocked
        have stands := held channel blocked
        simpa [Trace.extend] using stands
  exact both.2

/-- The merged stream ends with a barrier that is an aligned cut: the barrier is
stamped with the number of merged records before it, the merged records are the
pulled ones, and each active channel has delivered as many barriers as were
merged, the last of them just now, so that its share of the merged records is what
its own stream holds before that barrier. -/
structure AlignedCut (sources : Fin k → σ) (trace : Trace σ k) : Prop where
  stamped : ∃ front, trace.out = front ++ [barrierItem (records front).length]
  merged : records trace.out = records (trace.pulled.map Prod.snd)
  delivered : ∀ channel, trace.merge.Active channel →
    (barriers (pulledFrom trace.pulled channel)).length = (barriers trace.out).length
  last : ∀ channel, trace.merge.Active channel →
    EndsAtBarrier (pulledFrom trace.pulled channel)
  share : ∀ channel, trace.merge.Active channel → ∃ calls, ∀ more,
    records (pulledFrom trace.pulled channel) = records (beforeBarrier (barriers trace.out).length
      (Source.itemsWithin (calls + more) (sources channel)))

/-- The share of a channel that stands behind its last barrier. -/
theorem share_eq {sources : Fin k → σ} {trace : Trace σ k} (drawn : Drawn sources trace)
    {channel : Fin k} (last : EndsAtBarrier (pulledFrom trace.pulled channel)) :
    ∃ calls, ∀ more, records (pulledFrom trace.pulled channel) =
      records (beforeBarrier (barriers (pulledFrom trace.pulled channel)).length
        (Source.itemsWithin (calls + more) (sources channel))) := by
  obtain ⟨earlier, item, split, barrier⟩ := last
  obtain ⟨calls, leads⟩ := drawn.leads channel
  refine ⟨calls, ?_⟩
  intro more
  obtain ⟨offset, found⟩ := Option.isSome_iff_exists.mp barrier
  have noRecord : records [item] = [] := by
    cases item with
    | record data => simp [BatchItem.barrier?] at found
    | control control => rfl
  have count : (barriers (earlier ++ [item])).length = (barriers earlier).length + 1 := by
    simp [barriers, found]
  rw [leads more, split, count, List.append_assoc, List.singleton_append,
    beforeBarrier_eq earlier _ item barrier, records_append, noRecord, List.append_nil]

/-- In every run no channel is more than one barrier ahead of the closed epochs,
and every step that appends a merged barrier completes an aligned cut. -/
theorem merged_barriers_are_aligned_cuts
    (constructed : construct inputs config created = .ok start) {before : Trace σ k}
    (ran : run start readings = .ok before) :
    (∀ channel, (before.merge.states channel).barriersSeen ≤ before.merge.epochClosed + 1) ∧
      ∀ now after, run start (readings ++ [now]) = .ok after →
        (barriers after.out).length ≠ (barriers before.out).length →
        (barriers after.out).length = (barriers before.out).length + 1 ∧
          AlignedCut (fun channel => (inputs channel).1) after := by
  have reached := run_reached constructed ran
  refine ⟨reached.aligned.bounded, ?_⟩
  intro now after extended more
  obtain ⟨point, step, same, stepped, rfl⟩ := run_snoc extended
  obtain rfl : before = point := Except.ok.inj (ran.symm.trans same)
  have reachedAfter := run_reached constructed extended
  have appended : barriers step.emitted ≠ [] := by
    intro nothing
    apply more
    simp [Trace.extend, nothing]
  rcases step_cases stepped with ⟨channel, picked, _, taken⟩ | ⟨_, rfl⟩
  · have closes := turn_closes taken appended
    have counted := turn_counted taken
    obtain ⟨front, emitted, plain, controls⟩ := closes.emitted
    have closedBefore := reached.accounted.epochClosed
    have closedAfter := reachedAfter.accounted.epochClosed
    have free := (pickChannel_free picked).2
    have draws := turn_draws taken
    have delivered (other : Fin k) (active : step.merge.Active other) :
        (step.merge.states other).barriersSeen = step.merge.epochClosed := by
      have least := closes.delivered other active
      have most := turn_bounded reached.aligned free counted draws other
      have epoch := closes.epoch
      omega
    have last (other : Fin k) (active : step.merge.Active other) :
        EndsAtBarrier (pulledFrom (before.extend step).pulled other) :=
      (run_held constructed ran).behind free counted draws other (closes.delivered other active)
    have counts (other : Fin k) (active : step.merge.Active other) :
        (barriers (pulledFrom (before.extend step).pulled other)).length =
          (barriers (before.extend step).out).length := by
      rw [← reachedAfter.accounted.barriersSeen, ← closedAfter]
      exact delivered other active
    refine ⟨?_, ⟨⟨before.out ++ front, ?_⟩, reachedAfter.accounted.data, counts, last, ?_⟩⟩
    · have epoch := closes.epoch
      change (before.extend step).merge.epochClosed = _ at epoch
      omega
    · have offset : step.merge.mergedOffset = (records (before.out ++ front)).length := by
        have noRecord (offset : Nat) : records [barrierItem offset] = [] := rfl
        rw [counted.offset, emitted, reached.accounted.offset, records_append, noRecord,
          records_append, controls]
        simp
      change before.out ++ step.emitted = _
      rw [emitted, offset, List.append_assoc]
    · intro other active
      obtain ⟨calls, share⟩ := share_eq reachedAfter.drawn (last other active)
      rw [counts other active] at share
      exact ⟨calls, share⟩
  · exact absurd rfl appended

end Runs

/-- Two channels whose first barriers stand behind one and two records. -/
def staggered : Fin 2 → ScriptedSource × List IdleSpan
  | 0 => ({ script := [[sample, barrierItem 1, sample]] }, [])
  | 1 => ({ script := [[sample, sample], [barrierItem 2]] }, [])
where
  sample : BatchItem :=
    .record { key := [], value := 1, eventTime := .ofMs 20, processingTime := .ofMs 20 }

/-- The merge over the two staggered channels. -/
def staggeredStart : SourceMerge ScriptedSource 2 where
  config := {}
  states channel := .fresh (staggered channel).1 (staggered channel).2 0
  combiner := .initial 2
  rr := 0
  mergedOffset := 0
  epochClosed := 0

/-- Their first merged barrier is appended by the fifth step, after three records. -/
theorem staggered_barriers_align :
    ∃ start before after, construct staggered {} 0 = .ok start ∧
      run start [0, 0, 0, 0] = .ok before ∧ run start [0, 0, 0, 0, 0] = .ok after ∧
      barriers after.out = [3] ∧
      (∀ channel, (before.merge.states channel).barriersSeen ≤ before.merge.epochClosed + 1) ∧
      AlignedCut (fun channel => (staggered channel).1) after := by
  have constructed : construct staggered {} 0 = .ok staggeredStart := rfl
  obtain ⟨before, ran, observedBefore⟩ := run_observed staggeredStart
    (fun trace => barriers trace.out) [0, 0, 0, 0] [] (by decide +kernel)
  obtain ⟨after, extended, observedAfter⟩ := run_observed staggeredStart
    (fun trace => barriers trace.out) [0, 0, 0, 0, 0] [3] (by decide +kernel)
  obtain ⟨bounded, cuts⟩ := merged_barriers_are_aligned_cuts constructed ran
  refine ⟨staggeredStart, before, after, constructed, ran, extended, observedAfter, bounded, ?_⟩
  refine (cuts 0 after extended ?_).2
  rw [observedBefore, observedAfter]
  decide

end SourceMerge

end Stormglass
