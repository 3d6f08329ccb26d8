import Stormglass.MergeItems

/-!
# Replaying a merge

`Seek` rewinds every channel, forgets all progress and repeats the steps of the merge until
the requested number of records has passed. `Next()` takes steps too, until a batch is full.
Both walk along the stream of the machine over items, so a merge that has been repositioned
delivers the stream from behind the requested record on.

The machine does not know the batch sizes. Two merges over the same trajectories, idle spans
and idle timeout therefore deliver the same stream.
-/

namespace Stormglass

/-- The items behind a number of records. -/
def afterRecord : Nat → Batch → Batch
  | 0, items => items
  | _ + 1, [] => []
  | count + 1, .record _ :: rest => afterRecord count rest
  | count + 1, .control _ :: rest => afterRecord (count + 1) rest

@[simp] theorem afterRecord_zero (items : Batch) : afterRecord 0 items = items := by
  cases items <;> rfl

theorem afterRecord_controls {count : Nat} {items : Batch} (controls : records items = [])
    (rest : Batch) : afterRecord (count + 1) (items ++ rest) = afterRecord (count + 1) rest := by
  induction items with
  | nil => rfl
  | cons item items inductionHypothesis =>
    cases item with
    | record data => simp [records, BatchItem.record?] at controls
    | control control =>
      rw [List.cons_append, afterRecord]
      exact inductionHypothesis controls

namespace SourceMerge

variable {σ : Type} {k : Nat}

/-- `ResetProgress` -/
def resetProgress (merge : SourceMerge σ k) (now : Nat) : SourceMerge σ k :=
  { merge with
    states := fun channel =>
      .fresh (merge.states channel).source (merge.states channel).idleSpans now
    combiner := .initial k
    rr := 0
    mergedOffset := 0
    epochClosed := 0 }

/-- Every channel back at the start of its stream. -/
def rewind [Source σ] (merge : SourceMerge σ k) : SourceMerge σ k :=
  { merge with
    states := fun channel =>
      { merge.states channel with source := Source.seek (merge.states channel).source 0 } }

/-- The loop of `Seek`, with fuel and the clock readings of its steps. -/
def seekLoop [Source σ] : Nat → (clock : Nat → Nat) → SourceMerge σ k → (offset : Nat) →
    Except Failure (SourceMerge σ k)
  | fuel, clock, merge, offset =>
    if merge.mergedOffset < offset then
      match fuel with
      | 0 => .error .unfinished
      | fuel + 1 =>
        match merge.produceOneMergedStep (clock 0) with
        | .error failure => .error failure
        | .ok step =>
          match step.result with
          | .exhausted => .ok step.merge
          | _ => seekLoop fuel (fun reading => clock (reading + 1)) step.merge offset
    else .ok merge

/-- `Seek` -/
def seek [Source σ] (fuel : Nat) (clock : Nat → Nat) (merge : SourceMerge σ k) (offset : Nat) :
    Except Failure (SourceMerge σ k) :=
  if merge.config.liveInputs = true ∧ 0 < offset then
    .error (.logicError
      "SourceMerge with live_inputs cannot seek: its merge order is not replayable")
  else
    seekLoop fuel (fun reading => clock (reading + 1)) (merge.rewind.resetProgress (clock 0)) offset

/-- `CurrentOffset` -/
def currentOffset (merge : SourceMerge σ k) : Nat := merge.mergedOffset

section Walking

variable [Source σ] {merge middle after : SourceMerge σ k} {machine between next : ItemMerge k}
  {items more : Batch}

/-- A merge has walked along the stream of its machine. -/
structure Walks (merge : SourceMerge σ k) (machine : ItemMerge k) (items : Batch)
    (after : SourceMerge σ k) (next : ItemMerge k) : Prop where
  refines : Refines after next
  stream : machine.stream = items ++ next.stream
  weight : next.weight ≤ machine.weight
  config : after.config = merge.config
  offset : after.mergedOffset = merge.mergedOffset + (records items).length
  reaches : ∀ channel, Source.Reaches (merge.states channel).source (after.states channel).source
  idleSpans : ∀ channel, (after.states channel).idleSpans = (merge.states channel).idleSpans

theorem Walks.refl (refines : Refines merge machine) : Walks merge machine [] merge machine :=
  ⟨refines, rfl, le_rfl, rfl, rfl, fun _ => .refl, fun _ => rfl⟩

theorem Walks.trans (first : Walks merge machine items middle between)
    (second : Walks middle between more after next) :
    Walks merge machine (items ++ more) after next where
  refines := second.refines
  stream := by rw [first.stream, second.stream, List.append_assoc]
  weight := second.weight.trans first.weight
  config := second.config.trans first.config
  offset := by
    rw [second.offset, first.offset, records_append, List.length_append]
    omega
  reaches channel := (first.reaches channel).trans (second.reaches channel)
  idleSpans channel := (second.idleSpans channel).trans (first.idleSpans channel)

theorem steady_idleSpans : Steady (@SourceState.idleSpans Unit) :=
  ⟨fun _ _ => rfl, fun _ _ => rfl, fun _ _ => rfl, fun _ _ => rfl⟩

omit [Source σ] in
/-- A turn keeps the idle spans of its channel. -/
theorem moved_idleSpans (machine : ItemMerge k) (channel : Fin k) :
    (machine.moved channel).idleSpans = (machine.skeleton.states channel).idleSpans := by
  obtain ⟨gap, span, opened, _⟩ := (machine.skeleton.states channel).openGap_eq
  unfold ItemMerge.moved
  rw [opened]
  dsimp only
  split
  · rfl
  · cases machine.ahead channel <;> rfl

/-- One step of the machine is one step of the walk. -/
theorem Refines.walk (refines : Refines merge machine) (stepped : machine.step = some (items, next))
    (now : Nat) :
    ∃ step, merge.produceOneMergedStep now = .ok step ∧ step.result = .produced ∧
      step.emitted = items ∧ step.data = (records items).length ∧
      Walks merge machine items step.merge next := by
  obtain ⟨step, produced, result, emitted, data, refined, config, reaches⟩ :=
    refines.step_some stepped now
  refine ⟨step, produced, result, emitted, data, refined, ItemMerge.stream_some stepped,
    (ItemMerge.step_weight stepped).le, config, ?_, reaches, ?_⟩
  · rw [(step_counted produced).offset, emitted]
  · intro channel
    obtain ⟨served, picked, same⟩ := Option.map_eq_some_iff.mp stepped
    obtain ⟨-, rfl⟩ := Prod.mk.inj same
    have spans := congrFun (ItemMerge.serve_seen steady_idleSpans machine served) channel
    have after : (step.merge.states channel).idleSpans =
        ((machine.serve served).1.merge.states channel).idleSpans := by
      have skeleton := congrArg (fun merge => (merge.states channel).idleSpans) refined.skeleton
      exact skeleton
    have before : (merge.states channel).idleSpans =
        (machine.skeleton.states channel).idleSpans := by
      have skeleton := congrArg (fun merge => (merge.states channel).idleSpans) refines.skeleton
      exact skeleton
    rw [after, before]
    by_cases own : channel = served
    · subst own
      rw [Function.update_self, moved_idleSpans] at spans
      exact spans
    · rw [Function.update_of_ne own] at spans
      exact spans

/-- A loop of `Next()` that has returned has walked along the stream, until the machine
stopped or the batch was full. -/
theorem Refines.nextLoop_ok (refines : Refines merge machine) {fuel : Nat} {clock : Nat → Nat}
    {out all : Batch} {dataInBatch quietSteps : Nat} {pulled drawn : List (Fin k × BatchItem)}
    (ran : merge.nextLoop fuel clock out dataInBatch quietSteps pulled = .ok (all, drawn, after)) :
    ∃ taken next, all = out ++ taken ∧ Walks merge machine taken after next ∧
      (next.step = none ∨ merge.config.mergedBatchSize ≤ dataInBatch + (records taken).length) := by
  induction fuel generalizing merge machine clock out dataInBatch quietSteps pulled with
  | zero =>
    unfold nextLoop at ran
    split at ran
    · cases ran
    next full =>
      obtain ⟨rfl, -, rfl⟩ := by simpa using ran
      exact ⟨[], machine, by simp, .refl refines, Or.inr (by simpa using full)⟩
  | succ fuel inductionHypothesis =>
    unfold nextLoop at ran
    split at ran
    · cases stepped : machine.step with
      | none =>
        rw [refines.step_none stepped] at ran
        obtain ⟨rfl, -, rfl⟩ := by simpa using ran
        exact ⟨[], machine, by simp, .refl refines, Or.inl stepped⟩
      | some found =>
        obtain ⟨items, next⟩ := found
        obtain ⟨step, produced, result, rfl, data, walks⟩ := refines.walk stepped (clock 0)
        simp only [produced, result] at ran
        obtain ⟨taken, final, rfl, later, stops⟩ := inductionHypothesis walks.refines ran
        refine ⟨step.emitted ++ taken, final, by simp, walks.trans later, ?_⟩
        rw [walks.config, data] at stops
        rw [records_append, List.length_append, ← Nat.add_assoc]
        exact stops
    next full =>
      obtain ⟨rfl, -, rfl⟩ := by simpa using ran
      exact ⟨[], machine, by simp, .refl refines, Or.inr (by simpa using full)⟩

/-- With fuel for the whole stream the loop of `Next()` returns. -/
theorem Refines.nextLoop_total (refines : Refines merge machine) {fuel : Nat}
    (enough : machine.weight < fuel) (clock : Nat → Nat) (out : Batch)
    (dataInBatch quietSteps : Nat) (pulled : List (Fin k × BatchItem)) :
    ∃ result, merge.nextLoop fuel clock out dataInBatch quietSteps pulled = .ok result := by
  induction fuel generalizing merge machine clock out dataInBatch quietSteps pulled with
  | zero => exact absurd enough (Nat.not_lt_zero _)
  | succ fuel inductionHypothesis =>
    unfold nextLoop
    split
    · cases stepped : machine.step with
      | none =>
        rw [refines.step_none stepped]
        exact ⟨_, rfl⟩
      | some found =>
        obtain ⟨items, next⟩ := found
        obtain ⟨step, produced, result, -, -, walks⟩ := refines.walk stepped (clock 0)
        have lighter := ItemMerge.step_weight stepped
        simp only [produced, result]
        exact inductionHypothesis walks.refines (by omega) _ _ _ _ _
    · exact ⟨_, rfl⟩

omit [Source σ] in
/-- A merge whose channels are all exhausted has no channel to serve. -/
theorem pickChannel_of_allExhausted (ended : merge.AllExhausted) : merge.pickChannel = none := by
  apply List.find?_eq_none.mpr
  intro channel _
  simp [ended channel]

section

variable (refines : Refines merge machine)

include refines

/-- When the machine has stopped, every channel of the merge is exhausted. -/
theorem Refines.allExhausted (stopped : machine.step = none) :
    merge.AllExhausted := by
  have none := Option.map_eq_none_iff.mp stopped
  rw [← refines.skeleton, skeleton_pickChannel] at none
  exact allExhausted_of_pickChannel_none refines.aligned none

/-- What a call of `Next()` that has returned says about the stream: it hands out the next
items, or the stream is over. -/
theorem Refines.next_ok (positive : 0 < merge.config.mergedBatchSize) {fuel : Nat}
    {clock : Nat → Nat} {outcome : NextOutcome σ k} (ran : merge.next fuel clock = .ok outcome) :
    ∃ taken next, Walks merge machine taken outcome.merge next ∧
      ((outcome.batch = none ∧ taken = [] ∧ machine.stream = []) ∨
        (outcome.batch = some taken ∧ taken ≠ [])) := by
  unfold SourceMerge.next at ran
  split at ran
  next atEnd =>
    cases Except.ok.inj ran
    have ended : merge.AllExhausted := by
      rcases atEnd with rfl | ended
      · exact fun channel => channel.elim0
      · exact ended
    have stopped : machine.step = none := by
      rw [ItemMerge.step, ← refines.skeleton, skeleton_pickChannel,
        pickChannel_of_allExhausted ended]
      rfl
    exact ⟨[], machine, .refl refines, Or.inl ⟨rfl, rfl, ItemMerge.stream_none stopped⟩⟩
  next =>
    split at ran
    · cases ran
    next out pulled after looped =>
      obtain ⟨_, next, rfl, walks, stops⟩ := refines.nextLoop_ok looped
      refine ⟨out, next, ?_⟩
      split at ran
      next empty =>
        have stopped : next.step = none := by
          rcases stops with stopped | full
          · exact stopped
          · rw [empty, records_nil, List.length_nil] at full
            omega
        rw [if_pos (Or.inl (walks.refines.allExhausted stopped))] at ran
        cases Except.ok.inj ran
        refine ⟨walks, Or.inl ⟨rfl, empty, ?_⟩⟩
        rw [walks.stream, empty, ItemMerge.stream_none stopped, List.append_nil]
      next nonempty =>
        cases Except.ok.inj ran
        exact ⟨walks, Or.inr ⟨rfl, nonempty⟩⟩

/-- With fuel for the whole stream `Next()` returns. -/
theorem Refines.next_total {fuel : Nat} (enough : machine.weight < fuel) (clock : Nat → Nat) :
    ∃ outcome, merge.next fuel clock = .ok outcome := by
  unfold SourceMerge.next
  split
  · exact ⟨_, rfl⟩
  · obtain ⟨⟨out, pulled, after⟩, looped⟩ := refines.nextLoop_total enough clock [] 0 0 []
    rw [looped]
    dsimp only
    split
    · split <;> exact ⟨_, rfl⟩
    · exact ⟨_, rfl⟩

/-- Repeated calls of `Next()` until the end of input hand out the stream. -/
theorem Refines.drains (positive : 0 < merge.config.mergedBatchSize) {fuel calls : Nat}
    (clocks : Nat → Nat → Nat) (enough : machine.weight < fuel)
    (often : machine.stream.length < calls) :
    ∃ batches pulled final, merge.drain fuel calls clocks = .ok (batches, pulled, final) ∧
      batches.flatten = machine.stream := by
  induction calls generalizing merge machine clocks with
  | zero => exact absurd often (Nat.not_lt_zero _)
  | succ calls inductionHypothesis =>
    obtain ⟨outcome, returned⟩ := refines.next_total enough (clocks 0)
    obtain ⟨taken, next, walks, ⟨ended, -, empty⟩ | ⟨handed, nonempty⟩⟩ :=
      refines.next_ok positive returned
    · refine ⟨[], outcome.pulled, outcome.merge, ?_, empty.symm⟩
      simp only [SourceMerge.drain, returned, ended]
    · have shorter : next.stream.length < calls := by
        have length := congrArg List.length walks.stream
        have some := List.length_pos_iff.mpr nonempty
        rw [List.length_append] at length
        omega
      obtain ⟨batches, pulled, final, drained, flat⟩ := inductionHypothesis walks.refines
        (by rw [walks.config]; exact positive) (fun call => clocks (call + 1))
        (lt_of_le_of_lt walks.weight enough) shorter
      refine ⟨taken :: batches, outcome.pulled ++ pulled, final, ?_, ?_⟩
      · simp only [SourceMerge.drain, returned, handed, drained]
      · rw [List.flatten_cons, flat, walks.stream]

/-- A step appends one record, or no record. -/
theorem Refines.emitted (stepped : machine.step = some (items, next)) :
    (∃ data, items = [.record data]) ∨ records items = [] := by
  obtain ⟨step, produced, -, rfl, -⟩ := refines.walk stepped 0
  rcases step_cases produced with ⟨channel, -, -, taken⟩ | ⟨-, rfl⟩
  · cases taken with
    | quiet served spent => exact Or.inr rfl
    | idled served spent wasActive after => exact Or.inr (by simp)
    | ended served ended after => exact Or.inr (by simp)
    | record served => exact Or.inl ⟨_, rfl⟩
    | watermark served => exact Or.inr (by simp)
    | barrier served after => exact Or.inr (by simp)
  · exact Or.inr rfl

/-- A loop of `Seek` that has returned has walked along the stream, and when the stream
reaches the offset it has stopped right behind that record. -/
theorem Refines.seekLoop_ok {fuel offset : Nat} {clock : Nat → Nat}
    (bounded : merge.mergedOffset ≤ offset) (ran : merge.seekLoop fuel clock offset = .ok after) :
    ∃ taken next, Walks merge machine taken after next ∧
      (offset ≤ merge.mergedOffset + (records machine.stream).length →
        after.mergedOffset = offset ∧
          next.stream = afterRecord (offset - merge.mergedOffset) machine.stream) := by
  induction fuel generalizing merge machine clock with
  | zero =>
    unfold seekLoop at ran
    split at ran
    · cases ran
    next reached =>
      cases Except.ok.inj ran
      refine ⟨[], machine, .refl refines, fun _ => ⟨by omega, ?_⟩⟩
      rw [Nat.sub_eq_zero_of_le (not_lt.mp reached), afterRecord_zero]
  | succ fuel inductionHypothesis =>
    unfold seekLoop at ran
    split at ran
    next before =>
      cases stepped : machine.step with
      | none =>
        rw [refines.step_none stepped] at ran
        cases Except.ok.inj ran
        refine ⟨[], machine, .refl refines, fun inside => ?_⟩
        rw [ItemMerge.stream_none stepped] at inside
        simp only [records_nil, List.length_nil] at inside
        omega
      | some found =>
        obtain ⟨items, next⟩ := found
        obtain ⟨step, produced, result, rfl, data, walks⟩ := refines.walk stepped (clock 0)
        simp only [produced, result] at ran
        have shape := refines.emitted stepped
        have advanced := walks.offset
        have count : (records step.emitted).length ≤ 1 := by
          rcases shape with ⟨record, same⟩ | same <;> simp [same]
        obtain ⟨taken, final, later, lands⟩ :=
          inductionHypothesis walks.refines (by omega) ran
        refine ⟨step.emitted ++ taken, final, walks.trans later, fun inside => ?_⟩
        rw [walks.stream, records_append, List.length_append] at inside
        obtain ⟨there, rest⟩ := lands (by omega)
        refine ⟨there, ?_⟩
        rw [rest, walks.stream]
        obtain ⟨left, distance⟩ : ∃ left, offset - merge.mergedOffset = left + 1 :=
          ⟨offset - merge.mergedOffset - 1, by omega⟩
        rw [distance]
        rcases shape with ⟨record, same⟩ | same
        · have closer : offset - step.merge.mergedOffset = left := by
            rw [same, records_record, List.length_singleton] at advanced
            omega
          rw [closer, same]
          rfl
        · have still : offset - step.merge.mergedOffset = left + 1 := by
            rw [same, List.length_nil] at advanced
            omega
          rw [still, afterRecord_controls same]
    next reached =>
      cases Except.ok.inj ran
      refine ⟨[], machine, .refl refines, fun _ => ⟨by omega, ?_⟩⟩
      rw [Nat.sub_eq_zero_of_le (not_lt.mp reached), afterRecord_zero]

theorem Refines.seekLoop_total {fuel : Nat} (enough : machine.weight < fuel) (clock : Nat → Nat)
    (offset : Nat) :
    ∃ after, merge.seekLoop fuel clock offset = .ok after := by
  induction fuel generalizing merge machine clock with
  | zero => exact absurd enough (Nat.not_lt_zero _)
  | succ fuel inductionHypothesis =>
    unfold seekLoop
    split
    · cases stepped : machine.step with
      | none =>
        rw [refines.step_none stepped]
        exact ⟨_, rfl⟩
      | some found =>
        obtain ⟨items, next⟩ := found
        obtain ⟨step, produced, result, -, -, walks⟩ := refines.walk stepped (clock 0)
        have lighter := ItemMerge.step_weight stepped
        simp only [produced, result]
        exact inductionHypothesis walks.refines (by omega) _
    · exact ⟨_, rfl⟩

end

end Walking

/-- The machine of a merge before its first step. -/
def freshMachine (inputs : Fin k → σ × List IdleSpan) (config : SourceMergeConfig)
    (trajectories : Fin k → Batch) : ItemMerge k where
  skeleton :=
    { config := { idleTimeout := config.idleTimeout }
      states := fun channel => .fresh () (inputs channel).2 0
      combiner := .initial k
      rr := 0
      mergedOffset := 0
      epochClosed := 0 }
  ahead := trajectories

/-- One source follows another by calls of `Next()` and `Seek(0)`. -/
def Visits [Source σ] : σ → σ → Prop :=
  Relation.ReflTransGen fun source later =>
    (∃ batch, Source.next source = some (batch, later)) ∨ later = Source.seek source 0

/-- A source delivers a trajectory in nonempty batches. A merge that is not live refuses an
empty batch, which only a live input returns. -/
def Supplies [Source σ] (source : σ) (trajectory : Batch) : Prop :=
  ∃ batches, Source.Delivers source batches ∧ [] ∉ batches ∧ batches.flatten = trajectory

/-- A channel that replays the same trajectory after `Seek(0)`, whatever it was used for. -/
structure Replays [Source σ] (source : σ) (trajectory : Batch) : Prop where
  first : Supplies source trajectory
  again : ∀ later, Visits source later → Supplies (Source.seek later 0) trajectory

/-- What a merge has been used for: any calls of `Next()` and `Seek()` that have returned. -/
inductive Used [Source σ] (start : SourceMerge σ k) : SourceMerge σ k → Prop where
  | unused : Used start start
  | next {merge : SourceMerge σ k} (used : Used start merge) {fuel : Nat} {clock : Nat → Nat}
      {outcome : NextOutcome σ k} (returned : merge.next fuel clock = .ok outcome) :
      Used start outcome.merge
  | seek {merge after : SourceMerge σ k} (used : Used start merge) {fuel offset : Nat}
      {clock : Nat → Nat} (returned : merge.seek fuel clock offset = .ok after) :
      Used start after

section Seeking

variable [Source σ] {inputs : Fin k → σ × List IdleSpan} {config : SourceMergeConfig}
  {created : Nat} {start merge after : SourceMerge σ k} {trajectories : Fin k → Batch}

/-- What stays true of a merge through any use: its options, its idle spans, and where its
sources come from. -/
structure Tended (inputs : Fin k → σ × List IdleSpan) (config : SourceMergeConfig)
    (merge : SourceMerge σ k) (machine : ItemMerge k) : Prop where
  refines : Refines merge machine
  config : merge.config = config
  idleSpans : ∀ channel, (merge.states channel).idleSpans = (inputs channel).2
  visits : ∀ channel, Visits (inputs channel).1 (merge.states channel).source

theorem visits_of_reaches {source later : σ} (reaches : Source.Reaches source later) :
    Visits source later :=
  Relation.ReflTransGen.mono (fun _ _ called => Or.inl called) _ _ reaches

/-- A walk keeps it. -/
theorem Tended.walks {machine next : ItemMerge k} {items : Batch}
    (tended : Tended inputs config merge machine) (walks : Walks merge machine items after next) :
    Tended inputs config after next where
  refines := walks.refines
  config := walks.config.trans tended.config
  idleSpans channel := (walks.idleSpans channel).trans (tended.idleSpans channel)
  visits channel := (tended.visits channel).trans (visits_of_reaches (walks.reaches channel))

/-- A fresh channel holds what its source delivers. -/
theorem Supplies.fresh {source : σ} {trajectory : Batch} (supplies : Supplies source trajectory)
    (idleSpans : List IdleSpan) (now : Nat) :
    (SourceState.fresh source idleSpans now).Holds trajectory := by
  obtain ⟨batches, delivers, nonempty, flat⟩ := supplies
  exact ⟨batches, delivers, nonempty, by simp [SourceState.fresh, flat]⟩

theorem construct_tended (constructed : construct inputs config created = .ok start)
    (supplies : ∀ channel, Supplies (inputs channel).1 (trajectories channel)) :
    Tended inputs config start (freshMachine inputs config trajectories) := by
  have aligned := construct_aligned constructed
  obtain rfl := construct_eq constructed
  refine ⟨⟨aligned, rfl, ?_⟩, rfl, fun _ => rfl, fun _ => .refl⟩
  exact fun channel => (supplies channel).fresh _ _

/-- Rewinding starts over, whatever the merge was used for. -/
theorem Tended.rewind {machine : ItemMerge k} (tended : Tended inputs config merge machine)
    (replays : ∀ channel, Replays (inputs channel).1 (trajectories channel)) (now : Nat) :
    Tended inputs config (merge.rewind.resetProgress now)
      (freshMachine inputs config trajectories) := by
  have spans : (fun channel => (merge.states channel).idleSpans) =
      fun channel => (inputs channel).2 := funext tended.idleSpans
  refine ⟨⟨fresh_aligned merge.config (fun channel => (Source.seek (merge.states channel).source 0,
    (merge.states channel).idleSpans)) now, ?_, ?_⟩, tended.config, tended.idleSpans, ?_⟩
  · rw [freshMachine, ← tended.config]
    exact congrArg (fun spans : Fin k → List IdleSpan => SourceMerge.mk
      { idleTimeout := merge.config.idleTimeout } (fun channel => .fresh () (spans channel) 0)
      (.initial k) 0 0 0) spans
  · intro channel
    exact ((replays channel).again _ (tended.visits channel)).fresh _ _
  · intro channel
    exact (tended.visits channel).tail (Or.inr rfl)

/-- A merge that is not live can seek. -/
theorem Tended.seek_eq {machine : ItemMerge k} (tended : Tended inputs config merge machine)
    (offline : config.liveInputs = false) (fuel offset : Nat) (clock : Nat → Nat) :
    merge.seek fuel clock offset =
      (merge.rewind.resetProgress (clock 0)).seekLoop fuel (fun reading => clock (reading + 1))
        offset := by
  apply if_neg
  rw [tended.config, offline]
  simp

/-- A call of `Seek` that has returned. -/
theorem Tended.seek_ok {machine : ItemMerge k} (tended : Tended inputs config merge machine)
    (offline : config.liveInputs = false)
    (replays : ∀ channel, Replays (inputs channel).1 (trajectories channel)) {fuel offset : Nat}
    {clock : Nat → Nat} (returned : merge.seek fuel clock offset = .ok after) :
    ∃ next, Tended inputs config after next ∧
      (offset ≤ (records (freshMachine inputs config trajectories).stream).length →
        after.currentOffset = offset ∧
          next.stream = afterRecord offset (freshMachine inputs config trajectories).stream) := by
  have rewound := tended.rewind replays (clock 0)
  rw [tended.seek_eq offline] at returned
  obtain ⟨taken, next, walks, lands⟩ := rewound.refines.seekLoop_ok (Nat.zero_le offset) returned
  refine ⟨next, rewound.walks walks, fun inside => ?_⟩
  exact lands (by rw [show (merge.rewind.resetProgress (clock 0)).mergedOffset = 0 from rfl]; omega)

theorem Tended.seek_total {machine : ItemMerge k} (tended : Tended inputs config merge machine)
    (offline : config.liveInputs = false)
    (replays : ∀ channel, Replays (inputs channel).1 (trajectories channel)) {fuel : Nat}
    (enough : (freshMachine inputs config trajectories).weight < fuel) (clock : Nat → Nat)
    (offset : Nat) :
    ∃ after, merge.seek fuel clock offset = .ok after := by
  rw [tended.seek_eq offline]
  exact (tended.rewind replays (clock 0)).refines.seekLoop_total enough _ offset

/-- Through any use of a constructed merge. -/
theorem Used.tended (used : Used start merge)
    (constructed : construct inputs config created = .ok start)
    (offline : config.liveInputs = false) (positive : 0 < config.mergedBatchSize)
    (replays : ∀ channel, Replays (inputs channel).1 (trajectories channel)) :
    ∃ machine, Tended inputs config merge machine := by
  induction used with
  | unused =>
    exact ⟨_, construct_tended constructed fun channel => (replays channel).first⟩
  | next _ returned inductionHypothesis =>
    obtain ⟨machine, tended⟩ := inductionHypothesis
    obtain ⟨_, next, walks, -⟩ :=
      tended.refines.next_ok (by rw [tended.config]; exact positive) returned
    exact ⟨next, tended.walks walks⟩
  | seek _ returned inductionHypothesis =>
    obtain ⟨machine, tended⟩ := inductionHypothesis
    obtain ⟨next, later, -⟩ := tended.seek_ok offline replays returned
    exact ⟨next, later⟩

/-- The batches that repeated calls of `Next()` return until the end of input concatenate
to the given items, whatever the clock reads. -/
def Drains (merge : SourceMerge σ k) (items : Batch) : Prop :=
  ∃ bound, ∀ fuel calls clocks, bound ≤ fuel → bound ≤ calls →
    ∃ batches pulled final, merge.drain fuel calls clocks = .ok (batches, pulled, final) ∧
      batches.flatten = items

theorem Tended.drains {machine : ItemMerge k} (tended : Tended inputs config merge machine)
    (positive : 0 < config.mergedBatchSize) : Drains merge machine.stream := by
  refine ⟨max machine.weight machine.stream.length + 1, ?_⟩
  intro fuel calls clocks enough often
  exact tended.refines.drains (by rw [tended.config]; exact positive) clocks (by omega) (by omega)

omit [Source σ] in
theorem construct_positive (constructed : construct inputs config created = .ok start) :
    0 < config.mergedBatchSize := by
  by_contra zero
  rw [construct, if_pos (Nat.eq_zero_of_not_pos zero)] at constructed
  cases constructed

end Seeking

/-- After any use, `Seek(O)` brings a merge over channels that replay their trajectories to
the point behind the `O`-th record: `CurrentOffset()` is `O`, and the calls of `Next()` that
follow return what follows that record in the uninterrupted stream. The stream is the same
for other batch sizes of the merge and of its channels. -/
theorem seek_replays_merge [Source σ] {inputs : Fin k → σ × List IdleSpan}
    {config : SourceMergeConfig} {created : Nat} {start : SourceMerge σ k}
    (constructed : construct inputs config created = .ok start)
    (offline : config.liveInputs = false) {trajectories : Fin k → Batch}
    (replays : ∀ channel, Replays (inputs channel).1 (trajectories channel)) :
    ∃ stream, Drains start stream ∧
      (∀ used, Used start used → ∀ offset ≤ (records stream).length,
        ∃ bound, ∀ fuel clock, bound ≤ fuel →
          ∃ after, used.seek fuel clock offset = .ok after ∧ after.currentOffset = offset ∧
            Drains after (afterRecord offset stream)) ∧
      ∀ {τ : Type} [Source τ] (others : Fin k → τ × List IdleSpan) (options : SourceMergeConfig)
        (now : Nat) (other : SourceMerge τ k), construct others options now = .ok other →
        options.liveInputs = false → options.idleTimeout = config.idleTimeout →
        (∀ channel, (others channel).2 = (inputs channel).2) →
        (∀ channel, Supplies (others channel).1 (trajectories channel)) →
          Drains other stream := by
  have positive := construct_positive constructed
  have started := construct_tended constructed fun channel => (replays channel).first
  refine ⟨(freshMachine inputs config trajectories).stream, started.drains positive, ?_, ?_⟩
  · intro merge used offset inside
    obtain ⟨machine, tended⟩ := used.tended constructed offline positive replays
    refine ⟨(freshMachine inputs config trajectories).weight + 1, ?_⟩
    intro fuel clock enough
    obtain ⟨after, returned⟩ :=
      tended.seek_total offline replays (Nat.lt_of_succ_le enough) clock offset
    obtain ⟨next, later, lands⟩ := tended.seek_ok offline replays returned
    obtain ⟨position, rest⟩ := lands inside
    refine ⟨after, returned, position, ?_⟩
    rw [← rest]
    exact later.drains positive
  · intro τ _ others options now other constructedOther offlineOther sameTimeout sameSpans supplies
    have tended := construct_tended constructedOther supplies
    have same : freshMachine others options trajectories =
        freshMachine inputs config trajectories := by
      simp only [freshMachine, sameTimeout, sameSpans]
    rw [← same]
    exact tended.drains (construct_positive constructedOther)

/-- A scripted source of nonempty batches replays its script. -/
theorem scripted_replays {source : ScriptedSource} (atStart : source.position = 0)
    (nonempty : [] ∉ source.script) : Replays source source.script.flatten := by
  have supplies (later : ScriptedSource) (same : later.script = source.script)
      (first : later.position = 0) : Supplies later source.script.flatten := by
    refine ⟨later.remaining, later.delivers, ?_, ?_⟩
    · rwa [ScriptedSource.remaining, first, same]
    · rw [ScriptedSource.remaining, first, same, List.drop_zero]
  refine ⟨supplies source rfl atStart, ?_⟩
  intro later visited
  have kept : later.script = source.script := by
    induction visited with
    | refl => rfl
    | tail _ called inductionHypothesis =>
      rcases called with ⟨batch, called⟩ | rfl
      · obtain ⟨_, _, same⟩ := Option.map_eq_some_iff.mp called
        rw [← inductionHypothesis, ← (Prod.mk.inj same).2]
      · exact inductionHypothesis
  exact supplies _ kept rfl

/-- Seeking in the merge of the lopsided channels. -/
theorem lopsided_seeks :
    ∃ start stream, construct lopsided { mergedBatchSize := 1, idleTimeout := 1 } 0 = .ok start ∧
      Drains start stream ∧
      ∀ used, Used start used → ∀ offset ≤ (records stream).length,
        ∃ bound, ∀ fuel clock, bound ≤ fuel →
          ∃ after, used.seek fuel clock offset = .ok after ∧ after.currentOffset = offset ∧
            Drains after (afterRecord offset stream) := by
  have replays (channel : Fin 2) :
      Replays (lopsided channel).1 (lopsided channel).1.script.flatten := by
    apply scripted_replays
    · fin_cases channel <;> rfl
    · fin_cases channel <;> decide
  obtain ⟨start, constructed⟩ : ∃ start, construct lopsided
      { mergedBatchSize := 1, idleTimeout := 1 } 0 = .ok start := ⟨_, rfl⟩
  obtain ⟨stream, drains, seeks, -⟩ := seek_replays_merge constructed rfl replays
  exact ⟨start, stream, constructed, drains, seeks⟩

end SourceMerge

end Stormglass
