import Stormglass.MergeProgress

/-!
# A merge as a machine over items

What a merge does depends on the items that its channels will deliver, not on how the
sources group them into batches. `ItemMerge` is the merge with the rest of each channel's
trajectory in place of its source and its buffer. Its step is a function, and its weight
falls with every step, so it has one stream.

A merge whose channels deliver finitely many nonempty batches refines the machine over
items: every step of the merge is a step of the machine, with the same output. The batch sizes of
the merge and of the channels do not occur in the machine.
-/

namespace Stormglass

namespace SourceState

variable {σ : Type}

/-- A channel without its source and its buffer. -/
def skeleton (state : SourceState σ) : SourceState Unit where
  source := ()
  buf := []
  cursor := 0
  exhausted := state.exhausted
  idleSpans := state.idleSpans
  nextSpan := state.nextSpan
  gapRemaining := state.gapRemaining
  dataPulled := state.dataPulled
  consecutiveEmpty := state.consecutiveEmpty
  idle := state.idle
  lastItem := 0
  barriersSeen := state.barriersSeen

/-- The items that a channel will still deliver: the rest of its buffer, and nonempty
batches of its source. -/
def Holds [Source σ] (state : SourceState σ) (items : Batch) : Prop :=
  ∃ batches, Source.Delivers state.source batches ∧ [] ∉ batches ∧
    items = state.buf.drop state.cursor ++ batches.flatten

/-- The part of a channel that its skeleton leaves out. -/
def supply (state : SourceState σ) : σ × Batch × Nat := (state.source, state.buf, state.cursor)

theorem Holds.congr [Source σ] {state other : SourceState σ} {items : Batch}
    (holds : state.Holds items) (same : other.supply = state.supply) : other.Holds items := by
  obtain ⟨batches, delivers, nonempty, split⟩ := holds
  obtain ⟨source, buf, cursor⟩ : other.source = state.source ∧ other.buf = state.buf ∧
      other.cursor = state.cursor := by
    simpa [supply] using same
  exact ⟨batches, source ▸ delivers, nonempty, by rw [buf, cursor, split]⟩

theorem supply_openGap (state : SourceState σ) : state.openGap.supply = state.supply := by
  obtain ⟨gap, span, opened, _⟩ := state.openGap_eq
  rw [opened]
  rfl

theorem skeleton_openGap (state : SourceState σ) :
    state.openGap.skeleton = state.skeleton.openGap := by
  unfold openGap
  have spans : state.skeleton.idleSpans[state.skeleton.nextSpan]? =
      state.idleSpans[state.nextSpan]? := rfl
  rw [spans]
  cases state.idleSpans[state.nextSpan]? with
  | none => rfl
  | some span =>
    dsimp only
    by_cases opens : state.gapRemaining = 0 ∧ span.startOffset = state.dataPulled
    · rw [if_pos opens]
      exact (if_pos opens).symm
    · rw [if_neg opens]
      exact (if_neg opens).symm

section Pulling

variable [Source σ] {state : SourceState σ} {config : SourceMergeConfig} {now : Nat}

/-- A channel that holds no item is at its end. -/
theorem Holds.pull_nil (holds : state.Holds []) :
    state.pullNextItem config now = .ok (.exhausted, { state with exhausted := true }) := by
  obtain ⟨batches, delivers, nonempty, nothing⟩ := holds
  obtain ⟨drained, ended⟩ := List.append_eq_nil_iff.mp nothing.symm
  have used : state.buf.length ≤ state.cursor := List.drop_eq_nil_iff.mp drained
  have none : Source.next state.source = none := by
    cases delivers with
    | ended observed => exact observed
    | @handed _ rest batch batches observed later =>
      have empty : batch = [] := (List.append_eq_nil_iff.mp ended).1
      exact absurd (empty ▸ List.mem_cons_self) nonempty
  rw [pullNextItem, if_pos used, none]

/-- A channel that holds an item delivers it. -/
theorem Holds.pull_cons {item : BatchItem} {items : Batch} (holds : state.Holds (item :: items)) :
    ∃ source buf cursor clock,
      state.pullNextItem config now = .ok (.item item,
        { state with source := source, buf := buf, cursor := cursor, lastItem := clock }) ∧
      Holds
        { state with source := source, buf := buf, cursor := cursor, lastItem := clock }
        items := by
  obtain ⟨batches, delivers, nonempty, split⟩ := holds
  by_cases used : state.buf.length ≤ state.cursor
  · rw [List.drop_eq_nil_of_le used, List.nil_append] at split
    cases delivers with
    | ended observed => simp at split
    | @handed _ rest batch batches observed later =>
      cases batch with
      | nil => simp at nonempty
      | cons first others =>
        rw [List.flatten_cons, List.cons_append] at split
        obtain ⟨rfl, rfl⟩ := List.cons.inj split
        rw [pullNextItem, if_pos used, observed]
        refine ⟨rest, item :: others, 1, _, rfl, batches, later, ?_, rfl⟩
        exact fun empty => nonempty (List.mem_cons_of_mem _ empty)
  · have inside : state.cursor < state.buf.length := not_le.mp used
    rw [List.drop_eq_getElem_cons inside, List.cons_append] at split
    obtain ⟨rfl, rfl⟩ := List.cons.inj split
    obtain ⟨clock, taken⟩ := takeBuffered_inside config now state inside
    rw [pullNextItem, if_neg used, taken]
    exact ⟨state.source, state.buf, state.cursor + 1, clock, rfl, batches, delivers, nonempty, rfl⟩

end Pulling

end SourceState

namespace SourceMerge

variable {σ : Type} {k : Nat}

/-- A merge without the sources and the buffers of its channels. Of the options only the
idle timeout is left. -/
def skeleton (merge : SourceMerge σ k) : SourceMerge Unit k where
  config := { idleTimeout := merge.config.idleTimeout }
  states := fun channel => (merge.states channel).skeleton
  combiner := merge.combiner
  rr := merge.rr
  mergedOffset := merge.mergedOffset
  epochClosed := merge.epochClosed

end SourceMerge

/-- What a step returns, on the merge without its sources. -/
def StepOutcome.skeleton {σ : Type} {k : Nat} (step : StepOutcome σ k) : StepOutcome Unit k where
  result := step.result
  pulled := step.pulled
  emitted := step.emitted
  data := step.data
  merge := step.merge.skeleton

namespace SourceMerge

section Skeletons

variable {σ : Type} {k : Nat} (merge : SourceMerge σ k) (channel : Fin k)

theorem skeleton_pickChannel : merge.skeleton.pickChannel = merge.pickChannel := rfl

theorem skeleton_update (states : Fin k → SourceState σ) (state : SourceState σ) :
    (fun other => (Function.update states channel state other).skeleton) =
      Function.update (fun other => (states other).skeleton) channel state.skeleton := by
  funext other
  by_cases same : other = channel
  · subst same
    simp
  · simp [same]

theorem skeleton_setState (state : SourceState σ) :
    (merge.setState channel state).skeleton = merge.skeleton.setState channel state.skeleton := by
  simp only [setState, skeleton, skeleton_update]

theorem skeleton_maybeCloseEpoch :
    merge.skeleton.maybeCloseEpoch =
      (merge.maybeCloseEpoch.1, merge.maybeCloseEpoch.2.skeleton) := by
  unfold maybeCloseEpoch
  by_cases behind : ∃ channel, merge.Active channel ∧
      (merge.states channel).barriersSeen < merge.epochClosed + 1
  · simp only [if_pos behind]
    exact if_pos behind
  · by_cases someActive : ∃ channel, merge.Active channel
    · simp only [if_neg behind, if_pos someActive]
      exact (if_neg behind).trans (if_pos someActive)
    · simp only [if_neg behind, if_neg someActive]
      exact (if_neg behind).trans (if_neg someActive)

theorem skeleton_excludeChannel :
    merge.skeleton.excludeChannel channel =
      ((merge.excludeChannel channel).1, (merge.excludeChannel channel).2.skeleton) := by
  have closed := skeleton_maybeCloseEpoch
    { merge with combiner := (merge.combiner.markIdle channel).2 }
  have unfolded : merge.skeleton.excludeChannel channel =
      (merge.announce (merge.combiner.markIdle channel).1 ++
        (skeleton { merge with combiner := (merge.combiner.markIdle channel).2 }).maybeCloseEpoch.1,
        (skeleton { merge with
          combiner := (merge.combiner.markIdle channel).2 }).maybeCloseEpoch.2) := by
    cases report : (merge.combiner.markIdle channel).1 with
    | none => simp only [excludeChannel, skeleton, report]; rfl
    | some watermark => simp only [excludeChannel, skeleton, report]; rfl
  rw [unfolded, closed]
  rfl

theorem skeleton_markChannelIdle :
    merge.skeleton.markChannelIdle channel =
      ((merge.markChannelIdle channel).1, (merge.markChannelIdle channel).2.skeleton) := by
  unfold markChannelIdle
  rw [← skeleton_excludeChannel, skeleton_setState]
  rfl

theorem skeleton_resume : (merge.resume channel).skeleton = merge.skeleton.resume channel := by
  unfold resume
  by_cases idle : (merge.states channel).idle = true
  · rw [if_pos idle]
    refine Eq.trans ?_ (if_pos idle).symm
    simp only [skeleton, setState, skeleton_update]
    rfl
  · rw [if_neg idle]
    exact (if_neg idle).symm

theorem skeleton_tick (state : SourceState σ) :
    (merge.tick channel state).skeleton = merge.skeleton.tick channel state.skeleton := by
  let ticked : SourceState σ :=
    { state with
      gapRemaining := state.gapRemaining - 1, consecutiveEmpty := state.consecutiveEmpty + 1 }
  let turned : SourceMerge σ k :=
    { merge.setState channel ticked with rr := (channel.val + 1) % k }
  have turn : turned.skeleton =
      { merge.skeleton.setState channel ticked.skeleton with rr := (channel.val + 1) % k } := by
    simp only [turned, skeleton, setState, skeleton_update]
  have idled := skeleton_markChannelIdle turned channel
  rw [turn] at idled
  unfold tick
  by_cases trips : 0 < merge.config.idleTimeout ∧ state.idle = false ∧
      merge.config.idleTimeout ≤ state.consecutiveEmpty + 1
  · refine (congrArg StepOutcome.skeleton (if_pos trips)).trans ?_
    refine Eq.trans ?_ (if_pos trips).symm
    exact congrArg (fun result : Batch × SourceMerge Unit k => StepOutcome.mk .produced none
      result.1 0 result.2) idled.symm
  · refine (congrArg StepOutcome.skeleton (if_neg trips)).trans ?_
    refine Eq.trans ?_ (if_neg trips).symm
    exact congrArg (StepOutcome.mk .produced none [] 0) turn

theorem skeleton_deliver (item : BatchItem) :
    (merge.deliver channel item).skeleton = merge.skeleton.deliver channel item := by
  match item with
  | .record data =>
    simp only [deliver, StepOutcome.skeleton, skeleton, setState, skeleton_update]
    rfl
  | .control { type := .watermark, watermark := watermark, checkpointOffset := offset } =>
    have announced (report : Option Timestamp) :
        merge.announce report = merge.skeleton.announce report := by
      cases report <;> rfl
    simp only [deliver, StepOutcome.skeleton, announced]
    rfl
  | .control { type := .checkpointBarrier, watermark := watermark, checkpointOffset := offset } =>
    let state := merge.states channel
    have closed := skeleton_maybeCloseEpoch
      (merge.setState channel { state with barriersSeen := state.barriersSeen + 1 })
    rw [skeleton_setState] at closed
    exact congrArg (fun result : Batch × SourceMerge Unit k => StepOutcome.mk .produced
      (some (channel, .control ⟨.checkpointBarrier, watermark, offset⟩)) result.1 0 result.2)
      closed.symm

end Skeletons

/-- A view of a channel that does not show the counters of the merge. -/
structure Steady {σ α : Type} (view : SourceState σ → α) : Prop where
  idle : ∀ state flag, view { state with idle := flag } = view state
  consecutiveEmpty : ∀ state count, view { state with consecutiveEmpty := count } = view state
  dataPulled : ∀ state count, view { state with dataPulled := count } = view state
  barriersSeen : ∀ state count, view { state with barriersSeen := count } = view state

/-- A view of every channel. -/
def seen {σ α : Type} {k : Nat} (view : SourceState σ → α) (merge : SourceMerge σ k) : Fin k → α :=
  fun channel => view (merge.states channel)

section Views

variable {σ α : Type} {k : Nat} {view : SourceState σ → α} (merge : SourceMerge σ k)
  (channel : Fin k)

theorem seen_setState (state : SourceState σ) :
    seen view (merge.setState channel state) =
      Function.update (seen view merge) channel (view state) := by
  funext other
  by_cases same : other = channel
  · subst same
    simp [seen, setState]
  · simp [seen, setState, same]

theorem seen_kept {state : SourceState σ} (same : view state = view (merge.states channel)) :
    seen view (merge.setState channel state) = seen view merge := by
  rw [seen_setState, same]
  exact Function.update_eq_self channel (seen view merge)

theorem seen_maybeCloseEpoch : seen view merge.maybeCloseEpoch.2 = seen view merge := by
  funext other
  simp [seen]

theorem seen_excludeChannel : seen view (merge.excludeChannel channel).2 = seen view merge :=
  seen_maybeCloseEpoch { merge with combiner := (merge.combiner.markIdle channel).2 }

variable (steady : Steady view)

include steady

theorem Steady.markChannelIdle :
    seen view (merge.markChannelIdle channel).2 = seen view merge := by
  rw [SourceMerge.markChannelIdle, seen_excludeChannel, seen_kept]
  exact steady.idle _ _

theorem Steady.resume : seen view (merge.resume channel) = seen view merge := by
  unfold SourceMerge.resume
  split
  · exact seen_kept merge channel (steady.idle _ _)
  · rfl

theorem Steady.tick (state : SourceState σ) :
    seen view (merge.tick channel state).merge = Function.update (seen view merge) channel
      (view { state with gapRemaining := state.gapRemaining - 1 }) := by
  let paused : SourceState σ := { state with gapRemaining := state.gapRemaining - 1 }
  let ticked : SourceState σ := { paused with consecutiveEmpty := state.consecutiveEmpty + 1 }
  have turned :
      seen view { merge.setState channel ticked with rr := (channel.val + 1) % k } =
        Function.update (seen view merge) channel (view paused) := by
    rw [← steady.consecutiveEmpty paused (state.consecutiveEmpty + 1)]
    exact seen_setState merge channel ticked
  unfold SourceMerge.tick
  dsimp only
  split
  · exact (steady.markChannelIdle _ channel).trans turned
  · exact turned

theorem Steady.deliver (item : BatchItem) :
    seen view (merge.deliver channel item).merge = seen view merge := by
  match item with
  | .record data => exact seen_kept merge channel (steady.dataPulled _ _)
  | .control { type := .watermark, watermark := watermark, checkpointOffset := offset } => rfl
  | .control { type := .checkpointBarrier, watermark := watermark, checkpointOffset := offset } =>
    exact (seen_maybeCloseEpoch _).trans (seen_kept merge channel (steady.barriersSeen _ _))

end Views

theorem steady_supply {σ : Type} : Steady (@SourceState.supply σ) :=
  ⟨fun _ _ => rfl, fun _ _ => rfl, fun _ _ => rfl, fun _ _ => rfl⟩

end SourceMerge

/-- A merge with the rest of each channel's trajectory. -/
structure ItemMerge (k : Nat) where
  skeleton : SourceMerge Unit k
  ahead : Fin k → Batch

namespace ItemMerge

variable {k : Nat}

/-- A turn of one channel: an idle tick, the end of its trajectory, or its next item. -/
def serve (machine : ItemMerge k) (channel : Fin k) : StepOutcome Unit k × (Fin k → Batch) :=
  let state := (machine.skeleton.states channel).openGap
  if 0 < state.gapRemaining then (machine.skeleton.tick channel state, machine.ahead)
  else
    match machine.ahead channel with
    | [] =>
      let excluded :=
        (machine.skeleton.setState channel { state with exhausted := true }).excludeChannel channel
      ({ result := .produced, pulled := none, emitted := excluded.1, data := 0
         merge := excluded.2 }, machine.ahead)
    | item :: rest =>
      let merge : SourceMerge Unit k :=
        { machine.skeleton.setState channel state with rr := (channel.val + 1) % k }
      let merge := merge.resume channel
      let merge := merge.setState channel { merge.states channel with consecutiveEmpty := 0 }
      (merge.deliver channel item, Function.update machine.ahead channel rest)

/-- One step: the items it appends and the machine after it, or nothing when every channel
is exhausted or blocked. -/
def step (machine : ItemMerge k) : Option (Batch × ItemMerge k) :=
  machine.skeleton.pickChannel.map fun channel =>
    let served := machine.serve channel
    (served.1.emitted, { skeleton := served.1.merge, ahead := served.2 })

theorem serve_result (machine : ItemMerge k) (channel : Fin k) :
    (machine.serve channel).1.result = .produced := by
  unfold serve
  dsimp only
  split
  · unfold SourceMerge.tick
    dsimp only
    split <;> rfl
  · cases machine.ahead channel with
    | nil => rfl
    | cons item rest =>
      match item with
      | .record data => rfl
      | .control { type := .watermark, .. } => rfl
      | .control { type := .checkpointBarrier, .. } => rfl

end ItemMerge

namespace SourceMerge

variable {σ : Type} {k : Nat} [Source σ]

/-- A merge refines the machine over the items that its channels hold. -/
structure Refines (merge : SourceMerge σ k) (machine : ItemMerge k) : Prop where
  aligned : Aligned merge
  skeleton : merge.skeleton = machine.skeleton
  holds : ∀ channel, (merge.states channel).Holds (machine.ahead channel)

/-- Every channel holds its items when its supply has not changed. -/
theorem holds_of_supplies {merge after : SourceMerge σ k} {items : Fin k → Batch}
    (holds : ∀ channel, (merge.states channel).Holds (items channel))
    (same : seen SourceState.supply after = seen SourceState.supply merge) (channel : Fin k) :
    (after.states channel).Holds (items channel) :=
  (holds channel).congr (congrFun same channel)

/-- A turn of the merge is the turn of the machine. -/
theorem Refines.serve {merge : SourceMerge σ k} {machine : ItemMerge k}
    (refines : Refines merge machine) (channel : Fin k) (now : Nat) :
    ∃ step, merge.serve now channel = .ok step ∧
      step.skeleton = (machine.serve channel).1 ∧
      ∀ other, (step.merge.states other).Holds ((machine.serve channel).2 other) := by
  have opened : (machine.skeleton.states channel).openGap =
      (merge.states channel).openGap.skeleton := by
    rw [← refines.skeleton]
    exact (merge.states channel).skeleton_openGap.symm
  have holds := (refines.holds channel).congr (merge.states channel).supply_openGap
  unfold SourceMerge.serve ItemMerge.serve
  rw [opened, ← refines.skeleton]
  dsimp only
  by_cases gap : 0 < (merge.states channel).openGap.gapRemaining
  · have sameGap : 0 < (merge.states channel).openGap.skeleton.gapRemaining := gap
    rw [if_pos gap, if_pos sameGap]
    refine ⟨_, rfl, skeleton_tick _ _ _, holds_of_supplies refines.holds ?_⟩
    rw [steady_supply.tick]
    have same := (merge.states channel).supply_openGap
    exact (congrArg (Function.update _ channel) same).trans (Function.update_eq_self channel _)
  · have sameGap : ¬ 0 < (merge.states channel).openGap.skeleton.gapRemaining := gap
    rw [if_neg gap, if_neg sameGap]
    cases ahead : machine.ahead channel with
    | nil =>
      rw [ahead] at holds
      rw [holds.pull_nil]
      let closed := merge.setState channel
        { (merge.states channel).openGap with exhausted := true }
      refine ⟨_, rfl, ?_, holds_of_supplies refines.holds ?_⟩
      · have excluded := skeleton_excludeChannel closed channel
        rw [skeleton_setState] at excluded
        exact congrArg (fun result : Batch × SourceMerge Unit k =>
          StepOutcome.mk .produced none result.1 0 result.2) excluded.symm
      · exact (seen_excludeChannel closed channel).trans
          (seen_kept merge channel (merge.states channel).supply_openGap)
    | cons item rest =>
      rw [ahead] at holds
      obtain ⟨source, buf, cursor, clock, pulled, later⟩ := holds.pull_cons
      rw [pulled]
      -- The item is delivered to the merge after the rotation and the resumption.
      let state : SourceState σ := { (merge.states channel).openGap with
        source := source, buf := buf, cursor := cursor, lastItem := clock }
      let turned : SourceMerge σ k :=
        { merge.setState channel state with rr := (channel.val + 1) % k }
      let resumed := turned.resume channel
      let awake := resumed.setState channel
        { resumed.states channel with consecutiveEmpty := 0 }
      refine ⟨awake.deliver channel item, rfl, ?_, ?_⟩
      · have turn : turned.skeleton =
            { merge.skeleton.setState channel (merge.states channel).openGap.skeleton with
              rr := (channel.val + 1) % k } := by
          simp only [turned, SourceMerge.skeleton, setState, skeleton_update]
          rfl
        have resumes : resumed.skeleton = turned.skeleton.resume channel :=
          skeleton_resume turned channel
        have wakes : awake.skeleton = resumed.skeleton.setState channel
            { resumed.skeleton.states channel with consecutiveEmpty := 0 } :=
          skeleton_setState resumed channel _
        rw [skeleton_deliver, wakes, resumes, turn]
      · have supply : seen SourceState.supply (awake.deliver channel item).merge =
            Function.update (seen SourceState.supply merge) channel state.supply :=
          calc seen SourceState.supply (awake.deliver channel item).merge
              = seen SourceState.supply awake := steady_supply.deliver awake channel item
            _ = seen SourceState.supply resumed := seen_kept resumed channel rfl
            _ = seen SourceState.supply turned := steady_supply.resume turned channel
            _ = Function.update (seen SourceState.supply merge) channel state.supply :=
              seen_setState merge channel state
        intro other
        change SourceState.Holds _ (Function.update machine.ahead channel rest other)
        have own := congrFun supply other
        by_cases same : other = channel
        · subst same
          rw [Function.update_self] at own ⊢
          exact later.congr own
        · rw [Function.update_of_ne same] at own ⊢
          exact (refines.holds other).congr own

/-- A step of the merge is the step of the machine, and its sources only move forward. -/
theorem Refines.step_some {merge : SourceMerge σ k} {machine next : ItemMerge k} {items : Batch}
    (refines : Refines merge machine) (stepped : machine.step = some (items, next)) (now : Nat) :
    ∃ step, merge.produceOneMergedStep now = .ok step ∧ step.result = .produced ∧
      step.emitted = items ∧ step.data = (records items).length ∧ Refines step.merge next ∧
      step.merge.config = merge.config ∧
      ∀ channel, Source.Reaches (merge.states channel).source
        (step.merge.states channel).source := by
  obtain ⟨channel, picked, same⟩ := Option.map_eq_some_iff.mp stepped
  obtain ⟨rfl, rfl⟩ := Prod.mk.inj same
  rw [← refines.skeleton, skeleton_pickChannel] at picked
  obtain ⟨step, served, skeleton, holds⟩ := refines.serve channel now
  have taken := serve_turn served
  have emitted : step.emitted = (machine.serve channel).1.emitted :=
    congrArg StepOutcome.emitted skeleton
  have result : step.result = .produced :=
    (congrArg StepOutcome.result skeleton).trans (machine.serve_result channel)
  have produced : merge.produceOneMergedStep now = .ok step := by
    rw [produceOneMergedStep, picked]
    exact served
  refine ⟨step, produced, result, emitted, ?_,
    ⟨step_aligned refines.aligned produced, ?_, holds⟩, turn_config taken, ?_⟩
  · rw [turn_data taken, emitted]
  · exact congrArg StepOutcome.merge skeleton
  · intro other
    by_cases own : other = channel
    · subst own
      exact (turn_draws taken).reaches
    · rw [(turn_draws taken).others other own]
      exact .refl

/-- When the machine has stopped, the merge finds no channel to serve. -/
theorem Refines.step_none {merge : SourceMerge σ k} {machine : ItemMerge k}
    (refines : Refines merge machine) (stopped : machine.step = none) (now : Nat) :
    merge.produceOneMergedStep now =
      .ok { result := .exhausted, pulled := none, emitted := [], data := 0, merge := merge } := by
  have none := Option.map_eq_none_iff.mp stopped
  rw [← refines.skeleton, skeleton_pickChannel] at none
  rw [produceOneMergedStep, none]

end SourceMerge

namespace SourceState

variable {σ : Type}

/-- The turns that a channel can still spend without delivering an item. -/
def load (state : SourceState σ) : Nat := state.ticks + if state.exhausted = true then 0 else 1

theorem load_openGap (state : SourceState σ) : state.openGap.load = state.load := by
  obtain ⟨gap, span, opened, total⟩ := state.openGap_eq
  rw [opened, load, load, ← total]
  rfl

theorem load_tick {state : SourceState σ} (gap : 0 < state.gapRemaining) :
    load { state with gapRemaining := state.gapRemaining - 1 } < state.load := by
  simp only [load, ticks]
  omega

theorem load_exhausted {state : SourceState σ} (live : state.exhausted = false) :
    load { state with exhausted := true } < state.load := by
  have more : state.load = state.ticks + 1 := by simp [load, live]
  rw [more]
  exact Nat.lt_succ_self _

end SourceState

namespace ItemMerge

variable {k : Nat}

/-- The channel as its turn leaves it, without the counters of the merge. -/
def moved (machine : ItemMerge k) (channel : Fin k) : SourceState Unit :=
  let state := (machine.skeleton.states channel).openGap
  if 0 < state.gapRemaining then { state with gapRemaining := state.gapRemaining - 1 }
  else
    match machine.ahead channel with
    | [] => { state with exhausted := true }
    | _ :: _ => state

/-- A turn moves its own channel only. -/
theorem serve_seen {α : Type} {view : SourceState Unit → α} (steady : SourceMerge.Steady view)
    (machine : ItemMerge k) (channel : Fin k) :
    SourceMerge.seen view (machine.serve channel).1.merge =
      Function.update (SourceMerge.seen view machine.skeleton) channel
        (view (machine.moved channel)) := by
  unfold serve moved
  dsimp only
  split
  · exact steady.tick _ _ _
  · cases machine.ahead channel with
    | nil =>
      exact (SourceMerge.seen_excludeChannel _ _).trans (SourceMerge.seen_setState _ _ _)
    | cons item rest =>
      refine (steady.deliver _ channel item).trans ?_
      refine (SourceMerge.seen_kept _ channel (steady.consecutiveEmpty _ _)).trans ?_
      refine (steady.resume _ channel).trans ?_
      exact SourceMerge.seen_setState _ _ _

theorem steady_load : SourceMerge.Steady (@SourceState.load Unit) :=
  ⟨fun _ _ => rfl, fun _ _ => rfl, fun _ _ => rfl, fun _ _ => rfl⟩

/-- The steps that a machine can still take. -/
def weight (machine : ItemMerge k) : Nat :=
  ∑ channel, ((machine.ahead channel).length + (machine.skeleton.states channel).load)

/-- A turn uses up an item of its channel, or a turn without one. -/
theorem serve_load (machine : ItemMerge k) (channel : Fin k)
    (live : (machine.skeleton.states channel).exhausted = false) :
    ((machine.serve channel).2 channel).length + (machine.moved channel).load <
      (machine.ahead channel).length + (machine.skeleton.states channel).load := by
  have opened := (machine.skeleton.states channel).load_openGap
  have liveGap : (machine.skeleton.states channel).openGap.exhausted = false := by
    obtain ⟨gap, span, same, _⟩ := (machine.skeleton.states channel).openGap_eq
    rw [same]
    exact live
  unfold serve moved
  dsimp only
  split
  next gap =>
    have fewer := SourceState.load_tick gap
    dsimp only
    omega
  next =>
    cases ahead : machine.ahead channel with
    | nil =>
      have fewer := SourceState.load_exhausted liveGap
      simp only [ahead]
      omega
    | cons item rest =>
      simp only [Function.update_self, List.length_cons]
      omega

theorem serve_ahead (machine : ItemMerge k) {channel other : Fin k} (different : other ≠ channel) :
    (machine.serve channel).2 other = machine.ahead other := by
  unfold serve
  dsimp only
  split
  · rfl
  · cases machine.ahead channel with
    | nil => rfl
    | cons item rest => exact Function.update_of_ne different _ _

/-- Every step lowers the weight. -/
theorem step_weight {machine next : ItemMerge k} {items : Batch}
    (stepped : machine.step = some (items, next)) : next.weight < machine.weight := by
  obtain ⟨channel, picked, same⟩ := Option.map_eq_some_iff.mp stepped
  obtain ⟨rfl, rfl⟩ := Prod.mk.inj same
  have live := (SourceMerge.pickChannel_free picked).1
  have loads := serve_seen steady_load machine channel
  have spent := machine.serve_load channel live
  have own : ((machine.serve channel).1.merge.states channel).load =
      (machine.moved channel).load :=
    (congrFun loads channel).trans (Function.update_self _ _ _)
  have others (other : Fin k) (different : other ≠ channel) :
      ((machine.serve channel).1.merge.states other).load =
        (machine.skeleton.states other).load :=
    (congrFun loads other).trans (Function.update_of_ne different _ _)
  apply Finset.sum_lt_sum
  · intro other _
    dsimp only
    by_cases same : other = channel
    · subst same
      omega
    · rw [machine.serve_ahead same, others other same]
  · refine ⟨channel, Finset.mem_univ channel, ?_⟩
    dsimp only
    omega

/-- The items of the steps that a machine takes within a number of steps. -/
def streamWithin : Nat → ItemMerge k → Batch
  | 0, _ => []
  | fuel + 1, machine =>
    match machine.step with
    | none => []
    | some (items, next) => items ++ streamWithin fuel next

/-- The stream of a machine. -/
def stream (machine : ItemMerge k) : Batch := streamWithin machine.weight machine

theorem streamWithin_eq {machine : ItemMerge k} {fuel : Nat} (enough : machine.weight ≤ fuel) :
    streamWithin fuel machine = machine.stream := by
  -- Both sides take the same steps; the induction is on the fuel of either.
  have agree (more : Nat) : ∀ (fewer : Nat) (machine : ItemMerge k), machine.weight ≤ fewer →
      fewer ≤ more → streamWithin more machine = streamWithin fewer machine := by
    induction more with
    | zero =>
      intro fewer machine _ bounded
      rw [Nat.le_zero.mp bounded]
    | succ more inductionHypothesis =>
      intro fewer machine sufficient bounded
      cases stepped : machine.step with
      | none => cases fewer <;> simp [streamWithin, stepped]
      | some found =>
        obtain ⟨items, next⟩ := found
        have lighter := step_weight stepped
        obtain ⟨fewer, rfl⟩ : ∃ rest, fewer = rest + 1 := ⟨fewer - 1, by omega⟩
        simp only [streamWithin, stepped]
        rw [inductionHypothesis fewer next (by omega) (by omega)]
  exact agree fuel machine.weight machine le_rfl enough

theorem stream_none {machine : ItemMerge k} (stopped : machine.step = none) :
    machine.stream = [] := by
  rw [← streamWithin_eq (Nat.le_succ machine.weight), streamWithin, stopped]

theorem stream_some {machine next : ItemMerge k} {items : Batch}
    (stepped : machine.step = some (items, next)) : machine.stream = items ++ next.stream := by
  have lighter := step_weight stepped
  rw [← streamWithin_eq (Nat.le_succ machine.weight), streamWithin, stepped]
  exact congrArg (items ++ ·) (streamWithin_eq (by omega))

end ItemMerge

end Stormglass
