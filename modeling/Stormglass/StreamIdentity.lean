import Stormglass.MergeOrigins
import Stormglass.SourceDescriptors
import Stormglass.SourceOffsets

/-!
# What an equal descriptor promises

A restore takes an equal descriptor for the same stream. For generators this is right: the
descriptor leaves out the length of the stream and its grouping, and a longer stream goes on
where the shorter one ends.

For a merge the lengths of its channels are more than that. A channel that ends earlier gives its
turns to the others, so the order of the merged records changes from there on, unless the merge
has no record left.
-/

namespace Stormglass

section Replays

variable {σ τ : Type} [Source σ] [Source τ]

/-- After `Seek(O)` a source goes on behind the first `O` records of its stream. -/
def Repositions (source : σ) (whole : List Batch) : Prop :=
  ∀ offset ≤ (records whole.flatten).length, ∃ rest,
    Source.Delivers (Source.seek source offset) rest ∧
    ∃ passed : List Record, passed.length = offset ∧
      records whole.flatten = passed ++ records rest.flatten

/-- Two sources replay the same stream: the records of one are the first records of the other,
and `Seek(O)` takes both behind the same `O` records. -/
def ReplaySame (first : σ) (second : τ) : Prop :=
  ∃ whole others, Source.Delivers first whole ∧ Source.Delivers second others ∧
    (records whole.flatten <+: records others.flatten ∨
      records others.flatten <+: records whole.flatten) ∧
    ∀ offset ≤ (records whole.flatten).length, offset ≤ (records others.flatten).length →
      ∃ rest remaining, Source.Delivers (Source.seek first offset) rest ∧
        Source.Delivers (Source.seek second offset) remaining ∧
        ∃ passed : List Record, passed.length = offset ∧
          records whole.flatten = passed ++ records rest.flatten ∧
          records others.flatten = passed ++ records remaining.flatten

theorem replaySame_of {first : σ} {second : τ} {whole others : List Batch}
    (delivers : Source.Delivers first whole) (delivered : Source.Delivers second others)
    (repositions : Repositions first whole) (repositioned : Repositions second others)
    (begins : records whole.flatten <+: records others.flatten ∨
      records others.flatten <+: records whole.flatten) : ReplaySame first second := by
  refine ⟨whole, others, delivers, delivered, begins, ?_⟩
  intro offset inside within
  obtain ⟨rest, continues, passed, length, split⟩ := repositions offset inside
  obtain ⟨remaining, goes, past, size, parted⟩ := repositioned offset within
  have same : passed = past := by
    rcases begins with ⟨more, longer⟩ | ⟨more, longer⟩
    · rw [split, parted, List.append_assoc] at longer
      exact (List.append_inj longer (length.trans size.symm)).1
    · rw [split, parted, List.append_assoc] at longer
      exact (List.append_inj longer (size.trans length.symm)).1.symm
  exact ⟨rest, remaining, continues, goes, passed, length, split, same ▸ parted⟩

end Replays

theorem Continues.records {short long : Batch} (continues : Continues short long) :
    records short <+: records long := by
  obtain ⟨more, rfl, -⟩ := continues
  rw [records_append]
  exact List.prefix_append _ _

namespace DeterministicGenerator

variable {ε : Type} [RandomEngine ε]

/-- The trajectory of a generator from its start. -/
def trajectory (config : GeneratorConfig) (valid : config.Valid) : Batch :=
  ((initial config valid : DeterministicGenerator ε).rounds config.numRecords).1

theorem initial_repositions (config : GeneratorConfig) (valid : config.Valid) :
    ∃ whole, Source.Delivers (initial config valid : DeterministicGenerator ε) whole ∧
      whole.flatten = trajectory (ε := ε) config valid ∧
      Repositions (initial config valid : DeterministicGenerator ε) whole := by
  let start : DeterministicGenerator ε := initial config valid
  obtain ⟨whole, delivers, flat⟩ := delivers_rounds start
  refine ⟨whole, delivers, flat, ?_⟩
  intro offset inside
  have total : start.config.numRecords - start.offset = config.numRecords := Nat.sub_zero _
  rw [flat, total, records_rounds] at inside
  obtain ⟨rest, continues, later⟩ := delivers_rounds (start.seek offset)
  refine ⟨rest, continues, records (start.rounds offset).1, records_rounds offset start, ?_⟩
  have split : config.numRecords = offset + (config.numRecords - offset) := by omega
  have left : (start.seek offset).config.numRecords - (start.seek offset).offset =
      config.numRecords - offset := by
    rw [start.seek_eq, rounds_config, rounds_offset]
    exact congrArg (config.numRecords - ·) (Nat.zero_add offset)
  rw [flat, total, split, rounds_add, records_append, later, left, start.seek_eq]
  rfl

theorem initial_supplies (config : GeneratorConfig) (valid : config.Valid) :
    SourceMerge.Supplies (initial config valid : DeterministicGenerator ε)
      (trajectory (ε := ε) config valid) := by
  obtain ⟨whole, delivers, flat, -⟩ := initial_repositions (ε := ε) config valid
  exact ⟨whole, delivers, delivers.nonempty fun _ _ _ called => (next_offset called).2, flat⟩

/-- Of two similar generators one continues the other. -/
theorem trajectory_comparable {first second : GeneratorConfig} (valid : first.Valid)
    (also : second.Valid) (similar : first.Similar second) :
    Comparable (trajectory (ε := ε) first valid) (trajectory (ε := ε) second also) := by
  have paced : Paced (initial first valid : DeterministicGenerator ε) (initial second also) :=
    ⟨similar, by rw [initial, initial, similar.seed], rfl, rfl, rfl, rfl⟩
  have longer (generator : DeterministicGenerator ε) (few more : Nat) (bounded : few ≤ more) :
      Continues (generator.rounds few).1 (generator.rounds more).1 := by
    obtain ⟨extra, rfl⟩ := Nat.exists_eq_add_of_le bounded
    refine ⟨((generator.rounds few).2.rounds extra).1, congrArg Prod.fst (rounds_add ..), ?_⟩
    intro item head
    cases extra with
    | zero => cases head
    | succ extra =>
      obtain ⟨data, controls, items, -⟩ := ((generator.rounds few).2).round_spec.items
      rw [rounds_succ, items] at head
      exact ⟨data, (Option.mem_some.mp head).symm⟩
  unfold trajectory
  rw [paced.rounds]
  rcases Nat.le_total first.numRecords second.numRecords with few | many
  · exact Or.inl (longer _ _ _ few)
  · exact Or.inr (longer _ _ _ many)

/-- Generators with equal descriptors replay the same stream. -/
theorem replaySame_of_descriptor {double : Rat → Prop} (doubles : PlainDoubles ε double)
    {first second : GeneratorConfig} (valid : first.Valid) (also : second.Valid)
    (real : double first.lateFraction) (alsoReal : double second.lateFraction)
    (same : (initial first valid : DeterministicGenerator ε).descriptor =
      (initial second also : DeterministicGenerator ε).descriptor) :
    ReplaySame (initial first valid : DeterministicGenerator ε)
      (initial second also : DeterministicGenerator ε) := by
  obtain ⟨similar, -⟩ := descriptor_split doubles real alsoReal
    (congrArg (· ++ ([] : Bytes)) same)
  obtain ⟨whole, delivers, flat, repositions⟩ := initial_repositions (ε := ε) first valid
  obtain ⟨others, delivered, flatOthers, repositioned⟩ := initial_repositions (ε := ε) second also
  refine replaySame_of delivers delivered repositions repositioned ?_
  rw [flat, flatOthers]
  exact (trajectory_comparable valid also similar).imp Continues.records Continues.records

end DeterministicGenerator

namespace SourceMerge

variable {σ : Type} {k : Nat} [Source σ] {merge : SourceMerge σ k} {machine : ItemMerge k}

/-- The turn of the next step finds its channel at the end of its input. -/
def AtEnd (merge : SourceMerge σ k) : Prop :=
  ∃ channel, merge.pickChannel = some channel ∧
    ¬ 0 < (merge.states channel).openGap.gapRemaining ∧ (merge.states channel).Ended

/-- No channel delivers another record. -/
def Drained (merge : SourceMerge σ k) : Prop :=
  ∀ channel calls, records ((merge.states channel).ahead calls) = []

/-- Replayed step by step, the first turn that finds its channel ended in one merge only finds
no record left in that merge. -/
def Unshifted {τ : Type} [Source τ] {l : Nat} (first : SourceMerge σ k) (second : SourceMerge τ l) :
    Prop :=
  ∀ count here there, run first (List.replicate count 0) = .ok here →
    run second (List.replicate count 0) = .ok there →
    (∀ fewer < count, ∀ before behind, run first (List.replicate fewer 0) = .ok before →
      run second (List.replicate fewer 0) = .ok behind →
        (before.merge.AtEnd ↔ behind.merge.AtEnd)) →
    (here.merge.AtEnd → ¬ there.merge.AtEnd → here.merge.Drained) ∧
      (there.merge.AtEnd → ¬ here.merge.AtEnd → there.merge.Drained)

/-- The records that two merges hand out, with the numbers of their channels, agree as far as
both runs go. -/
def SameOrigins {τ : Type} [Source τ] {l : Nat} (first : SourceMerge σ k)
    (second : SourceMerge τ l) : Prop :=
  ∀ readings others here there, run first readings = .ok here → run second others = .ok there →
    ItemMerge.Agree (ItemMerge.tagged here.pulled) (ItemMerge.tagged there.pulled)

/-- A channel is at its end exactly if it holds no item. -/
theorem ended_iff {state : SourceState σ} {items : Batch} (holds : state.Holds items) :
    state.Ended ↔ items = [] := by
  obtain ⟨batches, delivers, filled, rfl⟩ := holds
  constructor
  · rintro ⟨used, last⟩
    rw [List.drop_eq_nil_of_le used]
    cases delivers with
    | ended observed => rfl
    | handed observed later =>
      rw [last] at observed
      cases observed
  · intro nothing
    obtain ⟨used, ended⟩ := List.append_eq_nil_iff.mp nothing
    refine ⟨List.drop_eq_nil_iff.mp used, ?_⟩
    cases delivers with
    | ended observed => exact observed
    | @handed _ rest batch batches observed later =>
      have empty : batch = [] := (List.append_eq_nil_iff.mp ended).1
      exact absurd (empty ▸ List.mem_cons_self) filled

theorem records_ahead_iff {state : SourceState σ} {items : Batch} (holds : state.Holds items) :
    (∀ calls, records (state.ahead calls) = []) ↔ records items = [] := by
  obtain ⟨batches, delivers, -, rfl⟩ := holds
  constructor
  · intro none
    have whole := none batches.length
    rwa [SourceState.ahead, delivers.itemsWithin_eq le_rfl] at whole
  · intro none calls
    have early := Source.itemsWithin_prefix state.source (Nat.le_max_left calls batches.length)
    rw [delivers.itemsWithin_eq (Nat.le_max_right calls batches.length)] at early
    obtain ⟨more, split⟩ := early
    rw [records_append, ← split, records_append] at none
    rw [SourceState.ahead, records_append]
    obtain ⟨buffered, rest⟩ := List.append_eq_nil_iff.mp none
    rw [buffered, (List.append_eq_nil_iff.mp rest).1]
    rfl

section

variable (refines : Refines merge machine)

include refines

theorem Refines.atEnd_iff : merge.AtEnd ↔ machine.AtEnd := by
  have gap (channel : Fin k) : (merge.skeleton.states channel).openGap.gapRemaining =
      (merge.states channel).openGap.gapRemaining :=
    congrArg SourceState.gapRemaining (merge.states channel).skeleton_openGap.symm
  unfold AtEnd ItemMerge.AtEnd
  simp only [gap, ← refines.skeleton, skeleton_pickChannel, ended_iff (refines.holds _)]

theorem Refines.drained_iff :
    merge.Drained ↔ machine.Drained :=
  forall_congr' fun channel => records_ahead_iff (refines.holds channel)

/-- A step of the merge pulls what the step of the machine does. -/
theorem Refines.step_pulled {now : Nat} {step : StepOutcome σ k}
    (stepped : merge.produceOneMergedStep now = .ok step) : step.pulled = machine.pulls := by
  have same : machine.skeleton.pickChannel = merge.pickChannel := by
    rw [← refines.skeleton, skeleton_pickChannel]
  unfold produceOneMergedStep at stepped
  rw [ItemMerge.pulls, same]
  cases picked : merge.pickChannel with
  | none =>
    rw [picked] at stepped
    cases stepped
    rfl
  | some channel =>
    rw [picked] at stepped
    obtain ⟨found, served, skeleton, -⟩ := refines.serve channel now
    obtain rfl := Except.ok.inj (stepped.symm.trans served)
    exact congrArg StepOutcome.pulled skeleton

/-- A step of the merge, or one that finds nothing to serve, is the step of the machine. -/
theorem Refines.advance (now : Nat) :
    ∃ step, merge.produceOneMergedStep now = .ok step ∧ Refines step.merge machine.advance ∧
      machine.origins = ItemMerge.tagged step.pulled.toList ++ machine.advance.origins := by
  cases stepped : machine.step with
  | none =>
    refine ⟨_, refines.step_none stepped now, ?_, ?_⟩
    · rw [ItemMerge.advance_none stepped]
      exact refines
    · rw [ItemMerge.advance_none stepped]
      rfl
  | some found =>
    obtain ⟨items, next⟩ := found
    obtain ⟨step, produced, -, -, -, later, -, -⟩ := refines.step_some stepped now
    rw [ItemMerge.advance_some stepped]
    refine ⟨step, produced, later, ?_⟩
    rw [ItemMerge.origins_some stepped, refines.step_pulled produced]

/-- A run of the merge is a run of the machine, and pulls the first of its origins. -/
theorem Refines.run (readings : List Nat) :
    ∃ trace, SourceMerge.run merge readings = .ok trace ∧
      Refines trace.merge (ItemMerge.advance^[readings.length] machine) ∧
      machine.origins = ItemMerge.tagged trace.pulled ++
        (ItemMerge.advance^[readings.length] machine).origins := by
  induction readings using List.reverseRecOn with
  | nil => exact ⟨Trace.initial merge, rfl, refines, rfl⟩
  | append_singleton readings now inductionHypothesis =>
    obtain ⟨before, ran, reached, split⟩ := inductionHypothesis
    obtain ⟨step, stepped, later, own⟩ := reached.advance now
    refine ⟨before.extend step, run_extend ran stepped, ?_, ?_⟩
    · rw [List.length_append, List.length_singleton, Function.iterate_succ_apply']
      exact later
    · rw [List.length_append, List.length_singleton, Function.iterate_succ_apply', split, own,
        ← List.append_assoc]
      exact congrArg (· ++ _) (ItemMerge.tagged_append _ _).symm

end

section Pairs

variable {τ : Type} [Source τ] {l : Nat} {second : SourceMerge τ l} {other : ItemMerge l}

theorem Refines.sameOrigins_iff (refines : Refines merge machine) (also : Refines second other) :
    SameOrigins merge second ↔ ItemMerge.Agree machine.origins other.origins := by
  constructor
  · intro same
    obtain ⟨here, ran, -, split⟩ := refines.run (List.replicate machine.weight 0)
    obtain ⟨there, ranAlso, -, splitAlso⟩ := also.run (List.replicate other.weight 0)
    rw [List.length_replicate, ItemMerge.origins_exhausted le_rfl,
      List.append_nil] at split splitAlso
    rw [split, splitAlso]
    exact same _ _ here there ran ranAlso
  · intro agree readings others here there ran ranAlso
    obtain ⟨trace, found, -, split⟩ := refines.run readings
    obtain ⟨traceAlso, foundAlso, -, splitAlso⟩ := also.run others
    obtain rfl := Except.ok.inj (ran.symm.trans found)
    obtain rfl := Except.ok.inj (ranAlso.symm.trans foundAlso)
    have early : ItemMerge.tagged here.pulled <+: machine.origins := ⟨_, split.symm⟩
    have earlyAlso : ItemMerge.tagged there.pulled <+: other.origins := ⟨_, splitAlso.symm⟩
    rcases agree with shorter | longer
    · exact List.prefix_or_prefix_of_prefix (early.trans shorter) earlyAlso
    · exact List.prefix_or_prefix_of_prefix early (earlyAlso.trans longer)

theorem Refines.unshifted_iff (refines : Refines merge machine) (also : Refines second other) :
    Unshifted merge second ↔ machine.Unshifted other := by
  have points (count : Nat) : ∃ here there,
      SourceMerge.run merge (List.replicate count 0) = .ok here ∧
      SourceMerge.run second (List.replicate count 0) = .ok there ∧
      Refines here.merge (ItemMerge.advance^[count] machine) ∧
      Refines there.merge (ItemMerge.advance^[count] other) := by
    obtain ⟨here, ran, reached, -⟩ := refines.run (List.replicate count 0)
    obtain ⟨there, ranAlso, reachedAlso, -⟩ := also.run (List.replicate count 0)
    rw [List.length_replicate] at reached reachedAlso
    exact ⟨here, there, ran, ranAlso, reached, reachedAlso⟩
  constructor
  · intro unshifted count agree
    obtain ⟨here, there, ran, ranAlso, reached, reachedAlso⟩ := points count
    rw [← reached.atEnd_iff, ← reachedAlso.atEnd_iff, ← reached.drained_iff,
      ← reachedAlso.drained_iff]
    refine unshifted count here there ran ranAlso ?_
    intro fewer bounded before behind early earlyAlso
    obtain ⟨point, other, found, foundAlso, passed, passedAlso⟩ := points fewer
    obtain rfl := Except.ok.inj (early.symm.trans found)
    obtain rfl := Except.ok.inj (earlyAlso.symm.trans foundAlso)
    rw [passed.atEnd_iff, passedAlso.atEnd_iff]
    exact agree fewer bounded
  · intro unshifted count here there ran ranAlso agree
    obtain ⟨point, other, found, foundAlso, reached, reachedAlso⟩ := points count
    obtain rfl := Except.ok.inj (ran.symm.trans found)
    obtain rfl := Except.ok.inj (ranAlso.symm.trans foundAlso)
    rw [reached.atEnd_iff, reachedAlso.atEnd_iff, reached.drained_iff, reachedAlso.drained_iff]
    refine unshifted count ?_
    intro fewer bounded
    obtain ⟨before, behind, early, earlyAlso, passed, passedAlso⟩ := points fewer
    rw [← passed.atEnd_iff, ← passedAlso.atEnd_iff]
    exact agree fewer bounded before behind early earlyAlso

end Pairs

section Generators

variable {ε : Type} [RandomEngine ε]

/-- The channels of a merge over generators. -/
def generatorInputs (configs : Fin k → GeneratorConfig) (valid : ∀ channel, (configs channel).Valid)
    (spans : Fin k → List IdleSpan) : Fin k → DeterministicGenerator ε × List IdleSpan :=
  fun channel => (.initial (configs channel) (valid channel), spans channel)

variable {configs : Fin k → GeneratorConfig} {valid : ∀ channel, (configs channel).Valid}
  {spans : Fin k → List IdleSpan} {config : SourceMergeConfig} {created : Nat}
  {start : SourceMerge (DeterministicGenerator ε) k}

/-- The machine of a merge over generators. -/
def generatorMachine (ε : Type) [RandomEngine ε] (configs : Fin k → GeneratorConfig)
    (valid : ∀ channel, (configs channel).Valid) (spans : Fin k → List IdleSpan)
    (config : SourceMergeConfig) : ItemMerge k :=
  freshMachine (generatorInputs (ε := ε) configs valid spans) config fun channel =>
    DeterministicGenerator.trajectory (ε := ε) (configs channel) (valid channel)

theorem construct_generators
    (constructed : construct (generatorInputs configs valid spans) config created = .ok start) :
    Refines start (generatorMachine ε configs valid spans config) ∧
      (generatorMachine ε configs valid spans config).Spent := by
  constructor
  · exact (construct_tended constructed fun channel =>
      DeterministicGenerator.initial_supplies (configs channel) (valid channel)).refines
  · intro channel exhausted
    cases exhausted

/-- A merge over generators goes on behind the requested record. -/
theorem construct_repositions
    (constructed : construct (generatorInputs configs valid spans) config created = .ok start)
    (offline : config.liveInputs = false) :
    ∃ whole, Source.Delivers start whole ∧
      whole.flatten = (generatorMachine ε configs valid spans config).stream ∧
      Repositions start whole := by
  have positive := construct_positive constructed
  have refines := (construct_generators constructed).1
  obtain rfl := construct_eq constructed
  obtain ⟨whole, delivers, -, flat⟩ := refines.supplies positive
  refine ⟨whole, delivers, flat, ?_⟩
  intro offset inside
  let start : SourceMerge (DeterministicGenerator ε) k :=
    { config := config
      states := fun channel => .fresh (generatorInputs configs valid spans channel).1
        (generatorInputs (ε := ε) configs valid spans channel).2 created
      combiner := .initial k
      rr := 0
      mergedOffset := 0
      epochClosed := 0 }
  have supplies (channel : Fin k) :
      Supplies (Source.seek (start.states channel).source 0)
        (DeterministicGenerator.trajectory (ε := ε) (configs channel) (valid channel)) :=
    DeterministicGenerator.initial_supplies (configs channel) (valid channel)
  obtain ⟨taken, next, walks, lands⟩ := source_seek_walks supplies offline offset
  have same : start.rewoundMachine (fun channel =>
      DeterministicGenerator.trajectory (ε := ε) (configs channel) (valid channel)) =
      generatorMachine ε configs valid spans config := rfl
  rw [same] at walks lands
  rw [flat] at inside
  have still := walks.config
  obtain ⟨rest, continues, -, later⟩ := walks.refines.supplies (by rw [still]; exact positive)
  refine ⟨rest, continues, records taken, ?_, ?_⟩
  · have counted := walks.offset
    rw [lands inside] at counted
    exact (counted.trans (Nat.zero_add _)).symm
  · rw [flat, walks.stream, records_append, later]

variable {double : Rat → Prop}

/-- Merges over generators with equal descriptors start abreast. -/
theorem descriptor_abreast (doubles : PlainDoubles ε double) {others : Fin k → GeneratorConfig}
    {validAlso : ∀ channel, (others channel).Valid} {pauses : Fin k → List IdleSpan}
    {options : SourceMergeConfig} {now : Nat} {second : SourceMerge (DeterministicGenerator ε) k}
    (constructed : construct (generatorInputs configs valid spans) config created = .ok start)
    (constructedAlso : construct (generatorInputs others validAlso pauses) options now = .ok second)
    (real : ∀ channel, double (configs channel).lateFraction)
    (realAlso : ∀ channel, double (others channel).lateFraction)
    (same : start.descriptor = second.descriptor) :
    (generatorMachine ε configs valid spans config).Abreast
      (generatorMachine ε others validAlso pauses options) := by
  obtain rfl := construct_eq constructed
  obtain rfl := construct_eq constructedAlso
  obtain ⟨timeout, resembling⟩ := descriptor_resembles doubles real realAlso same
  have each : ∀ channel, (configs channel).Similar (others channel) ∧
      spans channel = pauses channel := by
    rw [channelList, channelList, List.forall₂_map_left_iff, List.forall₂_map_right_iff,
      List.forall₂_same] at resembling
    exact fun channel => resembling channel (List.mem_finRange channel)
  have paused : spans = pauses := funext fun channel => (each channel).2
  refine ⟨?_, ?_⟩
  · have timeouts : config.idleTimeout = options.idleTimeout := timeout
    simp only [generatorMachine, freshMachine, generatorInputs, timeouts, paused]
  · intro channel
    exact DeterministicGenerator.trajectory_comparable (valid channel) (validAlso channel)
      (each channel).1

/-- Generators with equal descriptors replay the same stream. Merges of generators with equal
descriptors, which are not live, take their records from the same channels exactly when no turn
that finds its channel ended in one of them only leaves a record behind; then they replay the
same stream. -/
theorem equal_descriptors_replay_same_iff (doubles : PlainDoubles ε double) :
    (∀ (first second : GeneratorConfig) (valid : first.Valid) (also : second.Valid),
      double first.lateFraction → double second.lateFraction →
      (DeterministicGenerator.initial first valid : DeterministicGenerator ε).descriptor =
        (DeterministicGenerator.initial second also : DeterministicGenerator ε).descriptor →
      ReplaySame (DeterministicGenerator.initial first valid : DeterministicGenerator ε)
        (DeterministicGenerator.initial second also : DeterministicGenerator ε)) ∧
    ∀ (k l : Nat) (configs : Fin k → GeneratorConfig) (others : Fin l → GeneratorConfig)
      (valid : ∀ channel, (configs channel).Valid) (also : ∀ channel, (others channel).Valid)
      (spans : Fin k → List IdleSpan) (pauses : Fin l → List IdleSpan)
      (config options : SourceMergeConfig) (created now : Nat)
      (first : SourceMerge (DeterministicGenerator ε) k)
      (second : SourceMerge (DeterministicGenerator ε) l),
      (∀ channel, double (configs channel).lateFraction) →
      (∀ channel, double (others channel).lateFraction) →
      config.liveInputs = false → options.liveInputs = false →
      construct (generatorInputs configs valid spans) config created = .ok first →
      construct (generatorInputs others also pauses) options now = .ok second →
      first.descriptor = second.descriptor →
        (SameOrigins first second ↔ Unshifted first second) ∧
          (Unshifted first second → ReplaySame first second) := by
  refine ⟨fun first second valid also real realAlso same =>
    DeterministicGenerator.replaySame_of_descriptor doubles valid also real realAlso same, ?_⟩
  intro k l configs others valid also spans pauses config options created now first second real
    realAlso offline offlineAlso constructed constructedAlso same
  obtain rfl : k = l := by
    obtain rfl := construct_eq constructed
    obtain rfl := construct_eq constructedAlso
    have lengths := (descriptor_resembles doubles real realAlso same).2.length_eq
    simpa [channelList] using lengths
  obtain ⟨refines, spent⟩ := construct_generators constructed
  obtain ⟨refinesAlso, spentAlso⟩ := construct_generators constructedAlso
  have abreast := descriptor_abreast doubles constructed constructedAlso real realAlso same
  have agree := ItemMerge.agree_iff_unshifted refines refinesAlso spent spentAlso abreast
  rw [refines.sameOrigins_iff refinesAlso, refines.unshifted_iff refinesAlso]
  refine ⟨agree, ?_⟩
  intro unshifted
  obtain ⟨whole, delivers, flat, repositions⟩ := construct_repositions constructed offline
  obtain ⟨rest, delivered, flatAlso, repositioned⟩ :=
    construct_repositions constructedAlso offlineAlso
  refine replaySame_of delivers delivered repositions repositioned ?_
  rw [flat, flatAlso, ItemMerge.records_stream, ItemMerge.records_stream]
  exact (agree.mpr unshifted).imp (fun shorter => shorter.map _) (fun longer => longer.map _)

/-- Two channels of different pace. The first one has the given length. -/
def paces (length : Nat) : Fin 2 → GeneratorConfig
  | 0 => { numRecords := length, maxDisorder := 0 }
  | 1 => { numRecords := 3, maxDisorder := 0, eventTimeStep := 5 }

theorem paces_valid (length : Nat) (channel : Fin 2) : (paces length channel).Valid := by
  rw [GeneratorConfig.valid_iff]
  fin_cases channel <;> norm_num [paces]

/-- Only the number zero. -/
theorem zero_plain : @PlainDoubles Unit DeterministicGenerator.lowestDraws (· = 0) := by
  refine @PlainDoubles.mk Unit DeterministicGenerator.lowestDraws _ ?_ ?_
  · rintro first second rfl rfl -
    rfl
  · rintro value rfl byte
    revert byte
    decide +kernel

/-- The descriptor does not tell the length of a channel. -/
theorem paces_merges (length other : Nat) :
    letI := DeterministicGenerator.lowestDraws
    ∃ first second : SourceMerge (DeterministicGenerator Unit) 2,
      construct (generatorInputs (paces length) (paces_valid length) fun _ => []) {} 0 =
          .ok first ∧
        construct (generatorInputs (paces other) (paces_valid other) fun _ => []) {} 0 =
          .ok second ∧
        first.descriptor ≠ [] ∧ first.descriptor = second.descriptor := by
  let _ := DeterministicGenerator.lowestDraws
  obtain ⟨first, constructed⟩ : ∃ first, construct (generatorInputs (ε := Unit) (paces length)
      (paces_valid length) fun _ => []) {} 0 = .ok first := ⟨_, rfl⟩
  obtain ⟨second, constructedAlso⟩ : ∃ second, construct (generatorInputs (ε := Unit)
      (paces other) (paces_valid other) fun _ => []) {} 0 = .ok second := ⟨_, rfl⟩
  refine ⟨first, second, constructed, constructedAlso, ?_⟩
  obtain rfl := construct_eq constructed
  obtain rfl := construct_eq constructedAlso
  rw [descriptor_eq]
  exact ⟨List.cons_ne_nil _ _, rfl⟩

/-- A longer generator in other batches replays the same stream, and so does a merge in which the
longer channel is the last one to end. -/
theorem longer_generator_replays_same :
    letI := DeterministicGenerator.lowestDraws
    ReplaySame (DeterministicGenerator.initial (ε := Unit) (paces 3 0) (paces_valid 3 0))
        (DeterministicGenerator.initial (ε := Unit) { paces 7 0 with batchSize := 2 } (by decide)) ∧
      ∃ first second : SourceMerge (DeterministicGenerator Unit) 2,
        construct (generatorInputs (paces 3) (paces_valid 3) fun _ => []) {} 0 = .ok first ∧
          construct (generatorInputs (paces 4) (paces_valid 4) fun _ => []) {} 0 = .ok second ∧
          ReplaySame first second := by
  let _ := DeterministicGenerator.lowestDraws
  obtain ⟨generators, merges⟩ := equal_descriptors_replay_same_iff (ε := Unit) zero_plain
  refine ⟨generators _ _ _ _ rfl rfl rfl, ?_⟩
  obtain ⟨first, second, constructed, constructedAlso, -, same⟩ := paces_merges 3 4
  refine ⟨first, second, constructed, constructedAlso, ?_⟩
  have real : ∀ channel, (paces 3 channel).lateFraction = 0 := by decide
  have realAlso : ∀ channel, (paces 4 channel).lateFraction = 0 := by decide
  obtain ⟨origins, replays⟩ := merges 2 2 _ _ _ _ _ _ {} {} 0 0 first second real realAlso rfl rfl
    constructed constructedAlso same
  obtain ⟨refines, -⟩ := construct_generators constructed
  obtain ⟨refinesAlso, -⟩ := construct_generators constructedAlso
  refine replays (origins.mp ((refines.sameOrigins_iff refinesAlso).mpr (.inl ?_)))
  decide +kernel

/-- A channel with one record more changes the order of the merged records, and the descriptor
does not tell. -/
theorem longer_channel_shifts :
    letI := DeterministicGenerator.lowestDraws
    ∃ first second : SourceMerge (DeterministicGenerator Unit) 2,
      construct (generatorInputs (paces 1) (paces_valid 1) fun _ => []) {} 0 = .ok first ∧
      construct (generatorInputs (paces 2) (paces_valid 2) fun _ => []) {} 0 = .ok second ∧
      first.descriptor ≠ [] ∧ first.descriptor = second.descriptor ∧ ¬ ReplaySame first second := by
  let _ := DeterministicGenerator.lowestDraws
  obtain ⟨first, second, constructed, constructedAlso, written, same⟩ := paces_merges 1 2
  refine ⟨first, second, constructed, constructedAlso, written, same, ?_⟩
  rintro ⟨whole, others, delivers, delivered, begins, -⟩
  obtain ⟨batches, again, flat, -⟩ := construct_repositions constructed rfl
  obtain ⟨more, againAlso, flatAlso, -⟩ := construct_repositions constructedAlso rfl
  rw [delivers.unique again, delivered.unique againAlso, flat, flatAlso] at begins
  revert begins
  decide +kernel

end Generators

end SourceMerge

end Stormglass
