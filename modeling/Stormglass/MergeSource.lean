import Stormglass.CheckpointDirectory
import Stormglass.MergeReplay

/-!
# A merge as a source

A merge is a source itself, and an engine or another merge may consume it. Its calls are
modelled with fuel for their loops. What a call returns does not depend on the fuel once it
is enough, so the call is the function of the merge that any sufficient fuel computes. The
clock is not read by a merge without wall-clock idleness.

A merge whose channels deliver finitely many nonempty batches delivers its stream in
nonempty batches, like a channel.
-/

namespace Stormglass

namespace SourceMerge

variable {σ : Type} {k : Nat} [Source σ] {clock : Nat → Nat} {fuel more : Nat} {offset : Nat}

/-- More fuel does not change what the loop of `Next()` returns. -/
theorem nextLoop_mono (bounded : fuel ≤ more) {merge : SourceMerge σ k} {out : Batch}
    {dataInBatch quietSteps : Nat} {pulled : List (Fin k × BatchItem)}
    {result : Batch × List (Fin k × BatchItem) × SourceMerge σ k}
    (returned : merge.nextLoop fuel clock out dataInBatch quietSteps pulled = .ok result) :
    merge.nextLoop more clock out dataInBatch quietSteps pulled = .ok result := by
  induction fuel generalizing more clock merge out dataInBatch quietSteps pulled with
  | zero =>
    unfold nextLoop at returned ⊢
    split at returned
    · cases returned
    next full => rw [if_neg full, returned]
  | succ fuel inductionHypothesis =>
    obtain ⟨more, rfl⟩ : ∃ rest, more = rest + 1 := ⟨more - 1, by omega⟩
    unfold nextLoop at returned ⊢
    split at returned
    next open_ =>
      rw [if_pos open_]
      dsimp only at returned ⊢
      cases stepped : merge.produceOneMergedStep (clock 0) with
      | error failure => simp [stepped] at returned
      | ok step =>
        simp only [stepped] at returned ⊢
        cases kind : step.result with
        | exhausted => simpa [kind] using returned
        | noData =>
          simp only [kind] at returned ⊢
          split
          next quiet => simpa [quiet] using returned
          next busy =>
            rw [if_neg busy] at returned
            exact inductionHypothesis (by omega) returned
        | produced =>
          simp only [kind] at returned ⊢
          exact inductionHypothesis (by omega) returned
    next full => rw [if_neg full, returned]

theorem next_mono (bounded : fuel ≤ more) {merge : SourceMerge σ k} {outcome : NextOutcome σ k}
    (returned : merge.next fuel clock = .ok outcome) :
    merge.next more clock = .ok outcome := by
  unfold next at returned ⊢
  split
  next ended => rwa [if_pos ended] at returned
  next active =>
    rw [if_neg active] at returned
    cases looped : merge.nextLoop fuel clock [] 0 0 [] with
    | error failure => simp [looped] at returned
    | ok result =>
      rw [looped] at returned
      rw [nextLoop_mono bounded looped]
      exact returned

/-- More fuel does not change what the loop of `Seek` returns. -/
theorem seekLoop_mono (bounded : fuel ≤ more) {merge after : SourceMerge σ k}
    (returned : merge.seekLoop fuel clock offset = .ok after) :
    merge.seekLoop more clock offset = .ok after := by
  induction fuel generalizing more clock merge with
  | zero =>
    unfold seekLoop at returned ⊢
    split at returned
    · cases returned
    next reached => rw [if_neg reached, returned]
  | succ fuel inductionHypothesis =>
    obtain ⟨more, rfl⟩ : ∃ rest, more = rest + 1 := ⟨more - 1, by omega⟩
    unfold seekLoop at returned ⊢
    split at returned
    next before =>
      rw [if_pos before]
      dsimp only at returned ⊢
      cases stepped : merge.produceOneMergedStep (clock 0) with
      | error failure => simp [stepped] at returned
      | ok step =>
        simp only [stepped] at returned ⊢
        cases kind : step.result with
        | exhausted => simpa [kind] using returned
        | noData =>
          simp only [kind] at returned ⊢
          exact inductionHypothesis (by omega) returned
        | produced =>
          simp only [kind] at returned ⊢
          exact inductionHypothesis (by omega) returned
    next reached => rw [if_neg reached, returned]

theorem seek_mono (bounded : fuel ≤ more) {merge after : SourceMerge σ k}
    (returned : merge.seek fuel clock offset = .ok after) :
    merge.seek more clock offset = .ok after := by
  unfold seek at returned ⊢
  split
  next live =>
    rw [if_pos live] at returned
    cases returned
  next offline =>
    rw [if_neg offline] at returned
    exact seekLoop_mono bounded returned

/-- A call of `Next()` returns, with a clock that stands still. -/
def NextReturns (merge : SourceMerge σ k) (outcome : NextOutcome σ k) : Prop :=
  ∃ fuel, merge.next fuel (fun _ => 0) = .ok outcome

/-- A call of `Seek` returns. -/
def SeekReturns (merge : SourceMerge σ k) (offset : Nat) (after : SourceMerge σ k) : Prop :=
  ∃ fuel, merge.seek fuel (fun _ => 0) offset = .ok after

theorem NextReturns.unique {merge : SourceMerge σ k} {first second : NextOutcome σ k}
    (left : NextReturns merge first) (right : NextReturns merge second) : first = second := by
  obtain ⟨fuel, left⟩ := left
  obtain ⟨more, right⟩ := right
  have same := (next_mono (Nat.le_max_left fuel more) left).symm.trans
    (next_mono (Nat.le_max_right fuel more) right)
  exact Except.ok.inj same

theorem SeekReturns.unique {merge first second : SourceMerge σ k}
    (left : SeekReturns merge offset first) (right : SeekReturns merge offset second) :
    first = second := by
  obtain ⟨fuel, left⟩ := left
  obtain ⟨more, right⟩ := right
  have same := (seek_mono (Nat.le_max_left fuel more) left).symm.trans
    (seek_mono (Nat.le_max_right fuel more) right)
  exact Except.ok.inj same

/-- `Descriptor`: empty as soon as one channel does not describe itself. -/
def descriptor (merge : SourceMerge σ k) : Bytes :=
  let text := fun (literal : String) => ascii literal.toList
  let channels := (List.finRange k).map fun channel =>
    (Source.descriptor (merge.states channel).source, (merge.states channel).idleSpans)
  if ∃ channel ∈ channels, channel.1 = [] then []
  else
    text "merge(idle_timeout=" ++ toDecimal merge.config.idleTimeout ++
      channels.flatMap (fun channel =>
        text ";" ++ channel.1 ++ channel.2.flatMap fun span =>
          text "@idle(" ++ toDecimal span.startOffset ++ text "," ++ toDecimal span.length ++
            text ")") ++
      text ")"

open Classical in
/-- A merge as a source. A call that does not return leaves the merge as it is. -/
noncomputable instance : PositionedSource (SourceMerge σ k) where
  next merge :=
    if returns : ∃ outcome, NextReturns merge outcome then
      returns.choose.batch.map fun batch => (batch, returns.choose.merge)
    else none
  seek merge offset :=
    if returns : ∃ after, SeekReturns merge offset after then returns.choose else merge
  descriptor := descriptor
  currentOffset := currentOffset

theorem source_next_eq {merge : SourceMerge σ k} {outcome : NextOutcome σ k}
    (returns : NextReturns merge outcome) :
    Source.next merge = outcome.batch.map fun batch => (batch, outcome.merge) := by
  have some : ∃ outcome, NextReturns merge outcome := ⟨outcome, returns⟩
  have same : some.choose = outcome := some.choose_spec.unique returns
  refine (dif_pos some).trans ?_
  rw [same]

theorem source_seek_eq {merge after : SourceMerge σ k} (returns : SeekReturns merge offset after) :
    Source.seek merge offset = after := by
  have some : ∃ after, SeekReturns merge offset after := ⟨after, returns⟩
  exact (dif_pos some).trans (some.choose_spec.unique returns)

/-- A merge delivers the stream of its machine in nonempty batches. -/
theorem Refines.supplies {merge : SourceMerge σ k} {machine : ItemMerge k}
    (refines : Refines merge machine) (positive : 0 < merge.config.mergedBatchSize) :
    Supplies merge machine.stream := by
  generalize length : machine.stream.length = left
  induction left using Nat.strongRecOn generalizing merge machine with
  | ind left inductionHypothesis =>
    obtain ⟨outcome, returned⟩ :=
      refines.next_total (Nat.lt_succ_self machine.weight) fun _ => 0
    have called := source_next_eq ⟨_, returned⟩
    obtain ⟨taken, next, walks, ⟨ended, -, empty⟩ | ⟨handed, nonempty⟩⟩ :=
      refines.next_ok positive returned
    · rw [ended] at called
      exact ⟨[], .ended called, List.not_mem_nil, empty.symm⟩
    · rw [handed] at called
      have shorter : next.stream.length < left := by
        have split := congrArg List.length walks.stream
        have some := List.length_pos_iff.mpr nonempty
        rw [List.length_append] at split
        omega
      obtain ⟨batches, delivers, filled, flat⟩ := inductionHypothesis next.stream.length shorter
        walks.refines (by rw [walks.config]; exact positive) rfl
      refine ⟨taken :: batches, .handed called delivers, ?_, ?_⟩
      · rintro (_ | ⟨_, member⟩)
        · exact nonempty rfl
        · exact filled member
      · rw [List.flatten_cons, flat, walks.stream]

/-- The offset of a merge counts the records that the loop of `Next()` appends. -/
theorem nextLoop_offset {fuel : Nat} {merge after : SourceMerge σ k} {out all : Batch}
    {dataInBatch quietSteps : Nat} {pulled drawn : List (Fin k × BatchItem)}
    (ran : merge.nextLoop fuel clock out dataInBatch quietSteps pulled = .ok (all, drawn, after)) :
    after.mergedOffset + (records out).length = merge.mergedOffset + (records all).length := by
  induction fuel generalizing merge clock out dataInBatch quietSteps pulled with
  | zero =>
    unfold nextLoop at ran
    split at ran
    · cases ran
    · obtain ⟨rfl, -, rfl⟩ := by simpa using ran
      rfl
  | succ fuel inductionHypothesis =>
    unfold nextLoop at ran
    split at ran
    · cases stepped : merge.produceOneMergedStep (clock 0) with
      | error failure => simp [stepped] at ran
      | ok step =>
        have counted := (step_counted stepped).offset
        have split : (records (out ++ step.emitted)).length =
            (records out).length + (records step.emitted).length := by simp
        simp only [stepped] at ran
        cases kind : step.result with
        | exhausted =>
          obtain ⟨rfl, -, rfl⟩ := by simpa [kind] using ran
          omega
        | noData =>
          simp only [kind] at ran
          split at ran
          · obtain ⟨rfl, -, rfl⟩ := by simpa using ran
            omega
          · have later := inductionHypothesis ran
            omega
        | produced =>
          simp only [kind] at ran
          have later := inductionHypothesis ran
          omega
    · obtain ⟨rfl, -, rfl⟩ := by simpa using ran
      rfl

/-- A batch that a merge hands out is one that the loop of `Next()` returns. -/
theorem source_next_loop {merge rest : SourceMerge σ k} {batch : Batch}
    (called : Source.next merge = some (batch, rest)) :
    ∃ fuel pulled, merge.nextLoop fuel (fun _ => 0) [] 0 0 [] = .ok (batch, pulled, rest) := by
  by_cases returns : ∃ outcome, NextReturns merge outcome
  · obtain ⟨outcome, fuel, returned⟩ := returns
    rw [source_next_eq ⟨fuel, returned⟩] at called
    unfold next at returned
    split at returned
    · cases Except.ok.inj returned
      cases called
    · split at returned
      · cases returned
      next out pulled after looped =>
        refine ⟨fuel, pulled, looped.trans ?_⟩
        split at returned
        next empty =>
          split at returned
          · cases Except.ok.inj returned
            cases called
          · cases Except.ok.inj returned
            obtain ⟨rfl, rfl⟩ := Prod.mk.inj (Option.some.inj called)
            rw [empty]
        · cases Except.ok.inj returned
          obtain ⟨rfl, rfl⟩ := Prod.mk.inj (Option.some.inj called)
          rfl
  · rw [show Source.next merge = none from dif_neg returns] at called
    cases called

/-- A merge counts the records that it hands out. -/
theorem source_next_offset {merge rest : SourceMerge σ k} {batch : Batch}
    (called : Source.next merge = some (batch, rest)) :
    rest.mergedOffset = merge.mergedOffset + (records batch).length := by
  obtain ⟨fuel, pulled, looped⟩ := source_next_loop called
  simpa using nextLoop_offset looped

/-- The machine of a merge that has been rewound. -/
def rewoundMachine (merge : SourceMerge σ k) (trajectories : Fin k → Batch) : ItemMerge k :=
  freshMachine (fun channel => ((merge.states channel).source, (merge.states channel).idleSpans))
    merge.config trajectories

section Rewinding

variable {merge : SourceMerge σ k} {trajectories : Fin k → Batch}

theorem rewound_refines
    (supplies : ∀ channel,
      Supplies (Source.seek (merge.states channel).source 0) (trajectories channel)) (now : Nat) :
    Refines (merge.rewind.resetProgress now) (merge.rewoundMachine trajectories) := by
  refine ⟨fresh_aligned merge.config (fun channel => (Source.seek (merge.states channel).source 0,
    (merge.states channel).idleSpans)) now, rfl, ?_⟩
  exact fun channel => (supplies channel).fresh _ _

/-- `Seek` of a merge that is not live walks along the stream, up to the requested record. -/
theorem source_seek_walks
    (supplies : ∀ channel,
      Supplies (Source.seek (merge.states channel).source 0) (trajectories channel))
    (offline : merge.config.liveInputs = false) (offset : Nat) :
    ∃ taken next,
      Walks (merge.rewind.resetProgress 0) (merge.rewoundMachine trajectories) taken
        (Source.seek merge offset) next ∧
      (offset ≤ (records (merge.rewoundMachine trajectories).stream).length →
        (Source.seek merge offset).mergedOffset = offset) := by
  have refines := rewound_refines supplies 0
  obtain ⟨after, returned⟩ := refines.seekLoop_total
    (Nat.lt_succ_self (merge.rewoundMachine trajectories).weight) (fun _ => 0) offset
  have seeks : SeekReturns merge offset after := by
    refine ⟨_, Eq.trans (if_neg ?_) returned⟩
    rw [offline]
    simp
  obtain ⟨taken, next, walks, lands⟩ := refines.seekLoop_ok (Nat.zero_le offset) returned
  rw [source_seek_eq seeks]
  refine ⟨taken, next, walks, fun inside => (lands ?_).1⟩
  rw [show (merge.rewind.resetProgress 0).mergedOffset = 0 from rfl]
  omega

end Rewinding

end SourceMerge

end Stormglass
