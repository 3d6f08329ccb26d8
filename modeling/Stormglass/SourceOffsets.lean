import Stormglass.GeneratorReplay
import Stormglass.MergeSource
import Stormglass.StoppingSource

/-!
# The offsets of the sources

The sources of the library are built from generators by merging and by stopping early.
`CurrentOffset()` is meant to be the number of records before the position. A generator and a
merge count the records that they hand out. A stopping source asks the source inside. When its
limit lies within a batch of that source, the records behind the limit are counted and never
handed out.
-/

namespace Stormglass

namespace Source

variable {σ : Type} [Source σ]

/-- The source after a number of calls of `Next()`. The end of input does not change it. -/
def afterCalls : Nat → σ → σ
  | 0, source => source
  | calls + 1, source =>
    match next source with
    | none => source
    | some (_, rest) => afterCalls calls rest

theorem afterCalls_none {source : σ} (ended : next source = none) (calls : Nat) :
    afterCalls calls source = source := by
  cases calls with
  | zero => rfl
  | succ calls => simp [afterCalls, ended]

/-- What a source delivers is determined. -/
theorem Delivers.unique {source : σ} {batches others : List Batch}
    (first : Delivers source batches) (second : Delivers source others) : batches = others := by
  induction first generalizing others with
  | ended observed =>
    cases second with
    | ended _ => rfl
    | handed called _ =>
      rw [observed] at called
      cases called
  | handed observed _ inductionHypothesis =>
    cases second with
    | ended called =>
      rw [observed] at called
      cases called
    | handed called later =>
      rw [observed] at called
      obtain ⟨rfl, rfl⟩ := Prod.mk.inj (Option.some.inj called)
      rw [inductionHypothesis later]

/-- The batches of a source that hands out no empty one. -/
theorem Delivers.nonempty {source : σ} {batches : List Batch} (delivers : Delivers source batches)
    (filled : ∀ (source rest : σ) (batch : Batch), next source = some (batch, rest) → batch ≠ []) :
    [] ∉ batches := by
  induction delivers with
  | ended observed => exact List.not_mem_nil
  | handed observed _ inductionHypothesis =>
    rintro (_ | ⟨_, member⟩)
    · exact filled _ _ _ observed rfl
    · exact inductionHypothesis member

end Source

namespace DeterministicGenerator

variable {ε : Type} [RandomEngine ε]

/-- A generator counts the records that it hands out. -/
theorem next_offset {generator rest : DeterministicGenerator ε} {batch : Batch}
    (called : Source.next generator = some (batch, rest)) :
    rest.offset = generator.offset + (records batch).length ∧ batch ≠ [] := by
  change generator.next = _ at called
  unfold next at called
  split at called
  · cases called
  next inside =>
    have handed := Option.some.inj called
    have positive := generator.valid.batchSize
    let size := min generator.config.batchSize (generator.config.numRecords - generator.offset)
    have counted := generator.records_rounds size
    have moved := generator.rounds_offset size
    rw [show generator.rounds size = (batch, rest) from handed] at counted moved
    refine ⟨by rw [counted, moved], ?_⟩
    rintro rfl
    have nothing : size = 0 := counted.symm
    omega

theorem supplies (generator : DeterministicGenerator ε) :
    ∃ trajectory, SourceMerge.Supplies generator trajectory := by
  obtain ⟨batches, delivers, -⟩ := generator.delivers_rounds
  exact ⟨_, batches, delivers, delivers.nonempty fun _ _ _ called => (next_offset called).2, rfl⟩

end DeterministicGenerator

namespace SourceMerge

variable {σ : Type} {k : Nat} [Source σ] {merge : SourceMerge σ k}

/-- A merge that hands out batches of no records ends at once. -/
theorem supplies_nothing (offline : merge.config.liveInputs = false)
    (zero : merge.config.mergedBatchSize = 0) : Supplies merge [] := by
  refine ⟨[], .ended ?_, List.not_mem_nil, rfl⟩
  by_cases ended : k = 0 ∨ merge.AllExhausted
  · exact source_next_eq ⟨0, if_pos ended⟩
  · have looped : merge.nextLoop 0 (fun _ => 0) [] 0 0 [] = .ok ([], [], merge) := by
      unfold nextLoop
      rw [if_neg (by omega)]
    have returned : NextReturns merge ⟨none, [], merge⟩ := by
      refine ⟨0, (if_neg ended).trans ?_⟩
      rw [looped]
      exact (if_pos rfl).trans (if_pos (Or.inr offline))
    exact source_next_eq returned

/-- A merge delivers finitely many nonempty batches from every position, when its channels
do so from the beginning. -/
theorem source_seek_supplies
    (each : ∀ channel, ∃ trajectory,
      Supplies (Source.seek (merge.states channel).source 0) trajectory)
    (offline : merge.config.liveInputs = false) (offset : Nat) :
    ∃ trajectory, Supplies (Source.seek merge offset) trajectory := by
  choose trajectories supplies using each
  obtain ⟨taken, next, walks, -⟩ := source_seek_walks supplies offline offset
  by_cases positive : 0 < (Source.seek merge offset).config.mergedBatchSize
  · exact ⟨_, walks.refines.supplies positive⟩
  · refine ⟨_, supplies_nothing ?_ (Nat.eq_zero_of_not_pos positive)⟩
    rw [walks.config]
    exact offline

/-- Within its stream a merge arrives at the requested offset. -/
theorem source_seek_offset
    (each : ∀ channel, ∃ trajectory,
      Supplies (Source.seek (merge.states channel).source 0) trajectory)
    (offline : merge.config.liveInputs = false) {batches : List Batch}
    (delivers : Source.Delivers (Source.seek merge 0) batches) {offset : Nat}
    (inside : offset ≤ (records batches.flatten).length) :
    (Source.seek merge offset).mergedOffset = offset := by
  choose trajectories supplies using each
  obtain ⟨taken, next, start, -⟩ := source_seek_walks supplies offline 0
  obtain ⟨-, -, -, lands⟩ := source_seek_walks supplies offline offset
  apply lands
  rw [start.stream, records_append, List.length_append]
  by_cases positive : 0 < (Source.seek merge 0).config.mergedBatchSize
  · obtain ⟨others, again, -, flat⟩ := start.refines.supplies positive
    rw [delivers.unique again, flat] at inside
    omega
  · have stopped : Supplies (Source.seek merge 0) [] := by
      refine supplies_nothing ?_ (Nat.eq_zero_of_not_pos positive)
      rw [start.config]
      exact offline
    obtain ⟨others, again, -, flat⟩ := stopped
    rw [delivers.unique again, flat, records_nil, List.length_nil] at inside
    omega

end SourceMerge

/-- Sources of several types, as the channels of one merge. -/
instance {ι : Type} {σ : ι → Type} [∀ index, PositionedSource (σ index)] :
    PositionedSource (Σ index, σ index) where
  next source := (Source.next source.2).map fun handed => (handed.1, ⟨source.1, handed.2⟩)
  seek source offset := ⟨source.1, Source.seek source.2 offset⟩
  descriptor source := Source.descriptor source.2
  currentOffset source := PositionedSource.currentOffset source.2

/-- A channel delivers what its source delivers. -/
theorem sigma_supplies {ι : Type} {σ : ι → Type} [∀ index, PositionedSource (σ index)] {index : ι}
    {source : σ index} {trajectory : Batch} (supplies : SourceMerge.Supplies source trajectory) :
    SourceMerge.Supplies (Sigma.mk index source) trajectory := by
  obtain ⟨batches, delivers, nonempty, flat⟩ := supplies
  refine ⟨batches, ?_, nonempty, flat⟩
  clear nonempty flat
  induction delivers with
  | ended observed => exact .ended (by simp [Source.next, observed])
  | handed observed _ inductionHypothesis =>
    exact .handed (by simp [Source.next, observed]) inductionHypothesis

/-- How a source of the library is built. -/
inductive SourceKind where
  | generator
  | merge {k : Nat} (channels : Fin k → SourceKind)
  | stopping (inner : SourceKind)

namespace SourceKind

/-- The sources of a kind, in any state. -/
def Carrier (ε : Type) : SourceKind → Type
  | generator => DeterministicGenerator ε
  | @merge k channels => SourceMerge (Σ channel, (channels channel).Carrier ε) k
  | stopping inner => StoppingSource (inner.Carrier ε)

variable {ε : Type} [RandomEngine ε]

noncomputable instance positionedSource : (kind : SourceKind) → PositionedSource (kind.Carrier ε)
  | generator => inferInstanceAs (PositionedSource (DeterministicGenerator ε))
  | @merge k channels =>
    letI := fun channel => (channels channel).positionedSource
    inferInstanceAs (PositionedSource (SourceMerge (Σ channel, (channels channel).Carrier ε) k))
  | stopping inner =>
    letI := inner.positionedSource
    inferInstanceAs (PositionedSource (StoppingSource (inner.Carrier ε)))

/-- `Replayable`: no merge is live. -/
def Replayable : (kind : SourceKind) → kind.Carrier ε → Prop
  | generator, _ => True
  | @merge k channels, source =>
    let source : SourceMerge (Σ channel, (channels channel).Carrier ε) k := source
    source.config.liveInputs = false ∧
      ∀ channel, (channels (source.states channel).source.1).Replayable
        (source.states channel).source.2
  | stopping inner, source =>
    let source : StoppingSource (inner.Carrier ε) := source
    inner.Replayable source.inner

/-- The offsets within the stream of a source, from `Seek(0)` to its end. A stopping source
has no beginning of its own: it can be positioned within the stream inside. -/
def Within : (kind : SourceKind) → kind.Carrier ε → Nat → Prop
  | stopping inner, source, offset =>
    let source : StoppingSource (inner.Carrier ε) := source
    inner.Within source.inner offset
  | _, source, offset =>
    ∃ batches, Source.Delivers (Source.seek source 0) batches ∧
      offset ≤ (records batches.flatten).length

/-- The next call does not take a batch from a source inside that holds more records than the
limit lets through. -/
def Uncut : (kind : SourceKind) → kind.Carrier ε → Prop
  | stopping inner, source =>
    let source : StoppingSource (inner.Carrier ε) := source
    ∀ batch rest, source.emitted < source.maxRecords →
      Source.next source.inner = some (batch, rest) →
      inner.Uncut source.inner ∧ (records batch).length ≤ source.maxRecords - source.emitted
  | _, _ => True

/-- From every position a source of the library delivers finitely many nonempty batches. -/
theorem supplies (kind : SourceKind) {source : kind.Carrier ε} (replayable : kind.Replayable source)
    (offset : Nat) : ∃ trajectory, SourceMerge.Supplies (Source.seek source offset) trajectory := by
  induction kind generalizing offset with
  | generator => exact DeterministicGenerator.supplies _
  | merge channels inductionHypothesis =>
    refine SourceMerge.source_seek_supplies (fun channel => ?_) replayable.1 offset
    obtain ⟨trajectory, supplies⟩ := inductionHypothesis _ (replayable.2 channel) 0
    exact ⟨trajectory, sigma_supplies supplies⟩
  | stopping inner inductionHypothesis =>
    obtain ⟨trajectory, batches, delivers, nonempty, -⟩ := inductionHypothesis replayable offset
    exact StoppingSource.supplies delivers nonempty _ 0

/-- `Seek` within the stream arrives at the requested offset. -/
theorem seek_offset (kind : SourceKind) {source : kind.Carrier ε}
    (replayable : kind.Replayable source) {offset : Nat} (within : kind.Within source offset) :
    PositionedSource.currentOffset (Source.seek source offset) = offset := by
  induction kind with
  | generator =>
    let generator : DeterministicGenerator ε := source
    change (generator.seek offset).offset = offset
    rw [DeterministicGenerator.seek_eq, DeterministicGenerator.rounds_offset]
    exact Nat.zero_add offset
  | merge channels _ =>
    obtain ⟨batches, delivers, inside⟩ := within
    refine SourceMerge.source_seek_offset (fun channel => ?_) replayable.1 delivers inside
    obtain ⟨trajectory, supplies⟩ := (channels _).supplies (replayable.2 channel) 0
    exact ⟨trajectory, sigma_supplies supplies⟩
  | stopping inner inductionHypothesis => exact inductionHypothesis replayable within

/-- A call that hands out a batch moves the offset by at least its records, and by no more
when no batch inside was cut. -/
theorem next_counts (kind : SourceKind) {source rest : kind.Carrier ε} {batch : Batch}
    (called : Source.next source = some (batch, rest)) :
    PositionedSource.currentOffset source + (records batch).length ≤
        PositionedSource.currentOffset rest ∧
      (PositionedSource.currentOffset rest =
          PositionedSource.currentOffset source + (records batch).length ↔
        kind.Uncut source) ∧
      (batch = [] → kind.Uncut source) := by
  induction kind generalizing batch with
  | generator =>
    have counted := (DeterministicGenerator.next_offset called).1
    exact ⟨counted.ge, iff_of_true counted trivial, fun _ => trivial⟩
  | merge channels _ =>
    have counted := SourceMerge.source_next_offset called
    exact ⟨counted.ge, iff_of_true counted trivial, fun _ => trivial⟩
  | stopping inner inductionHypothesis =>
    obtain ⟨below, whole, within, inside, taken, nonempty, rfl, -⟩ :=
      StoppingSource.next_some called
    obtain ⟨atLeast, exactly, -⟩ := inductionHypothesis inside
    have counted : (records batch).length =
        min (records whole).length (source.maxRecords - source.emitted) := by
      rw [← (StoppingSource.take_spec below.le whole).1, taken]
    refine ⟨?_, ?_, fun empty => absurd empty nonempty⟩
    · change PositionedSource.currentOffset source.inner + (records batch).length ≤
        PositionedSource.currentOffset rest.inner
      omega
    · change PositionedSource.currentOffset rest.inner =
        PositionedSource.currentOffset source.inner + (records batch).length ↔ _
      constructor
      · intro same other after _ called
        rw [inside] at called
        obtain ⟨rfl, rfl⟩ := Prod.mk.inj (Option.some.inj called)
        exact ⟨exactly.mp (by omega), by omega⟩
      · intro uncut
        obtain ⟨kept, fits⟩ := uncut whole _ below inside
        have same := exactly.mpr kept
        omega

/-- A source at its end cuts nothing. -/
theorem uncut_of_ended (kind : SourceKind) {source : kind.Carrier ε}
    (ended : Source.next source = none) : kind.Uncut source := by
  cases kind with
  | generator => trivial
  | merge channels => trivial
  | stopping inner =>
    intro batch rest below called
    rcases StoppingSource.next_none ended with full | nothing | ⟨after, empty⟩
    · exact absurd below (not_lt.mpr full)
    · rw [nothing] at called
      cases called
    · rw [empty] at called
      obtain ⟨rfl, rfl⟩ := Prod.mk.inj (Option.some.inj called)
      exact ⟨(inner.next_counts empty).2.2 rfl, Nat.zero_le _⟩

/-- Any number of calls moves the offset by at least the records that they return, and by no
more when no call cuts a batch. -/
theorem calls_count (kind : SourceKind) (calls : Nat) (source : kind.Carrier ε) :
    PositionedSource.currentOffset source + (records (Source.itemsWithin calls source)).length ≤
        PositionedSource.currentOffset (Source.afterCalls calls source) ∧
      (PositionedSource.currentOffset (Source.afterCalls calls source) =
          PositionedSource.currentOffset source +
            (records (Source.itemsWithin calls source)).length ↔
        ∀ earlier < calls, kind.Uncut (Source.afterCalls earlier source)) := by
  induction calls generalizing source with
  | zero => exact ⟨le_rfl, iff_of_true rfl fun earlier before => absurd before (Nat.not_lt_zero _)⟩
  | succ calls inductionHypothesis =>
    cases called : Source.next source with
    | none =>
      have nothing : Source.itemsWithin (calls + 1) source = [] := by
        simp [Source.itemsWithin, called]
      rw [nothing, Source.afterCalls_none called]
      refine ⟨le_rfl, iff_of_true rfl fun earlier _ => ?_⟩
      rw [Source.afterCalls_none called]
      exact kind.uncut_of_ended called
    | some handed =>
      obtain ⟨batch, rest⟩ := handed
      obtain ⟨atLeast, exactly, -⟩ := kind.next_counts called
      obtain ⟨least, exact_⟩ := inductionHypothesis rest
      have items : Source.itemsWithin (calls + 1) source =
          batch ++ Source.itemsWithin calls rest := by simp [Source.itemsWithin, called]
      have moved (more : Nat) :
          Source.afterCalls (more + 1) source = Source.afterCalls more rest := by
        simp [Source.afterCalls, called]
      rw [items, moved, records_append, List.length_append]
      refine ⟨by omega, ?_⟩
      constructor
      · intro same earlier before
        cases earlier with
        | zero => exact exactly.mp (by omega)
        | succ earlier =>
          rw [moved]
          exact exact_.mp (by omega) earlier (Nat.lt_of_succ_lt_succ before)
      · intro uncut
        have first := exactly.mpr (uncut 0 (Nat.succ_pos calls))
        have later := exact_.mpr fun earlier before => by
          rw [← moved]
          exact uncut (earlier + 1) (Nat.succ_lt_succ before)
        omega

/-- After `Seek(O)` within the stream, `CurrentOffset()` is `O` plus the number of records that
the calls of `Next()` have returned, exactly when no call took a batch beyond a limit. -/
theorem offset_counts_handed_out (kind : SourceKind) {source : kind.Carrier ε}
    (replayable : kind.Replayable source) {offset : Nat} (within : kind.Within source offset)
    (calls : Nat) :
    PositionedSource.currentOffset (Source.afterCalls calls (Source.seek source offset)) =
        offset + (records (Source.itemsWithin calls (Source.seek source offset))).length ↔
      ∀ earlier < calls, kind.Uncut (Source.afterCalls earlier (Source.seek source offset)) := by
  have counted := (kind.calls_count calls (Source.seek source offset)).2
  rwa [kind.seek_offset replayable within] at counted

open DeterministicGenerator in
/-- Five records in one batch, of which two are let through. -/
def limited : (stopping generator).Carrier Unit :=
  { inner := @initial Unit lowestDraws fiveRecords (by decide)
    maxRecords := 2 : StoppingSource (DeterministicGenerator Unit) }

theorem limited_within {offset : Nat} (inside : offset ≤ 5) :
    @Within Unit DeterministicGenerator.lowestDraws (stopping generator) limited offset := by
  let _ := DeterministicGenerator.lowestDraws
  refine ⟨[_], .handed rfl (.ended rfl), ?_⟩
  exact inside

/-- After `Seek(3)` the limit falls on the end of the batch. -/
theorem limited_counts_from_three :
    letI := DeterministicGenerator.lowestDraws
    PositionedSource.currentOffset (Source.afterCalls 1 (Source.seek limited 3)) =
      3 + (records (Source.itemsWithin 1 (Source.seek limited 3))).length := by
  let _ := DeterministicGenerator.lowestDraws
  apply (@offset_counts_handed_out _ _ (stopping generator) limited trivial 3
    (limited_within (by decide)) 1).mpr
  intro earlier before batch rest _ called
  obtain rfl : earlier = 0 := Nat.lt_one_iff.mp before
  refine ⟨trivial, ?_⟩
  have two : some 2 = some (records batch).length :=
    congrArg (Option.map fun handed : Batch × generator.Carrier Unit => (records handed.1).length)
      called
  exact (Option.some.inj two).ge

/-- After `Seek(0)` it falls inside: the offset counts three records that are never handed
out. -/
theorem limit_inside_batch_miscounts :
    letI := DeterministicGenerator.lowestDraws
    (stopping generator).Replayable limited ∧ (stopping generator).Within limited 0 ∧
      PositionedSource.currentOffset (Source.afterCalls 1 (Source.seek limited 0)) = 5 ∧
      (records (Source.itemsWithin 1 (Source.seek limited 0))).length = 2 :=
  ⟨trivial, limited_within (by decide), rfl, rfl⟩

end SourceKind

end Stormglass
