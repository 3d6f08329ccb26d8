import Stormglass.PartitionDirectories
import Stormglass.PartitionedPipeline

/-!
# Coordinated retention of partition checkpoints

A partition writes its file for a barrier and then reports the offset to the tracker.
The tracker infers from the reports alone which offsets are complete, and deletes files
by their names. It never looks into a directory to decide.

This works because all partitions see the same barriers in the same order: what a
partition has reported is the start of one common sequence, so the smallest of the latest
reports has been reported, and therefore written, by every partition.

The directories here are those of files with their real names and contents. A file is
deleted in a step of its own, while the tracker's mutex is held but other partitions
write. Deletion is best effort and may end at any point.
-/

namespace Stormglass

/-! ## The tracker and the partitions -/

/-- `LastComplete` -/
def Tracker.lastComplete {n : Nat} (tracker : Tracker n) : Option Nat := tracker.complete.getLast?

/-- Where a partition is in its handling of barriers. -/
inductive Turn where
  | waiting
  | written (offset : Nat)
  | pruning (cutoff : Nat)
  | failed
deriving DecidableEq

/-- The partitions of a job, their directories and the tracker they share. -/
structure CoordinatedRun (n : Nat) where
  directories : Fin n → FileDirectory
  tracker : Tracker n
  turns : Fin n → Turn := fun _ => .waiting
  /-- The offsets that a partition has reported in this run. -/
  reported : Fin n → List Nat := fun _ => []

namespace CoordinatedRun

variable {n : Nat}

/-- The start of a run with the complete checkpoint that it restored, if any. -/
def create (retain : Nat) (restored : Option Nat) (directories : Fin n → FileDirectory) :
    CoordinatedRun n :=
  { directories := directories, tracker := { retain := retain, complete := restored.toList } }

/-- A partition writes its file for a barrier. It throws if that fails. -/
def write (run : CoordinatedRun n) (partition : Fin n) (offset : Nat) (calls : WriteCalls)
    (processor : KeyedProcessor) : CoordinatedRun n :=
  let written := CheckpointWriter.writeCheckpoint true calls (run.directories partition) offset
    processor.watermark processor.state
  { run with
    directories := Function.update run.directories partition written.2
    turns := Function.update run.turns partition
      (if written.1 = true then .written offset else .failed) }

/-- A partition reports its file, and goes on to delete files if it has to. -/
def report (run : CoordinatedRun n) (partition : Fin n) (offset : Nat) : CoordinatedRun n :=
  let answer := run.tracker.onPartitionCheckpoint partition offset
  { run with
    tracker := { answer.2 with holder := answer.1.map fun _ => partition }
    turns := Function.update run.turns partition (answer.1.elim .waiting .pruning)
    reported := Function.update run.reported partition (run.reported partition ++ [offset]) }

/-- One file of a partition is deleted. -/
def unlink (run : CoordinatedRun n) (partition : Fin n) (name : Bytes) : CoordinatedRun n :=
  { run with
    directories := Function.update run.directories partition
      ((run.directories partition).erase name) }

/-- A partition is done with deleting. -/
def unlock (run : CoordinatedRun n) (partition : Fin n) : CoordinatedRun n :=
  { run with
    tracker := { run.tracker with holder := none }
    turns := Function.update run.turns partition .waiting }

/-- One step of a partition that handles the barriers in their order. -/
inductive Step (barriers : List Nat) (run : CoordinatedRun n) : CoordinatedRun n → Prop where
  | write {assigner : WindowAssigner} {lateness : Nat} (partition : Fin n) (offset : Nat)
      (calls : WriteCalls) (processor : KeyedProcessor)
      (idle : run.turns partition = .waiting)
      (next : barriers[(run.reported partition).length]? = some offset)
      (reachable : KeyedProcessor.Reachable assigner lateness processor)
      (storable : KeyedProcessor.Storable processor.state) :
      Step barriers run (run.write partition offset calls processor)
  | report (partition : Fin n) (offset : Nat) (written : run.turns partition = .written offset)
      (free : run.tracker.holder = none) : Step barriers run (run.report partition offset)
  | unlink (partition target : Fin n) (name : Bytes) (cutoff offset : Nat)
      (pruning : run.turns partition = .pruning cutoff)
      (read : prunableOffset name = some offset) (below : offset < cutoff) :
      Step barriers run (run.unlink target name)
  | unlock (partition : Fin n) (cutoff : Nat) (pruning : run.turns partition = .pruning cutoff) :
      Step barriers run (run.unlock partition)

def Reaches (barriers : List Nat) : CoordinatedRun n → CoordinatedRun n → Prop :=
  Relation.ReflTransGen (Step barriers)

/-! ## What counts as complete -/

/-- The offsets that every partition has reported, in order. -/
def reportedByAll [NeZero n] (reported : Fin n → List Nat) : List Nat :=
  (reported 0).dedup.filter fun offset => ∀ partition, offset ∈ reported partition

/-- The complete checkpoints, oldest first: the restored one, and the later ones that were
completed in this run. -/
def completeSequence [NeZero n] (restored : Option Nat) (reported : Fin n → List Nat) : List Nat :=
  restored.toList ++
    (reportedByAll reported).filter fun offset => restored.all (· < offset)

/-- The last `count` elements. -/
def newest (count : Nat) (sequence : List Nat) : List Nat :=
  sequence.drop (sequence.length - count)

section Reports

variable [NeZero n] {barriers : List Nat} {restored : Option Nat} {reported : Fin n → List Nat}

theorem mem_reportedByAll {offset : Nat} :
    offset ∈ reportedByAll reported ↔ ∀ partition, offset ∈ reported partition := by
  rw [reportedByAll, List.mem_filter, List.mem_dedup, decide_eq_true_eq]
  exact ⟨And.right, fun all => ⟨all 0, all⟩⟩

theorem mem_completeSequence {offset : Nat} :
    offset ∈ completeSequence restored reported ↔ restored = some offset ∨
      (∀ partition, offset ∈ reported partition) ∧ ∀ first ∈ restored, first < offset := by
  rw [completeSequence, List.mem_append, List.mem_filter, mem_reportedByAll, Option.mem_toList,
    Option.all_eq_true]
  simp [Option.mem_def]

/-- The last element of an ordered list is an upper bound. -/
theorem le_getLast? {sequence : List Nat} (ordered : sequence.Pairwise (· ≤ ·)) {last offset : Nat}
    (isLast : sequence.getLast? = some last) (member : offset ∈ sequence) : offset ≤ last := by
  obtain ⟨before, rfl⟩ := List.getLast?_eq_some_iff.mp isLast
  grind

section Ordered

variable (restored) (ordered : barriers.Pairwise (· ≤ ·))
  (starts : ∀ partition, reported partition <+: barriers)

include ordered starts

theorem completeSequence_ascending : (completeSequence restored reported).Pairwise (· < ·) := by
  have inOrder : (reported 0).Pairwise (· ≤ ·) := ordered.sublist (starts 0).sublist
  have distinct : (reported 0).dedup.Pairwise (· < ·) :=
    ((inOrder.sublist (List.dedup_sublist _)).and (List.nodup_dedup _)).imp
      fun both => lt_of_le_of_ne both.1 both.2
  rw [completeSequence, List.pairwise_append]
  refine ⟨?_, (distinct.filter _).filter _, ?_⟩
  · cases restored <;> simp
  · intro first isFirst offset later
    rw [Option.mem_toList] at isFirst
    have above := (List.mem_filter.mp later).2
    rw [isFirst] at above
    simpa using above

omit [NeZero n] in
/-- The smallest latest report has been made by every partition: of two partitions, the
reports of one are the start of the other's. -/
theorem reported_of_smallest {partition other : Fin n} {last smallest : Nat}
    (isSmallest : (reported partition).getLast? = some smallest)
    (isLast : (reported other).getLast? = some last) (below : smallest ≤ last) :
    smallest ∈ reported other := by
  have own : smallest ∈ reported partition := List.mem_of_getLast? isSmallest
  rcases List.prefix_or_prefix_of_prefix (starts partition) (starts other) with shorter | longer
  · exact shorter.subset own
  · have lastReported : last ∈ reported other := List.mem_of_getLast? isLast
    have above := le_getLast? (ordered.sublist (starts partition).sublist) isSmallest
      (longer.subset lastReported)
    rwa [le_antisymm below above]

/-- The tracker's candidate is the largest offset that every partition has reported. -/
theorem candidate_eq {latest : Fin n → Option Nat}
    (tracked : ∀ partition, latest partition = (reported partition).getLast?) :
    Tracker.candidate latest = (reportedByAll reported).max? := by
  unfold Tracker.candidate
  split_ifs with all
  · have present : ∀ partition, ∃ last, (reported partition).getLast? = some last := by
      intro partition
      have some := all partition
      rw [tracked] at some
      exact Option.isSome_iff_exists.mp some
    obtain ⟨first, isFirst⟩ := present 0
    have listed : first ∈ (List.finRange n).filterMap latest :=
      List.mem_filterMap.mpr ⟨0, List.mem_finRange 0, by rw [tracked, isFirst]⟩
    obtain ⟨smallest, found⟩ := Option.isSome_iff_exists.mp (List.isSome_min?_of_mem listed)
    obtain ⟨member, below⟩ := List.min?_eq_some_iff.mp found
    obtain ⟨partition, -, isSmallest⟩ := List.mem_filterMap.mp member
    rw [tracked] at isSmallest
    rw [found, eq_comm, List.max?_eq_some_iff]
    constructor
    · rw [mem_reportedByAll]
      intro other
      obtain ⟨last, isLast⟩ := present other
      apply reported_of_smallest ordered starts isSmallest isLast
      exact below last
        (List.mem_filterMap.mpr ⟨other, List.mem_finRange _, by rw [tracked, isLast]⟩)
    · intro offset common
      exact le_getLast? (ordered.sublist (starts partition).sublist) isSmallest
        (mem_reportedByAll.mp common partition)
  · push Not at all
    obtain ⟨partition, missing⟩ := all
    rw [tracked] at missing
    have nothing : reported partition = [] := by
      cases same : reported partition with
      | nil => rfl
      | cons head tail =>
        rw [same] at missing
        simp [List.getLast?_cons] at missing
    have none : reportedByAll reported = [] := by
      apply List.eq_nil_iff_forall_not_mem.mpr
      intro offset common
      have impossible := mem_reportedByAll.mp common partition
      rw [nothing] at impossible
      cases impossible
    rw [none]
    rfl

end Ordered

/-- The reports after one more. -/
def extend (reported : Fin n → List Nat) (partition : Fin n) (offset : Nat) : Fin n → List Nat :=
  Function.update reported partition (reported partition ++ [offset])

omit [NeZero n] in
theorem mem_extend {partition other : Fin n} {offset candidate : Nat} :
    candidate ∈ extend reported partition offset other ↔
      candidate ∈ reported other ∨ other = partition ∧ candidate = offset := by
  unfold extend
  by_cases same : other = partition
  · subst other
    simp
  · simp [same]

omit [NeZero n] in
theorem extend_starts (starts : ∀ partition, reported partition <+: barriers) {partition : Fin n}
    {offset : Nat} (extended : reported partition ++ [offset] <+: barriers) (other : Fin n) :
    extend reported partition offset other <+: barriers := by
  unfold extend
  by_cases same : other = partition
  · subst other
    simpa using extended
  · rw [Function.update_of_ne same]
    exact starts other

section Extended

variable (restored) (ordered : barriers.Pairwise (· ≤ ·))
  (starts : ∀ partition, reported partition <+: barriers)
  {partition : Fin n} {offset : Nat} (extended : reported partition ++ [offset] <+: barriers)

include ordered extended

omit [NeZero n] in
theorem le_of_extended {earlier : Nat} (member : earlier ∈ reported partition) :
    earlier ≤ offset := by
  have inOrder := ordered.sublist extended.sublist
  rw [List.pairwise_append] at inOrder
  exact inOrder.2.2 earlier member offset (List.mem_singleton_self offset)

include starts

/-- A report that makes no later checkpoint complete changes nothing. -/
theorem completeSequence_extend_of_le
    (bound : ∀ common ∈ reportedByAll (extend reported partition offset),
      ∃ last ∈ completeSequence restored reported, common ≤ last) :
    completeSequence restored (extend reported partition offset) =
      completeSequence restored reported := by
  apply (completeSequence_ascending restored ordered (extend_starts starts extended)).eq_of_mem_iff
    (completeSequence_ascending restored ordered starts)
  intro candidate
  rw [mem_completeSequence, mem_completeSequence]
  apply or_congr_right
  refine ⟨?_, fun both => ⟨fun other => mem_extend.mpr (.inl (both.1 other)), both.2⟩⟩
  rintro ⟨common, above⟩
  refine ⟨?_, above⟩
  obtain ⟨last, isLast, below⟩ := bound candidate (mem_reportedByAll.mpr common)
  rcases mem_completeSequence.mp isLast with first | ⟨lastCommon, -⟩
  · exact absurd (above last first) (by omega)
  · -- Either the candidate was reported before, or it is squeezed between the last
    -- complete offset and the new report.
    intro other
    rcases mem_extend.mp (common other) with before | ⟨rfl, rfl⟩
    · exact before
    · have upper := le_of_extended ordered extended (lastCommon other)
      rw [le_antisymm below upper]
      exact lastCommon other

/-- A report that makes a later checkpoint complete adds that checkpoint. -/
theorem completeSequence_extend_of_lt {newest : Nat}
    (isNewest : (reportedByAll (extend reported partition offset)).max? = some newest)
    (later : ∀ earlier ∈ completeSequence restored reported, earlier < newest) :
    completeSequence restored (extend reported partition offset) =
      completeSequence restored reported ++ [newest] := by
  obtain ⟨common, largest⟩ := List.max?_eq_some_iff.mp isNewest
  have above : ∀ first ∈ restored, first < newest := fun first isFirst =>
    later first (mem_completeSequence.mpr (.inl isFirst))
  apply (completeSequence_ascending restored ordered (extend_starts starts extended)).eq_of_mem_iff
  · rw [List.pairwise_append]
    refine ⟨completeSequence_ascending restored ordered starts, List.pairwise_singleton _ _, ?_⟩
    intro earlier member last isLast
    rw [List.mem_singleton] at isLast
    exact isLast ▸ later earlier member
  · intro candidate
    rw [List.mem_append, List.mem_singleton, mem_completeSequence, mem_completeSequence]
    constructor
    · rintro (first | ⟨all, greater⟩)
      · exact .inl (.inl first)
      · by_cases known : ∀ other, candidate ∈ reported other
        · exact .inl (.inr ⟨known, greater⟩)
        · right
          have atMost := largest candidate (mem_reportedByAll.mpr all)
          push Not at known
          obtain ⟨other, unknown⟩ := known
          rcases mem_extend.mp (all other) with before | ⟨rfl, rfl⟩
          · exact absurd before unknown
          · rcases mem_extend.mp (mem_reportedByAll.mp common other) with before | ⟨-, same⟩
            · exact le_antisymm atMost (le_of_extended ordered extended before)
            · exact same.symm
    · rintro ((first | ⟨all, greater⟩) | rfl)
      · exact .inl first
      · exact .inr ⟨fun other => mem_extend.mpr (.inl (all other)), greater⟩
      · exact .inr ⟨mem_reportedByAll.mp common, above⟩

/-- A report adds at most one complete checkpoint. -/
theorem completeSequence_extend :
    completeSequence restored (extend reported partition offset) =
        completeSequence restored reported ∨
      ∃ newest, completeSequence restored (extend reported partition offset) =
        completeSequence restored reported ++ [newest] := by
  cases isNewest : (reportedByAll (extend reported partition offset)).max? with
  | none =>
    left
    apply completeSequence_extend_of_le restored ordered starts extended
    intro common member
    rw [List.max?_eq_none_iff.mp isNewest] at member
    cases member
  | some newest =>
    by_cases later : ∀ earlier ∈ completeSequence restored reported, earlier < newest
    · right
      exact ⟨newest, completeSequence_extend_of_lt restored ordered starts extended isNewest later⟩
    · left
      push Not at later
      obtain ⟨last, member, bound⟩ := later
      apply completeSequence_extend_of_le restored ordered starts extended
      intro common isCommon
      exact ⟨last, member, ((List.max?_eq_some_iff.mp isNewest).2 common isCommon).trans bound⟩

end Extended

end Reports

/-! ## The window of retained checkpoints -/

theorem getLast?_newest {count : Nat} (positive : 0 < count) (sequence : List Nat) :
    (newest count sequence).getLast? = sequence.getLast? := by
  rw [newest, List.getLast?_drop]
  cases sequence with
  | nil => simp
  | cons first rest =>
    rw [if_neg]
    simp only [List.length_cons]
    omega

theorem newest_append (count : Nat) (sequence : List Nat) (last : Nat) :
    newest count (newest count sequence ++ [last]) = newest count (sequence ++ [last]) := by
  have inside : sequence.length - count ≤ sequence.length := Nat.sub_le _ _
  unfold newest
  rw [← List.drop_append_of_le_length inside, List.drop_drop]
  congr 1
  simp only [List.length_drop, List.length_append, List.length_singleton]
  omega

/-- The oldest of an ascending list is a lower bound. -/
theorem head?_le {sequence : List Nat} (ascending : sequence.Pairwise (· < ·)) {oldest offset : Nat}
    (isOldest : sequence.head? = some oldest) (member : offset ∈ sequence) : oldest ≤ offset := by
  obtain ⟨later, rfl⟩ := List.head?_eq_some_iff.mp isOldest
  grind [List.pairwise_cons]

/-- The retained window only moves forward. -/
theorem head?_newest_append_le {count : Nat} {sequence : List Nat} {last oldest later : Nat}
    (ascending : (sequence ++ [last]).Pairwise (· < ·))
    (isOldest : (newest count sequence).head? = some oldest)
    (isLater : (newest count (sequence ++ [last])).head? = some later) : oldest ≤ later := by
  rw [← newest_append] at isLater
  have inside : sequence.length - count ≤ sequence.length := Nat.sub_le _ _
  have window : (newest count sequence ++ [last]).Pairwise (· < ·) := by
    rw [newest, ← List.drop_append_of_le_length inside]
    exact ascending.sublist (List.drop_sublist _ _)
  have head : (newest count sequence ++ [last]).head? = some oldest := by
    rw [List.head?_append, isOldest]
    rfl
  exact head?_le window head (List.mem_of_mem_drop (List.mem_of_head? isLater))

section Tracking

variable [NeZero n] {barriers : List Nat} {restored : Option Nat} {reported : Fin n → List Nat}
  {tracker : Tracker n}

/-- The tracker's record agrees with what was reported. -/
structure Tracks (retain : Nat) (restored : Option Nat) (reported : Fin n → List Nat)
    (tracker : Tracker n) : Prop where
  retention : tracker.retain = retain
  latest : ∀ partition, tracker.latest partition = (reported partition).getLast?
  complete : tracker.complete = newest (max retain 1) (completeSequence restored reported)

theorem Tracks.onPartitionCheckpoint {retain : Nat}
    (tracks : Tracks retain restored reported tracker)
    (ordered : barriers.Pairwise (· ≤ ·)) (starts : ∀ partition, reported partition <+: barriers)
    {partition : Fin n} {offset : Nat} (extended : reported partition ++ [offset] <+: barriers) :
    Tracks retain restored (extend reported partition offset)
        (tracker.onPartitionCheckpoint partition offset).2 ∧
      ∀ cutoff, (tracker.onPartitionCheckpoint partition offset).1 = some cutoff →
        retain ≠ 0 ∧
          (tracker.onPartitionCheckpoint partition offset).2.complete.head? = some cutoff := by
  have positive : 0 < max retain 1 := lt_max_of_lt_right Nat.zero_lt_one
  have latest : ∀ other, Function.update tracker.latest partition (some offset) other =
      (extend reported partition offset other).getLast? := by
    intro other
    by_cases same : other = partition
    · subst other
      simp [extend]
    · rw [extend, Function.update_of_ne same, Function.update_of_ne same, tracks.latest]
  have last : tracker.complete.getLast? = (completeSequence restored reported).getLast? := by
    rw [tracks.complete, getLast?_newest positive]
  have ascending := completeSequence_ascending restored ordered starts
  unfold Tracker.onPartitionCheckpoint
  dsimp only
  rw [candidate_eq ordered (extend_starts starts extended) latest, last]
  cases isNewest : (reportedByAll (extend reported partition offset)).max? with
  | none =>
    have unchanged := completeSequence_extend_of_le restored ordered starts extended (by
      intro common member
      rw [List.max?_eq_none_iff.mp isNewest] at member
      cases member)
    exact ⟨⟨tracks.retention, latest, by rw [unchanged]; exact tracks.complete⟩, by simp⟩
  | some newestOffset =>
    obtain ⟨-, largest⟩ := List.max?_eq_some_iff.mp isNewest
    dsimp only
    by_cases known : (completeSequence restored reported).getLast?.any
        (fun last => newestOffset ≤ last) = true
    · obtain ⟨final, isLast, below⟩ := (Option.any_eq_true _ _).mp known
      have unchanged := completeSequence_extend_of_le restored ordered starts extended (by
        intro common member
        refine ⟨final, List.mem_of_getLast? isLast, ?_⟩
        exact (largest common member).trans (of_decide_eq_true below))
      rw [if_pos known]
      exact ⟨⟨tracks.retention, latest, by rw [unchanged]; exact tracks.complete⟩, by simp⟩
    · have added := completeSequence_extend_of_lt restored ordered starts extended isNewest (by
        intro earlier member
        obtain ⟨final, isLast⟩ := Option.isSome_iff_exists.mp
          (List.getLast?_isSome.mpr (List.ne_nil_of_mem member))
        rw [isLast] at known
        have below := le_getLast? (ascending.imp Nat.le_of_lt) isLast member
        simp at known
        omega)
      have complete : newest (max retain 1) (tracker.complete ++ [newestOffset]) =
          newest (max retain 1) (completeSequence restored (extend reported partition offset)) := by
        rw [added, tracks.complete, newest_append]
      rw [if_neg known, tracks.retention]
      split_ifs with all
      · rw [all] at complete
        exact ⟨⟨rfl, latest, by rw [all]; exact complete⟩, by simp⟩
      · have atLeastOne : max retain 1 = retain := by omega
        rw [atLeastOne] at complete
        exact ⟨⟨rfl, latest, by rw [atLeastOne]; exact complete⟩,
          fun cutoff isCutoff => ⟨all, isCutoff⟩⟩

/-- The oldest retained checkpoint does not move back. -/
theorem Tracks.oldest_le {retain : Nat} (tracks : Tracks retain restored reported tracker)
    (ordered : barriers.Pairwise (· ≤ ·)) (starts : ∀ partition, reported partition <+: barriers)
    {partition : Fin n} {offset : Nat} (extended : reported partition ++ [offset] <+: barriers)
    {after : Tracker n} (next : Tracks retain restored (extend reported partition offset) after)
    {earlier : Nat} (bound : ∀ oldest ∈ after.complete.head?, oldest ≤ earlier) :
    ∀ oldest ∈ tracker.complete.head?, oldest ≤ earlier := by
  rw [next.complete] at bound
  rw [tracks.complete]
  have ascending := completeSequence_ascending restored ordered (extend_starts starts extended)
  rcases completeSequence_extend restored ordered starts extended with same | ⟨last, same⟩
  · rwa [same] at bound
  · rw [same] at bound ascending
    intro oldest isOldest
    cases isLater :
        (newest (max retain 1) (completeSequence restored reported ++ [last])).head? with
    | none =>
      have empty := List.head?_eq_none_iff.mp isLater
      have lastOne := getLast?_newest (lt_max_of_lt_right Nat.zero_lt_one : 0 < max retain 1)
        (completeSequence restored reported ++ [last])
      rw [empty] at lastOne
      simp at lastOne
    | some later =>
      exact (head?_newest_append_le ascending isOldest isLater).trans (bound later isLater)

end Tracking

/-! ## The invariant -/

/-- What holds at every moment of a run. -/
structure Safe [NeZero n] (barriers : List Nat) (retain : Nat) (restored : Option Nat)
    (run : CoordinatedRun n) : Prop where
  starts : ∀ partition, run.reported partition <+: barriers
  pending : ∀ partition offset, run.turns partition = .written offset →
    run.reported partition ++ [offset] <+: barriers
  tracks : Tracks retain restored run.reported run.tracker
  /-- A file that was written in this run or restored from is only lost below the oldest
  retained checkpoint. -/
  held : ∀ partition offset,
    offset ∈ run.reported partition ∨ run.turns partition = .written offset ∨
      restored = some offset →
    (∀ oldest ∈ run.tracker.complete.head?, oldest ≤ offset) →
    (run.directories partition).Holds offset
  pruning : ∀ partition cutoff, run.turns partition = .pruning cutoff →
    run.tracker.holder = some partition ∧ retain ≠ 0 ∧
      run.tracker.complete.head? = some cutoff

section Safety

variable [NeZero n] {barriers : List Nat} {retain : Nat} {restored : Option Nat}
  {run after : CoordinatedRun n}

theorem Safe.create {directories : Fin n → FileDirectory}
    (complete : ∀ offset ∈ restored, ∀ partition, (directories partition).Holds offset) :
    Safe barriers retain restored (create retain restored directories) where
  starts _ := List.nil_prefix
  pending _ _ impossible := by cases impossible
  tracks := by
    refine ⟨rfl, fun _ => rfl, ?_⟩
    have nothing : reportedByAll (fun _ : Fin n => []) = [] := rfl
    change restored.toList = newest _ (completeSequence restored fun _ => [])
    rw [completeSequence, nothing, List.filter_nil, List.append_nil, newest]
    have few : restored.toList.length - max retain 1 = 0 := by
      cases restored <;> simp
    rw [few, List.drop_zero]
  held := by
    rintro partition offset (impossible | impossible | same) -
    · cases impossible
    · cases impossible
    · exact complete offset same partition
  pruning _ _ impossible := by cases impossible

section

variable (safe : Safe barriers retain restored run)

include safe

theorem Safe.write (fit : ∀ offset ∈ barriers, offset < 2 ^ 64) {assigner : WindowAssigner}
    {lateness : Nat} {partition : Fin n} {offset : Nat} {processor : KeyedProcessor}
    (calls : WriteCalls) (next : barriers[(run.reported partition).length]? = some offset)
    (reachable : KeyedProcessor.Reachable assigner lateness processor)
    (storable : KeyedProcessor.Storable processor.state) :
    Safe barriers retain restored (run.write partition offset calls processor) := by
  have fits : offset < 2 ^ 64 := fit offset (List.mem_of_getElem? next)
  have turn {other : Fin n} (apart : other ≠ partition) :
      (run.write partition offset calls processor).turns other = run.turns other :=
    Function.update_of_ne apart _ _
  have ownTurn : (run.write partition offset calls processor).turns partition =
      if (CheckpointWriter.writeCheckpoint true calls (run.directories partition) offset
        processor.watermark processor.state).1 = true then .written offset else .failed :=
    Function.update_self _ _ _
  refine ⟨safe.starts, ?_, safe.tracks, ?_, ?_⟩
  · intro other latest written
    by_cases same : other = partition
    · subst other
      rw [ownTurn] at written
      split_ifs at written
      obtain rfl := Turn.written.inj written
      obtain ⟨rest, whole⟩ := safe.starts partition
      rw [← whole, List.getElem?_append_right le_rfl, Nat.sub_self] at next
      obtain ⟨tail, rfl⟩ := List.head?_eq_some_iff.mp (List.head?_eq_getElem?.trans next)
      exact ⟨tail, by rw [← whole, List.append_assoc]; rfl⟩
    · rw [turn same] at written
      exact safe.pending other latest written
  · intro other earlier source bound
    by_cases same : other = partition
    · subst other
      change FileDirectory.Holds (Function.update run.directories partition _ partition) earlier
      rw [Function.update_self]
      apply FileDirectory.holds_writeCheckpoint reachable storable fits
      rcases source with before | written | first
      · exact .inl (safe.held partition earlier (.inl before) bound)
      · rw [ownTurn] at written
        split_ifs at written with success
        exact .inr ⟨(Turn.written.inj written).symm, success⟩
      · exact .inl (safe.held partition earlier (.inr (.inr first)) bound)
    · change FileDirectory.Holds (Function.update run.directories partition _ other) earlier
      rw [Function.update_of_ne same]
      rw [turn same] at source
      exact safe.held other earlier source bound
  · intro other cutoff pruning
    by_cases same : other = partition
    · subst other
      rw [ownTurn] at pruning
      split_ifs at pruning
    · rw [turn same] at pruning
      exact safe.pruning other cutoff pruning

theorem Safe.report (ordered : barriers.Pairwise (· ≤ ·)) {partition : Fin n} {offset : Nat}
    (written : run.turns partition = .written offset) (free : run.tracker.holder = none) :
    Safe barriers retain restored (run.report partition offset) := by
  have extended := safe.pending partition offset written
  have turn {other : Fin n} (apart : other ≠ partition) :
      (run.report partition offset).turns other = run.turns other :=
    Function.update_of_ne apart _ _
  have ownTurn : (run.report partition offset).turns partition =
      (run.tracker.onPartitionCheckpoint partition offset).1.elim .waiting .pruning :=
    Function.update_self _ _ _
  have notWritten (latest : Nat) :
      (run.report partition offset).turns partition ≠ .written latest := by
    rw [ownTurn]
    cases (run.tracker.onPartitionCheckpoint partition offset).1 <;> simp
  have reports :
      (run.report partition offset).reported = extend run.reported partition offset := rfl
  obtain ⟨tracks, cutoffs⟩ := safe.tracks.onPartitionCheckpoint ordered safe.starts extended
  refine ⟨extend_starts safe.starts extended, ?_, ⟨tracks.1, tracks.2, tracks.3⟩, ?_, ?_⟩
  · intro other latest pending
    by_cases same : other = partition
    · subst other
      exact absurd pending (notWritten latest)
    · rw [turn same] at pending
      rw [reports, extend, Function.update_of_ne same]
      exact safe.pending other latest pending
  · intro other earlier source bound
    apply safe.held other earlier
    · rcases source with member | pending | first
      · rcases mem_extend.mp member with before | ⟨rfl, rfl⟩
        · exact .inl before
        · exact .inr (.inl written)
      · by_cases same : other = partition
        · subst other
          exact absurd pending (notWritten earlier)
        · exact .inr (.inl (turn same ▸ pending))
      · exact .inr (.inr first)
    · exact safe.tracks.oldest_le ordered safe.starts extended tracks bound
  · intro other cutoff pruning
    by_cases same : other = partition
    · subst other
      rw [ownTurn] at pruning
      cases answer : (run.tracker.onPartitionCheckpoint partition offset).1 with
      | none => rw [answer] at pruning; cases pruning
      | some bound =>
        rw [answer] at pruning
        obtain rfl := Turn.pruning.inj pruning
        obtain ⟨positive, oldest⟩ := cutoffs bound answer
        refine ⟨?_, positive, oldest⟩
        change (run.tracker.onPartitionCheckpoint partition offset).1.map _ = _
        rw [answer, Option.map_some]
    · rw [turn same] at pruning
      have held := (safe.pruning other cutoff pruning).1
      rw [free] at held
      cases held

theorem Safe.unlink {partition target : Fin n} {name : Bytes} {cutoff offset : Nat}
    (pruning : run.turns partition = .pruning cutoff) (read : prunableOffset name = some offset)
    (below : offset < cutoff) :
    Safe barriers retain restored (run.unlink target name) := by
  refine ⟨safe.starts, safe.pending, safe.tracks, ?_, safe.pruning⟩
  intro other earlier source bound
  have holds := safe.held other earlier source bound
  have kept : cutoff ≤ earlier := bound cutoff (safe.pruning partition cutoff pruning).2.2
  by_cases same : other = target
  · subst other
    change FileDirectory.Holds (Function.update run.directories target _ target) earlier
    rw [Function.update_self]
    apply holds.erase
    rintro rfl
    rw [prunableOffset_checkpointFilename holds.fits] at read
    cases read
    omega
  · change FileDirectory.Holds (Function.update run.directories target _ other) earlier
    rwa [Function.update_of_ne same]

theorem Safe.unlock {partition : Fin n} {cutoff : Nat}
    (pruning : run.turns partition = .pruning cutoff) :
    Safe barriers retain restored (run.unlock partition) := by
  have holder := (safe.pruning partition cutoff pruning).1
  have turn {other : Fin n} (apart : other ≠ partition) :
      (run.unlock partition).turns other = run.turns other := Function.update_of_ne apart _ _
  have ownTurn : (run.unlock partition).turns partition = .waiting := Function.update_self _ _ _
  have before {other : Fin n} {offset : Nat}
      (written : (run.unlock partition).turns other = .written offset) :
      run.turns other = .written offset := by
    by_cases same : other = partition
    · rw [same, ownTurn] at written
      cases written
    · rwa [turn same] at written
  refine ⟨safe.starts, fun other offset written => safe.pending other offset (before written),
    ⟨safe.tracks.1, safe.tracks.2, safe.tracks.3⟩, ?_, ?_⟩
  · intro other offset source bound
    exact safe.held other offset (source.imp_right (Or.imp_left before)) bound
  · intro other cutoff pruning
    by_cases same : other = partition
    · rw [same, ownTurn] at pruning
      cases pruning
    · rw [turn same] at pruning
      have other := (safe.pruning other cutoff pruning).1
      rw [holder] at other
      exact absurd (Option.some.inj other).symm same

theorem Safe.step (ordered : barriers.Pairwise (· ≤ ·)) (fit : ∀ offset ∈ barriers, offset < 2 ^ 64)
    (step : Step barriers run after) :
    Safe barriers retain restored after := by
  cases step with
  | write partition offset calls processor idle next reachable storable =>
    exact safe.write fit calls next reachable storable
  | report partition offset written free => exact safe.report ordered written free
  | unlink partition target name cutoff offset pruning read below =>
    exact safe.unlink pruning read below
  | unlock partition cutoff pruning => exact safe.unlock pruning

theorem Safe.reaches (ordered : barriers.Pairwise (· ≤ ·))
    (fit : ∀ offset ∈ barriers, offset < 2 ^ 64) (reached : Reaches barriers run after) :
    Safe barriers retain restored after := by
  induction reached with
  | refl => exact safe
  | tail _ step inductionHypothesis => exact inductionHypothesis.step ordered fit step

theorem Safe.lastComplete_eq :
    run.tracker.lastComplete = (completeSequence restored run.reported).getLast? := by
  rw [Tracker.lastComplete, safe.tracks.complete,
    getLast?_newest (lt_max_of_lt_right Nat.zero_lt_one)]

/-- The last complete checkpoint is the largest that was restored or reported by all. -/
theorem Safe.lastComplete_max (ordered : barriers.Pairwise (· ≤ ·)) :
    run.tracker.lastComplete = (restored.toList ++ reportedByAll run.reported).max? := by
  have ascending := completeSequence_ascending restored ordered safe.starts
  rw [safe.lastComplete_eq]
  cases isLast : (completeSequence restored run.reported).getLast? with
  | none =>
    have nothing := List.getLast?_eq_none_iff.mp isLast
    rw [completeSequence, List.append_eq_nil_iff] at nothing
    obtain ⟨first, rest⟩ := nothing
    cases restored with
    | some offset => cases first
    | none =>
      have all : reportedByAll run.reported = [] := by simpa using rest
      rw [all]
      rfl
  | some last =>
    rw [eq_comm, List.max?_eq_some_iff]
    have member := List.mem_of_getLast? isLast
    have largest {offset : Nat} (isComplete : offset ∈ completeSequence restored run.reported) :
        offset ≤ last := le_getLast? (ascending.imp Nat.le_of_lt) isLast isComplete
    constructor
    · rw [List.mem_append, Option.mem_toList, mem_reportedByAll]
      exact (mem_completeSequence.mp member).imp_right And.left
    · intro offset either
      rw [List.mem_append, Option.mem_toList, mem_reportedByAll] at either
      rcases either with first | all
      · exact largest (mem_completeSequence.mpr (.inl first))
      · by_cases later : ∀ first ∈ restored, first < offset
        · exact largest (mem_completeSequence.mpr (.inr ⟨all, later⟩))
        · push Not at later
          obtain ⟨first, isFirst, below⟩ := later
          exact below.trans (largest (mem_completeSequence.mpr (.inl isFirst)))

/-- Every partition holds the last complete checkpoint. -/
theorem Safe.holds_lastComplete (ordered : barriers.Pairwise (· ≤ ·)) {last : Nat}
    (isLast : run.tracker.lastComplete = some last) (partition : Fin n) :
    (run.directories partition).Holds last := by
  have ascending := completeSequence_ascending restored ordered safe.starts
  have window : run.tracker.complete.Pairwise (· < ·) := by
    rw [safe.tracks.complete]
    exact ascending.sublist (List.drop_sublist _ _)
  have member : last ∈ run.tracker.complete := List.mem_of_getLast? isLast
  have entry : last ∈ completeSequence restored run.reported := by
    rw [safe.tracks.complete] at member
    exact List.mem_of_mem_drop member
  apply safe.held partition last
  · rcases mem_completeSequence.mp entry with first | ⟨all, -⟩
    · exact .inr (.inr first)
    · exact .inl (all partition)
  · exact fun oldest isOldest => head?_le window isOldest member

/-- A checkpoint file disappears only while files are pruned, and only below the oldest
retained checkpoint. -/
theorem Safe.deleted_below (step : Step barriers run after) {partition : Fin n} {name : Bytes}
    (ckpt : hasSuffix ckptSuffix name = true) (present : name ∈ run.directories partition)
    (absent : name ∉ after.directories partition) :
    retain ≠ 0 ∧ ∃ offset oldest, name = checkpointFilename offset ∧
      (newest retain (completeSequence restored run.reported)).head? = some oldest ∧
      offset < oldest := by
  cases step with
  | write target offset calls processor idle next reachable storable =>
    exfalso
    apply absent
    by_cases same : partition = target
    · subst partition
      change name ∈ Function.update run.directories target _ target
      rw [Function.update_self]
      have notTmp : tmpFilename offset ≠ name := by
        rintro rfl
        rw [FileDirectory.tmpFilename_not_ckpt] at ckpt
        cases ckpt
      rcases FileDirectory.writeCheckpoint_retainAll calls (run.directories target) offset
        processor.watermark processor.state with ⟨-, same | same⟩ | same
      · rwa [same]
      · rw [same, Std.ExtTreeMap.mem_erase]
        exact ⟨by simpa using notTmp, present⟩
      · rw [same, FileDirectory.renamed, Std.ExtTreeMap.mem_insert, Std.ExtTreeMap.mem_erase]
        exact .inr ⟨by simpa using notTmp, present⟩
    · change name ∈ Function.update run.directories target _ partition
      rwa [Function.update_of_ne same]
  | report target offset written free => exact absurd present absent
  | unlock target cutoff pruning => exact absurd present absent
  | unlink pruner target victim cutoff offset pruning read below =>
    obtain ⟨-, positive, oldest⟩ := safe.pruning pruner cutoff pruning
    have atLeastOne : max retain 1 = retain := by omega
    rw [safe.tracks.complete, atLeastOne] at oldest
    refine ⟨positive, offset, cutoff, ?_, oldest, below⟩
    rw [← eq_checkpointFilename read]
    by_contra other
    apply absent
    by_cases same : partition = target
    · subst partition
      change name ∈ Function.update run.directories target _ target
      rw [Function.update_self, Std.ExtTreeMap.mem_erase]
      exact ⟨by simpa using Ne.symm other, present⟩
    · change name ∈ Function.update run.directories target _ partition
      rwa [Function.update_of_ne same]

end

end Safety

/-- **Coordinated retention is safe.** At every moment the last complete checkpoint is held
by every partition and is the largest that was restored or reported by all; the record of
complete checkpoints ascends; no file at or above the oldest retained one is deleted, and
none at all if everything is retained; and a restart finds a checkpoint at least as high. -/
theorem retention_safe [NeZero n] {barriers : List Nat} (ordered : barriers.Pairwise (· ≤ ·))
    (fit : ∀ offset ∈ barriers, offset < 2 ^ 64) (retain : Nat) (restored : Option Nat)
    (directories : Fin n → FileDirectory)
    (complete : ∀ offset ∈ restored, ∀ partition, (directories partition).Holds offset)
    {run : CoordinatedRun n} (reached : Reaches barriers (create retain restored directories) run) :
    (∀ last, run.tracker.lastComplete = some last →
      ∀ partition, (run.directories partition).Holds last) ∧
    run.tracker.lastComplete = (restored.toList ++ reportedByAll run.reported).max? ∧
    run.tracker.complete.Pairwise (· < ·) ∧
    (∀ after, Step barriers run after → ∀ partition name, hasSuffix ckptSuffix name = true →
      name ∈ run.directories partition → name ∉ after.directories partition →
        retain ≠ 0 ∧ ∃ offset oldest, name = checkpointFilename offset ∧
          (newest retain (completeSequence restored run.reported)).head? = some oldest ∧
          offset < oldest) ∧
    (∀ last, run.tracker.lastComplete = some last →
      ∃ highest, highestCompleteCheckpoint run.directories = some highest ∧ last ≤ highest) := by
  have safe : Safe barriers retain restored run :=
    (Safe.create complete).reaches ordered fit reached
  refine ⟨?_, safe.lastComplete_max ordered, ?_, ?_, ?_⟩
  · exact fun last isLast partition => safe.holds_lastComplete ordered isLast partition
  · rw [safe.tracks.complete]
    exact (completeSequence_ascending restored ordered safe.starts).sublist (List.drop_sublist _ _)
  · exact fun after step partition name ckpt present absent =>
      safe.deleted_below step ckpt present absent
  · exact fun last isLast =>
      le_highestCompleteCheckpoint fun partition => safe.holds_lastComplete ordered isLast partition

/-- A new processor. -/
def idle : KeyedProcessor := KeyedProcessor.create tenMs.assignWindows 0 true

theorem idle_reachable : KeyedProcessor.Reachable tenMs.assignWindows 0 idle := .create true

theorem idle_storable : KeyedProcessor.Storable idle.state :=
  KeyedProcessor.storable_of_all (by decide +kernel) (by decide +kernel) (by decide +kernel)

/-- A directory with the checkpoint of an earlier run. -/
def leftover : FileDirectory :=
  FileDirectory.renamed ∅ 1 (CheckpointWriter.payload 1 idle.watermark idle.state)

theorem leftover_holds : leftover.Holds 1 :=
  FileDirectory.holds_renamed ∅ (KeyedProcessor.tryLoad_payload idle_reachable idle_storable
    (by decide) idle.state.sorted) rfl

/-- Two partitions restore that checkpoint, write the next barrier and report it. -/
def bothReport : CoordinatedRun 2 :=
  let calls : WriteCalls := ⟨true, true, true, true, true, true⟩
  ((((create 1 (some 1) fun _ => leftover).write 0 2 calls idle).report 0 2).write 1 2 calls
    idle).report 1 2

/-- The restored checkpoint of the first partition is deleted. Both partitions hold the reported
one. -/
theorem bothReport_retained :
    let pruned := bothReport.unlink 0 (checkpointFilename 1)
    checkpointFilename 1 ∈ bothReport.directories 0 ∧
      checkpointFilename 1 ∉ pruned.directories 0 ∧
      (newest 1 (completeSequence (some 1) bothReport.reported)).head? = some 2 ∧
      pruned.tracker.lastComplete = some 2 ∧
      ∀ partition, (pruned.directories partition).Holds 2 := by
  intro pruned
  have reached : Reaches [2, 2, 3] (create 1 (some 1) fun _ => leftover) bothReport :=
    (((Relation.ReflTransGen.single
      (.write 0 2 _ _ (by decide +kernel) (by decide +kernel) idle_reachable idle_storable)).tail
      (.report 0 2 (by decide +kernel) (by decide +kernel))).tail
      (.write 1 2 _ _ (by decide +kernel) (by decide +kernel) idle_reachable idle_storable)).tail
      (.report 1 2 (by decide +kernel) (by decide +kernel))
  have deletes : Step [2, 2, 3] bothReport pruned :=
    .unlink 1 0 _ 2 1 (by decide +kernel) (prunableOffset_checkpointFilename (by decide))
      (by decide)
  have last : pruned.tracker.lastComplete = some 2 := by decide +kernel
  have held : ∀ offset ∈ some 1, ∀ partition : Fin 2, leftover.Holds offset := by
    rintro offset ⟨⟩ -
    exact leftover_holds
  refine ⟨by decide +kernel, ?_, by decide +kernel, last, ?_⟩
  · simp [pruned, unlink]
  · exact (retention_safe (by decide) (by decide) 1 (some 1) _ held (reached.tail deletes)).1 2 last

end CoordinatedRun

end Stormglass
