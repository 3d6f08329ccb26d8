import Stormglass.SnapshotRestore
import Stormglass.LocalRoundTrip

/-!
# Committed snapshots are stable

Final names are never written twice and never deleted; only temporary files change. So a
local file that was loaded once is loaded again with the same result, and a published
manifest stays the one that its epoch needs. Conversely a manifest that is found was
published by a commit, and it determines the arguments of that commit.

Hence at every moment `LoadCommitted` succeeds exactly for the published commitments.
-/

namespace Stormglass.Snapshot

open FileSystem

/-! ## Writing keeps what is published -/

/-- What a write in progress has done: its temporary file holds what was written. -/
def Filled (job : WriteJob) (files : FileSystem) : Phase → Prop
  | .checking => job.directory ∈ files.directories
  | .writing temporary offset => IsTemporary job.name temporary ∧ offset ≤ job.bytes.length ∧
      files.content job.directory temporary = some (job.bytes.take offset)
  | .closed temporary => IsTemporary job.name temporary ∧
      files.content job.directory temporary = some job.bytes
  | .linked temporary | .syncing temporary | .unwinding temporary => IsTemporary job.name temporary
  | .ensuring | .returned | .threw => True

section Writing

variable {job : WriteJob} {before after : Phase} {files next : FileSystem}

/-- A change of a temporary file leaves every final name alone. -/
theorem ne_temporary {name temporary directory other place : Bytes}
    (isTemporary : IsTemporary name temporary) (final : IsFinal place) :
    ¬ (other = directory ∧ place = temporary) := by
  rintro ⟨_, rfl⟩
  exact not_final_of_temporary isTemporary final

/-- A step leaves the final names alone and publishes nothing, or it links the job's own
name and publishes its commitment. -/
theorem WriteStep.final_contents (step : WriteStep job before files after next)
    (filled : Filled job files before) :
    ((∀ commitment, publication commitment before after = []) ∧ ∀ directory name, IsFinal name →
        next.content directory name = files.content directory name) ∨
      ((∀ commitment, publication commitment before after = commitment.toList) ∧
        files.content job.directory job.name = none ∧
        next = files.put job.directory job.name job.bytes ∧ job.directory ∈ files.directories) := by
  cases step with
  | createDirectory _ absent =>
    exact .inl ⟨fun _ => rfl, fun directory name _ => content_createDirectory absent directory name⟩
  | makeTemporary _ chosen six _ =>
    exact .inl ⟨fun _ => rfl, fun _ _ final => content_put (ne_temporary ⟨chosen, six, rfl⟩ final)⟩
  | write =>
    exact .inl ⟨fun _ => rfl, fun _ _ final => content_put (ne_temporary filled.1 final)⟩
  | link absent found =>
    refine .inr ⟨fun _ => rfl, absent, ?_, mem_of_content found⟩
    rw [filled.2] at found
    cases found
    rfl
  | unlink =>
    exact .inl ⟨fun _ => rfl, fun _ _ final => content_unlink (ne_temporary filled final)⟩
  | unwind =>
    exact .inl ⟨fun _ => rfl, fun _ _ final => content_unlink (ne_temporary filled final)⟩
  | _ => exact .inl ⟨fun _ => rfl, fun _ _ _ => rfl⟩

theorem WriteStep.keeps (step : WriteStep job before files after next)
    (filled : Filled job files before) : Keeps files next := by
  intro directory name bytes final found
  rcases step.final_contents filled with ⟨_, same⟩ | ⟨_, absent, rfl, _⟩
  · rw [same directory name final]
    exact found
  · rw [content_put]
    · exact found
    · rintro ⟨rfl, rfl⟩
      rw [absent] at found
      cases found

theorem WriteStep.filled (step : WriteStep job before files after next)
    (filled : Filled job files before) : Filled job next after := by
  cases step with
  | ensured present => exact present
  | makeTemporary _ chosen six _ =>
    exact ⟨⟨chosen, six, rfl⟩, Nat.zero_le _, content_put_self filled⟩
  | write taken some_ left =>
    exact ⟨filled.1, left, content_put_self (mem_of_content filled.2.2)⟩
  | interrupted => exact filled
  | writeFails => exact filled.1
  | close all =>
    refine ⟨filled.1, ?_⟩
    rw [filled.2.2, all, List.take_length]
  | link => exact filled.1
  | linkFails => exact filled.1
  | unlink => exact filled
  | unlinkFails => exact filled
  | syncFails => exact filled
  | _ => exact trivial

/-- Directories lie in the root. -/
def Rooted (files : FileSystem) : Prop :=
  ∀ directory ∈ files.directories, files.root = true

theorem Rooted.within (rooted : Rooted files) (directory : Bytes)
    (change : FileDirectory → FileDirectory) : Rooted (files.within directory change) := by
  intro other member
  have root : (files.within directory change).root = files.root := by
    rw [FileSystem.within]
    split <;> rfl
  rw [root]
  exact rooted other ((mem_within files directory change other).mp member)

theorem WriteStep.rooted (step : WriteStep job before files after next) (rooted : Rooted files) :
    Rooted next := by
  cases step with
  | createRoot => exact fun _ _ => rfl
  | createDirectory root => exact fun _ _ => root
  | makeTemporary => exact rooted.within _ _
  | write => exact rooted.within _ _
  | link => exact rooted.within _ _
  | unlink => exact rooted.within _ _
  | unwind => exact rooted.within _ _
  | _ => exact rooted

end Writing

/-! ## Whole runs -/

/-- A commitment that the files bear out: its manifest is there, and it is the one that the
local files need. -/
def Upheld (files : FileSystem) (commitment : Commitment) : Prop :=
  commitment.epoch ≠ 0 ∧ commitment.epoch < 2 ^ 64 ∧ ∃ bytes checksums,
    files.content (epochName commitment.epoch) committedName = some bytes ∧
    files.loadLocals (epochName commitment.epoch) commitment.epoch commitment.topology =
      .ok (commitment.snapshots, checksums) ∧
    manifest commitment.epoch commitment.topology commitment.configuration checksums = .ok bytes

theorem Upheld.keeps {before after : FileSystem} {commitment : Commitment}
    (upheld : Upheld before commitment) (keeps : Keeps before after) :
    Upheld after commitment := by
  obtain ⟨positive, fits, bytes, checksums, found, loaded, written⟩ := upheld
  exact ⟨positive, fits, bytes, checksums, keeps _ _ _ (.inl rfl) found, keeps.loadLocals loaded,
    written⟩

/-- What a call in progress writes. A `Commit` writes the manifest that its commitment needs,
and a `SaveLocal` writes a local file. -/
def Purposeful (files : FileSystem) (task : Task) : Prop :=
  match task.commitment with
  | none => ∃ node, task.job.name = localName node
  | some commitment => commitment.epoch ≠ 0 ∧ commitment.epoch < 2 ^ 64 ∧
      task.job.directory = epochName commitment.epoch ∧ task.job.name = committedName ∧
      ∃ checksums, files.loadLocals (epochName commitment.epoch) commitment.epoch
          commitment.topology = .ok (commitment.snapshots, checksums) ∧
        manifest commitment.epoch commitment.topology commitment.configuration checksums =
          .ok task.job.bytes

/-- The phase of a call does not matter for what it writes. -/
theorem Purposeful.keeps {before after : FileSystem} {task : Task}
    (purpose : Purposeful before task)
    (keeps : Keeps before after) (phase : Phase) :
    Purposeful after { task with phase := phase } := by
  unfold Purposeful at *
  dsimp only
  cases written : task.commitment with
  | none =>
    rw [written] at purpose
    exact purpose
  | some commitment =>
    rw [written] at purpose
    obtain ⟨positive, fits, directory, name, checksums, loaded, manifest⟩ := purpose
    exact ⟨positive, fits, directory, name, checksums, keeps.loadLocals loaded, manifest⟩

/-- What holds of the store at every moment. -/
structure Sound (state : StoreState) : Prop where
  rooted : Rooted state.files
  purpose : ∀ task, state.task = some task → Purposeful state.files task
  filled : ∀ task, state.task = some task → Filled task.job state.files task.phase
  upheld : ∀ commitment ∈ state.published, Upheld state.files commitment
  recorded : ∀ directory bytes, state.files.content directory committedName = some bytes →
    ∃ commitment ∈ state.published, directory = epochName commitment.epoch

namespace Sound

variable {state next : StoreState}

theorem initial : Sound .initial := by
  refine ⟨?_, ?_, ?_, ?_, ?_⟩
  · intro directory member
    exact absurd member Std.ExtTreeMap.not_mem_empty
  · rintro task ⟨⟩
  · rintro task ⟨⟩
  · rintro commitment ⟨⟩
  · intro directory bytes found
    simp [StoreState.initial, content] at found

section

variable (sound : Sound state)

include sound

/-- A call changes nothing before it writes. -/
theorem begins {task : Task} (purpose : Purposeful state.files task)
    (start : task.phase = .ensuring) : Sound { state with task := some task } := by
  refine ⟨sound.rooted, ?_, ?_, sound.upheld, sound.recorded⟩
  · rintro _ ⟨⟩
    exact purpose
  · rintro _ ⟨⟩
    rw [start]
    exact trivial

theorem ends : Sound { state with task := none } := by
  refine ⟨sound.rooted, ?_, ?_, sound.upheld, sound.recorded⟩
  · rintro _ ⟨⟩
  · rintro _ ⟨⟩

/-- A system call keeps everything, and a link of a `Commit` adds its commitment. -/
theorem write {task : Task} {phase : Phase} {files : FileSystem} (busy : state.task = some task)
    (step : WriteStep task.job task.phase state.files phase files) :
    Sound
      { files := files
        task := some { task with phase := phase }
        published := state.published ++ publication task.commitment task.phase phase } := by
  have filled := sound.filled task busy
  have purpose := sound.purpose task busy
  have keeps := step.keeps filled
  have earlier (commitment : Commitment) (member : commitment ∈ state.published) :
      Upheld files commitment := (sound.upheld commitment member).keeps keeps
  have purposes : ∀ written, some { task with phase := phase } = some written →
      Purposeful files written := by
    rintro _ ⟨⟩
    exact purpose.keeps keeps phase
  have fills : ∀ written, some { task with phase := phase } = some written →
      Filled written.job files written.phase := by
    rintro _ ⟨⟩
    exact step.filled filled
  rcases step.final_contents filled with ⟨silent, same⟩ | ⟨publishes, _, rfl, present⟩
  · rw [silent, List.append_nil]
    refine ⟨step.rooted sound.rooted, purposes, fills, earlier, ?_⟩
    intro directory bytes found
    rw [same directory committedName (.inl rfl)] at found
    exact sound.recorded directory bytes found
  · rw [publishes]
    refine ⟨step.rooted sound.rooted, purposes, fills, ?_, ?_⟩
    · intro commitment member
      rcases List.mem_append.mp member with before | now
      · exact earlier commitment before
      · have written := Option.mem_toList.mp now
        rw [Purposeful, written] at purpose
        obtain ⟨positive, fits, directory, name, checksums, loaded, manifest⟩ := purpose
        refine ⟨positive, fits, task.job.bytes, checksums, ?_, keeps.loadLocals loaded, manifest⟩
        rw [← directory, ← name]
        exact content_put_self present
    · intro directory bytes found
      by_cases own : directory = task.job.directory ∧ committedName = task.job.name
      · cases written : task.commitment with
        | none =>
          rw [Purposeful, written] at purpose
          obtain ⟨node, name⟩ := purpose
          exact absurd (own.2.trans name).symm (localName_ne_committedName node)
        | some commitment =>
          rw [Purposeful, written] at purpose
          obtain ⟨_, _, place, _⟩ := purpose
          exact ⟨commitment, by simp, own.1.trans place⟩
      · rw [content_put own] at found
        obtain ⟨commitment, member, place⟩ := sound.recorded directory bytes found
        exact ⟨commitment, List.mem_append_left _ member, place⟩

theorem step (step : StoreStep state next) : Sound next := by
  cases step with
  | saveLocal idle snapshot begins =>
    simp only [saveLocal, epochDirectory, bind_ok, demand_ok, mapError_ok] at begins
    obtain ⟨_, _, bytes, _, ⟨⟩⟩ := begins
    exact sound.begins ⟨snapshot.node, rfl⟩ rfl
  | commit idle epoch fits topology configuration begins =>
    simp only [commit, epochDirectory, bind_ok, demand_ok, mapError_ok] at begins
    obtain ⟨_, ⟨_, positive, ⟨⟩⟩, loaded, locals, bytes, written, ⟨⟩⟩ := begins
    exact sound.begins ⟨positive, fits, rfl, rfl, loaded.2, locals, written⟩ rfl
  | write busy step => exact sound.write busy step
  | finish => exact sound.ends
  | crash => exact sound.ends

theorem run (leads : Leads state next) : Sound next := by
  induction leads with
  | refl => exact sound
  | tail _ last inductionHypothesis => exact inductionHypothesis.step last

/-- At every moment, exactly the published commitments load. -/
theorem loadCommitted_iff (commitment : Commitment) :
    state.files.loadCommitted commitment.epoch commitment.topology commitment.configuration =
        .ok commitment.snapshots ↔ commitment ∈ state.published := by
  rw [loadCommitted_ok]
  constructor
  · rintro ⟨_, bytes, checksums, found, loaded, written⟩
    obtain ⟨other, member, place⟩ := sound.recorded _ bytes found
    have epochs : commitment.epoch = other.epoch := epochName_injective place
    obtain ⟨_, _, otherBytes, otherSums, otherFound, otherLoaded, otherWritten⟩ :=
      sound.upheld other member
    rw [← epochs] at otherFound otherLoaded otherWritten
    rw [found] at otherFound
    cases otherFound
    obtain ⟨topologies, configurations⟩ := manifest_inj written otherWritten
    rw [topologies, otherLoaded] at loaded
    have snapshots : other.snapshots = commitment.snapshots :=
      (Prod.mk.inj (Except.ok.inj loaded)).1
    have same : commitment = other := by
      cases commitment
      cases other
      simp_all
    rw [same]
    exact member
  · intro member
    obtain ⟨positive, _, bytes, checksums, found, loaded, written⟩ :=
      sound.upheld commitment member
    exact ⟨positive, bytes, checksums, found, loaded, written⟩

end

end Sound

/-- The final name is there: it has been linked, or it was there before with the same bytes. -/
def Phase.IsDone : Phase → Prop
  | .linked _ | .syncing _ | .returned => True
  | _ => False

/-- A `Commit` whose manifest is there is published. -/
def Confirmed (state : StoreState) : Prop :=
  ∀ task commitment, state.task = some task → task.commitment = some commitment →
    task.phase.IsDone → commitment ∈ state.published

theorem Confirmed.step {state next : StoreState} (sound : Sound state)
    (confirmed : Confirmed state) (step : StoreStep state next) : Confirmed next := by
  cases step with
  | saveLocal idle snapshot begins =>
    simp only [saveLocal, bind_ok] at begins
    obtain ⟨_, _, _, _, ⟨⟩⟩ := begins
    rintro _ _ ⟨⟩ ⟨⟩
  | commit idle epoch fits topology configuration begins =>
    simp only [commit, bind_ok] at begins
    obtain ⟨_, _, _, _, _, _, ⟨⟩⟩ := begins
    rintro _ _ ⟨⟩ _ ⟨⟩
  | @write task phase files busy step =>
    rintro _ commitment ⟨⟩ written done
    have earlier (before : task.phase.IsDone) : commitment ∈ state.published :=
      confirmed task commitment busy written before
    apply List.mem_append.mpr
    generalize started : task.phase = start at step earlier
    cases step with
    | same found =>
      -- The manifest that is there is the one of this commitment, so it loads.
      have purpose := sound.purpose task busy
      rw [Purposeful, written] at purpose
      obtain ⟨positive, _, directory, name, checksums, loaded, manifest⟩ := purpose
      rw [directory, name] at found
      exact .inl ((sound.loadCommitted_iff commitment).mp (loadCommitted_ok.mpr
        ⟨positive, task.job.bytes, checksums, (read_ok.mp found).1, loaded, manifest⟩))
    | link =>
      right
      rw [written]
      exact List.mem_singleton_self commitment
    | unlink => exact .inl (earlier trivial)
    | syncDirectory => exact .inl (earlier trivial)
    | _ => exact done.elim
  | finish => rintro _ _ ⟨⟩
  | crash => rintro _ _ ⟨⟩

theorem Confirmed.run {state : StoreState} (leads : Leads .initial state) : Confirmed state := by
  induction leads with
  | refl => rintro _ _ ⟨⟩
  | tail earlier last inductionHypothesis =>
    exact inductionHypothesis.step (Sound.initial.run earlier) last

/-- Published commitments are never withdrawn. -/
theorem published_mono {state next : StoreState} (leads : Leads state next) :
    state.published ⊆ next.published := by
  induction leads with
  | refl => exact List.Subset.refl _
  | tail _ last inductionHypothesis =>
    refine List.Subset.trans inductionHypothesis ?_
    cases last with
    | write => exact List.subset_append_left _ _
    | _ => exact List.Subset.refl _

/-- Committed snapshots are stable. Whatever calls and crashes follow a commitment, it loads
with the snapshots it was published with. Whatever loads was published, and so was every
`Commit` that returned. The latest load gives the published commitment with the largest
epoch, and fails if there is none. -/
theorem committed_snapshots_stable {state later : StoreState} (reachable : Leads .initial state)
    (follows : Leads state later) :
    (∀ commitment ∈ state.published, later.files.loadCommitted commitment.epoch
      commitment.topology commitment.configuration = .ok commitment.snapshots) ∧
    (∀ epoch topology configuration snapshots,
      later.files.loadCommitted epoch topology configuration = .ok snapshots →
        { epoch, topology, configuration, snapshots } ∈ later.published) ∧
    (∀ task commitment, later.task = some task → task.commitment = some commitment →
      task.phase = .returned → commitment ∈ later.published) ∧
    (∀ commitment ∈ later.published,
      (∀ other ∈ later.published, other.topology = commitment.topology →
        other.configuration = commitment.configuration → other.epoch ≤ commitment.epoch) →
      later.files.loadLatestCommitted commitment.topology commitment.configuration =
        .ok commitment.snapshots) ∧
    (∀ topology configuration,
      (∀ other ∈ later.published,
        ¬ (other.topology = topology ∧ other.configuration = configuration)) →
      later.files.loadLatestCommitted topology configuration = .error (.runtimeError
        "no valid committed snapshot for requested topology/configuration")) := by
  have sound := (Sound.initial.run reachable).run follows
  refine ⟨?_, ?_, ?_, ?_, ?_⟩
  · intro commitment member
    exact (sound.loadCommitted_iff commitment).mpr (published_mono follows member)
  · intro epoch topology configuration snapshots loads
    exact (sound.loadCommitted_iff { epoch, topology, configuration, snapshots }).mp loads
  · intro task commitment busy written returned
    exact Confirmed.run (reachable.trans follows) task commitment busy written
      (by rw [returned]; exact trivial)
  · intro commitment member largest
    obtain ⟨positive, fits, bytes, _, found, _, _⟩ := sound.upheld commitment member
    have present := mem_of_content found
    apply loadFirst_largest (epochs_sorted later.files)
      (mem_epochs (sound.rooted _ present) positive fits present)
      ((sound.loadCommitted_iff commitment).mpr member)
    intro other snapshots loads
    exact largest _ ((sound.loadCommitted_iff
      { epoch := other, topology := commitment.topology,
        configuration := commitment.configuration, snapshots }).mp loads) rfl rfl
  · intro topology configuration none
    apply loadFirst_none
    intro epoch snapshots loads
    exact none _ ((sound.loadCommitted_iff { epoch, topology, configuration, snapshots }).mp loads)
      ⟨rfl, rfl⟩

/-- A name for the temporary file of a write. -/
def WriteJob.temporary (job : WriteJob) : Bytes := temporaryName job.name [48, 48, 48, 48, 48, 48]

theorem WriteJob.isTemporary (job : WriteJob) : IsTemporary job.name job.temporary := ⟨_, rfl, rfl⟩

/-- The files after a write that meets no failure. -/
def FileSystem.written (files : FileSystem) (job : WriteJob) : FileSystem :=
  (((files.put job.directory job.temporary []).put job.directory job.temporary job.bytes).put
    job.directory job.name job.bytes).unlink job.directory job.temporary

section Witness

variable {files next : FileSystem} {commitment : Option Commitment} {job : WriteJob}
  {phase after : Phase} {published : List Commitment}

/-- A system call that publishes nothing. -/
theorem leads_quiet (step : WriteStep job phase files after next)
    (quiet : publication commitment phase after = []) :
    Leads { files, task := some { commitment, job, phase }, published }
      { files := next, task := some { commitment, job, phase := after }, published } := by
  have taken := @StoreStep.write ⟨files, some ⟨commitment, job, phase⟩, published⟩
    ⟨commitment, job, phase⟩ after next rfl step
  dsimp only at taken
  rw [quiet, List.append_nil] at taken
  exact .single taken

/-- A write to a free name in an existing directory publishes its file if no system call
fails. -/
theorem leads_written (present : job.directory ∈ files.directories) (nonempty : job.bytes ≠ [])
    (final : IsFinal job.name) (absent : files.content job.directory job.name = none)
    (fresh : files.content job.directory job.temporary = none) :
    Leads { files, task := some { commitment, job, phase := .ensuring }, published }
      { files := files.written job
        task := none
        published := published ++ commitment.toList } := by
  have taken : 0 < job.bytes.length := List.length_pos_iff.mpr nonempty
  have begun : job.directory ∈ (files.put job.directory job.temporary []).directories :=
    (mem_within _ _ _ _).mpr present
  refine (leads_quiet (.ensured present) rfl).trans ?_
  refine (leads_quiet (.makeTemporary absent _ rfl fresh) rfl).trans ?_
  refine (leads_quiet (.write job.bytes.length taken (Nat.zero_add _).le) rfl).trans ?_
  refine (leads_quiet (.close (Nat.zero_add _)) rfl).trans ?_
  rw [Nat.zero_add, List.take_length]
  refine .head (@StoreStep.write _ ⟨commitment, job, .closed _⟩ _ _ rfl
    (.link ?_ (content_put_self begun))) ?_
  · change ((files.put _ job.temporary _).put _ job.temporary _).content _ job.name = none
    rw [content_put (ne_temporary job.isTemporary final),
      content_put (ne_temporary job.isTemporary final)]
    exact absent
  · refine (leads_quiet .unlink rfl).trans ?_
    refine (leads_quiet .syncDirectory rfl).trans ?_
    exact .single (.finish rfl (.inl rfl))

theorem content_written (present : job.directory ∈ files.directories) (final : IsFinal job.name) :
    (files.written job).content job.directory job.name = some job.bytes := by
  rw [FileSystem.written, content_unlink (ne_temporary job.isTemporary final), content_put_self]
  exact (mem_within _ _ _ _).mpr ((mem_within _ _ _ _).mpr present)

theorem content_written_other {directory name : Bytes} (final : IsFinal name)
    (different : ¬ (directory = job.directory ∧ name = job.name)) :
    (files.written job).content directory name = files.content directory name := by
  rw [FileSystem.written, content_unlink (ne_temporary job.isTemporary final),
    content_put different, content_put (ne_temporary job.isTemporary final),
    content_put (ne_temporary job.isTemporary final)]

/-- The write of a local file. -/
def savedJob (snapshot : LocalSnapshot) : WriteJob where
  directory := epochName snapshot.epoch
  name := localName snapshot.node
  bytes := snapshot.layout ++ LittleEndian.encode 4 (crc32c snapshot.layout).toNat

theorem saveLocal_begins {snapshot : LocalSnapshot} (positive : snapshot.epoch ≠ 0)
    (short : ∀ blob ∈ snapshot.blobs, blob.length < 2 ^ 32)
    (small : (savedJob snapshot).bytes.length ≤ fileLimit) :
    saveLocal snapshot =
      .ok { commitment := none, job := savedJob snapshot, phase := .ensuring } := by
  simp only [saveLocal, epochDirectory, bind_ok, demand_ok, mapError_ok]
  exact ⟨_, ⟨(), positive, rfl⟩, _, (encodeLocal_eq short).trans (sealFile_ok.mpr ⟨rfl, small⟩),
    rfl⟩

/-- The store after the first node's file was saved, and after the second one's. -/
def firstFiles : FileSystem :=
  { root := true, directories := (∅ : Std.ExtTreeMap Bytes FileDirectory).insert (epochName 1) ∅ :
    FileSystem }.written (savedJob firstOfPair)

def pairFiles : FileSystem := firstFiles.written (savedJob secondOfPair)

theorem leads_first : Leads .initial { files := firstFiles, task := none, published := [] } := by
  refine .head (.saveLocal rfl firstOfPair
    (saveLocal_begins (by decide) (by decide) (by decide +kernel))) ?_
  refine (leads_quiet (.createRoot rfl) rfl).trans ?_
  refine (leads_quiet (.createDirectory rfl Std.ExtTreeMap.not_mem_empty) rfl).trans ?_
  refine leads_written ?_ (by decide +kernel) (.inr ⟨1, rfl⟩) ?_ ?_
  · exact Std.ExtTreeMap.mem_insert.mpr (.inl Std.ReflOrd.compare_self)
  · rw [content_createDirectory Std.ExtTreeMap.not_mem_empty]
    rfl
  · rw [content_createDirectory Std.ExtTreeMap.not_mem_empty]
    rfl

theorem leads_second : Leads { files := firstFiles, task := none, published := [] }
    { files := pairFiles, task := none, published := [] } := by
  refine .head (.saveLocal rfl secondOfPair
    (saveLocal_begins (by decide) (by decide) (by decide +kernel))) ?_
  exact leads_written (by decide +kernel) (by decide +kernel) (.inr ⟨2, rfl⟩) (by decide +kernel)
    (by decide +kernel)

/-- The checksum in front of the last four bytes of a file. -/
def checksum (bytes : Bytes) : UInt32 := crc32c (bytes.take (bytes.length - 4))

def pairChecksums : Checksums :=
  ((∅ : Checksums).insertIfNew 1 (checksum (savedJob firstOfPair).bytes)).insertIfNew 2
    (checksum (savedJob secondOfPair).bytes)

theorem pair_loads : pairFiles.loadLocals (epochName 1) 1 pairTopology =
    .ok ([firstOfPair, secondOfPair], pairChecksums) := by
  have first : pairFiles.content (epochName 1) (localName 1) =
      some (savedJob firstOfPair).bytes := by
    rw [pairFiles, content_written_other (.inr ⟨1, rfl⟩) (by decide +kernel)]
    exact content_written (by decide +kernel) (.inr ⟨1, rfl⟩)
  have second : pairFiles.content (epochName 1) (localName 2) =
      some (savedJob secondOfPair).bytes :=
    content_written (by decide +kernel) (.inr ⟨2, rfl⟩)
  have keys : pairTopology.keys = [1, 2] := by decide +kernel
  simp only [loadLocals, keys, loadEach, bind_ok, demand_ok, mapError_ok, read_ok]
  refine ⟨(), by decide +kernel, _, ⟨_, ⟨first, by decide +kernel⟩, (), by decide +kernel, _,
    decodeLocal_sealed ?_ (by decide) (by decide) (sealFile_ok.mpr ⟨rfl, by decide +kernel⟩), (),
    by decide, _, ⟨second, by decide +kernel⟩, (), by decide +kernel, _,
    decodeLocal_sealed ?_ (by decide) (by decide) (sealFile_ok.mpr ⟨rfl, by decide +kernel⟩), (),
    by decide, rfl⟩, (), by decide +kernel, rfl⟩
  all_goals
    exact ⟨by decide, typed_of_all (by decide +kernel), typed_of_all (by decide +kernel),
      typed_of_all (by decide +kernel), by decide⟩

def pairCommitment : Commitment where
  epoch := 1
  topology := pairTopology
  configuration := [99]
  snapshots := [firstOfPair, secondOfPair]

/-- The write of the manifest. -/
def pairManifest : WriteJob where
  directory := epochName 1
  name := committedName
  bytes := (manifest 1 pairTopology [99] pairChecksums).toOption.getD []

/-- The pair's snapshots are saved and committed. A crash cuts off the next epoch, and both loads
return the pair. -/
theorem pair_commit_loads : ∃ state later, Leads .initial state ∧ Leads state later ∧
    epochName 2 ∉ state.files.directories ∧ epochName 2 ∈ later.files.directories ∧
    later.files.loadCommitted 1 pairTopology [99] = .ok [firstOfPair, secondOfPair] ∧
    later.files.loadLatestCommitted pairTopology [99] = .ok [firstOfPair, secondOfPair] := by
  have encoded : manifest 1 pairTopology [99] pairChecksums = .ok pairManifest.bytes := by
    have some_ : (manifest 1 pairTopology [99] pairChecksums).toOption.isSome = true := by
      decide +kernel
    obtain ⟨bytes, found⟩ := Option.isSome_iff_exists.mp some_
    rw [pairManifest, found]
    exact ok_of_toOption found
  have begins : commit pairFiles 1 pairTopology [99] =
      .ok { commitment := some pairCommitment, job := pairManifest, phase := .ensuring } := by
    simp only [commit, epochDirectory, bind_ok, demand_ok, mapError_ok]
    exact ⟨epochName 1, ⟨(), by decide, rfl⟩, _, pair_loads, _, encoded, rfl⟩
  have committed : Leads .initial
      { files := pairFiles.written pairManifest, task := none, published := [pairCommitment] } := by
    refine (leads_first.trans leads_second).trans
      (.head (.commit rfl 1 (by decide) pairTopology [99] begins) ?_)
    exact leads_written (by decide +kernel) (by decide +kernel) (.inl rfl) (by decide +kernel)
      (by decide +kernel)
  have absent : epochName 2 ∉ (pairFiles.written pairManifest).directories := by decide +kernel
  have follows : Leads _ _ :=
    (Relation.ReflTransGen.head (@StoreStep.saveLocal ⟨_, none, [pairCommitment]⟩ _ rfl
      { firstOfPair with epoch := 2 }
      (saveLocal_begins (by decide) (by decide) (by decide +kernel)))
      (leads_quiet (.createDirectory rfl absent) rfl)).tail .crash
  obtain ⟨loads, _, _, latest, _⟩ := committed_snapshots_stable committed follows
  refine ⟨_, _, committed, follows, absent, Std.ExtTreeMap.mem_insert_self,
    loads pairCommitment (by simp), ?_⟩
  exact latest pairCommitment (by simp) (by simp)

end Witness

end Stormglass.Snapshot
