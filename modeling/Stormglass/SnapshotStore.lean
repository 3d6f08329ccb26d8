import Stormglass.PartitionDirectories
import Stormglass.SnapshotFiles

/-!
# The snapshot store

A store keeps one directory for each epoch. `SaveLocal` writes the local file of a node,
and `Commit` checks all local files of an epoch and publishes a manifest. `LoadCommitted`
checks everything again, and `LoadLatestCommitted` tries the epochs from the largest down.

The file system maps paths to contents. `AtomicWrite` is a sequence of system calls: it
fills a temporary file and links it to its final name. Each call may fail, and a crash may
come between any two of them, so a write is a machine with one step for each call. The
machine and the calls that use it make up the transition system `StoreStep`.
-/

namespace Stormglass.Snapshot

/-! ## Names -/

def epochStem : Bytes := ascii ['e', 'p', 'o', 'c', 'h', '-']

/-- The name of the directory of an epoch. -/
def epochName (epoch : Nat) : Bytes := epochStem ++ toDecimal epoch

/-- `Epoch` -/
def epochDirectory (epoch : Nat) : Except Failure Bytes := do
  demand (epoch ≠ 0) "zero snapshot epoch"
  pure (epochName epoch)

def snapshotSuffix : Bytes := ascii ['.', 's', 'n', 'a', 'p', 's', 'h', 'o', 't']

/-- `Local`: the name of the file of a node. -/
def localName (node : NodeId) : Bytes :=
  ascii ['n', 'o', 'd', 'e', '-'] ++ toDecimal node.toNat ++ snapshotSuffix

/-- The name of the manifest. -/
def committedName : Bytes := ascii ['C', 'O', 'M', 'M', 'I', 'T', 'T', 'E', 'D']

/-- A name that `mkstemp` may choose: six characters take the place of the pattern. -/
def temporaryName (name chosen : Bytes) : Bytes :=
  name ++ ascii ['.', 't', 'm', 'p', '-'] ++ chosen

/-- The epoch in the name of a directory, as `LoadLatestCommitted` reads it. -/
def epochOfName (name : Bytes) : Option Nat :=
  if name.take epochStem.length = epochStem then
    (fromChars (name.drop epochStem.length)).filter (0 < ·)
  else none

/-! ## Files -/

/-- The directory of the store with its subdirectories and their files. -/
structure FileSystem where
  root : Bool := false
  directories : Std.ExtTreeMap Bytes FileDirectory := ∅

namespace FileSystem

def content (files : FileSystem) (directory name : Bytes) : Option Bytes :=
  files.directories[directory]?.bind (fun directory => directory[name]?)

/-- Change the files of a directory. -/
def within (files : FileSystem) (directory : Bytes) (change : FileDirectory → FileDirectory) :
    FileSystem :=
  match files.directories[directory]? with
  | none => files
  | some entries =>
      { files with directories := files.directories.insert directory (change entries) }

def put (files : FileSystem) (directory name bytes : Bytes) : FileSystem :=
  files.within directory fun entries => entries.insert name bytes

def unlink (files : FileSystem) (directory name : Bytes) : FileSystem :=
  files.within directory fun entries => entries.erase name

/-- A path in a message. -/
def pathText (directory name : Bytes) : String :=
  String.ofList ((directory ++ ascii ['/'] ++ name).map fun byte => Char.ofNat byte.toNat)

/-- `Read` -/
def read (files : FileSystem) (directory name : Bytes) : Except Failure Bytes :=
  match files.content directory name with
  | none => .error (.runtimeError ("snapshot file missing: " ++ pathText directory name))
  | some bytes => do
      demand (¬ bytes.length > fileLimit) "snapshot file too large"
      pure bytes

/-- The loop of `LoadLocals`, with the snapshots, the checksums and the size so far. -/
def loadEach (files : FileSystem) (directory : Bytes) (epoch : Nat) :
    List NodeId → List LocalSnapshot → Checksums → Nat →
      Except Failure (List LocalSnapshot × Checksums)
  | [], snapshots, checksums, _ => .ok (snapshots, checksums)
  | node :: rest, snapshots, checksums, size => do
      let bytes ← files.read directory (localName node)
      demand (¬ size + bytes.length > 512 * 1024 * 1024) "global snapshot exceeds load limit"
      let snapshot ← (decodeLocal bytes).mapError .runtimeError
      demand (¬ (snapshot.node ≠ node ∨ snapshot.epoch ≠ epoch)) "snapshot identity mismatch"
      files.loadEach directory epoch rest (snapshots ++ [snapshot])
        (checksums.insertIfNew node (crc32c (bytes.take (bytes.length - 4))))
        (size + bytes.length)

/-- `LoadLocals` -/
def loadLocals (files : FileSystem) (directory : Bytes) (epoch : Nat) (topology : Topology) :
    Except Failure (List LocalSnapshot × Checksums) := do
  demand (¬ (topology.isEmpty = true ∨ topology.size > 1024)) "invalid snapshot topology size"
  let loaded ← files.loadEach directory epoch topology.keys [] ∅ 0
  (validateGlobal loaded.1 topology).mapError exception
  pure loaded

/-- `Store::LoadCommitted` -/
def loadCommitted (files : FileSystem) (epoch : Nat) (topology : Topology)
    (configuration : Bytes) : Except Failure (List LocalSnapshot) := do
  let directory ← epochDirectory epoch
  let found ← files.read directory committedName
  let _ ← (openFile found).mapError .runtimeError
  let loaded ← files.loadLocals directory epoch topology
  let expected ← (manifest epoch topology configuration loaded.2).mapError exception
  demand (¬ found ≠ expected) "committed manifest/configuration mismatch"
  pure loaded.1

/-- The epochs of the directories, largest first. -/
def epochs (files : FileSystem) : List Nat :=
  if files.root = true then
    (files.directories.keys.filterMap epochOfName).mergeSort (fun left right => right ≤ left)
  else []

/-- The loop of `LoadLatestCommitted`: a `std::runtime_error` moves on to the next epoch. -/
def loadFirst (files : FileSystem) (topology : Topology) (configuration : Bytes) :
    List Nat → Except Failure (List LocalSnapshot)
  | [] => .error (.runtimeError
      "no valid committed snapshot for requested topology/configuration")
  | epoch :: rest =>
      match files.loadCommitted epoch topology configuration with
      | .ok snapshots => .ok snapshots
      | .error (.runtimeError _) => files.loadFirst topology configuration rest
      | .error failure => .error failure

/-- `Store::LoadLatestCommitted` -/
def loadLatestCommitted (files : FileSystem) (topology : Topology) (configuration : Bytes) :
    Except Failure (List LocalSnapshot) :=
  files.loadFirst topology configuration files.epochs

end FileSystem

/-! ## Writing -/

/-- The arguments of `AtomicWrite`. -/
structure WriteJob where
  directory : Bytes
  name : Bytes
  bytes : Bytes

/-- How far `AtomicWrite` has come. -/
inductive Phase where
  | ensuring
  | checking
  | writing (temporary : Bytes) (offset : Nat)
  | closed (temporary : Bytes)
  | linked (temporary : Bytes)
  | syncing (temporary : Bytes)
  | unwinding (temporary : Bytes)
  | returned
  | threw

/-- One system call of `AtomicWrite`. -/
inductive WriteStep (job : WriteJob) : Phase → FileSystem → Phase → FileSystem → Prop where
  | createRoot {files} (absent : files.root = false) :
      WriteStep job .ensuring files .ensuring { files with root := true }
  | createDirectory {files} (root : files.root = true)
      (absent : job.directory ∉ files.directories) :
      WriteStep job .ensuring files .ensuring
        { files with directories := files.directories.insert job.directory ∅ }
  | ensured {files} (present : job.directory ∈ files.directories) :
      WriteStep job .ensuring files .checking files
  | ensureFails {files} : WriteStep job .ensuring files .threw files
  /-- The file exists with the same bytes. -/
  | same {files} (found : files.read job.directory job.name = .ok job.bytes) :
      WriteStep job .checking files .returned files
  /-- The file exists and differs, or it cannot be read. -/
  | differs {files} (exists_ : files.content job.directory job.name ≠ none)
      (other : files.read job.directory job.name ≠ .ok job.bytes) :
      WriteStep job .checking files .threw files
  | makeTemporary {files} (absent : files.content job.directory job.name = none) (chosen : Bytes)
      (six : chosen.length = 6)
      (fresh : files.content job.directory (temporaryName job.name chosen) = none) :
      WriteStep job .checking files (.writing (temporaryName job.name chosen) 0)
        (files.put job.directory (temporaryName job.name chosen) [])
  | makeTemporaryFails {files} (absent : files.content job.directory job.name = none) :
      WriteStep job .checking files .threw files
  /-- `write` takes some of the bytes that are left. -/
  | write {files temporary offset} (taken : Nat) (some_ : 0 < taken)
      (left : offset + taken ≤ job.bytes.length) :
      WriteStep job (.writing temporary offset) files (.writing temporary (offset + taken))
        (files.put job.directory temporary (job.bytes.take (offset + taken)))
  | interrupted {files temporary offset} (left : offset < job.bytes.length) :
      WriteStep job (.writing temporary offset) files (.writing temporary offset) files
  /-- `write`, `fsync` or `close` fails. -/
  | writeFails {files temporary offset} :
      WriteStep job (.writing temporary offset) files (.unwinding temporary) files
  | close {files temporary offset} (all : offset = job.bytes.length) :
      WriteStep job (.writing temporary offset) files (.closed temporary) files
  /-- `link` publishes the temporary file, unless the name is taken. -/
  | link {files temporary bytes} (absent : files.content job.directory job.name = none)
      (filled : files.content job.directory temporary = some bytes) :
      WriteStep job (.closed temporary) files (.linked temporary)
        (files.put job.directory job.name bytes)
  | linkFails {files temporary} :
      WriteStep job (.closed temporary) files (.unwinding temporary) files
  | unlink {files temporary} :
      WriteStep job (.linked temporary) files (.syncing temporary)
        (files.unlink job.directory temporary)
  | unlinkFails {files temporary} :
      WriteStep job (.linked temporary) files (.unwinding temporary) files
  | syncDirectory {files temporary} : WriteStep job (.syncing temporary) files .returned files
  | syncFails {files temporary} :
      WriteStep job (.syncing temporary) files (.unwinding temporary) files
  /-- The handler unlinks the temporary file and throws again. -/
  | unwind {files temporary} :
      WriteStep job (.unwinding temporary) files .threw (files.unlink job.directory temporary)
  | unwindFails {files temporary} : WriteStep job (.unwinding temporary) files .threw files

/-- What a `Commit` publishes. -/
structure Commitment where
  epoch : Nat
  topology : Topology
  configuration : Bytes
  snapshots : List LocalSnapshot

/-- A call that is writing. `Commit` has loaded the snapshots of its commitment. -/
structure Task where
  commitment : Option Commitment
  job : WriteJob
  phase : Phase

/-- `SaveLocal` up to its write. -/
def saveLocal (snapshot : LocalSnapshot) : Except Failure Task := do
  let directory ← epochDirectory snapshot.epoch
  let bytes ← (encodeLocal snapshot).mapError .runtimeError
  pure
    { commitment := none
      job := { directory := directory, name := localName snapshot.node, bytes := bytes }
      phase := .ensuring }

/-- `Commit` up to its write. -/
def commit (files : FileSystem) (epoch : Nat) (topology : Topology) (configuration : Bytes) :
    Except Failure Task := do
  let directory ← epochDirectory epoch
  let loaded ← files.loadLocals directory epoch topology
  let bytes ← (manifest epoch topology configuration loaded.2).mapError exception
  pure
    { commitment := some { epoch, topology, configuration, snapshots := loaded.1 }
      job := { directory := directory, name := committedName, bytes := bytes }
      phase := .ensuring }

/-- The store with the call in progress and the commitments published so far. -/
structure StoreState where
  files : FileSystem
  task : Option Task
  published : List Commitment

/-- The store before any call. -/
def StoreState.initial : StoreState := { files := {}, task := none, published := [] }

/-- The commitment that a step publishes: that of a `Commit` whose link succeeds. -/
def publication (commitment : Option Commitment) : Phase → Phase → List Commitment
  | .closed _, .linked _ => commitment.toList
  | _, _ => []

/-- A call begins, does one system call, ends, or is cut off by a crash. A call that throws
before its first write changes nothing. -/
inductive StoreStep : StoreState → StoreState → Prop where
  | saveLocal {state task} (idle : state.task = none) (snapshot : LocalSnapshot)
      (begins : saveLocal snapshot = .ok task) : StoreStep state { state with task := some task }
  | commit {state task} (idle : state.task = none) (epoch : Nat) (fits : epoch < 2 ^ 64)
      (topology : Topology) (configuration : Bytes)
      (begins : commit state.files epoch topology configuration = .ok task) :
      StoreStep state { state with task := some task }
  | write {state task phase files} (busy : state.task = some task)
      (step : WriteStep task.job task.phase state.files phase files) :
      StoreStep state
        { files := files
          task := some { task with phase := phase }
          published := state.published ++ publication task.commitment task.phase phase }
  | finish {state task} (busy : state.task = some task)
      (ended : task.phase = .returned ∨ task.phase = .threw) :
      StoreStep state { state with task := none }
  | crash {state} : StoreStep state { state with task := none }

/-- What the store can become by calls and crashes. -/
abbrev Leads := Relation.ReflTransGen StoreStep

end Stormglass.Snapshot
