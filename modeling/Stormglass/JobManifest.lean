import Stormglass.CheckpointDirectory

/-!
# The job manifest

A checkpoint directory records the configuration of the job that writes it, as lines
`key=value` behind a header line. `ValidateOrCreateJobManifest` writes the file for a fresh
directory and otherwise demands the same fields.

Nothing in the file is escaped. The reader takes a line up to the next newline and splits
it at the first equals sign, so the file determines the fields because `Serialize` refuses
a newline anywhere, an equals sign in a key, and an empty key.
-/

namespace Stormglass

/-- `std::map<std::string, std::string>` -/
abbrev JobManifest := Std.ExtTreeMap Bytes Bytes

namespace JobManifest

/-- What a call throws: a `std::invalid_argument`, a `JobManifestMismatch`, or an error of a
system call. -/
inductive Thrown where
  | invalidArgument (what : Bytes)
  | mismatch (what : Bytes)
  | systemError (what : String)
deriving DecidableEq

/-- The bytes of a message. -/
def text (message : String) : Bytes := ascii message.toList

def newline : UInt8 := 10

def equals : UInt8 := 61

def quote : UInt8 := 39

/-- `kManifestName` -/
def manifestName : Bytes := ascii ['j', 'o', 'b', '.', 'm', 'a', 'n', 'i', 'f', 'e', 's', 't']

/-- `kHeader` -/
def header : Bytes :=
  ascii ['s', 't', 'o', 'r', 'm', 'g', 'l', 'a', 's', 's', '-', 'j', 'o', 'b', '-', 'm', 'a', 'n',
    'i', 'f', 'e', 's', 't', ' ', 'v', '1']

/-! ## The text of the file -/

/-- A field that `Serialize` writes. -/
def Accepts (key value : Bytes) : Prop :=
  ¬ (key = [] ∨ (equals ∈ key ∨ newline ∈ key) ∨ newline ∈ value)

instance (key value : Bytes) : Decidable (Accepts key value) :=
  inferInstanceAs (Decidable (¬ _))

/-- The line of a field. -/
def line (key value : Bytes) : Bytes := key ++ equals :: value

/-- The loop of `Serialize`. -/
def serializeFields : List (Bytes × Bytes) → Except Thrown Bytes
  | [] => .ok []
  | (key, value) :: rest =>
      if Accepts key value then do
        let later ← serializeFields rest
        pure (line key value ++ newline :: later)
      else
        .error (.invalidArgument
          (text "job manifest field cannot contain '=' in its key or a newline: " ++ key))

def serialize (manifest : JobManifest) : Except Thrown Bytes := do
  let fields ← serializeFields manifest.toList
  pure (header ++ newline :: fields)

/-- `std::getline`: the next line and what follows it, unless the input is used up. -/
def getline (input : Bytes) : Option (Bytes × Bytes) :=
  if input = [] then none
  else some (input.takeWhile (· ≠ newline), (input.dropWhile (· ≠ newline)).drop 1)

theorem getline_shorter {input found rest : Bytes} (got : getline input = some (found, rest)) :
    rest.length < input.length := by
  unfold getline at got
  split at got
  · cases got
  · rename_i nonempty
    cases got
    have shorter := List.length_dropWhile_le (fun byte => decide (byte ≠ newline)) input
    have positive := List.length_pos_iff.mpr nonempty
    rw [List.length_drop]
    omega

/-- The loop of `Load`. -/
def loadFields (path input : Bytes) (manifest : JobManifest) : Except Thrown JobManifest :=
  match got : getline input with
  | none => .ok manifest
  | some (found, rest) =>
      have := getline_shorter got
      match found.idxOf? equals with
      | none | some 0 =>
          .error (.mismatch (text "malformed job manifest line in " ++ path ++ text ": " ++ found))
      | some position =>
          loadFields path rest
            (manifest.insert (found.take position) (found.drop (position + 1)))
termination_by input.length

/-- `Load` on the content of a file. -/
def loadText (path input : Bytes) : Except Thrown JobManifest :=
  match getline input with
  | none => .error (.mismatch (text "unrecognized job manifest format: " ++ path))
  | some (found, rest) =>
      if found ≠ header then
        .error (.mismatch (text "unrecognized job manifest format: " ++ path))
      else loadFields path rest ∅

/-! ## What is read is what was written -/

/-- A line is read off up to its newline. -/
theorem getline_line {found : Bytes} (single : newline ∉ found) (rest : Bytes) :
    getline (found ++ newline :: rest) = some (found, rest) := by
  have whole : ∀ byte ∈ found, decide (byte ≠ newline) = true := by
    intro byte member
    exact decide_eq_true fun same => single (same ▸ member)
  rw [getline, if_neg (by simp), List.takeWhile_append_of_pos whole,
    List.dropWhile_append_of_pos whole]
  simp

/-- The first equals sign of a line stands behind its key. -/
theorem idxOf_line {key : Bytes} (plain : equals ∉ key) (value : Bytes) :
    (line key value).idxOf? equals = some key.length := by
  induction key with
  | nil => simp [line, List.idxOf?_cons]
  | cons byte rest inductionHypothesis =>
    obtain ⟨other, later⟩ := not_or.mp (List.mem_cons.not.mp plain)
    have split : line (byte :: rest) value = byte :: line rest value := rfl
    rw [split, List.idxOf?_cons, inductionHypothesis later]
    simp [Ne.symm other]

theorem Accepts.parts {key value : Bytes} (accepted : Accepts key value) :
    0 < key.length ∧ equals ∉ key ∧ newline ∉ line key value := by
  have different : newline ≠ equals := by decide
  unfold Accepts at accepted
  push Not at accepted
  obtain ⟨nonempty, ⟨plain, keySingle⟩, valueSingle⟩ := accepted
  refine ⟨List.length_pos_iff.mpr nonempty, plain, ?_⟩
  simp [line, keySingle, valueSingle, different]

/-- A field is read off its line. -/
theorem loadFields_line (path : Bytes) {key value : Bytes} (accepted : Accepts key value)
    (rest : Bytes) (manifest : JobManifest) :
    loadFields path (line key value ++ newline :: rest) manifest =
      loadFields path rest (manifest.insert key value) := by
  obtain ⟨positive, plain, single⟩ := accepted.parts
  have first := getline_line single rest
  have position := idxOf_line plain value
  rw [loadFields]
  split
  · rename_i none
    rw [first] at none
    cases none
  · rename_i found later got
    rw [first] at got
    cases got
    rw [position]
    split
    · rename_i none
      cases none
    · rename_i zero
      rw [Option.some.injEq] at zero
      omega
    · rename_i index _ here
      obtain rfl := Option.some.inj here
      have front : (line key value).take key.length = key := List.take_left
      have back : (line key value).drop (key.length + 1) = value := by
        rw [line, ← List.drop_drop, List.drop_left]
        rfl
      rw [front, back]

/-- The fields of a text are stored one after another. -/
theorem loadFields_serialized (path : Bytes) {fields : List (Bytes × Bytes)} {written : Bytes}
    (serialized : serializeFields fields = .ok written) (manifest : JobManifest) :
    loadFields path written manifest = .ok (manifest.insertMany fields) := by
  induction fields generalizing written manifest with
  | nil =>
    cases serialized
    rw [loadFields, Std.ExtTreeMap.insertMany_nil]
    rfl
  | cons field rest inductionHypothesis =>
    obtain ⟨key, value⟩ := field
    rw [serializeFields] at serialized
    split at serialized
    · rename_i accepted
      cases fields : serializeFields rest with
      | error thrown =>
        rw [fields] at serialized
        cases serialized
      | ok later =>
        rw [fields] at serialized
        cases serialized
        rw [loadFields_line path accepted, inductionHypothesis fields,
          Std.ExtTreeMap.insertMany_cons]
    · cases serialized

/-- Loading a serialized manifest gives it back. -/
theorem loadText_serialize (path : Bytes) {manifest : JobManifest} {written : Bytes}
    (serialized : serialize manifest = .ok written) : loadText path written = .ok manifest := by
  have single : newline ∉ header := by decide
  unfold serialize at serialized
  cases fields : serializeFields manifest.toList with
  | error thrown =>
    rw [fields] at serialized
    cases serialized
  | ok lines =>
    rw [fields] at serialized
    cases serialized
    rw [loadText, getline_line single]
    dsimp only
    rw [if_neg (not_not.mpr rfl), loadFields_serialized path fields, insertMany_toList]

/-! ## The directory -/

/-- An entry of a directory tree. -/
inductive Node where
  | directory
  | file (content : Bytes)

/-- A checkpoint directory: whether it exists, and everything below it. A path is the list
of its components. -/
structure Tree where
  present : Bool := false
  entries : Std.ExtTreeMap (List Bytes) Node := ∅

/-- Which system calls succeed: those of the write, and the others. -/
structure Calls extends WriteCalls where
  createDirectories : Bool
  openManifest : Bool
  iterate : Bool

def manifestPath : List Bytes := [manifestName]

def temporaryPath : List Bytes := [manifestName ++ tmpSuffix]

/-- `checkpoint_dir + "/" + kManifestName` -/
def pathText (directory : Bytes) : Bytes := directory ++ text "/" ++ manifestName

/-- `Load`. A manifest that cannot be opened counts as absent, and a directory in its place
opens but has no first line. -/
def load (calls : Calls) (directory : Bytes) (tree : Tree) : Except Thrown (Option JobManifest) :=
  if calls.openManifest = false then .ok none
  else
    match tree.entries[manifestPath]? with
    | none => .ok none
    | some .directory => (loadText (pathText directory) []).map some
    | some (.file content) => (loadText (pathText directory) content).map some

/-- `HasCheckpointFiles` looks at the last component of every path. -/
def hasCheckpointFiles (tree : Tree) : Bool :=
  tree.entries.keys.any fun path => (path.getLast?.map (hasSuffix ckptSuffix)).getD false

/-- `WriteAtomically`. Of the temporary file only a failed `fsync` leaves something behind. -/
def writeAtomically (calls : WriteCalls) (tree : Tree) (contents : Bytes) :
    Except Thrown Unit × Tree :=
  let filled := tree.entries.insert temporaryPath (.file contents)
  let removed := tree.entries.erase temporaryPath
  if calls.openTmp = false then (.error (.systemError "open job manifest"), tree)
  else if calls.writeAll = false then
    (.error (.systemError "write job manifest"), { tree with entries := removed })
  else if calls.fsync = false then
    (.error (.systemError "fsync job manifest"), { tree with entries := filled })
  else if calls.rename = false then
    (.error (.systemError "rename job manifest"), { tree with entries := removed })
  else
    let renamed := { tree with entries := removed.insert manifestPath (.file contents) }
    if calls.openDirectory = false then (.error (.systemError "open checkpoint dir"), renamed)
    else if calls.fsyncDirectory = false then
      (.error (.systemError "fsync checkpoint dir"), renamed)
    else (.ok (), renamed)

/-- A field in the text of a mismatch. -/
def describe (manifest : JobManifest) (key : Bytes) : Bytes :=
  match manifest[key]? with
  | none => text "<absent>"
  | some value => quote :: value ++ [quote]

/-- The fields that the text of a mismatch names. -/
def differing (stored expected : JobManifest) : List Bytes :=
  (stored.insertMany expected.toList).keys.filter fun key =>
    describe stored key ≠ describe expected key

/-- The text of a mismatch. -/
def difference (directory : Bytes) (stored expected : JobManifest) : Bytes :=
  text "checkpoint directory " ++ directory ++
    text " was written by a different job configuration:" ++
    (differing stored expected).flatMap fun key =>
      text " " ++ key ++ text " checkpointed=" ++ describe stored key ++ text " configured=" ++
        describe expected key ++ text ";"

/-- `ValidateOrCreateJobManifest`, with the tree it leaves behind. -/
def validateOrCreate (calls : Calls) (directory : Bytes) (tree : Tree) (expected : JobManifest) :
    Except Thrown Unit × Tree :=
  if calls.createDirectories = false then (.error (.systemError "create directories"), tree)
  else
    let tree := { tree with present := true }
    match serialize expected with
    | .error thrown => (.error thrown, tree)
    | .ok contents =>
      match load calls directory tree with
      | .error thrown => (.error thrown, tree)
      | .ok (some stored) =>
          if stored = expected then (.ok (), tree)
          else (.error (.mismatch (difference directory stored expected)), tree)
      | .ok none =>
          if calls.iterate = false then (.error (.systemError "directory iterator"), tree)
          else if hasCheckpointFiles tree then
            (.error (.mismatch (text "checkpoint directory " ++ directory ++
              text " holds checkpoints but no job manifest; refusing an unverifiable restore")),
              tree)
          else writeAtomically calls.toWriteCalls tree contents

/-! ## The gate -/

/-- Every system call succeeds. -/
def allServed : Calls where
  openTmp := true
  writeAll := true
  fsync := true
  rename := true
  openDirectory := true
  fsyncDirectory := true
  createDirectories := true
  openManifest := true
  iterate := true

/-- A directory without a manifest and without checkpoints, which need not exist. -/
structure Fresh (tree : Tree) : Prop where
  manifest : tree.entries[manifestPath]? = none
  checkpoints : hasCheckpointFiles tree = false

/-- A fresh directory gets the manifest. -/
theorem validateOrCreate_fresh (directory : Bytes) {tree : Tree} (fresh : Fresh tree)
    {manifest : JobManifest} {contents : Bytes} (accepted : serialize manifest = .ok contents) :
    ∃ after, validateOrCreate allServed directory tree manifest = (.ok (), after) ∧
      after.entries[manifestPath]? = some (.file contents) := by
  refine ⟨{ present := true
            entries := (tree.entries.erase temporaryPath).insert manifestPath (.file contents) },
    ?_, ?_⟩
  · have missing : load allServed directory { tree with present := true } = .ok none := by
      unfold load
      dsimp only
      rw [fresh.manifest]
      rfl
    have empty : hasCheckpointFiles { tree with present := true } = false := fresh.checkpoints
    simp only [validateOrCreate, accepted, missing, empty]
    rfl
  · simp

/-- A directory with a stored manifest accepts exactly its fields, whatever else it holds,
and stays as it is. -/
theorem validateOrCreate_stored {calls : Calls} (created : calls.createDirectories = true)
    (opened : calls.openManifest = true) (directory : Bytes) {tree : Tree}
    {manifest expected : JobManifest} {contents written : Bytes}
    (serialized : serialize manifest = .ok contents)
    (stored : tree.entries[manifestPath]? = some (.file contents))
    (accepted : serialize expected = .ok written) :
    validateOrCreate calls directory tree expected =
      (if manifest = expected then .ok ()
        else .error (.mismatch (difference directory manifest expected)),
        { tree with present := true }) := by
  have loaded : load calls directory { tree with present := true } = .ok (some manifest) := by
    unfold load
    dsimp only
    rw [opened, stored]
    dsimp only
    rw [loadText_serialize (pathText directory) serialized]
    rfl
  simp only [validateOrCreate, created, accepted, loaded, Bool.true_eq_false, if_false]
  split
  · rfl
  · rfl

/-- **The job manifest gate.** With its system calls served, the first call on a fresh
directory succeeds and stores the manifest. Any later call, whatever else the directory has
come to hold, succeeds exactly for the same fields and changes nothing below the directory;
and loading a serialized manifest gives it back. -/
theorem job_manifest_gate (directory : Bytes) {tree : Tree} (fresh : Fresh tree)
    {manifest other : JobManifest} {contents otherContents : Bytes}
    (accepted : serialize manifest = .ok contents)
    (otherAccepted : serialize other = .ok otherContents) :
    (∀ path, loadText path contents = .ok manifest) ∧
    ∃ after, validateOrCreate allServed directory tree manifest = (.ok (), after) ∧
      load allServed directory after = .ok (some manifest) ∧
      ∀ (later : Tree) (calls : Calls),
        later.entries[manifestPath]? = after.entries[manifestPath]? →
        calls.createDirectories = true → calls.openManifest = true →
        ((validateOrCreate calls directory later other).1 = .ok () ↔ other = manifest) ∧
          (validateOrCreate calls directory later other).2.entries = later.entries := by
  have loads := fun path => loadText_serialize path accepted
  obtain ⟨after, succeeds, stored⟩ := validateOrCreate_fresh directory fresh accepted
  refine ⟨loads, after, succeeds, ?_, ?_⟩
  · unfold load
    rw [stored]
    dsimp only
    rw [loads]
    rfl
  · intro later calls same created opened
    rw [stored] at same
    rw [validateOrCreate_stored created opened directory accepted same otherAccepted]
    refine ⟨?_, rfl⟩
    dsimp only
    by_cases equal : manifest = other
    · rw [if_pos equal]
      exact iff_of_true rfl equal.symm
    · rw [if_neg equal]
      exact iff_of_false (fun ok => nomatch ok) (fun same => equal same.symm)

/-- A value that contains an equals sign, against an empty one. -/
theorem plain_directory_gate :
    let manifest : JobManifest := (∅ : JobManifest).insert [107] [97, 61, 98]
    let other : JobManifest := (∅ : JobManifest).insert [107] []
    ∃ after, validateOrCreate allServed [47] {} manifest = (.ok (), after) ∧
      (validateOrCreate allServed [47] after other).1 ≠ .ok () := by
  intro manifest other
  have fresh : Fresh {} := ⟨by simp, by rfl⟩
  obtain ⟨contents, accepted⟩ : ∃ contents, serialize manifest = .ok contents := ⟨_, rfl⟩
  obtain ⟨written, otherAccepted⟩ : ∃ written, serialize other = .ok written := ⟨_, rfl⟩
  obtain ⟨-, after, succeeds, -, later⟩ := job_manifest_gate [47] fresh accepted otherAccepted
  refine ⟨after, succeeds, ?_⟩
  obtain ⟨accepts, -⟩ := later after allServed rfl rfl rfl
  rw [ne_eq, accepts]
  decide +kernel

end JobManifest

end Stormglass
