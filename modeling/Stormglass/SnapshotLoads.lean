import Stormglass.SnapshotStore

/-!
# Loading from the snapshot store

Loading reads final names only, and it is a function of their contents: what has been
loaded once is loaded again as long as the files under final names stay. A load that fails
throws a `std::runtime_error`, so the search for the latest commit never stops early.
-/

namespace Stormglass.Snapshot

open FileSystem

/-! ## Names -/

theorem decimalValue_toDecimal (value : Nat) : decimalValue (toDecimal value) = value := by
  rw [toDecimal, decimalValue_decimalDigits]
  exact Nat.mod_eq_of_lt (Nat.lt_pow_succ_log_self (by decide) value)

theorem toDecimal_injective : Function.Injective toDecimal := by
  intro left right same
  rw [← decimalValue_toDecimal left, same, decimalValue_toDecimal]

theorem epochName_injective : Function.Injective epochName := by
  intro left right same
  exact toDecimal_injective (List.append_cancel_left same)

theorem epochOfName_epochName {epoch : Nat} (positive : epoch ≠ 0) (fits : epoch < 2 ^ 64) :
    epochOfName (epochName epoch) = some epoch := by
  have nonempty : toDecimal epoch ≠ [] := by
    intro empty
    have length := length_decimalDigits (Nat.log 10 epoch + 1) epoch
    rw [← toDecimal, empty] at length
    cases length
  have digits : (toDecimal epoch).all isDigit = true := all_isDigit_decimalDigits _ _
  rw [epochOfName, epochName, List.take_left, if_pos rfl, List.drop_left, fromChars,
    decimalValue_toDecimal, if_pos ⟨nonempty, digits, fits⟩]
  simp [Nat.pos_of_ne_zero positive]

/-- The names under which files are published. -/
def IsFinal (name : Bytes) : Prop := name = committedName ∨ ∃ node, name = localName node

/-- A temporary file of the named one. -/
def IsTemporary (name temporary : Bytes) : Prop :=
  ∃ chosen : Bytes, chosen.length = 6 ∧ temporary = temporaryName name chosen

/-- The seventh character from the end tells temporary names from final ones. -/
theorem not_final_of_temporary {name temporary : Bytes} (isTemporary : IsTemporary name temporary) :
    ¬ IsFinal temporary := by
  obtain ⟨chosen, six, rfl⟩ := isTemporary
  have dash : (temporaryName name chosen).reverse[6]? = some 45 := by
    rw [temporaryName, List.reverse_append, List.getElem?_append_right (by simp [six])]
    simp [six, ascii]
  rintro (manifest | ⟨node, own⟩)
  · rw [manifest] at dash
    revert dash
    decide
  · rw [own, localName, List.reverse_append, List.getElem?_append_left (by decide)] at dash
    revert dash
    decide

theorem localName_ne_committedName (node : NodeId) : localName node ≠ committedName := by
  intro same
  have heads : (some 110 : Option UInt8) = some 67 := congrArg List.head? same
  revert heads
  decide

/-! ## Contents -/

section Contents

variable (files : FileSystem) (directory name : Bytes)

theorem content_within (change : FileDirectory → FileDirectory) (other place : Bytes) :
    (files.within directory change).content other place =
      if other = directory then
        (files.directories[directory]?.map change).bind (fun entries => entries[place]?)
      else files.content other place := by
  unfold within
  cases found : files.directories[directory]? with
  | none =>
    by_cases here : other = directory
    · subst here
      simp [content, found]
    · rw [if_neg here]
  | some entries =>
    simp only [content, Std.ExtTreeMap.getElem?_insert, Std.LawfulEqOrd.compare_eq_iff_eq]
    by_cases here : other = directory
    · subst here
      simp
    · rw [if_neg (fun same => here same.symm), if_neg here]

/-- A change that touches one name of its directory leaves the other files. -/
theorem content_within_other {files : FileSystem} {directory name other place : Bytes}
    {change : FileDirectory → FileDirectory} (different : ¬ (other = directory ∧ place = name))
    (keeps : ∀ entries : FileDirectory, place ≠ name → (change entries)[place]? = entries[place]?) :
    (files.within directory change).content other place = files.content other place := by
  rw [content_within]
  split
  · next here =>
    subst here
    rw [content]
    cases files.directories[other]? with
    | none => rfl
    | some entries => exact keeps entries fun same => different ⟨rfl, same⟩
  · rfl

theorem content_put {files : FileSystem} {directory name bytes other place : Bytes}
    (different : ¬ (other = directory ∧ place = name)) :
    (files.put directory name bytes).content other place = files.content other place :=
  content_within_other different fun entries elsewhere => by
    simp [Std.ExtTreeMap.getElem?_insert, elsewhere.symm]

theorem content_put_self {files : FileSystem} {directory name bytes : Bytes}
    (present : directory ∈ files.directories) :
    (files.put directory name bytes).content directory name = some bytes := by
  rw [put, content_within, if_pos rfl]
  rw [Std.ExtTreeMap.mem_iff_isSome_getElem?, Option.isSome_iff_exists] at present
  obtain ⟨entries, found⟩ := present
  simp [found]

theorem content_unlink {files : FileSystem} {directory name other place : Bytes}
    (different : ¬ (other = directory ∧ place = name)) :
    (files.unlink directory name).content other place = files.content other place :=
  content_within_other different fun entries elsewhere => by
    simp [Std.ExtTreeMap.getElem?_erase, elsewhere.symm]

/-- A new directory is empty. -/
theorem content_createDirectory {files : FileSystem} {directory : Bytes}
    (absent : directory ∉ files.directories) (other place : Bytes) :
    content { files with directories := files.directories.insert directory ∅ } other place =
      files.content other place := by
  simp only [content, Std.ExtTreeMap.getElem?_insert, Std.LawfulEqOrd.compare_eq_iff_eq]
  split
  · next here =>
    subst here
    rw [Std.ExtTreeMap.getElem?_eq_none absent]
    simp
  · rfl

theorem mem_of_content {files : FileSystem} {directory name bytes : Bytes}
    (found : files.content directory name = some bytes) : directory ∈ files.directories := by
  rw [content, Option.bind_eq_some_iff] at found
  obtain ⟨entries, stored, _⟩ := found
  exact Std.ExtTreeMap.mem_iff_isSome_getElem?.mpr (by rw [stored]; rfl)

theorem mem_within (change : FileDirectory → FileDirectory) (other : Bytes) :
    other ∈ (files.within directory change).directories ↔ other ∈ files.directories := by
  unfold within
  cases found : files.directories[directory]? with
  | none => rfl
  | some entries =>
    rw [Std.ExtTreeMap.mem_insert, Std.LawfulEqOrd.compare_eq_iff_eq]
    constructor
    · rintro (rfl | before)
      · exact Std.ExtTreeMap.mem_iff_isSome_getElem?.mpr (by rw [found]; rfl)
      · exact before
    · exact Or.inr

end Contents

/-! ## Published files stay -/

/-- Every file under a final name stays as it is. -/
def Keeps (before after : FileSystem) : Prop :=
  ∀ directory name bytes, IsFinal name → before.content directory name = some bytes →
    after.content directory name = some bytes

section Loads

variable {before after : FileSystem} {loaded : List LocalSnapshot × Checksums}
  {snapshots : List LocalSnapshot} {epoch : Nat}

theorem read_ok {files : FileSystem} {directory name bytes : Bytes} :
    files.read directory name = .ok bytes ↔
      files.content directory name = some bytes ∧ bytes.length ≤ fileLimit := by
  rw [FileSystem.read]
  cases found : files.content directory name with
  | none => exact ⟨(fun failed => nomatch failed), (fun both => nomatch both.1)⟩
  | some present =>
    simp only [bind_ok, demand_ok, not_lt]
    constructor
    · rintro ⟨_, small, ⟨⟩⟩
      exact ⟨rfl, small⟩
    · rintro ⟨⟨⟩, small⟩
      exact ⟨(), small, rfl⟩

theorem Keeps.read (keeps : Keeps before after) {directory name bytes : Bytes}
    (final : IsFinal name) (found : before.read directory name = .ok bytes) :
    after.read directory name = .ok bytes := by
  obtain ⟨stored, small⟩ := read_ok.mp found
  exact read_ok.mpr ⟨keeps directory name bytes final stored, small⟩

/-- One round of the loop of `LoadLocals`. -/
theorem loadEach_cons {files : FileSystem} {directory : Bytes} {node : NodeId} {rest : List NodeId}
    {checksums : Checksums} {size : Nat} :
    files.loadEach directory epoch (node :: rest) snapshots checksums size = .ok loaded ↔
      ∃ bytes snapshot, files.read directory (localName node) = .ok bytes ∧
        size + bytes.length ≤ 512 * 1024 * 1024 ∧ decodeLocal bytes = .ok snapshot ∧
        snapshot.node = node ∧ snapshot.epoch = epoch ∧
        files.loadEach directory epoch rest (snapshots ++ [snapshot])
          (checksums.insertIfNew node (crc32c (bytes.take (bytes.length - 4))))
          (size + bytes.length) = .ok loaded := by
  simp only [FileSystem.loadEach, bind_ok, demand_ok, mapError_ok, not_lt, not_or, not_not]
  constructor
  · rintro ⟨bytes, found, _, small, snapshot, decoded, _, ⟨own, same⟩, later⟩
    exact ⟨bytes, snapshot, found, small, decoded, own, same, later⟩
  · rintro ⟨bytes, snapshot, found, small, decoded, own, same, later⟩
    exact ⟨bytes, found, (), small, snapshot, decoded, (), ⟨own, same⟩, later⟩

theorem Keeps.loadEach (keeps : Keeps before after) {directory : Bytes} {nodes : List NodeId}
    {checksums : Checksums} {size : Nat}
    (found : before.loadEach directory epoch nodes snapshots checksums size = .ok loaded) :
    after.loadEach directory epoch nodes snapshots checksums size = .ok loaded := by
  induction nodes generalizing snapshots checksums size with
  | nil => exact found
  | cons node rest inductionHypothesis =>
    obtain ⟨bytes, snapshot, stored, small, decoded, own, same, later⟩ := loadEach_cons.mp found
    exact loadEach_cons.mpr ⟨bytes, snapshot, keeps.read (.inr ⟨node, rfl⟩) stored, small, decoded,
      own, same, inductionHypothesis later⟩

theorem loadLocals_ok {files : FileSystem} {directory : Bytes} {topology : Topology} :
    files.loadLocals directory epoch topology = .ok loaded ↔
      ¬ (topology.isEmpty = true ∨ topology.size > 1024) ∧
        files.loadEach directory epoch topology.keys [] ∅ 0 = .ok loaded ∧
        validateGlobal loaded.1 topology = .ok () := by
  simp only [FileSystem.loadLocals, bind_ok, demand_ok, mapError_ok]
  constructor
  · rintro ⟨_, valid, _, found, _, consistent, ⟨⟩⟩
    exact ⟨valid, found, consistent⟩
  · rintro ⟨valid, found, consistent⟩
    exact ⟨(), valid, loaded, found, (), consistent, rfl⟩

/-- What has been loaded is loaded again. -/
theorem Keeps.loadLocals (keeps : Keeps before after) {directory : Bytes} {topology : Topology}
    (found : before.loadLocals directory epoch topology = .ok loaded) :
    after.loadLocals directory epoch topology = .ok loaded := by
  obtain ⟨small, each, valid⟩ := loadLocals_ok.mp found
  exact loadLocals_ok.mpr ⟨small, keeps.loadEach each, valid⟩

/-- `LoadCommitted` succeeds when the manifest is the one that the local files need. -/
theorem loadCommitted_ok {files : FileSystem} {topology : Topology} {configuration : Bytes} :
    files.loadCommitted epoch topology configuration = .ok snapshots ↔
      epoch ≠ 0 ∧ ∃ bytes checksums, files.content (epochName epoch) committedName = some bytes ∧
        files.loadLocals (epochName epoch) epoch topology = .ok (snapshots, checksums) ∧
        manifest epoch topology configuration checksums = .ok bytes := by
  simp only [loadCommitted, epochDirectory, bind_ok, demand_ok, mapError_ok, not_not]
  constructor
  · rintro ⟨_, ⟨_, positive, ⟨⟩⟩, bytes, found, _, _, loaded, locals, _, written, _, rfl, ⟨⟩⟩
    exact ⟨positive, bytes, loaded.2, (read_ok.mp found).1, locals, written⟩
  · rintro ⟨positive, bytes, checksums, found, locals, written⟩
    obtain ⟨front, sealed⟩ : ∃ front, sealFile front = .ok bytes := by
      simp only [manifest, bind_ok] at written
      obtain ⟨_, _, _, _, _, _, sealed⟩ := written
      exact ⟨_, sealed⟩
    have small := (sealFile_ok.mp sealed).2
    exact ⟨epochName epoch, ⟨(), positive, rfl⟩, bytes, read_ok.mpr ⟨found, small⟩, front,
      openFile_sealed sealed, (snapshots, checksums), locals, bytes, written, (), rfl, rfl⟩

end Loads

/-! ## Exceptions -/

section Exceptions

variable {ε α β : Type}

/-- The result is not the given exception. -/
def Avoids (failure : ε) (result : Except ε α) : Prop := result ≠ .error failure

theorem avoids_bind {failure : ε} {first : Except ε α} {next : α → Except ε β}
    (before : Avoids failure first)
    (later : ∀ value, first = .ok value → Avoids failure (next value)) :
    Avoids failure (first >>= next) := by
  cases first with
  | error other =>
    intro same
    exact before (by rw [Except.error.inj same])
  | ok value => exact later value rfl

theorem avoids_require {condition : Prop} [Decidable condition] {message : String}
    (other : message ≠ "map::at") :
    Avoids "map::at" (require condition message : Except String Unit) := by
  rw [require]
  split
  · rintro ⟨⟩
  · intro same
    exact other (Except.error.inj same)

theorem avoids_lookup {map : Std.ExtTreeMap NodeId α} {key : NodeId} (present : key ∈ map) :
    Avoids "map::at" (lookup map key : Except String α) := by
  rw [Std.ExtTreeMap.mem_iff_isSome_getElem?, Option.isSome_iff_exists] at present
  obtain ⟨value, found⟩ := present
  rw [lookup, found]
  rintro ⟨⟩

theorem avoids_forM {items : List α} {body : α → Except String Unit}
    (each : ∀ item ∈ items, Avoids "map::at" (body item)) : Avoids "map::at" (items.forM body) := by
  induction items with
  | nil => rintro ⟨⟩
  | cons item rest inductionHypothesis =>
    refine avoids_bind (each item (by simp)) fun _ _ => ?_
    exact inductionHypothesis fun other member => each other (List.mem_cons_of_mem _ member)

theorem avoids_foldlM {items : List α} {body : β → α → Except String β}
    (each : ∀ value item, Avoids "map::at" (body value item)) (start : β) :
    Avoids "map::at" (items.foldlM body start) := by
  induction items generalizing start with
  | nil => rintro ⟨⟩
  | cons item rest inductionHypothesis =>
    exact avoids_bind (each start item) fun value _ => inductionHypothesis value

/-- What every round of a loop keeps holds at its end. -/
theorem foldlM_ok {body : β → α → Except ε β} (holds : List α → β → Prop)
    (step : ∀ done before item after, holds done before → body before item = .ok after →
      holds (done ++ [item]) after)
    {items : List α} {start final : β} (begins : holds [] start)
    (ran : items.foldlM body start = .ok final) : holds items final := by
  induction items using List.reverseRecOn generalizing final with
  | nil =>
    cases ran
    exact begins
  | append_singleton items item inductionHypothesis =>
    rw [List.foldlM_append, bind_ok] at ran
    obtain ⟨middle, earlier, last⟩ := ran
    rw [List.foldlM_cons, bind_ok] at last
    obtain ⟨_, round, ⟨⟩⟩ := last
    exact step items middle item _ (inductionHypothesis earlier) round

end Exceptions

section Validation

theorem collectNodes_avoids (epoch : Nat) (topology : Topology) (snapshots : List LocalSnapshot) :
    Avoids "map::at" (collectNodes epoch topology snapshots) := by
  apply avoids_foldlM
  intro nodes snapshot
  refine avoids_bind (avoids_require (by decide)) fun _ _ => ?_
  rintro ⟨⟩

/-- Every snapshot of the set is found under its node. -/
theorem mem_of_collectNodes {epoch : Nat} {topology : Topology} {snapshots : List LocalSnapshot}
    {nodes : Std.ExtTreeMap NodeId LocalSnapshot}
    (collected : collectNodes epoch topology snapshots = .ok nodes) :
    ∀ snapshot ∈ snapshots, snapshot.node ∈ nodes := by
  refine foldlM_ok (fun done nodes => ∀ snapshot ∈ done, snapshot.node ∈ nodes) ?_
    (fun _ member => nomatch member) collected
  intro done before snapshot after known step
  obtain ⟨_, _, ⟨⟩⟩ := bind_ok.mp step
  intro other member
  rw [Std.ExtTreeMap.mem_insert, Std.LawfulEqOrd.compare_eq_iff_eq]
  rcases List.mem_append.mp member with earlier | last
  · exact .inr (known other earlier)
  · exact .inl (by rw [List.mem_singleton.mp last])

theorem replayedCounters_avoids (expected : Std.ExtTreeSet NodeId) (received : Counters)
    (channels : List ChannelRecord) :
    Avoids "map::at" (replayedCounters expected received channels) := by
  apply avoids_foldlM
  intro next saved
  refine avoids_bind (avoids_require (by decide)) fun _ present => ?_
  refine avoids_bind (avoids_lookup (require_ok.mp present).2) fun _ _ => ?_
  refine avoids_bind (avoids_require (by decide)) fun _ _ => ?_
  rintro ⟨⟩

theorem validateChannel_avoids (nodes : Std.ExtTreeMap NodeId LocalSnapshot) (node : NodeId)
    (snapshot : LocalSnapshot) (next : Counters) (peer : NodeId) :
    Avoids "map::at" (validateChannel nodes node snapshot next peer) := by
  refine avoids_bind (avoids_require (by decide)) fun _ present => ?_
  obtain ⟨known, _, counted, marked⟩ := require_ok.mp present
  refine avoids_bind (avoids_lookup known) fun sender _ => ?_
  refine avoids_bind (avoids_require (by decide)) fun _ symmetric => ?_
  refine avoids_bind (avoids_lookup (require_ok.mp symmetric).1) fun _ _ => ?_
  refine avoids_bind (avoids_lookup counted) fun _ _ => ?_
  refine avoids_bind (avoids_lookup marked) fun _ _ => ?_
  exact avoids_require (by decide)

/-- A set with a snapshot for every node looks up nothing that is missing. -/
theorem validateGlobal_avoids {snapshots : List LocalSnapshot} {topology : Topology}
    (complete : ∀ node ∈ topology, ∃ snapshot ∈ snapshots, snapshot.node = node) :
    Avoids "map::at" (validateGlobal snapshots topology) := by
  refine avoids_bind (avoids_require (by decide)) fun _ _ => ?_
  refine avoids_bind (avoids_require (by decide)) fun _ _ => ?_
  refine avoids_bind (collectNodes_avoids _ _ _) fun nodes collected => ?_
  apply avoids_forM
  rintro ⟨node, peers⟩ member
  have known : node ∈ nodes := by
    rw [Std.ExtTreeMap.mem_toList_iff_getElem?_eq_some] at member
    obtain ⟨snapshot, listed, rfl⟩ := complete node
      (Std.ExtTreeMap.mem_iff_isSome_getElem?.mpr (by rw [member]; rfl))
    exact mem_of_collectNodes collected snapshot listed
  refine avoids_bind (avoids_lookup known) fun snapshot _ => ?_
  refine avoids_bind (avoids_require (by decide)) fun _ _ => ?_
  refine avoids_bind (avoids_require (by decide)) fun _ _ => ?_
  refine avoids_bind (replayedCounters_avoids _ _ _) fun next _ => ?_
  exact avoids_forM fun peer _ => validateChannel_avoids nodes node snapshot next peer

theorem manifestNodes_avoids {checksums : Checksums} {nodes : List (NodeId × List NodeId)}
    (complete : ∀ node ∈ nodes, node.1 ∈ checksums) :
    Avoids "map::at" (manifestNodes checksums nodes) := by
  induction nodes with
  | nil => rintro ⟨⟩
  | cons node rest inductionHypothesis =>
    refine avoids_bind (avoids_lookup (complete node (by simp))) fun _ _ => ?_
    refine avoids_bind (inductionHypothesis
      fun other member => complete other (List.mem_cons_of_mem _ member)) fun _ _ => ?_
    rintro ⟨⟩

theorem manifest_avoids {epoch : Nat} {topology : Topology} {configuration : Bytes}
    {checksums : Checksums} (complete : ∀ node ∈ topology, node ∈ checksums) :
    Avoids "map::at" (manifest epoch topology configuration checksums) := by
  refine avoids_bind (avoids_require (by decide)) fun _ _ => ?_
  refine avoids_bind (avoids_bind (avoids_require (by decide)) fun _ _ => ?_) fun _ _ => ?_
  · rintro ⟨⟩
  refine avoids_bind (manifestNodes_avoids ?_) fun _ _ => ?_
  · rintro ⟨node, peers⟩ member
    rw [Std.ExtTreeMap.mem_toList_iff_getElem?_eq_some] at member
    exact complete node (Std.ExtTreeMap.mem_iff_isSome_getElem?.mpr (by rw [member]; rfl))
  · refine avoids_bind (avoids_require (by decide)) fun _ _ => ?_
    rintro ⟨⟩

end Validation

/-- What is not a `std::runtime_error`. -/
def Failure.Foreign (failure : Failure) : Prop := ∀ message, failure ≠ .runtimeError message

section Loading

variable {α : Type} {failure : Failure}

section

variable (foreign : Failure.Foreign failure)

include foreign

theorem Failure.Foreign.avoids_runtimeError (result : Except String α) :
    Avoids failure (result.mapError .runtimeError) := by
  cases result with
  | ok value => rintro ⟨⟩
  | error message =>
    intro same
    exact foreign message (Except.error.inj same).symm

theorem Failure.Foreign.avoids_demand (condition : Prop) [Decidable condition] (message : String) :
    Avoids failure (demand condition message) :=
  foreign.avoids_runtimeError _

theorem Failure.Foreign.avoids_exception {result : Except String α}
    (found : Avoids "map::at" result) :
    Avoids failure (result.mapError exception) := by
  cases result with
  | ok value => rintro ⟨⟩
  | error message =>
    have other : message ≠ "map::at" := fun same => found (by rw [same])
    intro same
    have thrown : exception message = failure := Except.error.inj same
    rw [exception, if_neg other] at thrown
    exact foreign message thrown.symm

theorem Failure.Foreign.avoids_read (files : FileSystem) (directory name : Bytes) :
    Avoids failure (files.read directory name) := by
  rw [FileSystem.read]
  split
  · intro same
    exact foreign _ (Except.error.inj same).symm
  · refine avoids_bind (foreign.avoids_demand _ _) fun _ _ => ?_
    rintro ⟨⟩

theorem Failure.Foreign.avoids_loadEach (files : FileSystem) (directory : Bytes) (epoch : Nat)
    (nodes : List NodeId) (snapshots : List LocalSnapshot) (checksums : Checksums) (size : Nat) :
    Avoids failure (files.loadEach directory epoch nodes snapshots checksums size) := by
  induction nodes generalizing snapshots checksums size with
  | nil => rintro ⟨⟩
  | cons node rest inductionHypothesis =>
    refine avoids_bind (foreign.avoids_read _ _ _) fun bytes _ => ?_
    refine avoids_bind (foreign.avoids_demand _ _) fun _ _ => ?_
    refine avoids_bind (foreign.avoids_runtimeError _) fun snapshot _ => ?_
    refine avoids_bind (foreign.avoids_demand _ _) fun _ _ => ?_
    exact inductionHypothesis _ _ _

end

/-- The loop loads a snapshot and a checksum for each node. -/
theorem loadEach_complete {files : FileSystem} {directory : Bytes} {epoch : Nat}
    {nodes : List NodeId} {snapshots : List LocalSnapshot} {checksums : Checksums} {size : Nat}
    {loaded : List LocalSnapshot × Checksums}
    (found : files.loadEach directory epoch nodes snapshots checksums size = .ok loaded) :
    (∀ snapshot ∈ snapshots, snapshot ∈ loaded.1) ∧
      (∀ node : NodeId, node ∈ checksums → node ∈ loaded.2) ∧
      ∀ node ∈ nodes, (∃ snapshot ∈ loaded.1, snapshot.node = node) ∧ node ∈ loaded.2 := by
  induction nodes generalizing snapshots checksums size with
  | nil =>
    cases found
    exact ⟨fun _ member => member, fun _ member => member, fun _ member => nomatch member⟩
  | cons node rest inductionHypothesis =>
    obtain ⟨bytes, snapshot, _, _, _, own, _, later⟩ := loadEach_cons.mp found
    obtain ⟨kept, summed, each⟩ := inductionHypothesis later
    refine ⟨fun other member => kept other (List.mem_append_left _ member),
      fun other member => summed other (Std.ExtTreeMap.mem_insertIfNew.mpr (.inr member)), ?_⟩
    rintro other (_ | ⟨_, member⟩)
    · refine ⟨⟨snapshot, kept snapshot (by simp), own⟩, summed node ?_⟩
      exact Std.ExtTreeMap.mem_insertIfNew.mpr (.inl Std.ReflOrd.compare_self)
    · exact each other member

theorem Failure.Foreign.avoids_loadLocals (foreign : Failure.Foreign failure) (files : FileSystem)
    (directory : Bytes) (epoch : Nat) (topology : Topology) :
    Avoids failure (files.loadLocals directory epoch topology) := by
  refine avoids_bind (foreign.avoids_demand _ _) fun _ _ => ?_
  refine avoids_bind (foreign.avoids_loadEach _ _ _ _ _ _ _) fun loaded found => ?_
  refine avoids_bind (foreign.avoids_exception (validateGlobal_avoids ?_)) fun _ _ => ?_
  · intro node member
    exact ((loadEach_complete found).2.2 node (Std.ExtTreeMap.mem_keys.mpr member)).1
  · rintro ⟨⟩

/-- A load that fails throws a `std::runtime_error`. -/
theorem Failure.Foreign.avoids_loadCommitted (foreign : Failure.Foreign failure)
    (files : FileSystem) (epoch : Nat) (topology : Topology) (configuration : Bytes) :
    Avoids failure (files.loadCommitted epoch topology configuration) := by
  refine avoids_bind (avoids_bind (foreign.avoids_demand _ _) fun _ _ => ?_) fun directory _ => ?_
  · rintro ⟨⟩
  refine avoids_bind (foreign.avoids_read _ _ _) fun _ _ => ?_
  refine avoids_bind (foreign.avoids_runtimeError _) fun _ _ => ?_
  refine avoids_bind (foreign.avoids_loadLocals _ _ _ _) fun loaded found => ?_
  refine avoids_bind (foreign.avoids_exception (manifest_avoids ?_)) fun _ _ => ?_
  · intro node member
    have each := (loadLocals_ok.mp found).2.1
    exact ((loadEach_complete each).2.2 node (Std.ExtTreeMap.mem_keys.mpr member)).2
  · refine avoids_bind (foreign.avoids_demand _ _) fun _ _ => ?_
    rintro ⟨⟩

/-- A load succeeds or throws a `std::runtime_error`. -/
theorem loadCommitted_cases (files : FileSystem) (epoch : Nat) (topology : Topology)
    (configuration : Bytes) :
    (∃ snapshots, files.loadCommitted epoch topology configuration = .ok snapshots) ∨
      ∃ message, files.loadCommitted epoch topology configuration =
        .error (.runtimeError message) := by
  cases result : files.loadCommitted epoch topology configuration with
  | ok snapshots => exact .inl ⟨snapshots, rfl⟩
  | error failure =>
    right
    by_contra other
    push Not at other
    have foreign : Failure.Foreign failure := by
      rintro message rfl
      exact other message rfl
    exact foreign.avoids_loadCommitted files epoch topology configuration result

/-- The search returns the largest epoch that loads. -/
theorem loadFirst_largest {files : FileSystem} {topology : Topology} {configuration : Bytes}
    {epochs : List Nat} (sorted : epochs.Pairwise (fun left right => right ≤ left)) {epoch : Nat}
    {snapshots : List LocalSnapshot} (member : epoch ∈ epochs)
    (loads : files.loadCommitted epoch topology configuration = .ok snapshots)
    (largest : ∀ other found, files.loadCommitted other topology configuration = .ok found →
      other ≤ epoch) :
    files.loadFirst topology configuration epochs = .ok snapshots := by
  induction epochs with
  | nil => cases member
  | cons first rest inductionHypothesis =>
    obtain ⟨above, sorted⟩ := List.pairwise_cons.mp sorted
    rw [FileSystem.loadFirst]
    rcases loadCommitted_cases files first topology configuration with
      ⟨found, ok⟩ | ⟨message, failed⟩
    · have same : first = epoch := by
        rcases List.mem_cons.mp member with rfl | later
        · rfl
        · exact le_antisymm (largest first found ok) (above epoch later)
      rw [same, loads]
    · rw [failed]
      apply inductionHypothesis sorted
      rcases List.mem_cons.mp member with rfl | later
      · rw [loads] at failed
        cases failed
      · exact later

theorem loadFirst_none {files : FileSystem} {topology : Topology} {configuration : Bytes}
    (epochs : List Nat)
    (none : ∀ epoch snapshots, files.loadCommitted epoch topology configuration ≠ .ok snapshots) :
    files.loadFirst topology configuration epochs = .error (.runtimeError
      "no valid committed snapshot for requested topology/configuration") := by
  induction epochs with
  | nil => rfl
  | cons first rest inductionHypothesis =>
    rw [FileSystem.loadFirst]
    rcases loadCommitted_cases files first topology configuration with
      ⟨found, ok⟩ | ⟨message, failed⟩
    · exact absurd ok (none first found)
    · rw [failed]
      exact inductionHypothesis

/-- The directory of an epoch is among those that the search visits. -/
theorem mem_epochs {files : FileSystem} {epoch : Nat} (root : files.root = true)
    (positive : epoch ≠ 0) (fits : epoch < 2 ^ 64)
    (present : epochName epoch ∈ files.directories) : epoch ∈ files.epochs := by
  rw [FileSystem.epochs, if_pos root, List.mem_mergeSort, List.mem_filterMap]
  exact ⟨epochName epoch, Std.ExtTreeMap.mem_keys.mpr present, epochOfName_epochName positive fits⟩

theorem epochs_sorted (files : FileSystem) :
    files.epochs.Pairwise (fun left right => right ≤ left) := by
  rw [FileSystem.epochs]
  split
  · have total : ∀ left right : Nat, (decide (right ≤ left) || decide (left ≤ right)) = true := by
      intro left right
      simp only [Bool.or_eq_true, decide_eq_true_eq]
      omega
    have transitive : ∀ first second third : Nat, decide (second ≤ first) = true →
        decide (third ≤ second) = true → decide (third ≤ first) = true := by
      intro first second third
      simp only [decide_eq_true_eq]
      omega
    exact (List.pairwise_mergeSort transitive total _).imp of_decide_eq_true
  · exact List.Pairwise.nil

end Loading

end Stormglass.Snapshot
