import Stormglass.CheckpointGrammar

/-!
# A directory of checkpoint files

`WriteCheckpoint` writes a temporary file, renames it to the name of its offset, and
then deletes all but the two newest checkpoint files. `LoadLatest` walks the files from
the newest name down and returns the first one that loads. The clean-up goes by names
alone, while the loader looks into the files, so the two can disagree about which files
count.

A directory is a map from names to contents, and names are compared bytewise. The
system calls up to the synchronisation of the directory may fail; the clean-up's own
calls succeed.
-/

namespace Stormglass

abbrev FileDirectory := Std.ExtTreeMap Bytes Bytes

/-- The bytes of a text without characters beyond ASCII. -/
def ascii (text : List Char) : Bytes := text.map fun character => character.toNat.toUInt8

/-- A number with a fixed count of decimal digits. -/
def decimalDigits (count value : Nat) : Bytes :=
  (List.range count).reverse.map fun place => (48 + value / 10 ^ place % 10).toUInt8

/-- `std::to_string` -/
def toDecimal (value : Nat) : Bytes := decimalDigits (Nat.log 10 value + 1) value

def ckptSuffix : Bytes := ascii ['.', 'c', 'k', 'p', 't']

def tmpSuffix : Bytes := ascii ['.', 't', 'm', 'p']

/-- `CheckpointFilename` -/
def checkpointFilename (offset : Nat) : Bytes :=
  ascii ['c', 'h', 'e', 'c', 'k', 'p', 'o', 'i', 'n', 't', '-'] ++ decimalDigits 20 offset ++
    ckptSuffix

/-- `TmpFilename` -/
def tmpFilename (offset : Nat) : Bytes := checkpointFilename offset ++ tmpSuffix

/-- The name is longer than the suffix and ends in it. -/
def hasSuffix (suffix name : Bytes) : Bool :=
  suffix.length < name.length ∧ name.drop (name.length - suffix.length) = suffix

namespace FileDirectory

/-- The names of the checkpoint files, newest first. -/
def checkpointNames (directory : FileDirectory) : List Bytes :=
  (directory.keys.filter (hasSuffix ckptSuffix)).reverse

/-- `unlink` for each name. -/
def unlinkAll (directory : FileDirectory) (names : List Bytes) : FileDirectory :=
  names.foldl (fun directory name => directory.erase name) directory

/-- `CleanOldCheckpoints` -/
def cleanOldCheckpoints (directory : FileDirectory) : FileDirectory :=
  directory.unlinkAll (directory.checkpointNames.drop 2)

/-- `CleanTmpFiles` -/
def cleanTmpFiles (directory : FileDirectory) : FileDirectory :=
  directory.unlinkAll (directory.keys.filter (hasSuffix tmpSuffix))

/-- `TryLoad` on a file of the directory. -/
def load (directory : FileDirectory) (name : Bytes) : Option CheckpointData :=
  directory[name]?.bind CheckpointReader.tryLoad

/-- `LoadLatest` -/
def loadLatest (directory : FileDirectory) : Option CheckpointData :=
  let cleaned := directory.cleanTmpFiles
  cleaned.checkpointNames.findSome? cleaned.load

end FileDirectory

/-- Which system calls of `WriteCheckpoint` succeed. -/
structure WriteCalls where
  openTmp : Bool
  writeAll : Bool
  fsync : Bool
  rename : Bool
  openDirectory : Bool
  fsyncDirectory : Bool

/-- `WriteCheckpoint`, with the directory it leaves behind. -/
def CheckpointWriter.writeCheckpoint (retainAll : Bool) (calls : WriteCalls)
    (directory : FileDirectory) (offset : Nat) (watermark : Timestamp) (state : KeyedWindowState) :
    Bool × FileDirectory :=
  if calls.openTmp = false then (false, directory)
  else if calls.writeAll = false then (false, directory.erase (tmpFilename offset))
  else if calls.fsync = false then (false, directory.erase (tmpFilename offset))
  else if calls.rename = false then (false, directory.erase (tmpFilename offset))
  else
    let renamed : FileDirectory := (directory.erase (tmpFilename offset)).insert
      (checkpointFilename offset) (CheckpointWriter.payload offset watermark state)
    if calls.openDirectory = false then (false, renamed)
    else if calls.fsyncDirectory = false then (false, renamed)
    else (true, if retainAll then renamed else renamed.cleanOldCheckpoints)

namespace FileDirectory

/-- The checkpoint files with a larger name than that of the offset, newest first. -/
def newer (directory : FileDirectory) (offset : Nat) : List Bytes :=
  directory.checkpointNames.filter fun name => compare (checkpointFilename offset) name = .lt

/-- The checkpoint files with a smaller name, newest first. -/
def older (directory : FileDirectory) (offset : Nat) : List Bytes :=
  directory.checkpointNames.filter fun name => compare name (checkpointFilename offset) = .lt

/-- The first of the files that loads. -/
def firstLoadable (directory : FileDirectory) (names : List Bytes) : Option CheckpointData :=
  names.findSome? directory.load

/-- When a new checkpoint is not lost. Either a newer name stays and holds an offset at
least as large, or the new file is among the two that stay and loads. A new file that
does not load is replaced only by an older name that holds a later offset. -/
inductive Spares (directory : FileDirectory) (offset : Nat) (contents : Bytes) : Prop where
  | newer (data : CheckpointData)
      (loads : directory.firstLoadable ((directory.newer offset).take 2) = some data)
      (later : offset ≤ data.offset)
  | own (data : CheckpointData) (few : (directory.newer offset).length < 2)
      (corrupt : directory.firstLoadable (directory.newer offset) = none)
      (loads : CheckpointReader.tryLoad contents = some data)
  | older (data : CheckpointData) (none : directory.newer offset = [])
      (corrupt : CheckpointReader.tryLoad contents = .none)
      (loads : directory.firstLoadable ((directory.older offset).take 1) = some data)
      (later : offset ≤ data.offset)

/-! ## Names -/

theorem getLast?_of_hasSuffix {suffix name : Bytes} (nonempty : suffix ≠ [])
    (ends : hasSuffix suffix name = true) : name.getLast? = suffix.getLast? := by
  have tail : name.drop (name.length - suffix.length) = suffix := (of_decide_eq_true ends).2
  rw [← List.take_append_drop (name.length - suffix.length) name, tail,
    List.getLast?_append_of_ne_nil _ nonempty]

variable {name : Bytes}

/-- No name is that of a checkpoint and of a temporary file. -/
theorem not_tmp_of_ckpt (ckpt : hasSuffix ckptSuffix name = true) :
    hasSuffix tmpSuffix name = false := by
  rw [Bool.eq_false_iff]
  intro tmp
  have last := getLast?_of_hasSuffix (by decide) ckpt
  rw [getLast?_of_hasSuffix (by decide) tmp] at last
  revert last
  decide

theorem hasSuffix_append {front suffix : Bytes} (nonempty : front ≠ []) :
    hasSuffix suffix (front ++ suffix) = true := by
  have positive := List.length_pos_iff.mpr nonempty
  apply decide_eq_true
  refine ⟨by simpa using positive, List.drop_left' ?_⟩
  simp

theorem checkpointFilename_ckpt (offset : Nat) :
    hasSuffix ckptSuffix (checkpointFilename offset) = true :=
  hasSuffix_append (by simp [ascii])

theorem tmpFilename_not_ckpt (offset : Nat) :
    hasSuffix ckptSuffix (tmpFilename offset) = false := by
  rw [Bool.eq_false_iff]
  intro ckpt
  have tmp : hasSuffix tmpSuffix (tmpFilename offset) = true :=
    hasSuffix_append (by simp [checkpointFilename, ascii])
  rw [not_tmp_of_ckpt ckpt] at tmp
  cases tmp

/-- Newest first. -/
def Descending (names : List Bytes) : Prop :=
  names.Pairwise fun earlier later => compare later earlier = .lt

theorem Descending.eq {left right : List Bytes} (leftOrder : Descending left)
    (rightOrder : Descending right) (same : ∀ name, name ∈ left ↔ name ∈ right) :
    left = right := by
  have distinct {names : List Bytes} (order : Descending names) : names.Nodup := by
    apply order.imp
    rintro earlier later less rfl
    rw [Std.ReflOrd.compare_self] at less
    cases less
  apply List.Perm.eq_of_pairwise _ leftOrder rightOrder
    ((List.perm_ext_iff_of_nodup (distinct leftOrder) (distinct rightOrder)).mpr same)
  intro earlier later _ _ less greater
  rw [Std.OrientedOrd.eq_swap, greater] at less
  cases less

variable (directory : FileDirectory)

theorem checkpointNames_descending : Descending directory.checkpointNames := by
  unfold Descending checkpointNames
  rw [List.pairwise_reverse]
  exact directory.ordered_keys.filter _

theorem mem_checkpointNames :
    name ∈ directory.checkpointNames ↔ name ∈ directory ∧ hasSuffix ckptSuffix name = true := by
  rw [checkpointNames, List.mem_reverse, List.mem_filter, Std.ExtTreeMap.mem_keys]

theorem getElem?_unlinkAll (names : List Bytes) (name : Bytes) :
    (directory.unlinkAll names)[name]? = if name ∈ names then none else directory[name]? := by
  induction names generalizing directory with
  | nil => simp [unlinkAll]
  | cons first rest inductionHypothesis =>
    change (unlinkAll (directory.erase first) rest)[name]? = _
    simp only [inductionHypothesis, Std.ExtTreeMap.getElem?_erase,
      Std.LawfulEqOrd.compare_eq_iff_eq]
    by_cases later : name ∈ rest
    · simp [later]
    · by_cases here : first = name
      · simp [here]
      · have other : ¬ name = first := fun same => here same.symm
        simp [later, here, other]

theorem mem_unlinkAll (names : List Bytes) (name : Bytes) :
    name ∈ directory.unlinkAll names ↔ name ∈ directory ∧ name ∉ names := by
  rw [Std.ExtTreeMap.mem_iff_isSome_getElem?, getElem?_unlinkAll,
    Std.ExtTreeMap.mem_iff_isSome_getElem?]
  by_cases listed : name ∈ names <;> simp [listed]

theorem load_unlinkAll {names : List Bytes} (kept : name ∉ names) :
    load (directory.unlinkAll names) name = directory.load name := by
  rw [load, getElem?_unlinkAll, if_neg kept, load]

theorem firstLoadable_congr {left right : FileDirectory} {names : List Bytes}
    (same : ∀ name ∈ names, left.load name = right.load name) :
    left.firstLoadable names = right.firstLoadable names := by
  induction names with
  | nil => rfl
  | cons name rest inductionHypothesis =>
    have later := inductionHypothesis fun other member => same other (List.mem_cons_of_mem _ member)
    unfold firstLoadable at later ⊢
    rw [List.findSome?_cons, List.findSome?_cons, same name List.mem_cons_self, later]

/-- Removing temporary files does not change what is loaded. -/
theorem loadLatest_eq :
    directory.loadLatest = directory.firstLoadable directory.checkpointNames := by
  have temporary {name : Bytes} (ckpt : hasSuffix ckptSuffix name = true) :
      name ∉ directory.keys.filter (hasSuffix tmpSuffix) := by
    simp [not_tmp_of_ckpt ckpt]
  have names : checkpointNames directory.cleanTmpFiles = directory.checkpointNames := by
    apply (checkpointNames_descending _).eq directory.checkpointNames_descending
    intro name
    rw [mem_checkpointNames, mem_checkpointNames, cleanTmpFiles, mem_unlinkAll]
    exact ⟨fun stays => ⟨stays.1.1, stays.2⟩,
      fun stays => ⟨⟨stays.1, temporary stays.2⟩, stays.2⟩⟩
  change firstLoadable directory.cleanTmpFiles (checkpointNames directory.cleanTmpFiles) = _
  rw [names]
  apply firstLoadable_congr
  intro name member
  exact directory.load_unlinkAll (temporary (directory.mem_checkpointNames.mp member).2)

/-- The clean-up keeps the two newest names. -/
theorem loadLatest_cleanOld :
    loadLatest directory.cleanOldCheckpoints =
      directory.firstLoadable (directory.checkpointNames.take 2) := by
  have order := directory.checkpointNames_descending
  have split := List.take_append_drop 2 directory.checkpointNames
  have apart {name : Bytes} (kept : name ∈ directory.checkpointNames.take 2) :
      name ∉ directory.checkpointNames.drop 2 := by
    intro dropped
    rw [← split] at order
    have less := (List.pairwise_append.mp order).2.2 name kept name dropped
    rw [Std.ReflOrd.compare_self] at less
    cases less
  have names : checkpointNames directory.cleanOldCheckpoints =
      directory.checkpointNames.take 2 := by
    apply (checkpointNames_descending _).eq (order.sublist (List.take_sublist _ _))
    intro name
    rw [mem_checkpointNames, cleanOldCheckpoints, mem_unlinkAll]
    constructor
    · rintro ⟨⟨present, kept⟩, ckpt⟩
      have listed := directory.mem_checkpointNames.mpr ⟨present, ckpt⟩
      rw [← split] at listed
      exact (List.mem_append.mp listed).resolve_right kept
    · intro kept
      obtain ⟨present, ckpt⟩ := directory.mem_checkpointNames.mp (List.mem_of_mem_take kept)
      exact ⟨⟨present, apart kept⟩, ckpt⟩
  rw [loadLatest_eq, names]
  apply firstLoadable_congr
  intro name kept
  exact directory.load_unlinkAll (apart kept)

/-- The directory after the rename. -/
def renamed (offset : Nat) (contents : Bytes) : FileDirectory :=
  (directory.erase (tmpFilename offset)).insert (checkpointFilename offset) contents

theorem load_renamed_own (offset : Nat) (contents : Bytes) :
    load (directory.renamed offset contents) (checkpointFilename offset) =
      CheckpointReader.tryLoad contents := by
  simp [load, renamed]

theorem load_renamed_other {offset : Nat} (contents : Bytes)
    (ckpt : hasSuffix ckptSuffix name = true) (other : name ≠ checkpointFilename offset) :
    load (directory.renamed offset contents) name = directory.load name := by
  have notTmp : tmpFilename offset ≠ name := by
    rintro rfl
    rw [tmpFilename_not_ckpt] at ckpt
    cases ckpt
  simp only [load, renamed, Std.ExtTreeMap.getElem?_insert, Std.ExtTreeMap.getElem?_erase,
    Std.LawfulEqOrd.compare_eq_iff_eq, if_neg other.symm, if_neg notTmp]

/-- The new file takes its place between the newer and the older names. -/
theorem checkpointNames_renamed (offset : Nat) (contents : Bytes) :
    checkpointNames (directory.renamed offset contents) =
      directory.newer offset ++ checkpointFilename offset :: directory.older offset := by
  have order := directory.checkpointNames_descending
  apply (checkpointNames_descending _).eq
  · refine List.pairwise_append.mpr ⟨order.filter _, List.pairwise_cons.mpr
      ⟨?_, order.filter _⟩, ?_⟩
    · intro name member
      simpa using (List.mem_filter.mp member).2
    · intro newerName newerMember name member
      have above : compare (checkpointFilename offset) newerName = .lt := by
        simpa using (List.mem_filter.mp newerMember).2
      rcases List.mem_cons.mp member with rfl | olderMember
      · exact above
      · have below : compare name (checkpointFilename offset) = .lt := by
          simpa using (List.mem_filter.mp olderMember).2
        exact Std.TransCmp.lt_trans below above
  · intro name
    rw [mem_checkpointNames, List.mem_append, List.mem_cons, newer, older, List.mem_filter,
      List.mem_filter, mem_checkpointNames, renamed, Std.ExtTreeMap.mem_insert,
      Std.LawfulEqOrd.compare_eq_iff_eq, Std.ExtTreeMap.mem_erase, ne_eq,
      Std.LawfulEqOrd.compare_eq_iff_eq, decide_eq_true_iff, decide_eq_true_iff]
    constructor
    · rintro ⟨rfl | ⟨_, present⟩, ckpt⟩
      · exact .inr (.inl rfl)
      · cases place : compare (checkpointFilename offset) name with
        | lt => exact .inl ⟨⟨present, ckpt⟩, rfl⟩
        | eq => exact .inr (.inl (Std.LawfulEqOrd.compare_eq_iff_eq.mp place).symm)
        | gt =>
          refine .inr (.inr ⟨⟨present, ckpt⟩, ?_⟩)
          rw [Std.OrientedOrd.eq_swap, place]
          rfl
    · rintro (⟨⟨present, ckpt⟩, _⟩ | rfl | ⟨⟨present, ckpt⟩, _⟩)
      · refine ⟨.inr ⟨?_, present⟩, ckpt⟩
        rintro rfl
        rw [tmpFilename_not_ckpt] at ckpt
        cases ckpt
      · exact ⟨.inl rfl, checkpointFilename_ckpt offset⟩
      · refine ⟨.inr ⟨?_, present⟩, ckpt⟩
        rintro rfl
        rw [tmpFilename_not_ckpt] at ckpt
        cases ckpt

theorem load_renamed_newer {offset : Nat} (contents : Bytes)
    (member : name ∈ directory.newer offset) :
    load (directory.renamed offset contents) name = directory.load name := by
  obtain ⟨listed, above⟩ := List.mem_filter.mp member
  apply directory.load_renamed_other contents (directory.mem_checkpointNames.mp listed).2
  rintro rfl
  simp at above

theorem load_renamed_older {offset : Nat} (contents : Bytes)
    (member : name ∈ directory.older offset) :
    load (directory.renamed offset contents) name = directory.load name := by
  obtain ⟨listed, below⟩ := List.mem_filter.mp member
  apply directory.load_renamed_other contents (directory.mem_checkpointNames.mp listed).2
  rintro rfl
  simp at below

end FileDirectory

/-- A file of the writer that loads gives its offset back. -/
theorem CheckpointReader.offset_of_tryLoad_payload {offset : Nat} (fits : offset < 2 ^ 64)
    {watermark : Timestamp} {state : KeyedWindowState} {data : CheckpointData}
    (loaded : tryLoad (CheckpointWriter.payload offset watermark state) = some data) :
    data.offset = offset := by
  obtain ⟨version, grammatical, same⟩ := parse_sound (tryLoad_eq_some.mp loaded)
  have read := (eq_fileLayout_iff.mp same).2.1
  have written :=
    (eq_fileLayout_iff.mp (CheckpointWriter.payload_eq offset watermark state.sorted)).2.1
  obtain ⟨_, _, readHere, _⟩ := bodyLayout_prefix_iff.mp read
  obtain ⟨_, _, writtenHere, _⟩ := bodyLayout_prefix_iff.mp written
  have fields := (List.prefix_of_prefix_length_le readHere writtenHere (by simp)).eq_of_length
    (by simp)
  have values := congrArg LittleEndian.decode fields
  rwa [LittleEndian.decode_encode_of_lt grammatical.offset, LittleEndian.decode_encode_of_lt fits]
    at values

namespace FileDirectory

theorem firstLoadable_cons (directory : FileDirectory) (name : Bytes) (rest : List Bytes) :
    directory.firstLoadable (name :: rest) =
      (directory.load name).or (directory.firstLoadable rest) := by
  unfold firstLoadable
  rw [List.findSome?_cons]
  cases directory.load name with
  | none => rfl
  | some data => rfl

/-- What is loaded after the rename and the clean-up, by the number of newer names. -/
theorem loadLatest_renamed (directory : FileDirectory) (offset : Nat) (contents : Bytes) :
    loadLatest (cleanOldCheckpoints (directory.renamed offset contents)) =
      match directory.newer offset with
      | [] => (CheckpointReader.tryLoad contents).or
          (directory.firstLoadable ((directory.older offset).take 1))
      | [name] => (directory.load name).or (CheckpointReader.tryLoad contents)
      | first :: second :: _ => directory.firstLoadable [first, second] := by
  have own := directory.load_renamed_own offset contents
  rw [loadLatest_cleanOld, checkpointNames_renamed]
  cases newerNames : directory.newer offset with
  | nil =>
    change firstLoadable _ (checkpointFilename offset :: (directory.older offset).take 1) = _
    rw [firstLoadable_cons, own]
    congr 1
    apply firstLoadable_congr
    exact fun name member => directory.load_renamed_older contents (List.mem_of_mem_take member)
  | cons first rest =>
    have firstNewer : first ∈ directory.newer offset := by simp [newerNames]
    have firstSame := directory.load_renamed_newer contents firstNewer
    cases rest with
    | nil =>
      change firstLoadable _ [first, checkpointFilename offset] = _
      rw [firstLoadable_cons, firstLoadable_cons, own, firstSame]
      exact congrArg _ Option.or_none
    | cons second rest =>
      change firstLoadable _ [first, second] = _
      apply firstLoadable_congr
      intro name member
      apply directory.load_renamed_newer contents
      rw [newerNames]
      exact List.mem_append_left rest member

/-- The new checkpoint is spared exactly when the newest file that loads afterwards
holds no smaller offset. -/
theorem loadLatest_renamed_iff (directory : FileDirectory) {offset : Nat} {contents : Bytes}
    (own : ∀ data, CheckpointReader.tryLoad contents = some data → data.offset = offset) :
    (∃ data, loadLatest (cleanOldCheckpoints (directory.renamed offset contents)) = some data ∧
      offset ≤ data.offset) ↔ directory.Spares offset contents := by
  rw [loadLatest_renamed]
  constructor
  · rintro ⟨data, loaded, later⟩
    rcases newerNames : directory.newer offset with _ | ⟨first, _ | ⟨second, rest⟩⟩
    · rw [newerNames] at loaded
      cases new : CheckpointReader.tryLoad contents with
      | some fresh =>
        exact .own fresh (by simp [newerNames]) (by simp [newerNames, firstLoadable]) new
      | none =>
        rw [new] at loaded
        exact .older data newerNames new loaded later
    · rw [newerNames] at loaded
      dsimp only at loaded
      cases older : directory.load first with
      | some stays =>
        rw [older] at loaded
        obtain rfl := Option.some.inj loaded
        exact .newer _ (by simp [newerNames, firstLoadable_cons, older]) later
      | none =>
        rw [older] at loaded
        exact .own data (by simp [newerNames])
          (by simp [newerNames, older, firstLoadable]) loaded
    · rw [newerNames] at loaded
      exact .newer data (by rw [newerNames]; exact loaded) later
  · rintro (⟨data, loads, later⟩ | ⟨data, few, corrupt, loads⟩ |
      ⟨data, none, corrupt, loads, later⟩)
    · rcases newerNames : directory.newer offset with _ | ⟨first, _ | ⟨second, rest⟩⟩
      · rw [newerNames] at loads
        cases loads
      · rw [newerNames] at loads
        have stays : directory.load first = some data := by
          simpa [firstLoadable_cons, firstLoadable] using loads
        exact ⟨data, Option.or_eq_some_iff.mpr (.inl stays), later⟩
      · rw [newerNames] at loads
        exact ⟨data, loads, later⟩
    · rcases newerNames : directory.newer offset with _ | ⟨first, _ | ⟨second, rest⟩⟩
      · exact ⟨data, by rw [loads]; rfl, (own data loads).ge⟩
      · rw [newerNames] at corrupt
        have broken : directory.load first = .none := by
          simpa [firstLoadable_cons, firstLoadable] using corrupt
        exact ⟨data, Option.or_eq_some_iff.mpr (.inr ⟨broken, loads⟩), (own data loads).ge⟩
      · simp [newerNames] at few
    · rw [none, corrupt]
      exact ⟨data, loads, later⟩

end FileDirectory

open FileDirectory in
/-- **A successful checkpoint survives its own clean-up exactly when it is spared.** -/
theorem CheckpointWriter.latest_survives_iff_spared (calls : WriteCalls)
    (directory : FileDirectory) (offset : Nat) (fits : offset < 2 ^ 64) (watermark : Timestamp)
    (state : KeyedWindowState)
    (returned : (writeCheckpoint false calls directory offset watermark state).1 = true) :
    (∃ data, loadLatest (writeCheckpoint false calls directory offset watermark state).2 =
        some data ∧ offset ≤ data.offset) ↔
      directory.Spares offset (payload offset watermark state) := by
  have after : (writeCheckpoint false calls directory offset watermark state).2 =
      cleanOldCheckpoints (directory.renamed offset (payload offset watermark state)) := by
    unfold writeCheckpoint at returned ⊢
    split_ifs at returned ⊢
    · contradiction
    · rfl
  rw [after]
  exact directory.loadLatest_renamed_iff fun _ loaded =>
    CheckpointReader.offset_of_tryLoad_payload fits loaded

open FileDirectory in
/-- One corrupt file with a larger offset leaves a place for the new checkpoint. -/
theorem CheckpointWriter.latest_survives_one_corrupt :
    ∃ data, loadLatest (writeCheckpoint false ⟨true, true, true, true, true, true⟩
      (.ofList [(checkpointFilename 2, [])]) 1 ⊥ {}).2 = some data ∧ 1 ≤ data.offset := by
  apply (latest_survives_iff_spared _ _ _ (by decide) _ _ (by decide +kernel)).mpr
  exact .own ⟨1, ⊥, [], [], []⟩ (by decide +kernel) (by decide +kernel) (by decide +kernel)

open FileDirectory in
/-- Two corrupt files with larger offsets take the two places that the clean-up keeps. -/
theorem CheckpointWriter.fresh_checkpoint_unlinked :
    (writeCheckpoint false ⟨true, true, true, true, true, true⟩
        (.ofList [(checkpointFilename 2, []), (checkpointFilename 3, [])]) 1 ⊥ {}).1 = true ∧
      loadLatest (writeCheckpoint false ⟨true, true, true, true, true, true⟩
        (.ofList [(checkpointFilename 2, []), (checkpointFilename 3, [])]) 1 ⊥ {}).2 = none := by
  decide +kernel

end Stormglass
