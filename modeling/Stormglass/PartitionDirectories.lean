import Stormglass.CheckpointDirectory
import Stormglass.CheckpointRoundTrip
import Stormglass.PartitionedPipeline

/-!
# The checkpoint directories of the partitions

The tracker of a partitioned job deletes files by the offset in their name, and a restart
looks for the highest offset that is valid in every directory. A directory holds an offset
if the file named for it loads with that offset. Writing a checkpoint of a reachable state
makes its offset held and leaves every other one held.
-/

namespace Stormglass

/-! ## Names and offsets -/

/-- The start of the name of a checkpoint file. -/
def checkpointStem : Bytes := ascii ['c', 'h', 'e', 'c', 'k', 'p', 'o', 'i', 'n', 't', '-']

def isDigit (byte : UInt8) : Bool := 48 ≤ byte.toNat ∧ byte.toNat ≤ 57

/-- The number that the decimal digits stand for. -/
def decimalValue (digits : Bytes) : Nat :=
  digits.foldl (fun value digit => 10 * value + (digit.toNat - 48)) 0

/-- `std::from_chars` for an unsigned 64-bit number that has to use the whole text. -/
def fromChars (text : Bytes) : Option Nat :=
  if text ≠ [] ∧ text.all isDigit = true ∧ decimalValue text < 2 ^ 64 then some (decimalValue text)
  else none

/-- The offset in the name of a file, as `PruneBelowLocked` reads it. -/
def prunableOffset (name : Bytes) : Option Nat :=
  if name.length ≠ checkpointStem.length + 20 + ckptSuffix.length ∨
      name.take checkpointStem.length ≠ checkpointStem ∨
      name.drop (name.length - ckptSuffix.length) ≠ ckptSuffix then none
  else fromChars ((name.drop checkpointStem.length).take 20)

theorem decimalDigits_succ (count value : Nat) :
    decimalDigits (count + 1) value =
      decimalDigits count (value / 10) ++ [(48 + value % 10).toUInt8] := by
  simp only [decimalDigits, List.range_succ_eq_map, List.reverse_cons, List.map_append,
    List.map_reverse, List.map_map]
  simp [Function.comp_def, Nat.pow_succ', Nat.div_div_eq_div_mul]

@[simp]
theorem length_decimalDigits (count value : Nat) : (decimalDigits count value).length = count := by
  simp [decimalDigits]

theorem decimalValue_append (digits : Bytes) (digit : UInt8) :
    decimalValue (digits ++ [digit]) = 10 * decimalValue digits + (digit.toNat - 48) := by
  simp [decimalValue]

theorem toNat_digit {value : Nat} (small : value < 10) :
    (48 + value).toUInt8.toNat = 48 + value := by
  change (48 + value) % 2 ^ 8 = 48 + value
  exact Nat.mod_eq_of_lt (by omega)

theorem decimalValue_decimalDigits (count value : Nat) :
    decimalValue (decimalDigits count value) = value % 10 ^ count := by
  induction count generalizing value with
  | zero => simp [decimalDigits, decimalValue, Nat.mod_one]
  | succ count inductionHypothesis =>
    have small : value % 10 < 10 := Nat.mod_lt _ (by decide)
    rw [decimalDigits_succ, decimalValue_append, inductionHypothesis, toNat_digit small,
      Nat.pow_succ', Nat.mod_mul]
    omega

theorem all_isDigit_decimalDigits (count value : Nat) :
    (decimalDigits count value).all isDigit = true := by
  induction count generalizing value with
  | zero => rfl
  | succ count inductionHypothesis =>
    have small : value % 10 < 10 := Nat.mod_lt _ (by decide)
    have digit : isDigit (48 + value % 10).toUInt8 = true := by
      simp only [isDigit, toNat_digit small, decide_eq_true_eq]
      omega
    rw [decimalDigits_succ, List.all_append, inductionHypothesis, List.all_cons, digit]
    rfl

/-- Decimal digits are those of their value. -/
theorem decimalDigits_decimalValue {digits : Bytes} (all : digits.all isDigit = true) :
    decimalDigits digits.length (decimalValue digits) = digits := by
  induction digits using List.reverseRecOn with
  | nil => rfl
  | append_singleton digits digit inductionHypothesis =>
    rw [List.all_append, Bool.and_eq_true] at all
    obtain ⟨before, last⟩ := all
    have range : 48 ≤ digit.toNat ∧ digit.toNat ≤ 57 := by
      simpa [isDigit] using last
    have quotient : (10 * decimalValue digits + (digit.toNat - 48)) / 10 = decimalValue digits := by
      omega
    have remainder : 48 + (10 * decimalValue digits + (digit.toNat - 48)) % 10 = digit.toNat := by
      omega
    rw [List.length_append, List.length_singleton, decimalDigits_succ, decimalValue_append,
      quotient, remainder, inductionHypothesis before]
    simp

theorem checkpointFilename_eq (offset : Nat) :
    checkpointFilename offset = checkpointStem ++ (decimalDigits 20 offset ++ ckptSuffix) := by
  rw [← List.append_assoc]
  rfl

/-- The tracker reads the offset of a checkpoint file off its name. -/
theorem prunableOffset_checkpointFilename {offset : Nat} (fits : offset < 2 ^ 64) :
    prunableOffset (checkpointFilename offset) = some offset := by
  have value : decimalValue (decimalDigits 20 offset) = offset := by
    rw [decimalValue_decimalDigits]
    exact Nat.mod_eq_of_lt (lt_trans fits (by decide))
  have length : (checkpointFilename offset).length =
      checkpointStem.length + 20 + ckptSuffix.length := by
    simp [checkpointFilename_eq, Nat.add_assoc]
  have ending : (checkpointFilename offset).drop
      ((checkpointFilename offset).length - ckptSuffix.length) = ckptSuffix := by
    rw [length, Nat.add_sub_cancel, checkpointFilename_eq, ← List.append_assoc]
    exact List.drop_left' (by simp)
  have digits : ((checkpointFilename offset).drop checkpointStem.length).take 20 =
      decimalDigits 20 offset := by
    rw [checkpointFilename_eq, List.drop_left]
    exact List.take_left' (by simp)
  have nonempty : decimalDigits 20 offset ≠ [] := by
    intro nothing
    have count := length_decimalDigits 20 offset
    rw [nothing] at count
    cases count
  rw [prunableOffset, if_neg, digits, fromChars, if_pos, value]
  · rw [value]
    exact ⟨nonempty, all_isDigit_decimalDigits _ _, fits⟩
  · rintro (wrong | wrong | wrong)
    · exact wrong length
    · exact wrong (by rw [checkpointFilename_eq, List.take_left])
    · exact wrong ending

/-- A name that the tracker reads an offset off is that of a checkpoint file. -/
theorem eq_checkpointFilename {name : Bytes} {offset : Nat}
    (read : prunableOffset name = some offset) : name = checkpointFilename offset := by
  rw [prunableOffset] at read
  split_ifs at read with shape
  push Not at shape
  obtain ⟨length, stem, ending⟩ := shape
  rw [fromChars] at read
  split_ifs at read with number
  have middle : ((name.drop checkpointStem.length).take 20).length = 20 := by
    rw [List.length_take, List.length_drop, length]
    omega
  have digits := decimalDigits_decimalValue number.2.1
  rw [middle, Option.some.inj read] at digits
  rw [checkpointFilename_eq, digits, ← ending]
  calc name = name.take checkpointStem.length ++ name.drop checkpointStem.length :=
        (List.take_append_drop _ _).symm
    _ = checkpointStem ++ ((name.drop checkpointStem.length).take 20 ++
          (name.drop checkpointStem.length).drop 20) := by rw [stem, List.take_append_drop]
    _ = _ := by
      rw [List.drop_drop, length, Nat.add_sub_cancel]

/-! ## Directories -/

namespace FileDirectory

/-- The file of the offset is there and valid. -/
def Holds (directory : FileDirectory) (offset : Nat) : Prop :=
  ∃ data, directory.load (checkpointFilename offset) = some data ∧ data.offset = offset

/-- `ValidOffsets` -/
def validOffsets (directory : FileDirectory) : List Nat :=
  (directory.keys.filter (hasSuffix ckptSuffix)).filterMap fun name =>
    (directory.load name).map CheckpointData.offset

variable {directory : FileDirectory} {offset : Nat}

theorem mem_validOffsets (holds : directory.Holds offset) : offset ∈ directory.validOffsets := by
  obtain ⟨data, loaded, same⟩ := holds
  have present : checkpointFilename offset ∈ directory := by
    rw [Std.ExtTreeMap.mem_iff_isSome_getElem?]
    cases found : directory[checkpointFilename offset]? with
    | none =>
      rw [load, found] at loaded
      cases loaded
    | some bytes => rfl
  rw [validOffsets, List.mem_filterMap]
  refine ⟨checkpointFilename offset, ?_, by rw [loaded, Option.map_some, same]⟩
  rw [List.mem_filter, Std.ExtTreeMap.mem_keys]
  exact ⟨present, checkpointFilename_ckpt offset⟩

theorem Holds.fits (holds : directory.Holds offset) :
    offset < 2 ^ 64 := by
  obtain ⟨data, loaded, rfl⟩ := holds
  obtain ⟨bytes, -, parsed⟩ := Option.bind_eq_some_iff.mp loaded
  obtain ⟨_, grammatical, _⟩ :=
    CheckpointReader.parse_sound (CheckpointReader.tryLoad_eq_some.mp parsed)
  exact grammatical.offset

/-- Deleting another file leaves the offset held. -/
theorem Holds.erase (holds : directory.Holds offset) {name : Bytes}
    (other : name ≠ checkpointFilename offset) :
    Holds (Std.ExtTreeMap.erase directory name) offset := by
  obtain ⟨data, loaded, same⟩ := holds
  refine ⟨data, ?_, same⟩
  rw [← loaded, load, load, Std.ExtTreeMap.getElem?_erase, if_neg]
  simpa using other

theorem holds_renamed (directory : FileDirectory) {contents : Bytes} {data : CheckpointData}
    (loads : CheckpointReader.tryLoad contents = some data) (same : data.offset = offset) :
    (directory.renamed offset contents).Holds offset :=
  ⟨data, (directory.load_renamed_own offset contents).trans loads, same⟩

/-- A new valid file leaves every offset held. -/
theorem Holds.renamed (holds : directory.Holds offset) {other : Nat} (fits : other < 2 ^ 64)
    {contents : Bytes} {data : CheckpointData}
    (loads : CheckpointReader.tryLoad contents = some data) (same : data.offset = other) :
    (directory.renamed other contents).Holds offset := by
  by_cases name : checkpointFilename offset = checkpointFilename other
  · have equal := congrArg prunableOffset name
    rw [prunableOffset_checkpointFilename holds.fits, prunableOffset_checkpointFilename fits]
      at equal
    rw [Option.some.inj equal]
    exact directory.holds_renamed loads same
  · obtain ⟨file, loaded, sameFile⟩ := holds
    exact ⟨file, (directory.load_renamed_other contents (checkpointFilename_ckpt offset) name).trans
      loaded, sameFile⟩

/-- A writer that retains all files fails before the rename or puts the new file in
place. -/
theorem writeCheckpoint_retainAll (calls : WriteCalls) (directory : FileDirectory) (offset : Nat)
    (watermark : Timestamp) (state : KeyedWindowState) :
    let result := CheckpointWriter.writeCheckpoint true calls directory offset watermark state
    result.1 = false ∧ (result.2 = directory ∨
        result.2 = Std.ExtTreeMap.erase directory (tmpFilename offset)) ∨
      result.2 = directory.renamed offset (CheckpointWriter.payload offset watermark state) := by
  dsimp only [CheckpointWriter.writeCheckpoint]
  split_ifs with _ _ _ _ _ _ all
  · exact .inl ⟨rfl, .inl rfl⟩
  · exact .inl ⟨rfl, .inr rfl⟩
  · exact .inl ⟨rfl, .inr rfl⟩
  · exact .inl ⟨rfl, .inr rfl⟩
  · exact .inr rfl
  · exact .inr rfl
  · exact .inr rfl
  · exact absurd rfl all

/-- Writing a checkpoint leaves every offset held, and the new one if it succeeds. -/
theorem holds_writeCheckpoint {assigner : WindowAssigner} {lateness : Nat}
    {processor : KeyedProcessor} (reachable : KeyedProcessor.Reachable assigner lateness processor)
    (storable : KeyedProcessor.Storable processor.state) {written offset : Nat}
    (fits : written < 2 ^ 64) (calls : WriteCalls)
    (held : directory.Holds offset ∨ offset = written ∧
      (CheckpointWriter.writeCheckpoint true calls directory written processor.watermark
        processor.state).1 = true) :
    (CheckpointWriter.writeCheckpoint true calls directory written processor.watermark
      processor.state).2.Holds offset := by
  have loads := KeyedProcessor.tryLoad_payload reachable storable fits processor.state.sorted
  have notTmp : tmpFilename written ≠ checkpointFilename offset := by
    intro same
    have ckpt := checkpointFilename_ckpt offset
    rw [← same, tmpFilename_not_ckpt] at ckpt
    cases ckpt
  rcases writeCheckpoint_retainAll calls directory written processor.watermark processor.state with
    ⟨failed, same | same⟩ | same
  · rw [same]
    exact held.resolve_right fun success => by simp [failed] at success
  · rw [same]
    exact (held.resolve_right fun success => by simp [failed] at success).erase notTmp
  · rw [same]
    rcases held with held | ⟨rfl, -⟩
    · exact held.renamed fits loads rfl
    · exact directory.holds_renamed loads rfl

end FileDirectory

/-- `HighestCompleteCheckpoint`: the offsets of the first partition, narrowed down to
those of every other one. -/
def highestCompleteCheckpoint {n : Nat} (directories : Fin n → FileDirectory) : Option Nat :=
  match (List.finRange n).map fun partition => (directories partition).validOffsets with
  | [] => none
  | first :: rest =>
      (rest.foldl (fun common present => common.filter (· ∈ present)) first).max?

theorem mem_foldl_filter {offset : Nat} {rest : List (List Nat)} {first : List Nat} :
    offset ∈ rest.foldl (fun common present => common.filter (· ∈ present)) first ↔
      ∀ present ∈ first :: rest, offset ∈ present := by
  induction rest generalizing first with
  | nil => simp
  | cons next rest inductionHypothesis =>
    rw [List.foldl_cons, inductionHypothesis]
    simp [and_assoc]

/-- The highest complete checkpoint is the largest of the offsets that all partitions list. -/
theorem highestCompleteCheckpoint_eq {n : Nat} [NeZero n] {directories : Fin n → FileDirectory}
    {common : List Nat} (lists : ∀ offset,
      offset ∈ common ↔ ∀ partition, offset ∈ (directories partition).validOffsets) :
    highestCompleteCheckpoint directories = common.max? := by
  unfold highestCompleteCheckpoint
  cases all : (List.finRange n).map (fun partition => (directories partition).validOffsets) with
  | nil =>
    have partitions : n = 0 := by simpa using all
    exact absurd partitions (NeZero.ne n)
  | cons first rest =>
    have same (offset : Nat) : offset ∈ rest.foldl (fun common present => common.filter
        (· ∈ present)) first ↔ offset ∈ common := by
      rw [mem_foldl_filter, ← all, lists, List.forall_mem_map]
      simp
    ext highest
    simp only [List.max?_eq_some_iff, same]

/-- `HighestCompleteCheckpoint` over the files is that of the partitioned pipeline, which keeps the
valid files by their offsets. -/
theorem highestCompleteCheckpoint_eq_highestComplete {n : Nat} [NeZero n]
    {files : Fin n → FileDirectory} {directories : Fin n → Directory}
    (lists : ∀ partition offset,
      offset ∈ directories partition ↔ offset ∈ (files partition).validOffsets) :
    highestCompleteCheckpoint files = highestComplete directories := by
  apply highestCompleteCheckpoint_eq
  intro offset
  rw [List.mem_filter, Std.ExtTreeMap.mem_keys, decide_eq_true_eq]
  simp only [lists]
  exact ⟨And.right, fun all => ⟨all 0, all⟩⟩

/-- An offset that every partition holds bounds the highest complete one from below. -/
theorem le_highestCompleteCheckpoint {n : Nat} [NeZero n] {directories : Fin n → FileDirectory}
    {offset : Nat} (held : ∀ partition, (directories partition).Holds offset) :
    ∃ highest, highestCompleteCheckpoint directories = some highest ∧ offset ≤ highest := by
  let common := (directories 0).validOffsets.filter fun offset =>
    ∀ partition, offset ∈ (directories partition).validOffsets
  have lists (offset : Nat) :
      offset ∈ common ↔ ∀ partition, offset ∈ (directories partition).validOffsets := by
    rw [List.mem_filter, decide_eq_true_eq]
    exact ⟨And.right, fun all => ⟨all 0, all⟩⟩
  have member : offset ∈ common :=
    (lists offset).mpr fun partition => FileDirectory.mem_validOffsets (held partition)
  obtain ⟨highest, found⟩ := Option.isSome_iff_exists.mp (List.isSome_max?_of_mem member)
  exact ⟨highest, (highestCompleteCheckpoint_eq lists).trans found,
    (List.max?_eq_some_iff.mp found).2 offset member⟩

end Stormglass
