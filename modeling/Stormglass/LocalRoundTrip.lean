import Stormglass.SnapshotReads

/-!
# Local snapshots survive their file

`EncodeLocal` cuts counts and lengths to 32 bits without a check, except for the length of
a blob, and `DecodeLocal` refuses a count that the remaining bytes cannot hold. The limit
on the sealed file is what makes the two agree: an entry of a map takes twelve bytes and a
channel record at least sixteen, so every count of a file below the limit has 32 bits and
enough bytes behind it.
-/

namespace Stormglass.Snapshot

open LittleEndian

/-- The numbers of a map are unsigned 64-bit integers. -/
def Typed (counters : Counters) : Prop :=
  ∀ (peer : NodeId) (number : Nat), counters[peer]? = some number → number < 2 ^ 64

/-- The numbers of a snapshot are in the ranges of their types. -/
structure LocalSnapshot.Typed (snapshot : LocalSnapshot) : Prop where
  epoch : snapshot.epoch < 2 ^ 64
  received : Snapshot.Typed snapshot.received
  sent : Snapshot.Typed snapshot.sent
  markerSequences : Snapshot.Typed snapshot.markerSequences
  channels : ∀ saved ∈ snapshot.channels, saved.sequence < 2 ^ 64

/-- The blobs of a snapshot: its state and the payloads of its channel records. -/
def LocalSnapshot.blobs (snapshot : LocalSnapshot) : List Bytes :=
  snapshot.state :: snapshot.channels.map ChannelRecord.payload

/-- A channel record in the file. -/
def recordLayout (saved : ChannelRecord) : Bytes :=
  encode 4 saved.peer.toNat ++ (encode 8 saved.sequence ++
    (encode 4 saved.payload.length ++ saved.payload))

/-- Everything before the checksum. -/
def LocalSnapshot.layout (snapshot : LocalSnapshot) : Bytes :=
  encode 4 localMagic ++ (encode 4 snapshot.node.toNat ++ (encode 8 snapshot.epoch ++
    (encode 4 snapshot.state.length ++ snapshot.state ++ (encodeCounters snapshot.received ++
    (encodeCounters snapshot.sent ++ (encodeCounters snapshot.markerSequences ++
    (encode 4 snapshot.channels.length ++ snapshot.channels.flatMap recordLayout)))))))

/-! ## Writing -/

theorem Encoder.blob_error {bytes : Bytes} (long : 2 ^ 32 - 1 < bytes.length) :
    Encoder.blob bytes = .error "encoded blob too large" := by
  rw [Encoder.blob, require, if_neg (not_not.mpr long)]
  rfl

variable {snapshot : LocalSnapshot} {channels : List ChannelRecord}

theorem encodeRecords_eq (short : ∀ saved ∈ channels, saved.payload.length < 2 ^ 32) :
    encodeRecords channels = .ok (channels.flatMap recordLayout) := by
  induction channels with
  | nil => rfl
  | cons saved rest inductionHypothesis =>
    have own := Encoder.blob_eq_ok.mpr ⟨short saved List.mem_cons_self, rfl⟩
    rw [encodeRecords, own,
      inductionHypothesis fun other member => short other (List.mem_cons_of_mem _ member)]
    simp [recordLayout, pure, Except.pure, bind, Except.bind]

theorem encodeRecords_error {saved : ChannelRecord} (member : saved ∈ channels)
    (long : 2 ^ 32 - 1 < saved.payload.length) :
    encodeRecords channels = .error "encoded blob too large" := by
  induction channels with
  | nil => cases member
  | cons first rest inductionHypothesis =>
    rw [encodeRecords]
    by_cases own : 2 ^ 32 - 1 < first.payload.length
    · rw [Encoder.blob_error own]
      rfl
    · have later : saved ∈ rest := by
        rcases List.mem_cons.mp member with rfl | later
        · exact absurd long own
        · exact later
      rw [Encoder.blob_eq_ok.mpr ⟨by omega, rfl⟩, inductionHypothesis later]
      rfl

/-- Without a blob that is too long, the file is sealed around the layout. -/
theorem encodeLocal_eq (short : ∀ blob ∈ snapshot.blobs, blob.length < 2 ^ 32) :
    encodeLocal snapshot = sealFile snapshot.layout := by
  have state := Encoder.blob_eq_ok.mpr ⟨short snapshot.state List.mem_cons_self, rfl⟩
  have channels := encodeRecords_eq fun saved member =>
    short saved.payload (List.mem_cons_of_mem _ (List.mem_map_of_mem member))
  rw [encodeLocal, state, channels]
  simp only [bind, Except.bind, LocalSnapshot.layout, List.append_assoc]

theorem encodeLocal_error {blob : Bytes} (member : blob ∈ snapshot.blobs)
    (long : 2 ^ 32 - 1 < blob.length) :
    encodeLocal snapshot = .error "encoded blob too large" := by
  rw [encodeLocal]
  by_cases own : 2 ^ 32 - 1 < snapshot.state.length
  · rw [Encoder.blob_error own]
    rfl
  · rcases List.mem_cons.mp member with rfl | later
    · exact absurd long own
    · obtain ⟨saved, listed, rfl⟩ := List.mem_map.mp later
      rw [Encoder.blob_eq_ok.mpr ⟨by omega, rfl⟩, encodeRecords_error listed long]
      rfl

/-! ## Reading -/

/-- Entries with fresh, distinct peers are read into the map in the order in which they
were written. -/
theorem decodeEntries_run {entries : List (NodeId × Nat)}
    (typed : ∀ entry ∈ entries, entry.2 < 2 ^ 64) (distinct : (entries.map Prod.fst).Nodup)
    {counters : Counters} (absent : ∀ entry ∈ entries, entry.1 ∉ counters) (rest : Bytes) :
    (decodeEntries entries.length counters).run
      ((entries.flatMap fun entry => encode 4 entry.1.toNat ++ encode 8 entry.2) ++ rest) =
      .ok (counters.insertMany entries, rest) := by
  induction entries generalizing counters with
  | nil =>
    rw [Std.ExtTreeMap.insertMany_nil]
    rfl
  | cons entry entries inductionHypothesis =>
    obtain ⟨fresh, others⟩ := List.nodup_cons.mp distinct
    have later := inductionHypothesis
      (fun other member => typed other (List.mem_cons_of_mem _ member)) others
      (absent_insert fresh absent)
    have peer : entry.1.toNat.toUInt32 = entry.1 := UInt32.ofNat_toNat
    rw [List.flatMap_cons, List.append_assoc, List.append_assoc, List.length_cons, decodeEntries,
      Decoder.bind_run (Decoder.u32_run entry.1.toNat_lt _),
      Decoder.bind_run (Decoder.u64_run (typed entry List.mem_cons_self) _), peer,
      Decoder.require_bind_run (absent entry List.mem_cons_self),
      Std.ExtTreeMap.insertMany_cons]
    exact later

theorem length_encodeCounters (counters : Counters) :
    (encodeCounters counters).length = 4 + 12 * counters.size := by
  rw [encodeCounters, List.length_append, length_encode, List.length_flatMap]
  simp only [List.length_append, length_encode, List.map_const', List.sum_replicate, smul_eq_mul]
  rw [Std.ExtTreeMap.length_toList, Nat.mul_comm]

/-- A map with a 32-bit size is read back. -/
theorem decodeCounters_run {counters : Counters} (typed : Typed counters)
    (few : counters.size < 2 ^ 32) (rest : Bytes) :
    decodeCounters.run (encodeCounters counters ++ rest) = .ok (counters, rest) := by
  have keys : (counters.toList.map Prod.fst).Nodup := by
    rw [Std.ExtTreeMap.map_fst_toList_eq_keys]
    exact Std.ExtTreeMap.nodup_keys
  have ran := decodeEntries_run (fun entry member => typed entry.1 entry.2
    (Std.ExtTreeMap.mem_toList_iff_getElem?_eq_some.mp member)) keys
    (fun entry _ => Std.ExtTreeMap.not_mem_empty) rest
  have room := length_encodeCounters counters
  rw [insertMany_toList, Std.ExtTreeMap.length_toList] at ran
  rw [encodeCounters, List.length_append, length_encode] at room
  rw [decodeCounters, encodeCounters, List.append_assoc,
    Decoder.bind_run (Decoder.count_run few (count_fits (by decide) (by omega) rest)), ran]

theorem decodeRecords_run (typed : ∀ saved ∈ channels, saved.sequence < 2 ^ 64)
    (short : ∀ saved ∈ channels, saved.payload.length < 2 ^ 32) (rest : Bytes) :
    (decodeRecords channels.length).run (channels.flatMap recordLayout ++ rest) =
      .ok (channels, rest) := by
  induction channels with
  | nil => rfl
  | cons saved channels inductionHypothesis =>
    have later := inductionHypothesis
      (fun other member => typed other (List.mem_cons_of_mem _ member))
      (fun other member => short other (List.mem_cons_of_mem _ member))
    have payload := Encoder.blob_eq_ok.mpr ⟨short saved List.mem_cons_self, rfl⟩
    have peer : saved.peer.toNat.toUInt32 = saved.peer := UInt32.ofNat_toNat
    rw [List.flatMap_cons, recordLayout, List.append_assoc, List.append_assoc, List.append_assoc,
      List.length_cons, decodeRecords, Decoder.bind_run (Decoder.u32_run saved.peer.toNat_lt _),
      Decoder.bind_run (Decoder.u64_run (typed saved List.mem_cons_self) _),
      Decoder.bind_run (Decoder.blob_run payload _), Decoder.bind_run later, peer]
    rfl

theorem length_records (channels : List ChannelRecord) :
    16 * channels.length ≤ (channels.flatMap recordLayout).length := by
  induction channels with
  | nil => simp
  | cons saved channels inductionHypothesis =>
    rw [List.flatMap_cons, List.length_cons, List.length_append]
    simp only [recordLayout, List.length_append, length_encode]
    omega

/-- A layout below the size limit is read back. -/
theorem readLocal_layout (typed : snapshot.Typed) (positive : 0 < snapshot.epoch)
    (short : ∀ blob ∈ snapshot.blobs, blob.length < 2 ^ 32)
    (small : snapshot.layout.length ≤ fileLimit) :
    readLocal.run snapshot.layout = .ok (snapshot, []) := by
  have state := Encoder.blob_eq_ok.mpr ⟨short snapshot.state List.mem_cons_self, rfl⟩
  have many := length_records snapshot.channels
  simp only [LocalSnapshot.layout, List.length_append, length_encode, length_encodeCounters,
    fileLimit] at small
  have node : snapshot.node.toNat.toUInt32 = snapshot.node := UInt32.ofNat_toNat
  have records := decodeRecords_run typed.channels (fun saved member =>
    short saved.payload (List.mem_cons_of_mem _ (List.mem_map_of_mem member))) []
  have room := count_fits (by decide : 0 < 16) many []
  rw [List.append_nil] at records room
  have magic : localMagic < 2 ^ 32 := by decide
  rw [LocalSnapshot.layout, readLocal, Decoder.bind_run (Decoder.u32_run magic _),
    Decoder.require_bind_run rfl, Decoder.bind_run (Decoder.u32_run snapshot.node.toNat_lt _),
    Decoder.bind_run (Decoder.u64_run typed.epoch _),
    Decoder.require_bind_run (Nat.ne_of_gt positive), Decoder.bind_run (Decoder.blob_run state _),
    Decoder.bind_run (decodeCounters_run typed.received (by omega) _),
    Decoder.bind_run (decodeCounters_run typed.sent (by omega) _),
    Decoder.bind_run (decodeCounters_run typed.markerSequences (by omega) _),
    Decoder.bind_run (Decoder.count_run (by omega) room), Decoder.bind_run records,
    Decoder.bind_run Decoder.finish_run, node]
  rfl

/-- A file that is written is read back. -/
theorem decodeLocal_sealed (typed : snapshot.Typed) (positive : 0 < snapshot.epoch)
    (short : ∀ blob ∈ snapshot.blobs, blob.length < 2 ^ 32) {bytes : Bytes}
    (sealed : sealFile snapshot.layout = .ok bytes) :
    decodeLocal bytes = .ok snapshot := by
  obtain ⟨rfl, limit⟩ := sealFile_ok.mp sealed
  have small : snapshot.layout.length ≤ fileLimit := by
    rw [List.length_append] at limit
    omega
  rw [decodeLocal, bind_ok]
  refine ⟨snapshot.layout, openFile_sealed sealed, ?_⟩
  rw [bind_ok]
  exact ⟨(snapshot, []), readLocal_layout typed positive short small, rfl⟩

/-- **Local snapshots survive their file, and no file is read beyond its bytes.** Writing a
snapshot of a positive epoch throws because a blob is too long or the sealed file too
large, or else reading the file returns the snapshot. Reading any bytes by position either
throws or returns, and never looks outside them. -/
theorem local_snapshot_round_trip :
    (∀ snapshot : LocalSnapshot, snapshot.Typed → 0 < snapshot.epoch →
      (encodeLocal snapshot = .error "encoded blob too large" ∧
        ∃ blob ∈ snapshot.blobs, 2 ^ 32 - 1 < blob.length) ∨
      (encodeLocal snapshot = .error "snapshot file exceeds limit" ∧
        fileLimit < (snapshot.layout ++ encode 4 (crc32c snapshot.layout).toNat).length) ∨
      ∃ bytes, encodeLocal snapshot = .ok bytes ∧ decodeLocalAt bytes = .ok snapshot) ∧
    ∀ bytes : Bytes, decodeLocalAt bytes = (decodeLocal bytes).mapError .thrown ∧
      ((∃ message, decodeLocalAt bytes = .error (.thrown message)) ∨
        ∃ snapshot, decodeLocalAt bytes = .ok snapshot) := by
  constructor
  · intro snapshot typed positive
    by_cases long : ∃ blob ∈ snapshot.blobs, 2 ^ 32 - 1 < blob.length
    · obtain ⟨blob, member, excess⟩ := long
      exact .inl ⟨encodeLocal_error member excess, blob, member, excess⟩
    · have short : ∀ blob ∈ snapshot.blobs, blob.length < 2 ^ 32 := by
        intro blob member
        by_contra excess
        exact long ⟨blob, member, by omega⟩
      rw [encodeLocal_eq short]
      by_cases large :
          fileLimit < (snapshot.layout ++ encode 4 (crc32c snapshot.layout).toNat).length
      · refine .inr (.inl ⟨?_, large⟩)
        rw [sealFile, require, if_neg (not_not.mpr large)]
        rfl
      · have sealed := sealFile_ok.mpr ⟨rfl, not_lt.mp large⟩
        refine .inr (.inr ⟨_, sealed, ?_⟩)
        rw [decodeLocalAt_eq, decodeLocal_sealed typed positive short sealed]
        rfl
  · intro bytes
    refine ⟨decodeLocalAt_eq bytes, ?_⟩
    rw [decodeLocalAt_eq]
    cases decodeLocal bytes with
    | error message => exact .inl ⟨message, rfl⟩
    | ok snapshot => exact .inr ⟨snapshot, rfl⟩

theorem typed_of_all {counters : Counters}
    (all : counters.toList.all (fun entry => entry.2 < 2 ^ 64) = true) : Typed counters := by
  intro peer number found
  have member : (peer, number) ∈ counters.toList :=
    Std.ExtTreeMap.mem_toList_iff_getElem?_eq_some.mpr found
  simpa using List.all_eq_true.mp all _ member

/-- A snapshot with a message in its channel. -/
def sampleSnapshot : LocalSnapshot where
  node := 1
  epoch := 3
  state := [5, 6]
  received := (∅ : Counters).insert 2 4
  sent := (∅ : Counters).insert 2 7
  markerSequences := (∅ : Counters).insert 2 5
  channels := [{ peer := 2, sequence := 5, payload := [9] }]

theorem sampleSnapshot_survives : ∃ bytes, encodeLocal sampleSnapshot = .ok bytes ∧
    decodeLocalAt bytes = .ok sampleSnapshot := by
  have typed : sampleSnapshot.Typed :=
    ⟨by decide, typed_of_all (by decide +kernel), typed_of_all (by decide +kernel),
      typed_of_all (by decide +kernel), by decide⟩
  rcases local_snapshot_round_trip.1 sampleSnapshot typed (by decide) with
    ⟨-, blob, member, long⟩ | ⟨-, large⟩ | survives
  · exact absurd long ((by decide : ∀ blob ∈ sampleSnapshot.blobs, ¬ 2 ^ 32 - 1 < blob.length)
      blob member)
  · exact absurd large (by decide +kernel)
  · exact survives

end Stormglass.Snapshot
