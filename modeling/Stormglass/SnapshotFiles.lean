import Stormglass.Crc32c
import Stormglass.SnapshotCodec
import Stormglass.Source

/-!
# The files of the snapshot store

A local file holds the snapshot of one node, and a manifest names the epoch, the
configuration, the topology and the checksums of the local files. Both end in a checksum
and stay below a size limit.

The loader trusts a manifest only if it is byte for byte the one it would write itself, so
the result of this module is that a manifest determines its configuration and its topology.
-/

namespace Stormglass.Snapshot

open LittleEndian

/-- `kLimit` -/
def fileLimit : Nat := 64 * 1024 * 1024

/-- `Seal` -/
def sealFile (bytes : Bytes) : Except String Bytes := do
  let sealed := bytes ++ encode 4 (crc32c bytes).toNat
  require (¬ sealed.length > fileLimit) "snapshot file exceeds limit"
  pure sealed

/-- `Open`: the bytes before the checksum. -/
def openFile (bytes : Bytes) : Except String Bytes := do
  let front := bytes.take (bytes.length - 4)
  require (¬ (bytes.length < 4 ∨ bytes.length > fileLimit)) "invalid snapshot file size"
  require ((crc32c front).toNat = decode (bytes.drop (bytes.length - 4)))
    "snapshot file CRC mismatch"
  pure front

/-- `Map(Encoder &, …)` -/
def encodeCounters (counters : Counters) : Bytes :=
  encode 4 counters.size ++
    counters.toList.flatMap fun entry => encode 4 entry.1.toNat ++ encode 8 entry.2

/-- The loop of `Map(Decoder &)`. -/
def decodeEntries : Nat → Counters → Decoder Counters
  | 0, counters => pure counters
  | count + 1, counters => do
      let peer ← Decoder.u32
      let number ← Decoder.u64
      require (peer.toUInt32 ∉ counters) "duplicate serialized peer"
      decodeEntries count (counters.insert peer.toUInt32 number)

/-- `Map(Decoder &)` -/
def decodeCounters : Decoder Counters := do
  decodeEntries (← Decoder.count 12) ∅

/-- The channel records of a local file. -/
def encodeRecords : List ChannelRecord → Except String Bytes
  | [] => .ok []
  | saved :: rest => do
      let payload ← Encoder.blob saved.payload
      let later ← encodeRecords rest
      pure (encode 4 saved.peer.toNat ++ encode 8 saved.sequence ++ payload ++ later)

def decodeRecords : Nat → Decoder (List ChannelRecord)
  | 0 => pure []
  | count + 1 => do
      let peer ← Decoder.u32
      let sequence ← Decoder.u64
      let payload ← Decoder.blob
      let rest ← decodeRecords count
      pure ({ peer := peer.toUInt32, sequence := sequence, payload := payload } :: rest)

def localMagic : Nat := 0x53474c31

/-- `Store::EncodeLocal` -/
def encodeLocal (snapshot : LocalSnapshot) : Except String Bytes := do
  let state ← Encoder.blob snapshot.state
  let channels ← encodeRecords snapshot.channels
  sealFile (encode 4 localMagic ++ encode 4 snapshot.node.toNat ++ encode 8 snapshot.epoch ++
    state ++
    encodeCounters snapshot.received ++ encodeCounters snapshot.sent ++
    encodeCounters snapshot.markerSequences ++ encode 4 snapshot.channels.length ++ channels)

/-- The reads of `DecodeLocal` behind the checksum. -/
def readLocal : Decoder LocalSnapshot := do
  let magic ← Decoder.u32
  require (magic = localMagic) "snapshot format mismatch"
  let node ← Decoder.u32
  let epoch ← Decoder.u64
  require (epoch ≠ 0) "zero local epoch"
  let state ← Decoder.blob
  let received ← decodeCounters
  let sent ← decodeCounters
  let markerSequences ← decodeCounters
  let channels ← decodeRecords (← Decoder.count 16)
  Decoder.finish
  pure { node := node.toUInt32, epoch, state, received, sent, markerSequences, channels }

/-- `Store::DecodeLocal` -/
def decodeLocal (bytes : Bytes) : Except String LocalSnapshot := do
  let front ← openFile bytes
  return (← readLocal.run front).1

/-- The exception behind a message of code that calls `std::map::at`: that one throws a
`std::out_of_range`, and everything else is a `std::runtime_error`. -/
def exception (message : String) : Failure :=
  if message = "map::at" then .outOfRange message else .runtimeError message

/-- A check that throws a `std::runtime_error`. -/
def demand (condition : Prop) [Decidable condition] (message : String) : Except Failure Unit :=
  (require condition message : Except String Unit).mapError .runtimeError

/-- The checksums of the local files. -/
abbrev Checksums := Std.ExtTreeMap NodeId UInt32

/-- One node of a manifest. -/
def manifestNode (node : NodeId) (peers : List NodeId) (checksum : UInt32) : Bytes :=
  encode 4 node.toNat ++ (encode 4 peers.length ++
    (peers.flatMap (fun peer => encode 4 peer.toNat) ++ encode 4 checksum.toNat))

/-- The loop of `Manifest` over the topology. -/
def manifestNodes (checksums : Checksums) : List (NodeId × List NodeId) → Except String Bytes
  | [] => .ok []
  | (node, peers) :: rest => do
      let checksum ← lookup checksums node
      let later ← manifestNodes checksums rest
      pure (manifestNode node peers checksum ++ later)

def manifestMagic : Nat := 0x53474d31

/-- `Manifest` -/
def manifest (epoch : Nat) (topology : Topology) (configuration : Bytes) (checksums : Checksums) :
    Except String Bytes := do
  require (¬ (configuration = [] ∨ topology.isEmpty = true ∨ topology.size > 1024))
    "invalid global snapshot config/topology"
  let blob ← Encoder.blob configuration
  let nodes ← manifestNodes checksums topology.toList
  sealFile (encode 4 manifestMagic ++
    (encode 8 epoch ++ (blob ++ (encode 4 topology.size ++ nodes))))

/-! ## Results of the steps -/

section Results

variable {ε α β : Type}

theorem bind_ok {first : Except ε α} {next : α → Except ε β} {value : β} :
    (first >>= next) = .ok value ↔ ∃ middle, first = .ok middle ∧ next middle = .ok value := by
  cases first with
  | error message =>
    constructor
    · rintro ⟨⟩
    · rintro ⟨_, ⟨⟩, _⟩
  | ok middle =>
    constructor
    · intro result
      exact ⟨middle, rfl, result⟩
    · rintro ⟨_, ⟨⟩, result⟩
      exact result

theorem require_ok {condition : Prop} [Decidable condition] {message : String} {value : Unit} :
    (require condition message : Except String Unit) = .ok value ↔ condition := by
  rw [require]
  split
  · next holds => exact ⟨fun _ => holds, fun _ => rfl⟩
  · next fails =>
    constructor
    · rintro ⟨⟩
    · exact fun holds => absurd holds fails

theorem lookup_ok {map : Std.ExtTreeMap NodeId α} {key : NodeId} {value : α} :
    (lookup map key : Except String α) = .ok value ↔ map[key]? = some value := by
  rw [lookup]
  cases map[key]? with
  | none => exact ⟨(fun failed => nomatch failed), (fun none => nomatch none)⟩
  | some found =>
    change Except.ok found = Except.ok value ↔ some found = some value
    rw [Except.ok.injEq, Option.some.injEq]

theorem mapError_ok {convert : String → ε} {result : Except String α} {value : α} :
    result.mapError convert = .ok value ↔ result = .ok value := by
  cases result with
  | ok found =>
    change Except.ok found = _ ↔ _
    rw [Except.ok.injEq, Except.ok.injEq]
  | error message => exact ⟨(fun failed => nomatch failed), (fun failed => nomatch failed)⟩

theorem demand_ok {condition : Prop} [Decidable condition] {message : String} {value : Unit} :
    demand condition message = .ok value ↔ condition := by
  rw [demand, mapError_ok, require_ok]

end Results

theorem sealFile_ok {bytes sealed : Bytes} :
    sealFile bytes = .ok sealed ↔
      sealed = bytes ++ encode 4 (crc32c bytes).toNat ∧ sealed.length ≤ fileLimit := by
  rw [sealFile, bind_ok]
  constructor
  · rintro ⟨_, small, ⟨⟩⟩
    exact ⟨rfl, not_lt.mp (require_ok.mp small)⟩
  · rintro ⟨rfl, small⟩
    exact ⟨(), require_ok.mpr (not_lt.mpr small), rfl⟩

/-- A sealed file opens. -/
theorem openFile_sealed {bytes sealed : Bytes} (file : sealFile bytes = .ok sealed) :
    openFile sealed = .ok bytes := by
  obtain ⟨rfl, small⟩ := sealFile_ok.mp file
  have length : (bytes ++ encode 4 (crc32c bytes).toNat).length - 4 = bytes.length := by simp
  have front : (bytes ++ encode 4 (crc32c bytes).toNat).take
      ((bytes ++ encode 4 (crc32c bytes).toNat).length - 4) = bytes := by
    rw [length, List.take_left]
  have tail : decode ((bytes ++ encode 4 (crc32c bytes).toNat).drop
      ((bytes ++ encode 4 (crc32c bytes).toNat).length - 4)) = (crc32c bytes).toNat := by
    rw [length, List.drop_left]
    exact decode_encode_of_lt (crc32c bytes).toNat_lt
  rw [openFile, bind_ok]
  refine ⟨(), require_ok.mpr ?_, ?_⟩
  · rintro (short | long)
    · simp at short
    · exact absurd long (not_lt.mpr small)
  · rw [bind_ok]
    refine ⟨(), require_ok.mpr ?_, by rw [front]; rfl⟩
    rw [front, tail]

/-! ## A manifest determines what it names -/

/-- Numbers of a fixed width are read off the front of a text. -/
theorem encode_append_inj {width left right : Nat} {first second : Bytes}
    (leftFits : left < 256 ^ width) (rightFits : right < 256 ^ width)
    (same : encode width left ++ first = encode width right ++ second) :
    left = right ∧ first = second := by
  obtain ⟨numbers, rest⟩ := List.append_inj same (by rw [length_encode, length_encode])
  refine ⟨?_, rest⟩
  rw [← decode_encode_of_lt leftFits, numbers, decode_encode_of_lt rightFits]

theorem flatMap_encode_inj {left right : List NodeId} {first second : Bytes}
    (length : left.length = right.length)
    (same : left.flatMap (fun peer => encode 4 peer.toNat) ++ first =
      right.flatMap (fun peer => encode 4 peer.toNat) ++ second) :
    left = right ∧ first = second := by
  induction left generalizing right with
  | nil =>
    cases right with
    | nil => exact ⟨rfl, same⟩
    | cons => simp at length
  | cons peer left inductionHypothesis =>
    cases right with
    | nil => simp at length
    | cons other right =>
      rw [List.flatMap_cons, List.flatMap_cons, List.append_assoc, List.append_assoc] at same
      obtain ⟨heads, tails⟩ := encode_append_inj peer.toNat_lt other.toNat_lt same
      obtain ⟨rest, later⟩ := inductionHypothesis (Nat.succ.inj length) tails
      exact ⟨by rw [UInt32.toNat_inj.mp heads, rest], later⟩

/-- Below the size limit, the nodes of a manifest are read off its bytes. -/
theorem manifestNodes_inj {left right : List (NodeId × List NodeId)}
    {leftSums rightSums : Checksums} {bytes : Bytes} (length : left.length = right.length)
    (small : bytes.length ≤ fileLimit) (fromLeft : manifestNodes leftSums left = .ok bytes)
    (fromRight : manifestNodes rightSums right = .ok bytes) : left = right := by
  induction left generalizing right bytes with
  | nil => exact (List.length_eq_zero_iff.mp length.symm).symm
  | cons node left inductionHypothesis =>
    cases right with
    | nil => simp at length
    | cons other right =>
      obtain ⟨node, peers⟩ := node
      obtain ⟨other, others⟩ := other
      simp only [manifestNodes, bind_ok] at fromLeft fromRight
      obtain ⟨leftSum, _, leftRest, leftLater, ⟨⟩⟩ := fromLeft
      obtain ⟨rightSum, _, rightRest, rightLater, same⟩ := fromRight
      replace same := Except.ok.inj same
      have few : peers.length < 256 ^ 4 ∧ others.length < 256 ^ 4 := by
        have leftLength := small
        have rightLength := small
        rw [← same] at rightLength
        simp only [manifestNode, List.length_append, length_encode, List.length_flatMap,
          List.map_const', List.sum_replicate, smul_eq_mul, fileLimit] at leftLength rightLength
        omega
      simp only [manifestNode, List.append_assoc] at same
      obtain ⟨nodes, same⟩ := encode_append_inj other.toNat_lt node.toNat_lt same
      obtain ⟨counts, same⟩ := encode_append_inj few.2 few.1 same
      obtain ⟨lists, same⟩ := flatMap_encode_inj counts same
      obtain ⟨_, same⟩ := encode_append_inj rightSum.toNat_lt leftSum.toNat_lt same
      have shorter : leftRest.length ≤ fileLimit := by
        rw [List.length_append] at small
        omega
      rw [inductionHypothesis (Nat.succ.inj length) shorter leftLater (same ▸ rightLater),
        UInt32.toNat_inj.mp nodes, lists]

/-- A manifest determines its configuration and its topology. -/
theorem manifest_inj {epoch other : Nat} {left right : Topology}
    {leftConfiguration rightConfiguration : Bytes} {leftSums rightSums : Checksums} {bytes : Bytes}
    (fromLeft : manifest epoch left leftConfiguration leftSums = .ok bytes)
    (fromRight : manifest other right rightConfiguration rightSums = .ok bytes) :
    left = right ∧ leftConfiguration = rightConfiguration := by
  simp only [manifest, bind_ok] at fromLeft fromRight
  obtain ⟨_, leftValid, leftBlob, leftNamed, leftNodes, leftListed, leftSealed⟩ := fromLeft
  obtain ⟨_, rightValid, rightBlob, rightNamed, rightNodes, rightListed, rightSealed⟩ := fromRight
  obtain ⟨leftShort, rfl⟩ := Encoder.blob_eq_ok.mp leftNamed
  obtain ⟨rightShort, rfl⟩ := Encoder.blob_eq_ok.mp rightNamed
  obtain ⟨rfl, small⟩ := sealFile_ok.mp leftSealed
  obtain ⟨same, _⟩ := sealFile_ok.mp rightSealed
  have leftFew := require_ok.mp leftValid
  have rightFew := require_ok.mp rightValid
  push Not at leftFew rightFew
  replace same := List.append_inj_left' same (by rw [length_encode, length_encode])
  replace same := List.append_cancel_left same
  obtain ⟨_, same⟩ := List.append_inj same (by rw [length_encode, length_encode])
  rw [List.append_assoc, List.append_assoc] at same
  obtain ⟨lengths, same⟩ := encode_append_inj leftShort rightShort same
  obtain ⟨names, same⟩ := List.append_inj same lengths
  have leftSize : left.size < 256 ^ 4 := leftFew.2.2.trans_lt (by decide)
  have rightSize : right.size < 256 ^ 4 := rightFew.2.2.trans_lt (by decide)
  obtain ⟨sizes, rfl⟩ := encode_append_inj leftSize rightSize same
  refine ⟨?_, names⟩
  have shorter : leftNodes.length ≤ fileLimit := by
    simp only [List.length_append] at small
    omega
  have entries := manifestNodes_inj
    (by rw [Std.ExtTreeMap.length_toList, Std.ExtTreeMap.length_toList, sizes]) shorter leftListed
    rightListed
  exact Std.ExtTreeMap.toList_inj.mp entries

end Stormglass.Snapshot
