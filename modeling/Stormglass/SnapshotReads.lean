import Stormglass.SnapshotFiles

/-!
# The decoder by position

`Decoder` keeps a span and a position in it. The source reads a number byte by byte and
copies a blob by a range of positions; `Need` and `Remaining` are what keeps these accesses
inside the span. The model of the codec works on the bytes that are left, where no access
can leave them, so it says nothing about that.

Here `Store::DecodeLocal` is repeated by position, and an access outside the span is an
outcome of its own. Each operation, from a position inside the span, does what its
counterpart does on the bytes from there on and ends inside the span; so the outcome of an
access outside is never reached.
-/

namespace Stormglass.Snapshot

open LittleEndian

/-- Why nothing was read: an exception, or an access outside the span. -/
inductive ReadError where
  | thrown (message : String)
  | outOfBounds
deriving DecidableEq

/-- A program over a span, with `position_` as its state. -/
abbrev Cursor := StateT Nat (Except ReadError)

namespace Cursor

def demand (condition : Prop) [Decidable condition] (message : String) : Cursor Unit :=
  if condition then pure () else throw (.thrown message)

variable (bytes : Bytes)

def byteAt (index : Nat) : Except ReadError UInt8 :=
  match bytes[index]? with
  | some byte => .ok byte
  | none => .error .outOfBounds

/-- `Remaining`, an unsigned difference. -/
def remaining : Cursor Nat := do
  let position ← get
  pure (((bytes.length : Int) - position) % 2 ^ 64).toNat

def need (count : Nat) : Cursor Unit := do
  let left ← remaining bytes
  demand (¬ count > left) "truncated serialized data"

def u8 : Cursor UInt8 := do
  need bytes 1
  let position ← get
  set (position + 1)
  byteAt bytes position

/-- The loop of `U32` and of `U64`. -/
def wordLoop : Nat → Nat → Nat → Cursor Nat
  | 0, _, value => pure value
  | count + 1, index, value => do
      let byte ← u8 bytes
      wordLoop count (index + 1) (value ||| byte.toNat <<< (8 * index))

def u32 : Cursor Nat := wordLoop bytes 4 0 0

def u64 : Cursor Nat := wordLoop bytes 8 0 0

def blob : Cursor Bytes := do
  let count ← u32 bytes
  need bytes count
  let position ← get
  let copy ← (List.range' position count).mapM (fun index => (byteAt bytes index : Cursor UInt8))
  set (position + count)
  pure copy

def count (minimumBytes : Nat) : Cursor Nat := do
  let number ← u32 bytes
  let left ← remaining bytes
  demand (¬ number > left / minimumBytes) "impossible serialized count"
  pure number

/-- `End` -/
def finish : Cursor Unit := do
  let left ← remaining bytes
  demand (left = 0) "trailing serialized data"

/-- The loop of `Map(Decoder &)`. -/
def entries : Nat → Counters → Cursor Counters
  | 0, counters => pure counters
  | count + 1, counters => do
      let peer ← u32 bytes
      let number ← u64 bytes
      demand (peer.toUInt32 ∉ counters) "duplicate serialized peer"
      entries count (counters.insert peer.toUInt32 number)

/-- `Map(Decoder &)` -/
def counters : Cursor Counters := do
  entries bytes (← count bytes 12) ∅

/-- The loop over the channel records. -/
def records : Nat → Cursor (List ChannelRecord)
  | 0 => pure []
  | count + 1 => do
      let peer ← u32 bytes
      let sequence ← u64 bytes
      let payload ← blob bytes
      let rest ← records count
      pure ({ peer := peer.toUInt32, sequence := sequence, payload := payload } :: rest)

/-- The reads of `DecodeLocal` behind the checksum. -/
def localSnapshot : Cursor LocalSnapshot := do
  let magic ← u32 bytes
  demand (magic = localMagic) "snapshot format mismatch"
  let node ← u32 bytes
  let epoch ← u64 bytes
  demand (epoch ≠ 0) "zero local epoch"
  let state ← blob bytes
  let received ← counters bytes
  let sent ← counters bytes
  let markerSequences ← counters bytes
  let channels ← records bytes (← count bytes 16)
  finish bytes
  pure { node := node.toUInt32, epoch, state, received, sent, markerSequences, channels }

end Cursor

/-- `std::span::first`, which must not ask for more than there is. -/
def spanFirst (bytes : Bytes) (count : Nat) : Except ReadError Bytes :=
  if count ≤ bytes.length then .ok (bytes.take count) else .error .outOfBounds

/-- `std::span::last` -/
def spanLast (bytes : Bytes) (count : Nat) : Except ReadError Bytes :=
  if count ≤ bytes.length then .ok (bytes.drop (bytes.length - count)) else .error .outOfBounds

/-- `Open` -/
def openSpan (bytes : Bytes) : Except ReadError Bytes := do
  if bytes.length < 4 ∨ bytes.length > fileLimit then
    throw (.thrown "invalid snapshot file size")
  let tail ← spanLast bytes 4
  let front ← spanFirst bytes (bytes.length - 4)
  let checksum ← (Cursor.u32 tail).run' 0
  if (crc32c front).toNat ≠ checksum then throw (.thrown "snapshot file CRC mismatch")
  spanFirst bytes (bytes.length - 4)

/-- `Store::DecodeLocal`, by position. -/
def decodeLocalAt (bytes : Bytes) : Except ReadError LocalSnapshot := do
  let front ← openSpan bytes
  (Cursor.localSnapshot front).run' 0

/-! ## Positions and what is left -/

/-- From every position inside the span, the cursor does what the decoder does on the bytes
from there on, and ends inside the span. -/
def Follows {α : Type} (bytes : Bytes) (cursor : Cursor α) (decoder : Decoder α) : Prop :=
  ∀ position ≤ bytes.length,
    (∃ message, decoder.run (bytes.drop position) = .error message ∧
      cursor.run position = .error (.thrown message)) ∨
    ∃ value, ∃ next ≤ bytes.length,
      decoder.run (bytes.drop position) = .ok (value, bytes.drop next) ∧
      cursor.run position = .ok (value, next)

namespace Follows

variable {α β : Type} {bytes : Bytes}

theorem pure (value : α) : Follows bytes (Pure.pure value) (Pure.pure value) :=
  fun position inside => .inr ⟨value, position, inside, rfl, rfl⟩

theorem bind {cursor : Cursor α} {decoder : Decoder α} {later : α → Cursor β}
    {next : α → Decoder β} (first : Follows bytes cursor decoder)
    (second : ∀ value, Follows bytes (later value) (next value)) :
    Follows bytes (cursor >>= later) (decoder >>= next) := by
  intro position inside
  rw [StateT.run_bind, StateT.run_bind]
  rcases first position inside with ⟨message, fails, throws⟩ | ⟨value, middle, between, reads, runs⟩
  · rw [fails, throws]
    exact .inl ⟨message, rfl, rfl⟩
  · rw [reads, runs]
    exact second value middle between

theorem require (condition : Prop) [Decidable condition] (message : String) :
    Follows bytes (Cursor.demand condition message) (Snapshot.require condition message) := by
  intro position inside
  unfold Cursor.demand Snapshot.require
  split
  · exact .inr ⟨(), position, inside, rfl, rfl⟩
  · exact .inl ⟨message, rfl, rfl⟩

end Follows

namespace Cursor

variable {bytes : Bytes}

theorem byteAt_eq {index : Nat} (inside : index < bytes.length) :
    byteAt bytes index = .ok (bytes[index]) := by
  rw [byteAt, List.getElem?_eq_getElem inside]

section

variable (small : bytes.length < 2 ^ 64)

include small

theorem remaining_run {position : Nat} (inside : position ≤ bytes.length) :
    (remaining bytes).run position = .ok (bytes.length - position, position) := by
  have exact : (((bytes.length : Int) - position) % 2 ^ 64).toNat = bytes.length - position := by
    omega
  change Except.ok ((((bytes.length : Int) - position) % 2 ^ 64).toNat, position) = _
  rw [exact]

theorem need_run {position count : Nat} (inside : position + count ≤ bytes.length) :
    (need bytes count).run position = .ok ((), position) := by
  rw [need, StateT.run_bind, remaining_run small (by omega)]
  change (demand _ _).run position = _
  rw [demand, if_pos (by omega)]
  rfl

theorem need_throws {position count : Nat} (inside : position ≤ bytes.length)
    (short : bytes.length < position + count) :
    (need bytes count).run position = .error (.thrown "truncated serialized data") := by
  rw [need, StateT.run_bind, remaining_run small inside]
  change (demand _ _).run position = _
  rw [demand, if_neg (by omega)]
  rfl

theorem u8_run {position : Nat} (inside : position < bytes.length) :
    (u8 bytes).run position = .ok (bytes[position], position + 1) := by
  rw [u8, StateT.run_bind, need_run small (by omega)]
  change (byteAt bytes position >>= fun byte => Except.ok (byte, position + 1)) = _
  rw [byteAt_eq inside]
  rfl

/-- The bytes are put together from the lowest one up. -/
theorem wordLoop_run {count index value position : Nat} (room : position + count ≤ bytes.length)
    (below : value < 2 ^ (8 * index)) :
    (wordLoop bytes count index value).run position =
      .ok (value + decode ((bytes.drop position).take count) * 2 ^ (8 * index),
        position + count) := by
  induction count generalizing index value position with
  | zero =>
    rw [List.take_zero, decode, Nat.zero_mul]
    rfl
  | succ count inductionHypothesis =>
    have inside : position < bytes.length := by omega
    have head : (bytes.drop position).take (count + 1) =
        bytes[position] :: (bytes.drop (position + 1)).take count := by
      rw [List.drop_eq_getElem_cons inside, List.take_succ_cons]
    have joined : value ||| bytes[position].toNat <<< (8 * index) =
        value + bytes[position].toNat * 2 ^ (8 * index) := by
      rw [Nat.lor_comm, ← Nat.shiftLeft_add_eq_or_of_lt below, Nat.shiftLeft_eq, Nat.add_comm]
    have byte := bytes[position].toNat_lt
    have larger : value + bytes[position].toNat * 2 ^ (8 * index) < 2 ^ (8 * (index + 1)) := by
      calc value + bytes[position].toNat * 2 ^ (8 * index)
        _ < 2 ^ (8 * index) + bytes[position].toNat * 2 ^ (8 * index) := by omega
        _ = (bytes[position].toNat + 1) * 2 ^ (8 * index) := by ring
        _ ≤ 2 ^ 8 * 2 ^ (8 * index) := Nat.mul_le_mul_right _ byte
        _ = 2 ^ (8 * (index + 1)) := by rw [← pow_add, Nat.mul_add, Nat.add_comm]
    rw [wordLoop, StateT.run_bind, u8_run small inside]
    change (wordLoop bytes count (index + 1)
      (value ||| bytes[position].toNat <<< (8 * index))).run (position + 1) = _
    rw [joined, inductionHypothesis (by omega) larger, head, decode, Nat.mul_add, pow_add,
      Nat.add_assoc position 1 count, Nat.add_comm 1 count]
    congr 2
    ring

theorem wordLoop_throws {count index value position : Nat} (inside : position ≤ bytes.length)
    (short : bytes.length < position + count) :
    (wordLoop bytes count index value).run position =
      .error (.thrown "truncated serialized data") := by
  induction count generalizing index value position with
  | zero => omega
  | succ count inductionHypothesis =>
    rw [wordLoop, StateT.run_bind]
    by_cases last : position = bytes.length
    · rw [u8, StateT.run_bind, need_throws small inside (by omega)]
      rfl
    · rw [u8_run small (by omega)]
      exact inductionHypothesis (by omega) (by omega)

end

/-- Copying a range inside the span. -/
theorem copy_run {position count : Nat} (room : position + count ≤ bytes.length) (state : Nat) :
    ((List.range' position count).mapM (fun index => (byteAt bytes index : Cursor UInt8))).run
      state = .ok ((bytes.drop position).take count, state) := by
  induction count generalizing position with
  | zero => rfl
  | succ count inductionHypothesis =>
    have inside : position < bytes.length := by omega
    rw [List.range'_succ, List.mapM_cons, StateT.run_bind, byteAt_eq inside,
      List.drop_eq_getElem_cons inside, List.take_succ_cons]
    change ((List.mapM _ (List.range' (position + 1) count) >>= fun rest =>
      (Pure.pure (bytes[position] :: rest) : Cursor Bytes))).run state = _
    rw [StateT.run_bind, inductionHypothesis (by omega)]
    rfl

end Cursor

namespace Follows

variable {bytes : Bytes}

section

variable (small : bytes.length < 2 ^ 64)

include small

/-- Reading a number byte by byte. -/
theorem word (width : Nat) :
    Follows bytes (Cursor.wordLoop bytes width 0 0) (decode <$> Decoder.take width) := by
  intro position inside
  rw [StateT.run_map, Decoder.take_eq, List.length_drop]
  by_cases room : width ≤ bytes.length - position
  · refine .inr
      ⟨_, position + width, by omega, ?_, Cursor.wordLoop_run small (by omega) (by decide)⟩
    rw [if_pos room, List.drop_drop]
    simp
  · rw [if_neg room]
    exact .inl ⟨_, rfl, Cursor.wordLoop_throws small inside (by omega)⟩

theorem u32 : Follows bytes (Cursor.u32 bytes) Decoder.u32 :=
  word small 4

theorem u64 : Follows bytes (Cursor.u64 bytes) Decoder.u64 :=
  word small 8

theorem blob : Follows bytes (Cursor.blob bytes) Decoder.blob := by
  refine bind (u32 small) fun count position inside => ?_
  rw [Decoder.take_eq, List.length_drop]
  by_cases room : count ≤ bytes.length - position
  · rw [if_pos room, List.drop_drop]
    refine .inr ⟨_, position + count, by omega, rfl, ?_⟩
    rw [StateT.run_bind, Cursor.need_run small (by omega)]
    change ((List.range' position count).mapM _ >>= fun copy =>
      (do set (position + count); Pure.pure copy : Cursor Bytes)).run position = _
    rw [StateT.run_bind, Cursor.copy_run (by omega)]
    rfl
  · rw [if_neg room]
    refine .inl ⟨_, rfl, ?_⟩
    rw [StateT.run_bind, Cursor.need_throws small inside (by omega)]
    rfl

/-- `Remaining` is the number of bytes that are left. -/
theorem remaining :
    Follows bytes (Cursor.remaining bytes) (List.length <$> get) := by
  intro position inside
  refine .inr ⟨_, position, inside, rfl, ?_⟩
  rw [Cursor.remaining_run small inside, List.length_drop]

theorem count (minimumBytes : Nat) :
    Follows bytes (Cursor.count bytes minimumBytes) (Decoder.count minimumBytes) :=
  bind (u32 small) fun number => bind (remaining small) fun _ =>
    bind (require _ _) fun _ => pure number

theorem finish :
    Follows bytes (Cursor.finish bytes) Decoder.finish := by
  intro position inside
  have runs : (Cursor.finish bytes).run position =
      (Cursor.demand (bytes.length - position = 0) "trailing serialized data").run position := by
    rw [Cursor.finish, StateT.run_bind, Cursor.remaining_run small inside]
    rfl
  have reads : Decoder.finish.run (bytes.drop position) =
      (Snapshot.require (bytes.drop position = []) "trailing serialized data" :
        Decoder Unit).run (bytes.drop position) := rfl
  have same : bytes.drop position = [] ↔ bytes.length - position = 0 := by
    rw [List.drop_eq_nil_iff]
    omega
  rw [runs, reads]
  simp only [same]
  exact require _ _ position inside

theorem entries (number : Nat) (stored : Counters) :
    Follows bytes (Cursor.entries bytes number stored) (decodeEntries number stored) := by
  induction number generalizing stored with
  | zero => exact pure stored
  | succ number inductionHypothesis =>
    exact bind (u32 small) fun _ => bind (u64 small) fun _ =>
      bind (require _ _) fun _ => inductionHypothesis _

theorem counters :
    Follows bytes (Cursor.counters bytes) decodeCounters :=
  bind (count small 12) fun number => entries small number ∅

theorem records (number : Nat) :
    Follows bytes (Cursor.records bytes number) (decodeRecords number) := by
  induction number with
  | zero => exact pure []
  | succ number inductionHypothesis =>
    exact bind (u32 small) fun _ => bind (u64 small) fun _ =>
      bind (blob small) fun _ => bind inductionHypothesis fun _ => pure _

theorem localSnapshot :
    Follows bytes (Cursor.localSnapshot bytes) readLocal :=
  bind (u32 small) fun _ => bind (require _ _) fun _ => bind (u32 small) fun _ =>
    bind (u64 small) fun _ => bind (require _ _) fun _ => bind (blob small) fun _ =>
    bind (counters small) fun _ => bind (counters small) fun _ => bind (counters small) fun _ =>
    bind (count small 16) fun number => bind (records small number) fun _ =>
    bind (finish small) fun _ => pure _

end

end Follows

/-- A cursor at the start of the span returns what the decoder returns. -/
theorem Follows.run {α : Type} {bytes : Bytes} {cursor : Cursor α} {decoder : Decoder α}
    (follows : Follows bytes cursor decoder) :
    cursor.run' 0 = (decoder.run' bytes).mapError .thrown := by
  change (fun outcome => outcome.1) <$> cursor.run 0 =
    ((fun outcome => outcome.1) <$> decoder.run bytes).mapError .thrown
  rcases follows 0 (Nat.zero_le _) with ⟨message, fails, throws⟩ | ⟨value, next, -, reads, runs⟩
  · rw [List.drop_zero] at fails
    rw [throws, fails]
    rfl
  · rw [List.drop_zero] at reads
    rw [runs, reads]
    rfl

/-- `Open` looks at nothing outside the file. -/
theorem openSpan_eq (bytes : Bytes) : openSpan bytes = (openFile bytes).mapError .thrown := by
  unfold openSpan openFile
  by_cases size : bytes.length < 4 ∨ bytes.length > fileLimit
  · rw [if_pos size, Snapshot.require, if_neg (not_not.mpr size)]
    rfl
  · have four : 4 ≤ bytes.length := by omega
    have tail : (bytes.drop (bytes.length - 4)).length = 4 := by
      rw [List.length_drop]
      omega
    have checksum : (Cursor.u32 (bytes.drop (bytes.length - 4))).run' 0 =
        .ok (decode (bytes.drop (bytes.length - 4))) := by
      rw [(Follows.u32 (by omega)).run]
      change Except.mapError _ ((fun outcome => outcome.1) <$>
        (decode <$> Decoder.take 4 : Decoder Nat).run (bytes.drop (bytes.length - 4))) = _
      rw [StateT.run_map, Decoder.take_eq, if_pos tail.ge, List.take_of_length_le tail.le]
      rfl
    have last : spanLast bytes 4 = .ok (bytes.drop (bytes.length - 4)) := if_pos four
    have first : spanFirst bytes (bytes.length - 4) = .ok (bytes.take (bytes.length - 4)) :=
      if_pos (Nat.sub_le _ _)
    simp only [if_neg size, last, first, Snapshot.require, if_pos size]
    change (Cursor.u32 (bytes.drop (bytes.length - 4))).run' 0 >>= _ = _
    rw [checksum]
    by_cases sum : (crc32c (bytes.take (bytes.length - 4))).toNat =
        decode (bytes.drop (bytes.length - 4))
    · simp only [if_pos sum]
      exact if_neg (not_not.mpr sum)
    · simp only [if_neg sum]
      exact if_pos sum

theorem openFile_length {bytes front : Bytes} (opened : openFile bytes = .ok front) :
    front.length < 2 ^ 64 := by
  simp only [openFile, bind_ok] at opened
  obtain ⟨_, size, _, _, ⟨⟩⟩ := opened
  have bounded := require_ok.mp size
  rw [List.length_take]
  unfold fileLimit at bounded
  omega

/-- `DecodeLocal` looks at nothing outside the file. -/
theorem decodeLocalAt_eq (bytes : Bytes) :
    decodeLocalAt bytes = (decodeLocal bytes).mapError .thrown := by
  unfold decodeLocalAt decodeLocal
  rw [openSpan_eq]
  cases opened : openFile bytes with
  | error message => rfl
  | ok front =>
    have small : front.length < 2 ^ 64 := openFile_length opened
    have follows := (Follows.localSnapshot small).run
    change (Cursor.localSnapshot front).run' 0 = ((fun outcome => outcome.1) <$>
      readLocal.run front).mapError .thrown
    exact follows

end Stormglass.Snapshot
