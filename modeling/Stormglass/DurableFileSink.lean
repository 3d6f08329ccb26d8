import Stormglass.CheckpointGrammar
import Stormglass.FramedLog

/-!
# The durable file sink

`DurableFileSink` appends every result as one frame: the length of the key, the key, the
bounds of the window, the sum and the count. `ParseRecords` walks over the frames of a file
and stops at the first one that the file does not hold entirely. A sink that is opened for
appending cuts the file there.

The file is the list of its bytes; a path without a file reads and opens like an empty one.
What the system calls answer is an argument of the functions that make them.
-/

namespace Stormglass

open LittleEndian CheckpointReader

namespace DurableFileSink

/-- The bytes that `Emit` builds. The length of the key is cut to 32 bits. -/
def frame (result : WindowResult) : Bytes :=
  encode 4 result.key.length ++ result.key ++
    encodeSigned 8 result.window.start.ms ++ encodeSigned 8 result.window.close.ms ++
    encodeSigned 8 result.result.value ++ encode 8 result.result.count

/-- The body of the loop of `ParseRecords` at the bytes from `pos` on: the record there
and its size, or nothing when the loop ends. -/
def parseRecord (rest : Bytes) : Option (WindowResult × Nat) :=
  if rest.length < 4 then none
  else
    let keyLen := decode (rest.take 4)
    let recordSize := 4 + keyLen + 32
    if rest.length < recordSize then none
    else
      let field := fun offset => (rest.drop (4 + keyLen + offset)).take 8
      let window : Window :=
        { start := .ofMs (decodeSigned (field 0)), close := .ofMs (decodeSigned (field 8)) }
      some
        ({ key := (rest.drop 4).take keyLen
           window := window
           result := { value := decodeSigned (field 16), count := decode (field 24) } },
          recordSize)

/-- `ParseRecords`: the complete records and the length of the valid part. Each round
advances, so there are no more rounds than bytes. -/
def parseRecords (data : Bytes) : List WindowResult × Nat :=
  FramedLog.scan parseRecord data.length data

/-- `ReadAll` of a file that can be read. -/
def readAll (file : Bytes) : List WindowResult := (parseRecords file).1

/-- What a call of `write` answers: a number of bytes taken, `EINTR`, or another error. -/
inductive WriteCall where
  | wrote (count : Nat)
  | interrupted
  | failed
deriving DecidableEq

/-- `WriteAll`, with the answers of its calls in order: whether all bytes were written, and
the bytes that were. A call beyond the answers given fails. -/
def writeAll : List WriteCall → Bytes → Bool × Bytes
  | _, [] => (true, [])
  | [], _ :: _ => (false, [])
  | .interrupted :: calls, data => writeAll calls data
  | .failed :: _, _ :: _ => (false, [])
  | .wrote 0 :: _, _ :: _ => (false, [])
  | .wrote count :: calls, data =>
    let later := writeAll calls (data.drop count)
    (later.1, data.take count ++ later.2)

/-- The text of the `system_error` that a call throws. -/
inductive Failure where
  | openSink
  | statSink
  | readSink
  | truncateTornSinkTail
  | writeSink
  | fsyncSink
deriving DecidableEq

def Failure.what : Failure → String
  | .openSink => "open sink"
  | .statSink => "stat sink"
  | .readSink => "read sink"
  | .truncateTornSinkTail => "truncate torn sink tail"
  | .writeSink => "write sink"
  | .fsyncSink => "fsync sink"

/-- One call of `Emit` on an open sink: the result, and the answers of the system. -/
structure Emission where
  result : WindowResult
  calls : List WriteCall
  synced : Bool

/-- `Emit`: the outcome and the file after it. -/
def emit (emission : Emission) (file : Bytes) : Except Failure Unit × Bytes :=
  let (complete, written) := writeAll emission.calls (frame emission.result)
  let file := file ++ written
  if !complete then (.error .writeSink, file)
  else if !emission.synced then (.error .fsyncSink, file)
  else (.ok (), file)

inductive OpenMode where
  | append
  | truncate
deriving DecidableEq

/-- Which of the system calls of a constructor succeed. -/
structure OpenCalls where
  opens : Bool := true
  stats : Bool := true
  reads : Bool := true
  truncates : Bool := true
  syncs : Bool := true

/-- The constructor: the outcome and the file after it. -/
def create (mode : OpenMode) (calls : OpenCalls) (file : Bytes) : Except Failure Unit × Bytes :=
  if !calls.opens then (.error .openSink, file)
  else match mode with
    | .truncate => (.ok (), [])
    | .append =>
      if !calls.stats then (.error .statSink, file)
      else if !calls.reads then (.error .readSink, file)
      else
        let valid := (parseRecords file).2
        if valid ≠ file.length then
          if !calls.truncates then (.error .truncateTornSinkTail, file)
          else if !calls.syncs then (.error .fsyncSink, file.take valid)
          else (.ok (), file.take valid)
        else (.ok (), file)

/-- A result as the frame can hold it: the fields in the ranges of their types, and a key
whose length fits the length field. -/
structure Storable (result : WindowResult) : Prop where
  value : FitsSigned result.result.value
  count : result.result.count < 2 ^ 64
  key : result.key.length < 2 ^ 32

theorem length_frame (result : WindowResult) :
    (frame result).length = 4 + result.key.length + 32 := by
  simp only [frame, List.length_append, length_encode, length_encodeSigned]

theorem frame_nonempty (result : WindowResult) : 0 < (frame result).length := by
  rw [length_frame]
  omega

/-- The file of a list of results. -/
abbrev frames (results : List WindowResult) : Bytes := results.flatMap frame

variable {result : WindowResult}

/-- The length field of a frame. -/
theorem decode_take_frame (storable : Storable result) (rest : Bytes) :
    decode ((frame result ++ rest).take 4) = result.key.length := by
  have split : frame result ++ rest = encode 4 result.key.length ++
      ((frame result).drop 4 ++ rest) := by
    simp [frame, List.append_assoc]
  rw [split, List.take_left' (length_encode 4 _), decode_encode_of_lt storable.key]

/-- The bytes between two others. -/
theorem slice_of_append (front : Bytes) {data field back : Bytes} {offset width : Nat}
    (split : data = front ++ (field ++ back)) (before : front.length = offset)
    (here : field.length = width) : (data.drop offset).take width = field := by
  rw [split, List.drop_left' before, List.take_left' here]

theorem ofMs_decodeSigned (time : Timestamp) :
    Timestamp.ofMs (decodeSigned (encodeSigned 8 time.ms)) = time := by
  rw [decodeSigned_encodeSigned_of_fits (Timestamp.fits time).bmod, ofMs_ms]

/-- A frame at the front is read as the result it was built from. -/
theorem parseRecord_frame (result : WindowResult) (rest : Bytes) (storable : Storable result) :
    parseRecord (frame result ++ rest) = some (result, (frame result).length) := by
  have keyLen := decode_take_frame storable rest
  have long : ¬ (frame result ++ rest).length < 4 + result.key.length + 32 := by
    rw [List.length_append, length_frame]
    omega
  have longEnough : ¬ (frame result ++ rest).length < 4 := by omega
  -- Each field stands behind the fields before it.
  let number := encode 4 result.key.length
  let start := encodeSigned 8 result.window.start.ms
  let close := encodeSigned 8 result.window.close.ms
  let value := encodeSigned 8 result.result.value
  let count := encode 8 result.result.count
  have keyField : ((frame result ++ rest).drop 4).take result.key.length = result.key :=
    slice_of_append number (by simp [frame, number]; rfl) (length_encode 4 _) rfl
  have startField : ((frame result ++ rest).drop (4 + result.key.length + 0)).take 8 = start :=
    slice_of_append (number ++ result.key) (by simp [frame, number, start]; rfl)
      (by simp [number]) (length_encodeSigned 8 _)
  have closeField : ((frame result ++ rest).drop (4 + result.key.length + 8)).take 8 = close :=
    slice_of_append (number ++ result.key ++ start) (by simp [frame, number, start, close]; rfl)
      (by simp [number, start]; omega) (length_encodeSigned 8 _)
  have valueField : ((frame result ++ rest).drop (4 + result.key.length + 16)).take 8 = value :=
    slice_of_append (number ++ result.key ++ start ++ close)
      (by simp [frame, number, start, close, value]; rfl) (by simp [number, start, close]; omega)
      (length_encodeSigned 8 _)
  have countField : ((frame result ++ rest).drop (4 + result.key.length + 24)).take 8 = count :=
    slice_of_append (number ++ result.key ++ start ++ close ++ value)
      (by simp [frame, number, start, close, value, count]; rfl)
      (by simp [number, start, close, value]; omega) (length_encode 8 _)
  have counted : decode count = result.result.count := decode_encode_of_lt storable.count
  rw [parseRecord, if_neg longEnough]
  simp only [keyLen, if_neg long, keyField, startField, closeField, valueField, countField,
    start, close, value, counted, ofMs_decodeSigned,
    decodeSigned_encodeSigned_of_fits storable.value.bmod, length_frame]

theorem decodeSigned_ofMs {field : Bytes} (eight : field.length = 8) :
    (Timestamp.ofMs (decodeSigned field)).ms = decodeSigned field := by
  change Int.bmod _ _ = _
  rw [decodeSigned, eight]
  exact Int.bmod_bmod

/-- What is read is the frame of the record: the parser accepts nothing else. -/
theorem frame_of_parseRecord {data : Bytes} {size : Nat}
    (parsed : parseRecord data = some (result, size)) : frame result = data.take size := by
  unfold parseRecord at parsed
  split at parsed
  · cases parsed
  next long =>
  simp only at parsed
  split at parsed
  · cases parsed
  next enough =>
  obtain ⟨rfl, rfl⟩ := Prod.mk.inj (Option.some.inj parsed)
  set keyLen := decode (data.take 4) with keyLenEq
  have number : encode 4 keyLen = data.take 4 := by
    have four : (data.take 4).length = 4 := by
      rw [List.length_take]
      omega
    have inverse := encode_decode (data.take 4)
    rwa [four] at inverse
  have length : ((data.drop 4).take keyLen).length = keyLen := by
    rw [List.length_take, List.length_drop]
    omega
  have eight (offset : Nat) (inside : offset + 8 ≤ 32) :
      ((data.drop (4 + keyLen + offset)).take 8).length = 8 := by
    rw [List.length_take, List.length_drop]
    omega
  have signed (offset : Nat) (inside : offset + 8 ≤ 32) :
      encodeSigned 8 (decodeSigned ((data.drop (4 + keyLen + offset)).take 8)) =
        (data.drop (4 + keyLen + offset)).take 8 := by
    have inverse := encodeSigned_decodeSigned ((data.drop (4 + keyLen + offset)).take 8)
    rwa [eight offset inside] at inverse
  have count : encode 8 (decode ((data.drop (4 + keyLen + 24)).take 8)) =
      (data.drop (4 + keyLen + 24)).take 8 := by
    have inverse := encode_decode ((data.drop (4 + keyLen + 24)).take 8)
    rwa [eight 24 (by omega)] at inverse
  -- The fields are neighbouring slices of the data.
  have slices (offset : Nat) : data.take (4 + keyLen + (offset + 8)) =
      data.take (4 + keyLen + offset) ++ (data.drop (4 + keyLen + offset)).take 8 := by
    rw [← List.take_add, ← Nat.add_assoc]
  have first : data.take (4 + keyLen + 0) = data.take 4 ++ (data.drop 4).take keyLen := by
    rw [Nat.add_zero, List.take_add]
  rw [slices 24, slices 16, slices 8, slices 0, first]
  simp only [frame, length, number, decodeSigned_ofMs (eight 0 (by omega)),
    decodeSigned_ofMs (eight 8 (by omega)), signed 0 (by omega), signed 8 (by omega),
    signed 16 (by omega), count]

/-- The length field determines how much is read. -/
theorem size_of_parseRecord {data : Bytes} {size : Nat}
    (parsed : parseRecord data = some (result, size)) : size = 4 + decode (data.take 4) + 32 := by
  unfold parseRecord at parsed
  split at parsed
  · cases parsed
  · simp only at parsed
    split at parsed
    · cases parsed
    · exact (congrArg Prod.snd (Option.some.inj parsed)).symm

/-- The length field of a torn tail that is long enough to have one. -/
theorem decode_take_torn {tail : Bytes} (torn : FramedLog.Torn frame Storable tail)
    (long : 4 ≤ tail.length) (rest : Bytes) :
    tail.length < 4 + decode ((tail ++ rest).take 4) + 32 := by
  rcases torn with rfl | ⟨result, storable, ⟨missing, whole⟩, shorter⟩
  · simp at long
  · have front : (tail ++ rest).take 4 = (frame result ++ []).take 4 := by
      rw [List.append_nil, ← whole, List.take_append_of_le_length long,
        List.take_append_of_le_length long]
    rwa [front, decode_take_frame storable, ← length_frame]

/-- A frame without its end is not read. -/
theorem parseRecord_torn (tail : Bytes) (torn : FramedLog.Torn frame Storable tail) :
    parseRecord tail = none := by
  unfold parseRecord
  by_cases short : tail.length < 4
  · exact if_pos short
  · have incomplete := decode_take_torn torn (by omega) []
    rw [List.append_nil] at incomplete
    rw [if_neg short]
    exact if_pos incomplete

/-- On a log with a torn tail the parser finds the results, and the valid part is what
their frames take up. -/
theorem parseRecords_log {results : List WindowResult}
    (storable : ∀ result ∈ results, Storable result)
    {tail : Bytes} (torn : FramedLog.Torn frame Storable tail) :
    parseRecords (frames results ++ tail) = (results, (frames results).length) := by
  refine FramedLog.scan_log parseRecord_frame parseRecord_torn storable torn ?_
  have bound : results.length ≤ (frames results).length := FramedLog.length_le_log frame_nonempty
  rw [List.length_append]
  omega

/-- `WriteAll` writes an initial part of the data, and reports success when it is all of it. -/
theorem writeAll_spec (calls : List WriteCall) (data : Bytes) :
    (writeAll calls data).2 <+: data ∧
      ((writeAll calls data).1 = true ↔ (writeAll calls data).2 = data) := by
  fun_induction writeAll calls data with
  | case1 => simp
  | case2 => simp
  | case3 calls data _ inductionHypothesis => exact inductionHypothesis
  | case4 => simp
  | case5 => simp
  | case6 count calls data _ _ later inductionHypothesis =>
    obtain ⟨starts, complete⟩ := inductionHypothesis
    constructor
    · conv_rhs => rw [← List.take_append_drop count data]
      exact (List.prefix_append_right_inj _).mpr starts
    · rw [complete]
      constructor
      · intro whole
        rw [whole, List.take_append_drop]
      · intro whole
        apply List.append_cancel_left
        exact whole.trans (List.take_append_drop count data).symm

/-- What the system takes of a frame. -/
def Emission.written (emission : Emission) : Bytes :=
  (writeAll emission.calls (frame emission.result)).2

theorem Emission.written_le_frame (emission : Emission) :
    emission.written <+: frame emission.result :=
  (writeAll_spec _ _).1

/-- Whether it returns or throws, `Emit` appends what the system takes of the frame. -/
theorem emit_file (emission : Emission) (file : Bytes) :
    (emit emission file).2 = file ++ emission.written := by
  simp only [emit, Emission.written, apply_ite Prod.snd, ite_self]

/-- An `Emit` that returns has written the whole frame. -/
theorem written_of_emit {emission : Emission} {file : Bytes}
    (returned : (emit emission file).1 = .ok ()) : emission.written = frame emission.result := by
  apply (writeAll_spec _ _).2.mp
  by_contra incomplete
  have stopped : (writeAll emission.calls (frame emission.result)).1 = false :=
    Bool.eq_false_of_not_eq_true incomplete
  simp [emit, stopped] at returned

/-- Opening for appending cuts the torn tail off. -/
theorem create_append {results : List WindowResult} (storable : ∀ result ∈ results, Storable result)
    {tail : Bytes} (torn : FramedLog.Torn frame Storable tail) :
    create .append {} (frames results ++ tail) = (.ok (), frames results) := by
  have parsed := parseRecords_log storable torn
  unfold create
  simp only [parsed, Bool.not_true, Bool.false_eq_true, if_false, List.length_append]
  split
  · rw [List.take_left]
  next complete =>
    have empty : tail = [] := List.length_eq_zero_iff.mp (by omega)
    rw [empty, List.append_nil]

end DurableFileSink

end Stormglass
