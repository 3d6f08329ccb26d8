import Stormglass.CheckpointFile

/-!
# What the checkpoint reader accepts

Every read of the parser succeeds exactly when the encoding of its value stands at the
position, and it moves the position behind that encoding. The lemmas are stated for one
field, for one item of a loop and for a whole loop. Together they say that a file is
accepted exactly when it is the layout of the returned data, and that no read leaves
the file.
-/

namespace Stormglass.CheckpointReader

open LittleEndian

variable {α β : Type} {data : Bytes} {contents : CheckpointData} {position : Nat}

theorem bind_eq_ok {first : Parser α} {next : α → Parser β} {result : β} :
    (first >>= next) = .ok result ↔ ∃ value, first = .ok value ∧ next value = .ok result := by
  cases first with
  | error rejection => simp [bind, Except.bind]
  | ok value => simp [bind, Except.bind]

theorem pure_eq_ok {value result : α} : (pure value : Parser α) = .ok result ↔ value = result := by
  simp [pure, Except.pure]

theorem rejectIf_eq_ok {condition : Prop} [Decidable condition] {done : Unit} :
    rejectIf condition = .ok done ↔ ¬ condition := by
  unfold rejectIf
  split <;> simp_all [pure, Except.pure, throw, throwThe, MonadExceptOf.throw]

theorem byteAt_eq_ok {index : Nat} {byte : UInt8} :
    byteAt data index = .ok byte ↔ data[index]? = some byte := by
  unfold byteAt
  split <;> simp_all [pure, Except.pure, throw, throwThe, MonadExceptOf.throw]

/-- Bytes are read exactly when they stand at the position. -/
theorem readBytes_eq_ok {position length : Nat} {bytes : Bytes} :
    readBytes data position length = .ok bytes ↔
      bytes.length = length ∧ bytes <+: data.drop position := by
  induction length generalizing position bytes with
  | zero =>
    have empty : readBytes data position 0 = .ok [] := rfl
    rw [empty, Except.ok.injEq, List.length_eq_zero_iff, eq_comm]
    exact ⟨fun same => ⟨same, same ▸ List.nil_prefix⟩, And.left⟩
  | succ length inductionHypothesis =>
    have unrolled : readBytes data position (length + 1) = (do
        let byte ← byteAt data position
        let rest ← readBytes data (position + 1) length
        pure (byte :: rest)) := by
      simp [readBytes, List.range'_succ]
    simp only [unrolled, bind_eq_ok, pure_eq_ok, byteAt_eq_ok, inductionHypothesis,
      ← List.head?_drop, ← List.tail_drop]
    cases data.drop position with
    | nil => cases bytes <;> simp
    | cons first later =>
      cases bytes with
      | nil => simp
      | cons byte rest =>
        simp only [List.head?_cons, Option.some.injEq, List.tail_cons, List.cons.injEq,
          List.length_cons, Nat.add_right_cancel_iff, List.cons_prefix_cons]
        constructor
        · rintro ⟨_, rfl, _, ⟨few, here⟩, rfl, rfl⟩
          exact ⟨few, rfl, here⟩
        · rintro ⟨few, rfl, here⟩
          exact ⟨_, rfl, _, ⟨few, here⟩, rfl, rfl⟩

/-- A number is read exactly when its encoding stands at the position. -/
theorem decode_readBytes_eq_ok {position width value : Nat} :
    (do return decode (← readBytes data position width) : Parser Nat) = .ok value ↔
      value < 256 ^ width ∧ encode width value <+: data.drop position := by
  simp only [bind_eq_ok, pure_eq_ok, readBytes_eq_ok]
  constructor
  · rintro ⟨bytes, ⟨rfl, here⟩, rfl⟩
    exact ⟨decode_lt bytes, by rwa [encode_decode]⟩
  · rintro ⟨fits, here⟩
    exact ⟨_, ⟨length_encode width value, here⟩, decode_encode_of_lt fits⟩

theorem readLE32_eq_ok {position value : Nat} :
    readLE32 data position = .ok value ↔
      value < 2 ^ 32 ∧ encode 4 value <+: data.drop position :=
  decode_readBytes_eq_ok

theorem readLE64_eq_ok {position value : Nat} :
    readLE64 data position = .ok value ↔
      value < 2 ^ 64 ∧ encode 8 value <+: data.drop position :=
  decode_readBytes_eq_ok

/-- The range of a signed 64-bit field. -/
def FitsSigned (value : Int) : Prop := -2 ^ 63 ≤ value ∧ value ≤ 2 ^ 63 - 1

theorem FitsSigned.bmod {value : Int} (fits : FitsSigned value) :
    value.bmod (256 ^ 8) = value :=
  Int.bmod_eq_of_le (by have := fits.1; omega) (by have := fits.2; omega)

theorem readSLE64_eq_ok {value : Int} :
    readSLE64 data position = .ok value ↔
      FitsSigned value ∧ encodeSigned 8 value <+: data.drop position := by
  simp only [readSLE64, bind_eq_ok, pure_eq_ok, readBytes_eq_ok]
  constructor
  · rintro ⟨bytes, ⟨eight, here⟩, rfl⟩
    have lower := Int.le_bmod (x := (decode bytes : Int)) (m := 256 ^ 8) (by decide)
    have upper := Int.bmod_lt (x := (decode bytes : Int)) (m := 256 ^ 8) (by decide)
    have same := encodeSigned_decodeSigned bytes
    rw [eight] at same
    refine ⟨?_, by rwa [same]⟩
    rw [decodeSigned, eight]
    constructor <;> omega
  · rintro ⟨fits, here⟩
    exact ⟨_, ⟨length_encodeSigned 8 value, here⟩, decodeSigned_encodeSigned_of_fits fits.bmod⟩

/-- Two encodings in a row stand at a position when each stands at its own. -/
theorem append_prefix_drop {first second : Bytes} :
    first ++ second <+: data.drop position ↔
      first <+: data.drop position ∧ second <+: data.drop (position + first.length) := by
  rw [← List.drop_drop]
  constructor
  · rintro ⟨rest, same⟩
    rw [← same, List.append_assoc]
    exact ⟨List.prefix_append _ _, by simp⟩
  · rintro ⟨⟨rest, same⟩, later⟩
    rw [← same, List.drop_left] at later
    rw [← same]
    exact (List.prefix_append_right_inj first).mpr later

theorem Timestamp.fits (time : Timestamp) : FitsSigned time.ms := ⟨time.lower, time.upper⟩

theorem FitsSigned.ofMs {value : Int} (fits : FitsSigned value) :
    (Timestamp.ofMs value).ms = value :=
  Timestamp.ofMs_ms fits.1 fits.2

theorem ofMs_ms (time : Timestamp) : Timestamp.ofMs time.ms = time :=
  Timestamp.ext (FitsSigned.ofMs (Timestamp.fits time))

theorem length_encodeWindow (window : Window) : window.encode.length = 16 := by
  simp [Window.encode]

theorem readWindow_eq_ok {position next : Nat} {window : Window} :
    readWindow data position = .ok (window, next) ↔
      window.encode <+: data.drop position ∧ next = position + 16 := by
  simp only [readWindow, bind_eq_ok, pure_eq_ok, readSLE64_eq_ok, Window.encode,
    append_prefix_drop, length_encodeSigned, Prod.mk.injEq]
  constructor
  · rintro ⟨start, ⟨startFits, startHere⟩, close, ⟨closeFits, closeHere⟩, rfl, rfl⟩
    simp only [startFits.ofMs, closeFits.ofMs]
    exact ⟨⟨startHere, closeHere⟩, trivial⟩
  · rintro ⟨⟨startHere, closeHere⟩, rfl⟩
    exact ⟨_, ⟨Timestamp.fits _, startHere⟩, _, ⟨Timestamp.fits _, closeHere⟩,
      by rw [ofMs_ms, ofMs_ms], rfl⟩

/-- The fields of an entry are in the range of their types. -/
structure PaneFits (entry : PaneEntry) : Prop where
  key : entry.key.length < 2 ^ 32
  sum : FitsSigned entry.sum
  count : entry.count < 2 ^ 64

theorem length_encodeEntry (entry : PaneEntry) :
    entry.encode.length = entry.key.length + 36 := by
  simp only [PaneEntry.encode, List.length_append, length_encode, length_encodeSigned]
  omega

/-- An entry is read exactly when its encoding stands at the position, inside the
body. -/
theorem readEntry_eq_ok {bodyEnd position next : Nat} {entry : PaneEntry} :
    readEntry data bodyEnd position = .ok (entry, next) ↔
      PaneFits entry ∧ entry.encode <+: data.drop position ∧
        next = position + entry.encode.length ∧ next ≤ bodyEnd := by
  simp only [readEntry, bind_eq_ok, pure_eq_ok, rejectIf_eq_ok, readLE32_eq_ok,
    readBytes_eq_ok, readSLE64_eq_ok, readLE64_eq_ok, PaneEntry.encode, append_prefix_drop,
    List.length_append, length_encode, length_encodeSigned, Prod.mk.injEq, exists_const]
  constructor
  · rintro ⟨_, keyLen, ⟨short, lengthHere⟩, room, key, ⟨rfl, keyHere⟩, start,
      ⟨startFits, startHere⟩, close, ⟨closeFits, closeHere⟩, sum, ⟨sumFits, sumHere⟩, count,
      ⟨countFits, countHere⟩, rfl, rfl⟩
    simp only [startFits.ofMs, closeFits.ofMs]
    refine ⟨⟨short, sumFits, countFits⟩, ⟨⟨⟨⟨⟨lengthHere, keyHere⟩, ?_⟩, ?_⟩, ?_⟩, ?_⟩, ?_, ?_⟩
    · rwa [← Nat.add_assoc]
    · rwa [← Nat.add_assoc, ← Nat.add_assoc]
    · rwa [← Nat.add_assoc, ← Nat.add_assoc, ← Nat.add_assoc]
    · rwa [← Nat.add_assoc, ← Nat.add_assoc, ← Nat.add_assoc, ← Nat.add_assoc]
    · omega
    · omega
  · rintro ⟨⟨short, sumFits, countFits⟩,
      ⟨⟨⟨⟨⟨lengthHere, keyHere⟩, startHere⟩, closeHere⟩, sumHere⟩, countHere⟩, rfl, room⟩
    simp only [← Nat.add_assoc] at startHere closeHere sumHere countHere
    refine ⟨by omega, _, ⟨short, lengthHere⟩, by omega, _, ⟨rfl, keyHere⟩, _,
      ⟨Timestamp.fits _, startHere⟩, _, ⟨Timestamp.fits _, closeHere⟩, _, ⟨sumFits, sumHere⟩, _,
      ⟨countFits, countHere⟩, ?_, by omega⟩
    rw [ofMs_ms, ofMs_ms]

/-- A loop reads its items exactly when their encodings stand in a row. -/
theorem readLoop_eq_ok {read : Nat → Parser (α × Nat)} {encode : α → Bytes}
    {Good : α → Prop} {limit : Nat}
    (item : ∀ {position value next}, read position = .ok (value, next) ↔
      Good value ∧ encode value <+: data.drop position ∧
        next = position + (encode value).length ∧ next ≤ limit)
    {count position final : Nat} {values : List α} (within : position ≤ limit) :
    readLoop read count position = .ok (values, final) ↔
      values.length = count ∧ (∀ value ∈ values, Good value) ∧
        values.flatMap encode <+: data.drop position ∧
        final = position + (values.flatMap encode).length ∧ final ≤ limit := by
  induction count generalizing position final values with
  | zero =>
    simp only [readLoop, pure_eq_ok, Prod.mk.injEq, List.length_eq_zero_iff]
    constructor
    · rintro ⟨rfl, rfl⟩
      exact ⟨rfl, by simp, List.nil_prefix, rfl, within⟩
    · rintro ⟨rfl, _, _, rfl, _⟩
      exact ⟨rfl, rfl⟩
  | succ count inductionHypothesis =>
    simp only [readLoop, bind_eq_ok, pure_eq_ok, Prod.exists, Prod.mk.injEq, item]
    constructor
    · rintro ⟨value, next, ⟨good, here, rfl, inside⟩, rest, _, later, rfl, rfl⟩
      obtain ⟨few, goods, restHere, rfl, final⟩ := (inductionHypothesis inside).mp later
      refine ⟨by simp [few], by simpa using ⟨good, goods⟩, ?_, ?_, final⟩
      · exact append_prefix_drop.mpr ⟨here, restHere⟩
      · rw [List.flatMap_cons, List.length_append, Nat.add_assoc]
    · rintro ⟨few, goods, here, rfl, inside⟩
      cases values with
      | nil => simp at few
      | cons value rest =>
        rw [List.flatMap_cons, append_prefix_drop] at here
        rw [List.flatMap_cons, List.length_append, ← Nat.add_assoc] at inside ⊢
        have earlier : position + (encode value).length ≤ limit := by omega
        refine ⟨value, _, ⟨goods value (by simp), here.1, rfl, earlier⟩, rest, _, ?_, rfl, rfl⟩
        apply (inductionHypothesis earlier).mpr
        exact ⟨by simpa using few, fun other member => goods other (by simp [member]), here.2, rfl,
          inside⟩

theorem length_flatMap_encodeWindow (windows : List Window) :
    (windows.flatMap Window.encode).length = 16 * windows.length := by
  induction windows with
  | nil => rfl
  | cons window rest inductionHypothesis =>
    rw [List.flatMap_cons, List.length_append, length_encodeWindow, inductionHypothesis,
      List.length_cons]
    omega

theorem readFired_eq_ok {bodyEnd position final : Nat} {windows : List Window} :
    readFired data bodyEnd position = .ok (windows, final) ↔
      windows.length < 2 ^ 64 ∧ encodeWindows windows <+: data.drop position ∧
        final = position + (encodeWindows windows).length ∧ final ≤ bodyEnd := by
  have item : ∀ {position value next}, (do
      rejectIf (position + 16 > bodyEnd)
      readWindow data position : Parser (Window × Nat)) = .ok (value, next) ↔
      True ∧ value.encode <+: data.drop position ∧ next = position + value.encode.length ∧
        next ≤ bodyEnd := by
    intro position value next
    simp only [bind_eq_ok, rejectIf_eq_ok, readWindow_eq_ok, length_encodeWindow, exists_const]
    constructor
    · rintro ⟨room, here, rfl⟩
      exact ⟨trivial, here, rfl, by omega⟩
    · rintro ⟨_, here, rfl, room⟩
      exact ⟨by omega, here, rfl⟩
  simp only [readFired, bind_eq_ok, rejectIf_eq_ok, readLE64_eq_ok, exists_const,
    encodeWindows, append_prefix_drop, length_encode, List.length_append]
  constructor
  · rintro ⟨room, count, ⟨fits, countHere⟩, few, loop⟩
    obtain ⟨rfl, _, here, rfl, inside⟩ := (readLoop_eq_ok item (by omega)).mp loop
    exact ⟨fits, ⟨countHere, here⟩, by omega, inside⟩
  · rintro ⟨fits, ⟨countHere, here⟩, rfl, inside⟩
    have size := length_flatMap_encodeWindow windows
    have few : ¬ windows.length > (bodyEnd - (position + 8)) / 16 := by omega
    refine ⟨by omega, _, ⟨fits, countHere⟩, few, ?_⟩
    apply (readLoop_eq_ok item (by omega)).mpr
    exact ⟨rfl, by simp, here, by omega, by omega⟩

theorem readRefired_eq_ok {bodyEnd position final : Nat} {fired windows : List Window}
    (within : bodyEnd ≤ data.length) :
    readRefired data bodyEnd fired position = .ok (windows, final) ↔
      windows.length < 2 ^ 64 ∧ (∀ window ∈ windows, window ∈ fired) ∧
        encodeWindows windows <+: data.drop position ∧
        final = position + (encodeWindows windows).length ∧ final ≤ bodyEnd := by
  -- the loop itself only stays inside the file; the count keeps it inside the body
  have item : ∀ {position value next}, (do
      let read ← readWindow data position
      rejectIf (read.1 ∉ fired)
      pure read : Parser (Window × Nat)) = .ok (value, next) ↔
      value ∈ fired ∧ value.encode <+: data.drop position ∧
        next = position + value.encode.length ∧ next ≤ data.length := by
    intro position value next
    simp only [bind_eq_ok, rejectIf_eq_ok, Prod.exists, pure_eq_ok, readWindow_eq_ok,
      length_encodeWindow, exists_const, not_not, Prod.mk.injEq]
    constructor
    · rintro ⟨window, _, ⟨here, rfl⟩, known, rfl, rfl⟩
      have size := here.length_le
      rw [length_encodeWindow, List.length_drop] at size
      exact ⟨known, here, rfl, by omega⟩
    · rintro ⟨known, here, rfl, _⟩
      exact ⟨value, _, ⟨here, rfl⟩, known, rfl, rfl⟩
  simp only [readRefired, bind_eq_ok, rejectIf_eq_ok, readLE64_eq_ok, exists_const,
    encodeWindows, append_prefix_drop, length_encode, List.length_append]
  constructor
  · rintro ⟨room, count, ⟨fits, countHere⟩, few, loop⟩
    obtain ⟨rfl, known, here, rfl, inside⟩ := (readLoop_eq_ok item (by omega)).mp loop
    have size := length_flatMap_encodeWindow windows
    exact ⟨fits, known, ⟨countHere, here⟩, by omega, by omega⟩
  · rintro ⟨fits, known, ⟨countHere, here⟩, rfl, inside⟩
    have size := length_flatMap_encodeWindow windows
    have few : ¬ windows.length > (bodyEnd - (position + 8)) / 16 := by omega
    refine ⟨by omega, _, ⟨fits, countHere⟩, few, ?_⟩
    apply (readLoop_eq_ok item (by omega)).mpr
    exact ⟨rfl, known, here, by omega, by omega⟩

/-! ## The grammar -/

/-- A section of windows that only later versions have. -/
def optionalWindows (present : Prop) [Decidable present] (windows : List Window) : Bytes :=
  if present then encodeWindows windows else []

/-- The file of a version without its trailer: the header, the panes and the sections
of windows. -/
def bodyLayout (version : Nat) (contents : CheckpointData) : Bytes :=
  encode 4 checkpointMagic ++ encode 4 version ++ encode 8 contents.offset ++
    encodeSigned 8 contents.watermark.ms ++ encode 8 contents.panes.length ++
    contents.panes.flatMap PaneEntry.encode ++
    optionalWindows (2 ≤ version) contents.firedWindows ++
    optionalWindows (3 ≤ version) contents.refiredWindows

/-- The file of a version. The trailer repeats the number of panes and adds the
checksum of what is before it. -/
def fileLayout (version : Nat) (contents : CheckpointData) : Bytes :=
  bodyLayout version contents ++ encode 8 contents.panes.length ++
    encode 4 (crc32c (bodyLayout version contents)).toNat

/-- The contents fit their fields, a section that the version lacks is empty, and a
pending window has fired. -/
structure Grammatical (version : Nat) (contents : CheckpointData) : Prop where
  supported : 1 ≤ version ∧ version ≤ 3
  offset : contents.offset < 2 ^ 64
  panes : contents.panes.length < 2 ^ 64
  entries : ∀ entry ∈ contents.panes, PaneFits entry
  fired : contents.firedWindows.length < 2 ^ 64
  refired : contents.refiredWindows.length < 2 ^ 64
  unfired : ¬ 2 ≤ version → contents.firedWindows = []
  unrefired : ¬ 3 ≤ version → contents.refiredWindows = []
  pending : ∀ window ∈ contents.refiredWindows, window ∈ contents.firedWindows

theorem readFiredSection_eq_ok {version bodyEnd position final : Nat} {windows : List Window}
    (within : position ≤ bodyEnd) :
    readFiredSection data version bodyEnd position = .ok (windows, final) ↔
      windows.length < 2 ^ 64 ∧ (¬ 2 ≤ version → windows = []) ∧
        optionalWindows (2 ≤ version) windows <+: data.drop position ∧
        final = position + (optionalWindows (2 ≤ version) windows).length ∧
        final ≤ bodyEnd := by
  by_cases present : 2 ≤ version
  · simp only [readFiredSection, optionalWindows, ge_iff_le, present, if_true,
      readFired_eq_ok, not_true, false_implies, true_and]
  · simp only [readFiredSection, optionalWindows, ge_iff_le, present, if_false, pure_eq_ok,
      Prod.mk.injEq, not_false_iff, true_implies, List.nil_prefix, true_and, List.length_nil,
      Nat.add_zero]
    constructor
    · rintro ⟨rfl, rfl⟩
      exact ⟨by decide, rfl, rfl, within⟩
    · rintro ⟨_, rfl, rfl, _⟩
      exact ⟨rfl, rfl⟩

theorem readRefiredSection_eq_ok {version bodyEnd position final : Nat}
    {fired windows : List Window} (within : position ≤ bodyEnd)
    (inside : bodyEnd ≤ data.length) :
    readRefiredSection data version bodyEnd fired position = .ok (windows, final) ↔
      windows.length < 2 ^ 64 ∧ (¬ 3 ≤ version → windows = []) ∧
        (∀ window ∈ windows, window ∈ fired) ∧
        optionalWindows (3 ≤ version) windows <+: data.drop position ∧
        final = position + (optionalWindows (3 ≤ version) windows).length ∧
        final ≤ bodyEnd := by
  by_cases present : 3 ≤ version
  · simp only [readRefiredSection, optionalWindows, ge_iff_le, present, if_true,
      readRefired_eq_ok inside, not_true,
      false_implies, true_and]
  · simp only [readRefiredSection, optionalWindows, ge_iff_le, present, if_false, pure_eq_ok,
      Prod.mk.injEq, not_false_iff, true_implies, List.nil_prefix, true_and, List.length_nil,
      Nat.add_zero]
    constructor
    · rintro ⟨rfl, rfl⟩
      exact ⟨by decide, rfl, by simp, rfl, within⟩
    · rintro ⟨_, rfl, _, rfl, _⟩
      exact ⟨rfl, rfl⟩

theorem readEntries_eq_ok {bodyEnd count position final : Nat} {entries : List PaneEntry}
    (within : position ≤ bodyEnd) :
    readLoop (readEntry data bodyEnd) count position = .ok (entries, final) ↔
      entries.length = count ∧ (∀ entry ∈ entries, PaneFits entry) ∧
        entries.flatMap PaneEntry.encode <+: data.drop position ∧
        final = position + (entries.flatMap PaneEntry.encode).length ∧ final ≤ bodyEnd :=
  readLoop_eq_ok readEntry_eq_ok within

/-- The panes take at least 36 bytes each. -/
theorem length_entries (entries : List PaneEntry) :
    36 * entries.length ≤ (entries.flatMap PaneEntry.encode).length := by
  induction entries with
  | nil => simp
  | cons entry rest inductionHypothesis =>
    rw [List.flatMap_cons, List.length_append, length_encodeEntry, List.length_cons]
    omega

theorem length_bodyLayout (version : Nat) (contents : CheckpointData) :
    (bodyLayout version contents).length =
      32 + (contents.panes.flatMap PaneEntry.encode).length +
        (optionalWindows (2 ≤ version) contents.firedWindows).length +
        (optionalWindows (3 ≤ version) contents.refiredWindows).length := by
  simp only [bodyLayout, List.length_append, length_encode, length_encodeSigned]

/-- The fields of the body stand at their positions. -/
theorem bodyLayout_prefix_iff {version : Nat} :
    bodyLayout version contents <+: data.drop 0 ↔
      encode 4 checkpointMagic <+: data.drop 0 ∧ encode 4 version <+: data.drop 4 ∧
      encode 8 contents.offset <+: data.drop 8 ∧
      encodeSigned 8 contents.watermark.ms <+: data.drop 16 ∧
      encode 8 contents.panes.length <+: data.drop 24 ∧
      contents.panes.flatMap PaneEntry.encode <+: data.drop 32 ∧
      optionalWindows (2 ≤ version) contents.firedWindows <+:
        data.drop (32 + (contents.panes.flatMap PaneEntry.encode).length) ∧
      optionalWindows (3 ≤ version) contents.refiredWindows <+:
        data.drop (32 + (contents.panes.flatMap PaneEntry.encode).length +
          (optionalWindows (2 ≤ version) contents.firedWindows).length) := by
  simp only [bodyLayout, append_prefix_drop, List.length_append, length_encode,
    length_encodeSigned, and_assoc, Nat.zero_add, Nat.reduceAdd]

/-- A file is the layout when the body and the two fields of the trailer stand at their
positions and nothing follows. -/
theorem eq_fileLayout_iff {version : Nat} :
    data = fileLayout version contents ↔
      data.length = (bodyLayout version contents).length + 12 ∧
      bodyLayout version contents <+: data.drop 0 ∧
      encode 8 contents.panes.length <+: data.drop (bodyLayout version contents).length ∧
      encode 4 (crc32c (bodyLayout version contents)).toNat <+:
        data.drop ((bodyLayout version contents).length + 8) := by
  have size : (fileLayout version contents).length =
      (bodyLayout version contents).length + 12 := by
    simp only [fileLayout, List.length_append, length_encode]
  have positions : fileLayout version contents <+: data.drop 0 ↔
      bodyLayout version contents <+: data.drop 0 ∧
      encode 8 contents.panes.length <+: data.drop (bodyLayout version contents).length ∧
      encode 4 (crc32c (bodyLayout version contents)).toNat <+:
        data.drop ((bodyLayout version contents).length + 8) := by
    simp only [fileLayout, append_prefix_drop, List.length_append, length_encode, and_assoc,
      Nat.zero_add]
  rw [← positions, ← size, List.drop_zero]
  constructor
  · intro same
    exact ⟨congrArg List.length same, same ▸ List.prefix_rfl⟩
  · rintro ⟨length, here⟩
    exact (here.eq_of_length length.symm).symm

/-- Every accepted file is the layout of the returned contents. -/
theorem parse_sound (parsed : parse data = .ok contents) :
    ∃ version, Grammatical version contents ∧ data = fileLayout version contents := by
  simp only [parse, bind_eq_ok, rejectIf_eq_ok, readLE32_eq_ok, readLE64_eq_ok, readSLE64_eq_ok,
    readBytes_eq_ok, pure_eq_ok, Prod.exists, exists_const, not_not] at parsed
  obtain ⟨size, _, ⟨_, crcHere⟩, body, ⟨bodyLength, bodyHere⟩, rfl, _, ⟨_, magicHere⟩, rfl,
    version, ⟨_, versionHere⟩, supported, offset, ⟨offsetFits, offsetHere⟩, watermark,
    ⟨watermarkFits, watermarkHere⟩, _, ⟨countFits, countHere⟩, _, ⟨_, trailerHere⟩, rfl, _, panes,
    _, entries, fired, _, firedSection, refired, _, refiredSection, atEnd, rfl⟩ := parsed
  obtain ⟨rfl, entriesFit, panesHere, rfl, panesEnd⟩ := (readEntries_eq_ok (by omega)).mp entries
  obtain ⟨firedFits, unfired, firedHere, rfl, firedEnd⟩ :=
    (readFiredSection_eq_ok panesEnd).mp firedSection
  obtain ⟨refiredFits, unrefired, pending, refiredHere, rfl, _⟩ :=
    (readRefiredSection_eq_ok firedEnd (by omega)).mp refiredSection
  have layout : bodyLayout version
      { offset, watermark := .ofMs watermark, panes, firedWindows := fired,
        refiredWindows := refired } <+: data.drop 0 := by
    rw [bodyLayout_prefix_iff, watermarkFits.ofMs]
    exact ⟨magicHere, versionHere, offsetHere, watermarkHere, countHere, panesHere, firedHere,
      refiredHere⟩
  have length := length_bodyLayout version
    { offset, watermark := .ofMs watermark, panes, firedWindows := fired,
      refiredWindows := refired }
  dsimp only at length
  have same : body = bodyLayout version
      { offset, watermark := .ofMs watermark, panes, firedWindows := fired,
        refiredWindows := refired } := by
    apply List.prefix_of_prefix_length_le bodyHere layout (by omega) |>.eq_of_length
    omega
  refine ⟨version, ?_, eq_fileLayout_iff.mpr ⟨by omega, layout, ?_, ?_⟩⟩
  · exact ⟨by omega, offsetFits, countFits, entriesFit, firedFits, refiredFits, unfired, unrefired,
      pending⟩
  · rwa [length, atEnd]
  · rw [← same, bodyLength]
    rwa [show data.length - 12 + 8 = data.length - 4 by omega]

/-- The layout of grammatical contents is accepted. -/
theorem parse_fileLayout {version : Nat} (grammatical : Grammatical version contents) :
    parse (fileLayout version contents) = .ok contents := by
  obtain ⟨supported, offsetFits, countFits, entriesFit, firedFits, refiredFits, unfired, unrefired,
    pending⟩ := grammatical
  obtain ⟨size, layout, trailerHere, crcHere⟩ :=
    eq_fileLayout_iff.mp (Eq.refl (fileLayout version contents))
  obtain ⟨magicHere, versionHere, offsetHere, watermarkHere, countHere, panesHere, firedHere,
    refiredHere⟩ := bodyLayout_prefix_iff.mp layout
  have length := length_bodyLayout version contents
  have panesSize := length_entries contents.panes
  have bodyEnd : (fileLayout version contents).length - 12 =
      (bodyLayout version contents).length := by omega
  have crcPlace : (fileLayout version contents).length - 4 =
      (bodyLayout version contents).length + 8 := by omega
  simp only [parse, bind_eq_ok, rejectIf_eq_ok, readLE32_eq_ok, readLE64_eq_ok, readSLE64_eq_ok,
    readBytes_eq_ok, pure_eq_ok, Prod.exists, exists_const, not_not, bodyEnd, crcPlace]
  refine ⟨by omega, _, ⟨UInt32.toNat_lt _, crcHere⟩, _, ⟨rfl, layout⟩, rfl, _,
    ⟨by decide, magicHere⟩, rfl, version, ⟨by omega, versionHere⟩, by omega, _,
    ⟨offsetFits, offsetHere⟩, _, ⟨Timestamp.fits _, watermarkHere⟩, _, ⟨countFits, countHere⟩, _,
    ⟨countFits, trailerHere⟩, rfl, by omega, contents.panes, _,
    (readEntries_eq_ok (by omega)).mpr ⟨rfl, entriesFit, panesHere, rfl, by omega⟩,
    contents.firedWindows, _,
    (readFiredSection_eq_ok (by omega)).mpr ⟨firedFits, unfired, firedHere, rfl, by omega⟩,
    contents.refiredWindows, _,
    (readRefiredSection_eq_ok (by omega) (by omega)).mpr
      ⟨refiredFits, unrefired, pending, refiredHere, rfl, by omega⟩, by omega, ?_⟩
  rw [ofMs_ms]

/-! ## No read leaves the file -/

/-- The parser does not end with a read outside the file. -/
def Bounded (parser : Parser α) : Prop := parser ≠ .error .outOfBounds

theorem Bounded.pure (value : α) : Bounded (pure value : Parser α) := by
  intro outside
  cases outside

theorem Bounded.bind {first : Parser α} {next : α → Parser β} (bounded : Bounded first)
    (later : ∀ value, first = .ok value → Bounded (next value)) : Bounded (first >>= next) := by
  cases first with
  | error rejection => exact fun outside => bounded (by cases outside; rfl)
  | ok value => exact later value rfl

theorem Bounded.rejectIf (condition : Prop) [Decidable condition] :
    Bounded (rejectIf condition) := by
  intro outside
  unfold CheckpointReader.rejectIf at outside
  split at outside <;> cases outside

/-- A check can be assumed behind it. -/
theorem Bounded.check {condition : Prop} [Decidable condition] {next : Unit → Parser α}
    (later : ¬ condition → Bounded (next ())) :
    Bounded (CheckpointReader.rejectIf condition >>= next) :=
  Bounded.bind (Bounded.rejectIf condition) fun _ passed => later (rejectIf_eq_ok.mp passed)

theorem Bounded.readBytes {position length : Nat} (inside : position + length ≤ data.length) :
    Bounded (readBytes data position length) := by
  have read : CheckpointReader.readBytes data position length =
      .ok ((data.drop position).take length) := by
    apply readBytes_eq_ok.mpr
    refine ⟨?_, List.take_prefix _ _⟩
    rw [List.length_take, List.length_drop]
    omega
  rw [read]
  exact Bounded.pure _

theorem Bounded.readLE32 (inside : position + 4 ≤ data.length) :
    Bounded (readLE32 data position) :=
  Bounded.bind (Bounded.readBytes inside) fun _ _ => Bounded.pure _

theorem Bounded.readLE64 (inside : position + 8 ≤ data.length) :
    Bounded (readLE64 data position) :=
  Bounded.bind (Bounded.readBytes inside) fun _ _ => Bounded.pure _

theorem Bounded.readSLE64 (inside : position + 8 ≤ data.length) :
    Bounded (readSLE64 data position) :=
  Bounded.bind (Bounded.readBytes inside) fun _ _ => Bounded.pure _

theorem Bounded.readWindow (inside : position + 16 ≤ data.length) :
    Bounded (readWindow data position) := by
  refine Bounded.bind (Bounded.readSLE64 (by omega)) fun _ _ => ?_
  exact Bounded.bind (Bounded.readSLE64 (by omega)) fun _ _ => Bounded.pure _

theorem Bounded.readEntry {bodyEnd position : Nat} (inside : bodyEnd ≤ data.length) :
    Bounded (readEntry data bodyEnd position) := by
  refine Bounded.check fun room => ?_
  refine Bounded.bind (Bounded.readLE32 (by omega)) fun keyLen _ => ?_
  refine Bounded.check fun enough => ?_
  refine Bounded.bind (Bounded.readBytes (by omega)) fun _ _ => ?_
  refine Bounded.bind (Bounded.readSLE64 (by omega)) fun _ _ => ?_
  refine Bounded.bind (Bounded.readSLE64 (by omega)) fun _ _ => ?_
  refine Bounded.bind (Bounded.readSLE64 (by omega)) fun _ _ => ?_
  exact Bounded.bind (Bounded.readLE64 (by omega)) fun _ _ => Bounded.pure _

/-- A loop is bounded when an invariant of the remaining count and the position makes
every round bounded. -/
theorem Bounded.readLoop {read : Nat → Parser (α × Nat)} (Room : Nat → Nat → Prop)
    (round : ∀ {count position}, Room (count + 1) position →
      Bounded (read position) ∧
        ∀ {value next}, read position = .ok (value, next) → Room count next)
    {count position : Nat} (room : Room count position) :
    Bounded (readLoop read count position) := by
  induction count generalizing position with
  | zero => exact Bounded.pure _
  | succ count inductionHypothesis =>
    obtain ⟨bounded, onward⟩ := round room
    refine Bounded.bind bounded fun ⟨_, _⟩ found => ?_
    exact Bounded.bind (inductionHypothesis (onward found)) fun _ _ => Bounded.pure _

theorem Bounded.readFired {bodyEnd position : Nat} (inside : bodyEnd ≤ data.length) :
    Bounded (readFired data bodyEnd position) := by
  refine Bounded.check fun room => ?_
  refine Bounded.bind (Bounded.readLE64 (by omega)) fun numFired _ => ?_
  refine Bounded.check fun few => ?_
  refine Bounded.readLoop (fun _ _ => True) ?_ trivial
  intro count position _
  exact ⟨Bounded.check fun enough => Bounded.readWindow (by omega), fun _ => trivial⟩

/-- The loop over the pending windows has no check of its own; the count leaves room
for all of them. -/
theorem Bounded.readRefired {bodyEnd position : Nat} {fired : List Window}
    (inside : bodyEnd ≤ data.length) : Bounded (readRefired data bodyEnd fired position) := by
  refine Bounded.check fun room => ?_
  refine Bounded.bind (Bounded.readLE64 (by omega)) fun number _ => ?_
  refine Bounded.check fun few => ?_
  refine Bounded.readLoop (fun count position => position + 16 * count ≤ bodyEnd) ?_ (by omega)
  intro count position enough
  constructor
  · refine Bounded.bind (Bounded.readWindow (by omega)) fun _ _ => ?_
    exact Bounded.check fun _ => Bounded.pure _
  · intro window next found
    simp only [bind_eq_ok, rejectIf_eq_ok, Prod.exists, pure_eq_ok, readWindow_eq_ok,
      Prod.mk.injEq] at found
    obtain ⟨_, _, ⟨_, rfl⟩, _, _, _, rfl⟩ := found
    omega

theorem parse_bounded (data : Bytes) : Bounded (parse data) := by
  refine Bounded.check fun long => ?_
  refine Bounded.bind (Bounded.readLE32 (by omega)) fun _ _ => ?_
  refine Bounded.bind (Bounded.readBytes (by omega)) fun _ _ => ?_
  refine Bounded.check fun _ => ?_
  refine Bounded.bind (Bounded.readLE32 (by omega)) fun _ _ => ?_
  refine Bounded.check fun _ => ?_
  refine Bounded.bind (Bounded.readLE32 (by omega)) fun version _ => ?_
  refine Bounded.check fun _ => ?_
  refine Bounded.bind (Bounded.readLE64 (by omega)) fun _ _ => ?_
  refine Bounded.bind (Bounded.readSLE64 (by omega)) fun _ _ => ?_
  refine Bounded.bind (Bounded.readLE64 (by omega)) fun number _ => ?_
  refine Bounded.bind (Bounded.readLE64 (by omega)) fun _ _ => ?_
  refine Bounded.check fun _ => ?_
  refine Bounded.check fun _ => ?_
  have panes : Bounded (readLoop (readEntry data (data.length - 12)) number 32) := by
    refine Bounded.readLoop (fun _ _ => True) ?_ trivial
    exact fun _ => ⟨Bounded.readEntry (by omega), fun _ => trivial⟩
  refine Bounded.bind panes fun ⟨_, _⟩ _ => ?_
  refine Bounded.bind ?_ fun ⟨_, _⟩ _ => ?_
  · unfold readFiredSection
    split
    · exact Bounded.readFired (by omega)
    · exact Bounded.pure _
  refine Bounded.bind ?_ fun ⟨_, _⟩ _ => ?_
  · unfold readRefiredSection
    split
    · exact Bounded.readRefired (by omega)
    · exact Bounded.pure _
  exact Bounded.check fun _ => Bounded.pure _

theorem tryLoad_eq_some :
    tryLoad data = some contents ↔ parse data = .ok contents := by
  unfold tryLoad
  cases parse data <;> simp [Except.toOption]

/-- **The parser accepts exactly its grammar.** No read leaves the file, and the
contents are returned exactly when the file is their layout in one of the three
versions. -/
theorem tryLoad_accepts_grammar (data : Bytes) :
    parse data ≠ .error .outOfBounds ∧
      ∀ contents, tryLoad data = some contents ↔
        ∃ version, Grammatical version contents ∧ data = fileLayout version contents := by
  refine ⟨parse_bounded data, fun contents => ?_⟩
  rw [tryLoad_eq_some]
  constructor
  · exact parse_sound
  · rintro ⟨version, grammatical, rfl⟩
    exact parse_fileLayout grammatical

end Stormglass.CheckpointReader

namespace Stormglass.CheckpointWriter

open LittleEndian CheckpointReader

theorem totalPanes_eq_length (state : KeyedWindowState) :
    state.totalPanes = state.forEachPane.length := by
  simp [KeyedWindowState.totalPanes, KeyedWindowState.forEachPane, List.length_flatMap]

/-- What the writer stores. -/
def contents (offset : Nat) (watermark : Timestamp) {state : KeyedWindowState}
    (walk : state.Walk) : CheckpointData where
  offset := offset
  watermark := watermark
  panes := walk.panes
  firedWindows := walk.firedWindows
  refiredWindows := walk.refiredWindows

/-- The writer produces the layout of version 3. -/
theorem payload_eq (offset : Nat) (watermark : Timestamp) {state : KeyedWindowState}
    (walk : state.Walk) :
    payload offset watermark state walk = fileLayout 3 (contents offset watermark walk) := by
  have count : state.totalPanes = walk.panes.length := by
    rw [totalPanes_eq_length, walk.allPanes.length_eq]
  rw [payload, body, count]
  rfl

end Stormglass.CheckpointWriter
