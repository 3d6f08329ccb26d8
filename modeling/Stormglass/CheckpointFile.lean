import Stormglass.Crc32c
import Stormglass.KeyedProcessor

/-!
# The checkpoint file

`CheckpointWriter` lays a state out as a header, the panes, the fired windows, the
windows that await a re-fire, and a trailer with the number of panes and the CRC-32C
of everything before it. `CheckpointReader::TryLoad` reads such a file, and the files
of the two earlier versions, which end before the second or before the third section.

The reader works by position on the bytes. Positions are natural numbers: no sum of a
position in a file and a 32-bit length leaves the range of `std::size_t`. A read outside
the bytes is an outcome of its own, so that the model does not hide one. A field is read
exactly when its encoding stands at the position, and from this a file is accepted exactly
when it is the layout of the data that is returned.
-/

namespace Stormglass

open LittleEndian

/-- The magic number of a checkpoint file. -/
def checkpointMagic : Nat := 0x4B434753

namespace PaneEntry

/-- One entry of the body. The length of the key is cut to 32 bits. -/
def encode (entry : PaneEntry) : Bytes :=
  LittleEndian.encode 4 entry.key.length ++ entry.key ++
    encodeSigned 8 entry.window.start.ms ++ encodeSigned 8 entry.window.close.ms ++
    encodeSigned 8 entry.sum ++ LittleEndian.encode 8 entry.count

end PaneEntry

def Window.encode (window : Window) : Bytes :=
  encodeSigned 8 window.start.ms ++ encodeSigned 8 window.close.ms

/-- A counted list of windows. -/
def encodeWindows (windows : List Window) : Bytes :=
  LittleEndian.encode 8 windows.length ++ windows.flatMap Window.encode

def KeyedWindowState.totalPanes (state : KeyedWindowState) : Nat :=
  (state.windows.toList.map (fun entry => entry.2.size)).sum

namespace CheckpointWriter

/-- The header, the panes, the fired windows and the pending windows. -/
def body (offset : Nat) (watermark : Timestamp) (state : KeyedWindowState)
    (walk : state.Walk) : Bytes :=
  encode 4 checkpointMagic ++ encode 4 3 ++ encode 8 offset ++ encodeSigned 8 watermark.ms ++
    encode 8 state.totalPanes ++ walk.panes.flatMap PaneEntry.encode ++
    encodeWindows walk.firedWindows ++ encodeWindows walk.refiredWindows

/-- The bytes that `WriteCheckpoint` writes. -/
def payload (offset : Nat) (watermark : Timestamp) (state : KeyedWindowState)
    (walk : state.Walk := state.sorted) : Bytes :=
  let bytes := body offset watermark state walk
  bytes ++ encode 8 state.totalPanes ++ encode 4 (crc32c bytes).toNat

end CheckpointWriter

namespace CheckpointReader

/-- Why there is no data: `std::nullopt`, or a read outside the file. -/
inductive Rejection where
  | nullopt
  | outOfBounds
deriving DecidableEq

abbrev Parser := Except Rejection

/-- `return std::nullopt` under a condition. -/
def rejectIf (condition : Prop) [Decidable condition] : Parser Unit :=
  if condition then throw .nullopt else pure ()

def byteAt (data : Bytes) (index : Nat) : Parser UInt8 :=
  match data[index]? with
  | some byte => pure byte
  | none => throw .outOfBounds

def readBytes (data : Bytes) (position length : Nat) : Parser Bytes :=
  (List.range' position length).mapM (byteAt data)

def readLE32 (data : Bytes) (position : Nat) : Parser Nat := do
  return decode (← readBytes data position 4)

def readLE64 (data : Bytes) (position : Nat) : Parser Nat := do
  return decode (← readBytes data position 8)

def readSLE64 (data : Bytes) (position : Nat) : Parser Int := do
  return decodeSigned (← readBytes data position 8)

/-- A loop that reads a given number of items, each from where the last one ended. -/
def readLoop {α : Type} (read : Nat → Parser (α × Nat)) : Nat → Nat → Parser (List α × Nat)
  | 0, position => pure ([], position)
  | count + 1, position => do
      let (item, next) ← read position
      let (rest, final) ← readLoop read count next
      pure (item :: rest, final)

/-- The body of the loop over the panes. -/
def readEntry (data : Bytes) (bodyEnd position : Nat) : Parser (PaneEntry × Nat) := do
  rejectIf (position + 4 > bodyEnd)
  let keyLen ← readLE32 data position
  let position := position + 4
  rejectIf (position + keyLen + 32 > bodyEnd)
  let key ← readBytes data position keyLen
  let position := position + keyLen
  let start ← readSLE64 data position
  let close ← readSLE64 data (position + 8)
  let sum ← readSLE64 data (position + 16)
  let count ← readLE64 data (position + 24)
  pure ({ key, window := { start := .ofMs start, close := .ofMs close }, sum, count },
    position + 32)

def readWindow (data : Bytes) (position : Nat) : Parser (Window × Nat) := do
  let start ← readSLE64 data position
  let close ← readSLE64 data (position + 8)
  pure ({ start := .ofMs start, close := .ofMs close }, position + 16)

/-- The section of the fired windows. -/
def readFired (data : Bytes) (bodyEnd position : Nat) : Parser (List Window × Nat) := do
  rejectIf (position + 8 > bodyEnd)
  let numFired ← readLE64 data position
  let position := position + 8
  rejectIf (numFired > (bodyEnd - position) / 16)
  readLoop (fun position => do
    rejectIf (position + 16 > bodyEnd)
    readWindow data position) numFired position

/-- The section of the pending windows. -/
def readRefired (data : Bytes) (bodyEnd : Nat) (fired : List Window) (position : Nat) :
    Parser (List Window × Nat) := do
  rejectIf (bodyEnd - position < 8)
  let count ← readLE64 data position
  let position := position + 8
  rejectIf (count > (bodyEnd - position) / 16)
  readLoop (fun position => do
    let (window, next) ← readWindow data position
    rejectIf (window ∉ fired)
    pure (window, next)) count position

/-- Version 2 added the fired windows. -/
def readFiredSection (data : Bytes) (version bodyEnd position : Nat) :
    Parser (List Window × Nat) :=
  if version ≥ 2 then readFired data bodyEnd position else pure ([], position)

/-- Version 3 added the pending windows. -/
def readRefiredSection (data : Bytes) (version bodyEnd : Nat) (fired : List Window)
    (position : Nat) : Parser (List Window × Nat) :=
  if version ≥ 3 then readRefired data bodyEnd fired position else pure ([], position)

/-- `TryLoad` on the content of a file. -/
def parse (data : Bytes) : Parser CheckpointData := do
  rejectIf (data.length < 32 + 12)
  let bodyEnd := data.length - 12
  let storedCrc ← readLE32 data (data.length - 4)
  let computedCrc := crc32c (← readBytes data 0 bodyEnd)
  rejectIf (storedCrc ≠ computedCrc.toNat)
  let magic ← readLE32 data 0
  rejectIf (magic ≠ checkpointMagic)
  let version ← readLE32 data 4
  rejectIf (version = 0 ∨ version > 3)
  let offset ← readLE64 data 8
  let watermark ← readSLE64 data 16
  let numEntries ← readLE64 data 24
  let trailerCount ← readLE64 data bodyEnd
  rejectIf (trailerCount ≠ numEntries)
  rejectIf (numEntries > (bodyEnd - 32) / 36)
  let (panes, position) ← readLoop (readEntry data bodyEnd) numEntries 32
  let (firedWindows, position) ← readFiredSection data version bodyEnd position
  let (refiredWindows, position) ←
    readRefiredSection data version bodyEnd firedWindows position
  rejectIf (position ≠ bodyEnd)
  pure { offset, watermark := .ofMs watermark, panes, firedWindows, refiredWindows }

/-- `TryLoad` -/
def tryLoad (data : Bytes) : Option CheckpointData := (parse data).toOption

end CheckpointReader

end Stormglass
