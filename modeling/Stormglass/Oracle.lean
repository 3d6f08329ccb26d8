import Stormglass.KeyedWindowState

/-!
# The differential oracle

The oracle groups records by key and window without firing anything. It keeps a
record out of a window that the engine would have closed, counts such records, and
reports every group once at the end.

`dedupEngineResults` reduces the engine's output to one result for each key and
window, the one with the largest count.
-/

namespace Stormglass

structure OracleConfig where
  windowSize : Int
  slide : Int := 0
  allowedLateness : Nat := 0
deriving DecidableEq

structure Oracle where
  config : OracleConfig
  data : Std.ExtTreeMap Bytes (Std.ExtTreeMap Window Pane) := ∅
  predictedDrops : Nat := 0
  currentWatermark : Timestamp := ⊥

namespace Oracle

/-- A zero slide means tumbling windows. -/
def create (config : OracleConfig) : Oracle where
  config := if config.slide = 0 then { config with slide := config.windowSize } else config

/-- The loop over window starts, downwards from the last one. The fuel bounds its
iterations. -/
def startLoop (config : OracleConfig) (time lastStart : Int) : Nat → Int → List Window
  | 0, _ => []
  | fuel + 1, start =>
      if lastStart - config.windowSize < start ∧ 0 ≤ start then
        (if start ≤ time ∧ time < start + config.windowSize then
            [windowAt start config.windowSize]
          else []) ++
          startLoop config time lastStart fuel (start - config.slide)
      else []

def assignWindows (oracle : Oracle) (eventTime : Timestamp) : List Window :=
  let config := oracle.config
  let time := eventTime.ms
  if config.slide = config.windowSize then
    [windowAt (time.tdiv config.windowSize * config.windowSize) config.windowSize]
  else
    let lastStart := time.tdiv config.slide * config.slide
    startLoop config time lastStart (config.windowSize / config.slide + 1).toNat lastStart

/-- The pane of a key in a window, if there is one. -/
def pane (oracle : Oracle) (key : Bytes) (window : Window) : Option Pane :=
  (oracle.data[key]?).bind (fun windows => windows[window]?)

/-- Add a value to the pane of its key and window. -/
def addPane (oracle : Oracle) (key : Bytes) (window : Window) (value : Int) : Oracle :=
  let pane := (oracle.pane key window).getD {}
  { oracle with
    data := oracle.data.insert key ((oracle.data.getD key ∅).insert window
      { sum := pane.sum + value, count := pane.count + 1 }) }

/-- The window has closed before the record arrived. -/
def Drops (oracle : Oracle) (window : Window) : Prop :=
  ⊥ < oracle.currentWatermark ∧
    Timestamp.ofMs (window.close.ms + oracle.config.allowedLateness) ≤ oracle.currentWatermark

instance (oracle : Oracle) (window : Window) : Decidable (oracle.Drops window) :=
  inferInstanceAs (Decidable (_ ∧ _))

/-- The loop over the windows of a record, with its flag. -/
def addToWindows (record : Record) : List Window → Oracle → (anyDropped : Bool) → Oracle × Bool
  | [], oracle, anyDropped => (oracle, anyDropped)
  | window :: rest, oracle, anyDropped =>
      if oracle.Drops window then addToWindows record rest oracle true
      else addToWindows record rest (oracle.addPane record.key window record.value) anyDropped

def addRecord (oracle : Oracle) (record : Record) : Oracle :=
  let added := addToWindows record (oracle.assignWindows record.eventTime) oracle false
  if added.2 = true then { added.1 with predictedDrops := added.1.predictedDrops + 1 }
  else added.1

def advanceWatermark (oracle : Oracle) (watermark : Timestamp) : Oracle :=
  if oracle.currentWatermark < watermark then { oracle with currentWatermark := watermark }
  else oracle

/-- How the differential harness feeds an item to the oracle. -/
def feed (oracle : Oracle) : BatchItem → Oracle
  | .record record => oracle.addRecord record
  | .control { type := .watermark, watermark, .. } => oracle.advanceWatermark watermark
  | .control { type := .checkpointBarrier, .. } => oracle

def feedAll (oracle : Oracle) (items : Batch) : Oracle := items.foldl feed oracle

/-- The order of the reported results: by window start, then by key. -/
def reportOrder (left right : WindowResult) : Bool :=
  if left.window.start ≠ right.window.start then left.window.start < right.window.start
  else (compare left.key right.key).isLE

def computeResults (oracle : Oracle) : List WindowResult :=
  (oracle.data.toList.flatMap (fun entry =>
    entry.2.toList.map (fun group =>
      { key := entry.1, window := group.1, result := group.2.result }))).mergeSort reportOrder

end Oracle

/-- A key and a window. -/
structure KeyWindow where
  key : Bytes
  window : Window
deriving DecidableEq

namespace KeyWindow

instance : Ord KeyWindow where
  compare := compareLex (compareOn KeyWindow.key) (compareOn KeyWindow.window)

instance : Std.TransOrd KeyWindow :=
  inferInstanceAs (Std.TransCmp (compareLex (compareOn KeyWindow.key) (compareOn KeyWindow.window)))

instance : Std.LawfulEqOrd KeyWindow where
  eq_of_compare {left right} same := by
    change (compareOn KeyWindow.key left right).then (compareOn KeyWindow.window left right) = .eq
      at same
    rw [Ordering.then_eq_eq] at same
    obtain ⟨key, window⟩ := same
    cases left
    cases right
    rw [compareOn, Std.LawfulEqOrd.compare_eq_iff_eq] at key window
    simp only at key window
    rw [key, window]

end KeyWindow

/-- The key and window that a result is about. -/
def WindowResult.place (result : WindowResult) : KeyWindow :=
  { key := result.key, window := result.window }

/-- One step of the reduction: keep a result that is the first or has a larger
count. -/
def keepLarger (best : Std.ExtTreeMap KeyWindow WindowResult) (result : WindowResult) :
    Std.ExtTreeMap KeyWindow WindowResult :=
  match best[result.place]? with
  | none => best.insert result.place result
  | some kept =>
      if kept.result.count < result.result.count then best.insert result.place result else best

def dedupEngineResults (results : List WindowResult) : List WindowResult :=
  (results.foldl keepLarger ∅).toList.map Prod.snd

end Stormglass
