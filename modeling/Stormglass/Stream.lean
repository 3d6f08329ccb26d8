import Mathlib

/-!
# Timestamps, records and in-band control

A stream is a sequence of items: data records and control records. A control
record is a watermark or a checkpoint barrier. Times are milliseconds in a
signed 64-bit representation, so a timestamp carries its range and the least and
greatest values are the bounds of its order.

The list functions below are observations of a stream; no source operation
computes them. They read the data records, the watermarks and the barriers of a
finite prefix.
-/

namespace Stormglass

/-- A byte string, as `std::string` and `std::vector<uint8_t>` store it. -/
abbrev Bytes := List UInt8

/-- Entries with other keys stay absent. -/
theorem absent_insert {κ α : Type} [Ord κ] [Std.TransOrd κ] [Std.LawfulEqOrd κ]
    {map : Std.ExtTreeMap κ α} {entry : κ × α} {entries : List (κ × α)}
    (fresh : entry.1 ∉ entries.map Prod.fst)
    (absent : ∀ other ∈ entry :: entries, other.1 ∉ map) :
    ∀ other ∈ entries, other.1 ∉ map.insert entry.1 entry.2 := by
  intro other member stored
  rcases Std.ExtTreeMap.mem_insert.mp stored with same | before
  · rw [Std.LawfulEqOrd.compare_eq_iff_eq] at same
    exact fresh (same ▸ List.mem_map_of_mem member)
  · exact absent other (List.mem_cons_of_mem _ member) before

/-- Inserting the entries of a map one after another gives the map. -/
theorem insertMany_toList {κ α : Type} [DecidableEq κ] [Ord κ] [Std.TransOrd κ]
    [Std.LawfulEqOrd κ] (map : Std.ExtTreeMap κ α) :
    (∅ : Std.ExtTreeMap κ α).insertMany map.toList = map := by
  apply Std.ExtTreeMap.ext_getElem?
  intro key
  cases found : map[key]? with
  | some value =>
    exact Std.ExtTreeMap.getElem?_insertMany_list_of_mem Std.ReflOrd.compare_self
      Std.ExtTreeMap.distinct_keys_toList (Std.ExtTreeMap.mem_toList_iff_getElem?_eq_some.mpr found)
  | none =>
    rw [Std.ExtTreeMap.getElem?_insertMany_list_of_contains_eq_false]
    · simp
    · have absent : key ∉ map := by
        rw [Std.ExtTreeMap.mem_iff_isSome_getElem?, found]
        simp
      simpa using absent

/-- Milliseconds since the epoch. The range is that of the signed 64-bit
representation, so no value outside it can be built. -/
structure Timestamp where
  ms : Int
  lower : -2 ^ 63 ≤ ms
  upper : ms ≤ 2 ^ 63 - 1
deriving DecidableEq

namespace Timestamp

theorem ms_injective : Function.Injective ms := by
  intro left right same
  cases left
  cases right
  congr

instance : LinearOrder Timestamp := LinearOrder.lift' ms ms_injective

variable {left right : Timestamp}

theorem le_iff : left ≤ right ↔ left.ms ≤ right.ms := Iff.rfl

theorem lt_iff : left < right ↔ left.ms < right.ms := Iff.rfl

@[ext] theorem ext (same : left.ms = right.ms) : left = right :=
  ms_injective same

/-- `Timestamp::min()` and `Timestamp::max()` are the bounds of the order. -/
instance : BoundedOrder Timestamp where
  bot := ⟨-2 ^ 63, by decide, by decide⟩
  top := ⟨2 ^ 63 - 1, by decide, by decide⟩
  bot_le time := time.lower
  le_top time := time.upper

@[simp] theorem bot_ms : (⊥ : Timestamp).ms = -2 ^ 63 := rfl

@[simp] theorem top_ms : (⊤ : Timestamp).ms = 2 ^ 63 - 1 := rfl

/-- The timestamp with a given millisecond count. Arithmetic on counts is two's
complement, so a count outside the range wraps. -/
def ofMs (count : Int) : Timestamp where
  ms := count.bmod (2 ^ 64)
  lower := by
    have bound := Int.le_bmod (x := count) (m := 2 ^ 64) (by decide)
    omega
  upper := by
    have bound := Int.bmod_lt (x := count) (m := 2 ^ 64) (by decide)
    omega

/-- A count inside the range is kept as it is. -/
theorem ofMs_ms {count : Int} (lower : -2 ^ 63 ≤ count) (upper : count ≤ 2 ^ 63 - 1) :
    (ofMs count).ms = count :=
  Int.bmod_eq_of_le (by omega) (by omega)

end Timestamp

/-- One data record. -/
structure Record where
  key : Bytes
  value : Int
  eventTime : Timestamp
  processingTime : Timestamp
deriving DecidableEq

inductive ControlType where
  | watermark
  | checkpointBarrier
deriving DecidableEq

/-- An in-band control record. A watermark ignores the offset, and a barrier
ignores the watermark, but both fields are always present. -/
structure ControlRecord where
  type : ControlType
  watermark : Timestamp
  checkpointOffset : Nat
deriving DecidableEq

inductive BatchItem where
  | record (record : Record)
  | control (control : ControlRecord)
deriving DecidableEq

abbrev Batch := List BatchItem

/-- A watermark item with its offset stamp. -/
def watermarkItem (watermark : Timestamp) (offset : Nat) : BatchItem :=
  .control { type := .watermark, watermark := watermark, checkpointOffset := offset }

/-- A barrier item with its offset stamp. -/
def barrierItem (offset : Nat) : BatchItem :=
  .control { type := .checkpointBarrier, watermark := ⊥, checkpointOffset := offset }

namespace BatchItem

/-- The record of a data item. -/
def record? : BatchItem → Option Record
  | record data => some data
  | control _ => none

/-- The frontier of a watermark item. -/
def watermark? : BatchItem → Option Timestamp
  | control { type := .watermark, watermark, .. } => some watermark
  | _ => none

/-- The offset stamp of a barrier item. -/
def barrier? : BatchItem → Option Nat
  | control { type := .checkpointBarrier, checkpointOffset, .. } => some checkpointOffset
  | _ => none

@[simp] theorem record?_watermarkItem (watermark : Timestamp) (offset : Nat) :
    (watermarkItem watermark offset).record? = none := rfl

@[simp] theorem record?_barrierItem (offset : Nat) : (barrierItem offset).record? = none := rfl

@[simp] theorem watermark?_watermarkItem (watermark : Timestamp) (offset : Nat) :
    (watermarkItem watermark offset).watermark? = some watermark := rfl

@[simp] theorem watermark?_barrierItem (offset : Nat) :
    (barrierItem offset).watermark? = none := rfl

@[simp] theorem barrier?_watermarkItem (watermark : Timestamp) (offset : Nat) :
    (watermarkItem watermark offset).barrier? = none := rfl

@[simp] theorem barrier?_barrierItem (offset : Nat) :
    (barrierItem offset).barrier? = some offset := rfl

end BatchItem

/-- The data records of a stream prefix, in order. -/
def records (items : Batch) : List Record := items.filterMap BatchItem.record?

/-- The watermarks of a stream prefix, in order. -/
def watermarks (items : Batch) : List Timestamp := items.filterMap BatchItem.watermark?

/-- The offset stamps of the barriers of a stream prefix, in order. -/
def barriers (items : Batch) : List Nat := items.filterMap BatchItem.barrier?

/-- The last watermark of a prefix, or `Timestamp::min()` before the first. -/
def lastWatermark (items : Batch) : Timestamp := (watermarks items).getLastD ⊥

@[simp] theorem records_nil : records [] = [] := rfl

@[simp] theorem records_record (data : Record) : records [.record data] = [data] := rfl

@[simp] theorem records_append (first second : Batch) :
    records (first ++ second) = records first ++ records second :=
  List.filterMap_append

@[simp] theorem watermarks_append (first second : Batch) :
    watermarks (first ++ second) = watermarks first ++ watermarks second :=
  List.filterMap_append

@[simp] theorem barriers_append (first second : Batch) :
    barriers (first ++ second) = barriers first ++ barriers second :=
  List.filterMap_append

theorem lastWatermark_append (first second : Batch) :
    lastWatermark (first ++ second) = (watermarks second).getLastD (lastWatermark first) := by
  rw [lastWatermark, lastWatermark, watermarks_append]
  cases watermarks second with
  | nil => simp
  | cons time rest => simp [List.getLastD_eq_getLast?, List.getLast?_append]

/-- The greatest watermark of a prefix, or `Timestamp::min()` before the first. -/
def highestWatermark (items : Batch) : Timestamp := (watermarks items).foldl max ⊥

/-- A starting value joins the maximum. -/
theorem foldl_max_start (times : List Timestamp) (start : Timestamp) :
    times.foldl max start = max start (times.foldl max ⊥) := by
  induction times generalizing start with
  | nil => simp
  | cons time rest inductionHypothesis =>
    rw [List.foldl_cons, List.foldl_cons, inductionHypothesis, inductionHypothesis (max ⊥ time),
      bot_sup_eq, max_assoc]

theorem highestWatermark_append (first second : Batch) :
    highestWatermark (first ++ second) =
      max (highestWatermark first) (highestWatermark second) := by
  rw [highestWatermark, watermarks_append, List.foldl_append, foldl_max_start]
  rfl

/-- A record leaves the greatest watermark alone. -/
theorem highestWatermark_record (items : Batch) (record : Record) :
    highestWatermark (items ++ [.record record]) = highestWatermark items := by
  rw [highestWatermark_append]
  exact max_bot_right _

theorem highestWatermark_watermark (items : Batch) (watermark : Timestamp) (offset : Nat) :
    highestWatermark (items ++ [watermarkItem watermark offset]) =
      max (highestWatermark items) watermark := by
  rw [highestWatermark_append]
  simp [highestWatermark, watermarks]

theorem highestWatermark_barrier (items : Batch) (watermark : Timestamp) (offset : Nat) :
    highestWatermark (items ++ [.control
      { type := .checkpointBarrier, watermark := watermark, checkpointOffset := offset }]) =
      highestWatermark items := by
  rw [highestWatermark_append]
  exact max_bot_right _

end Stormglass
