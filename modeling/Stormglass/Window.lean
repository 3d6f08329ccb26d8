import Stormglass.Source

/-!
# Windows, panes and window assigners

A window is a half-open interval of event time. The engine orders windows by their
end and then by their start, so the windows that a watermark closes come first.

A pane accumulates the values of one key in one window and refuses an addition that
would leave the 64-bit range. The assigners map an event time to its windows and
refuse times outside the nonnegative domain they support.
-/

namespace Stormglass

/-- An interval of event time. `close` is its exclusive `end`. -/
structure Window where
  start : Timestamp
  close : Timestamp
deriving DecidableEq

namespace Window

/-- The order `WindowByEnd`: by end, then by start. -/
def byEnd (window : Window) : Timestamp ×ₗ Timestamp := toLex (window.close, window.start)

theorem byEnd_injective : Function.Injective byEnd := by
  intro left right same
  obtain ⟨close, start⟩ := Prod.mk.inj (toLex_inj.mp same)
  cases left
  cases right
  simp only at close start
  rw [close, start]

instance : LinearOrder Window := LinearOrder.lift' byEnd byEnd_injective

instance : Std.TransOrd Window := inferInstance

instance : Std.LawfulEqOrd Window where
  eq_of_compare same := compare_eq_iff_eq.mp same

/-- Earlier windows end no later. -/
theorem close_mono {earlier later : Window} (ordered : earlier ≤ later) :
    earlier.close ≤ later.close := by
  have lexicographic : byEnd earlier ≤ byEnd later := ordered
  rw [Prod.Lex.le_iff] at lexicographic
  rcases lexicographic with before | ⟨same, _⟩
  · exact before.le
  · exact same.le

/-- The time from which a window accepts no more records: its end plus the allowed
lateness, cut off at `Timestamp::max()`. -/
def deadline (window : Window) (allowedLateness : Nat) : Timestamp :=
  if 2 ^ 63 - 1 - (allowedLateness : Int) < window.close.ms then ⊤
  else .ofMs (window.close.ms + allowedLateness)

theorem deadline_ms (window : Window) (allowedLateness : Nat) :
    (window.deadline allowedLateness).ms =
      min (window.close.ms + allowedLateness) (2 ^ 63 - 1) := by
  unfold deadline
  split
  · rw [Timestamp.top_ms]
    omega
  · have lower := window.close.lower
    rw [Timestamp.ofMs_ms (by omega) (by omega)]
    omega

theorem close_le_deadline (window : Window) (allowedLateness : Nat) :
    window.close ≤ window.deadline allowedLateness := by
  rw [Timestamp.le_iff, deadline_ms]
  have upper := window.close.upper
  omega

/-- Without lateness a window closes at its end. -/
theorem deadline_zero (window : Window) : window.deadline 0 = window.close := by
  ext
  rw [deadline_ms]
  have upper := window.close.upper
  simp only [Nat.cast_zero]
  omega

end Window

structure AggregateResult where
  value : Int
  count : Nat
deriving DecidableEq

structure WindowResult where
  key : Bytes
  window : Window
  result : AggregateResult
deriving DecidableEq

/-- The accumulator of one key in one window. -/
structure Pane where
  sum : Int := 0
  count : Nat := 0
deriving DecidableEq

namespace Pane

/-- Add a value, unless the sum would leave the signed or the count the unsigned
64-bit range. -/
def add (pane : Pane) (value : Int) : Except Failure Pane :=
  if (0 < value ∧ 2 ^ 63 - 1 - value < pane.sum) ∨ (value < 0 ∧ pane.sum < -2 ^ 63 - value) ∨
      pane.count = 2 ^ 64 - 1 then
    .error (.overflowError "pane aggregate overflow")
  else .ok { sum := pane.sum + value, count := pane.count + 1 }

/-- The pane that holds the given values. -/
def holding (values : List Int) : Pane := { sum := values.sum, count := values.length }

/-- The values can be held: every intermediate sum and count is representable. -/
def Holds (values : List Int) : Prop :=
  ∀ front, front <+: values →
    -2 ^ 63 ≤ front.sum ∧ front.sum ≤ 2 ^ 63 - 1 ∧ front.length ≤ 2 ^ 64 - 1

theorem Holds.mono {values : List Int} {front : List Int} (holds : Holds values)
    (early : front <+: values) : Holds front := by
  intro earlier before
  exact holds earlier (before.trans early)

/-- Adding to a pane of representable values succeeds. -/
theorem add_holding {values : List Int} {value : Int} (holds : Holds (values ++ [value])) :
    (holding values).add value = .ok (holding (values ++ [value])) := by
  obtain ⟨lower, upper, few⟩ := holds _ List.prefix_rfl
  rw [List.sum_append, List.sum_singleton] at lower upper
  rw [List.length_append, List.length_singleton] at few
  have fits : ¬ ((0 < value ∧ 2 ^ 63 - 1 - value < (holding values).sum) ∨
      (value < 0 ∧ (holding values).sum < -2 ^ 63 - value) ∨
      (holding values).count = 2 ^ 64 - 1) := by
    simp only [holding]
    omega
  rw [add, if_neg fits]
  simp [holding]

/-- A new pane takes every value of its type. -/
theorem add_new {value : Int} (lower : -2 ^ 63 ≤ value) (upper : value ≤ 2 ^ 63 - 1) :
    ({} : Pane).add value = .ok { sum := value, count := 1 } := by
  have fits : ¬ ((0 < value ∧ 2 ^ 63 - 1 - value < 0) ∨ (value < 0 ∧ 0 < -2 ^ 63 - value) ∨
      (0 : Nat) = 2 ^ 64 - 1) := by omega
  rw [add, if_neg fits, zero_add]

/-- An addition counts. -/
theorem count_of_add {pane after : Pane} {value : Int} (added : pane.add value = .ok after) :
    after.count = pane.count + 1 := by
  rw [add] at added
  split at added
  · cases added
  · cases added
    rfl

/-- What firing reports of a pane. -/
def result (pane : Pane) : AggregateResult := { value := pane.sum, count := pane.count }

end Pane

/-- The virtual function `AssignWindows`. -/
abbrev WindowAssigner := Timestamp → Except Failure (List Window)

/-- A window that starts at the given millisecond and has the given length. -/
def windowAt (start length : Int) : Window :=
  { start := .ofMs start, close := .ofMs (start + length) }

/-- Tumbling windows of a positive size. -/
structure TumblingAssigner where
  size : Int
  positive : 0 < size
  bounded : size ≤ 2 ^ 63 - 1

def TumblingAssigner.assignWindows (assigner : TumblingAssigner) : WindowAssigner :=
  fun eventTime =>
    if eventTime.ms < 0 ∨ 2 ^ 63 - 1 - assigner.size < eventTime.ms then
      .error (.outOfRange "event time outside supported nonnegative window domain")
    else .ok [windowAt (eventTime.ms / assigner.size * assigner.size) assigner.size]

/-- Sliding windows of a positive size at multiples of a positive slide. -/
structure SlidingAssigner where
  windowSize : Int
  slide : Int
  positive : 0 < windowSize ∧ 0 < slide
  bounded : windowSize ≤ 2 ^ 63 - 1 ∧ slide ≤ 2 ^ 63 - 1

namespace SlidingAssigner

/-- The loop over window starts. The fuel is the number of its iterations. -/
def startLoop (assigner : SlidingAssigner) (time : Int) : Nat → Int → List Window
  | 0, _ => []
  | fuel + 1, start =>
      if start ≤ time then
        (if time < start + assigner.windowSize then [windowAt start assigner.windowSize] else []) ++
          startLoop assigner time fuel (start + assigner.slide)
      else []

def earliestStart (assigner : SlidingAssigner) (time : Int) : Int :=
  let numerator := time - assigner.windowSize + assigner.slide
  if numerator ≤ 0 then 0 else numerator / assigner.slide * assigner.slide

def assignWindows (assigner : SlidingAssigner) : WindowAssigner := fun eventTime =>
  let time := eventTime.ms
  if time < 0 ∨ 2 ^ 63 - 1 - max assigner.windowSize assigner.slide < time then
    .error (.outOfRange "event time outside supported nonnegative window domain")
  else
    let earliest := assigner.earliestStart time
    .ok (assigner.startLoop time ((time - earliest) / assigner.slide + 1).toNat earliest)

end SlidingAssigner

end Stormglass
