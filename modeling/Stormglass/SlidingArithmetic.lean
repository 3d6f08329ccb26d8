import Stormglass.CheckedArithmetic
import Stormglass.WindowGeometry

/-!
# Window assignment on 64-bit integers

`SlidingAssigner::AssignWindows` and `Oracle::AssignWindows` compute with signed 64-bit
integers, where an overflow is undefined, in loops whose end depends on those numbers. The
definitions below repeat both functions with every operation checked and every loop on
fuel. In the domain that the assigner's guard admits, neither function overflows, both
loops end, and the results are those of the exact computations.
-/

namespace Stormglass

open CheckedArithmetic

namespace SlidingAssigner

/-- The loop over window starts, appending to the result. -/
def checkedLoop (assigner : SlidingAssigner) (time : Int) :
    Nat → Int → List Window → Checked (List Window)
  | 0, _, _ => .error .outOfFuel
  | fuel + 1, start, windows =>
      if start ≤ time then do
        let close ← add start assigner.windowSize
        let windows ←
          if time < close then do
            let _ ← add start assigner.windowSize
            pure (windows ++ [windowAt start assigner.windowSize])
          else pure windows
        let next ← add start assigner.slide
        checkedLoop assigner time fuel next windows
      else pure windows

/-- The first start of the loop. -/
def checkedEarliest (assigner : SlidingAssigner) (time : Int) : Checked Int := do
  let difference ← sub time assigner.windowSize
  let numerator ← add difference assigner.slide
  if numerator ≤ 0 then pure 0
  else do
    let quotient ← div numerator assigner.slide
    mul quotient assigner.slide

/-- `AssignWindows` with checked operations. The outer result says whether the
computation is defined, the inner one whether it throws. -/
def checkedWindows (assigner : SlidingAssigner) (fuel : Nat) (eventTime : Timestamp) :
    Checked (Except Failure (List Window)) :=
  let time := eventTime.ms
  if time < 0 then
    pure (.error (.outOfRange "event time outside supported nonnegative window domain"))
  else do
    let limit ← sub (2 ^ 63 - 1) (max assigner.windowSize assigner.slide)
    if limit < time then
      pure (.error (.outOfRange "event time outside supported nonnegative window domain"))
    else do
      let earliest ← assigner.checkedEarliest time
      let windows ← assigner.checkedLoop time fuel earliest []
      pure (.ok windows)

variable (assigner : SlidingAssigner)

/-- A loop with enough fuel ends without an overflow and appends the windows of the exact
loop. A start that is tested is at most one slide past the time. -/
theorem checkedLoop_eq {time : Int}
    (upper : time ≤ 2 ^ 63 - 1 - max assigner.windowSize assigner.slide) {count fuel : Nat}
    {start : Int} (nonneg : 0 ≤ start) (reaches : time < start + count * assigner.slide)
    (enough : count < fuel) (windows : List Window) :
    assigner.checkedLoop time fuel start windows =
      .ok (windows ++ assigner.startLoop time count start) := by
  have positive := assigner.positive
  induction count generalizing fuel start windows with
  | zero =>
    obtain ⟨fuel, rfl⟩ := Nat.exists_eq_add_of_lt enough
    have past : ¬ start ≤ time := by omega
    rw [checkedLoop, if_neg past, startLoop, List.append_nil]
    rfl
  | succ count inductionHypothesis =>
    obtain ⟨fuel, rfl⟩ : ∃ rest, fuel = rest + 1 := ⟨fuel - 1, by omega⟩
    rw [checkedLoop, startLoop]
    by_cases early : start ≤ time
    · have later : time < start + assigner.slide + count * assigner.slide := by
        calc time
          _ < start + (count + 1 : Nat) * assigner.slide := reaches
          _ = start + assigner.slide + count * assigner.slide := by
            push_cast
            ring
      have more : count < fuel := by omega
      rw [if_pos early, if_pos early, add_eq (by omega) (by omega), add_eq (by omega) (by omega)]
      simp only [ok_bind]
      by_cases covers : time < start + assigner.windowSize
      · rw [if_pos covers, if_pos covers, ← List.append_assoc]
        exact inductionHypothesis (by omega) later more _
      · rw [if_neg covers, if_neg covers, List.nil_append]
        exact inductionHypothesis (by omega) later more _
    · rw [if_neg early, if_neg early, List.append_nil]
      rfl

theorem checkedEarliest_eq {time : Int} (nonneg : 0 ≤ time)
    (upper : time ≤ 2 ^ 63 - 1 - max assigner.windowSize assigner.slide) :
    assigner.checkedEarliest time = .ok (assigner.earliestStart time) := by
  have positive := assigner.positive
  have bounded := assigner.bounded
  unfold checkedEarliest earliestStart
  rw [sub_eq (by omega) (by omega), ok_bind, add_eq (by omega) (by omega), ok_bind]
  dsimp only
  split
  · rfl
  · exact div_mul_eq (by omega) (by omega) positive.2

/-- The exact computation takes enough steps to pass the time. -/
theorem starts_reach (time first : Int) :
    time < first + ((time - first) / assigner.slide + 1).toNat * assigner.slide := by
  have positive := assigner.positive.2
  have beyond := Int.lt_ediv_add_one_mul_self (time - first) positive
  have rounded := Int.mul_le_mul_of_nonneg_right
    (Int.self_le_toNat ((time - first) / assigner.slide + 1)) positive.le
  omega

/-- In its domain and outside it, the checked computation returns what the exact one
does. -/
theorem checkedWindows_eq (eventTime : Timestamp) :
    ∃ enough, ∀ fuel, enough ≤ fuel →
      assigner.checkedWindows fuel eventTime = .ok (assigner.assignWindows eventTime) := by
  have positive := assigner.positive
  have bounded := assigner.bounded
  let first := assigner.earliestStart eventTime.ms
  refine ⟨((eventTime.ms - first) / assigner.slide + 1).toNat + 1, ?_⟩
  intro fuel enough
  unfold checkedWindows assignWindows
  dsimp only
  by_cases negative : eventTime.ms < 0
  · rw [if_pos negative, if_pos (.inl negative)]
    rfl
  rw [if_neg negative, sub_eq (by omega) (by omega), ok_bind]
  by_cases large : 2 ^ 63 - 1 - max assigner.windowSize assigner.slide < eventTime.ms
  · rw [if_pos large, if_pos (.inr large)]
    rfl
  have loop := assigner.checkedLoop_eq (not_lt.mp large)
    (assigner.earliestStart_spec eventTime.ms).2.1 (assigner.starts_reach eventTime.ms first)
    enough []
  rw [if_neg large, if_neg (not_or.mpr ⟨negative, large⟩),
    assigner.checkedEarliest_eq (not_lt.mp negative) (not_lt.mp large), ok_bind, loop, ok_bind,
    List.nil_append]
  rfl

/-- The assigner throws exactly outside its domain. -/
theorem assignWindows_throws (eventTime : Timestamp) :
    (∃ failure, assigner.assignWindows eventTime = .error failure) ↔
      eventTime.ms < 0 ∨ 2 ^ 63 - 1 - max assigner.windowSize assigner.slide < eventTime.ms := by
  unfold assignWindows
  dsimp only
  split
  · rename_i outside
    exact iff_of_true ⟨_, rfl⟩ outside
  · rename_i inside
    exact iff_of_false (by rintro ⟨_, thrown⟩; cases thrown) inside

/-- The windows are listed by increasing start. -/
theorem assignWindows_increasing {eventTime : Timestamp} {windows : List Window}
    (assigned : assigner.assignWindows eventTime = .ok windows) :
    windows.Pairwise (fun earlier later => earlier.start < later.start) := by
  have positive := assigner.positive
  have bounded := eventTime.upper
  rw [assignWindows] at assigned
  dsimp only at assigned
  split at assigned
  · cases assigned
  · cases assigned
    rw [startLoop_eq, List.pairwise_map]
    refine ((progression_increasing _ _ positive.2).filter _).imp_of_mem ?_
    intro earlier later first second before
    obtain ⟨-, earlierLower, earlierUpper, -⟩ := (assigner.mem_starts _ _).mp first
    obtain ⟨-, laterLower, laterUpper, -⟩ := (assigner.mem_starts _ _).mp second
    rw [Timestamp.lt_iff]
    change (Timestamp.ofMs earlier).ms < (Timestamp.ofMs later).ms
    rwa [Timestamp.ofMs_ms (by omega) (by omega), Timestamp.ofMs_ms (by omega) (by omega)]

/-- The windows are those at multiples of the slide that contain the time. -/
theorem mem_assignWindows {eventTime : Timestamp} {windows : List Window}
    (assigned : assigner.assignWindows eventTime = .ok windows) (window : Window) :
    window ∈ windows ↔ ∃ k : Nat, window.start.ms = k * assigner.slide ∧
      window.close.ms = k * assigner.slide + assigner.windowSize ∧
      window.start ≤ eventTime ∧ eventTime < window.close := by
  have positive := assigner.positive
  obtain ⟨nonneg, bounded, exactly⟩ := assigner.assignWindows_exactly assigned
  rw [exactly.members]
  constructor
  · rintro ⟨start, ⟨⟨factor, rfl⟩, lower, below, above⟩, rfl⟩
    have index : 0 ≤ factor := nonneg_of_mul_nonneg_right lower positive.2
    have startMs : (windowAt (assigner.slide * factor) assigner.windowSize).start.ms =
        assigner.slide * factor := Timestamp.ofMs_ms (by omega) (by omega)
    have closeMs : (windowAt (assigner.slide * factor) assigner.windowSize).close.ms =
        assigner.slide * factor + assigner.windowSize := Timestamp.ofMs_ms (by omega) (by omega)
    refine ⟨factor.toNat, ?_, ?_, ?_, ?_⟩
    · rw [startMs, Int.toNat_of_nonneg index, mul_comm]
    · rw [closeMs, Int.toNat_of_nonneg index, mul_comm]
    · rwa [Timestamp.le_iff, startMs]
    · rwa [Timestamp.lt_iff, closeMs]
  · rintro ⟨k, startMs, closeMs, below, above⟩
    rw [Timestamp.le_iff, startMs] at below
    rw [Timestamp.lt_iff, closeMs] at above
    have lower := mul_nonneg (Int.natCast_nonneg k) positive.2.le
    refine ⟨k * assigner.slide, ⟨Dvd.intro_left _ rfl, lower, below, above⟩, ?_⟩
    obtain ⟨start, close⟩ := window
    rw [windowAt, Window.mk.injEq]
    constructor
    · ext
      rw [Timestamp.ofMs_ms (by omega) (by omega)]
      exact startMs
    · ext
      rw [Timestamp.ofMs_ms (by omega) (by omega)]
      exact closeMs

/-- With the slide equal to the size, the windows are those of a tumbling assigner. -/
theorem assignWindows_tumbling (tumbling : TumblingAssigner)
    (size : tumbling.size = assigner.windowSize) (slide : assigner.slide = assigner.windowSize)
    (eventTime : Timestamp) :
    tumbling.assignWindows eventTime = assigner.assignWindows eventTime := by
  cases assigned : assigner.assignWindows eventTime with
  | error failure =>
    have outside := (assigner.assignWindows_throws eventTime).mp ⟨failure, assigned⟩
    rw [slide, max_self, ← size] at outside
    unfold assignWindows at assigned
    dsimp only at assigned
    split at assigned
    · cases assigned
      exact if_pos outside
    · cases assigned
  | ok windows =>
    obtain ⟨nonneg, bounded, exactly⟩ := assigner.assignWindows_exactly assigned
    rw [slide] at exactly
    have single := exactly_tumbling assigner.positive.1 nonneg eventTime.upper
    rw [List.perm_singleton.mp (exactly.perm single)]
    unfold TumblingAssigner.assignWindows
    rw [size, if_neg (by omega)]

end SlidingAssigner

namespace Oracle

/-- The loop over window starts, with its bound computed at every test. -/
def checkedLoop (config : OracleConfig) (time lastStart : Int) :
    Nat → Int → List Window → Checked (List Window)
  | 0, _, _ => .error .outOfFuel
  | fuel + 1, start, windows => do
      let bound ← sub lastStart config.windowSize
      if bound < start ∧ 0 ≤ start then do
        let close ← add start config.windowSize
        let next ← sub start config.slide
        checkedLoop config time lastStart fuel next
          (if start ≤ time ∧ time < close then windows ++ [windowAt start config.windowSize]
          else windows)
      else pure windows

/-- `AssignWindows` with checked operations. -/
def checkedWindows (oracle : Oracle) (fuel : Nat) (eventTime : Timestamp) :
    Checked (List Window) :=
  let config := oracle.config
  let time := eventTime.ms
  if config.slide = config.windowSize then do
    let quotient ← div time config.windowSize
    let start ← mul quotient config.windowSize
    let _ ← add start config.windowSize
    pure [windowAt start config.windowSize]
  else do
    let quotient ← div time config.slide
    let lastStart ← mul quotient config.slide
    checkedLoop config time lastStart fuel lastStart []

/-- A loop with enough fuel ends without an overflow and appends the windows of the exact
loop. -/
theorem checkedLoop_eq {config : OracleConfig} (positive : 0 < config.windowSize)
    (forward : 0 < config.slide) (slideBound : config.slide ≤ 2 ^ 63 - 1) {time lastStart : Int}
    (upper : time ≤ 2 ^ 63 - 1 - config.windowSize) (nonneg : 0 ≤ lastStart)
    (last : lastStart ≤ time) {count fuel : Nat} {start : Int} (below : start ≤ lastStart)
    (reaches : start - count * config.slide ≤ lastStart - config.windowSize)
    (enough : count < fuel) (windows : List Window) :
    checkedLoop config time lastStart fuel start windows =
      .ok (windows ++ startLoop config time lastStart count start) := by
  induction count generalizing fuel start windows with
  | zero =>
    obtain ⟨fuel, rfl⟩ : ∃ rest, fuel = rest + 1 := ⟨fuel - 1, by omega⟩
    rw [checkedLoop, sub_eq (by omega) (by omega), ok_bind, if_neg (by omega), startLoop,
      List.append_nil]
    rfl
  | succ count inductionHypothesis =>
    obtain ⟨fuel, rfl⟩ : ∃ rest, fuel = rest + 1 := ⟨fuel - 1, by omega⟩
    rw [checkedLoop, startLoop, sub_eq (by omega) (by omega), ok_bind]
    by_cases above : lastStart - config.windowSize < start ∧ 0 ≤ start
    · have later : start - config.slide - count * config.slide ≤
          lastStart - config.windowSize := by
        calc start - config.slide - count * config.slide
          _ = start - (count + 1 : Nat) * config.slide := by
            push_cast
            ring
          _ ≤ lastStart - config.windowSize := reaches
      have more : count < fuel := by omega
      rw [if_pos above, if_pos above, add_eq (by omega) (by omega), ok_bind,
        sub_eq (by omega) (by omega), ok_bind,
        inductionHypothesis (by omega) later more]
      split
      · rw [List.append_assoc]
      · rw [List.nil_append]
    · rw [if_neg above, if_neg above, List.append_nil]
      rfl

/-- In the domain of the assigner, the checked computation returns what the exact one
does. -/
theorem checkedWindows_eq (oracle : Oracle) (positive : 0 < oracle.config.windowSize)
    (forward : 0 < oracle.config.slide) (slideBound : oracle.config.slide ≤ 2 ^ 63 - 1)
    {eventTime : Timestamp} (nonneg : 0 ≤ eventTime.ms)
    (upper : eventTime.ms ≤ 2 ^ 63 - 1 - oracle.config.windowSize) :
    ∃ enough, ∀ fuel, enough ≤ fuel →
      oracle.checkedWindows fuel eventTime = .ok (oracle.assignWindows eventTime) := by
  refine ⟨(oracle.config.windowSize / oracle.config.slide + 1).toNat + 1, ?_⟩
  intro fuel enough
  have bounded := eventTime.upper
  unfold checkedWindows assignWindows
  dsimp only
  split
  · have rounded := Int.ediv_mul_le eventTime.ms positive.ne'
    have quotient := Int.ediv_nonneg nonneg positive.le
    have product := mul_nonneg quotient positive.le
    rw [div_eq nonneg bounded positive, ok_bind, mul_eq (by omega) (by omega), ok_bind,
      add_eq (by omega) (by omega), ok_bind, Int.tdiv_eq_ediv_of_nonneg nonneg]
    rfl
  · have rounded := Int.ediv_mul_le eventTime.ms forward.ne'
    have quotient := Int.ediv_nonneg nonneg forward.le
    have product := mul_nonneg quotient forward.le
    have beyond := Int.lt_ediv_add_one_mul_self oracle.config.windowSize forward
    have steps := Int.mul_le_mul_of_nonneg_right
      (Int.self_le_toNat (oracle.config.windowSize / oracle.config.slide + 1)) forward.le
    rw [div_eq nonneg bounded forward, ok_bind, mul_eq (by omega) (by omega), ok_bind,
      Int.tdiv_eq_ediv_of_nonneg nonneg]
    apply checkedLoop_eq positive forward slideBound upper product rounded le_rfl _ enough
    omega

end Oracle

/-- **Sliding assignment is exact and free of overflow.** With enough fuel, the checked
computation returns: it throws exactly outside the domain, and inside it lists, by
increasing start and once each, the windows at nonnegative multiples of the slide that
contain the time. With the slide equal to the size this is the window of a tumbling
assigner, and the oracle's computation, which does not overflow there either, lists the
same windows. -/
theorem SlidingAssigner.sliding_assignment_exact (assigner : SlidingAssigner)
    (eventTime : Timestamp) :
    ∃ result enough,
      (∀ fuel, enough ≤ fuel → assigner.checkedWindows fuel eventTime = .ok result) ∧
      ((∃ failure, result = .error failure) ↔ eventTime.ms < 0 ∨
        2 ^ 63 - 1 - max assigner.windowSize assigner.slide < eventTime.ms) ∧
      ∀ windows, result = .ok windows →
        windows.Pairwise (fun earlier later => earlier.start < later.start) ∧
        windows.Nodup ∧
        (∀ window, window ∈ windows ↔ ∃ k : Nat, window.start.ms = k * assigner.slide ∧
          window.close.ms = k * assigner.slide + assigner.windowSize ∧
          window.start ≤ eventTime ∧ eventTime < window.close) ∧
        (∀ tumbling : TumblingAssigner, tumbling.size = assigner.windowSize →
          assigner.slide = assigner.windowSize →
          ∃ window, windows = [window] ∧ tumbling.assignWindows eventTime = .ok [window]) ∧
        ∀ oracle : Oracle, oracle.config.windowSize = assigner.windowSize →
          oracle.config.slide = assigner.slide →
          ∃ listed enough,
            (∀ fuel, enough ≤ fuel → oracle.checkedWindows fuel eventTime = .ok listed) ∧
            ∀ window, window ∈ listed ↔ window ∈ windows := by
  obtain ⟨enough, returns⟩ := assigner.checkedWindows_eq eventTime
  refine ⟨_, enough, returns, assigner.assignWindows_throws eventTime, ?_⟩
  intro windows assigned
  have inside : ¬ (eventTime.ms < 0 ∨
      2 ^ 63 - 1 - max assigner.windowSize assigner.slide < eventTime.ms) := by
    rw [← assigner.assignWindows_throws, assigned]
    rintro ⟨_, thrown⟩
    cases thrown
  have positive := assigner.positive
  obtain ⟨nonneg, upper, exactly⟩ := assigner.assignWindows_exactly assigned
  refine ⟨assigner.assignWindows_increasing assigned, exactly.nodup,
    assigner.mem_assignWindows assigned, ?_, ?_⟩
  · intro tumbling size slide
    have same := assigner.assignWindows_tumbling tumbling size slide eventTime
    unfold TumblingAssigner.assignWindows at same ⊢
    rw [size, if_neg (by omega)] at same ⊢
    rw [assigned] at same
    exact ⟨_, (Except.ok.inj same).symm, rfl⟩
  · intro oracle size slide
    rw [← size] at upper positive
    rw [← slide] at positive
    obtain ⟨enough, listing⟩ := oracle.checkedWindows_eq positive.1 positive.2
      (slide.trans_le assigner.bounded.2) nonneg upper
    refine ⟨_, enough, listing, ?_⟩
    have listed := oracle.assignWindows_exactly positive.1 positive.2 nonneg
    rw [size, slide] at listed
    exact fun window => (listed.perm exactly).mem_iff

/-- Windows of ten milliseconds every four: three of them contain nine milliseconds. -/
theorem fourMs_windows : ∃ windows fuel,
    ({ windowSize := 10, slide := 4, positive := by decide, bounded := by decide } :
      SlidingAssigner).checkedWindows fuel (.ofMs 9) = .ok (.ok windows) ∧ windows.Nodup ∧
    ∀ k ∈ [0, 1, 2], windowAt ((k : Nat) * 4) 10 ∈ windows := by
  obtain ⟨result, enough, returns, throws, listed⟩ := SlidingAssigner.sliding_assignment_exact
    { windowSize := 10, slide := 4, positive := by decide, bounded := by decide } (.ofMs 9)
  cases result with
  | error failure => exact absurd (throws.mp ⟨failure, rfl⟩) (by decide)
  | ok windows =>
    obtain ⟨-, nodup, members, -⟩ := listed windows rfl
    refine ⟨windows, enough, returns enough le_rfl, nodup, ?_⟩
    intro k member
    refine (members _).mpr ⟨k, ?_⟩
    revert k
    decide

end Stormglass
