import Stormglass.Oracle

/-!
# The windows of an event time

A window start covers a time when it is a nonnegative multiple of the slide and the
time lies in the half-open window that begins there. Both assigners of the engine
and the oracle's own assignment list the windows at the covering starts, each once.
-/

namespace Stormglass

/-- A window of the given size may start here and contains the time. -/
def Covering (size slide time start : Int) : Prop :=
  slide ∣ start ∧ 0 ≤ start ∧ start ≤ time ∧ time < start + size

/-- A list of windows holds the covering ones, each once. -/
structure Exactly (size slide time : Int) (windows : List Window) : Prop where
  nodup : windows.Nodup
  members : ∀ window, window ∈ windows ↔
    ∃ start, Covering size slide time start ∧ window = windowAt start size

/-- The starts `first`, `first + stride`, and so on. -/
def progression (first stride : Int) (count : Nat) : List Int :=
  (List.range count).map (fun index : Nat => first + index * stride)

theorem progression_succ (first stride : Int) (count : Nat) :
    progression first stride (count + 1) = first :: progression (first + stride) stride count := by
  rw [progression, progression, List.range_succ_eq_map, List.map_cons, List.map_map]
  congr 1
  · simp
  · apply List.map_congr_left
    intro index _
    simp only [Function.comp_apply]
    push_cast
    ring

theorem mem_progression {first stride start : Int} {count : Nat} :
    start ∈ progression first stride count ↔
      ∃ index : Nat, index < count ∧ start = first + index * stride := by
  rw [progression, List.mem_map]
  constructor
  · rintro ⟨index, member, rfl⟩
    exact ⟨index, List.mem_range.mp member, rfl⟩
  · rintro ⟨index, bound, rfl⟩
    exact ⟨index, List.mem_range.mpr bound, rfl⟩

theorem progression_nodup (first : Int) {stride : Int} (count : Nat) (moving : stride ≠ 0) :
    (progression first stride count).Nodup := by
  refine List.nodup_range.map ?_
  intro left right same
  have products : (left : Int) * stride = right * stride := by
    simp only at same
    omega
  exact_mod_cast mul_right_cancel₀ moving products

theorem progression_increasing (first : Int) {stride : Int} (count : Nat) (forward : 0 < stride) :
    (progression first stride count).Pairwise (· < ·) := by
  rw [progression, List.pairwise_map]
  refine List.pairwise_lt_range.imp ?_
  intro left right before
  have products := Int.mul_lt_mul_of_pos_right (Int.ofNat_lt.mpr before) forward
  omega

/-- Windows with different representable starts differ. -/
theorem windowAt_injOn {size left right : Int} (leftRange : 0 ≤ left ∧ left ≤ 2 ^ 63 - 1)
    (rightRange : 0 ≤ right ∧ right ≤ 2 ^ 63 - 1)
    (same : windowAt left size = windowAt right size) : left = right := by
  have starts := congrArg (fun window => window.start.ms) same
  simp only [windowAt] at starts
  rwa [Timestamp.ofMs_ms (by omega) (by omega), Timestamp.ofMs_ms (by omega) (by omega)] at starts

/-- A duplicate-free list of covering starts gives the exact windows. -/
theorem exactly_of_starts {size slide time : Int} {starts : List Int} (bounded : time ≤ 2 ^ 63 - 1)
    (nodup : starts.Nodup) (members : ∀ start, start ∈ starts ↔ Covering size slide time start) :
    Exactly size slide time (starts.map (windowAt · size)) := by
  constructor
  · refine List.Nodup.map_on ?_ nodup
    intro left leftMember right rightMember same
    obtain ⟨_, leftLower, leftUpper, _⟩ := (members left).mp leftMember
    obtain ⟨_, rightLower, rightUpper, _⟩ := (members right).mp rightMember
    exact windowAt_injOn ⟨leftLower, leftUpper.trans bounded⟩
      ⟨rightLower, rightUpper.trans bounded⟩ same
  · intro window
    rw [List.mem_map]
    constructor
    · rintro ⟨start, member, rfl⟩
      exact ⟨start, (members start).mp member, rfl⟩
    · rintro ⟨start, covering, rfl⟩
      exact ⟨start, (members start).mpr covering, rfl⟩

/-- With the slide equal to the size, one start covers. -/
theorem covering_tumbling {size time start : Int} (positive : 0 < size) (nonneg : 0 ≤ time) :
    Covering size size time start ↔ start = time / size * size := by
  have division := Int.mul_ediv_add_emod time size
  have lower := Int.emod_nonneg time positive.ne'
  have upper := Int.emod_lt_of_pos time positive
  have quotient := Int.ediv_nonneg nonneg positive.le
  constructor
  · rintro ⟨⟨factor, rfl⟩, _, below, above⟩
    have same : factor = time / size := by
      apply le_antisymm
      · exact (Int.le_ediv_iff_mul_le positive).mpr (by rw [mul_comm]; exact below)
      · apply Int.lt_add_one_iff.mp
        apply (Int.ediv_lt_iff_lt_mul positive).mpr
        calc time
          _ < size * factor + size := above
          _ = (factor + 1) * size := by ring
    rw [same, mul_comm]
  · rintro rfl
    refine ⟨Dvd.intro_left _ rfl, mul_nonneg quotient positive.le, ?_, ?_⟩
    · rw [mul_comm]
      omega
    · rw [mul_comm]
      omega

/-- The window of a tumbling assigner. -/
theorem exactly_tumbling {size time : Int} (positive : 0 < size) (nonneg : 0 ≤ time)
    (bounded : time ≤ 2 ^ 63 - 1) :
    Exactly size size time [windowAt (time / size * size) size] := by
  have starts : Exactly size size time ([time / size * size].map (windowAt · size)) := by
    refine exactly_of_starts bounded (List.nodup_singleton _) ?_
    intro start
    rw [List.mem_singleton, covering_tumbling positive nonneg]
  exact starts

/-- The domain of tumbling windows, and the windows in it. -/
theorem TumblingAssigner.assignWindows_exactly (assigner : TumblingAssigner)
    {eventTime : Timestamp} {windows : List Window}
    (assigned : assigner.assignWindows eventTime = .ok windows) :
    0 ≤ eventTime.ms ∧ eventTime.ms ≤ 2 ^ 63 - 1 - assigner.size ∧
      Exactly assigner.size assigner.size eventTime.ms windows := by
  have positive := assigner.positive
  rw [assignWindows] at assigned
  split at assigned
  · simp at assigned
  · next inside =>
    obtain rfl := Except.ok.inj assigned
    exact ⟨by omega, by omega, exactly_tumbling positive (by omega) (by omega)⟩

namespace SlidingAssigner

/-- The loop lists the starts of its progression that cover the time. A start past
the time ends it, and every later start is past the time too. -/
theorem startLoop_eq (assigner : SlidingAssigner) (time : Int) (fuel : Nat) (first : Int) :
    assigner.startLoop time fuel first =
      ((progression first assigner.slide fuel).filter
        (fun start => start ≤ time ∧ time < start + assigner.windowSize)).map
          (windowAt · assigner.windowSize) := by
  induction fuel generalizing first with
  | zero => rfl
  | succ fuel inductionHypothesis =>
    rw [startLoop, progression_succ]
    split
    · next early =>
      rw [inductionHypothesis, List.filter_cons]
      by_cases covers : time < first + assigner.windowSize
      · simp [early, covers]
      · simp [covers]
    · next late =>
      symm
      rw [List.map_eq_nil_iff, List.filter_eq_nil_iff]
      intro start member
      rw [← progression_succ] at member
      obtain ⟨index, _, rfl⟩ := mem_progression.mp member
      have forward : 0 ≤ (index : Int) * assigner.slide :=
        mul_nonneg (Int.natCast_nonneg index) assigner.positive.2.le
      simp only [decide_eq_true_eq]
      omega

/-- The first start is a multiple of the slide, and no covering start lies below it. -/
theorem earliestStart_spec (assigner : SlidingAssigner) (time : Int) :
    assigner.slide ∣ assigner.earliestStart time ∧ 0 ≤ assigner.earliestStart time ∧
      ∀ start, Covering assigner.windowSize assigner.slide time start →
        assigner.earliestStart time ≤ start := by
  have positive := assigner.positive.2
  unfold earliestStart
  dsimp only
  split
  · exact ⟨dvd_zero _, le_rfl, fun start covering => covering.2.1⟩
  · next above =>
    have quotient := Int.ediv_nonneg (not_le.mp above).le positive.le
    refine ⟨Dvd.intro_left _ rfl, mul_nonneg quotient positive.le, ?_⟩
    rintro start ⟨⟨factor, rfl⟩, _, _, covers⟩
    have below : (time - assigner.windowSize + assigner.slide) / assigner.slide ≤ factor := by
      apply Int.lt_add_one_iff.mp
      apply (Int.ediv_lt_iff_lt_mul positive).mpr
      calc time - assigner.windowSize + assigner.slide
        _ < assigner.slide * factor + assigner.slide := by omega
        _ = (factor + 1) * assigner.slide := by ring
    calc (time - assigner.windowSize + assigner.slide) / assigner.slide * assigner.slide
      _ ≤ factor * assigner.slide := Int.mul_le_mul_of_nonneg_right below positive.le
      _ = assigner.slide * factor := mul_comm _ _

/-- The loop runs far enough to reach every covering start. -/
theorem mem_starts (assigner : SlidingAssigner) (time start : Int) :
    start ∈ (progression (assigner.earliestStart time) assigner.slide
        ((time - assigner.earliestStart time) / assigner.slide + 1).toNat).filter
          (fun start => start ≤ time ∧ time < start + assigner.windowSize) ↔
      Covering assigner.windowSize assigner.slide time start := by
  have positive := assigner.positive.2
  obtain ⟨⟨base, multiple⟩, lower, least⟩ := assigner.earliestStart_spec time
  rw [List.mem_filter, mem_progression]
  simp only [decide_eq_true_eq]
  constructor
  · rintro ⟨⟨index, _, rfl⟩, below, above⟩
    refine ⟨⟨base + index, ?_⟩, ?_, below, above⟩
    · rw [multiple]
      ring
    · exact add_nonneg lower (mul_nonneg (Int.natCast_nonneg index) positive.le)
  · intro covering
    have after := least start covering
    obtain ⟨⟨factor, rfl⟩, _, below, above⟩ := covering
    have distance : assigner.slide * factor - assigner.earliestStart time =
        (factor - base) * assigner.slide := by
      rw [multiple]
      ring
    have behind : 0 ≤ factor - base :=
      nonneg_of_mul_nonneg_left (by omega : 0 ≤ (factor - base) * assigner.slide) positive
    have within : factor - base ≤ (time - assigner.earliestStart time) / assigner.slide :=
      (Int.le_ediv_iff_mul_le positive).mpr (by omega)
    refine ⟨⟨(factor - base).toNat, by omega, ?_⟩, below, above⟩
    rw [Int.toNat_of_nonneg behind]
    omega

/-- The domain of sliding windows, and the windows in it. -/
theorem assignWindows_exactly (assigner : SlidingAssigner) {eventTime : Timestamp}
    {windows : List Window} (assigned : assigner.assignWindows eventTime = .ok windows) :
    0 ≤ eventTime.ms ∧ eventTime.ms ≤ 2 ^ 63 - 1 - assigner.windowSize ∧
      Exactly assigner.windowSize assigner.slide eventTime.ms windows := by
  have positive := assigner.positive
  rw [assignWindows] at assigned
  dsimp only at assigned
  split at assigned
  · simp at assigned
  · next inside =>
    obtain rfl := Except.ok.inj assigned
    refine ⟨by omega, by omega, ?_⟩
    rw [startLoop_eq]
    refine exactly_of_starts (by omega) ?_ (assigner.mem_starts eventTime.ms)
    exact (progression_nodup _ _ positive.2.ne').filter _

end SlidingAssigner

namespace Oracle

/-- The loop lists the starts of its descending progression that cover the time. A
start below its two bounds ends it, and so are all later ones. -/
theorem startLoop_eq (config : OracleConfig) (forward : 0 < config.slide) (time last : Int)
    (fuel : Nat) (first : Int) :
    startLoop config time last fuel first =
      ((progression first (-config.slide) fuel).filter
        (fun start => (last - config.windowSize < start ∧ 0 ≤ start) ∧
          start ≤ time ∧ time < start + config.windowSize)).map
            (windowAt · config.windowSize) := by
  induction fuel generalizing first with
  | zero => rfl
  | succ fuel inductionHypothesis =>
    rw [startLoop, progression_succ]
    split
    · next above =>
      rw [inductionHypothesis, List.filter_cons, sub_eq_add_neg first]
      by_cases covers : first ≤ time ∧ time < first + config.windowSize
      · simp [above, covers]
      · simp [covers]
    · next below =>
      symm
      rw [List.map_eq_nil_iff, List.filter_eq_nil_iff]
      intro start member
      rw [← progression_succ] at member
      obtain ⟨index, _, rfl⟩ := mem_progression.mp member
      have backward : 0 ≤ (index : Int) * config.slide :=
        mul_nonneg (Int.natCast_nonneg index) forward.le
      simp only [decide_eq_true_eq, mul_neg]
      omega

/-- The descending loop meets every covering start. -/
theorem mem_starts (config : OracleConfig) (forward : 0 < config.slide) (time start : Int) :
    start ∈ (progression (time / config.slide * config.slide) (-config.slide)
        (config.windowSize / config.slide + 1).toNat).filter
          (fun start =>
            (time / config.slide * config.slide - config.windowSize < start ∧ 0 ≤ start) ∧
              start ≤ time ∧ time < start + config.windowSize) ↔
      Covering config.windowSize config.slide time start := by
  have last : time / config.slide * config.slide ≤ time := Int.ediv_mul_le time forward.ne'
  rw [List.mem_filter, mem_progression]
  simp only [decide_eq_true_eq]
  constructor
  · rintro ⟨⟨index, _, rfl⟩, ⟨_, lower⟩, below, above⟩
    refine ⟨⟨time / config.slide - index, ?_⟩, lower, below, above⟩
    ring
  · rintro ⟨⟨factor, rfl⟩, lower, below, above⟩
    have ahead : factor ≤ time / config.slide :=
      (Int.le_ediv_iff_mul_le forward).mpr (by rw [mul_comm]; exact below)
    have distance : time / config.slide * config.slide - config.slide * factor =
        (time / config.slide - factor) * config.slide := by ring
    have within : time / config.slide - factor ≤ config.windowSize / config.slide :=
      (Int.le_ediv_iff_mul_le forward).mpr (by omega)
    refine ⟨⟨(time / config.slide - factor).toNat, by omega, ?_⟩, ⟨by omega, lower⟩, below, above⟩
    rw [Int.toNat_of_nonneg (by omega)]
    ring

theorem assignWindows_exactly (oracle : Oracle) {eventTime : Timestamp}
    (positive : 0 < oracle.config.windowSize) (forward : 0 < oracle.config.slide)
    (nonneg : 0 ≤ eventTime.ms) :
    Exactly oracle.config.windowSize oracle.config.slide eventTime.ms
      (oracle.assignWindows eventTime) := by
  have bounded : eventTime.ms ≤ 2 ^ 63 - 1 := eventTime.upper
  unfold assignWindows
  dsimp only
  split
  · next tumbling =>
    rw [tumbling, Int.tdiv_eq_ediv_of_nonneg nonneg]
    exact exactly_tumbling positive nonneg bounded
  · rw [Int.tdiv_eq_ediv_of_nonneg nonneg, startLoop_eq _ forward]
    refine exactly_of_starts bounded ?_ (mem_starts oracle.config forward eventTime.ms)
    exact (progression_nodup _ _ (neg_ne_zero.mpr forward.ne')).filter _

end Oracle

variable {size slide time : Int}

/-- The windows of a time in the domain end after it, inside the range. -/
theorem Exactly.close_nonneg {windows : List Window} (exactly : Exactly size slide time windows)
    (bounded : time ≤ 2 ^ 63 - 1 - size) {window : Window} (member : window ∈ windows) :
    0 ≤ window.close.ms := by
  obtain ⟨start, ⟨_, lower, below, above⟩, rfl⟩ := (exactly.members window).mp member
  change 0 ≤ (Timestamp.ofMs (start + size)).ms
  rw [Timestamp.ofMs_ms (by omega) (by omega)]
  omega

/-- Two exact lists hold the same windows. -/
theorem Exactly.perm {left right : List Window} (first : Exactly size slide time left)
    (second : Exactly size slide time right) :
    left.Perm right := by
  rw [List.perm_ext_iff_of_nodup first.nodup second.nodup]
  intro other
  rw [first.members, second.members]

/-- Two exact lists agree on every window, with its multiplicity. -/
theorem Exactly.filter_eq {left right : List Window} (first : Exactly size slide time left)
    (second : Exactly size slide time right) (window : Window) :
    left.filter (· = window) = right.filter (· = window) := by
  have counts := (first.perm second).count_eq window
  rw [List.filter_eq, List.filter_eq, counts]

end Stormglass
