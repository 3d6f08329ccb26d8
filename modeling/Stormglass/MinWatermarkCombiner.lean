import Stormglass.Stream

/-!
# The minimum watermark over active channels

`MinWatermarkCombiner` keeps one watermark and one activity flag for each of `k`
channels and the last merged watermark. Each call that changes a watermark or the
active set recomputes the minimum over the active channels and reports it exactly
when it passes the last merged watermark.

`frontier` is the mathematical minimum. With no active channel it is
`Timestamp::min()`, the value that can never pass anything, so one equation
describes every recomputation: the merged watermark becomes the maximum of itself
and the frontier.
-/

namespace Stormglass

structure MinWatermarkCombiner (k : Nat) where
  perSource : Fin k → Timestamp
  active : Fin k → Bool
  emitted : Timestamp

namespace MinWatermarkCombiner

variable {k : Nat} {active : Fin k → Bool}

/-- All channels start active and before their first watermark. -/
def initial (k : Nat) : MinWatermarkCombiner k where
  perSource _ := ⊥
  active _ := true
  emitted := ⊥

/-- The last merged watermark. -/
def current (combiner : MinWatermarkCombiner k) : Timestamp := combiner.emitted

/-- The scan over the channels: skip inactive ones, keep the least watermark. -/
def scan (combiner : MinWatermarkCombiner k) : Timestamp :=
  (List.finRange k).foldl
    (fun least channel =>
      if combiner.active channel = true then
        if combiner.perSource channel < least then combiner.perSource channel else least
      else least)
    ⊤

/-- Recompute the minimum and advance. With no active channel the merged
watermark holds. -/
def recompute (combiner : MinWatermarkCombiner k) : Option Timestamp × MinWatermarkCombiner k :=
  if ∃ channel, combiner.active channel = true then
    if combiner.emitted < combiner.scan then
      (some combiner.scan, { combiner with emitted := combiner.scan })
    else (none, combiner)
  else (none, combiner)

/-- A channel reports a watermark. It becomes active, and a report that moves
backwards is ignored. -/
def observe (combiner : MinWatermarkCombiner k) (channel : Fin k) (watermark : Timestamp) :
    Option Timestamp × MinWatermarkCombiner k :=
  recompute
    { combiner with
      active := Function.update combiner.active channel true
      perSource :=
        if combiner.perSource channel < watermark then
          Function.update combiner.perSource channel watermark
        else combiner.perSource }

/-- Exclude a channel from the minimum. -/
def markIdle (combiner : MinWatermarkCombiner k) (channel : Fin k) :
    Option Timestamp × MinWatermarkCombiner k :=
  recompute { combiner with active := Function.update combiner.active channel false }

/-- Include a channel again at the watermark it kept. -/
def markActive (combiner : MinWatermarkCombiner k) (channel : Fin k) :
    Option Timestamp × MinWatermarkCombiner k :=
  recompute { combiner with active := Function.update combiner.active channel true }

/-- The minimum watermark over a set of channels given by its indicator. -/
def minimumOver (active : Fin k → Bool) (perSource : Fin k → Timestamp) : Timestamp :=
  if ∃ channel, active channel = true then
    (Finset.univ.filter (fun channel => active channel = true)).inf perSource
  else ⊥

/-- The minimum watermark over the active channels. -/
def frontier (combiner : MinWatermarkCombiner k) : Timestamp :=
  minimumOver combiner.active combiner.perSource

/-- A scan over any list of channels computes the infimum over its active
members and the starting value. -/
private theorem scan_list (combiner : MinWatermarkCombiner k) (channels : List (Fin k))
    (start : Timestamp) :
    channels.foldl
      (fun least channel =>
        if combiner.active channel = true then
          if combiner.perSource channel < least then combiner.perSource channel else least
        else least)
      start =
      start ⊓ (channels.toFinset.filter (fun channel => combiner.active channel = true)).inf
        combiner.perSource := by
  induction channels generalizing start with
  | nil => simp
  | cons channel rest inductionHypothesis =>
    simp only [List.foldl_cons, List.toFinset_cons, Finset.filter_insert]
    rw [inductionHypothesis]
    by_cases included : combiner.active channel = true
    · simp only [included, if_true, Finset.inf_insert]
      by_cases smaller : combiner.perSource channel < start
      · rw [if_pos smaller, ← inf_assoc, inf_eq_right.mpr (le_of_lt smaller)]
      · rw [if_neg smaller, ← inf_assoc, inf_eq_left.mpr (not_lt.mp smaller)]
    · simp [included]

/-- The scan computes the minimum watermark whenever a channel is active. -/
theorem scan_eq_frontier (combiner : MinWatermarkCombiner k)
    (someActive : ∃ channel, combiner.active channel = true) :
    combiner.scan = combiner.frontier := by
  rw [scan, scan_list, frontier, minimumOver, if_pos someActive, top_inf_eq,
    List.toFinset_finRange]

/-- One recomputation advances to the maximum of the merged watermark and the
frontier, and reports the frontier exactly when it is a strict advance. -/
theorem recompute_eq (combiner : MinWatermarkCombiner k) :
    combiner.recompute =
      (if combiner.emitted < combiner.frontier then some combiner.frontier else none,
        { combiner with emitted := max combiner.emitted combiner.frontier }) := by
  by_cases someActive : ∃ channel, combiner.active channel = true
  · rw [recompute, if_pos someActive, scan_eq_frontier combiner someActive]
    by_cases advances : combiner.emitted < combiner.frontier
    · simp [advances, max_eq_right (le_of_lt advances)]
    · simp [advances, max_eq_left (not_lt.mp advances)]
  · have still : combiner.frontier = ⊥ := by rw [frontier, minimumOver, if_neg someActive]
    rw [recompute, if_neg someActive, still]
    simp

/-- The recorded watermark of a channel only grows. -/
def raised (perSource : Fin k → Timestamp) (channel : Fin k) (watermark : Timestamp) :
    Fin k → Timestamp :=
  Function.update perSource channel (max (perSource channel) watermark)

theorem observe_eq (combiner : MinWatermarkCombiner k) (channel : Fin k) (watermark : Timestamp) :
    combiner.observe channel watermark =
      recompute { combiner with
        active := Function.update combiner.active channel true
        perSource := raised combiner.perSource channel watermark } := by
  unfold observe raised
  by_cases forward : combiner.perSource channel < watermark
  · rw [if_pos forward, max_eq_right (le_of_lt forward)]
  · rw [if_neg forward, max_eq_left (not_lt.mp forward), Function.update_eq_self]

/-- The frontier is a lower bound of every active channel's watermark. -/
theorem minimumOver_le (active : Fin k → Bool) (perSource : Fin k → Timestamp) (channel : Fin k)
    (included : active channel = true) : minimumOver active perSource ≤ perSource channel := by
  rw [minimumOver, if_pos ⟨channel, included⟩]
  exact Finset.inf_le (by simp [included])

/-- Raising recorded watermarks raises the minimum. -/
theorem minimumOver_mono {lower upper : Fin k → Timestamp}
    (pointwise : ∀ channel, lower channel ≤ upper channel) :
    minimumOver active lower ≤ minimumOver active upper := by
  unfold minimumOver
  split
  · exact Finset.inf_mono_fun (fun channel _ => pointwise channel)
  · exact le_refl _

/-- Including another channel cannot raise a minimum that was already taken over
some channel. -/
theorem minimumOver_include (perSource : Fin k → Timestamp) (channel : Fin k)
    (someActive : ∃ other, active other = true) :
    minimumOver (Function.update active channel true) perSource ≤
      minimumOver active perSource := by
  have included : ∃ other, Function.update active channel true other = true :=
    ⟨channel, by simp⟩
  rw [minimumOver, minimumOver, if_pos someActive, if_pos included]
  apply Finset.inf_mono
  intro other member
  simp only [Finset.mem_filter, Finset.mem_univ, true_and] at member ⊢
  by_cases same : other = channel
  · simp [same]
  · simpa [Function.update_of_ne same] using member

/-- A single active channel is the minimum. -/
theorem minimumOver_only (perSource : Fin k → Timestamp) (channel : Fin k)
    (none : ¬ ∃ other, active other = true) :
    minimumOver (Function.update active channel true) perSource = perSource channel := by
  have included : ∃ other, Function.update active channel true other = true :=
    ⟨channel, by simp⟩
  have only : Finset.univ.filter (fun other => Function.update active channel true other = true) =
      {channel} := by
    ext other
    simp only [Finset.mem_filter, Finset.mem_univ, true_and, Finset.mem_singleton]
    by_cases same : other = channel
    · simp [same]
    · have inactive : ¬ active other = true := fun present => none ⟨other, present⟩
      simpa [Function.update_of_ne same, same] using inactive
  rw [minimumOver, if_pos included, only, Finset.inf_singleton]

end MinWatermarkCombiner

end Stormglass
