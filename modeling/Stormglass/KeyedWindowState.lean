import Stormglass.Window

/-!
# Keyed window state

`KeyedWindowState` stores, for each window, one pane for each key, and the sets of
windows that have fired and that await a re-fire. The outer map is ordered by the
end of the window, so the windows that a watermark closes are a prefix of it.

The inner map and the two sets are hash containers in the source, and their order is
unspecified. The model iterates them in key order. What is written down in such an
order, a checkpoint or an operator snapshot, takes the order as an argument. Results
that leave a firing in such an order are compared as sets, as multisets or for each
key and window, unless both sides do the same operations on the same state. The lemmas
describe each operation through three views: the pane of a key, and membership in
the two sets.
-/

namespace Stormglass

abbrev PaneMap := Std.ExtTreeMap Bytes Pane

structure KeyedWindowState where
  windows : Std.ExtTreeMap Window PaneMap := ∅
  allowedLateness : Nat := 0
  firedWindows : Std.ExtTreeSet Window := ∅
  refiredWindows : Std.ExtTreeSet Window := ∅

namespace KeyedWindowState

/-- The pane of a key in a window, if there is one. -/
def pane (state : KeyedWindowState) (key : Bytes) (window : Window) : Option Pane :=
  (state.windows[window]?).bind (fun panes => panes[key]?)

/-- The pane that `windows_[window][key]` refers to, created empty if absent. -/
def paneOrNew (state : KeyedWindowState) (key : Bytes) (window : Window) : Pane :=
  (state.pane key window).getD {}

/-- Store a pane, creating its window if needed. -/
def setPane (state : KeyedWindowState) (key : Bytes) (window : Window) (pane : Pane) :
    KeyedWindowState :=
  { state with
    windows := state.windows.insert window ((state.windows.getD window ∅).insert key pane) }

/-- Store a pane of a checkpoint. -/
def restorePane (state : KeyedWindowState) (key : Bytes) (window : Window) (sum : Int)
    (count : Nat) : KeyedWindowState :=
  state.setPane key window { sum := sum, count := count }

def restoreFiredWindows (state : KeyedWindowState) (windows : List Window) : KeyedWindowState :=
  { state with
    firedWindows := windows.foldl (fun fired window => fired.insert window) state.firedWindows }

def restoreRefiredWindows (state : KeyedWindowState) (windows : List Window) : KeyedWindowState :=
  { state with
    refiredWindows :=
      windows.foldl (fun refired window => refired.insert window) state.refiredWindows }

def IsFired (state : KeyedWindowState) (window : Window) : Prop := window ∈ state.firedWindows

instance (state : KeyedWindowState) (window : Window) : Decidable (state.IsFired window) :=
  inferInstanceAs (Decidable (_ ∈ _))

/-- Add a value to its pane. A refused addition leaves the pane created by the
access behind. -/
def addPane (state : KeyedWindowState) (key : Bytes) (window : Window) (value : Int) :
    Except (Failure × KeyedWindowState) KeyedWindowState :=
  match (state.paneOrNew key window).add value with
  | .error failure =>
      .error (failure, state.setPane key window (state.paneOrNew key window))
  | .ok pane => .ok (state.setPane key window pane)

/-- Add a value while the deadline of the window has not passed, and note that a
fired window has to fire again. The flag says whether the value was accepted. -/
def addWithLateness (state : KeyedWindowState) (key : Bytes) (window : Window) (value : Int)
    (currentWatermark : Timestamp) :
    Except (Failure × KeyedWindowState) (Bool × KeyedWindowState) :=
  if window.deadline state.allowedLateness ≤ currentWatermark then .ok (false, state)
  else
    match state.addPane key window value with
    | .error thrown => .error thrown
    | .ok state =>
        if state.IsFired window then
          .ok (true, { state with refiredWindows := state.refiredWindows.insert window })
        else .ok (true, state)

/-- The windows that end by the watermark and have not fired: the walk stops at the
first window that ends later. -/
def expiredWindows (state : KeyedWindowState) (watermark : Timestamp) : List Window :=
  (state.windows.keys.takeWhile (fun window => window.close ≤ watermark)).filter
    (fun window => ¬ state.IsFired window)

/-- The results of a window's panes, and the state in which the window was erased
or, with allowed lateness, marked as fired. -/
def fireWindow (state : KeyedWindowState) (window : Window) :
    List WindowResult × KeyedWindowState :=
  match state.windows[window]? with
  | none => ([], state)
  | some panes =>
      (panes.toList.map (fun entry =>
          { key := entry.1, window := window, result := entry.2.result }),
        if state.allowedLateness = 0 then { state with windows := state.windows.erase window }
        else { state with firedWindows := state.firedWindows.insert window })

/-- Fire windows one after another. -/
def fireAll : List Window → KeyedWindowState → List WindowResult × KeyedWindowState
  | [], state => ([], state)
  | window :: rest, state =>
      let fired := state.fireWindow window
      let later := fireAll rest fired.2
      (fired.1 ++ later.1, later.2)

/-- Fire those windows of a list that have not fired, and count them. -/
def fireUnfired : List Window → KeyedWindowState → List WindowResult × Nat × KeyedWindowState
  | [], state => ([], 0, state)
  | window :: rest, state =>
      if state.IsFired window then fireUnfired rest state
      else
        let fired := state.fireWindow window
        let later := fireUnfired rest fired.2
        (fired.1 ++ later.1, later.2.1 + 1, later.2.2)

def garbageCollectableWindows (state : KeyedWindowState) (watermark : Timestamp) : List Window :=
  state.firedWindows.toList.filter
    (fun window => window.deadline state.allowedLateness ≤ watermark)

def garbageCollect (state : KeyedWindowState) (windows : List Window) : KeyedWindowState :=
  windows.foldl
    (fun state window =>
      { state with
        windows := state.windows.erase window
        firedWindows := state.firedWindows.erase window
        refiredWindows := state.refiredWindows.erase window })
    state

def clearRefired (state : KeyedWindowState) : KeyedWindowState := { state with refiredWindows := ∅ }

def allWindows (state : KeyedWindowState) : List Window := state.windows.keys

/-- A window waits for a re-fire. -/
def IsRefired (state : KeyedWindowState) (window : Window) : Prop :=
  window ∈ state.refiredWindows

instance (state : KeyedWindowState) (window : Window) : Decidable (state.IsRefired window) :=
  inferInstanceAs (Decidable (_ ∈ _))

/-- The results of one key and window, in order. -/
def resultsFor (key : Bytes) (window : Window) (results : List WindowResult) :
    List AggregateResult :=
  (results.filter (fun result => result.key = key ∧ result.window = window)).map
    WindowResult.result

/-- The results of a place are the values reported for it. -/
theorem mem_resultsFor {results : List WindowResult} {key : Bytes} {window : Window}
    {value : AggregateResult} :
    value ∈ resultsFor key window results ↔
      ({ key := key, window := window, result := value } : WindowResult) ∈ results := by
  rw [resultsFor, List.mem_map]
  constructor
  · rintro ⟨result, member, rfl⟩
    obtain ⟨listed, place⟩ := List.mem_filter.mp member
    obtain ⟨rfl, rfl⟩ := of_decide_eq_true place
    exact listed
  · intro listed
    exact ⟨_, List.mem_filter.mpr ⟨listed, by simp⟩, rfl⟩

@[simp] theorem resultsFor_nil (key : Bytes) (window : Window) : resultsFor key window [] = [] :=
  rfl

@[simp] theorem resultsFor_append (key : Bytes) (window : Window)
    (first second : List WindowResult) :
    resultsFor key window (first ++ second) =
      resultsFor key window first ++ resultsFor key window second := by
  simp [resultsFor]

section Panes

variable (state : KeyedWindowState)

theorem pane_setPane (key other : Bytes) (window place : Window) (pane : Pane) :
    (state.setPane key window pane).pane other place =
      if other = key ∧ place = window then some pane else state.pane other place := by
  unfold setPane KeyedWindowState.pane
  simp only [Std.ExtTreeMap.getElem?_insert]
  by_cases here : place = window
  · subst here
    by_cases own : other = key
    · subst own
      simp
    · have different : ¬ compare key other = .eq := by
        rw [Std.LawfulEqOrd.compare_eq_iff_eq]
        exact fun same => own same.symm
      simp only [Std.ReflOrd.compare_self, if_true, Option.bind_some,
        Std.ExtTreeMap.getElem?_insert, if_neg different, own, false_and, if_false]
      rw [Std.ExtTreeMap.getD_eq_getD_getElem?]
      cases state.windows[place]? with
      | none => simp
      | some panes => simp
  · have different : ¬ compare window place = .eq := by
      rw [Std.LawfulEqOrd.compare_eq_iff_eq]
      exact fun same => here same.symm
    simp [different, here]

theorem mem_setPane (key : Bytes) (window place : Window) (pane : Pane) :
    place ∈ (state.setPane key window pane).windows ↔ place = window ∨ place ∈ state.windows := by
  unfold setPane
  rw [Std.ExtTreeMap.mem_insert, Std.LawfulEqOrd.compare_eq_iff_eq, eq_comm]

end Panes

/-- A window with a pane is stored. -/
theorem mem_of_pane {state : KeyedWindowState} {key : Bytes} {window : Window} {pane : Pane}
    (found : state.pane key window = some pane) : window ∈ state.windows := by
  unfold KeyedWindowState.pane at found
  cases stored : state.windows[window]? with
  | none => simp [stored] at found
  | some panes =>
    rw [Std.ExtTreeMap.mem_iff_isSome_getElem?, stored]
    rfl

/-- The entries of one key in the list of a map. -/
theorem toList_filter_key (panes : PaneMap) (key : Bytes) :
    (panes.toList.filter (fun entry => entry.1 = key)).map Prod.snd = panes[key]?.toList := by
  have distinct : (panes.toList.filter (fun entry => entry.1 = key)).Pairwise
      (fun left right => ¬ left.1 = right.1) := by
    refine List.Pairwise.filter _ (panes.distinct_keys_toList.imp ?_)
    intro left right different same
    exact different (by rw [same]; exact Std.ReflOrd.compare_self)
  cases found : panes[key]? with
  | none =>
    have nothing : panes.toList.filter (fun entry => entry.1 = key) = [] := by
      rw [List.filter_eq_nil_iff]
      rintro ⟨other, pane⟩ member same
      have own : other = key := by simpa using same
      rw [Std.ExtTreeMap.mem_toList_iff_getElem?_eq_some, own, found] at member
      simp at member
    rw [nothing]
    rfl
  | some pane =>
    have member : (key, pane) ∈ panes.toList.filter (fun entry => entry.1 = key) := by
      rw [List.mem_filter, Std.ExtTreeMap.mem_toList_iff_getElem?_eq_some]
      exact ⟨found, by simp⟩
    have same : ∀ entry ∈ panes.toList.filter (fun entry => entry.1 = key),
        entry.1 = key := by
      intro entry inside
      simpa using (List.mem_filter.mp inside).2
    have single : panes.toList.filter (fun entry => entry.1 = key) = [(key, pane)] := by
      generalize panes.toList.filter (fun entry => entry.1 = key) = entries at *
      match entries, distinct, member, same with
      | [only], _, member, _ => rw [List.mem_singleton.mp member]
      | first :: second :: rest, distinct, _, same =>
        have clash := List.rel_of_pairwise_cons distinct (List.mem_cons_self (a := second))
        exact absurd ((same first (by simp)).trans (same second (by simp)).symm) clash
    rw [single]
    rfl

/-- Firing a window reports the pane of each of its keys once. -/
theorem resultsFor_fireWindow (state : KeyedWindowState) (key : Bytes) (window place : Window) :
    resultsFor key window (state.fireWindow place).1 =
      if place = window then ((state.pane key window).map Pane.result).toList else [] := by
  unfold fireWindow KeyedWindowState.pane
  by_cases here : place = window
  · subst here
    cases stored : state.windows[place]? with
    | none => simp
    | some panes =>
      have entries := toList_filter_key panes key
      rw [if_pos rfl, Option.bind_some, Option.toList_map, ← entries]
      simp [resultsFor, List.filter_map, Function.comp_def]
  · rw [if_neg here]
    cases stored : state.windows[place]? with
    | none => rfl
    | some panes =>
      have foreign : ∀ result ∈ panes.toList.map (fun entry : Bytes × Pane =>
          ({ key := entry.1, window := place, result := entry.2.result } : WindowResult)),
          ¬ (result.key = key ∧ result.window = window) := by
        intro result member
        obtain ⟨entry, _, rfl⟩ := List.mem_map.mp member
        exact fun both => here both.2
      rw [resultsFor, List.filter_eq_nil_iff.mpr (by simpa using foreign)]
      rfl

/-- How firing windows changes the state. Without lateness their panes are erased;
with lateness they stay, and the stored ones are marked as fired. -/
structure Firing (windows : List Window) (before after : KeyedWindowState) : Prop where
  lateness : after.allowedLateness = before.allowedLateness
  pane : ∀ key window, after.pane key window =
    if before.allowedLateness = 0 ∧ window ∈ windows then none else before.pane key window
  stored : ∀ window, window ∈ after.windows ↔
    window ∈ before.windows ∧ ¬ (before.allowedLateness = 0 ∧ window ∈ windows)
  fired : ∀ window, after.IsFired window ↔ before.IsFired window ∨
    (before.allowedLateness ≠ 0 ∧ window ∈ windows ∧ window ∈ before.windows)
  refired : after.refiredWindows = before.refiredWindows

theorem pane_erase (state : KeyedWindowState) (key : Bytes) (window place : Window) :
    pane { state with windows := state.windows.erase place } key window =
      if window = place then none else state.pane key window := by
  unfold KeyedWindowState.pane
  simp only [Std.ExtTreeMap.getElem?_erase, Std.LawfulEqOrd.compare_eq_iff_eq]
  by_cases here : window = place
  · subst here
    simp
  · rw [if_neg (fun same => here same.symm), if_neg here]

theorem fireWindow_firing (state : KeyedWindowState) (window : Window) :
    Firing [window] state (state.fireWindow window).2 := by
  unfold fireWindow
  cases found : state.windows[window]? with
  | none =>
    have absent : window ∉ state.windows := by
      rw [Std.ExtTreeMap.mem_iff_isSome_getElem?, found]
      simp
    refine ⟨rfl, ?_, ?_, ?_, rfl⟩
    · intro key place
      by_cases here : place = window
      · subst here
        simp [KeyedWindowState.pane, found]
      · simp [here]
    · intro place
      by_cases here : place = window
      · subst here
        simp [absent]
      · simp [here]
    · intro place
      by_cases here : place = window
      · subst here
        simp [absent]
      · simp [here]
  | some panes =>
    have present : window ∈ state.windows := by
      rw [Std.ExtTreeMap.mem_iff_isSome_getElem?, found]
      rfl
    by_cases strict : state.allowedLateness = 0
    · dsimp only
      rw [if_pos strict]
      refine ⟨rfl, ?_, ?_, ?_, rfl⟩
      · intro key place
        rw [pane_erase]
        simp [strict]
      · intro place
        simp only [Std.ExtTreeMap.mem_erase, ne_eq, Std.LawfulEqOrd.compare_eq_iff_eq, strict,
          List.mem_singleton, true_and]
        rw [and_comm, eq_comm]
      · intro place
        simp [IsFired, strict]
    · dsimp only
      rw [if_neg strict]
      refine ⟨rfl, ?_, ?_, ?_, rfl⟩
      · intro key place
        simp [strict, KeyedWindowState.pane]
      · intro place
        simp [strict]
      · intro place
        simp only [IsFired, Std.ExtTreeSet.mem_insert, Std.LawfulEqOrd.compare_eq_iff_eq, strict,
          List.mem_singleton, ne_eq, not_false_eq_true, true_and]
        constructor
        · rintro (rfl | before)
          · exact Or.inr ⟨rfl, present⟩
          · exact Or.inl before
        · rintro (before | ⟨rfl, _⟩)
          · exact Or.inr before
          · exact Or.inl rfl

theorem Firing.nil (state : KeyedWindowState) : Firing [] state state := by
  refine ⟨rfl, ?_, ?_, ?_, rfl⟩ <;> simp

theorem Firing.cons {window : Window} {windows : List Window}
    {first second third : KeyedWindowState} (one : Firing [window] first second)
    (rest : Firing windows second third) : Firing (window :: windows) first third := by
  refine ⟨rest.lateness.trans one.lateness, ?_, ?_, ?_, rest.refired.trans one.refired⟩
  · intro key place
    rw [rest.pane, one.pane, one.lateness]
    by_cases strict : first.allowedLateness = 0
    · by_cases here : place = window
      · simp [strict, here]
      · simp [strict, here]
    · simp [strict]
  · intro place
    rw [rest.stored, one.stored, one.lateness]
    simp only [List.mem_cons, List.not_mem_nil, or_false]
    tauto
  · intro place
    rw [rest.fired, one.fired, one.lateness, one.stored]
    simp only [List.mem_cons, List.not_mem_nil, or_false]
    tauto

/-- Firing a list of windows. Each listed window reports the panes it had before. -/
theorem fireAll_spec (windows : List Window) (state : KeyedWindowState)
    (distinct : windows.Nodup) :
    Firing windows state (fireAll windows state).2 ∧
      ∀ key window, resultsFor key window (fireAll windows state).1 =
        if window ∈ windows then ((state.pane key window).map Pane.result).toList else [] := by
  induction windows generalizing state with
  | nil => exact ⟨Firing.nil state, by simp [fireAll]⟩
  | cons place rest inductionHypothesis =>
    rw [List.nodup_cons] at distinct
    obtain ⟨fresh, distinct⟩ := distinct
    obtain ⟨later, results⟩ := inductionHypothesis (state.fireWindow place).2 distinct
    have one := fireWindow_firing state place
    refine ⟨one.cons later, ?_⟩
    intro key window
    change resultsFor key window ((state.fireWindow place).1 ++
      (fireAll rest (state.fireWindow place).2).1) = _
    rw [resultsFor_append, resultsFor_fireWindow, results, one.pane]
    by_cases here : place = window
    · subst here
      simp [fresh]
    · have elsewhere : ¬ window = place := fun same => here same.symm
      simp [here, elsewhere]

/-- Firing the unfired windows of a list without repetitions is firing the list of
its unfired windows. -/
theorem fireUnfired_eq (windows : List Window) (state : KeyedWindowState)
    (distinct : windows.Nodup) :
    fireUnfired windows state =
      ((fireAll (windows.filter (fun window => ¬ state.IsFired window)) state).1,
        (windows.filter (fun window => ¬ state.IsFired window)).length,
        (fireAll (windows.filter (fun window => ¬ state.IsFired window)) state).2) := by
  induction windows generalizing state with
  | nil => rfl
  | cons place rest inductionHypothesis =>
    rw [List.nodup_cons] at distinct
    obtain ⟨fresh, distinct⟩ := distinct
    by_cases fired : state.IsFired place
    · rw [fireUnfired, if_pos fired, inductionHypothesis state distinct]
      simp [fired]
    · have one := fireWindow_firing state place
      have same : rest.filter (fun window => ¬ (state.fireWindow place).2.IsFired window) =
          rest.filter (fun window => ¬ state.IsFired window) := by
        apply List.filter_congr
        intro window member
        have other : window ≠ place := fun here => fresh (here ▸ member)
        simp [one.fired window, other]
      have later := inductionHypothesis (state.fireWindow place).2 distinct
      rw [same] at later
      rw [fireUnfired, if_neg fired]
      simp [fired, fireAll, later]

section Lists

variable (state : KeyedWindowState)

theorem mem_allWindows (window : Window) : window ∈ state.allWindows ↔ window ∈ state.windows :=
  Std.ExtTreeMap.mem_keys

theorem allWindows_nodup : state.allWindows.Nodup := by
  refine state.windows.distinct_keys.imp ?_
  intro left right different same
  exact different (by rw [same]; exact Std.ReflOrd.compare_self)

/-- The stored windows are listed by increasing end. -/
theorem allWindows_ordered :
    state.allWindows.Pairwise (fun earlier later => earlier.close ≤ later.close) := by
  refine state.windows.ordered_keys.imp ?_
  intro left right ordered
  exact Window.close_mono (le_of_lt (compare_lt_iff_lt.mp ordered))

/-- On a list ordered by end, the walk up to the first later window finds every
window that ends in time. -/
theorem takeWhile_close_le {windows : List Window} (watermark : Timestamp)
    (ordered : windows.Pairwise (fun earlier later => earlier.close ≤ later.close)) :
    windows.takeWhile (fun window => window.close ≤ watermark) =
      windows.filter (fun window => window.close ≤ watermark) := by
  induction windows with
  | nil => rfl
  | cons first rest inductionHypothesis =>
    rw [List.pairwise_cons] at ordered
    by_cases inTime : first.close ≤ watermark
    · simp [inTime, inductionHypothesis ordered.2]
    · have none : rest.filter (fun window => window.close ≤ watermark) = [] := by
        rw [List.filter_eq_nil_iff]
        intro later member ended
        exact inTime ((ordered.1 later member).trans (by simpa using ended))
      simp [inTime, none]

theorem mem_expiredWindows (watermark : Timestamp) (window : Window) :
    window ∈ state.expiredWindows watermark ↔
      window ∈ state.windows ∧ window.close ≤ watermark ∧ ¬ state.IsFired window := by
  have walk := takeWhile_close_le watermark state.allWindows_ordered
  unfold allWindows at walk
  unfold expiredWindows
  rw [walk]
  simp only [List.mem_filter, Std.ExtTreeMap.mem_keys, decide_eq_true_eq]
  tauto

theorem expiredWindows_nodup (watermark : Timestamp) : (state.expiredWindows watermark).Nodup :=
  (state.allWindows_nodup.sublist (List.takeWhile_sublist _)).filter _

theorem mem_refiredWindows (window : Window) :
    window ∈ state.refiredWindows.toList ↔ state.IsRefired window :=
  Std.ExtTreeSet.mem_toList

theorem refiredWindows_nodup : state.refiredWindows.toList.Nodup := by
  refine state.refiredWindows.distinct_toList.imp ?_
  intro left right different same
  exact different (by rw [same]; exact Std.ReflOrd.compare_self)

theorem mem_garbageCollectableWindows (watermark : Timestamp) (window : Window) :
    window ∈ state.garbageCollectableWindows watermark ↔
      state.IsFired window ∧ window.deadline state.allowedLateness ≤ watermark := by
  unfold garbageCollectableWindows
  rw [List.mem_filter, Std.ExtTreeSet.mem_toList, decide_eq_true_eq]
  rfl

end Lists

/-- How garbage collection changes the state: the collected windows leave it
entirely. -/
structure Collected (windows : List Window) (before after : KeyedWindowState) : Prop where
  lateness : after.allowedLateness = before.allowedLateness
  pane : ∀ key window, after.pane key window =
    if window ∈ windows then none else before.pane key window
  stored : ∀ window, window ∈ after.windows ↔ window ∈ before.windows ∧ window ∉ windows
  fired : ∀ window, after.IsFired window ↔ before.IsFired window ∧ window ∉ windows
  refired : ∀ window, after.IsRefired window ↔ before.IsRefired window ∧ window ∉ windows

theorem garbageCollect_spec (windows : List Window) (state : KeyedWindowState) :
    Collected windows state (state.garbageCollect windows) := by
  induction windows generalizing state with
  | nil => refine ⟨rfl, ?_, ?_, ?_, ?_⟩ <;> simp [garbageCollect]
  | cons place rest inductionHypothesis =>
    have later := inductionHypothesis
      { state with
        windows := state.windows.erase place
        firedWindows := state.firedWindows.erase place
        refiredWindows := state.refiredWindows.erase place }
    change Collected (place :: rest) state (garbageCollect _ rest)
    refine ⟨later.lateness, ?_, ?_, ?_, ?_⟩
    · intro key window
      have erased := pane_erase state key window place
      rw [later.pane]
      change (if window ∈ rest then none else
        pane { state with windows := state.windows.erase place } key window) = _
      rw [erased]
      by_cases here : window = place <;> simp [here]
    · intro window
      rw [later.stored, Std.ExtTreeMap.mem_erase, ne_eq, Std.LawfulEqOrd.compare_eq_iff_eq,
        List.mem_cons, eq_comm]
      tauto
    · intro window
      rw [later.fired, IsFired, Std.ExtTreeSet.mem_erase, ne_eq,
        Std.LawfulEqOrd.compare_eq_iff_eq, List.mem_cons, eq_comm]
      unfold IsFired
      tauto
    · intro window
      rw [later.refired, IsRefired, Std.ExtTreeSet.mem_erase, ne_eq,
        Std.LawfulEqOrd.compare_eq_iff_eq, List.mem_cons, eq_comm]
      unfold IsRefired
      tauto

/-- How an accepted value changes the state: one pane is stored, and its window has
to fire again if it has fired. -/
structure Added (key : Bytes) (window : Window) (pane : Pane)
    (before after : KeyedWindowState) : Prop where
  lateness : after.allowedLateness = before.allowedLateness
  pane : ∀ other place, after.pane other place =
    if other = key ∧ place = window then some pane else before.pane other place
  stored : ∀ place, place ∈ after.windows ↔ place = window ∨ place ∈ before.windows
  fired : ∀ place, after.IsFired place ↔ before.IsFired place
  refired : ∀ place, after.IsRefired place ↔
    before.IsRefired place ∨ (place = window ∧ before.IsFired window)

theorem addWithLateness_late {state : KeyedWindowState} {window : Window}
    {currentWatermark : Timestamp}
    (late : window.deadline state.allowedLateness ≤ currentWatermark) (key : Bytes) (value : Int) :
    state.addWithLateness key window value currentWatermark = .ok (false, state) :=
  if_pos late

theorem addWithLateness_accepted {state : KeyedWindowState} {key : Bytes} {window : Window}
    {value : Int} {currentWatermark : Timestamp} {pane : Pane}
    (early : currentWatermark < window.deadline state.allowedLateness)
    (fits : (state.paneOrNew key window).add value = .ok pane) :
    ∃ after, state.addWithLateness key window value currentWatermark = .ok (true, after) ∧
      Added key window pane state after := by
  unfold addWithLateness addPane
  rw [if_neg (not_le.mpr early), fits]
  dsimp only
  have stored := state.mem_setPane key window
  have panes := state.pane_setPane key
  by_cases fired : (state.setPane key window pane).IsFired window
  · rw [if_pos fired]
    refine ⟨_, rfl, rfl, ?_, ?_, ?_, ?_⟩
    · intro other place
      exact panes other window place pane
    · intro place
      exact stored place pane
    · intro place
      exact Iff.rfl
    · intro place
      change place ∈ state.refiredWindows.insert window ↔ _
      rw [Std.ExtTreeSet.mem_insert, Std.LawfulEqOrd.compare_eq_iff_eq]
      constructor
      · rintro (rfl | before)
        · exact Or.inr ⟨rfl, fired⟩
        · exact Or.inl before
      · rintro (before | ⟨rfl, _⟩)
        · exact Or.inr before
        · exact Or.inl rfl
  · rw [if_neg fired]
    refine ⟨_, rfl, rfl, ?_, ?_, ?_, ?_⟩
    · intro other place
      exact panes other window place pane
    · intro place
      exact stored place pane
    · intro place
      exact Iff.rfl
    · intro place
      constructor
      · exact Or.inl
      · rintro (before | ⟨_, again⟩)
        · exact before
        · exact absurd again fired

end KeyedWindowState

end Stormglass
