import Stormglass.KeyedProcessor
import Stormglass.Ledger

/-!
# Window state as a family of ledgers

Every key and window has an account: a ledger that closes at the end of the window
and accepts until its deadline. `Represents` says that a window state stores exactly
the open accounts and that its firing marks are sufficient: a fired window with an
unpublished contribution waits for a re-fire.

Each operation of the processor acts on the accounts as the corresponding ledger
operation does. A firing may repeat a publication, because it reports every key of
its window; `Reports` says that it does nothing else.
-/

namespace Stormglass

/-- One ledger for each key and window. -/
abbrev Accounts := Bytes → Window → Ledger Timestamp Int

/-- The state stores the accounts: a pane for each account with contributions before
its deadline, and re-fire marks for fired windows with unpublished contributions. -/
structure Represents (lateness : Nat) (now : Timestamp) (accounts : Accounts)
    (state : KeyedWindowState) : Prop where
  allowed : state.allowedLateness = lateness
  frontier : ∀ key window, (accounts key window).frontier = now
  kept : ∀ key window, Ledger.Kept window.close (window.deadline lateness) (accounts key window)
  pane : ∀ key window, state.pane key window =
    if (accounts key window).accepted ≠ [] ∧ now < window.deadline lateness then
      some (Pane.holding (accounts key window).accepted)
    else none
  refires : ∀ key window, state.IsFired window →
    (accounts key window).settled ≠ (accounts key window).accepted → state.IsRefired window
  refiredFired : ∀ window, state.IsRefired window → state.IsFired window
  firedClosed : ∀ window, state.IsFired window → window.close ≤ now ∧ 0 < lateness

namespace Represents

variable {lateness : Nat} {now : Timestamp} {accounts : Accounts} {state : KeyedWindowState}
  {window : Window}

/-- A deposit into one account. -/
def deposit (lateness : Nat) (accounts : Accounts) (key : Bytes) (window : Window)
    (values : List Int) : Accounts := fun other place =>
  if other = key ∧ place = window then
    (accounts other place).receive (place.deadline lateness) values
  else accounts other place

/-- Before the deadline, the pane of an account holds what it accepted. -/
theorem paneOrNew_eq (represents : Represents lateness now accounts state) (key : Bytes)
    (early : now < window.deadline lateness) :
    state.paneOrNew key window = Pane.holding (accounts key window).accepted := by
  rw [KeyedWindowState.paneOrNew, represents.pane]
  by_cases empty : (accounts key window).accepted = []
  · simp [empty, Pane.holding]
  · simp [empty, early]

/-- A late value leaves state and accounts alone. -/
theorem deposit_late (represents : Represents lateness now accounts state) (key : Bytes)
    (late : window.deadline lateness ≤ now) (values : List Int) :
    deposit lateness accounts key window values = accounts := by
  funext other place
  unfold deposit
  split
  · next here =>
    obtain ⟨rfl, rfl⟩ := here
    rw [Ledger.receive, represents.frontier, if_neg (not_lt.mpr late)]
  · rfl

/-- Before the deadline a deposit is accepted. -/
theorem deposit_accepted {key : Bytes}
    (accepts : (accounts key window).frontier < window.deadline lateness) (values : List Int) :
    deposit lateness accounts key window values key window =
      { accounts key window with accepted := (accounts key window).accepted ++ values } := by
  rw [deposit, if_pos ⟨rfl, rfl⟩, Ledger.receive, if_pos accepts]

/-- An accepted value is a deposit. The pane grows, and if its window has fired, the
window is marked for a re-fire. -/
theorem add (represents : Represents lateness now accounts state) {key : Bytes} {value : Int}
    {after : KeyedWindowState} (early : now < window.deadline lateness)
    (added : KeyedWindowState.Added key window
      (Pane.holding ((accounts key window).accepted ++ [value])) state after) :
    Represents lateness now (deposit lateness accounts key window [value]) after := by
  have accepts : (accounts key window).frontier < window.deadline lateness := by
    rw [represents.frontier]
    exact early
  have own := deposit_accepted accepts [value]
  have others (other : Bytes) (place : Window) (different : ¬ (other = key ∧ place = window)) :
      deposit lateness accounts key window [value] other place = accounts other place :=
    if_neg different
  constructor
  · exact added.lateness.trans represents.allowed
  · intro other place
    by_cases here : other = key ∧ place = window
    · obtain ⟨rfl, rfl⟩ := here
      rw [own]
      exact represents.frontier other place
    · rw [others other place here]
      exact represents.frontier other place
  · intro other place
    unfold deposit
    split
    · exact (represents.kept other place).receive [value]
    · exact represents.kept other place
  · intro other place
    rw [added.pane]
    by_cases here : other = key ∧ place = window
    · obtain ⟨rfl, rfl⟩ := here
      rw [own]
      simp [early]
    · rw [if_neg here, others other place here]
      exact represents.pane other place
  · intro other place fired stale
    rw [added.refired]
    rw [added.fired] at fired
    by_cases here : other = key ∧ place = window
    · obtain ⟨rfl, rfl⟩ := here
      exact Or.inr ⟨rfl, fired⟩
    · rw [others other place here] at stale
      exact Or.inl (represents.refires other place fired stale)
  · intro place again
    rw [added.fired]
    rcases (added.refired place).mp again with before | ⟨rfl, fired⟩
    · exact represents.refiredFired place before
    · exact fired
  · intro place fired
    exact represents.firedClosed place ((added.fired place).mp fired)

/-- The deposits of one record into the listed windows. -/
def deposits (lateness : Nat) (accounts : Accounts) (key : Bytes) (value : Int)
    (windows : List Window) : Accounts := fun other place =>
  if other = key then
    (accounts other place).receive (place.deadline lateness)
      ((windows.filter (· = place)).map (fun _ => value))
  else accounts other place

theorem deposits_nil (accounts : Accounts) (key : Bytes) (value : Int) :
    deposits lateness accounts key value [] = accounts := by
  funext other place
  unfold deposits Ledger.receive
  split
  · split
    · simp
    · rfl
  · rfl

theorem deposits_cons (lateness : Nat) (accounts : Accounts) (key : Bytes) (value : Int)
    (window : Window)
    (rest : List Window) :
    deposits lateness (deposit lateness accounts key window [value]) key value rest =
      deposits lateness accounts key value (window :: rest) := by
  funext other place
  unfold deposits deposit
  by_cases own : other = key
  · by_cases here : place = window
    · subst here
      simp [own, Ledger.receive_append]
    · have elsewhere : ¬ window = place := fun same => here same.symm
      simp [own, here, elsewhere]
  · simp [own]

/-- The loop over the windows of a record deposits its value into each of them. It
reports a drop exactly when some window is past its deadline. -/
theorem addToWindows_spec (record : Record) (useLateness : Bool) (windows : List Window)
    (represents : Represents lateness now accounts state)
    (fits : ∀ place, now < place.deadline lateness →
      Pane.Holds (deposits lateness accounts record.key record.value windows record.key
        place).accepted)
    (anyDropped anyLateAccepted : Bool) :
    ∃ after lateAccepted, KeyedProcessor.addToWindows record now useLateness windows state
        anyDropped anyLateAccepted =
        .ok (after, anyDropped || windows.any (fun window => window.deadline lateness ≤ now),
          lateAccepted) ∧
      Represents lateness now
        (deposits lateness accounts record.key record.value windows) after := by
  induction windows generalizing accounts state anyDropped anyLateAccepted with
  | nil =>
    rw [deposits_nil]
    exact ⟨state, anyLateAccepted, by simp [KeyedProcessor.addToWindows], represents⟩
  | cons window rest inductionHypothesis =>
    rw [KeyedProcessor.addToWindows]
    by_cases late : window.deadline lateness ≤ now
    · have refused := KeyedWindowState.addWithLateness_late
        (represents.allowed.symm ▸ late) record.key record.value
      have unchanged := deposits_cons lateness accounts record.key record.value
        window rest
      rw [represents.deposit_late record.key late] at unchanged
      rw [← unchanged] at fits ⊢
      obtain ⟨after, lateAccepted, looped, result⟩ := inductionHypothesis represents fits
        (anyDropped || !false) (anyLateAccepted || (false &&
          (useLateness && decide (state.IsFired window))))
      refine ⟨after, lateAccepted, ?_, result⟩
      simp only [refused]
      rw [looped]
      simp [late]
    · have early : now < window.deadline lateness := not_le.mp late
      have accepts : (accounts record.key window).frontier < window.deadline lateness := by
        rw [represents.frontier]
        exact early
      have room : Pane.Holds ((accounts record.key window).accepted ++ [record.value]) := by
        refine (fits window early).mono ?_
        rw [deposits, if_pos rfl, Ledger.receive, if_pos accepts]
        simp
      have grows : (state.paneOrNew record.key window).add record.value =
          .ok (Pane.holding ((accounts record.key window).accepted ++ [record.value])) := by
        rw [represents.paneOrNew_eq record.key early]
        exact Pane.add_holding room
      obtain ⟨middle, accepted, added⟩ := KeyedWindowState.addWithLateness_accepted
        (represents.allowed.symm ▸ early) grows
      have next := represents.add early added
      rw [← deposits_cons] at fits ⊢
      obtain ⟨after, lateAccepted, looped, result⟩ := inductionHypothesis next fits
        (anyDropped || !true) (anyLateAccepted || (true &&
          (useLateness && decide (state.IsFired window))))
      refine ⟨after, lateAccepted, ?_, result⟩
      simp only [accepted]
      rw [looped]
      simp [late]

end Represents

/-- What firing may do to one account: report nothing and publish nothing, publish
what was accepted and report it, or, where repetitions are allowed, report the last
publication again. -/
inductive Reports (repeats : Prop) (before after : Ledger Timestamp Int) :
    List AggregateResult → Prop where
  | silent (same : after.published = before.published) : Reports repeats before after []
  | fresh (grown : after.published = before.published ++ [before.accepted]) :
      Reports repeats before after [(Pane.holding before.accepted).result]
  | again (allowed : repeats) (same : after.published = before.published)
      (settled : before.settled = before.accepted) (nonempty : before.accepted ≠ []) :
      Reports repeats before after [(Pane.holding before.accepted).result]

/-- The results that the publications of an account stand for. -/
def publishedResults (ledger : Ledger Timestamp Int) : List AggregateResult :=
  ledger.published.map (fun values => (Pane.holding values).result)

/-- The last publication of a settled account with contributions. -/
theorem publishedResults_last {ledger : Ledger Timestamp Int}
    (settled : ledger.settled = ledger.accepted) (nonempty : ledger.accepted ≠ []) :
    (publishedResults ledger).getLast? = some (Pane.holding ledger.accepted).result := by
  have last : ledger.published.getLast? = some ledger.accepted := by
    cases found : ledger.published.getLast? with
    | none =>
      rw [Ledger.settled, List.getLastD_eq_getLast?, found] at settled
      exact absurd settled.symm nonempty
    | some values =>
      rw [Ledger.settled, List.getLastD_eq_getLast?, found] at settled
      exact congrArg some settled
  rw [publishedResults, List.getLast?_map, last]
  rfl

/-- Reports keep the output an echo of the publications. -/
theorem Reports.echoes {repeats : Prop} {before after : Ledger Timestamp Int}
    {output reported : List AggregateResult} (reports : Reports repeats before after reported)
    (echoes : Echoes output (publishedResults before)) :
    Echoes (output ++ reported) (publishedResults after) := by
  cases reports with
  | silent same =>
    rw [List.append_nil, publishedResults, same]
    exact echoes
  | fresh grown =>
    rw [publishedResults, grown, List.map_append]
    exact echoes.append _
  | again allowed same settled nonempty =>
    have last := publishedResults_last settled nonempty
    rw [publishedResults, same]
    exact echoes.again last

/-- Without repetitions the output is exactly the publications. -/
theorem Reports.exact {before after : Ledger Timestamp Int}
    {output reported : List AggregateResult} (reports : Reports False before after reported)
    (exact : output = publishedResults before) :
    output ++ reported = publishedResults after := by
  cases reports with
  | silent same => rw [List.append_nil, exact, publishedResults, publishedResults, same]
  | fresh grown => rw [exact, publishedResults, publishedResults, grown, List.map_append]; rfl
  | again allowed => exact allowed.elim

namespace Represents

variable {lateness : Nat} {now : Timestamp} {accounts : Accounts} {state : KeyedWindowState}

/-- Firing a window that waits for a re-fire or has not fired yet brings each of its
accounts up to date. It repeats a publication only if it fires a window before its
deadline that has published already. -/
theorem fire_reports_of (represents : Represents lateness now accounts state) (key : Bytes)
    (window : Window) (chosen : Prop) [Decidable chosen]
    (fires : chosen ↔
      state.IsRefired window ∨ (¬ state.IsFired window ∧ window ∈ state.windows))
    {repeats : Prop}
    (allows : chosen → (accounts key window).published ≠ [] → now < window.deadline lateness →
      repeats) :
    Reports repeats (accounts key window) (accounts key window).publish
      (if chosen then ((state.pane key window).map Pane.result).toList else []) := by
  have kept := represents.kept key window
  have frontier := represents.frontier key window
  by_cases settled : (accounts key window).settled = (accounts key window).accepted
  · have still : (accounts key window).publish = accounts key window :=
      if_pos (kept.upToDate_iff.mpr settled)
    rw [still]
    by_cases reported : chosen ∧ (accounts key window).accepted ≠ [] ∧
        now < window.deadline lateness
    · obtain ⟨fired, nonempty, early⟩ := reported
      rw [if_pos fired, represents.pane, if_pos ⟨nonempty, early⟩]
      refine .again (allows fired ?_ early) rfl settled nonempty
      intro none
      rw [Ledger.settled, none] at settled
      exact nonempty settled.symm
    · have quiet : (if chosen then ((state.pane key window).map Pane.result).toList else []) =
          [] := by
        split
        · next fired =>
          rw [represents.pane, if_neg (fun open_ => reported ⟨fired, open_⟩)]
          rfl
        · rfl
      rw [quiet]
      exact .silent rfl
  · have early : now < window.deadline lateness := frontier ▸ kept.pending settled
    have nonempty : (accounts key window).accepted ≠ [] := by
      intro empty
      have covered := kept.settled_prefix
      rw [empty, List.prefix_nil] at covered
      exact settled (covered.trans empty.symm)
    have found : state.pane key window =
        some (Pane.holding (accounts key window).accepted) := by
      rw [represents.pane, if_pos ⟨nonempty, early⟩]
    have fired : chosen := by
      rw [fires]
      by_cases before : state.IsFired window
      · exact Or.inl (represents.refires key window before settled)
      · exact Or.inr ⟨before, KeyedWindowState.mem_of_pane found⟩
    rw [if_pos fired, found]
    refine .fresh ?_
    rw [Ledger.publish, if_neg (fun same => settled (kept.upToDate_iff.mp same))]

/-- Without lateness, no window has published before its deadline. -/
theorem late_of_published (represents : Represents lateness now accounts state) {key : Bytes}
    {window : Window} (published : (accounts key window).published ≠ [])
    (early : now < window.deadline lateness) : 0 < lateness := by
  have closed := (represents.kept key window).closed published
  rw [represents.frontier] at closed
  by_contra strict
  obtain rfl : lateness = 0 := by omega
  rw [Window.deadline_zero] at early
  exact absurd early (not_lt.mpr closed)

/-- Time moves forward on every account. -/
def advanced (accounts : Accounts) (time : Timestamp) : Accounts := fun key window =>
  (accounts key window).advance window.close time

section Advance

variable {time : Timestamp}

theorem advanced_frontier (represents : Represents lateness now accounts state)
    (forward : now < time) (key : Bytes) (window : Window) :
    (advanced accounts time key window).frontier = time := by
  have before := represents.frontier key window
  unfold advanced Ledger.advance
  rw [before, if_pos forward]
  split <;> simp

theorem advanced_accepted (accounts : Accounts) (time : Timestamp) (key : Bytes)
    (window : Window) :
    (advanced accounts time key window).accepted = (accounts key window).accepted := by
  unfold advanced Ledger.advance
  split
  · split <;> simp
  · rfl

section

variable (represents : Represents lateness now accounts state)

include represents

/-- An account that closes later publishes nothing yet. -/
theorem advanced_published_early (forward : now < time) (key : Bytes) {window : Window}
    (early : time < window.close) :
    (advanced accounts time key window).published = (accounts key window).published := by
  unfold advanced Ledger.advance
  rw [represents.frontier, if_pos forward, if_neg (not_le.mpr early)]

/-- An account that has closed publishes as it would without moving time. -/
theorem advanced_published (forward : now < time) (key : Bytes) {window : Window}
    (closed : window.close ≤ time) :
    (advanced accounts time key window).published = (accounts key window).publish.published := by
  unfold advanced Ledger.advance
  rw [represents.frontier, if_pos forward, if_pos closed]
  unfold Ledger.publish Ledger.settled
  simp only
  split <;> rfl

/-- Firing reads and changes no mark but `fired`, so windows that wait for a re-fire
and expired ones are told apart by the mark they had before. -/
theorem expired_or_refired (forward : now < time) (window : Window) :
    (window ∈ state.expiredWindows time ↔
      window.close ≤ time ∧ ¬ state.IsFired window ∧ window ∈ state.windows) ∧
    (state.IsRefired window → window.close ≤ time ∧ state.IsFired window) := by
  constructor
  · rw [KeyedWindowState.mem_expiredWindows]
    tauto
  · intro again
    have fired := represents.refiredFired window again
    exact ⟨((represents.firedClosed window fired).1.trans forward.le), fired⟩

end

end Advance

end Represents

theorem Reports.congr {repeats : Prop} {before after other : Ledger Timestamp Int}
    {reported : List AggregateResult} (reports : Reports repeats before after reported)
    (same : other.published = after.published) : Reports repeats before other reported := by
  cases reports with
  | silent kept => exact .silent (same.trans kept)
  | fresh grown => exact .fresh (same.trans grown)
  | again allowed kept settled nonempty => exact .again allowed (same.trans kept) settled nonempty

namespace KeyedProcessor

open Represents KeyedWindowState

variable {processor : KeyedProcessor} {lateness : Nat} {now time : Timestamp}
  {accounts : Accounts}

/-- The two firing rounds of an advance with lateness. -/
structure Rounds (processor : KeyedProcessor) (time : Timestamp)
    (first again : KeyedWindowState) (results : List WindowResult) : Prop where
  expired : Firing (processor.state.expiredWindows time) processor.state first
  refired : Firing processor.state.refiredWindows.toList first again
  reported : ∀ key window, resultsFor key window results =
    (if window ∈ processor.state.expiredWindows time then
      ((processor.state.pane key window).map Pane.result).toList else []) ++
    (if processor.state.IsRefired window then
      ((first.pane key window).map Pane.result).toList else [])

/-- With lateness, an advance fires, fires again, clears the marks and collects. -/
theorem advanceTo_late (time : Timestamp) (late : 0 < processor.allowedLateness) :
    ∃ first again, Rounds processor time first again (processor.advanceTo time).1 ∧
      (processor.advanceTo time).2.state = again.clearRefired.garbageCollect
        (again.clearRefired.garbageCollectableWindows time) := by
  obtain ⟨expired, results⟩ := fireAll_spec (processor.state.expiredWindows time) processor.state
    (processor.state.expiredWindows_nodup time)
  have marks := expired.refired
  obtain ⟨refired, more⟩ := fireAll_spec
    (fireAll (processor.state.expiredWindows time) processor.state).2.refiredWindows.toList
    (fireAll (processor.state.expiredWindows time) processor.state).2
    (refiredWindows_nodup _)
  refine ⟨_, _, ⟨expired, marks ▸ refired, ?_⟩, ?_⟩
  · intro key window
    rw [advanceTo, if_pos late, resultsFor_append, results, more, marks]
    simp only [mem_refiredWindows]
  · simp only [advanceTo, if_pos late, marks]

/-- Moving every account past a firing of its window re-establishes the marks: all
accounts of fired windows are settled. -/
theorem represents_advanced {state after : KeyedWindowState}
    (represents : Represents lateness now accounts state) (forward : now < time)
    (allowed : after.allowedLateness = lateness)
    (panes : ∀ key window, after.pane key window =
      if time < window.deadline lateness then state.pane key window else none)
    (fired : ∀ window, after.IsFired window → window.close ≤ time ∧ 0 < lateness)
    (cleared : ∀ window, ¬ after.IsRefired window) :
    Represents lateness time (advanced accounts time) after := by
  have kept (key : Bytes) (window : Window) :
      Ledger.Kept window.close (window.deadline lateness) (advanced accounts time key window) :=
    (represents.kept key window).advance (window.close_le_deadline lateness) time
  refine ⟨allowed, represents.advanced_frontier forward, kept, ?_, ?_, ?_, fired⟩
  · intro key window
    rw [panes, represents.pane, advanced_accepted]
    by_cases open_ : time < window.deadline lateness
    · simp [open_, forward.trans open_]
    · simp [open_]
  · intro key window marked stale
    have before : (accounts key window).frontier < time := by
      rw [represents.frontier]
      exact forward
    have settled := (represents.kept key window).advance_settled before (fired window marked).1
    rw [advanced_accepted] at stale
    exact absurd settled stale
  · intro window again
    exact absurd again (cleared window)

/-- A fired window of the second round was fired before or by one of the rounds. -/
theorem Rounds.fired_closed {first again : KeyedWindowState} {results : List WindowResult}
    (represents : Represents lateness now accounts processor.state)
    (rounds : Rounds processor time first again results) (late : 0 < lateness)
    (forward : now < time) {window : Window} (fired : again.IsFired window) :
    window.close ≤ time ∧ 0 < lateness := by
  obtain ⟨expires, refires⟩ := represents.expired_or_refired forward window
  refine ⟨?_, late⟩
  rcases (rounds.refired.fired window).mp fired with before | ⟨_, member, _⟩
  · rcases (rounds.expired.fired window).mp before with earlier | ⟨_, expired, _⟩
    · exact (represents.firedClosed window earlier).1.trans forward.le
    · exact (expires.mp expired).1
  · rw [mem_refiredWindows] at member
    exact (refires member).1

section

variable (represents : Represents lateness now accounts processor.state)
  (allowed : processor.allowedLateness = lateness)

include represents allowed

/-- With lateness, an advance keeps exactly the panes before their deadline. -/
theorem advanceTo_represents_late (late : 0 < lateness) (forward : now < time) :
    Represents lateness time (advanced accounts time) (processor.advanceTo time).2.state := by
  obtain ⟨first, again, rounds, after⟩ := advanceTo_late time (allowed.symm ▸ late)
  have grace : processor.state.allowedLateness ≠ 0 := by
    rw [represents.allowed]
    omega
  have graceFirst : first.allowedLateness = lateness :=
    rounds.expired.lateness.trans represents.allowed
  have graceAgain : again.clearRefired.allowedLateness = lateness :=
    rounds.refired.lateness.trans graceFirst
  have collected := garbageCollect_spec (again.clearRefired.garbageCollectableWindows time)
    again.clearRefired
  have panes (key : Bytes) (window : Window) :
      again.clearRefired.pane key window = processor.state.pane key window := by
    change again.pane key window = _
    rw [rounds.refired.pane, rounds.expired.pane, rounds.expired.lateness]
    simp [grace]
  rw [after]
  refine represents_advanced represents forward (collected.lateness.trans graceAgain) ?_ ?_ ?_
  · intro key window
    have member := mem_garbageCollectableWindows again.clearRefired time window
    rw [graceAgain] at member
    rw [collected.pane, panes]
    by_cases open_ : time < window.deadline lateness
    · rw [if_neg (fun gone => absurd open_ (not_lt.mpr (member.mp gone).2)), if_pos open_]
    · rw [if_neg open_]
      cases found : processor.state.pane key window with
      | none => simp
      | some pane =>
        have stored := mem_of_pane found
        have passed : window.deadline lateness ≤ time := not_lt.mp open_
        have closed := (window.close_le_deadline lateness).trans passed
        have fired : again.IsFired window := by
          rw [rounds.refired.fired, rounds.expired.fired, mem_expiredWindows]
          by_cases before : processor.state.IsFired window
          · exact Or.inl (Or.inl before)
          · exact Or.inl (Or.inr ⟨grace, ⟨stored, closed, before⟩, stored⟩)
        rw [if_pos (member.mpr ⟨fired, passed⟩)]
  · intro window fired
    exact rounds.fired_closed represents late forward ((collected.fired window).mp fired).1
  · intro window refired
    have kept := ((collected.refired window).mp refired).1
    simp [IsRefired, clearRefired] at kept

/-- Without lateness, an advance erases the windows it fires. -/
theorem advanceTo_represents_strict (strict : lateness = 0) (forward : now < time) :
    Represents lateness time (advanced accounts time) (processor.advanceTo time).2.state := by
  obtain ⟨expired, _⟩ := fireAll_spec (processor.state.expiredWindows time) processor.state
    (processor.state.expiredWindows_nodup time)
  have after : (processor.advanceTo time).2.state =
      (fireAll (processor.state.expiredWindows time) processor.state).2 := by
    rw [advanceTo, if_neg (by omega)]
  have unfired (window : Window) : ¬ processor.state.IsFired window := by
    intro fired
    have late := (represents.firedClosed window fired).2
    omega
  rw [after]
  refine represents_advanced represents forward (expired.lateness.trans represents.allowed)
    ?_ ?_ ?_
  · intro key window
    have member := mem_expiredWindows processor.state time window
    rw [expired.pane, represents.allowed, strict, Window.deadline_zero]
    by_cases open_ : time < window.close
    · rw [if_neg (fun fired => absurd open_ (not_lt.mpr (member.mp fired.2).2.1)), if_pos open_]
    · rw [if_neg open_]
      cases found : processor.state.pane key window with
      | none => simp
      | some pane =>
        have chosen := member.mpr ⟨mem_of_pane found, not_lt.mp open_, unfired window⟩
        rw [if_pos ⟨rfl, chosen⟩]
  · intro window fired
    rcases (expired.fired window).mp fired with before | ⟨grace, _⟩
    · exact absurd before (unfired window)
    · rw [represents.allowed] at grace
      omega
  · intro window refired
    rw [IsRefired, expired.refired] at refired
    exact unfired window (represents.refiredFired window refired)

/-- After an advance the state represents the accounts moved forward. -/
theorem advanceTo_represents (forward : now < time) :
    Represents lateness time (advanced accounts time) (processor.advanceTo time).2.state := by
  rcases Nat.eq_zero_or_pos lateness with strict | late
  · exact advanceTo_represents_strict represents allowed strict forward
  · exact advanceTo_represents_late represents allowed late forward

/-- What an advance reports of one key and window: its pane, when the window has
closed and either waits for a re-fire or has not fired. -/
theorem advanceTo_results (forward : now < time) (key : Bytes) (window : Window) :
    resultsFor key window (processor.advanceTo time).1 =
      if window.close ≤ time ∧ (processor.state.IsRefired window ∨
          (¬ processor.state.IsFired window ∧ window ∈ processor.state.windows)) then
        ((processor.state.pane key window).map Pane.result).toList
      else [] := by
  obtain ⟨expires, refires⟩ := represents.expired_or_refired forward window
  rcases Nat.eq_zero_or_pos lateness with strict | late
  · have unfired : ¬ processor.state.IsFired window := by
      intro fired
      have positive := (represents.firedClosed window fired).2
      omega
    have unmarked : ¬ processor.state.IsRefired window := fun again => unfired (refires again).2
    obtain ⟨_, results⟩ := fireAll_spec (processor.state.expiredWindows time) processor.state
      (processor.state.expiredWindows_nodup time)
    rw [advanceTo, if_neg (by omega)]
    simp only [results, expires, unfired, unmarked, false_or]
  · obtain ⟨first, again, rounds, _⟩ := advanceTo_late time (allowed.symm ▸ late)
    have grace : processor.state.allowedLateness ≠ 0 := by
      rw [represents.allowed]
      omega
    have panes : first.pane key window = processor.state.pane key window := by
      rw [rounds.expired.pane]
      simp [grace]
    rw [rounds.reported, panes]
    simp only [expires]
    -- The two rounds are exclusive: a window that waits for a re-fire has fired.
    by_cases marked : processor.state.IsRefired window
    · obtain ⟨closed, fired⟩ := refires marked
      simp [marked, closed, fired]
    · simp [marked]

/-- An advance brings the closed accounts up to date. -/
theorem advanceTo_reports_of (forward : now < time) (key : Bytes) (window : Window) {repeats : Prop}
    (allows : processor.state.IsRefired window ∨
        (¬ processor.state.IsFired window ∧ window ∈ processor.state.windows) →
      (accounts key window).published ≠ [] → now < window.deadline lateness → repeats) :
    Reports repeats (accounts key window) (advanced accounts time key window)
      (resultsFor key window (processor.advanceTo time).1) := by
  rw [advanceTo_results represents allowed forward]
  by_cases closed : window.close ≤ time
  · simp only [closed, true_and]
    refine (represents.fire_reports_of key window _ Iff.rfl allows).congr ?_
    exact represents.advanced_published forward key closed
  · rw [if_neg (fun both => closed both.1)]
    exact .silent (represents.advanced_published_early forward key (not_le.mp closed))

/-- An advance repeats no publication without lateness. -/
theorem advanceTo_reports (forward : now < time) (key : Bytes) (window : Window) :
    Reports (0 < lateness) (accounts key window) (advanced accounts time key window)
      (resultsFor key window (processor.advanceTo time).1) :=
  advanceTo_reports_of represents allowed forward key window
    fun _ published early => represents.late_of_published published early

/-- What the final flush reports of one key and window. -/
theorem finalFlush_results (key : Bytes) (window : Window) :
    resultsFor key window (emissions processor.finalFlush.1) =
      if processor.state.IsRefired window ∨
          (¬ processor.state.IsFired window ∧ window ∈ processor.state.windows) then
        ((processor.state.pane key window).map Pane.result).toList
      else [] := by
  rcases Nat.eq_zero_or_pos lateness with strict | late
  · have unfired : ¬ processor.state.IsFired window := by
      intro fired
      have positive := (represents.firedClosed window fired).2
      omega
    have unmarked : ¬ processor.state.IsRefired window :=
      fun again => unfired (represents.refiredFired window again)
    obtain ⟨_, results⟩ := fireAll_spec processor.state.allWindows processor.state
      processor.state.allWindows_nodup
    rw [finalFlush, if_neg (by omega)]
    simp only [emissions_emit_flush, results, mem_allWindows, unfired, unmarked, false_or,
      not_false_eq_true, true_and]
  · have grace : processor.state.allowedLateness ≠ 0 := by
      rw [represents.allowed]
      omega
    obtain ⟨firing, results⟩ := fireAll_spec processor.state.refiredWindows.toList
      processor.state processor.state.refiredWindows_nodup
    generalize fired : fireAll processor.state.refiredWindows.toList processor.state = again
      at firing results
    have panes : again.2.clearRefired.pane key window = processor.state.pane key window := by
      change again.2.pane key window = _
      rw [firing.pane]
      simp [grace]
    have stored : window ∈ again.2.clearRefired.windows ↔ window ∈ processor.state.windows := by
      change window ∈ again.2.windows ↔ _
      rw [firing.stored]
      simp [grace]
    have marks : again.2.clearRefired.IsFired window ↔ processor.state.IsFired window := by
      change again.2.IsFired window ↔ _
      rw [firing.fired, mem_refiredWindows]
      constructor
      · rintro (before | ⟨_, marked, _⟩)
        · exact before
        · exact represents.refiredFired window marked
      · exact Or.inl
    have distinct := again.2.clearRefired.allWindows_nodup
    obtain ⟨_, unfired⟩ := fireAll_spec
      (again.2.clearRefired.allWindows.filter
        (fun window => ¬ again.2.clearRefired.IsFired window))
      again.2.clearRefired (distinct.filter _)
    rw [finalFlush, if_pos (by omega)]
    simp only [fired, fireUnfired_eq _ _ distinct, emissions_emit_flush, resultsFor_append,
      results, unfired, panes, List.mem_filter, mem_allWindows, stored, marks,
      mem_refiredWindows, decide_eq_true_eq]
    by_cases marked : processor.state.IsRefired window
    · have before := represents.refiredFired window marked
      simp [marked, before]
    · simp [marked, and_comm]

/-- The final flush brings every account up to date. -/
theorem finalFlush_reports_of (key : Bytes) (window : Window) {repeats : Prop}
    (allows : processor.state.IsRefired window ∨
        (¬ processor.state.IsFired window ∧ window ∈ processor.state.windows) →
      (accounts key window).published ≠ [] → now < window.deadline lateness → repeats) :
    Reports repeats (accounts key window) (accounts key window).publish
      (resultsFor key window (emissions processor.finalFlush.1)) := by
  rw [finalFlush_results represents allowed]
  exact represents.fire_reports_of key window _ Iff.rfl allows

/-- The final flush repeats no publication without lateness. -/
theorem finalFlush_reports (key : Bytes) (window : Window) :
    Reports (0 < lateness) (accounts key window) (accounts key window).publish
      (resultsFor key window (emissions processor.finalFlush.1)) :=
  finalFlush_reports_of represents allowed key window
    fun _ published early => represents.late_of_published published early

end

end KeyedProcessor

end Stormglass
