import Mathlib

/-!
# Publishing ledgers

A ledger collects contributions for one account until a deadline passes and
publishes what it holds once its closing time has passed. It publishes again
whenever later contributions were accepted. Time only moves forward.

The ledger is the purpose of a keyed window in its own terms: no containers, no
firing marks, no garbage collection. A publication is the list of the contributions
it covers, so an aggregate of it is a function applied afterwards.

`Echoes` compares an actual output with the publications. An output may repeat the
last publication, but has the same members and the same last element.
-/

/-- The account: how far time has moved, the accepted contributions, and the
publications so far. -/
@[ext]
structure Ledger (τ α : Type) where
  frontier : τ
  accepted : List α
  published : List (List α)

namespace Ledger

variable {τ α β : Type}

/-- The contributions that the last publication covers. -/
def settled (ledger : Ledger τ α) : List α := ledger.published.getLastD []

/-- Publish unless the last publication is up to date. -/
def publish (ledger : Ledger τ α) : Ledger τ α :=
  if ledger.accepted.length = ledger.settled.length then ledger
  else { ledger with published := ledger.published ++ [ledger.accepted] }

section Steps

variable [LinearOrder τ]

/-- Accept contributions while the deadline has not passed. -/
def receive (deadline : τ) (values : List α) (ledger : Ledger τ α) : Ledger τ α :=
  if ledger.frontier < deadline then { ledger with accepted := ledger.accepted ++ values }
  else ledger

/-- Move time forward, and publish when the account is closed by then. -/
def advance (close time : τ) (ledger : Ledger τ α) : Ledger τ α :=
  if ledger.frontier < time then
    if close ≤ time then publish { ledger with frontier := time }
    else { ledger with frontier := time }
  else ledger

/-- What can happen to an account. -/
inductive Event (τ α : Type) where
  | receive (values : List α)
  | advance (time : τ)

def step (close deadline : τ) (ledger : Ledger τ α) : Event τ α → Ledger τ α
  | .receive values => ledger.receive deadline values
  | .advance time => ledger.advance close time

/-- An empty account. -/
def opened (start : τ) : Ledger τ α := { frontier := start, accepted := [], published := [] }

def run (close deadline start : τ) (events : List (Event τ α)) : Ledger τ α :=
  events.foldl (step close deadline) (opened start)

end Steps

@[simp] theorem publish_frontier (ledger : Ledger τ α) :
    ledger.publish.frontier = ledger.frontier := by
  unfold publish
  split <;> rfl

@[simp] theorem publish_accepted (ledger : Ledger τ α) :
    ledger.publish.accepted = ledger.accepted := by
  unfold publish
  split <;> rfl

theorem receive_nil [LinearOrder τ] (deadline : τ) (ledger : Ledger τ α) :
    ledger.receive deadline [] = ledger := by
  unfold receive
  split <;> simp

theorem receive_published [LinearOrder τ] (deadline : τ) (values : List α)
    (ledger : Ledger τ α) : (ledger.receive deadline values).published = ledger.published := by
  unfold receive
  split <;> rfl

theorem receive_append [LinearOrder τ] (deadline : τ) (first second : List α)
    (ledger : Ledger τ α) :
    (ledger.receive deadline first).receive deadline second =
      ledger.receive deadline (first ++ second) := by
  unfold receive
  split <;> simp

/-- Accepted contributions are never withdrawn. -/
theorem step_accepted_prefix [LinearOrder τ] (close deadline : τ) (ledger : Ledger τ α)
    (event : Event τ α) : ledger.accepted <+: (ledger.step close deadline event).accepted := by
  cases event with
  | receive values =>
    change _ <+: (ledger.receive deadline values).accepted
    unfold receive
    split
    · exact List.prefix_append _ _
    · exact List.prefix_rfl
  | advance time =>
    change _ <+: (ledger.advance close time).accepted
    unfold advance
    split
    · split
      · rw [publish_accepted]
      · exact List.prefix_rfl
    · exact List.prefix_rfl

/-- The publications are growing parts of what was accepted. -/
structure Covered (ledger : Ledger τ α) : Prop where
  covered : ∀ publication ∈ ledger.published, publication <+: ledger.accepted
  nonempty : ∀ publication ∈ ledger.published, publication ≠ []
  growing : ledger.published.Pairwise (fun earlier later => earlier.length < later.length)

/-- The last publication is one of them, or there is none. -/
theorem settled_cases (ledger : Ledger τ α) :
    (ledger.published = [] ∧ ledger.settled = []) ∨ ledger.settled ∈ ledger.published := by
  by_cases none : ledger.published = []
  · exact Or.inl ⟨none, by rw [settled, none]; rfl⟩
  · right
    rw [settled, List.getLastD_eq_getLast?, List.getLast?_eq_some_getLast none]
    exact List.getLast_mem none

section Covered

variable {ledger : Ledger τ α}

section

variable (covered : Covered ledger)

include covered

theorem Covered.settled_prefix :
    ledger.settled <+: ledger.accepted := by
  rcases settled_cases ledger with ⟨_, empty⟩ | member
  · rw [empty]
    exact List.nil_prefix
  · exact covered.covered _ member

/-- Equal lengths mean that the last publication covers everything. -/
theorem Covered.upToDate_iff :
    ledger.accepted.length = ledger.settled.length ↔ ledger.settled = ledger.accepted := by
  constructor
  · intro same
    exact covered.settled_prefix.eq_of_length same.symm
  · intro same
    rw [same]

/-- Publishing brings the last publication up to date. -/
theorem Covered.publish_settled :
    ledger.publish.settled = ledger.accepted := by
  unfold publish
  split
  · next same => exact covered.upToDate_iff.mp same
  · simp [settled]

/-- Every publication is at most as long as the last one. -/
theorem Covered.length_le_settled {publication : List α} (member : publication ∈ ledger.published) :
    publication.length ≤ ledger.settled.length := by
  obtain ⟨earlier, last, split⟩ : ∃ earlier last, ledger.published = earlier ++ [last] :=
    ⟨ledger.published.dropLast, ledger.published.getLast (List.ne_nil_of_mem member),
      (List.dropLast_append_getLast _).symm⟩
  have same : ledger.settled = last := by simp [settled, split]
  rw [same]
  rw [split] at member
  rcases List.mem_append.mp member with before | final
  · have growing := covered.growing
    rw [split, List.pairwise_append] at growing
    exact (growing.2.2 publication before last (by simp)).le
  · rw [List.mem_singleton.mp final]

theorem Covered.publish : Covered ledger.publish := by
  by_cases same : ledger.accepted.length = ledger.settled.length
  · rw [Ledger.publish, if_pos same]
    exact covered
  · have shorter : ledger.settled.length < ledger.accepted.length := by
      have bound := covered.settled_prefix.length_le
      omega
    rw [Ledger.publish, if_neg same]
    constructor
    · intro publication member
      rcases List.mem_append.mp member with before | final
      · exact covered.covered publication before
      · rw [List.mem_singleton.mp final]
    · intro publication member
      rcases List.mem_append.mp member with before | final
      · exact covered.nonempty publication before
      · rw [List.mem_singleton.mp final]
        exact List.ne_nil_of_length_pos (by omega)
    · rw [List.pairwise_append]
      refine ⟨covered.growing, List.pairwise_singleton _ _, ?_⟩
      intro earlier before later final
      rw [List.mem_singleton.mp final]
      exact lt_of_le_of_lt (covered.length_le_settled before) shorter

/-- The publications say nothing about time. -/
theorem Covered.at (time : τ) :
    Covered { ledger with frontier := time } :=
  ⟨covered.covered, covered.nonempty, covered.growing⟩

end

end Covered

/-- What holds of every account after any events: moreover it publishes only once
closed, and contributions wait for publication only before the deadline. -/
structure Kept [LinearOrder τ] (close deadline : τ) (ledger : Ledger τ α) : Prop
    extends Covered ledger where
  closed : ledger.published ≠ [] → close ≤ ledger.frontier
  pending : ledger.settled ≠ ledger.accepted → ledger.frontier < deadline

section Kept

variable [LinearOrder τ] {close deadline : τ} {ledger : Ledger τ α}

/-- Accepted contributions only extend what the publications cover. -/
theorem Kept.receive (kept : Kept close deadline ledger) (values : List α) :
    Kept close deadline (ledger.receive deadline values) := by
  unfold Ledger.receive
  split
  · next early =>
    refine ⟨⟨?_, kept.nonempty, kept.growing⟩, kept.closed, fun _ => early⟩
    intro publication member
    exact (kept.covered publication member).trans (List.prefix_append _ _)
  · exact kept

/-- Time passes the deadline only together with a publication. -/
theorem Kept.advance (kept : Kept close deadline ledger) (within : close ≤ deadline) (time : τ) :
    Kept close deadline (ledger.advance close time) := by
  have covered := kept.toCovered.at time
  unfold Ledger.advance
  split
  · next forward =>
    split
    · next passed =>
      refine ⟨covered.publish, ?_, ?_⟩
      · intro _
        rw [publish_frontier]
        exact passed
      · intro stale
        rw [covered.publish_settled, publish_accepted] at stale
        exact absurd rfl stale
    · next early =>
      refine ⟨covered, ?_, fun _ => (not_le.mp early).trans_le within⟩
      intro published
      exact (kept.closed published).trans forward.le
  · exact kept

theorem step_kept (within : close ≤ deadline) (kept : Kept close deadline ledger)
    (event : Event τ α) : Kept close deadline (ledger.step close deadline event) := by
  cases event with
  | receive values => exact kept.receive values
  | advance time => exact kept.advance within time

theorem opened_kept (start : τ) : Kept close deadline (opened start : Ledger τ α) := by
  refine ⟨⟨?_, ?_, ?_⟩, ?_, ?_⟩ <;> simp [opened, settled]

theorem run_kept (within : close ≤ deadline) (start : τ) (events : List (Event τ α)) :
    Kept close deadline (run close deadline start events) := by
  induction events using List.reverseRecOn with
  | nil => exact opened_kept start
  | append_singleton events event inductionHypothesis =>
    rw [run, List.foldl_append]
    exact step_kept within inductionHypothesis event

/-- When time moves past the closing time, everything accepted is published. -/
theorem Kept.advance_settled (kept : Kept close deadline ledger) {time : τ}
    (forward : ledger.frontier < time) (passed : close ≤ time) :
    (ledger.advance close time).settled = ledger.accepted := by
  rw [Ledger.advance, if_pos forward, if_pos passed]
  exact (kept.toCovered.at time).publish_settled

end Kept

/-- The publications of an account without grace: none, or one that covers
everything. -/
def Single (ledger : Ledger τ α) : Prop :=
  ledger.published = [] ∨ ledger.published = [ledger.accepted]

theorem Single.publish {ledger : Ledger τ α} (single : ledger.Single) : ledger.publish.Single := by
  unfold Ledger.publish
  split
  · exact single
  · next stale =>
    rcases single with none | one
    · right
      simp [none]
    · exact absurd (by simp [settled, one]) stale

/-- Moving time forward publishes at most what is not published yet. -/
theorem Single.advance [LinearOrder τ] {ledger : Ledger τ α} (single : ledger.Single)
    (close time : τ) : (ledger.advance close time).Single := by
  have later : Ledger.Single { ledger with frontier := time } := single
  unfold Ledger.advance
  split
  · split
    · exact later.publish
    · exact later
  · exact single

/-- An account that is still open accepts before its first publication. -/
theorem Single.receive_open [LinearOrder τ] {close deadline : τ} {ledger : Ledger τ α}
    (single : ledger.Single) (kept : Kept close deadline ledger) {values : List α}
    (open_ : values ≠ [] → ledger.frontier < close) :
    (ledger.receive deadline values).Single := by
  by_cases none : values = []
  · rw [none, receive_nil]
    exact single
  · left
    rw [receive_published]
    by_contra published
    exact absurd (kept.closed published) (not_le.mpr (open_ none))

/-- Without grace nothing is accepted after the first publication. -/
theorem Single.step [LinearOrder τ] {close : τ} {ledger : Ledger τ α} (single : ledger.Single)
    (kept : Kept close close ledger) (event : Event τ α) :
    (ledger.step close close event).Single := by
  cases event with
  | receive values =>
    change (ledger.receive close values).Single
    by_cases early : ledger.frontier < close
    · exact single.receive_open kept fun _ => early
    · rw [receive, if_neg early]
      exact single
  | advance time => exact single.advance close time

theorem run_single [LinearOrder τ] (close start : τ) (events : List (Event τ α)) :
    (run close close start events).Single := by
  induction events using List.reverseRecOn with
  | nil => exact Or.inl rfl
  | append_singleton events event inductionHypothesis =>
    have kept : Kept close close (run close close start events) := run_kept le_rfl start events
    rw [run, List.foldl_append]
    exact inductionHypothesis.step kept event

end Ledger

/-- An output that says what a list of publications says: the same values occur, and
the last one is the same. Repetitions are allowed. -/
structure Echoes {β : Type} (output published : List β) : Prop where
  members : ∀ value, value ∈ output ↔ value ∈ published
  last : output.getLast? = published.getLast?

namespace Echoes

variable {β : Type} {output published : List β}

theorem nil : Echoes ([] : List β) [] := ⟨fun _ => Iff.rfl, rfl⟩

/-- Output and publications grow together. -/
theorem append (echoes : Echoes output published) (value : β) :
    Echoes (output ++ [value]) (published ++ [value]) := by
  constructor
  · intro other
    simp only [List.mem_append, echoes.members]
  · simp

/-- The output repeats the last publication. -/
theorem again (echoes : Echoes output published) {value : β}
    (last : published.getLast? = some value) : Echoes (output ++ [value]) published := by
  constructor
  · intro other
    rw [List.mem_append, echoes.members, List.mem_singleton]
    constructor
    · rintro (member | rfl)
      · exact member
      · exact List.mem_of_getLast? last
    · exact Or.inl
  · simp [last]

end Echoes
