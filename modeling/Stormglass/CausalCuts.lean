import Mathlib

/-!
# Cuts of an asynchronous run

A run is a list of events, each at a node. An event may send messages to other nodes and take
messages from them. Channels are FIFO: at every moment a receiver has taken the first of the
messages that the sender has sent to it.

A cut takes the first events of every node. When the receivers of a consistent cut have taken
nothing that its senders have not sent, the run can be reordered so that the events of the cut
come first: every node keeps the order of its events, and the channels stay FIFO.

A machine gives the events a meaning. A run executes it exactly when its channels are FIFO and every
node can make its own events in their order, so a reordered run executes it as well, from the same
start to the same end, and passes through the global state of the cut.
-/

namespace CausalCuts

variable {ν ε μ : Type*} [DecidableEq ν]

/-- The messages of an event. -/
structure Exchange (ν ε μ : Type*) where
  sends : ν → ε → List μ
  takes : ν → ε → List μ

/-- The events of one node. -/
def own (node : ν) (run : List (ν × ε)) : List ε :=
  run.filterMap (fun entry => if entry.1 = node then some entry.2 else none)

@[simp] theorem own_nil (node : ν) : own node ([] : List (ν × ε)) = [] := rfl

theorem own_append (node : ν) (first second : List (ν × ε)) :
    own node (first ++ second) = own node first ++ own node second :=
  List.filterMap_append

theorem own_cons_self (node : ν) (event : ε) (rest : List (ν × ε)) :
    own node ((node, event) :: rest) = event :: own node rest := by
  simp [own]

theorem own_cons_other {node other : ν} (different : other ≠ node) (event : ε)
    (rest : List (ν × ε)) : own node ((other, event) :: rest) = own node rest := by
  simp [own, different]

theorem own_begins (node : ν) {part run : List (ν × ε)} (begins : part <+: run) :
    own node part <+: own node run :=
  begins.filterMap _

/-- The events of a node in a run of one event. -/
theorem own_singleton (node : ν) (entry : ν × ε) :
    own node [entry] = if entry.1 = node then [entry.2] else [] := by
  by_cases here : entry.1 = node <;> simp [own, here]

/-- The events of a node in a run of another node's events, or of its own. -/
theorem own_map (node at_ : ν) (events : List ε) :
    own node (events.map fun event => (at_, event)) = if node = at_ then events else [] := by
  induction events with
  | nil => simp
  | cons event rest inductionHypothesis =>
    rw [List.map_cons]
    by_cases here : at_ = node
    · subst here
      rw [own_cons_self, inductionHypothesis, if_pos rfl, if_pos rfl]
    · rw [own_cons_other here, inductionHypothesis, if_neg (Ne.symm here), if_neg (Ne.symm here)]

section Cut

/-- The events of the cut, and the others, both in the order of the run. `count` is the number of
events of the cut at each node. -/
def cut (count : ν → Nat) : List (ν × ε) → List (ν × ε) × List (ν × ε)
  | [] => ([], [])
  | (node, event) :: rest =>
    if count node = 0 then ((cut count rest).1, (node, event) :: (cut count rest).2)
    else
      let later := cut (Function.update count node (count node - 1)) rest
      ((node, event) :: later.1, later.2)

/-- The last event of a run belongs to the cut if its node has not had all its events of it. -/
theorem cut_snoc (count : ν → Nat) (run : List (ν × ε)) (entry : ν × ε) :
    cut count (run ++ [entry]) =
      if (own entry.1 run).length < count entry.1 then
        ((cut count run).1 ++ [entry], (cut count run).2)
      else ((cut count run).1, (cut count run).2 ++ [entry]) := by
  induction run generalizing count with
  | nil =>
    obtain ⟨node, event⟩ := entry
    by_cases none : count node = 0
    · simp [cut, none]
    · simp [cut, none, Nat.pos_of_ne_zero none]
  | cons first rest inductionHypothesis =>
    obtain ⟨node, event⟩ := first
    rw [List.cons_append, cut, cut]
    by_cases none : count node = 0
    · rw [if_pos none, if_pos none, inductionHypothesis]
      by_cases here : node = entry.1
      · subst here
        simp [none]
      · rw [own_cons_other here]
        split <;> rfl
    · rw [if_neg none, if_neg none]
      dsimp only
      rw [inductionHypothesis]
      by_cases here : node = entry.1
      · subst here
        rw [own_cons_self, Function.update_self]
        have moved : (own entry.1 rest).length < count entry.1 - 1 ↔
            (event :: own entry.1 rest).length < count entry.1 := by
          rw [List.length_cons]
          omega
        simp only [moved]
        split <;> rfl
      · rw [own_cons_other here, Function.update_of_ne (fun same => here same.symm)]
        split <;> rfl

/-- Every node has its first events in the cut and the others behind it. -/
theorem own_cut (count : ν → Nat) (node : ν) (run : List (ν × ε)) :
    own node (cut count run).1 = (own node run).take (count node) ∧
      own node (cut count run).2 = (own node run).drop (count node) := by
  induction run generalizing count with
  | nil => simp [cut]
  | cons first rest inductionHypothesis =>
    obtain ⟨at_, event⟩ := first
    rw [cut]
    by_cases none : count at_ = 0
    · rw [if_pos none]
      obtain ⟨before, after⟩ := inductionHypothesis count
      by_cases here : at_ = node
      · subst here
        dsimp only
        rw [own_cons_self, before, own_cons_self, after, none]
        simp
      · rw [own_cons_other here, own_cons_other here]
        exact ⟨before, after⟩
    · rw [if_neg none]
      obtain ⟨before, after⟩ := inductionHypothesis (Function.update count at_ (count at_ - 1))
      dsimp only
      by_cases here : at_ = node
      · subst here
        rw [Function.update_self] at before after
        obtain ⟨less, more⟩ : ∃ less, count at_ = less + 1 := ⟨count at_ - 1, by omega⟩
        rw [own_cons_self, before, after, own_cons_self, more]
        simp
      · rw [Function.update_of_ne (fun same => here same.symm)] at before after
        rw [own_cons_other here, own_cons_other here]
        exact ⟨before, after⟩

/-- What comes first in the cut is the cut of what comes first in the run. -/
theorem cut_first_begins (count : ν → Nat) {run part : List (ν × ε)}
    (begins : part <+: (cut count run).1) :
    ∃ whole, whole <+: run ∧ part = (cut count whole).1 := by
  induction run using List.reverseRecOn with
  | nil => exact ⟨[], List.nil_prefix, by simpa [cut] using begins⟩
  | append_singleton run entry inductionHypothesis =>
    have earlier (shorter : part <+: (cut count run).1) :
        ∃ whole, whole <+: run ++ [entry] ∧ part = (cut count whole).1 := by
      obtain ⟨whole, first, same⟩ := inductionHypothesis shorter
      exact ⟨whole, first.trans (List.prefix_append _ _), same⟩
    rw [cut_snoc] at begins
    split at begins
    · rcases List.prefix_concat_iff.mp begins with all | shorter
      · refine ⟨run ++ [entry], List.prefix_rfl, ?_⟩
        rw [cut_snoc, if_pos ‹_›]
        exact all
      · exact earlier shorter
    · exact earlier begins

theorem cut_second_begins (count : ν → Nat) {run part : List (ν × ε)}
    (begins : part <+: (cut count run).2) :
    ∃ whole, whole <+: run ∧ part = (cut count whole).2 := by
  induction run using List.reverseRecOn with
  | nil => exact ⟨[], List.nil_prefix, by simpa [cut] using begins⟩
  | append_singleton run entry inductionHypothesis =>
    have earlier (shorter : part <+: (cut count run).2) :
        ∃ whole, whole <+: run ++ [entry] ∧ part = (cut count whole).2 := by
      obtain ⟨whole, first, same⟩ := inductionHypothesis shorter
      exact ⟨whole, first.trans (List.prefix_append _ _), same⟩
    rw [cut_snoc] at begins
    split at begins
    · exact earlier begins
    · rcases List.prefix_concat_iff.mp begins with all | shorter
      · refine ⟨run ++ [entry], List.prefix_rfl, ?_⟩
        rw [cut_snoc, if_neg ‹_›]
        exact all
      · exact earlier shorter

/-- Put the events of the cut first. -/
def reorder (count : ν → Nat) (run : List (ν × ε)) : List (ν × ε) :=
  (cut count run).1 ++ (cut count run).2

/-- Reordering keeps the order of the events at every node. -/
theorem own_reorder (count : ν → Nat) (node : ν) (run : List (ν × ε)) :
    own node (reorder count run) = own node run := by
  rw [reorder, own_append, (own_cut count node run).1, (own_cut count node run).2,
    List.take_append_drop]

/-- Nothing is lost or added. -/
theorem reorder_perm (count : ν → Nat) (run : List (ν × ε)) : (reorder count run).Perm run := by
  induction run using List.reverseRecOn with
  | nil => rfl
  | append_singleton run entry inductionHypothesis =>
    have moved : (reorder count (run ++ [entry])).Perm (reorder count run ++ [entry]) := by
      rw [reorder, cut_snoc]
      split
      · dsimp only
        rw [reorder, List.append_assoc, List.append_assoc]
        exact List.Perm.append_left _ List.perm_append_comm
      · rw [reorder, List.append_assoc]
    exact moved.trans (inductionHypothesis.append_right _)

end Cut

section Channels

variable (exchange : Exchange ν ε μ)

/-- What a node has sent to another one. -/
def sent (sender receiver : ν) (run : List (ν × ε)) : List μ :=
  (own sender run).flatMap (exchange.sends receiver)

/-- What a node has taken from another one. -/
def taken (sender receiver : ν) (run : List (ν × ε)) : List μ :=
  (own receiver run).flatMap (exchange.takes sender)

/-- At every moment of the run, what was taken is the first part of what was sent. -/
def Fifo (run : List (ν × ε)) : Prop :=
  ∀ part, part <+: run → ∀ sender receiver,
    taken exchange sender receiver part <+: sent exchange sender receiver part

/-- The receivers of the cut have taken nothing that its senders have not sent. -/
def Consistent (count : ν → Nat) (run : List (ν × ε)) : Prop :=
  ∀ sender receiver,
    ((own receiver run).take (count receiver)).flatMap (exchange.takes sender) <+:
      ((own sender run).take (count sender)).flatMap (exchange.sends receiver)

omit [DecidableEq ν] in
theorem flatMap_begins {α β : Type*} (each : α → List β) {part whole : List α}
    (begins : part <+: whole) : part.flatMap each <+: whole.flatMap each := by
  obtain ⟨rest, rfl⟩ := begins
  rw [List.flatMap_append]
  exact List.prefix_append _ _

/-- A beginning that reaches the cut has the same first events. -/
theorem take_of_begins {α : Type*} {part whole : List α} (begins : part <+: whole) {count : Nat}
    (reaches : count ≤ part.length) : part.take count = whole.take count := by
  obtain ⟨rest, rfl⟩ := begins
  rw [List.take_append_of_le_length reaches]

/-- A beginning that does not reach the cut lies in it. -/
theorem prefix_take {α : Type*} {part whole : List α} (begins : part <+: whole) {count : Nat}
    (short : part.length ≤ count) : part <+: whole.take count := by
  rw [List.prefix_take_iff]
  exact ⟨begins, short⟩

/-- A beginning of two parts ends in the first one or in the second one. -/
theorem prefix_append_cases {α : Type*} {part first second : List α}
    (begins : part <+: first ++ second) :
    part <+: first ∨ ∃ rest, part = first ++ rest ∧ rest <+: second := by
  rcases List.prefix_or_prefix_of_prefix begins (List.prefix_append first second) with
    inside | ⟨rest, rfl⟩
  · exact .inl inside
  · exact .inr ⟨rest, rfl, (List.prefix_append_right_inj first).mp begins⟩

variable {exchange}

/-- A FIFO run with the events of a consistent cut first is a FIFO run. -/
theorem fifo_reorder {count : ν → Nat} {run : List (ν × ε)} (fifo : Fifo exchange run)
    (consistent : Consistent exchange count run) : Fifo exchange (reorder count run) := by
  intro part begins sender receiver
  rcases prefix_append_cases begins with inside | ⟨rest, rfl, inside⟩
  · -- Inside the cut: what the sender has sent is all of its part of the cut, or all it has
    -- sent so far.
    obtain ⟨whole, first, rfl⟩ := cut_first_begins count inside
    rw [taken, sent, (own_cut count receiver whole).1, (own_cut count sender whole).1]
    by_cases reached : count sender ≤ (own sender whole).length
    · rw [take_of_begins (own_begins sender first) reached]
      refine (flatMap_begins _ ?_).trans (consistent sender receiver)
      exact (own_begins receiver first).take _
    · have all : (own sender whole).length ≤ count sender := by omega
      rw [List.take_of_length_le all]
      exact (flatMap_begins _ (List.take_prefix _ _)).trans (fifo whole first sender receiver)
  · obtain ⟨whole, first, rfl⟩ := cut_second_begins count inside
    rw [taken, sent, own_append, own_append, (own_cut count receiver run).1,
      (own_cut count sender run).1, (own_cut count receiver whole).2,
      (own_cut count sender whole).2]
    by_cases reached : count receiver ≤ (own receiver whole).length
    · -- The receiver is past the cut, so it has done exactly what it had done in the run.
      rw [← take_of_begins (own_begins receiver first) reached, List.take_append_drop]
      refine (fifo whole first sender receiver).trans (flatMap_begins _ ?_)
      by_cases passed : count sender ≤ (own sender whole).length
      · rw [← take_of_begins (own_begins sender first) passed, List.take_append_drop]
      · exact (prefix_take (own_begins sender first) (by omega)).trans (List.prefix_append _ _)
    · rw [List.drop_of_length_le (by omega : (own receiver whole).length ≤ count receiver),
        List.append_nil]
      exact (consistent sender receiver).trans (flatMap_begins _ (List.prefix_append _ _))

end Channels

section Machines

variable {σ : Type*}

/-- Nodes with local states that exchange messages. -/
structure Machine (ν ε μ σ : Type*) extends Exchange ν ε μ where
  next : ν → σ → ε → Option σ

/-- The states of all nodes and the messages on all channels. -/
structure Global (ν μ σ : Type*) where
  states : ν → σ
  flight : ν → ν → List μ

namespace Machine

variable (machine : Machine ν ε μ σ)

/-- What a node makes of its own events. -/
def locally (node : ν) (state : σ) (events : List ε) : Option σ :=
  events.foldlM (machine.next node) state

omit [DecidableEq ν] in
theorem locally_snoc (node : ν) (state : σ) (events : List ε) (event : ε) :
    machine.locally node state (events ++ [event]) =
      (machine.locally node state events).bind fun state => machine.next node state event := by
  simp [locally, List.foldlM_append]

/-- One event of the machine: the node moves, its messages join the ends of their channels, and
what it takes leaves the fronts of theirs. -/
structure Step (before : Global ν μ σ) (entry : ν × ε) (after : Global ν μ σ) : Prop where
  moves : machine.next entry.1 (before.states entry.1) entry.2 = some (after.states entry.1)
  stays : ∀ node, node ≠ entry.1 → after.states node = before.states node
  flows : ∀ sender receiver,
    taken machine.toExchange sender receiver [entry] ++ after.flight sender receiver =
      before.flight sender receiver ++ sent machine.toExchange sender receiver [entry]

/-- A run of the machine. -/
inductive Executes (start : Global ν μ σ) : List (ν × ε) → Global ν μ σ → Prop
  | nil : Executes start [] start
  | snoc {run : List (ν × ε)} {middle final : Global ν μ σ} {entry : ν × ε} :
    Executes start run middle → machine.Step middle entry final →
      Executes start (run ++ [entry]) final

variable {machine} {start final : Global ν μ σ} {run : List (ν × ε)}

theorem sent_append (sender receiver : ν) (first second : List (ν × ε)) :
    sent machine.toExchange sender receiver (first ++ second) =
      sent machine.toExchange sender receiver first ++
        sent machine.toExchange sender receiver second := by
  rw [sent, sent, sent, own_append, List.flatMap_append]

theorem taken_append (sender receiver : ν) (first second : List (ν × ε)) :
    taken machine.toExchange sender receiver (first ++ second) =
      taken machine.toExchange sender receiver first ++
        taken machine.toExchange sender receiver second := by
  rw [taken, taken, taken, own_append, List.flatMap_append]

/-- A run executes the machine exactly when its channels are FIFO and every node can make its own
events. The end is then known: every node has made its events, and what was sent and not taken is
in flight. -/
theorem executes_iff : machine.Executes start run final ↔
    (∀ part, part <+: run → ∀ sender receiver,
      taken machine.toExchange sender receiver part <+:
        start.flight sender receiver ++ sent machine.toExchange sender receiver part) ∧
    (∀ node, machine.locally node (start.states node) (own node run) = some (final.states node)) ∧
    ∀ sender receiver,
      taken machine.toExchange sender receiver run ++ final.flight sender receiver =
        start.flight sender receiver ++ sent machine.toExchange sender receiver run := by
  constructor
  · intro executes
    induction executes with
    | nil =>
      refine ⟨?_, fun node => rfl, fun sender receiver => by simp [taken, sent]⟩
      intro part begins sender receiver
      obtain rfl := List.prefix_nil.mp begins
      exact List.nil_prefix
    | @snoc run middle final entry earlier last inductionHypothesis =>
      obtain ⟨fifo, local_, flight⟩ := inductionHypothesis
      have flows (sender receiver : ν) :
          taken machine.toExchange sender receiver (run ++ [entry]) ++
              final.flight sender receiver =
            start.flight sender receiver ++
              sent machine.toExchange sender receiver (run ++ [entry]) := by
        rw [taken_append, sent_append, List.append_assoc, last.flows, ← List.append_assoc, flight,
          List.append_assoc]
      refine ⟨?_, ?_, flows⟩
      · intro part begins sender receiver
        rcases List.prefix_concat_iff.mp begins with rfl | shorter
        · rw [← flows]
          exact List.prefix_append _ _
        · exact fifo part shorter sender receiver
      · intro node
        rw [own_append, own_singleton]
        by_cases here : entry.1 = node
        · subst here
          rw [if_pos rfl, locally_snoc, local_]
          exact last.moves
        · rw [if_neg here, List.append_nil, local_, last.stays node (Ne.symm here)]
  · induction run using List.reverseRecOn generalizing final with
    | nil =>
      rintro ⟨_, local_, flight⟩
      have same : final = start := by
        obtain ⟨states, channels⟩ := final
        congr
        · funext node
          exact (Option.some.inj (local_ node)).symm
        · funext sender receiver
          simpa [taken, sent] using flight sender receiver
      rw [same]
      exact .nil
    | append_singleton run entry inductionHypothesis =>
      rintro ⟨fifo, local_, flight⟩
      -- The last event starts where the node's other events end.
      have last := local_ entry.1
      rw [own_append, own_singleton, if_pos rfl, locally_snoc] at last
      obtain ⟨state, reached, moves⟩ := Option.bind_eq_some_iff.mp last
      choose rest split using fun sender receiver =>
        fifo run (List.prefix_append _ _) sender receiver
      have earlier : machine.Executes start run
          ⟨Function.update final.states entry.1 state, rest⟩ := by
        refine inductionHypothesis ⟨?_, ?_, split⟩
        · exact fun part begins => fifo part (begins.trans (List.prefix_append _ _))
        · intro node
          by_cases here : node = entry.1
          · subst here
            dsimp only
            rw [Function.update_self]
            exact reached
          · have unmoved := local_ node
            rw [own_append, own_singleton, if_neg (Ne.symm here), List.append_nil] at unmoved
            dsimp only
            rw [Function.update_of_ne here]
            exact unmoved
      refine .snoc earlier ⟨?_, ?_, ?_⟩
      · dsimp only
        rw [Function.update_self]
        exact moves
      · intro node different
        exact (Function.update_of_ne different _ _).symm
      · intro sender receiver
        have whole := flight sender receiver
        rw [taken_append, sent_append, List.append_assoc, ← List.append_assoc (start.flight _ _),
          ← split, List.append_assoc] at whole
        exact List.append_cancel_left whole

/-- A node makes some events in a row. -/
theorem Executes.extend {middle : Global ν μ σ} (executes : machine.Executes start run middle)
    {node : ν} {events : List ε} (apart : ∀ event ∈ events, machine.takes node event = [])
    (moves : machine.locally node (middle.states node) events = some (final.states node))
    (stays : ∀ other, other ≠ node → final.states other = middle.states other)
    (flows : ∀ sender receiver,
      taken machine.toExchange sender receiver (events.map fun event => (node, event)) ++
          final.flight sender receiver =
        middle.flight sender receiver ++
          sent machine.toExchange sender receiver (events.map fun event => (node, event))) :
    machine.Executes start (run ++ events.map fun event => (node, event)) final := by
  obtain ⟨fifo, local_, flight⟩ := executes_iff.mp executes
  have total (sender receiver : ν) :
      taken machine.toExchange sender receiver (run ++ events.map fun event => (node, event)) ++
          final.flight sender receiver =
        start.flight sender receiver ++ sent machine.toExchange sender receiver
          (run ++ events.map fun event => (node, event)) := by
    rw [taken_append, sent_append, List.append_assoc, flows, ← List.append_assoc, flight,
      List.append_assoc]
  refine executes_iff.mpr ⟨?_, ?_, total⟩
  · intro part begins sender receiver
    rcases prefix_append_cases begins with inside | ⟨some_, rfl, first⟩
    · exact fifo part inside sender receiver
    · obtain ⟨few, others, rfl, rfl, _⟩ : ∃ few others, events = few ++ others ∧
          some_ = (few.map fun event => (node, event)) ∧ True := by
        obtain ⟨rest, whole⟩ := first
        obtain ⟨few, others, split, same, _⟩ := List.map_eq_append_iff.mp whole.symm
        exact ⟨few, others, split, same.symm, trivial⟩
      by_cases sends : sender = node
      · -- The sender moves, and takes nothing from itself.
        have nothing : taken machine.toExchange sender receiver
            (few.map fun event => (node, event)) = [] := by
          rw [taken, own_map, sends]
          split
          · exact List.flatMap_eq_nil_iff.mpr fun event member =>
              apart event (List.mem_append_left _ member)
          · rfl
        rw [taken_append, nothing, List.append_nil, sent_append, ← List.append_assoc]
        exact (fifo run List.prefix_rfl sender receiver).trans (List.prefix_append _ _)
      · -- The sender stays, so it had sent everything before.
        have nothing (made : List ε) : sent machine.toExchange sender receiver
            (made.map fun event => (node, event)) = [] := by
          rw [sent, own_map, if_neg sends]
          rfl
        have all := total sender receiver
        rw [sent_append, nothing, List.append_nil] at all
        rw [sent_append, nothing, List.append_nil, ← all]
        exact (flatMap_begins _ (own_begins receiver begins)).trans (List.prefix_append _ _)
  · intro other
    rw [own_append, own_map]
    by_cases here : other = node
    · subst here
      rw [if_pos rfl, locally, List.foldlM_append, ← locally, local_]
      exact moves
    · rw [if_neg here, List.append_nil, local_, stays other here]

/-- A consistent cut of a run: the run can be made so that it passes through the global state of
the cut. Every node has made its events of the cut there, and what was sent in the cut and not
taken is in flight. -/
theorem Executes.reorder {count : ν → Nat} (executes : machine.Executes start run final)
    (empty : ∀ sender receiver, start.flight sender receiver = [])
    (consistent : Consistent machine.toExchange count run) :
    ∃ middle, machine.Executes start (cut count run).1 middle ∧
      machine.Executes middle (cut count run).2 final := by
  obtain ⟨fifo, local_, flight⟩ := executes_iff.mp executes
  simp only [empty, List.nil_append] at fifo flight
  have reordered : Fifo machine.toExchange (CausalCuts.reorder count run) :=
    fifo_reorder fifo consistent
  have first := reordered _ (List.prefix_append (cut count run).1 (cut count run).2)
  choose rest split using first
  have halves (node : ν) : ((machine.locally node (start.states node)
      (own node (cut count run).1)).bind fun state =>
        machine.locally node state (own node (cut count run).2)) = some (final.states node) := by
    rw [← local_ node, ← own_reorder count node run, CausalCuts.reorder, own_append]
    simp [locally, List.foldlM_append]
  choose state reached made using fun node => Option.bind_eq_some_iff.mp (halves node)
  refine ⟨⟨state, rest⟩, executes_iff.mpr ⟨?_, reached, ?_⟩, executes_iff.mpr ⟨?_, made, ?_⟩⟩
  · intro part begins sender receiver
    rw [empty, List.nil_append]
    exact reordered part (begins.trans (List.prefix_append _ _)) sender receiver
  · intro sender receiver
    rw [empty, List.nil_append]
    exact split sender receiver
  · intro part begins sender receiver
    have whole := reordered _ ((List.prefix_append_right_inj (cut count run).1).mpr begins) sender
      receiver
    rw [taken_append, sent_append, ← split, List.append_assoc] at whole
    exact (List.prefix_append_right_inj _).mp whole
  · intro sender receiver
    have whole := flight sender receiver
    have ordered (node : ν) : own node run = own node ((cut count run).1 ++ (cut count run).2) :=
      (own_reorder count node run).symm
    rw [taken, sent, ordered, ordered, ← taken, ← sent, taken_append, sent_append, ← split,
      List.append_assoc, List.append_assoc] at whole
    exact List.append_cancel_left whole

end Machine

end Machines

end CausalCuts
