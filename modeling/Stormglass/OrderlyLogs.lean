import Stormglass.ParticipantLog

/-!
# Orderly logs

Every event of a participant fits the events before it: a packet has the next number of its channel,
a capture is the first of its epoch and announces how many packets were sent to every peer, and a
marker closes a channel only after the capture of its epoch. A log whose events all fit is orderly.
-/

namespace Stormglass.Snapshot

variable {σ Λ : Type}

/-- The counter of every peer is the number of its packets. -/
def Counts (peers : List NodeId) (packets : NodeId → List Packet) (counters : Counters) : Prop :=
  ∀ peer, counters[peer]? = if peer ∈ peers then some (packets peer).length else none

namespace Event

theorem closes_iff {peer : NodeId} {epoch : Nat} {event : Event Λ} :
    event.closes peer epoch = true ↔ ∃ sequence, event = .closed peer sequence epoch := by
  cases event with
  | closed sender sequence of =>
    simp only [closes, decide_eq_true_eq, closed.injEq]
    constructor
    · rintro ⟨rfl, rfl⟩
      exact ⟨sequence, rfl, rfl, rfl⟩
    · rintro ⟨_, rfl, _, rfl⟩
      exact ⟨rfl, rfl⟩
  | acted | received | captured => simp [closes]

theorem captures_iff {epoch : Nat} {event : Event Λ} :
    event.captures epoch = true ↔ ∃ sent, event = .captured epoch sent := by
  cases event with
  | captured of sent => simp [captures, eq_comm]
  | acted | received | closed => simp [captures]

/-- The event comes from a peer, if it comes from another node. -/
def FromPeer (peers : List NodeId) : Event Λ → Prop
  | received peer _ => peer ∈ peers
  | closed peer _ _ => peer ∈ peers
  | _ => True

/-- The event can follow the log. -/
def Fits (peers : List NodeId) (log : Log Λ) : Event Λ → Prop
  | acted _ none => True
  | acted _ (some (peer, packet)) => peer ∈ peers ∧
    (Log.sentTo peer log).length ≠ maxSequence ∧
    packet.sequence = (Log.sentTo peer log).length + 1
  | received peer packet => peer ∈ peers ∧ (Log.receivedFrom peer log).length ≠ maxSequence ∧
    packet.sequence = (Log.receivedFrom peer log).length + 1
  | captured epoch sent => 0 < epoch ∧ ¬ log.Captured epoch ∧
    Counts peers (fun peer => Log.sentTo peer log) sent
  | closed peer _ epoch => peer ∈ peers ∧ log.Captured epoch

theorem Fits.fromPeer {peers : List NodeId} {log : Log Λ} {event : Event Λ}
    (fits : event.Fits peers log) : event.FromPeer peers := by
  cases event with
  | received peer packet | closed peer sequence epoch => exact fits.1
  | acted | captured => trivial

end Event

/-- Every event fits the events before it. -/
inductive Orderly (peers : List NodeId) : Log Λ → Prop
  | nil : Orderly peers []
  | snoc {log : Log Λ} {event : Event Λ} : Orderly peers log → event.Fits peers log →
    Orderly peers (log ++ [event])

/-- Packets with the numbers one, two, and so on, as far as a counter goes. -/
def Numbered (packets : List Packet) : Prop :=
  packets.map Packet.sequence = List.range' 1 packets.length ∧ packets.length ≤ maxSequence

theorem Numbered.snoc {packets : List Packet} (numbered : Numbered packets) {packet : Packet}
    (room : packets.length ≠ maxSequence) (next : packet.sequence = packets.length + 1) :
    Numbered (packets ++ [packet]) := by
  constructor
  · rw [List.map_append, List.length_append, numbered.1, List.map_singleton, next,
      List.length_singleton, List.range'_concat]
    simp [Nat.add_comm]
  · rw [List.length_append, List.length_singleton]
    exact Nat.lt_of_le_of_ne numbered.2 room

namespace Orderly

variable {peers : List NodeId} {log : Log Λ} {peer : NodeId} {epoch : Nat}

section

variable (orderly : Orderly peers log)

include orderly

theorem known : ∀ event ∈ log, event.FromPeer peers := by
  induction orderly with
  | nil => simp
  | snoc _ fits inductionHypothesis =>
    intro event member
    rcases List.mem_append.mp member with earlier | last
    · exact inductionHypothesis event earlier
    · rw [List.mem_singleton.mp last]
      exact fits.fromPeer

/-- A capture announces a counter to every peer, and to nobody else. -/
theorem announced {sent : Counters} (member : .captured epoch sent ∈ log) (peer : NodeId) :
    peer ∈ sent ↔ peer ∈ peers := by
  induction orderly with
  | nil => simp at member
  | snoc _ fits inductionHypothesis =>
    rcases List.mem_append.mp member with earlier | last
    · exact inductionHypothesis earlier
    · rw [← List.mem_singleton.mp last] at fits
      rw [Std.ExtTreeMap.mem_iff_isSome_getElem?, fits.2.2]
      split <;> simp [*]

/-- No marker closes a channel before the capture of its epoch. -/
theorem opened (peer : NodeId) (epoch : Nat) :
    ¬ Log.Closed peer epoch (log.before epoch) := by
  induction orderly with
  | nil => simp [Log.before, Log.Closed]
  | @snoc log event _ fits inductionHypothesis =>
    by_cases captured : log.Captured epoch
    · rw [Log.before_append _ captured]
      exact inductionHypothesis
    · -- The log before the capture is the whole log, and the event does not close either.
      rw [Log.before_whole captured] at inductionHypothesis
      intro closed
      rw [Log.before, Log.takeWhile_running _ captured, Log.closed_append] at closed
      rcases closed with earlier | last
      · exact inductionHypothesis earlier
      · obtain ⟨other, member, closes⟩ := last
        obtain rfl := List.mem_singleton.mp ((List.takeWhile_prefix _).subset member)
        obtain ⟨sequence, rfl⟩ := Event.closes_iff.mp closes
        exact captured fits.2

/-- What closes a channel comes after the capture. -/
theorem captured_of_closed (closed : Log.Closed peer epoch log) :
    log.Captured epoch := by
  by_contra uncaptured
  refine orderly.opened peer epoch ?_
  rw [Log.before_whole uncaptured]
  exact closed

theorem numbered (peer : NodeId) :
    Numbered (Log.sentTo peer log) ∧ Numbered (Log.receivedFrom peer log) := by
  induction orderly with
  | nil => simp [Numbered, Log.sentTo, Log.receivedFrom]
  | @snoc log event _ fits inductionHypothesis =>
    obtain ⟨sent, received⟩ := inductionHypothesis
    rw [Log.sentTo_append, Log.receivedFrom_append]
    have quiet (silent : event.packetTo peer = none) : Log.sentTo peer [event] = [] := by
      simp [Log.sentTo, silent]
    have deaf (silent : event.packetFrom peer = none) : Log.receivedFrom peer [event] = [] := by
      simp [Log.receivedFrom, silent]
    cases event with
    | acted label message =>
      rw [deaf rfl, List.append_nil]
      refine ⟨?_, received⟩
      cases message with
      | none =>
        rw [quiet rfl, List.append_nil]
        exact sent
      | some entry =>
        by_cases here : entry.1 = peer
        · subst here
          have own : Log.sentTo entry.1 [(.acted label (some entry) : Event Λ)] = [entry.2] := by
            simp [Log.sentTo, Event.packetTo]
          rw [own]
          exact sent.snoc fits.2.1 fits.2.2
        · rw [quiet (if_neg here), List.append_nil]
          exact sent
    | received sender packet =>
      rw [quiet rfl, List.append_nil]
      refine ⟨sent, ?_⟩
      by_cases here : sender = peer
      · subst here
        have own : Log.receivedFrom sender [(.received sender packet : Event Λ)] = [packet] := by
          simp [Log.receivedFrom, Event.packetFrom]
        rw [own]
        exact received.snoc fits.2.1 fits.2.2
      · rw [deaf (if_neg here), List.append_nil]
        exact received
    | captured | closed =>
      rw [quiet rfl, deaf rfl, List.append_nil, List.append_nil]
      exact ⟨sent, received⟩

end

end Orderly

end Stormglass.Snapshot
