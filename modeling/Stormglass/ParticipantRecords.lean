import Stormglass.ParticipantSteps
import Stormglass.OrderlyLogs

/-!
# A participant remembers its log

`Recording` says what a local snapshot holds: the counters and the application at the capture, and
for every channel what arrived on it between the capture and its marker. `Faithful` says that a
healthy participant holds exactly what its log tells. Every call that returns keeps the relation,
and a completed snapshot stays true of the log however the log grows.
-/

namespace Stormglass.Snapshot

variable {σ Λ : Type}

/-- What the snapshot of an epoch holds while the channels in `marked` are closed. -/
structure Recording (application : Application σ Λ) (initial : σ) (node : NodeId)
    (peers : List NodeId) (log : Log Λ) (marked : Std.ExtTreeSet NodeId)
    (snapshot : LocalSnapshot) : Prop where
  node : snapshot.node = node
  positive : 0 < snapshot.epoch
  captured : log.Captured snapshot.epoch
  state : snapshot.state =
    application.capture (Log.state application initial (log.before snapshot.epoch))
  sent : Counts peers (fun peer => Log.sentTo peer (log.before snapshot.epoch)) snapshot.sent
  received : Counts peers (fun peer => Log.receivedFrom peer (log.before snapshot.epoch))
    snapshot.received
  closed : ∀ peer, peer ∈ marked ↔ Log.Closed peer snapshot.epoch (log.after snapshot.epoch)
  known : ∀ peer ∈ marked, peer ∈ peers
  markers : ∀ peer, snapshot.markerSequences[peer]? =
    if peer ∈ marked then some (Log.receivedFrom peer (log.before snapshot.epoch ++
      Log.untilClosed peer snapshot.epoch (log.after snapshot.epoch))).length else none
  channels : snapshot.channels =
    Log.recordedFrom snapshot.epoch [] (log.after snapshot.epoch)

namespace Recording

variable {application : Application σ Λ} {initial : σ} {node : NodeId} {peers : List NodeId}
  {log : Log Λ} {marked : Std.ExtTreeSet NodeId} {snapshot : LocalSnapshot}

section

variable (recording : Recording application initial node peers log marked snapshot)

include recording

/-- An event that closes no open channel may add to the records and changes nothing else. -/
theorem grow (event : Event Λ)
    (closes : ∀ peer sequence, event = .closed peer sequence snapshot.epoch → peer ∈ marked) :
    Recording application initial node peers (log ++ [event]) marked
      { snapshot with
        channels := snapshot.channels ++
          Log.recordedBy snapshot.epoch [] (log.after snapshot.epoch) event } := by
  have before := Log.before_append [event] recording.captured
  have after := Log.after_append [event] recording.captured
  constructor
  · exact recording.node
  · exact recording.positive
  · exact Log.captured_append.mpr (.inl recording.captured)
  · dsimp only
    rw [before]
    exact recording.state
  · dsimp only
    rw [before]
    exact recording.sent
  · dsimp only
    rw [before]
    exact recording.received
  · intro peer
    dsimp only
    rw [after, Log.closed_append, Log.closed_singleton, ← recording.closed]
    constructor
    · exact .inl
    · rintro (already | now)
      · exact already
      · obtain ⟨sequence, same⟩ := Event.closes_iff.mp now
        exact closes peer sequence same
  · exact recording.known
  · intro peer
    dsimp only
    rw [before, after, recording.markers]
    split
    · next inside =>
      rw [Log.untilClosed_append _ ((recording.closed peer).mp inside)]
    · rfl
  · dsimp only
    rw [after, Log.recordedFrom_snoc, recording.channels]

/-- An event that neither arrives on an open channel nor closes one changes nothing. -/
theorem keep (event : Event Λ)
    (arrives : ∀ peer packet, event = .received peer packet → peer ∈ marked)
    (closes : ∀ peer sequence, event = .closed peer sequence snapshot.epoch → peer ∈ marked) :
    Recording application initial node peers (log ++ [event]) marked snapshot := by
  have none : Log.recordedBy snapshot.epoch [] (log.after snapshot.epoch) event = [] := by
    cases event with
    | received peer packet =>
      have closed := (recording.closed peer).mp (arrives peer packet rfl)
      exact if_pos (.inr closed)
    | acted | captured | closed => rfl
  have grown := recording.grow event closes
  rw [none, List.append_nil] at grown
  exact grown

/-- Data on an open channel is recorded. -/
theorem record {peer : NodeId} (packet : Packet) (unmarked : peer ∉ marked) :
    Recording application initial node peers (log ++ [.received peer packet]) marked
      { snapshot with
        channels := snapshot.channels ++ [⟨peer, packet.sequence, packet.payload⟩] } := by
  have open_ : ¬ (peer ∈ [] ∨ Log.Closed peer snapshot.epoch (log.after snapshot.epoch)) := by
    rw [← recording.closed]
    simpa using unmarked
  have one : Log.recordedBy snapshot.epoch [] (log.after snapshot.epoch)
      (.received peer packet) = [⟨peer, packet.sequence, packet.payload⟩] := if_neg open_
  have grown := recording.grow (.received peer packet) (by simp)
  rw [one] at grown
  exact grown

/-- The marker of an open channel closes it. -/
theorem close {peer : NodeId} {sequence : Nat} (unmarked : peer ∉ marked) (known : peer ∈ peers)
    (counted : sequence = (Log.receivedFrom peer log).length) :
    Recording application initial node peers
      (log ++ [.closed peer sequence snapshot.epoch]) (marked.insert peer)
      { snapshot with
        markerSequences := snapshot.markerSequences.insertIfNew peer sequence } := by
  have before := Log.before_append [.closed peer sequence snapshot.epoch] recording.captured
  have after := Log.after_append [.closed peer sequence snapshot.epoch] recording.captured
  have open_ : ¬ Log.Closed peer snapshot.epoch (log.after snapshot.epoch) := by
    rw [← recording.closed]
    exact unmarked
  have member (other : NodeId) : other ∈ marked.insert peer ↔ peer = other ∨ other ∈ marked := by
    simp
  constructor
  · exact recording.node
  · exact recording.positive
  · exact Log.captured_append.mpr (.inl recording.captured)
  · dsimp only
    rw [before]
    exact recording.state
  · dsimp only
    rw [before]
    exact recording.sent
  · dsimp only
    rw [before]
    exact recording.received
  · intro other
    dsimp only
    rw [after, Log.closed_append, Log.closed_singleton, ← recording.closed, member]
    simp [Event.closes, or_comm]
  · intro other inside
    rcases (member other).mp inside with rfl | already
    · exact known
    · exact recording.known other already
  · intro other
    dsimp only
    rw [before, after, Std.ExtTreeMap.getElem?_insertIfNew]
    by_cases here : peer = other
    · subst here
      have absent : peer ∉ snapshot.markerSequences := by
        rw [Std.ExtTreeMap.mem_iff_isSome_getElem?, recording.markers, if_neg unmarked]
        simp
      rw [if_pos ⟨by simp, absent⟩, if_pos ((member peer).mpr (.inl rfl)),
        Log.untilClosed_open _ open_, ← List.append_assoc, Log.before_append_after, counted]
      simp [Log.untilClosed, Event.closes]
    · rw [if_neg (by simp [here]), recording.markers]
      by_cases inside : other ∈ marked
      · rw [if_pos inside, if_pos ((member other).mpr (.inr inside)),
          Log.untilClosed_append _ ((recording.closed other).mp inside)]
      · rw [if_neg inside, if_neg (by simp [member, here, inside])]
  · dsimp only
    rw [after, Log.recordedFrom_snoc, recording.channels]
    simp [Log.recordedBy]

end

end Recording

/-- A snapshot that no event changes any more: all channels are closed. -/
def Complete (application : Application σ Λ) (initial : σ) (node : NodeId) (peers : List NodeId)
    (log : Log Λ) (snapshot : LocalSnapshot) : Prop :=
  ∃ marked : Std.ExtTreeSet NodeId, (∀ peer, peer ∈ marked ↔ peer ∈ peers) ∧
    Recording application initial node peers log marked snapshot

theorem Complete.keep {application : Application σ Λ} {initial : σ} {node : NodeId}
    {peers : List NodeId} {log : Log Λ} {snapshot : LocalSnapshot}
    (complete : Complete application initial node peers log snapshot) {event : Event Λ}
    (known : event.FromPeer peers) :
    Complete application initial node peers (log ++ [event]) snapshot := by
  obtain ⟨marked, all, recording⟩ := complete
  refine ⟨marked, all, recording.keep event ?_ ?_⟩
  · rintro peer packet rfl
    exact (all peer).mpr known
  · rintro peer sequence rfl
    exact (all peer).mpr known

theorem Complete.append {application : Application σ Λ} {initial : σ} {node : NodeId}
    {peers : List NodeId} {log : Log Λ} {snapshot : LocalSnapshot}
    (complete : Complete application initial node peers log snapshot) {events : Log Λ}
    (known : ∀ event ∈ events, event.FromPeer peers) :
    Complete application initial node peers (log ++ events) snapshot := by
  induction events generalizing log with
  | nil =>
    rw [List.append_nil]
    exact complete
  | cons event rest inductionHypothesis =>
    have first := complete.keep (known event List.mem_cons_self)
    have all := inductionHypothesis first fun other member =>
      known other (List.mem_cons_of_mem event member)
    rw [List.append_assoc] at all
    exact all

/-- A healthy participant and its application hold what the log tells. -/
structure Faithful (application : Application σ Λ) (initial : σ) (node : NodeId)
    (peers : List NodeId) (host : Host σ) (log : Log Λ) : Prop where
  identity : host.participant.node = node
  state : host.state = Log.state application initial log
  sent : Counts peers (fun peer => Log.sentTo peer log) host.participant.sent
  received : Counts peers (fun peer => Log.receivedFrom peer log) host.participant.received
  size : host.participant.received.size = peers.length
  past : ∀ epoch, log.Captured epoch → epoch ≤ host.participant.lastEpoch ∨
    host.participant.active.map LocalSnapshot.epoch = some epoch
  active : ∀ snapshot, host.participant.active = some snapshot →
    host.participant.lastEpoch < snapshot.epoch ∧
      Recording application initial node peers log host.participant.marked snapshot
  completed : ∀ snapshot, host.participant.completed = some snapshot →
    Complete application initial node peers log snapshot
  orderly : Orderly peers log

namespace Faithful

variable {application : Application σ Λ} {initial : σ} {node : NodeId} {peers : List NodeId}
  {host after : Host σ} {log : Log Λ}

section

variable (faithful : Faithful application initial node peers host log)

include faithful

theorem known_iff (peer : NodeId) :
    peer ∈ host.participant.received ↔ peer ∈ peers := by
  rw [Std.ExtTreeMap.mem_iff_isSome_getElem?, faithful.received]
  split <;> simp [*]

/-- An event that captures nothing: what has to be shown about the host after it. -/
theorem extend {event : Event Λ} (quiet : ∀ epoch, event.captures epoch = false)
    (fits : event.Fits peers log) (same : after.participant.node = host.participant.node)
    (state : after.state = event.apply application host.state)
    (sent : Counts peers (fun peer => Log.sentTo peer (log ++ [event])) after.participant.sent)
    (received : Counts peers (fun peer => Log.receivedFrom peer (log ++ [event]))
      after.participant.received)
    (size : after.participant.received.size = host.participant.received.size)
    (last : after.participant.lastEpoch = host.participant.lastEpoch)
    (epochs : after.participant.active.map LocalSnapshot.epoch =
      host.participant.active.map LocalSnapshot.epoch)
    (active : ∀ snapshot, after.participant.active = some snapshot →
      Recording application initial node peers (log ++ [event]) after.participant.marked snapshot)
    (completed : after.participant.completed = host.participant.completed) :
    Faithful application initial node peers after (log ++ [event]) := by
  constructor
  · exact same.trans faithful.identity
  · rw [state, Log.state_append, ← faithful.state]
    rfl
  · exact sent
  · exact received
  · exact size.trans faithful.size
  · intro epoch captured
    rw [Log.captured_append, Log.captured_singleton, quiet] at captured
    rw [last, epochs]
    exact faithful.past epoch (by simpa using captured)
  · intro snapshot open_
    refine ⟨?_, active snapshot open_⟩
    obtain ⟨earlier, was, same⟩ : ∃ earlier, host.participant.active = some earlier ∧
        earlier.epoch = snapshot.epoch := by
      rw [open_] at epochs
      exact Option.map_eq_some_iff.mp epochs.symm
    rw [last, ← same]
    exact (faithful.active earlier was).1
  · intro snapshot done
    exact (faithful.completed snapshot (completed ▸ done)).keep fits.fromPeer
  · exact faithful.orderly.snoc fits

/-- A local step of the application. -/
theorem act (label : Λ) :
    Faithful application initial node peers
      { host with state := (application.act host.state label).1 }
      (log ++ [.acted label none]) := by
  have sameSent (peer : NodeId) : Log.sentTo peer (log ++ [.acted label none]) =
      Log.sentTo peer log := by
    simp [Log.sentTo, Event.packetTo]
  have sameReceived (peer : NodeId) : Log.receivedFrom peer (log ++ [.acted label none]) =
      Log.receivedFrom peer log := by
    simp [Log.receivedFrom, Event.packetFrom]
  refine faithful.extend (fun _ => rfl) trivial rfl rfl ?_ ?_ rfl rfl rfl ?_ rfl
  · simp only [sameSent]
    exact faithful.sent
  · simp only [sameReceived]
    exact faithful.received
  · intro snapshot open_
    exact (faithful.active snapshot open_).2.keep _ (by simp) (by simp)

/-- A local step of the application that sends a payload. -/
theorem send {label : Λ} {peer : NodeId} {payload : Bytes} {count : Nat}
    (found : host.participant.sent[peer]? = some count) (room : count ≠ maxSequence) :
    Faithful application initial node peers
      { host with
        participant := { host.participant with
          sent := host.participant.sent.insert peer (count + 1) }
        state := (application.act host.state label).1 }
      (log ++ [.acted label (some (peer, ⟨count + 1, payload⟩))]) := by
  obtain ⟨known, counted⟩ : peer ∈ peers ∧ (Log.sentTo peer log).length = count := by
    rw [faithful.sent] at found
    split at found
    · exact ⟨‹_›, Option.some.inj found⟩
    · cases found
  have sent (other : NodeId) :
      Log.sentTo other (log ++ [.acted label (some (peer, ⟨count + 1, payload⟩))]) =
        Log.sentTo other log ++ if peer = other then [⟨count + 1, payload⟩] else [] := by
    by_cases here : peer = other <;> simp [Log.sentTo, Event.packetTo, here]
  have sameReceived (other : NodeId) :
      Log.receivedFrom other (log ++ [.acted label (some (peer, ⟨count + 1, payload⟩))]) =
        Log.receivedFrom other log := by
    simp [Log.receivedFrom, Event.packetFrom]
  have fits : (Event.acted label (some (peer, ⟨count + 1, payload⟩)) : Event Λ).Fits peers log :=
    ⟨known, counted ▸ room, counted ▸ rfl⟩
  refine faithful.extend (fun _ => rfl) fits rfl rfl ?_ ?_ rfl rfl rfl ?_ rfl
  · intro other
    simp only [sent, Std.ExtTreeMap.getElem?_insert, Std.LawfulEqOrd.compare_eq_iff_eq]
    by_cases here : peer = other
    · subst here
      simp [known, counted]
    · simp only [if_neg here, List.append_nil]
      exact faithful.sent other
  · simp only [sameReceived]
    exact faithful.received
  · intro snapshot open_
    exact (faithful.active snapshot open_).2.keep _ (by simp) (by simp)

/-- The capture of an epoch. -/
theorem start {epoch : Nat} (starts : Participant.Starts application.toCallbacks epoch host after) :
    Faithful application initial node peers after
      (log ++ [.captured epoch host.participant.sent]) := by
  obtain ⟨fresh, inactive, taken, rfl⟩ := starts
  have sameSent (peer : NodeId) : Log.sentTo peer
      (log ++ [.captured epoch host.participant.sent]) = Log.sentTo peer log := by
    simp [Log.sentTo, Event.packetTo]
  have sameReceived (peer : NodeId) : Log.receivedFrom peer
      (log ++ [.captured epoch host.participant.sent]) = Log.receivedFrom peer log := by
    simp [Log.receivedFrom, Event.packetFrom]
  have uncaptured : ¬ log.Captured epoch := by
    intro captured
    rcases faithful.past epoch captured with old | open_
    · omega
    · simp [inactive] at open_
  have capture : (Event.captured epoch host.participant.sent : Event Λ).captures epoch := by
    simp [Event.captures]
  have before := Log.before_capture uncaptured capture
  have behind := Log.after_capture uncaptured capture
  constructor
  · exact faithful.identity
  · rw [Log.state_append, ← faithful.state]
    rfl
  · simp only [sameSent]
    exact faithful.sent
  · simp only [sameReceived]
    exact faithful.received
  · exact faithful.size
  · intro other captured
    rw [Log.captured_append, Log.captured_singleton] at captured
    rcases captured with captured | now
    · rcases faithful.past other captured with old | open_
      · exact .inl old
      · simp [inactive] at open_
    · right
      simpa [Event.captures, Participant.beginEpoch] using now
  · intro snapshot open_
    obtain rfl := Option.some.inj open_
    refine ⟨fresh, ?_⟩
    constructor
    · exact faithful.identity
    · exact Nat.zero_lt_of_lt fresh
    · exact Log.captured_append.mpr (.inr (by simpa using capture))
    · dsimp only
      rw [before, ← faithful.state]
    · dsimp only
      rw [before]
      exact faithful.sent
    · dsimp only
      rw [before]
      exact faithful.received
    · intro peer
      dsimp only
      rw [behind]
      simp [Participant.beginEpoch, Event.closes]
    · intro peer inside
      simp [Participant.beginEpoch] at inside
    · intro peer
      simp [Participant.beginEpoch]
    · dsimp only
      rw [behind]
      rfl
  · intro snapshot done
    simp [Participant.beginEpoch, taken] at done
  · exact faithful.orderly.snoc ⟨Nat.zero_lt_of_lt fresh, uncaptured, faithful.sent⟩

/-- Data arrives and is recorded if its channel is open. -/
theorem data {peer : NodeId} {message : Message}
    (takes : Participant.TakesData application.toCallbacks peer message host after) :
    Faithful application initial node peers after
      (log ++ [.received peer ⟨message.sequence, message.payload⟩]) := by
  obtain ⟨known, ⟨count, found, room, next⟩, plain, rfl⟩ := takes
  obtain ⟨inside, counted⟩ : peer ∈ peers ∧ (Log.receivedFrom peer log).length = count := by
    rw [faithful.received] at found
    split at found
    · exact ⟨‹_›, Option.some.inj found⟩
    · cases found
  have sameSent (other : NodeId) : Log.sentTo other
      (log ++ [.received peer ⟨message.sequence, message.payload⟩]) = Log.sentTo other log := by
    simp [Log.sentTo, Event.packetTo]
  have received (other : NodeId) : Log.receivedFrom other
      (log ++ [.received peer ⟨message.sequence, message.payload⟩]) =
        Log.receivedFrom other log ++
          if peer = other then [⟨message.sequence, message.payload⟩] else [] := by
    by_cases here : peer = other <;> simp [Log.receivedFrom, Event.packetFrom, here]
  have counters : Counts peers (fun other => Log.receivedFrom other
      (log ++ [.received peer ⟨message.sequence, message.payload⟩]))
      (host.participant.received.insert peer message.sequence) := by
    intro other
    simp only [received, Std.ExtTreeMap.getElem?_insert, Std.LawfulEqOrd.compare_eq_iff_eq]
    by_cases here : peer = other
    · subst here
      simp [inside, counted, next]
    · simp only [if_neg here, List.append_nil]
      exact faithful.received other
  have size : (host.participant.received.insert peer message.sequence).size =
      host.participant.received.size := by
    rw [Std.ExtTreeMap.size_insert]
    exact if_pos known
  have fits : (Event.received peer ⟨message.sequence, message.payload⟩ : Event Λ).Fits peers log :=
    ⟨inside, counted ▸ room, counted ▸ next⟩
  have sent : Counts peers (fun other => Log.sentTo other
      (log ++ [.received peer ⟨message.sequence, message.payload⟩])) host.participant.sent := by
    simp only [sameSent]
    exact faithful.sent
  by_cases recording : host.participant.active ≠ none ∧ peer ∉ host.participant.marked
  · obtain ⟨snapshot, open_⟩ := Option.ne_none_iff_exists'.mp recording.1
    simp only [if_pos recording]
    refine faithful.extend (fun _ => rfl) fits rfl rfl sent counters size rfl ?_ ?_ rfl
    · simp [Participant.record, open_]
    · intro later now
      simp only [Participant.record, open_, Option.map_some, Option.some.injEq] at now
      subst now
      exact (faithful.active snapshot open_).2.record _ recording.2
  · simp only [if_neg recording]
    refine faithful.extend (fun _ => rfl) fits rfl rfl sent counters size rfl rfl ?_ rfl
    intro snapshot open_
    refine (faithful.active snapshot open_).2.keep _ ?_ (by simp)
    rintro other packet same
    obtain ⟨rfl, _⟩ := Event.received.inj same
    by_contra unmarked
    exact recording ⟨by simp only at open_; simp [open_], unmarked⟩

/-- A marker closes its channel. -/
theorem close {peer : NodeId} {message : Message}
    (next : host.participant.received[peer]? = some message.sequence)
    (current : host.participant.active.map LocalSnapshot.epoch = some message.epoch)
    (unmarked : peer ∉ host.participant.marked) :
    Faithful application initial node peers
      { host with participant := Participant.close peer message host.participant }
      (log ++ [.closed peer message.sequence message.epoch]) := by
  obtain ⟨snapshot, open_, epoch⟩ := Option.map_eq_some_iff.mp current
  obtain ⟨inside, counted⟩ : peer ∈ peers ∧
      (Log.receivedFrom peer log).length = message.sequence := by
    rw [faithful.received] at next
    split at next
    · exact ⟨‹_›, Option.some.inj next⟩
    · cases next
  have sameSent (other : NodeId) : Log.sentTo other
      (log ++ [.closed peer message.sequence message.epoch]) = Log.sentTo other log := by
    simp [Log.sentTo, Event.packetTo]
  have sameReceived (other : NodeId) : Log.receivedFrom other
      (log ++ [.closed peer message.sequence message.epoch]) = Log.receivedFrom other log := by
    simp [Log.receivedFrom, Event.packetFrom]
  have opened : log.Captured message.epoch := by
    rw [← epoch]
    exact (faithful.active snapshot open_).2.captured
  refine faithful.extend (fun _ => rfl) ⟨inside, opened⟩ rfl rfl ?_ ?_ rfl rfl ?_ ?_ rfl
  · simp only [sameSent]
    exact faithful.sent
  · simp only [sameReceived]
    exact faithful.received
  · simp [Participant.close, open_]
  · intro later now
    simp only [Participant.close, open_, Option.map_some, Option.some.injEq] at now
    subst now
    rw [← epoch]
    exact (faithful.active snapshot open_).2.close unmarked inside counted.symm

/-- `FinishIfReady` completes a snapshot whose channels are all closed. -/
theorem finish :
    Faithful application initial node peers
      { host with participant := Participant.finishIfReady host.participant } log := by
  unfold Participant.finishIfReady
  split
  · next snapshot open_ =>
    split
    · next ready =>
      obtain ⟨later, recording⟩ := faithful.active snapshot open_
      refine ⟨faithful.identity, faithful.state, faithful.sent, faithful.received, faithful.size,
        ?_, ?_, ?_, faithful.orderly⟩
      · intro epoch captured
        left
        rcases faithful.past epoch captured with old | now
        · exact old.trans later.le
        · rw [open_] at now
          exact (Option.some.inj now).symm.le
      · intro other now
        cases now
      · intro other now
        obtain rfl := Option.some.inj now
        refine ⟨host.participant.marked, ?_, recording⟩
        intro peer
        refine ⟨recording.known peer, ?_⟩
        intro inside
        have all := mem_iff_of_size ready.symm (fun peer marked =>
          (faithful.known_iff peer).mpr (recording.known peer marked)) peer
        exact all.mp ((faithful.known_iff peer).mpr inside)
    · exact faithful
  · exact faithful

/-- A completed snapshot is handed out. -/
theorem take :
    Faithful application initial node peers
      { host with participant := { host.participant with completed := none } } log :=
  ⟨faithful.identity, faithful.state, faithful.sent, faithful.received, faithful.size,
    faithful.past, faithful.active, fun _ now => (Option.some_ne_none _ now.symm).elim,
    faithful.orderly⟩

/-- A call of `Transmit` touches the outbox only. -/
theorem outbox (messages : List (NodeId × Message)) :
    Faithful application initial node peers { host with outbox := messages } log :=
  ⟨faithful.identity, faithful.state, faithful.sent, faithful.received, faithful.size,
    faithful.past, faithful.active, faithful.completed, faithful.orderly⟩

end

/-- A new participant has an empty log. -/
theorem fresh {limit : Nat} {participant : Participant}
    (fresh : participant.Fresh node peers limit) :
    Faithful application initial node peers ⟨participant, initial, []⟩ [] := by
  constructor
  · exact fresh.node
  · rfl
  · intro peer
    dsimp only
    rw [fresh.same, fresh.counters]
    rfl
  · exact fresh.counters
  · exact fresh.size
  · simp [Log.Captured]
  · simp [fresh.inactive]
  · simp [fresh.empty]
  · exact .nil

end Faithful

end Stormglass.Snapshot
