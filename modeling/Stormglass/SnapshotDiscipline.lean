import Stormglass.SnapshotCompletion

/-!
# What can go wrong on reliable channels

A message on a channel carries the numbers that its receiver expects: the next number if it is data,
and the number of data messages before it if it is a marker. So `Receive` throws only when epochs
overlap, or when a snapshot exceeds its limit.

Epochs do not overlap when they are coordinated: an epoch is initiated only once at a node, and only
when every node has handed out its snapshots of all earlier epochs. Then limits are all that can
stop a snapshot.
-/

namespace Stormglass.Snapshot

variable {σ Λ : Type}

/-! ## The numbers of the messages -/

/-- The messages carry the numbers that a receiver of so many data messages expects. -/
def Stamped : (count : Nat) → List Message → Prop
  | _, [] => True
  | count, message :: rest =>
    match message.kind with
    | .data => message.sequence = count + 1 ∧ message.epoch = 0 ∧ Stamped (count + 1) rest
    | .marker => message.sequence = count ∧ message.payload = [] ∧ message.epoch ≠ 0 ∧
      Stamped count rest

theorem stamped_append (count : Nat) (first second : List Message) :
    Stamped count (first ++ second) ↔
      Stamped count first ∧ Stamped (count + (first.filterMap Message.packet).length) second := by
  induction first generalizing count with
  | nil => simp [Stamped]
  | cons message rest inductionHypothesis =>
    cases kind : message.kind with
    | data =>
      have packet : (message :: rest).filterMap Message.packet =
          ⟨message.sequence, message.payload⟩ :: rest.filterMap Message.packet := by
        simp [Message.packet, kind]
      rw [packet, List.length_cons, Nat.add_comm _ 1, ← Nat.add_assoc]
      simp only [List.cons_append, Stamped, kind, inductionHypothesis, and_assoc]
    | marker =>
      have packet : (message :: rest).filterMap Message.packet =
          rest.filterMap Message.packet := by
        simp [Message.packet, kind]
      rw [packet]
      simp only [List.cons_append, Stamped, kind, inductionHypothesis, and_assoc]

theorem stamped_markers {count epoch : Nat} (positive : epoch ≠ 0) {messages : List Message}
    (markers : ∀ message ∈ messages, message = Participant.marker count epoch) :
    Stamped count messages := by
  induction messages with
  | nil => trivial
  | cons message rest inductionHypothesis =>
    rw [markers message List.mem_cons_self]
    exact ⟨rfl, rfl, positive, inductionHypothesis fun other member =>
      markers other (List.mem_cons_of_mem message member)⟩

namespace Log

theorem addressed_cons (receiver : NodeId) (entry : NodeId × Message)
    (rest : List (NodeId × Message)) :
    addressed receiver (entry :: rest) =
      (if entry.1 = receiver then [entry.2] else []) ++ addressed receiver rest := by
  by_cases here : entry.1 = receiver <;> simp [addressed, here]

/-- Of a list with distinct keys, one entry is addressed to a key. -/
theorem addressed_unique {entries : List (NodeId × Nat)} (distinct : (entries.map Prod.fst).Nodup)
    {peer : NodeId} {count : Nat} (member : (peer, count) ∈ entries) (epoch : Nat) :
    addressed peer (entries.map fun entry => (entry.1, Participant.marker entry.2 epoch)) =
      [Participant.marker count epoch] := by
  induction entries with
  | nil => cases member
  | cons entry rest inductionHypothesis =>
    rw [List.map_cons, List.nodup_cons] at distinct
    rw [List.map_cons]
    rcases List.mem_cons.mp member with rfl | later
    · have others : addressed peer
          (rest.map fun entry => (entry.1, Participant.marker entry.2 epoch)) = [] := by
        refine List.filterMap_eq_nil_iff.mpr ?_
        intro item listed
        obtain ⟨other, inside, rfl⟩ := List.mem_map.mp listed
        refine if_neg ?_
        intro same
        exact distinct.1 (List.mem_map.mpr ⟨other, inside, same⟩)
      rw [addressed_cons, if_pos rfl, others]
      rfl
    · have different : entry.1 ≠ peer := by
        intro same
        exact distinct.1 (List.mem_map.mpr ⟨(peer, count), later, same.symm⟩)
      rw [addressed_cons, if_neg different]
      exact inductionHypothesis distinct.2 later

/-- What a capture puts on a channel. -/
theorem outgoing_captured {peers : List NodeId} {log : Log Λ} {epoch : Nat} {sent : Counters}
    (fits : (Event.captured epoch sent : Event Λ).Fits peers log) (peer : NodeId) :
    outgoing peer [(.captured epoch sent : Event Λ)] =
      if peer ∈ peers then [Participant.marker (sentTo peer log).length epoch] else [] := by
  have counted := fits.2.2 peer
  rw [outgoing, List.flatMap_singleton, Event.transmits]
  split at counted
  · next linked =>
    rw [if_pos linked]
    refine addressed_unique ?_ (Std.ExtTreeMap.mem_toList_iff_getElem?_eq_some.mpr counted) epoch
    rw [Std.ExtTreeMap.map_fst_toList_eq_keys]
    exact Std.ExtTreeMap.nodup_keys
  · next unlinked =>
    rw [if_neg unlinked]
    refine List.filterMap_eq_nil_iff.mpr ?_
    intro item listed
    obtain ⟨entry, inside, rfl⟩ := List.mem_map.mp listed
    refine if_neg ?_
    rintro rfl
    rw [Std.ExtTreeMap.mem_toList_iff_getElem?_eq_some.mp inside] at counted
    cases counted

/-- The messages of a channel are stamped. -/
theorem stamped {peers : List NodeId} {log : Log Λ} (orderly : Orderly peers log)
    (peer : NodeId) : Stamped 0 (outgoing peer log) := by
  induction orderly with
  | nil => trivial
  | @snoc log event earlier fits inductionHypothesis =>
    rw [outgoing_append, stamped_append, packets_outgoing]
    refine ⟨inductionHypothesis, ?_⟩
    rw [Nat.zero_add]
    cases event with
    | acted label message =>
      cases message with
      | none => trivial
      | some entry =>
        by_cases here : entry.1 = peer
        · subst here
          have own : outgoing entry.1 [(.acted label (some entry) : Event Λ)] =
              [entry.2.message] := by
            simp [outgoing, addressed, Event.transmits]
          rw [own]
          exact ⟨fits.2.2, rfl, trivial⟩
        · have none : outgoing peer [(.acted label (some entry) : Event Λ)] = [] := by
            simp [outgoing, addressed, Event.transmits, here]
          rw [none]
          trivial
    | captured epoch sent =>
      rw [outgoing_captured fits]
      refine stamped_markers (Nat.pos_iff_ne_zero.mp fits.1) ?_
      intro message member
      split at member
      · exact List.mem_singleton.mp member
      · cases member
    | received | closed => trivial

/-- A channel carries one marker of an epoch, at most. -/
theorem marked_once {peers : List NodeId} {log : Log Λ} (orderly : Orderly peers log)
    (peer : NodeId) (epoch : Nat) :
    (outgoing peer log).countP (Message.marks epoch) ≤ 1 := by
  induction orderly with
  | nil => simp [outgoing, addressed]
  | @snoc log event earlier fits inductionHypothesis =>
    rw [outgoing_append, List.countP_append]
    by_cases captures : event.captures epoch
    · obtain ⟨sent, rfl⟩ := Event.captures_iff.mp captures
      -- The first capture of the epoch: no marker of it was on the channel.
      have none : (outgoing peer log).countP (Message.marks epoch) = 0 :=
        List.countP_eq_zero.mpr fun message member marks =>
          fits.2.1 (captured_of_marks member marks)
      rw [none, outgoing_captured fits, Nat.zero_add]
      split <;> simp [List.countP_cons]
      split <;> omega
    · have none : (outgoing peer [event]).countP (Message.marks epoch) = 0 := by
        refine List.countP_eq_zero.mpr fun message member marks => captures ?_
        exact captured_singleton.mp (captured_of_marks member marks)
      rw [none]
      exact inductionHypothesis

end Log

/-! ## What `Receive` checks -/

namespace Participant

variable {callbacks : Callbacks σ} {host after : Host σ} {peer : NodeId} {message : Message}
  {text : String}

/-- The next data message is refused only for its size. -/
theorem receive_data_error (healthy : host.participant.failed = false)
    (kind : message.kind = .data) {count : Nat}
    (found : host.participant.received[peer]? = some count) (room : count ≠ maxSequence)
    (next : message.sequence = count + 1) (plain : message.epoch = 0)
    (thrown : (receive callbacks peer message).run host = .error text after) :
    text = "in-flight channel snapshot exceeds limit" := by
  have known : peer ∈ host.participant.received := mem_of_counter found
  simp only [receive, checkHealthy, checkPeer, bind_assoc, self_bind, require_bind, poisoning_run,
    if_pos healthy, if_pos known, kind, receiveData, lookup_bind, found,
    if_pos (⟨plain, room, next⟩ : message.epoch = 0 ∧ count ≠ maxSequence ∧
      message.sequence = count + 1)] at thrown
  by_cases recording : host.participant.active ≠ none ∧ peer ∉ host.participant.marked
  · simp only [if_pos recording, require_bind] at thrown
    split at thrown
    · cases thrown
    · next ran =>
      cases thrown
      split at ran
      · cases ran
      · cases ran
        rfl
  · simp only [if_neg recording] at thrown
    cases thrown

/-- A marker that arrives in its place is refused for an overlapping epoch, or for the size of the
state. -/
theorem receive_marker_error (healthy : host.participant.failed = false)
    (kind : message.kind = .marker)
    (found : host.participant.received[peer]? = some message.sequence)
    (plain : message.payload = []) (positive : message.epoch ≠ 0)
    (thrown : (receive callbacks peer message).run host = .error text after) :
    text = "snapshot state exceeds limit" ∨
      text = "overlapping/stale snapshot epoch" ∧ host.participant.active = none ∧
        ¬ (message.epoch > host.participant.lastEpoch ∧ host.participant.completed = none) ∨
      text = "overlapping/duplicate marker" ∧ host.participant.active ≠ none ∧
        ¬ (host.participant.active.map LocalSnapshot.epoch = some message.epoch ∧
          peer ∉ host.participant.marked) := by
  have known : peer ∈ host.participant.received := mem_of_counter found
  simp only [receive, checkHealthy, checkPeer, bind_assoc, self_bind, require_bind, poisoning_run,
    if_pos healthy, if_pos known, kind, receiveMarker, lookup_bind, found,
    if_pos (⟨plain, positive⟩ : message.payload = [] ∧ message.epoch ≠ 0), if_true] at thrown
  by_cases active : host.participant.active = none
  · rw [if_pos active] at thrown
    rcases start_run callbacks message.epoch host with ⟨middle, ran, starts⟩ | ⟨reason, ran, why⟩
    · -- The marker opens the epoch, so the checks that follow cannot fail.
      rw [run_bind ran, self_bind, require_bind, starts.result,
        if_pos ⟨rfl, Std.ExtTreeSet.not_mem_empty⟩] at thrown
      cases thrown
    · rw [run_bind_error ran] at thrown
      cases thrown
      rcases why with size | ⟨stale, unready⟩
      · exact .inl size
      · refine .inr (.inl ⟨stale, active, fun ready => unready ⟨ready.1, active, ready.2⟩⟩)
  · rw [if_neg active, self_bind, require_bind] at thrown
    split at thrown
    · cases thrown
    · next ran =>
      cases thrown
      split at ran
      · cases ran
      · next overlapping =>
        cases ran
        exact .inr (.inr ⟨rfl, active, overlapping⟩)

/-- `Initiate` is refused for an overlapping epoch, or for the size of the state. -/
theorem initiate_error (healthy : host.participant.failed = false) {epoch : Nat}
    (thrown : (initiate callbacks epoch).run host = .error text after) :
    text = "snapshot state exceeds limit" ∨
      text = "overlapping/stale snapshot epoch" ∧
        ¬ (epoch > host.participant.lastEpoch ∧ host.participant.active = none ∧
          host.participant.completed = none) := by
  simp only [initiate, checkHealthy, bind_assoc, self_bind, require_bind, poisoning_run,
    if_pos healthy] at thrown
  rcases start_run callbacks epoch host with ⟨started, ran, starts⟩ | ⟨reason, ran, why⟩
  · rw [run_bind ran] at thrown
    cases thrown
  · rw [run_bind_error ran] at thrown
    cases thrown
    exact why

end Participant

namespace Network

variable {topology : Topology} {applications : NodeId → Application σ Λ} {initial : NodeId → σ}
  {network : Network σ Λ} {sender receiver : NodeId} {message : Message}

section

variable (sound : Sound topology applications initial network)

include sound

/-- What a healthy receiver has not consumed is on the channel. -/
theorem Sound.flows (healthy : (network.hosts receiver).participant.failed = false) :
    Log.consumed sender (network.log receiver) ++ network.channels sender receiver =
      Log.outgoing receiver (network.log sender) := by
  obtain ⟨lost, none, flows⟩ := sound.wired sender receiver
  rw [none healthy, List.nil_append] at flows
  exact flows

/-- The message in front of a channel was put there by the sender. -/
theorem Sound.front_outgoing (front : (network.channels sender receiver).head? = some message) :
    message ∈ Log.outgoing receiver (network.log sender) := by
  obtain ⟨rest, channel⟩ := List.head?_eq_some_iff.mp front
  obtain ⟨lost, _, flows⟩ := sound.wired sender receiver
  rw [← flows, channel]
  simp

/-- The message in front of a channel comes from a peer. -/
theorem Sound.linked_of_front (front : (network.channels sender receiver).head? = some message) :
    receiver ∈ peersOf topology sender := by
  by_contra unlinked
  rw [sound.channel_nil unlinked] at front
  cases front

/-- The message in front of a channel has the numbers that its receiver expects. -/
theorem Sound.front_stamped (healthy : (network.hosts receiver).participant.failed = false)
    (front : (network.channels sender receiver).head? = some message) :
    Stamped (Log.receivedFrom sender (network.log receiver)).length [message] := by
  obtain ⟨rest, channel⟩ := List.head?_eq_some_iff.mp front
  have stamped := Log.stamped (sound.orderly sender) receiver
  rw [← sound.flows healthy, channel, stamped_append, Log.packets_consumed, Nat.zero_add] at stamped
  have first := (stamped_append _ [message] rest).mp stamped.2
  exact first.1

/-- A data message in front of a channel leaves room for its number. -/
theorem Sound.front_room (healthy : (network.hosts receiver).participant.failed = false)
    (front : (network.channels sender receiver).head? = some message)
    (kind : message.kind = .data) :
    (Log.receivedFrom sender (network.log receiver)).length ≠ maxSequence := by
  obtain ⟨rest, channel⟩ := List.head?_eq_some_iff.mp front
  have bound := ((sound.orderly sender).numbered receiver).1.2
  have packet : (message :: rest).filterMap Message.packet =
      ⟨message.sequence, message.payload⟩ :: rest.filterMap Message.packet := by
    simp [Message.packet, kind]
  rw [← Log.packets_outgoing, ← sound.flows healthy, channel, List.filterMap_append, packet,
    Log.packets_consumed, List.length_append, List.length_cons] at bound
  omega

end

/-- Over reliable channels the checks of `Receive` on sequence numbers, epochs, payloads and peers
never fire. Whatever the run, a healthy participant that takes the front message of a channel throws
only when epochs overlap or a snapshot exceeds its limit. -/
theorem receive_throws_for_overlap_or_limit {limit : NodeId → Nat}
    (symmetric : Symmetric topology) (starts : Starts topology limit initial network)
    (calls : List (NodeId × NodeCall Λ))
    (healthy : ((Network.run applications calls network).hosts receiver).participant.failed = false)
    (front : ((Network.run applications calls network).channels sender receiver).head? =
      some message)
    {text : String} {after : Host σ}
    (thrown : (Participant.receive (applications receiver).toCallbacks sender message).run
      ((Network.run applications calls network).hosts receiver) = .error text after) :
    text ∈ ["overlapping/stale snapshot epoch", "overlapping/duplicate marker",
      "snapshot state exceeds limit", "in-flight channel snapshot exceeds limit"] := by
  have sound : Sound topology applications initial (Network.run applications calls network) :=
    (Sound.start symmetric starts).run calls
  have linked := symmetric.back _ _ (sound.linked_of_front front)
  have stamped := sound.front_stamped healthy front
  have frontier := ((sound.faithful receiver healthy).received sender).trans (if_pos linked)
  cases kind : message.kind with
  | data =>
    simp only [Stamped, kind] at stamped
    have refused := Participant.receive_data_error healthy kind frontier
      (sound.front_room healthy front kind) stamped.1 stamped.2.1 thrown
    simp [refused]
  | marker =>
    simp only [Stamped, kind] at stamped
    dsimp only at frontier
    rw [← stamped.1] at frontier
    rcases Participant.receive_marker_error healthy kind frontier stamped.2.1 stamped.2.2.1 thrown
      with size | ⟨stale, _⟩ | ⟨duplicate, _⟩
    · simp [size]
    · simp [stale]
    · simp [duplicate]

/-! ## Coordinated epochs -/

/-- Every node of the topology has handed out its snapshot of an epoch. -/
def HandedOut (topology : Topology) (network : Network σ Λ) (epoch : Nat) : Prop :=
  ∀ node ∈ topology, ∃ snapshot ∈ network.taken node, snapshot.epoch = epoch

/-- The rule of a coordinator. A node initiates an epoch once, not after having captured it for a
marker. No later epoch has been captured, and every earlier one has been handed out. -/
def Allowed (topology : Topology) (network : Network σ Λ) (node : NodeId) : NodeCall Λ → Prop
  | .initiate epoch => node ∈ topology ∧ 0 < epoch ∧ ¬ (network.log node).Captured epoch ∧
    ∀ other earlier, (network.log other).Captured earlier →
      earlier = epoch ∨ earlier < epoch ∧ HandedOut topology network earlier
  | _ => True

/-- A run whose calls are allowed when they are made. -/
def Coordinated (topology : Topology) (applications : NodeId → Application σ Λ) :
    List (NodeId × NodeCall Λ) → Network σ Λ → Prop
  | [], _ => True
  | entry :: rest, network => Allowed topology network entry.1 entry.2 ∧
    Coordinated topology applications rest
      (Network.call (applications entry.1) entry.1 network entry.2)

/-- The completed epochs of a participant grow: those it has handed out are not later than its last
one, and earlier than one it still holds complete. -/
structure Aged (network : Network σ Λ) (node : NodeId) : Prop where
  taken : ∀ snapshot ∈ network.taken node,
    snapshot.epoch ≤ (network.hosts node).participant.lastEpoch
  completed : ∀ snapshot, (network.hosts node).participant.completed = some snapshot →
    snapshot.epoch = (network.hosts node).participant.lastEpoch ∧
      ∀ earlier ∈ network.taken node, earlier.epoch < snapshot.epoch
  last : (network.hosts node).participant.lastEpoch = 0 ∨ ∃ snapshot,
    snapshot.epoch = (network.hosts node).participant.lastEpoch ∧
      (snapshot ∈ network.taken node ∨
        (network.hosts node).participant.completed = some snapshot)

/-- Only the last of the captured epochs may not have been handed out by all nodes. -/
structure Rounds (topology : Topology) (network : Network σ Λ) : Prop where
  aged : ∀ node, (network.hosts node).participant.failed = false → Aged network node
  earlier : ∀ one other first second, (network.log one).Captured first →
    (network.log other).Captured second → first < second → HandedOut topology network first

/-- What was handed out stays so. -/
theorem taken_call (outbox : (network.hosts receiver).outbox = []) (application : Application σ Λ)
    (request : NodeCall Λ) (other : NodeId) :
    network.taken other ⊆ (Network.call application receiver network request).taken other := by
  cases call_effect application outbox request with
  | silent same => rw [same]; exact List.Subset.refl _
  | thrown host lost failed outbox hosts channels taken
  | returned host events returns hosts channels taken =>
    rw [taken]
    exact List.Subset.refl _
  | handed snapshot healthy completed hosts channels taken =>
    rw [taken]
    by_cases here : other = receiver
    · subst here
      rw [Function.update_self]
      exact List.subset_append_left _ _
    · rw [Function.update_of_ne here]
      exact List.Subset.refl _

theorem HandedOut.call {epoch : Nat} (handed : HandedOut topology network epoch)
    (outbox : (network.hosts receiver).outbox = []) (application : Application σ Λ)
    (request : NodeCall Λ) :
    HandedOut topology (Network.call application receiver network request) epoch := by
  intro node known
  obtain ⟨snapshot, member, same⟩ := handed node known
  exact ⟨snapshot, taken_call outbox application request node member, same⟩

/-- A message that captures is a marker of the epoch. -/
theorem marks_of_arrival {host : Host σ} {peer : NodeId} {epoch : Nat}
    (captured : Log.Captured epoch (arrival host peer message : Log Λ)) : message.marks epoch := by
  obtain ⟨event, member, captures⟩ := captured
  obtain ⟨sent, rfl⟩ := Event.captures_iff.mp captures
  unfold arrival at member
  split at member
  · simp at member
  · next kind =>
    split at member
    · simp only [List.mem_cons, Event.captured.injEq, List.not_mem_nil, or_false, reduceCtorEq]
        at member
      simp [Message.marks, kind, member.1]
    · simp at member

section

variable (sound : Sound topology applications initial network)

include sound

/-- A call captures the epoch that it initiates, or one that the sender of a marker has captured. -/
theorem Sound.captured_call {node : NodeId} {application : Application σ Λ} {request : NodeCall Λ}
    {other : NodeId} {epoch : Nat}
    (captured : ((Network.call application node network request).log other).Captured epoch) :
    (∃ one, (network.log one).Captured epoch) ∨ request = .initiate epoch := by
  have grown {after : Network σ Λ} {events : Log Λ}
      (history : after.history = network.history ++ events.map fun event => (node, event))
      (captured : (after.log other).Captured epoch) :
      (network.log other).Captured epoch ∨ events.Captured epoch := by
    rw [log_append history, Log.captured_append] at captured
    refine captured.imp_right ?_
    split
    · exact id
    · intro none
      simp [Log.Captured] at none
  cases request with
  | act label =>
    left
    simp only [Network.call] at captured
    split at captured
    · rcases grown rfl captured with earlier | now
      · exact ⟨other, earlier⟩
      · simp [Event.captures] at now
    · rcases grown rfl captured with earlier | now
      · exact ⟨other, earlier⟩
      · simp [Log.Captured] at now
  | initiate initiated =>
    simp only [Network.call] at captured
    split at captured
    · rcases grown rfl captured with earlier | now
      · exact .inl ⟨other, earlier⟩
      · right
        rw [show initiated = epoch by simpa [Event.captures] using now]
    · rcases grown rfl captured with earlier | now
      · exact .inl ⟨other, earlier⟩
      · simp [Log.Captured] at now
  | receive peer =>
    left
    simp only [Network.call] at captured
    split at captured
    · exact ⟨other, captured⟩
    · next message front =>
      split at captured
      · rcases grown rfl captured with earlier | now
        · exact ⟨other, earlier⟩
        · -- The marker was put on the channel by a capture of its sender.
          exact ⟨peer, Log.captured_of_marks (sound.front_outgoing front) (marks_of_arrival now)⟩
      · rcases grown rfl captured with earlier | now
        · exact ⟨other, earlier⟩
        · simp [Log.Captured] at now
  | takeCompleted =>
    left
    simp only [Network.call] at captured
    split at captured
    · rcases grown rfl captured with earlier | now
      · exact ⟨other, earlier⟩
      · simp [Log.Captured] at now
    · rcases grown rfl captured with earlier | now
      · exact ⟨other, earlier⟩
      · simp [Log.Captured] at now

/-- A run captures only the epochs that are initiated. -/
theorem Sound.captured_run {calls : List (NodeId × NodeCall Λ)} {other : NodeId} {epoch : Nat}
    (captured : ((Network.run applications calls network).log other).Captured epoch) :
    (∃ one, (network.log one).Captured epoch) ∨ ∃ node, (node, .initiate epoch) ∈ calls := by
  induction calls generalizing network with
  | nil => exact .inl ⟨other, captured⟩
  | cons entry rest inductionHypothesis =>
    rcases inductionHypothesis (sound.call entry.1 entry.2) captured with
      ⟨one, before⟩ | ⟨node, initiated⟩
    · refine (sound.captured_call before).imp_right fun now => ⟨entry.1, ?_⟩
      rw [← now]
      exact List.mem_cons_self
    · exact .inr ⟨node, List.mem_cons_of_mem entry initiated⟩

/-- A call keeps the completed epochs of a healthy participant in order. -/
theorem Sound.aged_call {node : NodeId} {request : NodeCall Λ} {other : NodeId}
    (aged : (network.hosts other).participant.failed = false → Aged network other)
    (healthy : ((Network.call (applications node) node network request).hosts
      other).participant.failed = false) :
    Aged (Network.call (applications node) node network request) other := by
  have working : (network.hosts other).participant.failed = false := by
    by_contra failed
    rw [failed_call (sound.outbox node) (applications node) request
      (by simpa using failed)] at healthy
    cases healthy
  have before := aged working
  cases call_effect (applications node) (sound.outbox node) request with
  | silent same =>
    rw [same]
    exact before
  | thrown host lost failed outbox hosts channels taken history =>
    by_cases here : other = node
    · subst here
      rw [hosts, Function.update_self, failed] at healthy
      cases healthy
    · obtain ⟨first, second, third⟩ := before
      constructor <;> rw [hosts, Function.update_of_ne here, taken] <;> assumption
  | returned host events returns hosts channels taken history =>
    by_cases here : other = node
    · subst here
      have faithful := sound.faithful other working
      rcases returns.progresses (sound.settled other working)
        (fun snapshot open_ => (faithful.active snapshot open_).1) with
          ⟨completed, last⟩ | ⟨none, later, snapshot, completed, epoch⟩
      · obtain ⟨first, second, third⟩ := before
        rw [← completed, ← last] at second third
        rw [← last] at first
        constructor <;> rw [hosts, Function.update_self, taken] <;> assumption
      · have below : ∀ snapshot ∈ network.taken other,
            snapshot.epoch < host.participant.lastEpoch := fun old member =>
          (before.taken old member).trans_lt later
        constructor <;> rw [hosts, Function.update_self, taken]
        · exact fun old member => (below old member).le
        · intro current now
          obtain rfl := Option.some.inj (completed.symm.trans now)
          exact ⟨epoch, fun old member => epoch ▸ below old member⟩
        · exact .inr ⟨snapshot, epoch, .inr completed⟩
    · obtain ⟨first, second, third⟩ := before
      constructor <;> rw [hosts, Function.update_of_ne here, taken] <;> assumption
  | handed snapshot _ completed hosts channels taken history =>
    by_cases here : other = node
    · subst here
      have last := (before.completed snapshot completed).1
      constructor <;> rw [hosts, Function.update_self, taken, Function.update_self]
      · intro old member
        rcases List.mem_append.mp member with earlier | now
        · exact before.taken old earlier
        · rw [List.mem_singleton.mp now, last]
      · intro current now
        cases now
      · exact .inr ⟨snapshot, last, .inl (by simp)⟩
    · obtain ⟨first, second, third⟩ := before
      constructor <;> rw [hosts, Function.update_of_ne here, taken, Function.update_of_ne here] <;>
        assumption

end

/-- An allowed call keeps the rounds. -/
theorem Rounds.call (rounds : Rounds topology network)
    (sound : Sound topology applications initial network) {node : NodeId} {request : NodeCall Λ}
    (allowed : Allowed topology network node request) :
    Rounds topology (Network.call (applications node) node network request) := by
  refine ⟨fun other => sound.aged_call (rounds.aged other), ?_⟩
  intro one other first second captured after less
  have outbox := sound.outbox node
  rcases sound.captured_call captured with ⟨early, was⟩ | rfl
  · refine HandedOut.call ?_ outbox (applications node) request
    rcases sound.captured_call after with ⟨late, then_⟩ | rfl
    · exact rounds.earlier early late first second was then_ less
    · rcases allowed.2.2.2 early first was with same | ⟨_, handed⟩
      · omega
      · exact handed
  · rcases sound.captured_call after with ⟨late, then_⟩ | same
    · rcases allowed.2.2.2 late second then_ with same | ⟨smaller, _⟩
      · omega
      · omega
    · cases same
      omega

/-- So does a coordinated run. -/
theorem Rounds.run {calls : List (NodeId × NodeCall Λ)} (rounds : Rounds topology network)
    (sound : Sound topology applications initial network)
    (coordinated : Coordinated topology applications calls network) :
    Rounds topology (Network.run applications calls network) := by
  induction calls generalizing network with
  | nil => exact rounds
  | cons entry rest inductionHypothesis =>
    exact inductionHypothesis (rounds.call sound coordinated.1) (sound.call entry.1 entry.2)
      coordinated.2

theorem Rounds.start {limit : NodeId → Nat} (symmetric : Symmetric topology)
    (starts : Starts topology limit initial network) : Rounds topology network := by
  constructor
  · intro node _
    have fresh := starts.fresh symmetric node
    constructor
    · simp [starts.taken]
    · simp [fresh.empty]
    · exact .inl fresh.newborn
  · intro one other first second captured
    rw [log, starts.history] at captured
    simp [Log.Captured] at captured

section Overlap

variable {epoch : Nat}

/-- A marker in front of a channel has not been consumed. -/
theorem Sound.open_of_front (sound : Sound topology applications initial network)
    (healthy : (network.hosts receiver).participant.failed = false)
    (front : (network.channels sender receiver).head? = some message)
    (marks : message.marks epoch) : ¬ Log.Closed sender epoch (network.log receiver) := by
  intro closed
  obtain ⟨event, member, closes⟩ := closed
  obtain ⟨sequence, rfl⟩ := Event.closes_iff.mp closes
  have consumed : Participant.marker sequence epoch ∈
      Log.consumed sender (network.log receiver) :=
    List.mem_flatMap.mpr ⟨_, member, by simp [Event.consumes]⟩
  have once := Log.marked_once (sound.orderly sender) receiver epoch
  obtain ⟨rest, channel⟩ := List.head?_eq_some_iff.mp front
  rw [← sound.flows healthy, channel, List.countP_append, List.countP_cons_of_pos marks] at once
  have first : 0 < (Log.consumed sender (network.log receiver)).countP (Message.marks epoch) :=
    List.countP_pos_iff.mpr ⟨_, consumed, by simp [Message.marks, Participant.marker]⟩
  omega

/-- A snapshot that the participant has completed is complete. -/
theorem Sound.complete_of_done (sound : Sound topology applications initial network)
    {node : NodeId} (healthy : (network.hosts node).participant.failed = false)
    {snapshot : LocalSnapshot} (done : snapshot ∈ network.taken node ∨
      (network.hosts node).participant.completed = some snapshot) :
    Complete (applications node) (initial node) node (peersOf topology node) (network.log node)
      snapshot := by
  rcases done with taken | completed
  · exact sound.complete node snapshot taken
  · exact (sound.faithful node healthy).completed snapshot completed

/-- A participant whose captured epochs are all earlier and handed out can start the epoch. -/
theorem Rounds.ready (rounds : Rounds topology network)
    (sound : Sound topology applications initial network) {node : NodeId}
    (known : node ∈ topology) (healthy : (network.hosts node).participant.failed = false)
    (positive : 0 < epoch)
    (earlier : ∀ old, (network.log node).Captured old →
      old < epoch ∧ HandedOut topology network old) :
    epoch > (network.hosts node).participant.lastEpoch ∧
      (network.hosts node).participant.active = none ∧
      (network.hosts node).participant.completed = none := by
  have aged := rounds.aged node healthy
  have faithful := sound.faithful node healthy
  refine ⟨?_, ?_, ?_⟩
  · rcases aged.last with newborn | ⟨snapshot, last, done⟩
    · rw [newborn]
      exact positive
    · rw [← last]
      exact (earlier _ (sound.complete_of_done healthy done).captured).1
  · by_contra open_
    obtain ⟨snapshot, active⟩ := Option.ne_none_iff_exists'.mp open_
    obtain ⟨later, recording⟩ := faithful.active snapshot active
    obtain ⟨old, member, same⟩ := (earlier _ recording.captured).2 node known
    have := aged.taken old member
    omega
  · by_contra held
    obtain ⟨snapshot, completed⟩ := Option.ne_none_iff_exists'.mp held
    obtain ⟨old, member, same⟩ :=
      (earlier _ (sound.complete_of_done healthy (.inr completed)).captured).2 node known
    have := (aged.completed snapshot completed).2 old member
    omega

/-- The receiver of a marker has captured no later epoch, and has not completed this one. -/
theorem Rounds.front_epoch (rounds : Rounds topology network)
    (sound : Sound topology applications initial network) (symmetric : Symmetric topology)
    (healthy : (network.hosts receiver).participant.failed = false)
    (front : (network.channels sender receiver).head? = some message)
    (marks : message.marks epoch) :
    (∀ snapshot, (snapshot ∈ network.taken receiver ∨
        (network.hosts receiver).participant.completed = some snapshot) →
      snapshot.epoch ≠ epoch) ∧
    ∀ old, (network.log receiver).Captured old →
      old = epoch ∨ old < epoch ∧ HandedOut topology network old := by
  have link := symmetric.back _ _ (sound.linked_of_front front)
  have unfinished : ∀ snapshot, (snapshot ∈ network.taken receiver ∨
      (network.hosts receiver).participant.completed = some snapshot) →
        snapshot.epoch ≠ epoch := by
    rintro snapshot done rfl
    have closed := (sound.complete_of_done healthy done).closed link
    obtain ⟨event, member, closes⟩ := closed
    exact sound.open_of_front healthy front marks
      ⟨event, (List.dropWhile_suffix _).subset member, closes⟩
  refine ⟨unfinished, ?_⟩
  intro old captured
  have there : (network.log sender).Captured epoch :=
    Log.captured_of_marks (sound.front_outgoing front) marks
  rcases Nat.lt_trichotomy old epoch with less | same | more
  · exact .inr ⟨less, rounds.earlier _ _ old epoch captured there less⟩
  · exact .inl same
  · obtain ⟨snapshot, member, same⟩ :=
      rounds.earlier _ _ epoch old there captured more receiver (mem_topology_of_peer link)
    exact (unfinished snapshot (.inl member) same).elim

end Overlap

/-- Coordinated epochs never overlap. In every run whose initiations follow the rule, `Receive` of
the front message of a channel and an allowed `Initiate` throw only when a snapshot exceeds its
limit. -/
theorem coordinated_epochs_fail_for_limits_only {limit : NodeId → Nat}
    (symmetric : Symmetric topology) (starts : Starts topology limit initial network)
    (calls : List (NodeId × NodeCall Λ))
    (coordinated : Coordinated topology applications calls network) {node : NodeId}
    (healthy : ((Network.run applications calls network).hosts node).participant.failed = false) :
    (∀ peer message text after,
      ((Network.run applications calls network).channels peer node).head? = some message →
      (Participant.receive (applications node).toCallbacks peer message).run
        ((Network.run applications calls network).hosts node) = .error text after →
      text = "snapshot state exceeds limit" ∨ text = "in-flight channel snapshot exceeds limit") ∧
    ∀ epoch text after,
      Allowed topology (Network.run applications calls network) node (.initiate epoch) →
      (Participant.initiate (applications node).toCallbacks epoch).run
        ((Network.run applications calls network).hosts node) = .error text after →
      text = "snapshot state exceeds limit" := by
  have opening : Sound topology applications initial network := Sound.start symmetric starts
  have sound := opening.run calls
  have rounds := (Rounds.start symmetric starts).run opening coordinated
  refine ⟨?_, ?_⟩
  · intro peer message text after front thrown
    have link := symmetric.back _ _ (sound.linked_of_front front)
    have stamped := sound.front_stamped healthy front
    have faithful := sound.faithful node healthy
    have frontier := (faithful.received peer).trans (if_pos link)
    cases kind : message.kind with
    | data =>
      simp only [Stamped, kind] at stamped
      exact .inr (Participant.receive_data_error healthy kind frontier
        (sound.front_room healthy front kind) stamped.1 stamped.2.1 thrown)
    | marker =>
      simp only [Stamped, kind] at stamped
      dsimp only at frontier
      rw [← stamped.1] at frontier
      have marks : message.marks message.epoch := by simp [Message.marks, kind]
      obtain ⟨unfinished, earlier⟩ := rounds.front_epoch sound symmetric healthy front marks
      rcases Participant.receive_marker_error healthy kind frontier stamped.2.1 stamped.2.2.1 thrown
        with size | ⟨_, inactive, unready⟩ | ⟨_, active, overlapping⟩
      · exact .inl size
      · -- Nothing is open, so the epochs of the participant are complete and earlier.
        refine (unready ?_).elim
        have ready := rounds.ready sound (mem_topology_of_peer link) healthy
          (Nat.pos_of_ne_zero stamped.2.2.1) ?_
        · exact ⟨ready.1, ready.2.2⟩
        · intro old captured
          refine (earlier old captured).resolve_left ?_
          rintro rfl
          rcases sound.held node healthy _ captured with (open_ | completed) | handed
          · rw [inactive] at open_
            cases open_
          · obtain ⟨snapshot, complete, same⟩ := Option.map_eq_some_iff.mp completed
            exact unfinished snapshot (.inr complete) same
          · obtain ⟨snapshot, member, same⟩ := handed
            exact unfinished snapshot (.inl member) same
      · -- The open epoch is that of the marker, which has not arrived before.
        refine (overlapping ?_).elim
        obtain ⟨snapshot, open_⟩ := Option.ne_none_iff_exists'.mp active
        obtain ⟨later, recording⟩ := faithful.active snapshot open_
        have same : snapshot.epoch = message.epoch := by
          refine (earlier _ recording.captured).resolve_right ?_
          rintro ⟨_, handed⟩
          obtain ⟨old, member, same⟩ := handed node (mem_topology_of_peer link)
          have := (rounds.aged node healthy).taken old member
          omega
        refine ⟨by rw [open_, Option.map_some, same], ?_⟩
        intro marked
        obtain ⟨event, member, closes⟩ := (recording.closed peer).mp marked
        rw [same] at member closes
        exact sound.open_of_front healthy front marks
          ⟨event, (List.dropWhile_suffix _).subset member, closes⟩
  · intro epoch text after allowed thrown
    refine (Participant.initiate_error healthy thrown).resolve_right ?_
    rintro ⟨_, unready⟩
    obtain ⟨known, positive, fresh, others⟩ := allowed
    refine unready (rounds.ready sound known healthy positive ?_)
    intro old captured
    refine (others node old captured).resolve_left ?_
    rintro rfl
    exact fresh captured

end Network

/-! ## Two refusals -/

/-- The method has thrown. -/
def thrown (result : EStateM.Result String (Host σ) Unit) : Bool :=
  match result with
  | .ok _ _ => false
  | .error _ _ => true

theorem exists_of_thrown {result : EStateM.Result String (Host σ) Unit} (threw : thrown result) :
    ∃ text after, result = .error text after := by
  cases result with
  | ok value after => cases threw
  | error text after => exact ⟨text, after, rfl⟩

/-- Both nodes initiate an epoch of their own. -/
def overlappingCalls : List (NodeId × NodeCall (NodeId × Bytes)) :=
  [(1, .initiate 1), (2, .initiate 2)]

def overlapping : Network Bytes (NodeId × Bytes) :=
  Network.run (fun _ => relaying) overlappingCalls
    (Network.create pairTopology (fun _ => 64) fun _ => [])

/-- The second node refuses the marker of the first. -/
theorem overlapping_throws : ∃ text after,
    (Participant.receive relaying.toCallbacks 1 (Participant.marker 0 1)).run
        (overlapping.hosts 2) = .error text after ∧
      text ∈ ["overlapping/stale snapshot epoch", "overlapping/duplicate marker",
        "snapshot state exceeds limit", "in-flight channel snapshot exceeds limit"] := by
  obtain ⟨text, after, ran⟩ := exists_of_thrown (by decide +kernel :
    thrown ((Participant.receive relaying.toCallbacks 1 (Participant.marker 0 1)).run
      (overlapping.hosts 2)) = true)
  have healthy : (overlapping.hosts 2).participant.failed = false := by decide +kernel
  have front : (overlapping.channels 1 2).head? = some (Participant.marker 0 1) := by
    decide +kernel
  exact ⟨text, after, ran, Network.receive_throws_for_overlap_or_limit pairTopology_symmetric
    crossing_starts overlappingCalls healthy front ran⟩

theorem narrow_starts : Network.Starts pairTopology (fun _ => 1) (fun _ => [])
    (Network.create pairTopology (fun _ => 1) fun _ => [] :
      Network Bytes (NodeId × Bytes)) :=
  Network.create_starts pairTopology_symmetric (fun _ => Nat.zero_lt_one) fun _ => []

/-- The first epoch is handed out by both nodes. Then the second node is given more than its
limit. -/
def narrowCalls : List (NodeId × NodeCall (NodeId × Bytes)) :=
  [(1, .initiate 1), (2, .receive 1), (1, .receive 2), (1, .takeCompleted), (2, .takeCompleted),
    (1, .act (2, [7, 7])), (2, .receive 1)]

def narrow : Network Bytes (NodeId × Bytes) :=
  Network.run (fun _ => relaying) narrowCalls
    (Network.create pairTopology (fun _ => 1) fun _ => [])

theorem narrow_handedOut : Network.HandedOut pairTopology narrow 1 := by
  intro node known
  rcases mem_pairTopology.mp known with rfl | rfl
  · decide +kernel
  · decide +kernel

theorem narrow_coordinated : Network.Coordinated pairTopology (fun _ => relaying) narrowCalls
    (Network.create pairTopology (fun _ => 1) fun _ => []) := by
  refine ⟨⟨by decide +kernel, Nat.zero_lt_one, ?_, ?_⟩, trivial, trivial, trivial, trivial, trivial,
    trivial, trivial⟩
  · simp [Network.log, narrow_starts.history, Log.Captured]
  · intro other old captured
    simp [Network.log, narrow_starts.history, Log.Captured] at captured

theorem narrow_allowed : Network.Allowed pairTopology narrow 2 (.initiate 2) := by
  have opening : Network.Sound pairTopology (fun _ => relaying) (fun _ => []) _ :=
    Network.Sound.start pairTopology_symmetric narrow_starts
  have first (other : NodeId) (epoch : Nat) (captured : (narrow.log other).Captured epoch) :
      epoch = 1 := by
    rcases opening.captured_run captured with ⟨one, before⟩ | ⟨node, initiated⟩
    · rw [Network.log, narrow_starts.history] at before
      simp [Log.Captured] at before
    · exact (by simpa [narrowCalls] using initiated : node = 1 ∧ epoch = 1).2
  refine ⟨by decide +kernel, Nat.zero_lt_two, fun captured => ?_, ?_⟩
  · cases (first 2 2 captured)
  · intro other old captured
    obtain rfl := first other old captured
    exact .inr ⟨Nat.one_lt_two, narrow_handedOut⟩

/-- Its limit is all that stops it from initiating the next epoch. -/
theorem narrow_throws : ∃ text after,
    (Participant.initiate relaying.toCallbacks 2).run (narrow.hosts 2) = .error text after ∧
      text = "snapshot state exceeds limit" := by
  obtain ⟨text, after, ran⟩ := exists_of_thrown (by decide +kernel :
    thrown ((Participant.initiate relaying.toCallbacks 2).run (narrow.hosts 2)) = true)
  have healthy : (narrow.hosts 2).participant.failed = false := by decide +kernel
  have limits := Network.coordinated_epochs_fail_for_limits_only pairTopology_symmetric
    narrow_starts narrowCalls narrow_coordinated healthy
  exact ⟨text, after, ran, limits.2 2 text after narrow_allowed ran⟩

end Stormglass.Snapshot
