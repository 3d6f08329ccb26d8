import Stormglass.SnapshotValidation

/-!
# The recorded state is a state of the computation

Without the markers, the participants are an asynchronous machine: every node has the state of its
application, and the channels hold data packets. The history of a run without failures executes this
machine. The captures of a complete epoch are a consistent cut of the history, so the run could have
been made in another order, in which all events before the captures come first. That run passes
through the captured states with exactly the recorded packets in flight, and ends where the real run
ended.

Restoring the snapshots into new participants takes the same global state and delivers the packets
in flight, each receiver in the order of its records.
-/

namespace Stormglass.Snapshot

open CausalCuts

variable {σ Λ : Type}

/-- The applications on data channels. -/
def computation (applications : NodeId → Application σ Λ) : Machine NodeId (Event Λ) Packet σ where
  sends receiver event := (event.packetTo receiver).toList
  takes sender event := (event.packetFrom sender).toList
  next node := (applications node).next

namespace Network

/-- The states of the applications and the data in flight. -/
def global (network : Network σ Λ) : Global NodeId Packet σ where
  states node := (network.hosts node).state
  flight sender receiver := (network.channels sender receiver).filterMap Message.packet

variable {topology : Topology} {applications : NodeId → Application σ Λ} {initial : NodeId → σ}
  {network after : Network σ Λ} {node sender receiver : NodeId}

theorem takes_eq (sender : NodeId) (events : Log Λ) :
    events.flatMap ((computation applications).takes sender) = Log.receivedFrom sender events :=
  (List.filterMap_eq_flatMap_toList _ _).symm

theorem sends_eq (receiver : NodeId) (events : Log Λ) :
    events.flatMap ((computation applications).sends receiver) = Log.sentTo receiver events :=
  (List.filterMap_eq_flatMap_toList _ _).symm

theorem sent_events (events : Log Λ) (sender receiver : NodeId) :
    sent (computation applications).toExchange sender receiver
        (events.map fun event => (node, event)) =
      if sender = node then Log.sentTo receiver events else [] := by
  rw [sent, own_map]
  split
  · exact sends_eq receiver events
  · rfl

theorem taken_events (events : Log Λ) (sender receiver : NodeId) :
    CausalCuts.taken (computation applications).toExchange sender receiver
        (events.map fun event => (node, event)) =
      if receiver = node then Log.receivedFrom sender events else [] := by
  rw [CausalCuts.taken, own_map]
  split
  · exact takes_eq sender events
  · rfl

/-- A call cannot heal a participant. -/
theorem failed_call (outbox : (network.hosts node).outbox = []) (application : Application σ Λ)
    (request : NodeCall Λ) {other : NodeId}
    (failed : (network.hosts other).participant.failed = true) :
    ((Network.call application node network request).hosts other).participant.failed = true := by
  cases call_effect application outbox request with
  | silent same =>
    rw [same]
    exact failed
  | thrown host lost broken outbox hosts channels taken history =>
    rw [hosts]
    by_cases here : other = node
    · subst here
      rw [Function.update_self]
      exact broken
    · rw [Function.update_of_ne here]
      exact failed
  | returned host events returns hosts channels taken history =>
    rw [hosts]
    by_cases here : other = node
    · subst here
      rw [Function.update_self]
      exact returns.failed.trans failed
    · rw [Function.update_of_ne here]
      exact failed
  | handed snapshot healthy completed hosts channels taken history =>
    rw [hosts]
    by_cases here : other = node
    · subst here
      rw [Function.update_self]
      exact failed
    · rw [Function.update_of_ne here]
      exact failed

section

variable (sound : Sound topology applications initial network)

include sound

/-- A run that ends without failures has had none. -/
theorem Sound.healthy_of_run {calls : List (NodeId × NodeCall Λ)} {other : NodeId}
    (healthy : ((Network.run applications calls network).hosts other).participant.failed = false) :
    (network.hosts other).participant.failed = false := by
  induction calls generalizing network with
  | nil => exact healthy
  | cons entry rest inductionHypothesis =>
    have later := inductionHypothesis (sound.call entry.1 entry.2) healthy
    by_contra failed
    have stays := failed_call (sound.outbox entry.1) (applications entry.1) entry.2
      (by simpa using failed)
    rw [stays] at later
    cases later

/-- A call that does not throw continues the execution. -/
theorem Sound.executes_call (symmetric : Symmetric topology) {start : Global NodeId Packet σ}
    (executes : (computation applications).Executes start network.history network.global)
    (request : NodeCall Λ) (healthy :
      ((Network.call (applications node) node network request).hosts node).participant.failed =
      false) :
    (computation applications).Executes start
      (Network.call (applications node) node network request).history
      (Network.call (applications node) node network request).global := by
  have next := sound.call node request
  cases call_effect (applications node) (sound.outbox node) request with
  | silent same =>
    rw [same]
    exact executes
  | thrown host lost broken outbox hosts channels taken history =>
    rw [hosts, Function.update_self, broken] at healthy
    cases healthy
  | returned host events returns hosts channels taken history =>
    rw [history]
    refine executes.extend ?_ ?_ ?_ ?_
    · intro event member
      have known := (next.orderly node).known event (by
        rw [log_append history, if_pos rfl]
        exact List.mem_append_right _ member)
      cases event with
      | received peer packet =>
        have apart : peer ≠ node := by
          rintro rfl
          exact symmetric.foreign peer known
        simp [computation, Event.packetFrom, apart]
      | acted | captured | closed => rfl
    · simp only [global, hosts, Function.update_self]
      exact returns.moves
    · intro other different
      simp only [global, hosts, Function.update_of_ne different]
    · intro sender receiver
      have flows := congrArg (List.filterMap Message.packet) (channels sender receiver)
      rw [List.filterMap_append, List.filterMap_append] at flows
      rw [taken_events, sent_events, ← Log.packets_consumed, ← Log.packets_outgoing]
      simp only [global]
      convert flows using 2
      · split <;> rfl
      · split <;> rfl
  | handed snapshot working completed hosts channels taken history =>
    have same : (Network.call (applications node) node network request).global =
      network.global := by
      simp only [global, channels, hosts]
      congr 1
      funext other
      by_cases here : other = node
      · subst here
        rw [Function.update_self]
      · rw [Function.update_of_ne here]
    rw [history, same]
    exact executes

/-- The history of a run without failures executes the computation. -/
theorem Sound.executes_run (symmetric : Symmetric topology) {start : Global NodeId Packet σ}
    (executes : (computation applications).Executes start network.history network.global)
    (calls : List (NodeId × NodeCall Λ)) (healthy : ∀ node,
      ((Network.run applications calls network).hosts node).participant.failed = false) :
    (computation applications).Executes start (Network.run applications calls network).history
      (Network.run applications calls network).global := by
  induction calls generalizing network with
  | nil => exact executes
  | cons entry rest inductionHypothesis =>
    have next := sound.call entry.1 entry.2
    refine inductionHypothesis next ?_ healthy
    exact sound.executes_call symmetric executes entry.2 (next.healthy_of_run (healthy entry.1))

end

variable {snapshots : NodeId → LocalSnapshot} {epoch : Nat}

/-- A node that is no peer has sent nothing that was received. -/
theorem Sound.received_nil (sound : Sound topology applications initial network)
    (unlinked : sender ∉ peersOf topology receiver) {part : Log Λ}
    (begins : part <+: network.log receiver) : Log.receivedFrom sender part = [] := by
  refine List.filterMap_eq_nil_iff.mpr ?_
  intro event member
  have known := (sound.orderly receiver).known event (begins.subset member)
  cases event with
  | received peer packet =>
    refine if_neg ?_
    rintro rfl
    exact unlinked known
  | acted | captured | closed => rfl

/-- The captures of a complete epoch are a consistent cut of the history. -/
theorem Sound.consistent (sound : Sound topology applications initial network)
    (symmetric : Symmetric topology)
    (produced : ∀ node ∈ topology,
      snapshots node ∈ network.taken node ∧ (snapshots node).epoch = epoch) :
    Consistent (computation applications).toExchange
      (fun node => ((network.log node).before epoch).length) network.history := by
  have part (node : NodeId) :
      (own node network.history).take ((network.log node).before epoch).length =
        (network.log node).before epoch :=
    (List.prefix_iff_eq_take.mp (Log.before_begins _ _)).symm
  intro sender receiver
  rw [part, part]
  rw [takes_eq, sends_eq]
  by_cases linked : sender ∈ peersOf topology receiver
  · have inside : receiver ∈ topology := mem_topology_of_peer linked
    have back := symmetric.back receiver sender linked
    have other : sender ∈ topology := mem_topology_of_peer back
    have cut := sound.cut symmetric back (produced sender other).1 (produced receiver inside).1
      ((produced sender other).2.trans (produced receiver inside).2.symm)
    rw [(produced receiver inside).2] at cut
    exact ⟨_, cut⟩
  · rw [sound.received_nil linked (Log.before_begins _ _)]
    exact List.nil_prefix

/-- The state of the computation after a complete node's cut. -/
theorem state_of_locally {application : Application σ Λ} {state final : σ} {events : Log Λ}
    (moved : events.foldlM application.next state = some final) :
    final = Log.state application state events := by
  induction events generalizing state with
  | nil => exact (Option.some.inj moved).symm
  | cons event rest inductionHypothesis =>
    rw [List.foldlM_cons] at moved
    obtain ⟨middle, first, later⟩ := Option.bind_eq_some_iff.mp moved
    have step : middle = event.apply application state := by
      cases event with
      | acted label message =>
        simp only [Application.next] at first
        split at first
        · exact (Option.some.inj first).symm
        · cases first
      | received | captured | closed => exact (Option.some.inj first).symm
    rw [inductionHypothesis later, step]
    rfl

/-- The recorded state can be restored. Every application is recovered from its captured state, and
`Restore` on a new participant of the node throws nothing and delivers the packets that were in
flight, in the order of the records. Both ends of every channel then agree on the number of
messages, which is the number sent before the sender's capture. -/
theorem Sound.restores (sound : Sound topology applications initial network)
    (symmetric : Symmetric topology) {bound : NodeId → Nat} (positive : ∀ node, 0 < bound node)
    {recover : NodeId → Bytes → σ}
    (recovers : ∀ node state, recover node ((applications node).capture state) = state)
    (produced : ∀ node ∈ topology,
      snapshots node ∈ network.taken node ∧ (snapshots node).epoch = epoch) :
    ∃ hosts : NodeId → Host σ, ∀ node ∈ topology,
      restoreNode topology (fun node => (applications node).toCallbacks) bound
          (fun node => recover node (snapshots node).state) (snapshots node) = .ok (hosts node) ∧
        (hosts node).participant.lastEpoch = epoch ∧
        (hosts node).state =
          Participant.delivered (applications node).toCallbacks (snapshots node).channels
            (Log.state (applications node) (initial node) ((network.log node).before epoch)) ∧
        ∀ peer ∈ peersOf topology node, ∃ count,
          count = (Log.sentTo peer ((network.log node).before epoch)).length ∧
          (hosts node).participant.sent[peer]? = some count ∧
          (hosts peer).participant.received[node]? = some count := by
  have named (node : NodeId) (known : node ∈ topology) : (snapshots node).node = node := by
    obtain ⟨_, _, recording⟩ := sound.complete node _ (produced node known).1
    exact recording.node
  have restores (node : NodeId) : ∃ host, node ∈ topology →
      restoreNode topology (fun node => (applications node).toCallbacks) bound
          (fun node => recover node (snapshots node).state) (snapshots node) = .ok host ∧
        RestoredAs (fun node => (applications node).toCallbacks) bound
          (fun node => recover node (snapshots node).state) (snapshots node) host := by
    by_cases known : node ∈ topology
    · have nonempty : topology.isEmpty = false := by
        rw [Bool.eq_false_iff]
        intro none
        rw [Std.ExtTreeMap.isEmpty_iff.mp none] at known
        exact Std.ExtTreeMap.not_mem_empty known
      obtain ⟨common, nodes, later, _, placed⟩ := place_of_valid
        (sound.validates symmetric nonempty produced (List.Perm.refl _))
      obtain ⟨same, _, peers, next, found, accepted⟩ := placed (snapshots node)
        (List.mem_map_of_mem (Std.ExtTreeMap.mem_keys.mpr known))
      obtain ⟨host, ran, restored⟩ := restoreNode_ok
        (fun node => (applications node).toCallbacks) bound
        (fun node => recover node (snapshots node).state) (positive _) found accepted
        (same ▸ later)
      exact ⟨host, fun _ => ⟨ran, restored⟩⟩
    · exact ⟨(network.hosts node), fun inside => (known inside).elim⟩
  choose hosts restored using restores
  refine ⟨hosts, ?_⟩
  intro node known
  obtain ⟨ran, atNode⟩ := restored node known
  have produced_ := produced node known
  obtain ⟨_, _, recording⟩ := sound.complete node _ produced_.1
  refine ⟨ran, atNode.epoch.trans produced_.2, ?_, ?_⟩
  · rw [atNode.state, named node known, recording.state, recovers, produced_.2]
  · intro peer linked
    have back := symmetric.back node peer linked
    have other : peer ∈ topology := mem_topology_of_peer back
    have cut := sound.cut symmetric linked produced_.1 (produced peer other).1
      (produced_.2.trans (produced peer other).2.symm)
    have markers := (sound.complete peer _ (produced peer other).1).markers node
    rw [if_pos back] at markers
    rw [(produced peer other).2] at cut markers
    refine ⟨_, rfl, ?_, ?_⟩
    · rw [atNode.sent, recording.sent, if_pos linked, produced_.2]
    · rw [(restored peer other).2.received, markers, ← cut]

/-- The recorded global state is one that the computation could have passed through. The run can be
made in another order: every participant keeps the order of its events, all that happened before the
captures of the epoch comes first, and both parts execute the computation. Between them every
application is in its captured state and every channel holds exactly the recorded packets. The
reordered run ends in the state of the real one.

From the captured states `Restore` on new participants reaches the state in which every application
has been delivered its packets in flight, in the order of its records, and both ends of every
channel have the same count. -/
theorem recorded_state_is_reachable {limit : NodeId → Nat} (symmetric : Symmetric topology)
    (starts : Starts topology limit initial network) (calls : List (NodeId × NodeCall Λ))
    (healthy : ∀ node,
      ((Network.run applications calls network).hosts node).participant.failed = false)
    (produced : ∀ node ∈ topology,
      snapshots node ∈ (Network.run applications calls network).taken node ∧
        (snapshots node).epoch = epoch) :
    ∃ (first last : List (NodeId × Event Λ)) (middle : Global NodeId Packet σ),
      (first ++ last).Perm (Network.run applications calls network).history ∧
      (∀ node, own node (first ++ last) = (Network.run applications calls network).log node) ∧
      (∀ node, own node first = ((Network.run applications calls network).log node).before epoch) ∧
      (computation applications).Executes network.global first middle ∧
      (computation applications).Executes middle last
        (Network.run applications calls network).global ∧
      (∀ node ∈ topology,
        (snapshots node).state = (applications node).capture (middle.states node)) ∧
      (∀ sender receiver, receiver ∈ peersOf topology sender →
        middle.flight sender receiver = Log.packetsOf sender (snapshots receiver).channels) ∧
      ∀ (bound : NodeId → Nat) (recover : NodeId → Bytes → σ), (∀ node, 0 < bound node) →
        (∀ node state, recover node ((applications node).capture state) = state) →
        ∃ hosts : NodeId → Host σ, ∀ node ∈ topology,
          restoreNode topology (fun node => (applications node).toCallbacks) bound
              (fun node => recover node (snapshots node).state) (snapshots node) =
            .ok (hosts node) ∧
          (hosts node).participant.lastEpoch = epoch ∧
          (hosts node).state = Participant.delivered (applications node).toCallbacks
            (snapshots node).channels (middle.states node) ∧
          ∀ peer ∈ peersOf topology node, ∃ count,
            count = (Log.sentTo peer (own node first)).length ∧
            (hosts node).participant.sent[peer]? = some count ∧
            (hosts peer).participant.received[node]? = some count := by
  have opening : Sound topology applications initial network := Sound.start symmetric starts
  have sound := opening.run calls
  have started : (computation applications).Executes network.global network.history
      network.global := by
    rw [starts.history]
    exact .nil
  have executes := opening.executes_run symmetric started calls healthy
  have empty (sender receiver : NodeId) : network.global.flight sender receiver = [] := by
    simp [global, starts.channels]
  obtain ⟨middle, first, last⟩ :=
    executes.reorder empty (sound.consistent symmetric produced)
  have before (node : NodeId) := (own_cut (fun node =>
    (((Network.run applications calls network).log node).before epoch).length) node
      (Network.run applications calls network).history).1.trans
    (List.prefix_iff_eq_take.mp (Log.before_begins _ _)).symm
  obtain ⟨_, moved, flight⟩ := Machine.executes_iff.mp first
  have captured (node : NodeId) : middle.states node = Log.state (applications node) (initial node)
      (((Network.run applications calls network).log node).before epoch) := by
    have reached := moved node
    rw [before] at reached
    rw [state_of_locally reached]
    exact congrArg (Log.state _ · _) (starts.state node)
  refine ⟨_, _, middle, reorder_perm _ _, fun node => own_reorder _ node _, before, first, last,
    ?_, ?_, ?_⟩
  · intro node known
    obtain ⟨_, _, recording⟩ := sound.complete node _ (produced node known).1
    rw [captured, recording.state, (produced node known).2]
  · intro sender receiver linked
    have inside : sender ∈ topology := mem_topology_of_peer linked
    have other : receiver ∈ topology :=
      mem_topology_of_peer (symmetric.back sender receiver linked)
    have cut := sound.cut symmetric linked (produced sender inside).1 (produced receiver other).1
      ((produced sender inside).2.trans (produced receiver other).2.symm)
    have flows := flight sender receiver
    rw [empty, List.nil_append, CausalCuts.taken, CausalCuts.sent, before, before, takes_eq,
      sends_eq] at flows
    rw [(produced receiver other).2, ← flows] at cut
    exact (List.append_cancel_left cut).symm
  · intro bound recover positive recovers
    obtain ⟨hosts, restored⟩ := sound.restores symmetric positive recovers produced
    refine ⟨hosts, fun node known => ?_⟩
    rw [captured, before]
    exact restored node known

end Network

/-! ## The message that crosses a marker -/

theorem crossing_healthy (node : NodeId) :
    (crossing.hosts node).participant.failed = false := by
  by_cases one : node = 1
  · subst one
    decide +kernel
  by_cases two : node = 2
  · subst two
    decide +kernel
  -- The other nodes make no call.
  have opening : Network.Sound pairTopology (fun _ => relaying) (fun _ => []) _ :=
    Network.Sound.start pairTopology_symmetric crossing_starts
  have elsewhere : ∀ entry ∈ crossingCalls, node ≠ entry.1 := by simp [crossingCalls, one, two]
  have same : crossing.hosts node = _ := opening.run_hosts elsewhere
  rw [same]
  exact (crossing_starts.fresh pairTopology_symmetric node).healthy

/-- Reordered, the crossing run has the message in flight between its two parts. Restored from
there, the second node gets it back. -/
theorem crossing_is_reachable : ∃ (first last : List (NodeId × Event (NodeId × Bytes)))
    (middle : Global NodeId Packet Bytes) (hosts : NodeId → Host Bytes),
    (first ++ last).Perm crossing.history ∧
      (computation fun _ => relaying).Executes middle last crossing.global ∧
      middle.flight 1 2 = [⟨1, [7]⟩] ∧
      restoreNode pairTopology (fun _ => relaying.toCallbacks) (fun _ => 64)
        (fun node => (pairSnapshot node).state) secondOfPair = .ok (hosts 2) ∧
      (hosts 2).state = middle.states 2 ++ [7] := by
  obtain ⟨first, last, middle, permuted, _, _, _, ends, _, flight, restores⟩ :=
    Network.recorded_state_is_reachable pairTopology_symmetric crossing_starts crossingCalls
      crossing_healthy crossing_produces
  obtain ⟨hosts, restored⟩ := restores (fun _ => 64) (fun _ saved => saved)
    (fun _ => Nat.zero_lt_succ 63) fun _ _ => rfl
  obtain ⟨ran, _, state, _⟩ := restored 2 (by decide +kernel)
  exact ⟨first, last, middle, hosts, permuted, ends, flight 1 2 (by decide +kernel), ran, state⟩

end Stormglass.Snapshot
