import Stormglass.SnapshotReordering

/-!
# A drained epoch is complete

A capture puts a marker on every channel of its node. Once the channels are empty the markers have
arrived, so the peers have captured as well, and along the links every node that the first capture
reaches has captured and has all its markers. Such a node is not waiting any more: it has handed out
its snapshot of the epoch, or holds it complete.
-/

namespace Stormglass.Snapshot

variable {σ Λ : Type}

/-- A capture puts a marker on the channel to every peer. -/
theorem Log.marker_of_captured {peers : List NodeId} {log : Log Λ} {peer : NodeId} {epoch : Nat}
    (orderly : Orderly peers log) (captured : log.Captured epoch) (linked : peer ∈ peers) :
    ∃ message ∈ outgoing peer log, message.marks epoch := by
  obtain ⟨event, member, captures⟩ := captured
  obtain ⟨sent, rfl⟩ := Event.captures_iff.mp captures
  obtain ⟨count, counted⟩ : ∃ count, sent[peer]? = some count :=
    Option.isSome_iff_exists.mp
      (Std.ExtTreeMap.mem_iff_isSome_getElem?.mp ((orderly.announced member peer).mpr linked))
  refine ⟨Participant.marker count epoch, ?_, by simp [Message.marks, Participant.marker]⟩
  refine List.mem_filterMap.mpr ⟨(peer, Participant.marker count epoch), ?_, if_pos rfl⟩
  refine List.mem_flatMap.mpr ⟨.captured epoch sent, member, List.mem_map.mpr ?_⟩
  exact ⟨(peer, count), Std.ExtTreeMap.mem_toList_iff_getElem?_eq_some.mpr counted, rfl⟩

/-- Messages go to peers only. -/
theorem Log.outgoing_nil {peers : List NodeId} {log : Log Λ} {peer : NodeId}
    (orderly : Orderly peers log) (unlinked : peer ∉ peers) : outgoing peer log = [] := by
  induction orderly with
  | nil => rfl
  | @snoc log event earlier fits inductionHypothesis =>
    rw [outgoing_append, inductionHypothesis, List.nil_append]
    refine List.filterMap_eq_nil_iff.mpr ?_
    intro entry member
    refine if_neg ?_
    rintro rfl
    rw [List.flatMap_singleton] at member
    cases event with
    | acted label message =>
      cases message with
      | none => cases member
      | some sent =>
        obtain rfl := List.mem_singleton.mp member
        exact unlinked fits.1
    | captured epoch sent =>
      obtain ⟨counter, listed, rfl⟩ := List.mem_map.mp member
      have entered : counter.1 ∈ sent := Participant.mem_of_counter
        (Std.ExtTreeMap.mem_toList_iff_getElem?_eq_some.mp listed)
      have last : .captured epoch sent ∈ log ++ [.captured epoch sent] := by simp
      exact unlinked (((earlier.snoc fits).announced last counter.1).mp entered)
    | received | closed => cases member

namespace Network

variable {topology : Topology} {applications : NodeId → Application σ Λ} {initial : NodeId → σ}
  {network : Network σ Λ} {epoch : Nat}

section

variable (sound : Sound topology applications initial network) {sender receiver : NodeId}

include sound

/-- There are no channels but those of the topology. -/
theorem Sound.channel_nil (unlinked : receiver ∉ peersOf topology sender) :
    network.channels sender receiver = [] := by
  obtain ⟨lost, _, flows⟩ := sound.wired sender receiver
  rw [Log.outgoing_nil (sound.orderly sender) unlinked] at flows
  exact (List.append_eq_nil_iff.mp (List.append_eq_nil_iff.mp flows).2).2

/-- An empty channel has delivered everything to a healthy receiver. -/
theorem Sound.drained (empty : network.channels sender receiver = [])
    (healthy : (network.hosts receiver).participant.failed = false) :
    Log.consumed sender (network.log receiver) = Log.outgoing receiver (network.log sender) := by
  obtain ⟨lost, none, flows⟩ := sound.wired sender receiver
  rw [none healthy, empty, List.append_nil, List.append_nil] at flows
  exact flows

/-- The marker of a captured epoch has closed the drained channel to a peer. -/
theorem Sound.closed_of_drained (linked : receiver ∈ peersOf topology sender)
    (empty : network.channels sender receiver = [])
    (healthy : (network.hosts receiver).participant.failed = false)
    (captured : (network.log sender).Captured epoch) :
    Log.Closed sender epoch (network.log receiver) := by
  obtain ⟨message, member, marks⟩ := Log.marker_of_captured (sound.orderly sender) captured linked
  rw [← sound.drained empty healthy] at member
  exact Log.closed_of_marks member marks

end

/-- What is closed in an orderly log is closed after the capture. -/
theorem closed_after {peers : List NodeId} {log : Log Λ} {peer : NodeId}
    (orderly : Orderly peers log) (closed : Log.Closed peer epoch log) :
    Log.Closed peer epoch (log.after epoch) := by
  rw [← Log.before_append_after epoch log, Log.closed_append] at closed
  exact closed.resolve_left (orderly.opened peer epoch)

/-- A participant with all its markers does not wait. -/
theorem Sound.inactive_of_closed (sound : Sound topology applications initial network)
    (symmetric : Symmetric topology) {node : NodeId}
    (healthy : (network.hosts node).participant.failed = false)
    (closed : ∀ peer ∈ peersOf topology node, Log.Closed peer epoch (network.log node))
    (open_ : (network.hosts node).participant.active.map LocalSnapshot.epoch = some epoch) :
    False := by
  obtain ⟨snapshot, active, rfl⟩ := Option.map_eq_some_iff.mp open_
  have faithful := sound.faithful node healthy
  obtain ⟨_, recording⟩ := faithful.active snapshot active
  have all (peer : NodeId) : peer ∈ (network.hosts node).participant.marked.toList ↔
      peer ∈ peersOf topology node := by
    rw [Std.ExtTreeSet.mem_toList]
    refine ⟨recording.known peer, fun linked => (recording.closed peer).mpr ?_⟩
    exact closed_after (sound.orderly node) (closed peer linked)
  have distinct : (network.hosts node).participant.marked.toList.Nodup :=
    Std.ExtTreeSet.distinct_toList.imp fun different same => different (by
      rw [same]
      exact Std.ReflOrd.compare_self)
  have size := ((List.perm_ext_iff_of_nodup distinct (symmetric.distinct node)).mpr all).length_eq
  rw [Std.ExtTreeSet.length_toList, ← faithful.size] at size
  exact (sound.settled node healthy).waiting (by simp [active]) size

/-- The snapshot protocol terminates. When no participant has failed and the channels are empty,
every node that is linked to a capture of the epoch, directly or through others, has a complete
snapshot of it: `TakeCompleted` has returned it or will. -/
theorem drained_epoch_completes {limit : NodeId → Nat} (symmetric : Symmetric topology)
    (starts : Starts topology limit initial network) (calls : List (NodeId × NodeCall Λ))
    (healthy : ∀ node,
      ((Network.run applications calls network).hosts node).participant.failed = false)
    (drained : ∀ sender receiver,
      (Network.run applications calls network).channels sender receiver = [])
    {origin node : NodeId}
    (captured : ((Network.run applications calls network).log origin).Captured epoch)
    (linked : Relation.ReflTransGen (fun one other => other ∈ peersOf topology one) origin node) :
    ∃ snapshot, snapshot.epoch = epoch ∧
      (snapshot ∈ (Network.run applications calls network).taken node ∨
        ((Network.run applications calls network).hosts node).participant.completed =
          some snapshot) := by
  have sound : Sound topology applications initial (Network.run applications calls network) :=
    (Sound.start symmetric starts).run calls
  have spreads {one other : NodeId}
      (captured : ((Network.run applications calls network).log one).Captured epoch)
      (link : other ∈ peersOf topology one) :
      Log.Closed one epoch ((Network.run applications calls network).log other) :=
    sound.closed_of_drained link (drained one other) (healthy other) captured
  have reached : ((Network.run applications calls network).log node).Captured epoch := by
    induction linked with
    | refl => exact captured
    | tail _ link inductionHypothesis =>
      exact (sound.orderly _).captured_of_closed (spreads inductionHypothesis link)
  -- The captures of the node's peers have closed its channels.
  have closed : ∀ peer ∈ peersOf topology node,
      Log.Closed peer epoch ((Network.run applications calls network).log node) := by
    intro peer link
    have there := (sound.orderly peer).captured_of_closed (spreads reached link)
    exact spreads there (symmetric.back node peer link)
  rcases sound.held node (healthy node) epoch reached with (active | completed) | handed
  · exact (sound.inactive_of_closed symmetric (healthy node) closed active).elim
  · obtain ⟨snapshot, complete, same⟩ := Option.map_eq_some_iff.mp completed
    exact ⟨snapshot, same, .inr complete⟩
  · obtain ⟨snapshot, member, same⟩ := handed
    exact ⟨snapshot, same, .inl member⟩

end Network

theorem crossing_drained (sender receiver : NodeId) : crossing.channels sender receiver = [] := by
  have sound : Network.Sound pairTopology (fun _ => relaying) (fun _ => []) crossing :=
    (Network.Sound.start pairTopology_symmetric crossing_starts).run crossingCalls
  by_cases linked : receiver ∈ peersOf pairTopology sender
  · rw [pairTopology_peers] at linked
    split at linked
    · next here =>
      subst here
      rw [List.mem_singleton.mp linked]
      decide +kernel
    · split at linked
      · next here =>
        subst here
        rw [List.mem_singleton.mp linked]
        decide +kernel
      · cases linked
  · exact sound.channel_nil linked

/-- The first node has its snapshot when the channels are empty. -/
theorem crossing_completes : ∃ snapshot, snapshot.epoch = 1 ∧
    (snapshot ∈ crossing.taken 1 ∨ (crossing.hosts 1).participant.completed = some snapshot) := by
  have captured : (crossing.log 2).any (Event.captures 1) = true := by decide +kernel
  exact Network.drained_epoch_completes pairTopology_symmetric crossing_starts crossingCalls
    crossing_healthy crossing_drained (List.any_eq_true.mp captured)
    (.single (by decide +kernel))

end Stormglass.Snapshot
