import Stormglass.SnapshotLoads

/-!
# Validated snapshots can be restored

`ValidateGlobal` and `Participant::Restore` check a snapshot independently. The
validator walks the saved channel records of every node over a copy of its counters;
`Restore` walks them again over the counters of a live participant and compares the
result with the marker sequences. The two walks take the same steps, so what the
validator accepts is restored without an exception, and the counters of both ends of
every channel agree afterwards.
-/

namespace Stormglass.Snapshot

/-! ## Keys -/

/-- A map with as many keys as a set has members, and all of them, has no other keys. -/
theorem mem_iff_of_size {α : Type} {map : Std.ExtTreeMap NodeId α}
    {expected : Std.ExtTreeSet NodeId} (sizes : map.size = expected.size)
    (held : ∀ peer ∈ expected, peer ∈ map) (peer : NodeId) : peer ∈ map ↔ peer ∈ expected := by
  have distinct : expected.toList.Nodup :=
    expected.distinct_toList.imp fun different same => different (by
      rw [same]
      exact Std.ReflOrd.compare_self)
  have within : expected.toList ⊆ map.keys := by
    intro listed member
    rw [Std.ExtTreeMap.mem_keys]
    exact held listed (Std.ExtTreeSet.mem_toList.mp member)
  have rearranged : expected.toList.Perm map.keys := by
    apply (distinct.subperm within).perm_of_length_le
    rw [Std.ExtTreeMap.length_keys, Std.ExtTreeSet.length_toList, sizes]
  rw [← Std.ExtTreeMap.mem_keys, ← rearranged.mem_iff, Std.ExtTreeSet.mem_toList]

/-- A list whose set is as large as the list has no duplicates. -/
theorem nodup_of_size {peers : List NodeId}
    (sizes : (Std.ExtTreeSet.ofList peers : Std.ExtTreeSet NodeId).size = peers.length) :
    peers.Nodup := by
  have distinct : (Std.ExtTreeSet.ofList peers : Std.ExtTreeSet NodeId).toList.Nodup :=
    Std.ExtTreeSet.distinct_toList.imp fun different same => different (by
      rw [same]
      exact Std.ReflOrd.compare_self)
  have within : (Std.ExtTreeSet.ofList peers : Std.ExtTreeSet NodeId).toList ⊆ peers := by
    intro listed member
    simpa using Std.ExtTreeSet.mem_toList.mp member
  have rearranged := (distinct.subperm within).perm_of_length_le (by
    rw [Std.ExtTreeSet.length_toList, sizes])
  exact rearranged.nodup_iff.mp distinct

/-! ## What the validator has checked -/

/-- Walking the saved records changes no key. -/
theorem mem_of_replayedCounters {expected : Std.ExtTreeSet NodeId} {received next : Counters}
    {channels : List ChannelRecord}
    (replayed : replayedCounters expected received channels = .ok next) (peer : NodeId) :
    peer ∈ next ↔ peer ∈ received := by
  refine foldlM_ok (fun _ (counters : Counters) => peer ∈ counters ↔ peer ∈ received) ?_ Iff.rfl
    replayed
  intro done before saved after same step
  obtain ⟨_, known, step⟩ := bind_ok.mp step
  obtain ⟨frontier, found, step⟩ := bind_ok.mp step
  obtain ⟨_, _, ⟨⟩⟩ := bind_ok.mp step
  rw [Std.ExtTreeMap.mem_insert, Std.LawfulEqOrd.compare_eq_iff_eq, ← same]
  constructor
  · rintro (rfl | member)
    · exact (require_ok.mp known).2
    · exact member
  · exact Or.inr

/-- The snapshots are filed under their nodes. -/
theorem of_collectNodes {epoch : Nat} {topology : Topology} {snapshots : List LocalSnapshot}
    {nodes : Std.ExtTreeMap NodeId LocalSnapshot}
    (collected : collectNodes epoch topology snapshots = .ok nodes) {node : NodeId}
    {snapshot : LocalSnapshot} (found : nodes[node]? = some snapshot) :
    snapshot ∈ snapshots ∧ snapshot.node = node ∧ snapshot.epoch = epoch := by
  have filed := foldlM_ok (fun done (nodes : Std.ExtTreeMap NodeId LocalSnapshot) =>
    ∀ node snapshot, nodes[node]? = some snapshot →
      snapshot ∈ done ∧ snapshot.node = node ∧ snapshot.epoch = epoch) ?_ ?_ collected
  · exact filed node snapshot found
  · intro done before item after filed step node snapshot found
    obtain ⟨_, checked, ⟨⟩⟩ := bind_ok.mp step
    simp only [Std.ExtTreeMap.getElem?_insert, Std.LawfulEqOrd.compare_eq_iff_eq] at found
    split at found
    · next own =>
      obtain rfl := Option.some.inj found
      exact ⟨by simp, own, (require_ok.mp checked).1⟩
    · obtain ⟨listed, rest⟩ := filed node snapshot found
      exact ⟨List.mem_append_left _ listed, rest⟩
  · intro node snapshot found
    simp at found

/-- What the validator knows of the snapshot of one node. `next` are the counters
after its channel records. -/
structure Accepted (nodes : Std.ExtTreeMap NodeId LocalSnapshot) (node : NodeId)
    (peers : List NodeId) (snapshot : LocalSnapshot) (next : Counters) : Prop where
  distinct : peers.Nodup
  foreign : node ∉ peers
  sizes : snapshot.received.size = peers.length ∧ snapshot.sent.size = peers.length ∧
    snapshot.markerSequences.size = peers.length
  received : ∀ peer, peer ∈ snapshot.received ↔ peer ∈ peers
  sent : ∀ peer, peer ∈ snapshot.sent ↔ peer ∈ peers
  markers : next = snapshot.markerSequences
  replayed : replayedCounters (Std.ExtTreeSet.ofList peers) snapshot.received snapshot.channels =
    .ok next
  senders : ∀ peer ∈ peers, ∃ sender : LocalSnapshot, nodes[peer]? = some sender ∧
    node ∈ sender.sent ∧
    sender.sent[node]? = next[peer]?

theorem forM_ok {α : Type} {items : List α} {body : α → Except String Unit} :
    items.forM body = .ok () ↔ ∀ item ∈ items, body item = .ok () := by
  induction items with
  | nil => exact ⟨fun _ => by simp, fun _ => rfl⟩
  | cons first rest inductionHypothesis =>
    have unrolled : (first :: rest).forM body = (body first >>= fun _ => rest.forM body) := rfl
    rw [unrolled, bind_ok, List.forall_mem_cons, ← inductionHypothesis]
    constructor
    · rintro ⟨_, head, tail⟩
      exact ⟨head, tail⟩
    · rintro ⟨head, tail⟩
      exact ⟨(), head, tail⟩

theorem validateChannel_ok {nodes : Std.ExtTreeMap NodeId LocalSnapshot} {node peer : NodeId}
    {snapshot : LocalSnapshot} {next : Counters}
    (valid : validateChannel nodes node snapshot next peer = .ok ()) :
    peer ∈ snapshot.sent ∧ peer ∈ next ∧ peer ∈ snapshot.markerSequences ∧
      next[peer]? = snapshot.markerSequences[peer]? ∧
      ∃ sender : LocalSnapshot, nodes[peer]? = some sender ∧ node ∈ sender.sent ∧
        sender.sent[node]? = next[peer]? := by
  simp only [validateChannel, bind_ok, require_ok, lookup_ok] at valid
  obtain ⟨_, ⟨_, sending, counted, marked⟩, sender, known, _, ⟨symmetric, _⟩, sent, sentHere,
    frontier, reached, marker, closed, same, last⟩ := valid
  refine ⟨sending, counted, marked, ?_, sender, known, symmetric, ?_⟩
  · rw [reached, closed, last]
  · rw [sentHere, reached, same]

theorem validateNode_ok {nodes : Std.ExtTreeMap NodeId LocalSnapshot} {node : NodeId}
    {peers : List NodeId} (valid : validateNode nodes node peers = .ok ()) :
    ∃ snapshot next, nodes[node]? = some snapshot ∧ Accepted nodes node peers snapshot next := by
  simp only [validateNode, bind_ok, require_ok, lookup_ok] at valid
  obtain ⟨snapshot, found, _, ⟨whole, foreign⟩, _, ⟨received, sent, markers⟩, next, replayed,
    channels⟩ := valid
  have listed (peer : NodeId) : peer ∈ (Std.ExtTreeSet.ofList peers : Std.ExtTreeSet NodeId) ↔
      peer ∈ peers := by simp
  have channel (peer : NodeId) (member : peer ∈ (Std.ExtTreeSet.ofList peers :
      Std.ExtTreeSet NodeId)) := validateChannel_ok
    (forM_ok.mp channels _ (Std.ExtTreeSet.mem_toList.mpr member))
  have receiving := mem_iff_of_size received fun peer member =>
    (mem_of_replayedCounters replayed peer).mp (channel peer member).2.1
  have sending := mem_iff_of_size sent fun peer member => (channel peer member).1
  have marking := mem_iff_of_size markers fun peer member => (channel peer member).2.2.1
  refine ⟨snapshot, next, found, nodup_of_size whole, ?_, ?_, ?_, ?_, ?_, replayed, ?_⟩
  · exact fun member => foreign ((listed node).mpr member)
  · rw [received, sent, markers, whole]
    exact ⟨rfl, rfl, rfl⟩
  · exact fun peer => (receiving peer).trans (listed peer)
  · exact fun peer => (sending peer).trans (listed peer)
  · apply Std.ExtTreeMap.ext_getElem?
    intro peer
    by_cases member : peer ∈ (Std.ExtTreeSet.ofList peers : Std.ExtTreeSet NodeId)
    · exact (channel peer member).2.2.2.1
    · rw [Std.ExtTreeMap.getElem?_eq_none, Std.ExtTreeMap.getElem?_eq_none]
      · exact fun held => member ((marking peer).mp held)
      · rw [mem_of_replayedCounters replayed]
        exact fun held => member ((receiving peer).mp held)
  · exact fun peer member => (channel peer ((listed peer).mpr member)).2.2.2.2

/-- An accepted set has a positive epoch and one accepted snapshot for each node. -/
theorem validateGlobal_ok {snapshots : List LocalSnapshot} {topology : Topology}
    (valid : validateGlobal snapshots topology = .ok ()) :
    ∃ epoch nodes, 0 < epoch ∧ collectNodes epoch topology snapshots = .ok nodes ∧
      ∀ node peers, topology[node]? = some peers →
        ∃ snapshot next, nodes[node]? = some snapshot ∧
          Accepted nodes node peers snapshot next := by
  simp only [validateGlobal, bind_ok, require_ok] at valid
  obtain ⟨_, _, _, positive, nodes, collected, checked⟩ := valid
  refine ⟨_, nodes, positive, collected, ?_⟩
  intro node peers known
  exact validateNode_ok (forM_ok.mp checked _
    (Std.ExtTreeMap.mem_toList_iff_getElem?_eq_some.mpr known))

/-! ## Restoring a fresh participant -/

namespace Participant

/-- The participant that the constructor builds for valid peers. -/
structure Fresh (node : NodeId) (peers : List NodeId) (limit : Nat)
    (participant : Participant) : Prop where
  node : participant.node = node
  limit : participant.limit = limit
  same : participant.sent = participant.received
  counters : ∀ peer, participant.received[peer]? = if peer ∈ peers then some 0 else none
  size : participant.received.size = peers.length
  inactive : participant.active = none
  empty : participant.completed = none
  newborn : participant.lastEpoch = 0
  healthy : participant.failed = false

theorem create_fresh {node : NodeId} {peers : List NodeId} {limit : Nat} (positive : 0 < limit)
    (distinct : peers.Nodup) (foreign : node ∉ peers) :
    ∃ participant, create node peers limit = .ok participant ∧
      participant.Fresh node peers limit := by
  let built (counters : Counters) : Participant :=
    { node := node, received := counters, sent := counters, limit := limit, recordedBytes := 0,
      active := none, completed := none, marked := ∅, lastEpoch := 0, failed := false }
  -- The loop over the peers has entered those it has passed.
  have loop (passed rest : List NodeId) (counters : Counters) (all : passed ++ rest = peers)
      (zero : ∀ peer, counters[peer]? = if peer ∈ passed then some 0 else none)
      (size : counters.size = passed.length) :
      ∃ final : Counters, rest.foldlM (fun (counters : Counters) peer => do
          require (peer ≠ node ∧ peer ∉ counters) "invalid snapshot peer"
          pure (counters.insert peer 0)) counters = (.ok final : Except String Counters) ∧
        (∀ peer, final[peer]? = if peer ∈ peers then some 0 else none) ∧
        final.size = peers.length := by
    induction rest generalizing passed counters with
    | nil =>
      rw [List.append_nil] at all
      subst all
      exact ⟨counters, rfl, zero, size⟩
    | cons peer rest inductionHypothesis =>
      have unseen : peer ∉ passed := by
        rw [← all] at distinct
        exact fun member => (List.nodup_append.mp distinct).2.2 peer member peer (by simp) rfl
      have absent : peer ∉ counters := by
        rw [Std.ExtTreeMap.mem_iff_isSome_getElem?, zero peer, if_neg unseen]
        simp
      have other : peer ≠ node := by
        rintro rfl
        exact foreign (by simp [← all])
      obtain ⟨final, ran, done⟩ := inductionHypothesis (passed ++ [peer]) (counters.insert peer 0)
        (by simp [← all]) (by
          intro place
          simp only [Std.ExtTreeMap.getElem?_insert, Std.LawfulEqOrd.compare_eq_iff_eq, zero,
            List.mem_append, List.mem_singleton]
          by_cases here : peer = place
          · simp [here]
          · simp [here, Ne.symm here]) (by
          rw [Std.ExtTreeMap.size_insert, if_neg (by simpa using absent), size]
          simp)
      refine ⟨final, ?_, done⟩
      rw [List.foldlM_cons, bind_ok]
      exact ⟨_, bind_ok.mpr ⟨(), require_ok.mpr ⟨other, absent⟩, rfl⟩, ran⟩
  obtain ⟨counters, ran, zero, size⟩ := loop [] peers ∅ rfl (by simp) rfl
  have created : create node peers limit = .ok (built counters) := by
    simp only [create, bind_ok, require_ok]
    exact ⟨(), positive, counters, ran, rfl⟩
  exact ⟨built counters, created, ⟨rfl, rfl, rfl, zero, size, rfl, rfl, rfl, rfl⟩⟩

variable {σ : Type}

/-- What replaying saved records does to the application. -/
def delivered (callbacks : Callbacks σ) (channels : List ChannelRecord) (state : σ) : σ :=
  channels.foldl (fun state saved => callbacks.deliver state saved.peer saved.payload) state

theorem run_bind {α β : Type} {first : Method σ α} {next : α → Method σ β} {host after : Host σ}
    {value : α} (one : first.run host = .ok value after) :
    (first >>= next).run host = (next value).run after := by
  have found : first host = .ok value after := one
  change EStateM.bind first next host = _
  simp only [EStateM.bind, found]
  rfl

theorem require_run {condition : Prop} [Decidable condition] {message : String}
    (holds : condition) (host : Host σ) :
    (require condition message : Method σ Unit).run host = .ok () host := by
  rw [require, if_pos holds]
  rfl

/-- The first round of a loop, when it succeeds. -/
theorem forM_cons_run {α : Type} {item : α} {rest : List α} {body : α → Method σ Unit}
    {host after : Host σ} (one : (body item).run host = .ok () after) :
    ((item :: rest).forM body).run host = (rest.forM body).run after := by
  have unrolled : (item :: rest).forM body = (body item >>= fun _ => rest.forM body) := rfl
  rw [unrolled, run_bind one]

/-- A loop of checks that all pass changes nothing. -/
theorem forM_pass {α : Type} {items : List α} {body : α → Method σ Unit} {host : Host σ}
    (pass : ∀ item ∈ items, (body item).run host = .ok () host) :
    (items.forM body).run host = .ok () host := by
  induction items with
  | nil => rfl
  | cons item rest inductionHypothesis =>
    rw [forM_cons_run (pass item List.mem_cons_self)]
    exact inductionHypothesis fun other member => pass other (List.mem_cons_of_mem item member)

/-- Restoring walks the saved records as the validator does. -/
theorem replay_run (callbacks : Callbacks σ) {expected : Std.ExtTreeSet NodeId} {next : Counters}
    {channels : List ChannelRecord} {host : Host σ}
    (replayed : replayedCounters expected host.participant.received channels = .ok next) :
    (channels.forM (replay callbacks)).run host = .ok ()
      { host with
        participant := { host.participant with received := next }
        state := delivered callbacks channels host.state } := by
  induction channels generalizing host with
  | nil =>
    cases replayed
    rfl
  | cons saved rest inductionHypothesis =>
    rw [replayedCounters, List.foldlM_cons, bind_ok] at replayed
    obtain ⟨counters, step, replayed⟩ := replayed
    simp only [bind_ok, require_ok, lookup_ok] at step
    obtain ⟨_, ⟨_, known⟩, frontier, found, _, ⟨room, sequence⟩, ⟨⟩⟩ := step
    have one : (replay callbacks saved).run host = .ok ()
        { host with
          participant := { host.participant with
            received := host.participant.received.insert saved.peer (frontier + 1) }
          state := callbacks.deliver host.state saved.peer saved.payload } := by
      simp only [replay, checkPeer, bind_assoc, self_bind, require_bind, lookup_bind, if_pos known,
        found, sequence, if_pos (And.intro room trivial), change_bind, deliver_run]
    rw [forM_cons_run one]
    exact inductionHypothesis replayed

/-- A fresh participant takes over an accepted snapshot. Its counters are those at the
end of the channel records. -/
theorem restore_run (callbacks : Callbacks σ) {nodes : Std.ExtTreeMap NodeId LocalSnapshot}
    {node : NodeId} {peers : List NodeId} {limit : Nat} {snapshot : LocalSnapshot}
    {next : Counters} {participant : Participant}
    (accepted : Accepted nodes node peers snapshot next) (own : snapshot.node = node)
    (positive : 0 < snapshot.epoch) (fresh : participant.Fresh node peers limit) (state : σ) :
    (restore callbacks snapshot).run ⟨participant, state, []⟩ = .ok ()
      ⟨{ participant with
          received := snapshot.markerSequences, sent := snapshot.sent,
          lastEpoch := snapshot.epoch },
        delivered callbacks snapshot.channels state, []⟩ := by
  have first : participant.active = none ∧ participant.completed = none ∧
      participant.lastEpoch = 0 ∧ snapshot.node = participant.node ∧ snapshot.epoch > 0 :=
    ⟨fresh.inactive, fresh.empty, fresh.newborn, own.trans fresh.node.symm, positive⟩
  have topology : snapshot.received.size = participant.received.size ∧
      snapshot.sent.size = participant.sent.size ∧
      snapshot.markerSequences.size = participant.received.size := by
    rw [fresh.same, fresh.size]
    exact accepted.sizes
  have marked (peer : NodeId) (listed : peer ∈ peers) : peer ∈ snapshot.markerSequences := by
    rw [← accepted.markers, mem_of_replayedCounters accepted.replayed]
    exact (accepted.received peer).mpr listed
  have checks (host : Host σ) : (participant.received.toList.forM fun entry => do
      let sent ← lookup participant.sent entry.1
      require (entry.2 = 0 ∧ sent = 0 ∧ entry.1 ∈ snapshot.received ∧ entry.1 ∈ snapshot.sent ∧
        entry.1 ∈ snapshot.markerSequences) "restore topology/activity mismatch" :
      Method σ Unit).run host = .ok () host := by
    apply forM_pass
    rintro ⟨peer, count⟩ member
    have found := Std.ExtTreeMap.mem_toList_iff_getElem?_eq_some.mp member
    have zero := fresh.counters peer
    rw [found] at zero
    split at zero
    · next listed =>
      obtain rfl := Option.some.inj zero
      have all : (0 : Nat) = 0 ∧ (0 : Nat) = 0 ∧ peer ∈ snapshot.received ∧ peer ∈ snapshot.sent ∧
          peer ∈ snapshot.markerSequences :=
        ⟨rfl, rfl, (accepted.received peer).mpr listed, (accepted.sent peer).mpr listed,
          marked peer listed⟩
      rw [lookup_bind, fresh.same, found]
      exact require_run all host
    · cases zero
  have replayed : (snapshot.channels.forM (replay callbacks)).run
      ⟨{ participant with received := snapshot.received, sent := snapshot.sent }, state, []⟩ =
      .ok () ⟨{ participant with received := snapshot.markerSequences, sent := snapshot.sent },
        delivered callbacks snapshot.channels state, []⟩ := by
    rw [← accepted.markers]
    exact replay_run callbacks accepted.replayed
  simp only [restore, checkHealthy, bind_assoc, self_bind, require_bind, if_pos fresh.healthy,
    poisoning_run, if_pos first, if_pos topology, run_bind (checks _), change_bind,
    run_bind replayed, if_true, change_run]

/-! ## The next message of a channel -/

/-- A participant takes a message without an exception. -/
def Accepts (callbacks : Callbacks σ) (host : Host σ) (peer : NodeId) (message : Message) : Prop :=
  ∃ after, (receive callbacks peer message).run host = .ok () after

section Fresh

variable {callbacks : Callbacks σ} {host after : Host σ} {peer : NodeId} {count : Nat}

/-- A data message continues the numbers of its channel. -/
theorem send_run (healthy : host.participant.failed = false)
    (known : peer ∈ host.participant.received)
    (frontier : host.participant.sent[peer]? = some count) (room : count ≠ maxSequence)
    (payload : Bytes) :
    ∃ after, (send peer payload).run host = .ok () after ∧
      after.outbox = host.outbox ++ [(peer, data (count + 1) payload)] := by
  simp only [send, checkHealthy, checkPeer, bind_assoc, self_bind, require_bind, if_pos healthy,
    poisoning_run, if_pos known, lookup_bind, frontier, if_pos room, transmit_bind, change_run]
  exact ⟨_, rfl, rfl⟩

/-- The markers of an epoch carry the numbers of their channels. -/
theorem of_initiate {epoch : Nat} (started : (initiate callbacks epoch).run host = .ok () after) :
    host.participant.lastEpoch < epoch ∧
      after.outbox = host.outbox ++ host.participant.sent.toList.map
        (fun entry => (entry.1, marker entry.2 epoch)) := by
  simp only [initiate, start, checkHealthy, bind_assoc, self_bind, require_bind, poisoning_run,
    get_bind, change_bind] at started
  split at started
  · split at started
    · next ran =>
      split at ran
      · next stale =>
        split at ran
        · rw [forM_transmit_bind _ (fun entry : NodeId × Nat => (entry.1, marker entry.2 epoch)),
            change_run] at ran
          cases ran
          cases started
          exact ⟨stale.1, rfl⟩
        · cases ran
      · cases ran
    · cases started
  · cases started

/-- A healthy participant takes the message of a peer if the branch of its kind does. -/
theorem accepts_of_branch {message : Message} (healthy : host.participant.failed = false)
    (known : peer ∈ host.participant.received)
    (branch : ∃ after, (match message.kind with
      | .data => receiveData callbacks peer message
      | .marker => receiveMarker callbacks peer message).run host = .ok () after) :
    Accepts callbacks host peer message := by
  obtain ⟨after, ran⟩ := branch
  refine ⟨after, ?_⟩
  simp only [receive, checkHealthy, checkPeer, bind_assoc, self_bind, require_bind, if_pos healthy,
    poisoning_run, if_pos known]
  cases kind : message.kind with
  | data | marker =>
    simp only [kind] at ran
    rw [ran]

theorem mem_of_counter {counters : Counters} (frontier : counters[peer]? = some count) :
    peer ∈ counters := by
  rw [Std.ExtTreeMap.mem_iff_isSome_getElem?, frontier]
  rfl

theorem accepts_data (healthy : host.participant.failed = false)
    (inactive : host.participant.active = none)
    (frontier : host.participant.received[peer]? = some count) (room : count ≠ maxSequence)
    (payload : Bytes) : Accepts callbacks host peer (data (count + 1) payload) := by
  apply accepts_of_branch healthy (mem_of_counter frontier)
  have idle : ¬ (host.participant.active ≠ none ∧ peer ∉ host.participant.marked) :=
    fun recording => recording.1 inactive
  have next : (data (count + 1) payload).epoch = 0 ∧ count ≠ maxSequence ∧
      (data (count + 1) payload).sequence = count + 1 := ⟨rfl, room, rfl⟩
  change ∃ after, (receiveData callbacks peer (data (count + 1) payload)).run host = .ok () after
  simp only [receiveData, self_bind, lookup_bind, frontier, require_bind, if_pos next, if_neg idle,
    change_bind, deliver_run]
  exact ⟨_, rfl⟩

theorem accepts_marker {epoch : Nat} (healthy : host.participant.failed = false)
    (inactive : host.participant.active = none) (empty : host.participant.completed = none)
    (frontier : host.participant.received[peer]? = some count)
    (later : host.participant.lastEpoch < epoch)
    (fits : (callbacks.capture host.state).length ≤ host.participant.limit) :
    Accepts callbacks host peer (marker count epoch) := by
  apply accepts_of_branch healthy (mem_of_counter frontier)
  have valid : (marker count epoch).payload = [] ∧ (marker count epoch).epoch ≠ 0 :=
    ⟨rfl, Nat.ne_of_gt (Nat.zero_lt_of_lt later)⟩
  have next : (marker count epoch).sequence = count := rfl
  have opens : (marker count epoch).epoch > host.participant.lastEpoch ∧
      host.participant.active = none ∧ host.participant.completed = none :=
    ⟨later, inactive, empty⟩
  change ∃ after, (receiveMarker callbacks peer (marker count epoch)).run host = .ok () after
  simp only [receiveMarker, start, bind_assoc, self_bind, lookup_bind, frontier, require_bind,
    if_pos valid, if_pos next, if_pos inactive, get_bind, if_pos fits, change_bind, if_pos opens]
  rw [forM_transmit_bind _ (fun entry : NodeId × Nat =>
      (entry.1, marker entry.2 (marker count epoch).epoch)), self_bind, require_bind,
    if_pos ⟨rfl, Std.ExtTreeSet.not_mem_empty⟩, change_bind, change_run]
  exact ⟨_, rfl⟩

end Fresh

end Participant

/-! ## Restoring a whole snapshot -/

section Restoring

variable {σ : Type} (topology : Topology) (callbacks : NodeId → Callbacks σ) (limit : NodeId → Nat)
  (initial : NodeId → σ)

/-- A node of the topology restores its snapshot: a new participant with the peers of
the node over the initial application. -/
def restoreNode (snapshot : LocalSnapshot) : Except String (Host σ) := do
  let peers ← lookup topology snapshot.node
  let fresh ← Participant.create snapshot.node peers (limit snapshot.node)
  match (Participant.restore (callbacks snapshot.node) snapshot).run
      ⟨fresh, initial snapshot.node, []⟩ with
  | .ok _ host => .ok host
  | .error message _ => .error message

variable {topology} {snapshots : List LocalSnapshot} {epoch : Nat}
  {nodes : Std.ExtTreeMap NodeId LocalSnapshot} {peers : List NodeId} {snapshot : LocalSnapshot}

/-- Every snapshot of a collected set is filed, and its node is in the topology. -/
theorem filed_of_collectNodes (collected : collectNodes epoch topology snapshots = .ok nodes)
    (listed : snapshot ∈ snapshots) :
    nodes[snapshot.node]? = some snapshot ∧ snapshot.node ∈ topology := by
  have filed := foldlM_ok (fun done (nodes : Std.ExtTreeMap NodeId LocalSnapshot) =>
    ∀ snapshot ∈ done, nodes[snapshot.node]? = some snapshot ∧ snapshot.node ∈ topology)
    ?_ ?_ collected
  · exact filed snapshot listed
  · intro done before item after filed step snapshot member
    obtain ⟨_, checked, ⟨⟩⟩ := bind_ok.mp step
    obtain ⟨_, known, unfiled⟩ := require_ok.mp checked
    rw [Std.ExtTreeMap.getElem?_insert]
    rcases List.mem_append.mp member with earlier | last
    · obtain ⟨found, inside⟩ := filed snapshot earlier
      have different : ¬ compare item.node snapshot.node = .eq := by
        rw [Std.LawfulEqOrd.compare_eq_iff_eq]
        intro same
        rw [same, Std.ExtTreeMap.mem_iff_isSome_getElem?, found] at unfiled
        exact unfiled rfl
      rw [if_neg different]
      exact ⟨found, inside⟩
    · obtain rfl := List.mem_singleton.mp last
      rw [if_pos Std.ReflOrd.compare_self]
      exact ⟨rfl, known⟩
  · simp

/-- What a node has after restoring. -/
structure RestoredAs (snapshot : LocalSnapshot) (host : Host σ) : Prop where
  received : host.participant.received = snapshot.markerSequences
  sent : host.participant.sent = snapshot.sent
  epoch : host.participant.lastEpoch = snapshot.epoch
  limit : host.participant.limit = limit snapshot.node
  inactive : host.participant.active = none
  empty : host.participant.completed = none
  healthy : host.participant.failed = false
  outbox : host.outbox = []
  state : host.state = Participant.delivered (callbacks snapshot.node) snapshot.channels
    (initial snapshot.node)

theorem restoreNode_ok {next : Counters} (positive : 0 < limit snapshot.node)
    (known : topology[snapshot.node]? = some peers)
    (accepted : Accepted nodes snapshot.node peers snapshot next) (later : 0 < snapshot.epoch) :
    ∃ host, restoreNode topology callbacks limit initial snapshot = .ok host ∧
      RestoredAs callbacks limit initial snapshot host := by
  obtain ⟨fresh, created, isFresh⟩ :=
    Participant.create_fresh positive accepted.distinct accepted.foreign
  have ran := Participant.restore_run (callbacks snapshot.node) accepted rfl later isFresh
    (initial snapshot.node)
  have restored : restoreNode topology callbacks limit initial snapshot = .ok
      ⟨{ fresh with
          received := snapshot.markerSequences, sent := snapshot.sent,
          lastEpoch := snapshot.epoch },
        Participant.delivered (callbacks snapshot.node) snapshot.channels
          (initial snapshot.node), []⟩ := by
    simp only [restoreNode, bind_ok, lookup_ok]
    exact ⟨peers, known, fresh, created, by rw [ran]⟩
  exact ⟨_, restored, ⟨rfl, rfl, rfl, isFresh.limit, isFresh.inactive, isFresh.empty,
    isFresh.healthy, rfl, rfl⟩⟩

/-- The counters of a channel agree in the snapshots of its two ends. -/
theorem Accepted.channel {sender receiver : LocalSnapshot} {others : List NodeId}
    {next after : Counters} (sends : Accepted nodes sender.node peers sender next)
    (receives : Accepted nodes receiver.node others receiver after)
    (sending : nodes[sender.node]? = some sender)
    (receiving : nodes[receiver.node]? = some receiver) (linked : receiver.node ∈ peers) :
    ∃ count, sender.sent[receiver.node]? = some count ∧
      receiver.markerSequences[sender.node]? = some count := by
  obtain ⟨found, filed, symmetric, _⟩ := sends.senders receiver.node linked
  obtain rfl := Option.some.inj (receiving.symm.trans filed)
  have back : sender.node ∈ others := (receives.sent sender.node).mp symmetric
  obtain ⟨found, filed, present, same⟩ := receives.senders sender.node back
  obtain rfl := Option.some.inj (sending.symm.trans filed)
  rw [Std.ExtTreeMap.mem_iff_isSome_getElem?, Option.isSome_iff_exists] at present
  obtain ⟨count, counted⟩ := present
  refine ⟨count, counted, ?_⟩
  rw [← receives.markers, ← same, counted]

/-- In an accepted set every snapshot has its place in the topology. -/
theorem place_of_valid (valid : validateGlobal snapshots topology = .ok ()) :
    ∃ (epoch : Nat) (nodes : Std.ExtTreeMap NodeId LocalSnapshot), 0 < epoch ∧
      (∀ node ∈ topology, ∃ snapshot ∈ snapshots, snapshot.node = node) ∧
      ∀ snapshot ∈ snapshots, snapshot.epoch = epoch ∧ nodes[snapshot.node]? = some snapshot ∧
        ∃ peers next, topology[snapshot.node]? = some peers ∧
          Accepted nodes snapshot.node peers snapshot next := by
  obtain ⟨epoch, nodes, positive, collected, checked⟩ := validateGlobal_ok valid
  have at_ (node : NodeId) (known : node ∈ topology) :
      ∃ peers snapshot next, topology[node]? = some peers ∧ nodes[node]? = some snapshot ∧
        Accepted nodes node peers snapshot next := by
    rw [Std.ExtTreeMap.mem_iff_isSome_getElem?, Option.isSome_iff_exists] at known
    obtain ⟨peers, found⟩ := known
    obtain ⟨snapshot, next, filed, accepted⟩ := checked node peers found
    exact ⟨peers, snapshot, next, found, filed, accepted⟩
  refine ⟨epoch, nodes, positive, ?_, ?_⟩
  · intro node known
    obtain ⟨_, snapshot, _, _, filed, _⟩ := at_ node known
    obtain ⟨listed, own, _⟩ := of_collectNodes collected filed
    exact ⟨snapshot, listed, own⟩
  · intro snapshot listed
    obtain ⟨filed, known⟩ := filed_of_collectNodes collected listed
    obtain ⟨peers, other, next, found, same, accepted⟩ := at_ snapshot.node known
    obtain rfl := Option.some.inj (filed.symm.trans same)
    exact ⟨(of_collectNodes collected filed).2.2, filed, peers, next, found, accepted⟩

/-- A validated snapshot can be restored. Every node has its snapshot, and restoring it
into a new participant of the node throws nothing and delivers the saved channel records
in their order. Then the two ends of every channel agree on the number of messages, and
the next message of the channel is accepted: a data message, or the marker of a later
epoch if the receiver's state fits its limit. -/
theorem validated_snapshots_restore (valid : validateGlobal snapshots topology = .ok ())
    (positive : ∀ node, 0 < limit node) :
    (∀ node ∈ topology, ∃ snapshot ∈ snapshots, snapshot.node = node) ∧
    (∀ snapshot ∈ snapshots, ∃ host,
      restoreNode topology callbacks limit initial snapshot = .ok host ∧
      host.state = Participant.delivered (callbacks snapshot.node) snapshot.channels
        (initial snapshot.node)) ∧
    ∀ sender ∈ snapshots, ∀ receiver ∈ snapshots, ∀ peers source target,
      topology[sender.node]? = some peers → receiver.node ∈ peers →
      restoreNode topology callbacks limit initial sender = .ok source →
      restoreNode topology callbacks limit initial receiver = .ok target →
      (∃ count, source.participant.sent[receiver.node]? = some count ∧
        target.participant.received[sender.node]? = some count ∧
        (count ≠ maxSequence → ∀ payload, ∃ after message,
          (Participant.send receiver.node payload).run source = .ok () after ∧
          after.outbox = [(receiver.node, message)] ∧
          Participant.Accepts (callbacks receiver.node) target sender.node message)) ∧
      ∀ epoch after, (Participant.initiate (callbacks sender.node) epoch).run source =
          .ok () after →
        ((callbacks receiver.node).capture target.state).length ≤ limit receiver.node →
        ∀ message, (receiver.node, message) ∈ after.outbox →
          Participant.Accepts (callbacks receiver.node) target sender.node message := by
  obtain ⟨common, nodes, started, complete, placed⟩ := place_of_valid valid
  have restores (snapshot : LocalSnapshot) (listed : snapshot ∈ snapshots) :
      ∃ host, restoreNode topology callbacks limit initial snapshot = .ok host ∧
        RestoredAs callbacks limit initial snapshot host := by
    obtain ⟨same, _, peers, next, known, accepted⟩ := placed snapshot listed
    exact restoreNode_ok callbacks limit initial (positive _) known accepted (same ▸ started)
  refine ⟨complete, ?_, ?_⟩
  · intro snapshot listed
    obtain ⟨host, ran, restored⟩ := restores snapshot listed
    exact ⟨host, ran, restored.state⟩
  · intro sender sends receiver receives peers source target known listed fromSender fromReceiver
    obtain ⟨sourceHost, ran, atSource⟩ := restores sender sends
    obtain rfl := Except.ok.inj (ran.symm.trans fromSender)
    obtain ⟨targetHost, ran, atTarget⟩ := restores receiver receives
    obtain rfl := Except.ok.inj (ran.symm.trans fromReceiver)
    obtain ⟨sentAt, sending, _, _, found, senderAccepted⟩ := placed sender sends
    obtain rfl := Option.some.inj (known.symm.trans found)
    obtain ⟨receivedAt, receiving, _, _, _, receiverAccepted⟩ := placed receiver receives
    obtain ⟨count, sent, received⟩ :=
      senderAccepted.channel receiverAccepted sending receiving listed
    rw [← atSource.sent] at sent
    rw [← atTarget.received] at received
    refine ⟨⟨count, sent, received, ?_⟩, ?_⟩
    · intro room payload
      have linked : receiver.node ∈ sourceHost.participant.received := by
        rw [atSource.received, ← senderAccepted.markers,
          mem_of_replayedCounters senderAccepted.replayed, senderAccepted.received]
        exact listed
      obtain ⟨after, ran, outbox⟩ :=
        Participant.send_run atSource.healthy linked sent room payload
      rw [atSource.outbox] at outbox
      exact ⟨after, _, ran, outbox,
        Participant.accepts_data atTarget.healthy atTarget.inactive received room payload⟩
    · intro epoch after started fits message transmitted
      obtain ⟨stale, outbox⟩ := Participant.of_initiate started
      rw [outbox, atSource.outbox, List.nil_append, List.mem_map] at transmitted
      obtain ⟨⟨peer, number⟩, member, same⟩ := transmitted
      obtain ⟨rfl, rfl⟩ := Prod.mk.inj same
      have numbered := Std.ExtTreeMap.mem_toList_iff_getElem?_eq_some.mp member
      obtain rfl := Option.some.inj (sent.symm.trans numbered)
      refine Participant.accepts_marker atTarget.healthy atTarget.inactive atTarget.empty received
        ?_ (atTarget.limit ▸ fits)
      rw [atTarget.epoch, receivedAt, ← sentAt, ← atSource.epoch]
      exact stale

end Restoring

/-- Two nodes that are each other's peers. -/
def pairTopology : Topology :=
  Std.ExtTreeMap.ofList ([(1, [2]), (2, [1])] : List (NodeId × List NodeId))

/-- The first node has sent one message before its capture. -/
def firstOfPair : LocalSnapshot where
  node := 1
  epoch := 1
  state := []
  received := (∅ : Counters).insert 2 0
  sent := (∅ : Counters).insert 2 1
  markerSequences := (∅ : Counters).insert 2 0
  channels := []

/-- The second node has saved that message in flight. -/
def secondOfPair : LocalSnapshot where
  node := 2
  epoch := 1
  state := []
  received := (∅ : Counters).insert 1 0
  sent := (∅ : Counters).insert 1 0
  markerSequences := (∅ : Counters).insert 1 1
  channels := [⟨1, 1, [7]⟩]

/-- An application that keeps what it is given. -/
def keeping : Callbacks (List (NodeId × Bytes)) where
  capture _ := []
  deliver log peer payload := log ++ [(peer, payload)]

/-- The pair is validated, and the second node gets its message back. -/
theorem pair_restores :
    validateGlobal [firstOfPair, secondOfPair] pairTopology = .ok () ∧
      ∃ host, restoreNode pairTopology (fun _ => keeping) (fun _ => 64) (fun _ => []) secondOfPair =
        .ok host ∧ host.state = [(1, [7])] := by
  have valid : validateGlobal [firstOfPair, secondOfPair] pairTopology = .ok () := by decide +kernel
  obtain ⟨_, restores, _⟩ := validated_snapshots_restore (fun _ => keeping) (fun _ => 64)
    (fun _ => []) valid (fun _ => Nat.zero_lt_succ 63)
  exact ⟨valid, restores secondOfPair (by simp)⟩

end Stormglass.Snapshot
