import Stormglass.SnapshotCut

/-!
# The snapshots of an epoch are validated

`ValidateGlobal` accepts the snapshots that the participants of a symmetric topology have produced
for one epoch, in any order: the records of every channel continue the numbers of the capture, and
both ends of the channel have counted the same messages at its marker.
-/

namespace Stormglass.Snapshot

variable {σ Λ : Type}

/-- Counters of distinct peers. -/
theorem Counts.size {peers : List NodeId} {packets : NodeId → List Packet} {counters : Counters}
    (counts : Counts peers packets counters) (distinct : peers.Nodup) :
    counters.size = peers.length := by
  have member (peer : NodeId) : peer ∈ counters.keys ↔ peer ∈ peers := by
    rw [Std.ExtTreeMap.mem_keys, Std.ExtTreeMap.mem_iff_isSome_getElem?, counts]
    split <;> simp [*]
  rw [← Std.ExtTreeMap.length_keys]
  exact ((List.perm_ext_iff_of_nodup Std.ExtTreeMap.nodup_keys distinct).mpr member).length_eq

/-- Records that continue the numbers of their channels are replayed. -/
theorem replayedCounters_ok {expected : Std.ExtTreeSet NodeId} {received : Counters}
    {channels : List ChannelRecord} (known : ∀ saved ∈ channels, saved.peer ∈ expected)
    (entered : ∀ peer ∈ expected, ∃ count, received[peer]? = some count ∧
      (Log.packetsOf peer channels).map Packet.sequence =
        List.range' (count + 1) (Log.packetsOf peer channels).length ∧
      count + (Log.packetsOf peer channels).length ≤ maxSequence) :
    ∃ next, replayedCounters expected received channels = .ok next ∧
      ∀ peer, next[peer]? =
        (received[peer]?).map fun count => count + (Log.packetsOf peer channels).length := by
  induction channels generalizing received with
  | nil =>
    refine ⟨received, rfl, ?_⟩
    intro peer
    cases received[peer]? <;> rfl
  | cons saved rest inductionHypothesis =>
    have own : Log.packetsOf saved.peer (saved :: rest) =
        ⟨saved.sequence, saved.payload⟩ :: Log.packetsOf saved.peer rest := by
      simp [Log.packetsOf]
    have other {peer : NodeId} (different : saved.peer ≠ peer) :
        Log.packetsOf peer (saved :: rest) = Log.packetsOf peer rest := by
      simp [Log.packetsOf, different]
    have inside := known saved List.mem_cons_self
    obtain ⟨count, found, numbers, room⟩ := entered saved.peer inside
    rw [own, List.length_cons] at numbers room
    obtain ⟨next, later⟩ := List.cons.inj numbers
    have continued : ∀ peer ∈ expected, ∃ start,
        (received.insert saved.peer (count + 1))[peer]? = some start ∧
        (Log.packetsOf peer rest).map Packet.sequence =
          List.range' (start + 1) (Log.packetsOf peer rest).length ∧
        start + (Log.packetsOf peer rest).length ≤ maxSequence := by
      intro peer member
      rw [Std.ExtTreeMap.getElem?_insert]
      by_cases here : saved.peer = peer
      · subst here
        exact ⟨count + 1, if_pos Std.ReflOrd.compare_self, later, by omega⟩
      · obtain ⟨start, entry, unchanged⟩ := entered peer member
        rw [other here] at unchanged
        exact ⟨start, (if_neg (by simpa using here)).trans entry, unchanged⟩
    obtain ⟨final, ran, counted⟩ := inductionHypothesis
      (fun item member => known item (List.mem_cons_of_mem saved member)) continued
    refine ⟨final, ?_, ?_⟩
    · have known : saved.peer ∈ received := by
        rw [Std.ExtTreeMap.mem_iff_isSome_getElem?, found]
        rfl
      rw [replayedCounters, List.foldlM_cons, bind_ok]
      refine ⟨_, ?_, ran⟩
      simp only [bind_ok, require_ok, lookup_ok]
      exact ⟨(), ⟨inside, known⟩, count, found, (), ⟨by omega, next⟩, rfl⟩
    · intro peer
      rw [counted, Std.ExtTreeMap.getElem?_insert]
      by_cases here : saved.peer = peer
      · subst here
        rw [if_pos Std.ReflOrd.compare_self, found, own]
        simp [Nat.add_assoc, Nat.add_comm]
      · rw [if_neg (by simpa using here), other here]

/-- Snapshots of different nodes of the topology are collected. -/
theorem collectNodes_ok {epoch : Nat} {topology : Topology} {snapshots : List LocalSnapshot}
    (each : ∀ snapshot ∈ snapshots, snapshot.epoch = epoch ∧ snapshot.node ∈ topology)
    (distinct : (snapshots.map LocalSnapshot.node).Nodup) :
    ∃ nodes, collectNodes epoch topology snapshots = .ok nodes := by
  have loop (rest : List LocalSnapshot) (nodes : Std.ExtTreeMap NodeId LocalSnapshot)
      (each : ∀ snapshot ∈ rest, snapshot.epoch = epoch ∧ snapshot.node ∈ topology)
      (distinct : (rest.map LocalSnapshot.node).Nodup)
      (unfiled : ∀ snapshot ∈ rest, snapshot.node ∉ nodes) :
      ∃ final : Std.ExtTreeMap NodeId LocalSnapshot, rest.foldlM
        (fun (nodes : Std.ExtTreeMap NodeId LocalSnapshot) snapshot => do
          require (snapshot.epoch = epoch ∧ snapshot.node ∈ topology ∧ snapshot.node ∉ nodes)
            "mixed epoch/duplicate/unknown node"
          pure (nodes.insert snapshot.node snapshot)) nodes =
          (.ok final : Except String (Std.ExtTreeMap NodeId LocalSnapshot)) := by
    induction rest generalizing nodes with
    | nil => exact ⟨nodes, rfl⟩
    | cons snapshot rest inductionHypothesis =>
      rw [List.map_cons, List.nodup_cons] at distinct
      obtain ⟨current, known⟩ := each snapshot List.mem_cons_self
      obtain ⟨final, ran⟩ := inductionHypothesis (nodes.insert snapshot.node snapshot)
        (fun other member => each other (List.mem_cons_of_mem snapshot member)) distinct.2 (by
          intro other member filed
          rw [Std.ExtTreeMap.mem_insert, Std.LawfulEqOrd.compare_eq_iff_eq] at filed
          rcases filed with same | earlier
          · exact distinct.1 (same ▸ List.mem_map_of_mem member)
          · exact unfiled other (List.mem_cons_of_mem snapshot member) earlier)
      refine ⟨final, ?_⟩
      rw [List.foldlM_cons, bind_ok]
      exact ⟨_, bind_ok.mpr ⟨(), require_ok.mpr
        ⟨current, known, unfiled snapshot List.mem_cons_self⟩, rfl⟩, ran⟩
  exact loop snapshots ∅ each distinct (by simp)

theorem Numbered.of_begins {packets more : List Packet} (numbered : Numbered more)
    (begins : packets <+: more) : Numbered packets := by
  obtain ⟨rest, rfl⟩ := begins
  have numbers := numbered.1
  have bound := numbered.2
  rw [List.length_append] at bound
  rw [List.map_append, List.length_append, ← List.range'_append_1] at numbers
  exact ⟨(List.append_inj numbers (by simp)).1, by omega⟩

theorem Numbered.nodup {packets : List Packet} (numbered : Numbered packets) : packets.Nodup := by
  apply List.Nodup.of_map Packet.sequence
  rw [numbered.1]
  exact List.nodup_range'

/-- A record comes from a peer. -/
theorem Log.known_of_recordedFrom {epoch : Nat} {done : List NodeId} {log : Log Λ}
    {peers : List NodeId} (known : ∀ event ∈ log, event.FromPeer peers) {saved : ChannelRecord}
    (recorded : saved ∈ recordedFrom epoch done log) : saved.peer ∈ peers := by
  induction log generalizing done with
  | nil => cases recorded
  | cons event rest inductionHypothesis =>
    have later : ∀ event ∈ rest, event.FromPeer peers := fun other member =>
      known other (List.mem_cons_of_mem event member)
    have here := known event List.mem_cons_self
    cases event with
    | received peer packet =>
      rw [recordedFrom] at recorded
      split at recorded
      · exact inductionHypothesis later recorded
      · rcases List.mem_cons.mp recorded with rfl | tail
        · exact here
        · exact inductionHypothesis later tail
    | closed peer sequence of =>
      rw [recordedFrom] at recorded
      split at recorded
      · exact inductionHypothesis later recorded
      · exact inductionHypothesis later recorded
    | acted | captured => exact inductionHypothesis later recorded

namespace Complete

variable {application : Application σ Λ} {initial : σ} {node : NodeId} {peers : List NodeId}
  {log : Log Λ} {snapshot : LocalSnapshot}

/-- The records continue the counters of the capture, up to the counters of the markers. -/
theorem replays (complete : Complete application initial node peers log snapshot)
    (orderly : Orderly peers log) :
    replayedCounters (Std.ExtTreeSet.ofList peers) snapshot.received snapshot.channels =
      .ok snapshot.markerSequences := by
  have records := complete.records
  obtain ⟨marked, all, recording⟩ := complete
  have inside (peer : NodeId) : peer ∈ (Std.ExtTreeSet.ofList peers : Std.ExtTreeSet NodeId) ↔
      peer ∈ peers := by simp
  have whole (peer : NodeId) : Log.receivedFrom peer (log.before snapshot.epoch) ++
      Log.packetsOf peer snapshot.channels <+: Log.receivedFrom peer log := by
    rw [records, ← Log.receivedFrom_append]
    nth_rewrite 3 [← Log.before_append_after snapshot.epoch log]
    exact ((List.prefix_append_right_inj _).mpr (List.takeWhile_prefix _)).filterMap _
  have known : ∀ saved ∈ snapshot.channels,
      saved.peer ∈ (Std.ExtTreeSet.ofList peers : Std.ExtTreeSet NodeId) := by
    intro saved member
    rw [recording.channels] at member
    refine (inside _).mpr (Log.known_of_recordedFrom (fun event listed => ?_) member)
    exact orderly.known event ((List.dropWhile_suffix _).subset listed)
  have continued : ∀ peer ∈ (Std.ExtTreeSet.ofList peers : Std.ExtTreeSet NodeId), ∃ count,
      snapshot.received[peer]? = some count ∧
      (Log.packetsOf peer snapshot.channels).map Packet.sequence =
        List.range' (count + 1) (Log.packetsOf peer snapshot.channels).length ∧
      count + (Log.packetsOf peer snapshot.channels).length ≤ maxSequence := by
    intro peer member
    have numbered := (orderly.numbered peer).2.of_begins (whole peer)
    refine ⟨_, (recording.received peer).trans (if_pos ((inside peer).mp member)), ?_, ?_⟩
    · have numbers := numbered.1
      rw [List.map_append, List.length_append, ← List.range'_append_1] at numbers
      rw [(List.append_inj numbers (by simp)).2, Nat.add_comm]
    · have bound := numbered.2
      rw [List.length_append] at bound
      exact bound
  obtain ⟨next, ran, counted⟩ := replayedCounters_ok known continued
  rw [ran]
  congr 1
  apply Std.ExtTreeMap.ext_getElem?
  intro peer
  rw [counted, recording.received, recording.markers, Log.receivedFrom_append, ← records,
    List.length_append]
  by_cases linked : peer ∈ peers
  · rw [if_pos linked, if_pos ((all peer).mpr linked)]
    rfl
  · rw [if_neg linked, if_neg (fun marked => linked ((all peer).mp marked))]
    rfl

/-- The counters of the markers. -/
theorem markers (complete : Complete application initial node peers log snapshot) :
    Counts peers (fun peer => Log.receivedFrom peer (log.before snapshot.epoch) ++
      Log.packetsOf peer snapshot.channels) snapshot.markerSequences := by
  intro peer
  have records := complete.records peer
  obtain ⟨marked, all, recording⟩ := complete
  dsimp only
  rw [recording.markers, records, Log.receivedFrom_append]
  simp only [all]

end Complete

theorem mem_topology_of_peer {topology : Topology} {node peer : NodeId}
    (linked : peer ∈ peersOf topology node) : node ∈ topology := by
  rw [Std.ExtTreeMap.mem_iff_isSome_getElem?]
  cases found : topology[node]? with
  | none => simp [peersOf, found] at linked
  | some peers => rfl

namespace Network

variable {topology : Topology} {applications : NodeId → Application σ Λ} {initial : NodeId → σ}
  {network : Network σ Λ} {snapshots : NodeId → LocalSnapshot} {epoch : Nat}

section

variable (sound : Sound topology applications initial network)

include sound

/-- One channel of the cut. -/
theorem Sound.validates_channel (symmetric : Symmetric topology) (produced : ∀ node ∈ topology,
      snapshots node ∈ network.taken node ∧ (snapshots node).epoch = epoch)
    {nodes : Std.ExtTreeMap NodeId LocalSnapshot}
    (filed : ∀ node ∈ topology, nodes[node]? = some (snapshots node)) {node peer : NodeId}
    (linked : peer ∈ peersOf topology node) :
    validateChannel nodes node (snapshots node) (snapshots node).markerSequences peer =
      .ok () := by
  have back := symmetric.back node peer linked
  have known : node ∈ topology := mem_topology_of_peer linked
  have sender : peer ∈ topology := mem_topology_of_peer back
  have markers := (sound.complete node _ (produced node known).1).markers
  obtain ⟨_, _, here⟩ := sound.complete node _ (produced node known).1
  obtain ⟨_, _, there⟩ := sound.complete peer _ (produced peer sender).1
  have same : (snapshots peer).epoch = (snapshots node).epoch :=
    (produced peer sender).2.trans (produced node known).2.symm
  have cut := sound.cut symmetric back (produced peer sender).1 (produced node known).1 same
  have listed {counters : Counters} {key : NodeId} {count : Nat}
      (entry : counters[key]? = some count) : key ∈ counters := Participant.mem_of_counter entry
  have atMarker := (markers peer).trans (if_pos linked)
  have atSender := (there.sent node).trans (if_pos back)
  simp only [validateChannel, bind_ok, require_ok, lookup_ok]
  refine ⟨(), ⟨?_, ?_, listed atMarker, listed atMarker⟩, snapshots peer, filed peer sender, (),
    ⟨listed atSender, ?_⟩, _, atSender, _, atMarker, _, atMarker, ?_, rfl⟩
  · rw [Std.ExtTreeMap.mem_iff_isSome_getElem?, filed peer sender]
    rfl
  · exact listed ((here.sent peer).trans (if_pos linked))
  · exact listed ((there.received node).trans (if_pos back))
  · dsimp only
    rw [same, ← cut]

/-- One node of the cut. -/
theorem Sound.validates_node (symmetric : Symmetric topology) (produced : ∀ node ∈ topology,
      snapshots node ∈ network.taken node ∧ (snapshots node).epoch = epoch)
    {nodes : Std.ExtTreeMap NodeId LocalSnapshot}
    (filed : ∀ node ∈ topology, nodes[node]? = some (snapshots node)) {node : NodeId}
    (known : node ∈ topology) : validateNode nodes node (peersOf topology node) = .ok () := by
  have distinct := symmetric.distinct node
  have complete := sound.complete node _ (produced node known).1
  have markers := complete.markers.size distinct
  have replays := complete.replays (sound.orderly node)
  obtain ⟨_, _, recording⟩ := complete
  have size : (Std.ExtTreeSet.ofList (peersOf topology node) : Std.ExtTreeSet NodeId).size =
      (peersOf topology node).length := by
    apply Std.ExtTreeSet.size_ofList
    exact distinct.imp fun different same => different (Std.LawfulEqOrd.compare_eq_iff_eq.mp same)
  have sizes := And.intro (recording.received.size distinct)
    (And.intro (recording.sent.size distinct) markers)
  rw [← size] at sizes
  simp only [validateNode, bind_ok, require_ok, lookup_ok]
  refine ⟨snapshots node, filed node known, (), ⟨size, by simpa using symmetric.foreign node⟩, (),
    sizes, _, replays, forM_ok.mpr ?_⟩
  intro peer member
  have linked : peer ∈ peersOf topology node := by
    simpa using Std.ExtTreeSet.mem_toList.mp member
  exact sound.validates_channel symmetric produced filed linked

/-- The snapshots of an epoch, listed in any order, are validated. -/
theorem Sound.validates (symmetric : Symmetric topology) (nonempty : topology.isEmpty = false)
    (produced : ∀ node ∈ topology,
      snapshots node ∈ network.taken node ∧ (snapshots node).epoch = epoch)
    {listing : List LocalSnapshot} (listed : listing.Perm (topology.keys.map snapshots)) :
    validateGlobal listing topology = .ok () := by
  have complete (node : NodeId) (known : node ∈ topology) :
      Complete (applications node) (initial node) node (peersOf topology node) (network.log node)
        (snapshots node) := sound.complete node _ (produced node known).1
  have named (node : NodeId) (known : node ∈ topology) : (snapshots node).node = node := by
    obtain ⟨_, _, recording⟩ := complete node known
    exact recording.node
  have member (snapshot : LocalSnapshot) (inside : snapshot ∈ listing) :
      ∃ node ∈ topology, snapshots node = snapshot := by
    obtain ⟨node, key, same⟩ := List.mem_map.mp (listed.mem_iff.mp inside)
    exact ⟨node, Std.ExtTreeMap.mem_keys.mp key, same⟩
  have each (snapshot : LocalSnapshot) (inside : snapshot ∈ listing) :
      snapshot.epoch = epoch ∧ snapshot.node ∈ topology := by
    obtain ⟨node, known, rfl⟩ := member snapshot inside
    rw [named node known]
    exact ⟨(produced node known).2, known⟩
  have distinct : (listing.map LocalSnapshot.node).Nodup := by
    have keys : topology.keys.map (LocalSnapshot.node ∘ snapshots) = topology.keys.map id :=
      List.map_congr_left fun node key => named node (Std.ExtTreeMap.mem_keys.mp key)
    rw [(listed.map LocalSnapshot.node).nodup_iff, List.map_map, keys, List.map_id]
    exact Std.ExtTreeMap.nodup_keys
  obtain ⟨nodes, collected⟩ := collectNodes_ok each distinct
  have filed (node : NodeId) (known : node ∈ topology) :
      nodes[node]? = some (snapshots node) := by
    have inside : snapshots node ∈ listing := listed.mem_iff.mpr
      (List.mem_map_of_mem (Std.ExtTreeMap.mem_keys.mpr known))
    have found := (filed_of_collectNodes collected inside).1
    rw [named node known] at found
    exact found
  -- The first of the list has the epoch of all.
  obtain ⟨first, rest, cons⟩ : ∃ first rest, listing = first :: rest := by
    cases listing with
    | cons first rest => exact ⟨first, rest, rfl⟩
    | nil =>
      have none := listed.length_eq
      rw [List.length_map, Std.ExtTreeMap.length_keys] at none
      rw [Std.ExtTreeMap.isEmpty_iff.mpr
        (Std.ExtTreeMap.eq_empty_iff_size_eq_zero.mpr none.symm)] at nonempty
      cases nonempty
  have head : (listing.head?.map LocalSnapshot.epoch).getD 0 = epoch := by
    rw [cons]
    exact (each first (by rw [cons]; simp)).1
  have positive : 0 < epoch := by
    obtain ⟨node, known, _⟩ := member first (by rw [cons]; simp)
    obtain ⟨_, _, recording⟩ := complete node known
    rw [← (produced node known).2]
    exact recording.positive
  have length : listing.length = topology.size := by
    rw [listed.length_eq, List.length_map, Std.ExtTreeMap.length_keys]
  simp only [validateGlobal, bind_ok, require_ok, head]
  refine ⟨(), ⟨nonempty, length⟩, (), positive, nodes, collected, forM_ok.mpr ?_⟩
  rintro ⟨node, peers⟩ entry
  have found : topology[node]? = some peers :=
    Std.ExtTreeMap.mem_toList_iff_getElem?_eq_some.mp entry
  have linked : peersOf topology node = peers := by rw [peersOf, found, Option.getD_some]
  have known : node ∈ topology := by
    rw [Std.ExtTreeMap.mem_iff_isSome_getElem?, found]
    rfl
  rw [← linked]
  exact sound.validates_node symmetric produced filed known

end

/-- Every epoch that all participants complete is a consistent cut. Whatever the order of the
calls, the initiators and the other epochs: the records of a channel are exactly, in order and with
their payloads, the data messages that the sender sent before its capture and the receiver received
after its own; nothing that the receiver received before its capture was sent after the sender's;
and `ValidateGlobal` accepts the snapshots. -/
theorem completed_epoch_is_consistent_cut {limit : NodeId → Nat} (symmetric : Symmetric topology)
    (starts : Starts topology limit initial network) (calls : List (NodeId × NodeCall Λ))
    (produced : ∀ node ∈ topology, snapshots node ∈ (run applications calls network).taken node ∧
      (snapshots node).epoch = epoch) :
    (∀ sender receiver, receiver ∈ peersOf topology sender →
      Log.packetsOf sender (snapshots receiver).channels =
          (Log.receivedFrom sender
            (((run applications calls network).log receiver).after epoch)).filter
              (· ∈ Log.sentTo receiver (((run applications calls network).log sender).before epoch))
        ∧ (∀ packet ∈ Log.receivedFrom sender
              (((run applications calls network).log receiver).before epoch),
            packet ∉ Log.sentTo receiver
              (((run applications calls network).log sender).after epoch))
        ∧ Log.receivedFrom sender (((run applications calls network).log receiver).before epoch) ++
              Log.packetsOf sender (snapshots receiver).channels =
            Log.sentTo receiver (((run applications calls network).log sender).before epoch)) ∧
    (topology.isEmpty = false → ∀ listing : List LocalSnapshot,
      listing.Perm (topology.keys.map snapshots) → validateGlobal listing topology = .ok ()) := by
  have sound : Sound topology applications initial (run applications calls network) :=
    (Sound.start symmetric starts).run calls
  refine ⟨?_, fun nonempty listing listed => sound.validates symmetric nonempty produced listed⟩
  intro sender receiver linked
  have inside : sender ∈ topology := mem_topology_of_peer linked
  have other : receiver ∈ topology := mem_topology_of_peer (symmetric.back sender receiver linked)
  have cut := sound.cut symmetric linked (produced sender inside).1 (produced receiver other).1
    ((produced sender inside).2.trans (produced receiver other).2.symm)
  have records := (sound.complete receiver _ (produced receiver other).1).records_begins sender
  rw [(produced receiver other).2] at cut records
  have sent := ((sound.orderly sender).numbered receiver).1.nodup
  have received := ((sound.orderly receiver).numbered sender).2.nodup
  rw [← Log.before_append_after epoch (Network.log _ sender), Log.sentTo_append] at sent
  rw [← Log.before_append_after epoch (Network.log _ receiver), Log.receivedFrom_append] at received
  refine ⟨?_, ?_, cut⟩
  · obtain ⟨rest, arrived⟩ := records
    rw [← arrived] at received ⊢
    rw [List.filter_append, ← cut, List.filter_eq_self.mpr, List.filter_eq_nil_iff.mpr,
      List.append_nil]
    · intro packet late
      rw [decide_eq_true_eq, List.mem_append]
      rintro (early | recorded)
      · exact (List.nodup_append.mp received).2.2 packet early packet
          (List.mem_append_right _ late) rfl
      · exact (List.nodup_append.mp (List.nodup_append.mp received).2.1).2.2 packet recorded packet
          late rfl
    · intro packet recorded
      simp [recorded]
  · intro packet early late
    rw [← cut] at sent
    exact (List.nodup_append.mp sent).2.2 packet (List.mem_append_left _ early) packet late rfl

end Network

/-! ## A message that crosses a marker -/

theorem pairTopology_eq : pairTopology = ((∅ : Topology).insert 1 [2]).insert 2 [1] := by
  decide +kernel

theorem pairTopology_peers (node : NodeId) : peersOf pairTopology node =
    if node = 1 then [2] else if node = 2 then [1] else [] := by
  rw [peersOf, pairTopology_eq]
  simp only [Std.ExtTreeMap.getElem?_insert, Std.LawfulEqOrd.compare_eq_iff_eq]
  by_cases first : node = 1
  · simp [first]
  · by_cases second : node = 2
    · simp [second]
    · simp [first, second, Ne.symm first, Ne.symm second]

theorem pairTopology_symmetric : Symmetric pairTopology := by
  constructor
  · intro node
    rw [pairTopology_peers]
    split <;> [skip; split] <;> simp
  · intro node
    rw [pairTopology_peers]
    split <;> [skip; split] <;> simp [*]
  · intro node peer
    rw [pairTopology_peers, pairTopology_peers]
    grind

/-- An application that sends what it is told to and keeps what it is given. -/
def relaying : Application Bytes (NodeId × Bytes) where
  capture kept := kept
  deliver kept _ payload := kept ++ payload
  act kept message := (kept, some message)

/-- The first node sends a message that crosses the marker of the second node. -/
def crossingCalls : List (NodeId × NodeCall (NodeId × Bytes)) :=
  [(1, .act (2, [7])), (2, .initiate 1), (1, .receive 2), (2, .receive 1), (2, .receive 1),
    (1, .takeCompleted), (2, .takeCompleted)]

def crossing : Network Bytes (NodeId × Bytes) :=
  Network.run (fun _ => relaying) crossingCalls
    (Network.create pairTopology (fun _ => 64) fun _ => [])

def pairSnapshot (node : NodeId) : LocalSnapshot := if node = 1 then firstOfPair else secondOfPair

theorem crossing_starts : Network.Starts pairTopology (fun _ => 64) (fun _ => [])
    (Network.create pairTopology (fun _ => 64) fun _ => [] :
      Network Bytes (NodeId × Bytes)) :=
  Network.create_starts pairTopology_symmetric (fun _ => Nat.zero_lt_succ 63) fun _ => []

theorem mem_pairTopology {node : NodeId} : node ∈ pairTopology ↔ node = 1 ∨ node = 2 := by
  rw [pairTopology_eq]
  simp only [Std.ExtTreeMap.mem_insert, Std.LawfulEqOrd.compare_eq_iff_eq,
    Std.ExtTreeMap.not_mem_empty, or_false]
  grind

theorem crossing_produces : ∀ node ∈ pairTopology,
    pairSnapshot node ∈ crossing.taken node ∧ (pairSnapshot node).epoch = 1 := by
  intro node known
  rcases mem_pairTopology.mp known with rfl | rfl
  · decide +kernel
  · decide +kernel

/-- The second node records the message. -/
theorem crossing_is_consistent_cut :
    Log.packetsOf 1 secondOfPair.channels = [⟨1, [7]⟩] ∧
      Log.packetsOf 1 secondOfPair.channels =
        (Log.receivedFrom 1 ((crossing.log 2).after 1)).filter
          (· ∈ Log.sentTo 2 ((crossing.log 1).before 1)) := by
  have cut := Network.completed_epoch_is_consistent_cut pairTopology_symmetric crossing_starts
    crossingCalls crossing_produces
  exact ⟨rfl, (cut.1 1 2 (by decide +kernel)).1⟩

/-- Without participants there is nothing to complete, but `ValidateGlobal` refuses the empty
topology. -/
theorem empty_topology_refused :
    let network : Network Bytes (NodeId × Bytes) :=
      Network.run (fun _ => relaying) [] (Network.create ∅ (fun _ => 64) fun _ => [])
    Symmetric ∅ ∧ Network.Starts ∅ (fun _ => 64) (fun _ => []) network ∧
      (∀ node ∈ (∅ : Topology), pairSnapshot node ∈ network.taken node ∧
        (pairSnapshot node).epoch = 1) ∧
      validateGlobal ((∅ : Topology).keys.map pairSnapshot) ∅ =
        .error "incomplete global snapshot" := by
  intro network
  have symmetric : Symmetric ∅ := by
    constructor <;> simp [peersOf]
  refine ⟨symmetric, Network.create_starts symmetric (fun _ => Nat.zero_lt_succ 63) fun _ => [],
    ?_, rfl⟩
  intro node known
  exact (Std.ExtTreeMap.not_mem_empty known).elim

end Stormglass.Snapshot
