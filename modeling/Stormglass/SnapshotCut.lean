import Stormglass.SnapshotNetwork

/-!
# The snapshots of an epoch form a consistent cut

The marker of an epoch splits every channel. Before it the sender put exactly what it sent before
its capture, and the receiver consumed exactly what it received before its capture or recorded.
A receiver consumes the first of what the sender put on the channel, so the two parts agree: nothing
that a node received before its capture was sent after the sender's capture, and the records are
what was sent before and received after.

This is enough for `ValidateGlobal`, and hence for restoring every node.
-/

namespace Stormglass.Snapshot

variable {σ Λ : Type}

/-! ## A marker splits its channel -/

/-- The message is a marker of the epoch. -/
def Message.marks (epoch : Nat) (message : Message) : Bool :=
  message.kind = .marker ∧ message.epoch = epoch

/-- The packet of a data message. -/
def Message.packet (message : Message) : Option Packet :=
  match message.kind with
  | .data => some ⟨message.sequence, message.payload⟩
  | .marker => none

namespace Log

variable {peer : NodeId} {epoch : Nat}

theorem packets_outgoing (peer : NodeId) (log : Log Λ) :
    (outgoing peer log).filterMap Message.packet = sentTo peer log := by
  induction log with
  | nil => rfl
  | cons event rest inductionHypothesis =>
    have split : outgoing peer (event :: rest) =
        outgoing peer [event] ++ outgoing peer rest := outgoing_append peer [event] rest
    have parts : sentTo peer (event :: rest) = sentTo peer [event] ++ sentTo peer rest :=
      sentTo_append peer [event] rest
    rw [split, parts, List.filterMap_append, inductionHypothesis]
    congr 1
    cases event with
    | acted label message =>
      cases message with
      | none => rfl
      | some entry =>
        by_cases here : entry.1 = peer
        · simp [outgoing, addressed, Event.transmits, sentTo, Event.packetTo, here, Packet.message,
            Participant.data, Message.packet]
        · simp [outgoing, addressed, Event.transmits, sentTo, Event.packetTo, here]
    | captured of sent =>
      rw [List.filterMap_eq_nil_iff.mpr]
      · rfl
      · intro message member
        obtain ⟨entry, inside, same⟩ := List.mem_filterMap.mp member
        simp only [List.flatMap_singleton, Event.transmits, List.mem_map] at inside
        obtain ⟨counter, _, rfl⟩ := inside
        split at same
        · obtain rfl := Option.some.inj same
          rfl
        · cases same
    | received | closed => rfl

theorem packets_consumed (peer : NodeId) (log : Log Λ) :
    (consumed peer log).filterMap Message.packet = receivedFrom peer log := by
  induction log with
  | nil => rfl
  | cons event rest inductionHypothesis =>
    have split : consumed peer (event :: rest) =
        consumed peer [event] ++ consumed peer rest := consumed_append peer [event] rest
    have parts : receivedFrom peer (event :: rest) =
        receivedFrom peer [event] ++ receivedFrom peer rest := receivedFrom_append peer [event] rest
    rw [split, parts, List.filterMap_append, inductionHypothesis]
    congr 1
    cases event with
    | received sender packet =>
      by_cases here : sender = peer
      · simp [consumed, Event.consumes, receivedFrom, Event.packetFrom, here, Packet.message,
          Participant.data, Message.packet]
      · simp [consumed, Event.consumes, receivedFrom, Event.packetFrom, here]
    | closed sender sequence of =>
      by_cases here : sender = peer
      · rw [consumed, List.flatMap_singleton, Event.consumes, if_pos here]
        rfl
      · rw [consumed, List.flatMap_singleton, Event.consumes, if_neg here]
        rfl
    | acted | captured => rfl

/-- A marker of the epoch is put on the channel by a capture. -/
theorem captured_of_marks {log : Log Λ} {message : Message} (member : message ∈ outgoing peer log)
    (marks : message.marks epoch) : log.Captured epoch := by
  obtain ⟨entry, inside, same⟩ := List.mem_filterMap.mp member
  obtain ⟨event, listed, transmitted⟩ := List.mem_flatMap.mp inside
  split at same
  · obtain rfl := Option.some.inj same
    refine ⟨event, listed, ?_⟩
    cases event with
    | acted label message =>
      cases message with
      | none => cases transmitted
      | some sent =>
        simp only [Event.transmits, List.mem_singleton] at transmitted
        simp [transmitted, Message.marks, Packet.message, Participant.data] at marks
    | captured of sent =>
      simp only [Event.transmits, List.mem_map] at transmitted
      obtain ⟨counter, _, rfl⟩ := transmitted
      simpa [Message.marks, Participant.marker, Event.captures] using marks
    | received | closed => cases transmitted
  · cases same

/-- A marker of the epoch is consumed when it closes the channel. -/
theorem closed_of_marks {log : Log Λ} {message : Message} (member : message ∈ consumed peer log)
    (marks : message.marks epoch) : Log.Closed peer epoch log := by
  obtain ⟨event, listed, consumes⟩ := List.mem_flatMap.mp member
  refine ⟨event, listed, ?_⟩
  cases event with
  | received sender packet =>
    simp only [Event.consumes] at consumes
    split at consumes
    · obtain rfl := List.mem_singleton.mp consumes
      simp [Message.marks, Packet.message, Participant.data] at marks
    · cases consumes
  | closed sender sequence of =>
    simp only [Event.consumes] at consumes
    split at consumes
    · next here =>
      obtain rfl := List.mem_singleton.mp consumes
      simpa [Message.marks, Participant.marker, Event.closes, here] using marks
    · cases consumes
  | acted | captured => cases consumes

/-- What precedes the first stopping element. -/
theorem takeWhile_split {α : Type} {stop : α → Bool} {front back : List α} {first : α}
    (running : ∀ item ∈ front, stop item = false) (stops : stop first) :
    ((front ++ first :: back).takeWhile fun item => !stop item) = front := by
  rw [takeWhile_running]
  · simp [stops]
  · rintro ⟨item, member, stopped⟩
    rw [running item member] at stopped
    cases stopped

/-- A list with a stopping element splits at the first one. -/
theorem exists_first {α : Type} {stop : α → Bool} {items : List α}
    (stopped : ∃ item ∈ items, stop item) :
    ∃ first rest, stop first ∧ (items.dropWhile fun item => !stop item) = first :: rest := by
  obtain ⟨item, member, stops⟩ := stopped
  cases left : items.dropWhile fun item => !stop item with
  | nil => simpa [stops] using List.dropWhile_eq_nil_iff.mp left item member
  | cons first rest =>
    have running := List.head?_dropWhile_not (fun item => !stop item) items
    exact ⟨first, rest, by simpa [left] using running, rfl⟩

/-- The sender puts the marker of an epoch behind what it sent before its capture. -/
theorem outgoing_until_marker {peers : List NodeId} {log : Log Λ} (orderly : Orderly peers log)
    (captured : log.Captured epoch) (linked : peer ∈ peers) :
    ((outgoing peer log).takeWhile fun message => !message.marks epoch) =
      outgoing peer (log.before epoch) := by
  obtain ⟨event, rest, captures, tail⟩ := exists_first captured
  obtain ⟨sent, rfl⟩ := Event.captures_iff.mp captures
  have whole : log = log.before epoch ++ .captured epoch sent :: rest := by
    rw [← tail]
    exact (before_append_after epoch log).symm
  have member : .captured epoch sent ∈ log := by
    rw [whole]
    simp
  have announced : peer ∈ sent := (orderly.announced member peer).mpr linked
  -- The capture puts a marker on the channel, and all it puts there are markers.
  have marked : ∀ message ∈ outgoing peer [(.captured epoch sent : Event Λ)],
      message.marks epoch := by
    intro message member
    obtain ⟨entry, inside, same⟩ := List.mem_filterMap.mp member
    simp only [List.flatMap_singleton, Event.transmits, List.mem_map] at inside
    obtain ⟨counter, _, rfl⟩ := inside
    split at same
    · obtain rfl := Option.some.inj same
      simp [Message.marks, Participant.marker]
    · cases same
  obtain ⟨count, counted⟩ : ∃ count, sent[peer]? = some count :=
    Option.isSome_iff_exists.mp (Std.ExtTreeMap.mem_iff_isSome_getElem?.mp announced)
  have present : Participant.marker count epoch ∈
      outgoing peer [(.captured epoch sent : Event Λ)] := by
    refine List.mem_filterMap.mpr ⟨(peer, Participant.marker count epoch), ?_, if_pos rfl⟩
    simp only [List.flatMap_singleton, Event.transmits, List.mem_map]
    exact ⟨(peer, count), Std.ExtTreeMap.mem_toList_iff_getElem?_eq_some.mpr counted, rfl⟩
  obtain ⟨first, more, markers⟩ := List.exists_cons_of_ne_nil (List.ne_nil_of_mem present)
  have split : outgoing peer log =
      outgoing peer (log.before epoch) ++ first :: (more ++ outgoing peer rest) := by
    have parts := outgoing_append peer (log.before epoch) (.captured epoch sent :: rest)
    have last := outgoing_append peer [(.captured epoch sent : Event Λ)] rest
    rw [← whole] at parts
    rw [markers] at last
    rw [parts]
    exact congrArg _ last
  rw [split]
  refine takeWhile_split ?_ (marked first (by rw [markers]; simp))
  intro message member
  by_contra marks
  obtain ⟨event, inside, captures⟩ := captured_of_marks member (by simpa using marks)
  have stays := List.mem_takeWhile_imp inside
  simp [captures] at stays

/-- The receiver consumes the marker of an epoch behind what it received before its capture and
what it received on the open channel. -/
theorem consumed_until_marker {peers : List NodeId} {log : Log Λ} (orderly : Orderly peers log)
    (closed : Log.Closed peer epoch (log.after epoch)) :
    ((consumed peer log).takeWhile fun message => !message.marks epoch) =
      consumed peer (log.before epoch ++ untilClosed peer epoch (log.after epoch)) := by
  obtain ⟨event, rest, closes, tail⟩ := exists_first closed
  obtain ⟨sequence, rfl⟩ := Event.closes_iff.mp closes
  have whole : log = (log.before epoch ++ untilClosed peer epoch (log.after epoch)) ++
      .closed peer sequence epoch :: rest := by
    rw [← tail, List.append_assoc, untilClosed, List.takeWhile_append_dropWhile,
      before_append_after]
  have marker : consumed peer (.closed peer sequence epoch :: rest : Log Λ) =
      Participant.marker sequence epoch :: consumed peer rest := by
    simp [consumed, Event.consumes]
  have split := consumed_append peer
    (log.before epoch ++ untilClosed peer epoch (log.after epoch))
    (.closed peer sequence epoch :: rest)
  rw [← whole, marker] at split
  rw [split]
  refine takeWhile_split ?_ (by simp [Message.marks, Participant.marker])
  intro message member
  by_contra marks
  rcases closed_append.mp (closed_of_marks member (by simpa using marks)) with early | late
  · exact orderly.opened peer epoch early
  · obtain ⟨event, inside, closes⟩ := late
    have stays := List.mem_takeWhile_imp inside
    simp [closes] at stays

end Log

/-! ## The channels of a complete epoch -/

namespace Complete

variable {application : Application σ Λ} {initial : σ} {node peer : NodeId} {peers : List NodeId}
  {log : Log Λ} {snapshot : LocalSnapshot}

section

variable (complete : Complete application initial node peers log snapshot)

include complete

/-- The records of a channel are what arrived on it between the capture and the marker. -/
theorem records (peer : NodeId) :
    Log.packetsOf peer snapshot.channels =
      Log.receivedFrom peer (Log.untilClosed peer snapshot.epoch (log.after snapshot.epoch)) := by
  obtain ⟨marked, _, recording⟩ := complete
  rw [recording.channels, Log.packetsOf_recordedFrom, if_neg (by simp)]

theorem closed (linked : peer ∈ peers) :
    Log.Closed peer snapshot.epoch (log.after snapshot.epoch) := by
  obtain ⟨marked, all, recording⟩ := complete
  exact (recording.closed peer).mp ((all peer).mpr linked)

theorem captured :
    log.Captured snapshot.epoch := by
  obtain ⟨_, _, recording⟩ := complete
  exact recording.captured

/-- The records are the first of what arrived after the capture. -/
theorem records_begins (peer : NodeId) :
    Log.packetsOf peer snapshot.channels <+: Log.receivedFrom peer (log.after snapshot.epoch) := by
  rw [complete.records]
  exact (List.takeWhile_prefix _).filterMap _

end

end Complete

namespace Network

variable {topology : Topology} {applications : NodeId → Application σ Λ} {initial : NodeId → σ}
  {network : Network σ Λ} {sender receiver : NodeId}

/-- A receiver has consumed the first of what the sender has put on the channel. -/
theorem Sound.consumed_begins (sound : Sound topology applications initial network)
    (sender receiver : NodeId) :
    Log.consumed sender (network.log receiver) <+: Log.outgoing receiver (network.log sender) := by
  obtain ⟨lost, _, flows⟩ := sound.wired sender receiver
  exact ⟨_, flows⟩

/-- What a sender sent before its capture is what the receiver received before its capture,
followed by its records. -/
theorem Sound.cut (sound : Sound topology applications initial network)
    (symmetric : Symmetric topology) (linked : receiver ∈ peersOf topology sender)
    {first last : LocalSnapshot} (sends : first ∈ network.taken sender)
    (receives : last ∈ network.taken receiver) (same : first.epoch = last.epoch) :
    Log.receivedFrom sender ((network.log receiver).before last.epoch) ++
        Log.packetsOf sender last.channels =
      Log.sentTo receiver ((network.log sender).before last.epoch) := by
  have complete := sound.complete receiver last receives
  have captured := (sound.complete sender first sends).captured
  rw [same] at captured
  have closed := complete.closed (symmetric.back sender receiver linked)
  have received := Log.consumed_until_marker (sound.orderly receiver) closed
  have sent := Log.outgoing_until_marker (sound.orderly sender) captured linked
  -- The marker was consumed, so it ends the same part of both lists.
  obtain ⟨rest, flows⟩ := sound.consumed_begins sender receiver
  have stopped : ∃ message ∈ Log.consumed sender (network.log receiver),
      message.marks last.epoch := by
    obtain ⟨event, member, closes⟩ := closed
    obtain ⟨sequence, rfl⟩ := Event.closes_iff.mp closes
    refine ⟨Participant.marker sequence last.epoch, ?_, by simp [Message.marks, Participant.marker]⟩
    refine List.mem_flatMap.mpr ⟨.closed sender sequence last.epoch, ?_, by simp [Event.consumes]⟩
    exact (List.dropWhile_suffix _).subset member
  rw [← flows, Log.takeWhile_stopped rest stopped, received] at sent
  rw [complete.records, ← Log.receivedFrom_append, ← Log.packets_consumed, sent,
    Log.packets_outgoing]

end Network

end Stormglass.Snapshot
