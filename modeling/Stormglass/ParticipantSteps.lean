import Stormglass.SnapshotRestore
import Stormglass.ParticipantLog

/-!
# The calls of a participant

What a call of a participant does to its host when it returns, and that a call that throws
transmits nothing and leaves the participant failed.
-/

namespace Stormglass.Snapshot

variable {σ Λ : Type}

namespace Participant

variable {callbacks : Callbacks σ} {host after : Host σ} {peer : NodeId} {payload : Bytes}
  {message : Message} {epoch : Nat} {text : String} {participant : Participant}

/-- The markers of an epoch, as `Start` transmits them. -/
def markers (sent : Counters) (epoch : Nat) : List (NodeId × Message) :=
  sent.toList.map fun entry => (entry.1, marker entry.2 epoch)

theorem of_send (returned : (send peer payload).run host = .ok () after) :
    ∃ count, host.participant.failed = false ∧ host.participant.sent[peer]? = some count ∧
      count ≠ maxSequence ∧ after = { host with
        participant := { host.participant with
          sent := host.participant.sent.insert peer (count + 1) }
        outbox := host.outbox ++ [(peer, data (count + 1) payload)] } := by
  simp only [send, checkHealthy, checkPeer, bind_assoc, self_bind, require_bind, poisoning_run,
    lookup_bind] at returned
  split at returned
  · next healthy =>
    split at returned
    · next ran =>
      split at ran
      · split at ran
        · next count found =>
          split at ran
          · next room =>
            rw [transmit_bind, change_run] at ran
            cases ran
            cases returned
            exact ⟨count, healthy, found, room, rfl⟩
          · cases ran
        · cases ran
      · cases ran
    · cases returned
  · cases returned

/-- A failed call transmits nothing, and the participant has failed. -/
def Poisoned (host after : Host σ) : Prop :=
  after.outbox = host.outbox ∧ after.participant.failed = true

theorem poisoned_send (thrown : (send peer payload).run host = .error text after) :
    Poisoned host after := by
  simp only [send, checkHealthy, checkPeer, bind_assoc, self_bind, require_bind, poisoning_run,
    lookup_bind] at thrown
  split at thrown
  · split at thrown
    · cases thrown
    · next ran =>
      cases thrown
      refine ⟨?_, rfl⟩
      split at ran
      · split at ran
        · split at ran
          · cases ran
          · cases ran
            rfl
        · cases ran
          rfl
      · cases ran
        rfl
  · next failed =>
    cases thrown
    exact ⟨rfl, by simpa using failed⟩

/-- What `Start` does when it returns. -/
structure Starts (callbacks : Callbacks σ) (epoch : Nat) (host after : Host σ) : Prop where
  fresh : host.participant.lastEpoch < epoch
  inactive : host.participant.active = none
  taken : host.participant.completed = none
  result : after = { host with
    participant := beginEpoch epoch (callbacks.capture host.state) host.participant
    outbox := host.outbox ++ markers host.participant.sent epoch }

theorem start_run (callbacks : Callbacks σ) (epoch : Nat) (host : Host σ) :
    (∃ after, (start callbacks epoch).run host = .ok () after ∧
      Starts callbacks epoch host after) ∨
    ∃ text, (start callbacks epoch).run host = .error text host ∧
      (text = "snapshot state exceeds limit" ∨ text = "overlapping/stale snapshot epoch" ∧
        ¬ (epoch > host.participant.lastEpoch ∧ host.participant.active = none ∧
          host.participant.completed = none)) := by
  by_cases ready : epoch > host.participant.lastEpoch ∧ host.participant.active = none ∧
      host.participant.completed = none
  · by_cases fits : (callbacks.capture host.state).length ≤ host.participant.limit
    · left
      refine ⟨_, ?_, ready.1, ready.2.1, ready.2.2, rfl⟩
      simp only [start, self_bind, require_bind, if_pos ready, get_bind, if_pos fits, change_bind]
      have loop := forM_transmit_bind host.participant.sent.toList
        (fun entry : NodeId × Nat => (entry.1, marker entry.2 epoch)) pure
        { host with
          participant := beginEpoch epoch (callbacks.capture host.state) host.participant }
      rw [bind_pure_unit] at loop
      exact loop
    · right
      refine ⟨"snapshot state exceeds limit", ?_, .inl rfl⟩
      simp only [start, self_bind, require_bind, if_pos ready, get_bind, if_neg fits]
  · right
    refine ⟨"overlapping/stale snapshot epoch", ?_, .inr ⟨rfl, ready⟩⟩
    simp only [start, self_bind, require_bind, if_neg ready]

theorem run_bind_error {α β : Type} {first : Method σ α} {next : α → Method σ β}
    (one : first.run host = .error text after) :
    (first >>= next).run host = .error text after := by
  have found : first host = .error text after := one
  change EStateM.bind first next host = _
  simp only [EStateM.bind, found]

/-- What `Initiate` does when it returns. -/
theorem of_initiate_ok (returned : (initiate callbacks epoch).run host = .ok () after) :
    host.participant.failed = false ∧ ∃ started, Starts callbacks epoch host started ∧
      after = { started with participant := finishIfReady started.participant } := by
  simp only [initiate, checkHealthy, bind_assoc, self_bind, require_bind, poisoning_run] at returned
  split at returned
  · next healthy =>
    rcases start_run callbacks epoch host with ⟨started, ran, starts⟩ | ⟨text, ran, _⟩
    · rw [run_bind ran, change_run] at returned
      cases returned
      exact ⟨healthy, started, starts, rfl⟩
    · rw [run_bind_error ran] at returned
      cases returned
  · cases returned

theorem poisoned_initiate (thrown : (initiate callbacks epoch).run host = .error text after) :
    Poisoned host after := by
  simp only [initiate, checkHealthy, bind_assoc, self_bind, require_bind, poisoning_run] at thrown
  split at thrown
  · rcases start_run callbacks epoch host with ⟨started, ran, starts⟩ | ⟨text, ran, _⟩
    · rw [run_bind ran, change_run] at thrown
      cases thrown
    · rw [run_bind_error ran] at thrown
      cases thrown
      exact ⟨rfl, rfl⟩
  · next failed =>
    cases thrown
    exact ⟨rfl, by simpa using failed⟩

/-- What the data branch does when it returns. -/
structure TakesData (callbacks : Callbacks σ) (peer : NodeId) (message : Message)
    (host after : Host σ) : Prop where
  known : peer ∈ host.participant.received
  next : ∃ count, host.participant.received[peer]? = some count ∧ count ≠ maxSequence ∧
    message.sequence = count + 1
  plain : message.epoch = 0
  result : after = { host with
    participant :=
      let kept := if host.participant.active ≠ none ∧ peer ∉ host.participant.marked then
        record peer message host.participant else host.participant
      { kept with received := kept.received.insert peer message.sequence }
    state := callbacks.deliver host.state peer message.payload }

/-- What the marker branch does when it returns, from the host in which the epoch is open. -/
structure TakesMarker (peer : NodeId) (message : Message) (host after : Host σ) : Prop where
  next : host.participant.received[peer]? = some message.sequence
  plain : message.payload = []
  current : host.participant.active.map LocalSnapshot.epoch = some message.epoch
  unmarked : peer ∉ host.participant.marked
  result : after = { host with
    participant := finishIfReady (close peer message host.participant) }

/-- The host in which a marker finds its epoch open. -/
def Opens (callbacks : Callbacks σ) (epoch : Nat) (host middle : Host σ) : Prop :=
  host.participant.active ≠ none ∧ middle = host ∨ Starts callbacks epoch host middle

theorem receiveData_run (callbacks : Callbacks σ) (peer : NodeId) (message : Message)
    (host : Host σ) (known : peer ∈ host.participant.received) :
    (∃ after, (receiveData callbacks peer message).run host = .ok () after ∧
      TakesData callbacks peer message host after) ∨
    ∃ text, (receiveData callbacks peer message).run host = .error text host := by
  simp only [receiveData, self_bind, lookup_bind]
  obtain ⟨count, found⟩ : ∃ count, host.participant.received[peer]? = some count := by
    rw [Std.ExtTreeMap.mem_iff_isSome_getElem?] at known
    exact Option.isSome_iff_exists.mp known
  rw [found]
  dsimp only
  rw [require_bind]
  split
  · next valid =>
    by_cases recording : host.participant.active ≠ none ∧ peer ∉ host.participant.marked
    · rw [if_pos recording]
      simp only [require_bind]
      split
      · left
        refine ⟨_, rfl, known, ⟨count, found, valid.2⟩, valid.1, ?_⟩
        rw [if_pos recording]
      · exact .inr ⟨_, rfl⟩
    · rw [if_neg recording]
      left
      refine ⟨_, rfl, known, ⟨count, found, valid.2⟩, valid.1, ?_⟩
      rw [if_neg recording]
  · exact .inr ⟨_, rfl⟩

theorem receiveMarker_run (callbacks : Callbacks σ) (peer : NodeId) (message : Message)
    (host : Host σ) (known : peer ∈ host.participant.received) :
    (∃ middle after, (receiveMarker callbacks peer message).run host = .ok () after ∧
      Opens callbacks message.epoch host middle ∧ TakesMarker peer message middle after) ∨
    ∃ text, (receiveMarker callbacks peer message).run host = .error text host := by
  simp only [receiveMarker, self_bind, lookup_bind, require_bind]
  obtain ⟨count, found⟩ : ∃ count, host.participant.received[peer]? = some count := by
    rw [Std.ExtTreeMap.mem_iff_isSome_getElem?] at known
    exact Option.isSome_iff_exists.mp known
  split
  · next valid =>
    rw [found]
    dsimp only
    split
    · next frontier =>
      by_cases active : host.participant.active = none
      · -- The marker opens the epoch, so the checks that follow cannot fail.
        rw [if_pos active]
        rcases start_run callbacks message.epoch host with ⟨middle, ran, starts⟩ | ⟨text, ran, _⟩
        · left
          rw [run_bind ran, self_bind, require_bind]
          obtain ⟨_, _, _, rfl⟩ := starts
          refine ⟨_, _, ?_, .inr ⟨‹_›, active, ‹_›, rfl⟩, ?_, valid.1, rfl, ?_, rfl⟩
          · rw [if_pos ⟨rfl, Std.ExtTreeSet.not_mem_empty⟩]
            rfl
          · rw [frontier]
            exact found
          · exact Std.ExtTreeSet.not_mem_empty
        · exact .inr ⟨text, run_bind_error ran⟩
      · rw [if_neg active, self_bind, require_bind]
        split
        · next current =>
          left
          refine ⟨host, _, rfl, .inl ⟨active, rfl⟩, ?_, valid.1, current.1, current.2, rfl⟩
          rw [frontier]
          exact found
        · exact .inr ⟨_, rfl⟩
    · exact .inr ⟨_, rfl⟩
  · exact .inr ⟨_, rfl⟩

/-- What `Receive` does when it returns. -/
inductive Receives (callbacks : Callbacks σ) (peer : NodeId) (message : Message)
    (host after : Host σ) : Prop where
  | data (kind : message.kind = .data) (takes : TakesData callbacks peer message host after)
  | marker (kind : message.kind = .marker) (middle : Host σ)
      (opens : Opens callbacks message.epoch host middle)
      (takes : TakesMarker peer message middle after)

theorem receive_run (callbacks : Callbacks σ) (peer : NodeId) (message : Message)
    (host : Host σ) :
    (∃ after, (receive callbacks peer message).run host = .ok () after ∧
      host.participant.failed = false ∧ Receives callbacks peer message host after) ∨
    ∃ text after, (receive callbacks peer message).run host = .error text after ∧
      Poisoned host after := by
  simp only [receive, checkHealthy, checkPeer, bind_assoc, self_bind, require_bind, poisoning_run]
  by_cases healthy : host.participant.failed = false
  · rw [if_pos healthy]
    by_cases known : peer ∈ host.participant.received
    · rw [if_pos known]
      cases kind : message.kind with
      | data =>
        rcases receiveData_run callbacks peer message host known with
          ⟨after, ran, takes⟩ | ⟨text, ran⟩
        · rw [ran]
          exact .inl ⟨after, rfl, healthy, .data kind takes⟩
        · rw [ran]
          exact .inr ⟨_, _, rfl, rfl, rfl⟩
      | marker =>
        rcases receiveMarker_run callbacks peer message host known with
          ⟨middle, after, ran, opens, takes⟩ | ⟨text, ran⟩
        · rw [ran]
          exact .inl ⟨after, rfl, healthy, .marker kind middle opens takes⟩
        · rw [ran]
          exact .inr ⟨_, _, rfl, rfl, rfl⟩
    · rw [if_neg known]
      exact .inr ⟨_, _, rfl, rfl, rfl⟩
  · rw [if_neg healthy]
    exact .inr ⟨_, _, rfl, rfl, by simpa using healthy⟩

/-- `TakeCompleted` hands out the completed snapshot, or throws and changes nothing. -/
theorem takeCompleted_run (host : Host σ) :
    (∃ snapshot, host.participant.failed = false ∧
      host.participant.completed = some snapshot ∧ takeCompleted.run host = .ok snapshot
        { host with participant := { host.participant with completed := none } }) ∨
    ∃ text, takeCompleted.run host = .error text host := by
  simp only [takeCompleted, checkHealthy, bind_assoc, self_bind, require_bind]
  by_cases healthy : host.participant.failed = false
  · rw [if_pos healthy]
    cases completed : host.participant.completed with
    | none => exact .inr ⟨_, rfl⟩
    | some snapshot => exact .inl ⟨snapshot, healthy, rfl, rfl⟩
  · rw [if_neg healthy]
    exact .inr ⟨_, rfl⟩

/-- The epoch is being recorded, or it is complete and not handed out. -/
def Holds (participant : Participant) (epoch : Nat) : Prop :=
  participant.active.map LocalSnapshot.epoch = some epoch ∨
    participant.completed.map LocalSnapshot.epoch = some epoch

/-- An epoch is not opened before the last one is handed out. -/
def Exclusive (participant : Participant) : Prop :=
  participant.active ≠ none → participant.completed = none

/-- Between two calls an open epoch waits for a marker. -/
structure Settled (participant : Participant) : Prop where
  exclusive : participant.Exclusive
  waiting : participant.active ≠ none → participant.marked.size ≠ participant.received.size

theorem TakesData.settled (takes : TakesData callbacks peer message host after)
    (settled : host.participant.Settled) : after.participant.Settled := by
  have size : (host.participant.received.insert peer message.sequence).size =
      host.participant.received.size := by
    rw [Std.ExtTreeMap.size_insert]
    exact if_pos takes.known
  rw [takes.result]
  by_cases recording : host.participant.active ≠ none ∧ peer ∉ host.participant.marked
  · simp only [if_pos recording]
    refine ⟨fun _ => settled.exclusive recording.1, fun _ => ?_⟩
    simp only [record]
    rw [size]
    exact settled.waiting recording.1
  · simp only [if_neg recording]
    refine ⟨settled.exclusive, fun open_ => ?_⟩
    dsimp only
    rw [size]
    exact settled.waiting open_

theorem TakesData.holds (takes : TakesData callbacks peer message host after)
    (holds : host.participant.Holds epoch) : after.participant.Holds epoch := by
  rw [takes.result]
  by_cases recording : host.participant.active ≠ none ∧ peer ∉ host.participant.marked
  · simp only [if_pos recording]
    simpa [Holds, record] using holds
  · simp only [if_neg recording]
    exact holds

theorem finishIfReady_settled (exclusive : participant.Exclusive) :
    (finishIfReady participant).Settled := by
  unfold finishIfReady
  split
  · next snapshot open_ =>
    split
    · exact ⟨fun open_ => (open_ rfl).elim, fun open_ => (open_ rfl).elim⟩
    · next waits => exact ⟨exclusive, fun _ => waits⟩
  · next closed => exact ⟨exclusive, fun open_ => (open_ closed).elim⟩

theorem finishIfReady_holds (exclusive : participant.Exclusive) (holds : participant.Holds epoch) :
    (finishIfReady participant).Holds epoch := by
  unfold finishIfReady
  split
  · next snapshot open_ =>
    split
    · right
      rcases holds with active | completed
      · rw [open_] at active
        exact active
      · rw [exclusive (by simp [open_])] at completed
        cases completed
    · exact holds
  · exact holds

/-- What a call does to the completed epochs: nothing, or it completes a later one. -/
def Progresses (before after : Participant) : Prop :=
  after.completed = before.completed ∧ after.lastEpoch = before.lastEpoch ∨
    before.completed = none ∧ before.lastEpoch < after.lastEpoch ∧
      ∃ snapshot, after.completed = some snapshot ∧ snapshot.epoch = after.lastEpoch

theorem finishIfReady_progresses (exclusive : participant.Exclusive)
    (later : ∀ snapshot, participant.active = some snapshot →
      participant.lastEpoch < snapshot.epoch) :
    Progresses participant (finishIfReady participant) := by
  unfold finishIfReady
  split
  · next snapshot open_ =>
    split
    · exact .inr ⟨exclusive (by simp [open_]), later snapshot open_, snapshot, rfl, rfl⟩
    · exact .inl ⟨rfl, rfl⟩
  · exact .inl ⟨rfl, rfl⟩

theorem finishIfReady_failed (participant : Participant) :
    (finishIfReady participant).failed = participant.failed := by
  unfold finishIfReady
  split
  · split <;> rfl
  · rfl

end Participant

end Stormglass.Snapshot
