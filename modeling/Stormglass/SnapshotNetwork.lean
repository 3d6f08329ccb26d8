import Stormglass.ParticipantRecords
import Stormglass.CausalCuts

/-!
# Participants on reliable channels

The nodes of a topology with an application each, and a FIFO channel from every node to every peer.
A call runs a method of one participant. What the method transmits joins the ends of the channels,
and `Receive` takes the message at the front of its channel. Any node may make the next call, so a
list of calls is any interleaving, with any initiators and any number of epochs.

A call that throws leaves the participant as the method left it, and the message it was given is
gone. The history lists the events of the calls that returned. No call reads it.
-/

namespace Stormglass.Snapshot

variable {σ Λ : Type}

/-- The peers of a node. A node outside the topology has none. -/
def peersOf (topology : Topology) (node : NodeId) : List NodeId := (topology[node]?).getD []

/-- Links go both ways, no node is linked twice to a peer, and none to itself. -/
structure Symmetric (topology : Topology) : Prop where
  distinct : ∀ node, (peersOf topology node).Nodup
  foreign : ∀ node, node ∉ peersOf topology node
  back : ∀ node peer, peer ∈ peersOf topology node → node ∈ peersOf topology peer

/-- The calls that a node can make. -/
inductive NodeCall (Λ : Type) where
  | act (label : Λ)
  | initiate (epoch : Nat)
  | receive (peer : NodeId)
  | takeCompleted

/-- A local step of the application, and `Send` if it has a payload for a peer. -/
def Application.step (application : Application σ Λ) (label : Λ) :
    Method σ (Option (NodeId × Bytes)) := do
  let moved := application.act (← get).state label
  modify fun host => { host with state := moved.1 }
  moved.2.forM fun message => Participant.send message.1 message.2
  return moved.2

/-- What the application makes of an event. A local step sends what the application tells. -/
def Application.next (application : Application σ Λ) (state : σ) (event : Event Λ) : Option σ :=
  match event with
  | .acted label message =>
    if (application.act state label).2 = message.map (fun entry => (entry.1, entry.2.payload)) then
      some (application.act state label).1
    else none
  | event => some (event.apply application state)

structure Network (σ Λ : Type) where
  hosts : NodeId → Host σ
  /-- The channel from a sender to a receiver, oldest message first. -/
  channels : NodeId → NodeId → List Message
  /-- What `TakeCompleted` has returned at a node. -/
  taken : NodeId → List LocalSnapshot
  history : List (NodeId × Event Λ)

namespace Network

/-- The events of one node. -/
def log (network : Network σ Λ) (node : NodeId) : Log Λ := CausalCuts.own node network.history

/-- A call of a node has ended with its host, and the outbox goes to the channels. -/
def ended (network : Network σ Λ) (node : NodeId) (host : Host σ) (events : List (Event Λ)) :
    Network σ Λ where
  hosts := Function.update network.hosts node { host with outbox := [] }
  channels sender receiver := network.channels sender receiver ++
    if sender = node then addressed receiver host.outbox else []
  taken := network.taken
  history := network.history ++ events.map fun event => (node, event)

/-- The front message leaves its channel. -/
def drop (network : Network σ Λ) (sender receiver : NodeId) : Network σ Λ :=
  { network with
    channels := fun source target => if source = sender ∧ target = receiver then
      (network.channels source target).tail else network.channels source target }

/-- A completed snapshot was handed out. -/
def handOut (network : Network σ Λ) (node : NodeId) (snapshot : LocalSnapshot) : Network σ Λ :=
  { network with
    taken := Function.update network.taken node (network.taken node ++ [snapshot]) }

/-- The events of a message that was received. The first marker of an epoch captures. -/
def arrival (host : Host σ) (peer : NodeId) (message : Message) : List (Event Λ) :=
  match message.kind with
  | .data => [.received peer ⟨message.sequence, message.payload⟩]
  | .marker =>
    if host.participant.active = none then
      [.captured message.epoch host.participant.sent,
        .closed peer message.sequence message.epoch]
    else [.closed peer message.sequence message.epoch]

/-- The packet that a local step has sent. `Send` has counted it. -/
def packetSent (host : Host σ) (message : NodeId × Bytes) : NodeId × Packet :=
  (message.1, ⟨(host.participant.sent[message.1]?).getD 0, message.2⟩)

/-- One call of a node. -/
def call (application : Application σ Λ) (node : NodeId) (network : Network σ Λ) :
    NodeCall Λ → Network σ Λ
  | .act label =>
    match (application.step label).run (network.hosts node) with
    | .ok message host => network.ended node host [.acted label (message.map (packetSent host))]
    | .error _ host => network.ended node host []
  | .initiate epoch =>
    match (Participant.initiate application.toCallbacks epoch).run (network.hosts node) with
    | .ok _ host => network.ended node host
        [.captured epoch (network.hosts node).participant.sent]
    | .error _ host => network.ended node host []
  | .receive peer =>
    match (network.channels peer node).head? with
    | none => network
    | some message =>
      match (Participant.receive application.toCallbacks peer message).run
          (network.hosts node) with
      | .ok _ host => (network.drop peer node).ended node host
          (arrival (network.hosts node) peer message)
      | .error _ host => (network.drop peer node).ended node host []
  | .takeCompleted =>
    match Participant.takeCompleted.run (network.hosts node) with
    | .ok snapshot host => (network.ended node host []).handOut node snapshot
    | .error _ host => network.ended node host []

/-- A run of calls in any order. -/
def run (applications : NodeId → Application σ Λ) (calls : List (NodeId × NodeCall Λ))
    (network : Network σ Λ) : Network σ Λ :=
  calls.foldl (fun network entry => call (applications entry.1) entry.1 network entry.2) network

/-- New participants over the initial applications, and empty channels. -/
structure Starts (topology : Topology) (limit : NodeId → Nat) (initial : NodeId → σ)
    (network : Network σ Λ) : Prop where
  created : ∀ node, Participant.create node (peersOf topology node) (limit node) =
    .ok (network.hosts node).participant
  state : ∀ node, (network.hosts node).state = initial node
  outbox : ∀ node, (network.hosts node).outbox = []
  channels : ∀ sender receiver, network.channels sender receiver = []
  taken : ∀ node, network.taken node = []
  history : network.history = []

/-- The participants are as new. -/
theorem Starts.fresh {topology : Topology} {limit : NodeId → Nat} {initial : NodeId → σ}
    {network : Network σ Λ} (starts : Starts topology limit initial network)
    (symmetric : Symmetric topology) (node : NodeId) :
    (network.hosts node).participant.Fresh node (peersOf topology node) (limit node) := by
  have created := starts.created node
  have positive : 0 < limit node := by
    have checked := created
    simp only [Participant.create, bind_ok, require_ok] at checked
    exact checked.choose_spec.1
  obtain ⟨participant, built, fresh⟩ := Participant.create_fresh positive
    (symmetric.distinct node) (symmetric.foreign node)
  obtain rfl := Except.ok.inj (built.symm.trans created)
  exact fresh

/-- The network of new participants. -/
def create (topology : Topology) (limit : NodeId → Nat) (initial : NodeId → σ) :
    Network σ Λ where
  hosts node :=
    { participant := match Participant.create node (peersOf topology node) (limit node) with
        | .ok participant => participant
        -- A symmetric topology does not come here.
        | .error _ =>
          { node, received := ∅, sent := ∅, limit := limit node, recordedBytes := 0, active := none,
            completed := none, marked := ∅, lastEpoch := 0, failed := true }
      state := initial node
      outbox := [] }
  channels _ _ := []
  taken _ := []
  history := []

theorem create_starts {topology : Topology} {limit : NodeId → Nat} (symmetric : Symmetric topology)
    (positive : ∀ node, 0 < limit node) (initial : NodeId → σ) :
    Starts topology limit initial (create topology limit initial : Network σ Λ) := by
  refine ⟨?_, fun _ => rfl, fun _ => rfl, fun _ _ => rfl, fun _ => rfl, rfl⟩
  intro node
  obtain ⟨participant, created, _⟩ := Participant.create_fresh (positive node)
    (symmetric.distinct node) (symmetric.foreign node)
  simp only [create, created]

/-! ## What a call does -/

/-- A call has returned with these events. Only a local step without a payload returns at a failed
participant. -/
structure Returns (application : Application σ Λ) (host after : Host σ) (events : Log Λ) :
    Prop where
  failed : after.participant.failed = host.participant.failed
  outbox : after.outbox = host.outbox ++ events.flatMap Event.transmits
  keeps : ∀ initial node peers log, Faithful application initial node peers host log →
    Faithful application initial node peers after (log ++ events)
  healthy : host.participant.failed = false ∨ ∃ label, events = [.acted label none]
  moves : events.foldlM application.next host.state = some after.state
  settled : host.participant.Settled → after.participant.Settled
  holds : ∀ epoch, host.participant.Settled →
    host.participant.Holds epoch ∨ events.Captured epoch → after.participant.Holds epoch
  progresses : host.participant.Settled →
    (∀ snapshot, host.participant.active = some snapshot →
      host.participant.lastEpoch < snapshot.epoch) →
    Participant.Progresses host.participant after.participant

section Calls

variable {application : Application σ Λ} {host after : Host σ} {label : Λ}

theorem step_none (silent : (application.act host.state label).2 = none) :
    (application.step label).run host =
      .ok none { host with state := (application.act host.state label).1 } := by
  rw [Application.step, Participant.get_bind]
  simp only [silent]
  rfl

theorem step_some {message : NodeId × Bytes}
    (sends : (application.act host.state label).2 = some message) :
    (application.step label).run host =
      (Participant.send message.1 message.2 >>= fun _ => pure (some message)).run
        { host with state := (application.act host.state label).1 } := by
  rw [Application.step, Participant.get_bind]
  simp only [sends]
  rfl

/-- A local step returns, or `Send` has thrown. -/
theorem step_cases (application : Application σ Λ) (label : Λ) (host : Host σ) :
    (∃ message after, (application.step label).run host = .ok message after ∧
      Returns application host after [.acted label (message.map (packetSent after))]) ∨
    ∃ text after, (application.step label).run host = .error text after ∧
      Participant.Poisoned host after := by
  cases moved : (application.act host.state label).2 with
  | none =>
    refine .inl ⟨none, _, step_none moved, rfl, by simp [Event.transmits], ?_, .inr ⟨label, rfl⟩,
      by simp [Application.next, moved], fun settled => settled, ?_, fun _ _ => .inl ⟨rfl, rfl⟩⟩
    · intro initial node peers log faithful
      exact faithful.act label
    · intro epoch _ held
      simpa [Event.captures] using held
  | some message =>
    cases ran : (Participant.send message.1 message.2).run
        { host with state := (application.act host.state label).1 } with
    | ok value after =>
      obtain ⟨count, healthy, found, room, result⟩ := Participant.of_send ran
      have packet : packetSent after message = (message.1, ⟨count + 1, message.2⟩) := by
        simp [packetSent, result]
      refine .inl ⟨some message, after, (step_some moved).trans (Participant.run_bind ran), ?_⟩
      rw [Option.map_some, packet]
      refine ⟨by rw [result], by simp [result, Event.transmits, Packet.message], ?_, .inl healthy,
        by simp [result, Application.next, moved], ?_, ?_,
        fun _ _ => .inl (by rw [result]; exact ⟨rfl, rfl⟩)⟩
      · intro initial node peers log faithful
        have sent : Faithful application initial node peers _
            (log ++ [.acted label (some (message.1, ⟨count + 1, message.2⟩))]) :=
          faithful.send found room
        rw [result]
        exact sent.outbox _
      · intro settled
        rw [result]
        exact ⟨settled.exclusive, settled.waiting⟩
      · intro epoch _ held
        rw [result]
        simpa [Event.captures, Participant.Holds] using held
    | error text after =>
      right
      have poisoned := Participant.poisoned_send ran
      exact ⟨text, after, (step_some moved).trans (Participant.run_bind_error ran), poisoned⟩

/-- A started epoch is held, and there is no other. -/
theorem starts_holds {started : Host σ} {epoch other : Nat}
    (starts : Participant.Starts application.toCallbacks epoch host started)
    (held : host.participant.Holds other ∨
      (Event.captured epoch host.participant.sent : Event Λ).captures other) :
    started.participant.Holds other := by
  rw [starts.result]
  rcases held with (active | completed) | captured
  · rw [starts.inactive] at active
    cases active
  · rw [starts.taken] at completed
    cases completed
  · left
    obtain rfl : epoch = other := by simpa [Event.captures] using captured
    rfl

/-- A started epoch is later than the completed ones. -/
theorem starts_later {callbacks : Callbacks σ} {started : Host σ} {epoch : Nat}
    (starts : Participant.Starts callbacks epoch host started) :
    ∀ snapshot, started.participant.active = some snapshot →
      started.participant.lastEpoch < snapshot.epoch := by
  intro snapshot open_
  rw [starts.result] at open_ ⊢
  obtain rfl := Option.some.inj open_
  exact starts.fresh

/-- `Initiate` returns with a capture, or throws. -/
theorem initiate_cases (application : Application σ Λ) (epoch : Nat) (host : Host σ) :
    (∃ after, (Participant.initiate application.toCallbacks epoch).run host = .ok () after ∧
      Returns application host after [.captured epoch host.participant.sent]) ∨
    ∃ text after, (Participant.initiate application.toCallbacks epoch).run host =
      .error text after ∧ Participant.Poisoned host after := by
  cases ran : (Participant.initiate application.toCallbacks epoch).run host with
  | ok value after =>
    obtain ⟨healthy, started, starts, rfl⟩ := Participant.of_initiate_ok ran
    have exclusive : started.participant.Exclusive := by
      rw [starts.result]
      exact fun _ => starts.taken
    refine .inl ⟨_, rfl, ?_, ?_, ?_, .inl healthy, ?_,
      fun _ => Participant.finishIfReady_settled exclusive, ?_, ?_⟩
    · rw [Participant.finishIfReady_failed, starts.result]
      rfl
    · rw [starts.result]
      simp [Event.transmits, Participant.markers]
    · intro initial node peers log faithful
      exact (faithful.start starts).finish
    · rw [starts.result]
      rfl
    · intro other _ held
      exact Participant.finishIfReady_holds exclusive (starts_holds starts (by simpa using held))
    · intro _ _
      have finished := Participant.finishIfReady_progresses exclusive (starts_later starts)
      rw [starts.result] at finished ⊢
      exact finished
  | error text after => exact .inr ⟨text, after, rfl, Participant.poisoned_initiate ran⟩

/-- `Receive` returns with the events of the message, which are what takes the message off its
channel, or throws. -/
theorem receive_cases (application : Application σ Λ) (peer : NodeId) (message : Message)
    (host : Host σ) :
    (∃ after, (Participant.receive application.toCallbacks peer message).run host = .ok () after ∧
      Returns application host after (arrival host peer message) ∧
      ∀ sender, Log.consumed sender (arrival host peer message : Log Λ) =
        if sender = peer then [message] else []) ∨
    ∃ text after, (Participant.receive application.toCallbacks peer message).run host =
      .error text after ∧ Participant.Poisoned host after := by
  rcases Participant.receive_run application.toCallbacks peer message host with
    ⟨after, ran, healthy, receives⟩ | thrown
  · refine .inl ⟨after, ran, ?_⟩
    cases receives with
    | data kind takes =>
      have events : (arrival host peer message : Log Λ) =
          [.received peer ⟨message.sequence, message.payload⟩] := by
        simp [arrival, kind]
      rw [events]
      refine ⟨⟨?_, ?_, fun initial node peers log faithful => faithful.data takes, .inl healthy,
        by rw [takes.result]; rfl, ?_, ?_, ?_⟩, ?_⟩
      · rw [takes.result]
        dsimp only
        split <;> rfl
      · rw [takes.result]
        simp [Event.transmits]
      · exact takes.settled
      · intro epoch _ held
        exact takes.holds (by simpa [Event.captures] using held)
      · intro _ _
        left
        rw [takes.result]
        dsimp only
        split <;> exact ⟨rfl, rfl⟩
      · intro sender
        have same : (⟨message.sequence, message.payload⟩ : Packet).message = message := by
          have plain := takes.plain
          cases message
          simp_all [Packet.message, Participant.data]
        simp [Log.consumed, Event.consumes, same, eq_comm]
    | marker kind middle opens takes =>
      have same : Participant.marker message.sequence message.epoch = message := by
        have plain := takes.plain
        cases message
        simp_all [Participant.marker]
      have failed : after.participant.failed = middle.participant.failed := by
        rw [takes.result, Participant.finishIfReady_failed]
        rfl
      have closes {initial : σ} {node : NodeId} {peers : List NodeId} {log : Log Λ}
          (faithful : Faithful application initial node peers middle log) :
          Faithful application initial node peers after
            (log ++ [.closed peer message.sequence message.epoch]) := by
        rw [takes.result]
        exact (faithful.close takes.next takes.current takes.unmarked).finish
      have finishes (exclusive : middle.participant.Exclusive) : after.participant.Settled := by
        rw [takes.result]
        exact Participant.finishIfReady_settled fun open_ => exclusive (by
          simpa [Participant.close] using open_)
      have keeps {epoch : Nat} (exclusive : middle.participant.Exclusive)
          (held : middle.participant.Holds epoch) : after.participant.Holds epoch := by
        rw [takes.result]
        refine Participant.finishIfReady_holds (fun open_ => exclusive (by
          simpa [Participant.close] using open_)) ?_
        simpa [Participant.Holds, Participant.close] using held
      have advances (exclusive : middle.participant.Exclusive)
          (later : ∀ snapshot, middle.participant.active = some snapshot →
            middle.participant.lastEpoch < snapshot.epoch) :
          Participant.Progresses middle.participant after.participant := by
        rw [takes.result]
        have closed : ∀ snapshot,
            (Participant.close peer message middle.participant).active = some snapshot →
              middle.participant.lastEpoch < snapshot.epoch := by
          intro snapshot open_
          obtain ⟨earlier, was, rfl⟩ := Option.map_eq_some_iff.mp open_
          exact later earlier was
        exact Participant.finishIfReady_progresses
          (fun open_ => exclusive (by simpa [Participant.close] using open_)) closed
      rcases opens with ⟨active, rfl⟩ | starts
      · have events : (arrival middle peer message : Log Λ) =
            [.closed peer message.sequence message.epoch] := by
          simp [arrival, kind, active]
        rw [events]
        refine ⟨⟨failed, ?_, fun initial node peers log faithful => closes faithful,
          .inl healthy, by rw [takes.result]; rfl, fun settled => finishes settled.exclusive, ?_,
          fun settled later => advances settled.exclusive later⟩, ?_⟩
        · rw [takes.result]
          simp [Event.transmits]
        · intro epoch settled held
          exact keeps settled.exclusive (by simpa [Event.captures] using held)
        · intro sender
          simp [Log.consumed, Event.consumes, same, eq_comm]
      · have events : (arrival host peer message : Log Λ) =
            [.captured message.epoch host.participant.sent,
              .closed peer message.sequence message.epoch] := by
          simp [arrival, kind, starts.inactive]
        rw [events]
        have exclusive : middle.participant.Exclusive := by
          rw [starts.result]
          exact fun _ => starts.taken
        refine ⟨⟨?_, ?_, ?_, .inl healthy, by rw [takes.result, starts.result]; rfl,
          fun _ => finishes exclusive, ?_, ?_⟩, ?_⟩
        · rw [failed, starts.result]
          rfl
        · rw [takes.result, starts.result]
          simp [Event.transmits, Participant.markers]
        · intro initial node peers log faithful
          have both := closes (faithful.start starts)
          rw [List.append_assoc] at both
          exact both
        · intro epoch _ held
          refine keeps exclusive (starts_holds starts ?_)
          simpa [Log.Captured, Event.captures] using held
        · intro _ _
          have advanced := advances exclusive (starts_later starts)
          rw [starts.result] at advanced
          exact advanced
        · intro sender
          simp [Log.consumed, Event.consumes, same, eq_comm]
  · exact .inr thrown

end Calls

/-- What one call of a node does to the network. -/
inductive Effect (application : Application σ Λ) (node : NodeId) (network after : Network σ Λ) :
    Prop
  | silent (same : after = network)
  | thrown (host : Host σ) (lost : NodeId → List Message)
    (failed : host.participant.failed = true) (outbox : host.outbox = [])
    (hosts : after.hosts = Function.update network.hosts node host)
    (channels : ∀ sender receiver, network.channels sender receiver =
      (if receiver = node then lost sender else []) ++ after.channels sender receiver)
    (taken : after.taken = network.taken) (history : after.history = network.history)
  | returned (host : Host σ) (events : Log Λ)
    (returns : Returns application (network.hosts node) host events)
    (hosts : after.hosts = Function.update network.hosts node { host with outbox := [] })
    (channels : ∀ sender receiver,
      (if receiver = node then Log.consumed sender events else []) ++
          after.channels sender receiver =
        network.channels sender receiver ++
          if sender = node then Log.outgoing receiver events else [])
    (taken : after.taken = network.taken)
    (history : after.history = network.history ++ events.map fun event => (node, event))
  | handed (snapshot : LocalSnapshot)
    (healthy : (network.hosts node).participant.failed = false)
    (completed : (network.hosts node).participant.completed = some snapshot)
    (hosts : after.hosts = Function.update network.hosts node
      { network.hosts node with
        participant := { (network.hosts node).participant with completed := none } })
    (channels : after.channels = network.channels)
    (taken : after.taken =
      Function.update network.taken node (network.taken node ++ [snapshot]))
    (history : after.history = network.history)

section Effects

variable {application : Application σ Λ} {node : NodeId} {network : Network σ Λ} {host : Host σ}

/-- A network whose channels have lost the messages that the call was given. -/
structure Given (node : NodeId) (given : NodeId → List Message) (network base : Network σ Λ) :
    Prop where
  hosts : base.hosts = network.hosts
  taken : base.taken = network.taken
  history : base.history = network.history
  channels : ∀ sender receiver, network.channels sender receiver =
    (if receiver = node then given sender else []) ++ base.channels sender receiver

theorem given_nothing (node : NodeId) (network : Network σ Λ) :
    Given node (fun _ => []) network network :=
  ⟨rfl, rfl, rfl, fun _ _ => by simp⟩

theorem given_front {peer : NodeId} {message : Message}
    (front : (network.channels peer node).head? = some message) :
    Given node (fun sender => if sender = peer then [message] else []) network
      (network.drop peer node) := by
  refine ⟨rfl, rfl, rfl, ?_⟩
  intro sender receiver
  obtain ⟨rest, channel⟩ := List.head?_eq_some_iff.mp front
  by_cases target : receiver = node
  · subst target
    by_cases source : sender = peer
    · subst source
      simp [drop, channel]
    · simp [drop, source]
  · simp [drop, target]

theorem thrown_effect {given : NodeId → List Message} {base : Network σ Λ}
    (outbox : (network.hosts node).outbox = []) (started : Given node given network base)
    (poisoned : Participant.Poisoned (network.hosts node) host) :
    Effect application node network (base.ended node host []) := by
  have silent : host.outbox = [] := poisoned.1.trans outbox
  refine .thrown host given poisoned.2 silent ?_ ?_ started.taken ?_
  · simp [ended, started.hosts, ← silent]
  · intro sender receiver
    rw [started.channels]
    simp [ended, silent, addressed]
  · simp [ended, started.history]

theorem returned_effect {given : NodeId → List Message} {base : Network σ Λ} {events : Log Λ}
    (outbox : (network.hosts node).outbox = []) (started : Given node given network base)
    (returns : Returns application (network.hosts node) host events)
    (consumes : ∀ sender, Log.consumed sender events = given sender) :
    Effect application node network (base.ended node host events) := by
  refine .returned host events returns ?_ ?_ started.taken ?_
  · simp [ended, started.hosts]
  · intro sender receiver
    have sends : addressed receiver host.outbox = Log.outgoing receiver events := by
      rw [returns.outbox, outbox, List.nil_append]
      rfl
    rw [started.channels, consumes, List.append_assoc, ← sends]
    rfl
  · simp [ended, started.history]

/-- An ended call that has changed nothing. -/
theorem ended_unchanged (outbox : (network.hosts node).outbox = []) :
    network.ended node (network.hosts node) [] = network := by
  have same : ({ network.hosts node with outbox := [] } : Host σ) = network.hosts node := by
    rw [← outbox]
  simp only [ended, same, outbox, addressed, List.filterMap_nil, Function.update_eq_self,
    List.map_nil, List.append_nil, ite_self]

theorem call_effect (application : Application σ Λ) (outbox : (network.hosts node).outbox = [])
    (request : NodeCall Λ) :
    Effect application node network (call application node network request) := by
  have alone := given_nothing node network
  cases request with
  | act label =>
    rcases step_cases application label (network.hosts node) with
      ⟨message, host, ran, returns⟩ | ⟨text, host, ran, poisoned⟩
    · simp only [call, ran]
      exact returned_effect outbox alone returns fun _ => rfl
    · simp only [call, ran]
      exact thrown_effect outbox alone poisoned
  | initiate epoch =>
    rcases initiate_cases application epoch (network.hosts node) with
      ⟨host, ran, returns⟩ | ⟨text, host, ran, poisoned⟩
    · simp only [call, ran]
      exact returned_effect outbox alone returns fun _ => rfl
    · simp only [call, ran]
      exact thrown_effect outbox alone poisoned
  | receive peer =>
    cases front : (network.channels peer node).head? with
    | none =>
      simp only [call, front]
      exact .silent rfl
    | some message =>
      rcases receive_cases application peer message (network.hosts node) with
        ⟨host, ran, returns, consumes⟩ | ⟨text, host, ran, poisoned⟩
      · simp only [call, front, ran]
        exact returned_effect outbox (given_front front) returns consumes
      · simp only [call, front, ran]
        exact thrown_effect outbox (given_front front) poisoned
  | takeCompleted =>
    rcases Participant.takeCompleted_run (network.hosts node) with
      ⟨snapshot, healthy, completed, ran⟩ | ⟨text, ran⟩
    · simp only [call, ran]
      refine .handed snapshot healthy completed ?_ ?_ rfl ?_
      · simp [handOut, ended, outbox]
      · simp [handOut, ended, outbox, addressed]
      · simp [handOut, ended]
    · simp only [call, ran]
      exact .silent (ended_unchanged outbox)

/-- A call touches the host of its node only. -/
theorem call_hosts (application : Application σ Λ) (outbox : (network.hosts node).outbox = [])
    (request : NodeCall Λ) {other : NodeId} (different : other ≠ node) :
    (call application node network request).hosts other = network.hosts other := by
  cases call_effect application outbox request with
  | silent same => rw [same]
  | thrown host lost failed outbox hosts | returned host events returns hosts
  | handed snapshot healthy completed hosts => rw [hosts, Function.update_of_ne different]

end Effects

/-! ## What holds in every run -/

/-- The healthy participants hold what their logs tell, the snapshots that were handed out are
complete, and a receiver has consumed the first of the messages that the sender has put on the
channel. Only a failed receiver loses messages, and a healthy participant has handed out or still
holds every epoch it has captured. -/
structure Sound (topology : Topology) (applications : NodeId → Application σ Λ)
    (initial : NodeId → σ) (network : Network σ Λ) : Prop where
  outbox : ∀ node, (network.hosts node).outbox = []
  faithful : ∀ node, (network.hosts node).participant.failed = false →
    Faithful (applications node) (initial node) node (peersOf topology node) (network.hosts node)
      (network.log node)
  orderly : ∀ node, Orderly (peersOf topology node) (network.log node)
  complete : ∀ node, ∀ snapshot ∈ network.taken node,
    Complete (applications node) (initial node) node (peersOf topology node) (network.log node)
      snapshot
  wired : ∀ sender receiver, ∃ lost,
    ((network.hosts receiver).participant.failed = false → lost = []) ∧
      Log.consumed sender (network.log receiver) ++ (lost ++ network.channels sender receiver) =
        Log.outgoing receiver (network.log sender)
  settled : ∀ node, (network.hosts node).participant.failed = false →
    (network.hosts node).participant.Settled
  held : ∀ node, (network.hosts node).participant.failed = false → ∀ epoch,
    (network.log node).Captured epoch → (network.hosts node).participant.Holds epoch ∨
      ∃ snapshot ∈ network.taken node, snapshot.epoch = epoch

theorem log_append {network after : Network σ Λ} {node : NodeId} {events : Log Λ}
    (history : after.history = network.history ++ events.map fun event => (node, event))
    (other : NodeId) :
    after.log other = network.log other ++ if other = node then events else [] := by
  rw [log, log, history, CausalCuts.own_append, CausalCuts.own_map]

namespace Sound

variable {topology : Topology} {applications : NodeId → Application σ Λ} {initial : NodeId → σ}
  {network after : Network σ Λ} {node : NodeId}

theorem start {limit : NodeId → Nat} (symmetric : Symmetric topology)
    (starts : Starts topology limit initial network) :
    Sound topology applications initial network := by
  have empty (node : NodeId) : network.log node = [] := by
    rw [log, starts.history]
    rfl
  constructor
  · exact starts.outbox
  · intro node _
    have host : network.hosts node = ⟨(network.hosts node).participant, initial node, []⟩ := by
      rw [← starts.state, ← starts.outbox node]
    rw [empty, host]
    exact Faithful.fresh (starts.fresh symmetric node)
  · intro node
    rw [empty]
    exact .nil
  · simp [starts.taken]
  · intro sender receiver
    refine ⟨[], fun _ => rfl, ?_⟩
    rw [empty, empty, starts.channels]
    rfl
  · intro node _
    have closed := (starts.fresh symmetric node).inactive
    exact ⟨fun open_ => (open_ closed).elim, fun open_ => (open_ closed).elim⟩
  · intro node _ epoch captured
    rw [empty] at captured
    simp [Log.Captured] at captured

section

variable (sound : Sound topology applications initial network)

include sound

/-- A call that throws changes no log. -/
theorem thrown {host : Host σ} {lost : NodeId → List Message}
    (failed : host.participant.failed = true) (outbox : host.outbox = [])
    (hosts : after.hosts = Function.update network.hosts node host)
    (channels : ∀ sender receiver, network.channels sender receiver =
      (if receiver = node then lost sender else []) ++ after.channels sender receiver)
    (taken : after.taken = network.taken) (history : after.history = network.history) :
    Sound topology applications initial after := by
  have same (other : NodeId) : after.log other = network.log other := by rw [log, log, history]
  constructor
  · intro other
    rw [hosts]
    by_cases here : other = node
    · rw [here, Function.update_self]
      exact outbox
    · rw [Function.update_of_ne here]
      exact sound.outbox other
  · intro other
    rw [hosts, same]
    by_cases here : other = node
    · rw [here, Function.update_self]
      intro healthy
      rw [failed] at healthy
      cases healthy
    · rw [Function.update_of_ne here]
      exact sound.faithful other
  · intro other
    rw [same]
    exact sound.orderly other
  · intro other
    rw [same, taken]
    exact sound.complete other
  · intro sender receiver
    obtain ⟨gone, healthy, flows⟩ := sound.wired sender receiver
    rw [same, same, hosts]
    by_cases here : receiver = node
    · refine ⟨gone ++ lost sender, ?_, ?_⟩
      · rw [here, Function.update_self, failed]
        exact fun healthy => by cases healthy
      · rw [channels, if_pos here] at flows
        rw [List.append_assoc]
        exact flows
    · rw [Function.update_of_ne here]
      rw [channels, if_neg here, List.nil_append] at flows
      exact ⟨gone, healthy, flows⟩
  · intro other
    rw [hosts]
    by_cases here : other = node
    · rw [here, Function.update_self, failed]
      exact fun healthy => by cases healthy
    · rw [Function.update_of_ne here]
      exact sound.settled other
  · intro other
    rw [hosts, same, taken]
    by_cases here : other = node
    · rw [here, Function.update_self, failed]
      exact fun healthy => by cases healthy
    · rw [Function.update_of_ne here]
      exact sound.held other

/-- A call that returns adds its events to the log of its node. -/
theorem returned {host : Host σ} {events : Log Λ}
    (returns : Returns (applications node) (network.hosts node) host events)
    (hosts : after.hosts = Function.update network.hosts node { host with outbox := [] })
    (channels : ∀ sender receiver,
      (if receiver = node then Log.consumed sender events else []) ++
          after.channels sender receiver =
        network.channels sender receiver ++
          if sender = node then Log.outgoing receiver events else [])
    (taken : after.taken = network.taken)
    (history : after.history = network.history ++ events.map fun event => (node, event)) :
    Sound topology applications initial after := by
  have grown := log_append history
  have own : after.log node = network.log node ++ events := by rw [grown, if_pos rfl]
  have other_ {other : NodeId} (different : other ≠ node) :
      after.log other = network.log other := by rw [grown, if_neg different, List.append_nil]
  have orderly : Orderly (peersOf topology node) (network.log node ++ events) := by
    rcases returns.healthy with healthy | ⟨label, rfl⟩
    · exact (returns.keeps _ _ _ _ (sound.faithful node healthy)).orderly
    · exact (sound.orderly node).snoc trivial
  constructor
  · intro other
    rw [hosts]
    by_cases here : other = node
    · rw [here, Function.update_self]
    · rw [Function.update_of_ne here]
      exact sound.outbox other
  · intro other
    rw [hosts]
    by_cases here : other = node
    · subst here
      rw [Function.update_self, own]
      intro healthy
      have before : (network.hosts other).participant.failed = false :=
        returns.failed.symm.trans healthy
      exact (returns.keeps _ _ _ _ (sound.faithful other before)).outbox []
    · rw [Function.update_of_ne here, other_ here]
      exact sound.faithful other
  · intro other
    by_cases here : other = node
    · subst here
      rw [own]
      exact orderly
    · rw [other_ here]
      exact sound.orderly other
  · intro other snapshot member
    rw [taken] at member
    have complete := sound.complete other snapshot member
    by_cases here : other = node
    · subst here
      rw [own]
      exact complete.append fun event inside =>
        orderly.known event (List.mem_append_right _ inside)
    · rw [other_ here]
      exact complete
  · intro sender receiver
    obtain ⟨gone, healthy, flows⟩ := sound.wired sender receiver
    have consumed : Log.consumed sender (after.log receiver) =
        Log.consumed sender (network.log receiver) ++
          if receiver = node then Log.consumed sender events else [] := by
      rw [grown, Log.consumed_append]
      split <;> rfl
    have outgoing : Log.outgoing receiver (after.log sender) =
        Log.outgoing receiver (network.log sender) ++
          if sender = node then Log.outgoing receiver events else [] := by
      rw [grown, Log.outgoing_append]
      split <;> rfl
    -- A failed receiver consumes nothing.
    have swap : (if receiver = node then Log.consumed sender events else []) ++ gone =
        gone ++ if receiver = node then Log.consumed sender events else [] := by
      by_cases here : receiver = node
      · subst here
        rcases returns.healthy with working | ⟨label, rfl⟩
        · rw [healthy working, List.append_nil, List.nil_append]
        · simp [Log.consumed, Event.consumes]
      · rw [if_neg here, List.append_nil, List.nil_append]
    refine ⟨gone, ?_, ?_⟩
    · rw [hosts]
      by_cases here : receiver = node
      · subst here
        rw [Function.update_self]
        exact fun working => healthy (returns.failed.symm.trans working)
      · rw [Function.update_of_ne here]
        exact healthy
    · rw [consumed, outgoing, ← flows, List.append_assoc, ← List.append_assoc _ gone, swap,
        List.append_assoc gone, channels]
      simp
  · intro other
    rw [hosts]
    by_cases here : other = node
    · subst here
      rw [Function.update_self]
      intro healthy
      exact returns.settled (sound.settled other (returns.failed.symm.trans healthy))
    · rw [Function.update_of_ne here]
      exact sound.settled other
  · intro other
    rw [hosts, taken]
    by_cases here : other = node
    · subst here
      rw [Function.update_self, own]
      intro healthy epoch captured
      have working := returns.failed.symm.trans healthy
      have settled := sound.settled other working
      rcases Log.captured_append.mp captured with earlier | now
      · rcases sound.held other working epoch earlier with held | handed
        · exact .inl (returns.holds epoch settled (.inl held))
        · exact .inr handed
      · exact .inl (returns.holds epoch settled (.inr now))
    · rw [Function.update_of_ne here, other_ here]
      exact sound.held other

/-- A completed snapshot is complete when it is handed out. -/
theorem handed {snapshot : LocalSnapshot}
    (healthy : (network.hosts node).participant.failed = false)
    (completed : (network.hosts node).participant.completed = some snapshot)
    (hosts : after.hosts = Function.update network.hosts node
      { network.hosts node with
        participant := { (network.hosts node).participant with completed := none } })
    (channels : after.channels = network.channels) (taken : after.taken =
      Function.update network.taken node (network.taken node ++ [snapshot]))
    (history : after.history = network.history) :
    Sound topology applications initial after := by
  have same (other : NodeId) : after.log other = network.log other := by rw [log, log, history]
  constructor
  · intro other
    rw [hosts]
    by_cases here : other = node
    · subst here
      rw [Function.update_self]
      exact sound.outbox other
    · rw [Function.update_of_ne here]
      exact sound.outbox other
  · intro other
    rw [hosts, same]
    by_cases here : other = node
    · subst here
      rw [Function.update_self]
      exact fun _ => (sound.faithful other healthy).take
    · rw [Function.update_of_ne here]
      exact sound.faithful other
  · intro other
    rw [same]
    exact sound.orderly other
  · intro other
    rw [same, taken]
    by_cases here : other = node
    · subst here
      rw [Function.update_self]
      intro found member
      rcases List.mem_append.mp member with earlier | last
      · exact sound.complete other found earlier
      · rw [List.mem_singleton.mp last]
        exact (sound.faithful other healthy).completed snapshot completed
    · rw [Function.update_of_ne here]
      exact sound.complete other
  · intro sender receiver
    rw [same, same, hosts, channels]
    by_cases here : receiver = node
    · subst here
      rw [Function.update_self]
      exact sound.wired sender receiver
    · rw [Function.update_of_ne here]
      exact sound.wired sender receiver
  · intro other
    rw [hosts]
    by_cases here : other = node
    · subst here
      rw [Function.update_self]
      intro _
      exact ⟨fun _ => rfl, (sound.settled other healthy).waiting⟩
    · rw [Function.update_of_ne here]
      exact sound.settled other
  · intro other
    rw [hosts, same, taken]
    by_cases here : other = node
    · subst here
      rw [Function.update_self, Function.update_self]
      intro _ epoch captured
      rcases sound.held other healthy epoch captured with (active | done) | ⟨old, member, at_⟩
      · exact .inl (.inl active)
      · rw [completed] at done
        exact .inr ⟨snapshot, by simp, Option.some.inj done⟩
      · exact .inr ⟨old, List.mem_append_left _ member, at_⟩
    · rw [Function.update_of_ne here, Function.update_of_ne here]
      exact sound.held other

/-- Every call keeps the network sound. -/
theorem call (node : NodeId) (request : NodeCall Λ) :
    Sound topology applications initial
      (Network.call (applications node) node network request) := by
  cases call_effect (applications node) (sound.outbox node) request with
  | silent same =>
    rw [same]
    exact sound
  | thrown host lost failed outbox hosts channels taken history =>
    exact sound.thrown failed outbox hosts channels taken history
  | returned host events returns hosts channels taken history =>
    exact sound.returned returns hosts channels taken history
  | handed snapshot healthy completed hosts channels taken history =>
    exact sound.handed healthy completed hosts channels taken history

/-- So does every run. -/
theorem run (calls : List (NodeId × NodeCall Λ)) :
    Sound topology applications initial (Network.run applications calls network) := by
  induction calls generalizing network with
  | nil => exact sound
  | cons entry rest inductionHypothesis => exact inductionHypothesis (sound.call entry.1 entry.2)

/-- A node that makes no call keeps its host. -/
theorem run_hosts {calls : List (NodeId × NodeCall Λ)} {other : NodeId}
    (elsewhere : ∀ entry ∈ calls, other ≠ entry.1) :
    (Network.run applications calls network).hosts other = network.hosts other := by
  induction calls generalizing network with
  | nil => rfl
  | cons entry rest inductionHypothesis =>
    have later := inductionHypothesis (sound.call entry.1 entry.2) fun item member =>
      elsewhere item (List.mem_cons_of_mem entry member)
    exact later.trans (call_hosts _ (sound.outbox entry.1) _ (elsewhere entry List.mem_cons_self))

end

end Sound

end Network

end Stormglass.Snapshot
