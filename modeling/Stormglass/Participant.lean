import Stormglass.Stream

/-!
# A participant of the marker protocol

`Participant` is one process of the Chandy-Lamport protocol. It numbers the data
messages of every channel, captures the application when an epoch starts, sends a
marker to every peer, and records what arrives on a channel until the marker of that
channel arrives.

A method runs against the application behind the callbacks and an outbox of the
messages it transmits. An exception keeps the changes made before it, so a method is
a program in a state monad whose failure returns the state as well. Capture, Deliver
and Transmit themselves do not throw here.
-/

namespace Stormglass.Snapshot

abbrev NodeId := UInt32

/-- The kind of a message. -/
inductive Kind where
  | data
  | marker
deriving DecidableEq

/-- One message of a channel. The sequence of a data message is its number, and that
of a marker is the number of data messages sent before it. -/
structure Message where
  kind : Kind
  sequence : Nat
  epoch : Nat
  payload : Bytes
deriving DecidableEq

/-- A data message that was in flight. -/
structure ChannelRecord where
  peer : NodeId
  sequence : Nat
  payload : Bytes
deriving DecidableEq

/-- A sequence number for every peer. -/
abbrev Counters := Std.ExtTreeMap NodeId Nat

/-- What a participant saves for one epoch. `received` and `sent` are the counters at
the capture, and `channels` keeps the order of arrival across all channels. -/
structure LocalSnapshot where
  node : NodeId
  epoch : Nat
  state : Bytes
  received : Counters
  sent : Counters
  markerSequences : Counters
  channels : List ChannelRecord
deriving DecidableEq

/-- `std::numeric_limits<uint64_t>::max()` -/
def maxSequence : Nat := 2 ^ 64 - 1

/-- `sizeof(ChannelRecord)` -/
def recordOverhead : Nat := 40

structure Participant where
  node : NodeId
  received : Counters
  sent : Counters
  limit : Nat
  recordedBytes : Nat
  active : Option LocalSnapshot
  completed : Option LocalSnapshot
  marked : Std.ExtTreeSet NodeId
  lastEpoch : Nat
  failed : Bool

/-- The `Capture` and `Deliver` callbacks of an application with states in `σ`. Neither they nor
`Transmit`, which fills the outbox of the host, throw in this model. In the source a callback that
throws leaves the participant failed, so that it hands out no snapshot afterwards. -/
structure Callbacks (σ : Type) where
  capture : σ → Bytes
  deliver : σ → NodeId → Bytes → σ

/-- A participant with the application behind its callbacks, and the messages that
the call has transmitted so far. -/
structure Host (σ : Type) where
  participant : Participant
  state : σ
  outbox : List (NodeId × Message)

/-- A method that may throw. -/
abbrev Method (σ : Type) := EStateM String (Host σ)

/-- `Require` -/
def require {m : Type → Type} [Monad m] [MonadExceptOf String m] (condition : Prop)
    [Decidable condition] (message : String) : m Unit :=
  if condition then pure () else throw message

/-- `std::map::at` -/
def lookup {m : Type → Type} [Monad m] [MonadExceptOf String m] {α : Type}
    (map : Std.ExtTreeMap NodeId α) (key : NodeId) : m α :=
  match map[key]? with
  | some value => pure value
  | none => throw "map::at"

namespace Participant

variable {σ : Type}

/-- The constructor. A peer may be named once, and a node is not its own peer. -/
def create (node : NodeId) (peers : List NodeId) (limit : Nat) :
    Except String Participant := do
  require (limit > 0) "invalid snapshot callbacks/limit"
  let counters ← peers.foldlM (fun (counters : Counters) peer => do
    require (peer ≠ node ∧ peer ∉ counters) "invalid snapshot peer"
    pure (counters.insert peer 0)) ∅
  pure { node, received := counters, sent := counters, limit, recordedBytes := 0,
         active := none, completed := none, marked := ∅, lastEpoch := 0, failed := false }

/-- The participant of the running call. -/
def self : Method σ Participant := do
  return (← get).participant

/-- Changes the participant of the running call. -/
def change (update : Participant → Participant) : Method σ Unit :=
  modify fun host => { host with participant := update host.participant }

/-- `Transmit` enqueues on the channel to a peer. -/
def transmit (peer : NodeId) (message : Message) : Method σ Unit :=
  modify fun host => { host with outbox := host.outbox ++ [(peer, message)] }

/-- `Deliver` hands a payload to the application. -/
def deliver (callbacks : Callbacks σ) (peer : NodeId) (payload : Bytes) :
    Method σ Unit :=
  modify fun host => { host with state := callbacks.deliver host.state peer payload }

def checkHealthy : Method σ Unit := do
  require ((← self).failed = false) "snapshot participant failed"

def checkPeer (peer : NodeId) : Method σ Unit := do
  require (peer ∈ (← self).received) "unknown snapshot peer"

/-- The `try` block of the methods: an exception poisons the participant. -/
def poisoning {α : Type} (body : Method σ α) : Method σ α :=
  try body catch message => do
    change fun participant => { participant with failed := true }
    throw message

/-- The marker of an epoch. -/
def marker (sequence epoch : Nat) : Message :=
  { kind := .marker, sequence, epoch, payload := [] }

/-- A data message. -/
def data (sequence : Nat) (payload : Bytes) : Message :=
  { kind := .data, sequence, epoch := 0, payload }

/-- The local snapshot of an epoch is opened with the captured state. -/
def beginEpoch (epoch : Nat) (state : Bytes) (participant : Participant) : Participant :=
  { participant with
    recordedBytes := state.length
    active := some
      { node := participant.node, epoch, state, received := participant.received,
        sent := participant.sent, markerSequences := ∅, channels := [] }
    marked := ∅ }

/-- `Start` captures the application and sends the markers. -/
def start (callbacks : Callbacks σ) (epoch : Nat) : Method σ Unit := do
  let participant ← self
  require (epoch > participant.lastEpoch ∧ participant.active = none ∧
    participant.completed = none) "overlapping/stale snapshot epoch"
  let state := callbacks.capture (← get).state
  require (state.length ≤ participant.limit) "snapshot state exceeds limit"
  change (beginEpoch epoch state)
  participant.sent.toList.forM fun (peer, sequence) => transmit peer (marker sequence epoch)

/-- `FinishIfReady` completes the epoch once every channel has its marker. -/
def finishIfReady (participant : Participant) : Participant :=
  match participant.active with
  | some snapshot =>
    if participant.marked.size = participant.received.size then
      { participant with
        lastEpoch := snapshot.epoch, completed := some snapshot, active := none }
    else participant
  | none => participant

def initiate (callbacks : Callbacks σ) (epoch : Nat) : Method σ Unit := do
  checkHealthy
  poisoning do
    start callbacks epoch
    change finishIfReady

def send (peer : NodeId) (payload : Bytes) : Method σ Unit := do
  checkHealthy
  poisoning do
    checkPeer peer
    let sequence ← lookup (← self).sent peer
    require (sequence ≠ maxSequence) "send sequence overflow"
    transmit peer (data (sequence + 1) payload)
    change fun participant =>
      { participant with sent := participant.sent.insert peer (sequence + 1) }

/-- Saves a data message of a channel that is being recorded. -/
def record (peer : NodeId) (message : Message) (participant : Participant) :
    Participant :=
  { participant with
    active := participant.active.map fun snapshot =>
      { snapshot with
        channels := snapshot.channels ++ [⟨peer, message.sequence, message.payload⟩] }
    recordedBytes := participant.recordedBytes + (recordOverhead + message.payload.length) }

/-- The data branch of `Receive`. `recordedBytes` never exceeds the limit, so the
subtractions are those of `std::size_t`. -/
def receiveData (callbacks : Callbacks σ) (peer : NodeId) (message : Message) :
    Method σ Unit := do
  let participant ← self
  let frontier ← lookup participant.received peer
  require (message.epoch = 0 ∧ frontier ≠ maxSequence ∧ message.sequence = frontier + 1)
    "non-FIFO/duplicate data sequence"
  if participant.active ≠ none ∧ peer ∉ participant.marked then
    let room := participant.limit - participant.recordedBytes
    require (recordOverhead ≤ room ∧ message.payload.length ≤ room - recordOverhead)
      "in-flight channel snapshot exceeds limit"
    change (record peer message)
  change fun participant =>
    { participant with received := participant.received.insert peer message.sequence }
  deliver callbacks peer message.payload

/-- Closes the channel of a peer with its marker. -/
def close (peer : NodeId) (message : Message) (participant : Participant) :
    Participant :=
  { participant with
    active := participant.active.map fun snapshot =>
      { snapshot with
        markerSequences := snapshot.markerSequences.insertIfNew peer message.sequence }
    marked := participant.marked.insert peer }

/-- The marker branch of `Receive`. -/
def receiveMarker (callbacks : Callbacks σ) (peer : NodeId) (message : Message) :
    Method σ Unit := do
  require (message.payload = [] ∧ message.epoch ≠ 0) "invalid marker"
  let frontier ← lookup (← self).received peer
  require (message.sequence = frontier) "marker sequence does not match FIFO frontier"
  if (← self).active = none then
    start callbacks message.epoch
  let participant ← self
  require (participant.active.map LocalSnapshot.epoch = some message.epoch ∧
    peer ∉ participant.marked) "overlapping/duplicate marker"
  change (close peer message)
  change finishIfReady

def receive (callbacks : Callbacks σ) (peer : NodeId) (message : Message) :
    Method σ Unit := do
  checkHealthy
  poisoning do
    checkPeer peer
    -- The transport refuses a frame with a third kind, so the last branch is dead.
    match message.kind with
    | .data => receiveData callbacks peer message
    | .marker => receiveMarker callbacks peer message

def takeCompleted : Method σ LocalSnapshot := do
  checkHealthy
  match (← self).completed with
  | some snapshot =>
    change fun participant => { participant with completed := none }
    pure snapshot
  | none => throw "snapshot is incomplete"

/-- One saved record during `Restore`. -/
def replay (callbacks : Callbacks σ) (saved : ChannelRecord) : Method σ Unit := do
  checkPeer saved.peer
  let frontier ← lookup (← self).received saved.peer
  require (frontier ≠ maxSequence ∧ saved.sequence = frontier + 1) "invalid replay sequence"
  change fun participant =>
    { participant with received := participant.received.insert saved.peer saved.sequence }
  deliver callbacks saved.peer saved.payload

/-- `Restore` takes over the counters of a snapshot and replays its channels. -/
def restore (callbacks : Callbacks σ) (snapshot : LocalSnapshot) : Method σ Unit := do
  checkHealthy
  poisoning do
    let participant ← self
    require (participant.active = none ∧ participant.completed = none ∧
      participant.lastEpoch = 0 ∧ snapshot.node = participant.node ∧ snapshot.epoch > 0)
      "restore requires a fresh matching participant"
    require (snapshot.received.size = participant.received.size ∧
      snapshot.sent.size = participant.sent.size ∧
      snapshot.markerSequences.size = participant.received.size) "restore topology mismatch"
    participant.received.toList.forM fun (peer, count) => do
      let sent ← lookup participant.sent peer
      require (count = 0 ∧ sent = 0 ∧ peer ∈ snapshot.received ∧ peer ∈ snapshot.sent ∧
        peer ∈ snapshot.markerSequences) "restore topology/activity mismatch"
    change fun participant =>
      { participant with received := snapshot.received, sent := snapshot.sent }
    snapshot.channels.forM (replay callbacks)
    require ((← self).received = snapshot.markerSequences) "incomplete channel replay"
    change fun participant => { participant with lastEpoch := snapshot.epoch }

/-! ## Running a method -/

section Running

variable {α β : Type}

@[simp] theorem self_bind (next : Participant → Method σ α) (host : Host σ) :
    (self >>= next).run host = (next host.participant).run host := rfl

@[simp] theorem get_bind (next : Host σ → Method σ α) (host : Host σ) :
    (get >>= next).run host = (next host).run host := rfl

@[simp] theorem change_bind (update : Participant → Participant)
    (next : Unit → Method σ α) (host : Host σ) :
    (change update >>= next).run host =
      (next ()).run { host with participant := update host.participant } := rfl

@[simp] theorem change_run (update : Participant → Participant) (host : Host σ) :
    (change update : Method σ Unit).run host =
      .ok () { host with participant := update host.participant } := rfl

@[simp] theorem transmit_bind (peer : NodeId) (message : Message)
    (next : Unit → Method σ α) (host : Host σ) :
    (transmit peer message >>= next).run host =
      (next ()).run { host with outbox := host.outbox ++ [(peer, message)] } := rfl

@[simp] theorem deliver_run (callbacks : Callbacks σ) (peer : NodeId) (payload : Bytes)
    (host : Host σ) :
    (deliver callbacks peer payload).run host =
      .ok () { host with state := callbacks.deliver host.state peer payload } := rfl

@[simp] theorem require_bind (condition : Prop) [Decidable condition] (message : String)
    (next : Unit → Method σ α) (host : Host σ) :
    (require condition message >>= next).run host =
      if condition then (next ()).run host else .error message host := by
  unfold require
  split <;> rfl

@[simp] theorem lookup_bind (map : Std.ExtTreeMap NodeId α) (key : NodeId)
    (next : α → Method σ β) (host : Host σ) :
    (lookup map key >>= next).run host = match map[key]? with
      | some value => (next value).run host
      | none => .error "map::at" host := by
  unfold lookup
  cases map[key]? <;> rfl

/-- A loop of transmissions fills the outbox in its order. -/
theorem forM_transmit_bind (items : List α) (message : α → NodeId × Message)
    (next : Unit → Method σ β) (host : Host σ) :
    ((items.forM fun item => transmit (message item).1 (message item).2) >>= next).run host =
      (next ()).run { host with outbox := host.outbox ++ items.map message } := by
  induction items generalizing host with
  | nil => simp
  | cons item rest inductionHypothesis =>
    have unrolled : ((item :: rest).forM fun item =>
        (transmit (message item).1 (message item).2 : Method σ Unit)) =
        (transmit (message item).1 (message item).2 >>= fun _ =>
          rest.forM fun item => transmit (message item).1 (message item).2) := rfl
    rw [unrolled, bind_assoc, transmit_bind, inductionHypothesis]
    simp

@[simp] theorem poisoning_run (body : Method σ α) (host : Host σ) :
    (poisoning body).run host = match body.run host with
      | .ok value after => .ok value after
      | .error message after => .error message
          { after with participant := { after.participant with failed := true } } := by
  simp only [poisoning, tryCatch, tryCatchThe, MonadExceptOf.tryCatch, EStateM.tryCatch,
    EStateM.run]
  cases body host with
  | ok value after => rfl
  | error message after => rfl

end Running

end Participant

/-- The peers of every node. -/
abbrev Topology := Std.ExtTreeMap NodeId (List NodeId)

/-- The snapshots of a set by their nodes. -/
def collectNodes (epoch : Nat) (topology : Topology) (snapshots : List LocalSnapshot) :
    Except String (Std.ExtTreeMap NodeId LocalSnapshot) :=
  snapshots.foldlM (fun nodes snapshot => do
    require (snapshot.epoch = epoch ∧ snapshot.node ∈ topology ∧ snapshot.node ∉ nodes)
      "mixed epoch/duplicate/unknown node"
    pure (nodes.insert snapshot.node snapshot)) ∅

/-- The counters of a receiver after its saved channel records. -/
def replayedCounters (expected : Std.ExtTreeSet NodeId) (received : Counters)
    (channels : List ChannelRecord) : Except String Counters :=
  channels.foldlM (fun (next : Counters) saved => do
    require (saved.peer ∈ expected ∧ saved.peer ∈ next)
      "channel log is not a contiguous FIFO prefix"
    let frontier ← lookup next saved.peer
    require (frontier ≠ maxSequence ∧ saved.sequence = frontier + 1)
      "channel log is not a contiguous FIFO prefix"
    pure (next.insert saved.peer (frontier + 1))) received

/-- One channel of the global cut, from a peer to the node of the snapshot. -/
def validateChannel (nodes : Std.ExtTreeMap NodeId LocalSnapshot) (node : NodeId)
    (snapshot : LocalSnapshot) (next : Counters) (peer : NodeId) : Except String Unit := do
  require (peer ∈ nodes ∧ peer ∈ snapshot.sent ∧ peer ∈ next ∧
    peer ∈ snapshot.markerSequences) "snapshot peer missing"
  let sender ← lookup nodes peer
  require (node ∈ sender.sent ∧ node ∈ sender.received) "asymmetric topology"
  let sent ← lookup sender.sent node
  let frontier ← lookup next peer
  let marker ← lookup snapshot.markerSequences peer
  require (sent = frontier ∧ frontier = marker)
    "inconsistent global cut: missing/orphan channel messages"

/-- One node of the global cut. -/
def validateNode (nodes : Std.ExtTreeMap NodeId LocalSnapshot) (node : NodeId)
    (peers : List NodeId) : Except String Unit := do
  let snapshot ← lookup nodes node
  let expected : Std.ExtTreeSet NodeId := Std.ExtTreeSet.ofList peers
  require (expected.size = peers.length ∧ node ∉ expected) "invalid topology"
  require (snapshot.received.size = expected.size ∧ snapshot.sent.size = expected.size ∧
    snapshot.markerSequences.size = expected.size) "snapshot topology mismatch"
  let next ← replayedCounters expected snapshot.received snapshot.channels
  expected.toList.forM (validateChannel nodes node snapshot next)

/-- `ValidateGlobal` -/
def validateGlobal (snapshots : List LocalSnapshot) (topology : Topology) :
    Except String Unit := do
  require (topology.isEmpty = false ∧ snapshots.length = topology.size)
    "incomplete global snapshot"
  let epoch := (snapshots.head?.map LocalSnapshot.epoch).getD 0
  require (epoch > 0) "invalid global epoch"
  let nodes ← collectNodes epoch topology snapshots
  topology.toList.forM fun (node, peers) => validateNode nodes node peers

end Stormglass.Snapshot
