import Stormglass.Participant

/-!
# What a participant has done

The log of a node lists its events: the local steps of its application with the
messages they send, the data it received, the captures, and the markers that closed a
channel. The code keeps no log. Everything a participant stores is a function of it:
the counters are lengths, and a local snapshot is the part of the log before a capture
together with what arrived on every channel between the capture and the marker.
-/

namespace Stormglass.Snapshot

/-- An application: its callbacks, and the local steps it takes. A step changes the
state and may send one payload to a peer. -/
structure Application (σ Λ : Type) extends Callbacks σ where
  act : σ → Λ → σ × Option (NodeId × Bytes)

/-- A data message of one channel. -/
structure Packet where
  sequence : Nat
  payload : Bytes
deriving DecidableEq

/-- The message that carries a packet. -/
def Packet.message (packet : Packet) : Message :=
  Participant.data packet.sequence packet.payload

/-- One event of a node. A capture carries the counters that its markers announce. -/
inductive Event (Λ : Type) where
  | acted (label : Λ) (message : Option (NodeId × Packet))
  | received (peer : NodeId) (packet : Packet)
  | captured (epoch : Nat) (sent : Counters)
  | closed (peer : NodeId) (sequence epoch : Nat)

variable {σ Λ : Type}

namespace Event

def captures (epoch : Nat) : Event Λ → Bool
  | captured of _ => of = epoch
  | _ => false

def closes (peer : NodeId) (epoch : Nat) : Event Λ → Bool
  | closed sender _ of => sender = peer ∧ of = epoch
  | _ => false

/-- The packet that an event sends to a peer. -/
def packetTo (peer : NodeId) : Event Λ → Option Packet
  | acted _ (some (receiver, packet)) => if receiver = peer then some packet else none
  | _ => none

/-- The packet that an event takes from a peer. -/
def packetFrom (peer : NodeId) : Event Λ → Option Packet
  | received sender packet => if sender = peer then some packet else none
  | _ => none

/-- The messages that an event puts on the channels. -/
def transmits : Event Λ → List (NodeId × Message)
  | acted _ (some (receiver, packet)) => [(receiver, packet.message)]
  | captured epoch sent =>
    sent.toList.map fun entry => (entry.1, Participant.marker entry.2 epoch)
  | _ => []

/-- The messages that an event takes off the channel from a peer. -/
def consumes (peer : NodeId) : Event Λ → List Message
  | received sender packet => if sender = peer then [packet.message] else []
  | closed sender sequence epoch =>
    if sender = peer then [Participant.marker sequence epoch] else []
  | _ => []

/-- The application state after an event. -/
def apply (application : Application σ Λ) (state : σ) : Event Λ → σ
  | acted label _ => (application.act state label).1
  | received peer packet => application.deliver state peer packet.payload
  | _ => state

end Event

/-- The messages for one receiver. -/
def addressed (receiver : NodeId) (outbox : List (NodeId × Message)) : List Message :=
  outbox.filterMap fun entry => if entry.1 = receiver then some entry.2 else none

/-- The events of one node, oldest first. -/
abbrev Log (Λ : Type) := List (Event Λ)

namespace Log

def sentTo (peer : NodeId) (log : Log Λ) : List Packet := log.filterMap (Event.packetTo peer)

def receivedFrom (peer : NodeId) (log : Log Λ) : List Packet :=
  log.filterMap (Event.packetFrom peer)

/-- What the node was before its capture of an epoch. -/
def before (epoch : Nat) (log : Log Λ) : Log Λ :=
  log.takeWhile fun event => !event.captures epoch

/-- The capture of an epoch and what came after it. -/
def after (epoch : Nat) (log : Log Λ) : Log Λ :=
  log.dropWhile fun event => !event.captures epoch

/-- What came before the marker of a channel. -/
def untilClosed (peer : NodeId) (epoch : Nat) (log : Log Λ) : Log Λ :=
  log.takeWhile fun event => !event.closes peer epoch

def Captured (epoch : Nat) (log : Log Λ) : Prop := ∃ event ∈ log, event.captures epoch

def Closed (peer : NodeId) (epoch : Nat) (log : Log Λ) : Prop :=
  ∃ event ∈ log, event.closes peer epoch

/-- All messages that the node put on the channel to a peer. -/
def outgoing (peer : NodeId) (log : Log Λ) : List Message :=
  addressed peer (log.flatMap Event.transmits)

/-- All messages that the node took off the channel from a peer. -/
def consumed (peer : NodeId) (log : Log Λ) : List Message := log.flatMap (Event.consumes peer)

/-- The application state after a log. -/
def state (application : Application σ Λ) (initial : σ) (log : Log Λ) : σ :=
  log.foldl (Event.apply application) initial

/-! ## Logs grow at their end -/

theorem sentTo_append (peer : NodeId) (log more : Log Λ) :
    sentTo peer (log ++ more) = sentTo peer log ++ sentTo peer more :=
  List.filterMap_append

theorem receivedFrom_append (peer : NodeId) (log more : Log Λ) :
    receivedFrom peer (log ++ more) = receivedFrom peer log ++ receivedFrom peer more :=
  List.filterMap_append

theorem outgoing_append (peer : NodeId) (log more : Log Λ) :
    outgoing peer (log ++ more) = outgoing peer log ++ outgoing peer more := by
  simp [outgoing, addressed]

theorem consumed_append (peer : NodeId) (log more : Log Λ) :
    consumed peer (log ++ more) = consumed peer log ++ consumed peer more :=
  List.flatMap_append

theorem state_append (application : Application σ Λ) (initial : σ) (log more : Log Λ) :
    state application initial (log ++ more) =
      state application (state application initial log) more :=
  List.foldl_append

theorem before_append_after (epoch : Nat) (log : Log Λ) :
    before epoch log ++ after epoch log = log :=
  List.takeWhile_append_dropWhile

theorem before_begins (epoch : Nat) (log : Log Λ) : before epoch log <+: log :=
  List.takeWhile_prefix _

variable {epoch : Nat} {event : Event Λ} {log : Log Λ} {peer : NodeId}

theorem captured_append {log more : Log Λ} :
    Captured epoch (log ++ more) ↔ Captured epoch log ∨ Captured epoch more := by
  simp [Captured, or_and_right, exists_or]

theorem closed_append {log more : Log Λ} :
    Closed peer epoch (log ++ more) ↔ Closed peer epoch log ∨ Closed peer epoch more := by
  simp [Closed, or_and_right, exists_or]

@[simp] theorem captured_singleton :
    Captured epoch [event] ↔ event.captures epoch := by
  simp [Captured]

@[simp] theorem closed_singleton :
    Closed peer epoch [event] ↔ event.closes peer epoch := by
  simp [Closed]

/-- What precedes a stopping event does not change any more. -/
theorem takeWhile_stopped {α : Type} {stop : α → Bool} {log : List α} (more : List α)
    (stopped : ∃ event ∈ log, stop event) :
    ((log ++ more).takeWhile fun event => !stop event) =
      log.takeWhile fun event => !stop event := by
  obtain ⟨event, member, stops⟩ := stopped
  rw [List.takeWhile_append, if_neg]
  intro all
  have running := List.takeWhile_eq_self_iff.mp ((List.takeWhile_sublist _).eq_of_length all)
  simpa [stops] using running event member

theorem dropWhile_stopped {α : Type} {stop : α → Bool} {log : List α} (more : List α)
    (stopped : ∃ event ∈ log, stop event) :
    ((log ++ more).dropWhile fun event => !stop event) =
      (log.dropWhile fun event => !stop event) ++ more := by
  obtain ⟨event, member, stops⟩ := stopped
  rw [List.dropWhile_append, if_neg]
  intro none
  have running := List.dropWhile_eq_nil_iff.mp (List.isEmpty_iff.mp none)
  simpa [stops] using running event member

theorem takeWhile_running {α : Type} {stop : α → Bool} {log : List α} (more : List α)
    (running : ¬ ∃ event ∈ log, stop event) :
    ((log ++ more).takeWhile fun event => !stop event) =
      log ++ more.takeWhile fun event => !stop event := by
  apply List.takeWhile_append_of_pos
  intro event member
  simpa using fun stops => running ⟨event, member, stops⟩

theorem dropWhile_running {α : Type} {stop : α → Bool} {log : List α} (more : List α)
    (running : ¬ ∃ event ∈ log, stop event) :
    ((log ++ more).dropWhile fun event => !stop event) =
      more.dropWhile fun event => !stop event := by
  apply List.dropWhile_append_of_pos
  intro event member
  simpa using fun stops => running ⟨event, member, stops⟩

theorem before_append (more : Log Λ) (captured : Captured epoch log) :
    before epoch (log ++ more) = before epoch log :=
  takeWhile_stopped more captured

theorem after_append (more : Log Λ) (captured : Captured epoch log) :
    after epoch (log ++ more) = after epoch log ++ more :=
  dropWhile_stopped more captured

/-- A new capture splits the log at its end. -/
theorem before_capture (fresh : ¬ Captured epoch log) (capture : event.captures epoch) :
    before epoch (log ++ [event]) = log := by
  rw [before, takeWhile_running [event] fresh]
  simp [capture]

theorem after_capture (fresh : ¬ Captured epoch log) (capture : event.captures epoch) :
    after epoch (log ++ [event]) = [event] := by
  rw [after, dropWhile_running [event] fresh]
  simp [capture]

/-- Without a capture the log is whole. -/
theorem before_whole (fresh : ¬ Captured epoch log) :
    before epoch log = log := by
  have whole := takeWhile_running [] fresh
  simp only [List.append_nil, List.takeWhile_nil] at whole
  exact whole

theorem untilClosed_append (more : Log Λ) (closed : Closed peer epoch log) :
    untilClosed peer epoch (log ++ more) = untilClosed peer epoch log :=
  takeWhile_stopped more closed

theorem untilClosed_open (more : Log Λ) (running : ¬ Closed peer epoch log) :
    untilClosed peer epoch (log ++ more) = log ++ untilClosed peer epoch more :=
  takeWhile_running more running

theorem untilClosed_cons (open_ : event.closes peer epoch = false) (rest : Log Λ) :
    untilClosed peer epoch (event :: rest) = event :: untilClosed peer epoch rest := by
  simp [untilClosed, open_]

theorem receivedFrom_cons (silent : event.packetFrom peer = none) (rest : Log Λ) :
    receivedFrom peer (event :: rest) = receivedFrom peer rest :=
  List.filterMap_cons_none silent

/-! ## What is recorded for an epoch -/

/-- The records of one channel. -/
def packetsOf (peer : NodeId) (records : List ChannelRecord) : List Packet :=
  records.filterMap fun saved =>
    if saved.peer = peer then some ⟨saved.sequence, saved.payload⟩ else none

/-- The records of the channels that no marker of the epoch has closed, in the order of their
arrival. `done` are the channels closed before. -/
def recordedFrom (epoch : Nat) : (done : List NodeId) → Log Λ → List ChannelRecord
  | _, [] => []
  | done, .received peer packet :: rest =>
    if peer ∈ done then recordedFrom epoch done rest
    else ⟨peer, packet.sequence, packet.payload⟩ :: recordedFrom epoch done rest
  | done, .closed peer _ of :: rest =>
    if of = epoch then recordedFrom epoch (peer :: done) rest else recordedFrom epoch done rest
  | done, .acted _ _ :: rest => recordedFrom epoch done rest
  | done, .captured _ _ :: rest => recordedFrom epoch done rest

/-- What one more event adds to the records. -/
def recordedBy (epoch : Nat) (done : List NodeId) (log : Log Λ) : Event Λ → List ChannelRecord
  | .received peer packet =>
    if peer ∈ done ∨ ∃ event ∈ log, event.closes peer epoch then []
    else [⟨peer, packet.sequence, packet.payload⟩]
  | _ => []

theorem recordedFrom_snoc (epoch : Nat) (done : List NodeId) (log : Log Λ) (event : Event Λ) :
    recordedFrom epoch done (log ++ [event]) =
      recordedFrom epoch done log ++ recordedBy epoch done log event := by
  induction log generalizing done with
  | nil =>
    cases event with
    | received peer packet =>
      by_cases closed : peer ∈ done <;> simp [recordedFrom, recordedBy, closed]
    | closed peer sequence of =>
      by_cases same : of = epoch <;> simp [recordedFrom, recordedBy, same]
    | acted label message | captured of sent => simp [recordedFrom, recordedBy]
  | cons first rest inductionHypothesis =>
    -- The first event closes no channel, or one more for the rest.
    have same (silent : ∀ peer, first.closes peer epoch = false) :
        recordedBy epoch done (first :: rest) event = recordedBy epoch done rest event := by
      cases event with
      | received peer packet => simp [recordedBy, silent]
      | closed | acted | captured => rfl
    cases first with
    | received peer packet =>
      rw [List.cons_append, recordedFrom, recordedFrom, inductionHypothesis,
        same (fun _ => rfl)]
      split <;> rfl
    | closed peer sequence of =>
      rw [List.cons_append, recordedFrom, recordedFrom, inductionHypothesis, inductionHypothesis]
      by_cases here : of = epoch
      · rw [if_pos here, if_pos here]
        congr 1
        cases event with
        | received other packet =>
          have closed : (other ∈ peer :: done ∨ ∃ event ∈ rest, event.closes other epoch) ↔
              (other ∈ done ∨
                ∃ event ∈ .closed peer sequence of :: rest, event.closes other epoch) := by
            rw [List.mem_cons, List.exists_mem_cons_iff]
            simp only [Event.closes, here, and_true, decide_eq_true_eq]
            grind
          simp only [recordedBy, closed]
        | closed | acted | captured => rfl
      · rw [if_neg here, if_neg here, same]
        intro other
        simp [Event.closes, here]
    | acted label message | captured of sent =>
      rw [List.cons_append, recordedFrom, recordedFrom, inductionHypothesis, same (fun _ => rfl)]

/-- The records of a channel are what arrived on it before its marker. -/
theorem packetsOf_recordedFrom (peer : NodeId) (epoch : Nat) (done : List NodeId) (log : Log Λ) :
    packetsOf peer (recordedFrom epoch done log) =
      if peer ∈ done then [] else receivedFrom peer (untilClosed peer epoch log) := by
  induction log generalizing done with
  | nil => simp [packetsOf, recordedFrom, receivedFrom, untilClosed]
  | cons event rest inductionHypothesis =>
    have later := inductionHypothesis done
    cases event with
    | received sender packet =>
      rw [recordedFrom, untilClosed_cons rfl]
      by_cases here : sender = peer
      · subst here
        by_cases closed : sender ∈ done
        · rw [if_pos closed, later, if_pos closed, if_pos closed]
        · rw [if_neg closed] at later
          have own : Event.packetFrom sender (.received sender packet : Event Λ) = some packet :=
            if_pos rfl
          rw [if_neg closed, if_neg closed, receivedFrom, List.filterMap_cons_some own,
            ← receivedFrom, ← later]
          simp [packetsOf]
      · have foreign : Event.packetFrom peer (.received sender packet : Event Λ) = none :=
          if_neg here
        rw [receivedFrom_cons foreign, ← later]
        split
        · rfl
        · simp [packetsOf, here]
    | closed sender sequence of =>
      rw [recordedFrom]
      by_cases same : of = epoch
      · rw [if_pos same, inductionHypothesis]
        by_cases here : sender = peer
        · simp [here, same, untilClosed, Event.closes, receivedFrom]
        · rw [untilClosed_cons (by simp [Event.closes, here]), receivedFrom_cons rfl]
          simp [Ne.symm here]
      · rw [if_neg same, later, untilClosed_cons (by simp [Event.closes, same]),
          receivedFrom_cons rfl]
    | acted label message | captured of sent =>
      rw [recordedFrom, later, untilClosed_cons rfl, receivedFrom_cons rfl]

end Log
end Stormglass.Snapshot
