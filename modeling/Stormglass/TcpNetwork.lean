import Stormglass.TcpFraming

/-!
# A network of transports

Every node has a transport, and for every pair of nodes a reliable stream carries what one
has written to the other. An endpoint that is intact for the messages its peers have queued
stays so through every call and every delivery of bytes, which makes the framing transparent
over whole runs.
-/

namespace Stormglass.Snapshot

open EStateM

/-- The endpoints of all nodes. -/
abbrev TcpNetwork := NodeId → Endpoint

/-- More bytes arrive from a peer. -/
def Endpoint.arrive (endpoint : Endpoint) (peer : NodeId) (bytes : Bytes) : Endpoint :=
  { endpoint with
    incoming := Function.update endpoint.incoming peer (endpoint.incoming peer ++ bytes) }

/-- All bytes that have arrived from a peer. -/
def Endpoint.arrived (endpoint : Endpoint) (peer : NodeId) : Bytes :=
  endpoint.received peer ++ endpoint.incoming peer

namespace TcpNetwork

/-- The stream from one node to another delivers the next bytes. -/
def carry (network : TcpNetwork) (sender receiver : NodeId) (count : Nat) : TcpNetwork :=
  Function.update network receiver ((network receiver).arrive sender
    ((((network sender).written receiver).drop ((network receiver).arrived sender).length).take
      count))

/-- A call of a method, a poll of reliable sockets, or a delivery of bytes. -/
inductive Step (network : TcpNetwork) : TcpNetwork → Prop where
  | queue (node peer : NodeId) (message : Message) (fits : message.Fits) (after : Endpoint)
      (accepted : (TcpTransport.queue peer message).run (network node) = .ok () after) :
      Step network (Function.update network node after)
  | poll (node : NodeId) (receive : Callback) (timeout : Int) (ready : NodeId → Readiness)
      (replies : TcpTransport.Replies receive) (bounded : 0 ≤ timeout)
      (reliable : ∀ peer, (ready peer).Reliable) (after : Endpoint)
      (returned : (TcpTransport.pollOnce receive timeout (some ready)).run (network node) =
        .ok () after) :
      Step network (Function.update network node after)
  | carry (sender receiver : NodeId) (count : Nat) :
      Step network (network.carry sender receiver count)

def Reaches : TcpNetwork → TcpNetwork → Prop := Relation.ReflTransGen Step

/-- New transports, between which nothing was sent. -/
def Starts (network : TcpNetwork) : Prop :=
  ∀ node, ∃ peers limit transport, TcpTransport.create peers limit = .ok transport ∧
    network node = { transport }

/-- Every endpoint is intact for the messages that its peers have queued, and the bytes that
arrived are those that were written. -/
structure Sound (network : TcpNetwork) : Prop where
  intact : ∀ node,
    Intact (fun peer => (network peer).queuedTo node) (network node) none (network node)
  wired : ∀ sender receiver, (network receiver).arrived sender <+: (network sender).written receiver

end TcpNetwork

section Network

variable {expected later : NodeId → List Message} {origin endpoint after : Endpoint}
  {network : TcpNetwork}

theorem Intact.sendable {busy : Option NodeId} (intact : Intact expected origin busy endpoint)
    (peer : NodeId) : ∀ message ∈ endpoint.queuedTo peer, message.Sendable := by
  cases found : endpoint.transport.channels[peer]? with
  | some channel => exact (intact.sending peer channel found).sendable
  | none =>
    have absent : peer ∉ endpoint.transport.channels := by
      simp [Std.ExtTreeMap.mem_iff_isSome_getElem?, found]
    rw [(intact.silent peer absent).2.1]
    simp

theorem Intact.written_le_stream {busy : Option NodeId}
    (intact : Intact expected origin busy endpoint)
    (peer : NodeId) : endpoint.written peer <+: stream (endpoint.queuedTo peer) := by
  cases found : endpoint.transport.channels[peer]? with
  | some channel =>
    rw [← (intact.sending peer channel found).bytes]
    exact List.prefix_append _ _
  | none =>
    have absent : peer ∉ endpoint.transport.channels := by
      simp [Std.ExtTreeMap.mem_iff_isSome_getElem?, found]
    rw [(intact.silent peer absent).1]
    exact List.nil_prefix

/-- The invariant stays when the peers queue more, and starts over from the current
state. -/
theorem Intact.grow (intact : Intact expected origin none endpoint)
    (grows : ∀ peer, expected peer <+: later peer)
    (sendable : ∀ peer, ∀ message ∈ later peer, message.Sendable) :
    Intact later endpoint none endpoint where
  healthy := intact.healthy
  limit := rfl
  peers _ := Iff.rfl
  sending := intact.sending
  receiving peer channel present := by
    have receiving := intact.receiving peer channel present
    exact ⟨sendable peer, receiving.handed.trans (grows peer), receiving.bytes,
      receiving.arrived.trans (stream_mono (grows peer))⟩
  parsed := intact.parsed
  silent := intact.silent
  written _ := List.prefix_rfl
  queued := List.prefix_rfl
  arrived _ := rfl

theorem messagesOf_prefix (peer : NodeId) {first second : List (NodeId × Message)}
    (starts : first <+: second) : messagesOf peer first <+: messagesOf peer second :=
  (starts.filter _).map _

/-- A call at one node keeps the network sound. -/
theorem TcpNetwork.Sound.call (sound : network.Sound) {node : NodeId}
    (intact : Intact (fun peer => (network peer).queuedTo node) (network node) none after) :
    TcpNetwork.Sound (Function.update network node after) := by
  have grows (peer other : NodeId) : (network peer).queuedTo other <+:
      (Function.update network node after peer).queuedTo other := by
    by_cases same : peer = node
    · subst peer
      rw [Function.update_self]
      exact messagesOf_prefix other intact.queued
    · rw [Function.update_of_ne same]
  have sendable (peer other : NodeId) :
      ∀ message ∈ (Function.update network node after peer).queuedTo other, message.Sendable := by
    by_cases same : peer = node
    · subst peer
      rw [Function.update_self]
      exact intact.sendable other
    · rw [Function.update_of_ne same]
      exact (sound.intact peer).sendable other
  constructor
  · intro other
    by_cases same : other = node
    · subst other
      rw [Function.update_self]
      exact intact.grow (fun peer => grows peer _) (fun peer => sendable peer _)
    · rw [Function.update_of_ne same]
      exact (sound.intact other).grow (fun peer => grows peer other)
        (fun peer => sendable peer other)
  · intro sender receiver
    have arrived : (Function.update network node after receiver).arrived sender =
        (network receiver).arrived sender := by
      by_cases same : receiver = node
      · subst receiver
        rw [Function.update_self]
        exact intact.arrived sender
      · rw [Function.update_of_ne same]
    have written : (network sender).written receiver <+:
        (Function.update network node after sender).written receiver := by
      by_cases same : sender = node
      · subst sender
        rw [Function.update_self]
        exact intact.written receiver
      · rw [Function.update_of_ne same]
    rw [arrived]
    exact (sound.wired sender receiver).trans written

theorem arrived_arrive (endpoint : Endpoint) (peer other : NodeId) (bytes : Bytes) :
    (endpoint.arrive peer bytes).arrived other =
      if other = peer then endpoint.arrived peer ++ bytes else endpoint.arrived other := by
  unfold Endpoint.arrived Endpoint.arrive
  split_ifs with same
  · subst other
    dsimp only
    rw [Function.update_self, List.append_assoc]
  · dsimp only
    rw [Function.update_of_ne same]

/-- More bytes of the expected stream keep an endpoint intact. -/
theorem Intact.arrive (intact : Intact expected origin none endpoint) {peer : NodeId}
    {bytes : Bytes}
    (expects : endpoint.arrived peer ++ bytes <+: stream (expected peer)) :
    Intact expected (endpoint.arrive peer bytes) none (endpoint.arrive peer bytes) where
  healthy := intact.healthy
  limit := rfl
  peers _ := Iff.rfl
  sending other channel present := by
    apply (intact.sending other channel present).congr <;> rfl
  receiving other channel present := by
    obtain ⟨sendable, handed, received, arrived⟩ := intact.receiving other channel present
    refine ⟨sendable, handed, received, ?_⟩
    change (endpoint.arrive peer bytes).arrived other <+: _
    rw [arrived_arrive]
    split_ifs with same
    · rw [same]
      exact expects
    · exact arrived
  parsed := intact.parsed
  silent := intact.silent
  written _ := List.prefix_rfl
  queued := List.prefix_rfl
  arrived _ := rfl

/-- A delivery of bytes keeps the network sound. -/
theorem TcpNetwork.Sound.carry (sound : network.Sound) (sender receiver : NodeId) (count : Nat) :
    (network.carry sender receiver count).Sound := by
  have next : (network receiver).arrived sender ++
      (((network sender).written receiver).drop ((network receiver).arrived sender).length).take
        count <+: (network sender).written receiver := by
    obtain ⟨ahead, whole⟩ := sound.wired sender receiver
    rw [← whole, List.drop_left]
    exact (List.prefix_append_right_inj _).mpr (List.take_prefix _ _)
  have same (peer : NodeId) :
      ((network.carry sender receiver count) peer).queued = (network peer).queued ∧
        ((network.carry sender receiver count) peer).written = (network peer).written := by
    by_cases equal : peer = receiver
    · subst peer
      rw [TcpNetwork.carry, Function.update_self]
      exact ⟨rfl, rfl⟩
    · rw [TcpNetwork.carry, Function.update_of_ne equal]
      exact ⟨rfl, rfl⟩
  constructor
  · intro node
    have expects : (fun peer => ((network.carry sender receiver count) peer).queuedTo node) =
        fun peer => (network peer).queuedTo node := by
      funext peer
      rw [Endpoint.queuedTo, (same peer).1]
      rfl
    rw [expects]
    by_cases equal : node = receiver
    · subst node
      rw [TcpNetwork.carry, Function.update_self]
      exact (sound.intact _).arrive (next.trans ((sound.intact sender).written_le_stream _))
    · rw [TcpNetwork.carry, Function.update_of_ne equal]
      exact sound.intact node
  · intro other node
    rw [(same other).2]
    by_cases equal : node = receiver
    · subst node
      rw [TcpNetwork.carry, Function.update_self, arrived_arrive]
      split_ifs with origin
      · rw [origin]
        exact next
      · exact sound.wired other _
    · rw [TcpNetwork.carry, Function.update_of_ne equal]
      exact sound.wired other node

namespace TcpTransport

theorem adopt_empty {channels result : Std.ExtTreeMap NodeId Channel} {first : NodeId}
    (empty : ∀ (peer : NodeId) (channel : Channel), channels[peer]? = some channel → channel = {})
    (adopted : adopt channels first = .ok result) (peer : NodeId) (channel : Channel)
    (found : result[peer]? = some channel) : channel = {} := by
  unfold adopt require at adopted
  split_ifs at adopted <;> cases adopted
  rw [Std.ExtTreeMap.getElem?_insert] at found
  split_ifs at found
  · exact (Option.some.inj found).symm
  · exact empty peer channel found

theorem foldlM_adopt_empty {peers : List NodeId} {channels result : Std.ExtTreeMap NodeId Channel}
    (empty : ∀ (peer : NodeId) (channel : Channel), channels[peer]? = some channel → channel = {})
    (adopted : peers.foldlM adopt channels = .ok result) (peer : NodeId) (channel : Channel)
    (found : result[peer]? = some channel) : channel = {} := by
  induction peers generalizing channels with
  | nil =>
    cases adopted
    exact empty peer channel found
  | cons first rest inductionHypothesis =>
    rw [List.foldlM_cons] at adopted
    cases next : adopt channels first with
    | error text =>
      rw [next] at adopted
      cases adopted
    | ok more =>
      rw [next] at adopted
      exact inductionHypothesis (adopt_empty empty next) adopted

/-- The channels of a new transport are empty. -/
theorem create_channels {peers : List NodeId} {limit : UInt64} {transport : TcpTransport}
    (created : create peers limit = .ok transport) :
    transport.failed = false ∧ ∀ (peer : NodeId) (channel : Channel),
      transport.channels[peer]? = some channel → channel = {} := by
  unfold create require at created
  split_ifs at created
  · cases adopted : peers.foldlM adopt ∅ with
    | error text =>
      rw [adopted] at created
      cases created
    | ok channels =>
      rw [adopted] at created
      cases created
      exact ⟨rfl, foldlM_adopt_empty (by simp) adopted⟩
  · cases created

end TcpTransport

theorem TcpNetwork.Sound.start (starts : network.Starts) : network.Sound := by
  constructor
  · intro node
    obtain ⟨peers, limit, transport, created, same⟩ := starts node
    obtain ⟨healthy, empty⟩ := TcpTransport.create_channels created
    have nothing (peer : NodeId) : (network peer).queuedTo node = [] := by
      obtain ⟨_, _, _, _, fresh⟩ := starts peer
      rw [fresh]
      rfl
    rw [same]
    refine ⟨healthy, rfl, fun _ => Iff.rfl, ?_, ?_, ?_, fun _ _ => ⟨rfl, rfl, rfl, rfl⟩,
      fun _ => List.prefix_rfl, List.prefix_rfl, fun _ => rfl⟩
    · intro peer channel present
      rw [empty peer channel present]
      exact ⟨by simp [Endpoint.queuedTo, messagesOf], rfl, rfl, Nat.zero_le _, fun _ => rfl,
        by simp, by simp⟩
    · intro peer channel present
      rw [empty peer channel present, nothing]
      exact ⟨by simp, List.prefix_rfl, rfl, List.prefix_rfl⟩
    · intro peer channel present _
      rw [empty peer channel present]
      exact parsed_nil
  · intro sender receiver
    obtain ⟨_, _, _, _, fresh⟩ := starts receiver
    rw [fresh]
    exact List.nil_prefix

theorem TcpNetwork.Sound.step {next : TcpNetwork} (sound : network.Sound)
    (step : network.Step next) :
    next.Sound := by
  cases step with
  | queue node peer message fits after accepted =>
    exact sound.call ((TcpTransport.queue_intact (sound.intact node) peer fits).run_ok accepted).1
  | poll node receive timeout ready replies bounded reliable after returned =>
    exact sound.call ((TcpTransport.pollOnce_intact replies bounded reliable
      (sound.intact node)).run_ok returned)
  | carry sender receiver count => exact sound.carry sender receiver count

theorem TcpNetwork.Sound.reaches {next : TcpNetwork} (sound : network.Sound)
    (reached : network.Reaches next) : next.Sound := by
  induction reached with
  | refl => exact sound
  | tail _ step inductionHypothesis => exact inductionHypothesis.step step

end Network

theorem eq_of_parsed {expected : List Message} {endpoint : Endpoint} {peer : NodeId}
    {channel : Channel} (receiving : Receiving expected endpoint peer channel)
    (parsed : Parsed channel.input)
    (all : (stream expected).length ≤ (endpoint.received peer).length) :
    endpoint.handedFrom peer = expected := by
  obtain ⟨sendable, ⟨rest, split⟩, bytes, arrived⟩ := receiving
  have same : endpoint.received peer = stream expected :=
    ((List.prefix_append _ _).trans arrived).eq_of_length_le all
  rw [bytes, ← split, stream_append] at same
  have input := List.append_cancel_left same
  cases rest with
  | nil => rw [← split, List.append_nil]
  | cons message rest =>
    -- A message that was not handed over would be a whole frame in the input.
    exfalso
    apply parsed message (sendable message (by rw [← split]; simp))
    rw [input, stream_cons]
    exact List.prefix_append _ _

theorem eq_nil_of_stream {messages : List Message} (nothing : (stream messages).length = 0) :
    messages = [] := by
  cases messages with
  | nil => rfl
  | cons message rest =>
    rw [stream_cons, List.length_append, Message.length_frame] at nothing
    omega

/-- **The framing is transparent.** However the sockets cut the stream, the messages that a
node hands to its callback are at every moment a prefix of those that were queued for it, and
all of them once all bytes were read. No transport fails, and a poll of reliable sockets
throws only what a message queued by its callback causes. The counter of queued bytes is
that of the bytes not yet sent, and stays within the limit. -/
theorem framing_transparent {start network : TcpNetwork} (starts : start.Starts)
    (reached : start.Reaches network) (sender receiver : NodeId) :
    (network receiver).handedFrom sender <+: (network sender).queuedTo receiver ∧
    ((stream ((network sender).queuedTo receiver)).length ≤
        ((network receiver).received sender).length →
      (network receiver).handedFrom sender = (network sender).queuedTo receiver) ∧
    (network sender).transport.failed = false ∧
    (∀ (receive : Callback) (timeout : Int) (ready : NodeId → Readiness),
      TcpTransport.Replies receive → 0 ≤ timeout → (∀ peer, (ready peer).Reliable) →
      ∀ text after, (TcpTransport.pollOnce receive timeout (some ready)).run (network receiver) =
        .error text after →
          Refusal text ∧ ∃ history peer message, receive history peer message ≠ []) ∧
    (∀ channel, (network sender).transport.channels[receiver]? = some channel →
      channel.queuedBytes + ((network sender).written receiver).length =
          (stream ((network sender).queuedTo receiver)).length ∧
        channel.queuedBytes ≤ (network sender).transport.queueLimit.toNat) := by
  have sound := (TcpNetwork.Sound.start starts).reaches reached
  have intact := sound.intact receiver
  refine ⟨?_, ?_, (sound.intact sender).healthy, ?_, ?_⟩
  · cases found : (network receiver).transport.channels[sender]? with
    | some channel => exact (intact.receiving sender channel found).handed
    | none =>
      have absent : sender ∉ (network receiver).transport.channels := by
        simp [Std.ExtTreeMap.mem_iff_isSome_getElem?, found]
      rw [(intact.silent sender absent).2.2.2]
      exact List.nil_prefix
  · intro all
    cases found : (network receiver).transport.channels[sender]? with
    | some channel =>
      exact eq_of_parsed (intact.receiving sender channel found)
        (intact.parsed sender channel found (by simp)) all
    | none =>
      have absent : sender ∉ (network receiver).transport.channels := by
        simp [Std.ExtTreeMap.mem_iff_isSome_getElem?, found]
      obtain ⟨-, -, received, handed⟩ := intact.silent sender absent
      rw [received] at all
      rw [handed, eq_nil_of_stream (Nat.le_zero.mp all)]
  · intro receive timeout ready replies bounded reliable text after raised
    exact (TcpTransport.pollOnce_intact replies bounded reliable intact).run_error raised
  · intro channel present
    have sending := (sound.intact sender).sending receiver channel present
    refine ⟨?_, sending.limited⟩
    rw [← sending.bytes, List.length_append, ← sending.counted, Nat.add_comm]

section Sample

/-- The endpoint after a call, and whether the call returned. -/
def outcome (call : Call Unit) (endpoint : Endpoint) : Bool × Endpoint :=
  match call.run endpoint with
  | .ok _ after => (true, after)
  | .error _ after => (false, after)

theorem run_of_outcome {call : Call Unit} {endpoint : Endpoint}
    (returned : (outcome call endpoint).1 = true) :
    call.run endpoint = .ok () (outcome call endpoint).2 := by
  unfold outcome at returned ⊢
  cases ran : call.run endpoint with
  | ok value after => rfl
  | error text after =>
    rw [ran] at returned
    cases returned

/-- Two connected nodes. -/
def twoNodes : TcpNetwork := fun node =>
  { transport :=
    { channels := if node = 0 then Std.ExtTreeMap.insert ∅ 1 {}
        else if node = 1 then Std.ExtTreeMap.insert ∅ 0 {} else ∅
      queueLimit := 64 } }

def greeting : Message := { kind := .data, sequence := 1, epoch := 0, payload := [7] }

/-- A poll whose sockets accept three bytes and then the rest, and return a chunk. -/
def readyBoth : NodeId → Readiness := fun _ =>
  { invalid := false, writable := true, readable := true,
    sends := [.accepts 2, .interrupted, .accepts 99], recv := .reads 99 }

def quiet : Callback := fun _ _ _ => []

def polled (network : TcpNetwork) (node : NodeId) : TcpNetwork :=
  Function.update network node
    (outcome (TcpTransport.pollOnce quiet 0 (some readyBoth)) (network node)).2

def greeted : TcpNetwork :=
  Function.update twoNodes 0 (outcome (TcpTransport.queue 1 greeting) (twoNodes 0)).2

/-- The greeting is read in two chunks, the first of which ends inside the length. -/
def halfway : TcpNetwork := polled ((polled greeted 0).carry 0 1 3) 1

def arrivedWhole : TcpNetwork := polled (halfway.carry 0 1 99) 1

theorem readyBoth_reliable (peer : NodeId) : (readyBoth peer).Reliable := by
  refine ⟨rfl, ?_, by simp [readyBoth, RecvAnswer.Reliable]⟩
  simp [readyBoth, SendAnswer.Reliable]

theorem polled_step {network : TcpNetwork} {node : NodeId}
    (returned :
      (outcome (TcpTransport.pollOnce quiet 0 (some readyBoth)) (network node)).1 = true) :
    network.Step (polled network node) :=
  .poll node quiet 0 readyBoth (by simp [TcpTransport.Replies, quiet]) le_rfl readyBoth_reliable _
    (run_of_outcome returned)

theorem twoNodes_starts : twoNodes.Starts := by
  intro node
  by_cases first : node = 0
  · subst node
    exact ⟨[1], 64, (twoNodes 0).transport, rfl, rfl⟩
  · by_cases second : node = 1
    · subst node
      exact ⟨[0], 64, (twoNodes 1).transport, rfl, rfl⟩
    · refine ⟨[], 64, { channels := ∅, queueLimit := 64 }, rfl, ?_⟩
      simp [twoNodes, first, second]

/-- The greeting arrives. -/
theorem greeting_arrives : (arrivedWhole 1).handedFrom 0 = [greeting] := by
  have queued : twoNodes.Step greeted :=
    .queue 0 1 greeting (by decide) _ (run_of_outcome (by decide +kernel))
  have reached : twoNodes.Reaches arrivedWhole :=
    (((((Relation.ReflTransGen.single queued).tail (polled_step (by decide +kernel))).tail
      (.carry 0 1 3)).tail (polled_step (by decide +kernel))).tail (.carry 0 1 99)).tail
      (polled_step (by decide +kernel))
  have transparent := framing_transparent twoNodes_starts reached 0 1
  rw [transparent.2.1 (by decide +kernel)]
  decide +kernel

end Sample

end Stormglass.Snapshot
