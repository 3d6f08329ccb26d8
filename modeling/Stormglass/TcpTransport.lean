import Stormglass.Crc32c
import Stormglass.SnapshotCodec

/-!
# Framed messages over TCP

`TcpTransport` carries the messages of the marker protocol. A message becomes a frame: a
length, a sealed body, and its CRC. `Queue` appends the frame to the output of a peer, and
`PollOnce` sends what the sockets accept and reads one chunk from every socket that has
data. Whole frames at the front of the input are decoded and handed to a callback, which
may itself queue messages.

What the kernel does is an argument: how much each `send` accepts and each `recv` returns,
and which calls fail. An endpoint is a transport with the bytes at its sockets, and it
remembers what was queued and what was handed to the callback.
-/

namespace Stormglass.Snapshot

/-! ## Frames -/

/-- The first number of a frame. -/
def frameMagic : Nat := 0x53474331

/-- `kMaxFrame` -/
def maxFrame : Nat := 1024 * 1024

/-- The value of the enumerator. -/
def Kind.code : Kind → Nat
  | .data => 1
  | .marker => 2

def Kind.ofCode : Nat → Option Kind
  | 1 => some .data
  | 2 => some .marker
  | _ => none

namespace Message

/-- `Encode` -/
def encode (message : Message) : Except String Bytes := do
  let payload ← Encoder.blob message.payload
  let body := LittleEndian.encode 4 frameMagic ++ (LittleEndian.encode 1 message.kind.code ++
    (LittleEndian.encode 8 message.sequence ++ (LittleEndian.encode 8 message.epoch ++ payload)))
  require (¬ body.length + 4 > maxFrame) "TCP frame exceeds limit"
  let whole := body ++ LittleEndian.encode 4 (crc32c body).toNat
  pure (LittleEndian.encode 4 whole.length ++ whole)

/-- The fields of a message, after its checksum. -/
def fields : Decoder Message := do
  let magic ← Decoder.u32
  require (magic = frameMagic) "TCP protocol version mismatch"
  let code ← Decoder.u8
  let sequence ← Decoder.u64
  let epoch ← Decoder.u64
  let payload ← Decoder.blob
  Decoder.finish
  match Kind.ofCode code with
  | some kind => pure { kind, sequence, epoch, payload }
  | none => throw "invalid TCP message kind"

/-- `Decode` -/
def decode (frame : Bytes) : Except String Message := do
  require (¬ frame.length < 4) "short TCP frame"
  let trailer ← Decoder.u32.run' (frame.drop (frame.length - 4))
  require ((crc32c (frame.take (frame.length - 4))).toNat = trailer) "TCP frame CRC mismatch"
  fields.run' (frame.take (frame.length - 4))

end Message

/-! ## The transport -/

/-- `Channel`, without its descriptor. -/
structure Channel where
  input : Bytes := []
  output : List Bytes := []
  frontOffset : Nat := 0
  queuedBytes : Nat := 0

structure TcpTransport where
  channels : Std.ExtTreeMap NodeId Channel
  queueLimit : UInt64
  failed : Bool := false

/-- The socket of one peer is adopted. -/
def TcpTransport.adopt (channels : Std.ExtTreeMap NodeId Channel) (peer : NodeId) :
    Except String (Std.ExtTreeMap NodeId Channel) := do
  require (peer ∉ channels) "invalid/duplicate TCP peer"
  pure (channels.insert peer {})

/-- The constructor, for open sockets with distinct descriptors. -/
def TcpTransport.create (peers : List NodeId) (limit : UInt64) : Except String TcpTransport := do
  require (limit ≠ 0) "zero TCP queue limit"
  let channels ← peers.foldlM adopt ∅
  pure { channels, queueLimit := limit }

/-- A transport with the bytes at its sockets and the history of its calls. -/
structure Endpoint where
  transport : TcpTransport
  /-- What has arrived from a peer and was not read yet. -/
  incoming : NodeId → Bytes := fun _ => []
  /-- What was read from a peer so far. -/
  received : NodeId → Bytes := fun _ => []
  /-- What the socket to a peer has accepted so far. -/
  written : NodeId → Bytes := fun _ => []
  /-- The messages that were queued, with their receivers. -/
  queued : List (NodeId × Message) := []
  /-- The messages that were handed to the callback, with their senders. -/
  handed : List (NodeId × Message) := []

/-- The messages of one peer. -/
def messagesOf (peer : NodeId) (log : List (NodeId × Message)) : List Message :=
  (log.filter fun entry => entry.1 = peer).map Prod.snd

namespace Endpoint

def queuedTo (endpoint : Endpoint) (peer : NodeId) : List Message :=
  messagesOf peer endpoint.queued

def handedFrom (endpoint : Endpoint) (peer : NodeId) : List Message :=
  messagesOf peer endpoint.handed

def setChannel (endpoint : Endpoint) (peer : NodeId) (channel : Channel) : Endpoint :=
  { endpoint with transport := { endpoint.transport with
      channels := endpoint.transport.channels.insert peer channel } }

/-- A peer's frame is appended to its output. -/
def append (endpoint : Endpoint) (peer : NodeId) (channel : Channel) (message : Message)
    (frame : Bytes) : Endpoint :=
  { endpoint.setChannel peer { channel with
      queuedBytes := channel.queuedBytes + frame.length, output := channel.output ++ [frame] } with
    queued := endpoint.queued ++ [(peer, message)] }

/-- The socket of a peer accepts some bytes of the frame at the front. -/
def accept (endpoint : Endpoint) (peer : NodeId) (channel : Channel) (front : Bytes)
    (rest : List Bytes) (count : Nat) : Endpoint :=
  let offset := channel.frontOffset + count
  let after := if offset = front.length then
      { channel with output := rest, frontOffset := 0, queuedBytes := channel.queuedBytes - count }
    else { channel with frontOffset := offset, queuedBytes := channel.queuedBytes - count }
  { endpoint.setChannel peer after with
    written := Function.update endpoint.written peer
      (endpoint.written peer ++ (front.drop channel.frontOffset).take count) }

/-- A chunk of a peer is read into its input. -/
def readChunk (endpoint : Endpoint) (peer : NodeId) (channel : Channel) (count : Nat) : Endpoint :=
  let chunk := (endpoint.incoming peer).take count
  { endpoint.setChannel peer { channel with input := channel.input ++ chunk } with
    incoming := Function.update endpoint.incoming peer ((endpoint.incoming peer).drop count)
    received := Function.update endpoint.received peer (endpoint.received peer ++ chunk) }

/-- The frame at the front of the input is handed to the callback as a message. -/
def hand (endpoint : Endpoint) (peer : NodeId) (channel : Channel) (size : Nat)
    (message : Message) : Endpoint :=
  { endpoint.setChannel peer { channel with input := channel.input.drop (4 + size) } with
    handed := endpoint.handed ++ [(peer, message)] }

end Endpoint

/-- The answer of one `send`. -/
inductive SendAnswer where
  /-- It accepts up to `more + 1` of the offered bytes. -/
  | accepts (more : Nat)
  | interrupted
  | again
  | zero
  | error
deriving DecidableEq

/-- The answer of one `recv`. -/
inductive RecvAnswer where
  /-- It returns up to `more + 1` of the bytes that have arrived. -/
  | reads (more : Nat)
  | interrupted
  | again
  | disconnected
  | error
deriving DecidableEq

/-- What `poll` and the calls after it report for one socket. -/
structure Readiness where
  invalid : Bool
  writable : Bool
  readable : Bool
  /-- The answers of the sends. A list that ends stands for a socket that is full. -/
  sends : List SendAnswer
  recv : RecvAnswer

/-- What a callback queues for a message, given what was handed to it before. -/
abbrev Callback := List (NodeId × Message) → NodeId → Message → List (NodeId × Message)

/-- A method of the transport. -/
abbrev Call := EStateM String Endpoint

namespace TcpTransport

/-- The channel of a peer. -/
def channel (peer : NodeId) : Call Channel := do
  lookup (← get).transport.channels peer

def checkHealthy : Call Unit := do
  require ((← get).transport.failed = false) "TCP transport failed"

/-- The `try` block of the methods: an exception fails the transport. -/
def failing {α : Type} (body : Call α) : Call α :=
  try body catch message => do
    modify fun endpoint => { endpoint with transport := { endpoint.transport with failed := true } }
    throw message

/-- `queue_limit_ - c.queued_bytes` in `std::size_t`. -/
@[irreducible]
def room (limit : UInt64) (channel : Channel) : Nat :=
  (limit.toNat + 2 ^ 64 - channel.queuedBytes) % 2 ^ 64

def queue (peer : NodeId) (message : Message) : Call Unit := do
  checkHealthy
  failing do
    let frame ← MonadExcept.ofExcept message.encode
    let channel ← channel peer
    require (¬ frame.length > room (← get).transport.queueLimit channel)
      "TCP output queue limit exceeded"
    modify fun endpoint => endpoint.append peer channel message frame

/-- The loop of sends within the budget of one poll. -/
def sendLoop (peer : NodeId) : List SendAnswer → Nat → Call Unit
  | [], _ => pure ()
  | answer :: answers, budget => do
    let channel ← channel peer
    match channel.output with
    | [] => pure ()
    | front :: rest =>
      if budget = 0 then pure ()
      else
        match answer with
        | .interrupted => sendLoop peer answers budget
        | .again => pure ()
        | .error => throw "send"
        | .zero => throw "zero TCP send"
        | .accepts more =>
          let count := min (more + 1) (min budget (front.length - channel.frontOffset))
          modify fun endpoint => endpoint.accept peer channel front rest count
          sendLoop peer answers (budget - count)

/-- A message is handed to the callback, which queues messages. -/
def deliver (receive : Callback) (peer : NodeId) (message : Message)
    (history : List (NodeId × Message)) : Call Unit :=
  (receive history peer message).forM fun (receiver, reply) => queue receiver reply

/-- The loop over the frames at the front of the input. Each turn removes at least four
bytes, so the length of the input bounds the number of turns. -/
def parseLoop (receive : Callback) (peer : NodeId) : Nat → Call Unit
  | 0 => pure ()
  | turns + 1 => do
    let channel ← channel peer
    if channel.input.length < 4 then pure ()
    else
      let size := LittleEndian.decode (channel.input.take 4)
      require (¬ (size < 29 ∨ size > maxFrame)) "invalid TCP frame length"
      if channel.input.length < size + 4 then pure ()
      else
        let message ← MonadExcept.ofExcept (Message.decode ((channel.input.drop 4).take size))
        let history := (← get).handed
        modify fun endpoint => endpoint.hand peer channel size message
        deliver receive peer message history
        parseLoop receive peer turns

/-- The read of one chunk. A stream that is open and has nothing to read would block. -/
def recv (receive : Callback) (peer : NodeId) (answer : RecvAnswer) : Call Unit :=
  match answer with
  | .interrupted => pure ()
  | .again => pure ()
  | .error => throw "recv"
  | .disconnected => throw "TCP peer disconnected; snapshot epoch cannot exclude it"
  | .reads more => do
    if (← get).incoming peer = [] then pure ()
    else
      let channel ← channel peer
      modify fun endpoint => endpoint.readChunk peer channel (min (more + 1) 16384)
      parseLoop receive peer (channel.input.length + 16384)

/-- One socket of `PollOnce`. -/
def serve (receive : Callback) (peer : NodeId) (requested : Bool) (ready : Readiness) :
    Call Unit := do
  require (ready.invalid = false) "invalid TCP descriptor"
  if requested = true ∧ ready.writable = true then sendLoop peer ready.sends (256 * 1024)
  if ready.readable = true then recv receive peer ready.recv

/-- `PollOnce`, where `poll` may fail. -/
def pollOnce (receive : Callback) (timeout : Int) (ready : Option (NodeId → Readiness)) :
    Call Unit := do
  checkHealthy
  failing do
    require (¬ timeout < 0) "TCP poll requires bounded timeout"
    let requests := (← get).transport.channels.toList.map fun (peer, channel) =>
      (peer, !channel.output.isEmpty)
    match ready with
    | none => throw "poll"
    | some ready =>
      requests.forM fun (peer, requested) => serve receive peer requested (ready peer)

end TcpTransport

end Stormglass.Snapshot
