import Stormglass.Outcomes
import Stormglass.TcpTransport

/-!
# Transparency of the framing

The bytes of a channel are the frames of the queued messages one after the other. What the
socket has accepted and what is still in the output make up this stream, and what was read
is the frames of the messages that were handed over and a rest without a whole frame. So
however the stream is cut into sends and reads, the messages come out in order.

A reliable byte stream carries to an endpoint a prefix of what its peer has written.
-/

namespace Stormglass.Snapshot

open EStateM

/-! ## One frame -/

namespace Message

/-- The numbers of the message are in the range of their types. -/
def Fits (message : Message) : Prop := message.sequence < 2 ^ 64 ∧ message.epoch < 2 ^ 64

instance (message : Message) : Decidable message.Fits := inferInstanceAs (Decidable (_ ∧ _))

/-- The part of a frame that the checksum covers. -/
def body (message : Message) : Bytes :=
  LittleEndian.encode 4 frameMagic ++ (LittleEndian.encode 1 message.kind.code ++
    (LittleEndian.encode 8 message.sequence ++ (LittleEndian.encode 8 message.epoch ++
      (LittleEndian.encode 4 message.payload.length ++ message.payload))))

/-- The body with its checksum. -/
def whole (message : Message) : Bytes :=
  message.body ++ LittleEndian.encode 4 (crc32c message.body).toNat

theorem length_body (message : Message) : message.body.length = 25 + message.payload.length := by
  simp only [body, List.length_append, LittleEndian.length_encode]
  omega

theorem length_whole (message : Message) : message.whole.length = 29 + message.payload.length := by
  rw [whole, List.length_append, length_body, LittleEndian.length_encode]
  omega

/-- The frame of a message. -/
def frame (message : Message) : Bytes :=
  LittleEndian.encode 4 message.whole.length ++ message.whole

theorem length_frame (message : Message) : message.frame.length = 33 + message.payload.length := by
  rw [frame, List.length_append, LittleEndian.length_encode, length_whole]
  omega

/-- Encoding succeeds exactly within the limit, with the frame of the message. -/
theorem encode_eq_ok {message : Message} {bytes : Bytes} :
    message.encode = .ok bytes ↔
      message.payload.length + 29 ≤ maxFrame ∧ bytes = message.frame := by
  unfold encode
  cases blob : Encoder.blob message.payload with
  | error text =>
    have large : ¬ message.payload.length + 29 ≤ maxFrame := by
      intro small
      have fits : message.payload.length < 2 ^ 32 := by
        unfold maxFrame at small
        omega
      have encodes := Encoder.blob_eq_ok.mpr ⟨fits, rfl⟩
      rw [blob] at encodes
      cases encodes
    change Except.error text = _ ↔ _
    simp [large]
  | ok payload =>
    obtain ⟨-, rfl⟩ := Encoder.blob_eq_ok.mp blob
    change (require (¬ message.body.length + 4 > maxFrame) "TCP frame exceeds limit" >>= fun _ =>
      pure message.frame) = Except.ok bytes ↔ _
    rw [length_body, require]
    by_cases small : message.payload.length + 29 ≤ maxFrame
    · rw [if_pos (by omega)]
      change Except.ok message.frame = Except.ok bytes ↔ _
      simp [small, eq_comm]
    · rw [if_neg (by omega)]
      change Except.error _ = _ ↔ _
      simp [small]

@[simp] theorem ofCode_code (kind : Kind) : Kind.ofCode kind.code = some kind := by
  cases kind <;> rfl

/-- The fields of a body are those of its message. -/
theorem fields_body {message : Message} (fits : message.Fits)
    (small : message.payload.length < 2 ^ 32) :
    fields.run message.body = .ok (message, []) := by
  have kind : message.kind.code < 2 ^ 8 := by
    cases message.kind <;> decide
  have payload := Decoder.blob_run (Encoder.blob_eq_ok.mpr ⟨small, rfl⟩) []
  rw [List.append_nil] at payload
  rw [fields, body, Decoder.bind_run (Decoder.u32_run (by decide) _), Decoder.require_bind_run rfl,
    Decoder.bind_run (Decoder.u8_run kind _), Decoder.bind_run (Decoder.u64_run fits.1 _),
    Decoder.bind_run (Decoder.u64_run fits.2 _), Decoder.bind_run payload,
    Decoder.bind_run Decoder.finish_run, ofCode_code]
  rfl

/-- **Decoding a frame's content gives the message back.** -/
theorem decode_whole {message : Message} (fits : message.Fits)
    (small : message.payload.length + 29 ≤ maxFrame) : decode message.whole = .ok message := by
  have length := message.length_whole
  have bodyLength : message.whole.length - 4 = message.body.length := by
    rw [whole, List.length_append, LittleEndian.length_encode, Nat.add_sub_cancel]
  have trailer : message.whole.drop (message.whole.length - 4) =
      LittleEndian.encode 4 (crc32c message.body).toNat ++ [] := by
    rw [bodyLength, whole, List.drop_left, List.append_nil]
  have front : message.whole.take (message.whole.length - 4) = message.body := by
    rw [bodyLength, whole, List.take_left]
  have long : ¬ message.whole.length < 4 := by omega
  have checksum : (crc32c message.body).toNat < 2 ^ 32 := UInt32.toNat_lt _
  have content := fields_body fits (by unfold maxFrame at small; omega)
  rw [decode, trailer, front, StateT.run'_eq, StateT.run'_eq, Decoder.u32_run checksum, content]
  simp only [require, if_pos long]
  change (if (crc32c message.body).toNat = (crc32c message.body).toNat then
    pure () else throw _) >>= (fun _ => Except.ok message) = _
  rw [if_pos rfl]
  rfl

end Message

/-! ## Streams -/

/-- A message that `Queue` can accept. -/
def Message.Sendable (message : Message) : Prop :=
  message.Fits ∧ message.payload.length + 29 ≤ maxFrame

/-- The bytes of a sequence of messages. -/
def stream (messages : List Message) : Bytes := messages.flatMap Message.frame

@[simp] theorem stream_append (first second : List Message) :
    stream (first ++ second) = stream first ++ stream second := List.flatMap_append

@[simp] theorem stream_singleton (message : Message) : stream [message] = message.frame := by
  simp [stream]

theorem stream_cons (message : Message) (rest : List Message) :
    stream (message :: rest) = message.frame ++ stream rest := List.flatMap_cons

theorem stream_mono {first second : List Message} (starts : first <+: second) :
    stream first <+: stream second := by
  obtain ⟨rest, rfl⟩ := starts
  rw [stream_append]
  exact List.prefix_append _ _

/-- The length at the front of a stream is that of its first frame. -/
theorem length_of_prefix {message : Message} (sendable : message.Sendable) {input rest : Bytes}
    (long : 4 ≤ input.length) (starts : input <+: message.frame ++ rest) :
    LittleEndian.decode (input.take 4) = 29 + message.payload.length := by
  have fits : message.whole.length < 2 ^ 32 := by
    have small := sendable.2
    rw [Message.length_whole]
    unfold maxFrame at small
    omega
  have front : input.take 4 = LittleEndian.encode 4 message.whole.length := by
    have taken := List.IsPrefix.take starts 4
    rw [Message.frame, List.append_assoc, List.take_append_of_le_length (by simp)] at taken
    have exact := taken.eq_of_length (by simp [long])
    rw [exact]
    exact List.take_of_length_le (by simp)
  rw [front, LittleEndian.decode_encode_of_lt fits, Message.length_whole]

/-- No frame fits into the input. -/
def Parsed (input : Bytes) : Prop :=
  ∀ message : Message, message.Sendable → ¬ message.frame <+: input

theorem parsed_nil : Parsed [] := by
  intro message _ starts
  have length := starts.length_le
  rw [Message.length_frame] at length
  simp at length

/-! ## One end of a channel -/

namespace Channel

/-- The bytes that were queued and not sent. -/
def pending (channel : Channel) : Bytes := channel.output.flatten.drop channel.frontOffset

end Channel

/-- The output of a channel and what its socket has accepted make up the stream of the
queued messages. -/
structure Sending (endpoint : Endpoint) (peer : NodeId) (channel : Channel) : Prop where
  sendable : ∀ message ∈ endpoint.queuedTo peer, message.Sendable
  bytes : endpoint.written peer ++ channel.pending = stream (endpoint.queuedTo peer)
  counted : channel.queuedBytes = channel.pending.length
  limited : channel.queuedBytes ≤ endpoint.transport.queueLimit.toNat
  nothing : channel.output = [] → channel.frontOffset = 0
  inside : ∀ front rest, channel.output = front :: rest → channel.frontOffset < front.length
  solid : ∀ frame ∈ channel.output, 0 < frame.length

/-- What was read from a peer is the frames of the messages that were handed over, and the
input. -/
structure Receiving (expected : List Message) (endpoint : Endpoint) (peer : NodeId)
    (channel : Channel) : Prop where
  sendable : ∀ message ∈ expected, message.Sendable
  handed : endpoint.handedFrom peer <+: expected
  bytes : endpoint.received peer = stream (endpoint.handedFrom peer) ++ channel.input
  arrived : endpoint.received peer ++ endpoint.incoming peer <+: stream expected

/-- The invariant of an endpoint that is given the streams of the expected messages. It
also says what has changed since an original state. A busy peer may have whole frames in
its input. -/
structure Intact (expected : NodeId → List Message) (origin : Endpoint) (busy : Option NodeId)
    (endpoint : Endpoint) : Prop where
  healthy : endpoint.transport.failed = false
  limit : endpoint.transport.queueLimit = origin.transport.queueLimit
  peers : ∀ peer, peer ∈ endpoint.transport.channels ↔ peer ∈ origin.transport.channels
  sending : ∀ peer channel, endpoint.transport.channels[peer]? = some channel →
    Sending endpoint peer channel
  receiving : ∀ peer channel, endpoint.transport.channels[peer]? = some channel →
    Receiving (expected peer) endpoint peer channel
  parsed : ∀ peer channel, endpoint.transport.channels[peer]? = some channel →
    busy ≠ some peer → Parsed channel.input
  silent : ∀ peer, peer ∉ endpoint.transport.channels →
    endpoint.written peer = [] ∧ endpoint.queuedTo peer = [] ∧ endpoint.received peer = [] ∧
      endpoint.handedFrom peer = []
  written : ∀ peer, origin.written peer <+: endpoint.written peer
  queued : origin.queued <+: endpoint.queued
  arrived : ∀ peer, endpoint.received peer ++ endpoint.incoming peer =
    origin.received peer ++ origin.incoming peer

/-! ## Changes of an endpoint -/

section Changes

variable {expected : NodeId → List Message} {origin endpoint : Endpoint} {busy : Option NodeId}
  {peer : NodeId} {channel : Channel}

theorem getElem?_setChannel (endpoint : Endpoint) (peer other : NodeId) (channel : Channel) :
    (endpoint.setChannel peer channel).transport.channels[other]? =
      if other = peer then some channel else endpoint.transport.channels[other]? := by
  simp only [Endpoint.setChannel, Std.ExtTreeMap.getElem?_insert,
    Std.LawfulEqOrd.compare_eq_iff_eq, @eq_comm _ other]

theorem mem_setChannel {endpoint : Endpoint} {peer : NodeId} {channel : Channel}
    (present : endpoint.transport.channels[peer]? = some channel) (after : Channel)
    (other : NodeId) :
    other ∈ (endpoint.setChannel peer after).transport.channels ↔
      other ∈ endpoint.transport.channels := by
  rw [Std.ExtTreeMap.mem_iff_isSome_getElem?, Std.ExtTreeMap.mem_iff_isSome_getElem?,
    getElem?_setChannel]
  split_ifs with same
  · rw [same, present]
    simp
  · rfl

theorem Sending.congr {after : Endpoint} (sending : Sending endpoint peer channel)
    (queued : after.queuedTo peer = endpoint.queuedTo peer)
    (written : after.written peer = endpoint.written peer)
    (limit : after.transport.queueLimit = endpoint.transport.queueLimit) {next : Channel}
    (output : next.output = channel.output) (offset : next.frontOffset = channel.frontOffset)
    (count : next.queuedBytes = channel.queuedBytes) : Sending after peer next := by
  obtain ⟨sendable, bytes, counted, limited, nothing, inside, solid⟩ := sending
  have pending : next.pending = channel.pending := by rw [Channel.pending, output, offset]; rfl
  refine ⟨?_, ?_, ?_, ?_, ?_, ?_, ?_⟩
  · rwa [queued]
  · rwa [written, pending, queued]
  · rwa [count, pending]
  · rwa [count, limit]
  · rwa [output, offset]
  · rwa [output, offset]
  · rwa [output]

theorem Receiving.congr {messages : List Message} {after : Endpoint}
    (receiving : Receiving messages endpoint peer channel)
    (handed : after.handedFrom peer = endpoint.handedFrom peer)
    (received : after.received peer = endpoint.received peer)
    (incoming : after.incoming peer = endpoint.incoming peer) {next : Channel}
    (input : next.input = channel.input) : Receiving messages after peer next := by
  refine ⟨receiving.sendable, ?_, ?_, ?_⟩
  · rw [handed]
    exact receiving.handed
  · rw [received, handed, input]
    exact receiving.bytes
  · rw [received, incoming]
    exact receiving.arrived

theorem messagesOf_append (peer other : NodeId) (log : List (NodeId × Message))
    (message : Message) :
    messagesOf other (log ++ [(peer, message)]) =
      messagesOf other log ++ if peer = other then [message] else [] := by
  rw [messagesOf, List.filter_append, List.map_append]
  by_cases same : peer = other <;> simp [messagesOf, same]

/-- A change of one channel that leaves the other peers alone and only adds to what the
endpoint has done. -/
structure Touches (endpoint after : Endpoint) (peer : NodeId) (next : Channel) : Prop where
  transport : after.transport = (endpoint.setChannel peer next).transport
  queuedOthers : ∀ other ≠ peer, after.queuedTo other = endpoint.queuedTo other
  handedOthers : ∀ other ≠ peer, after.handedFrom other = endpoint.handedFrom other
  writtenOthers : ∀ other ≠ peer, after.written other = endpoint.written other
  receivedOthers : ∀ other ≠ peer, after.received other = endpoint.received other
  incomingOthers : ∀ other ≠ peer, after.incoming other = endpoint.incoming other
  written : endpoint.written peer <+: after.written peer
  queued : endpoint.queued <+: after.queued
  arrived : after.received peer ++ after.incoming peer =
    endpoint.received peer ++ endpoint.incoming peer

/-- A change of one channel keeps the invariant if it does so for its peer. -/
theorem Intact.touch {after : Endpoint} {next : Channel} {still : Option NodeId}
    (intact : Intact expected origin busy endpoint)
    (present : endpoint.transport.channels[peer]? = some channel)
    (touches : Touches endpoint after peer next) (sending : Sending after peer next)
    (receiving : Receiving (expected peer) after peer next)
    (parsed : still ≠ some peer → Parsed next.input)
    (idle : ∀ other ≠ peer, still ≠ some other → busy ≠ some other) :
    Intact expected origin still after := by
  obtain ⟨transport, queuedOthers, handedOthers, writtenOthers, receivedOthers, incomingOthers,
    written, queued, arrived⟩ := touches
  have limit : after.transport.queueLimit = endpoint.transport.queueLimit := by rw [transport]; rfl
  have found {other : NodeId} {found : Channel}
      (lookup : after.transport.channels[other]? = some found) :
      other = peer ∧ found = next ∨
        other ≠ peer ∧ endpoint.transport.channels[other]? = some found := by
    rw [transport, getElem?_setChannel] at lookup
    split_ifs at lookup with same
    · exact .inl ⟨same, (Option.some.inj lookup).symm⟩
    · exact .inr ⟨same, lookup⟩
  have member (other : NodeId) :
      other ∈ after.transport.channels ↔ other ∈ endpoint.transport.channels := by
    rw [transport, mem_setChannel present]
  refine ⟨?_, ?_, ?_, ?_, ?_, ?_, ?_, ?_, intact.queued.trans queued, ?_⟩
  · rw [transport]
    exact intact.healthy
  · rw [limit, intact.limit]
  · intro other
    rw [member, intact.peers]
  · intro other there lookup
    rcases found lookup with ⟨rfl, rfl⟩ | ⟨apart, before⟩
    · exact sending
    · exact (intact.sending other there before).congr (queuedOthers other apart)
        (writtenOthers other apart) limit rfl rfl rfl
  · intro other there lookup
    rcases found lookup with ⟨rfl, rfl⟩ | ⟨apart, before⟩
    · exact receiving
    · exact (intact.receiving other there before).congr (handedOthers other apart)
        (receivedOthers other apart) (incomingOthers other apart) rfl
  · intro other there lookup quiet
    rcases found lookup with ⟨rfl, rfl⟩ | ⟨apart, before⟩
    · exact parsed quiet
    · exact intact.parsed other there before (idle other apart quiet)
  · intro other absent
    rw [member] at absent
    have apart : other ≠ peer := by
      rintro rfl
      simp [Std.ExtTreeMap.mem_iff_isSome_getElem?, present] at absent
    rw [writtenOthers other apart, queuedOthers other apart, receivedOthers other apart,
      handedOthers other apart]
    exact intact.silent other absent
  · intro other
    by_cases same : other = peer
    · rw [same]
      exact (intact.written peer).trans written
    · rw [writtenOthers other same]
      exact intact.written other
  · intro other
    by_cases same : other = peer
    · rw [same, arrived]
      exact intact.arrived peer
    · rw [receivedOthers other same, incomingOthers other same]
      exact intact.arrived other

/-- A frame is appended within the limit. -/
theorem Intact.append (intact : Intact expected origin busy endpoint)
    (present : endpoint.transport.channels[peer]? = some channel) {message : Message}
    (sendable : message.Sendable)
    (fits : message.frame.length ≤ TcpTransport.room endpoint.transport.queueLimit channel) :
    Intact expected origin busy (endpoint.append peer channel message message.frame) := by
  obtain ⟨allSendable, bytes, counted, limited, nothing, inside, solid⟩ :=
    intact.sending peer channel present
  have receiving := intact.receiving peer channel present
  have queuedNow (other : NodeId) :
      (endpoint.append peer channel message message.frame).queuedTo other =
        endpoint.queuedTo other ++ if peer = other then [message] else [] :=
    messagesOf_append peer other endpoint.queued message
  have bound : message.frame.length ≤
      endpoint.transport.queueLimit.toNat - channel.queuedBytes := by
    have range := endpoint.transport.queueLimit.toNat_lt
    have same : TcpTransport.room endpoint.transport.queueLimit channel =
        endpoint.transport.queueLimit.toNat - channel.queuedBytes := by
      unfold TcpTransport.room
      omega
    rwa [same] at fits
  have reached : channel.frontOffset ≤ channel.output.flatten.length := by
    cases output : channel.output with
    | nil => rw [nothing output]; exact Nat.zero_le _
    | cons front rest =>
      have below := inside front rest output
      simp only [List.flatten_cons, List.length_append]
      omega
  have pending : Channel.pending { channel with
      queuedBytes := channel.queuedBytes + message.frame.length
      output := channel.output ++ [message.frame] } = channel.pending ++ message.frame := by
    rw [Channel.pending, Channel.pending, List.flatten_append, List.flatten_singleton,
      List.drop_append_of_le_length reached]
  have touches : Touches endpoint (endpoint.append peer channel message message.frame) peer
      { channel with
        queuedBytes := channel.queuedBytes + message.frame.length
        output := channel.output ++ [message.frame] } := by
    refine ⟨rfl, ?_, fun _ _ => rfl, fun _ _ => rfl, fun _ _ => rfl, fun _ _ => rfl,
      List.prefix_rfl, List.prefix_append _ _, rfl⟩
    intro other apart
    rw [queuedNow, if_neg (Ne.symm apart), List.append_nil]
  apply intact.touch present touches
  · refine ⟨?_, ?_, ?_, ?_, ?_, ?_, ?_⟩
    · intro other member
      rw [queuedNow, if_pos rfl, List.mem_append, List.mem_singleton] at member
      rcases member with member | rfl
      · exact allSendable other member
      · exact sendable
    · rw [pending, queuedNow, if_pos rfl, stream_append, stream_singleton, ← bytes]
      exact (List.append_assoc _ _ _).symm
    · rw [pending, List.length_append, ← counted]
    · change channel.queuedBytes + message.frame.length ≤ endpoint.transport.queueLimit.toNat
      omega
    · intro impossible
      simp at impossible
    · intro front rest same
      cases output : channel.output with
      | nil =>
        rw [output] at same
        obtain ⟨rfl, -⟩ := List.cons.inj same
        rw [nothing output, Message.length_frame]
        omega
      | cons first others =>
        rw [output] at same
        obtain ⟨rfl, -⟩ := List.cons.inj same
        exact inside first others output
    · intro frame member
      rcases List.mem_append.mp member with before | new
      · exact solid frame before
      · rw [List.mem_singleton.mp new, Message.length_frame]
        omega
  · apply receiving.congr <;> rfl
  · exact intact.parsed peer channel present
  · exact fun _ _ => id

/-- The channel after a send of some of the front frame. -/
theorem Sending.accepted (sending : Sending endpoint peer channel) {front : Bytes}
    {rest : List Bytes} (output : channel.output = front :: rest) {count : Nat}
    (offered : count ≤ front.length - channel.frontOffset) :
    ∃ next, (endpoint.accept peer channel front rest count).transport =
        (endpoint.setChannel peer next).transport ∧
      next.input = channel.input ∧
      Sending (endpoint.accept peer channel front rest count) peer next := by
  obtain ⟨sendable, bytes, counted, limited, nothing, inside, solid⟩ := sending
  have below := inside front rest output
  have whole : channel.pending = front.drop channel.frontOffset ++ rest.flatten := by
    rw [Channel.pending, output, List.flatten_cons, List.drop_append_of_le_length below.le]
  have sent : (front.drop channel.frontOffset).take count = channel.pending.take count := by
    rw [whole, List.take_append_of_le_length (by rw [List.length_drop]; exact offered)]
  have enough : count ≤ channel.pending.length := by
    rw [whole, List.length_append, List.length_drop]
    omega
  have written : (endpoint.accept peer channel front rest count).written peer =
      endpoint.written peer ++ channel.pending.take count := by
    rw [← sent]
    exact Function.update_self _ _ _
  have kept : channel.queuedBytes - count = (channel.pending.drop count).length := by
    rw [List.length_drop, counted]
  have total : (endpoint.accept peer channel front rest count).written peer ++
      channel.pending.drop count = stream (endpoint.queuedTo peer) := by
    rw [written, List.append_assoc, List.take_append_drop, bytes]
  have smaller : channel.queuedBytes - count ≤ endpoint.transport.queueLimit.toNat :=
    (Nat.sub_le _ _).trans limited
  by_cases finished : channel.frontOffset + count = front.length
  · have pending : Channel.pending { channel with
        output := rest
        frontOffset := 0
        queuedBytes := channel.queuedBytes - count } = channel.pending.drop count := by
      have consumed : count = (front.drop channel.frontOffset).length := by
        rw [List.length_drop]
        omega
      rw [whole, consumed, List.drop_left]
      exact List.drop_zero
    refine ⟨{ channel with
        output := rest
        frontOffset := 0
        queuedBytes := channel.queuedBytes - count },
      ?_, rfl, sendable, ?_, ?_, smaller, fun _ => rfl, ?_, ?_⟩
    · simp only [Endpoint.accept, if_pos finished]
    · rw [pending]
      exact total
    · rw [pending]
      exact kept
    · intro next others same
      change rest = next :: others at same
      exact solid next (by simp [output, same])
    · intro frame member
      exact solid frame (by rw [output]; exact List.mem_cons_of_mem front member)
  · have pending : Channel.pending { channel with
        frontOffset := channel.frontOffset + count
        queuedBytes := channel.queuedBytes - count } = channel.pending.drop count := by
      rw [Channel.pending, Channel.pending, List.drop_drop]
    refine ⟨{ channel with
        frontOffset := channel.frontOffset + count
        queuedBytes := channel.queuedBytes - count },
      ?_, rfl, sendable, ?_, ?_, smaller, ?_, ?_, solid⟩
    · simp only [Endpoint.accept, if_neg finished]
    · rw [pending]
      exact total
    · rw [pending]
      exact kept
    · intro impossible
      rw [output] at impossible
      cases impossible
    · intro first others same
      rw [output] at same
      obtain ⟨rfl, -⟩ := List.cons.inj same
      change channel.frontOffset + count < front.length
      omega

/-- A socket accepts some of the front frame. -/
theorem Intact.accept (intact : Intact expected origin busy endpoint)
    (present : endpoint.transport.channels[peer]? = some channel) {front : Bytes}
    {rest : List Bytes} (output : channel.output = front :: rest) {count : Nat}
    (offered : count ≤ front.length - channel.frontOffset) :
    Intact expected origin busy (endpoint.accept peer channel front rest count) := by
  obtain ⟨next, transport, input, sending⟩ :=
    (intact.sending peer channel present).accepted output offered
  have receiving := intact.receiving peer channel present
  have touches : Touches endpoint (endpoint.accept peer channel front rest count) peer next := by
    refine ⟨transport, fun _ _ => rfl, fun _ _ => rfl,
      fun _ apart => Function.update_of_ne apart _ _, fun _ _ => rfl, fun _ _ => rfl, ?_,
      List.prefix_rfl, rfl⟩
    change _ <+: Function.update endpoint.written peer _ peer
    rw [Function.update_self]
    exact List.prefix_append _ _
  apply intact.touch present touches sending
  · apply receiving.congr _ _ _ input <;> rfl
  · rw [input]
    exact intact.parsed peer channel present
  · exact fun _ _ => id

/-- A chunk is read, after which the peer is busy. -/
theorem Intact.readChunk (intact : Intact expected origin none endpoint)
    (present : endpoint.transport.channels[peer]? = some channel) (count : Nat) :
    Intact expected origin (some peer) (endpoint.readChunk peer channel count) := by
  have sending := intact.sending peer channel present
  obtain ⟨sendable, handed, bytes, arrived⟩ := intact.receiving peer channel present
  have receivedNow : (endpoint.readChunk peer channel count).received peer =
      endpoint.received peer ++ (endpoint.incoming peer).take count := Function.update_self _ _ _
  have incomingNow : (endpoint.readChunk peer channel count).incoming peer =
      (endpoint.incoming peer).drop count := Function.update_self _ _ _
  have arrivedNow : (endpoint.readChunk peer channel count).received peer ++
      (endpoint.readChunk peer channel count).incoming peer =
        endpoint.received peer ++ endpoint.incoming peer := by
    rw [receivedNow, incomingNow, List.append_assoc, List.take_append_drop]
  have touches : Touches endpoint (endpoint.readChunk peer channel count) peer
      { channel with input := channel.input ++ (endpoint.incoming peer).take count } :=
    ⟨rfl, fun _ _ => rfl, fun _ _ => rfl, fun _ _ => rfl,
      fun _ apart => Function.update_of_ne apart _ _,
      fun _ apart => Function.update_of_ne apart _ _,
      List.prefix_rfl, List.prefix_rfl, arrivedNow⟩
  apply intact.touch present touches
  · apply sending.congr <;> rfl
  · refine ⟨sendable, handed, ?_, by rw [arrivedNow]; exact arrived⟩
    rw [receivedNow, bytes, List.append_assoc]
    rfl
  · exact fun impossible => absurd rfl impossible
  · exact fun _ _ _ => by simp

/-- What the parser finds at the front of the input of a peer. -/
theorem Receiving.front {messages : List Message}
    (receiving : Receiving messages endpoint peer channel)
    (long : 4 ≤ channel.input.length) :
    ∃ message rest, messages = endpoint.handedFrom peer ++ message :: rest ∧ message.Sendable ∧
      LittleEndian.decode (channel.input.take 4) = 29 + message.payload.length ∧
      (33 + message.payload.length ≤ channel.input.length →
        message.frame ++ channel.input.drop (33 + message.payload.length) = channel.input) := by
  obtain ⟨sendable, ⟨rest, split⟩, bytes, arrived⟩ := receiving
  have starts : channel.input <+: stream rest := by
    have reads := (List.prefix_append _ _).trans arrived
    rw [bytes, ← split, stream_append] at reads
    exact (List.prefix_append_right_inj _).mp reads
  cases rest with
  | nil =>
    have empty := starts.length_le
    simp [stream] at empty
    rw [empty] at long
    simp at long
  | cons message rest =>
    have isSendable := sendable message (by rw [← split]; simp)
    rw [stream_cons] at starts
    refine ⟨message, rest, split.symm, isSendable, length_of_prefix isSendable long starts, ?_⟩
    intro enough
    have whole : message.frame <+: channel.input := by
      apply List.prefix_of_prefix_length_le (List.prefix_append _ _) starts
      rw [Message.length_frame]
      exact enough
    obtain ⟨tail, same⟩ := whole
    rw [← same, ← Message.length_frame, List.drop_left]

/-- The message at the front is handed over. -/
theorem Intact.hand (intact : Intact expected origin (some peer) endpoint)
    (present : endpoint.transport.channels[peer]? = some channel) {message : Message}
    {rest : List Message} (next : expected peer = endpoint.handedFrom peer ++ message :: rest)
    (front : message.frame ++ channel.input.drop (33 + message.payload.length) = channel.input) :
    Intact expected origin (some peer)
      (endpoint.hand peer channel (29 + message.payload.length) message) := by
  have sending := intact.sending peer channel present
  obtain ⟨sendable, handed, bytes, arrived⟩ := intact.receiving peer channel present
  have handedNow (other : NodeId) :
      (endpoint.hand peer channel (29 + message.payload.length) message).handedFrom other =
        endpoint.handedFrom other ++ if peer = other then [message] else [] :=
    messagesOf_append peer other endpoint.handed message
  have touches : Touches endpoint
      (endpoint.hand peer channel (29 + message.payload.length) message) peer
      { channel with input := channel.input.drop (4 + (29 + message.payload.length)) } := by
    refine ⟨rfl, fun _ _ => rfl, ?_, fun _ _ => rfl, fun _ _ => rfl, fun _ _ => rfl,
      List.prefix_rfl, List.prefix_rfl, rfl⟩
    intro other apart
    rw [handedNow, if_neg (Ne.symm apart), List.append_nil]
  apply intact.touch present touches
  · apply sending.congr <;> rfl
  · refine ⟨sendable, ?_, ?_, arrived⟩
    · rw [handedNow, if_pos rfl, next]
      exact ⟨rest, by simp⟩
    · have size : 4 + (29 + message.payload.length) = 33 + message.payload.length := by omega
      change endpoint.received peer = _
      rw [bytes, handedNow, if_pos rfl, stream_append, stream_singleton, size, List.append_assoc,
        front]
  · exact fun impossible => absurd rfl impossible
  · exact fun _ _ => id

end Changes

theorem parsed_of_short {input : Bytes} (short : input.length < 4) : Parsed input := by
  intro message _ starts
  have length := starts.length_le
  rw [Message.length_frame] at length
  omega

theorem parsed_of_incomplete {input : Bytes} {payload : Nat}
    (size : LittleEndian.decode (input.take 4) = 29 + payload)
    (short : input.length < 33 + payload) :
    Parsed input := by
  intro message sendable starts
  have length := starts.length_le
  rw [Message.length_frame] at length
  obtain ⟨rest, whole⟩ := starts
  have read := length_of_prefix sendable (by omega) (whole ▸ List.prefix_rfl :
    input <+: message.frame ++ rest)
  omega

/-- A peer whose input is parsed is no longer busy. -/
theorem Intact.settle {expected : NodeId → List Message} {origin endpoint : Endpoint}
    {peer : NodeId}
    (intact : Intact expected origin (some peer) endpoint)
    (parsed : ∀ channel, endpoint.transport.channels[peer]? = some channel → Parsed channel.input) :
    Intact expected origin none endpoint := by
  refine { intact with parsed := ?_ }
  intro other channel present _
  by_cases same : other = peer
  · subst other
    exact parsed channel present
  · exact intact.parsed other channel present (by simpa using Ne.symm same)

/-! ## The methods -/

/-- The texts with which `Queue` refuses a message on a healthy transport. -/
inductive Refusal : String → Prop where
  | blob : Refusal "encoded blob too large"
  | frame : Refusal "TCP frame exceeds limit"
  | unknown : Refusal "map::at"
  | full : Refusal "TCP output queue limit exceeded"

theorem Message.refusal_of_encode {message : Message} {text : String}
    (refused : message.encode = .error text) : Refusal text := by
  unfold encode at refused
  cases blob : Encoder.blob message.payload with
  | error reason =>
    rw [blob] at refused
    cases refused
    unfold Encoder.blob require at blob
    split_ifs at blob <;> cases blob
    exact .blob
  | ok payload =>
    rw [blob] at refused
    simp only [require, bind, Except.bind] at refused
    split_ifs at refused <;> cases refused
    exact .frame

section Statements

variable {σ α : Type} {state : σ} {throws : String → Prop}

theorem ends_require (condition : Prop) [Decidable condition] (message : String)
    {returns : Unit → σ → Prop} :
    Ends (require condition message : EStateM String σ Unit) state returns throws ↔
      (condition → returns () state) ∧ (¬ condition → throws message) := by
  unfold require
  by_cases holds : condition <;> simp [holds]

theorem ends_lookup (map : Std.ExtTreeMap NodeId α) (key : NodeId) {returns : α → σ → Prop} :
    Ends (lookup map key : EStateM String σ α) state returns throws ↔
      (∀ value, map[key]? = some value → returns value state) ∧
        (map[key]? = none → throws "map::at") := by
  unfold lookup
  cases map[key]? <;> simp

theorem ends_ofExcept (result : Except String α) {returns : α → σ → Prop} :
    Ends (MonadExcept.ofExcept result : EStateM String σ α) state returns throws ↔
      (∀ value, result = .ok value → returns value state) ∧
        (∀ text, result = .error text → throws text) := by
  unfold MonadExcept.ofExcept
  cases result <;> simp

end Statements

/-- The inputs of all channels are the same. -/
def SameInputs (endpoint after : Endpoint) : Prop :=
  ∀ peer : NodeId, after.transport.channels[peer]?.map Channel.input =
    endpoint.transport.channels[peer]?.map Channel.input

theorem sameInputs_setChannel {endpoint : Endpoint} {peer : NodeId} {channel next : Channel}
    (present : endpoint.transport.channels[peer]? = some channel)
    (same : next.input = channel.input)
    {after : Endpoint} (changed : after.transport = (endpoint.setChannel peer next).transport) :
    SameInputs endpoint after := by
  intro other
  rw [changed, getElem?_setChannel]
  split_ifs with equal
  · rw [equal, present, Option.map_some, Option.map_some, same]
  · rfl

/-- The answers of a connected socket. -/
def SendAnswer.Reliable (answer : SendAnswer) : Prop := answer ≠ .zero ∧ answer ≠ .error

def RecvAnswer.Reliable (answer : RecvAnswer) : Prop := answer ≠ .disconnected ∧ answer ≠ .error

/-- The readiness of a connected socket. -/
structure Readiness.Reliable (ready : Readiness) : Prop where
  valid : ready.invalid = false
  sends : ∀ answer ∈ ready.sends, answer.Reliable
  recv : ready.recv.Reliable

section Methods

variable {expected : NodeId → List Message} {origin endpoint : Endpoint} {busy : Option NodeId}

namespace TcpTransport

theorem ends_failing {α : Type} {body : Call α} {returns : α → Endpoint → Prop}
    {throws : String → Prop} :
    Ends (failing body) endpoint returns throws ↔ Ends body endpoint returns throws :=
  ends_rethrow body _

theorem ends_channel {peer : NodeId} {returns : Channel → Endpoint → Prop}
    {throws : String → Prop} :
    Ends (channel peer) endpoint returns throws ↔
      (∀ channel, endpoint.transport.channels[peer]? = some channel → returns channel endpoint) ∧
        (endpoint.transport.channels[peer]? = none → throws "map::at") := by
  unfold channel
  rw [ends_bind, ends_get, ends_lookup]

theorem ends_checkHealthy {returns : Unit → Endpoint → Prop} {throws : String → Prop}
    (healthy : endpoint.transport.failed = false) :
    Ends checkHealthy endpoint returns throws ↔ returns () endpoint := by
  unfold checkHealthy
  rw [ends_bind, ends_get, ends_require]
  simp [healthy]

/-- `Queue` keeps the invariant and the inputs, or refuses the message. -/
theorem queue_intact (intact : Intact expected origin busy endpoint) (peer : NodeId)
    {message : Message} (fits : message.Fits) :
    Ends (queue peer message) endpoint
      (fun _ after => Intact expected origin busy after ∧ SameInputs endpoint after) Refusal := by
  rw [queue, ends_bind, ends_checkHealthy intact.healthy, ends_failing, ends_bind, ends_ofExcept]
  refine ⟨?_, fun text refused => Message.refusal_of_encode refused⟩
  intro frame encoded
  obtain ⟨small, rfl⟩ := Message.encode_eq_ok.mp encoded
  rw [ends_bind, ends_channel]
  refine ⟨?_, fun _ => .unknown⟩
  intro channel present
  rw [ends_bind, ends_get, ends_bind, ends_require]
  refine ⟨?_, fun _ => .full⟩
  intro within
  rw [ends_modify]
  refine ⟨intact.append present ⟨fits, small⟩ (Nat.le_of_not_lt within), ?_⟩
  apply sameInputs_setChannel present _ rfl
  rfl

/-- Sending keeps the invariant and throws nothing on a reliable socket. -/
theorem sendLoop_intact {peer : NodeId} {answers : List SendAnswer}
    (reliable : ∀ answer ∈ answers, answer.Reliable) (budget : Nat)
    (intact : Intact expected origin busy endpoint) (known : peer ∈ endpoint.transport.channels) :
    Ends (sendLoop peer answers budget) endpoint
      (fun _ after => Intact expected origin busy after) (fun _ => False) := by
  induction answers generalizing endpoint budget with
  | nil => exact intact
  | cons answer answers inductionHypothesis =>
    have others : ∀ answer ∈ answers, answer.Reliable :=
      fun other member => reliable other (List.mem_cons_of_mem answer member)
    rw [sendLoop, ends_bind, ends_channel]
    refine ⟨?_, fun missing => by simp [Std.ExtTreeMap.mem_iff_isSome_getElem?, missing] at known⟩
    intro channel present
    cases output : channel.output with
    | nil => exact intact
    | cons front rest =>
      dsimp only
      split_ifs with spent
      · exact intact
      · cases answer with
        | interrupted => exact inductionHypothesis others budget intact known
        | again => exact intact
        | zero => exact absurd rfl (reliable .zero List.mem_cons_self).1
        | error => exact absurd rfl (reliable .error List.mem_cons_self).2
        | accepts more =>
          dsimp only
          rw [ends_bind, ends_modify]
          have accepted := intact.accept present output
            (show min (more + 1) (min budget (front.length - channel.frontOffset)) ≤
              front.length - channel.frontOffset by omega)
          apply inductionHypothesis others _ accepted
          rwa [accepted.peers, ← intact.peers]

/-- The messages that a callback queues are in range. -/
def Replies (receive : Callback) : Prop :=
  ∀ history peer message, ∀ reply ∈ receive history peer message, reply.2.Fits

/-- The exception comes from a message that the callback queues. -/
def Blames (receive : Callback) (text : String) : Prop :=
  Refusal text ∧ ∃ history peer message, receive history peer message ≠ []

variable {receive : Callback}

section

variable (replies : Replies receive)

include replies

theorem deliver_intact (peer : NodeId) (message : Message) (history : List (NodeId × Message))
    (intact : Intact expected origin busy endpoint) :
    Ends (deliver receive peer message history) endpoint
      (fun _ after => Intact expected origin busy after ∧ SameInputs endpoint after)
      (Blames receive) := by
  apply ends_forM
  · rintro ⟨receiver, reply⟩ member state ⟨kept, same⟩
    apply (queue_intact kept receiver (replies history peer message _ member)).mono
    · exact fun _ after both => ⟨both.1, fun other => (both.2 other).trans (same other)⟩
    · exact fun text refusal => ⟨refusal, history, peer, message, List.ne_nil_of_mem member⟩
  · exact ⟨intact, fun _ => rfl⟩

/-- The loop over the input hands over every whole frame. -/
theorem parseLoop_intact {peer : NodeId} {turns : Nat}
    (intact : Intact expected origin (some peer) endpoint)
    (known : peer ∈ endpoint.transport.channels)
    (enough : ∀ channel, endpoint.transport.channels[peer]? = some channel →
      channel.input.length ≤ turns) :
    Ends (parseLoop receive peer turns) endpoint
      (fun _ after => Intact expected origin none after) (Blames receive) := by
  induction turns generalizing endpoint with
  | zero =>
    apply intact.settle
    intro channel present
    rw [List.eq_nil_of_length_eq_zero (Nat.le_zero.mp (enough channel present))]
    exact parsed_nil
  | succ turns inductionHypothesis =>
    rw [parseLoop, ends_bind, ends_channel]
    refine ⟨?_, fun missing => by simp [Std.ExtTreeMap.mem_iff_isSome_getElem?, missing] at known⟩
    intro channel present
    split_ifs with short
    · apply intact.settle
      intro found again
      rw [present] at again
      cases again
      exact parsed_of_short short
    · obtain ⟨message, rest, split, sendable, size, front⟩ :=
        (intact.receiving peer channel present).front (Nat.le_of_not_lt short)
      have small := sendable.2
      dsimp only
      rw [size, ends_bind, ends_require]
      refine ⟨?_, fun wrong => absurd (by omega) wrong⟩
      rintro -
      split_ifs with incomplete
      · apply intact.settle
        intro found again
        rw [present] at again
        cases again
        exact parsed_of_incomplete size (by omega)
      · have whole := front (by omega)
        have content : (channel.input.drop 4).take (29 + message.payload.length) =
            message.whole := by
          rw [← whole, Message.frame, List.append_assoc, List.drop_left' (by simp),
            ← Message.length_whole, List.take_left]
        rw [ends_bind, ends_ofExcept, content, Message.decode_whole sendable.1 small]
        refine ⟨?_, fun text impossible => by cases impossible⟩
        rintro _ ⟨⟩
        rw [ends_bind, ends_get, ends_bind, ends_modify, ends_bind]
        have handed := intact.hand present split whole
        apply (deliver_intact replies peer message endpoint.handed handed).mono _ (fun _ => id)
        rintro - after ⟨kept, same⟩
        apply inductionHypothesis kept
        · rwa [kept.peers, ← intact.peers]
        · intro next found
          have input := same peer
          rw [found, Endpoint.hand, getElem?_setChannel, if_pos rfl] at input
          have shorter := enough channel present
          rw [Option.some.inj input, List.length_drop]
          omega

/-- Reading keeps the invariant, and throws only what the callback's messages cause. -/
theorem recv_intact {peer : NodeId} {answer : RecvAnswer} (reliable : answer.Reliable)
    (intact : Intact expected origin none endpoint) (known : peer ∈ endpoint.transport.channels) :
    Ends (recv receive peer answer) endpoint
      (fun _ after => Intact expected origin none after) (Blames receive) := by
  cases answer with
  | interrupted => exact intact
  | again => exact intact
  | disconnected => exact absurd rfl reliable.1
  | error => exact absurd rfl reliable.2
  | reads more =>
    rw [recv, ends_bind, ends_get]
    split_ifs with nothing
    · exact intact
    · rw [ends_bind, ends_channel]
      refine ⟨?_, fun missing => by simp [Std.ExtTreeMap.mem_iff_isSome_getElem?, missing] at known⟩
      intro channel present
      rw [ends_bind, ends_modify]
      have read := intact.readChunk present (min (more + 1) 16384)
      apply parseLoop_intact replies read
      · rwa [read.peers, ← intact.peers]
      · intro next found
        rw [Endpoint.readChunk, getElem?_setChannel, if_pos rfl] at found
        obtain rfl := Option.some.inj found
        simp only [List.length_append, List.length_take]
        omega

theorem serve_intact {peer : NodeId} (requested : Bool) {ready : Readiness}
    (reliable : ready.Reliable) (intact : Intact expected origin none endpoint)
    (known : peer ∈ endpoint.transport.channels) :
    Ends (serve receive peer requested ready) endpoint
      (fun _ after => Intact expected origin none after) (Blames receive) := by
  rw [serve, ends_bind, ends_require]
  refine ⟨?_, fun wrong => absurd reliable.valid wrong⟩
  rintro -
  have reading {after : Endpoint} (kept : Intact expected origin none after) :
      Ends (if ready.readable = true then recv receive peer ready.recv else pure ()) after
        (fun _ after => Intact expected origin none after) (Blames receive) := by
    split_ifs
    · apply recv_intact replies reliable.recv kept
      rwa [kept.peers, ← intact.peers]
    · exact kept
  dsimp only
  by_cases sends : requested = true ∧ ready.writable = true
  · rw [if_pos sends, ends_bind]
    exact (sendLoop_intact reliable.sends _ intact known).mono (fun _ _ => reading) (by simp)
  · rw [if_neg sends]
    exact reading intact

/-- **A poll of reliable sockets keeps the invariant.** It throws only what the messages of
the callback cause. -/
theorem pollOnce_intact {timeout : Int} (bounded : 0 ≤ timeout) {ready : NodeId → Readiness}
    (reliable : ∀ peer, (ready peer).Reliable) (intact : Intact expected origin none endpoint) :
    Ends (pollOnce receive timeout (some ready)) endpoint
      (fun _ after => Intact expected origin none after) (Blames receive) := by
  rw [pollOnce, ends_bind, ends_checkHealthy intact.healthy, ends_failing, ends_bind, ends_require]
  refine ⟨?_, fun wrong => absurd (by omega) wrong⟩
  rintro -
  rw [ends_bind, ends_get]
  apply ends_forM _ intact
  rintro ⟨peer, requested⟩ member state kept
  obtain ⟨⟨other, channel⟩, listed, same⟩ := List.mem_map.mp member
  cases same
  have known : peer ∈ endpoint.transport.channels := by
    rw [Std.ExtTreeMap.mem_iff_isSome_getElem?,
      Std.ExtTreeMap.mem_toList_iff_getElem?_eq_some.mp listed]
    rfl
  apply serve_intact replies _ (reliable peer) kept
  rwa [kept.peers, ← intact.peers]

end

end TcpTransport

end Methods

end Stormglass.Snapshot
