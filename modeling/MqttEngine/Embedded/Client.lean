import MqttEngine.Lib.Effect
import MqttEngine.Packet.Wire
import MqttEngine.Embedded.Inflight

/-!
# The embedded client

`MqttClient` and `MqttStreamWriter` of `mqtt-embedded`. An operation is a program on the
client's state that may end in an error, in a panic or not at all; the state is kept either
way, so that what an operation has done before it fails is visible.

The transport is the world outside: it holds what has been handed to `send`, and scripts of
the results that the sends and receives to come will have. The buffer sizes `BUF_SIZE` and
`MAX_INFLIGHT` are the parameters `bufSize` and `maxInflight`. An operation that reads the
clock takes the instant it reads as an argument.

The `match` on the received packet stands in `poll` and again in `poll_batch`; the arms are
the same, and `handlePacket` is both.

## Main definitions

* `Transport`, `MqttClient`, `ClientM` — the state and the programs on it.
* `connect`, `publish`, `publishBatch`, `beginStreamPublish`, `subscribe`, `unsubscribe`,
  `poll`, `pollBatch`, `disconnect` — the operations of the client.
* `MqttStreamWriter` and its operations.
-/

namespace MqttEngine
open Checked

/-! ## Errors -/

/-- Reasons for broker connection rejection in CONNACK. -/
inductive ConnectReasonCode
  | success
  | unacceptableProtocolVersion
  | identifierRejected
  | serverUnavailable
  | badUserNameOrPassword
  | notAuthorized
  | other (code : UInt8)
  deriving DecidableEq, Repr

/-- `ConnectReasonCode::from(u8)`. -/
def ConnectReasonCode.fromByte (val : UInt8) : ConnectReasonCode :=
  match val.toNat with
  | 0 => .success
  | 1 => .unacceptableProtocolVersion
  | 2 => .identifierRejected
  | 3 => .serverUnavailable
  | 4 => .badUserNameOrPassword
  | 5 => .notAuthorized
  | _ => .other val

/-- MQTT protocol violation errors. -/
inductive ProtocolError
  | invalidPacketType (t : UInt8)
  | invalidResponse
  | malformedPacket
  | incompletePacket
  | payloadTooLarge
  | invalidUtf8String
  | tooManyProperties
  | unsupportedQoS
  deriving DecidableEq, Repr

/-- QUIC-specific error kinds. -/
inductive QuicErrorKind
  | streamClosed
  | streamReset (code : UInt32)
  | connectionLost
  | datagramTooLarge
  | unsupportedOperation
  deriving DecidableEq, Repr

/-- Primary error type of the client's operations. -/
inductive MqttError (E : Type)
  | transport (e : E)
  | protocol (e : ProtocolError)
  | connectionRefused (code : ConnectReasonCode)
  | notConnected
  | bufferTooSmall
  | batchCapacityExceeded
  | inflightQueueFull
  | quicError (kind : QuicErrorKind)
  deriving DecidableEq, Repr

/-- `MqttError::from(PacketError)`. -/
def MqttError.fromPacketError {E : Type} : PacketError → MqttError E
  | .bufferTooSmall => .bufferTooSmall
  | .incompletePacket => .protocol .incompletePacket
  | .malformedPacket => .protocol .malformedPacket
  | .invalidPacketType t => .protocol (.invalidPacketType t)
  | .invalidUtf8String => .protocol .invalidUtf8String
  | .tooManyProperties => .protocol .tooManyProperties
  | .batchCapacityExceeded => .batchCapacityExceeded
  | .payloadTooLarge => .protocol .payloadTooLarge
  | .unsupportedQoS => .protocol .unsupportedQoS

/-! ## State -/

/-- An array of `n` bytes. -/
structure Buffer (n : ℕ) where
  /-- The bytes of the array. -/
  bytes : List UInt8
  /-- There are `n` of them. -/
  length_eq : bytes.length = n

namespace Buffer
variable {n : ℕ}

/-- `[0u8; n]`. -/
def zero : Buffer n := ⟨List.replicate n 0, List.length_replicate⟩

/-- Replace the bytes from `cursor` on by a tail of the same length. -/
def setTail (self : Buffer n) (cursor : ℕ) (tail : List UInt8) : Buffer n :=
  if h : (self.bytes.take cursor ++ tail).length = n then ⟨_, h⟩ else self

/-- Write a chunk to the front. -/
def fill (self : Buffer n) (chunk : BoundedVec UInt8 n) : Buffer n :=
  ⟨chunk.toList ++ self.bytes.drop chunk.toList.length, by
    have := chunk.length_le
    rw [List.length_append, List.length_drop, self.length_eq]
    omega⟩

end Buffer

/-- A transport: what has been sent, and what is to come. -/
structure Transport (E : Type) (bufSize : ℕ) where
  /-- Every buffer handed to `send` so far. -/
  sent : List (List UInt8)
  /-- The errors of the sends to come; a send without an entry succeeds. -/
  sendResults : List (Option E)
  /-- The results of the receives to come. A receive fills the buffer it is given, so it
  returns at most `bufSize` bytes. -/
  incoming : List (Except E (BoundedVec UInt8 bufSize))

/-- Connection options and credentials. -/
structure MqttOptions where
  clientId : String
  /-- In ticks of the clock, of which there are a million in a second. -/
  keepAlive : ℕ
  cleanSession : Bool
  username : Option String
  password : Option String
  will : Option Will
  properties : Properties
  version : MqttVersion

inductive ConnectionState
  | disconnected
  | connecting
  | connected
  deriving DecidableEq, Repr

/-- `MqttClient`. -/
structure MqttClient (E : Type) (bufSize maxInflight : ℕ) where
  transport : Transport E bufSize
  options : MqttOptions
  state : ConnectionState
  nextPacketId : UInt16
  lastTxTime : ℕ
  txBuffer : Buffer bufSize
  rxBuffer : Buffer bufSize
  rxLen : ℕ
  inflight : InflightQueue maxInflight

/-- An event yielded by `poll` or `poll_batch`. -/
inductive MqttEvent
  | publish (p : Publish)
  | pubAck (p : PubAck)
  | pubRec (p : PubRec)
  | pubRel (p : PubRel)
  | pubComp (p : PubComp)
  | subAck (p : SubAck)
  | unsubAck (p : UnsubAck)
  | pingResp
  | disconnect
  deriving DecidableEq

/-- An outgoing message of a batch. -/
structure PublishMessage where
  topic : String
  payload : List UInt8
  qos : QoS
  retain : Bool

/-- The packet of a message of a batch. -/
def PublishMessage.packet (msg : PublishMessage) (packetId : Option UInt16) : Publish :=
  { Publish.new msg.topic msg.payload msg.qos with packetId, retain := msg.retain }

/-- `MqttStreamWriter`, without the transport that it borrows from its client. -/
structure MqttStreamWriter where
  totalLen : ℕ
  bytesRemaining : ℕ
  deriving DecidableEq

/-- A program on the client's state. -/
abbrev ClientM (E : Type) (bufSize maxInflight : ℕ) :=
  EStateM (Fault (MqttError E)) (MqttClient E bufSize maxInflight)

namespace MqttClient
variable {E : Type} {bufSize maxInflight : ℕ}

/-- `MqttClient::new`, at the instant `now`. -/
def new (transport : Transport E bufSize) (options : MqttOptions) (now : ℕ) :
    MqttClient E bufSize maxInflight :=
  { transport, options, state := .disconnected, nextPacketId := 1, lastTxTime := now,
    txBuffer := .zero, rxBuffer := .zero, rxLen := 0, inflight := .empty }

/-! ## Steps shared by the operations -/

/-- `return Err(e)`. -/
def fail {α : Type} (e : MqttError E) : ClientM E bufSize maxInflight α := throw (.err e)

/-- `x.map_err(MqttError::from)?` for a call of the packet layer. -/
def lift {α : Type} (x : Checked PacketError α) : ClientM E bufSize maxInflight α :=
  match x with
  | .ok a => pure a
  | .error (.err e) => fail (.fromPacketError e)
  | .error .panic => throw .panic
  | .error .diverge => throw .diverge

/-- `if self.state != ConnectionState::Connected { return Err(NotConnected) }`. -/
def requireConnected : ClientM E bufSize maxInflight Unit := do
  if (← get).state ≠ .connected then fail .notConnected else pure ()

/-- `self.transport.send(bytes).await?`. -/
def send (bytes : List UInt8) : ClientM E bufSize maxInflight Unit := fun s =>
  let t := s.transport
  match t.sendResults with
  | some e :: sendResults =>
    .error (.err (.transport e)) { s with transport := { t with sendResults } }
  | none :: sendResults =>
    .ok () { s with transport := { t with sendResults, sent := t.sent ++ [bytes] } }
  | [] => .ok () { s with transport := { t with sent := t.sent ++ [bytes] } }

/-- `self.transport.recv(&mut self.rx_buffer).await?`. Without a result to come the call
does not end. -/
def recv : ClientM E bufSize maxInflight ℕ := fun s =>
  let t := s.transport
  match t.incoming with
  | [] => .error .diverge s
  | .error e :: incoming =>
    .error (.err (.transport e)) { s with transport := { t with incoming } }
  | .ok chunk :: incoming =>
    .ok chunk.toList.length
      { s with transport := { t with incoming }, rxBuffer := s.rxBuffer.fill chunk }

/-- `packet.encode(&mut self.tx_buffer[cursor..], self.options.version)`. -/
def encodeTx (cursor : ℕ) (packet : MqttPacket) :
    ClientM E bufSize maxInflight (Checked PacketError ℕ) := fun s =>
  if cursor ≤ bufSize then
    match packet.encode s.options.version (s.txBuffer.bytes.drop cursor) with
    | .ok len tail => .ok (.ok len) { s with txBuffer := s.txBuffer.setTail cursor tail }
    | .error e tail => .ok (.error e) { s with txBuffer := s.txBuffer.setTail cursor tail }
  else .error .panic s

/-- `self.transport.send(&self.tx_buffer[..len]).await?`. -/
def sendTx (len : ℕ) : ClientM E bufSize maxInflight Unit := do
  let bytes ← lift (range (← get).txBuffer.bytes 0 len)
  send bytes

/-- Encode a packet into `tx_buffer` and send it. -/
def sendPacket (packet : MqttPacket) : ClientM E bufSize maxInflight Unit := do
  let len ← lift (← encodeTx 0 packet)
  sendTx len

/-- `self.last_tx_time = now`. -/
def setLastTx (now : ℕ) : ClientM E bufSize maxInflight Unit :=
  modify fun s => { s with lastTxTime := now }

def setState (state : ConnectionState) : ClientM E bufSize maxInflight Unit :=
  modify fun s => { s with state }

/-- The packet id after `id`: it wraps around and leaves out 0. -/
def succPacketId (id : UInt16) : UInt16 := if id + 1 = 0 then 1 else id + 1

/-- `get_next_packet_id`. -/
def getNextPacketId : ClientM E bufSize maxInflight UInt16 := fun s =>
  .ok s.nextPacketId { s with nextPacketId := succPacketId s.nextPacketId }

/-- `self.inflight.track_outbound(pid, qos)?`. -/
def trackOutbound (pid : UInt16) (qos : QoS) : ClientM E bufSize maxInflight Unit := fun s =>
  match s.inflight.trackOutbound pid qos with
  | some inflight => .ok () { s with inflight }
  | none => .error (.err .inflightQueueFull) s

/-- A packet id for a QoS 1 or QoS 2 publish, which is tracked from then on. -/
def allocatePacketId (qos : QoS) : ClientM E bufSize maxInflight (Option UInt16) :=
  if qos ≠ .atMostOnce then do
    let pid ← getNextPacketId
    trackOutbound pid qos
    pure (some pid)
  else pure none

/-! ## Connecting -/

/-- The CONNECT packet of the options; the keep-alive is cut to 16 bits of seconds. -/
def connectPacket (options : MqttOptions) : Connect :=
  { Connect.new options.clientId (UInt16.ofNat (options.keepAlive / 1000000))
      options.cleanSession with
    username := options.username
    password := options.password
    will := options.will
    properties := options.properties }

/-- `decode(&self.rx_buffer[..n], self.options.version)?`. -/
def decodeRx (n : ℕ) : ClientM E bufSize maxInflight (Option MqttPacket) := do
  let s ← get
  let bytes ← lift (range s.rxBuffer.bytes 0 n)
  lift (decode bytes s.options.version)

/-- `MqttClient::connect`. -/
def connect (now : ℕ) : ClientM E bufSize maxInflight Unit := do
  setState .connecting
  sendPacket (.connect (connectPacket (← get).options))
  setLastTx now
  let readLen ← recv
  if readLen = 0 then do
    setState .disconnected
    fail .notConnected
  else do
    match ← decodeRx readLen with
    | some (.connAck connack) =>
      if connack.reasonCode = 0 then
        modify fun s => { s with state := .connected, inflight := .empty }
      else do
        setState .disconnected
        fail (.connectionRefused (.fromByte connack.reasonCode))
    | _ => do
      setState .disconnected
      fail (.protocol .invalidResponse)

/-! ## Publishing -/

/-- The packet of `publish`. -/
def publishPacket (topic : String) (payload : List UInt8) (qos : QoS) (packetId : Option UInt16) :
    Publish :=
  { Publish.new topic payload qos with packetId }

/-- `MqttClient::publish`. -/
def publish (topic : String) (payload : List UInt8) (qos : QoS) (now : ℕ) :
    ClientM E bufSize maxInflight Unit := do
  requireConnected
  let packetId ← allocatePacketId qos
  sendPacket (.publish (publishPacket topic payload qos packetId))
  setLastTx now

/-- A round of the loop of `publish_batch`: packets are collected in `tx_buffer` up to
`cursor`, and sent when the next one no longer fits behind them. -/
def publishBatchRound (msg : PublishMessage) (cursor : ℕ) : ClientM E bufSize maxInflight ℕ := do
  let packetId ← allocatePacketId msg.qos
  let packet := MqttPacket.publish (msg.packet packetId)
  match ← encodeTx cursor packet with
  | .ok len => pure (cursor + len)
  | .error (.err .bufferTooSmall) =>
    if cursor > 0 then do
      sendTx cursor
      lift (← encodeTx 0 packet)
    else fail .bufferTooSmall
  | .error e => lift (.error e)

/-- The loop of `publish_batch`. -/
def publishBatchLoop :
    List PublishMessage → ℕ → ℕ → ClientM E bufSize maxInflight (ℕ × ℕ)
  | [], cursor, sentCount => pure (cursor, sentCount)
  | msg :: messages, cursor, sentCount => do
    let cursor ← publishBatchRound msg cursor
    publishBatchLoop messages cursor (sentCount + 1)

/-- `MqttClient::publish_batch`. -/
def publishBatch (messages : List PublishMessage) (now : ℕ) : ClientM E bufSize maxInflight ℕ := do
  requireConnected
  let (cursor, sentCount) ← publishBatchLoop messages 0 0
  if cursor > 0 then do
    sendTx cursor
    setLastTx now
  else pure ()
  pure sentCount

/-! ## Streaming -/

/-- `a + b` on `usize`, which panics above 64 bits. -/
def addUsize (a b : ℕ) : ClientM E bufSize maxInflight ℕ :=
  if a + b < 2 ^ 64 then pure (a + b) else throw .panic

/-- Topic, packet id and empty properties of a streamed PUBLISH. The topic is written with a
check, the rest by plain indexing. -/
def writeStreamHeader (topic : String) (packetId : Option UInt16) (version : MqttVersion) :
    SliceWriter PacketError UInt8 Unit := do
  SliceWriter.onTail .bufferTooSmall (writeUtf8String topic)
  SliceWriter.whenSome packetId fun pid => SliceWriter.storeSlice (toBeBytes pid)
  SliceWriter.when (version = .v5) (SliceWriter.store 0)

/-- The first byte of a streamed PUBLISH. -/
def streamFlags (qos : QoS) : UInt8 := (0x30 : UInt8) ||| (qos.toByte <<< 1)

/-- `MqttClient::begin_stream_publish`. The fixed header goes out before the variable header
is put together. -/
def beginStreamPublish (topic : String) (totalPayloadLen : ℕ) (qos : QoS) (now : ℕ) :
    ClientM E bufSize maxInflight MqttStreamWriter := do
  requireConnected
  let packetId ← allocatePacketId qos
  let version := (← get).options.version
  let variableHeaderLen := 2 + (strBytes topic).length
  let variableHeaderLen := if packetId.isSome then variableHeaderLen + 2 else variableHeaderLen
  let variableHeaderLen := if version = .v5 then variableHeaderLen + 1 else variableHeaderLen
  let remainingLen ← addUsize variableHeaderLen totalPayloadLen
  let headerBuf := (Buffer.zero : Buffer 15).bytes
  match writeVariableByteIntegerLen remainingLen headerBuf with
  | .error e _ => lift (.error e)
  | .ok lenBytes headerBuf => do
    let header ← lift (range (streamFlags qos :: headerBuf) 0 (1 + lenBytes))
    send header
    match writeStreamHeader topic packetId version ⟨(Buffer.zero : Buffer 256).bytes, 0⟩ with
    | .error e _ => lift (.error e)
    | .ok _ varBuf => do
      let varHeader ← lift (range varBuf.buf 0 varBuf.cursor)
      send varHeader
      setLastTx now
      pure { totalLen := totalPayloadLen, bytesRemaining := totalPayloadLen }

/-- `MqttStreamWriter::write_chunk`, and `write_dma_slice`, which calls it. -/
def writeChunk (writer : MqttStreamWriter) (chunk : List UInt8) :
    ClientM E bufSize maxInflight MqttStreamWriter :=
  if chunk.length > writer.bytesRemaining then fail .bufferTooSmall
  else do
    send chunk
    pure { writer with bytesRemaining := writer.bytesRemaining - chunk.length }

/-- `transport.send_vectored(slices)`, in the transport's own implementation. -/
def sendVectored (slices : List (List UInt8)) : ClientM E bufSize maxInflight Unit :=
  slices.forM fun b => if b ≠ [] then send b else pure ()

/-- `MqttStreamWriter::write_dma_vectored`. -/
def writeDmaVectored (writer : MqttStreamWriter) (slices : List (List UInt8)) :
    ClientM E bufSize maxInflight MqttStreamWriter :=
  let total := (slices.map List.length).sum
  if total > writer.bytesRemaining then fail .bufferTooSmall
  else do
    sendVectored slices
    pure { writer with bytesRemaining := writer.bytesRemaining - total }

/-- `MqttStreamWriter::finish`, which consumes the writer. -/
def finish (writer : MqttStreamWriter) : ClientM E bufSize maxInflight Unit :=
  if writer.bytesRemaining = 0 then pure () else fail (.protocol .incompletePacket)

/-! ## Subscribing -/

/-- `MqttClient::subscribe`. -/
def subscribe (topics : List (String × QoS)) (now : ℕ) : ClientM E bufSize maxInflight UInt16 := do
  requireConnected
  let packetId ← getNextPacketId
  let sub ← lift (topics.foldlM (fun sub (t, q) => sub.addTopic t q) (Subscribe.new packetId))
  sendPacket (.subscribe sub)
  setLastTx now
  pure packetId

/-- `MqttClient::unsubscribe`. -/
def unsubscribe (topics : List String) (now : ℕ) : ClientM E bufSize maxInflight UInt16 := do
  requireConnected
  let packetId ← getNextPacketId
  let unsub ← lift (topics.foldlM (fun unsub t => unsub.addTopic t) (Unsubscribe.new packetId))
  sendPacket (.unsubscribe unsub)
  setLastTx now
  pure packetId

/-! ## Receiving -/

/-- An operation on the table whose result is ignored. -/
def updateInflight (f : InflightQueue maxInflight → Option (InflightQueue maxInflight)) :
    ClientM E bufSize maxInflight Unit :=
  modify fun s => { s with inflight := (f s.inflight).getD s.inflight }

/-- The `match` on a received packet: acknowledgements are sent, the table is updated, and
the packet becomes an event. -/
def handlePacket : MqttPacket → ClientM E bufSize maxInflight (Option MqttEvent)
  | .publish p => do
    match p.qos, p.packetId with
    | .atLeastOnce, some pid => sendPacket (.pubAck (Ack.new pid))
    | .exactlyOnce, some pid => do
      sendPacket (.pubRec (Ack.new pid))
      updateInflight (·.trackInboundQos2 pid)
    | _, _ => pure ()
    pure (some (.publish p))
  | .pubAck ack => do
    updateInflight (·.handlePuback ack.packetId)
    pure (some (.pubAck ack))
  | .pubRec rec => do
    updateInflight (·.handlePubrec rec.packetId)
    sendPacket (.pubRel (Ack.new rec.packetId))
    pure (some (.pubRec rec))
  | .pubRel rel => do
    updateInflight (·.handlePubrel rel.packetId)
    sendPacket (.pubComp (Ack.new rel.packetId))
    pure (some (.pubRel rel))
  | .pubComp comp => do
    updateInflight (·.handlePubcomp comp.packetId)
    pure (some (.pubComp comp))
  | .subAck suback => pure (some (.subAck suback))
  | .unsubAck unsuback => pure (some (.unsubAck unsuback))
  | .pingResp => pure (some .pingResp)
  | .disconnect _ => do
    setState .disconnected
    pure (some .disconnect)
  | _ => pure none

/-- The keep-alive part of `poll`: a PINGREQ when half the interval has passed since the last
transmission. -/
def pingIfDue (now : ℕ) : ClientM E bufSize maxInflight Unit := do
  let s ← get
  if now - s.lastTxTime ≥ s.options.keepAlive / 2 then do
    sendPacket .pingReq
    setLastTx now
  else pure ()

/-- `MqttClient::poll`. -/
def poll (now : ℕ) : ClientM E bufSize maxInflight (Option MqttEvent) := do
  requireConnected
  pingIfDue now
  let n ← recv
  if n = 0 then pure none
  else do
    modify fun s => { s with rxLen := n }
    match ← decodeRx n with
    | some packet => handlePacket packet
    | none => pure none

/-- `let _ = events.push(event)`: an event is dropped when the vector is full. -/
def pushEvent {maxEvents : ℕ} (events : BoundedVec MqttEvent maxEvents) :
    Option MqttEvent → BoundedVec MqttEvent maxEvents
  | some event => (events.push event).getD events
  | none => events

/-- The frame loop of `poll_batch`. Every frame moves the iterator, so a fuel above the
number of received bytes is never used up. -/
def pollBatchLoop (maxEvents : ℕ) : ℕ → RawPacketFrameIter → BoundedVec MqttEvent maxEvents →
    ClientM E bufSize maxInflight (BoundedVec MqttEvent maxEvents)
  | 0, _, _ => throw .diverge
  | fuel + 1, iter, events => do
    let (frameRes, iter) ← lift iter.next
    match frameRes with
    | none => pure events
    | some (.error e) => fail (.fromPacketError e)
    | some (.ok frame) => do
      match ← lift (decode frame (← get).options.version) with
      | some packet => do
        let event ← handlePacket packet
        pollBatchLoop maxEvents fuel iter (pushEvent events event)
      | none => pollBatchLoop maxEvents fuel iter events

/-- `MqttClient::poll_batch`. -/
def pollBatch (maxEvents : ℕ) : ClientM E bufSize maxInflight (BoundedVec MqttEvent maxEvents) := do
  requireConnected
  let n ← recv
  if n = 0 then pure .empty
  else do
    modify fun s => { s with rxLen := n }
    let bytes ← lift (range (← get).rxBuffer.bytes 0 n)
    pollBatchLoop maxEvents (n + 1) (.new bytes) .empty

/-! ## Disconnecting -/

/-- `MqttClient::disconnect`. -/
def disconnect : ClientM E bufSize maxInflight Unit := do
  if (← get).state ≠ .connected then pure ()
  else do
    sendPacket (.disconnect .new)
    setState .disconnected

end MqttClient

end MqttEngine
