import MqttEngine.Tokio.Router

/-!
# The event loop of the Tokio client

`EventLoop` of `mqtt-tokio`. A function of the source that works on `self` alone is a program
on the state of the loop (`LoopM`), and one that also has a transport is a program on the loop
and that transport (`ConnM`). A program may end in an error, in a panic or not at all, and the
state is kept either way.

The transport is the world outside: it holds what has been written, and scripts of the results
that the writes, flushes and reads to come will have. A write that fails may have written the
beginning of its bytes. The channels of the topic streams are a world `W` of their own. Hash
maps are association lists, and a `HashOrder` says in which order their entries are yielded.

`drive_connection` selects among a read, a request and a tick of its timer; `driveRead`,
`driveRequest` and `driveTick` are the three branches. The read branch decodes all complete
frames first and then acts on them one after the other; each packet is kept with its frame, and
`IncomingAction.ofPacket` is the action that the source keeps in its place. The buffer size
`max_packet_size` is the parameter `maxPacketSize`, and the clock is read once in an operation.

## Main definitions

* `Socket`, `EventLoop`, `Conn` — the state.
* `sendPublishDirect`, `sendPublishBatchDirect`, `handleClientRequest` — requests.
* `performConnectHandshake`, `performSessionDataRecovery`, `connectAttempt` — connecting.
* `driveRead`, `driveRequest`, `driveTick` — the branches of the connection loop.
-/

namespace MqttEngine.Tokio
open Checked

/-! ## State -/

/-- A transport: what has been written, and what is to come. -/
structure Socket (E : Type) where
  /-- The bytes of every `write_all` so far. -/
  written : List (List UInt8)
  /-- The results of the writes to come: an error, after so many of the bytes. A write without
  an entry succeeds. -/
  writeResults : List (Option (ℕ × E))
  /-- The errors of the flushes to come. -/
  flushResults : List (Option E)
  /-- What the peer sends. Empty segments are the end of the stream. -/
  incoming : List (Except E (List UInt8))
  /-- The datagrams that have been sent. -/
  datagrams : List (List UInt8)
  /-- Over QUIC, the errors of the datagrams to come. -/
  datagramResults : Option (List (Option String))

/-- A transport that has just been opened. -/
def Socket.opened {E : Type} (self : Socket E) : Socket E :=
  { self with written := [], datagrams := [] }

/-- A transport that has just been opened and does not fail, and what the peer sends on it. -/
def Socket.sending {E : Type} (incoming : List (List UInt8)) : Socket E :=
  { written := [], writeResults := [], flushResults := [], incoming := incoming.map .ok
    datagrams := [], datagramResults := none }

/-- `EventLoop`, without the receiver of the requests. -/
structure EventLoop (E R S W : Type) (maxPacketSize : ℕ) where
  options : ClientOptions
  router : TopicRouter S
  /-- The channels of the streams. -/
  channels : W
  /-- The published statuses, the current one last. -/
  statuses : List ConnectionStatus
  transport : Option (Socket E)
  offlineQueue : List PublishMessage
  activeSubscriptions : Assoc String QoS
  inflightPublishes : Assoc UInt16 (PublishMessage × Option R)
  inflightSubscribes : Assoc UInt16 R
  inflightUnsubscribes : Assoc UInt16 R
  nextPacketId : UInt16
  rxBuf : Buffer maxPacketSize
  txBuf : Buffer maxPacketSize
  lastTx : ℕ
  reconnectAttempt : ℕ
  /-- What the requesters have been sent, in order. -/
  answers : List (R × Answer E)

/-- The loop, and the transport that a function has been given. -/
structure Conn (E R S W : Type) (maxPacketSize : ℕ) extends EventLoop E R S W maxPacketSize where
  socket : Socket E

/-- A function of `self`. -/
abbrev LoopM (E R S W : Type) (maxPacketSize : ℕ) :=
  EStateM (Fault (ClientError E)) (EventLoop E R S W maxPacketSize)

/-- A function of `self` and a transport. -/
abbrev ConnM (E R S W : Type) (maxPacketSize : ℕ) :=
  EStateM (Fault (ClientError E)) (Conn E R S W maxPacketSize)

/-- The order in which a hash map yields its entries. -/
structure HashOrder where
  entries : ∀ {α : Type}, List α → List α
  perm : ∀ {α : Type} (l : List α), (entries l).Perm l

/-! ## Actions and outcomes -/

/-- `IncomingAction`. -/
inductive IncomingAction
  | publish (message : PublishMessage)
  | pubAck (packetId : UInt16)
  | subAck (packetId : UInt16)
  | unsubAck (packetId : UInt16)
  | pingResp
  | disconnect
  deriving DecidableEq

/-- The action that a packet calls for. -/
def IncomingAction.ofPacket : MqttPacket → Option IncomingAction
  | .publish p =>
    some (.publish
      { topic := p.topic, payload := p.payload, qos := p.qos, retain := p.retain, dup := p.dup
        packetId := p.packetId, userProperties := [] })
  | .pubAck ack => some (.pubAck ack.packetId)
  | .subAck suback => some (.subAck suback.packetId)
  | .unsubAck unsuback => some (.unsubAck unsuback.packetId)
  | .pingResp => some .pingResp
  | .disconnect _ => some .disconnect
  | _ => none

/-- A frame that has been read, and its packet. -/
structure Received where
  frame : List UInt8
  packet : MqttPacket
  deriving DecidableEq

/-- How an attempt to connect ends. -/
inductive Attempt (E : Type)
  | connected
  | retry
  | failed (e : ClientError E)

/-! ## Buffers -/

/-- `rx_buf[cursor..]` after a read of `data`. -/
def receiveAt {n : ℕ} (self : Buffer n) (cursor : ℕ) (data : List UInt8) : Buffer n :=
  self.setTail cursor (data ++ self.bytes.drop (cursor + data.length))

/-- `buf.copy_within(from..to, 0)`. -/
def copyToFront {n : ℕ} (self : Buffer n) (start stop : ℕ) : Buffer n :=
  self.setTail 0 ((self.bytes.take stop).drop start ++ self.bytes.drop (stop - start))

namespace EventLoop
variable {E R S W : Type} {maxPacketSize : ℕ}

/-- `EventLoop::new`, at the instant `now`. -/
def new (options : ClientOptions) (channels : W) (now : ℕ) : EventLoop E R S W maxPacketSize :=
  { options, router := .new, channels, statuses := [.disconnected], transport := none
    offlineQueue := [], activeSubscriptions := [], inflightPublishes := []
    inflightSubscribes := [], inflightUnsubscribes := [], nextPacketId := 1
    rxBuf := .zero, txBuf := .zero, lastTx := now, reconnectAttempt := 0, answers := [] }

/-! ## Steps shared by the operations -/

/-- `return Err(e)`. -/
def fail {α : Type} (e : ClientError E) : ConnM E R S W maxPacketSize α := throw (.err e)

/-- `x.map_err(|_| e)?` for a call of the packet layer. -/
def lift {α : Type} (e : ClientError E) (x : Checked PacketError α) :
    ConnM E R S W maxPacketSize α :=
  match x with
  | .ok a => pure a
  | .error (.err _) => fail e
  | .error .panic => throw .panic
  | .error .diverge => throw .diverge

/-- `let _ = x.await`. -/
def ignore (x : ConnM E R S W maxPacketSize Unit) : ConnM E R S W maxPacketSize Unit := fun s =>
  match x s with
  | .error (.err _) s => .ok () s
  | r => r

/-- `transport.write_all(bytes).await?`. -/
def writeAll (bytes : List UInt8) : ConnM E R S W maxPacketSize Unit := fun s =>
  let t := s.socket
  match t.writeResults with
  | some (n, e) :: writeResults =>
    .error (.err (.io (.os e)))
      { s with socket := { t with writeResults, written := t.written ++ [bytes.take n] } }
  | none :: writeResults =>
    .ok () { s with socket := { t with writeResults, written := t.written ++ [bytes] } }
  | [] => .ok () { s with socket := { t with written := t.written ++ [bytes] } }

/-- `transport.flush().await?`. -/
def flush : ConnM E R S W maxPacketSize Unit := fun s =>
  let t := s.socket
  match t.flushResults with
  | some e :: flushResults =>
    .error (.err (.io (.os e))) { s with socket := { t with flushResults } }
  | none :: flushResults => .ok () { s with socket := { t with flushResults } }
  | [] => .ok () s

/-- `transport.read(&mut self.rx_buf[cursor..]).await`, when something has come in: the number
of bytes. A read into an empty slice returns at once. -/
def read (cursor : ℕ) : ConnM E R S W maxPacketSize (Option ℕ) := fun s =>
  if cursor > maxPacketSize then .error .panic s
  else if cursor = maxPacketSize then .ok (some 0) s
  else
    let t := s.socket
    match t.incoming with
    | [] => .ok none s
    | .error e :: incoming =>
      .error (.err (.io (.os e))) { s with socket := { t with incoming } }
    | .ok segment :: incoming =>
      let data := segment.take (maxPacketSize - cursor)
      let rest := segment.drop (maxPacketSize - cursor)
      .ok (some data.length)
        { s with
          socket := { t with incoming := if rest = [] then incoming else .ok rest :: incoming }
          rxBuf := receiveAt s.rxBuf cursor data }

/-- `packet.encode(&mut self.tx_buf[cursor..], self.options.version)`. -/
def encodeTx (cursor : ℕ) (packet : MqttPacket) :
    ConnM E R S W maxPacketSize (Checked PacketError ℕ) := fun s =>
  if cursor ≤ maxPacketSize then
    match packet.encode s.options.version (s.txBuf.bytes.drop cursor) with
    | .ok len tail => .ok (.ok len) { s with txBuf := s.txBuf.setTail cursor tail }
    | .error e tail => .ok (.error e) { s with txBuf := s.txBuf.setTail cursor tail }
  else .error .panic s

/-- `.map_err(|_| ClientError::Protocol(ProtocolError::MalformedPacket))?`. -/
def orMalformed {α : Type} (x : Checked PacketError α) : ConnM E R S W maxPacketSize α :=
  lift (.protocol .malformedPacket) x

/-- `transport.write_all(&self.tx_buf[..len]).await?`. -/
def writeTx (len : ℕ) : ConnM E R S W maxPacketSize Unit := do
  let bytes ← orMalformed (range (← get).txBuf.bytes 0 len)
  writeAll bytes

/-- `self.last_tx = Instant::now()`. -/
def setLastTx (now : ℕ) : ConnM E R S W maxPacketSize Unit := modify fun s => { s with lastTx := now }

/-- Encode a packet into `tx_buf`, write it and flush. -/
def sendPacket (packet : MqttPacket) (now : ℕ) : ConnM E R S W maxPacketSize Unit := do
  let len ← orMalformed (← encodeTx 0 packet)
  writeTx len
  flush
  setLastTx now

/-- `if let Ok(len) = packet.encode(..) { let _ = transport.write_all(..).await; }`. -/
def tryWritePacket (packet : MqttPacket) : ConnM E R S W maxPacketSize Unit := do
  match ← encodeTx 0 packet with
  | .ok len => ignore (writeTx len)
  | .error (.err _) => pure ()
  | .error e => orMalformed (.error e)

/-- `let _ = sender.send(answer)`. -/
def send (sender : R) (answer : Answer E) : ConnM E R S W maxPacketSize Unit :=
  modify fun s => { s with answers := s.answers ++ [(sender, answer)] }

/-- `if let Some(sender) = sender { let _ = sender.send(answer); }`. -/
def sendSome (sender : Option R) (answer : Answer E) : ConnM E R S W maxPacketSize Unit :=
  match sender with
  | some sender => send sender answer
  | none => pure ()

/-- `self.status_tx.send(status)`. -/
def publishStatus (status : ConnectionStatus) : ConnM E R S W maxPacketSize Unit :=
  modify fun s => { s with statuses := s.statuses ++ [status] }

/-- The packet id after `id`: it wraps around and leaves out 0. -/
def succPacketId (id : UInt16) : UInt16 := if id + 1 = 0 then 1 else id + 1

/-- `get_next_packet_id`. -/
def getNextPacketId : ConnM E R S W maxPacketSize UInt16 := fun s =>
  .ok s.nextPacketId { s with nextPacketId := succPacketId s.nextPacketId }

/-! ## Publishing -/

/-- The PUBLISH of a message. -/
def publishPacket (message : PublishMessage) (packetId : Option UInt16) (dup : Bool) : MqttPacket :=
  .publish { Publish.new message.topic message.payload message.qos with
    packetId, retain := message.retain, dup }

/-- A packet id above QoS 0, under which the message is in flight from then on. -/
def trackPublish (message : PublishMessage) (ackSender : Option R) :
    ConnM E R S W maxPacketSize (Option UInt16) :=
  if message.qos ≠ .atMostOnce then do
    let pid ← getNextPacketId
    modify fun s => { s with
      inflightPublishes :=
        s.inflightPublishes.set pid ({ message with packetId := some pid }, ackSender) }
    pure (some pid)
  else pure none

/-- `send_publish_direct`. -/
def sendPublishDirect (message : PublishMessage) (ackSender : Option R) (now : ℕ) :
    ConnM E R S W maxPacketSize Unit := do
  let packetId ← trackPublish message ackSender
  if packetId = none then sendSome ackSender (.done (.ok ()))
  else pure ()
  sendPacket (publishPacket message packetId message.dup) now

/-- A round of the loop of `send_publish_batch_direct`. A packet that is too large for the
whole buffer is passed over when nothing stands in front of it. -/
def sendPublishBatchRound (message : PublishMessage) (cursor sentCount : ℕ) :
    ConnM E R S W maxPacketSize (ℕ × ℕ) := do
  let packetId ← trackPublish message none
  let packet := publishPacket message packetId message.dup
  match ← encodeTx cursor packet with
  | .ok len => pure (cursor + len, sentCount + 1)
  | .error (.err _) =>
    if cursor > 0 then do
      writeTx cursor
      let len ← orMalformed (← encodeTx 0 packet)
      pure (len, sentCount + 1)
    else pure (cursor, sentCount)
  | .error e => orMalformed (.error e)

/-- The loop of `send_publish_batch_direct`. -/
def sendPublishBatchLoop :
    List PublishMessage → ℕ → ℕ → ConnM E R S W maxPacketSize (ℕ × ℕ)
  | [], cursor, sentCount => pure (cursor, sentCount)
  | message :: messages, cursor, sentCount => do
    let (cursor, sentCount) ← sendPublishBatchRound message cursor sentCount
    sendPublishBatchLoop messages cursor sentCount

/-- `send_publish_batch_direct`. -/
def sendPublishBatchDirect (messages : List PublishMessage) (now : ℕ) :
    ConnM E R S W maxPacketSize ℕ := do
  let (cursor, sentCount) ← sendPublishBatchLoop messages 0 0
  if cursor > 0 then do
    writeTx cursor
    flush
    setLastTx now
  else pure ()
  pure sentCount

/-- `transport.send_datagram(&self.tx_buf[..len])`. -/
def sendDatagram (len : ℕ) : ConnM E R S W maxPacketSize (Except (ClientError E) Unit) := do
  let bytes ← orMalformed (range (← get).txBuf.bytes 0 len)
  let t := (← get).socket
  match t.datagramResults with
  | none =>
    pure (.error (.quic "Datagrams are only supported over QUIC transports"))
  | some (some e :: results) => do
    modify fun s => { s with socket := { s.socket with datagramResults := some results } }
    pure (.error (.quic ("Datagram send failed: " ++ e)))
  | some results => do
    modify fun s => { s with
      socket := { s.socket with
        datagramResults := some results.tail, datagrams := s.socket.datagrams ++ [bytes] } }
    pure (.ok ())

/-- `send_publish`, which buffers the message while there is no transport. -/
def sendPublish (message : PublishMessage) (ackSender : Option R) (now : ℕ) :
    LoopM E R S W maxPacketSize Unit := fun s =>
  match s.transport with
  | some socket =>
    match sendPublishDirect message ackSender now { s with transport := none, socket } with
    | .ok _ t => .ok () { t.toEventLoop with transport := some t.socket }
    | .error e t => .error e { t.toEventLoop with transport := some t.socket }
  | none =>
    let policy := s.options.offlineQueue
    if policy.capacity = 0 then .error (.err .notConnected) s
    else if s.offlineQueue.length ≥ policy.capacity ∧ policy.dropStrategy ≠ .dropOldest then
      .error (.err .queueFull) s
    else
      let kept :=
        if s.offlineQueue.length ≥ policy.capacity then s.offlineQueue.tail else s.offlineQueue
      .ok () { s with
        offlineQueue := kept ++ [message]
        answers := s.answers ++ ackSender.toList.map fun sender => (sender, .done (.ok ())) }

/-- `send_ping`. -/
def sendPing (now : ℕ) : ConnM E R S W maxPacketSize Unit := sendPacket .pingReq now

/-- `send_disconnect`, which returns `Ok` in any case. -/
def sendDisconnect : ConnM E R S W maxPacketSize Unit := do
  match ← encodeTx 0 (.disconnect .new) with
  | .ok len => do
    ignore (writeTx len)
    ignore flush
  | .error (.err _) => pure ()
  | .error e => orMalformed (.error e)
  publishStatus .stopped

/-! ## Requests -/

/-- The SUBSCRIBE of one topic. -/
def subscribePacket (packetId : UInt16) (topic : String) (qos : QoS) : MqttPacket :=
  .subscribe (((Subscribe.new packetId).addTopic topic qos).toOption.getD (.new packetId))

/-- The UNSUBSCRIBE of one topic. -/
def unsubscribePacket (packetId : UInt16) (topic : String) : MqttPacket :=
  .unsubscribe (((Unsubscribe.new packetId).addTopic topic).toOption.getD (.new packetId))

/-- An operation on the router whose error is ignored. -/
def updateRouter (f : TopicRouter S → Except (ClientError E) (TopicRouter S)) :
    ConnM E R S W maxPacketSize Unit :=
  modify fun s => { s with router := (f s.router).toOption.getD s.router }

/-- `handle_client_request`. -/
def handleClientRequest (request : ClientRequest R S) (now : ℕ) : ConnM E R S W maxPacketSize Unit :=
  match request with
  | .publish message ackSender => sendPublishDirect message ackSender now
  | .publishBatch messages ackSender => do
    let count ← sendPublishBatchDirect messages now
    sendSome ackSender (.count (.ok count))
  | .publishDatagram topic payload ackSender => do
    let packet := MqttPacket.publish (Publish.new topic payload .atMostOnce)
    let len ← orMalformed (← encodeTx 0 packet)
    let res ← sendDatagram len
    sendSome ackSender (.done res)
  | .subscribe topic qos respSender streamSender => do
    let pid ← getNextPacketId
    match streamSender with
    | some streamTx => updateRouter fun router => router.insert topic streamTx
    | none => pure ()
    modify fun s => { s with activeSubscriptions := s.activeSubscriptions.set topic qos }
    sendPacket (subscribePacket pid topic qos) now
    modify fun s => { s with inflightSubscribes := s.inflightSubscribes.set pid respSender }
  | .unsubscribe topic respSender => do
    let pid ← getNextPacketId
    updateRouter fun router => router.remove topic
    modify fun s => { s with activeSubscriptions := s.activeSubscriptions.erase topic }
    sendPacket (unsubscribePacket pid topic) now
    modify fun s => { s with inflightUnsubscribes := s.inflightUnsubscribes.set pid respSender }
  | .disconnect respSender => do
    sendDisconnect
    send respSender (.done (.ok ()))
    fail .clientClosed

/-! ## Connecting -/

/-- The CONNECT of the options; the keep-alive is cut to 65535 seconds. -/
def connectPacket (options : ClientOptions) : Connect :=
  { Connect.new options.clientId (UInt16.ofNat (min (options.keepAlive / 1000000) 65535))
      options.cleanSession with
    username := options.username
    password := options.password
    will := options.will.map fun will => Will.new will.topic will.payload will.qos will.retain }

/-- `perform_connect_handshake`. When nothing comes in, the read times out. -/
def performConnectHandshake : ConnM E R S W maxPacketSize Unit := do
  let len ← orMalformed (← encodeTx 0 (.connect (connectPacket (← get).options)))
  writeTx len
  flush
  match ← read 0 with
  | none => fail .timeout
  | some readLen =>
    if readLen = 0 then fail (.protocol .invalidResponse)
    else do
      let s ← get
      let bytes ← lift (.protocol .invalidResponse) (range s.rxBuf.bytes 0 readLen)
      match ← lift (.protocol .invalidResponse) (decode bytes s.options.version) with
      | some (.connAck connack) =>
        if connack.reasonCode = 0 then pure ()
        else fail (.connectionRefused connack.reasonCode)
      | _ => fail (.protocol .invalidResponse)

/-- The queue of `perform_session_data_recovery`, message by message. -/
def flushOfflineQueue (now : ℕ) : List PublishMessage → ConnM E R S W maxPacketSize Unit
  | [] => pure ()
  | message :: rest => do
    modify fun s => { s with offlineQueue := rest }
    ignore (sendPublishDirect message none now)
    flushOfflineQueue now rest

/-- `perform_session_data_recovery`, on the transport that has just been connected: it resends
what is in flight, subscribes again and flushes the offline queue. -/
def performSessionDataRecovery (order : HashOrder) (now : ℕ) : ConnM E R S W maxPacketSize Unit := do
  let s ← get
  if s.options.recovery.resendUnackedInflight ∧ s.inflightPublishes ≠ [] then do
    (order.entries s.inflightPublishes).forM fun (pid, message, _) =>
      tryWritePacket (publishPacket message (some pid) true)
    ignore flush
  else pure ()
  if s.options.recovery.autoResubscribe ∧ s.activeSubscriptions ≠ [] then do
    (order.entries s.activeSubscriptions).forM fun (topic, qos) => do
      let pid ← getNextPacketId
      tryWritePacket (subscribePacket pid topic qos)
    ignore flush
  else pure ()
  flushOfflineQueue now s.offlineQueue

/-- The end of an attempt that has failed with `e`. -/
def attemptFailed (self : EventLoop E R S W maxPacketSize) (e : ClientError E) : Attempt E :=
  match self.options.reconnect.maxRetries with
  | some max => if self.reconnectAttempt ≥ max then .failed e else .retry
  | none => .retry

/-- The loop of `connect_with_backoff` up to the dial, if `compute_delay` does not panic. -/
def startAttempt (self : EventLoop E R S W maxPacketSize) : EventLoop E R S W maxPacketSize :=
  let reconnectAttempt := self.reconnectAttempt + 1
  let delay := (self.options.reconnect.computeDelay reconnectAttempt).getD 0
  let waiting := if delay > 0 then [.reconnecting reconnectAttempt delay] else []
  { self with reconnectAttempt, statuses := self.statuses ++ waiting ++ [.connecting] }

/-- The loop of `connect_with_backoff` from the result of `connect_transport` on: how the round
ends, and the transport that it drops. It has no result if it panics. -/
def finishAttempt (order : HashOrder) (dial : Except (ClientError E) (Socket E)) (now : ℕ)
    (self : EventLoop E R S W maxPacketSize) :
    Option (Attempt E × EventLoop E R S W maxPacketSize × Option (Socket E)) :=
  match dial with
  | .error e => some (self.attemptFailed e, self, none)
  | .ok socket =>
    match performConnectHandshake { self with socket } with
    | .error (.err e) s => some (s.attemptFailed e, s.toEventLoop, some s.socket)
    | .error _ _ => none
    | .ok _ s =>
      let s := { s with
        reconnectAttempt := 0, statuses := s.statuses ++ [.connected], lastTx := now }
      match performSessionDataRecovery order now s with
      | .ok _ s => some (.connected, { s.toEventLoop with transport := some s.socket }, none)
      | .error (.err e) s =>
        some (.failed e, { s.toEventLoop with transport := some s.socket }, none)
      | .error _ _ => none

/-- A round of the loop of `connect_with_backoff`. It has no result if it panics. -/
def connectAttempt (order : HashOrder) (dial : Except (ClientError E) (Socket E)) (now : ℕ)
    (self : EventLoop E R S W maxPacketSize) :
    Option (Attempt E × EventLoop E R S W maxPacketSize × Option (Socket E)) :=
  match self.options.reconnect.computeDelay (self.reconnectAttempt + 1) with
  | some _ => self.startAttempt.finishAttempt order dial now
  | none => none

/-! ## The connection loop -/

/-- `for frame in iter.flatten()`: the frames with their packets and the number of their bytes.
What the iterator reports as an error is passed over. Every frame moves the iterator, so a fuel
above the number of bytes is used up only if the loop does not end. -/
def parseFrames : ℕ → RawPacketFrameIter → List Received → ℕ →
    ConnM E R S W maxPacketSize (List Received × ℕ)
  | 0, _, _, _ => throw .diverge
  | fuel + 1, iter, received, consumed => do
    let (item, iter) ← lift (.protocol .invalidResponse) iter.next
    match item with
    | none => pure (received, consumed)
    | some (.error _) => parseFrames fuel iter received consumed
    | some (.ok frame) => do
      let packet ← lift (.protocol .invalidResponse) (decode frame (← get).options.version)
      parseFrames fuel iter (received ++ packet.toList.map fun packet => ⟨frame, packet⟩)
        (consumed + frame.length)

/-- The read branch of `drive_connection` up to the actions, behind the `rxCursor` bytes that are
left: the frames that are complete, and the number of bytes that are left then. While nothing
comes in, nothing happens. -/
def receiveFrames (rxCursor : ℕ) : ConnM E R S W maxPacketSize (List Received × ℕ) := do
  match ← read rxCursor with
  | none => pure ([], rxCursor)
  | some n =>
    if n = 0 then fail (.io (.unexpectedEof "Broker closed connection"))
    else do
      let rxCursor := rxCursor + n
      let bytes ← lift (.protocol .invalidResponse) (range (← get).rxBuf.bytes 0 rxCursor)
      let (received, consumed) ← parseFrames (rxCursor + 1) (.new bytes) [] 0
      let left ← lift (.protocol .invalidResponse) (sub rxCursor consumed)
      if consumed > 0 then
        modify fun s => { s with rxBuf := copyToFront s.rxBuf consumed rxCursor }
      else pure ()
      pure (received, left)

/-- The acknowledgement of a QoS 1 publish; one that cannot be encoded is left out. -/
def acknowledge (packetId : UInt16) (now : ℕ) : ConnM E R S W maxPacketSize Unit := do
  match ← encodeTx 0 (.pubAck (Ack.new packetId)) with
  | .ok len => do
    writeTx len
    flush
    setLastTx now
  | .error (.err _) => pure ()
  | .error e => orMalformed (.error e)

/-- A publish of QoS 1 with a packet id is acknowledged. -/
def acknowledgePublish (message : PublishMessage) (now : ℕ) : ConnM E R S W maxPacketSize Unit :=
  match message.qos, message.packetId with
  | .atLeastOnce, some pid => acknowledge pid now
  | _, _ => pure ()

variable [DecidableEq S] (ch : Mpsc W S PublishMessage)

/-- `self.router.dispatch(&message)`. -/
def dispatch (message : PublishMessage) : ConnM E R S W maxPacketSize Unit :=
  modify fun s =>
    let (router, channels) := s.router.dispatch ch message s.channels
    { s with router, channels }

/-- The `match` on an action. -/
def performAction (now : ℕ) : IncomingAction → ConnM E R S W maxPacketSize Unit
  | .publish message => do
    acknowledgePublish message now
    dispatch ch message
  | .pubAck packetId => do
    let entry := (← get).inflightPublishes.get? packetId
    modify fun s => { s with inflightPublishes := s.inflightPublishes.erase packetId }
    sendSome (entry.bind (·.2)) (.done (.ok ()))
  | .subAck packetId => do
    let sender := (← get).inflightSubscribes.get? packetId
    modify fun s => { s with inflightSubscribes := s.inflightSubscribes.erase packetId }
    sendSome sender (.packetId (.ok packetId))
  | .unsubAck packetId => do
    let sender := (← get).inflightUnsubscribes.get? packetId
    modify fun s => { s with inflightUnsubscribes := s.inflightUnsubscribes.erase packetId }
    sendSome sender (.packetId (.ok packetId))
  | .pingResp => pure ()
  | .disconnect => fail .notConnected

/-- What is done with a frame: the action that its packet calls for. -/
def handle (now : ℕ) (received : Received) : ConnM E R S W maxPacketSize Unit :=
  match IncomingAction.ofPacket received.packet with
  | some action => performAction ch now action
  | none => pure ()

/-- The first branch of `drive_connection`: a read. The frames that it has handled, and the number
of bytes that are left. -/
def driveRead (rxCursor now : ℕ) : ConnM E R S W maxPacketSize (List Received × ℕ) := do
  let (received, left) ← receiveFrames rxCursor
  received.forM (handle ch now)
  pure (received, left)

/-- The second branch of `drive_connection`: a request, or the end of the requests. The loop goes
on if it yields `true`, and ends with `Ok` if it yields `false`. -/
def driveRequest (request : Option (ClientRequest R S)) (now : ℕ) :
    ConnM E R S W maxPacketSize Bool :=
  match request with
  | some request => do
    handleClientRequest request now
    pure true
  | none => do
    ignore sendDisconnect
    pure false

/-- The third branch of `drive_connection`: a tick of the timer. -/
def driveTick (now : ℕ) : ConnM E R S W maxPacketSize Unit := do
  let s ← get
  if now - s.lastTx ≥ s.options.keepAlive then sendPing now
  else pure ()

end EventLoop

end MqttEngine.Tokio
