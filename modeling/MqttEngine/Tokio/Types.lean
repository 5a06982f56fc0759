import MqttEngine.Lib.Assoc
import MqttEngine.Lib.Mpsc
import MqttEngine.Embedded.Client

/-!
# Messages, errors and requests of the Tokio client

The types of `mqtt-tokio` that its event loop works with. What `std::io::Error` says about a
failed operation is the parameter `E`. A `oneshot::Sender` is known by its identity in `R`,
and the answers that the event loop gives are recorded; a sender that is dropped gives none.

## Main definitions

* `PublishMessage`, `ConnectionStatus`, `ClientError`, `ClientRequest` — the types of
  `types.rs`.
* `ClientOptions` — the options that the event loop reads.
* `Answer` — what is sent to a requester.
-/

namespace MqttEngine.Tokio

/-- `PublishMessage`. -/
structure PublishMessage where
  topic : String
  payload : List UInt8
  qos : QoS
  retain : Bool
  dup : Bool
  packetId : Option UInt16
  userProperties : List (String × String)
  deriving DecidableEq

/-- `PublishMessage::new`. -/
def PublishMessage.new (topic : String) (payload : List UInt8) : PublishMessage :=
  { topic, payload, qos := .atMostOnce, retain := false, dup := false, packetId := none
    userProperties := [] }

/-- `ConnectionStatus`. The delay is in ticks of the clock. -/
inductive ConnectionStatus
  | disconnected
  | connecting
  | connected
  | reconnecting (attempt nextRetry : ℕ)
  | stopped
  deriving DecidableEq

/-- `std::io::Error`: of the operating system, or made by the event loop. -/
inductive IoError (E : Type)
  | os (e : E)
  | unexpectedEof (message : String)
  deriving DecidableEq

/-- `ClientError`. -/
inductive ClientError (E : Type)
  | io (e : IoError E)
  | protocol (e : ProtocolError)
  | connectionRefused (code : UInt8)
  | invalidTopic (message : String)
  | queueFull
  | notConnected
  | clientClosed
  | timeout
  | tls (message : String)
  | quic (message : String)
  | cancelled
  deriving DecidableEq

/-- `DataRecoveryPolicy`. -/
structure DataRecoveryPolicy where
  resendUnackedInflight : Bool
  autoResubscribe : Bool
  maxInflight : ℕ
  deriving DecidableEq

inductive DropStrategy
  | dropOldest
  | errorOnFull
  | block
  deriving DecidableEq

/-- `OfflineQueuePolicy`. -/
structure OfflineQueuePolicy where
  capacity : ℕ
  dropStrategy : DropStrategy
  deriving DecidableEq

/-- `ReconnectPolicy`. The delays in it are scaled with floating-point numbers; what comes of it
is taken as it is. -/
structure ReconnectPolicy where
  enabled : Bool
  maxRetries : Option ℕ
  /-- What `initial_delay`, `max_delay` and `multiplier` give for an exponent, in ticks of the clock:
  nothing if `Duration::from_secs_f64` panics. -/
  scaledDelay : ℕ → Option ℕ

/-- `compute_delay`. There is no delay if it panics. -/
def ReconnectPolicy.computeDelay (self : ReconnectPolicy) (attempt : ℕ) : Option ℕ :=
  if attempt ≤ 1 then some 0 else self.scaledDelay (min (attempt - 2) 10)

/-- The options that the event loop reads, and `max_inflight`. -/
structure ClientOptions where
  clientId : String
  /-- In ticks of the clock, of which there are a million in a second. -/
  keepAlive : ℕ
  cleanSession : Bool
  username : Option String
  password : Option String
  version : MqttVersion
  will : Option PublishMessage
  reconnect : ReconnectPolicy
  offlineQueue : OfflineQueuePolicy
  recovery : DataRecoveryPolicy

/-- `ClientOptions::new`, with the delays of the default policy, none of which panics. -/
def ClientOptions.new (clientId : String) (scaledDelay : ℕ → ℕ) : ClientOptions :=
  { clientId, keepAlive := 30000000, cleanSession := true, username := none, password := none
    version := .v3_1_1, will := none
    reconnect :=
      { enabled := true, maxRetries := none
        scaledDelay := fun exponent => some (scaledDelay exponent) }
    offlineQueue := { capacity := 512, dropStrategy := .dropOldest }
    recovery := { resendUnackedInflight := true, autoResubscribe := true, maxInflight := 256 } }

/-- What a requester is sent through its `oneshot::Sender`. -/
inductive Answer (E : Type)
  /-- `Result<(), ClientError>`, for a publish, a datagram and a disconnect. -/
  | done (result : Except (ClientError E) Unit)
  /-- `Result<usize, ClientError>`, for a batch. -/
  | count (result : Except (ClientError E) ℕ)
  /-- `Result<u16, ClientError>`, for a subscribe and an unsubscribe. -/
  | packetId (result : Except (ClientError E) UInt16)

/-- `ClientRequest`. Its senders are in `R`, and the senders of the streams in `S`. -/
inductive ClientRequest (R S : Type)
  | publish (message : PublishMessage) (ackSender : Option R)
  | publishBatch (messages : List PublishMessage) (ackSender : Option R)
  | publishDatagram (topic : String) (payload : List UInt8) (ackSender : Option R)
  | subscribe (topic : String) (qos : QoS) (respSender : R) (streamSender : Option S)
  | unsubscribe (topic : String) (respSender : R)
  | disconnect (respSender : R)

end MqttEngine.Tokio
