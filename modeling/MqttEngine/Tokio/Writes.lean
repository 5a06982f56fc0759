import MqttEngine.Tokio.Operations
import MqttEngine.Tokio.System

/-!
# What the event loop writes

Every write of the event loop begins with the first byte of one of the packets that it sends:
CONNECT, PUBLISH, PUBACK, SUBSCRIBE, UNSUBSCRIBE, PINGREQ, and DISCONNECT when it is asked to
stop. So a set of bytes that has these first bytes has the first bytes of all writes of a run.

## Main definitions

* `Socket.Writes` — every write begins with a byte in a set.
* `Sendable` — the set has the first bytes of the packets that are sent.

## Main results

* `writes_connectAttempt`, `writes_handleClientRequest`, `writes_handle` — the operations.
* `writes_step`, `writes_of_runs` — runs.
-/

namespace MqttEngine.Tokio
open Checked Conn EventLoop

/-- Every write begins with a byte in `P`. -/
def Socket.Writes {E : Type} (P : UInt8 → Prop) (self : Socket E) : Prop :=
  ∀ bytes ∈ self.written, ∀ b ∈ bytes.head?, P b

theorem Socket.writes_opened {E : Type} (P : UInt8 → Prop) (self : Socket E) :
    self.opened.Writes P := by
  simp [Writes, opened]

/-- The set has the first bytes of the packets that are sent until the loop is to stop. -/
structure Sendable (P : UInt8 → Prop) : Prop where
  connect : P 0x10
  publish : ∀ p : Publish, P p.header
  pubAck : P 0x40
  subscribe : P 0x82
  unsubscribe : P 0xA2
  pingReq : P 0xC0

section
variable {E R S W : Type} {maxPacketSize : ℕ} {P : UInt8 → Prop}

/-! ## Operations -/

theorem writes_of_sends {s s' : Conn E R S W maxPacketSize} (h : s.socket.Writes P)
    (hsends : Sends P s s') : s'.socket.Writes P := by
  obtain ⟨new, hnew, hfirst⟩ := hsends.written
  intro bytes hbytes
  rw [hnew] at hbytes
  rcases List.mem_append.mp hbytes with hold | hnew
  · exact h bytes hold
  · exact hfirst bytes hnew

/-- Programs that only use the transport. -/
theorem writes_sends {α : Type} {x : ConnM E R S W maxPacketSize α}
    (h : ∀ s₀, Preserves (Sends P s₀) x) : Preserves (fun s => s.socket.Writes P) x :=
  preserves_of_sends (fun _ _ => writes_of_sends) h

theorem Sendable.first_subscribe (hP : Sendable P) (packetId : UInt16) (topic : String) (qos : QoS) :
    P (subscribePacket packetId topic qos).first := by
  obtain ⟨p, hp, -⟩ := subscribePacket_eq packetId topic qos
  rw [hp]
  exact hP.subscribe

theorem Sendable.first_unsubscribe (hP : Sendable P) (packetId : UInt16) (topic : String) :
    P (unsubscribePacket packetId topic).first := by
  obtain ⟨p, hp, -⟩ := unsubscribePacket_eq packetId topic
  rw [hp]
  exact hP.unsubscribe

section
variable (hP : Sendable P)
include hP

theorem writes_sendPublishDirect (message : PublishMessage) (ackSender : Option R) (now : ℕ) :
    Preserves (fun s => s.socket.Writes P)
      (sendPublishDirect message ackSender now : ConnM E R S W maxPacketSize Unit) := by
  apply preserves_sendPublishDirect (fun _ _ => writes_of_sends) hP.publish
  intro s hs
  rwa [socket_published]

theorem writes_publishing {request : ClientRequest R S} (h : request.IsPublish) (now : ℕ) :
    Preserves (fun s => s.socket.Writes P)
      (handleClientRequest request now : ConnM E R S W maxPacketSize Unit) := by
  apply preserves_publishing (fun _ _ => writes_of_sends) hP.publish _ _ _ h
  · intro s message ackSender hs
    rwa [socket_published]
  · intro s message hs
    rwa [socket_tracked]
  · exact fun _ _ hs => hs

/-- Requests, but for one to disconnect. -/
theorem writes_handleClientRequest {request : ClientRequest R S}
    (h : ∀ sender, request ≠ .disconnect sender) (now : ℕ) :
    Preserves (fun s => s.socket.Writes P)
      (handleClientRequest request now : ConnM E R S W maxPacketSize Unit) := by
  cases request with
  | publish message ackSender => exact writes_publishing hP (by trivial) now
  | publishBatch messages ackSender => exact writes_publishing hP (by trivial) now
  | publishDatagram topic payload ackSender => exact writes_publishing hP (by trivial) now
  | subscribe topic qos respSender streamSender =>
    exact fun s hs => ends_subscribe (I := fun s => s.socket.Writes P) hs
      (writes_sends fun _ => sends_sendPacket (hP.first_subscribe _ _ _) now) (fun _ _ h => h)
      respSender
  | unsubscribe topic respSender =>
    exact fun s hs => ends_unsubscribe (I := fun s => s.socket.Writes P) hs
      (writes_sends fun _ => sends_sendPacket (hP.first_unsubscribe _ _) now) (fun _ _ h => h)
      respSender
  | disconnect respSender => exact absurd rfl (h respSender)

theorem writes_performSessionDataRecovery (order : HashOrder) (now : ℕ) :
    Preserves (fun s => s.socket.Writes P)
      (performSessionDataRecovery order now : ConnM E R S W maxPacketSize Unit) := by
  apply preserves_performSessionDataRecovery
  · exact fun _ _ _ _ _ => writes_sends fun _ => sends_tryWritePacket (hP.publish _)
  · exact writes_sends fun _ => sends_flush
  · intro _ _ e _
    have hnext : Preserves (fun s => s.socket.Writes P)
        (getNextPacketId : ConnM E R S W maxPacketSize UInt16) := fun _ hs => hs
    apply Preserves.bind hnext
    intro pid
    exact writes_sends fun _ => sends_tryWritePacket (hP.first_subscribe _ _ _)
  · intro s _
    exact preserves_flushOfflineQueue (fun _ _ _ hs => hs)
      fun message _ => writes_sendPublishDirect hP message none now

theorem writes_handle [DecidableEq S] (ch : Mpsc W S PublishMessage) (received : Received) (now : ℕ) :
    Preserves (fun s => s.socket.Writes P)
      (handle ch now received : ConnM E R S W maxPacketSize Unit) :=
  preserves_handle ch now (fun _ _ => writes_of_sends) hP.pubAck (fun _ _ _ hs => hs)
    (fun _ _ hs => hs) (fun _ _ hs => hs) (fun _ _ hs => hs) received

/-- An attempt to connect: the transport that it drops, and the one that it leaves. -/
theorem writes_connectAttempt {self loop : EventLoop E R S W maxPacketSize} {order : HashOrder}
    {dial : Except (ClientError E) (Socket E)} {now : ℕ} {attempt : Attempt E}
    {socket : Option (Socket E)} (hnone : self.transport = none)
    (h : self.connectAttempt order (dial.map Socket.opened) now = some (attempt, loop, socket)) :
    (∀ t ∈ socket, t.Writes P) ∧ ∀ t ∈ loop.transport, t.Writes P := by
  have hhandshake : Preserves (fun s => s.socket.Writes P)
      (performConnectHandshake : ConnM E R S W maxPacketSize Unit) :=
    writes_sends fun _ => sends_performConnectHandshake hP.connect
  have hstart (socket : Socket E) (hsocket : dial.map Socket.opened = .ok socket) :
      socket.Writes P := by
    rcases dial with e | opened
    · cases hsocket
    · cases hsocket
      exact Socket.writes_opened P opened
  rcases connectAttempt_cases (I := fun s => s.socket.Writes P) hstart hhandshake (fun _ hs => hs)
    (writes_performSessionDataRecovery hP order now) h with
    ⟨rfl, rfl⟩ | ⟨s, hs, ⟨-, htransport, rfl⟩ | ⟨rfl, rfl⟩⟩
  · have hnone' : self.startAttempt.transport = none := hnone
    simp [hnone']
  · simpa [htransport, hnone] using hs
  · simpa using hs

end

/-! ## Runs -/

/-- DISCONNECT. -/
theorem writes_sendDisconnect (h : P 0xE0) :
    Preserves (fun s => s.socket.Writes P) (sendDisconnect : ConnM E R S W maxPacketSize Unit) :=
  preserves_sendDisconnect (fun _ _ => writes_of_sends) h fun _ _ hs => hs

theorem writes_driveRequest (hP : Sendable P) (h : P 0xE0) (request : Option (ClientRequest R S))
    (now : ℕ) :
    Preserves (fun s => s.socket.Writes P)
      (driveRequest request now : ConnM E R S W maxPacketSize Bool) := by
  have hdisconnect : Preserves (fun s => s.socket.Writes P)
      (sendDisconnect : ConnM E R S W maxPacketSize Unit) := writes_sendDisconnect h
  rcases request with _ | request
  · exact Preserves.bind (preserves_ignore hdisconnect) fun _ => Preserves.pure _
  · apply Preserves.bind
    · by_cases hrequest : ∃ sender, request = .disconnect sender
      · obtain ⟨sender, rfl⟩ := hrequest
        apply Preserves.bind hdisconnect
        intro _
        exact Preserves.bind (Preserves.modify fun _ hs => hs) fun _ => Preserves.throw _
      · exact writes_handleClientRequest hP (fun sender heq => hrequest ⟨sender, heq⟩) now
    · exact fun _ => Preserves.pure _

namespace LoopSystem
variable [DecidableEq S] {ch : Mpsc W S PublishMessage} {order : HashOrder}
  {s t : LoopSystem E R S W maxPacketSize} {event : Event E R S W}

theorem writes_step (hP : Sendable P) (hdisconnect : P 0xE0)
    (hs : ∀ socket ∈ s.connections, socket.Writes P) (h : s.step ch order event = some t) :
    ∀ socket ∈ t.connections, socket.Writes P := by
  have hkeeps {α : Type} {x : ConnM E R S W maxPacketSize α}
      (hx : Preserves (fun c => c.socket.Writes P) x) :
      Preserves (fun c => True ∧ c.socket.Writes P) x := by
    simpa only [true_and] using hx
  refine (connections_step (L := fun _ => True) h trivial hs ?_ ?_ ?_ ?_ ?_ ?_ ?_).2
  · exact fun _ _ _ _ _ => trivial
  · exact fun _ _ hsocket => hsocket
  · intro dial now _ hnone attempt loop dropped hattempt
    exact ⟨trivial, writes_connectAttempt hP hnone hattempt⟩
  · exact fun rxCursor => hkeeps (writes_sends fun _ => sends_receiveFrames rxCursor)
  · exact fun now _ received => hkeeps (writes_handle hP ch received now)
  · exact fun request now _ => hkeeps (writes_driveRequest hP hdisconnect request now)
  · exact fun now _ => hkeeps (writes_sends fun _ => sends_driveTick hP.pingReq now)

/-- All writes of a run. -/
theorem writes_of_runs (hP : Sendable P) (hdisconnect : P 0xE0)
    {ok : LoopSystem E R S W maxPacketSize → Event E R S W → Prop} {options : ClientOptions}
    {channels : W} {now : ℕ} (h : Runs ch order ok (start options channels now) s) :
    ∀ socket ∈ s.connections, socket.Writes P :=
  h.invariant (by simp [connections, start, EventLoop.new]) fun _ _ _ hs _ hstep =>
    writes_step hP hdisconnect hs hstep

end LoopSystem

end

end MqttEngine.Tokio
