import MqttEngine.Packet.Framing
import MqttEngine.Packet.RoundTrip
import MqttEngine.Tokio.Client
import MqttEngine.Tokio.Operations

/-!
# Topics

`router.rs` has a validator of topic filters and one of publish topics. The router validates the
filters that it is given, and the event loop ignores what it reports; nothing validates a publish
topic. So a topic gets into the tables of the event loop and onto the wire as a handle has passed it.
As long as all handles pass valid topics, all of them stay valid: those in the tables, those that
the recovery of a session writes, and those of every frame in what has been written, as a broker
decodes it.

## Main definitions

* `ValidFilter`, `ValidTopic` — the validators accept it.
* `MqttPacket.TopicsValid`, `ClientRequest.TopicsValid` — of all topics of a packet, of a request.
* `EventLoop.TopicsValid`, `Socket.TopicsValid` — of the tables, and of what has been written.

## Main results

* `topicsValidIn_publish`, `topicsValidIn_subscribe` — what a broker reads of a packet.
* `keeps_subscribe` — the topic of a subscription gets into the table in any case.
* `topicsValid_step`, `topicsValid_of_reaches` — runs of a client.
-/

namespace MqttEngine
open Checked Tokio

/-- `validate_topic_filter` accepts the filter. -/
def ValidFilter (filter : String) : Prop :=
  (validateTopicFilter filter : Except (ClientError Empty) Unit) = .ok ()

/-- `validate_publish_topic` accepts the topic. -/
def ValidTopic (topic : String) : Prop :=
  (validatePublishTopic topic : Except (ClientError Empty) Unit) = .ok ()

instance (filter : String) : Decidable (ValidFilter filter) := inferInstanceAs (Decidable (_ = _))

instance (topic : String) : Decidable (ValidTopic topic) := inferInstanceAs (Decidable (_ = _))

/-- The topic of a PUBLISH and the filters of a SUBSCRIBE are valid. -/
def MqttPacket.TopicsValid : MqttPacket → Prop
  | .publish p => ValidTopic p.topic
  | .subscribe p => ∀ topic ∈ p.topics.toList, ValidFilter topic.1
  | _ => True

instance : (p : MqttPacket) → Decidable p.TopicsValid
  | .publish p => inferInstanceAs (Decidable (ValidTopic p.topic))
  | .subscribe p => inferInstanceAs (Decidable (∀ topic ∈ p.topics.toList, ValidFilter topic.1))
  | .connect _ | .connAck _ | .pubAck _ | .pubRec _ | .pubRel _ | .pubComp _ | .subAck _
  | .unsubscribe _ | .unsubAck _ | .pingReq | .pingResp | .disconnect _ => .isTrue trivial

/-! ## Frames -/

/-- What a frame is decoded to has valid topics. -/
def TopicsValidIn (version : MqttVersion) (frame : List UInt8) : Prop :=
  ∀ p, decode frame version = .ok (some p) → p.TopicsValid

instance (version : MqttVersion) (frame : List UInt8) : Decidable (TopicsValidIn version frame) :=
  match h : decode frame version with
  | .ok (some p) => decidable_of_iff p.TopicsValid (by simp [TopicsValidIn, h])
  | .ok none => .isTrue (by simp [TopicsValidIn, h])
  | .error _ => .isTrue (by simp [TopicsValidIn, h])

section
variable {version : MqttVersion}

theorem decode_wire {p q : MqttPacket} (h : decode (p.wire version) version = .ok (some q)) :
    decodeType p.packetType (p.wire version) version = .ok q := by
  rw [← packetType_first]
  obtain ⟨q', hq', heq⟩ := map_eq_ok.mp h
  cases heq
  exact hq'

/-- Frames of other types have no topics. -/
theorem topicsValidIn_of_type {p : MqttPacket} (hpublish : p.packetType ≠ 3)
    (hsubscribe : p.packetType ≠ 8) : TopicsValidIn version (p.wire version) := by
  intro q hq
  have hdecode := decode_wire hq
  rw [decodeType] at hdecode
  split at hdecode
  case h_3 htype => exact absurd (UInt8.toNat.inj htype) hpublish
  case h_8 htype => exact absurd (UInt8.toNat.inj htype) hsubscribe
  case h_12 => cases hdecode; trivial
  case h_13 => cases hdecode; trivial
  case h_15 => cases hdecode
  all_goals
    obtain ⟨q', -, rfl⟩ := map_eq_ok.mp hdecode
    trivial

/-- A PUBLISH is decoded to its topic, whatever its other fields are read as. -/
theorem topicsValidIn_publish {p : Publish} (htopic : ValidTopic p.topic)
    (he : (MqttPacket.publish p).Encodable)
    (hlen : ((MqttPacket.publish p).content version).length < 128 ^ 4) :
    TopicsValidIn version ((MqttPacket.publish p).wire version) := by
  intro q hq
  have hwire : (MqttPacket.publish p).wire version =
      frameBytes (MqttPacket.publish p).first ((MqttPacket.publish p).content version) ++ [] := by
    rw [List.append_nil]
    rfl
  obtain ⟨cursor, hb, hd, -, -⟩ := readContentBounds_frame (by omega) hwire
  obtain ⟨q', hq', rfl⟩ := map_eq_ok.mp (decode_wire hq)
  simp only [MqttPacket.content, List.append_assoc] at hd
  have hread := reads_utf8String (he _ (by simp [MqttPacket.prefixed])) _ _ _ hd
  rw [Publish.decode] at hq'
  obtain ⟨-, -, hq'⟩ := bind_eq_ok.mp hq'
  obtain ⟨header, -, hq'⟩ := bind_eq_ok.mp hq'
  dsimp only at hq'
  rw [hb, ok_bind] at hq'
  dsimp only at hq'
  rw [hread, ok_bind] at hq'
  dsimp only at hq'
  obtain ⟨⟨packetId, cursor'⟩, -, hq'⟩ := bind_eq_ok.mp hq'
  obtain ⟨⟨properties, cursor''⟩, -, hq'⟩ := bind_eq_ok.mp hq'
  obtain ⟨payload, -, hq'⟩ := bind_eq_ok.mp hq'
  cases hq'
  exact htopic

/-- A SUBSCRIBE of one topic is decoded to it. -/
theorem topicsValidIn_subscribe {packetId : UInt16} {topic : String} {qos : QoS}
    (htopic : ValidFilter topic) (he : (EventLoop.subscribePacket packetId topic qos).Encodable)
    (hlen : ((EventLoop.subscribePacket packetId topic qos).content version).length < 128 ^ 4) :
    TopicsValidIn version ((EventLoop.subscribePacket packetId topic qos).wire version) := by
  obtain ⟨p, hp, hempty, htopics⟩ := subscribePacket_eq packetId topic qos
  rw [hp] at he hlen ⊢
  have hround : decode ((MqttPacket.subscribe p).wire version ++ []) version =
      .ok (some (.subscribe p)) := by
    refine decode_wire_append ⟨?_, fun _ => rfl, by simp, by omega⟩ he []
    simp [MqttPacket.propertyLists, hempty, RepresentableProperties]
  intro q hq
  rw [List.append_nil, hq] at hround
  cases hround
  intro entry hentry
  rw [htopics, List.mem_singleton] at hentry
  rw [hentry]
  exact htopic

end

namespace Tokio
open Conn EventLoop

/-- What may be written: frames with valid topics, or what begins no frame. -/
abbrev Settled (version : MqttVersion) (bytes : List UInt8) : Prop :=
  framing.Settled (TopicsValidIn version) bytes

/-- All frames in what has been written have valid topics. -/
def Socket.TopicsValid {E : Type} (version : MqttVersion) (self : Socket E) : Prop :=
  ∀ bytes ∈ self.written, ∀ frame ∈ (framing.split bytes).1, TopicsValidIn version frame

theorem Socket.not_topicsValid {E : Type} {version : MqttVersion} {self : Socket E}
    {frame : List UInt8} (h : frame ∈ self.written) (hframe : framing.IsFrame frame)
    (hinvalid : ¬ TopicsValidIn version frame) : ¬ self.TopicsValid version := by
  intro hvalid
  exact hinvalid (hvalid frame h frame (by simp [Framing.split_of_isFrame hframe]))

theorem settled_nil (version : MqttVersion) : Settled version [] := Framing.settled_nil

theorem extends_of {p : MqttPacket} (h : ∀ version, p.Encodable →
    (p.content version).length < 128 ^ 4 → TopicsValidIn version (p.wire version)) :
    Extends Settled p :=
  fun version _ _ _ _ hbytes hencode => hbytes.append (settled_encode hencode (h version))

theorem extends_of_type {p : MqttPacket} (hpublish : p.packetType ≠ 3)
    (hsubscribe : p.packetType ≠ 8) : Extends Settled p :=
  extends_of fun _ _ _ => topicsValidIn_of_type hpublish hsubscribe

theorem extends_publishPacket {message : PublishMessage} (h : ValidTopic message.topic)
    (packetId : Option UInt16) (dup : Bool) : Extends Settled (publishPacket message packetId dup) :=
  extends_of fun _ => topicsValidIn_publish h

theorem extends_subscribePacket {topic : String} (h : ValidFilter topic) (packetId : UInt16)
    (qos : QoS) : Extends Settled (subscribePacket packetId topic qos) :=
  extends_of fun _ => topicsValidIn_subscribe h

theorem extends_unsubscribePacket (packetId : UInt16) (topic : String) :
    Extends Settled (unsubscribePacket packetId topic) :=
  extends_of_type (by decide : (10 : UInt8) ≠ 3) (by decide : (10 : UInt8) ≠ 8)

/-! ## Operations -/

section
variable {E R S W : Type} {maxPacketSize : ℕ}

/-- All topics in the tables are valid. -/
def EventLoop.TopicsValid (self : EventLoop E R S W maxPacketSize) : Prop :=
  (∀ topic ∈ self.activeSubscriptions.keys, ValidFilter topic) ∧
    (∀ e ∈ self.inflightPublishes, ValidTopic e.2.1.topic) ∧
    ∀ message ∈ self.offlineQueue, ValidTopic message.topic

/-- All topics that a handle has passed are valid. A datagram is not written to the stream, and its
topic does not matter. -/
def ClientRequest.TopicsValid : ClientRequest R S → Prop
  | .publish message _ => ValidTopic message.topic
  | .publishBatch messages _ => ∀ message ∈ messages, ValidTopic message.topic
  | .subscribe topic _ _ _ | .unsubscribe topic _ => ValidFilter topic
  | .publishDatagram _ _ _ | .disconnect _ => True

instance : (request : ClientRequest R S) → Decidable request.TopicsValid
  | .publish message _ => inferInstanceAs (Decidable (ValidTopic message.topic))
  | .publishBatch messages _ =>
    inferInstanceAs (Decidable (∀ message ∈ messages, ValidTopic message.topic))
  | .subscribe topic _ _ _ | .unsubscribe topic _ => inferInstanceAs (Decidable (ValidFilter topic))
  | .publishDatagram _ _ _ | .disconnect _ => .isTrue trivial

/-- All topics in the tables and all that have been written are valid. -/
def TopicsKept (version : MqttVersion) (s : Conn E R S W maxPacketSize) : Prop :=
  (s.options.version = version ∧ s.toEventLoop.TopicsValid) ∧ s.socket.TopicsValid version

variable {version : MqttVersion}

theorem topicsKept_of_transmits {s s' : Conn E R S W maxPacketSize} (hs : TopicsKept version s)
    (h : Transmits Settled s s') : TopicsKept version s' := by
  obtain ⟨⟨hversion, htables⟩, hwritten⟩ := hs
  obtain ⟨new, hnew, hsettled⟩ := h.written
  refine ⟨?_, ?_⟩
  · rw [h.loop]
    exact ⟨hversion, htables⟩
  · intro bytes hbytes
    rw [hnew] at hbytes
    rcases List.mem_append.mp hbytes with hold | hnew
    · exact hwritten bytes hold
    · obtain ⟨whole, hwhole, hprefix⟩ := hsettled bytes hnew
      rw [hversion] at hwhole
      exact hwhole.frames_prefix hprefix

/-- Programs that only use the transport. -/
theorem topicsKept_transmits {α : Type} {x : ConnM E R S W maxPacketSize α}
    (h : ∀ s₀, Preserves (Transmits Settled s₀) x) : Preserves (TopicsKept version) x :=
  preserves_of_transmits (fun _ _ => topicsKept_of_transmits) h

theorem topicsKept_tracked {s : Conn E R S W maxPacketSize} (hs : TopicsKept version s)
    {message : PublishMessage} (h : ValidTopic message.topic) (ackSender : Option R) :
    TopicsKept version (tracked s message ackSender) := by
  rw [tracked]
  split
  · obtain ⟨⟨hversion, hfilters, hinflight, hqueue⟩, hwritten⟩ := hs
    refine ⟨⟨hversion, hfilters, ?_, hqueue⟩, hwritten⟩
    intro e he
    rcases Assoc.mem_set.mp he with rfl | ⟨he, -⟩
    · exact h
    · exact hinflight e he
  · exact hs

theorem topicsKept_published {s : Conn E R S W maxPacketSize} (hs : TopicsKept version s)
    {message : PublishMessage} (h : ValidTopic message.topic) (ackSender : Option R) :
    TopicsKept version (published s message ackSender) := by
  rw [published]
  split
  · exact topicsKept_tracked hs h ackSender
  · exact hs

theorem topicsKept_subscribed {s : Conn E R S W maxPacketSize} (hs : TopicsKept version s)
    {topic : String} (h : ValidFilter topic) (qos : QoS) (streamSender : Option S) :
    TopicsKept version (subscribed s topic qos streamSender) := by
  obtain ⟨⟨hversion, hfilters, hrest⟩, hwritten⟩ := hs
  refine ⟨⟨hversion, ?_, hrest⟩, hwritten⟩
  intro key hkey
  rcases Assoc.mem_keys_set.mp hkey with rfl | hkey
  · exact h
  · exact hfilters key hkey

theorem topicsKept_unsubscribed {s : Conn E R S W maxPacketSize} (hs : TopicsKept version s)
    (topic : String) : TopicsKept version (unsubscribed s topic) := by
  obtain ⟨⟨hversion, hfilters, hrest⟩, hwritten⟩ := hs
  exact ⟨⟨hversion, fun key hkey => hfilters key (Assoc.mem_keys_erase.mp hkey).2, hrest⟩, hwritten⟩

theorem topicsKept_completedPublish {s : Conn E R S W maxPacketSize} (hs : TopicsKept version s)
    (packetId : UInt16) : TopicsKept version (completedPublish s packetId) := by
  obtain ⟨⟨hversion, hfilters, hinflight, hqueue⟩, hwritten⟩ := hs
  exact ⟨⟨hversion, hfilters, fun e he => hinflight e (Assoc.mem_erase.mp he).1, hqueue⟩, hwritten⟩

theorem topicsKept_sendPublishDirect {message : PublishMessage} (h : ValidTopic message.topic)
    (ackSender : Option R) (now : ℕ) :
    Preserves (TopicsKept version)
      (sendPublishDirect message ackSender now : ConnM E R S W maxPacketSize Unit) :=
  preserves_sendPublishDirect_of_transmits settled_nil (fun _ _ => topicsKept_of_transmits)
    (fun id => extends_publishPacket h id _) (fun _ hs => topicsKept_published hs h ackSender) now

theorem topicsKept_sendDisconnect :
    Preserves (TopicsKept version) (sendDisconnect : ConnM E R S W maxPacketSize Unit) :=
  preserves_sendDisconnect_of_transmits settled_nil (fun _ _ => topicsKept_of_transmits)
    (extends_of_type (by decide) (by decide)) fun _ _ hs => hs

theorem topicsKept_handleClientRequest {request : ClientRequest R S} (h : request.TopicsValid)
    (now : ℕ) :
    Preserves (TopicsKept version)
      (handleClientRequest request now : ConnM E R S W maxPacketSize Unit) := by
  cases request with
  | publish message ackSender => exact topicsKept_sendPublishDirect h ackSender now
  | publishBatch messages ackSender =>
    apply Preserves.bind (preserves_sendPublishBatchDirect settled_nil
      (fun _ _ => topicsKept_of_transmits)
      (fun message hmessage id => extends_publishPacket (h message hmessage) id _)
      (fun message hmessage _ hs => topicsKept_tracked hs (h message hmessage) none) now)
    intro count
    exact preserves_sendSome fun _ hs => hs
  | publishDatagram topic payload ackSender =>
    apply Preserves.bind (topicsKept_transmits fun _ => transmits_encodeTx 0 _)
    intro r
    apply Preserves.bind (preserves_lift _ _ _)
    intro len
    apply Preserves.bind (topicsKept_transmits fun _ => transmits_sendDatagram len)
    intro result
    exact preserves_sendSome fun _ hs => hs
  | subscribe topic qos respSender streamSender =>
    exact fun s hs => ends_subscribe (topicsKept_subscribed hs h qos streamSender)
      (topicsKept_transmits fun _ =>
        transmits_sendPacket settled_nil (extends_subscribePacket h _ qos) now)
      (fun _ _ hs => hs) respSender
  | unsubscribe topic respSender =>
    exact fun s hs => ends_unsubscribe (topicsKept_unsubscribed hs topic)
      (topicsKept_transmits fun _ =>
        transmits_sendPacket settled_nil (extends_unsubscribePacket _ topic) now)
      (fun _ _ hs => hs) respSender
  | disconnect respSender =>
    apply Preserves.bind topicsKept_sendDisconnect
    intro _
    exact Preserves.bind (Preserves.modify fun _ hs => hs) fun _ => Preserves.throw _

/-- Nothing but the handle stops an invalid filter: the topic of a subscription gets into the table,
however the request ends. -/
theorem keeps_subscribe (topic : String) (qos : QoS) (respSender : R) (streamSender : Option S)
    (now : ℕ) (s : Conn E R S W maxPacketSize) :
    Ends (handleClientRequest (.subscribe topic qos respSender streamSender) now) s
      (fun _ t => topic ∈ t.activeSubscriptions.keys)
      fun _ t => topic ∈ t.activeSubscriptions.keys := by
  apply ends_subscribe (I := fun t => topic ∈ t.activeSubscriptions.keys)
  · exact Assoc.mem_keys_set.mpr (.inl rfl)
  · apply preserves_of_sends (P := fun _ => True) _ fun _ => sends_sendPacket trivial now
    intro t t' ht h
    rwa [(congrArg EventLoop.activeSubscriptions h.loop).trans rfl]
  · exact fun _ _ ht => ht

theorem topicsKept_performSessionDataRecovery (order : HashOrder) (now : ℕ) :
    Preserves (TopicsKept version)
      (performSessionDataRecovery order now : ConnM E R S W maxPacketSize Unit) := by
  apply preserves_performSessionDataRecovery
  · exact fun s hs _ e he => topicsKept_transmits fun _ =>
      transmits_tryWritePacket settled_nil (extends_publishPacket (hs.1.2.2.1 e he) _ true)
  · exact topicsKept_transmits fun _ => transmits_flush
  · intro s hs e he
    have hfilter : ValidFilter e.1 := hs.1.2.1 e.1 (List.mem_map_of_mem he)
    have hnext : Preserves (TopicsKept version)
        (getNextPacketId : ConnM E R S W maxPacketSize UInt16) := fun _ hs => hs
    apply Preserves.bind hnext
    intro pid
    exact topicsKept_transmits fun _ =>
      transmits_tryWritePacket settled_nil (extends_subscribePacket hfilter pid e.2)
  · intro s hs
    have hvalid : ∀ message ∈ s.offlineQueue, ValidTopic message.topic := hs.1.2.2.2
    apply preserves_flushOfflineQueue
    · rintro t queue hqueue ⟨⟨hversion, hfilters, hinflight, -⟩, hwritten⟩
      exact ⟨⟨hversion, hfilters, hinflight, fun message h => hvalid message (hqueue h)⟩, hwritten⟩
    · exact fun message h => topicsKept_sendPublishDirect (hvalid message h) none now

/-- Requests, and the end of the channel. -/
theorem topicsKept_driveRequest {request : Option (ClientRequest R S)}
    (h : ∀ r ∈ request, r.TopicsValid) (now : ℕ) :
    Preserves (TopicsKept version)
      (driveRequest request now : ConnM E R S W maxPacketSize Bool) := by
  rcases request with _ | request
  · exact Preserves.bind (preserves_ignore topicsKept_sendDisconnect) fun _ => Preserves.pure _
  · exact Preserves.bind (topicsKept_handleClientRequest (h request rfl) now) fun _ =>
      Preserves.pure _

/-- An attempt to connect: the tables, the transport that it drops, and the one that it leaves. -/
theorem topicsKept_connectAttempt {self loop : EventLoop E R S W maxPacketSize} {order : HashOrder}
    {dial : Except (ClientError E) (Socket E)} {now : ℕ} {attempt : Attempt E}
    {dropped : Option (Socket E)} (hnone : self.transport = none)
    (hself : self.options.version = version ∧ self.TopicsValid)
    (h : self.connectAttempt order (dial.map Socket.opened) now = some (attempt, loop, dropped)) :
    (loop.options.version = version ∧ loop.TopicsValid) ∧
      (∀ socket ∈ dropped, socket.TopicsValid version) ∧
      ∀ socket ∈ loop.transport, socket.TopicsValid version := by
  have hhandshake : Preserves (TopicsKept version)
      (performConnectHandshake : ConnM E R S W maxPacketSize Unit) :=
    topicsKept_transmits fun _ => transmits_performConnectHandshake settled_nil fun _ =>
      extends_of_type (by decide : (1 : UInt8) ≠ 3) (by decide : (1 : UInt8) ≠ 8)
  have hstart (socket : Socket E) (hsocket : dial.map Socket.opened = .ok socket) :
      TopicsKept version { self.startAttempt with socket } := by
    refine ⟨hself, ?_⟩
    rcases dial with e | opened
    · cases hsocket
    · cases hsocket
      simp [Socket.TopicsValid, Socket.opened]
  rcases connectAttempt_cases hstart hhandshake (fun _ hs => hs)
    (topicsKept_performSessionDataRecovery order now) h with
    ⟨rfl, rfl⟩ | ⟨s, hs, ⟨rfl, htransport, rfl⟩ | ⟨rfl, rfl⟩⟩
  · have hnone' : self.startAttempt.transport = none := hnone
    exact ⟨hself, by simp, by simp [hnone']⟩
  · exact ⟨hs.1, by simpa using hs.2, by simp [htransport, hnone]⟩
  · exact ⟨hs.1, by simp, by simpa using hs.2⟩

/-! ## Runs -/

variable [DecidableEq S] {ch : Mpsc W S PublishMessage} {order : HashOrder}

namespace LoopSystem
variable {s t : LoopSystem E R S W maxPacketSize} {event : Event E R S W}

/-- All topics in the tables and all that have been written on any connection are valid. -/
def TopicsValid (version : MqttVersion) (self : LoopSystem E R S W maxPacketSize) : Prop :=
  (self.loop.options.version = version ∧ self.loop.TopicsValid) ∧
    ∀ socket ∈ self.connections, socket.TopicsValid version

theorem topicsValid_step (hs : s.TopicsValid version)
    (hevent : ∀ request now, event = .request (some request) now → request.TopicsValid)
    (h : s.step ch order event = some t) : t.TopicsValid version := by
  apply connections_step
    (L := fun loop => loop.options.version = version ∧ loop.TopicsValid) h hs.1 hs.2
  · exact fun _ _ _ _ hloop => hloop
  · exact fun _ _ hsocket => hsocket
  · exact fun dial now _ hnone attempt loop dropped hattempt =>
      topicsKept_connectAttempt hnone hs.1 hattempt
  · exact fun rxCursor => topicsKept_transmits fun _ => transmits_receiveFrames rxCursor
  · exact fun now _ received => preserves_handle_of_transmits ch now settled_nil
      (fun _ _ => topicsKept_of_transmits)
      (fun _ => extends_of_type (by decide : (4 : UInt8) ≠ 3) (by decide : (4 : UInt8) ≠ 8))
      (fun _ _ _ hs => hs) (fun _ packetId hs => topicsKept_completedPublish hs packetId)
      (fun _ _ hs => hs) (fun _ _ hs => hs) received
  · intro request now hrequest
    apply topicsKept_driveRequest
    rintro r rfl
    exact hevent r now hrequest
  · exact fun now _ => topicsKept_transmits fun _ =>
      transmits_driveTick settled_nil (extends_of_type (by decide) (by decide)) now

end LoopSystem

/-- A handle only passes valid topics. -/
def ClientAction.TopicsValid : ClientAction E R S W → Prop
  | .send request => request.TopicsValid
  | _ => True

instance : (action : ClientAction E R S W) → Decidable action.TopicsValid
  | .send request => inferInstanceAs (Decidable request.TopicsValid)
  | .drop | .take _ | .event _ => .isTrue trivial

namespace ClientSystem
variable {s t : ClientSystem E R S W maxPacketSize} {action : ClientAction E R S W}

theorem topicsValid_step (hs : s.system.TopicsValid version)
    (hrequests : ∀ request ∈ s.requests, request.TopicsValid) (haction : action.TopicsValid)
    (h : s.step ch order action = some t) :
    t.system.TopicsValid version ∧ ∀ request ∈ t.requests, request.TopicsValid := by
  cases action with
  | send request =>
    obtain ⟨⟨result, u⟩, hsend, rfl⟩ := Option.map_eq_some_iff.mp h
    obtain ⟨hsystem, ⟨-, -, hsame⟩ | ⟨-, -, hmore⟩⟩ := send_eq_some hsend
    · exact ⟨by rwa [hsystem], by rwa [hsame]⟩
    · refine ⟨by rwa [hsystem], ?_⟩
      rw [hmore]
      simpa [or_imp, forall_and] using ⟨hrequests, haction⟩
  | drop =>
    cases h
    exact ⟨hs, hrequests⟩
  | take now =>
    rcases step_take h with ⟨-, hnone, hsystem⟩ | ⟨request, hsome, hsystem⟩
    · exact ⟨LoopSystem.topicsValid_step hs (by simp) hsystem, by simp [hnone]⟩
    · rw [hsome] at hrequests
      obtain ⟨hrequest, hlater⟩ := List.forall_mem_cons.mp hrequests
      refine ⟨LoopSystem.topicsValid_step hs ?_ hsystem, hlater⟩
      rintro _ _ ⟨⟩
      exact hrequest
  | event event =>
    obtain ⟨hsystem, hsame, hother⟩ := step_event h
    refine ⟨LoopSystem.topicsValid_step hs ?_ hsystem, by rwa [hsame]⟩
    exact fun request now heq => absurd heq (hother (some request) now)

/-- **As long as all handles only pass valid topics, every key of the active subscriptions is a
valid filter, and every PUBLISH and SUBSCRIBE that is written on any connection has valid
topics.** -/
theorem topicsValid_of_reaches {options : ClientOptions} {channelCapacity : ℕ} {channels : W}
    {now : ℕ} (h : Machine.Reaches (step ch order) (fun _ action => action.TopicsValid)
      (start options channelCapacity channels now) t) :
    (∀ topic ∈ t.system.loop.activeSubscriptions.keys, ValidFilter topic) ∧
      ∀ socket ∈ t.system.connections, socket.TopicsValid options.version := by
  have hstart : (LoopSystem.start options channels now :
      LoopSystem E R S W maxPacketSize).TopicsValid options.version := by
    simp [LoopSystem.TopicsValid, EventLoop.TopicsValid, LoopSystem.connections, LoopSystem.start,
      EventLoop.new, Assoc.keys]
  have hrun : t.system.TopicsValid options.version ∧
      ∀ request ∈ t.requests, request.TopicsValid := by
    apply Machine.Reaches.invariant (I := fun t : ClientSystem E R S W maxPacketSize =>
      t.system.TopicsValid options.version ∧ ∀ request ∈ t.requests, request.TopicsValid) h
    · exact ⟨hstart, by simp [start]⟩
    · exact fun u v action hu haction hstep => topicsValid_step hu.1 hu.2 haction hstep
  exact ⟨hrun.1.1.2.1, hrun.1.2⟩

/-! ## A filter and a topic -/

/-- A new client. -/
def fresh : ClientSystem Unit ℕ ℕ (ℕ → Queue PublishMessage) 64 :=
  start (.new "c" fun _ => 0) 1024 (fun _ => ⟨false, [], 128⟩) 0

/-- It connects, and a handle passes a request. -/
def passing (request : ClientRequest ℕ ℕ) : List (ClientAction Unit ℕ ℕ (ℕ → Queue PublishMessage)) :=
  [.event (.attempt (.ok LoopSystem.accepting) 0), .event .enter, .send request, .take 0]

/-- The tables keep a valid filter. -/
theorem topicsValid_sample : ∃ t : ClientSystem Unit ℕ ℕ (ℕ → Queue PublishMessage) 64,
    t.system.loop.activeSubscriptions.keys = ["a/#"] ∧
      (∀ topic ∈ t.system.loop.activeSubscriptions.keys, ValidFilter topic) ∧
      ∀ socket ∈ t.system.connections, socket.TopicsValid .v3_1_1 := by
  have heval : (Machine.replay (step (.queues ℕ PublishMessage) LoopSystem.listed)
      (fun _ action => action.TopicsValid) fresh
      (passing (.subscribe "a/#" .atMostOnce 0 none))).map
        (fun s => s.system.loop.activeSubscriptions.keys) = some ["a/#"] := by
    decide +kernel
  obtain ⟨t, hrun, ht⟩ := Option.map_eq_some_iff.mp heval
  have hvalid := topicsValid_of_reaches (Machine.reaches_of_replay hrun)
  exact ⟨t, ht, hvalid⟩

/-- The keys of the active subscriptions, and whether all connections have carried an invalid
topic. -/
def unchecked (s : ClientSystem Unit ℕ ℕ (ℕ → Queue PublishMessage) 64) : List String × ℕ × Bool :=
  (s.system.loop.activeSubscriptions.keys, s.system.connections.length,
    s.system.connections.all fun socket => socket.written.any fun bytes =>
      framing.IsFrame bytes ∧ ¬ TopicsValidIn .v3_1_1 bytes)

theorem unchecked_spec {t : ClientSystem Unit ℕ ℕ (ℕ → Queue PublishMessage) 64}
    {keys : List String} {count : ℕ} (h : unchecked t = (keys, count, true)) :
    t.system.loop.activeSubscriptions.keys = keys ∧ t.system.connections.length = count ∧
      ∀ socket ∈ t.system.connections, ¬ socket.TopicsValid .v3_1_1 := by
  simp only [unchecked, Prod.mk.injEq, List.all_eq_true, List.any_eq_true, decide_eq_true_eq] at h
  refine ⟨h.1, h.2.1, ?_⟩
  intro socket hsocket
  obtain ⟨frame, hwritten, hframe, hinvalid⟩ := h.2.2 socket hsocket
  exact Socket.not_topicsValid hwritten hframe hinvalid

/-- A subscription to `a#` is kept, and written again on a second connection. A message for `a/+` is
written too. -/
theorem topics_unchecked : ¬ ValidFilter "a#" ∧ ¬ ValidTopic "a/+" ∧
    (∃ t, Machine.Reaches (step (.queues ℕ PublishMessage) LoopSystem.listed) (fun _ _ => True)
        fresh t ∧
      t.system.loop.activeSubscriptions.keys = ["a#"] ∧ t.system.connections.length = 2 ∧
        ∀ socket ∈ t.system.connections, ¬ socket.TopicsValid .v3_1_1) ∧
    ∃ t, Machine.Reaches (step (.queues ℕ PublishMessage) LoopSystem.listed) (fun _ _ => True)
        fresh t ∧
      t.system.loop.activeSubscriptions.keys = [] ∧ t.system.connections.length = 1 ∧
        ∀ socket ∈ t.system.connections, ¬ socket.TopicsValid .v3_1_1 := by
  have hfilter : (Machine.replay (step (.queues ℕ PublishMessage) LoopSystem.listed)
      (fun _ _ => True) fresh (passing (.subscribe "a#" .atMostOnce 0 none) ++
        [.event (.arrive (.ok [])), .event .read,
          .event (.attempt (.ok LoopSystem.accepting) 0)])).map unchecked =
      some (["a#"], 2, true) := by
    decide +kernel
  have htopic : (Machine.replay (step (.queues ℕ PublishMessage) LoopSystem.listed)
      (fun _ _ => True) fresh
      (passing (.publish (message "a/+" .atMostOnce false [1]) none))).map unchecked =
      some ([], 1, true) := by
    decide +kernel
  obtain ⟨t, hrun, ht⟩ := Option.map_eq_some_iff.mp hfilter
  obtain ⟨t', hrun', ht'⟩ := Option.map_eq_some_iff.mp htopic
  exact ⟨by decide, by decide, ⟨t, Machine.reaches_of_replay hrun, unchecked_spec ht⟩, t',
    Machine.reaches_of_replay hrun', unchecked_spec ht'⟩

end ClientSystem

end

end Tokio

end MqttEngine
