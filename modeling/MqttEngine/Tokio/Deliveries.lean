import MqttEngine.Tokio.Operations
import MqttEngine.Tokio.Registry
import MqttEngine.Tokio.System

/-!
# Acknowledged publishes and the streams

A PUBLISH of QoS 1 is acknowledged before it is routed, and the router sends without waiting: a
message for a stream whose channel is full is lost, although it has been acknowledged. It is
lost also if the flush behind the PUBACK fails. `delivered_iff` says that these are the only ways.

`RegisteredRun` keeps the registry of filters and streams that the requests of a run ask for.
The router may forget a stream only after its channel has been closed, and a closed channel
stays closed, so it knows all open streams of the registry.

## Main definitions

* `Registry.after`, `LoopSystem.RegisteredRun` — the registry of a run.
* `LoopSystem.Routed` — the router knows the open streams of the registry.

## Main results

* `routed_of_registeredRun` — the router of every run.
* `delivered_iff` — when an acknowledged message reaches the streams.
* `loses_message` — a run with a full channel.
-/

namespace MqttEngine.Tokio
open Checked Conn EventLoop

section
variable {E R S W : Type} {maxPacketSize : ℕ} {c : Conn E R S W maxPacketSize}

/-! ## Acknowledging a publish -/

/-- The message of a PUBLISH. -/
def publishedMessage (p : Publish) : PublishMessage :=
  { topic := p.topic, payload := p.payload, qos := p.qos, retain := p.retain, dup := p.dup
    packetId := p.packetId, userProperties := [] }

/-- The PUBACK for a packet id. -/
def pubAckPacket (packetId : UInt16) : MqttPacket := .pubAck (Ack.new packetId)

/-- The next write takes so many bytes, also if it fails. -/
def Socket.Takes (self : Socket E) (n : ℕ) : Prop :=
  ∀ r ∈ self.writeResults.head?, ∀ e ∈ r, n ≤ e.1

theorem Socket.WriteOk.takes {self : Socket E} (h : self.WriteOk) (n : ℕ) : self.Takes n := by
  intro r hr e he
  rw [h r hr] at he
  cases he

theorem flush_of_not_ok {s : Conn E R S W maxPacketSize} (h : ¬ s.socket.FlushOk) :
    ∃ e t, flush s = .error (.err e) (s.withSocket t) ∧ t.written = s.socket.written := by
  rw [flush]
  rcases hresults : s.socket.flushResults with _ | ⟨_ | e, later⟩
  · exact absurd (by simp [Socket.FlushOk, hresults]) h
  · exact absurd (by simp [Socket.FlushOk, hresults]) h
  · exact ⟨_, _, rfl, rfl⟩

theorem writeAll_of_not_ok {s : Conn E R S W maxPacketSize} (h : ¬ s.socket.WriteOk)
    (bytes : List UInt8) :
    ∃ n e t, writeAll bytes s = .error (.err e) (s.withSocket t) ∧
      t.written = s.socket.written ++ [bytes.take n] ∧ ∀ m, s.socket.Takes m ↔ m ≤ n := by
  rw [writeAll]
  rcases hresults : s.socket.writeResults with _ | ⟨_ | ⟨n, e⟩, later⟩
  · exact absurd (by simp [Socket.WriteOk, hresults]) h
  · exact absurd (by simp [Socket.WriteOk, hresults]) h
  · exact ⟨n, _, _, rfl, rfl, fun m => by simp [Socket.Takes, hresults]⟩

/-- A PUBACK that fits is sent. -/
theorem acknowledge_fits {packetId : UInt16}
    (h : (pubAckPacket packetId).Fits c.options.version maxPacketSize) (now : ℕ) :
    acknowledge packetId now c = sendPacket (pubAckPacket packetId) now c := by
  have hshort : (pubAckPacket packetId).Short := short_of_isAck ⟨packetId, .inl rfl⟩
  obtain ⟨tx, hencode, -⟩ := encodeTx_fits (Nat.zero_le _) h (hshort.measured _ _)
  rw [acknowledge, sendPacket]
  refine (run_bind hencode).trans (.symm ?_)
  rw [run_bind hencode]
  rfl

/-- A PUBACK that does not fit is left out. -/
theorem acknowledge_unfit {packetId : UInt16}
    (h : ¬ (pubAckPacket packetId).Fits c.options.version maxPacketSize) (now : ℕ) :
    ∃ tx, acknowledge packetId now c = .ok () (c.withTx tx) := by
  obtain ⟨tx, e, hencode, -⟩ := encodeTx_unfit (Nat.zero_le _) (by simp [pubAckPacket]) h
  exact ⟨tx, run_bind hencode⟩

/-- Where the transport fails, the PUBACK has been written if the write has taken all of it. -/
theorem acknowledge_failed {packetId : UInt16}
    (h : (pubAckPacket packetId).Fits c.options.version maxPacketSize)
    (hfail : ¬ (c.socket.WriteOk ∧ c.socket.FlushOk)) (now : ℕ) :
    ∃ e c', acknowledge packetId now c = .error (.err e) c' ∧ c'.channels = c.channels ∧
      (c'.socket.written = c.socket.written ++ [(pubAckPacket packetId).wire c.options.version] ↔
        c.socket.Takes ((pubAckPacket packetId).wire c.options.version).length) := by
  have hshort : (pubAckPacket packetId).Short := short_of_isAck ⟨packetId, .inl rfl⟩
  obtain ⟨tx, hsend⟩ := sendPacket_of_fits h (hshort.measured _ _) now
  rw [acknowledge_fits h, hsend]
  generalize (pubAckPacket packetId).wire c.options.version = bytes
  by_cases hwrite : c.socket.WriteOk
  · have hflush : ¬ c.socket.FlushOk := fun hflush => hfail ⟨hwrite, hflush⟩
    let t : Conn E R S W maxPacketSize := (c.withTx tx).withSocket (c.socket.wrote bytes)
    obtain ⟨e, socket, hend, hwritten⟩ := flush_of_not_ok (s := t) hflush
    rw [run_bind (writeAll_of_ok (s := c.withTx tx) hwrite bytes)]
    refine ⟨e, t.withSocket socket, run_bind_error hend, rfl, ?_⟩
    exact iff_of_true hwritten (hwrite.takes _)
  · obtain ⟨n, e, socket, hend, hwritten, htakes⟩ :=
      writeAll_of_not_ok (s := c.withTx tx) hwrite bytes
    refine ⟨e, (c.withTx tx).withSocket socket, run_bind_error hend, rfl, ?_⟩
    have hsame : (c.withTx tx).socket = c.socket := rfl
    rw [socket_withSocket, hwritten, hsame, List.append_right_inj, ← hsame, htakes]
    simp

/-! ## The router and the registry -/

section
variable [DecidableEq S] (ch : Mpsc W S PublishMessage)

/-- The pairs whose channel is open. -/
def Registry.opened (self : Registry S) (w : W) : Registry S :=
  self.filter fun pair => !ch.isClosed w pair.2

/-- The router knows the open streams of the registry. -/
def EventLoop.Routed (self : EventLoop E R S W maxPacketSize) (registry : Registry S) : Prop :=
  ∃ kept, Represents self.router.root kept ∧
    kept.opened ch self.channels = registry.opened ch self.channels

variable {ch} {s s' : EventLoop E R S W maxPacketSize} {registry : Registry S} {w : W} {sender : S}

theorem copies_opened (hopen : ch.isClosed w sender = false) (topic : String) :
    (registry.opened ch w).copies topic sender = registry.copies topic sender := by
  simp only [Registry.copies, Registry.matched, Registry.opened, List.countP_filter]
  apply List.countP_congr
  intro pair _
  by_cases hpair : pair.2 = sender
  · simp [hpair, hopen]
  · simp [hpair]

theorem routed_congr (h : s.Routed ch registry) (hrouter : s'.router = s.router)
    (hchannels : s'.channels = s.channels) : s'.Routed ch registry := by
  rwa [EventLoop.Routed, hrouter, hchannels]

theorem routed_insert (h : s.Routed ch registry) {filter : String}
    (hvalid : (validateTopicFilter filter : Except (ClientError E) Unit) = .ok ()) (streamTx : S) :
    ∃ router, (s.router.insert filter streamTx : Except (ClientError E) _) = .ok router ∧
      { s with router }.Routed ch (registry.apply (.insert filter streamTx)) := by
  obtain ⟨kept, hkept, hopened⟩ := h
  obtain ⟨router, hinsert, hrepresents⟩ := represents_apply hkept (.insert filter streamTx) hvalid
  refine ⟨router, hinsert, _, hrepresents, ?_⟩
  simp only [Registry.apply, Registry.opened, List.filter_append] at hopened ⊢
  rw [hopened]

theorem routed_remove (h : s.Routed ch registry) {filter : String}
    (hvalid : (validateTopicFilter filter : Except (ClientError E) Unit) = .ok ()) :
    ∃ router, (s.router.remove filter : Except (ClientError E) _) = .ok router ∧
      { s with router }.Routed ch (registry.apply (.remove filter)) := by
  obtain ⟨kept, hkept, hopened⟩ := h
  obtain ⟨router, hremove, hrepresents⟩ := represents_apply hkept (.remove filter) hvalid
  refine ⟨router, hremove, _, hrepresents, ?_⟩
  simp only [Registry.apply, Registry.opened, List.filter_filter, Bool.and_comm] at hopened ⊢
  rw [← List.filter_filter, ← List.filter_filter, hopened]

/-- Routing a message keeps the open streams. -/
theorem routed_dispatch (h : s.Routed ch registry) (message : PublishMessage) :
    { s with
      router := (s.router.dispatch ch message s.channels).1
      channels := (s.router.dispatch ch message s.channels).2 }.Routed ch registry := by
  obtain ⟨kept, hkept, hopened⟩ := h
  obtain ⟨⟨senders, hworld, -⟩, hrepresents⟩ := dispatch_spec ch message hkept s.channels
  refine ⟨_, hrepresents, ?_⟩
  have hclosed : ch.isClosed (s.router.dispatch ch message s.channels).2 = ch.isClosed s.channels := by
    rw [hworld, ch.isClosed_deliver]
  simp only [Registry.opened, hclosed] at hopened ⊢
  rw [← hopened, List.filter_filter]
  apply List.filter_congr
  intro pair _
  cases ch.isClosed s.channels pair.2 <;> simp

/-- The streams take messages or close their channels. -/
theorem routed_channels (h : s.Routed ch registry)
    (hlaw : ∀ sender, ch.isClosed s.channels sender → ch.isClosed w sender) :
    { s with channels := w }.Routed ch registry := by
  obtain ⟨kept, hkept, hopened⟩ := h
  refine ⟨kept, hkept, ?_⟩
  have hthen (registry : Registry S) :
      (registry.opened ch s.channels).opened ch w = registry.opened ch w := by
    simp only [Registry.opened, List.filter_filter]
    apply List.filter_congr
    intro pair _
    have := hlaw pair.2
    cases hpair : ch.isClosed s.channels pair.2 <;> simp_all
  exact (hthen kept).symm.trans ((congrArg (Registry.opened ch · w) hopened).trans (hthen registry))

/-- An open stream gets a copy for each of its pairs that match, as far as it has places. -/
theorem accepted_dispatch (h : s.Routed ch registry) (message : PublishMessage)
    (hopen : ch.isClosed s.channels sender = false) :
    ch.accepted (s.router.dispatch ch message s.channels).2 sender =
      ch.accepted s.channels sender ++
        List.replicate (min (registry.copies message.topic sender) (ch.free s.channels sender))
          message := by
  obtain ⟨kept, hkept, hopened⟩ := h
  obtain ⟨⟨senders, hworld, hperm⟩, -⟩ := dispatch_spec ch message hkept s.channels
  have hcount : senders.count sender = registry.copies message.topic sender := by
    rw [← copies_opened hopen, ← hopened, copies_opened hopen, hperm.count_eq, TrieNode.opened,
      List.count_filter (by simp [hopen]), List.count, List.countP_map, Registry.copies]
    rfl
  rw [hworld, ch.accepted_deliver_of_open hopen, hcount]

end

/-! ## The registry of a run -/

/-- The registry after an event. -/
def Registry.after (self : Registry S) : Event E R S W → Registry S
  | .request (some (.subscribe topic _ _ (some streamTx))) _ =>
    match (validateTopicFilter topic : Except (ClientError E) Unit) with
    | .ok _ => self.apply (.insert topic streamTx)
    | .error _ => self
  | .request (some (.unsubscribe topic _)) _ =>
    match (validateTopicFilter topic : Except (ClientError E) Unit) with
    | .ok _ => self.apply (.remove topic)
    | .error _ => self
  | _ => self

namespace LoopSystem
variable [DecidableEq S] (ch : Mpsc W S PublishMessage) (order : HashOrder)

/-- A channel that has been closed stays closed. -/
def Lawful (self : LoopSystem E R S W maxPacketSize) (event : Event E R S W) : Prop :=
  ∀ w, event = .channels w → ∀ sender, ch.isClosed self.loop.channels sender → ch.isClosed w sender

/-- Runs with the filters and streams that are registered. -/
inductive RegisteredRun (s₀ : LoopSystem E R S W maxPacketSize) :
    Registry S → LoopSystem E R S W maxPacketSize → Prop
  | start : RegisteredRun s₀ [] s₀
  | step {registry : Registry S} {s t : LoopSystem E R S W maxPacketSize} {event : Event E R S W}
      (h : RegisteredRun s₀ registry s) (hlaw : s.Lawful ch event)
      (hstep : s.step ch order event = some t) : RegisteredRun s₀ (registry.after event) t

/-- A list of events that leaves the streams alone. -/
theorem registeredRun_of_run {events : List (Event E R S W)} (hevents : ∀ w, .channels w ∉ events)
    {s t : LoopSystem E R S W maxPacketSize}
    (h : run ch order (fun _ _ => True) events s = some t) :
    RegisteredRun ch order s (events.foldl Registry.after []) t := by
  have hfold (events : List (Event E R S W)) (hevents : ∀ w, .channels w ∉ events)
      (registry : Registry S) (u : LoopSystem E R S W maxPacketSize)
      (hu : RegisteredRun ch order s registry u)
      (h : run ch order (fun _ _ => True) events u = some t) :
      RegisteredRun ch order s (events.foldl Registry.after registry) t := by
    induction events generalizing registry u with
    | nil =>
      cases h
      exact hu
    | cons event events ih =>
      rw [run, List.foldlM_cons] at h
      obtain ⟨v, hstep, hrest⟩ := Option.bind_eq_some_iff.mp h
      have hlaw : u.Lawful ch event := by
        rintro w rfl
        exact absurd List.mem_cons_self (hevents w)
      exact ih (fun w hw => hevents w (List.mem_cons_of_mem _ hw)) _ v
        (hu.step hlaw (by simpa using hstep)) hrest
  exact hfold events hevents [] s .start h

end LoopSystem

section
variable [DecidableEq S] {ch : Mpsc W S PublishMessage} {order : HashOrder} {registry : Registry S}

theorem routed_of_sends {P : UInt8 → Prop} {s s' : Conn E R S W maxPacketSize}
    (h : s.toEventLoop.Routed ch registry) (hsends : Sends P s s') :
    s'.toEventLoop.Routed ch registry := by
  apply routed_congr h
  · rw [hsends.loop]
  · rw [hsends.loop]

theorem routed_publishing {request : ClientRequest R S} (h : request.IsPublish) (now : ℕ) :
    Preserves (fun s : Conn E R S W maxPacketSize => s.toEventLoop.Routed ch registry)
      (handleClientRequest request now) := by
  have htracked (s : Conn E R S W maxPacketSize) (message : PublishMessage) (ackSender : Option R)
      (hs : s.toEventLoop.Routed ch registry) :
      (tracked s message ackSender).toEventLoop.Routed ch registry := by
    rw [tracked]
    split
    · exact routed_congr hs rfl rfl
    · exact hs
  apply preserves_publishing (P := fun _ => True) (fun _ _ => routed_of_sends) (fun _ => trivial) _
    (fun s message hs => htracked s message none hs) _ h
  · intro s message ackSender hs
    rw [published]
    split
    · exact htracked s message ackSender hs
    · exact routed_congr hs rfl rfl
  · exact fun _ _ hs => routed_congr hs rfl rfl

/-- A subscription is registered before its SUBSCRIBE is sent. -/
theorem routed_subscribed {s : Conn E R S W maxPacketSize} (hs : s.toEventLoop.Routed ch registry)
    (topic : String) (qos : QoS) (respSender : R) (streamSender : Option S) (now : ℕ) :
    (subscribed s topic qos streamSender).toEventLoop.Routed ch (registry.after
      (.request (some (.subscribe topic qos respSender streamSender)) now : Event E R S W)) := by
  rcases streamSender with _ | streamTx
  · exact routed_congr hs rfl rfl
  have hafter : registry.after
      (.request (some (.subscribe topic qos respSender (some streamTx))) now : Event E R S W) =
        match (validateTopicFilter topic : Except (ClientError E) Unit) with
        | .ok _ => registry.apply (.insert topic streamTx)
        | .error _ => registry := rfl
  rw [hafter]
  rcases hvalid : (validateTopicFilter topic : Except (ClientError E) Unit) with e | u
  · have hinsert : (s.router.insert topic streamTx : Except (ClientError E) _) = .error e := by
      rw [TopicRouter.insert, hvalid]
      rfl
    apply routed_congr hs
    · simp [subscribed, hinsert, Except.toOption]
    · rfl
  · obtain ⟨router, hinsert, hrouted⟩ := routed_insert hs hvalid streamTx
    apply routed_congr hrouted
    · simp [subscribed, hinsert, Except.toOption]
    · rfl

/-- A filter is removed before its UNSUBSCRIBE is sent. -/
theorem routed_unsubscribed {s : Conn E R S W maxPacketSize} (hs : s.toEventLoop.Routed ch registry)
    (topic : String) (respSender : R) (now : ℕ) :
    (unsubscribed s topic).toEventLoop.Routed ch (registry.after
      (.request (some (.unsubscribe topic respSender)) now : Event E R S W)) := by
  have hafter : registry.after
      (.request (some (.unsubscribe topic respSender)) now : Event E R S W) =
        match (validateTopicFilter topic : Except (ClientError E) Unit) with
        | .ok _ => registry.apply (.remove topic)
        | .error _ => registry := rfl
  rw [hafter]
  rcases hvalid : (validateTopicFilter topic : Except (ClientError E) Unit) with e | u
  · have hremove : (s.router.remove topic : Except (ClientError E) _) = .error e := by
      rw [TopicRouter.remove, hvalid]
      rfl
    apply routed_congr hs
    · simp [unsubscribed, hremove, Except.toOption]
    · rfl
  · obtain ⟨router, hremove, hrouted⟩ := routed_remove hs hvalid
    apply routed_congr hrouted
    · simp [unsubscribed, hremove, Except.toOption]
    · rfl

/-- A request that is handled changes the router as it changes the registry. -/
theorem routed_handleClientRequest (request : ClientRequest R S) (now : ℕ)
    {s : Conn E R S W maxPacketSize} (hs : s.toEventLoop.Routed ch registry) :
    Ends (handleClientRequest request now) s
      (fun _ s' => s'.toEventLoop.Routed ch
        (registry.after (.request (some request) now : Event E R S W)))
      fun _ s' => s'.toEventLoop.Routed ch
        (registry.after (.request (some request) now : Event E R S W)) := by
  have hsend (registry : Registry S) (p : MqttPacket) :
      Preserves (fun s : Conn E R S W maxPacketSize => s.toEventLoop.Routed ch registry)
        (sendPacket p now) :=
    preserves_of_sends (P := fun _ => True) (fun _ _ => routed_of_sends)
      fun _ => sends_sendPacket trivial now
  cases request with
  | publish message ackSender => exact routed_publishing (by trivial) now s hs
  | publishBatch messages ackSender => exact routed_publishing (by trivial) now s hs
  | publishDatagram topic payload ackSender => exact routed_publishing (by trivial) now s hs
  | subscribe topic qos respSender streamSender =>
    exact ends_subscribe (routed_subscribed hs topic qos respSender streamSender now) (hsend _ _)
      (fun _ _ h => routed_congr h rfl rfl) respSender
  | unsubscribe topic respSender =>
    exact ends_unsubscribe (routed_unsubscribed hs topic respSender now) (hsend _ _)
      (fun _ _ h => routed_congr h rfl rfl) respSender
  | disconnect respSender =>
    have hdisconnect : Preserves (fun s : Conn E R S W maxPacketSize =>
        s.toEventLoop.Routed ch registry) sendDisconnect :=
      preserves_sendDisconnect (P := fun _ => True) (fun _ _ => routed_of_sends) trivial
        fun _ _ h => routed_congr h rfl rfl
    have hanswer : Preserves (fun s : Conn E R S W maxPacketSize =>
        s.toEventLoop.Routed ch registry) (send respSender (.done (.ok ()))) :=
      Preserves.modify fun _ h => routed_congr h rfl rfl
    exact Preserves.bind hdisconnect (fun _ => Preserves.bind hanswer fun _ => Preserves.throw _) s hs

theorem routed_performSessionDataRecovery (order : HashOrder) (now : ℕ) :
    Preserves (fun s : Conn E R S W maxPacketSize => s.toEventLoop.Routed ch registry)
      (performSessionDataRecovery order now) := by
  have hwrite (p : MqttPacket) : Preserves (fun s : Conn E R S W maxPacketSize =>
      s.toEventLoop.Routed ch registry) (tryWritePacket p) :=
    preserves_of_sends (P := fun _ => True) (fun _ _ => routed_of_sends)
      fun _ => sends_tryWritePacket trivial
  apply preserves_performSessionDataRecovery
  · exact fun _ _ _ _ _ => hwrite _
  · exact preserves_of_sends (P := fun _ => True) (fun _ _ => routed_of_sends) fun _ => sends_flush
  · intro _ _ e _
    have hnext : Preserves (fun s : Conn E R S W maxPacketSize => s.toEventLoop.Routed ch registry)
        getNextPacketId := fun _ hs => routed_congr hs rfl rfl
    exact Preserves.bind hnext fun pid => hwrite _
  · intro s _
    have hsend (message : PublishMessage) : Preserves (fun s : Conn E R S W maxPacketSize =>
        s.toEventLoop.Routed ch registry) (sendPublishDirect message none now) := by
      have hrequest : ClientRequest.IsPublish (.publish message none : ClientRequest R S) := trivial
      exact routed_publishing hrequest now
    apply preserves_flushOfflineQueue _ fun message _ => hsend message
    exact fun _ _ _ hs => routed_congr hs rfl rfl

theorem routed_connectAttempt {self loop : EventLoop E R S W maxPacketSize}
    {dial : Except (ClientError E) (Socket E)} {now : ℕ} {attempt : Attempt E}
    {socket : Option (Socket E)} (hself : self.Routed ch registry)
    (h : self.connectAttempt order dial now = some (attempt, loop, socket)) :
    loop.Routed ch registry := by
  have hhandshake : Preserves (fun s : Conn E R S W maxPacketSize => s.toEventLoop.Routed ch registry)
      performConnectHandshake :=
    preserves_of_sends (P := fun _ => True) (fun _ _ => routed_of_sends)
      fun _ => sends_performConnectHandshake trivial
  rcases connectAttempt_cases (I := fun s => s.toEventLoop.Routed ch registry)
    (fun _ _ => routed_congr hself rfl rfl) hhandshake (fun _ hs => routed_congr hs rfl rfl)
    (routed_performSessionDataRecovery order now) h with
    ⟨rfl, -⟩ | ⟨s, hs, ⟨rfl, -, -⟩ | ⟨rfl, -⟩⟩
  · exact routed_congr hself rfl rfl
  · exact hs
  · exact routed_congr hs rfl rfl

/-- A frame that is acted on keeps the open streams. -/
theorem routed_handle (received : Received) (now : ℕ) :
    Preserves (fun s : Conn E R S W maxPacketSize => s.toEventLoop.Routed ch registry)
      (handle ch now received) := by
  obtain ⟨frame, packet⟩ := received
  cases packet with
  | publish p =>
    have hdispatch (message : PublishMessage) : Preserves (fun s : Conn E R S W maxPacketSize =>
        s.toEventLoop.Routed ch registry) (dispatch ch message) :=
      Preserves.modify fun s hs => routed_dispatch hs message
    apply Preserves.bind _ fun _ => hdispatch _
    exact preserves_of_sends (P := fun _ => True) (fun _ _ => routed_of_sends)
      fun _ => sends_acknowledgePublish _ now trivial
  | pubAck ack =>
    intro s hs
    change Ends (performAction ch now (.pubAck ack.packetId)) s _ _
    rw [Ends, performAction_pubAck]
    exact routed_congr hs rfl rfl
  | subAck suback =>
    intro s hs
    change Ends (performAction ch now (.subAck suback.packetId)) s _ _
    rw [Ends, performAction_subAck]
    exact routed_congr hs rfl rfl
  | unsubAck unsuback =>
    intro s hs
    change Ends (performAction ch now (.unsubAck unsuback.packetId)) s _ _
    rw [Ends, performAction_unsubAck]
    exact routed_congr hs rfl rfl
  | disconnect d => exact Preserves.throw _
  | _ => exact Preserves.pure _

end

namespace LoopSystem
variable [DecidableEq S] {ch : Mpsc W S PublishMessage} {order : HashOrder} {registry : Registry S}
  {s t : LoopSystem E R S W maxPacketSize} {event : Event E R S W}

/-- A step changes the router as it changes the registry. -/
theorem routed_step (hs : s.loop.Routed ch registry) (hlaw : s.Lawful ch event)
    (h : s.step ch order event = some t) : t.loop.Routed ch (registry.after event) := by
  have hsent {α : Type} {x : ConnM E R S W maxPacketSize α}
      (hx : ∀ s₀, Preserves (Sends (fun _ => True) s₀) x) :
      Preserves (fun s : Conn E R S W maxPacketSize => s.toEventLoop.Routed ch registry) x :=
    preserves_of_sends (fun _ _ => routed_of_sends) hx
  refine loop_step (Q := fun loop => loop.Routed ch (registry.after event)) h
    (fun _ _ _ hloop => routed_congr hloop rfl rfl) ?_
  cases event with
  | attempt dial now => exact fun _ _ _ hattempt => routed_connectAttempt hs hattempt
  | enter => exact hs
  | read =>
    intro socket rxCursor _
    exact hsent (fun _ => sends_receiveFrames rxCursor) { s.loop with socket } hs
  | handle now =>
    intro socket rxCursor received later _
    exact routed_handle received now { s.loop with socket } hs
  | request request now =>
    intro socket rxCursor _
    rcases request with _ | request
    · have hdisconnect : Preserves (fun s : Conn E R S W maxPacketSize =>
          s.toEventLoop.Routed ch registry) sendDisconnect :=
        preserves_sendDisconnect (P := fun _ => True) (fun _ _ => routed_of_sends) trivial
        fun _ _ h => routed_congr h rfl rfl
      exact Preserves.bind (preserves_ignore hdisconnect) (fun _ => Preserves.pure _) _ hs
    · exact Ends.bind (routed_handleClientRequest request now hs)
  | tick now =>
    intro socket rxCursor _
    exact hsent (fun _ => sends_driveTick trivial now) { s.loop with socket } hs
  | arrive segment => exact hs
  | channels w => exact routed_channels hs (hlaw w rfl)

/-- In every run the router knows the open streams of the registry. -/
theorem routed_of_registeredRun {options : ClientOptions} {channels : W} {now : ℕ}
    (h : RegisteredRun ch order (start options channels now) registry s) :
    s.loop.Routed ch registry := by
  induction h with
  | start => exact ⟨[], represents_new, rfl⟩
  | step _ hlaw hstep ih => exact routed_step ih hlaw hstep

/-! ## Messages that are acknowledged -/

/-- The state after a message has been routed. -/
def dispatched (ch : Mpsc W S PublishMessage) (c : Conn E R S W maxPacketSize)
    (message : PublishMessage) : Conn E R S W maxPacketSize :=
  { c with
    router := (c.router.dispatch ch message c.channels).1
    channels := (c.router.dispatch ch message c.channels).2 }

/-- From one state to the other, every open stream has got the message once for each filter under
which it is registered and that matches. -/
def Delivers (ch : Mpsc W S PublishMessage) (registry : Registry S) (p : Publish)
    (s t : LoopSystem E R S W maxPacketSize) : Prop :=
  ∀ sender, ch.isClosed s.loop.channels sender = false →
    ch.accepted t.loop.channels sender = ch.accepted s.loop.channels sender ++
      List.replicate (registry.copies p.topic sender) (publishedMessage p)

/-- Every open stream that is registered for the topic has places for the message, and neither
the write of the PUBACK nor its flush fails. -/
def Deliverable (ch : Mpsc W S PublishMessage) (registry : Registry S) (p : Publish)
    (s : LoopSystem E R S W maxPacketSize) (socket : Socket E) : Prop :=
  ∀ sender, ch.isClosed s.loop.channels sender = false → 0 < registry.copies p.topic sender →
    socket.WriteOk ∧ socket.FlushOk ∧
      registry.copies p.topic sender ≤ ch.free s.loop.channels sender

/-- In every run: a PUBLISH of QoS 1 whose PUBACK is written reaches the open streams if and only
if, where a PUBACK can be written, it is deliverable. -/
theorem delivered_iff {options : ClientOptions} {channels : W} {start₀ now : ℕ}
    (h : RegisteredRun ch order (start options channels start₀) registry s)
    {socket : Socket E} {rxCursor : ℕ} {frame : List UInt8} {p : Publish} {later : List Received}
    (hphase : s.phase = .driving socket rxCursor (⟨frame, .publish p⟩ :: later))
    (hqos : p.qos = .atLeastOnce) {packetId : UInt16} (hid : p.packetId = some packetId)
    (hstep : s.step ch order (.handle now) = some t) :
    (t.connections.getLast?.map (·.written) =
        some (socket.written ++ [(pubAckPacket packetId).wire s.loop.options.version]) →
      Delivers ch registry p s t) ↔
    ((pubAckPacket packetId).Fits s.loop.options.version maxPacketSize →
      socket.Takes ((pubAckPacket packetId).wire s.loop.options.version).length →
        Deliverable ch registry p s socket) := by
  let c₀ : Conn E R S W maxPacketSize := { s.loop with socket }
  have hrouted : c₀.toEventLoop.Routed ch registry := routed_of_registeredRun h
  obtain ⟨socket', rxCursor', received, later', hphase', hend⟩ := step_handle hstep
  rw [hphase] at hphase'
  cases hphase'
  have hack : acknowledgePublish (publishedMessage p) now = (acknowledge packetId now :
      ConnM E R S W maxPacketSize Unit) := by
    simp [acknowledgePublish, publishedMessage, hqos, hid]
  have hhandle : handle ch now ⟨frame, .publish p⟩ c₀ =
      (do acknowledge packetId now; dispatch ch (publishedMessage p)) c₀ := by
    rw [← hack]
    rfl
  rw [hhandle] at hend
  -- Routing the message comes after the PUBACK, and nothing comes after a PUBACK that has failed.
  have hdispatch {c : Conn E R S W maxPacketSize} (hacknowledge : acknowledge packetId now c₀ = .ok () c) :
      t = s.goOn rxCursor later (dispatched ch c (publishedMessage p)) := by
    have hrun : (do acknowledge packetId now; dispatch ch (publishedMessage p)) c₀ =
        .ok () (dispatched ch c (publishedMessage p)) := run_bind hacknowledge
    rw [hrun] at hend
    simpa using hend
  have hfailed {e : ClientError E} {c : Conn E R S W maxPacketSize}
      (hacknowledge : acknowledge packetId now c₀ = .error (.err e) c) :
      t = s.driven (.error e) c := by
    have hrun : (do acknowledge packetId now; dispatch ch (publishedMessage p)) c₀ =
        .error (.err e) c := run_bind_error hacknowledge
    rw [hrun] at hend
    simpa using hend
  by_cases hfits : (pubAckPacket packetId).Fits s.loop.options.version maxPacketSize
  · by_cases hok : socket.WriteOk ∧ socket.FlushOk
    · have hshort : (pubAckPacket packetId).Short := short_of_isAck ⟨packetId, .inl rfl⟩
      obtain ⟨tx, hsend⟩ := sendPacket_fits (s := c₀) hfits (hshort.measured _ _) hok.1 hok.2 now
      let c := afterSend c₀ tx ((pubAckPacket packetId).wire c₀.options.version) now
      have hc : c.toEventLoop.Routed ch registry := routed_congr hrouted rfl rfl
      have haccepted {sender : S} (hopen : ch.isClosed s.loop.channels sender = false) :
          ch.accepted (dispatched ch c (publishedMessage p)).channels sender =
            ch.accepted s.loop.channels sender ++
              List.replicate (min (registry.copies p.topic sender) (ch.free s.loop.channels sender))
                (publishedMessage p) :=
        accepted_dispatch hc (publishedMessage p) hopen
      rw [hdispatch ((acknowledge_fits (c := c₀) hfits now).trans hsend)]
      constructor
      · intro hdelivers _ _ sender hopen _
        refine ⟨hok.1, hok.2, ?_⟩
        have hgot := hdelivers (by simp [connections_goOn, dispatched, afterSend, c₀]) sender hopen
        have hmin := (haccepted hopen).symm.trans hgot
        rw [List.append_right_inj, List.replicate_left_inj] at hmin
        exact min_eq_left_iff.mp hmin
      · intro hdeliverable _ sender hopen
        refine (haccepted hopen).trans ?_
        rcases Nat.eq_zero_or_pos (registry.copies p.topic sender) with hzero | hpos
        · simp [hzero]
        · have hroom := (hdeliverable hfits (hok.1.takes _) sender hopen hpos).2.2
          congr 2
          exact min_eq_left hroom
    · obtain ⟨e, c, hacknowledge, hchannels, hwritten⟩ := acknowledge_failed (c := c₀) hfits hok now
      obtain ⟨transport, statuses, hloop⟩ := s.loop_driven (.error e) c
      have hsame : (s.driven (.error e) c).loop.channels = s.loop.channels := by
        rw [hloop]
        exact hchannels
      rw [hfailed hacknowledge, connections_driven]
      have hpremise : ((s.dropped ++ [c.socket]).getLast?.map (·.written) =
          some (socket.written ++ [(pubAckPacket packetId).wire s.loop.options.version])) ↔
          socket.Takes ((pubAckPacket packetId).wire s.loop.options.version).length := by
        rw [List.getLast?_concat]
        simpa using hwritten
      rw [hpremise]
      constructor
      · intro hdelivers _ htakes sender hopen hpos
        have hgot := hdelivers htakes sender hopen
        rw [hsame] at hgot
        simp at hgot
        omega
      · intro hdeliverable htakes sender hopen
        have hzero : registry.copies p.topic sender = 0 := by
          by_contra hne
          have h := hdeliverable hfits htakes sender hopen (Nat.pos_of_ne_zero hne)
          exact hok ⟨h.1, h.2.1⟩
        simp [hsame, hzero]
  · obtain ⟨tx, hacknowledge⟩ := acknowledge_unfit (c := c₀) hfits now
    rw [hdispatch hacknowledge]
    apply iff_of_true
    · intro hwritten
      simp [connections_goOn, dispatched, c₀] at hwritten
    · exact fun h => absurd h hfits

end LoopSystem

end

namespace LoopSystem

/-- A PUBLISH of QoS 1, and its frame. -/
def lessonPublish : Publish :=
  { Publish.new "a" [7] .atLeastOnce with packetId := some 1 }

def lessonFrame : List UInt8 := [0x32, 6, 0, 1, 97, 0, 1, 7]

/-- A stream is opened, and then the PUBLISH comes `n` times more than it is acted on. -/
def lessons (n : ℕ) : List (Event Unit ℕ ℕ (ℕ → Queue PublishMessage)) :=
  connecting (List.replicate (n + 1) lessonFrame) ++
    [.request (some (.subscribe "a" .atLeastOnce 0 (some 5))) 0] ++
    (List.replicate n [.read, .handle 0]).flatten ++ [.read]

/-- How the run stands before and after the last PUBLISH is acted on: what has come in, how many
messages the stream has got, and whether it is open and a PUBACK has been written. -/
def lessonOutcome (n : ℕ) : Option ((List Received × MqttVersion) × (ℕ × ℕ) × Bool × Bool) :=
  (run (.queues ℕ PublishMessage) listed (fun _ _ => True) (lessons n) fresh).bind fun s =>
    (s.step (.queues ℕ PublishMessage) listed (.handle 0)).map fun t =>
      ((s.phase.received, s.loop.options.version),
        ((s.loop.channels 5).accepted.length, (t.loop.channels 5).accepted.length),
        !(s.loop.channels 5).closed,
        decide (t.connections.getLast?.map (·.written) =
          s.connections.getLast?.map fun socket =>
            socket.written ++ [(pubAckPacket 1).wire s.loop.options.version]))

theorem exists_lessons (n k k' : ℕ) (hregistry : (lessons n).foldl Registry.after [] = [("a", 5)])
    (heval : lessonOutcome n =
      some (([⟨lessonFrame, .publish lessonPublish⟩], .v3_1_1), (k, k'), true, true)) :
    ∃ s t socket rxCursor,
      RegisteredRun (.queues ℕ PublishMessage) listed fresh [("a", 5)] s ∧
      s.phase = .driving socket rxCursor [⟨lessonFrame, .publish lessonPublish⟩] ∧
      s.step (.queues ℕ PublishMessage) listed (.handle 0) = some t ∧
      s.loop.options.version = .v3_1_1 ∧ (s.loop.channels 5).closed = false ∧
      t.connections.getLast?.map (·.written) =
        some (socket.written ++ [(pubAckPacket 1).wire s.loop.options.version]) ∧
      (s.loop.channels 5).accepted.length = k ∧ (t.loop.channels 5).accepted.length = k' := by
  obtain ⟨s, hrun, heval⟩ := Option.bind_eq_some_iff.mp heval
  obtain ⟨t, hstep, heval⟩ := Option.map_eq_some_iff.mp heval
  simp only [Prod.mk.injEq, Bool.not_eq_true', decide_eq_true_eq] at heval
  obtain ⟨⟨hreceived, hversion⟩, ⟨hk, hk'⟩, hopen, hwritten⟩ := heval
  obtain ⟨socket, rxCursor, hphase⟩ := Phase.eq_driving hreceived
  have hevents : ∀ w, .channels w ∉ lessons n := by
    simp [lessons, connecting, List.mem_flatten, List.mem_replicate]
  have hregistered := registeredRun_of_run (.queues ℕ PublishMessage) listed hevents hrun
  rw [hregistry] at hregistered
  have hconnections : s.connections = s.dropped ++ [socket] := by
    rw [connections, hphase]
  refine ⟨s, t, socket, rxCursor, hregistered, hphase, hstep, hversion, hopen, ?_, hk, hk'⟩
  rw [hwritten, hconnections, List.getLast?_concat]
  rfl

/-- The first PUBLISH reaches the stream. -/
theorem delivered_iff_sample :
    ∃ (s t : LoopSystem Unit ℕ ℕ (ℕ → Queue PublishMessage) 64) (socket : Socket Unit),
      s.step (.queues ℕ PublishMessage) listed (.handle 0) = some t ∧
      (s.loop.channels 5).accepted.length = 0 ∧ (t.loop.channels 5).accepted.length = 1 ∧
      (Delivers (.queues ℕ PublishMessage) [("a", 5)] lessonPublish s t ↔
        (socket.Takes 4 → Deliverable (.queues ℕ PublishMessage) [("a", 5)] lessonPublish s socket)) := by
  obtain ⟨s, t, socket, rxCursor, hrun, hphase, hstep, hversion, hopen, hwritten, hk, hk'⟩ :=
    exists_lessons 0 0 1 (by decide +kernel) (by decide +kernel)
  have hiff := delivered_iff hrun hphase rfl (show lessonPublish.packetId = some 1 from rfl) hstep
  have hfits : (pubAckPacket 1).Fits .v3_1_1 64 := by decide +kernel
  have hlength : ((pubAckPacket 1).wire .v3_1_1).length = 4 := by decide +kernel
  rw [hversion, hlength] at hiff
  rw [hversion] at hwritten
  refine ⟨s, t, socket, hstep, hk, hk', ?_⟩
  simpa only [hwritten, hfits, true_imp_iff] using hiff

/-- The stream has 128 places; the 129th message is acknowledged and lost. -/
theorem loses_message :
    ¬ ∀ registry s t socket rxCursor frame p later packetId,
      RegisteredRun (.queues ℕ PublishMessage) listed fresh registry s →
      s.phase = .driving socket rxCursor (⟨frame, .publish p⟩ :: later) →
      p.qos = .atLeastOnce → p.packetId = some packetId →
      s.step (.queues ℕ PublishMessage) listed (.handle 0) = some t →
      t.connections.getLast?.map (·.written) =
        some (socket.written ++ [(pubAckPacket packetId).wire s.loop.options.version]) →
      Delivers (.queues ℕ PublishMessage) registry p s t := by
  intro hall
  obtain ⟨s, t, socket, rxCursor, hrun, hphase, hstep, -, hopen, hwritten, hk, hk'⟩ :=
    exists_lessons 128 128 128 (by decide +kernel) (by decide +kernel)
  have hdelivers := hall _ s t socket rxCursor _ _ _ 1 hrun hphase rfl rfl hstep hwritten 5 hopen
  have hlength := congrArg List.length hdelivers
  have hcopies : Registry.copies [("a", 5)] lessonPublish.topic 5 = 1 := by decide +kernel
  rw [List.length_append, List.length_replicate, hcopies] at hlength
  have hlength' : (t.loop.channels 5).accepted.length = (s.loop.channels 5).accepted.length + 1 :=
    hlength
  omega

end LoopSystem

end MqttEngine.Tokio
