import MqttEngine.Tokio.System
import MqttEngine.Tokio.Operations

/-!
# Who waits for a SUBACK or UNSUBACK

A requester waits under the packet id of the SUBSCRIBE or UNSUBSCRIBE that was sent for it, and the
broker answers only what it got on the same connection. So every waiting id should be that of a
packet written on the current connection (`Answerable`). A request sees to it, and so does every
acknowledgement. The recovery of a session, however, subscribes again under new ids and leaves
those who wait where they are. `answerable_of_runs` says that all goes well as long as nobody
waits when a connection is made.

## Main definitions

* `Answerable` — every waiting id is that of a packet that has been written.
* `LoopSystem.NobodyWaits` — nobody waits when a connection is made.

## Main results

* `ends_sendPacket_written` — a packet that has been sent has been written.
* `answerable_of_runs` — the waiting ids of a run.
* `strands_waiter` — a reconnect strands a requester.
-/

namespace MqttEngine.Tokio
open Checked Conn EventLoop

section
variable {E R S W : Type} {maxPacketSize : ℕ} {s s' : Conn E R S W maxPacketSize}

/-- Every waiting id is that of a packet that has been written on this connection. -/
structure Answerable (s : Conn E R S W maxPacketSize) : Prop where
  subscribe : ∀ packetId ∈ s.inflightSubscribes.keys, ∃ topic qos,
    (subscribePacket packetId topic qos).wire s.options.version ∈ s.socket.written
  unsubscribe : ∀ packetId ∈ s.inflightUnsubscribes.keys, ∃ topic,
    (unsubscribePacket packetId topic).wire s.options.version ∈ s.socket.written

/-! ## What is kept -/

/-- More has been written, and nobody else waits. -/
theorem Answerable.mono (h : Answerable s) (hversion : s'.options.version = s.options.version)
    (hwritten : s.socket.written ⊆ s'.socket.written)
    (hsubscribes : s'.inflightSubscribes.keys ⊆ s.inflightSubscribes.keys)
    (hunsubscribes : s'.inflightUnsubscribes.keys ⊆ s.inflightUnsubscribes.keys) :
    Answerable s' := by
  constructor
  · intro packetId hid
    obtain ⟨topic, qos, hwire⟩ := h.subscribe packetId (hsubscribes hid)
    exact ⟨topic, qos, hversion ▸ hwritten hwire⟩
  · intro packetId hid
    obtain ⟨topic, hwire⟩ := h.unsubscribe packetId (hunsubscribes hid)
    exact ⟨topic, hversion ▸ hwritten hwire⟩

/-- The tables, the options and the transport are the same. -/
theorem Answerable.congr (h : Answerable s) (hoptions : s'.options = s.options)
    (hsocket : s'.socket.written = s.socket.written)
    (hsubscribes : s'.inflightSubscribes = s.inflightSubscribes)
    (hunsubscribes : s'.inflightUnsubscribes = s.inflightUnsubscribes) : Answerable s' :=
  h.mono (by rw [hoptions]) (by simp [hsocket]) (by simp [hsubscribes]) (by simp [hunsubscribes])

theorem answerable_of_sends {P : UInt8 → Prop} (h : Answerable s) (hsends : Sends P s s') :
    Answerable s' := by
  obtain ⟨new, hnew, -⟩ := hsends.written
  have hloop := hsends.loop
  refine h.mono ?_ (by simp [hnew]) ?_ ?_
  · rw [hloop]
  · rw [hloop]
    exact fun _ h => h
  · rw [hloop]
    exact fun _ h => h

theorem answerable_sends {α : Type} {x : ConnM E R S W maxPacketSize α}
    (h : ∀ s₀, Preserves (Sends (fun _ => True) s₀) x) : Preserves Answerable x :=
  preserves_of_sends (fun _ _ => answerable_of_sends) h

theorem answerable_tracked (h : Answerable s) (message : PublishMessage) (ackSender : Option R) :
    Answerable (tracked s message ackSender) := by
  rw [tracked]
  split
  · exact h.congr rfl rfl rfl rfl
  · exact h

theorem answerable_published (h : Answerable s) (message : PublishMessage) (ackSender : Option R) :
    Answerable (published s message ackSender) := by
  rw [published]
  split
  · exact answerable_tracked h message ackSender
  · exact h.congr rfl rfl rfl rfl

/-! ## Requests -/

theorem ends_writeAll_written (bytes : List UInt8) :
    Ends (writeAll bytes) s (fun _ s' => bytes ∈ s'.socket.written) fun _ _ => True := by
  rw [Ends, writeAll]
  rcases s.socket.writeResults with _ | ⟨_ | ⟨n, e⟩, later⟩
  · simp
  · simp
  · trivial

/-- A packet that has been sent has been written. -/
theorem ends_sendPacket_written {p : MqttPacket} (hdisc : ∀ d, p ≠ .disconnect d)
    (hmeasured : p.Measured s.options.version maxPacketSize) (now : ℕ) :
    Ends (sendPacket p now) s (fun _ s' => p.wire s.options.version ∈ s'.socket.written)
      fun _ _ => True := by
  let I (t : Conn E R S W maxPacketSize) : Prop := p.wire s.options.version ∈ t.socket.written
  have hI (t t' : Conn E R S W maxPacketSize) (ht : I t) (h : Sends (fun _ => True) t t') : I t' := by
    obtain ⟨new, hnew, -⟩ := h.written
    simp only [I, hnew]
    exact List.mem_append_left _ ht
  by_cases hfits : p.Fits s.options.version maxPacketSize
  · obtain ⟨tx, hsend⟩ := sendPacket_of_fits hfits hmeasured now
    have hrest : Preserves I (do flush; setLastTx now) :=
      Preserves.bind (preserves_of_sends hI fun _ => sends_flush)
        fun _ => preserves_of_sends hI fun _ => sends_setLastTx now
    rw [Ends, hsend]
    apply Ends.bind
    apply (ends_writeAll_written _).mono
    · exact fun _ t ht => (hrest t ht).mono (fun _ _ h => h) fun _ _ _ => trivial
    · exact fun _ _ h => h
  · obtain ⟨tx, hsend⟩ := sendPacket_unfit hdisc hfits now
    rw [Ends, hsend]
    trivial

/-- Whoever subscribes waits once the SUBSCRIBE has been written. -/
theorem answerable_subscribe (topic : String) (qos : QoS) (respSender : R) (streamSender : Option S)
    (now : ℕ) :
    Preserves Answerable (handleClientRequest (.subscribe topic qos respSender streamSender) now :
      ConnM E R S W maxPacketSize Unit) := by
  intro s hs
  let t := subscribed s topic qos streamSender
  have ht : Answerable t := hs.congr rfl rfl rfl rfl
  have hwritten := ends_sendPacket_written (s := t) (p := subscribePacket s.nextPacketId topic qos)
    (by simp [subscribePacket]) ((short_subscribePacket _ _ _).measured _ _) now
  have hsends := sends_sendPacket (P := fun _ => True)
    (p := subscribePacket s.nextPacketId topic qos) trivial now t .refl
  rw [Ends, handle_subscribe]
  apply Ends.bind
  apply (hwritten.and hsends).mono
  · rintro _ u ⟨hwire, hu⟩
    have hversion : t.options.version = u.options.version := by rw [hu.loop]
    have hanswerable := answerable_of_sends ht hu
    constructor
    · intro packetId hid
      rcases Assoc.mem_keys_set.mp hid with rfl | hid
      · exact ⟨topic, qos, hversion ▸ hwire⟩
      · exact hanswerable.subscribe packetId hid
    · exact hanswerable.unsubscribe
  · exact fun _ u hu => answerable_of_sends ht hu.2

theorem answerable_unsubscribe (topic : String) (respSender : R) (now : ℕ) :
    Preserves Answerable (handleClientRequest (.unsubscribe topic respSender) now :
      ConnM E R S W maxPacketSize Unit) := by
  intro s hs
  let t := unsubscribed s topic
  have ht : Answerable t := hs.congr rfl rfl rfl rfl
  have hwritten := ends_sendPacket_written (s := t) (p := unsubscribePacket s.nextPacketId topic)
    (by simp [unsubscribePacket]) ((short_unsubscribePacket _ _).measured _ _) now
  have hsends := sends_sendPacket (P := fun _ => True)
    (p := unsubscribePacket s.nextPacketId topic) trivial now t .refl
  rw [Ends, handle_unsubscribe]
  apply Ends.bind
  apply (hwritten.and hsends).mono
  · rintro _ u ⟨hwire, hu⟩
    have hversion : t.options.version = u.options.version := by rw [hu.loop]
    have hanswerable := answerable_of_sends ht hu
    constructor
    · exact hanswerable.subscribe
    · intro packetId hid
      rcases Assoc.mem_keys_set.mp hid with rfl | hid
      · exact ⟨topic, hversion ▸ hwire⟩
      · exact hanswerable.unsubscribe packetId hid
  · exact fun _ u hu => answerable_of_sends ht hu.2

theorem answerable_sendDisconnect :
    Preserves Answerable (sendDisconnect : ConnM E R S W maxPacketSize Unit) :=
  preserves_sendDisconnect (P := fun _ => True)
    (fun _ _ => answerable_of_sends) trivial fun _ _ h => h.congr rfl rfl rfl rfl

theorem answerable_driveRequest (request : Option (ClientRequest R S)) (now : ℕ) :
    Preserves Answerable (driveRequest request now : ConnM E R S W maxPacketSize Bool) := by
  have hpublishing {request : ClientRequest R S} (hrequest : request.IsPublish) :
      Preserves Answerable (handleClientRequest request now : ConnM E R S W maxPacketSize Unit) :=
    preserves_publishing (fun _ _ => answerable_of_sends (P := fun _ => True)) (fun _ => trivial)
      (fun _ message ackSender h => answerable_published h message ackSender)
      (fun _ message h => answerable_tracked h message none) (fun _ _ h => h.congr rfl rfl rfl rfl)
      hrequest now
  rcases request with _ | request
  · exact Preserves.bind (preserves_ignore answerable_sendDisconnect) fun _ => Preserves.pure _
  · apply Preserves.bind _ fun _ => Preserves.pure _
    cases request with
    | publish message ackSender => exact hpublishing (by trivial)
    | publishBatch messages ackSender => exact hpublishing (by trivial)
    | publishDatagram topic payload ackSender => exact hpublishing (by trivial)
    | subscribe topic qos respSender streamSender =>
      exact answerable_subscribe topic qos respSender streamSender now
    | unsubscribe topic respSender => exact answerable_unsubscribe topic respSender now
    | disconnect respSender =>
      apply Preserves.bind answerable_sendDisconnect
      intro _
      apply Preserves.bind (Preserves.modify fun _ h => h.congr rfl rfl rfl rfl)
      intro _
      exact Preserves.throw _

/-! ## Acknowledgements -/

theorem answerable_handle [DecidableEq S] (ch : Mpsc W S PublishMessage) (received : Received)
    (now : ℕ) :
    Preserves Answerable (handle ch now received : ConnM E R S W maxPacketSize Unit) := by
  have herase {κ β : Type} [DecidableEq κ] (m : Assoc κ β) (k : κ) : (m.erase k).keys ⊆ m.keys :=
    fun _ h => (Assoc.mem_keys_erase.mp h).2
  obtain ⟨frame, packet⟩ := received
  cases packet with
  | publish p =>
    apply Preserves.bind (answerable_sends fun _ => sends_acknowledgePublish _ now trivial)
    intro _
    exact Preserves.modify fun _ h => h.congr rfl rfl rfl rfl
  | pubAck ack =>
    intro s hs
    change Ends (performAction ch now (.pubAck ack.packetId)) s _ _
    rw [Ends, performAction_pubAck]
    exact hs.congr rfl rfl rfl rfl
  | subAck suback =>
    intro s hs
    change Ends (performAction ch now (.subAck suback.packetId)) s _ _
    rw [Ends, performAction_subAck]
    exact hs.mono rfl (fun _ h => h) (herase _ _) fun _ h => h
  | unsubAck unsuback =>
    intro s hs
    change Ends (performAction ch now (.unsubAck unsuback.packetId)) s _ _
    rw [Ends, performAction_unsubAck]
    exact hs.mono rfl (fun _ h => h) (fun _ h => h) (herase _ _)
  | disconnect d => exact Preserves.throw _
  | _ => exact Preserves.pure _

/-! ## Connecting -/

/-- Nobody waits. -/
def EventLoop.Idle (self : EventLoop E R S W maxPacketSize) : Prop :=
  self.inflightSubscribes = [] ∧ self.inflightUnsubscribes = []

instance (self : EventLoop E R S W maxPacketSize) : Decidable self.Idle :=
  inferInstanceAs (Decidable (_ ∧ _))

theorem answerable_of_idle (h : s.Idle) : Answerable s :=
  ⟨by simp [h.1, Assoc.keys], by simp [h.2, Assoc.keys]⟩

/-- Connecting changes nothing for those who wait. -/
theorem waiters_connectAttempt {self loop : EventLoop E R S W maxPacketSize} {order : HashOrder}
    {dial : Except (ClientError E) (Socket E)} {now : ℕ} {attempt : Attempt E}
    {socket : Option (Socket E)} (hidle : self.Idle)
    (h : self.connectAttempt order dial now = some (attempt, loop, socket)) : loop.Idle := by
  let I (s : Conn E R S W maxPacketSize) : Prop := s.Idle
  have hI (s s' : Conn E R S W maxPacketSize) (hs : I s) (h : Sends (fun _ => True) s s') : I s' :=
    ⟨(congrArg EventLoop.inflightSubscribes h.loop).trans hs.1,
      (congrArg EventLoop.inflightUnsubscribes h.loop).trans hs.2⟩
  have hsends {α : Type} {x : ConnM E R S W maxPacketSize α}
      (h : ∀ s₀, Preserves (Sends (fun _ => True) s₀) x) : Preserves I x := preserves_of_sends hI h
  have hrecovery : Preserves I (performSessionDataRecovery order now) := by
    apply preserves_performSessionDataRecovery
    · exact fun _ _ _ _ _ => hsends fun _ => sends_tryWritePacket trivial
    · exact hsends fun _ => sends_flush
    · intro _ _ e _
      have hnext : Preserves I getNextPacketId := fun _ hs => hs
      exact Preserves.bind hnext fun pid => hsends fun _ => sends_tryWritePacket trivial
    · intro s _
      apply @preserves_flushOfflineQueue _ _ _ _ _ I now _ (fun _ _ _ hs => hs)
      intro message _
      apply preserves_sendPublishDirect hI (fun _ => trivial)
      intro s hs
      rw [published, tracked]
      split
      · exact hs
      · exact hs
  rcases connectAttempt_cases (I := I) (fun _ _ => hidle)
    (hsends fun _ => sends_performConnectHandshake trivial) (fun _ hs => hs) hrecovery h with
    ⟨rfl, -⟩ | ⟨s, hs, ⟨rfl, -, -⟩ | ⟨rfl, -⟩⟩
  · exact hidle
  · exact hs
  · exact hs

/-- Without a handshake there is no new transport. -/
theorem transport_connectAttempt {self loop : EventLoop E R S W maxPacketSize} {order : HashOrder}
    {opened : Socket E} {now : ℕ} {attempt : Attempt E} {socket : Option (Socket E)}
    (hrefused : ¬ accepts self opened)
    (h : self.connectAttempt order (.ok opened.opened) now = some (attempt, loop, socket)) :
    loop.transport = self.transport := by
  obtain ⟨-, h⟩ := connectAttempt_eq_some.mp h
  rw [finishAttempt.eq_def] at h
  dsimp only at h
  rcases hrun : handshake self opened with ⟨u, c⟩ | ⟨e, c⟩
  · exact absurd (accepts_iff.mpr ⟨c, hrun⟩) hrefused
  · have hloop := ((sends_performConnectHandshake (P := fun _ => True) trivial
      { self.startAttempt with socket := opened.opened } .refl).error_of hrun).loop
    have hrun' : performConnectHandshake { self.startAttempt with socket := opened.opened } =
      .error e c := hrun
    rw [hrun'] at h
    rcases e with e | _ | _
    · cases h
      exact (congrArg EventLoop.transport hloop).trans rfl
    · cases h
    · cases h

namespace LoopSystem

/-- The requesters that wait can be answered over the current connection, if there is one. -/
def Answerable (self : LoopSystem E R S W maxPacketSize) : Prop :=
  ∀ socket ∈ self.connection, Tokio.Answerable { self.loop with socket }

/-- Nobody waits when the broker accepts a connection. -/
def NobodyWaits (self : LoopSystem E R S W maxPacketSize) : Event E R S W → Prop
  | .attempt (.ok socket) _ => accepts self.loop socket → self.loop.Idle
  | _ => True

instance (self : LoopSystem E R S W maxPacketSize) :
    (event : Event E R S W) → Decidable (self.NobodyWaits event)
  | .attempt (.ok _) _ => inferInstanceAs (Decidable (_ → _))
  | .attempt (.error _) _ | .enter | .read | .handle _ | .request _ _ | .tick _ | .arrive _
  | .channels _ => isTrue trivial

variable [DecidableEq S] {ch : Mpsc W S PublishMessage} {order : HashOrder}
  {s t : LoopSystem E R S W maxPacketSize} {event : Event E R S W}

theorem answerable_step (hs : s.Answerable) (hwaits : s.NobodyWaits event)
    (h : s.step ch order event = some t) : t.Answerable := by
  apply connection_step h hs
  · exact fun _ _ _ _ h => h.congr rfl rfl rfl rfl
  · exact fun _ _ h => h.congr rfl rfl rfl rfl
  · rintro dial now rfl attempt loop dropped hattempt
    have hnone : s.loop.transport = none := (step_attempt h).2.1
    rcases dial with e | socket
    · obtain ⟨-, hfinish⟩ := connectAttempt_eq_some.mp hattempt
      cases hfinish
      simp [startAttempt, hnone]
    · by_cases haccepts : accepts s.loop socket
      · exact fun _ _ => answerable_of_idle (waiters_connectAttempt (hwaits haccepts) hattempt)
      · have htransport := transport_connectAttempt haccepts hattempt
        simp [htransport, hnone]
  · exact fun rxCursor => answerable_sends fun _ => sends_receiveFrames rxCursor
  · exact fun now _ received => answerable_handle ch received now
  · exact fun request now _ => answerable_driveRequest request now
  · exact fun now _ => answerable_sends fun _ => sends_driveTick trivial now

/-- **In every run in which nobody waits when a connection is made, every waiting id is that of a
packet written on the current connection.** -/
theorem answerable_of_runs {options : ClientOptions} {channels : W} {now : ℕ}
    (h : Runs ch order NobodyWaits (start options channels now) s) : s.Answerable :=
  h.invariant (by simp [Answerable, connection, start, EventLoop.new])
    fun _ _ _ hs hwaits hstep => answerable_step hs hwaits hstep

end LoopSystem

end

/-! ## A requester that is stranded -/

theorem content_subscribePacket (version : MqttVersion) (packetId : UInt16) (topic : String)
    (qos : QoS) : ∃ rest, (subscribePacket packetId topic qos).content version =
      toBeBytes packetId ++ rest := by
  rw [subscribePacket, Subscribe.addTopic]
  split
  all_goals
    exact ⟨_, List.append_assoc _ _ _⟩

/-- A SUBSCRIBE shows its packet id. -/
theorem packetId_of_wire_eq {version : MqttVersion} {packetId packetId' : UInt16}
    {topic topic' : String} {qos qos' : QoS}
    (h : (subscribePacket packetId topic qos).wire version =
      (subscribePacket packetId' topic' qos').wire version) : packetId = packetId' := by
  obtain ⟨rest, hcontent⟩ := content_subscribePacket version packetId topic qos
  obtain ⟨rest', hcontent'⟩ := content_subscribePacket version packetId' topic' qos'
  have hsame := (frameBytes_inj h).2
  rw [hcontent, hcontent'] at hsame
  exact toBeBytes_append_inj hsame

namespace LoopSystem

/-- A client that connects, subscribes and loses its connection, with what the broker sends before
that. -/
def resubscribing (segments : List (List UInt8)) (frames : ℕ) :
    List (Event Unit ℕ ℕ (ℕ → Queue PublishMessage)) :=
  connecting segments ++ [.request (some (.subscribe "a" .atLeastOnce 0 none)) 0] ++
    (List.replicate frames [.read, .handle 0]).flatten ++
    [.arrive (.ok []), .read, .attempt (.ok accepting) 0]

/-- The subscription is acknowledged before the connection is lost. -/
theorem answerable_sample :
    ∃ s : LoopSystem Unit ℕ ℕ (ℕ → Queue PublishMessage) 64, s.loop.nextPacketId = 4 ∧
      s.loop.inflightSubscribes.keys = [3] ∧ s.Answerable := by
  have heval : (run (.queues ℕ PublishMessage) listed NobodyWaits
      (resubscribing [[0x90, 3, 0, 1, 1]] 1 ++
        [.enter, .request (some (.subscribe "b" .atLeastOnce 1 none)) 0]) fresh).map
      (fun s => (s.loop.nextPacketId, s.loop.inflightSubscribes.keys)) = some (4, [3]) := by
    decide +kernel
  obtain ⟨s, hrun, hs⟩ := Option.map_eq_some_iff.mp heval
  simp only [Prod.mk.injEq] at hs
  exact ⟨s, hs.1, hs.2, answerable_of_runs (runs_of_run hrun)⟩

/-- The subscription is renewed under the id 2, but the requester goes on to wait under 1. -/
theorem strands_waiter :
    ¬ ∀ s, Runs (.queues ℕ PublishMessage) listed (fun _ _ => True) fresh s → s.Answerable := by
  intro hall
  have heval : (run (.queues ℕ PublishMessage) listed (fun _ _ => True) (resubscribing [] 0)
      fresh).map (fun s => (s.connection.map (·.written), s.loop.options.version,
        s.loop.inflightSubscribes.keys)) =
      some (some [(MqttPacket.connect (connectPacket (.new "c" fun _ => 0))).wire .v3_1_1,
        (subscribePacket 2 "a" .atLeastOnce).wire .v3_1_1], .v3_1_1, [1]) := by
    decide +kernel
  obtain ⟨s, hrun, hs⟩ := Option.map_eq_some_iff.mp heval
  simp only [Prod.mk.injEq] at hs
  obtain ⟨hconnection, hversion, hkeys⟩ := hs
  obtain ⟨socket, hsocket, hwritten⟩ := Option.map_eq_some_iff.mp hconnection
  obtain ⟨topic, qos, hwire⟩ := (hall s (runs_of_run hrun) socket hsocket).subscribe 1
    (by simp [hkeys])
  simp only [hwritten, hversion, List.mem_cons, List.not_mem_nil, or_false] at hwire
  rcases hwire with hconnect | hsubscribe
  · exact absurd (frameBytes_inj hconnect).1 (by simp [MqttPacket.first, subscribePacket])
  · exact absurd (packetId_of_wire_eq hsubscribe) (by decide)

end LoopSystem

end MqttEngine.Tokio
