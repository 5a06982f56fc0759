import MqttEngine.Tokio.Sending

/-!
# What the operations of the event loop do

An operation changes the tables of the event loop and sends packets. The state in which a packet
is sent is given exactly (`published`, `subscribed`, `unsubscribed`), and so is what an
acknowledgement does (`completedPublish` and its siblings). The rules named `preserves_` say
what has to be shown of an invariant so that a program with a loop keeps it.

## Main definitions

* `published`, `subscribed`, `unsubscribed` — the state in which a packet is sent.
* `completedPublish`, `completedSubscribe`, `completedUnsubscribe` — the state after an
  acknowledgement.
* `resubscribeAll` — the second half of the recovery of a session.

## Main results

* `sendPublishDirect_eq`, `handle_subscribe`, `handle_unsubscribe` — requests.
* `performAction_pubAck`, `performAction_subAck`, `performAction_unsubAck` — completions.
* `preserves_performSessionDataRecovery` — the rule for the recovery of a session.
-/

namespace MqttEngine.Tokio
open Checked Conn EventLoop

section
variable {E R S W : Type} {maxPacketSize : ℕ} {s : Conn E R S W maxPacketSize}

/-- The request publishes something. -/
def ClientRequest.IsPublish : ClientRequest R S → Prop
  | .publish _ _ | .publishBatch _ _ | .publishDatagram _ _ _ => True
  | .subscribe _ _ _ _ | .unsubscribe _ _ | .disconnect _ => False

/-- Who waits for the outcome of a request. -/
def ClientRequest.requester : ClientRequest R S → Option R
  | .publish _ ackSender | .publishBatch _ ackSender | .publishDatagram _ _ ackSender => ackSender
  | .subscribe _ _ respSender _ | .unsubscribe _ respSender | .disconnect respSender =>
    some respSender

/-! ## Packets of requests -/

theorem subscribePacket_eq (packetId : UInt16) (topic : String) (qos : QoS) :
    ∃ p : Subscribe, subscribePacket packetId topic qos = .subscribe p ∧ p.properties = .empty ∧
      p.topics.toList = [(topic, qos)] := by
  obtain ⟨topics, hpush, htopics⟩ :=
    BoundedVec.push_of_lt (v := (Subscribe.new packetId).topics) (by simp [Subscribe.new])
      (topic, qos)
  refine ⟨{ Subscribe.new packetId with topics }, ?_, rfl, htopics⟩
  rw [subscribePacket, Subscribe.addTopic, hpush]
  rfl

theorem unsubscribePacket_eq (packetId : UInt16) (topic : String) :
    ∃ p : Unsubscribe, unsubscribePacket packetId topic = .unsubscribe p ∧
      p.properties = .empty := by
  refine ⟨_, rfl, ?_⟩
  rw [Unsubscribe.addTopic]
  split <;> rfl

theorem short_connectPacket (options : ClientOptions) :
    (MqttPacket.connect (connectPacket options)).Short := by
  apply short_connect rfl
  intro will hwill
  obtain ⟨w, -, rfl⟩ := Option.map_eq_some_iff.mp hwill
  rfl

theorem short_subscribePacket (packetId : UInt16) (topic : String) (qos : QoS) :
    (subscribePacket packetId topic qos).Short := by
  obtain ⟨p, hp, hempty, -⟩ := subscribePacket_eq packetId topic qos
  rw [hp]
  exact short_subscribe hempty

theorem short_unsubscribePacket (packetId : UInt16) (topic : String) :
    (unsubscribePacket packetId topic).Short := by
  obtain ⟨p, hp, hempty⟩ := unsubscribePacket_eq packetId topic
  rw [hp]
  exact short_unsubscribe hempty

/-! ## What is done before a packet is sent -/

/-- The state in which a publish is sent. -/
def published (s : Conn E R S W maxPacketSize) (message : PublishMessage) (ackSender : Option R) :
    Conn E R S W maxPacketSize :=
  if message.qos ≠ .atMostOnce then tracked s message ackSender
  else
    { s with
      answers := s.answers ++ ackSender.toList.map fun sender => (sender, .done (.ok ())) }

@[simp] theorem socket_published (message : PublishMessage) (ackSender : Option R) :
    (published s message ackSender).socket = s.socket := by
  rw [published]
  split
  · exact socket_tracked message ackSender
  · rfl

@[simp] theorem options_published (message : PublishMessage) (ackSender : Option R) :
    (published s message ackSender).options = s.options := by
  rw [published]
  split
  · exact options_tracked message ackSender
  · rfl

theorem sendPublishDirect_eq (message : PublishMessage) (ackSender : Option R) (now : ℕ) :
    sendPublishDirect message ackSender now s =
      sendPacket (publishPacket message (takenId s message) message.dup) now
        (published s message ackSender) := by
  rw [sendPublishDirect, run_bind (trackPublish_eq message ackSender), takenId, published, tracked]
  by_cases hqos : message.qos = .atMostOnce
  · rcases ackSender with _ | sender
    · simp [hqos, sendSome]
    · simp [hqos, sendSome]
      rfl
  · simp [hqos]

/-- The state in which a SUBSCRIBE is sent. -/
def subscribed (s : Conn E R S W maxPacketSize) (topic : String) (qos : QoS)
    (streamSender : Option S) : Conn E R S W maxPacketSize :=
  let inserted (streamTx : S) : Except (ClientError E) (TopicRouter S) :=
    s.router.insert topic streamTx
  { s with
    nextPacketId := succPacketId s.nextPacketId
    router := streamSender.elim s.router fun streamTx => (inserted streamTx).toOption.getD s.router
    activeSubscriptions := s.activeSubscriptions.set topic qos }

theorem handle_subscribe (topic : String) (qos : QoS) (respSender : R) (streamSender : Option S)
    (now : ℕ) :
    handleClientRequest (.subscribe topic qos respSender streamSender) now s =
      (do
        sendPacket (subscribePacket s.nextPacketId topic qos) now
        modify fun t =>
          { t with inflightSubscribes := t.inflightSubscribes.set s.nextPacketId respSender } :
          ConnM E R S W maxPacketSize Unit) (subscribed s topic qos streamSender) := by
  cases streamSender <;> rfl

/-- The state in which an UNSUBSCRIBE is sent. -/
def unsubscribed (s : Conn E R S W maxPacketSize) (topic : String) : Conn E R S W maxPacketSize :=
  let removed : Except (ClientError E) (TopicRouter S) := s.router.remove topic
  { s with
    nextPacketId := succPacketId s.nextPacketId
    router := removed.toOption.getD s.router
    activeSubscriptions := s.activeSubscriptions.erase topic }

theorem handle_unsubscribe (topic : String) (respSender : R) (now : ℕ) :
    handleClientRequest (.unsubscribe topic respSender) now s =
      (do
        sendPacket (unsubscribePacket s.nextPacketId topic) now
        modify fun t =>
          { t with inflightUnsubscribes := t.inflightUnsubscribes.set s.nextPacketId respSender } :
          ConnM E R S W maxPacketSize Unit) (unsubscribed s topic) := rfl

/-! ## Programs that publish and subscribe -/

section
variable {C : MqttVersion → List UInt8 → Prop} {P : UInt8 → Prop}
  {I : Conn E R S W maxPacketSize → Prop}

theorem preserves_sendPublishDirect_of_transmits (hC : ∀ version, C version [])
    (hI : ∀ s s', I s → Transmits C s s' → I s') {message : PublishMessage} {ackSender : Option R}
    (hp : ∀ id, Extends C (publishPacket message id message.dup))
    (hpublished : ∀ s, I s → I (published s message ackSender)) (now : ℕ) :
    Preserves I (sendPublishDirect message ackSender now) := by
  intro s hs
  rw [Ends, sendPublishDirect_eq]
  exact preserves_of_transmits hI (fun _ => transmits_sendPacket hC (hp _) now) _ (hpublished s hs)

theorem preserves_sendPublishDirect (hI : ∀ s s', I s → Sends P s s' → I s')
    (hP : ∀ p : Publish, P p.header) {message : PublishMessage} {ackSender : Option R}
    (hpublished : ∀ s, I s → I (published s message ackSender)) (now : ℕ) :
    Preserves I (sendPublishDirect message ackSender now) :=
  preserves_sendPublishDirect_of_transmits heads_nil (fun s s' hs h => hI s s' hs h.sends)
    (fun _ => extends_heads (hP _)) hpublished now

theorem preserves_flushOfflineQueue {now : ℕ} {messages : List PublishMessage}
    (hpop : ∀ (s : Conn E R S W maxPacketSize) queue, queue ⊆ messages → I s →
      I { s with offlineQueue := queue })
    (hsend : ∀ message ∈ messages, Preserves I (sendPublishDirect message none now)) :
    Preserves I (flushOfflineQueue now messages) := by
  induction messages with
  | nil => exact Preserves.pure _
  | cons message messages ih =>
    apply Preserves.bind (Preserves.modify fun s hs => hpop s messages (by simp) hs)
    intro _
    apply Preserves.bind (preserves_ignore (hsend message (by simp)))
    intro _
    exact ih (fun s queue hqueue => hpop s queue (List.subset_cons_of_subset _ hqueue))
      fun message hmessage => hsend message (by simp [hmessage])

/-- The recovery of the session of `s` after the messages in flight: the subscriptions and the
offline queue. -/
def resubscribeAll (order : HashOrder) (now : ℕ) (s : Conn E R S W maxPacketSize) :
    ConnM E R S W maxPacketSize Unit := do
  if s.options.recovery.autoResubscribe ∧ s.activeSubscriptions ≠ [] then do
    (order.entries s.activeSubscriptions).forM fun (topic, qos) => do
      let pid ← getNextPacketId
      tryWritePacket (subscribePacket pid topic qos)
    ignore flush
  else pure ()
  flushOfflineQueue now s.offlineQueue

theorem performSessionDataRecovery_eq (order : HashOrder) (now : ℕ) :
    performSessionDataRecovery order now s =
      (do
        if s.options.recovery.resendUnackedInflight ∧ s.inflightPublishes ≠ [] then do
          (order.entries s.inflightPublishes).forM fun (pid, message, _) =>
            tryWritePacket (publishPacket message (some pid) true)
          ignore flush
        else pure ()
        resubscribeAll order now s : ConnM E R S W maxPacketSize Unit) s := rfl

theorem preserves_resubscribeAll {now : ℕ} (order : HashOrder) (hflush : Preserves I flush)
    (hresubscribe : ∀ e ∈ s.activeSubscriptions, Preserves I (do
      let pid ← getNextPacketId
      tryWritePacket (subscribePacket pid e.1 e.2)))
    (hqueue : Preserves I (flushOfflineQueue now s.offlineQueue)) :
    Preserves I (resubscribeAll order now s) := by
  apply Preserves.ite
  · intro _
    apply Preserves.bind (Preserves.forM fun e he =>
      hresubscribe e ((order.perm s.activeSubscriptions).mem_iff.mp he))
    intro _
    apply Preserves.bind (preserves_ignore hflush)
    intro _
    exact hqueue
  · intro _
    exact hqueue

theorem preserves_performSessionDataRecovery {now : ℕ} (order : HashOrder)
    (hresend : ∀ s, I s → s.options.recovery.resendUnackedInflight → ∀ e ∈ s.inflightPublishes,
      Preserves I (tryWritePacket (publishPacket e.2.1 (some e.1) true)))
    (hflush : Preserves I flush)
    (hresubscribe : ∀ s, I s → ∀ e ∈ s.activeSubscriptions, Preserves I (do
      let pid ← getNextPacketId
      tryWritePacket (subscribePacket pid e.1 e.2)))
    (hqueue : ∀ s, I s → Preserves I (flushOfflineQueue now s.offlineQueue)) :
    Preserves I (performSessionDataRecovery order now) := by
  intro s hs
  have hrest := preserves_resubscribeAll order hflush (hresubscribe s hs) (hqueue s hs)
  rw [Ends, performSessionDataRecovery_eq]
  refine Preserves.ite (fun hc => ?_) (fun _ => hrest) s hs
  apply Preserves.bind (Preserves.forM fun e he =>
    hresend s hs hc.1 e ((order.perm s.inflightPublishes).mem_iff.mp he))
  intro _
  apply Preserves.bind (preserves_ignore hflush)
  intro _
  exact hrest

theorem preserves_sendSome {sender : Option R} {answer : Answer E}
    (hanswer : ∀ s : Conn E R S W maxPacketSize, I s →
      I { s with answers := s.answers ++ sender.toList.map fun sender => (sender, answer) }) :
    Preserves I (sendSome sender answer) := by
  cases sender with
  | none => exact Preserves.pure _
  | some sender => exact Preserves.modify hanswer

theorem preserves_sendDisconnect_of_transmits (hC : ∀ version, C version [])
    (hI : ∀ s s', I s → Transmits C s s' → I s') (hp : Extends C (.disconnect .new))
    (hstatuses : ∀ (s : Conn E R S W maxPacketSize) statuses, I s → I { s with statuses }) :
    Preserves I sendDisconnect := by
  have hstatus : Preserves I (publishStatus .stopped) :=
    Preserves.modify fun s hs => hstatuses s _ hs
  have hflush : Preserves I (do
      ignore flush
      publishStatus .stopped) :=
    Preserves.bind (preserves_ignore (preserves_of_transmits hI fun _ => transmits_flush))
      fun _ => hstatus
  intro s hs
  apply Ends.bind
  apply (ends_encodeTx (Transmits.refl (s := s)) hp (loaded_zero hC s)).mono
  · rintro ((e | _ | _) | len) s' ⟨hs', -, hloaded⟩
    · exact hstatus s' (hI _ _ hs hs')
    · exact hI _ _ hs hs'
    · exact hI _ _ hs hs'
    · apply Ends.bind
      apply (ends_ignore (ends_writeTx hs' (by simpa using hloaded len rfl))).mono
      · exact fun _ t ht => hflush t (hI _ _ hs ht)
      · exact fun _ t ht => hI _ _ hs ht.2
  · exact fun _ s' hs' => hI _ _ hs hs'

theorem preserves_sendDisconnect (hI : ∀ s s', I s → Sends P s s' → I s') (hP : P 0xE0)
    (hstatuses : ∀ (s : Conn E R S W maxPacketSize) statuses, I s → I { s with statuses }) :
    Preserves I sendDisconnect :=
  preserves_sendDisconnect_of_transmits heads_nil (fun s s' hs h => hI s s' hs h.sends)
    (extends_heads hP) hstatuses

theorem preserves_publishBatch (hI : ∀ s s', I s → Sends P s s' → I s')
    (hP : ∀ p : Publish, P p.header) (htracked : ∀ s message, I s → I (tracked s message none))
    {ackSender : Option R}
    (hanswer : ∀ (s : Conn E R S W maxPacketSize) count, I s → I { s with
      answers := s.answers ++ ackSender.toList.map fun sender => (sender, .count (.ok count)) })
    (messages : List PublishMessage) (now : ℕ) :
    Preserves I (handleClientRequest (.publishBatch messages ackSender) now) := by
  apply Preserves.bind (preserves_sendPublishBatchDirect heads_nil
    (fun s s' hs h => hI s s' hs h.sends) (fun _ _ _ => extends_heads (hP _))
    (fun message _ s hs => htracked s message hs) now)
  intro count
  exact preserves_sendSome fun s hs => hanswer s count hs

theorem preserves_publishDatagram (hI : ∀ s s', I s → Sends P s s' → I s') {ackSender : Option R}
    (hanswer : ∀ (s : Conn E R S W maxPacketSize) result, I s → I { s with
      answers := s.answers ++ ackSender.toList.map fun sender => (sender, .done result) })
    (topic : String) (payload : List UInt8) (now : ℕ) :
    Preserves I (handleClientRequest (.publishDatagram topic payload ackSender) now) := by
  apply Preserves.bind (preserves_of_sends hI fun _ => sends_encodeTx 0 _)
  intro r
  apply Preserves.bind (preserves_lift _ _ _)
  intro len
  apply Preserves.bind (preserves_of_sends hI fun _ => sends_sendDatagram len)
  intro result
  exact preserves_sendSome fun s hs => hanswer s result hs

/-- Requests to publish. -/
theorem preserves_publishing (hI : ∀ s s', I s → Sends P s s' → I s') (hP : ∀ p : Publish, P p.header)
    (hpublished : ∀ s message ackSender, I s → I (published s message ackSender))
    (htracked : ∀ s message, I s → I (tracked s message none))
    (hanswers : ∀ (s : Conn E R S W maxPacketSize) answers, I s → I { s with answers })
    {request : ClientRequest R S} (hrequest : request.IsPublish) (now : ℕ) :
    Preserves I (handleClientRequest request now) := by
  cases request with
  | publish message ackSender =>
    exact preserves_sendPublishDirect hI hP (fun s hs => hpublished s message ackSender hs) now
  | publishBatch messages ackSender =>
    exact preserves_publishBatch hI hP htracked (fun s _ hs => hanswers s _ hs) messages now
  | publishDatagram topic payload ackSender =>
    exact preserves_publishDatagram hI (fun s _ hs => hanswers s _ hs) topic payload now
  | _ => cases hrequest

/-- A subscription keeps what it and its SUBSCRIBE keep. -/
theorem ends_subscribe {topic : String} {qos : QoS} {streamSender : Option S} {now : ℕ}
    (hs : I (subscribed s topic qos streamSender))
    (hsend : Preserves I (sendPacket (subscribePacket s.nextPacketId topic qos) now))
    (hset : ∀ (t : Conn E R S W maxPacketSize) inflightSubscribes, I t →
      I { t with inflightSubscribes }) (respSender : R) :
    Ends (handleClientRequest (.subscribe topic qos respSender streamSender) now) s (fun _ => I)
      fun _ => I := by
  have hrest : Preserves I (do
      sendPacket (subscribePacket s.nextPacketId topic qos) now
      modify fun t =>
        { t with inflightSubscribes := t.inflightSubscribes.set s.nextPacketId respSender } :
      ConnM E R S W maxPacketSize Unit) := by
    apply Preserves.bind hsend
    intro _
    exact Preserves.modify fun t ht => hset t _ ht
  rw [Ends, handle_subscribe]
  exact hrest _ hs

/-- The end of a subscription keeps what it and its UNSUBSCRIBE keep. -/
theorem ends_unsubscribe {topic : String} {now : ℕ} (hs : I (unsubscribed s topic))
    (hsend : Preserves I (sendPacket (unsubscribePacket s.nextPacketId topic) now))
    (hset : ∀ (t : Conn E R S W maxPacketSize) inflightUnsubscribes, I t →
      I { t with inflightUnsubscribes }) (respSender : R) :
    Ends (handleClientRequest (.unsubscribe topic respSender) now) s (fun _ => I) fun _ => I := by
  have hrest : Preserves I (do
      sendPacket (unsubscribePacket s.nextPacketId topic) now
      modify fun t =>
        { t with inflightUnsubscribes := t.inflightUnsubscribes.set s.nextPacketId respSender } :
      ConnM E R S W maxPacketSize Unit) := by
    apply Preserves.bind hsend
    intro _
    exact Preserves.modify fun t ht => hset t _ ht
  rw [Ends, handle_unsubscribe]
  exact hrest _ hs

end

/-! ## Connecting -/

/-- The handshake over a transport that has been opened. -/
def handshake (self : EventLoop E R S W maxPacketSize) (socket : Socket E) :
    EStateM.Result (Fault (ClientError E)) (Conn E R S W maxPacketSize) Unit :=
  performConnectHandshake { self.startAttempt with socket := socket.opened }

/-- The broker accepts the connection. -/
def accepts (self : EventLoop E R S W maxPacketSize) (socket : Socket E) : Bool :=
  match handshake self socket with
  | .ok _ _ => true
  | .error _ _ => false

theorem accepts_iff {self : EventLoop E R S W maxPacketSize} {socket : Socket E} :
    accepts self socket ↔ ∃ c, handshake self socket = .ok () c := by
  rw [accepts]
  split <;> simp_all

/-- An attempt with a result has had a delay. -/
theorem connectAttempt_eq_some {self : EventLoop E R S W maxPacketSize} {order : HashOrder}
    {dial : Except (ClientError E) (Socket E)} {now : ℕ}
    {result : Attempt E × EventLoop E R S W maxPacketSize × Option (Socket E)} :
    self.connectAttempt order dial now = some result ↔
      (∃ delay, self.options.reconnect.computeDelay (self.reconnectAttempt + 1) = some delay) ∧
        self.startAttempt.finishAttempt order dial now = some result := by
  rw [connectAttempt]
  split <;> simp_all

/-- How an attempt to connect leaves the loop: without a transport, after a handshake that has
failed, or connected. -/
theorem connectAttempt_cases {I : Conn E R S W maxPacketSize → Prop}
    {self loop : EventLoop E R S W maxPacketSize} {order : HashOrder}
    {dial : Except (ClientError E) (Socket E)} {now : ℕ} {attempt : Attempt E}
    {socket : Option (Socket E)}
    (hstart : ∀ socket, dial = .ok socket → I { self.startAttempt with socket })
    (hhandshake : Preserves I performConnectHandshake)
    (hconnected : ∀ s : Conn E R S W maxPacketSize, I s → I { s with
      reconnectAttempt := 0, statuses := s.statuses ++ [.connected], lastTx := now })
    (hrecovery : Preserves I (performSessionDataRecovery order now))
    (h : self.connectAttempt order dial now = some (attempt, loop, socket)) :
    (loop = self.startAttempt ∧ socket = none) ∨
      ∃ s, I s ∧
        (loop = s.toEventLoop ∧ loop.transport = self.transport ∧ socket = some s.socket ∨
          loop = { s.toEventLoop with transport := some s.socket } ∧ socket = none) := by
  obtain ⟨-, h⟩ := connectAttempt_eq_some.mp h
  rw [finishAttempt.eq_def] at h
  rcases dial with e | opened
  · cases h
    exact .inl ⟨rfl, rfl⟩
  right
  let s : Conn E R S W maxPacketSize := { self.startAttempt with socket := opened }
  have hs : I s := hstart opened rfl
  have hsends := sends_performConnectHandshake (P := fun _ => True) trivial s .refl
  dsimp only at h
  rcases hrun : performConnectHandshake s with ⟨u, s'⟩ | ⟨(e | _ | _), s'⟩
  · let t : Conn E R S W maxPacketSize :=
      { s' with reconnectAttempt := 0, statuses := s'.statuses ++ [.connected], lastTx := now }
    have ht := hrecovery t (hconnected s' ((hhandshake s hs).ok_of hrun))
    rw [hrun] at h
    dsimp only at h
    rcases hrun' : performSessionDataRecovery order now t with ⟨u, c⟩ | ⟨(e | _ | _), c⟩
    · rw [hrun'] at h
      cases h
      exact ⟨c, ht.ok_of hrun', .inr ⟨rfl, rfl⟩⟩
    · rw [hrun'] at h
      cases h
      exact ⟨c, ht.error_of hrun', .inr ⟨rfl, rfl⟩⟩
    · rw [hrun'] at h
      cases h
    · rw [hrun'] at h
      cases h
  · have htransport : s'.transport = self.transport := by
      rw [congrArg EventLoop.transport (hsends.error_of hrun).loop]
      rfl
    rw [hrun] at h
    cases h
    exact ⟨s', (hhandshake s hs).error_of hrun, .inl ⟨rfl, htransport, rfl⟩⟩
  · rw [hrun] at h
    cases h
  · rw [hrun] at h
    cases h

/-! ## Completions -/

/-- The state after a publish has been acknowledged. -/
def completedPublish (s : Conn E R S W maxPacketSize) (packetId : UInt16) :
    Conn E R S W maxPacketSize :=
  { s with
    inflightPublishes := s.inflightPublishes.erase packetId
    answers := s.answers ++
      ((s.inflightPublishes.get? packetId).bind (·.2)).toList.map fun sender =>
        (sender, .done (.ok ())) }

/-- The state after a SUBSCRIBE has been acknowledged. -/
def completedSubscribe (s : Conn E R S W maxPacketSize) (packetId : UInt16) :
    Conn E R S W maxPacketSize :=
  { s with
    inflightSubscribes := s.inflightSubscribes.erase packetId
    answers := s.answers ++
      (s.inflightSubscribes.get? packetId).toList.map fun sender =>
        (sender, .packetId (.ok packetId)) }

/-- The state after an UNSUBSCRIBE has been acknowledged. -/
def completedUnsubscribe (s : Conn E R S W maxPacketSize) (packetId : UInt16) :
    Conn E R S W maxPacketSize :=
  { s with
    inflightUnsubscribes := s.inflightUnsubscribes.erase packetId
    answers := s.answers ++
      (s.inflightUnsubscribes.get? packetId).toList.map fun sender =>
        (sender, .packetId (.ok packetId)) }

theorem sendSome_eq (sender : Option R) (answer : Answer E) :
    sendSome sender answer s =
      .ok () { s with answers := s.answers ++ sender.toList.map fun sender => (sender, answer) } := by
  cases sender with
  | none => simp [sendSome, pure, EStateM.pure]
  | some sender => rfl

section
variable [DecidableEq S] (ch : Mpsc W S PublishMessage) (packetId : UInt16) (now : ℕ)

theorem performAction_pubAck :
    performAction ch now (.pubAck packetId) s = .ok () (completedPublish s packetId) :=
  sendSome_eq (s := { s with inflightPublishes := s.inflightPublishes.erase packetId }) _ _

theorem performAction_subAck :
    performAction ch now (.subAck packetId) s = .ok () (completedSubscribe s packetId) :=
  sendSome_eq (s := { s with inflightSubscribes := s.inflightSubscribes.erase packetId }) _ _

theorem performAction_unsubAck :
    performAction ch now (.unsubAck packetId) s = .ok () (completedUnsubscribe s packetId) :=
  sendSome_eq (s := { s with inflightUnsubscribes := s.inflightUnsubscribes.erase packetId }) _ _

/-- Acting on a frame keeps what the use of the transport, the router and the completions keep. -/
theorem preserves_handle_of_transmits {C : MqttVersion → List UInt8 → Prop}
    {I : Conn E R S W maxPacketSize → Prop} (hC : ∀ version, C version [])
    (hI : ∀ s s', I s → Transmits C s s' → I s')
    (hp : ∀ packetId, Extends C (.pubAck (Ack.new packetId)))
    (hdispatch : ∀ (s : Conn E R S W maxPacketSize) router channels, I s →
      I { s with router, channels })
    (hpubAck : ∀ s packetId, I s → I (completedPublish s packetId))
    (hsubAck : ∀ s packetId, I s → I (completedSubscribe s packetId))
    (hunsubAck : ∀ s packetId, I s → I (completedUnsubscribe s packetId)) (received : Received) :
    Preserves I (handle ch now received) := by
  unfold handle
  split
  · rename_i action _
    cases action with
    | publish message =>
      apply Preserves.bind (preserves_of_transmits hI fun _ =>
        transmits_acknowledgePublish hC hp message now)
      intro _
      exact Preserves.modify fun s hs => hdispatch s _ _ hs
    | pubAck packetId =>
      intro s hs
      rw [Ends, performAction_pubAck]
      exact hpubAck s packetId hs
    | subAck packetId =>
      intro s hs
      rw [Ends, performAction_subAck]
      exact hsubAck s packetId hs
    | unsubAck packetId =>
      intro s hs
      rw [Ends, performAction_unsubAck]
      exact hunsubAck s packetId hs
    | pingResp => exact Preserves.pure _
    | disconnect => exact Preserves.throw _
  · exact Preserves.pure _

theorem preserves_handle {P : UInt8 → Prop} {I : Conn E R S W maxPacketSize → Prop}
    (hI : ∀ s s', I s → Sends P s s' → I s') (hP : P 0x40)
    (hdispatch : ∀ (s : Conn E R S W maxPacketSize) router channels, I s →
      I { s with router, channels })
    (hpubAck : ∀ s packetId, I s → I (completedPublish s packetId))
    (hsubAck : ∀ s packetId, I s → I (completedSubscribe s packetId))
    (hunsubAck : ∀ s packetId, I s → I (completedUnsubscribe s packetId)) (received : Received) :
    Preserves I (handle ch now received) :=
  preserves_handle_of_transmits ch now heads_nil (fun s s' hs h => hI s s' hs h.sends)
    (fun _ => extends_heads hP) hdispatch hpubAck hsubAck hunsubAck received

end

end

end MqttEngine.Tokio
