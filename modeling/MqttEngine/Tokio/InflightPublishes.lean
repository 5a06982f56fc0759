import MqttEngine.Lib.Assoc
import MqttEngine.Tokio.PendingIds

/-!
# The publishes in flight

A publish of QoS 1 or 2 is in flight from when the loop takes it up until a PUBACK ends it. The
history of a run lists these publishes with their packet ids (`LoopSystem.sends`), and what is in
flight is computed from it (`pending_step`): the latest publish under each id that has not been
acknowledged. Connecting adds nothing, because the offline queue is always empty: requests wait in
their channel while there is no connection.

`DataRecoveryPolicy` has a bound on what is in flight, but nothing reads it. `inflight_le` says in
which runs it is kept all the same.

## Main definitions

* `publishSends`, `LoopSystem.sends`, `LoopSystem.history` — the publishes with their packet ids.
* `EventLoop.pending` — what is in flight.

## Main results

* `offlineQueue_nil` — the offline queue is always empty.
* `pending_step`, `latest_history` — what is in flight after a step, and after a run.
* `inflight_le` — when the bound is kept.
-/

namespace MqttEngine.Tokio
open Checked Conn EventLoop

section
variable {E R S W : Type} {maxPacketSize : ℕ}

/-! ## What is sent -/

/-- Publishes with the packet ids that they take. -/
def publishSends : List PublishMessage → UInt16 → List (UInt16 × PublishMessage)
  | [], _ => []
  | message :: messages, next =>
    if message.qos ≠ .atMostOnce then
      (next, { message with packetId := some next }) :: publishSends messages (succPacketId next)
    else publishSends messages next

/-- The messages of a request. -/
def ClientRequest.messages : ClientRequest R S → List PublishMessage
  | .publish message _ => [message]
  | .publishBatch messages _ => messages
  | _ => []

/-- The publishes of a request, as far as it gets. -/
def requestPublishes (s : Conn E R S W maxPacketSize) : ClientRequest R S → List PublishMessage
  | .publish message _ => [message]
  | .publishBatch messages _ => reached messages 0 0 s
  | _ => []

theorem length_publishSends (messages : List PublishMessage) (next : UInt16) :
    (publishSends messages next).length = messages.countP (·.qos ≠ .atMostOnce) := by
  induction messages generalizing next with
  | nil => rfl
  | cons message messages ih =>
    rw [publishSends, List.countP_cons]
    split
    · rename_i hqos
      rw [List.length_cons, ih, if_pos (by simpa using hqos)]
    · rename_i hqos
      rw [ih, if_neg (by simpa using hqos), Nat.add_zero]

/-- A batch reaches no more than its messages. -/
theorem reached_sublist (messages : List PublishMessage) (cursor count : ℕ)
    (s : Conn E R S W maxPacketSize) : (reached messages cursor count s).Sublist messages := by
  induction messages generalizing cursor count s with
  | nil => exact .slnil
  | cons message messages ih =>
    rw [reached]
    apply List.Sublist.cons_cons
    split
    · exact ih _ _ _
    · exact List.nil_sublist _

/-- A request takes up no more publishes than it is for. -/
theorem length_requestPublishes_le (s : Conn E R S W maxPacketSize) (request : ClientRequest R S)
    (next : UInt16) :
    (publishSends (requestPublishes s request) next).length ≤
      request.messages.countP (·.qos ≠ .atMostOnce) := by
  rw [length_publishSends]
  apply List.Sublist.countP_le
  cases request with
  | publishBatch messages ackSender => exact reached_sublist messages 0 0 s
  | _ => exact List.Sublist.refl _

namespace LoopSystem

/-- The publishes that an event takes up, with their packet ids. -/
def sends (self : LoopSystem E R S W maxPacketSize) :
    Event E R S W → List (UInt16 × PublishMessage)
  | .request (some request) _ =>
    match self.phase with
    | .driving socket _ _ =>
      publishSends (requestPublishes { self.loop with socket } request) self.loop.nextPacketId
    | _ => []
  | _ => []

/-- All publishes of a run. -/
def history (steps : List (Step E R S W maxPacketSize)) : List (UInt16 × PublishMessage) :=
  steps.flatMap fun x => x.before.sends x.event

end LoopSystem

/-- The publishes in flight with their packet ids. -/
def EventLoop.pending (self : EventLoop E R S W maxPacketSize) : Assoc UInt16 PublishMessage :=
  self.inflightPublishes.mapValues (·.1)

theorem EventLoop.pending_congr {self loop : EventLoop E R S W maxPacketSize}
    (h : loop.inflightPublishes = self.inflightPublishes) : loop.pending = self.pending := by
  rw [pending, h, pending]

theorem length_pending (self : EventLoop E R S W maxPacketSize) :
    self.pending.length = self.inflightPublishes.length := List.length_map _

/-! ## Programs -/

section
variable {s s' : Conn E R S W maxPacketSize}

theorem pending_tracked (message : PublishMessage) (ackSender : Option R) :
    (tracked s message ackSender).pending =
      s.pending.setAll (publishSends [message] s.nextPacketId) := by
  rw [tracked, publishSends]
  split
  · exact Assoc.mapValues_set _
  · rfl

theorem nextPacketId_tracked (message : PublishMessage) (ackSender : Option R) :
    (tracked s message ackSender).nextPacketId =
      if message.qos ≠ .atMostOnce then succPacketId s.nextPacketId else s.nextPacketId := by
  rw [tracked]
  split <;> rfl

theorem publishSends_cons (message : PublishMessage) (messages : List PublishMessage) :
    publishSends (message :: messages) s.nextPacketId =
      publishSends [message] s.nextPacketId ++
        publishSends messages (tracked s message none).nextPacketId := by
  rw [nextPacketId_tracked, publishSends, publishSends]
  split <;> rfl

theorem pending_trackedAll (messages : List PublishMessage) :
    (trackedAll messages s).pending = s.pending.setAll (publishSends messages s.nextPacketId) := by
  induction messages generalizing s with
  | nil => rfl
  | cons message messages ih =>
    rw [trackedAll, ih, pending_tracked, publishSends_cons message messages, Assoc.setAll_append]

/-- The offline queue is empty, and what is in flight is as given. -/
structure Rests (inflight : Assoc UInt16 (PublishMessage × Option R))
    (s : Conn E R S W maxPacketSize) : Prop where
  queue : s.offlineQueue = []
  inflight : s.inflightPublishes = inflight

variable {inflight : Assoc UInt16 (PublishMessage × Option R)}

theorem Rests.pending (h : Rests s.inflightPublishes s') : s'.pending = s.pending :=
  pending_congr h.inflight

theorem rests_of_sends {P : UInt8 → Prop} (h : Rests inflight s) (hsends : Sends P s s') :
    Rests inflight s' :=
  ⟨(congrArg EventLoop.offlineQueue hsends.loop).trans h.queue,
    (congrArg EventLoop.inflightPublishes hsends.loop).trans h.inflight⟩

theorem rests_sends {α : Type} {x : ConnM E R S W maxPacketSize α}
    (h : ∀ s₀, Preserves (Sends (fun _ => True) s₀) x) : Preserves (Rests inflight) x :=
  preserves_of_sends (fun _ _ => rests_of_sends) h

/-- Requests that take up no publish. -/
theorem rests_handleClientRequest {request : ClientRequest R S}
    (hpublish : ∀ message sender, request ≠ .publish message sender)
    (hbatch : ∀ messages sender, request ≠ .publishBatch messages sender) (now : ℕ) :
    Preserves (Rests inflight : Conn E R S W maxPacketSize → Prop)
      (handleClientRequest request now) := by
  cases request with
  | publish message ackSender => exact absurd rfl (hpublish message ackSender)
  | publishBatch messages ackSender => exact absurd rfl (hbatch messages ackSender)
  | publishDatagram topic payload ackSender =>
    exact preserves_publishDatagram (fun _ _ => rests_of_sends (P := fun _ => True))
      (fun _ _ hs => ⟨hs.queue, hs.inflight⟩) topic payload now
  | subscribe topic qos respSender streamSender =>
    exact fun s hs => ends_subscribe (I := Rests inflight) ⟨hs.queue, hs.inflight⟩
      (rests_sends fun _ => sends_sendPacket trivial now) (fun _ _ h => ⟨h.queue, h.inflight⟩)
      respSender
  | unsubscribe topic respSender =>
    exact fun s hs => ends_unsubscribe (I := Rests inflight) ⟨hs.queue, hs.inflight⟩
      (rests_sends fun _ => sends_sendPacket trivial now) (fun _ _ h => ⟨h.queue, h.inflight⟩)
      respSender
  | disconnect respSender =>
    apply Preserves.bind (preserves_sendDisconnect (P := fun _ => True)
        (fun _ _ => rests_of_sends) trivial
      fun _ _ hs => ⟨hs.queue, hs.inflight⟩)
    intro _
    apply Preserves.bind (Preserves.modify fun _ hs => ⟨hs.queue, hs.inflight⟩)
    intro _
    exact Preserves.throw _

/-- No request touches the offline queue. -/
theorem queue_handleClientRequest (request : ClientRequest R S) (now : ℕ) :
    Preserves (fun s : Conn E R S W maxPacketSize => s.offlineQueue = [])
      (handleClientRequest request now) := by
  have hsends (s s' : Conn E R S W maxPacketSize) (hs : s.offlineQueue = [])
      (h : Sends (fun _ => True) s s') : s'.offlineQueue = [] :=
    (congrArg EventLoop.offlineQueue h.loop).trans hs
  have htracked (s : Conn E R S W maxPacketSize) (message : PublishMessage) (ackSender : Option R)
      (hs : s.offlineQueue = []) : (tracked s message ackSender).offlineQueue = [] := by
    rw [tracked]
    split <;> exact hs
  by_cases hpublish : request.IsPublish
  · refine preserves_publishing hsends (fun _ => trivial) (fun s message ackSender hs => ?_)
      (fun s message hs => htracked s message none hs) (fun _ _ hs => hs) hpublish now
    rw [published]
    split
    · exact htracked s message ackSender hs
    · exact hs
  · intro s hs
    have hrests : Ends (handleClientRequest request now) s (fun _ s' => Rests s.inflightPublishes s')
        fun _ s' => Rests s.inflightPublishes s' :=
      rests_handleClientRequest (by rintro _ _ rfl; exact hpublish trivial)
        (by rintro _ _ rfl; exact hpublish trivial) now s ⟨hs, rfl⟩
    exact hrests.mono (fun _ _ h => h.queue) fun _ _ h => h.queue

/-- A request takes up its publishes, whatever it ends in. -/
theorem pending_handleClientRequest (request : ClientRequest R S) (now : ℕ)
    (hqueue : s.offlineQueue = []) :
    Ends (handleClientRequest request now) s
      (fun _ s' => s'.pending =
        s.pending.setAll (publishSends (requestPublishes s request) s.nextPacketId))
      fun _ s' => s'.pending =
        s.pending.setAll (publishSends (requestPublishes s request) s.nextPacketId) := by
  cases request with
  | publish message ackSender =>
    have htracked := pending_tracked message ackSender (s := s)
    exact (unmoved_sendPublishDirect message ackSender now).mono
      (fun _ _ h => (pending_congr h.publishes).trans htracked)
      fun _ _ h => (pending_congr h.publishes).trans htracked
  | publishBatch messages ackSender =>
    have htracked := pending_trackedAll (reached messages 0 0 s) (s := s)
    exact (unmoved_publishBatch messages ackSender now).mono
      (fun _ _ h => (pending_congr h.publishes).trans htracked)
      fun _ _ h => (pending_congr h.publishes).trans htracked
  | _ =>
    exact (rests_handleClientRequest (by simp) (by simp) now s ⟨hqueue, rfl⟩).mono
      (fun _ _ h => h.pending) fun _ _ h => h.pending

/-- With nothing in the offline queue the recovery of a session takes up no publish. -/
theorem rests_performSessionDataRecovery (order : HashOrder) (now : ℕ) :
    Preserves (Rests inflight : Conn E R S W maxPacketSize → Prop)
      (performSessionDataRecovery order now) := by
  apply preserves_performSessionDataRecovery
  · exact fun _ _ _ _ _ => rests_sends fun _ => sends_tryWritePacket trivial
  · exact rests_sends fun _ => sends_flush
  · intro _ _ e _
    have hnext : Preserves (Rests inflight : Conn E R S W maxPacketSize → Prop) getNextPacketId :=
      fun _ hs => ⟨hs.queue, hs.inflight⟩
    exact Preserves.bind hnext fun pid => rests_sends fun _ => sends_tryWritePacket trivial
  · intro s hs
    rw [hs.queue]
    exact Preserves.pure _

theorem rests_connectAttempt {self loop : EventLoop E R S W maxPacketSize} {order : HashOrder}
    {dial : Except (ClientError E) (Socket E)} {now : ℕ} {attempt : Attempt E}
    {socket : Option (Socket E)} (hqueue : self.offlineQueue = [])
    (h : self.connectAttempt order dial now = some (attempt, loop, socket)) :
    loop.offlineQueue = [] ∧ loop.inflightPublishes = self.inflightPublishes := by
  rcases connectAttempt_cases (I := Rests self.inflightPublishes) (fun _ _ => ⟨hqueue, rfl⟩)
    (rests_sends fun _ => sends_performConnectHandshake trivial)
    (fun _ hs => ⟨hs.queue, hs.inflight⟩) (rests_performSessionDataRecovery order now) h with
    ⟨rfl, -⟩ | ⟨s, hs, ⟨rfl, -, -⟩ | ⟨rfl, -⟩⟩
  · exact ⟨hqueue, rfl⟩
  · exact ⟨hs.queue, hs.inflight⟩
  · exact ⟨hs.queue, hs.inflight⟩

/-- A frame that is acted on ends at most one publish. -/
theorem pending_handle [DecidableEq S] (ch : Mpsc W S PublishMessage) (received : Received) (now : ℕ)
    (hqueue : s.offlineQueue = []) :
    Ends (handle ch now received) s
      (fun _ s' => s'.offlineQueue = [] ∧
        s'.pending = (acknowledgedId received.packet).elim s.pending s.pending.erase)
      fun _ s' => s'.offlineQueue = [] ∧
        s'.pending = (acknowledgedId received.packet).elim s.pending s.pending.erase := by
  have hquiet {x : ConnM E R S W maxPacketSize Unit} (h : Preserves (Rests s.inflightPublishes) x) :
      Ends x s (fun _ s' => s'.offlineQueue = [] ∧ s'.pending = s.pending)
        fun _ s' => s'.offlineQueue = [] ∧ s'.pending = s.pending :=
    (h s ⟨hqueue, rfl⟩).mono (fun _ _ h => ⟨h.queue, h.pending⟩) fun _ _ h => ⟨h.queue, h.pending⟩
  obtain ⟨frame, packet⟩ := received
  cases packet with
  | publish p =>
    apply hquiet
    apply Preserves.bind (rests_sends fun _ => sends_acknowledgePublish _ now trivial)
    intro _
    exact Preserves.modify fun _ hs => ⟨hs.queue, hs.inflight⟩
  | pubAck ack =>
    change Ends (performAction ch now (.pubAck ack.packetId)) s _ _
    rw [Ends, performAction_pubAck]
    exact ⟨hqueue, Assoc.mapValues_erase _⟩
  | subAck suback =>
    change Ends (performAction ch now (.subAck suback.packetId)) s _ _
    rw [Ends, performAction_subAck]
    exact ⟨hqueue, rfl⟩
  | unsubAck unsuback =>
    change Ends (performAction ch now (.unsubAck unsuback.packetId)) s _ _
    rw [Ends, performAction_unsubAck]
    exact ⟨hqueue, rfl⟩
  | disconnect d => exact hquiet (Preserves.throw _)
  | _ => exact hquiet (Preserves.pure _)

end

/-! ## Runs -/

namespace LoopSystem
variable [DecidableEq S] {ch : Mpsc W S PublishMessage} {order : HashOrder}
  {s t : LoopSystem E R S W maxPacketSize} {event : Event E R S W}

/-- What is in flight after an event, with nothing in the offline queue. -/
theorem pending_step (hqueue : s.loop.offlineQueue = []) (h : s.step ch order event = some t) :
    t.loop.offlineQueue = [] ∧ t.loop.pending =
      (s.acknowledged event).elim (s.loop.pending.setAll (s.sends event))
        (s.loop.pending.setAll (s.sends event)).erase := by
  have hrests {α : Type} {x : ConnM E R S W maxPacketSize α} {c : Conn E R S W maxPacketSize}
      (hc : c.offlineQueue = []) (h : Preserves (Rests c.inflightPublishes) x) :
      Ends x c (fun _ c' => c'.offlineQueue = [] ∧ c'.pending = c.pending)
        fun _ c' => c'.offlineQueue = [] ∧ c'.pending = c.pending :=
    (h c ⟨hc, rfl⟩).mono (fun _ _ h => ⟨h.queue, h.pending⟩) fun _ _ h => ⟨h.queue, h.pending⟩
  refine loop_step (Q := fun loop => loop.offlineQueue = [] ∧ loop.pending =
    (s.acknowledged event).elim (s.loop.pending.setAll (s.sends event))
      (s.loop.pending.setAll (s.sends event)).erase) h (fun _ _ _ hloop => hloop) ?_
  cases event with
  | attempt dial now =>
    intro attempt loop socket hattempt
    obtain ⟨hloop, hinflight⟩ := rests_connectAttempt hqueue hattempt
    exact ⟨hloop, pending_congr hinflight⟩
  | enter => exact ⟨hqueue, rfl⟩
  | read =>
    intro socket rxCursor _
    exact hrests (c := { s.loop with socket }) hqueue
      (rests_sends fun _ => sends_receiveFrames rxCursor)
  | handle now =>
    intro socket rxCursor received later hphase
    have hid : s.acknowledged (.handle now) = acknowledgedId received.packet := by
      simp [acknowledged, hphase]
    rw [hid]
    exact pending_handle ch received now (s := { s.loop with socket }) hqueue
  | request request now =>
    intro socket rxCursor hphase
    rcases request with _ | request
    · exact hrests (c := { s.loop with socket }) (x := driveRequest none now) hqueue
        (Preserves.bind (preserves_ignore (preserves_sendDisconnect (P := fun _ => True)
            (fun _ _ => rests_of_sends) trivial
          fun _ _ hs => ⟨hs.queue, hs.inflight⟩)) fun _ => Preserves.pure _)
    · have hsends : s.sends (.request (some request) now) =
          publishSends (requestPublishes { s.loop with socket } request)
            s.loop.nextPacketId := by
        simp [sends, hphase]
      rw [hsends]
      exact Ends.bind ((queue_handleClientRequest request now { s.loop with socket } hqueue).and
        (pending_handleClientRequest request now hqueue))
  | tick now =>
    intro socket rxCursor _
    exact hrests (c := { s.loop with socket }) hqueue
      (rests_sends fun _ => sends_driveTick trivial now)
  | arrive segment => exact ⟨hqueue, rfl⟩
  | channels w => exact ⟨hqueue, rfl⟩

variable {options : ClientOptions} {channels : W} {now : ℕ}
  {steps : List (Step E R S W maxPacketSize)}

theorem offlineQueue_of_runs {ok : LoopSystem E R S W maxPacketSize → Event E R S W → Prop}
    (h : Runs ch order ok (start options channels now) s) : s.loop.offlineQueue = [] :=
  h.invariant (I := fun s => s.loop.offlineQueue = []) rfl
    fun _ _ _ hs _ hstep => (pending_step hs hstep).1

/-- The offline queue is always empty, and what is in flight has distinct packet ids. -/
theorem distinct_pending (h : Traced ch order (start options channels now) steps s) :
    s.loop.offlineQueue = [] ∧ s.loop.pending.keys.Nodup := by
  induction h with
  | start => exact ⟨rfl, List.nodup_nil⟩
  | step hrun hstep ih =>
    obtain ⟨hqueue, hpending⟩ := pending_step ih.1 hstep
    have hset := Assoc.nodup_keys_setAll ih.2
    refine ⟨hqueue, ?_⟩
    rw [hpending]
    cases acknowledged _ _ with
    | none => exact hset _
    | some packetId => exact Assoc.nodup_keys_erase (hset _)

theorem offlineQueue_nil (h : Traced ch order (start options channels now) steps s) :
    s.loop.offlineQueue = [] := (distinct_pending h).1

/-- Every publish in flight is the latest of the run under its packet id. -/
theorem latest_history (h : Traced ch order (start options channels now) steps s) :
    ∀ e ∈ s.loop.pending, Machine.Latest (fun x => x.1 ≠ e.1) e (history steps) := by
  induction h with
  | start => exact fun e he => absurd he List.not_mem_nil
  | step hrun hstep ih =>
    obtain ⟨-, hpending⟩ := pending_step (offlineQueue_nil hrun) hstep
    have hlatest := Assoc.latest_setAll ih
    intro e he
    rw [hpending] at he
    rw [history, List.flatMap_append, List.flatMap_singleton]
    revert he
    cases acknowledged _ _ with
    | none => exact hlatest _ e
    | some packetId => exact fun he => hlatest _ e (Assoc.mem_erase.mp he).1

/-! ## The bound -/

/-- The request of a step that comes on a connection is for publishes whose number above QoS 0,
together with what is in flight, is at most `max`, or it is for none of them. -/
def Step.HasRoom (max : ℕ) (x : Step E R S W maxPacketSize) : Prop :=
  match x.before.phase, x.event with
  | .driving .., .request (some request) _ =>
    let count := request.messages.countP (·.qos ≠ .atMostOnce)
    count ≠ 0 → x.before.loop.inflightPublishes.length + count ≤ max
  | _, _ => True

instance (max : ℕ) (x : Step E R S W maxPacketSize) : Decidable (x.HasRoom max) := by
  unfold Step.HasRoom
  split <;> infer_instance

omit [DecidableEq S] in
/-- A step with room takes up no more publishes than there is room for. -/
theorem hasRoom_sends {max : ℕ} (h : (Step.mk s event t).HasRoom max)
    (hsends : s.sends event ≠ []) :
    s.loop.inflightPublishes.length + (s.sends event).length ≤ max := by
  cases event with
  | request request now =>
    rcases request with _ | request
    · exact absurd rfl hsends
    · cases hphase : s.phase with
      | driving socket rxCursor received =>
        have hsame : s.sends (.request (some request) now) =
            publishSends (requestPublishes { s.loop with socket } request) s.loop.nextPacketId := by
          simp [sends, hphase]
        have hcount := length_requestPublishes_le { s.loop with socket } request s.loop.nextPacketId
        rw [hsame] at hsends ⊢
        have hpos := List.length_pos_iff.mpr hsends
        simp only [Step.HasRoom, hphase] at h
        have hroom := h (by omega)
        omega
      | _ => simp [sends, hphase] at hsends
  | _ => exact absurd rfl hsends

/-- A publish takes at most one place. -/
theorem length_step (h : Traced ch order (start options channels now) steps s)
    (hstep : s.step ch order event = some t) :
    t.loop.inflightPublishes.length ≤
      s.loop.inflightPublishes.length + (s.sends event).length := by
  have hqueue := offlineQueue_nil h
  obtain ⟨-, hpending⟩ := pending_step hqueue hstep
  have hset := Assoc.length_setAll_le s.loop.pending (s.sends event)
  rw [← length_pending t.loop, ← length_pending s.loop, hpending]
  cases s.acknowledged event with
  | none => exact hset
  | some packetId => exact (List.length_filter_le _ _).trans hset

/-- **The bound is kept in every state of a run whose requests to publish all find room.** -/
theorem inflight_le (h : Traced ch order (start options channels now) steps s)
    (hroom : ∀ x ∈ steps, x.HasRoom options.recovery.maxInflight) :
    ∀ x ∈ steps, x.after.loop.inflightPublishes.length ≤ options.recovery.maxInflight := by
  suffices hboth : (∀ x ∈ steps, x.after.loop.inflightPublishes.length ≤
      options.recovery.maxInflight) ∧
        s.loop.inflightPublishes.length ≤ options.recovery.maxInflight from hboth.1
  induction h with
  | start => exact ⟨by simp, Nat.zero_le _⟩
  | @step steps s t event hrun hstep ih =>
    rw [List.forall_mem_append, List.forall_mem_singleton] at hroom
    obtain ⟨hall, hbefore⟩ := ih hroom.1
    have hafter : t.loop.inflightPublishes.length ≤ options.recovery.maxInflight := by
      have hlength := length_step hrun hstep
      by_cases hnone : s.sends event = []
      · rw [hnone, List.length_nil, Nat.add_zero] at hlength
        exact hlength.trans hbefore
      · exact hlength.trans (hasRoom_sends hroom.2 hnone)
    exact ⟨List.forall_mem_append.mpr ⟨hall, List.forall_mem_singleton.mpr hafter⟩, hafter⟩

end LoopSystem

end

namespace LoopSystem

/-- A client that should have at most so many publishes in flight. -/
def bounded (max : ℕ) : LoopSystem Unit ℕ ℕ (ℕ → Queue PublishMessage) 64 :=
  start { ClientOptions.new "c" fun _ => 0 with
    recovery := { resendUnackedInflight := true, autoResubscribe := true, maxInflight := max } }
    (fun _ => ⟨false, [], 128⟩) 0

/-- It connects and publishes twice. -/
def publishingTwice : List (Event Unit ℕ ℕ (ℕ → Queue PublishMessage)) :=
  connecting [] ++
    [.request (some (.publish (questioned [1]) none)) 0,
      .request (some (.publish (questioned [2]) none)) 0]

theorem inflight_le_bounded :
    ∃ steps s, Traced (.queues ℕ PublishMessage) listed (bounded 2) steps s ∧ steps.length = 4 ∧
      ∀ x ∈ steps, x.after.loop.inflightPublishes.length ≤ 2 := by
  have heval : (runTraced (.queues ℕ PublishMessage) listed publishingTwice (bounded 2)).map
      (fun x => (x.1.length, x.1.all fun y => decide (y.HasRoom 2))) = some (4, true) := by
    decide +kernel
  obtain ⟨⟨steps, s⟩, hrun, hs⟩ := Option.map_eq_some_iff.mp heval
  simp only [Prod.mk.injEq, List.all_eq_true, decide_eq_true_eq] at hs
  have htraced := traced_of_runTraced hrun
  exact ⟨steps, s, htraced, hs.1, inflight_le htraced hs.2⟩

/-- Two publishes are in flight where there should be one. -/
theorem exceeds_bound :
    ¬ ∀ steps s, Traced (.queues ℕ PublishMessage) listed (bounded 1) steps s →
      ∀ x ∈ steps, x.after.loop.inflightPublishes.length ≤ 1 := by
  intro hall
  have heval : (runTraced (.queues ℕ PublishMessage) listed publishingTwice (bounded 1)).map
      (fun x => x.1.all fun y => decide (y.after.loop.inflightPublishes.length ≤ 1)) =
      some false := by
    decide +kernel
  obtain ⟨⟨steps, s⟩, hrun, hs⟩ := Option.map_eq_some_iff.mp heval
  have hbound := hall steps s (traced_of_runTraced hrun)
  simp only [List.all_eq_false, decide_eq_true_eq] at hs
  obtain ⟨x, hx, hexceeds⟩ := hs
  exact hexceeds (hbound x hx)

end LoopSystem

end MqttEngine.Tokio
