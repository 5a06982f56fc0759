import MqttEngine.Tokio.Operations
import MqttEngine.Tokio.System

/-!
# Stamps

The event loop remembers in `last_tx` when it has written something. Every program of the loop
sets it at most to the present instant, and only if it has written something on the current
connection. No program changes the options.

## Main definitions

* `Stamps`, `Writes` — `last_tx` has been set only if something has been written; something has.

## Main results

* `ends_sendPacket`, `ends_driveTick` — programs that write.
* `stamps_driveRequest`, `stamps_handle`, `stamps_performSessionDataRecovery` and the others.
* `lastTx_connectAttempt`, `LoopSystem.options_of_runs` — attempts to connect, and runs.
-/

namespace MqttEngine.Tokio
open Checked Conn EventLoop

section
variable {E R S W : Type} {maxPacketSize : ℕ} {s₀ s s' : Conn E R S W maxPacketSize} {now : ℕ}

/-! ## Stamps -/

/-- From one state to the other `last_tx` has been set to `now` only if something has been
written. -/
structure Stamps (now : ℕ) (s s' : Conn E R S W maxPacketSize) : Prop where
  options : s'.options = s.options
  written : ∃ new, s'.socket.written = s.socket.written ++ new
  stamp : s'.lastTx = s.lastTx ∨ s'.lastTx = now ∧ s'.socket.written ≠ s.socket.written

/-- The same, and something has been written. -/
structure Writes (now : ℕ) (s s' : Conn E R S W maxPacketSize) : Prop where
  stamps : Stamps now s s'
  ne : s'.socket.written ≠ s.socket.written

theorem Stamps.refl : Stamps now s s := ⟨rfl, ⟨[], by simp⟩, .inl rfl⟩

theorem Stamps.congr (h : Stamps now s₀ s) (hoptions : s'.options = s.options)
    (hwritten : s'.socket.written = s.socket.written) (hlastTx : s'.lastTx = s.lastTx) :
    Stamps now s₀ s' := by
  obtain ⟨new, hnew⟩ := h.written
  exact ⟨hoptions.trans h.options, ⟨new, hwritten.trans hnew⟩, by rw [hwritten, hlastTx]; exact h.stamp⟩

theorem Writes.congr (h : Writes now s₀ s) (hoptions : s'.options = s.options)
    (hwritten : s'.socket.written = s.socket.written) (hlastTx : s'.lastTx = s.lastTx) :
    Writes now s₀ s' :=
  ⟨h.stamps.congr hoptions hwritten hlastTx, by rw [hwritten]; exact h.ne⟩

/-- Something more is written. -/
theorem Stamps.write (h : Stamps now s₀ s) {bytes : List UInt8} (hoptions : s'.options = s.options)
    (hwritten : s'.socket.written = s.socket.written ++ [bytes]) (hlastTx : s'.lastTx = s.lastTx) :
    Writes now s₀ s' := by
  obtain ⟨new, hnew⟩ := h.written
  have hmore : s'.socket.written = s₀.socket.written ++ (new ++ [bytes]) := by
    rw [hwritten, hnew, List.append_assoc]
  have hne : s'.socket.written ≠ s₀.socket.written := by simp [hmore]
  refine ⟨⟨hoptions.trans h.options, ⟨_, hmore⟩, ?_⟩, hne⟩
  rcases h.stamp with hsame | ⟨hnow, -⟩
  · exact .inl (hlastTx.trans hsame)
  · exact .inr ⟨hlastTx.trans hnow, hne⟩

/-! ## Programs that write -/

theorem stamps_encodeTx (cursor : ℕ) (p : MqttPacket) :
    Preserves (Stamps now s₀) (encodeTx cursor p) := by
  intro s hs
  by_cases hc : cursor ≤ maxPacketSize
  · obtain ⟨tx, r, hok, -⟩ := encodeTx_spec (s := s) hc p
    rw [Ends, hok]
    exact hs.congr rfl rfl rfl
  · rw [Ends, encodeTx, if_neg hc]
    exact hs

theorem stamps_writeAll (hs : Stamps now s₀ s) (bytes : List UInt8) :
    Ends (writeAll bytes) s (fun _ s' => Writes now s₀ s') fun _ s' => Stamps now s₀ s' := by
  rw [Ends, writeAll]
  rcases s.socket.writeResults with _ | ⟨_ | ⟨n, e⟩, later⟩
  · exact hs.write rfl rfl rfl
  · exact hs.write rfl rfl rfl
  · exact Writes.stamps (hs.write rfl rfl rfl)

theorem stamps_writeTx (hs : Stamps now s₀ s) (len : ℕ) :
    Ends (writeTx len) s (fun _ s' => Writes now s₀ s') fun _ s' => Stamps now s₀ s' := by
  change Ends (do
    let bytes ← orMalformed (range s.txBuf.bytes 0 len)
    writeAll bytes) s _ _
  apply Ends.bind
  rcases (range s.txBuf.bytes 0 len : Checked PacketError _) with (e | _ | _) | bytes
  · exact hs
  · exact hs
  · exact hs
  · exact stamps_writeAll hs bytes

theorem preserves_writeTx (len : ℕ) : Preserves (Stamps now s₀) (writeTx len) :=
  fun _ hs => (stamps_writeTx hs len).mono (fun _ _ h => h.stamps) fun _ _ h => h

theorem writes_flush : Preserves (Writes now s₀) flush :=
  preserves_flush fun _ _ h hwritten _ => h.congr rfl hwritten rfl

theorem stamps_flush : Preserves (Stamps now s₀) flush :=
  preserves_flush fun _ _ h hwritten _ => h.congr rfl hwritten rfl

theorem writes_setLastTx : Preserves (Writes now s₀) (setLastTx now) :=
  Preserves.modify fun _ h =>
    ⟨⟨h.stamps.options, h.stamps.written, .inr ⟨rfl, h.ne⟩⟩, h.ne⟩

/-- What has been encoded is written and stamped. -/
theorem ends_transmit {α : Type} (hs : Stamps now s₀ s) (len : ℕ) (a : α) :
    Ends (do writeTx len; flush; setLastTx now; pure a) s (fun _ s' => Writes now s₀ s')
      fun _ s' => Stamps now s₀ s' := by
  have hrest : Preserves (Writes now s₀) (do flush; setLastTx now; pure a) :=
    Preserves.bind writes_flush fun _ => Preserves.bind writes_setLastTx fun _ => Preserves.pure a
  apply Ends.bind
  exact (stamps_writeTx hs len).mono
    (fun _ t ht => (hrest t ht).mono (fun _ _ h => h) fun _ _ h => h.stamps) fun _ _ h => h

theorem preserves_transmit (len : ℕ) :
    Preserves (Stamps now s₀) (do writeTx len; flush; setLastTx now) := by
  intro s hs
  exact (ends_transmit hs len ()).mono (fun _ _ h => h.stamps) fun _ _ h => h

/-- A packet that is sent is written and stamped. -/
theorem ends_sendPacket (hs : Stamps now s₀ s) (p : MqttPacket) :
    Ends (sendPacket p now) s (fun _ s' => Writes now s₀ s') fun _ s' => Stamps now s₀ s' := by
  apply Ends.bind
  apply (stamps_encodeTx 0 p s hs).mono
  · rintro ((e | _ | _) | len) t ht
    · exact ht
    · exact ht
    · exact ht
    · exact ends_transmit ht len ()
  · exact fun _ _ h => h

theorem stamps_sendPacket (p : MqttPacket) : Preserves (Stamps now s₀) (sendPacket p now) :=
  fun _ hs => (ends_sendPacket hs p).mono (fun _ _ h => h.stamps) fun _ _ h => h

theorem stamps_tryWritePacket (p : MqttPacket) : Preserves (Stamps now s₀) (tryWritePacket p) := by
  apply Preserves.bind (stamps_encodeTx 0 p)
  rintro ((e | _ | _) | len)
  · exact Preserves.pure _
  · exact preserves_lift _ _ _
  · exact preserves_lift _ _ _
  · exact preserves_ignore (preserves_writeTx len)

theorem stamps_acknowledgePublish (message : PublishMessage) :
    Preserves (Stamps now s₀) (acknowledgePublish message now) := by
  rw [acknowledgePublish.eq_def]
  split
  · apply Preserves.bind (stamps_encodeTx 0 _)
    rintro ((e | _ | _) | len)
    · exact Preserves.pure _
    · exact preserves_lift _ _ _
    · exact preserves_lift _ _ _
    · exact preserves_transmit len
  · exact Preserves.pure _

/-! ## Requests -/

/-- A change that concerns neither the options nor the transport nor `last_tx`. -/
theorem stamps_modify {g : Conn E R S W maxPacketSize → Conn E R S W maxPacketSize}
    (hoptions : ∀ s, (g s).options = s.options)
    (hwritten : ∀ s, (g s).socket.written = s.socket.written) (hlastTx : ∀ s, (g s).lastTx = s.lastTx) :
    Preserves (Stamps now s₀) (modifyThe _ g : ConnM E R S W maxPacketSize PUnit) :=
  Preserves.modify fun s hs => hs.congr (hoptions s) (hwritten s) (hlastTx s)

theorem stamps_sendSome (sender : Option R) (answer : Answer E) :
    Preserves (Stamps now s₀) (sendSome sender answer) :=
  preserves_sendSome fun _ hs => hs.congr rfl rfl rfl

theorem stamps_tracked (hs : Stamps now s₀ s) (message : PublishMessage) (ackSender : Option R) :
    Stamps now s₀ (tracked s message ackSender) := by
  rw [tracked]
  split
  · exact hs.congr rfl rfl rfl
  · exact hs

theorem stamps_sendPublishDirect (message : PublishMessage) (ackSender : Option R) :
    Preserves (Stamps now s₀) (sendPublishDirect message ackSender now) := by
  intro s hs
  have hpublished : Stamps now s₀ (published s message ackSender) := by
    rw [published]
    split
    · exact stamps_tracked hs message ackSender
    · exact hs.congr rfl rfl rfl
  rw [Ends, sendPublishDirect_eq]
  exact stamps_sendPacket _ _ hpublished

theorem stamps_sendPublishBatchRound (message : PublishMessage) (cursor count : ℕ) :
    Preserves (Stamps now s₀) (sendPublishBatchRound message cursor count) := by
  intro s hs
  rw [Ends, sendPublishBatchRound, run_bind (trackPublish_eq message none)]
  refine Preserves.bind (stamps_encodeTx cursor _) ?_ _ (stamps_tracked hs message none)
  rintro ((e | _ | _) | len)
  · apply Preserves.ite
    · intro _
      apply Preserves.bind (preserves_writeTx cursor)
      intro _
      apply Preserves.bind (stamps_encodeTx 0 _)
      intro r
      exact Preserves.bind (preserves_lift _ _ _) fun _ => Preserves.pure _
    · intro _
      exact Preserves.pure _
  · exact preserves_lift _ _ _
  · exact preserves_lift _ _ _
  · exact Preserves.pure _

theorem stamps_sendPublishBatchLoop (messages : List PublishMessage) (cursor count : ℕ) :
    Preserves (Stamps now s₀) (sendPublishBatchLoop messages cursor count) := by
  induction messages generalizing cursor count with
  | nil => exact Preserves.pure _
  | cons message messages ih =>
    apply Preserves.bind (stamps_sendPublishBatchRound message cursor count)
    rintro ⟨cursor, count⟩
    exact ih cursor count

theorem stamps_sendPublishBatchDirect (messages : List PublishMessage) :
    Preserves (Stamps now s₀) (sendPublishBatchDirect messages now) := by
  apply Preserves.bind (stamps_sendPublishBatchLoop messages 0 0)
  rintro ⟨cursor, count⟩
  apply Preserves.ite
  · intro _ s hs
    exact (ends_transmit hs cursor count).mono (fun _ _ h => h.stamps) fun _ _ h => h
  · intro _
    exact Preserves.pure _

theorem stamps_sendDatagram (len : ℕ) : Preserves (Stamps now s₀) (sendDatagram len) := by
  apply Preserves.get_bind
  intro s _
  apply Preserves.bind (preserves_lift _ _ _)
  intro bytes
  apply Preserves.get_bind
  intro s _
  dsimp only
  split
  · exact Preserves.pure _
  · exact Preserves.bind (stamps_modify (fun _ => rfl) (fun _ => rfl) fun _ => rfl)
      fun _ => Preserves.pure _
  · exact Preserves.bind (stamps_modify (fun _ => rfl) (fun _ => rfl) fun _ => rfl)
      fun _ => Preserves.pure _

theorem stamps_sendDisconnect : Preserves (Stamps now s₀) sendDisconnect := by
  have hstatus : Preserves (Stamps now s₀) (publishStatus .stopped) :=
    stamps_modify (fun _ => rfl) (fun _ => rfl) fun _ => rfl
  apply Preserves.bind (stamps_encodeTx 0 _)
  rintro ((e | _ | _) | len)
  · exact hstatus
  · exact Preserves.bind (preserves_lift _ _ _) fun _ => hstatus
  · exact Preserves.bind (preserves_lift _ _ _) fun _ => hstatus
  · apply Preserves.bind (preserves_ignore (preserves_writeTx len))
    intro _
    exact Preserves.bind (preserves_ignore stamps_flush) fun _ => hstatus

theorem stamps_subscribe (topic : String) (qos : QoS) (respSender : R) (streamSender : Option S) :
    Preserves (Stamps now s₀)
      (handleClientRequest (.subscribe topic qos respSender streamSender) now) :=
  fun _ hs => ends_subscribe (hs.congr rfl rfl rfl) (stamps_sendPacket _)
    (fun _ _ h => h.congr rfl rfl rfl) respSender

theorem stamps_unsubscribe (topic : String) (respSender : R) :
    Preserves (Stamps now s₀) (handleClientRequest (.unsubscribe topic respSender) now) :=
  fun _ hs => ends_unsubscribe (hs.congr rfl rfl rfl) (stamps_sendPacket _)
    (fun _ _ h => h.congr rfl rfl rfl) respSender

theorem stamps_handleClientRequest (request : ClientRequest R S) :
    Preserves (Stamps now s₀) (handleClientRequest request now) := by
  cases request with
  | publish message ackSender => exact stamps_sendPublishDirect message ackSender
  | publishBatch messages ackSender =>
    exact Preserves.bind (stamps_sendPublishBatchDirect messages) fun _ => stamps_sendSome _ _
  | publishDatagram topic payload ackSender =>
    apply Preserves.bind (stamps_encodeTx 0 _)
    intro r
    apply Preserves.bind (preserves_lift _ _ _)
    intro len
    exact Preserves.bind (stamps_sendDatagram len) fun _ => stamps_sendSome _ _
  | subscribe topic qos respSender streamSender => exact stamps_subscribe _ _ _ _
  | unsubscribe topic respSender => exact stamps_unsubscribe _ _
  | disconnect respSender =>
    have hanswer : Preserves (Stamps now s₀) (send respSender (.done (.ok ()))) :=
      stamps_modify (fun _ => rfl) (fun _ => rfl) fun _ => rfl
    exact Preserves.bind stamps_sendDisconnect fun _ =>
      Preserves.bind hanswer fun _ => Preserves.throw _

theorem stamps_driveRequest (request : Option (ClientRequest R S)) :
    Preserves (Stamps now s₀) (driveRequest request now) := by
  rcases request with _ | request
  · exact Preserves.bind (preserves_ignore stamps_sendDisconnect) fun _ => Preserves.pure _
  · exact Preserves.bind (stamps_handleClientRequest request) fun _ => Preserves.pure _

/-! ## The other branches -/

theorem stamps_read (cursor : ℕ) : Preserves (Stamps now s₀) (EventLoop.read cursor) := by
  intro s hs
  rw [Ends, EventLoop.read]
  by_cases hbehind : cursor > maxPacketSize
  · rw [if_pos hbehind]
    exact hs
  · rw [if_neg hbehind]
    by_cases hfull : cursor = maxPacketSize
    · rw [if_pos hfull]
      exact hs
    · rw [if_neg hfull]
      dsimp only
      rcases s.socket.incoming with _ | ⟨e | segment, later⟩
      · exact hs
      · exact hs.congr rfl rfl rfl
      · exact hs.congr rfl rfl rfl

theorem stamps_receiveFrames (rxCursor : ℕ) :
    Preserves (Stamps now s₀) (receiveFrames rxCursor) :=
  preserves_receiveFrames stamps_read (fun _ _ h => h.congr rfl rfl rfl) rxCursor

theorem stamps_handle [DecidableEq S] (ch : Mpsc W S PublishMessage) (received : Received) :
    Preserves (Stamps now s₀) (handle ch now received) := by
  obtain ⟨frame, packet⟩ := received
  cases packet with
  | publish p =>
    have hdispatch (message : PublishMessage) : Preserves (Stamps now s₀) (dispatch ch message) :=
      stamps_modify (fun _ => rfl) (fun _ => rfl) fun _ => rfl
    exact Preserves.bind (stamps_acknowledgePublish _) fun _ => hdispatch _
  | pubAck ack =>
    intro s hs
    change Ends (performAction ch now (.pubAck ack.packetId)) s _ _
    rw [Ends, performAction_pubAck]
    exact hs.congr rfl rfl rfl
  | subAck suback =>
    intro s hs
    change Ends (performAction ch now (.subAck suback.packetId)) s _ _
    rw [Ends, performAction_subAck]
    exact hs.congr rfl rfl rfl
  | unsubAck unsuback =>
    intro s hs
    change Ends (performAction ch now (.unsubAck unsuback.packetId)) s _ _
    rw [Ends, performAction_unsubAck]
    exact hs.congr rfl rfl rfl
  | disconnect d => exact Preserves.throw _
  | _ => exact Preserves.pure _

/-- A tick writes, unless the latest stamp is younger than an interval. -/
theorem ends_driveTick (hs : Stamps now s₀ s) :
    Ends (driveTick now) s
      (fun _ s' => Stamps now s₀ s' ∧
        (now < s.lastTx + s.options.keepAlive ∨ s'.socket.written ≠ s₀.socket.written))
      fun _ s' => Stamps now s₀ s' := by
  change Ends (if now - s.lastTx ≥ s.options.keepAlive then sendPing now else pure ()) s _ _
  apply Ends.ite
  · intro _
    exact (ends_sendPacket hs .pingReq).mono (fun _ _ h => ⟨h.stamps, .inr h.ne⟩) fun _ _ h => h
  · intro hyoung
    exact ⟨hs, .inl (by omega)⟩

theorem stamps_driveTick : Preserves (Stamps now s₀) (driveTick now) :=
  fun _ hs => (ends_driveTick hs).mono (fun _ _ h => h.1) fun _ _ h => h

/-! ## Connecting -/

theorem stamps_performConnectHandshake :
    Preserves (Stamps now s₀) (performConnectHandshake : ConnM E R S W maxPacketSize Unit) := by
  apply Preserves.get_bind
  intro s _
  apply Preserves.bind (stamps_encodeTx 0 _)
  intro r
  apply Preserves.bind (preserves_lift _ _ _)
  intro len
  apply Preserves.bind (preserves_writeTx len)
  intro _
  apply Preserves.bind stamps_flush
  intro _
  apply Preserves.bind (stamps_read 0)
  intro readLen
  split
  · exact Preserves.throw _
  · apply Preserves.ite
    · intro _
      exact Preserves.throw _
    · intro _
      apply Preserves.get_bind
      intro s _
      apply Preserves.bind (preserves_lift _ _ _)
      intro bytes
      apply Preserves.bind (preserves_lift _ _ _)
      intro packet
      split
      · apply Preserves.ite
        · intro _
          exact Preserves.pure _
        · intro _
          exact Preserves.throw _
      · exact Preserves.throw _

theorem stamps_performSessionDataRecovery (order : HashOrder) :
    Preserves (Stamps now s₀) (performSessionDataRecovery order now) := by
  apply preserves_performSessionDataRecovery
  · exact fun _ _ _ _ _ => stamps_tryWritePacket _
  · exact stamps_flush
  · intro _ _ e _
    have hnext : Preserves (Stamps now s₀) getNextPacketId := fun _ hs => hs.congr rfl rfl rfl
    exact Preserves.bind hnext fun pid => stamps_tryWritePacket _
  · intro s _
    exact preserves_flushOfflineQueue (fun _ _ _ hs => hs.congr rfl rfl rfl)
      fun message _ => stamps_sendPublishDirect message none

/-- What the stamps keep is kept by a program that only stamps. -/
theorem preserves_of_stamps {α : Type} {I : Conn E R S W maxPacketSize → Prop}
    {x : ConnM E R S W maxPacketSize α} (hI : ∀ s s', I s → Stamps now s s' → I s')
    (h : ∀ s₀, Preserves (Stamps now s₀) x) : Preserves I x :=
  fun s hs => (h s s .refl).mono (fun _ s' => hI s s' hs) fun _ s' => hI s s' hs

/-- A stamp does not lie in the future. -/
theorem Stamps.lastTx_le (h : Stamps now s s') (hs : s.lastTx ≤ now) : s'.lastTx ≤ now := by
  rcases h.stamp with hsame | ⟨hnow, -⟩
  · exact hsame.le.trans hs
  · exact hnow.le

theorem lastTx_connectAttempt {self loop : EventLoop E R S W maxPacketSize} {order : HashOrder}
    {dial : Except (ClientError E) (Socket E)} {attempt : Attempt E} {socket : Option (Socket E)}
    (hself : self.lastTx ≤ now) (h : self.connectAttempt order dial now = some (attempt, loop, socket)) :
    loop.lastTx ≤ now := by
  have hI {s s' : Conn E R S W maxPacketSize} (hs : s.lastTx ≤ now) (h : Stamps now s s') :
      s'.lastTx ≤ now := h.lastTx_le hs
  rcases connectAttempt_cases (I := fun s => s.lastTx ≤ now) (fun _ _ => hself)
    (preserves_of_stamps (fun _ _ => hI) fun _ => stamps_performConnectHandshake)
    (fun _ _ => le_rfl)
    (preserves_of_stamps (fun _ _ => hI) fun _ => stamps_performSessionDataRecovery order) h with
    ⟨rfl, -⟩ | ⟨s, hs, ⟨rfl, -, -⟩ | ⟨rfl, -⟩⟩
  · exact hself
  · exact hs
  · exact hs

/-- The options are kept by a program that only stamps. -/
theorem options_of_stamps (now : ℕ) {α : Type} {options : ClientOptions} {x : ConnM E R S W maxPacketSize α}
    (h : ∀ s₀, Preserves (Stamps now s₀) x) (hs : s.options = options) :
    Ends x s (fun _ s' => s'.options = options) fun _ s' => s'.options = options :=
  (h s s .refl).mono (fun _ _ h => h.options.trans hs) fun _ _ h => h.options.trans hs

theorem options_connectAttempt {self loop : EventLoop E R S W maxPacketSize} {order : HashOrder}
    {dial : Except (ClientError E) (Socket E)} {attempt : Attempt E} {socket : Option (Socket E)}
    (h : self.connectAttempt order dial now = some (attempt, loop, socket)) :
    loop.options = self.options := by
  rcases connectAttempt_cases (I := fun s => s.options = self.options) (fun _ _ => rfl)
    (fun _ hs => options_of_stamps now (fun _ => stamps_performConnectHandshake) hs)
    (fun _ hs => hs)
    (fun _ hs => options_of_stamps now (fun _ => stamps_performSessionDataRecovery order) hs) h with
    ⟨rfl, -⟩ | ⟨s, hs, ⟨rfl, -, -⟩ | ⟨rfl, -⟩⟩
  · rfl
  · exact hs
  · exact hs

namespace LoopSystem
variable [DecidableEq S] {ch : Mpsc W S PublishMessage} {order : HashOrder}
  {self t : LoopSystem E R S W maxPacketSize}

theorem options_step {event : Event E R S W} (h : self.step ch order event = some t) :
    t.loop.options = self.loop.options := by
  apply loop_step (Q := fun loop => loop.options = self.loop.options) h
  · exact fun _ _ _ h => h
  · cases event with
    | attempt dial now => exact fun _ _ _ hattempt => options_connectAttempt hattempt
    | read =>
      exact fun _ rxCursor _ => options_of_stamps 0 (fun _ => stamps_receiveFrames rxCursor) rfl
    | handle now =>
      exact fun _ _ received _ _ =>
        options_of_stamps now (fun _ => stamps_handle ch received) rfl
    | request request now =>
      exact fun _ _ _ => options_of_stamps now (fun _ => stamps_driveRequest request) rfl
    | tick now => exact fun _ _ _ => options_of_stamps now (fun _ => stamps_driveTick) rfl
    | enter => rfl
    | arrive segment => rfl
    | channels w => rfl

/-- The options of a run are those with which it has been started. -/
theorem options_of_runs {ok : LoopSystem E R S W maxPacketSize → Event E R S W → Prop}
    (h : Runs ch order ok self t) : t.loop.options = self.loop.options :=
  h.invariant (I := fun t => t.loop.options = self.loop.options) rfl
    fun _ _ _ hs _ hstep => (options_step hstep).trans hs

end LoopSystem

end

end MqttEngine.Tokio
