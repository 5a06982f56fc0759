import MqttEngine.Embedded.Sending
import MqttEngine.Embedded.System

/-!
# What the operations of the client keep

The operations of the client are put together from a few steps: a send, a receive, an encoding
into the transmit buffer, a packet id that is taken, and assignments to single fields. `Upheld` says
that the steps of the operations on a connection keep a property of the client, and
`upheld_exec` that every call keeps it then, but for the calls of `connect`. A property that
concerns the time of the last transmission is `Carried` by the other steps, and `Stamped` by a send
that is followed by the assignment of that time.

## Main definitions

* `Upheld`, `Carried` — a property that the steps keep, with and without `last_tx_time`.
* `Stamped` — a program that is followed by the assignment of `last_tx_time`.

## Main results

* `carried_handlePacket`, `carried_poll`, `carried_pollBatch`, `carried_disconnect` — the operations
  that take no packet id.
* `carried_exec`, `upheld_exec` — every call but one of `connect`.
* `step_keeps` — a step of a run.
-/

namespace MqttEngine

/-- The instant that the call reads from the clock. -/
def ClientCall.now : ClientCall → Option ℕ
  | .connect now | .publish _ _ _ now | .publishBatch _ now | .beginStreamPublish _ _ _ now
  | .subscribe _ now | .unsubscribe _ now | .poll now => some now
  | .pollBatch _ | .disconnect => none

namespace MqttClient
variable {E : Type} {bufSize maxInflight : ℕ} {I : MqttClient E bufSize maxInflight → Prop}

/-! ## Steps that keep everything -/

section
variable {α : Type}

theorem preserves_lift (x : Checked PacketError α) :
    Preserves I (lift x : ClientM E bufSize maxInflight α) := by
  rcases x with (e | _ | _) | a
  · exact Preserves.throw _
  · exact Preserves.throw _
  · exact Preserves.throw _
  · exact Preserves.pure a

theorem preserves_requireConnected :
    Preserves I (requireConnected : ClientM E bufSize maxInflight Unit) :=
  Preserves.get_bind fun _ _ => Preserves.ite (fun _ => Preserves.throw _) fun _ => Preserves.pure _

theorem preserves_decodeRx (n : ℕ) :
    Preserves I (decodeRx n : ClientM E bufSize maxInflight (Option MqttPacket)) :=
  Preserves.get_bind fun _ _ => Preserves.bind (preserves_lift _) fun _ => preserves_lift _

end

/-- The steps of the operations on a connection keep `I`. What they do to the table brings no
outbound id into it. -/
structure Upheld (I : MqttClient E bufSize maxInflight → Prop) : Prop where
  sent : ∀ bytes, Preserves I (send bytes)
  received : Preserves I recv
  encoded : ∀ s tx, I s → I (s.withTx tx)
  touched : ∀ now, Preserves I (setLastTx now)
  filled : ∀ n, Preserves I
    (modify fun s => { s with rxLen := n } : ClientM E bufSize maxInflight Unit)
  disconnected : Preserves I (setState .disconnected)
  tabled : ∀ f : InflightQueue maxInflight → Option (InflightQueue maxInflight),
    (∀ q q', f q = some q' → q'.outboundIds ⊆ q.outboundIds) → Preserves I (updateInflight f)

/-- The same of the steps but for the assignment of `last_tx_time`. -/
structure Carried (I : MqttClient E bufSize maxInflight → Prop) : Prop where
  sent : ∀ bytes, Preserves I (send bytes)
  received : Preserves I recv
  encoded : ∀ s tx, I s → I (s.withTx tx)
  filled : ∀ n, Preserves I
    (modify fun s => { s with rxLen := n } : ClientM E bufSize maxInflight Unit)
  disconnected : Preserves I (setState .disconnected)
  tabled : ∀ f : InflightQueue maxInflight → Option (InflightQueue maxInflight),
    (∀ q q', f q = some q' → q'.outboundIds ⊆ q.outboundIds) → Preserves I (updateInflight f)

/-- A program keeps `I`, and once it has succeeded so does the assignment of `last_tx_time`. -/
def Stamped {α : Type} (I : MqttClient E bufSize maxInflight → Prop) (now : ℕ)
    (x : ClientM E bufSize maxInflight α) : Prop :=
  ∀ s, I s → Ends x s (fun _ s' => I { s' with lastTxTime := now }) fun _ s' => I s'

theorem Upheld.carried (h : Upheld I) : Carried I :=
  { sent := h.sent, received := h.received, encoded := h.encoded, filled := h.filled
    disconnected := h.disconnected, tabled := h.tabled }

theorem Upheld.stamped (h : Upheld I) (now : ℕ) (bytes : List UInt8) :
    Stamped I now (send bytes) := fun s hs =>
  (h.sent bytes s hs).mono (fun _ s' hs' => h.touched now s' hs') fun _ _ hs' => hs'

theorem Stamped.and {α : Type} {I J : MqttClient E bufSize maxInflight → Prop} {now : ℕ}
    {x : ClientM E bufSize maxInflight α} (h : Stamped I now x) (h' : Stamped J now x) :
    Stamped (fun s => I s ∧ J s) now x := fun s hs => (h s hs.1).and (h' s hs.2)

theorem Stamped.preserves {α : Type} {now : ℕ} {x : ClientM E bufSize maxInflight α}
    (h : Stamped I now x) : Preserves I (do let _ ← x; setLastTx now) := fun s hs =>
  Ends.bind <| (h s hs).mono (fun _ _ hs' => hs') fun _ _ hs' => hs'

theorem Stamped.preserves_pure {α β : Type} {now : ℕ} {x : ClientM E bufSize maxInflight α}
    (h : Stamped I now x) (b : β) : Preserves I (do let _ ← x; setLastTx now; pure b) := fun s hs =>
  Ends.bind <| (h s hs).mono (fun _ _ hs' => hs') fun _ _ hs' => hs'

theorem Carried.and {J : MqttClient E bufSize maxInflight → Prop} (h : Carried I)
    (h' : Carried J) : Carried fun s => I s ∧ J s where
  sent bytes s hs := (h.sent bytes s hs.1).and (h'.sent bytes s hs.2)
  received s hs := (h.received s hs.1).and (h'.received s hs.2)
  encoded s tx hs := ⟨h.encoded s tx hs.1, h'.encoded s tx hs.2⟩
  filled n s hs := (h.filled n s hs.1).and (h'.filled n s hs.2)
  disconnected s hs := (h.disconnected s hs.1).and (h'.disconnected s hs.2)
  tabled f hf s hs := (h.tabled f hf s hs.1).and (h'.tabled f hf s hs.2)

/-- What depends neither on the state of the connection nor on what has been sent is carried by
every step. -/
theorem carried_of_frame
    (h : ∀ s s' : MqttClient E bufSize maxInflight, s'.options = s.options →
      s'.lastTxTime = s.lastTxTime → s.transport.sent.length ≤ s'.transport.sent.length →
      (s'.state = .connected → s.state = .connected) → I s → I s') : Carried I where
  sent bytes s hs := by
    rw [Ends, send]
    rcases s.transport.sendResults with _ | ⟨_ | e, later⟩
    · exact h s _ rfl rfl (by simp) id hs
    · exact h s _ rfl rfl (by simp) id hs
    · exact h s _ rfl rfl le_rfl id hs
  received s hs := by
    rw [Ends, recv]
    rcases s.transport.incoming with _ | ⟨e | chunk, later⟩
    · exact hs
    · exact h s _ rfl rfl le_rfl id hs
    · exact h s _ rfl rfl le_rfl id hs
  encoded s _ hs := h s _ rfl rfl le_rfl id hs
  filled _ := Preserves.modify fun s hs => h s _ rfl rfl le_rfl id hs
  disconnected := Preserves.modify fun s hs => h s _ rfl rfl le_rfl (by simp) hs
  tabled _ _ := Preserves.modify fun s hs => h s _ rfl rfl le_rfl id hs

/-! ## Sending -/

theorem carried_encodeTx (h : Carried I) (cursor : ℕ) (p : MqttPacket) :
    Preserves I (encodeTx cursor p) := by
  intro s hs
  rw [Ends, encodeTx]
  by_cases hc : cursor ≤ bufSize
  · rw [if_pos hc]
    rcases p.encode s.options.version (s.txBuffer.bytes.drop cursor) with ⟨n, tail⟩ | ⟨e, tail⟩
    · exact h.encoded s _ hs
    · exact h.encoded s _ hs
  · rw [if_neg hc]
    exact hs

theorem carried_sendTx (h : Carried I) (len : ℕ) : Preserves I (sendTx len) := by
  apply Preserves.get_bind
  intro s _
  exact Preserves.bind (preserves_lift _) h.sent

theorem carried_sendPacket (h : Carried I) (p : MqttPacket) : Preserves I (sendPacket p) := by
  apply Preserves.bind (carried_encodeTx h 0 p)
  intro r
  exact Preserves.bind (preserves_lift r) (carried_sendTx h)

section
variable {now : ℕ} (hstamp : ∀ bytes, Stamped I now (send bytes))
include hstamp

theorem stamped_sendTx (len : ℕ) : Stamped I now (sendTx len) := by
  intro s hs
  apply Ends.bind
  apply Ends.get
  apply Ends.bind
  rcases (Checked.range s.txBuffer.bytes 0 len : Checked PacketError (List UInt8)) with
    (e | _ | _) | bytes
  · exact hs
  · exact hs
  · exact hs
  · exact hstamp bytes s hs

/-- A packet is sent, and the clock of the keep-alive starts again. -/
theorem stamped_sendPacket (h : Carried I) (p : MqttPacket) : Stamped I now (sendPacket p) := by
  intro s hs
  apply Ends.bind
  refine (carried_encodeTx h 0 p s hs).mono ?_ fun _ _ hs' => hs'
  rintro ((e | _ | _) | len) s' hs'
  · exact hs'
  · exact hs'
  · exact hs'
  · exact stamped_sendTx hstamp len s' hs'

end

/-! ## Receiving -/

theorem carried_handlePacket (h : Carried I) (packet : MqttPacket) :
    Preserves I (handlePacket packet) := by
  unfold handlePacket
  split
  · split
    · exact Preserves.bind (carried_sendPacket h _) fun _ => Preserves.pure _
    · apply Preserves.bind (carried_sendPacket h _)
      intro _
      exact Preserves.bind (h.tabled _ fun q q' => InflightQueue.outboundIds_trackInboundQos2)
        fun _ => Preserves.pure _
    · exact Preserves.pure _
  · exact Preserves.bind (h.tabled _ fun q q' => InflightQueue.outboundIds_complete)
      fun _ => Preserves.pure _
  · apply Preserves.bind (h.tabled _ fun q q' => InflightQueue.outboundIds_handlePubrec)
    intro _
    exact Preserves.bind (carried_sendPacket h _) fun _ => Preserves.pure _
  · apply Preserves.bind (h.tabled _ fun q q' => InflightQueue.outboundIds_complete)
    intro _
    exact Preserves.bind (carried_sendPacket h _) fun _ => Preserves.pure _
  · exact Preserves.bind (h.tabled _ fun q q' => InflightQueue.outboundIds_complete)
      fun _ => Preserves.pure _
  · exact Preserves.pure _
  · exact Preserves.pure _
  · exact Preserves.pure _
  · exact Preserves.bind h.disconnected fun _ => Preserves.pure _
  · exact Preserves.pure _

theorem carried_pingIfDue (h : Carried I) {now : ℕ} (hstamp : ∀ bytes, Stamped I now (send bytes)) :
    Preserves I (pingIfDue now) := by
  apply Preserves.get_bind
  intro s _
  apply Preserves.ite
  · intro _
    exact (stamped_sendPacket hstamp h .pingReq).preserves
  · intro _
    exact Preserves.pure _

/-- `poll` from the receive on. -/
theorem carried_receive (h : Carried I) :
    Preserves I (do
      let n ← recv
      if n = 0 then pure none
      else do
        modify fun s => { s with rxLen := n }
        match ← decodeRx n with
        | some packet => handlePacket packet
        | none => pure none : ClientM E bufSize maxInflight (Option MqttEvent)) := by
  apply Preserves.bind h.received
  intro n
  apply Preserves.ite
  · intro _
    exact Preserves.pure _
  · intro _
    apply Preserves.bind (h.filled n)
    intro _
    apply Preserves.bind (preserves_decodeRx n)
    intro packet
    split
    · exact carried_handlePacket h _
    · exact Preserves.pure _

theorem carried_poll (h : Carried I) {now : ℕ} (hstamp : ∀ bytes, Stamped I now (send bytes)) :
    Preserves I (poll now) := by
  apply Preserves.bind preserves_requireConnected
  intro _
  exact Preserves.bind (carried_pingIfDue h hstamp) fun _ => carried_receive h

theorem carried_pollBatchLoop (h : Carried I) (maxEvents fuel : ℕ) (iter : RawPacketFrameIter)
    (events : BoundedVec MqttEvent maxEvents) :
    Preserves I (pollBatchLoop maxEvents fuel iter events) := by
  induction fuel generalizing iter events with
  | zero => exact Preserves.throw _
  | succ fuel ih =>
    apply Preserves.bind (preserves_lift _)
    intro next
    dsimp only
    split
    · exact Preserves.pure _
    · exact Preserves.throw _
    · apply Preserves.get_bind
      intro s _
      apply Preserves.bind (preserves_lift _)
      intro packet
      split
      · exact Preserves.bind (carried_handlePacket h _) fun _ => ih _ _
      · exact ih _ _

theorem carried_pollBatch (h : Carried I) (maxEvents : ℕ) : Preserves I (pollBatch maxEvents) := by
  apply Preserves.bind preserves_requireConnected
  intro _
  apply Preserves.bind h.received
  intro n
  apply Preserves.ite
  · intro _
    exact Preserves.pure _
  · intro _
    apply Preserves.bind (h.filled n)
    intro _
    apply Preserves.get_bind
    intro s _
    exact Preserves.bind (preserves_lift _) fun _ => carried_pollBatchLoop h _ _ _ _

theorem carried_disconnect (h : Carried I) : Preserves I disconnect := by
  apply Preserves.get_bind
  intro s _
  apply Preserves.ite
  · intro _
    exact Preserves.pure _
  · intro _
    exact Preserves.bind (carried_sendPacket h _) fun _ => h.disconnected

/-! ## Operations that take a packet id -/

theorem preserves_trackOutbound (h : ∀ s inflight, I s → I { s with inflight }) (pid : UInt16)
    (qos : QoS) : Preserves I (trackOutbound pid qos) := by
  intro s hs
  rw [Ends, trackOutbound]
  rcases s.inflight.trackOutbound pid qos with _ | inflight
  · exact hs
  · exact h s inflight hs

section
variable (hnext : Preserves I getNextPacketId)
  (htrack : ∀ pid qos, Preserves I (trackOutbound pid qos))
include hnext

theorem carried_subscribe (h : Carried I) {now : ℕ} (hstamp : ∀ bytes, Stamped I now (send bytes))
    (topics : List (String × QoS)) : Preserves I (subscribe topics now) := by
  apply Preserves.bind preserves_requireConnected
  intro _
  apply Preserves.bind hnext
  intro id
  exact Preserves.bind (preserves_lift _) fun sub =>
    (stamped_sendPacket hstamp h (.subscribe sub)).preserves_pure id

theorem carried_unsubscribe (h : Carried I) {now : ℕ} (hstamp : ∀ bytes, Stamped I now (send bytes))
    (topics : List String) : Preserves I (unsubscribe topics now) := by
  apply Preserves.bind preserves_requireConnected
  intro _
  apply Preserves.bind hnext
  intro id
  exact Preserves.bind (preserves_lift _) fun unsub =>
    (stamped_sendPacket hstamp h (.unsubscribe unsub)).preserves_pure id

include htrack

theorem carried_allocatePacketId (qos : QoS) : Preserves I (allocatePacketId qos) := by
  apply Preserves.ite
  · intro _
    apply Preserves.bind hnext
    intro pid
    exact Preserves.bind (htrack pid qos) fun _ => Preserves.pure _
  · intro _
    exact Preserves.pure _

theorem carried_publish (h : Carried I) {now : ℕ} (hstamp : ∀ bytes, Stamped I now (send bytes))
    (topic : String) (payload : List UInt8) (qos : QoS) :
    Preserves I (publish topic payload qos now) := by
  apply Preserves.bind preserves_requireConnected
  intro _
  apply Preserves.bind (carried_allocatePacketId hnext htrack qos)
  intro id
  exact (stamped_sendPacket hstamp h _).preserves

theorem carried_publishBatchRound (h : Carried I) (msg : PublishMessage) (cursor : ℕ) :
    Preserves I (publishBatchRound msg cursor) := by
  apply Preserves.bind (carried_allocatePacketId hnext htrack msg.qos)
  intro id
  apply Preserves.bind (carried_encodeTx h cursor _)
  intro r
  split
  · exact Preserves.pure _
  · apply Preserves.ite
    · intro _
      apply Preserves.bind (carried_sendTx h cursor)
      intro _
      exact Preserves.bind (carried_encodeTx h 0 _) preserves_lift
    · intro _
      exact Preserves.throw _
  · exact preserves_lift _

theorem carried_publishBatchLoop (h : Carried I) (messages : List PublishMessage)
    (cursor sentCount : ℕ) : Preserves I (publishBatchLoop messages cursor sentCount) := by
  induction messages generalizing cursor sentCount with
  | nil => exact Preserves.pure _
  | cons msg messages ih =>
    exact Preserves.bind (carried_publishBatchRound hnext htrack h msg cursor)
      fun cursor => ih cursor _

theorem carried_publishBatch (h : Carried I) {now : ℕ} (hstamp : ∀ bytes, Stamped I now (send bytes))
    (messages : List PublishMessage) : Preserves I (publishBatch messages now) := by
  apply Preserves.bind preserves_requireConnected
  intro _
  apply Preserves.bind (carried_publishBatchLoop hnext htrack h messages 0 0)
  intro r
  apply Preserves.ite
  · intro _
    exact (stamped_sendTx hstamp _).preserves_pure _
  · intro _
    exact Preserves.pure _

theorem carried_beginStreamPublish (h : Carried I) {now : ℕ}
    (hstamp : ∀ bytes, Stamped I now (send bytes)) (topic : String) (total : ℕ) (qos : QoS) :
    Preserves I (beginStreamPublish topic total qos now) := by
  apply Preserves.bind preserves_requireConnected
  intro _
  apply Preserves.bind (carried_allocatePacketId hnext htrack qos)
  intro id
  apply Preserves.get_bind
  intro s _
  apply Preserves.bind (Preserves.ite (fun _ => Preserves.pure _) fun _ => Preserves.throw _)
  intro remainingLen
  dsimp only
  split
  · exact preserves_lift _
  · apply Preserves.bind (preserves_lift _)
    intro header
    apply Preserves.bind (h.sent header)
    intro _
    generalize (Buffer.zero : Buffer 256) = varBuf
    split
    · exact preserves_lift _
    · apply Preserves.bind (preserves_lift _)
      intro varHeader
      exact (hstamp varHeader).preserves_pure _

/-- All calls but those of `connect` keep what their steps keep. -/
theorem carried_exec (h : Carried I) (call : ClientCall) (hcall : ∀ now, call ≠ .connect now)
    (hstamp : ∀ now, call.now = some now → ∀ bytes, Stamped I now (send bytes)) :
    Preserves I (call.exec : ClientM E bufSize maxInflight (Option MqttStreamWriter)) := by
  have hresult {α : Type} {x : ClientM E bufSize maxInflight α} (hx : Preserves I x)
      (w : α → Option MqttStreamWriter) : Preserves I (do let a ← x; pure (w a)) :=
    Preserves.bind hx fun _ => Preserves.pure _
  cases call with
  | connect now => exact absurd rfl (hcall now)
  | publish topic payload qos now =>
    exact hresult (carried_publish hnext htrack h (hstamp now rfl) topic payload qos) _
  | publishBatch messages now =>
    exact hresult (carried_publishBatch hnext htrack h (hstamp now rfl) messages) _
  | beginStreamPublish topic total qos now =>
    exact hresult (carried_beginStreamPublish hnext htrack h (hstamp now rfl) topic total qos) _
  | subscribe topics now => exact hresult (carried_subscribe hnext h (hstamp now rfl) topics) _
  | unsubscribe topics now => exact hresult (carried_unsubscribe hnext h (hstamp now rfl) topics) _
  | poll now => exact hresult (carried_poll h (hstamp now rfl)) _
  | pollBatch maxEvents => exact hresult (carried_pollBatch h maxEvents) _
  | disconnect => exact hresult (carried_disconnect h) _

theorem upheld_exec (h : Upheld I) (call : ClientCall) (hcall : ∀ now, call ≠ .connect now) :
    Preserves I (call.exec : ClientM E bufSize maxInflight (Option MqttStreamWriter)) :=
  carried_exec hnext htrack h.carried call hcall fun now _ => h.stamped now

end

end MqttClient

/-! ## Runs -/

namespace ClientSystem
variable {E : Type} {bufSize maxInflight : ℕ} {I : MqttClient E bufSize maxInflight → Prop}
  {s t : ClientSystem E bufSize maxInflight} {call : Call E bufSize}

theorem client_afterClient (s : ClientSystem E bufSize maxInflight) (call : ClientCall) (ok : Bool)
    (writer : Option MqttStreamWriter) (c : MqttClient E bufSize maxInflight) :
    (s.afterClient call ok writer c).client = c := by
  cases call <;> rfl

/-- A step keeps what its call on the client keeps when it returns, if every send keeps it and it
does not depend on the receives to come. -/
theorem step_keeps (hsend : ∀ bytes, Preserves I (MqttClient.send bytes))
    (hreceive : ∀ (c : MqttClient E bufSize maxInflight) incoming,
      I c → I { c with transport := { c.transport with incoming } })
    (hclient : ∀ call', call = .client call' → Ends call'.exec s.client (fun _ c => I c)
      fun e c => (∃ e', e = .err e') → I c)
    (h : I s.client) (hstep : s.step call = some t) : I t.client := by
  cases call with
  | client call =>
    have hexec := hclient call rfl
    obtain ⟨-, hstep⟩ := step_client hstep
    rcases hstep with ⟨writer, client, hrun, rfl⟩ | ⟨e, client, hrun, rfl⟩
    · rw [client_afterClient]
      exact hexec.ok_of hrun
    · rw [client_afterClient]
      exact hexec.error_of hrun ⟨e, rfl⟩
  | writer call =>
    obtain ⟨writer, -, hstep⟩ := step_writer hstep
    have hexec := preserves_writer hsend writer call s.client h
    rcases hstep with ⟨left, client, hrun, rfl⟩ | ⟨e, client, hrun, rfl⟩
    · exact hexec.ok_of hrun
    · exact hexec.error_of hrun
  | receive result =>
    cases hstep
    exact hreceive s.client _ h

end ClientSystem
end MqttEngine
