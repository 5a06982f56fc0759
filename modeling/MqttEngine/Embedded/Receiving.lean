import MqttEngine.Embedded.Keeping
import MqttEngine.Embedded.OutgoingFrames

/-!
# What the receiving operations do

A received packet calls for acknowledgements, changes the in-flight table and becomes an
event; `MqttPacket.acks`, `MqttPacket.settle` and `MqttPacket.event` say so, and
`handlePacket_spec` says that the client does it. `poll` handles the packet that it finds at
the front of what one receive has returned, `poll_batch` handles all of them.

## Main definitions

* `Ready` — the client can send acknowledgements.
* `Handled` — what handling packets does to the client.
* `Recv`, `Recv.receiveAll` — calls of the two operations, one after the other.

## Main results

* `ready_of_runs` — a connected client is ready as long as no send fails.
* `handlePacket_spec`, `poll_of_ok`, `pollBatch_of_ok` — the receiving operations.
-/

namespace MqttEngine
open Checked MqttClient ClientSystem

section
variable {E : Type} {bufSize maxInflight : ℕ} {c : MqttClient E bufSize maxInflight}

/-! ## Clients that can send -/

/-- Sends do not fail, and a client that is connected has room for an acknowledgement, because
its buffer has held a CONNECT. -/
structure Ready (c : MqttClient E bufSize maxInflight) : Prop where
  sendResults : c.transport.SendsOk
  room : c.state = .connected → 7 ≤ bufSize

/-- Sends do not fail. -/
def Sendable (c : MqttClient E bufSize maxInflight) : Prop := c.transport.SendsOk

/-- A client that is connected has room for an acknowledgement. -/
def Roomy (c : MqttClient E bufSize maxInflight) : Prop := c.state = .connected → 7 ≤ bufSize

theorem sendable_of_moves {α : Type} {x : ClientM E bufSize maxInflight α}
    (h : ∀ s₀, Preserves (Moves (fun _ => True) s₀) x) : Preserves Sendable x := by
  intro s hs
  exact (h s s .refl).mono (fun _ _ hmoves => hs.suffix hmoves.results)
    fun _ _ hmoves => hs.suffix hmoves.results

theorem sendsOk_afterSend (h : c.transport.SendsOk) (tx : Buffer bufSize) (bytes : List UInt8) :
    (c.afterSend tx c.transport.sendResults.tail bytes).transport.SendsOk :=
  h.suffix (List.tail_suffix _)

theorem upheld_sendable : Upheld (Sendable : MqttClient E bufSize maxInflight → Prop) where
  sent bytes s hs := by
    rw [Ends, send_of_ok hs]
    exact sendsOk_afterSend hs _ bytes
  received := sendable_of_moves fun _ => moves_recv
  encoded _ _ hs := hs
  touched _ := Preserves.modify fun _ hs => hs
  filled _ := Preserves.modify fun _ hs => hs
  disconnected := Preserves.modify fun _ hs => hs
  tabled _ _ := Preserves.modify fun _ hs => hs

/-- A call leaves a client whose sends do not fail. -/
theorem sendable_exec (call : ClientCall) :
    Preserves Sendable
      (call.exec : ClientM E bufSize maxInflight (Option MqttStreamWriter)) := by
  by_cases hconnect : ∃ now, call = .connect now
  · obtain ⟨now, rfl⟩ := hconnect
    exact Preserves.bind (sendable_of_moves fun _ => moves_connect now trivial)
      fun _ => Preserves.pure _
  · exact upheld_exec (fun _ hs => hs) (preserves_trackOutbound fun _ _ hs => hs) upheld_sendable call
      (by simpa using hconnect)

/-- With too small a transmit buffer a client does not connect. -/
theorem connect_small (hsmall : bufSize < 7) (now : ℕ) :
    Ends (connect now) c (fun _ _ => False) fun _ c' => c'.state ≠ .connected := by
  have hroom : bufSize < (MqttPacket.connect (connectPacket c.options)).room c.options.version := by
    simp only [MqttPacket.room, MqttPacket.content, List.length_append, length_lengthPrefixed]
    omega
  apply Ends.bind
  apply Ends.modify
  apply Ends.bind
  apply Ends.get
  apply Ends.bind
  obtain ⟨e, tx, hunsent⟩ := sendPacket_unfit (s := { c with state := .connecting })
    (p := .connect (connectPacket c.options))
    (fun _ hle => absurd hle (Nat.not_le.mpr hroom)) fun hfits => absurd hfits.2 (Nat.not_le.mpr hroom)
  rw [Ends, hunsent]
  simp [withTx]

theorem unconnected_exec (hsmall : bufSize < 7) (h : c.state ≠ .connected) (call : ClientCall) :
    Ends call.exec c (fun _ c' => c'.state ≠ .connected) fun _ c' => c'.state ≠ .connected := by
  have hguarded {α β : Type} (f : Unit → ClientM E bufSize maxInflight α)
      (g : α → ClientM E bufSize maxInflight β) :
      Ends (requireConnected >>= f >>= g) c (fun _ c' => c'.state ≠ .connected)
        fun _ c' => c'.state ≠ .connected := by
    apply Ends.bind
    apply Ends.bind
    rw [Ends, requireConnected_of_not h]
    exact h
  cases call with
  | connect now =>
    apply Ends.bind
    exact (connect_small hsmall now).mono (fun _ _ h => h.elim) fun _ _ h => h
  | disconnect =>
    apply Ends.bind
    apply Ends.bind
    apply Ends.get
    rw [if_pos h]
    exact h
  | _ => exact hguarded _ _

theorem roomy_exec (call : ClientCall) :
    Preserves Roomy
      (call.exec : ClientM E bufSize maxInflight (Option MqttStreamWriter)) := by
  intro c h
  by_cases hroom : 7 ≤ bufSize
  · exact Ends.trivial.mono (fun _ _ _ _ => hroom) fun _ _ _ _ => hroom
  · exact (unconnected_exec (Nat.lt_of_not_le hroom) (fun hconnected => hroom (h hconnected)) call).mono
      (fun _ _ hstate hconnected => absurd hconnected hstate)
      fun _ _ hstate hconnected => absurd hconnected hstate

/-- A call leaves a client that is ready. -/
theorem ready_exec (call : ClientCall) :
    Preserves Ready
      (call.exec : ClientM E bufSize maxInflight (Option MqttStreamWriter)) := by
  intro c h
  exact ((sendable_exec call c h.sendResults).and (roomy_exec call c h.room)).mono
    (fun _ _ hc => ⟨hc.1, hc.2⟩) fun _ _ hc => ⟨hc.1, hc.2⟩

theorem roomy_send (bytes : List UInt8) :
    Preserves Roomy (send bytes : ClientM E bufSize maxInflight Unit) := by
  intro s hs
  rw [Ends, send]
  rcases s.transport.sendResults with _ | ⟨_ | e, later⟩ <;> exact hs

/-- In a run over any transport, a client that is connected has room for an acknowledgement. -/
theorem roomy_of_runs {ok : ClientSystem E bufSize maxInflight → Call E bufSize → Prop}
    {transport : Transport E bufSize} {options : MqttOptions} {now : ℕ}
    {t : ClientSystem E bufSize maxInflight} (hrun : Runs ok (startOver transport options now) t) :
    Roomy t.client := by
  apply hrun.invariant (I := fun t => Roomy t.client)
  · intro h
    cases h
  · intro s t call h _ hstep
    refine step_keeps roomy_send (fun c incoming hc => hc) ?_ h hstep
    intro call' _
    exact (roomy_exec call' s.client h).mono (fun _ _ h => h) fun _ _ h _ => h

/-- It is ready as long as no send to come fails. -/
theorem ready_of_runs {ok : ClientSystem E bufSize maxInflight → Call E bufSize → Prop}
    {transport : Transport E bufSize} {options : MqttOptions} {now : ℕ}
    {t : ClientSystem E bufSize maxInflight} (hrun : Runs ok (startOver transport options now) t)
    (hsends : t.client.transport.SendsOk) : Ready t.client :=
  ⟨hsends, roomy_of_runs hrun⟩

end

/-! ## A received packet -/

namespace MqttPacket

/-- The acknowledgements that the packet calls for. -/
def acks : MqttPacket → List MqttPacket
  | .publish p =>
    match p.qos, p.packetId with
    | .atLeastOnce, some pid => [.pubAck (Ack.new pid)]
    | .exactlyOnce, some pid => [.pubRec (Ack.new pid)]
    | _, _ => []
  | .pubRec rec => [.pubRel (Ack.new rec.packetId)]
  | .pubRel rel => [.pubComp (Ack.new rel.packetId)]
  | _ => []

/-- What the packet does to the in-flight table. -/
def settle {maxInflight : ℕ} (table : InflightQueue maxInflight) :
    MqttPacket → InflightQueue maxInflight
  | .publish p =>
    match p.qos, p.packetId with
    | .exactlyOnce, some pid => (table.trackInboundQos2 pid).getD table
    | _, _ => table
  | .pubAck ack => (table.handlePuback ack.packetId).getD table
  | .pubRec rec => (table.handlePubrec rec.packetId).getD table
  | .pubRel rel => (table.handlePubrel rel.packetId).getD table
  | .pubComp comp => (table.handlePubcomp comp.packetId).getD table
  | _ => table

/-- The event that the packet becomes. -/
def event : MqttPacket → Option MqttEvent
  | .publish p => some (.publish p)
  | .pubAck ack => some (.pubAck ack)
  | .pubRec rec => some (.pubRec rec)
  | .pubRel rel => some (.pubRel rel)
  | .pubComp comp => some (.pubComp comp)
  | .subAck suback => some (.subAck suback)
  | .unsubAck unsuback => some (.unsubAck unsuback)
  | .pingResp => some .pingResp
  | .disconnect _ => some .disconnect
  | _ => none

theorem isAck_of_mem_acks {p q : MqttPacket} (h : q ∈ p.acks) : q.IsAck := by
  cases p with
  | publish p =>
    simp only [acks] at h
    split at h
    · exact ⟨_, .inl (List.mem_singleton.mp h)⟩
    · exact ⟨_, .inr (.inl (List.mem_singleton.mp h))⟩
    · cases h
  | pubRec rec => exact ⟨_, .inr (.inr (.inl (List.mem_singleton.mp h)))⟩
  | pubRel rel => exact ⟨_, .inr (.inr (.inr (List.mem_singleton.mp h)))⟩
  | _ => cases h

/-- Seven bytes are enough for an acknowledgement. -/
theorem fits_of_isAck {p : MqttPacket} (h : p.IsAck) {size : ℕ} (hsize : 7 ≤ size)
    (version : MqttVersion) : p.Fits version size := by
  obtain ⟨id, rfl | rfl | rfl | rfl⟩ := h
  all_goals
    refine ⟨by simp [Encodable, prefixed], ?_⟩
    simpa [room, content, Ack.new, reasonBytes] using hsize

end MqttPacket

/-- A DISCONNECT ends the connection. -/
def MqttPacket.stateAfter (state : ConnectionState) : MqttPacket → ConnectionState
  | .disconnect _ => .disconnected
  | _ => state

/-- What `ps` calls for on the wire. -/
def ackBytes (version : MqttVersion) (ps : List MqttPacket) : List (List UInt8) :=
  (ps.flatMap MqttPacket.acks).map (MqttPacket.wire version)

theorem ackBytes_cons (version : MqttVersion) (p : MqttPacket) (ps : List MqttPacket) :
    ackBytes version (p :: ps) = ackBytes version [p] ++ ackBytes version ps := by
  simp [ackBytes]

section
variable {E : Type} {bufSize maxInflight : ℕ} {s s' s'' : MqttClient E bufSize maxInflight}
  {ps qs : List MqttPacket} {new new' : List (List UInt8)}

/-- From `s` to `s'` the packets `ps` have been handled, and the bytes in `new` sent. -/
structure Handled (s s' : MqttClient E bufSize maxInflight) (ps : List MqttPacket)
    (new : List (List UInt8)) : Prop where
  options : s'.options = s.options
  state : s'.state = ps.foldl MqttPacket.stateAfter s.state
  sendResults : s'.transport.SendsOk
  sent : s'.transport.sent = s.transport.sent ++ new
  incoming : s'.transport.incoming = s.transport.incoming
  inflight : s'.inflight = ps.foldl MqttPacket.settle s.inflight

theorem Handled.refl (h : s.transport.SendsOk) : Handled s s [] [] :=
  ⟨rfl, rfl, h, by simp, rfl, rfl⟩

theorem Handled.trans (h : Handled s s' ps new) (h' : Handled s' s'' qs new') :
    Handled s s'' (ps ++ qs) (new ++ new') where
  options := h'.options.trans h.options
  state := by rw [h'.state, h.state, List.foldl_append]
  sendResults := h'.sendResults
  sent := by rw [h'.sent, h.sent, List.append_assoc]
  incoming := h'.incoming.trans h.incoming
  inflight := by rw [h'.inflight, h.inflight, List.foldl_append]

theorem updateInflight_eq (f : InflightQueue maxInflight → Option (InflightQueue maxInflight))
    (s : MqttClient E bufSize maxInflight) :
    updateInflight f s = .ok () { s with inflight := (f s.inflight).getD s.inflight } := rfl

/-- Sending an acknowledgement. -/
theorem sendPacket_ack (hsend : s.transport.SendsOk) (hroom : 7 ≤ bufSize)
    {p : MqttPacket} (hp : p.IsAck) :
    ∃ s', sendPacket p s = .ok () s' ∧ Handled s s' [] [p.wire s.options.version] := by
  obtain ⟨tx, hrun⟩ := sendPacket_of_ok hsend (MqttPacket.fits_of_isAck hp hroom s.options.version)
    ((short_of_isAck hp).measured _ _)
  exact ⟨_, hrun, ⟨rfl, rfl, sendsOk_afterSend hsend _ _, rfl, rfl, rfl⟩⟩

/-- The client does what the packet calls for. -/
theorem handlePacket_spec (hsend : s.transport.SendsOk) (hroom : 7 ≤ bufSize)
    (p : MqttPacket) :
    ∃ s', handlePacket p s = .ok p.event s' ∧
      Handled s s' [p] (ackBytes s.options.version [p]) := by
  have hquiet (s' : MqttClient E bufSize maxInflight) (hoptions : s'.options = s.options)
      (hstate : s'.state = p.stateAfter s.state) (htransport : s'.transport = s.transport)
      (hinflight : s'.inflight = p.settle s.inflight) (hacks : p.acks = []) :
      Handled s s' [p] (ackBytes s.options.version [p]) :=
    ⟨hoptions, hstate, by rwa [htransport], by simp [ackBytes, hacks, htransport],
      by rw [htransport], hinflight⟩
  have hack (s₁ : MqttClient E bufSize maxInflight) (q : MqttPacket) (hq : p.acks = [q])
      (hoptions : s₁.options = s.options) (hstate : s₁.state = p.stateAfter s.state)
      (htransport : s₁.transport = s.transport) :
      ∃ s', sendPacket q s₁ = .ok () s' ∧ s'.inflight = s₁.inflight ∧
        ∀ s'', s''.options = s'.options → s''.state = s'.state → s''.transport = s'.transport →
          s''.inflight = p.settle s.inflight →
          Handled s s'' [p] (ackBytes s.options.version [p]) := by
    obtain ⟨s', hrun, h⟩ := sendPacket_ack (s := s₁) (by rwa [htransport]) hroom
      (MqttPacket.isAck_of_mem_acks (p := p) (q := q) (by simp [hq]))
    refine ⟨s', hrun, h.inflight, ?_⟩
    intro s'' hoptions' hstate' htransport' hinflight'
    refine ⟨by rw [hoptions', h.options, hoptions], ?_, by rw [htransport']; exact h.sendResults,
      ?_, ?_, hinflight'⟩
    · rw [hstate', h.state]
      exact hstate
    · simp [htransport', h.sent, htransport, hoptions, ackBytes, hq]
    · rw [htransport', h.incoming, htransport]
  cases p with
  | publish p =>
    rcases hqos : p.qos with _ | _ | _
    · refine ⟨s, ?_, hquiet s rfl rfl rfl ?_ ?_⟩
      · simp only [handlePacket, hqos]
        rfl
      · simp only [MqttPacket.settle, hqos]
      · simp only [MqttPacket.acks, hqos]
    · rcases hid : p.packetId with _ | pid
      · refine ⟨s, ?_, hquiet s rfl rfl rfl ?_ ?_⟩
        · simp only [handlePacket, hqos, hid]
          rfl
        · simp only [MqttPacket.settle, hqos]
        · simp only [MqttPacket.acks, hqos, hid]
      · obtain ⟨s', hrun, hinflight, h⟩ := hack s (.pubAck (Ack.new pid))
          (by simp only [MqttPacket.acks, hqos, hid]) rfl rfl rfl
        refine ⟨s', ?_, h s' rfl rfl rfl ?_⟩
        · simp only [handlePacket, hqos, hid, run_bind hrun]
          rfl
        · simp only [MqttPacket.settle, hqos, hinflight]
    · rcases hid : p.packetId with _ | pid
      · refine ⟨s, ?_, hquiet s rfl rfl rfl ?_ ?_⟩
        · simp only [handlePacket, hqos, hid]
          rfl
        · simp only [MqttPacket.settle, hqos, hid]
        · simp only [MqttPacket.acks, hqos, hid]
      · obtain ⟨s', hrun, hinflight, h⟩ := hack s (.pubRec (Ack.new pid))
          (by simp only [MqttPacket.acks, hqos, hid]) rfl rfl rfl
        refine ⟨{ s' with inflight := (s'.inflight.trackInboundQos2 pid).getD s'.inflight }, ?_,
          h _ rfl rfl rfl ?_⟩
        · simp only [handlePacket, hqos, hid, run_bind hrun]
          rfl
        · simp only [MqttPacket.settle, hqos, hid, hinflight]
  | pubAck ack => exact ⟨_, rfl, hquiet _ rfl rfl rfl rfl rfl⟩
  | pubRec rec =>
    obtain ⟨s', hrun, hinflight, h⟩ := hack
      { s with inflight := (s.inflight.handlePubrec rec.packetId).getD s.inflight }
      (.pubRel (Ack.new rec.packetId)) rfl rfl rfl rfl
    refine ⟨s', ?_, h s' rfl rfl rfl hinflight⟩
    rw [handlePacket, run_bind (updateInflight_eq _ s), run_bind hrun]
    rfl
  | pubRel rel =>
    obtain ⟨s', hrun, hinflight, h⟩ := hack
      { s with inflight := (s.inflight.handlePubrel rel.packetId).getD s.inflight }
      (.pubComp (Ack.new rel.packetId)) rfl rfl rfl rfl
    refine ⟨s', ?_, h s' rfl rfl rfl hinflight⟩
    rw [handlePacket, run_bind (updateInflight_eq _ s), run_bind hrun]
    rfl
  | _ => exact ⟨_, rfl, hquiet _ rfl rfl rfl rfl rfl⟩

/-! ## Receiving -/

/-- What `poll` sends before it receives. -/
def pings (s : MqttClient E bufSize maxInflight) (now : ℕ) : List (List UInt8) :=
  if now - s.lastTxTime ≥ s.options.keepAlive / 2 then
    [MqttPacket.wire s.options.version .pingReq]
  else []

theorem pingIfDue_eq (s : MqttClient E bufSize maxInflight) (now : ℕ) :
    pingIfDue now s =
      if now - s.lastTxTime ≥ s.options.keepAlive / 2 then
        (sendPacket .pingReq >>= fun _ => setLastTx now) s
      else .ok () s := by
  change (if _ then _ else _ : ClientM E bufSize maxInflight Unit) s = _
  split <;> rfl

theorem pingIfDue_spec (hsend : s.transport.SendsOk) (hroom : 7 ≤ bufSize) (now : ℕ) :
    ∃ s', pingIfDue now s = .ok () s' ∧ Handled s s' [] (pings s now) := by
  rw [pingIfDue_eq, pings]
  split
  · have hfits : MqttPacket.Fits s.options.version bufSize .pingReq := by
      refine ⟨by simp [MqttPacket.Encodable, MqttPacket.prefixed], ?_⟩
      simp only [MqttPacket.room]
      omega
    obtain ⟨tx, hrun⟩ := sendPacket_of_ok hsend hfits (short_pingReq.measured _ _)
    rw [run_bind hrun]
    exact ⟨_, rfl, ⟨rfl, rfl, sendsOk_afterSend hsend tx _, rfl, rfl, rfl⟩⟩
  · exact ⟨s, rfl, Handled.refl hsend⟩

/-- The client after a receive has returned `chunk`. -/
def taken (s : MqttClient E bufSize maxInflight) (chunk : BoundedVec UInt8 bufSize)
    (later : List (Except E (BoundedVec UInt8 bufSize))) : MqttClient E bufSize maxInflight :=
  { s with
    transport := { s.transport with incoming := later }
    rxBuffer := s.rxBuffer.fill chunk
    rxLen := chunk.toList.length }

/-- What has been received stands at the front of the buffer. -/
theorem range_rxBuffer (s : MqttClient E bufSize maxInflight) (chunk : BoundedVec UInt8 bufSize)
    (later : List (Except E (BoundedVec UInt8 bufSize))) :
    (range (taken s chunk later).rxBuffer.bytes 0 chunk.toList.length :
      Checked PacketError (List UInt8)) = .ok chunk.toList := by
  have hle : chunk.toList.length ≤ (taken s chunk later).rxBuffer.bytes.length := by
    rw [Buffer.length_eq]
    exact chunk.length_le
  rw [range_of_le (Nat.zero_le _) hle, List.drop_zero]
  simp [taken, Buffer.fill]

/-- A receive that returns bytes, and the rest of an operation. -/
theorem receive_eq {α : Type} {chunk : BoundedVec UInt8 bufSize}
    {later : List (Except E (BoundedVec UInt8 bufSize))}
    (h : s.transport.incoming = .ok chunk :: later) (hne : chunk.toList ≠ [])
    (x : ClientM E bufSize maxInflight α) (f : ℕ → ClientM E bufSize maxInflight α) :
    (recv >>= fun n => if n = 0 then x else do
        modify fun s => { s with rxLen := n }
        f n) s =
      f chunk.toList.length (taken s chunk later) := by
  have hrecv : recv s = .ok chunk.toList.length { taken s chunk later with rxLen := s.rxLen } := by
    simp only [recv, h, taken]
  rw [run_bind hrecv, if_neg (by simpa using hne)]
  rfl

/-- A receive that returns no bytes, and the rest of an operation. -/
theorem receive_quiet {α : Type}
    (h : ∀ chunk later, s.transport.incoming = .ok chunk :: later → chunk.toList = []) (a : α)
    (f : ℕ → ClientM E bufSize maxInflight α) :
    Ends (recv >>= fun n => if n = 0 then pure a else f n) s (fun r _ => r = a)
      fun _ _ => True := by
  apply Ends.bind
  rw [Ends, recv]
  rcases hincoming : s.transport.incoming with _ | ⟨_ | chunk, later⟩
  · trivial
  · trivial
  · dsimp only
    rw [if_pos (by rw [h chunk later hincoming]; rfl)]
    rfl

/-- The client before a receive, with what the receives after it will return. -/
def withIncoming (s : MqttClient E bufSize maxInflight)
    (later : List (Except E (BoundedVec UInt8 bufSize))) : MqttClient E bufSize maxInflight :=
  { s with transport := { s.transport with incoming := later } }

/-- Receiving after something has been sent. -/
theorem Handled.taken (h : Handled s s' [] new) (chunk : BoundedVec UInt8 bufSize)
    (later : List (Except E (BoundedVec UInt8 bufSize))) :
    Handled (withIncoming s later) (MqttEngine.taken s' chunk later) [] new :=
  ⟨h.options, h.state, h.sendResults, h.sent, rfl, h.inflight⟩

section
variable {chunk : BoundedVec UInt8 bufSize} {later : List (Except E (BoundedVec UInt8 bufSize))}

theorem decodeRx_eq (s : MqttClient E bufSize maxInflight) (chunk : BoundedVec UInt8 bufSize)
    (later : List (Except E (BoundedVec UInt8 bufSize))) :
    decodeRx chunk.toList.length (taken s chunk later) =
      lift (decode chunk.toList s.options.version) (taken s chunk later) := by
  change (lift (range (taken s chunk later).rxBuffer.bytes 0 chunk.toList.length) >>= fun bytes =>
    lift (decode bytes s.options.version)) (taken s chunk later) = _
  rw [range_rxBuffer]
  rfl

/-- `poll` decodes what it receives. -/
theorem poll_eq (hconnected : s.state = .connected) (hsend : s.transport.SendsOk)
    (hroom : 7 ≤ bufSize) (h : s.transport.incoming = .ok chunk :: later)
    (hne : chunk.toList ≠ []) (now : ℕ) :
    ∃ s', Handled (withIncoming s later) s' [] (pings s now) ∧
      poll now s = (lift (decode chunk.toList s.options.version) >>= fun packet =>
        match packet with
        | some packet => handlePacket packet
        | none => pure none) s' := by
  obtain ⟨s₁, hping, hhandled⟩ := pingIfDue_spec hsend hroom now
  refine ⟨_, hhandled.taken chunk later, ?_⟩
  rw [poll, run_bind (requireConnected_of_connected hconnected), run_bind hping,
    receive_eq (hhandled.incoming.trans h) hne]
  apply run_bind_congr
  rw [decodeRx_eq, congrArg MqttOptions.version hhandled.options]

/-- `poll` handles the packet that it finds in what it receives. -/
theorem poll_of_ok (hconnected : s.state = .connected) (hsend : s.transport.SendsOk)
    (hroom : 7 ≤ bufSize) (h : s.transport.incoming = .ok chunk :: later)
    (hne : chunk.toList ≠ []) (now : ℕ) {p : MqttPacket}
    (hp : decode chunk.toList s.options.version = .ok (some p)) :
    ∃ s', poll now s = .ok p.event s' ∧
      Handled (withIncoming s later) s' [p] (pings s now ++ ackBytes s.options.version [p]) := by
  obtain ⟨s₁, hhandled, hrun⟩ := poll_eq hconnected hsend hroom h hne now
  obtain ⟨s', hpacket, hhandled'⟩ := handlePacket_spec hhandled.sendResults hroom p
  refine ⟨s', ?_, ?_⟩
  · rw [hrun, hp]
    exact hpacket
  · have hoptions : s₁.options = s.options := hhandled.options
    rw [hoptions] at hhandled'
    exact hhandled.trans hhandled'

/-- `poll` returns an error on what is not a packet. -/
theorem poll_of_error (hconnected : s.state = .connected) (hsend : s.transport.SendsOk)
    (hroom : 7 ≤ bufSize) (h : s.transport.incoming = .ok chunk :: later)
    (hne : chunk.toList ≠ []) (now : ℕ) {e : PacketError}
    (he : decode chunk.toList s.options.version = .error (.err e)) :
    ∃ s', poll now s = .error (.err (.fromPacketError e)) s' ∧
      Handled (withIncoming s later) s' [] (pings s now) := by
  obtain ⟨s', hhandled, hrun⟩ := poll_eq hconnected hsend hroom h hne now
  refine ⟨s', ?_, hhandled⟩
  rw [hrun, he]
  rfl

/-- The events of packets that are handled one after the other; what does not fit is dropped. -/
def pushEvents {maxEvents : ℕ} (events : BoundedVec MqttEvent maxEvents) (ps : List MqttPacket) :
    BoundedVec MqttEvent maxEvents :=
  ps.foldl (fun events p => pushEvent events p.event) events

/-- An event is not dropped if there is room for it. -/
theorem toList_pushEvent {maxEvents : ℕ} {events : BoundedVec MqttEvent maxEvents}
    {event : Option MqttEvent} (h : events.toList.length < maxEvents) :
    (pushEvent events event).toList = events.toList ++ event.toList := by
  rcases event with _ | event
  · simp [pushEvent]
  · rcases hpush : events.push event with _ | events'
    · have := BoundedVec.push_eq_none.mp hpush
      omega
    · rw [pushEvent, hpush]
      exact (BoundedVec.push_eq_some.mp hpush).2

/-- No event is dropped as long as there is room. -/
theorem toList_pushEvents {maxEvents : ℕ} {events : BoundedVec MqttEvent maxEvents}
    {ps : List MqttPacket}
    (h : events.toList.length + (ps.filterMap MqttPacket.event).length ≤ maxEvents) :
    (pushEvents events ps).toList = events.toList ++ ps.filterMap MqttPacket.event := by
  induction ps generalizing events with
  | nil => simp [pushEvents]
  | cons p ps ih =>
    rw [pushEvents, List.foldl_cons]
    rcases hevent : p.event with _ | event
    · rw [List.filterMap_cons_none hevent] at h ⊢
      exact ih h
    · rw [List.filterMap_cons_some hevent] at h ⊢
      rw [List.length_cons] at h
      have hpush : (pushEvent events (some event)).toList = events.toList ++ [event] :=
        toList_pushEvent (by omega)
      have hrest : (pushEvents (pushEvent events (some event)) ps).toList = _ := ih (by
        rw [hpush, List.length_append, List.length_singleton]
        omega)
      rw [hpush, List.append_assoc] at hrest
      exact hrest

/-- The frame loop handles the frames one after the other, and ends at what is not a complete
frame. -/
theorem pollBatchLoop_spec {maxEvents fuel : ℕ} {iter : RawPacketFrameIter}
    {events : BoundedVec MqttEvent maxEvents} {fs : List (List UInt8)} {tail : List UInt8}
    (hsend : s.transport.SendsOk) (hroom : 7 ≤ bufSize)
    (hframes : ∀ f ∈ fs, framing.IsFrame f)
    (hdecode : (fs.map fun f => decode f s.options.version) = ps.map fun p => .ok (some p))
    (hrest : iter.rest = fs.flatten ++ tail)
    (htail : tail.length < 2 ∨ ∃ k, framing.size tail = some k ∧ tail.length < k)
    (hfuel : fs.length < fuel) :
    ∃ s', pollBatchLoop maxEvents fuel iter events s = .ok (pushEvents events ps) s' ∧
      Handled s s' ps (ackBytes s.options.version ps) := by
  induction fuel generalizing s iter events fs ps with
  | zero => exact absurd hfuel (Nat.not_lt_zero _)
  | succ fuel ih =>
    rcases fs with _ | ⟨f, fs⟩
    · rcases ps with _ | ⟨p, ps⟩
      · rw [List.flatten_nil, List.nil_append] at hrest
        rw [← hrest] at htail
        refine ⟨s, ?_, Handled.refl hsend⟩
        rw [pollBatchLoop, RawPacketFrameIter.next_of_incomplete htail]
        rfl
      · cases hdecode
    · rcases ps with _ | ⟨p, ps⟩
      · cases hdecode
      · rw [List.map_cons, List.map_cons, List.cons.injEq] at hdecode
        have hframe := hframes f (by simp)
        rw [List.flatten_cons, List.append_assoc] at hrest
        have hsize : framing.size iter.rest = some f.length := by
          rw [hrest]
          exact framing.stable _ hframe
        have hnext := RawPacketFrameIter.next_of_complete hsize (by rw [hrest]; simp)
        have htake : iter.rest.take f.length = f := by rw [hrest, List.take_left]
        rw [htake] at hnext
        obtain ⟨s₁, hrun, hhandled⟩ := handlePacket_spec hsend hroom p
        obtain ⟨s', hloop, hhandled'⟩ : ∃ s', pollBatchLoop maxEvents fuel (iter.skip f.length)
            (pushEvent events p.event) s₁ = .ok _ s' ∧ Handled s₁ s' ps _ := ih hhandled.sendResults
          (fun g hg => hframes g (List.mem_cons_of_mem f hg))
          (by rw [hhandled.options]; exact hdecode.2)
          (by rw [RawPacketFrameIter.rest_skip, hrest, List.drop_left]) (by simpa using hfuel)
        refine ⟨s', ?_, ?_⟩
        · rw [pollBatchLoop, hnext]
          change (lift (decode f s.options.version) >>= _) s = _
          rw [hdecode.1]
          change (handlePacket p >>= _) s = _
          rw [run_bind hrun, hloop]
          rfl
        · rw [ackBytes_cons]
          rw [hhandled.options] at hhandled'
          exact hhandled.trans hhandled'

section
variable {chunk : BoundedVec UInt8 bufSize} {later : List (Except E (BoundedVec UInt8 bufSize))}

/-- `poll_batch` cuts what it receives into frames. -/
theorem pollBatch_eq (hconnected : s.state = .connected)
    (h : s.transport.incoming = .ok chunk :: later) (hne : chunk.toList ≠ []) (maxEvents : ℕ) :
    pollBatch maxEvents s = pollBatchLoop maxEvents (chunk.toList.length + 1) (.new chunk.toList)
      .empty (taken s chunk later) := by
  rw [pollBatch, run_bind (requireConnected_of_connected hconnected), receive_eq h hne]
  change (lift (range (taken s chunk later).rxBuffer.bytes 0 chunk.toList.length) >>= _) _ = _
  rw [range_rxBuffer]
  rfl

/-- `poll_batch` handles all frames that it receives. -/
theorem pollBatch_of_ok {fs : List (List UInt8)} {tail : List UInt8}
    (hconnected : s.state = .connected) (hsend : s.transport.SendsOk)
    (hroom : 7 ≤ bufSize) (h : s.transport.incoming = .ok chunk :: later)
    (hne : chunk.toList ≠ []) (maxEvents : ℕ) (hframes : ∀ f ∈ fs, framing.IsFrame f)
    (hdecode : (fs.map fun f => decode f s.options.version) = ps.map fun p => .ok (some p))
    (hrest : chunk.toList = fs.flatten ++ tail)
    (htail : tail.length < 2 ∨ ∃ k, framing.size tail = some k ∧ tail.length < k) :
    ∃ s', pollBatch maxEvents s = .ok (pushEvents .empty ps) s' ∧
      Handled (withIncoming s later) s' ps (ackBytes s.options.version ps) := by
  have hcount := Framing.length_le_flatten hframes
  have hfuel : fs.length < chunk.toList.length + 1 := by
    rw [hrest, List.length_append]
    omega
  obtain ⟨s', hrun, hhandled⟩ : ∃ s', pollBatchLoop maxEvents (chunk.toList.length + 1)
      (.new chunk.toList) .empty (taken s chunk later) = .ok _ s' ∧
        Handled (taken s chunk later) s' ps _ := pollBatchLoop_spec hsend hroom
    hframes hdecode (by rw [RawPacketFrameIter.rest_new, hrest]) htail hfuel
  refine ⟨s', ?_, ?_⟩
  · rw [pollBatch_eq hconnected h hne]
    exact hrun
  · exact ((Handled.refl (s := s) hsend).taken chunk later).trans hhandled

end

end

end

/-! ## Runs of the receiving operations -/

/-- A call of `poll` or `poll_batch`. -/
inductive Recv
  | poll (now : ℕ)
  | pollBatch (maxEvents : ℕ)

/-- What has been received with a call and what the call has given to the application. -/
structure Reception where
  packets : List MqttPacket
  events : List MqttEvent

namespace Recv
variable {E : Type} {bufSize maxInflight : ℕ}

/-- The call as a program, which yields the events that it gives to the application. -/
def exec : Recv → ClientM E bufSize maxInflight (List MqttEvent)
  | .poll now => do
    let event ← MqttClient.poll now
    pure event.toList
  | .pollBatch maxEvents => do
    let events ← MqttClient.pollBatch maxEvents
    pure events.toList

/-- The packets at the front of a list of frames, up to the first that cannot be decoded. -/
def decodeFrames (version : MqttVersion) : List (List UInt8) → List MqttPacket
  | [] => []
  | f :: fs =>
    match decode f version with
    | .ok (some p) => p :: decodeFrames version fs
    | _ => []

/-- The packets in received bytes, which are cut into frames. -/
def find (version : MqttVersion) (bytes : List UInt8) : List MqttPacket :=
  decodeFrames version (framing.split bytes).1

/-- The packets that the client receives with a call. -/
def packets (c : MqttClient E bufSize maxInflight) : List MqttPacket :=
  match c.state, c.transport.incoming with
  | .connected, .ok chunk :: _ => find c.options.version chunk.toList
  | _, _ => []

/-- What a call that returns receives and gives to the application, and the client after it. -/
def receive (c : MqttClient E bufSize maxInflight) (call : Recv) :
    Option (Reception × MqttClient E bufSize maxInflight) :=
  match call.exec c with
  | .ok events c' => some (⟨packets c, events⟩, c')
  | .error (.err _) c' => some (⟨packets c, []⟩, c')
  | .error _ _ => none

theorem receive_of_ok {c c' : MqttClient E bufSize maxInflight} {call : Recv}
    {events : List MqttEvent} (h : call.exec c = .ok events c') :
    call.receive c = some (⟨packets c, events⟩, c') := by
  rw [receive, h]

theorem exec_poll {c c' : MqttClient E bufSize maxInflight} {now : ℕ} {p : MqttPacket}
    (h : MqttClient.poll now c = .ok p.event c') :
    (poll now).exec c = .ok ([p].filterMap MqttPacket.event) c' := by
  have hevents : [p].filterMap MqttPacket.event = p.event.toList := by
    rcases hevent : p.event with _ | event <;> simp [hevent]
  rw [exec, run_bind h, hevents]
  rfl

/-- The events of a batch, if there is room for them. -/
theorem exec_pollBatch {c c' : MqttClient E bufSize maxInflight} {maxEvents : ℕ}
    {ps : List MqttPacket} (h : MqttClient.pollBatch maxEvents c = .ok (pushEvents .empty ps) c')
    (hroom : (ps.filterMap MqttPacket.event).length ≤ maxEvents) :
    (pollBatch maxEvents).exec c = .ok (ps.filterMap MqttPacket.event) c' := by
  have hevents : (pushEvents (.empty : BoundedVec MqttEvent maxEvents) ps).toList =
      ps.filterMap MqttPacket.event := by
    rw [toList_pushEvents (by simpa using hroom), BoundedVec.toList_empty, List.nil_append]
  rw [exec, run_bind h, ← hevents]
  rfl

/-- A list of calls, one after the other. -/
def receiveAll : List Recv → MqttClient E bufSize maxInflight →
    Option (List Reception × MqttClient E bufSize maxInflight)
  | [], c => some ([], c)
  | call :: calls, c => do
    let (reception, c) ← call.receive c
    let (receptions, c) ← receiveAll calls c
    some (reception :: receptions, c)

end Recv

end MqttEngine
