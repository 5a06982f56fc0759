import MqttEngine.Embedded.Receiving

/-!
# Inbound publishes of QoS 2

A PUBLISH of QoS 2 opens an exchange that the PUBREL with its id closes. If the PUBREC gets
lost, the broker sends the PUBLISH again, and the application should see it once only. The
client enters the id of the exchange into the in-flight table, but does not look there when
a PUBLISH arrives: every PUBLISH becomes an event. `delivered_once_iff` says that each
exchange is delivered exactly once if, and only if, no PUBLISH is sent again while its
exchange is open.

What is received is what the bytes hold, frame by frame. `poll` drops what stands behind the first
frame, both operations drop what is left of a frame that is not complete, and a batch that ends in
an error or has no room for an event drops events. `Recv.Smooth` leaves out these calls.

## Main definitions

* `exchanges`, `delivered` — the publishes that open an exchange, and those given to the
  application.
* `Fresh` — no publish is sent again while its exchange is open.
* `SmoothRun` — every call has a use for all of the bytes that it receives.

## Main results

* `events_of_smooth` — the application is given all events.
* `delivered_once_iff` — when every exchange is delivered exactly once.
* `delivered_twice` — a publish that is sent again.
-/

namespace MqttEngine
open Checked MqttClient ClientSystem

/-! ## Exchanges -/

/-- The publish of QoS 2 with the id `i` that the packet is. -/
def publishOf (i : UInt16) : MqttPacket → Option Publish
  | .publish p => if p.qos = .exactlyOnce ∧ p.packetId = some i then some p else none
  | _ => none

/-- The publish of QoS 2 with the id `i` that the event gives to the application. -/
def deliveryOf (i : UInt16) : MqttEvent → Option Publish
  | .publish p => if p.qos = .exactlyOnce ∧ p.packetId = some i then some p else none
  | _ => none

/-- The packet closes the exchange with the id `i`. -/
def Releases (i : UInt16) (p : MqttPacket) : Prop := ∃ rel, p = .pubRel rel ∧ rel.packetId = i

instance (i : UInt16) (p : MqttPacket) : Decidable (Releases i p) :=
  match p with
  | .pubRel rel => decidable_of_iff (rel.packetId = i) (by simp [Releases])
  | .connect _ | .connAck _ | .publish _ | .pubAck _ | .pubRec _ | .pubComp _ | .subscribe _
  | .subAck _ | .unsubscribe _ | .unsubAck _ | .pingReq | .pingResp | .disconnect _ =>
    isFalse (by simp [Releases])

/-- The publishes that open an exchange with the id `i`, where `isOpen` says whether one is open
at the start. -/
def exchanges (i : UInt16) : Bool → List MqttPacket → List Publish
  | _, [] => []
  | isOpen, packet :: packets =>
    match publishOf i packet with
    | some p => if isOpen then exchanges i true packets else p :: exchanges i true packets
    | none => exchanges i (isOpen && ¬ Releases i packet) packets

/-- No publish with the id `i` arrives while its exchange is open. -/
def Fresh (i : UInt16) : Bool → List MqttPacket → Prop
  | _, [] => True
  | isOpen, packet :: packets =>
    match publishOf i packet with
    | some _ => isOpen = false ∧ Fresh i true packets
    | none => Fresh i (isOpen && ¬ Releases i packet) packets

instance decidableFresh (i : UInt16) :
    (isOpen : Bool) → (packets : List MqttPacket) → Decidable (Fresh i isOpen packets)
  | _, [] => isTrue trivial
  | isOpen, packet :: packets => by
    have := fun isOpen => decidableFresh i isOpen packets
    unfold Fresh
    split <;> infer_instance

/-- The publishes with the id `i` among events. -/
def delivered (i : UInt16) (events : List MqttEvent) : List Publish :=
  events.filterMap (deliveryOf i)

/-- A publish is delivered by the event that its packet becomes. -/
theorem deliveryOf_event (i : UInt16) (packet : MqttPacket) :
    packet.event.bind (deliveryOf i) = publishOf i packet := by
  cases packet <;> rfl

theorem delivered_events (i : UInt16) (packets : List MqttPacket) :
    delivered i (packets.filterMap MqttPacket.event) = packets.filterMap (publishOf i) := by
  rw [delivered, List.filterMap_filterMap]
  congr 1
  funext packet
  exact deliveryOf_event i packet

theorem exchanges_sublist (i : UInt16) (isOpen : Bool) (packets : List MqttPacket) :
    List.Sublist (exchanges i isOpen packets) (packets.filterMap (publishOf i)) := by
  induction packets generalizing isOpen with
  | nil => exact List.Sublist.refl _
  | cons packet packets ih =>
    rw [exchanges]
    rcases hpublish : publishOf i packet with _ | p
    · rw [List.filterMap_cons_none hpublish]
      exact ih _
    · rw [List.filterMap_cons_some hpublish]
      cases isOpen with
      | true => exact (ih true).cons p
      | false => exact (ih true).cons_cons p

/-- All publishes open an exchange if, and only if, none is sent again. -/
theorem exchanges_eq_iff (i : UInt16) (isOpen : Bool) (packets : List MqttPacket) :
    packets.filterMap (publishOf i) = exchanges i isOpen packets ↔ Fresh i isOpen packets := by
  induction packets generalizing isOpen with
  | nil => simp [exchanges, Fresh]
  | cons packet packets ih =>
    rw [exchanges, Fresh]
    rcases hpublish : publishOf i packet with _ | p
    · rw [List.filterMap_cons_none hpublish]
      exact ih _
    · rw [List.filterMap_cons_some hpublish]
      dsimp only
      cases isOpen with
      | true =>
        -- The publish is sent again, and one publish is missing among the exchanges.
        have hlen := (exchanges_sublist i true packets).length_le
        constructor
        · intro heq
          have hcount := congrArg List.length heq
          rw [if_pos rfl, List.length_cons] at hcount
          omega
        · intro hfresh
          cases hfresh.1
      | false =>
        rw [if_neg (by simp), List.cons.injEq, ih]
        simp

/-! ## Runs -/

section
variable {E : Type} {bufSize maxInflight : ℕ} {c : MqttClient E bufSize maxInflight}

/-- What the call receives ends where a frame ends; for `poll` it is one frame, and for `poll_batch`
all of its frames can be decoded, and there is room for their events. -/
def Recv.Smooth (c : MqttClient E bufSize maxInflight) (call : Recv) : Prop :=
  match c.state, c.transport.incoming with
  | .connected, .ok chunk :: _ =>
    match call with
    | .poll _ => chunk.toList = [] ∨ framing.IsFrame chunk.toList
    | .pollBatch maxEvents =>
      (framing.split chunk.toList).2 = [] ∧
        (Recv.packets c).length = (framing.split chunk.toList).1.length ∧
        ((Recv.packets c).filterMap MqttPacket.event).length ≤ maxEvents
  | _, _ => True

instance (c : MqttClient E bufSize maxInflight) (call : Recv) : Decidable (call.Smooth c) := by
  unfold Recv.Smooth
  split
  · split <;> infer_instance
  · infer_instance

/-- All calls of a run are smooth. -/
def SmoothRun : List Recv → MqttClient E bufSize maxInflight → Prop
  | [], _ => True
  | call :: calls, c => call.Smooth c ∧
    match call.receive c with
    | some (_, c) => SmoothRun calls c
    | none => True

instance decidableSmoothRun : (calls : List Recv) → (c : MqttClient E bufSize maxInflight) →
    Decidable (SmoothRun calls c)
  | [], _ => isTrue trivial
  | call :: calls, c => by
    have := decidableSmoothRun calls
    unfold SmoothRun
    split <;> infer_instance

/-- All frames can be decoded. -/
theorem map_decode_of_length {version : MqttVersion} {fs : List (List UInt8)}
    (h : (Recv.decodeFrames version fs).length = fs.length) :
    (fs.map fun f => decode f version) =
      (Recv.decodeFrames version fs).map fun p => .ok (some p) := by
  induction fs with
  | nil => rfl
  | cons f fs ih =>
    rw [Recv.decodeFrames] at h ⊢
    split at h
    · rename_i p hp
      rw [List.map_cons, List.map_cons, hp, ih (by simpa using h)]
    · cases h

theorem ready_recv (h : Ready c) (call : Recv) :
    Ends call.exec c (fun _ c' => Ready c') fun _ c' => Ready c' := by
  by_cases hroom : 7 ≤ bufSize
  · have hsendable {α : Type} {x : ClientM E bufSize maxInflight α} (hx : Preserves Sendable x)
        (f : α → List MqttEvent) :
        Ends (do let a ← x; pure (f a) : ClientM E bufSize maxInflight (List MqttEvent)) c
          (fun _ c' => Ready c') fun _ c' => Ready c' := by
      apply Ends.bind
      exact (hx c h.sendResults).mono (fun _ _ h => ⟨h, fun _ => hroom⟩)
        fun _ _ h => ⟨h, fun _ => hroom⟩
    cases call with
    | poll now =>
      exact hsendable (sendable_of_moves fun _ => moves_poll now trivial fun _ _ => trivial) _
    | pollBatch maxEvents =>
      exact hsendable (sendable_of_moves fun _ => moves_pollBatch maxEvents fun _ _ => trivial) _
  · have hstate : c.state ≠ .connected := fun hconnected => hroom (h.room hconnected)
    have hnot := requireConnected_of_not hstate
    cases call with
    | poll now =>
      apply Ends.bind
      apply Ends.bind
      rw [Ends, hnot]
      exact h
    | pollBatch maxEvents =>
      apply Ends.bind
      apply Ends.bind
      rw [Ends, hnot]
      exact h

/-- A receive that returns bytes. -/
theorem events_recv_bytes (hready : Ready c) (hconnected : c.state = .connected) {call : Recv}
    (hsmooth : call.Smooth c) {chunk : BoundedVec UInt8 bufSize}
    {later : List (Except E (BoundedVec UInt8 bufSize))}
    (h : c.transport.incoming = .ok chunk :: later) (hne : chunk.toList ≠ []) :
    Ends call.exec c
      (fun events _ => events =
        (Recv.find c.options.version chunk.toList).filterMap MqttPacket.event)
      fun e _ => ∀ e', e = .err e' → Recv.find c.options.version chunk.toList = [] := by
  have hroom := hready.room hconnected
  have hpackets : Recv.packets c = Recv.find c.options.version chunk.toList := by
    rw [Recv.packets, hconnected, h]
  simp only [Recv.Smooth, hconnected, h] at hsmooth
  cases call with
  | poll now =>
    rw [Recv.find, Framing.split_of_isFrame (hsmooth.resolve_left hne), Recv.decodeFrames]
    rcases hdecode : decode chunk.toList c.options.version with (e | _ | _) | _ | p
    · obtain ⟨c', hrun, -⟩ := poll_of_error hconnected hready.sendResults hroom h hne now hdecode
      rw [Ends, Recv.exec, run_bind_error hrun]
      exact fun _ _ => rfl
    · obtain ⟨c', -, hrun⟩ := poll_eq hconnected hready.sendResults hroom h hne now
      rw [hdecode] at hrun
      rw [Ends, Recv.exec, run_bind_error hrun]
      exact fun _ _ => rfl
    · obtain ⟨c', -, hrun⟩ := poll_eq hconnected hready.sendResults hroom h hne now
      rw [hdecode] at hrun
      rw [Ends, Recv.exec, run_bind_error hrun]
      exact fun _ _ => rfl
    · exact absurd hdecode (decode_ne_none hne _)
    · obtain ⟨c', hrun, -⟩ := poll_of_ok hconnected hready.sendResults hroom h hne now hdecode
      rw [Ends, Recv.exec_poll hrun]
      rfl
  | pollBatch maxEvents =>
    obtain ⟨htail, hlen, hevents⟩ := hsmooth
    rw [hpackets] at hlen hevents
    have hflat := framing.flatten_split chunk.toList
    rw [htail] at hflat
    obtain ⟨c', hrun, -⟩ := pollBatch_of_ok hconnected hready.sendResults hroom h hne maxEvents
      (fun f hf => Framing.isFrame_of_mem_split hf) (map_decode_of_length hlen) hflat.symm
      (.inl (by simp))
    rw [Ends, Recv.exec_pollBatch hrun hevents]
    rfl

/-- A receive that returns no bytes. -/
theorem events_recv_quiet (hready : Ready c) (hconnected : c.state = .connected) (call : Recv)
    (h : ∀ chunk later, c.transport.incoming = .ok chunk :: later → chunk.toList = []) :
    Ends call.exec c (fun events _ => events = []) fun _ _ => True := by
  cases call with
  | poll now =>
    obtain ⟨c₁, hping, hhandled⟩ := pingIfDue_spec hready.sendResults (hready.room hconnected) now
    apply Ends.bind
    rw [poll, Ends, run_bind (requireConnected_of_connected hconnected), run_bind hping]
    refine (receive_quiet ?_ none _).mono (fun event _ hnone => by rw [hnone]; rfl)
      fun _ _ _ => trivial
    rw [hhandled.incoming]
    exact h
  | pollBatch maxEvents =>
    apply Ends.bind
    rw [pollBatch, Ends, run_bind (requireConnected_of_connected hconnected)]
    exact (receive_quiet h (.empty : BoundedVec MqttEvent maxEvents) _).mono
      (fun events _ hempty => by rw [hempty]; rfl) fun _ _ _ => trivial

/-- A call that is smooth gives the application the events of all packets that it receives. -/
theorem events_recv (h : Ready c) {call : Recv} (hsmooth : call.Smooth c) :
    Ends call.exec c (fun events _ => events = (Recv.packets c).filterMap MqttPacket.event)
      fun e _ => ∀ e', e = .err e' → Recv.packets c = [] := by
  by_cases hconnected : c.state = .connected
  · by_cases hbytes : ∃ chunk later, c.transport.incoming = .ok chunk :: later ∧ chunk.toList ≠ []
    · obtain ⟨chunk, later, hincoming, hne⟩ := hbytes
      have hpackets : Recv.packets c = Recv.find c.options.version chunk.toList := by
        rw [Recv.packets, hconnected, hincoming]
      rw [hpackets]
      exact events_recv_bytes h hconnected hsmooth hincoming hne
    · have hquiet (chunk : BoundedVec UInt8 bufSize)
          (later : List (Except E (BoundedVec UInt8 bufSize)))
          (hincoming : c.transport.incoming = .ok chunk :: later) : chunk.toList = [] :=
        Classical.not_not.mp fun hne => hbytes ⟨chunk, later, hincoming, hne⟩
      have hpackets : Recv.packets c = [] := by
        rw [Recv.packets]
        split
        · rename_i chunk later _ hincoming
          rw [hquiet chunk later hincoming]
          simp [Recv.find, Recv.decodeFrames]
        · rfl
      rw [hpackets]
      exact (events_recv_quiet h hconnected call hquiet).mono (fun _ _ h => h) fun _ _ _ _ _ => rfl
  · have hnot := requireConnected_of_not hconnected
    have hnone : Recv.packets c = [] := by
      rw [Recv.packets]
      split
      · rename_i hstate _
        exact absurd hstate hconnected
      · rfl
    rw [hnone]
    cases call with
    | poll now =>
      apply Ends.bind
      apply Ends.bind
      rw [Ends, hnot]
      exact fun _ _ => rfl
    | pollBatch maxEvents =>
      apply Ends.bind
      apply Ends.bind
      rw [Ends, hnot]
      exact fun _ _ => rfl

/-- In a run of smooth calls the application is given the events of all packets. -/
theorem events_of_smooth (h : Ready c) {calls : List Recv} (hsmooth : SmoothRun calls c)
    {receptions : List Reception} {c' : MqttClient E bufSize maxInflight}
    (hreceive : Recv.receiveAll calls c = some (receptions, c')) :
    (receptions.flatMap fun r => r.events) =
      (receptions.flatMap fun r => r.packets).filterMap MqttPacket.event := by
  induction calls generalizing c receptions with
  | nil =>
    cases hreceive
    rfl
  | cons call calls ih =>
    rw [Recv.receiveAll] at hreceive
    obtain ⟨⟨reception, c₁⟩, hcall, hreceive⟩ := Option.bind_eq_some_iff.mp hreceive
    obtain ⟨⟨rest, c₂⟩, hrest, hreceive⟩ := Option.bind_eq_some_iff.mp hreceive
    cases hreceive
    rw [SmoothRun, hcall] at hsmooth
    have hends := (ready_recv h call).and (events_recv h hsmooth.1)
    have hstep : Ready c₁ ∧ reception.events = reception.packets.filterMap MqttPacket.event := by
      rw [Recv.receive] at hcall
      split at hcall
      · rename_i hrun
        cases hcall
        exact hends.ok_of hrun
      · rename_i e _ hrun
        cases hcall
        obtain ⟨hready, hnone⟩ := hends.error_of hrun
        rw [hnone e rfl]
        exact ⟨hready, rfl⟩
      · cases hcall
    rw [List.flatMap_cons, List.flatMap_cons, List.filterMap_append, hstep.2,
      ih hstep.1 hsmooth.2 hrest]

/-- In a run of smooth calls in which no send fails, every exchange is delivered exactly once if, and
only if, no publish is sent again while its exchange is open. -/
theorem delivered_once_iff {ok : ClientSystem E bufSize maxInflight → Call E bufSize → Prop}
    {transport : Transport E bufSize} {options : MqttOptions} {now : ℕ}
    {t : ClientSystem E bufSize maxInflight} (hrun : Runs ok (startOver transport options now) t)
    (hsends : t.client.transport.SendsOk) {calls : List Recv} (hsmooth : SmoothRun calls t.client)
    {receptions : List Reception} {c' : MqttClient E bufSize maxInflight}
    (hreceive : Recv.receiveAll calls t.client = some (receptions, c')) (i : UInt16) :
    delivered i (receptions.flatMap fun r => r.events) =
        exchanges i false (receptions.flatMap fun r => r.packets) ↔
      Fresh i false (receptions.flatMap fun r => r.packets) := by
  rw [events_of_smooth (ready_of_runs hrun hsends) hsmooth hreceive, delivered_events]
  exact exchanges_eq_iff i false _

end

/-- A PUBLISH of QoS 2 to the topic `a` with the id 1. -/
def publish2Frame : BoundedVec UInt8 64 :=
  ⟨[0x34, 0x06, 0x00, 0x01, 0x61, 0x00, 0x01, 0x07], by decide⟩

/-- The PUBREL that closes its exchange, and the PUBLISH of another exchange with the same id. -/
def releaseFrames : BoundedVec UInt8 64 :=
  ⟨[0x62, 0x02, 0x00, 0x01, 0x34, 0x06, 0x00, 0x01, 0x61, 0x00, 0x01, 0x08], by decide⟩

/-- Two exchanges with one id. -/
theorem delivered_once_run : ∃ t : ClientSystem Unit 64 4,
    run (fun _ _ => True) [.client (.connect 0)]
      (startOver ⟨[], [none, none], [.ok connAckAccepted, .ok publish2Frame, .ok releaseFrames]⟩
        plainOptions 0) = some t ∧
    ∃ receptions c', Recv.receiveAll [.poll 0, .pollBatch 2] t.client = some (receptions, c') ∧
      (delivered 1 (receptions.flatMap fun r => r.events)).map (fun p => p.payload) = [[7], [8]] ∧
      delivered 1 (receptions.flatMap fun r => r.events) =
        exchanges 1 false (receptions.flatMap fun r => r.packets) := by
  have heval : (run (fun _ _ => True) [.client (.connect 0)]
      (startOver ⟨[], [none, none], [.ok connAckAccepted, .ok publish2Frame, .ok releaseFrames]⟩
        plainOptions 0 : ClientSystem Unit 64 4)).map (fun t =>
          (decide (t.client.transport.SendsOk ∧ SmoothRun [.poll 0, .pollBatch 2] t.client),
            (Recv.receiveAll [.poll 0, .pollBatch 2] t.client).map fun r =>
              (decide (Fresh 1 false (r.1.flatMap fun r => r.packets)),
                (delivered 1 (r.1.flatMap fun r => r.events)).map fun p => p.payload))) =
      some (true, some (true, [[7], [8]])) := by
    decide +kernel
  obtain ⟨t, hrun, ht⟩ := Option.map_eq_some_iff.mp heval
  rw [Prod.mk.injEq, decide_eq_true_iff] at ht
  obtain ⟨⟨hsends, hsmooth⟩, ht⟩ := ht
  obtain ⟨⟨receptions, c'⟩, hreceive, ht⟩ := Option.map_eq_some_iff.mp ht
  rw [Prod.mk.injEq] at ht
  exact ⟨t, hrun, receptions, c', hreceive, ht.2, (delivered_once_iff (runs_of_run hrun) hsends
    hsmooth hreceive 1).mpr (of_decide_eq_true ht.1)⟩

/-- A publish that is sent again is delivered again. -/
theorem delivered_twice :
    ¬ ∀ (t : ClientSystem Unit 64 4) (calls : List Recv) (receptions : List Reception)
      (c' : MqttClient Unit 64 4),
      Runs (fun _ _ => True)
        (start plainOptions [.ok connAckAccepted, .ok publish2Frame, .ok publish2Frame] 0) t →
      t.client.state = .connected → Recv.receiveAll calls t.client = some (receptions, c') → ∀ i,
      delivered i (receptions.flatMap fun r => r.events) =
        exchanges i false (receptions.flatMap fun r => r.packets) := by
  intro hall
  have heval : (run (fun _ _ => True) [.client (.connect 0)]
      (start plainOptions [.ok connAckAccepted, .ok publish2Frame, .ok publish2Frame] 0 :
        ClientSystem Unit 64 4)).map (fun t =>
          (t.client.state, (Recv.receiveAll [.poll 0, .poll 0] t.client).map fun r =>
            ((delivered 1 (r.1.flatMap fun r => r.events)).length,
              (exchanges 1 false (r.1.flatMap fun r => r.packets)).length))) =
      some (.connected, some (2, 1)) := by
    decide +kernel
  obtain ⟨t, hrun, ht⟩ := Option.map_eq_some_iff.mp heval
  rw [Prod.mk.injEq] at ht
  obtain ⟨hconnected, ht⟩ := ht
  obtain ⟨⟨receptions, c'⟩, hreceive, ht⟩ := Option.map_eq_some_iff.mp ht
  rw [Prod.mk.injEq] at ht
  have honce := hall t [.poll 0, .poll 0] receptions c' (runs_of_run hrun) hconnected hreceive 1
  rw [honce] at ht
  exact absurd (ht.1.symm.trans ht.2) (by decide)

end MqttEngine
