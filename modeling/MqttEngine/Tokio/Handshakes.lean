import MqttEngine.Tokio.Writes

/-!
# The handshakes of QoS 2

At QoS 2 a PUBLISH is answered by a PUBREC, that by a PUBREL, and that by a PUBCOMP. The event
loop has no action for a PUBREC, PUBREL or PUBCOMP, so it answers none of them, nor an inbound
PUBLISH of QoS 2, and it completes a publish of QoS 2 on a PUBACK. `completes_iff` says that a
run conducts its handshakes as it should exactly if it takes part in none.

## Main definitions

* `EventLoop.Exact` — a publish of QoS 2 is in flight.
* `Step.Completes` — what a step should do about a handshake.
* `LoopSystem.Uninvolved` — a packet concerns no handshake.

## Main results

* `completes_iff` — when a run conducts its handshakes.
* `pubRec_unanswered` — a PUBREC is not answered.
-/

namespace MqttEngine.Tokio
open Checked Conn EventLoop

section
variable {E R S W : Type} {maxPacketSize : ℕ}

/-- The first bytes of the packets that only a handshake of QoS 2 has. -/
def IsHandshake (b : UInt8) : Prop := b = 0x50 ∨ b = 0x62 ∨ b = 0x70

theorem not_isHandshake_header (p : Publish) : ¬ IsHandshake p.header := by
  have htype := packetType_first (.publish p)
  rw [MqttPacket.first, MqttPacket.packetType] at htype
  rintro (h | h | h)
  all_goals
    rw [h] at htype
    exact absurd htype (by decide)

theorem sendable_not_isHandshake : Sendable (¬ IsHandshake ·) where
  connect := by simp [IsHandshake]
  publish := not_isHandshake_header
  pubAck := by simp [IsHandshake]
  subscribe := by simp [IsHandshake]
  unsubscribe := by simp [IsHandshake]
  pingReq := by simp [IsHandshake]

/-- A publish of QoS 2 is in flight under the packet id. -/
def EventLoop.Exact (self : EventLoop E R S W maxPacketSize) (packetId : UInt16)
    (entry : PublishMessage × Option R) : Prop :=
  self.inflightPublishes.get? packetId = some entry ∧ entry.1.qos = .exactlyOnce

namespace LoopSystem

/-- The step writes the packet. -/
def Step.Replies (x : Step E R S W maxPacketSize) (packet : MqttPacket) : Prop :=
  ∃ socket socket' new, x.before.connections.getLast? = some socket ∧
    x.after.connections.getLast? = some socket' ∧ socket'.written = socket.written ++ new ∧
    packet.wire x.before.loop.options.version ∈ new

/-- What a step should do about a handshake, after these steps. -/
structure Step.Completes (earlier : List (Step E R S W maxPacketSize))
    (x : Step E R S W maxPacketSize) : Prop where
  pubRec : ∀ ack entry, x.before.acting x.event = some (.pubRec ack) →
    x.before.loop.Exact ack.packetId entry → x.Replies (.pubRel (Ack.new ack.packetId))
  /-- After the PUBREC, a PUBCOMP ends the publish, and whoever waits for it is answered. -/
  pubComp : ∀ ack entry, x.before.acting x.event = some (.pubComp ack) →
    x.before.loop.Exact ack.packetId entry →
    (∃ y ∈ earlier, ∃ rec : PubRec, y.before.acting y.event = some (.pubRec rec) ∧
      rec.packetId = ack.packetId ∧ y.before.loop.Exact ack.packetId entry) →
    x.after.loop.inflightPublishes.get? ack.packetId = none ∧
      ∀ sender, entry.2 = some sender →
        ∃ answer, (sender, answer) ∈ x.after.loop.answers.drop x.before.loop.answers.length
  publish : ∀ p packetId, x.before.acting x.event = some (.publish p) → p.qos = .exactlyOnce →
    p.packetId = some packetId → x.Replies (.pubRec (Ack.new packetId))
  pubRel : ∀ ack, x.before.acting x.event = some (.pubRel ack) →
    x.Replies (.pubComp (Ack.new ack.packetId))
  /-- A PUBACK does not end a publish of QoS 2. -/
  pubAck : ∀ ack entry, x.before.acting x.event = some (.pubAck ack) →
    x.before.loop.Exact ack.packetId entry →
      x.after.loop.inflightPublishes.get? ack.packetId = some entry

/-- The packet is no part of a handshake: no PUBREL, no PUBLISH of QoS 2, and no PUBREC or PUBACK
for a publish of QoS 2 that is in flight. -/
def Uninvolved (self : LoopSystem E R S W maxPacketSize) : MqttPacket → Prop
  | .publish p => p.qos = .exactlyOnce → p.packetId = none
  | .pubAck ack | .pubRec ack => ∀ entry, ¬ self.loop.Exact ack.packetId entry
  | .pubRel _ => False
  | _ => True

variable [DecidableEq S] {ch : Mpsc W S PublishMessage} {order : HashOrder}
  {s t : LoopSystem E R S W maxPacketSize} {event : Event E R S W}

/-- No packet of a handshake is ever written. -/
theorem writes_not_isHandshake {options : ClientOptions} {channels : W} {now : ℕ}
    (h : Runs ch order (fun _ _ => True) (start options channels now) s) :
    ∀ socket ∈ s.connections, socket.Writes (¬ IsHandshake ·) :=
  writes_of_runs sendable_not_isHandshake (by simp [IsHandshake]) h

/-- A step of a run does not write a packet of a handshake. -/
theorem not_replies {options : ClientOptions} {channels : W} {now : ℕ}
    {steps : List (Step E R S W maxPacketSize)}
    (h : Traced ch order (start options channels now) steps s) {x : Step E R S W maxPacketSize}
    (hx : x ∈ steps) {packet : MqttPacket} (hpacket : IsHandshake packet.first) :
    ¬ x.Replies packet := by
  rintro ⟨socket, socket', new, -, hsocket', hwritten, hnew⟩
  have hruns := (h.runs_before hx).tail ⟨_, trivial, h.step_of_mem hx⟩
  have hwrites := writes_not_isHandshake hruns socket' (List.mem_of_getLast? hsocket')
  refine hwrites _ (by rw [hwritten]; exact List.mem_append_right _ hnew) packet.first ?_ hpacket
  rfl

/-- After a PUBACK nothing is in flight under its packet id. -/
theorem pubAck_ends (h : s.step ch order event = some t) {ack : PubAck}
    (hacting : s.acting event = some (.pubAck ack)) :
    t.loop.inflightPublishes.get? ack.packetId = none := by
  refine loop_step (Q := fun loop => loop.inflightPublishes.get? ack.packetId = none) h
    (fun _ _ _ hloop => hloop) ?_
  cases event with
  | handle now =>
    rintro socket rxCursor ⟨frame, packet⟩ later hphase
    obtain rfl : packet = .pubAck ack := by
      simpa [acting, hphase, Phase.received] using hacting
    change Ends (performAction ch now (.pubAck ack.packetId)) _ _ _
    rw [Ends, performAction_pubAck]
    simp [completedPublish]
  | _ => simp [acting] at hacting

/-- In every run: the handshakes are conducted as they should exactly if none takes place. None of
their packets is ever written, not even late. -/
theorem completes_iff {options : ClientOptions} {channels : W} {now : ℕ}
    {steps : List (Step E R S W maxPacketSize)}
    (h : Traced ch order (start options channels now) steps s) :
    ((∀ earlier x later, steps = earlier ++ x :: later → x.Completes earlier) ↔
      ∀ x ∈ steps, ∀ packet, x.before.acting x.event = some packet → x.before.Uninvolved packet) ∧
    ∀ socket ∈ s.connections, socket.Writes (¬ IsHandshake ·) := by
  refine ⟨⟨fun hall x hx packet hacting => ?_, fun hall earlier x later hsteps => ?_⟩,
    writes_not_isHandshake h.runs⟩
  · obtain ⟨earlier, later, hsteps⟩ := List.append_of_mem hx
    have hcompletes := hall earlier x later hsteps
    cases packet with
    | publish p =>
      intro hqos
      by_contra hid
      obtain ⟨packetId, hid⟩ := Option.ne_none_iff_exists'.mp hid
      exact not_replies h hx (by simp [IsHandshake, MqttPacket.first])
        (hcompletes.publish p packetId hacting hqos hid)
    | pubAck ack =>
      intro entry hexact
      have hkept := hcompletes.pubAck ack entry hacting hexact
      rw [pubAck_ends (h.step_of_mem hx) hacting] at hkept
      cases hkept
    | pubRec ack =>
      intro entry hexact
      exact not_replies h hx (by simp [IsHandshake, MqttPacket.first])
        (hcompletes.pubRec ack entry hacting hexact)
    | pubRel ack =>
      exact not_replies h hx (by simp [IsHandshake, MqttPacket.first]) (hcompletes.pubRel ack hacting)
    | _ => trivial
  · have hx : x ∈ steps := by simp [hsteps]
    have hearlier (y : Step E R S W maxPacketSize) (hy : y ∈ earlier) : y ∈ steps := by
      simp [hsteps, hy]
    constructor
    · exact fun ack entry hacting hexact => absurd hexact (hall x hx _ hacting entry)
    · rintro ack entry - - ⟨y, hy, rec, hacting, hid, hexact⟩
      rw [← hid] at hexact
      exact absurd hexact (hall y (hearlier y hy) _ hacting entry)
    · intro p packetId hacting hqos hid
      rw [hall x hx _ hacting hqos] at hid
      cases hid
    · exact fun ack hacting => (hall x hx _ hacting).elim
    · exact fun ack entry hacting hexact => absurd hexact (hall x hx _ hacting entry)

/-- A message is published, and then the broker sends a frame. -/
def publishing (qos : QoS) (frame : List UInt8) : List (Event Unit ℕ ℕ (ℕ → Queue PublishMessage)) :=
  connecting [frame] ++
    [.request (some (.publish { PublishMessage.new "a" [1] with qos } (some 0))) 0, .read, .handle 0]

/-- A publish of QoS 1 and its PUBACK. -/
theorem completes_iff_sample :
    ∃ steps s, Traced (.queues ℕ PublishMessage) listed fresh steps s ∧
      steps.filterMap (fun x => x.before.acting x.event) = [.pubAck (Ack.new 1)] ∧
      ∀ earlier x later, steps = earlier ++ x :: later → x.Completes earlier := by
  let ran := runTraced (.queues ℕ PublishMessage) listed (publishing .atLeastOnce [0x40, 2, 0, 1]) fresh
  have heval : ran.map (fun x => (x.1.filterMap (fun x => x.before.acting x.event),
        x.1.map fun x => x.before.loop.inflightPublishes.all fun e => e.2.1.qos = .atLeastOnce)) =
      some ([.pubAck (Ack.new 1)], [true, true, true, true, true]) := by
    decide +kernel
  obtain ⟨⟨steps, s⟩, hrun, hs⟩ := Option.map_eq_some_iff.mp heval
  simp only [Prod.mk.injEq] at hs
  have htraced := traced_of_runTraced hrun
  refine ⟨steps, s, htraced, hs.1, (completes_iff htraced).1.mpr fun x hx packet hacting => ?_⟩
  have hpacket : packet ∈ steps.filterMap fun x => x.before.acting x.event :=
    List.mem_filterMap.mpr ⟨x, hx, hacting⟩
  rw [hs.1, List.mem_singleton] at hpacket
  rw [hpacket]
  rintro entry ⟨hentry, hqos⟩
  have hall : x.before.loop.inflightPublishes.all (fun e => e.2.1.qos = .atLeastOnce) = true := by
    have hmem := List.mem_map_of_mem (f := fun x : Step Unit ℕ ℕ (ℕ → Queue PublishMessage) 64 =>
      x.before.loop.inflightPublishes.all fun e => e.2.1.qos = .atLeastOnce) hx
    rw [hs.2] at hmem
    simpa using hmem
  have hone := List.all_eq_true.mp hall _ (Assoc.mem_of_get? hentry)
  simp [hqos] at hone

/-- The PUBREC for a publish of QoS 2 is not answered. -/
theorem pubRec_unanswered :
    ¬ ∀ steps s, Traced (.queues ℕ PublishMessage) listed fresh steps s →
      ∀ earlier x later, steps = earlier ++ x :: later → x.Completes earlier := by
  intro hall
  let ran := runTraced (.queues ℕ PublishMessage) listed (publishing .exactlyOnce [0x50, 2, 0, 1]) fresh
  have heval : ran.bind (fun x => x.1.getLast?.map fun x =>
        (x.before.acting x.event, x.before.loop.inflightPublishes.get? 1)) =
      some (some (.pubRec (Ack.new 1)),
        some ({ PublishMessage.new "a" [1] with qos := .exactlyOnce, packetId := some 1 }, some 0)) := by
    decide +kernel
  obtain ⟨⟨steps, s⟩, hrun, heval⟩ := Option.bind_eq_some_iff.mp heval
  obtain ⟨x, hlast, hx⟩ := Option.map_eq_some_iff.mp heval
  simp only [Prod.mk.injEq] at hx
  have htraced := traced_of_runTraced hrun
  have hmem : x ∈ steps := List.mem_of_getLast? hlast
  obtain ⟨earlier, later, hsteps⟩ := List.append_of_mem hmem
  have hreplies := (hall steps s htraced earlier x later hsteps).pubRec _ _ hx.1 ⟨hx.2, rfl⟩
  exact not_replies htraced hmem (by simp [IsHandshake, MqttPacket.first]) hreplies

end LoopSystem

end

end MqttEngine.Tokio
