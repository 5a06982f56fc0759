import MqttEngine.Packet.Conversation
import MqttEngine.Tokio.Operations

/-!
# What the operations of the event loop say

On a transport whose writes do not fail, the event loop writes whole packets, one behind the other.
`Conn.Says` gives the packets that a program has written, and each program is walked through once.
What a client has to say is its `Agenda`. `Talking` is what the programs keep that a connected
client runs: after its CONNECT, nothing has been written but what is on the agenda, and what the
loop keeps for later is on it too. Behind that there may be packets in the transmit buffer that a
batch has packed and not yet written (`Packing`).

The buffer must not be larger than a packet may be, for the encoder does not check that.

## Main definitions

* `Socket.Hears` — what has been written on a transport, as packets.
* `Conn.Says`, `Conn.Utters` — the packets that have been written between two states.
* `Agenda` — what the client has to say.
* `Talking` — a connection on which the client may go on.
* `Packing` — packets that wait in the transmit buffer.

## Main results

* `says_sendPacket`, `says_performConnectHandshake`, `says_sendDisconnect` — single packets.
* `talking_sendPublishBatchDirect`, `talking_performSessionDataRecovery`, `talking_handle` — what a
  connected client does.
-/

namespace MqttEngine
open Checked

/-- A buffer of this size takes no packet that is too long for its length field. -/
theorem measured_of_le {size : ℕ} (h : size ≤ 128 ^ 4) (version : MqttVersion) (p : MqttPacket) :
    p.Measured version size := by
  intro _ hroom
  by_cases hbare : p.Bare
  · rw [(encode_of_bare hbare version).2.2.2]
    decide
  · have hr := (encode_of_not_bare hbare version).2
    omega

namespace Tokio
open Conn EventLoop

section
variable {E R S W : Type} {maxPacketSize : ℕ}

/-- No write fails. -/
def Socket.Reliable (self : Socket E) : Prop := ∀ r ∈ self.writeResults, r = none

/-- A transport on which these packets, and nothing else, have been written. -/
def Socket.Hears (self : Socket E) (version : MqttVersion) (ps : List MqttPacket) : Prop :=
  self.Reliable ∧ self.written.flatten = ps.flatMap (MqttPacket.wire version) ∧
    ∀ p ∈ ps, p.Legible version

/-- The packet that opens a connection. -/
def opening (options : ClientOptions) : MqttPacket := .connect (connectPacket options)

theorem simple_opening (options : ClientOptions) : (opening options).Simple := by
  refine ⟨?_, rfl, by simp [opening]⟩
  cases hwill : options.will <;>
    simp [opening, MqttPacket.propertyLists, connectPacket, Connect.new, Will.new, hwill]

/-! ## What has been said between two states -/

namespace Conn

/-- From one state to the other only the transport has been used, and these packets have been
written. -/
structure Says (s s' : Conn E R S W maxPacketSize) (ps : List MqttPacket) : Prop where
  loop : s'.toEventLoop =
    { s.toEventLoop with rxBuf := s'.rxBuf, txBuf := s'.txBuf, lastTx := s'.lastTx }
  reliable : s'.socket.Reliable
  written : s'.socket.written.flatten =
    s.socket.written.flatten ++ ps.flatMap (MqttPacket.wire s.options.version)
  legible : ∀ p ∈ ps, p.Legible s.options.version

/-- From one state to the other only the transport has been used, and packets with `P` have been
written. -/
def Utters (P : MqttPacket → Prop) (s s' : Conn E R S W maxPacketSize) : Prop :=
  ∃ ps, Says s s' ps ∧ ∀ p ∈ ps, P p

namespace Says
variable {s s' s'' : Conn E R S W maxPacketSize} {ps qs : List MqttPacket}

theorem options (h : Says s s' ps) : s'.options = s.options :=
  (congrArg EventLoop.options h.loop).trans rfl

theorem refl (h : s.socket.Reliable) : Says s s [] := ⟨rfl, h, by simp, by simp⟩

theorem trans (h : Says s s' ps) (h' : Says s' s'' qs) : Says s s'' (ps ++ qs) := by
  have hwritten := h'.written
  have hlegible := h'.legible
  rw [h.options] at hwritten hlegible
  refine ⟨by rw [h'.loop, h.loop], h'.reliable, ?_,
    List.forall_mem_append.mpr ⟨h.legible, hlegible⟩⟩
  rw [hwritten, h.written, List.flatMap_append, List.append_assoc]

/-- Nothing is written. -/
theorem quiet (h : Says s s' ps) (hloop : s''.toEventLoop =
      { s'.toEventLoop with rxBuf := s''.rxBuf, txBuf := s''.txBuf, lastTx := s''.lastTx })
    (hresults : s''.socket.writeResults = s'.socket.writeResults)
    (hwritten : s''.socket.written = s'.socket.written) : Says s s'' ps := by
  refine ⟨by rw [hloop, h.loop], ?_, by rw [hwritten, h.written], h.legible⟩
  rw [Socket.Reliable, hresults]
  exact h.reliable

/-- What has been heard before is continued. -/
theorem hears (h : Says s s' ps) (hs : s.socket.Hears s.options.version qs) :
    s'.socket.Hears s'.options.version (qs ++ ps) := by
  rw [h.options]
  refine ⟨h.reliable, ?_, List.forall_mem_append.mpr ⟨hs.2.2, h.legible⟩⟩
  rw [h.written, hs.2.1, List.flatMap_append]

end Says

end Conn

namespace EventLoop
variable {s s₀ : Conn E R S W maxPacketSize} {p : MqttPacket} {ps qs : List MqttPacket}

/-! ## Programs that only use the transport -/

/-- An invariant that what is said keeps. -/
theorem preserves_of_utters {α : Type} {I : Conn E R S W maxPacketSize → Prop}
    {P : MqttPacket → Prop} {x : ConnM E R S W maxPacketSize α}
    (hI : ∀ s s', I s → Utters P s s' → I s')
    (h : ∀ s, I s → Ends x s (fun _ => Utters P s) fun _ => Utters P s) : Preserves I x :=
  fun s hs => (h s hs).mono (fun _ s' => hI s s' hs) fun _ s' => hI s s' hs

/-- Nothing is said. -/
theorem utters_of_silent {α : Type} {P : MqttPacket → Prop} {x : ConnM E R S W maxPacketSize α}
    (hreliable : s.socket.Reliable) (h : Preserves (Says s · []) x) :
    Ends x s (fun _ => Utters P s) fun _ => Utters P s :=
  (h s (.refl hreliable)).mono (fun _ _ h => ⟨[], h, by simp⟩) fun _ _ h => ⟨[], h, by simp⟩

theorem says_flush : Preserves (Says s₀ · ps) flush := by
  intro s hs
  rw [Ends, flush]
  rcases s.socket.flushResults with _ | ⟨_ | e, later⟩
  · exact hs
  · exact hs.quiet rfl rfl rfl
  · exact hs.quiet rfl rfl rfl

theorem says_setLastTx (now : ℕ) : Preserves (Says s₀ · ps) (setLastTx now) :=
  Preserves.modify fun _ h => h.quiet rfl rfl rfl

theorem says_read (cursor : ℕ) : Preserves (Says s₀ · ps) (EventLoop.read cursor) := by
  intro s hs
  rw [Ends, EventLoop.read]
  by_cases hbehind : cursor > maxPacketSize
  · rw [if_pos hbehind]
    exact hs
  · rw [if_neg hbehind]
    by_cases hfull : cursor = maxPacketSize
    · rw [if_pos hfull]
      exact hs
    · rw [if_neg hfull]
      dsimp only
      rcases s.socket.incoming with _ | ⟨e | segment, later⟩
      · exact hs
      · exact hs.quiet rfl rfl rfl
      · exact hs.quiet rfl rfl rfl

theorem says_receiveFrames (rxCursor : ℕ) : Preserves (Says s₀ · ps) (receiveFrames rxCursor) :=
  preserves_receiveFrames says_read (fun _ _ h => h.quiet rfl rfl rfl) rxCursor

/-- What is only encoded is not said. -/
theorem silent_encodeTx (p : MqttPacket) : Preserves (Says s₀ · ps) (encodeTx 0 p) := by
  intro s hs
  obtain ⟨tx, r, hok, -⟩ := encodeTx_spec (s := s) (Nat.zero_le _) p
  rw [Ends, hok]
  exact hs.quiet rfl rfl rfl

/-- A datagram is not written. -/
theorem silent_sendDatagram (len : ℕ) : Preserves (Says s₀ · ps) (sendDatagram len) := by
  apply Preserves.get_bind
  intro s _
  apply Preserves.bind (preserves_lift _ _ _)
  intro bytes
  apply Preserves.get_bind
  intro s _
  dsimp only
  split
  · exact Preserves.pure _
  · exact Preserves.bind (Preserves.modify fun _ h => h.quiet rfl rfl rfl) fun _ => Preserves.pure _
  · exact Preserves.bind (Preserves.modify fun _ h => h.quiet rfl rfl rfl) fun _ => Preserves.pure _

/-- Packets that stand in the transmit buffer are written. -/
theorem says_writeTx (h : Says s₀ s ps) {len : ℕ} (hlen : len ≤ maxPacketSize)
    (hheld : s.txBuf.bytes.take len = qs.flatMap (MqttPacket.wire s₀.options.version))
    (hqs : ∀ q ∈ qs, q.Legible s₀.options.version) :
    ∃ s', writeTx len s = .ok () s' ∧ Says s₀ s' (ps ++ qs) := by
  have hok : s.socket.WriteOk := fun r hr => h.reliable r (List.mem_of_mem_head? hr)
  refine ⟨_, (writeTx_of_le hlen).trans (writeAll_of_ok hok _), h.trans ⟨rfl, ?_, ?_, ?_⟩⟩
  · exact fun r hr => h.reliable r (List.mem_of_mem_tail hr)
  · rw [hheld, h.options, socket_withSocket, Socket.written_wrote, List.flatten_append,
      List.flatten_singleton]
  · rwa [h.options]

theorem ignore_of_ok {x : ConnM E R S W maxPacketSize Unit} {s' : Conn E R S W maxPacketSize}
    (h : x s = .ok () s') : ignore x s = .ok () s' := by
  rw [ignore, h]

/-- Of one packet, if anything, that is said. -/
theorem utters_of_init {P : MqttPacket → Prop} {s' : Conn E R S W maxPacketSize} (hp : P p)
    (h : Says s s' qs) (hinit : qs <+: [p]) : Utters P s s' :=
  ⟨qs, h, fun q hq => by rwa [List.mem_singleton.mp (hinit.subset hq)]⟩

section
variable (hsize : maxPacketSize ≤ 128 ^ 4)
include hsize

/-- Encoding behind what stands in the transmit buffer. -/
theorem says_encodeTx (h : Says s₀ s ps) {cursor : ℕ} (hc : cursor ≤ maxPacketSize)
    (hsimple : p.Simple) :
    ∃ s' r, encodeTx cursor p s = .ok r s' ∧ Says s₀ s' ps ∧
      s'.txBuf.bytes.take cursor = s.txBuf.bytes.take cursor ∧
      ∀ n, r = .ok n → cursor + n ≤ maxPacketSize ∧
        s'.txBuf.bytes.take (cursor + n) =
          s.txBuf.bytes.take cursor ++ p.wire s₀.options.version ∧
        p.Legible s₀.options.version := by
  obtain ⟨tx, r, hok, htake, -, hspec⟩ := encodeTx_spec (s := s) hc p
  refine ⟨s.withTx tx, r, hok, h.quiet rfl rfl rfl, htake, fun n hn => ?_⟩
  rw [h.options] at hspec
  have hmeasured := measured_of_le hsize s₀.options.version p
  obtain ⟨hfits, hlen, hfront⟩ := hspec n hn (hmeasured.mono (Nat.sub_le _ _))
  have hroom := hfits.2.trans (Nat.sub_le _ _)
  refine ⟨?_, hfront, hsimple.legible hfits.1 (hmeasured hfits.1 hroom)⟩
  have hcount := congrArg List.length hfront
  rw [List.length_append, List.length_take, List.length_take, tx.length_eq,
    Buffer.length_eq] at hcount
  omega

/-- A packet is encoded and written, or it is not encoded. -/
theorem says_encodeTx_bind {α : Type} {f : Checked PacketError ℕ → ConnM E R S W maxPacketSize α}
    {Q : α → Conn E R S W maxPacketSize → Prop}
    {F : Fault (ClientError E) → Conn E R S W maxPacketSize → Prop} (h : Says s₀ s ps)
    (hsimple : p.Simple)
    (hok : ∀ n s' t, Says s₀ s' ps → writeTx n s' = .ok () t → Says s₀ t (ps ++ [p]) →
      Ends (f (.ok n)) s' Q F)
    (herror : ∀ e s', Says s₀ s' ps → Ends (f (.error e)) s' Q F) :
    Ends (encodeTx 0 p >>= f) s Q F := by
  obtain ⟨s', r, hencode, hs', -, hspec⟩ := says_encodeTx hsize h (Nat.zero_le _) hsimple
  apply Ends.bind
  rw [Ends, hencode]
  rcases r with e | n
  · exact herror e s' hs'
  · obtain ⟨hle, htake, hlegible⟩ := hspec n rfl
    rw [Nat.zero_add] at hle htake
    have hheld : s'.txBuf.bytes.take n = [p].flatMap (MqttPacket.wire s₀.options.version) := by
      simpa using htake
    obtain ⟨t, hwrite, ht⟩ := says_writeTx hs' hle hheld (by simpa)
    exact hok n s' t hs' hwrite ht

/-- A packet that is sent is said, and one that is not is not. -/
theorem says_sendPacket (h : Says s₀ s ps) (hsimple : p.Simple) (now : ℕ) :
    Ends (sendPacket p now) s (fun _ s' => Says s₀ s' (ps ++ [p]))
      fun _ s' => ∃ qs, Says s₀ s' (ps ++ qs) ∧ qs <+: [p] := by
  refine says_encodeTx_bind hsize h hsimple (fun n s' t _ hwrite ht => ?_) fun e s' hs' => ?_
  · have hrest : Preserves (Says s₀ · (ps ++ [p])) (do
        flush
        setLastTx now : ConnM E R S W maxPacketSize Unit) :=
      Preserves.bind says_flush fun _ => says_setLastTx now
    change Ends (writeTx n >>= fun _ => _) s' _ _
    rw [Ends, run_bind hwrite]
    exact (hrest t ht).mono (fun _ _ h => h) fun _ _ h => ⟨[p], h, List.prefix_refl _⟩
  · obtain ⟨e', herror⟩ := lift_error_bind (.protocol .malformedPacket) e
      (fun len => do writeTx len; flush; setLastTx now) s'
    change Ends (orMalformed (.error e) >>= _) s' _ _
    rw [Ends, orMalformed, herror]
    exact ⟨[], by rwa [List.append_nil], List.nil_prefix⟩

/-- A packet whose write may fail is said, or nothing is. -/
theorem says_tryWritePacket (h : Says s₀ s ps) (hsimple : p.Simple) :
    Ends (tryWritePacket p) s (fun _ s' => ∃ qs, Says s₀ s' (ps ++ qs) ∧ qs <+: [p])
      fun _ s' => ∃ qs, Says s₀ s' (ps ++ qs) ∧ qs <+: [p] := by
  have hnone {s' : Conn E R S W maxPacketSize} (hs' : Says s₀ s' ps) :
      ∃ qs, Says s₀ s' (ps ++ qs) ∧ qs <+: [p] :=
    ⟨[], by rwa [List.append_nil], List.nil_prefix⟩
  refine says_encodeTx_bind hsize h hsimple (fun n s' t _ hwrite ht => ?_) fun e s' hs' => ?_
  · change Ends (ignore (writeTx n)) s' _ _
    rw [Ends, ignore_of_ok hwrite]
    exact ⟨[p], ht, List.prefix_refl _⟩
  · rcases e with e | _ | _
    · exact hnone hs'
    · exact hnone hs'
    · exact hnone hs'

/-- A publish of QoS 1 is acknowledged, or nothing is said. -/
theorem says_acknowledgePublish {P : MqttPacket → Prop} (h : Says s₀ s [])
    {message : PublishMessage} (hP : message.qos = .atLeastOnce →
      ∀ pid, message.packetId = some pid → P (.pubAck (Ack.new pid))) (now : ℕ) :
    Ends (acknowledgePublish message now) s (fun _ => Utters P s₀) fun _ => Utters P s₀ := by
  have hnone {s' : Conn E R S W maxPacketSize} (hs' : Says s₀ s' []) : Utters P s₀ s' :=
    ⟨[], hs', by simp⟩
  unfold acknowledgePublish
  split
  · rename_i pid hqos hpid
    have hsimple : (MqttPacket.pubAck (Ack.new pid)).Simple :=
      ⟨by simp [MqttPacket.propertyLists, Ack.new], rfl, by simp⟩
    refine says_encodeTx_bind hsize h hsimple (fun n s' t _ hwrite ht => ?_) fun e s' hs' => ?_
    · have hrest : Preserves (Says s₀ · [.pubAck (Ack.new pid)]) (do
          flush
          setLastTx now : ConnM E R S W maxPacketSize Unit) :=
        Preserves.bind says_flush fun _ => says_setLastTx now
      have hsaid {t : Conn E R S W maxPacketSize} (ht : Says s₀ t [.pubAck (Ack.new pid)]) :
          Utters P s₀ t := ⟨_, ht, by simpa using hP hqos pid hpid⟩
      change Ends (writeTx n >>= fun _ => _) s' _ _
      rw [Ends, run_bind hwrite]
      exact (hrest t ht).mono (fun _ _ h => hsaid h) fun _ _ h => hsaid h
    · rcases e with e | _ | _
      · exact hnone hs'
      · exact hnone hs'
      · exact hnone hs'
  · exact hnone h

theorem utters_sendPacket {P : MqttPacket → Prop} (hreliable : s.socket.Reliable) (hp : P p)
    (hsimple : p.Simple) (now : ℕ) :
    Ends (sendPacket p now) s (fun _ => Utters P s) fun _ => Utters P s :=
  (says_sendPacket hsize (.refl hreliable) hsimple now).mono
    (fun _ _ h => utters_of_init hp h (List.prefix_refl _))
    fun _ _ ⟨_, h, hinit⟩ => utters_of_init hp h hinit

theorem utters_tryWritePacket {P : MqttPacket → Prop} (hreliable : s.socket.Reliable) (hp : P p)
    (hsimple : p.Simple) :
    Ends (tryWritePacket p) s (fun _ => Utters P s) fun _ => Utters P s :=
  (says_tryWritePacket hsize (.refl hreliable) hsimple).mono
    (fun _ _ ⟨_, h, hinit⟩ => utters_of_init hp h hinit)
    fun _ _ ⟨_, h, hinit⟩ => utters_of_init hp h hinit

/-- The CONNECT is all that is said in a handshake, and nothing is if it does not fit. -/
theorem says_performConnectHandshake (hreliable : s.socket.Reliable) :
    Ends performConnectHandshake s (fun _ s' => Says s s' [opening s.options])
      fun _ s' => ∃ qs, Says s s' qs ∧ qs <+: [opening s.options] := by
  change Ends (encodeTx 0 (opening s.options) >>= fun x => _) s _ _
  refine says_encodeTx_bind hsize (.refl hreliable) (simple_opening _)
    (fun n s' t _ hwrite ht => ?_) fun e s' hs' => ?_
  · change Ends (writeTx n >>= fun _ => _) s' _ _
    rw [Ends, run_bind hwrite]
    suffices hanswer : Preserves (Says s · [opening s.options]) _ from
      (hanswer t ht).mono (fun _ _ h => h) fun _ _ h => ⟨_, h, List.prefix_refl _⟩
    apply Preserves.bind says_flush
    intro _
    apply Preserves.bind (says_read 0)
    intro readLen
    split
    · exact Preserves.throw _
    · apply Preserves.ite
      · intro _
        exact Preserves.throw _
      · intro _
        apply Preserves.get_bind
        intro s _
        apply Preserves.bind (preserves_lift _ _ _)
        intro bytes
        apply Preserves.bind (preserves_lift _ _ _)
        intro packet
        split
        · apply Preserves.ite
          · intro _
            exact Preserves.pure _
          · intro _
            exact Preserves.throw _
        · exact Preserves.throw _
  · obtain ⟨e', herror⟩ := lift_error_bind (.protocol .malformedPacket) e _ s'
    change Ends (orMalformed (.error e) >>= _) s' _ _
    rw [Ends, orMalformed, herror]
    exact ⟨[], hs', List.nil_prefix⟩

/-- The DISCONNECT is said, if it fits, and then the status is published. No error is reported. -/
theorem says_sendDisconnect (hreliable : s.socket.Reliable) :
    Ends sendDisconnect s
      (fun _ s' => ∃ t qs, Says s t qs ∧ qs <+: [.disconnect .new] ∧
        s' = { t with statuses := t.statuses ++ [.stopped] })
      fun e _ => ∀ e', e ≠ .err e' := by
  have hstopped {t : Conn E R S W maxPacketSize} {qs : List MqttPacket} (h : Says s t qs)
      (hinit : qs <+: [.disconnect .new]) :
      Ends (publishStatus .stopped) t
        (fun _ s' => ∃ t qs, Says s t qs ∧ qs <+: [.disconnect .new] ∧
          s' = { t with statuses := t.statuses ++ [.stopped] })
        fun e _ => ∀ e', e ≠ .err e' :=
    ⟨t, qs, h, hinit, rfl⟩
  refine says_encodeTx_bind hsize (.refl hreliable) simple_disconnect (fun n s' t _ hwrite ht => ?_)
    fun e s' hs' => ?_
  · change Ends (ignore (writeTx n) >>= fun _ => ignore flush >>= fun _ => _) s' _ _
    rw [Ends, run_bind (ignore_of_ok hwrite)]
    apply Ends.bind
    exact (ends_ignore (says_flush t ht)).mono (fun _ _ h => hstopped h (List.prefix_refl _))
      fun _ _ h => h.1
  · rcases e with e | _ | _
    · exact hstopped hs' List.nil_prefix
    · exact fun _ h => by cases h
    · exact fun _ h => by cases h

end

end EventLoop

/-! ## Connections on which the client may go on -/

/-- What the client has to say. -/
structure Agenda where
  /-- The messages to publish. -/
  message : PublishMessage → Prop
  /-- The subscriptions to make. -/
  subscription : String → QoS → Prop
  /-- The subscriptions to end. -/
  unsubscription : String → Prop
  /-- The packet ids to acknowledge. -/
  received : UInt16 → Prop

/-- The packet is on the agenda. A message may be published once more, with DUP set. -/
def Agenda.Covers (agenda : Agenda) : MqttPacket → Prop
  | .publish p => ∃ message dup, agenda.message message ∧ (dup = message.dup ∨ dup = true) ∧
      .publish p = publishPacket message p.packetId dup
  | .pubAck ack => agenda.received ack.packetId ∧ ack = .new ack.packetId
  | .subscribe p => ∃ packetId topic qos, agenda.subscription topic qos ∧
      .subscribe p = subscribePacket packetId topic qos
  | .unsubscribe p => ∃ packetId topic, agenda.unsubscription topic ∧
      .unsubscribe p = unsubscribePacket packetId topic
  | .pingReq => True
  | _ => False

theorem Agenda.Covers.byClient {agenda : Agenda} {p : MqttPacket} (h : agenda.Covers p) :
    p.ByClient := by
  cases p <;> trivial

/-- What is asked for in a request is on the agenda. -/
def Agenda.Takes (agenda : Agenda) : ClientRequest R S → Prop
  | .publish message _ => agenda.message message
  | .publishBatch messages _ => ∀ message ∈ messages, agenda.message message
  | .subscribe topic qos _ _ => agenda.subscription topic qos
  | .unsubscribe topic _ => agenda.unsubscription topic
  | _ => True

/-- The acknowledgement of a frame is on the agenda. -/
def Agenda.Owes (agenda : Agenda) (packet : MqttPacket) : Prop :=
  ∀ p, packet = .publish p → p.qos = .atLeastOnce →
    ∀ packetId, p.packetId = some packetId → agenda.received packetId

/-- What the loop remembers is on the agenda. What it has in flight is above QoS 0. -/
structure Minded (agenda : Agenda) (inflight : Assoc UInt16 (PublishMessage × Option R))
    (subscriptions : Assoc String QoS) (queue : List PublishMessage) : Prop where
  inflight : ∀ e ∈ inflight, e.2.1.qos ≠ .atMostOnce ∧
    ∃ message, agenda.message message ∧ e.2.1 = { message with packetId := e.2.1.packetId }
  subscriptions : ∀ e ∈ subscriptions, agenda.subscription e.1 e.2
  queue : ∀ message ∈ queue, agenda.message message

/-- The client has sent its CONNECT, and then what is on the agenda. -/
structure Talking (agenda : Agenda) (options : ClientOptions) (s : Conn E R S W maxPacketSize) :
    Prop where
  sameOptions : s.options = options
  minded : Minded agenda s.inflightPublishes s.activeSubscriptions s.offlineQueue
  heard : ∃ body, s.socket.Hears options.version (opening options :: body) ∧
    ∀ p ∈ body, agenda.Covers p

namespace Talking
variable {agenda : Agenda} {options : ClientOptions} {s s' : Conn E R S W maxPacketSize}

theorem reliable (h : Talking agenda options s) : s.socket.Reliable := by
  obtain ⟨body, hhears, -⟩ := h.heard
  exact hhears.1

theorem utters (h : Talking agenda options s) (hutters : Utters agenda.Covers s s') :
    Talking agenda options s' := by
  obtain ⟨ps, hspoken, hps⟩ := hutters
  obtain ⟨body, hhears, hbody⟩ := h.heard
  have hoptions : s'.options = options := hspoken.options.trans h.sameOptions
  refine ⟨hoptions, ?_, body ++ ps, ?_, List.forall_mem_append.mpr ⟨hbody, hps⟩⟩
  · rw [(congrArg EventLoop.inflightPublishes hspoken.loop).trans rfl,
      (congrArg EventLoop.activeSubscriptions hspoken.loop).trans rfl,
      (congrArg EventLoop.offlineQueue hspoken.loop).trans rfl]
    exact h.minded
  · rw [← h.sameOptions] at hhears
    have hnext := hspoken.hears hhears
    rwa [hoptions, h.sameOptions] at hnext

/-- Nothing is said. -/
theorem quiet (h : Talking agenda options s) (hspoken : Says s s' []) : Talking agenda options s' :=
  h.utters ⟨[], hspoken, by simp⟩

theorem tracked (h : Talking agenda options s) {message : PublishMessage}
    (hmessage : agenda.message message) (ackSender : Option R) :
    Talking agenda options (tracked s message ackSender) := by
  rw [EventLoop.tracked]
  split
  · rename_i hqos
    refine ⟨h.sameOptions, { h.minded with inflight := fun e he => ?_ }, h.heard⟩
    rcases Assoc.mem_set.mp he with rfl | ⟨he, -⟩
    · exact ⟨hqos, message, hmessage, rfl⟩
    · exact h.minded.inflight e he
  · exact h

theorem published (h : Talking agenda options s) {message : PublishMessage}
    (hmessage : agenda.message message) (ackSender : Option R) :
    Talking agenda options (published s message ackSender) := by
  rw [Tokio.published]
  split
  · exact h.tracked hmessage ackSender
  · exact ⟨h.sameOptions, h.minded, h.heard⟩

theorem completedPublish (h : Talking agenda options s) (packetId : UInt16) :
    Talking agenda options (completedPublish s packetId) :=
  ⟨h.sameOptions,
    { h.minded with inflight := fun e he => h.minded.inflight e (Assoc.mem_erase.mp he).1 },
    h.heard⟩

end Talking

namespace EventLoop
variable {agenda : Agenda} {options : ClientOptions} {s : Conn E R S W maxPacketSize}

/-- A message on the agenda may be published, and once more. -/
theorem covers_publishPacket {message : PublishMessage} (h : agenda.message message)
    (packetId : Option UInt16) {dup : Bool} (hdup : dup = message.dup ∨ dup = true) :
    agenda.Covers (publishPacket message packetId dup) :=
  ⟨message, dup, h, hdup, rfl⟩

theorem simple_publishPacket (message : PublishMessage) {packetId : Option UInt16} (dup : Bool)
    (h : packetId.isSome ↔ message.qos ≠ .atMostOnce) :
    (publishPacket message packetId dup).Simple :=
  simple_publish rfl h

theorem isSome_takenId (s : Conn E R S W maxPacketSize) (message : PublishMessage) :
    (takenId s message).isSome ↔ message.qos ≠ .atMostOnce := by
  rw [takenId]
  split <;> simp_all

theorem covers_subscribePacket {topic : String} {qos : QoS} (h : agenda.subscription topic qos)
    (packetId : UInt16) :
    agenda.Covers (subscribePacket packetId topic qos) ∧
      (subscribePacket packetId topic qos).Simple := by
  obtain ⟨p, hp, hempty, -⟩ := subscribePacket_eq packetId topic qos
  rw [hp]
  exact ⟨⟨packetId, topic, qos, h, hp.symm⟩, (talk_subscribe hempty).2⟩

theorem covers_unsubscribePacket {topic : String} (h : agenda.unsubscription topic)
    (packetId : UInt16) :
    agenda.Covers (unsubscribePacket packetId topic) ∧
      (unsubscribePacket packetId topic).Simple := by
  obtain ⟨p, hp, hempty⟩ := unsubscribePacket_eq packetId topic
  rw [hp]
  exact ⟨⟨packetId, topic, h, hp.symm⟩, (talk_unsubscribe hempty).2⟩

/-- Programs that say what is on the agenda. -/
theorem talking_of_utters {α : Type} {x : ConnM E R S W maxPacketSize α}
    (h : ∀ s : Conn E R S W maxPacketSize, s.socket.Reliable →
      Ends x s (fun _ => Utters agenda.Covers s) fun _ => Utters agenda.Covers s) :
    Preserves (Talking agenda options) x :=
  preserves_of_utters (fun _ _ hs h => hs.utters h) fun s hs => h s hs.reliable

/-- Programs that say nothing. -/
theorem talking_of_silent {α : Type} {x : ConnM E R S W maxPacketSize α}
    (h : ∀ s : Conn E R S W maxPacketSize, Preserves (Says s · []) x) :
    Preserves (Talking agenda options) x :=
  talking_of_utters fun s hreliable => utters_of_silent hreliable (h s)

section
variable (hsize : maxPacketSize ≤ 128 ^ 4)
include hsize

theorem talking_sendPacket {p : MqttPacket} (h : agenda.Covers p ∧ p.Simple) (now : ℕ) :
    Preserves (Talking agenda options) (sendPacket p now : ConnM E R S W maxPacketSize Unit) :=
  talking_of_utters fun _ hreliable => utters_sendPacket hsize hreliable h.1 h.2 now

theorem talking_tryWritePacket {p : MqttPacket} (h : agenda.Covers p ∧ p.Simple) :
    Preserves (Talking agenda options) (tryWritePacket p : ConnM E R S W maxPacketSize Unit) :=
  talking_of_utters fun _ hreliable => utters_tryWritePacket hsize hreliable h.1 h.2

theorem talking_sendPublishDirect {message : PublishMessage} (hmessage : agenda.message message)
    (ackSender : Option R) (now : ℕ) :
    Preserves (Talking agenda options)
      (sendPublishDirect message ackSender now : ConnM E R S W maxPacketSize Unit) := by
  intro s hs
  rw [Ends, sendPublishDirect_eq]
  have hsimple := simple_publishPacket message message.dup (isSome_takenId s message)
  have hcovers := covers_publishPacket hmessage (takenId s message) (.inl rfl)
  exact talking_sendPacket hsize ⟨hcovers, hsimple⟩ now _ (hs.published hmessage ackSender)

/-! ### A batch -/

/-- The loop of `send_publish_batch_direct`: packets on the agenda stand in the transmit buffer. -/
structure Packing (agenda : Agenda) (options : ClientOptions) (s : Conn E R S W maxPacketSize)
    (cursor : ℕ) (pending : List MqttPacket) : Prop where
  talking : Talking agenda options s
  cursor_le : cursor ≤ maxPacketSize
  held : s.txBuf.bytes.take cursor = pending.flatMap (MqttPacket.wire options.version)
  pending : ∀ p ∈ pending, agenda.Covers p ∧ p.Legible options.version

omit hsize in
/-- The buffer is written. -/
theorem Packing.flush {cursor : ℕ} {pending : List MqttPacket}
    (h : Packing agenda options s cursor pending) :
    ∃ s', writeTx cursor s = .ok () s' ∧ Talking agenda options s' := by
  have hoptions := h.talking.sameOptions
  obtain ⟨s', hwrite, hspoken⟩ := says_writeTx (.refl h.talking.reliable) h.cursor_le
    (by rw [hoptions]; exact h.held) fun p hp => by rw [hoptions]; exact (h.pending p hp).2
  exact ⟨s', hwrite, h.talking.utters ⟨_, hspoken, fun p hp => (h.pending p hp).1⟩⟩

/-- A packet that is encoded behind what is packed. -/
theorem packing_encodeTx {cursor : ℕ} {pending : List MqttPacket} {p : MqttPacket}
    (h : Packing agenda options s cursor pending) (hcovers : agenda.Covers p)
    (hsimple : p.Simple) :
    ∃ s' r, encodeTx cursor p s = .ok r s' ∧ Packing agenda options s' cursor pending ∧
      ∀ n, r = .ok n → Packing agenda options s' (cursor + n) (pending ++ [p]) := by
  obtain ⟨s', r, hencode, hspoken, htake, hspec⟩ :=
    says_encodeTx hsize (.refl h.talking.reliable) h.cursor_le hsimple
  rw [h.talking.sameOptions] at hspec
  have htalking := h.talking.quiet hspoken
  refine ⟨s', r, hencode, ⟨htalking, h.cursor_le, htake.trans h.held, h.pending⟩, fun n hn => ?_⟩
  obtain ⟨hle, hfront, hlegible⟩ := hspec n hn
  have hone : ∀ q ∈ [p], agenda.Covers q ∧ q.Legible options.version := by
    simpa using ⟨hcovers, hlegible⟩
  refine ⟨htalking, hle, ?_, List.forall_mem_append.mpr ⟨h.pending, hone⟩⟩
  rw [hfront, h.held, List.flatMap_append, List.flatMap_singleton]

/-- A round of a batch goes on packing, or it fails. -/
theorem packing_round {cursor : ℕ} {pending : List MqttPacket}
    (h : Packing agenda options s cursor pending) {message : PublishMessage}
    (hmessage : agenda.message message) (count : ℕ) :
    Ends (sendPublishBatchRound message cursor count) s
      (fun next s' => ∃ pending', Packing agenda options s' next.1 pending')
      fun _ s' => Talking agenda options s' := by
  have hcovers := covers_publishPacket hmessage (takenId s message) (.inl rfl)
  have hsimple := simple_publishPacket message message.dup (isSome_takenId s message)
  have htracked : Packing agenda options (tracked s message none) cursor pending :=
    ⟨h.talking.tracked hmessage none, h.cursor_le, by rw [txBuf_tracked]; exact h.held, h.pending⟩
  obtain ⟨s₁, r, hencode, h₁, hok⟩ := packing_encodeTx hsize htracked hcovers hsimple
  rw [Ends, sendPublishBatchRound, run_bind (trackPublish_eq message none), run_bind hencode]
  rcases r with (e | _ | _) | len
  · apply Ends.ite
    · intro _
      -- What is packed is written, and the packet is encoded at the front of the buffer.
      obtain ⟨s₂, hwrite, h₂⟩ := h₁.flush
      have hempty : Packing agenda options s₂ 0 [] := ⟨h₂, Nat.zero_le _, by simp, by simp⟩
      obtain ⟨s₃, r, hagain, h₃, hok⟩ := packing_encodeTx hsize hempty hcovers hsimple
      rw [Ends, run_bind hwrite, run_bind hagain]
      rcases r with e | len
      · obtain ⟨e', herror⟩ := lift_error_bind (.protocol .malformedPacket) e
          (fun len => pure (len, count + 1)) s₃
        rw [orMalformed, herror]
        exact h₃.talking
      · have hnext := hok len rfl
        rw [Nat.zero_add] at hnext
        exact ⟨_, hnext⟩
    · intro _
      exact ⟨pending, h₁⟩
  · exact h₁.talking
  · exact h₁.talking
  · exact ⟨_, hok len rfl⟩

theorem packing_loop {cursor : ℕ} {pending : List MqttPacket} {messages : List PublishMessage}
    (hmessages : ∀ message ∈ messages, agenda.message message)
    (h : Packing agenda options s cursor pending) (count : ℕ) :
    Ends (sendPublishBatchLoop messages cursor count) s
      (fun next s' => ∃ pending', Packing agenda options s' next.1 pending')
      fun _ s' => Talking agenda options s' := by
  induction messages generalizing s cursor pending count with
  | nil => exact ⟨pending, h⟩
  | cons message messages ih =>
    apply Ends.bind
    rw [List.forall_mem_cons] at hmessages
    refine (packing_round hsize h hmessages.1 count).mono ?_ fun _ _ h => h
    rintro ⟨cursor', count'⟩ s' ⟨pending', h'⟩
    exact ih hmessages.2 h' count'

/-- A batch says PUBLISH packets only, also when it fails. -/
theorem talking_sendPublishBatchDirect {messages : List PublishMessage}
    (hmessages : ∀ message ∈ messages, agenda.message message) (now : ℕ) :
    Preserves (Talking agenda options)
      (sendPublishBatchDirect messages now : ConnM E R S W maxPacketSize ℕ) := by
  intro s hs
  have hempty : Packing agenda options s 0 [] := ⟨hs, Nat.zero_le _, by simp, by simp⟩
  apply Ends.bind
  refine (packing_loop hsize hmessages hempty 0).mono ?_ fun _ _ h => h
  rintro ⟨cursor, count⟩ s₁ ⟨pending, h₁⟩
  apply Ends.ite
  · intro _
    have hrest : Preserves (Talking agenda options) (do
        flush
        setLastTx now
        pure count : ConnM E R S W maxPacketSize ℕ) :=
      talking_of_silent fun _ => Preserves.bind says_flush fun _ =>
        Preserves.bind (says_setLastTx now) fun _ => Preserves.pure _
    obtain ⟨s₂, hwrite, h₂⟩ := h₁.flush
    rw [Ends, run_bind hwrite]
    exact hrest s₂ h₂
  · intro _
    exact h₁.talking

/-! ### Requests, a recovery, and frames -/

/-- A request, but for one to disconnect. -/
theorem talking_handleClientRequest {request : ClientRequest R S} (htakes : agenda.Takes request)
    (h : ∀ sender, request ≠ .disconnect sender) (now : ℕ) :
    Preserves (Talking agenda options)
      (handleClientRequest request now : ConnM E R S W maxPacketSize Unit) := by
  cases request with
  | publish message ackSender => exact talking_sendPublishDirect hsize htakes ackSender now
  | publishBatch messages ackSender =>
    apply Preserves.bind (talking_sendPublishBatchDirect hsize htakes now)
    intro count
    exact preserves_sendSome fun _ hs => ⟨hs.sameOptions, hs.minded, hs.heard⟩
  | publishDatagram topic payload ackSender =>
    apply Preserves.bind (talking_of_silent fun _ => silent_encodeTx _)
    intro r
    apply Preserves.bind (preserves_lift _ _ _)
    intro len
    apply Preserves.bind (talking_of_silent fun _ => silent_sendDatagram len)
    intro result
    exact preserves_sendSome fun _ hs => ⟨hs.sameOptions, hs.minded, hs.heard⟩
  | subscribe topic qos respSender streamSender =>
    intro s hs
    have hsubscriptions : ∀ e ∈ s.activeSubscriptions.set topic qos,
        agenda.subscription e.1 e.2 := by
      intro e he
      rcases Assoc.mem_set.mp he with rfl | ⟨he, -⟩
      · exact htakes
      · exact hs.minded.subscriptions e he
    exact ends_subscribe (I := Talking agenda options)
      ⟨hs.sameOptions, { hs.minded with subscriptions := hsubscriptions }, hs.heard⟩
      (talking_sendPacket hsize (covers_subscribePacket htakes _) now)
      (fun _ _ hs => ⟨hs.sameOptions, hs.minded, hs.heard⟩) respSender
  | unsubscribe topic respSender =>
    intro s hs
    have hsubscriptions : ∀ e ∈ s.activeSubscriptions.erase topic,
        agenda.subscription e.1 e.2 :=
      fun e he => hs.minded.subscriptions e (Assoc.mem_erase.mp he).1
    exact ends_unsubscribe (I := Talking agenda options)
      ⟨hs.sameOptions, { hs.minded with subscriptions := hsubscriptions }, hs.heard⟩
      (talking_sendPacket hsize (covers_unsubscribePacket htakes _) now)
      (fun _ _ hs => ⟨hs.sameOptions, hs.minded, hs.heard⟩) respSender
  | disconnect respSender => exact absurd rfl (h respSender)

/-- A request to disconnect ends the connection, after its DISCONNECT at most. -/
theorem says_disconnect (hreliable : s.socket.Reliable) (respSender : R) (now : ℕ) :
    Ends (handleClientRequest (.disconnect respSender) now) s (fun _ _ => False)
      fun e s' => ∀ e', e = .err e' → e' = .clientClosed ∧ ∃ t qs,
        Says s t qs ∧ qs <+: [.disconnect .new] ∧
        s' = { t with statuses := s'.statuses, answers := s'.answers } := by
  apply Ends.bind
  refine (says_sendDisconnect hsize hreliable).mono ?_ ?_
  · rintro _ s' ⟨t, qs, hspoken, hinit, rfl⟩ e' ⟨⟩
    exact ⟨rfl, t, qs, hspoken, hinit, rfl⟩
  · rintro e s' hsilent e' rfl
    exact absurd rfl (hsilent e')

theorem talking_performSessionDataRecovery (order : HashOrder) (now : ℕ) :
    Preserves (Talking agenda options)
      (performSessionDataRecovery order now : ConnM E R S W maxPacketSize Unit) := by
  apply preserves_performSessionDataRecovery
  · intro s hs _ e he
    obtain ⟨hqos, message, hmessage, hsent⟩ := hs.minded.inflight e he
    have hcovers : agenda.Covers (publishPacket e.2.1 (some e.1) true) := by
      rw [hsent]
      exact covers_publishPacket hmessage (some e.1) (.inr rfl)
    exact talking_tryWritePacket hsize
      ⟨hcovers, simple_publishPacket e.2.1 true (by simp [hqos])⟩
  · exact talking_of_silent fun _ => says_flush
  · intro s hs e he
    have hnext : Preserves (Talking agenda options)
        (getNextPacketId : ConnM E R S W maxPacketSize UInt16) :=
      fun _ hs => ⟨hs.sameOptions, hs.minded, hs.heard⟩
    apply Preserves.bind hnext
    intro pid
    exact talking_tryWritePacket hsize
      (covers_subscribePacket (hs.minded.subscriptions e he) pid)
  · intro s hs
    have hqueue := hs.minded.queue
    apply preserves_flushOfflineQueue
    · exact fun _ queue hsub hs => ⟨hs.sameOptions,
        { hs.minded with queue := fun message hmessage => hqueue message (hsub hmessage) },
        hs.heard⟩
    · exact fun message hmessage =>
        talking_sendPublishDirect hsize (hqueue message hmessage) none now

omit hsize in
theorem ofPacket_eq_publish {packet : MqttPacket} {message : PublishMessage}
    (h : IncomingAction.ofPacket packet = some (.publish message)) :
    ∃ p, packet = .publish p ∧ message.qos = p.qos ∧ message.packetId = p.packetId := by
  cases packet with
  | publish p =>
    cases h
    exact ⟨p, rfl, rfl, rfl⟩
  | _ => simp [IncomingAction.ofPacket] at h

theorem talking_handle [DecidableEq S] (ch : Mpsc W S PublishMessage) (now : ℕ)
    {received : Received} (howes : agenda.Owes received.packet) :
    Preserves (Talking agenda options)
      (handle ch now received : ConnM E R S W maxPacketSize Unit) := by
  unfold handle
  split
  · rename_i action haction
    cases action with
    | publish message =>
      have hreceived : message.qos = .atLeastOnce → ∀ pid, message.packetId = some pid →
          agenda.Covers (.pubAck (Ack.new pid)) := by
        obtain ⟨p, hp, hqos, hid⟩ := ofPacket_eq_publish haction
        rw [hqos, hid]
        exact fun hqos pid hpid => ⟨howes p hp hqos pid hpid, rfl⟩
      apply Preserves.bind (talking_of_utters fun _ hreliable =>
        says_acknowledgePublish hsize (.refl hreliable) hreceived now)
      intro _
      exact Preserves.modify fun _ hs => ⟨hs.sameOptions, hs.minded, hs.heard⟩
    | pubAck packetId =>
      intro s hs
      rw [Ends, performAction_pubAck]
      exact hs.completedPublish packetId
    | subAck packetId =>
      intro s hs
      rw [Ends, performAction_subAck]
      exact ⟨hs.sameOptions, hs.minded, hs.heard⟩
    | unsubAck packetId =>
      intro s hs
      rw [Ends, performAction_unsubAck]
      exact ⟨hs.sameOptions, hs.minded, hs.heard⟩
    | pingResp => exact Preserves.pure _
    | disconnect => exact Preserves.throw _
  · exact Preserves.pure _

theorem talking_driveTick (now : ℕ) :
    Preserves (Talking agenda options) (driveTick now : ConnM E R S W maxPacketSize Unit) := by
  apply Preserves.get_bind
  intro s _
  apply Preserves.ite
  · intro _
    exact talking_sendPacket hsize ⟨show agenda.Covers .pingReq from trivial, talk_pingReq.2⟩ now
  · intro _
    exact Preserves.pure _

end

end EventLoop

end

end Tokio

end MqttEngine
