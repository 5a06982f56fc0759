import MqttEngine.Tokio.Batches
import MqttEngine.Tokio.Operations

/-!
# Requests that cannot be served

A request that cannot be encoded should be refused to the one who made it and harm nobody else.
`handleClientRequest` changes its tables before it encodes, and returns the error of the encoder
to the connection loop, which gives the connection up. A batch passes over a packet that is too
large if nothing stands in front of it, and tells nobody. `harmless_iff` says that a request
leaves the connection alone exactly if all of its packets fit and none of them makes the encoder
panic.

## Main definitions

* `ClientRequest.packets` — what is to be sent.
* `Placed` — packets that find their places in the buffer.
* `Harmless` — the request keeps the connection, and if it cannot be encoded it is refused.

## Main results

* `harmless_iff` — when a request is harmless.
-/

namespace MqttEngine.Tokio
open Checked Conn EventLoop

section
variable {E R S W : Type} {maxPacketSize : ℕ}

/-! ## Requests -/

/-- The packets of a request, if `next` is the next packet id. -/
def ClientRequest.packets (next : UInt16) : ClientRequest R S → List MqttPacket
  | .publish message _ => publishPackets next [message]
  | .publishBatch messages _ => publishPackets next messages
  | .publishDatagram topic payload _ => [.publish (Publish.new topic payload .atMostOnce)]
  | .subscribe topic qos _ _ => [subscribePacket next topic qos]
  | .unsubscribe topic _ => [unsubscribePacket next topic]
  | .disconnect _ => [.disconnect .new]

/-- The answer is an error. -/
def Answer.IsError : Answer E → Prop
  | .done result => ∃ e, result = .error e
  | .count result => ∃ e, result = .error e
  | .packetId result => ∃ e, result = .error e

/-- Nothing is in flight, subscribed or registered that was not before, and nothing is lost. -/
structure SameTables (s s' : Conn E R S W maxPacketSize) : Prop where
  inflightPublishes : s'.inflightPublishes = s.inflightPublishes
  inflightSubscribes : s'.inflightSubscribes = s.inflightSubscribes
  inflightUnsubscribes : s'.inflightUnsubscribes = s.inflightUnsubscribes
  activeSubscriptions : s'.activeSubscriptions = s.activeSubscriptions
  router : s'.router = s.router

/-- The request is refused: whoever made it is sent an error. -/
def Refused (s s' : Conn E R S W maxPacketSize) (request : ClientRequest R S) : Prop :=
  ∃ sender answer, request.requester = some sender ∧ answer.IsError ∧
    (sender, answer) ∈ s'.answers.drop s.answers.length

/-- The connection is kept, and a request with a packet that cannot be encoded is refused and
changes nothing. -/
def Harmless (s : Conn E R S W maxPacketSize) (request : ClientRequest R S) (now : ℕ) : Prop :=
  ∃ s', handleClientRequest request now s = .ok () s' ∧
    ((∃ p ∈ request.packets s.nextPacketId, ¬ p.Fits s.options.version maxPacketSize) →
      Refused s s' request ∧ SameTables s s')

variable {s : Conn E R S W maxPacketSize}

/-! ## Packets that find their places -/

/-- Each of the packets fits into the buffer, and none of them stops the encoder: behind what is in
the buffer already there is room for its header, too. -/
def Placed (version : MqttVersion) (size : ℕ) (ps : List MqttPacket) : Prop :=
  (∀ p ∈ ps, p.Fits version size) ∧ ¬ Stops version size 0 ps

instance (version : MqttVersion) (size : ℕ) (ps : List MqttPacket) :
    Decidable (Placed version size ps) :=
  inferInstanceAs (Decidable (_ ∧ _))

/-- A packet by itself. -/
theorem placed_singleton {version : MqttVersion} {size : ℕ} {p : MqttPacket} :
    Placed version size [p] ↔ p.Fits version size ∧ (p.encoded version).length ≤ size := by
  rw [Placed, List.forall_mem_singleton, and_congr_right_iff]
  intro hfits
  by_cases hmove : (p.encoded version).length ≤ size
  · simp [Stops, placing, hfits, hmove]
  · simp [Stops, placing, hfits, hmove]

/-- A packet that finds its place is sent, whatever its length is. -/
theorem sendPacket_encoded {p : MqttPacket} (hp : Placed s.options.version maxPacketSize [p])
    (hsteady : s.socket.Steady) (now : ℕ) : ∃ s', sendPacket p now s = .ok () s' := by
  obtain ⟨hfits, hmove⟩ := placed_singleton.mp hp
  obtain ⟨tx, hencode, -⟩ := encodeTx_encoded (Nat.zero_le _) hfits hmove
  let t := (s.withTx tx).withSocket
    (s.socket.wrote (tx.bytes.take (p.encoded s.options.version).length))
  have hwrite : writeTx (p.encoded s.options.version).length (s.withTx tx) = .ok () t := by
    rw [writeTx_of_le hmove]
    exact writeAll_of_ok (s := s.withTx tx) hsteady.writeOk _
  have hflush : flush t = .ok () (t.withSocket t.socket.flushed) :=
    flush_of_ok (hsteady.wrote _).flushOk
  rw [sendPacket, run_bind hencode]
  change ∃ s', (writeTx _ >>= _) (s.withTx tx) = .ok () s'
  rw [run_bind hwrite, run_bind hflush]
  exact ⟨_, rfl⟩

/-- One that does not is not sent. -/
theorem sendPacket_of_not_placed {p : MqttPacket} (hbare : ¬ p.Bare) (hdisc : ∀ d, p ≠ .disconnect d)
    (hp : ¬ Placed s.options.version maxPacketSize [p]) (now : ℕ) :
    ∃ e s', sendPacket p now s = .error e s' := by
  by_cases hfits : p.Fits s.options.version maxPacketSize
  · have hlong : maxPacketSize - 0 < (p.encoded s.options.version).length :=
      Nat.lt_of_not_le fun hmove => hp (placed_singleton.mpr ⟨hfits, hmove⟩)
    obtain ⟨tx, hencode⟩ := encodeTx_panics hbare (Nat.zero_le _) hfits hlong
    exact ⟨_, s.withTx tx, run_bind hencode⟩
  · obtain ⟨tx, hsend⟩ := sendPacket_unfit hdisc hfits now
    exact ⟨_, _, hsend⟩

/-- Sending a datagram returns a result, and only uses the transport. -/
theorem ends_sendDatagram {len : ℕ} (h : len ≤ maxPacketSize) :
    Ends (sendDatagram len) s (fun _ t => ∃ socket, t = s.withSocket socket) fun _ _ => False := by
  have hrange : (range s.txBuf.bytes 0 len : Checked PacketError (List UInt8)) =
      .ok (s.txBuf.bytes.take len) := by
    rw [range_of_le (Nat.zero_le _) (by rw [s.txBuf.length_eq]; exact h), List.drop_zero]
  apply Ends.bind
  apply Ends.get
  apply Ends.bind
  rw [hrange]
  refine Ends.pure ?_
  apply Ends.bind
  apply Ends.get
  dsimp only
  split
  · exact ⟨s.socket, rfl⟩
  · exact ⟨_, rfl⟩
  · exact ⟨_, rfl⟩

/-- A request whose packets find their places is sent. -/
theorem handleClientRequest_placed {request : ClientRequest R S} (hsteady : s.socket.Steady)
    (hrequest : ∀ sender, request ≠ .disconnect sender)
    (hp : Placed s.options.version maxPacketSize (request.packets s.nextPacketId)) (now : ℕ) :
    ∃ s', handleClientRequest request now s = .ok () s' := by
  cases request with
  | publish message ackSender =>
    rw [ClientRequest.packets, publishPackets_cons s message [] ackSender,
      ← options_published message ackSender] at hp
    rw [← socket_published message ackSender] at hsteady
    rw [handleClientRequest, sendPublishDirect_eq]
    exact sendPacket_encoded hp hsteady now
  | publishBatch messages ackSender =>
    obtain ⟨u, hbatch, -⟩ := sendPublishBatchDirect_spec hsteady hp.2 now
    rw [handleClientRequest, run_bind hbatch]
    cases ackSender <;> exact ⟨_, rfl⟩
  | publishDatagram topic payload ackSender =>
    obtain ⟨hfits, hmove⟩ := placed_singleton.mp hp
    obtain ⟨tx, hencode, -⟩ := encodeTx_encoded (Nat.zero_le _) hfits hmove
    have hdatagram := ends_sendDatagram (s := s.withTx tx) hmove
    rw [handleClientRequest, run_bind hencode]
    change ∃ s', (sendDatagram _ >>= _) (s.withTx tx) = .ok () s'
    rcases hend : sendDatagram _ (s.withTx tx) with ⟨result, u⟩ | ⟨e, u⟩
    · rw [run_bind hend]
      cases ackSender <;> exact ⟨_, rfl⟩
    · exact (hdatagram.error_of hend).elim
  | subscribe topic qos respSender streamSender =>
    obtain ⟨s', hsend⟩ :=
      sendPacket_encoded (s := subscribed s topic qos streamSender) hp hsteady now
    rw [handle_subscribe, run_bind hsend]
    exact ⟨_, rfl⟩
  | unsubscribe topic respSender =>
    obtain ⟨s', hsend⟩ := sendPacket_encoded (s := unsubscribed s topic) hp hsteady now
    rw [handle_unsubscribe, run_bind hsend]
    exact ⟨_, rfl⟩
  | disconnect respSender => exact absurd rfl (hrequest respSender)

/-! ## Requests with a packet that does not -/

/-- A batch sends no error to anybody. -/
theorem answers_publishBatch {messages : List PublishMessage} {ackSender : Option R} {now : ℕ}
    {s' : Conn E R S W maxPacketSize}
    (h : handleClientRequest (.publishBatch messages ackSender) now s = .ok () s') :
    ∃ count, s'.answers =
      s.answers ++ ackSender.toList.map fun sender => (sender, .count (.ok count)) := by
  have hbatch : Preserves (fun t : Conn E R S W maxPacketSize => t.answers = s.answers)
      (sendPublishBatchDirect messages now) := by
    apply preserves_sendPublishBatchDirect (C := fun _ _ => True) fun _ => trivial
    · intro t t' ht htransmits
      rw [← ht, htransmits.loop]
    · exact fun _ _ _ _ _ _ _ _ _ _ => trivial
    · intro message _ t ht
      rw [answers_tracked, ht]
  rw [handleClientRequest] at h
  rcases hend : sendPublishBatchDirect messages now s with ⟨count, t⟩ | ⟨e, t⟩
  · rw [run_bind hend] at h
    rw [← (hbatch s rfl).ok_of hend]
    refine ⟨count, ?_⟩
    cases ackSender <;> cases h
    · simp
    · rfl
  · rw [run_bind_error hend] at h
    cases h

/-- A packet that finds no place ends the connection, but for one in a batch. -/
theorem handleClientRequest_of_not_placed {request : ClientRequest R S}
    (hp : ¬ Placed s.options.version maxPacketSize (request.packets s.nextPacketId))
    (hrequest : ∀ sender, request ≠ .disconnect sender)
    (hbatch : ∀ messages ackSender, request ≠ .publishBatch messages ackSender) (now : ℕ) :
    ∃ e s', handleClientRequest request now s = .error e s' := by
  cases request with
  | publish message ackSender =>
    rw [ClientRequest.packets, publishPackets_cons s message [] ackSender,
      ← options_published message ackSender] at hp
    rw [handleClientRequest, sendPublishDirect_eq]
    exact sendPacket_of_not_placed (by simp [publishPacket, MqttPacket.Bare])
      (by simp [publishPacket]) hp now
  | publishBatch messages ackSender => exact absurd rfl (hbatch messages ackSender)
  | publishDatagram topic payload ackSender =>
    rw [handleClientRequest]
    by_cases hfits : (MqttPacket.publish (Publish.new topic payload .atMostOnce)).Fits
      s.options.version maxPacketSize
    · obtain ⟨tx, hencode⟩ := encodeTx_panics (by simp [MqttPacket.Bare]) (Nat.zero_le _) hfits
        (Nat.lt_of_not_le fun hmove => hp (placed_singleton.mpr ⟨hfits, hmove⟩))
      rw [run_bind hencode]
      exact ⟨_, _, rfl⟩
    · obtain ⟨tx, e, hencode, -⟩ := encodeTx_unfit (Nat.zero_le _) (by simp) hfits
      rw [run_bind hencode]
      exact ⟨_, _, rfl⟩
  | subscribe topic qos respSender streamSender =>
    obtain ⟨e, s', hsend⟩ := sendPacket_of_not_placed (s := subscribed s topic qos streamSender)
      (by simp [subscribePacket, MqttPacket.Bare]) (by simp [subscribePacket]) hp now
    rw [handle_subscribe]
    exact ⟨_, _, run_bind_error hsend⟩
  | unsubscribe topic respSender =>
    obtain ⟨e, s', hsend⟩ := sendPacket_of_not_placed (s := unsubscribed s topic)
      (by simp [unsubscribePacket, MqttPacket.Bare]) (by simp [unsubscribePacket]) hp now
    rw [handle_unsubscribe]
    exact ⟨_, _, run_bind_error hsend⟩
  | disconnect respSender => exact absurd rfl (hrequest respSender)

/-- **When a request is harmless**, over a transport that does not fail: if each of its packets fits
into the buffer, and the encoder panics on none of them. -/
theorem harmless_iff {request : ClientRequest R S} (hsteady : s.socket.Steady)
    (hrequest : ∀ sender, request ≠ .disconnect sender) (now : ℕ) :
    Harmless s request now ↔
      Placed s.options.version maxPacketSize (request.packets s.nextPacketId) := by
  constructor
  · rintro ⟨s', hrun, hrefused⟩
    by_cases hbatch : ∀ messages ackSender, request ≠ .publishBatch messages ackSender
    · by_contra hplaced
      obtain ⟨e, t, hend⟩ := handleClientRequest_of_not_placed hplaced hrequest hbatch now
      rw [hend] at hrun
      cases hrun
    simp only [not_forall, not_not] at hbatch
    obtain ⟨messages, ackSender, rfl⟩ := hbatch
    constructor
    · -- A batch passes over a packet that does not fit, and tells nobody.
      intro p hp
      by_contra hunfit
      obtain ⟨⟨sender, answer, -, herror, hmem⟩, -⟩ := hrefused ⟨p, hp, hunfit⟩
      obtain ⟨count, hanswers⟩ := answers_publishBatch hrun
      rw [hanswers, List.drop_left] at hmem
      obtain ⟨sender', -, heq⟩ := List.mem_map.mp hmem
      cases heq
      obtain ⟨e, he⟩ := herror
      cases he
    · intro hstops
      rw [handleClientRequest] at hrun
      obtain ⟨count, t, hbatch, -⟩ := ok_of_bind hrun
      exact sendPublishBatchDirect_stops hsteady hstops now count t hbatch
  · intro hplaced
    obtain ⟨s', hrun⟩ := handleClientRequest_placed hsteady hrequest hplaced now
    refine ⟨s', hrun, ?_⟩
    rintro ⟨p, hp, hunfit⟩
    exact absurd (hplaced.1 p hp) hunfit

end

/-- A request to subscribe to a topic filter of 64 bytes. -/
def subscribeLong : ClientRequest ℕ ℕ :=
  .subscribe (String.ofList (List.replicate 64 'a')) .atMostOnce 0 none

/-- A publish that fits is harmless, and a subscription that does not fit is not. -/
theorem harmless_iff_sample :
    Harmless freshConn (.publish { PublishMessage.new "a" [1] with qos := .atLeastOnce } (some 0)) 0 ∧
      ¬ Harmless freshConn subscribeLong 0 := by
  refine ⟨(harmless_iff (Socket.steady_sending []) (by simp) 0).mpr (by decide +kernel), fun h => ?_⟩
  have hplaced := (harmless_iff (Socket.steady_sending []) (by simp [subscribeLong]) 0).mp h
  exact absurd hplaced (by decide +kernel)

/-- The topic filter that does not fit ends the connection. -/
theorem subscribe_harms :
    ¬ ∀ request : ClientRequest ℕ ℕ, (∀ sender, request ≠ .disconnect sender) →
      Harmless freshConn request 0 := by
  intro hall
  obtain ⟨s', hrun, -⟩ := hall subscribeLong (by simp [subscribeLong])
  have hend : (match handleClientRequest subscribeLong 0 freshConn with
      | .ok _ _ => true
      | .error _ _ => false) = false := by
    decide +kernel
  rw [hrun] at hend
  cases hend

end MqttEngine.Tokio
