import MqttEngine.Packet.BufferRoom
import MqttEngine.Embedded.Publishing
import MqttEngine.Embedded.System

/-!
# A batch and its messages one by one

`publish_batch` collects its packets in the transmit buffer and sends the buffer when the next
packet does not fit behind them; `publish` sends each packet alone. `Ahead` relates the two: the
client that publishes one by one has already sent what the batch still holds in front of its
cursor. A round of the batch and a single publish keep the relation, for buffers of any size, so
that a batch that succeeds has sent what its messages would have sent one by one.

## Main definitions

* `publishEach` — publishing the messages of a list one by one.
* `Ahead` — the relation between the two clients.

## Main results

* `round_publish` — a round of the batch against a single publish.
* `publishBatch_publishEach` — a batch against its messages one by one.
-/

namespace MqttEngine
open Checked

namespace MqttClient
variable {E : Type} {bufSize maxInflight : ℕ}

/-! ## Encoding packets of any length -/

/-- A packet that has been encoded behind the cursor stands there. -/
theorem encodeTx_encoded {s s' : MqttClient E bufSize maxInflight} {cursor n : ℕ}
    {p : MqttPacket} (h : encodeTx cursor p s = .ok (.ok n) s') :
    p.Fits s.options.version (bufSize - cursor) ∧ n = (p.encoded s.options.version).length ∧
      cursor + n ≤ bufSize ∧ ∃ tx : Buffer bufSize, s' = s.withTx tx ∧
        tx.bytes.take (cursor + n) =
          s.txBuffer.bytes.take cursor ++ p.encoded s.options.version := by
  have hlength := s.txBuffer.length_encode_drop p s.options.version cursor
  rw [encodeTx] at h
  split at h
  · rename_i hc
    rcases hencode : p.encode s.options.version (s.txBuffer.bytes.drop cursor) with
      ⟨len, tail⟩ | ⟨e, tail⟩
    · rw [hencode] at h hlength
      cases h
      rw [EStateM.Result.final_ok] at hlength
      obtain ⟨hp, hroom, rfl, hle, -, rest, rfl⟩ := encode_eq_ok hencode
      rw [List.length_drop, s.txBuffer.length_eq] at hroom hle
      refine ⟨⟨hp, hroom⟩, rfl, by omega, _, rfl, ?_⟩
      rw [Buffer.bytes_setTail _ hc hlength, ← List.append_assoc]
      apply List.take_left'
      rw [List.length_append, List.length_take, s.txBuffer.length_eq]
      omega
    · rw [hencode] at h
      cases h
  · cases h

/-- A packet whose encoding fits is handed to `send`, however long it is. -/
theorem sendPacket_of_room {s : MqttClient E bufSize maxInflight} {p : MqttPacket}
    (hp : p.Fits s.options.version bufSize)
    (hmove : (p.encoded s.options.version).length ≤ bufSize) :
    ∃ tx, sendPacket p s = send (p.encoded s.options.version) (s.withTx tx) := by
  have hdrop : (s.txBuffer.bytes.drop 0).length = bufSize := by
    rw [List.drop_zero, s.txBuffer.length_eq]
  obtain ⟨tail, hencode, -⟩ :=
    encode_of_room hp.1 (hp.2.trans hdrop.ge) (hmove.trans hdrop.ge)
  obtain ⟨s', hok⟩ : ∃ s', encodeTx 0 p s =
      .ok (.ok (p.encoded s.options.version).length) s' :=
    ⟨_, by rw [encodeTx, if_pos (Nat.zero_le _), hencode]⟩
  obtain ⟨-, -, hle, tx, hs', htake⟩ := encodeTx_encoded hok
  rw [Nat.zero_add] at hle htake
  rw [List.take_zero, List.nil_append] at htake
  refine ⟨tx, ?_⟩
  rw [sendPacket, run_bind hok, hs']
  change sendTx _ (s.withTx tx) = _
  rw [sendTx_of_le hle, txBuffer_withTx, htake]

theorem sendPacket_encoded {s : MqttClient E bufSize maxInflight} {p : MqttPacket}
    (hp : p.Fits s.options.version bufSize)
    (hmove : (p.encoded s.options.version).length ≤ bufSize)
    (hsend : s.transport.sendResults = []) :
    ∃ tx, sendPacket p s = .ok () (s.afterSend tx [] (p.encoded s.options.version)) := by
  obtain ⟨tx, hrun⟩ := sendPacket_of_room hp hmove
  refine ⟨tx, ?_⟩
  rw [hrun, send_of_nil (s := s.withTx tx) hsend]
  rfl

/-! ## A round of the batch -/

section
variable {s s' t : MqttClient E bufSize maxInflight} {msg : PublishMessage} {cursor cursor' : ℕ}
  {id : Option UInt16} {inflight : InflightQueue maxInflight} {next : UInt16}

/-- A round that succeeds has reserved an id for its packet and has encoded it behind the cursor, or
at the front of the buffer after sending what stood there. -/
theorem publishBatchRound_ok (hsend : s.transport.sendResults = []) (hc : cursor ≤ bufSize)
    (h : publishBatchRound msg cursor s = .ok cursor' s') :
    ∃ id inflight next, reserve s.inflight s.nextPacketId msg.qos = some (id, inflight, next) ∧
      (MqttPacket.publish (msg.packet id)).Fits s.options.version bufSize ∧
      cursor' ≤ bufSize ∧ ∃ tx : Buffer bufSize,
        (s' = withTx { s with inflight, nextPacketId := next } tx ∧
          tx.bytes.take cursor' = s.txBuffer.bytes.take cursor ++
            (MqttPacket.publish (msg.packet id)).encoded s.options.version) ∨
        (s' = afterSend { s with inflight, nextPacketId := next } tx []
            (s.txBuffer.bytes.take cursor) ∧
          tx.bytes.take cursor' =
            (MqttPacket.publish (msg.packet id)).encoded s.options.version) := by
  rcases hreserve : reserve s.inflight s.nextPacketId msg.qos with _ | ⟨id, inflight, next⟩
  · rw [publishBatchRound, run_bind_error (allocatePacketId_of_none hreserve)] at h
    cases h
  refine ⟨id, inflight, next, rfl, ?_⟩
  rw [publishBatchRound, run_bind (allocatePacketId_of_some hreserve)] at h
  obtain ⟨r, s₁, hencode, h⟩ := ok_of_bind h
  obtain ⟨tx, r', hspec, htake, -⟩ := encodeTx_spec
    (s := { s with inflight, nextPacketId := next }) hc (.publish (msg.packet id))
  rcases r with e | len
  · rw [hencode] at hspec
    cases hspec
    rcases e with e | _ | _
    · by_cases hsmall : e = .bufferTooSmall ∧ cursor > 0
      · -- The buffer is sent, and the packet is encoded at its front.
        obtain ⟨rfl, hpos⟩ := hsmall
        dsimp only at h
        rw [if_pos hpos] at h
        obtain ⟨_, s₂, hflush, h⟩ := ok_of_bind h
        rw [sendTx_of_le hc, send_of_nil
          (s := withTx { s with inflight, nextPacketId := next } tx) hsend, txBuffer_withTx,
          htake] at hflush
        cases hflush
        obtain ⟨r, s₃, hagain, h⟩ := ok_of_bind h
        rcases r with (e | _ | _) | len
        · cases h
        · cases h
        · cases h
        · cases h
          obtain ⟨hfits, hlen, hle, tx', rfl, htake'⟩ := encodeTx_encoded hagain
          rw [Nat.zero_add] at hle htake'
          exact ⟨hfits, hle, tx', .inr ⟨rfl, htake'⟩⟩
      · exfalso
        cases e with
        | bufferTooSmall =>
          dsimp only at h
          rw [if_neg fun hpos => hsmall ⟨rfl, hpos⟩] at h
          cases h
        | _ => cases h
    · cases h
    · cases h
  · cases h
    obtain ⟨hfits, hlen, hle, tx', rfl, htake'⟩ := encodeTx_encoded hencode
    exact ⟨⟨hfits.1, hfits.2.trans (Nat.sub_le _ _)⟩, hle, tx', .inl ⟨rfl, htake'⟩⟩

/-- A publish whose packet fits sends its encoding. -/
theorem publish_encoded {topic : String} {payload : List UInt8} {qos : QoS}
    (hconnected : t.state = .connected) (hsend : t.transport.sendResults = [])
    (hreserve : reserve t.inflight t.nextPacketId qos = some (id, inflight, next))
    (hfits : (MqttPacket.publish (publishPacket topic payload qos id)).Fits
      t.options.version bufSize)
    (hmove : ((MqttPacket.publish (publishPacket topic payload qos id)).encoded
      t.options.version).length ≤ bufSize) (now : ℕ) :
    ∃ tx, publish topic payload qos now t = .ok () { afterSend t tx []
      ((MqttPacket.publish (publishPacket topic payload qos id)).encoded t.options.version) with
      inflight, nextPacketId := next, lastTxTime := now } := by
  obtain ⟨tx, hsent⟩ := sendPacket_encoded (s := { t with inflight, nextPacketId := next })
    hfits hmove hsend
  refine ⟨tx, ?_⟩
  rw [publish, run_bind (requireConnected_of_connected hconnected),
    run_bind (allocatePacketId_of_some hreserve), run_bind hsent]
  rfl

/-- The client `t` has sent, beyond what `s` has, what `s` holds in its transmit buffer in front of
the cursor. -/
structure Ahead (s t : MqttClient E bufSize maxInflight) (cursor : ℕ) : Prop where
  connected : t.state = .connected
  options : t.options = s.options
  inflight : t.inflight = s.inflight
  nextPacketId : t.nextPacketId = s.nextPacketId
  batchSends : s.transport.sendResults = []
  sends : t.transport.sendResults = []
  cursor_le : cursor ≤ bufSize
  sent : t.transport.sent.flatten =
    s.transport.sent.flatten ++ s.txBuffer.bytes.take cursor

/-- A round of the batch against a single publish. -/
theorem round_publish (h : Ahead s t cursor) (hretain : msg.retain = false)
    (hround : publishBatchRound msg cursor s = .ok cursor' s') (now : ℕ) :
    ∃ id t', publish msg.topic msg.payload msg.qos now t = .ok () t' ∧ Ahead s' t' cursor' ∧
      s'.options = s.options ∧ t'.transport.sent = t.transport.sent ++
        [(MqttPacket.publish (msg.packet id)).encoded s.options.version] := by
  obtain ⟨id, inflight, next, hreserve, hfits, hle, tx, hs'⟩ :=
    publishBatchRound_ok h.batchSends h.cursor_le hround
  have hpacket : msg.packet id = publishPacket msg.topic msg.payload msg.qos id := by
    rw [PublishMessage.packet, hretain]
    rfl
  have hmove : ((MqttPacket.publish (msg.packet id)).encoded s.options.version).length ≤
      bufSize := by
    have hin : (tx.bytes.take cursor').length ≤ bufSize :=
      (List.length_take_le' _ _).trans tx.length_eq.le
    rcases hs' with ⟨-, htake⟩ | ⟨-, htake⟩
    · rw [htake, List.length_append] at hin
      omega
    · rwa [htake] at hin
  have hversion : s.options.version = t.options.version := by rw [h.options]
  rw [hpacket, hversion] at hfits hmove hs'
  rw [← h.inflight, ← h.nextPacketId] at hreserve
  obtain ⟨tx', hpublish⟩ := publish_encoded h.connected h.sends hreserve hfits hmove now
  refine ⟨id, ?_⟩
  rw [hpacket, hversion]
  rcases hs' with ⟨rfl, htake⟩ | ⟨rfl, htake⟩
  · refine ⟨_, hpublish, ?_, rfl, rfl⟩
    exact
      { connected := h.connected, options := h.options, inflight := rfl, nextPacketId := rfl
        batchSends := h.batchSends, sends := rfl, cursor_le := hle
        sent := by simp [htake, h.sent] }
  · refine ⟨_, hpublish, ?_, rfl, rfl⟩
    exact
      { connected := h.connected, options := h.options, inflight := rfl, nextPacketId := rfl
        batchSends := rfl, sends := rfl, cursor_le := hle
        sent := by simp [htake, h.sent] }

end

/-! ## The whole batch -/

/-- Publishing messages one by one, each at its own instant. -/
def publishEach (messages : List (PublishMessage × ℕ)) : ClientM E bufSize maxInflight Unit :=
  messages.forM fun (msg, now) => publish msg.topic msg.payload msg.qos now

/-- The packet is the PUBLISH of the message. -/
def PublishMessage.Sends (msg : PublishMessage) (p : MqttPacket) : Prop :=
  ∃ id, p = .publish (msg.packet id)

section
variable {s s' t : MqttClient E bufSize maxInflight} {cursor cursor' sentCount k : ℕ}

/-- The loop of the batch against publishing its messages one by one. -/
theorem publishBatchLoop_publishEach {messages : List (PublishMessage × ℕ)}
    (h : Ahead s t cursor) (hretain : ∀ m ∈ messages, m.1.retain = false)
    (hloop : publishBatchLoop (messages.map Prod.fst) cursor sentCount s = .ok (cursor', k) s') :
    k = sentCount + messages.length ∧ ∃ t', publishEach messages t = .ok () t' ∧
      Ahead s' t' cursor' ∧ ∃ packets,
        List.Forall₂ PublishMessage.Sends (messages.map Prod.fst) packets ∧
        t'.transport.sent = t.transport.sent ++
          packets.map (MqttPacket.encoded s.options.version) := by
  induction messages generalizing s t cursor sentCount with
  | nil =>
    cases hloop
    exact ⟨rfl, t, rfl, h, [], .nil, by simp⟩
  | cons m messages ih =>
    obtain ⟨msg, now⟩ := m
    obtain ⟨cursor₁, s₁, hround, hrest⟩ := ok_of_bind hloop
    obtain ⟨id, t₁, hpublish, hahead, hoptions, hsent⟩ :=
      round_publish h (hretain _ List.mem_cons_self) hround now
    obtain ⟨hk, t', heach, hahead', packets, hpackets, hsents⟩ :=
      ih hahead (fun m hm => hretain m (List.mem_cons_of_mem _ hm)) hrest
    refine ⟨by rw [hk, List.length_cons]; omega, t', ?_, hahead', _, .cons ⟨id, rfl⟩ hpackets, ?_⟩
    · change (publish msg.topic msg.payload msg.qos now >>= fun _ => publishEach messages) t = _
      rw [run_bind hpublish, heach]
    · rw [hsents, hsent, hoptions]
      simp

/-- A batch that succeeds has published all its messages, and has left and sent what publishing them
one by one leaves and sends: the PUBLISH of each, once and in order. -/
theorem publishBatch_publishEach (messages : List (PublishMessage × ℕ)) (now : ℕ)
    (hsend : s.transport.sendResults = []) (hretain : ∀ m ∈ messages, m.1.retain = false)
    (hbatch : publishBatch (messages.map Prod.fst) now s = .ok k s') :
    k = messages.length ∧ ∃ t, publishEach messages s = .ok () t ∧
      t.inflight = s'.inflight ∧ t.nextPacketId = s'.nextPacketId ∧
      t.transport.sent.flatten = s'.transport.sent.flatten ∧ ∃ packets,
        List.Forall₂ PublishMessage.Sends (messages.map Prod.fst) packets ∧
        t.transport.sent = s.transport.sent ++
          packets.map (MqttPacket.encoded s.options.version) := by
  by_cases hconnected : s.state = .connected
  · have hstart : Ahead s s 0 :=
      { connected := hconnected, options := rfl, inflight := rfl, nextPacketId := rfl
        batchSends := hsend, sends := hsend, cursor_le := Nat.zero_le _, sent := by simp }
    rw [publishBatch, run_bind (requireConnected_of_connected hconnected)] at hbatch
    obtain ⟨⟨cursor, sentCount⟩, s₁, hloop, hlast⟩ := ok_of_bind hbatch
    obtain ⟨hk, t, heach, hahead, hpackets⟩ :=
      publishBatchLoop_publishEach hstart hretain hloop
    rw [Nat.zero_add] at hk
    have hs' : k = sentCount ∧ s'.inflight = s₁.inflight ∧ s'.nextPacketId = s₁.nextPacketId ∧
        s'.transport.sent.flatten =
          s₁.transport.sent.flatten ++ s₁.txBuffer.bytes.take cursor := by
      dsimp only at hlast
      by_cases hpos : cursor > 0
      · -- What is left in the buffer is sent.
        rw [if_pos hpos] at hlast
        obtain ⟨_, s₂, hflush, hlast⟩ := ok_of_bind hlast
        rw [sendTx_of_le hahead.cursor_le, send_of_nil hahead.batchSends] at hflush
        cases hflush
        cases hlast
        exact ⟨rfl, rfl, rfl, by simp⟩
      · rw [if_neg hpos] at hlast
        cases hlast
        have hzero : cursor = 0 := by omega
        exact ⟨rfl, rfl, rfl, by simp [hzero]⟩
    obtain ⟨rfl, hinflight, hnext, hsent⟩ := hs'
    exact ⟨hk, t, heach, hahead.inflight.trans hinflight.symm,
      hahead.nextPacketId.trans hnext.symm, hahead.sent.trans hsent.symm, hpackets⟩
  · rw [publishBatch, run_bind_error (requireConnected_of_not hconnected)] at hbatch
    cases hbatch

/-- Three messages and a buffer that has no room for all of them. -/
theorem publishBatch_publishEach_three : ∃ s' t : MqttClient Unit 24 4,
    publishBatch [⟨"a", [1], .atLeastOnce, false⟩, ⟨"a", [2, 3], .atMostOnce, false⟩,
      ⟨"b", [4, 5, 6, 7], .exactlyOnce, false⟩] 0 (onlineClient 24) = .ok 3 s' ∧
    publishEach [(⟨"a", [1], .atLeastOnce, false⟩, 1), (⟨"a", [2, 3], .atMostOnce, false⟩, 2),
      (⟨"b", [4, 5, 6, 7], .exactlyOnce, false⟩, 3)] (onlineClient 24) = .ok () t ∧
    s'.transport.sent.length = 2 ∧ t.transport.sent.flatten = s'.transport.sent.flatten := by
  have heval : (match publishBatch [⟨"a", [1], .atLeastOnce, false⟩,
      ⟨"a", [2, 3], .atMostOnce, false⟩, ⟨"b", [4, 5, 6, 7], .exactlyOnce, false⟩] 0
      (onlineClient 24) with
    | .ok k s' => some (k, s'.transport.sent.length)
    | .error _ _ => none) = some (3, 2) := by decide +kernel
  split at heval
  · rename_i k s' hbatch
    obtain ⟨rfl, hlength⟩ := Prod.mk.inj (Option.some.inj heval)
    obtain ⟨-, t, heach, -, -, hsent, -⟩ := publishBatch_publishEach
      [(⟨"a", [1], .atLeastOnce, false⟩, 1), (⟨"a", [2, 3], .atMostOnce, false⟩, 2),
        (⟨"b", [4, 5, 6, 7], .exactlyOnce, false⟩, 3)] 0 rfl (by decide) hbatch
    exact ⟨s', t, hbatch, heach, hlength, hsent⟩
  · cases heval

end

end MqttClient

end MqttEngine
