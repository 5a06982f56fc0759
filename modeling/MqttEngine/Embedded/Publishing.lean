import MqttEngine.Embedded.Sending
import MqttEngine.Packet.Framing

/-!
# What the publishing operations do

The publishing operations reserve a packet id first and encode afterwards. `Handed` says what
has come of it: which packets have been handed to `send`, buffer by buffer, and which ids in
the table belong to them. The ids in `lost` have been reserved for packets that were not
sent; they are what an operation that fails after the reservation leaves behind.

While `publish_batch` collects packets in the transmit buffer, their ids are lost until the
buffer is sent. `Holding` is the invariant of its loop; a round adds a packet to what is held,
sends what is held first, or fails.

## Main definitions

* `reserve` — the packet id of a publish, with the table and the next id after it.
* `publishedIds` — the ids of PUBLISH packets.
* `Handed`, `Holding` — what has been sent, and what is waiting in the buffer.
* `BatchSafe` — no round of a batch fails while an id would be lost.

## Main results

* `publish_ends`, `publishBatch_ends` — the two operations that send whole packets.
* `publishBatchRound_behind`, `publishBatchRound_flush`, `publishBatchRound_unfit` — the rounds.
* `beginStreamPublish_ends` — the operation that sends the beginning of a packet.
-/

namespace MqttEngine
open Checked

/-- The ids under which the PUBLISH packets among `ps` are to be acknowledged. -/
def publishedIds (ps : List MqttPacket) : Set UInt16 :=
  { i | ∃ p : Publish, .publish p ∈ ps ∧ p.qos ≠ .atMostOnce ∧ p.packetId = some i }

@[simp] theorem publishedIds_nil : publishedIds [] = ∅ := by
  ext i
  simp [publishedIds]

theorem publishedIds_append (ps qs : List MqttPacket) :
    publishedIds (ps ++ qs) = publishedIds ps ∪ publishedIds qs := by
  ext i
  constructor
  · intro h
    obtain ⟨p, hp, hrest⟩ := h
    exact (List.mem_append.mp hp).imp (fun hp => ⟨p, hp, hrest⟩) fun hp => ⟨p, hp, hrest⟩
  · intro h
    rcases h with ⟨p, hp, hrest⟩ | ⟨p, hp, hrest⟩
    · exact ⟨p, List.mem_append_left _ hp, hrest⟩
    · exact ⟨p, List.mem_append_right _ hp, hrest⟩

theorem publishedIds_singleton {p : Publish} {i : UInt16} (hqos : p.qos ≠ .atMostOnce)
    (hi : p.packetId = some i) : i ∈ publishedIds [.publish p] := ⟨p, by simp, hqos, hi⟩

/-- The length of a PUBLISH does not depend on its id. -/
theorem measured_packetId {version : MqttVersion} {size : ℕ} {p : Publish}
    (h : (MqttPacket.publish p).Measured version size) (packetId : Option UInt16) :
    (MqttPacket.publish { p with packetId }).Measured version size := by
  have hlen : ((MqttPacket.publish { p with packetId }).content version).length =
      ((MqttPacket.publish p).content version).length := by
    simp only [MqttPacket.content, List.length_append, apply_ite List.length, length_toBeBytes]
  intro he hroom
  rw [hlen]
  exact h he (by simpa only [MqttPacket.room, hlen] using hroom)

namespace MqttClient
variable {E : Type} {bufSize maxInflight : ℕ}

/-! ## Reserving a packet id -/

/-- The packet id of a publish, with the table and the next id after it; `none` if the table
is full. -/
def reserve (inflight : InflightQueue maxInflight) (next : UInt16) (qos : QoS) :
    Option (Option UInt16 × InflightQueue maxInflight × UInt16) :=
  if qos = .atMostOnce then some (none, inflight, next)
  else (inflight.trackOutbound next qos).map fun q => (some next, q, succPacketId next)

section
variable {inflight inflight' : InflightQueue maxInflight} {next next' : UInt16} {qos : QoS}
  {id : Option UInt16}

/-- The only id that a reservation adds to the table is the one it yields. -/
theorem reserve_ids (h : reserve inflight next qos = some (id, inflight', next')) :
    (∀ i, id = some i → qos ≠ .atMostOnce) ∧
      inflight'.outboundIds ⊆ inflight.outboundIds ∪ { i | id = some i } := by
  unfold reserve at h
  split at h
  · cases h
    exact ⟨by simp, Set.subset_union_left⟩
  · rename_i hqos
    obtain ⟨q, hq, heq⟩ := Option.map_eq_some_iff.mp h
    cases heq
    refine ⟨fun _ _ => hqos, ?_⟩
    intro i hi
    rcases InflightQueue.outboundIds_trackOutbound hq hi with rfl | hi
    · exact .inr rfl
    · exact .inl hi

/-- A reservation yields the next id, or none for QoS 0. -/
theorem reserve_id (h : reserve inflight next qos = some (id, inflight', next')) :
    id = if qos = .atMostOnce then none else some next := by
  unfold reserve at h
  split at h
  · rename_i hqos
    cases h
    rw [if_pos hqos]
  · rename_i hqos
    obtain ⟨q, -, heq⟩ := Option.map_eq_some_iff.mp h
    cases heq
    rw [if_neg hqos]

theorem getNextPacketId_eq (s : MqttClient E bufSize maxInflight) :
    getNextPacketId s =
      .ok s.nextPacketId { s with nextPacketId := succPacketId s.nextPacketId } := rfl

theorem allocatePacketId_of_some {s : MqttClient E bufSize maxInflight}
    (h : reserve s.inflight s.nextPacketId qos = some (id, inflight', next')) :
    allocatePacketId qos s = .ok id { s with inflight := inflight', nextPacketId := next' } := by
  unfold reserve at h
  unfold allocatePacketId
  by_cases hqos : qos = .atMostOnce
  · rw [if_pos hqos] at h
    rw [if_neg (not_not.mpr hqos)]
    cases h
    rfl
  · rw [if_neg hqos] at h
    rw [if_pos hqos]
    obtain ⟨q, hq, heq⟩ := Option.map_eq_some_iff.mp h
    cases heq
    have htrack : trackOutbound s.nextPacketId qos
        { s with nextPacketId := succPacketId s.nextPacketId } =
        .ok () { s with inflight := inflight', nextPacketId := succPacketId s.nextPacketId } := by
      simp only [trackOutbound, hq]
    rw [run_bind (getNextPacketId_eq s), run_bind htrack]
    rfl

theorem allocatePacketId_of_none {s : MqttClient E bufSize maxInflight}
    (h : reserve s.inflight s.nextPacketId qos = none) :
    allocatePacketId qos s =
      .error (.err .inflightQueueFull) { s with nextPacketId := succPacketId s.nextPacketId } := by
  unfold reserve at h
  unfold allocatePacketId
  by_cases hqos : qos = .atMostOnce
  · rw [if_pos hqos] at h
    cases h
  · rw [if_neg hqos] at h
    rw [if_pos hqos]
    have htrack : trackOutbound s.nextPacketId qos
        { s with nextPacketId := succPacketId s.nextPacketId } =
        .error (.err .inflightQueueFull) { s with nextPacketId := succPacketId s.nextPacketId } := by
      simp only [trackOutbound, Option.map_eq_none_iff.mp h]
    rw [run_bind (getNextPacketId_eq s), run_bind_error htrack]

end

/-! ## What has been handed over -/

/-- From `s₀` to `s` the packets of `chunks` have been handed to `send`, one buffer for each
element. Their ids and those in `lost` have come into the table. -/
structure Handed (s₀ s : MqttClient E bufSize maxInflight) (chunks : List (List MqttPacket))
    (lost : Set UInt16) : Prop where
  options : s.options = s₀.options
  sendResults : s.transport.sendResults = []
  sent : s.transport.sent =
    s₀.transport.sent ++ chunks.map fun ps => ps.flatMap (MqttPacket.wire s₀.options.version)
  whole : ∀ p ∈ chunks.flatten, (p.content s₀.options.version).length < 128 ^ 4
  ids : s.inflight.outboundIds ⊆
    s₀.inflight.outboundIds ∪ publishedIds chunks.flatten ∪ lost

/-- What `Handed` looks at is the same in both states. -/
def SameHanded (s s' : MqttClient E bufSize maxInflight) : Prop :=
  s'.options = s.options ∧ s'.transport = s.transport ∧ s'.inflight = s.inflight

section
variable {s₀ s s' : MqttClient E bufSize maxInflight} {chunks : List (List MqttPacket)}
  {lost lost' : Set UInt16}

theorem Handed.refl (h : s.transport.sendResults = []) : Handed s s [] ∅ where
  options := rfl
  sendResults := h
  sent := by simp
  whole := by simp
  ids := by simp

theorem Handed.congr (h : Handed s₀ s chunks lost) (hsame : SameHanded s s') :
    Handed s₀ s' chunks lost := by
  obtain ⟨hoptions, htransport, hinflight⟩ := hsame
  exact ⟨hoptions.trans h.options, by rw [htransport, h.sendResults],
    by rw [htransport, h.sent], h.whole, by rw [hinflight]; exact h.ids⟩

theorem Handed.withTx (h : Handed s₀ s chunks lost) (tx : Buffer bufSize) :
    Handed s₀ (s.withTx tx) chunks lost := h.congr ⟨rfl, rfl, rfl⟩

theorem Handed.mono (h : Handed s₀ s chunks lost) (hlost : lost ⊆ lost') :
    Handed s₀ s chunks lost' :=
  { h with ids := h.ids.trans (Set.union_subset_union_right _ hlost) }

/-- An id that has been reserved is lost until its packet is sent. -/
theorem Handed.reserve (h : Handed s₀ s chunks lost) {qos : QoS} {id : Option UInt16}
    {inflight : InflightQueue maxInflight} {next : UInt16}
    (hreserve : MqttClient.reserve s.inflight s.nextPacketId qos = some (id, inflight, next)) :
    Handed s₀ { s with inflight, nextPacketId := next } chunks (lost ∪ { i | id = some i }) where
  options := h.options
  sendResults := h.sendResults
  sent := h.sent
  whole := h.whole
  ids := by
    refine (reserve_ids hreserve).2.trans ?_
    rw [← Set.union_assoc]
    exact Set.union_subset_union_left _ h.ids

/-- Sending a buffer full of packets: their ids are no longer lost. -/
theorem Handed.send {ps : List MqttPacket} (h : Handed s₀ s chunks (publishedIds ps ∪ lost))
    (hps : ∀ p ∈ ps, (p.content s₀.options.version).length < 128 ^ 4) (tx : Buffer bufSize) :
    Handed s₀ (s.afterSend tx [] (ps.flatMap (MqttPacket.wire s₀.options.version)))
      (chunks ++ [ps]) lost where
  options := h.options
  sendResults := rfl
  sent := by simp [h.sent]
  whole := by
    intro p hp
    rw [List.flatten_append, List.flatten_singleton, List.mem_append] at hp
    rcases hp with hp | hp
    · exact h.whole p hp
    · exact hps p hp
  ids := by
    rw [List.flatten_append, List.flatten_singleton, publishedIds_append, ← Set.union_assoc,
      Set.union_assoc]
    exact h.ids

end

/-! ## A single publish -/

/-- A publish that fails does so before it has reserved an id. -/
def PublishSafe (s : MqttClient E bufSize maxInflight) (topic : String) (payload : List UInt8)
    (qos : QoS) : Prop :=
  s.state = .connected →
    match reserve s.inflight s.nextPacketId qos with
    | some (some id, _, _) =>
      (MqttPacket.publish (publishPacket topic payload qos (some id))).Fits s.options.version bufSize
    | _ => True

theorem requireConnected_of_connected {s : MqttClient E bufSize maxInflight}
    (h : s.state = .connected) : requireConnected s = .ok () s := by
  change (if s.state ≠ .connected then fail .notConnected else pure ()) s = _
  rw [if_neg (not_not.mpr h)]
  rfl

theorem requireConnected_of_not {s : MqttClient E bufSize maxInflight}
    (h : s.state ≠ .connected) : requireConnected s = .error (.err .notConnected) s := by
  change (if s.state ≠ .connected then fail .notConnected else pure ()) s = _
  rw [if_pos h]
  rfl

/-- `publish` hands over its packet, or it fails and hands over nothing. -/
theorem publish_ends {s : MqttClient E bufSize maxInflight} (hsend : s.transport.sendResults = [])
    (topic : String) (payload : List UInt8) (qos : QoS) (now : ℕ)
    (hm : s.state = .connected → (MqttPacket.publish (publishPacket topic payload qos none)).Measured
      s.options.version bufSize) :
    Ends (publish topic payload qos now) s (fun _ s' => ∃ p, Handed s s' [[p]] ∅)
      fun _ s' => ∃ lost, Handed s s' [] lost ∧ (PublishSafe s topic payload qos → lost = ∅) := by
  have hstart := Handed.refl hsend
  by_cases hconnected : s.state = .connected
  · have hm (id : Option UInt16) : (MqttPacket.publish (publishPacket topic payload qos id)).Measured
        s.options.version bufSize := measured_packetId (hm hconnected) id
    apply Ends.bind
    rw [Ends, requireConnected_of_connected hconnected]
    apply Ends.bind
    rcases hreserve : reserve s.inflight s.nextPacketId qos with _ | ⟨id, inflight, next⟩
    · rw [Ends, allocatePacketId_of_none hreserve]
      exact ⟨∅, hstart.congr ⟨rfl, rfl, rfl⟩, fun _ => rfl⟩
    · have hreserved := hstart.reserve hreserve
      rw [Ends, allocatePacketId_of_some hreserve]
      dsimp only
      generalize hs₁ : ({ s with inflight, nextPacketId := next } : MqttClient E bufSize maxInflight)
        = s₁ at hreserved
      have hoptions : s₁.options = s.options := hreserved.options
      apply Ends.bind
      by_cases hfits : (MqttPacket.publish (publishPacket topic payload qos id)).Fits
          s.options.version bufSize
      · obtain ⟨tx, hsent⟩ := sendPacket_fits hreserved.sendResults
          (by rw [hoptions]; exact hfits) (by rw [hoptions]; exact hm id)
        rw [Ends, hsent, hoptions]
        refine ⟨.publish (publishPacket topic payload qos id), ?_⟩
        have hids : (∅ : Set UInt16) ∪ { i | id = some i } ⊆
            publishedIds [.publish (publishPacket topic payload qos id)] ∪ ∅ := by
          rw [Set.empty_union, Set.union_empty]
          intro i hi
          exact publishedIds_singleton ((reserve_ids hreserve).1 i hi) hi
        have hhanded := (hreserved.mono hids).send
          (by simpa using hm id hfits.1 hfits.2) tx
        rw [List.flatMap_singleton] at hhanded
        exact hhanded.congr ⟨rfl, rfl, rfl⟩
      · obtain ⟨e, tx, hunsent⟩ := sendPacket_unfit (s := s₁)
          (by rw [hoptions]; exact hm id) (by rw [hoptions]; exact hfits)
        rw [Ends, hunsent]
        refine ⟨_, hreserved.congr ⟨rfl, rfl, rfl⟩, ?_⟩
        intro hsafe
        have h := hsafe hconnected
        rw [hreserve] at h
        rcases id with _ | id
        · simp
        · exact absurd h hfits
  · apply Ends.bind
    rw [Ends, requireConnected_of_not hconnected]
    exact ⟨∅, hstart, fun _ => rfl⟩

/-! ## A batch -/

/-- The loop of `publish_batch`: the packets `pending` stand in the transmit buffer up to
`cursor`. -/
structure Holding (s₀ s : MqttClient E bufSize maxInflight) (cursor : ℕ)
    (pending : List MqttPacket) : Prop where
  handed : ∃ chunks, Handed s₀ s chunks (publishedIds pending)
  cursor_le : cursor ≤ bufSize
  held : s.txBuffer.bytes.take cursor = pending.flatMap (MqttPacket.wire s₀.options.version)
  whole : ∀ p ∈ pending, (p.content s₀.options.version).length < 128 ^ 4

theorem Holding.refl {s : MqttClient E bufSize maxInflight} (h : s.transport.sendResults = []) :
    Holding s s 0 [] where
  handed := ⟨[], by rw [publishedIds_nil]; exact Handed.refl h⟩
  cursor_le := Nat.zero_le _
  held := by simp
  whole := by simp

section
variable {s₀ s : MqttClient E bufSize maxInflight} {cursor : ℕ} {pending : List MqttPacket}
  {msg : PublishMessage} {id : Option UInt16} {inflight : InflightQueue maxInflight} {next : UInt16}

/-- An empty stretch of the buffer holds no packet. -/
theorem Holding.eq_nil (h : Holding s₀ s 0 pending) : pending = [] := by
  have hheld := h.held
  rw [List.take_zero] at hheld
  rcases pending with _ | ⟨p, ps⟩
  · rfl
  · simp [MqttPacket.wire, frameBytes] at hheld

/-- The id of a message is the id of its packet. -/
theorem reservedId_subset (h : reserve s.inflight s.nextPacketId msg.qos = some (id, inflight, next)) :
    { i | id = some i } ⊆ publishedIds [.publish (msg.packet id)] := by
  intro i hi
  exact publishedIds_singleton ((reserve_ids h).1 i hi) hi

theorem publishedIds_eq_empty (h : reserve s.inflight s.nextPacketId msg.qos = some (id, inflight, next)) :
    publishedIds [.publish (msg.packet id)] = ∅ ↔ id = none := by
  constructor
  · intro hempty
    rcases id with _ | i
    · rfl
    · have hi := reservedId_subset h (show i ∈ { j | some i = some j } from rfl)
      rw [hempty] at hi
      cases hi
  · intro hnone
    ext i
    simp [publishedIds, PublishMessage.packet, hnone]

/-- The table is full: the round fails, and what is held is not sent. -/
theorem publishBatchRound_full (h : Holding s₀ s cursor pending)
    (hreserve : reserve s.inflight s.nextPacketId msg.qos = none) :
    ∃ e s' chunks, publishBatchRound msg cursor s = .error e s' ∧
      Handed s₀ s' chunks (publishedIds pending) := by
  obtain ⟨chunks, hhanded⟩ := h.handed
  refine ⟨_, _, chunks, run_bind_error (allocatePacketId_of_none hreserve), ?_⟩
  exact hhanded.congr ⟨rfl, rfl, rfl⟩

/-- The packet fits behind what is held. -/
theorem publishBatchRound_behind (h : Holding s₀ s cursor pending)
    (hreserve : reserve s.inflight s.nextPacketId msg.qos = some (id, inflight, next))
    (hm : (MqttPacket.publish (msg.packet id)).Measured s₀.options.version bufSize)
    (hfits : (MqttPacket.publish (msg.packet id)).Fits s₀.options.version (bufSize - cursor)) :
    let p := MqttPacket.publish (msg.packet id)
    let n := (p.wire s₀.options.version).length
    ∃ s', publishBatchRound msg cursor s = .ok (cursor + n) s' ∧
      Holding s₀ s' (cursor + n) (pending ++ [p]) ∧ s'.inflight = inflight ∧
      s'.nextPacketId = next := by
  obtain ⟨chunks, hhanded⟩ := h.handed
  have hreserved := hhanded.reserve hreserve
  have hversion := congrArg MqttOptions.version hreserved.options
  have hmeasured := hm.mono (Nat.sub_le bufSize cursor)
  obtain ⟨tx, hencode, htake⟩ := encodeTx_fits
    (s := { s with inflight, nextPacketId := next }) h.cursor_le
    (by rw [hversion]; exact hfits) (by rw [hversion]; exact hmeasured)
  rw [hversion] at hencode htake
  refine ⟨withTx { s with inflight, nextPacketId := next } tx, ?_, ⟨⟨chunks, ?_⟩, ?_, ?_, ?_⟩,
    rfl, rfl⟩
  · rw [publishBatchRound, run_bind (allocatePacketId_of_some hreserve), run_bind hencode]
    rfl
  · apply (hreserved.withTx tx).mono
    rw [publishedIds_append]
    exact Set.union_subset_union_right _ (reservedId_subset hreserve)
  · have hlen := congrArg List.length htake
    have hcursor := h.cursor_le
    rw [List.length_append, List.length_take, List.length_take, tx.length_eq,
      Buffer.length_eq] at hlen
    omega
  · rw [List.flatMap_append, List.flatMap_singleton, ← h.held]
    exact htake
  · intro q hq
    rcases List.mem_append.mp hq with hq | hq
    · exact h.whole q hq
    · rw [List.mem_singleton.mp hq]
      exact hm hfits.1 (hfits.2.trans (Nat.sub_le _ _))

/-- Sending what is held, when the next packet does not fit behind it. -/
theorem Holding.flush (h : Holding s₀ s cursor pending)
    (hreserve : reserve s.inflight s.nextPacketId msg.qos = some (id, inflight, next))
    {tx : Buffer bufSize} (htx : tx.bytes.take cursor = s.txBuffer.bytes.take cursor) :
    ∃ s' chunks, sendTx cursor (withTx { s with inflight, nextPacketId := next } tx) = .ok () s' ∧
      Handed s₀ s' chunks { i | id = some i } ∧ s'.inflight = inflight ∧
      s'.nextPacketId = next := by
  obtain ⟨chunks, hhanded⟩ := h.handed
  have hreserved := (hhanded.reserve hreserve).withTx tx
  have hsent := hreserved.send h.whole tx
  refine ⟨_, chunks ++ [pending], ?_, hsent, rfl, rfl⟩
  rw [sendTx_of_le h.cursor_le, send_of_nil hreserved.sendResults, txBuffer_withTx, htx, h.held]

/-- The packet fits into an empty buffer, but not behind what is held. -/
theorem publishBatchRound_flush (h : Holding s₀ s cursor pending)
    (hreserve : reserve s.inflight s.nextPacketId msg.qos = some (id, inflight, next))
    (hm : (MqttPacket.publish (msg.packet id)).Measured s₀.options.version bufSize)
    (hbehind : ¬ (MqttPacket.publish (msg.packet id)).Fits s₀.options.version (bufSize - cursor))
    (hfits : (MqttPacket.publish (msg.packet id)).Fits s₀.options.version bufSize) :
    let p := MqttPacket.publish (msg.packet id)
    let n := (p.wire s₀.options.version).length
    ∃ s', publishBatchRound msg cursor s = .ok n s' ∧ Holding s₀ s' n [p] ∧
      s'.inflight = inflight ∧ s'.nextPacketId = next := by
  have hoptions : s.options = s₀.options := by
    obtain ⟨chunks, hhanded⟩ := h.handed
    exact hhanded.options
  have hroom : bufSize - cursor < (MqttPacket.publish (msg.packet id)).room s₀.options.version :=
    Nat.lt_of_not_le fun hle => hbehind ⟨hfits.1, hle⟩
  have hpos : 0 < cursor := by
    have := hfits.2
    omega
  obtain ⟨tx, hencode, htake⟩ := encodeTx_small
    (s := { s with inflight, nextPacketId := next }) h.cursor_le (by simp [MqttPacket.Bare])
    (by simp) (.inr ⟨hfits.1, by rw [hoptions]; exact hroom⟩)
  obtain ⟨s₁, chunks, hflush, hhanded, hinflight, hnext⟩ := h.flush hreserve htake
  obtain ⟨tx', hencode', htake'⟩ := encodeTx_fits (s := s₁) (Nat.zero_le _)
    (by rw [hhanded.options]; exact hfits) (by rw [hhanded.options]; exact hm)
  rw [hhanded.options] at hencode' htake'
  rw [Nat.zero_add, List.take_zero, List.nil_append] at htake'
  refine ⟨s₁.withTx tx', ?_, ⟨⟨chunks, ?_⟩, ?_, ?_, ?_⟩, hinflight, hnext⟩
  · rw [publishBatchRound, run_bind (allocatePacketId_of_some hreserve), run_bind hencode]
    dsimp only
    rw [if_pos hpos, run_bind hflush, run_bind hencode']
    rfl
  · exact (hhanded.withTx tx').mono (reservedId_subset hreserve)
  · have hlen := congrArg List.length htake'
    rw [List.length_take, tx'.length_eq] at hlen
    omega
  · rw [List.flatMap_singleton]
    exact htake'
  · intro q hq
    rw [List.mem_singleton.mp hq]
    exact hm hfits.1 hfits.2

/-- The ids that a round loses when the packet does not even fit into an empty buffer: what is
held is sent first if the buffer is found to be too small, but not if the topic is. -/
def roundLost (size cursor : ℕ) (pending : List MqttPacket) (p : MqttPacket) : Set UInt16 :=
  if p.Encodable ∨ size - cursor < 5 then publishedIds [p] else publishedIds (pending ++ [p])

/-- The packet does not fit into an empty buffer: the round fails. -/
theorem publishBatchRound_unfit (h : Holding s₀ s cursor pending)
    (hreserve : reserve s.inflight s.nextPacketId msg.qos = some (id, inflight, next))
    (hm : (MqttPacket.publish (msg.packet id)).Measured s₀.options.version bufSize)
    (hfits : ¬ (MqttPacket.publish (msg.packet id)).Fits s₀.options.version bufSize) :
    ∃ e s' chunks, publishBatchRound msg cursor s = .error e s' ∧
      Handed s₀ s' chunks
        (roundLost bufSize cursor pending (.publish (msg.packet id))) := by
  obtain ⟨chunks, hhanded⟩ := h.handed
  have hreserved := hhanded.reserve hreserve
  have hversion := congrArg MqttOptions.version hreserved.options
  have hmeasured := hm.mono (Nat.sub_le bufSize cursor)
  -- What is held and the id of the packet are lost at most.
  have hall : publishedIds pending ∪ { i | id = some i } ⊆
      publishedIds (pending ++ [.publish (msg.packet id)]) := by
    rw [publishedIds_append]
    exact Set.union_subset_union_right _ (reservedId_subset hreserve)
  have hsub : publishedIds [.publish (msg.packet id)] ⊆
      roundLost bufSize cursor pending (.publish (msg.packet id)) := by
    unfold roundLost
    split
    · exact subset_rfl
    · rw [publishedIds_append]
      exact Set.subset_union_right
  -- Once what is held has been sent, only the id of the packet is lost.
  have hflushed {tx : Buffer bufSize} (hpos : 0 < cursor)
      (hencode : encodeTx cursor (.publish (msg.packet id))
        { s with inflight, nextPacketId := next } = .ok (.error (.err .bufferTooSmall))
          (withTx { s with inflight, nextPacketId := next } tx))
      (htake : tx.bytes.take cursor = s.txBuffer.bytes.take cursor) :
      ∃ e s' chunks, publishBatchRound msg cursor s = .error e s' ∧
        Handed s₀ s' chunks (publishedIds [.publish (msg.packet id)]) := by
    obtain ⟨s₁, chunks, hflush, hhanded₁, -, -⟩ := h.flush hreserve htake
    obtain ⟨tx', r, hencode', -, hspec⟩ := encodeTx_spec (s := s₁) (Nat.zero_le _)
      (.publish (msg.packet id))
    rw [hhanded₁.options] at hspec
    have herror : ∃ e, lift r (s₁.withTx tx') = .error e (s₁.withTx tx') := by
      rcases r with (e | _ | _) | n
      · exact ⟨_, rfl⟩
      · exact ⟨_, rfl⟩
      · exact ⟨_, rfl⟩
      · exact absurd (hspec n rfl hm).1 hfits
    obtain ⟨e, herror⟩ := herror
    refine ⟨e, s₁.withTx tx', chunks, ?_, (hhanded₁.withTx tx').mono (reservedId_subset hreserve)⟩
    rw [publishBatchRound, run_bind (allocatePacketId_of_some hreserve), run_bind hencode]
    dsimp only
    rw [if_pos hpos, run_bind hflush, run_bind hencode', herror]
  -- With an empty buffer, or another error, the round ends at once.
  have hended {tx : Buffer bufSize} {e : Fault PacketError}
      (hencode : encodeTx cursor (.publish (msg.packet id))
        { s with inflight, nextPacketId := next } = .ok (.error e)
          (withTx { s with inflight, nextPacketId := next } tx))
      (hstop : e = .err .bufferTooSmall → cursor = 0) :
      ∃ e' s', publishBatchRound msg cursor s = .error e' s' ∧
        Handed s₀ s' chunks (publishedIds pending ∪ { i | id = some i }) := by
    have hrun (e' : Fault (MqttError E))
        (hround : publishBatchRound msg cursor s =
          .error e' (withTx { s with inflight, nextPacketId := next } tx)) :
        ∃ e' s', publishBatchRound msg cursor s = .error e' s' ∧
          Handed s₀ s' chunks (publishedIds pending ∪ { i | id = some i }) :=
      ⟨e', _, hround, hreserved.withTx tx⟩
    rw [publishBatchRound, run_bind (allocatePacketId_of_some hreserve), run_bind hencode] at hrun ⊢
    rcases e with (_ | _) | _ | _
    all_goals first
      | exact hrun _ rfl
      | (have hzero := hstop rfl
         subst hzero
         exact hrun _ rfl)
  by_cases hsmall : (MqttPacket.publish (msg.packet id)).Encodable ∨ bufSize - cursor < 5
  · have hroom : bufSize - cursor < 5 ∨ ((MqttPacket.publish (msg.packet id)).Encodable ∧
        bufSize - cursor < (MqttPacket.publish (msg.packet id)).room
          (withTx { s with inflight, nextPacketId := next } s.txBuffer).options.version) := by
      rcases hsmall with he | hlt
      · refine .inr ⟨he, ?_⟩
        rw [options_withTx, hversion]
        have hlarge : bufSize < (MqttPacket.publish (msg.packet id)).room s₀.options.version :=
          Nat.lt_of_not_le fun hle => hfits ⟨he, hle⟩
        omega
      · exact .inl hlt
    obtain ⟨tx, hencode, htake⟩ := encodeTx_small
      (s := { s with inflight, nextPacketId := next }) h.cursor_le (by simp [MqttPacket.Bare])
      (by simp) hroom
    rcases Nat.eq_zero_or_pos cursor with hzero | hpos
    · obtain ⟨e, s', hround, hlost⟩ := hended hencode fun _ => hzero
      refine ⟨e, s', chunks, hround, hlost.mono ?_⟩
      subst hzero
      have hnil := h.eq_nil
      subst hnil
      rw [publishedIds_nil, Set.empty_union]
      exact (reservedId_subset hreserve).trans hsub
    · obtain ⟨e, s', chunks, hround, hlost⟩ := hflushed hpos hencode htake
      exact ⟨e, s', chunks, hround, hlost.mono hsub⟩
  · have hlost : roundLost bufSize cursor pending (.publish (msg.packet id)) =
        publishedIds (pending ++ [.publish (msg.packet id)]) := if_neg hsmall
    obtain ⟨tx, r, hencode, htake, hspec⟩ := encodeTx_spec
      (s := { s with inflight, nextPacketId := next }) h.cursor_le (.publish (msg.packet id))
    rw [hversion] at hspec
    rcases r with e | n
    · by_cases hflush : e = .err .bufferTooSmall ∧ 0 < cursor
      · obtain ⟨rfl, hpos⟩ := hflush
        obtain ⟨e, s', chunks, hround, hlost'⟩ := hflushed hpos hencode htake
        exact ⟨e, s', chunks, hround, hlost'.mono hsub⟩
      · obtain ⟨e', s', hround, hlost'⟩ := hended hencode fun he =>
          Nat.eq_zero_of_not_pos fun hpos => hflush ⟨he, hpos⟩
        exact ⟨e', s', chunks, hround, hlost'.mono (by rw [hlost]; exact hall)⟩
    · have hbehind := (hspec n rfl hmeasured).1
      exact absurd ⟨hbehind.1, hbehind.2.trans (Nat.sub_le _ _)⟩ hfits

/-- No round of a batch fails while an id would be lost. `unsent` says that the buffer holds
a packet with an id. -/
def BatchSafe (version : MqttVersion) (size : ℕ) :
    List PublishMessage → ℕ → Bool → InflightQueue maxInflight → UInt16 → Prop
  | [], _, _, _, _ => True
  | msg :: messages, cursor, unsent, inflight, next =>
    match reserve inflight next msg.qos with
    | none => unsent = false
    | some (id, inflight, next) =>
      let p := MqttPacket.publish (msg.packet id)
      let n := (p.wire version).length
      if p.Fits version (size - cursor) then
        BatchSafe version size messages (cursor + n) (unsent || id.isSome) inflight next
      else if p.Fits version size then
        BatchSafe version size messages n id.isSome inflight next
      else id = none ∧ (unsent = false ∨ p.Encodable ∨ size - cursor < 5)

/-- The loop of `publish_batch` ends with packets in the buffer, or it fails, and then loses no
id if the batch is safe. -/
theorem publishBatchLoop_ends {messages : List PublishMessage} {sentCount : ℕ} {unsent : Bool}
    (h : Holding s₀ s cursor pending)
    (hm : ∀ msg ∈ messages,
      (MqttPacket.publish (msg.packet none)).Measured s₀.options.version bufSize)
    (hunsent : unsent = false → publishedIds pending = ∅) :
    Ends (publishBatchLoop messages cursor sentCount) s
      (fun r s' => ∃ pending', Holding s₀ s' r.1 pending')
      fun _ s' => ∃ chunks lost, Handed s₀ s' chunks lost ∧
        (BatchSafe s₀.options.version bufSize messages cursor unsent s.inflight s.nextPacketId →
          lost = ∅) := by
  induction messages generalizing s cursor pending sentCount unsent with
  | nil => exact ⟨pending, h⟩
  | cons msg messages ih =>
    have hmsg (id : Option UInt16) : (MqttPacket.publish (msg.packet id)).Measured
        s₀.options.version bufSize := measured_packetId (hm msg (by simp)) id
    have hrest : ∀ msg ∈ messages, (MqttPacket.publish (msg.packet none)).Measured
        s₀.options.version bufSize := fun msg hmem => hm msg (by simp [hmem])
    apply Ends.bind
    rcases hreserve : reserve s.inflight s.nextPacketId msg.qos with _ | ⟨id, inflight, next⟩
    · obtain ⟨e, s', chunks, hround, hhanded⟩ := publishBatchRound_full h hreserve
      rw [Ends, hround]
      refine ⟨chunks, _, hhanded, ?_⟩
      intro hsafe
      rw [BatchSafe, hreserve] at hsafe
      exact hunsent hsafe
    · by_cases hbehind : (MqttPacket.publish (msg.packet id)).Fits s₀.options.version
          (bufSize - cursor)
      · obtain ⟨s', hround, hholding, rfl, rfl⟩ :=
          publishBatchRound_behind h hreserve (hmsg id) hbehind
        rw [Ends, hround]
        have hids : (unsent || id.isSome) = false →
            publishedIds (pending ++ [.publish (msg.packet id)]) = ∅ := by
          intro hnone
          rw [Bool.or_eq_false_iff] at hnone
          rw [publishedIds_append, hunsent hnone.1, Set.empty_union]
          rw [publishedIds_eq_empty hreserve]
          simpa using hnone.2
        refine (ih hholding hrest hids).mono (fun _ _ h => h) ?_
        intro e s'' hlost
        obtain ⟨chunks, lost, hhanded, hsafe'⟩ := hlost
        refine ⟨chunks, lost, hhanded, fun hsafe => hsafe' ?_⟩
        rw [BatchSafe, hreserve] at hsafe
        simpa only [if_pos hbehind] using hsafe
      · by_cases hfits : (MqttPacket.publish (msg.packet id)).Fits s₀.options.version bufSize
        · obtain ⟨s', hround, hholding, rfl, rfl⟩ :=
            publishBatchRound_flush h hreserve (hmsg id) hbehind hfits
          rw [Ends, hround]
          have hids : id.isSome = false → publishedIds [.publish (msg.packet id)] = ∅ := by
            intro hnone
            rw [publishedIds_eq_empty hreserve]
            simpa using hnone
          refine (ih hholding hrest hids).mono (fun _ _ h => h) ?_
          intro e s'' hlost
          obtain ⟨chunks, lost, hhanded, hsafe'⟩ := hlost
          refine ⟨chunks, lost, hhanded, fun hsafe => hsafe' ?_⟩
          rw [BatchSafe, hreserve] at hsafe
          simpa only [if_neg hbehind, if_pos hfits] using hsafe
        · obtain ⟨e, s', chunks, hround, hhanded⟩ :=
            publishBatchRound_unfit h hreserve (hmsg id) hfits
          rw [Ends, hround]
          refine ⟨chunks, _, hhanded, ?_⟩
          intro hsafe
          rw [BatchSafe, hreserve] at hsafe
          simp only [if_neg hbehind, if_neg hfits] at hsafe
          obtain ⟨rfl, hsafe⟩ := hsafe
          have hnone : publishedIds [.publish (msg.packet none)] = ∅ :=
            (publishedIds_eq_empty hreserve).mpr rfl
          unfold roundLost
          split
          · exact hnone
          · rename_i hsmall
            rcases hsafe with hunsent' | he | hlt
            · rw [publishedIds_append, hunsent hunsent', hnone, Set.union_empty]
            · exact absurd (.inl he) hsmall
            · exact absurd (.inr hlt) hsmall

end

/-- A batch that fails does so while no id would be lost. -/
def BatchCallSafe (s : MqttClient E bufSize maxInflight) (messages : List PublishMessage) : Prop :=
  s.state = .connected →
    BatchSafe s.options.version bufSize messages 0 false s.inflight s.nextPacketId

/-- `publish_batch` hands over all its packets, or it fails, and then loses no id if the batch
is safe. -/
theorem publishBatch_ends {s : MqttClient E bufSize maxInflight}
    (hsend : s.transport.sendResults = []) (messages : List PublishMessage) (now : ℕ)
    (hm : s.state = .connected → ∀ msg ∈ messages,
      (MqttPacket.publish (msg.packet none)).Measured s.options.version bufSize) :
    Ends (publishBatch messages now) s (fun _ s' => ∃ chunks, Handed s s' chunks ∅)
      fun _ s' => ∃ chunks lost, Handed s s' chunks lost ∧
        (BatchCallSafe s messages → lost = ∅) := by
  by_cases hconnected : s.state = .connected
  · apply Ends.bind
    rw [Ends, requireConnected_of_connected hconnected]
    apply Ends.bind
    have hempty : false = false → publishedIds [] = ∅ := fun _ => publishedIds_nil
    refine (publishBatchLoop_ends (Holding.refl hsend) (hm hconnected) hempty).mono ?_ ?_
    · intro r s' hpending
      obtain ⟨cursor, sentCount⟩ := r
      obtain ⟨pending, hholding⟩ := hpending
      obtain ⟨chunks, hhanded⟩ := hholding.handed
      dsimp only
      by_cases hpos : cursor > 0
      · rw [if_pos hpos]
        rw [← Set.union_empty (publishedIds pending)] at hhanded
        have hsent := hhanded.send hholding.whole s'.txBuffer
        apply Ends.bind
        rw [Ends, sendTx_of_le hholding.cursor_le, send_of_nil hhanded.sendResults, hholding.held]
        exact ⟨_, hsent.congr ⟨rfl, rfl, rfl⟩⟩
      · rw [if_neg hpos]
        have hzero : cursor = 0 := by omega
        subst hzero
        have hnil := hholding.eq_nil
        subst hnil
        rw [publishedIds_nil] at hhanded
        exact ⟨chunks, hhanded⟩
    · intro e s' hlost
      obtain ⟨chunks, lost, hhanded, hsafe⟩ := hlost
      exact ⟨chunks, lost, hhanded, fun h => hsafe (h hconnected)⟩
  · apply Ends.bind
    rw [Ends, requireConnected_of_not hconnected]
    exact ⟨[], ∅, Handed.refl hsend, fun _ => rfl⟩

/-! ## Streaming -/

/-- The content of a streamed PUBLISH up to its payload. -/
def streamContent (version : MqttVersion) (topic : String) (id : Option UInt16) : List UInt8 :=
  lengthPrefixed (strBytes topic) ++ (id.elim [] toBeBytes ++ if version = .v5 then [0] else [])

/-- The fixed header of a streamed PUBLISH with the given remaining length. -/
def streamHeader (qos : QoS) (remaining : ℕ) : List UInt8 :=
  streamFlags qos :: Base128.encode remaining

/-- The variable header is put together, or it is too long for its buffer. -/
theorem writeStreamHeader_spec (topic : String) (id : Option UInt16) (version : MqttVersion)
    {buf : List UInt8} (hbuf : buf.length = 256) :
    (∃ out, writeStreamHeader topic id version ⟨buf, 0⟩ = .ok () out ∧
      out.buf.take out.cursor = streamContent version topic id ∧ out.cursor ≤ out.buf.length ∧
      (streamContent version topic id).length ≤ 256) ∨
    ∃ e out, writeStreamHeader topic id version ⟨buf, 0⟩ = .error e out ∧
      256 < (streamContent version topic id).length := by
  have htopic := emits_utf8String topic
  have hid : Stores (SliceWriter.whenSome id fun pid => SliceWriter.storeSlice (toBeBytes pid) :
      SliceWriter PacketError UInt8 Unit) (id.elim [] toBeBytes) :=
    Stores.whenSome id fun pid => Stores.storeSlice _
  have hprops : Stores
      (SliceWriter.when (version = .v5) (SliceWriter.store 0) : SliceWriter PacketError UInt8 Unit)
      (if version = .v5 then [0] else []) := Stores.when _ (Stores.store 0)
  have hrest := hid.bind hprops
  have hprefix : (lengthPrefixed (strBytes topic)).length = 2 + (strBytes topic).length :=
    length_lengthPrefixed _
  by_cases hfits : 2 + (strBytes topic).length ≤ 256
  · have hroom : 0 + (lengthPrefixed (strBytes topic)).length ≤ buf.length := by omega
    have hlen : (Out.patch ⟨buf, 0⟩ (lengthPrefixed (strBytes topic))).buf.length = buf.length :=
      Out.length_patch ⟨buf, 0⟩ hroom
    have hcursor : (Out.patch ⟨buf, 0⟩ (lengthPrefixed (strBytes topic))).cursor =
        0 + (lengthPrefixed (strBytes topic)).length := rfl
    have hrun := run_bind (f := fun _ => (do
        SliceWriter.whenSome id fun pid => SliceWriter.storeSlice (toBeBytes pid)
        SliceWriter.when (version = .v5) (SliceWriter.store 0) : SliceWriter PacketError UInt8 Unit))
      (htopic.fits (by omega) ⟨buf, 0⟩ hroom)
    change writeStreamHeader topic id version ⟨buf, 0⟩ = _ at hrun
    by_cases hall : 0 + (streamContent version topic id).length ≤ buf.length
    · left
      rw [streamContent, List.length_append] at hall
      rw [hrest.fits _ (by rw [hlen, hcursor]; omega), Out.patch_patch _ hroom] at hrun
      refine ⟨_, hrun, Out.take_patch _ _, ?_, ?_⟩
      · rw [Out.length_patch _ (by rw [List.length_append]; exact hall), Out.cursor_patch,
          List.length_append]
        exact hall
      · rw [streamContent, List.length_append]
        omega
    · right
      rw [streamContent, List.length_append] at hall
      obtain ⟨out, hpanic⟩ := hrest.panics (Out.patch ⟨buf, 0⟩ (lengthPrefixed (strBytes topic)))
        (by rw [hlen, hcursor]; exact hroom) (by rw [hlen, hcursor]; omega)
      refine ⟨_, out, hrun.trans hpanic, ?_⟩
      rw [streamContent, List.length_append]
      omega
  · right
    have hfails : ∃ e out, SliceWriter.onTail .bufferTooSmall (writeUtf8String topic) ⟨buf, 0⟩ =
        .error (.err e) out := by
      by_cases hsize : (strBytes topic).length ≤ 65535
      · exact ⟨_, htopic.short hsize ⟨buf, 0⟩ (Nat.zero_le _)
          (show buf.length < 0 + (lengthPrefixed (strBytes topic)).length by omega)⟩
      · exact htopic.fails hsize ⟨buf, 0⟩ (Nat.zero_le _)
    obtain ⟨e, out, herror⟩ := hfails
    refine ⟨_, out, run_bind_error herror, ?_⟩
    rw [streamContent, List.length_append]
    omega

theorem length_streamContent (version : MqttVersion) (topic : String) (id : Option UInt16) :
    (streamContent version topic id).length =
      let len := 2 + (strBytes topic).length
      let len := if id.isSome then len + 2 else len
      if version = .v5 then len + 1 else len := by
  rw [streamContent, List.length_append, List.length_append, length_lengthPrefixed]
  rcases id with _ | id <;> by_cases hv : version = .v5 <;> simp [hv]

/-- The variable header of a stream has room in its buffer. -/
def HeaderFits (version : MqttVersion) (topic : String) (qos : QoS) : Prop :=
  2 + (strBytes topic).length + (if qos = .atMostOnce then 0 else 2) +
    (if version = .v5 then 1 else 0) ≤ 256

instance (version : MqttVersion) (topic : String) (qos : QoS) :
    Decidable (HeaderFits version topic qos) := inferInstanceAs (Decidable (_ ≤ _))

theorem headerFits_iff {version : MqttVersion} {topic : String} {qos : QoS} {id : Option UInt16}
    (hid : id = none ↔ qos = .atMostOnce) :
    HeaderFits version topic qos ↔ (streamContent version topic id).length ≤ 256 := by
  rw [length_streamContent, HeaderFits]
  rcases id with _ | id
  · simp only [hid.mp rfl, if_true]
    by_cases hv : version = .v5 <;> simp [hv]
  · have hqos : qos ≠ .atMostOnce := fun h => by simpa using hid.mpr h
    by_cases hv : version = .v5 <;> simp [hv, hqos]

/-- The fixed header as `begin_stream_publish` puts it together in its buffer of 16 bytes. -/
theorem streamHeader_of_lt (qos : QoS) {remaining : ℕ} (h : remaining < 2 ^ 64) :
    writeVariableByteIntegerLen remaining (Buffer.zero : Buffer 15).bytes =
        .ok (Base128.encode remaining).length (Base128.encode remaining ++
          (Buffer.zero : Buffer 15).bytes.drop (Base128.encode remaining).length) ∧
      (range (streamFlags qos :: (Base128.encode remaining ++
          (Buffer.zero : Buffer 15).bytes.drop (Base128.encode remaining).length)) 0
          (1 + (Base128.encode remaining).length) : Checked PacketError (List UInt8)) =
        .ok (streamHeader qos remaining) := by
  have hvbi := Base128.length_encode_le (show 0 < 10 by omega) (h.trans (by decide))
  refine ⟨writeVariableByteIntegerLen_fits _ (by rw [Buffer.length_eq]; omega), ?_⟩
  have hle : 1 + (Base128.encode remaining).length ≤ (streamFlags qos ::
      (Base128.encode remaining ++
        (Buffer.zero : Buffer 15).bytes.drop (Base128.encode remaining).length)).length := by
    simp only [List.length_cons, List.length_append]
    omega
  rw [range_of_le (Nat.zero_le _) hle, Nat.add_comm, List.take_succ_cons, List.take_left,
    List.drop_zero]
  rfl

/-- A stream has begun: its two headers have been handed over. -/
structure Begun (s s' : MqttClient E bufSize maxInflight) (topic : String) (total : ℕ) (qos : QoS)
    (id : Option UInt16) : Prop where
  connected : s.state = .connected
  reserved : ∃ inflight next, reserve s.inflight s.nextPacketId qos = some (id, inflight, next) ∧
    s'.inflight = inflight
  options : s'.options = s.options
  sendResults : s'.transport.sendResults = []
  sent : s'.transport.sent = s.transport.sent ++
    [streamHeader qos ((streamContent s.options.version topic id).length + total),
      streamContent s.options.version topic id]

/-- A stream does not begin although an id has been reserved for it: its variable header is too long
for its buffer, or its remaining length for `usize`. -/
structure Refused (s s' : MqttClient E bufSize maxInflight) (topic : String) (total : ℕ) (qos : QoS)
    (id : Option UInt16) : Prop where
  connected : s.state = .connected
  reserved : ∃ inflight next, reserve s.inflight s.nextPacketId qos = some (id, inflight, next) ∧
    s'.inflight = inflight
  options : s'.options = s.options
  sendResults : s'.transport.sendResults = []
  long : 256 < (streamContent s.options.version topic id).length ∨
    2 ^ 64 ≤ (streamContent s.options.version topic id).length + total

/-- `begin_stream_publish` hands over the two headers of its packet, or it fails: before anything
has been handed over, or because one of the headers is too long. -/
theorem beginStreamPublish_ends {s : MqttClient E bufSize maxInflight}
    (hsend : s.transport.sendResults = []) (topic : String) (total : ℕ) (qos : QoS) (now : ℕ) :
    Ends (beginStreamPublish topic total qos now) s
      (fun writer s' => writer = ⟨total, total⟩ ∧ ∃ id, Begun s s' topic total qos id ∧
        (streamContent s.options.version topic id).length ≤ 256)
      fun _ s' => Handed s s' [] ∅ ∨ ∃ id, Refused s s' topic total qos id := by
  by_cases hconnected : s.state = .connected
  · apply Ends.bind
    rw [Ends, requireConnected_of_connected hconnected]
    apply Ends.bind
    rcases hreserve : reserve s.inflight s.nextPacketId qos with _ | ⟨id, inflight, next⟩
    · rw [Ends, allocatePacketId_of_none hreserve]
      exact .inl ((Handed.refl hsend).congr ⟨rfl, rfl, rfl⟩)
    · rw [Ends, allocatePacketId_of_some hreserve]
      dsimp only
      apply Ends.bind
      apply Ends.get
      dsimp only
      have hlen := length_streamContent s.options.version topic id
      dsimp only at hlen
      rw [← hlen]
      apply Ends.bind
      by_cases hsum : (streamContent s.options.version topic id).length + total < 2 ^ 64
      · rw [addUsize, if_pos hsum]
        apply Ends.pure
        obtain ⟨hwrite, hheader⟩ := streamHeader_of_lt qos hsum
        generalize hremaining :
          (streamContent s.options.version topic id).length + total = remaining at hwrite hheader
        rw [hwrite]
        dsimp only
        rw [hheader]
        apply Ends.bind
        apply Ends.pure
        apply Ends.bind
        rw [Ends, send_of_nil (s := { s with inflight, nextPacketId := next }) hsend]
        generalize (Buffer.zero : Buffer 256) = varBuf
        rcases writeStreamHeader_spec topic id s.options.version varBuf.length_eq with
          ⟨out, hout, htake, hle, hfits⟩ | ⟨e, out, hout, hlong⟩
        · have hvar : (range out.buf 0 out.cursor : Checked PacketError (List UInt8)) =
              .ok (streamContent s.options.version topic id) := by
            rw [range_of_le (Nat.zero_le _) hle, htake, List.drop_zero]
          rw [hout]
          dsimp only
          rw [hvar]
          apply Ends.bind
          apply Ends.pure
          apply Ends.bind
          rw [Ends, send_of_nil rfl]
          refine ⟨rfl, id, ⟨hconnected, ⟨inflight, next, hreserve, rfl⟩, rfl, rfl, ?_⟩, hfits⟩
          change s.transport.sent ++ [streamHeader qos remaining] ++
            [streamContent s.options.version topic id] = _
          rw [hremaining, List.append_assoc]
          rfl
        · -- The fixed header has been handed over.
          have hrefused : Refused s
              { s with
                inflight
                nextPacketId := next
                transport := { s.transport with
                  sendResults := []
                  sent := s.transport.sent ++ [streamHeader qos remaining] } }
              topic total qos id :=
            ⟨hconnected, ⟨inflight, next, hreserve, rfl⟩, rfl, rfl, .inl hlong⟩
          rw [hout]
          rcases e with e | _ | _
          · exact .inr ⟨id, hrefused⟩
          · exact .inr ⟨id, hrefused⟩
          · exact .inr ⟨id, hrefused⟩
      · rw [addUsize, if_neg hsum]
        exact .inr ⟨id, hconnected, ⟨inflight, next, hreserve, rfl⟩, rfl, hsend,
          .inr (Nat.le_of_not_lt hsum)⟩
  · apply Ends.bind
    rw [Ends, requireConnected_of_not hconnected]
    exact .inl (Handed.refl hsend)

end MqttClient

end MqttEngine
