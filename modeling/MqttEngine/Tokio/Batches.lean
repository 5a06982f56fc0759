import MqttEngine.Packet.BufferRoom
import MqttEngine.Packet.Framing
import MqttEngine.Tokio.Sending

/-!
# Batches of the event loop

`send_publish_batch_direct` packs the packets of a batch into the transmit buffer, which it writes
whenever the next packet does not fit behind what is there. `placing` says what becomes of a packet:
it is packed, or it stops the batch with an error or a panic, or it is skipped, if it does not fit
into the empty buffer and nothing stands in front of it. A packet that is skipped is neither counted
nor reported, and its entry in the in-flight table stays.

## Main definitions

* `publishPackets` — the packets of a batch.
* `placing`, `Stops` — what becomes of a packet, and a batch that does not return a count.
* `Packed` — packets have been added to what is written and what the buffer holds.
* `AllOrError` — a batch that returns a count has sent all of its packets.

## Main results

* `sendPublishBatchDirect_spec` — what a batch sends.
* `allOrError_iff` — when a batch sends all of its packets or returns no count.
-/

namespace MqttEngine.Tokio
open Checked Conn EventLoop

section
variable {E R S W : Type} {maxPacketSize : ℕ}

/-! ## The packets of a batch -/

/-- The PUBLISH packets of messages that take their ids from `next` on. -/
def publishPackets : UInt16 → List PublishMessage → List MqttPacket
  | _, [] => []
  | next, message :: messages =>
    if message.qos ≠ .atMostOnce then
      publishPacket message (some next) message.dup :: publishPackets (succPacketId next) messages
    else publishPacket message none message.dup :: publishPackets next messages

theorem publishPackets_cons (s : Conn E R S W maxPacketSize) (message : PublishMessage)
    (messages : List PublishMessage) (ackSender : Option R) :
    publishPackets s.nextPacketId (message :: messages) =
      publishPacket message (takenId s message) message.dup ::
        publishPackets (tracked s message ackSender).nextPacketId messages := by
  rw [publishPackets, takenId, tracked]
  split <;> rfl

theorem length_publishPackets (next : UInt16) (messages : List PublishMessage) :
    (publishPackets next messages).length = messages.length := by
  induction messages generalizing next with
  | nil => rfl
  | cons message messages ih =>
    rw [publishPackets]
    split <;> simp [ih]

/-! ## Placing packets -/

/-- What becomes of a packet of a batch. -/
inductive Placing
  /-- It is in the buffer, which is filled up to `cursor`. -/
  | packed (cursor : ℕ)
  | skipped
  /-- The batch ends in an error or in a panic. -/
  | stopped

/-- What becomes of a packet while the buffer is filled up to `cursor`. -/
def placing (version : MqttVersion) (size cursor : ℕ) (p : MqttPacket) : Placing :=
  if p.Fits version (size - cursor) then
    if (p.encoded version).length ≤ size - cursor then
      .packed (cursor + (p.encoded version).length)
    else .stopped
  else if cursor = 0 then .skipped
  else if p.Fits version size ∧ (p.encoded version).length ≤ size then
    .packed (p.encoded version).length
  else .stopped

/-- One of the packets stops the batch. -/
def Stops (version : MqttVersion) (size : ℕ) : ℕ → List MqttPacket → Prop
  | _, [] => False
  | cursor, p :: ps =>
    match placing version size cursor p with
    | .packed cursor' => Stops version size cursor' ps
    | .skipped => Stops version size cursor ps
    | .stopped => True

instance decidableStops (version : MqttVersion) (size : ℕ) :
    ∀ (cursor : ℕ) (ps : List MqttPacket), Decidable (Stops version size cursor ps)
  | _, [] => isFalse fun h => h
  | cursor, p :: ps =>
    match h : placing version size cursor p with
    | .packed cursor' =>
      have := decidableStops version size cursor' ps
      decidable_of_iff (Stops version size cursor' ps) (by rw [Stops, h])
    | .skipped =>
      have := decidableStops version size cursor ps
      decidable_of_iff (Stops version size cursor ps) (by rw [Stops, h])
    | .stopped => isTrue (by rw [Stops, h]; trivial)

/-- The packets that a batch without a stop sends. -/
def sendable (version : MqttVersion) (size : ℕ) (ps : List MqttPacket) : List MqttPacket :=
  ps.filter fun p => p.Fits version size

section
variable {version : MqttVersion} {size cursor cursor' : ℕ} {p : MqttPacket} {ps : List MqttPacket}

theorem fits_of_packed (h : placing version size cursor p = .packed cursor') :
    p.Fits version size := by
  rw [placing] at h
  split at h
  · rename_i hfits
    exact ⟨hfits.1, hfits.2.trans (Nat.sub_le _ _)⟩
  · split at h
    · cases h
    · split at h
      · rename_i hfits
        exact hfits.1
      · cases h

theorem unfit_of_skipped (h : placing version size cursor p = .skipped) :
    cursor = 0 ∧ ¬ p.Fits version size := by
  rw [placing] at h
  split at h
  · split at h <;> cases h
  · rename_i hunfit
    split at h
    · rename_i hzero
      subst hzero
      exact ⟨rfl, hunfit⟩
    · split at h <;> cases h

end

/-! ## Encoding packets of any length -/

section
variable {s : Conn E R S W maxPacketSize} {p : MqttPacket} {cursor : ℕ}

/-- A packet with room behind the cursor for the encoder and for the encoding is encoded there. -/
theorem encodeTx_encoded (hc : cursor ≤ maxPacketSize)
    (hp : p.Fits s.options.version (maxPacketSize - cursor))
    (hmove : (p.encoded s.options.version).length ≤ maxPacketSize - cursor) :
    ∃ tx, encodeTx cursor p s = .ok (.ok (p.encoded s.options.version).length) (s.withTx tx) ∧
      tx.bytes.take (cursor + (p.encoded s.options.version).length) =
        s.txBuf.bytes.take cursor ++ p.encoded s.options.version := by
  have hdrop : (s.txBuf.bytes.drop cursor).length = maxPacketSize - cursor := by
    rw [List.length_drop, s.txBuf.length_eq]
  obtain ⟨tail, hencode, hlength⟩ :=
    encode_of_room hp.1 (hp.2.trans hdrop.ge) (hmove.trans hdrop.ge)
  refine ⟨s.txBuf.setTail cursor (p.encoded s.options.version ++ tail), ?_, ?_⟩
  · rw [encodeTx, if_pos hc, hencode]
    rfl
  · rw [Buffer.bytes_setTail _ hc (hlength.trans hdrop), ← List.append_assoc]
    apply List.take_left'
    rw [List.length_append, List.length_take, s.txBuf.length_eq]
    omega

/-- A packet with room for the encoder only panics. -/
theorem encodeTx_panics (hbare : ¬ p.Bare) (hc : cursor ≤ maxPacketSize)
    (hp : p.Fits s.options.version (maxPacketSize - cursor))
    (hlong : maxPacketSize - cursor < (p.encoded s.options.version).length) :
    ∃ tx, encodeTx cursor p s = .ok (.error .panic) (s.withTx tx) := by
  have hdrop : (s.txBuf.bytes.drop cursor).length = maxPacketSize - cursor := by
    rw [List.length_drop, s.txBuf.length_eq]
  obtain ⟨tail, hencode⟩ :=
    encode_panics hbare hp.1 (hp.2.trans hdrop.ge) (hdrop.trans_lt hlong)
  exact ⟨s.txBuf.setTail cursor tail, by rw [encodeTx, if_pos hc, hencode]; rfl⟩

end

/-! ## A round -/

/-- From `s` to `s'` these bytes have been put behind those that have been written and those in
front of the cursor. -/
structure Packed (s s' : Conn E R S W maxPacketSize) (cursor cursor' : ℕ) (bytes : List UInt8) :
    Prop where
  steady : s'.socket.Steady
  options : s'.options = s.options
  le : cursor' ≤ maxPacketSize
  bytes : s'.socket.written.flatten ++ s'.txBuf.bytes.take cursor' =
    s.socket.written.flatten ++ s.txBuf.bytes.take cursor ++ bytes

variable {s s' s'' : Conn E R S W maxPacketSize} {cursor cursor' cursor'' : ℕ}

theorem Packed.trans {bytes bytes' : List UInt8} (h : Packed s s' cursor cursor' bytes)
    (h' : Packed s' s'' cursor' cursor'' bytes') :
    Packed s s'' cursor cursor'' (bytes ++ bytes') where
  steady := h'.steady
  options := h'.options.trans h.options
  le := h'.le
  bytes := by rw [h'.bytes, h.bytes, List.append_assoc]

/-- The tables after a message has been tracked. -/
structure Tracked (s s' : Conn E R S W maxPacketSize) (message : PublishMessage) : Prop where
  nextPacketId : s'.nextPacketId = (tracked s message none).nextPacketId
  inflightPublishes : s'.inflightPublishes = (tracked s message none).inflightPublishes

/-- What a round does. -/
theorem sendPublishBatchRound_spec (hsteady : s.socket.Steady) (hc : cursor ≤ maxPacketSize)
    (message : PublishMessage) (count : ℕ) :
    match placing s.options.version maxPacketSize cursor
        (publishPacket message (takenId s message) message.dup) with
    | .packed cursor' => ∃ s', sendPublishBatchRound message cursor count s =
          .ok (cursor', count + 1) s' ∧ Tracked s s' message ∧
        Packed s s' cursor cursor'
          ((publishPacket message (takenId s message) message.dup).encoded s.options.version)
    | .skipped => ∃ s', sendPublishBatchRound message cursor count s = .ok (cursor, count) s' ∧
        Tracked s s' message ∧ Packed s s' cursor cursor []
    | .stopped => ∀ r s', sendPublishBatchRound message cursor count s ≠ .ok r s' := by
  let t := tracked s message none
  have hsocket : t.socket = s.socket := socket_tracked message none
  have hoptions : t.options = s.options := options_tracked message none
  have htx : t.txBuf = s.txBuf := txBuf_tracked message none
  have hbare : ¬ (publishPacket message (takenId s message) message.dup).Bare := by
    simp [publishPacket, MqttPacket.Bare]
  have hdisc : ∀ d, publishPacket message (takenId s message) message.dup ≠ .disconnect d := by
    simp [publishPacket]
  rw [sendPublishBatchRound, run_bind (trackPublish_eq message none)]
  generalize publishPacket message (takenId s message) message.dup = p at hbare hdisc
  rw [← hoptions, placing]
  by_cases hfits : p.Fits t.options.version (maxPacketSize - cursor)
  · rw [if_pos hfits]
    by_cases hmove : (p.encoded t.options.version).length ≤ maxPacketSize - cursor
    · -- Behind what is in the buffer.
      rw [if_pos hmove]
      obtain ⟨tx, hencode, htake⟩ := encodeTx_encoded (s := t) hc hfits hmove
      refine ⟨t.withTx tx, run_bind hencode, ⟨rfl, rfl⟩, hsocket ▸ hsteady, hoptions, by omega, ?_⟩
      rw [txBuf_withTx, htake, socket_withTx, hsocket, htx, List.append_assoc]
    · rw [if_neg hmove]
      obtain ⟨tx, hencode⟩ :=
        encodeTx_panics (s := t) hbare hc hfits (Nat.lt_of_not_le hmove)
      intro r s'
      rw [run_bind hencode]
      exact fun h => by cases h
  · rw [if_neg hfits]
    obtain ⟨tx, e, hencode, htake⟩ := encodeTx_unfit (s := t) hc hdisc hfits
    by_cases hzero : cursor = 0
    · rw [if_pos hzero]
      refine ⟨t.withTx tx, ?_, ⟨rfl, rfl⟩, hsocket ▸ hsteady, hoptions, hc, ?_⟩
      · rw [run_bind hencode]
        dsimp only
        rw [if_neg (by omega)]
        rfl
      · rw [txBuf_withTx, htake, socket_withTx, hsocket, htx, List.append_nil]
    · rw [if_neg hzero]
      -- What is in the buffer is written, and the packet is encoded again.
      let u := (t.withTx tx).withSocket (t.socket.wrote (tx.bytes.take cursor))
      have hwrite : writeTx cursor (t.withTx tx) = .ok () u := by
        rw [writeTx_of_le hc]
        exact writeAll_of_ok (s := t.withTx tx) (hsocket ▸ hsteady).writeOk _
      have hu : u.options = t.options := rfl
      have hsteady' : u.socket.Steady := (hsocket ▸ hsteady : t.socket.Steady).wrote _
      by_cases hagain : p.Fits t.options.version maxPacketSize ∧
          (p.encoded t.options.version).length ≤ maxPacketSize
      · rw [if_pos hagain]
        obtain ⟨tx', hencode', htake'⟩ :=
          encodeTx_encoded (s := u) (Nat.zero_le _) hagain.1 hagain.2
        refine ⟨u.withTx tx', ?_, ⟨rfl, rfl⟩, hsteady', hoptions, hagain.2, ?_⟩
        · rw [run_bind hencode]
          dsimp only
          rw [if_pos (Nat.pos_of_ne_zero hzero), run_bind hwrite, run_bind hencode']
          rfl
        · rw [Nat.zero_add, List.take_zero, List.nil_append] at htake'
          have hwritten : u.socket.written = s.socket.written ++ [s.txBuf.bytes.take cursor] := by
            simp only [u, socket_withSocket, Socket.written_wrote, hsocket, htake, htx]
          rw [txBuf_withTx, socket_withTx, hwritten, ← hu, htake']
          simp
      · rw [if_neg hagain]
        intro r s'
        rw [run_bind hencode]
        dsimp only
        rw [if_pos (Nat.pos_of_ne_zero hzero), run_bind hwrite]
        by_cases hfits' : p.Fits t.options.version maxPacketSize
        · obtain ⟨tx', hencode'⟩ := encodeTx_panics (s := u) hbare (Nat.zero_le _) hfits'
            (Nat.lt_of_not_le fun hmove => hagain ⟨hfits', hmove⟩)
          rw [run_bind hencode']
          exact fun h => by cases h
        · obtain ⟨tx', e', hencode', -⟩ := encodeTx_unfit (s := u) (Nat.zero_le _) hdisc hfits'
          rw [run_bind hencode']
          exact fun h => by cases h

/-! ## The loop -/

/-- One of the packets has the id. -/
def Published (ps : List MqttPacket) (i : UInt16) : Prop :=
  ∃ p : Publish, MqttPacket.publish p ∈ ps ∧ p.packetId = some i

/-- A message is tracked under the id of its packet. -/
theorem Tracked.published {message : PublishMessage} {ps : List MqttPacket} {i : UInt16}
    (h : Tracked s s' message)
    (hrest : s''.inflightPublishes.get? i ≠ s'.inflightPublishes.get? i → Published ps i)
    (hi : s''.inflightPublishes.get? i ≠ s.inflightPublishes.get? i) :
    Published (publishPacket message (takenId s message) message.dup :: ps) i := by
  by_cases hs' : s''.inflightPublishes.get? i = s'.inflightPublishes.get? i
  · rw [hs', h.inflightPublishes, tracked] at hi
    rw [takenId]
    split at hi
    · rename_i hqos
      rw [Assoc.get?_set] at hi
      split at hi
      · rename_i heq
        subst heq
        rw [if_pos hqos]
        exact ⟨_, List.mem_cons_self, rfl⟩
      · exact absurd rfl hi
    · exact absurd rfl hi
  · obtain ⟨p, hp, hid⟩ := hrest hs'
    exact ⟨p, List.mem_cons_of_mem _ hp, hid⟩

/-- A batch that is not stopped packs the packets that fit. -/
theorem sendPublishBatchLoop_spec {messages : List PublishMessage} (hsteady : s.socket.Steady)
    (hc : cursor ≤ maxPacketSize)
    (hstops : ¬ Stops s.options.version maxPacketSize cursor
      (publishPackets s.nextPacketId messages)) (count : ℕ) :
    ∃ cursor' s', sendPublishBatchLoop messages cursor count s = .ok (cursor', count +
        (sendable s.options.version maxPacketSize (publishPackets s.nextPacketId messages)).length) s' ∧
      Packed s s' cursor cursor'
        ((sendable s.options.version maxPacketSize (publishPackets s.nextPacketId messages)).flatMap
          (MqttPacket.encoded s.options.version)) ∧
      ∀ i, s'.inflightPublishes.get? i ≠ s.inflightPublishes.get? i →
        Published (publishPackets s.nextPacketId messages) i := by
  induction messages generalizing cursor count s with
  | nil =>
    refine ⟨cursor, s, rfl, ⟨hsteady, rfl, hc, by simp [sendable, publishPackets]⟩, ?_⟩
    exact fun i hi => absurd rfl hi
  | cons message messages ih =>
    have hround := sendPublishBatchRound_spec hsteady hc message count
    rw [publishPackets_cons s message messages none] at hstops ⊢
    rw [Stops] at hstops
    rcases hplacing : placing s.options.version maxPacketSize cursor
      (publishPacket message (takenId s message) message.dup) with cursor' | _ | _
    all_goals
      simp only [hplacing] at hround hstops
    · -- The packet is packed.
      obtain ⟨s', hrun, htracked, hpacked⟩ := hround
      have hfits := fits_of_packed hplacing
      rw [← htracked.nextPacketId, ← hpacked.options] at hstops
      obtain ⟨cursor'', s'', hloop, hrest, hids⟩ := ih hpacked.steady hpacked.le hstops (count + 1)
      rw [hpacked.options, htracked.nextPacketId] at hloop hrest
      refine ⟨cursor'', s'', ?_, ?_, fun i hi => htracked.published ?_ hi⟩
      · rw [sendPublishBatchLoop, run_bind hrun, sendable,
          List.filter_cons_of_pos (by simpa using hfits), List.length_cons]
        rw [Nat.add_assoc, Nat.add_comm 1] at hloop
        exact hloop
      · rw [sendable, List.filter_cons_of_pos (by simpa using hfits), List.flatMap_cons]
        exact hpacked.trans hrest
      · rw [← htracked.nextPacketId]
        exact hids i
    · -- It is skipped.
      obtain ⟨s', hrun, htracked, hpacked⟩ := hround
      have hunfit := (unfit_of_skipped hplacing).2
      rw [← htracked.nextPacketId, ← hpacked.options] at hstops
      obtain ⟨cursor'', s'', hloop, hrest, hids⟩ := ih hpacked.steady hpacked.le hstops count
      rw [hpacked.options, htracked.nextPacketId] at hloop hrest
      refine ⟨cursor'', s'', ?_, ?_, fun i hi => htracked.published ?_ hi⟩
      · rw [sendPublishBatchLoop, run_bind hrun, sendable,
          List.filter_cons_of_neg (by simpa using hunfit)]
        exact hloop
      · rw [sendable, List.filter_cons_of_neg (by simpa using hunfit)]
        exact hpacked.trans hrest
      · rw [← htracked.nextPacketId]
        exact hids i
    · exact absurd trivial hstops

/-- A batch that is stopped does not return. -/
theorem sendPublishBatchLoop_stops {messages : List PublishMessage} (hsteady : s.socket.Steady)
    (hc : cursor ≤ maxPacketSize)
    (hstops : Stops s.options.version maxPacketSize cursor
      (publishPackets s.nextPacketId messages)) (count : ℕ)
    (r : ℕ × ℕ) (t : Conn E R S W maxPacketSize) :
    sendPublishBatchLoop messages cursor count s ≠ .ok r t := by
  induction messages generalizing cursor count s with
  | nil => exact hstops.elim
  | cons message messages ih =>
    intro hloop
    have hround := sendPublishBatchRound_spec hsteady hc message count
    rw [publishPackets_cons s message messages none, Stops] at hstops
    rw [sendPublishBatchLoop] at hloop
    obtain ⟨next, s', hrun, hloop⟩ := ok_of_bind hloop
    rcases hplacing : placing s.options.version maxPacketSize cursor
      (publishPacket message (takenId s message) message.dup) with cursor' | _ | _
    all_goals
      simp only [hplacing] at hround hstops
    · obtain ⟨_, hrun', htracked, hpacked⟩ := hround
      cases hrun'.symm.trans hrun
      rw [← htracked.nextPacketId, ← hpacked.options] at hstops
      exact ih hpacked.steady hpacked.le hstops _ hloop
    · obtain ⟨_, hrun', htracked, hpacked⟩ := hround
      cases hrun'.symm.trans hrun
      rw [← htracked.nextPacketId, ← hpacked.options] at hstops
      exact ih hpacked.steady hpacked.le hstops _ hloop
    · exact hround next s' hrun

/-! ## Batches -/

/-- A batch that is not stopped sends the packets that fit, and returns their number. -/
theorem sendPublishBatchDirect_spec {messages : List PublishMessage} (hsteady : s.socket.Steady)
    (hstops : ¬ Stops s.options.version maxPacketSize 0 (publishPackets s.nextPacketId messages))
    (now : ℕ) :
    ∃ s', sendPublishBatchDirect messages now s = .ok
        (sendable s.options.version maxPacketSize (publishPackets s.nextPacketId messages)).length s' ∧
      s'.socket.written.flatten = s.socket.written.flatten ++
        (sendable s.options.version maxPacketSize (publishPackets s.nextPacketId messages)).flatMap
          (MqttPacket.encoded s.options.version) ∧
      ∀ i, s'.inflightPublishes.get? i ≠ s.inflightPublishes.get? i →
        Published (publishPackets s.nextPacketId messages) i := by
  obtain ⟨cursor, t, hloop, hpacked, hids⟩ :=
    sendPublishBatchLoop_spec hsteady (Nat.zero_le _) hstops 0
  have hbytes := hpacked.bytes
  rw [List.take_zero, List.append_nil] at hbytes
  rw [Nat.zero_add] at hloop
  rw [sendPublishBatchDirect, run_bind hloop]
  dsimp only
  by_cases hpos : cursor > 0
  · let u := t.withSocket (t.socket.wrote (t.txBuf.bytes.take cursor))
    have hwrite : writeTx cursor t = .ok () u := by
      rw [writeTx_of_le hpacked.le]
      exact writeAll_of_ok hpacked.steady.writeOk _
    have hflush : flush u = .ok () (u.withSocket u.socket.flushed) :=
      flush_of_ok (hpacked.steady.wrote _).flushOk
    rw [if_pos hpos, run_bind hwrite, run_bind hflush]
    refine ⟨_, rfl, ?_, hids⟩
    rw [← hbytes]
    simp [u]
  · rw [if_neg hpos]
    refine ⟨t, rfl, ?_, hids⟩
    rw [Nat.eq_zero_of_not_pos hpos, List.take_zero, List.append_nil] at hbytes
    exact hbytes

/-- A batch that is stopped returns no count. -/
theorem sendPublishBatchDirect_stops {messages : List PublishMessage} (hsteady : s.socket.Steady)
    (hstops : Stops s.options.version maxPacketSize 0 (publishPackets s.nextPacketId messages))
    (now k : ℕ) (t : Conn E R S W maxPacketSize) :
    sendPublishBatchDirect messages now s ≠ .ok k t := by
  intro hbatch
  obtain ⟨next, s', hloop, -⟩ := ok_of_bind hbatch
  exact sendPublishBatchLoop_stops hsteady (Nat.zero_le _) hstops 0 next s' hloop

/-- If a batch returns a count, it is that of its messages, the packets of all of them have been
written, each of them a frame, one after the other, and whatever has come into the in-flight table
is the id of one of them. -/
def AllOrError (s : Conn E R S W maxPacketSize) (messages : List PublishMessage) (now : ℕ) : Prop :=
  ∀ k s', sendPublishBatchDirect messages now s = .ok k s' →
    k = messages.length ∧
    (∀ p ∈ publishPackets s.nextPacketId messages, framing.IsFrame (p.wire s.options.version)) ∧
    s'.socket.written.flatten = s.socket.written.flatten ++
      (publishPackets s.nextPacketId messages).flatMap (MqttPacket.wire s.options.version) ∧
    ∀ i, s'.inflightPublishes.get? i ≠ s.inflightPublishes.get? i →
      Published (publishPackets s.nextPacketId messages) i

/-- A batch is sent completely, or returns no count, exactly if all of its packets fit into the
buffer and have a remaining length of at most four bytes, or one of them stops it. -/
theorem allOrError_iff (hsteady : s.socket.Steady) (messages : List PublishMessage) (now : ℕ) :
    AllOrError s messages now ↔
      (∀ p ∈ publishPackets s.nextPacketId messages,
        p.Fits s.options.version maxPacketSize ∧
          (p.content s.options.version).length ≤ 268435455) ∨
      Stops s.options.version maxPacketSize 0 (publishPackets s.nextPacketId messages) := by
  by_cases hstops :
      Stops s.options.version maxPacketSize 0 (publishPackets s.nextPacketId messages)
  · refine iff_of_true (fun k t hbatch => ?_) (.inr hstops)
    exact absurd hbatch (sendPublishBatchDirect_stops hsteady hstops now k t)
  obtain ⟨s', hbatch, hwritten, hids⟩ := sendPublishBatchDirect_spec hsteady hstops now
  rw [or_iff_left hstops]
  constructor
  · intro hall p hp
    obtain ⟨hcount, hframes, -⟩ := hall _ s' hbatch
    rw [← length_publishPackets s.nextPacketId] at hcount
    have hfits := List.length_filter_eq_length_iff.mp hcount p hp
    have hshort := isFrame_wire_iff.mp (hframes p hp)
    exact ⟨by simpa using hfits, by omega⟩
  · intro hfits k t hbatch'
    cases hbatch.symm.trans hbatch'
    have hall : sendable s.options.version maxPacketSize (publishPackets s.nextPacketId messages) =
        publishPackets s.nextPacketId messages :=
      List.filter_eq_self.mpr fun p hp => by simpa using (hfits p hp).1
    rw [hall] at hwritten ⊢
    refine ⟨length_publishPackets _ _, fun p hp => isFrame_wire (by have := (hfits p hp).2; omega),
      ?_, hids⟩
    rw [hwritten, List.append_cancel_left_eq]
    apply List.flatMap_congr
    intro p hp
    exact encoded_of_short (by have := (hfits p hp).2; omega)

/-! ## Batches that are stopped -/

section
variable {version : MqttVersion} {size : ℕ} {p : MqttPacket} {ps : List MqttPacket}

theorem pos_of_packed (h : placing version size cursor p = .packed cursor') : 0 < cursor' := by
  have hpos : 0 < (p.encoded version).length := by
    rw [MqttPacket.encoded, length_encodedBytes, headerLen]
    omega
  rw [placing] at h
  split at h
  · split at h
    · cases h
      omega
    · cases h
  · split at h
    · cases h
    · split at h
      · cases h
        exact hpos
      · cases h

variable (cursor) in
/-- A packet that fits and is not too long is packed. -/
theorem packed_of_fits (hfits : p.Fits version size)
    (hshort : (p.content version).length ≤ 268435455) :
    ∃ cursor', placing version size cursor p = .packed cursor' := by
  have hlen : (p.encoded version).length ≤ p.room version := by
    rw [encoded_of_short (by omega)]
    exact length_wire_le_room (by omega)
  rw [placing]
  by_cases hbehind : p.Fits version (size - cursor)
  · rw [if_pos hbehind, if_pos (hlen.trans hbehind.2)]
    exact ⟨_, rfl⟩
  · have hpos : cursor ≠ 0 := by
      rintro rfl
      exact hbehind hfits
    rw [if_neg hbehind, if_neg hpos, if_pos ⟨hfits, hlen.trans hfits.2⟩]
    exact ⟨_, rfl⟩

/-- Behind something that is packed, a packet that does not fit stops the batch. -/
theorem stops_behind (hp : p ∈ ps) (hunfit : ¬ p.Fits version size) (hpos : 0 < cursor) :
    Stops version size cursor ps := by
  induction ps generalizing cursor with
  | nil => cases hp
  | cons q ps ih =>
    rw [Stops]
    rcases hplacing : placing version size cursor q with cursor' | _ | _
    · refine ih ((List.mem_cons.mp hp).resolve_left ?_) (pos_of_packed hplacing)
      rintro rfl
      exact hunfit (fits_of_packed hplacing)
    · exact absurd (unfit_of_skipped hplacing).1 (Nat.ne_of_gt hpos)
    · trivial

/-- Without packets that are too long, nothing else stops it. -/
theorem exists_unfit_of_stops (hshort : ∀ p ∈ ps, (p.content version).length ≤ 268435455)
    (hpos : 0 < cursor) (h : Stops version size cursor ps) :
    ∃ q ∈ ps, ¬ q.Fits version size := by
  induction ps generalizing cursor with
  | nil => exact h.elim
  | cons q ps ih =>
    by_cases hfits : q.Fits version size
    · obtain ⟨cursor', hplacing⟩ := packed_of_fits cursor hfits (hshort q (by simp))
      rw [Stops, hplacing] at h
      obtain ⟨q', hq', hunfit⟩ :=
        ih (fun p hp => hshort p (by simp [hp])) (pos_of_packed hplacing) h
      exact ⟨q', by simp [hq'], hunfit⟩
    · exact ⟨q, by simp, hfits⟩

/-- Without packets that are too long, a batch is stopped exactly if a packet that does not fit
comes behind one that does. -/
theorem stops_iff (hshort : ∀ p ∈ ps, (p.content version).length ≤ 268435455) :
    Stops version size 0 ps ↔
      ∃ p q, [p, q].Sublist ps ∧ p.Fits version size ∧ ¬ q.Fits version size := by
  induction ps with
  | nil => simp [Stops]
  | cons r ps ih =>
    have hshort' : ∀ p ∈ ps, (p.content version).length ≤ 268435455 :=
      fun p hp => hshort p (by simp [hp])
    by_cases hfits : r.Fits version size
    · obtain ⟨cursor, hplacing⟩ := packed_of_fits 0 hfits (hshort r (by simp))
      rw [Stops, hplacing]
      constructor
      · intro h
        obtain ⟨q, hq, hunfit⟩ := exists_unfit_of_stops hshort' (pos_of_packed hplacing) h
        exact ⟨r, q, (List.singleton_sublist.mpr hq).cons_cons r, hfits, hunfit⟩
      · rintro ⟨p, q, hsub, -, hunfit⟩
        have hq : q ∈ ps := by
          rcases List.mem_cons.mp (hsub.subset (by simp : q ∈ [p, q])) with rfl | hq
          · exact absurd hfits hunfit
          · exact hq
        exact stops_behind hq hunfit (pos_of_packed hplacing)
    · have hplacing : placing version size 0 r = .skipped := by
        rw [placing, if_neg (by rwa [Nat.sub_zero]), if_pos rfl]
      rw [Stops, hplacing]
      rw [ih hshort']
      constructor
      · rintro ⟨p, q, hsub, hp, hq⟩
        exact ⟨p, q, hsub.cons r, hp, hq⟩
      · rintro ⟨p, q, hsub, hp, hq⟩
        refine ⟨p, q, ?_, hp, hq⟩
        rcases List.sublist_cons_iff.mp hsub with hsub | ⟨rest, heq, hrest⟩
        · exact hsub
        · cases heq
          exact absurd hp hfits

end

end

/-- A new event loop with a buffer of 64 bytes, connected over a transport that does not fail. -/
def freshConn : Conn Unit ℕ ℕ Unit 64 :=
  { EventLoop.new (.new "c" fun _ => 0) () 0 with socket := .sending [] }

/-- A message that does not fit into the buffer. -/
def longMessage : PublishMessage :=
  { PublishMessage.new (String.ofList (List.replicate 64 'a')) [] with qos := .atLeastOnce }

/-- A batch of two messages. -/
theorem allOrError_two :
    AllOrError freshConn [.new "a" [1], { PublishMessage.new "b" [2] with qos := .atLeastOnce }] 0 :=
  (allOrError_iff (Socket.steady_sending []) _ 0).mpr (.inl (by decide +kernel))

/-- A message that does not fit is skipped. -/
theorem message_skipped : ¬ ∀ (s : Conn Unit ℕ ℕ Unit 64) (messages : List PublishMessage) (now : ℕ),
    s.socket.Steady → AllOrError s messages now := by
  intro h
  obtain ⟨k, s', hbatch, hk⟩ := exists_ok (x := sendPublishBatchDirect [longMessage] 0)
    (s := freshConn) (f := fun k _ => k) (b := 0) (by decide +kernel)
  have hcount := (h freshConn [longMessage] 0 (Socket.steady_sending []) k s' hbatch).1
  rw [hk] at hcount
  cases hcount

end MqttEngine.Tokio
