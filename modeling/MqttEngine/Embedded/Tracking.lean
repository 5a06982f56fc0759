import MqttEngine.Embedded.OutgoingFrames

/-!
# The publishes in the table have been sent

A publish of QoS 1 or 2 is entered into the in-flight table before its packet is encoded. If
the packet then does not fit, the entry stays, although nothing has been sent. A batch that
fails leaves the entries of all packets that it has collected, a stream whose topic is
refused leaves its own, and so does a stream that is given up. `Call.Safe` leaves out the
calls that fail in one of these ways, and `tracked_sent` says that in all other runs each
outbound entry belongs to a PUBLISH that has been sent, or that is just being streamed.

The connection is the one that was last established: `connect` clears the table when the
broker accepts, and the buffers are counted from there.

## Main definitions

* `sentIds` — the ids of the PUBLISH packets in what has been handed to `send`.
* `InProgress` — a streamed PUBLISH of which a part is still to come.
* `Call.Safe` — the call does not fail after it has reserved an id.

## Main results

* `accounted_exec` — what a call adds to the table, it has sent.
* `tracked_sent` — the outbound entries belong to packets that have been sent.
* `tracked_unsent` — a publish that is too large for the transmit buffer.
-/

namespace MqttEngine
open Checked MqttClient ClientSystem

/-! ## What has been sent -/

/-- The bytes are those of whole packets. -/
structure Packets (version : MqttVersion) (bytes : List UInt8) (ps : List MqttPacket) : Prop where
  bytes_eq : bytes = ps.flatMap (MqttPacket.wire version)
  whole : ∀ p ∈ ps, (p.content version).length < 128 ^ 4

/-- The packets are determined by their bytes up to what they look like on the wire. -/
theorem Packets.split {version : MqttVersion} {bytes : List UInt8} {ps : List MqttPacket}
    (h : Packets version bytes ps) : (framing.split bytes).1 = ps.map (MqttPacket.wire version) := by
  have hframes : ∀ f ∈ ps.map (MqttPacket.wire version), framing.IsFrame f := by
    intro f hf
    obtain ⟨p, hp, rfl⟩ := List.mem_map.mp hf
    exact isFrame_wire (h.whole p hp)
  have hsplit := Framing.split_flatten hframes []
  rw [List.append_nil, Framing.split_nil, List.append_nil, ← List.flatMap_def, ← h.bytes_eq] at hsplit
  rw [hsplit]

/-- The ids of the PUBLISH packets that have been handed over, in one buffer or in several that
follow each other. -/
def sentIds (version : MqttVersion) (chunks : List (List UInt8)) : Set UInt16 :=
  { i | ∃ pre mid post ps, chunks = pre ++ (mid ++ post) ∧ Packets version mid.flatten ps ∧
    i ∈ publishedIds ps }

/-- A PUBLISH with the id `i` has begun, and `missing` bytes of its payload are to come. -/
def InProgress (version : MqttVersion) (chunks : List (List UInt8)) (i : UInt16) (missing : ℕ) :
    Prop :=
  ∃ pre mid topic qos part, chunks = pre ++ mid ∧ qos ≠ .atMostOnce ∧
    (streamContent version topic (some i)).length + (part.length + missing) < 128 ^ 4 ∧
    mid.flatten =
      streamHeader qos ((streamContent version topic (some i)).length + (part.length + missing)) ++
        (streamContent version topic (some i) ++ part)

section
variable {version : MqttVersion} {chunks new : List (List UInt8)} {i : UInt16} {missing : ℕ}

theorem sentIds_append_left (version : MqttVersion) (chunks new : List (List UInt8)) :
    sentIds version chunks ⊆ sentIds version (chunks ++ new) := by
  intro i hi
  obtain ⟨pre, mid, post, ps, rfl, hps, hi⟩ := hi
  exact ⟨pre, mid, post ++ new, ps, by simp, hps, hi⟩

theorem sentIds_append_right (version : MqttVersion) (chunks new : List (List UInt8)) :
    sentIds version new ⊆ sentIds version (chunks ++ new) := by
  intro i hi
  obtain ⟨pre, mid, post, ps, rfl, hps, hi⟩ := hi
  exact ⟨chunks ++ pre, mid, post, ps, by simp, hps, hi⟩

/-- The ids of packets that have been handed over buffer by buffer. -/
theorem publishedIds_subset_sentIds {packets : List (List MqttPacket)}
    (hwhole : ∀ p ∈ packets.flatten, (p.content version).length < 128 ^ 4) :
    publishedIds packets.flatten ⊆
      sentIds version (packets.map fun ps => ps.flatMap (MqttPacket.wire version)) := by
  intro i hi
  refine ⟨[], packets.map fun ps => ps.flatMap (MqttPacket.wire version), [], packets.flatten,
    by simp, ⟨?_, hwhole⟩, hi⟩
  simp [List.flatMap_def, List.map_flatten, List.flatten_flatten, Function.comp_def]

/-- An id that has been sent was sent in a PUBLISH, which `split` finds behind some buffer. -/
theorem exists_publish_of_mem_sentIds (h : i ∈ sentIds version chunks) :
    ∃ mid p, mid <:+: chunks ∧
      (MqttPacket.publish p).wire version ∈ (framing.split mid.flatten).1 := by
  obtain ⟨pre, mid, post, ps, rfl, hps, p, hp, -⟩ := h
  refine ⟨mid, p, ⟨pre, post, List.append_assoc _ _ _⟩, ?_⟩
  rw [hps.split]
  exact List.mem_map.mpr ⟨_, hp, rfl⟩

/-- Payload that is handed over is no longer missing. -/
theorem InProgress.append (h : InProgress version chunks i missing)
    (hnew : new.flatten.length ≤ missing) :
    InProgress version (chunks ++ new) i (missing - new.flatten.length) := by
  obtain ⟨pre, mid, topic, qos, part, rfl, hqos, hlen, hmid⟩ := h
  have hrest : (part ++ new.flatten).length + (missing - new.flatten.length) =
      part.length + missing := by
    rw [List.length_append]
    omega
  refine ⟨pre, mid ++ new, topic, qos, part ++ new.flatten, by simp, hqos, ?_, ?_⟩
  · rw [hrest]
    exact hlen
  · rw [hrest, List.flatten_append, hmid]
    simp only [List.append_assoc]

/-- The packet of a stream that is complete. -/
def streamedPublish (topic : String) (payload : List UInt8) (qos : QoS) (i : UInt16) : Publish :=
  { Publish.new topic payload qos with packetId := some i }

theorem content_streamedPublish {topic : String} {payload : List UInt8} {qos : QoS}
    (hqos : qos ≠ .atMostOnce) :
    (MqttPacket.publish (streamedPublish topic payload qos i)).content version =
      streamContent version topic (some i) ++ payload := by
  have hprops : propertiesBytes [] = [0] := by decide +kernel
  simp [MqttPacket.content, streamContent, streamedPublish, Publish.new, v5PropertiesBytes, hprops,
    hqos, BoundedVec.toList_empty]

/-- A stream has the same bytes as the packet. -/
theorem wire_streamedPublish {topic : String} {payload : List UInt8} {qos : QoS}
    (hqos : qos ≠ .atMostOnce) :
    (MqttPacket.publish (streamedPublish topic payload qos i)).wire version =
      streamHeader qos ((streamContent version topic (some i)).length + payload.length) ++
        (streamContent version topic (some i) ++ payload) := by
  have hfirst : (MqttPacket.publish (streamedPublish topic payload qos i)).first =
      streamFlags qos := by
    cases qos <;> rfl
  rw [MqttPacket.wire, frameBytes, content_streamedPublish hqos, hfirst, streamHeader,
    List.length_append]
  rfl

/-- A stream of which nothing is missing has been sent. -/
theorem InProgress.sent (h : InProgress version chunks i 0) : i ∈ sentIds version chunks := by
  obtain ⟨pre, mid, topic, qos, part, rfl, hqos, hlen, hmid⟩ := h
  rw [Nat.add_zero] at hlen hmid
  refine ⟨pre, mid, [], [.publish (streamedPublish topic part qos i)], by simp, ⟨?_, ?_⟩, ?_⟩
  · rw [List.flatMap_singleton, wire_streamedPublish hqos, hmid]
  · intro p hp
    rw [List.mem_singleton.mp hp, content_streamedPublish hqos, List.length_append]
    exact hlen
  · exact publishedIds_singleton hqos rfl

end

section
variable {E : Type} {bufSize maxInflight : ℕ}

/-! ## Calls that lose no id -/

section
variable {s : MqttClient E bufSize maxInflight} {topic : String} {payload : List UInt8} {qos : QoS}

theorem publishSafe_of_full (h : reserve s.inflight s.nextPacketId qos = none) :
    PublishSafe s topic payload qos := by
  simp [PublishSafe, h]

theorem publishSafe_of_untracked {r : InflightQueue maxInflight × UInt16}
    (h : reserve s.inflight s.nextPacketId qos = some (none, r)) :
    PublishSafe s topic payload qos := by
  simp [PublishSafe, h]

theorem publishSafe_iff_fits {id : UInt16} {r : InflightQueue maxInflight × UInt16}
    (h : reserve s.inflight s.nextPacketId qos = some (some id, r)) :
    PublishSafe s topic payload qos ↔ (s.state = .connected →
      (MqttPacket.publish (publishPacket topic payload qos (some id))).Fits
        s.options.version bufSize) := by
  rw [PublishSafe, h]

end

instance (s : MqttClient E bufSize maxInflight) (topic : String) (payload : List UInt8) (qos : QoS) :
    Decidable (PublishSafe s topic payload qos) :=
  match h : reserve s.inflight s.nextPacketId qos with
  | none => isTrue (publishSafe_of_full h)
  | some (none, _) => isTrue (publishSafe_of_untracked h)
  | some (some _, _) => decidable_of_iff _ (publishSafe_iff_fits h).symm

instance decidableBatchSafe (version : MqttVersion) (size : ℕ) :
    (messages : List PublishMessage) → (cursor : ℕ) → (unsent : Bool) →
      (inflight : InflightQueue maxInflight) → (next : UInt16) →
      Decidable (BatchSafe version size messages cursor unsent inflight next)
  | [], _, _, _, _ => isTrue trivial
  | msg :: messages, cursor, unsent, inflight, next => by
    have := decidableBatchSafe version size messages
    unfold BatchSafe
    split <;> infer_instance

instance (s : MqttClient E bufSize maxInflight) (messages : List PublishMessage) :
    Decidable (BatchCallSafe s messages) := inferInstanceAs (Decidable (_ → _))

/-- The call does not fail after it has reserved an id. -/
def ClientCall.Safe (c : MqttClient E bufSize maxInflight) : ClientCall → Prop
  | .publish topic payload qos now =>
    ClientCall.Whole c (.publish topic payload qos now) ∧ PublishSafe c topic payload qos
  | .publishBatch messages now =>
    ClientCall.Whole c (.publishBatch messages now) ∧ BatchCallSafe c messages
  | .beginStreamPublish topic total qos now =>
    qos = .atMostOnce ∨ ClientCall.Whole c (.beginStreamPublish topic total qos now)
  | _ => True

instance (c : MqttClient E bufSize maxInflight) : (call : ClientCall) → Decidable (call.Safe c)
  | .publish _ _ _ _ => inferInstanceAs (Decidable (_ ∧ _))
  | .publishBatch _ _ => inferInstanceAs (Decidable (_ ∧ _))
  | .beginStreamPublish _ _ _ _ => inferInstanceAs (Decidable (_ ∨ _))
  | .connect _ | .subscribe _ _ | .unsubscribe _ _ | .poll _ | .pollBatch _ | .disconnect =>
    isTrue trivial

/-- The call does not fail after it has reserved an id, and does not give up a stream that has
one. -/
def Call.Safe (s : ClientSystem E bufSize maxInflight) : Call E bufSize → Prop
  | .client call => call.Safe s.client
  | .writer .finish | .writer .drop =>
    ∀ writer ∈ s.writer, s.streamId.isSome → writer.bytesRemaining = 0
  | _ => True

instance (s : ClientSystem E bufSize maxInflight) : (call : Call E bufSize) → Decidable (call.Safe s)
  | .client call => inferInstanceAs (Decidable (call.Safe s.client))
  | .writer .finish | .writer .drop => inferInstanceAs (Decidable (∀ writer ∈ s.writer, _ → _))
  | .writer (.writeChunk _) | .writer (.writeDmaVectored _) | .receive _ => isTrue trivial

/-! ## What a call adds to the table -/

/-- From `c` to `c'` the ids that have come into the table have been sent. -/
structure Accounted (c c' : MqttClient E bufSize maxInflight) : Prop where
  options : c'.options = c.options
  sendResults : c'.transport.sendResults = []
  ids : c'.inflight.outboundIds ⊆
    c.inflight.outboundIds ∪ sentIds c.options.version (newlySent c c')

variable {c c' : MqttClient E bufSize maxInflight}

theorem MqttClient.Moves.accounted {P : MqttPacket → Prop} (h : Moves P c c')
    (hsend : c.transport.sendResults = []) : Accounted c c' where
  options := h.options
  sendResults := h.sendResults hsend
  ids := h.ids.trans Set.subset_union_left

theorem MqttClient.Handed.accounted {packets : List (List MqttPacket)}
    (h : Handed c c' packets ∅) : Accounted c c' where
  options := h.options
  sendResults := h.sendResults
  ids := by
    have hnew : newlySent c c' =
        packets.map fun ps => ps.flatMap (MqttPacket.wire c.options.version) := by
      rw [newlySent, h.sent, List.drop_left]
    refine h.ids.trans ?_
    rw [Set.union_empty, hnew]
    exact Set.union_subset_union_right _ (publishedIds_subset_sentIds h.whole)

/-- Beginning a stream adds no id but its own. -/
theorem MqttClient.Begun.ids {topic : String} {total : ℕ} {qos : QoS} {id : Option UInt16}
    (h : Begun c c' topic total qos id) :
    c'.inflight.outboundIds ⊆ c.inflight.outboundIds ∪ { i | id = some i } := by
  obtain ⟨inflight, next, hreserve, hinflight⟩ := h.reserved
  rw [hinflight]
  exact (reserve_ids hreserve).2

theorem MqttClient.Begun.newlySent {topic : String} {total : ℕ} {qos : QoS} {id : Option UInt16}
    (h : Begun c c' topic total qos id) :
    ClientSystem.newlySent c c' =
      [streamHeader qos ((streamContent c.options.version topic id).length + total),
        streamContent c.options.version topic id] := by
  rw [ClientSystem.newlySent, h.sent, List.drop_left]

theorem accounted_of_moves {α : Type} {x : ClientM E bufSize maxInflight α} {P : MqttPacket → Prop}
    (hx : Preserves (Moves P c) x) (hsend : c.transport.sendResults = []) :
    Ends (do let _ ← x; pure none : ClientM E bufSize maxInflight (Option MqttStreamWriter)) c
      (fun writer c' => writer = none ∧ Accounted c c') fun _ c' => Accounted c c' := by
  apply Ends.bind
  exact (hx c .refl).mono (fun _ _ h => ⟨rfl, h.accounted hsend⟩) fun _ _ h => h.accounted hsend

/-- What a call adds to the table, it has sent, unless it is a stream that has begun. That holds also
for a call that panics. -/
theorem accounted_exec (hsend : c.transport.sendResults = []) {call : ClientCall}
    (hsafe : call.Safe c) :
    Ends call.exec c
      (fun writer c' => (writer = none ∧ Accounted c c') ∨
        ∃ topic total qos now id, call = .beginStreamPublish topic total qos now ∧
          writer = some ⟨total, total⟩ ∧
          Begun c c' topic total qos id)
      fun _ c' => Accounted c c' := by
  have hmoves {α : Type} {x : ClientM E bufSize maxInflight α} {P : MqttPacket → Prop}
      (hx : Preserves (Moves P c) x)
      {R : Option MqttStreamWriter → MqttClient E bufSize maxInflight → Prop} :
      Ends (do let _ ← x; pure none : ClientM E bufSize maxInflight (Option MqttStreamWriter)) c
        (fun writer c' => (writer = none ∧ Accounted c c') ∨ R writer c')
        fun _ c' => Accounted c c' :=
    (accounted_of_moves hx hsend).mono (fun _ _ h => .inl h) fun _ _ h => h
  cases call with
  | connect now => exact hmoves (moves_connect (P := fun _ => True) now trivial)
  | publish topic payload qos now =>
    obtain ⟨hwhole, hsafe⟩ := hsafe
    apply Ends.bind
    refine (publish_ends hsend topic payload qos now hwhole).mono ?_ ?_
    · intro _ c' hhanded
      obtain ⟨p, hhanded⟩ := hhanded
      exact .inl ⟨rfl, hhanded.accounted⟩
    · intro _ c' hhanded
      obtain ⟨lost, hhanded, hlost⟩ := hhanded
      rw [hlost hsafe] at hhanded
      exact hhanded.accounted
  | publishBatch messages now =>
    obtain ⟨hwhole, hsafe⟩ := hsafe
    apply Ends.bind
    refine (publishBatch_ends hsend messages now hwhole).mono ?_ ?_
    · intro _ c' hhanded
      obtain ⟨packets, hhanded⟩ := hhanded
      exact .inl ⟨rfl, hhanded.accounted⟩
    · intro _ c' hhanded
      obtain ⟨packets, lost, hhanded, hlost⟩ := hhanded
      rw [hlost hsafe] at hhanded
      exact hhanded.accounted
  | beginStreamPublish topic total qos now =>
    apply Ends.bind
    refine (beginStreamPublish_ends hsend topic total qos now).mono ?_ ?_
    · rintro writer c' ⟨rfl, id, hbegun, -⟩
      exact .inr ⟨topic, total, qos, now, id, rfl, rfl, hbegun⟩
    · rintro _ c' (hhanded | ⟨id, hrefused⟩)
      · exact hhanded.accounted
      · obtain ⟨inflight, next, hreserve, hinflight⟩ := hrefused.reserved
        rcases hsafe with hqos | hwhole
        · refine ⟨hrefused.options, hrefused.sendResults, ?_⟩
          rw [reserve, if_pos hqos] at hreserve
          cases hreserve
          rw [hinflight]
          exact Set.subset_union_left
        · exact absurd hwhole hrefused.not_whole
  | subscribe topics now =>
    exact hmoves (moves_subscribe (P := fun _ => True) topics now fun _ _ => trivial)
  | unsubscribe topics now =>
    exact hmoves (moves_unsubscribe (P := fun _ => True) topics now fun _ _ => trivial)
  | poll now => exact hmoves (moves_poll (P := fun _ => True) now trivial fun _ _ => trivial)
  | pollBatch maxEvents =>
    exact hmoves (moves_pollBatch (P := fun _ => True) maxEvents fun _ _ => trivial)
  | disconnect => exact hmoves (moves_disconnect (P := fun _ => True) trivial)

/-- A connection that the broker accepts starts with an empty table. -/
theorem connect_clears (now : ℕ) :
    Ends (connect now) c (fun _ c' => c'.inflight = .empty) fun _ _ => True := by
  have hrefuse (e : MqttError E) (s : MqttClient E bufSize maxInflight) :
      Ends (do setState .disconnected; fail e : ClientM E bufSize maxInflight Unit) s
        (fun _ c' => c'.inflight = .empty) fun _ _ => True :=
    Ends.bind_any fun _ _ => trivial
  apply Ends.bind_any
  intro _ _
  apply Ends.bind_any
  intro _ _
  apply Ends.bind_any
  intro _ _
  apply Ends.bind_any
  intro _ _
  apply Ends.bind_any
  intro readLen s
  split
  · exact hrefuse _ s
  · apply Ends.bind_any
    intro packet s
    split
    · split
      · exact Ends.modify rfl
      · exact hrefuse _ s
    · exact hrefuse _ s

theorem inflight_send (q : InflightQueue maxInflight) (bytes : List UInt8) :
    Preserves (·.inflight = q) (send bytes : ClientM E bufSize maxInflight Unit) := by
  intro s hs
  rw [Ends, send]
  rcases s.transport.sendResults with _ | ⟨_ | e, rest⟩
  · exact hs
  · exact hs
  · exact hs

/-! ## Runs -/

/-- The outbound entries of the table belong to packets that have been sent, or to the stream
that is being written. -/
structure Tracked (s : ClientSystem E bufSize maxInflight) : Prop where
  sendResults : s.client.transport.sendResults = []
  ids : ∀ i ∈ s.client.inflight.outboundIds, i ∈ sentIds s.client.options.version s.session ∨
    (s.writer.isSome ∧ s.streamId = some i)
  stream : ∀ writer i, s.writer = some writer → s.streamId = some i →
    InProgress s.client.options.version s.session i writer.bytesRemaining

/-- A call on the client that leaves no writer keeps the invariant. -/
theorem tracked_of_accounted {s t : ClientSystem E bufSize maxInflight} (h : Tracked s)
    (hwriter : s.writer = none) (hclient : Accounted s.client t.client) (hwriter' : t.writer = none)
    (hsession : t.session = s.session ++ newlySent s.client t.client ∨
      t.client.inflight = .empty) : Tracked t := by
  refine ⟨hclient.sendResults, ?_, by simp [hwriter']⟩
  intro i hi
  rcases hsession with hsession | hempty
  · rw [hclient.options, hsession]
    rcases hclient.ids hi with hi | hi
    · rcases h.ids i hi with hi | ⟨halive, -⟩
      · exact .inl (sentIds_append_left _ _ _ hi)
      · rw [hwriter] at halive
        cases halive
    · exact .inl (sentIds_append_right _ _ _ hi)
  · rw [hempty, InflightQueue.outboundIds_empty] at hi
    cases hi

/-- Beginning a stream keeps the invariant. -/
theorem tracked_of_begun {s : ClientSystem E bufSize maxInflight} (h : Tracked s)
    (hwriter : s.writer = none) {topic : String} {total : ℕ} {qos : QoS} {now : ℕ}
    {id : Option UInt16} {client : MqttClient E bufSize maxInflight}
    (hsafe : (ClientCall.beginStreamPublish topic total qos now).Safe s.client)
    (hbegun : Begun s.client client topic total qos id) :
    Tracked (s.afterClient (.beginStreamPublish topic total qos now) true (some ⟨total, total⟩)
      client) := by
  obtain ⟨inflight, next, hreserve, -⟩ := hbegun.reserved
  have hid := reserve_id hreserve
  refine ⟨hbegun.sendResults, ?_, ?_⟩
  · intro i hi
    dsimp only [afterClient] at hi ⊢
    rw [hbegun.options]
    rcases hbegun.ids hi with hi | hi
    · rcases h.ids i hi with hi | ⟨halive, -⟩
      · exact .inl (sentIds_append_left _ _ _ hi)
      · rw [hwriter] at halive
        cases halive
    · right
      rw [← hid]
      exact ⟨rfl, hi⟩
  · intro writer i hw hi
    dsimp only [afterClient] at hw hi ⊢
    cases hw
    rw [← hid] at hi
    subst hi
    have hqos : qos ≠ .atMostOnce := (reserve_ids hreserve).1 i rfl
    have hwhole := hsafe.resolve_left hqos hbegun.connected
    rw [hreserve] at hwhole
    refine ⟨s.session, _, topic, qos, [], rfl, hqos, ?_, ?_⟩
    · rw [hbegun.options, List.length_nil, Nat.zero_add]
      exact hwhole.2
    · rw [hbegun.options, hbegun.newlySent]
      simp

/-- A call keeps the invariant. -/
theorem tracked_step {s t : ClientSystem E bufSize maxInflight} {call : Call E bufSize}
    (h : Tracked s) (hsafe : call.Safe s) (hstep : s.step call = some t) : Tracked t := by
  cases call with
  | client call =>
    obtain ⟨hwriter, hstep⟩ := step_client hstep
    have hexec := accounted_exec h.sendResults hsafe
    rcases hstep with ⟨writer, client, hrun, rfl⟩ | ⟨e, client, hrun, rfl⟩
    · rcases hexec.ok_of hrun with ⟨rfl, haccounted⟩ | ⟨topic, total, qos, now, id, rfl, rfl, hbegun⟩
      · cases call
        case connect now =>
          have hclear : client.inflight = .empty := by
            have hexec : Ends (ClientCall.connect now).exec s.client
                (fun _ c' => c'.inflight = .empty) fun _ _ => True :=
              Ends.bind ((connect_clears now).mono (fun _ _ h => h) fun _ _ _ => trivial)
            exact hexec.ok_of hrun
          exact tracked_of_accounted h hwriter haccounted rfl (.inr hclear)
        all_goals exact tracked_of_accounted h hwriter haccounted rfl (.inl rfl)
      · exact tracked_of_begun h hwriter hsafe hbegun
    · have haccounted := hexec.error_of hrun
      cases call
      all_goals exact tracked_of_accounted h hwriter haccounted rfl (.inl rfl)
  | writer call =>
    obtain ⟨writer, hwriter, hstep⟩ := step_writer hstep
    have hexec := writer_exec h.sendResults writer call
    -- A writer that ends leaves a packet that is complete, or one without an id.
    have hended (hcall : call = .finish ∨ call = .drop) (i : UInt16) (hi : s.streamId = some i) :
        i ∈ sentIds s.client.options.version s.session := by
      have hdone : writer.bytesRemaining = 0 := by
        rcases hcall with rfl | rfl
        · exact hsafe writer hwriter (by rw [hi]; rfl)
        · exact hsafe writer hwriter (by rw [hi]; rfl)
      have hstream := h.stream writer i hwriter hi
      rw [hdone] at hstream
      exact hstream.sent
    -- Whatever is sent, the table stays, and the stream is still alive or has been sent.
    have hids {left : Option MqttStreamWriter} {client : MqttClient E bufSize maxInflight}
        (hinflight : client.inflight = s.client.inflight)
        (hoptions : client.options = s.client.options)
        (hleft : left = none → call = .finish ∨ call = .drop) :
        ∀ i ∈ client.inflight.outboundIds,
          i ∈ sentIds client.options.version (s.session ++ newlySent s.client client) ∨
            (left.isSome ∧ s.streamId = some i) := by
      intro i hi
      rw [hinflight] at hi
      rw [hoptions]
      rcases h.ids i hi with hi | ⟨-, hi⟩
      · exact .inl (sentIds_append_left _ _ _ hi)
      · rcases left with _ | left
        · exact .inl (sentIds_append_left _ _ _ (hended (hleft rfl) i hi))
        · exact .inr ⟨rfl, hi⟩
    have hkept := preserves_writer (inflight_send s.client.inflight) writer call s.client rfl
    rcases hstep with ⟨left, client, hrun, rfl⟩ | ⟨e, client, hrun, rfl⟩
    · obtain ⟨new, hnew, hleft⟩ := hexec.ok_of hrun
      refine ⟨hnew.sendResults, hids (hkept.ok_of hrun) hnew.options ?_, ?_⟩
      · intro hnone
        dsimp only [afterWriter] at hnone
        subst hnone
        exact hleft.2
      · intro writer' i hw hi
        dsimp only [afterWriter] at hw hi ⊢
        subst hw
        obtain ⟨hle, hremaining⟩ := hleft
        rw [hnew.options, hnew.newlySent, hremaining]
        exact (h.stream writer i hwriter hi).append hle
    · have hnew := hexec.error_of hrun
      refine ⟨hnew.sendResults, hids (hkept.error_of hrun) hnew.options ?_, ?_⟩
      · intro hnone
        cases call
        case finish => exact .inl rfl
        case drop => exact .inr rfl
        all_goals cases hnone
      · intro writer' i hw hi
        dsimp only [afterWriter] at hw hi ⊢
        rw [hnew.options, hnew.newlySent, List.append_nil]
        cases call
        case finish => cases hw
        case drop => cases hw
        all_goals
          cases hw
          exact h.stream writer i hwriter hi
  | receive result =>
    cases hstep
    exact ⟨h.sendResults, h.ids, h.stream⟩

/-- In a run without a call that loses an id, every outbound entry belongs to a PUBLISH that has
been handed over on this connection, or of which the writer still has to hand over the end of
the payload. -/
theorem tracked_sent {options : MqttOptions}
    {incoming : List (Except E (BoundedVec UInt8 bufSize))} {now : ℕ}
    {t : ClientSystem E bufSize maxInflight}
    (hrun : Runs (fun s call => call.Safe s) (start options incoming now) t) :
    ∀ e ∈ t.client.inflight.toList, e.status.Outbound →
      e.packetId ∈ sentIds t.client.options.version t.session ∨
        ∃ writer, t.writer = some writer ∧
          InProgress t.client.options.version t.session e.packetId writer.bytesRemaining := by
  have hempty : (start options incoming now : ClientSystem E bufSize maxInflight).client.inflight =
      .empty := rfl
  have hstart : Tracked (start options incoming now : ClientSystem E bufSize maxInflight) := by
    refine ⟨rfl, ?_, by simp [start]⟩
    rw [hempty, InflightQueue.outboundIds_empty]
    simp
  have h := hrun.invariant hstart fun _ _ _ => tracked_step
  intro e he hout
  refine (h.ids e.packetId ⟨e, he, hout, rfl⟩).imp id ?_
  intro hstream
  obtain ⟨halive, hid⟩ := hstream
  obtain ⟨writer, hwriter⟩ := Option.isSome_iff_exists.mp halive
  exact ⟨writer, hwriter, h.stream writer e.packetId hwriter hid⟩

end

/-- A publish, a batch that fills the transmit buffer, and a stream, of which all but the first are
still in the table. -/
theorem tracked_sent_run : ∃ t : ClientSystem Unit 64 4,
    run (fun s call => call.Safe s)
      [.client (.connect 0), .client (.publish "a" [1] .atMostOnce 0),
        .client (.publishBatch [⟨"a", List.replicate 30 0, .atLeastOnce, false⟩,
          ⟨"b", List.replicate 30 0, .exactlyOnce, false⟩] 0),
        .client (.beginStreamPublish "c" 1 .atLeastOnce 0), .writer (.writeChunk [1]),
        .writer .finish]
      (start plainOptions [.ok connAckAccepted] 0) = some t ∧
    t.client.inflight.toList.map (·.packetId) = [1, 2, 3] ∧
    ∀ e ∈ t.client.inflight.toList, e.status.Outbound →
      e.packetId ∈ sentIds t.client.options.version t.session ∨
        ∃ writer, t.writer = some writer ∧
          InProgress t.client.options.version t.session e.packetId writer.bytesRemaining := by
  have heval : (run (fun s call => call.Safe s)
      [.client (.connect 0), .client (.publish "a" [1] .atMostOnce 0),
        .client (.publishBatch [⟨"a", List.replicate 30 0, .atLeastOnce, false⟩,
          ⟨"b", List.replicate 30 0, .exactlyOnce, false⟩] 0),
        .client (.beginStreamPublish "c" 1 .atLeastOnce 0), .writer (.writeChunk [1]),
        .writer .finish]
      (start plainOptions [.ok connAckAccepted] 0 : ClientSystem Unit 64 4)).map
        (fun t => t.client.inflight.toList.map (·.packetId)) = some [1, 2, 3] := by
    decide +kernel
  obtain ⟨t, hrun, ht⟩ := Option.map_eq_some_iff.mp heval
  exact ⟨t, hrun, ht, tracked_sent (runs_of_run hrun)⟩

/-- The id of a publish that is too large for the transmit buffer stays in the table. -/
theorem tracked_unsent :
    ¬ ∀ t : ClientSystem Unit 64 4,
      Runs (fun _ _ => True) (start plainOptions [.ok connAckAccepted] 0) t → t.writer = none →
        ∀ e ∈ t.client.inflight.toList, e.status.Outbound →
          e.packetId ∈ sentIds t.client.options.version t.session := by
  intro hall
  have heval : (run (fun _ _ => True)
      [.client (.connect 0), .client (.publish "a" (List.replicate 64 0) .atLeastOnce 0)]
      (start plainOptions [.ok connAckAccepted] 0 : ClientSystem Unit 64 4)).map
        (fun t => (t.writer, t.client.inflight.toList, t.client.options.version, t.session)) =
      some (none, [⟨1, .atLeastOnce, .awaitingPubAck⟩], .v3_1_1,
        [[0x10, 13, 0, 4, 77, 81, 84, 84, 4, 2, 0, 60, 0, 1, 99]]) := by
    decide +kernel
  obtain ⟨t, hrun, ht⟩ := Option.map_eq_some_iff.mp heval
  simp only [Prod.mk.injEq] at ht
  obtain ⟨hwriter, htable, hversion, hsession⟩ := ht
  have hsent := hall t (runs_of_run hrun) hwriter ⟨1, .atLeastOnce, .awaitingPubAck⟩
    (by rw [htable]; exact List.mem_singleton_self _) (by decide)
  rw [hversion, hsession] at hsent
  obtain ⟨mid, p, hmid, hp⟩ := exists_publish_of_mem_sentIds hsent
  rcases List.sublist_singleton.mp hmid.sublist with rfl | rfl
  · rw [List.flatten_nil, Framing.split_nil] at hp
    cases hp
  · have hconnect : framing.IsFrame [0x10, 13, 0, 4, 77, 81, 84, 84, 4, 2, 0, 60, 0, 1, 99] := by
      rfl
    rw [List.flatten_singleton, ← List.append_nil [0x10, _, _, _, _, _, _, _, _, _, _, _, _, _, _],
      Framing.split_append_of_isFrame hconnect, Framing.split_nil, List.mem_singleton] at hp
    have hfirst : (MqttPacket.publish p).first >>> 4 = 3 := packetType_first (.publish p)
    have hhead := congrArg List.head? hp
    rw [MqttPacket.wire, frameBytes, List.head?_cons, List.head?_cons, Option.some.injEq] at hhead
    rw [hhead] at hfirst
    exact absurd hfirst (by decide)

end MqttEngine
