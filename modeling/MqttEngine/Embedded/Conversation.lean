import MqttEngine.Embedded.KeepAlive
import MqttEngine.Embedded.OutgoingFrames
import MqttEngine.Embedded.StreamPublish
import MqttEngine.Packet.Conversation

/-!
# What the broker hears

The bytes that a client sends between two calls of `connect` are whole frames; here the frames are
read. Whoever cuts them off and decodes them gets the packets that the client meant, and these
follow the protocol: CONNECT comes first and only once, DISCONNECT comes last, and nothing but the
CONNECT is sent before the broker has accepted it. A PUBLISH that was streamed is heard like any
other one.

## Main definitions

* `Says` — the packets that have been handed over between two states.
* `ClientSystem.Talks` — what has been said in a run, and the frame that a writer is to complete.

## Main results

* `says_publishBatch`, `says_connect`, `Moves.spoken` — what the operations say.
* `conversation_of_runs` — what the broker hears in every run.
-/

namespace MqttEngine
open Checked

theorem talk_of_isAck {p : MqttPacket} (h : p.IsAck) : p.ByClient ∧ p.Simple := by
  obtain ⟨id, rfl | rfl | rfl | rfl⟩ := h <;>
    exact ⟨trivial, by simp [MqttPacket.propertyLists, Ack.new], rfl, by simp⟩

namespace MqttClient
variable {E : Type} {bufSize maxInflight : ℕ}

/-! ## What an operation says -/

/-- From `s` to `s'` these packets have been handed over, and all of them are legible. -/
def Says (s s' : MqttClient E bufSize maxInflight) (ps : List MqttPacket) : Prop :=
  (∃ new, Sends s s' new ∧ new.flatten = ps.flatMap (MqttPacket.wire s.options.version)) ∧
    ∀ p ∈ ps, p.Legible s.options.version

section
variable {s s' s'' : MqttClient E bufSize maxInflight} {ps qs : List MqttPacket} {p : MqttPacket}

theorem Says.refl (h : s.transport.sendResults = []) : Says s s [] :=
  ⟨⟨[], .refl h, rfl⟩, by simp⟩

theorem Says.options (h : Says s s' ps) : s'.options = s.options := by
  obtain ⟨⟨_, hsends, -⟩, -⟩ := h
  exact hsends.options

theorem Says.sendResults (h : Says s s' ps) : s'.transport.sendResults = [] := by
  obtain ⟨⟨_, hsends, -⟩, -⟩ := h
  exact hsends.sendResults

theorem Says.trans (h : Says s s' ps) (h' : Says s' s'' qs) : Says s s'' (ps ++ qs) := by
  obtain ⟨⟨new, hsends, hnew⟩, hps⟩ := h
  obtain ⟨⟨new', hsends', hnew'⟩, hqs⟩ := h'
  rw [hsends.options] at hnew' hqs
  refine ⟨⟨new ++ new', hsends.trans hsends', ?_⟩, List.forall_mem_append.mpr ⟨hps, hqs⟩⟩
  rw [List.flatten_append, hnew, hnew', List.flatMap_append]

/-- The transport and the options are what `Says` looks at. -/
theorem Says.congr (h : Says s s' ps) (hoptions : s''.options = s'.options)
    (htransport : s''.transport.sent = s'.transport.sent)
    (hresults : s''.transport.sendResults = s'.transport.sendResults) : Says s s'' ps := by
  obtain ⟨⟨new, hsends, hnew⟩, hps⟩ := h
  exact ⟨⟨new, ⟨hoptions.trans hsends.options, hresults.trans hsends.sendResults,
    htransport.trans hsends.sent⟩, hnew⟩, hps⟩

/-- Handing over packets that stand in the transmit buffer. -/
theorem says_afterSend (h : Says s s' ps) (hqs : ∀ q ∈ qs, q.Legible s.options.version)
    (tx : Buffer bufSize) :
    Says s (s'.afterSend tx [] (qs.flatMap (MqttPacket.wire s.options.version))) (ps ++ qs) := by
  obtain ⟨⟨new, hsends, hnew⟩, hps⟩ := h
  refine ⟨⟨new ++ [qs.flatMap (MqttPacket.wire s.options.version)], ⟨hsends.options, rfl, ?_⟩, ?_⟩,
    List.forall_mem_append.mpr ⟨hps, hqs⟩⟩
  · rw [sent_afterSend, hsends.sent, List.append_assoc]
  · rw [List.flatten_append, hnew, List.flatten_singleton, List.flatMap_append]

/-- The steps of an operation say packets with `P`. -/
theorem Moves.spoken {P : MqttPacket → Prop} (h : Moves P s s')
    (hsend : s.transport.sendResults = [])
    (hP : ∀ p, P p → p.Measured s.options.version bufSize ∧ (p.Encodable →
      (p.content s.options.version).length < 128 ^ 4 → p.Legible s.options.version)) :
    ∃ ps, Says s s' ps ∧ ∀ p ∈ ps, P p := by
  induction h with
  | refl => exact ⟨[], .refl hsend, by simp⟩
  | tail hmoves hmove ih =>
    obtain ⟨ps, hspoken, hps⟩ := ih
    cases hmove with
    | quiet hlocal =>
      have hresults := hlocal.sendResults
      rw [hspoken.sendResults, List.suffix_nil] at hresults
      have hsame := hresults.trans hspoken.sendResults.symm
      exact ⟨ps, hspoken.congr hlocal.options hlocal.sent hsame, hps⟩
    | @send tx sendResults bytes p hresults hp hbytes =>
      rw [hspoken.sendResults, List.suffix_nil] at hresults
      rw [hspoken.options] at hbytes
      obtain ⟨hmeasured, hlegible⟩ := hP p hp
      obtain ⟨hfits, rfl⟩ := hbytes hmeasured
      subst hresults
      have hone : ∀ q ∈ [p], q.Legible s.options.version := by
        simpa using hlegible hfits.1 (hmeasured hfits.1 hfits.2)
      have hsaid := says_afterSend hspoken hone tx
      rw [List.flatMap_singleton] at hsaid
      exact ⟨ps ++ [p], hsaid, List.forall_mem_append.mpr ⟨hps, by simpa using hp⟩⟩
    | table => exact ⟨ps, hspoken.congr rfl rfl rfl, hps⟩

/-- A packet that is sent is said, and one that is not is not; the connection state stays. -/
theorem says_sendPacket {s₀ : MqttClient E bufSize maxInflight} (h : Says s₀ s ps)
    (hm : p.Measured s₀.options.version bufSize)
    (hlegible : p.Encodable → (p.content s₀.options.version).length < 128 ^ 4 →
      p.Legible s₀.options.version) :
    Ends (sendPacket p) s (fun _ s' => Says s₀ s' (ps ++ [p]) ∧ s'.state = s.state)
      fun _ s' => Says s₀ s' ps ∧ s'.state = s.state := by
  have hm' := hm
  rw [← h.options] at hm'
  by_cases hfits : p.Fits s.options.version bufSize
  · obtain ⟨tx, hsent⟩ := sendPacket_fits h.sendResults hfits hm'
    rw [Ends, hsent]
    rw [h.options] at hfits ⊢
    have hone : ∀ q ∈ [p], q.Legible s₀.options.version := by
      simpa using hlegible hfits.1 (hm hfits.1 hfits.2)
    have hsaid := says_afterSend h hone tx
    rw [List.flatMap_singleton] at hsaid
    exact ⟨hsaid, rfl⟩
  · obtain ⟨e, tx, hunsent⟩ := sendPacket_unfit hm' hfits
    rw [Ends, hunsent]
    exact ⟨h.congr rfl rfl rfl, rfl⟩

/-- A packet id is reserved exactly above QoS 0. -/
theorem says_allocatePacketId {s₀ : MqttClient E bufSize maxInflight} (h : Says s₀ s ps)
    (qos : QoS) :
    Ends (allocatePacketId qos) s
      (fun id s' => Says s₀ s' ps ∧ (id.isSome ↔ qos ≠ .atMostOnce) ∧
        s'.txBuffer = s.txBuffer ∧ s'.state = s.state)
      fun _ s' => Says s₀ s' ps := by
  rcases hreserve : reserve s.inflight s.nextPacketId qos with _ | ⟨id, inflight, next⟩
  · rw [Ends, allocatePacketId_of_none hreserve]
    exact h.congr rfl rfl rfl
  · rw [Ends, allocatePacketId_of_some hreserve]
    refine ⟨h.congr rfl rfl rfl, ?_, rfl, rfl⟩
    rw [reserve_id hreserve]
    split <;> simp_all

/-- From `s` to `s'` nothing has been said but what a client may say while it is connected. -/
def Speaks (s s' : MqttClient E bufSize maxInflight) : Prop :=
  ∃ ps, Says s s' ps ∧ ∀ p ∈ ps, p.ByClient

/-- `publish` says its PUBLISH, or nothing. -/
theorem speaks_publish (hsend : s.transport.sendResults = []) (topic : String)
    (payload : List UInt8) (qos : QoS) (now : ℕ)
    (hm : s.state = .connected →
      (MqttPacket.publish (publishPacket topic payload qos none)).Measured s.options.version
        bufSize) :
    Ends (publish topic payload qos now) s (fun _ s' => Speaks s s') fun _ s' => Speaks s s' := by
  apply Ends.bind
  by_cases hconnected : s.state = .connected
  · rw [Ends, requireConnected_of_connected hconnected]
    apply Ends.bind
    refine (says_allocatePacketId (.refl hsend) qos).mono ?_ fun _ s' h => ⟨[], h, by simp⟩
    rintro id s₁ ⟨hspoken, hid, -, -⟩
    apply Ends.bind
    refine (says_sendPacket hspoken (measured_packetId (hm hconnected) id)
      (simple_publish rfl hid).legible).mono ?_ fun _ s' h => ⟨[], h.1, by simp⟩
    rintro _ s₂ ⟨hsaid, -⟩
    exact ⟨_, hsaid.congr rfl rfl rfl, by simp [MqttPacket.ByClient]⟩
  · rw [Ends, requireConnected_of_not hconnected]
    exact ⟨[], .refl hsend, by simp⟩

/-! ### A batch -/

/-- The loop of `publish_batch`: packets that a client may say stand in the transmit buffer. -/
structure Collects (s₀ s : MqttClient E bufSize maxInflight) (cursor : ℕ)
    (pending : List MqttPacket) : Prop where
  speaks : Speaks s₀ s
  cursor_le : cursor ≤ bufSize
  held : s.txBuffer.bytes.take cursor = pending.flatMap (MqttPacket.wire s₀.options.version)
  talk : ∀ p ∈ pending, p.ByClient ∧ p.Legible s₀.options.version

section
variable {s₀ : MqttClient E bufSize maxInflight} {cursor : ℕ} {pending : List MqttPacket}

/-- Sending the buffer. -/
theorem Collects.flush (h : Collects s₀ s cursor pending) :
    ∃ s', sendTx cursor s = .ok () s' ∧ Speaks s₀ s' := by
  obtain ⟨ps, hspoken, hps⟩ := h.speaks
  refine ⟨_, by rw [sendTx_of_le h.cursor_le, send_of_nil hspoken.sendResults], ?_⟩
  rw [h.held]
  exact ⟨_, says_afterSend hspoken (fun p hp => (h.talk p hp).2) _,
    List.forall_mem_append.mpr ⟨hps, fun p hp => (h.talk p hp).1⟩⟩

/-- A packet that is encoded behind what has been collected. -/
theorem collects_encodeTx (h : Collects s₀ s cursor pending)
    (hm : p.Measured s₀.options.version bufSize) (hclient : p.ByClient) (hsimple : p.Simple) :
    ∃ s' r, encodeTx cursor p s = .ok r s' ∧ Collects s₀ s' cursor pending ∧
      ∀ n, r = .ok n → Collects s₀ s' (cursor + n) (pending ++ [p]) := by
  obtain ⟨ps, hspoken, hps⟩ := h.speaks
  obtain ⟨tx, r, hencode, htake, hspec⟩ := encodeTx_spec (s := s) h.cursor_le p
  have hspeaks : Speaks s₀ (s.withTx tx) := ⟨ps, hspoken.congr rfl rfl rfl, hps⟩
  refine ⟨s.withTx tx, r, hencode, ⟨hspeaks, h.cursor_le, htake.trans h.held, h.talk⟩, ?_⟩
  intro n hn
  rw [hspoken.options] at hspec
  obtain ⟨hfits, hlen, hfront⟩ := hspec n hn (hm.mono (Nat.sub_le _ _))
  have hroom : p.room s₀.options.version ≤ bufSize := hfits.2.trans (Nat.sub_le _ _)
  refine ⟨hspeaks, ?_, ?_, List.forall_mem_append.mpr ⟨h.talk, ?_⟩⟩
  · have hcount := congrArg List.length hfront
    have hcursor := h.cursor_le
    rw [List.length_append, List.length_take, List.length_take, tx.length_eq,
      Buffer.length_eq] at hcount
    omega
  · rw [List.flatMap_append, List.flatMap_singleton, ← h.held]
    exact hfront
  · simpa using ⟨hclient, hsimple.legible hfits.1 (hm hfits.1 hroom)⟩

/-- A round of the batch says what has been collected, or goes on collecting. -/
theorem collects_round {msg : PublishMessage} (h : Collects s₀ s cursor pending)
    (hm : (MqttPacket.publish (msg.packet none)).Measured s₀.options.version bufSize) :
    Ends (publishBatchRound msg cursor) s
      (fun cursor' s' => ∃ pending', Collects s₀ s' cursor' pending') fun _ s' => Speaks s₀ s' := by
  obtain ⟨ps, hspoken, hps⟩ := h.speaks
  apply Ends.bind
  refine (says_allocatePacketId hspoken msg.qos).mono ?_ fun _ s' h => ⟨ps, h, hps⟩
  rintro id s₁ ⟨hspoken₁, hid, htx, -⟩
  have hsimple : (MqttPacket.publish (msg.packet id)).Simple := simple_publish rfl hid
  have hm' : (MqttPacket.publish (msg.packet id)).Measured s₀.options.version bufSize :=
    measured_packetId hm id
  have h₁ : Collects s₀ s₁ cursor pending :=
    ⟨⟨ps, hspoken₁, hps⟩, h.cursor_le, by rw [htx, h.held], h.talk⟩
  obtain ⟨s₂, r, hencode, h₂, hok⟩ := collects_encodeTx h₁ hm' trivial hsimple
  apply Ends.bind
  rw [Ends, hencode]
  rcases r with (e | _ | _) | n
  · by_cases hsmall : e = .bufferTooSmall ∧ cursor > 0
    · -- What has been collected is sent, and the packet is encoded at the front of the buffer.
      obtain ⟨rfl, hpos⟩ := hsmall
      obtain ⟨s₃, hflush, h₃⟩ := h₂.flush
      dsimp only
      rw [if_pos hpos]
      apply Ends.bind
      rw [Ends, hflush]
      have hempty : Collects s₀ s₃ 0 [] := ⟨h₃, Nat.zero_le _, by simp, by simp⟩
      obtain ⟨s₄, r, hagain, h₄, hok⟩ := collects_encodeTx hempty hm' trivial hsimple
      apply Ends.bind
      rw [Ends, hagain]
      rcases r with (e | _ | _) | n
      · exact h₄.speaks
      · exact h₄.speaks
      · exact h₄.speaks
      · have hnext := hok n rfl
        rw [Nat.zero_add] at hnext
        exact ⟨_, hnext⟩
    · cases e with
      | bufferTooSmall =>
        dsimp only
        rw [if_neg fun hpos => hsmall ⟨rfl, hpos⟩]
        exact h₂.speaks
      | _ => exact h₂.speaks
  · exact h₂.speaks
  · exact h₂.speaks
  · exact ⟨_, hok n rfl⟩

theorem collects_loop {messages : List PublishMessage} {sentCount : ℕ}
    (h : Collects s₀ s cursor pending)
    (hm : ∀ msg ∈ messages,
      (MqttPacket.publish (msg.packet none)).Measured s₀.options.version bufSize) :
    Ends (publishBatchLoop messages cursor sentCount) s
      (fun r s' => ∃ pending', Collects s₀ s' r.1 pending') fun _ s' => Speaks s₀ s' := by
  induction messages generalizing s cursor pending sentCount with
  | nil => exact ⟨pending, h⟩
  | cons msg messages ih =>
    rw [List.forall_mem_cons] at hm
    apply Ends.bind
    refine (collects_round h hm.1).mono ?_ fun _ _ h => h
    rintro cursor' s' ⟨pending', h'⟩
    exact ih h' hm.2

/-- `publish_batch` says PUBLISH packets only, also when it fails. -/
theorem speaks_publishBatch (hsend : s.transport.sendResults = []) (messages : List PublishMessage)
    (now : ℕ) (hm : s.state = .connected → ∀ msg ∈ messages,
      (MqttPacket.publish (msg.packet none)).Measured s.options.version bufSize) :
    Ends (publishBatch messages now) s (fun _ s' => Speaks s s') fun _ s' => Speaks s s' := by
  apply Ends.bind
  by_cases hconnected : s.state = .connected
  · rw [Ends, requireConnected_of_connected hconnected]
    apply Ends.bind
    have hempty : Collects s s 0 [] :=
      ⟨⟨[], .refl hsend, by simp⟩, Nat.zero_le _, by simp, by simp⟩
    refine (collects_loop hempty (hm hconnected)).mono ?_ fun _ _ h => h
    rintro ⟨cursor, sentCount⟩ s₁ ⟨pending, h₁⟩
    dsimp only
    by_cases hpos : cursor > 0
    · obtain ⟨s₂, hflush, ps, hspoken, hps⟩ := h₁.flush
      rw [if_pos hpos]
      apply Ends.bind
      rw [Ends, hflush]
      exact ⟨ps, hspoken.congr rfl rfl rfl, hps⟩
    · rw [if_neg hpos]
      exact h₁.speaks
  · rw [Ends, requireConnected_of_not hconnected]
    exact ⟨[], .refl hsend, by simp⟩

end

/-! ### Connecting and disconnecting -/

/-- Nothing is said behind the CONNECT. -/
theorem moves_finishConnect {P : MqttPacket → Prop} {s₀ : MqttClient E bufSize maxInflight}
    (n : ℕ) : Preserves (Moves P s₀) (finishConnect n) := by
  have hrefuse (e : MqttError E) : Preserves (Moves P s₀)
      (do setState .disconnected; fail e : ClientM E bufSize maxInflight Unit) :=
    Preserves.bind (moves_setState _) fun _ => moves_fail e
  apply Preserves.ite
  · intro _
    exact hrefuse _
  · intro _
    apply Preserves.bind (moves_decodeRx n)
    intro packet
    split
    · apply Preserves.ite
      · intro _
        apply Preserves.modify
        intro s hs
        have hcleared : Moves P s₀ { s with inflight := .empty } := by
          apply hs.tail
          apply Move.table
          rw [InflightQueue.outboundIds_empty]
          exact Set.empty_subset _
        exact hcleared.quiet ⟨rfl, rfl, List.suffix_rfl, rfl⟩
      · intro _
        exact hrefuse _
    · exact hrefuse _

/-- `connect` says its CONNECT, or nothing if it fails. -/
theorem says_connect (hsend : s.transport.sendResults = [])
    (hrep : (connectOf s).Representable s.options.version) (now : ℕ) :
    Ends (connect now) s (fun _ s' => Says s s' [connectOf s])
      fun _ s' => s'.state ≠ .connected ∧ ∃ ps, Says s s' ps ∧ ps <+: [connectOf s] := by
  have hspoken : Ends (connect now) s (fun _ s' => Says s s' [connectOf s])
      fun _ s' => ∃ ps, Says s s' ps ∧ ps <+: [connectOf s] := by
    rw [Ends, connect_eq]
    change Ends _ ({ s with state := .connecting } : MqttClient E bufSize maxInflight) _ _
    have hstart : Says s { s with state := .connecting } [] := (Says.refl hsend).congr rfl rfl rfl
    apply Ends.bind
    refine (says_sendPacket hstart (fun _ _ => Nat.lt_succ_of_le hrep.length)
      fun he _ => ⟨hrep, he⟩).mono ?_ fun _ s' h => ⟨[], h.1, List.nil_prefix⟩
    rintro _ s₁ ⟨hsaid, -⟩
    -- What comes behind it sends nothing.
    have hquiet {s' : MqttClient E bufSize maxInflight} (h : Moves (fun _ => False) s₁ s') :
        Says s s' [connectOf s] := by
      obtain ⟨ps, hps, hnone⟩ := h.spoken hsaid.sendResults fun _ => False.elim
      have hnil : ps = [] := List.eq_nil_iff_forall_not_mem.mpr hnone
      subst hnil
      exact hsaid.trans hps
    have hmoves : Preserves (Moves (fun _ => False) s₁)
        (setLastTx now >>= fun _ => recv >>= finishConnect) :=
      Preserves.bind (moves_setLastTx now) fun _ =>
        Preserves.bind moves_recv fun n => moves_finishConnect n
    exact (hmoves s₁ .refl).mono (fun _ _ h => hquiet h)
      fun _ _ h => ⟨_, hquiet h, List.prefix_refl _⟩
  exact (hspoken.and (ends_connect s now)).mono (fun _ _ h => h.1) fun _ _ h => ⟨h.2.2, h.1⟩

/-- `disconnect` says DISCONNECT and leaves the client unconnected, or it says nothing. -/
theorem says_disconnect (hsend : s.transport.sendResults = [])
    (hconnected : s.state = .connected) :
    Ends disconnect s (fun _ s' => Says s s' [.disconnect .new] ∧ s'.state ≠ .connected)
      fun _ s' => Says s s' [] := by
  apply Ends.bind
  apply Ends.get
  rw [if_neg (not_not.mpr hconnected)]
  apply Ends.bind
  refine (says_sendPacket (.refl hsend) (short_disconnect.measured _ _)
    simple_disconnect.legible).mono ?_ fun _ _ h => h.1
  rintro _ s' ⟨hsaid, -⟩
  exact ⟨hsaid.congr rfl rfl rfl, by simp⟩

end

end MqttClient

/-! ## Calls -/

open MqttClient ClientSystem

/-- The call neither opens the connection nor closes it, and begins no stream. -/
def ClientCall.Plain : ClientCall → Prop
  | .connect _ | .beginStreamPublish .. | .disconnect => False
  | _ => True

section
variable {E : Type} {bufSize maxInflight : ℕ} {c : MqttClient E bufSize maxInflight}

/-- While the client is not connected, only `connect` does anything. -/
theorem unconnected_call (h : c.state ≠ .connected) {call : ClientCall}
    (hcall : ∀ now, call ≠ .connect now) :
    Ends call.exec c (fun writer c' => writer = none ∧ c' = c) fun _ c' => c' = c := by
  have hguarded {α : Type} (f : Unit → ClientM E bufSize maxInflight α)
      (g : α → ClientM E bufSize maxInflight (Option MqttStreamWriter)) :
      Ends (requireConnected >>= f >>= g) c (fun writer c' => writer = none ∧ c' = c)
        fun _ c' => c' = c := by
    apply Ends.bind
    apply Ends.bind
    rw [Ends, requireConnected_of_not h]
  cases call with
  | connect now => exact absurd rfl (hcall now)
  | disconnect =>
    apply Ends.bind
    apply Ends.bind
    apply Ends.get
    rw [if_pos h]
    exact ⟨rfl, rfl⟩
  | _ => exact hguarded _ _

/-- The other calls say what a client may say while it is connected. -/
theorem speaks_exec (hsend : c.transport.sendResults = []) {call : ClientCall}
    (hwhole : call.Whole c) (hplain : call.Plain) :
    Ends call.exec c (fun writer c' => writer = none ∧ Speaks c c') fun _ c' => Speaks c c' := by
  have hresult {α : Type} {x : ClientM E bufSize maxInflight α}
      (hx : Ends x c (fun _ c' => Speaks c c') fun _ c' => Speaks c c') :
      Ends (do let _ ← x; pure none : ClientM E bufSize maxInflight (Option MqttStreamWriter)) c
        (fun writer c' => writer = none ∧ Speaks c c') fun _ c' => Speaks c c' := by
    apply Ends.bind
    exact hx.mono (fun _ _ h => ⟨rfl, h⟩) fun _ _ h => h
  have hmoves {α : Type} {x : ClientM E bufSize maxInflight α}
      (hx : Preserves (Moves (fun p => p.Short ∧ p.ByClient ∧ p.Simple) c) x) :
      Ends x c (fun _ c' => Speaks c c') fun _ c' => Speaks c c' := by
    have hspeaks {c' : MqttClient E bufSize maxInflight}
        (h : Moves (fun p => p.Short ∧ p.ByClient ∧ p.Simple) c c') : Speaks c c' := by
      obtain ⟨ps, hspoken, hps⟩ := h.spoken hsend fun p hp =>
        ⟨hp.1.measured _ _, hp.2.2.legible⟩
      exact ⟨ps, hspoken, fun p hp => (hps p hp).2.1⟩
    exact (hx c .refl).mono (fun _ _ h => hspeaks h) fun _ _ h => hspeaks h
  have hack (p : MqttPacket) (h : p.IsAck) : p.Short ∧ p.ByClient ∧ p.Simple :=
    ⟨short_of_isAck h, talk_of_isAck h⟩
  cases call with
  | connect | beginStreamPublish | disconnect => exact hplain.elim
  | publish topic payload qos now =>
    exact hresult (speaks_publish hsend topic payload qos now hwhole)
  | publishBatch messages now => exact hresult (speaks_publishBatch hsend messages now hwhole)
  | subscribe topics now =>
    exact hresult (hmoves (moves_subscribe topics now fun _ h =>
      ⟨short_subscribe h, talk_subscribe h⟩))
  | unsubscribe topics now =>
    exact hresult (hmoves (moves_unsubscribe topics now fun _ h =>
      ⟨short_unsubscribe h, talk_unsubscribe h⟩))
  | poll now => exact hresult (hmoves (moves_poll now ⟨short_pingReq, talk_pingReq⟩ hack))
  | pollBatch maxEvents => exact hresult (hmoves (moves_pollBatch maxEvents hack))

end

/-! ## Runs -/

/-- What a client has sent behind whole packets: nothing, or the beginning of a PUBLISH that its
writer is to complete. -/
def Unfinished (version : MqttVersion) (part : List UInt8) : Option MqttStreamWriter → Prop
  | none => part = []
  | some writer => ∃ topic qos id payload, (id = none ↔ qos = .atMostOnce) ∧
      HeaderFits version topic qos ∧
      (streamContent version topic id).length + (payload.length + writer.bytesRemaining) <
        128 ^ 4 ∧
      part = streamHeader qos ((streamContent version topic id).length +
        (payload.length + writer.bytesRemaining)) ++ streamContent version topic id ++ payload

section
variable {version : MqttVersion} {part bytes : List UInt8} {writer writer' : MqttStreamWriter}

/-- A writer that has nothing more to write has completed a PUBLISH. -/
theorem Unfinished.complete (h : Unfinished version part (some writer))
    (hdone : writer.bytesRemaining = 0) :
    ∃ p : MqttPacket, p.ByClient ∧ p.Legible version ∧ part = p.wire version := by
  obtain ⟨topic, qos, id, payload, hid, hfits, hlen, rfl⟩ := h
  rw [hdone, Nat.add_zero] at hlen ⊢
  have hsimple : (MqttPacket.publish (publishPacket topic payload qos id)).Simple := by
    apply simple_publish rfl
    rw [Option.isSome_iff_ne_none]
    exact not_congr hid
  have hencodable : (MqttPacket.publish (publishPacket topic payload qos id)).Encodable := by
    intro data hdata
    obtain rfl : data = strBytes topic := by
      simpa [MqttPacket.prefixed, publishPacket, Publish.new] using hdata
    rw [HeaderFits] at hfits
    omega
  have hcontent : ((MqttPacket.publish (publishPacket topic payload qos id)).content
      version).length < 128 ^ 4 := by
    have hframe : streamHeader qos ((streamContent version topic id).length + payload.length) ++
        streamContent version topic id ++ payload =
          frameBytes (streamFlags qos) (streamContent version topic id ++ payload) := by
      simp [streamHeader, frameBytes]
    rw [← isFrame_wire_iff, wire_publishPacket version hid, hframe]
    exact isFrame_frameBytes _ (by rwa [List.length_append])
  exact ⟨.publish (publishPacket topic payload qos id), trivial,
    hsimple.legible hencodable hcontent, (wire_publishPacket version hid).symm⟩

/-- Payload bytes that are written. -/
theorem Unfinished.write (h : Unfinished version part (some writer))
    (hle : bytes.length ≤ writer.bytesRemaining)
    (hremaining : writer'.bytesRemaining = writer.bytesRemaining - bytes.length) :
    Unfinished version (part ++ bytes) (some writer') := by
  obtain ⟨topic, qos, id, payload, hid, hfits, hlen, rfl⟩ := h
  have htotal : payload.length + writer.bytesRemaining =
      (payload ++ bytes).length + writer'.bytesRemaining := by
    rw [List.length_append]
    omega
  rw [htotal] at hlen ⊢
  exact ⟨topic, qos, id, payload ++ bytes, hid, hfits, hlen, by simp⟩

end

namespace ClientSystem
variable {E : Type} {bufSize maxInflight : ℕ} {options : MqttOptions}
  {s t : ClientSystem E bufSize maxInflight} {ps qs : List MqttPacket} {part : List UInt8}

/-- The CONNECT of the options. -/
abbrev opening (options : MqttOptions) : MqttPacket := .connect (connectPacket options)

/-- In `s` the client has said `ps` since `connect` was last called, and has sent `part` behind
them. -/
structure Said (options : MqttOptions) (s : ClientSystem E bufSize maxInflight)
    (ps : List MqttPacket) (part : List UInt8) : Prop where
  sameOptions : s.client.options = options
  sendResults : s.client.transport.sendResults = []
  attempt : s.attempt.flatten = ps.flatMap (MqttPacket.wire options.version) ++ part
  legible : ∀ p ∈ ps, p.Legible options.version
  conversation : Conversation (opening options) ps
  unfinished : Unfinished options.version part s.writer
  talking : s.client.state = .connected ∨ s.writer ≠ none →
    (∃ body, ps = opening options :: body ∧ ∀ p ∈ body, p.ByClient) ∧ s.session = s.attempt
  accepted : 2 ≤ ps.length → s.session = s.attempt

/-- The invariant of a run. -/
def Talks (options : MqttOptions) (s : ClientSystem E bufSize maxInflight) : Prop :=
  ∃ ps part, Said options s ps part

/-- What has been handed over between `s` and `t` has been recorded behind the rest. -/
structure Grown (s t : ClientSystem E bufSize maxInflight) : Prop where
  attempt : t.attempt = s.attempt ++ newlySent s.client t.client
  session : t.session = s.session ++ newlySent s.client t.client

theorem grown_afterClient {call : ClientCall} (hcall : ∀ now, call ≠ .connect now) (ok : Bool)
    (writer : Option MqttStreamWriter) (c : MqttClient E bufSize maxInflight) :
    Grown s (s.afterClient call ok writer c) ∧
      (s.afterClient call ok writer c).writer = writer := by
  cases call with
  | connect now => exact absurd rfl (hcall now)
  | _ => exact ⟨⟨rfl, rfl⟩, rfl⟩

/-- With nothing handed over, the two records stay equal. -/
theorem Grown.session_eq (h : Grown s t) (heq : s.session = s.attempt) : t.session = t.attempt := by
  rw [h.session, h.attempt, heq]

/-- Packets that are said behind the others. -/
theorem Said.spoken (h : Said options s ps []) (hgrown : Grown s t)
    (hspoken : Says s.client t.client qs) (hwriter : t.writer = none)
    (hconversation : Conversation (opening options) (ps ++ qs))
    (htalking : t.client.state = .connected →
      ∃ body, ps ++ qs = opening options :: body ∧ ∀ p ∈ body, p.ByClient)
    (hsession : t.client.state = .connected ∨ 2 ≤ (ps ++ qs).length → s.session = s.attempt) :
    Said options t (ps ++ qs) [] := by
  obtain ⟨⟨new, hsends, hnew⟩, hlegible⟩ := hspoken
  rw [h.sameOptions] at hnew hlegible
  have htalks : t.client.state = .connected ∨ t.writer ≠ none → t.client.state = .connected :=
    fun hor => hor.resolve_right (not_not.mpr hwriter)
  exact {
    sameOptions := hsends.options.trans h.sameOptions
    sendResults := hsends.sendResults
    attempt := by
      rw [hgrown.attempt, List.flatten_append, hsends.newlySent, h.attempt, hnew,
        List.append_nil, List.append_nil, List.flatMap_append]
    legible := List.forall_mem_append.mpr ⟨h.legible, hlegible⟩
    conversation := hconversation
    unfinished := by
      rw [hwriter]
      rfl
    talking := fun hor => ⟨htalking (htalks hor), hgrown.session_eq (hsession (.inl (htalks hor)))⟩
    accepted := fun hlen => hgrown.session_eq (hsession (.inr hlen)) }

/-- Bytes that are sent behind the packets, for a writer that is alive. -/
theorem Said.sends (h : Said options s ps part) (hgrown : Grown s t) {new : List (List UInt8)}
    (hsends : Sends s.client t.client new)
    (hunfinished : Unfinished options.version (part ++ new.flatten) t.writer)
    (htalking : s.client.state = .connected ∨ s.writer ≠ none) :
    Said options t ps (part ++ new.flatten) where
  sameOptions := hsends.options.trans h.sameOptions
  sendResults := hsends.sendResults
  attempt := by
    rw [hgrown.attempt, List.flatten_append, hsends.newlySent, h.attempt, List.append_assoc]
  legible := h.legible
  conversation := h.conversation
  unfinished := hunfinished
  talking := fun _ => ⟨(h.talking htalking).1, hgrown.session_eq (h.talking htalking).2⟩
  accepted := fun _ => hgrown.session_eq (h.talking htalking).2

/-! ### Calls on the client -/

section
variable {call : ClientCall} {writer : Option MqttStreamWriter}
  {c : MqttClient E bufSize maxInflight}

/-- A call of `connect` begins a conversation. -/
theorem talks_connect (h : Said options s ps []) {now : ℕ}
    (hrep : (opening options).Representable options.version)
    (hstep : s.step (.client (.connect now)) = some t) : Talks options t := by
  obtain ⟨-, hstep⟩ := step_client hstep
  have hopening : connectOf s.client = opening options := by
    rw [connectOf, h.sameOptions]
  have hexec := says_connect h.sendResults (by rwa [hopening, h.sameOptions]) now
  rw [hopening] at hexec
  have hcall : Ends (ClientCall.exec (.connect now)) s.client
      (fun writer c => writer = none ∧ Says s.client c [opening options])
      fun _ c => c.state ≠ .connected ∧ ∃ ps, Says s.client c ps ∧ ps <+: [opening options] :=
    Ends.bind (hexec.mono (fun _ _ h => ⟨rfl, h⟩) fun _ _ h => h)
  rcases hstep with ⟨writer, c, hrun, rfl⟩ | ⟨e, c, hrun, rfl⟩
  · obtain ⟨rfl, ⟨new, hsends, hnew⟩, hlegible⟩ := hcall.ok_of hrun
    rw [h.sameOptions] at hnew hlegible
    exact ⟨[opening options], [], {
      sameOptions := hsends.options.trans h.sameOptions
      sendResults := hsends.sendResults
      attempt := by
        rw [List.append_nil, ← hnew, ← hsends.newlySent]
        rfl
      legible := hlegible
      conversation := .opened (by simp)
      unfinished := rfl
      talking := fun _ => ⟨⟨[], rfl, by simp⟩, rfl⟩
      accepted := fun hlen => absurd hlen (by simp) }⟩
  · obtain ⟨hstate, ps, ⟨⟨new, hsends, hnew⟩, hlegible⟩, hinit⟩ := hcall.error_of hrun
    rw [h.sameOptions] at hnew hlegible
    refine ⟨ps, [], {
      sameOptions := hsends.options.trans h.sameOptions
      sendResults := hsends.sendResults
      attempt := by
        rw [List.append_nil, ← hnew, ← hsends.newlySent]
        rfl
      legible := hlegible
      conversation := ?_
      unfinished := rfl
      talking := fun hor => absurd (hor.resolve_right (by simp [afterClient])) hstate
      accepted := fun hlen => absurd (hlen.trans hinit.length_le) (by simp) }⟩
    rcases ps with _ | ⟨p, ps⟩
    · exact .silent
    · obtain ⟨rfl, hnil⟩ := List.cons_prefix_cons.mp hinit
      obtain rfl := List.prefix_nil.mp hnil
      exact .opened (by simp)

/-- Any other call goes on with it. -/
theorem talks_call (h : Said options s ps []) (hwhole : call.Whole s.client)
    (hcall : ∀ now, call ≠ .connect now) (hstep : s.step (.client call) = some t) :
    Talks options t := by
  obtain ⟨hwriter, hstep⟩ := step_client hstep
  by_cases hconnected : s.client.state = .connected
  · obtain ⟨⟨body, hps, hbody⟩, hsession⟩ := h.talking (.inl hconnected)
    subst hps
    -- What is said in the middle of a conversation.
    have hspeaks {c : MqttClient E bufSize maxInflight} {ok : Bool} (hs : Speaks s.client c) :
        Talks options (s.afterClient call ok none c) := by
      obtain ⟨qs, hspoken, hqs⟩ := hs
      obtain ⟨hgrown, hnone⟩ := grown_afterClient (s := s) hcall ok none c
      have hall := List.forall_mem_append.mpr ⟨hbody, hqs⟩
      exact ⟨_, [], h.spoken hgrown (by rwa [client_afterClient]) hnone (.opened hall)
        (fun _ => ⟨_, rfl, hall⟩) fun _ => hsession⟩
    have hplain (hplain : call.Plain) : Talks options t := by
      have hexec := speaks_exec h.sendResults hwhole hplain
      rcases hstep with ⟨writer, c, hrun, rfl⟩ | ⟨e, c, hrun, rfl⟩
      · obtain ⟨rfl, hs⟩ := hexec.ok_of hrun
        exact hspeaks hs
      · exact hspeaks (hexec.error_of hrun)
    cases call with
    | connect now => exact absurd rfl (hcall now)
    | disconnect =>
      have hexec : Ends (ClientCall.exec .disconnect) s.client
          (fun writer c => writer = none ∧ Says s.client c [.disconnect .new] ∧
            c.state ≠ .connected) fun _ c => Says s.client c [] :=
        Ends.bind ((says_disconnect h.sendResults hconnected).mono (fun _ _ h => ⟨rfl, h⟩)
          fun _ _ h => h)
      rcases hstep with ⟨writer, c, hrun, rfl⟩ | ⟨e, c, hrun, rfl⟩
      · obtain ⟨rfl, hspoken, hstate⟩ := hexec.ok_of hrun
        exact ⟨_, [], h.spoken ⟨rfl, rfl⟩ hspoken rfl (.closed hbody)
          (fun hconnected => absurd hconnected hstate) fun _ => hsession⟩
      · exact hspeaks ⟨[], hexec.error_of hrun, by simp⟩
    | beginStreamPublish topic total qos now =>
      have hexec : Ends (ClientCall.exec (.beginStreamPublish topic total qos now)) s.client
          (fun writer c => writer = some ⟨total, total⟩ ∧ ∃ id, Begun s.client c topic total qos id)
          fun _ c => Handed s.client c [] ∅ ∨ ∃ id, Refused s.client c topic total qos id := by
        apply Ends.bind
        refine (beginStreamPublish_ends h.sendResults topic total qos now).mono ?_ fun _ _ h => h
        rintro writer c ⟨rfl, id, hbegun, -⟩
        exact ⟨rfl, id, hbegun⟩
      rcases hstep with ⟨writer, c, hrun, rfl⟩ | ⟨e, c, hrun, rfl⟩
      · obtain ⟨rfl, id, hbegun⟩ := hexec.ok_of hrun
        -- The call is whole, so that its frame can be completed.
        obtain ⟨inflight, next, hreserve, -⟩ := hbegun.reserved
        have hfits := hwhole hbegun.connected
        rw [hreserve] at hfits
        obtain ⟨hfits, hlen⟩ := hfits
        have hid : id = none ↔ qos = .atMostOnce := by
          rw [reserve_id hreserve]
          simp
        have hsends : Sends s.client c _ := ⟨hbegun.options, hbegun.sendResults, hbegun.sent⟩
        refine ⟨_, _, h.sends ⟨rfl, rfl⟩ hsends ?_ (.inl hconnected)⟩
        rw [h.sameOptions] at hlen hfits ⊢
        exact ⟨topic, qos, id, [], hid, hfits, by simpa using hlen, by simp⟩
      · rcases hexec.error_of hrun with hhanded | ⟨id, hrefused⟩
        · have hsent := hhanded.sent
          rw [List.map_nil] at hsent
          exact hspeaks ⟨[], ⟨⟨[], ⟨hhanded.options, hhanded.sendResults, hsent⟩, rfl⟩, by simp⟩,
            by simp⟩
        · exact absurd hwhole hrefused.not_whole
    | _ => exact hplain trivial
  · have hexec := unconnected_call hconnected hcall
    have hquiet {ok : Bool} : Talks options (s.afterClient call ok none s.client) := by
      obtain ⟨hgrown, hnone⟩ := grown_afterClient (s := s) hcall ok none s.client
      have hsilent : Says s.client (s.afterClient call ok none s.client).client [] := by
        rw [client_afterClient]
        exact .refl h.sendResults
      have hsaid := h.spoken hgrown hsilent hnone (by simpa using h.conversation)
        (fun hstate => absurd hstate (by rwa [client_afterClient])) ?_
      · exact ⟨_, [], hsaid⟩
      · rintro (hstate | hlen)
        · exact absurd hstate (by rwa [client_afterClient])
        · exact h.accepted (by simpa using hlen)
    rcases hstep with ⟨writer, c, hrun, rfl⟩ | ⟨e, c, hrun, rfl⟩
    · obtain ⟨rfl, rfl⟩ := hexec.ok_of hrun
      exact hquiet
    · obtain rfl := hexec.error_of hrun
      exact hquiet

end

/-! ### Calls on the writer -/

/-- A call on the writer goes on with its frame, or completes it. -/
theorem talks_writer {call : WriterCall} (h : Said options s ps part)
    (hwhole : (Call.writer call : Call E bufSize).Whole s)
    (hstep : s.step (.writer call) = some t) : Talks options t := by
  obtain ⟨writer, hwriter, hstep⟩ := step_writer hstep
  have hunfinished := h.unfinished
  rw [hwriter] at hunfinished
  have htalking : s.client.state = .connected ∨ s.writer ≠ none := .inr (by simp [hwriter])
  have hexec := writer_exec h.sendResults writer call
  -- A writer that ends has completed its frame.
  have hended (hcall : call = .finish ∨ call = .drop) {c : MqttClient E bufSize maxInflight}
      (hsends : Sends s.client c []) : Talks options (s.afterWriter none c) := by
    have hdone : writer.bytesRemaining = 0 := by
      rcases hcall with rfl | rfl
      · exact hwhole writer hwriter
      · exact hwhole writer hwriter
    obtain ⟨p, hclient, hlegible, hpart⟩ := hunfinished.complete hdone
    obtain ⟨⟨body, rfl, hbody⟩, hsession⟩ := h.talking htalking
    have hall : ∀ q ∈ body ++ [p], q.ByClient :=
      List.forall_mem_append.mpr ⟨hbody, by simpa using hclient⟩
    have hgrown : Grown s (s.afterWriter none c) := ⟨rfl, rfl⟩
    refine ⟨opening options :: (body ++ [p]), [], {
      sameOptions := hsends.options.trans h.sameOptions
      sendResults := hsends.sendResults
      attempt := ?_
      legible := List.forall_mem_append.mpr ⟨h.legible, by simpa using hlegible⟩
      conversation := .opened hall
      unfinished := rfl
      talking := fun _ => ⟨⟨_, rfl, hall⟩, hgrown.session_eq hsession⟩
      accepted := fun _ => hgrown.session_eq hsession }⟩
    rw [hgrown.attempt, List.flatten_append]
    change _ ++ (newlySent s.client c).flatten = _
    rw [hsends.newlySent, h.attempt, hpart]
    simp
  rcases hstep with ⟨left, c, hrun, rfl⟩ | ⟨e, c, hrun, rfl⟩
  · obtain ⟨new, hsends, hleft⟩ := hexec.ok_of hrun
    cases left with
    | none =>
      obtain ⟨rfl, hcall⟩ := hleft
      exact hended hcall hsends
    | some writer' =>
      exact ⟨_, _, h.sends ⟨rfl, rfl⟩ hsends (hunfinished.write hleft.1 hleft.2) htalking⟩
  · have hsends := hexec.error_of hrun
    cases call with
    | finish => exact hended (.inl rfl) hsends
    | drop => exact hended (.inr rfl) hsends
    | _ =>
      refine ⟨_, _, h.sends ⟨rfl, rfl⟩ hsends ?_ htalking⟩
      rw [List.flatten_nil, List.append_nil]
      exact hunfinished

/-- A step of a run keeps the invariant. -/
theorem Talks.step {call : Call E bufSize} (h : Talks options s)
    (hrep : (opening options).Representable options.version) (hwhole : call.Whole s)
    (hstep : s.step call = some t) : Talks options t := by
  obtain ⟨ps, part, hsaid⟩ := h
  cases call with
  | client call =>
    have hpart := hsaid.unfinished
    rw [(step_client hstep).1] at hpart
    subst hpart
    by_cases hconnect : ∃ now, call = .connect now
    · obtain ⟨now, rfl⟩ := hconnect
      exact talks_connect hsaid hrep hstep
    · exact talks_call hsaid hwhole (by simpa using hconnect) hstep
  | writer call => exact talks_writer hsaid hwhole hstep
  | receive result =>
    cases hstep
    exact ⟨ps, part, { hsaid with }⟩

/-- **What the broker hears.** In a run whose calls leave no frame open for good, the bytes sent
since `connect` was last called are cut off and decoded, whenever no writer is alive, to a
conversation: CONNECT first, then what a client says while it is connected, DISCONNECT last. More
than the CONNECT is sent only after it has been accepted. -/
theorem conversation_of_runs {incoming : List (Except E (BoundedVec UInt8 bufSize))} {now : ℕ}
    (hrep : (opening options).Representable options.version)
    (hrun : Runs (fun s call => call.Whole s) (start options incoming now) t)
    (hwriter : t.writer = none) :
    ∃ ps, Conversation (opening options) ps ∧
      (framing.split t.attempt.flatten).2 = [] ∧
      Understands options.version (framing.split t.attempt.flatten).1 ps ∧
      (2 ≤ ps.length → t.session = t.attempt) := by
  have hstart : Talks options (start options incoming now :
      ClientSystem E bufSize maxInflight) :=
    ⟨[], [], {
      sameOptions := rfl
      sendResults := rfl
      attempt := rfl
      legible := by simp
      conversation := .silent
      unfinished := rfl
      talking := fun hor => by simp [start, MqttClient.new] at hor
      accepted := fun hlen => by simp at hlen }⟩
  obtain ⟨ps, part, hsaid⟩ := hrun.invariant hstart fun _ _ _ hs hwhole hstep =>
    hs.step hrep hwhole hstep
  have hpart := hsaid.unfinished
  rw [hwriter] at hpart
  subst hpart
  obtain ⟨hsplit, hunderstands⟩ := understands_of_legible hsaid.legible
  refine ⟨ps, hsaid.conversation, ?_⟩
  rw [hsaid.attempt, List.append_nil, hsplit]
  exact ⟨rfl, hunderstands, hsaid.accepted⟩

/-- A stream between CONNECT and DISCONNECT. -/
theorem conversation_of_runs_stream : ∃ t : ClientSystem Unit 64 4,
    t.attempt.length = 6 ∧ ∃ ps, Conversation (opening plainOptions) ps ∧
      (framing.split t.attempt.flatten).2 = [] ∧
      Understands plainOptions.version (framing.split t.attempt.flatten).1 ps ∧
      (2 ≤ ps.length → t.session = t.attempt) := by
  let ran := run (fun s call => call.Whole s)
    [.client (.connect 0), .client (.beginStreamPublish "a" 3 .atLeastOnce 0),
      .writer (.writeChunk [1, 2]), .writer (.writeDmaVectored [[], [3]]), .writer .finish,
      .client .disconnect]
    (start plainOptions [.ok connAckAccepted] 0 : ClientSystem Unit 64 4)
  have heval : (ran.map fun t => (t.writer, t.attempt.length)) = some (none, 6) := by
    decide +kernel
  have hrep : (opening plainOptions).Representable plainOptions.version :=
    { properties := by
        simp [MqttPacket.propertyLists, connectPacket, plainOptions, RepresentableProperties]
      reasonCode := fun _ => rfl
      packetId := by simp
      length := by decide +kernel }
  obtain ⟨t, hrun, ht⟩ := Option.map_eq_some_iff.mp heval
  rw [Prod.mk.injEq] at ht
  exact ⟨t, ht.2, conversation_of_runs hrep (runs_of_run hrun) ht.1⟩

end ClientSystem

end MqttEngine
