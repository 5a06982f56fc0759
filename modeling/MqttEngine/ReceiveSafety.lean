import MqttEngine.Embedded.Receiving
import MqttEngine.Packet.EncoderSafety
import MqttEngine.Packet.Safety
import MqttEngine.Tokio.Operations
import MqttEngine.Tokio.Reading

/-!
# Receive safety

What a broker can do to a client with the bytes of one receive. `poll` and the two handshakes hand
what they have received to `decode` as it is. They return whenever `decode` does, so that a broker
can only crash a client by a PUBLISH that overruns its content.

## Main definitions

* `Returned` — the call has returned `Ok` or `Err`.
* `DecodesSafely` — all decoders return on the bytes, and so does every client that receives them.

## Main results

* `returned_poll`, `returned_connect`, `returned_performConnectHandshake` — the callers of `decode`.
* `decodesSafely_iff` — when bytes are safe.
-/

namespace MqttEngine
open Checked

/-- The call returns `Ok` or `Err`. -/
def Returned {ε σ α : Type} (x : EStateM (Fault ε) σ α) (s : σ) : Prop :=
  Ends x s (fun _ _ => True) fun e _ => ∃ e', e = .err e'

/-- From every state with `I` the program ends in one with `I`, or with an error. -/
def Answers {ε σ α : Type} (I : σ → Prop) (x : EStateM (Fault ε) σ α) : Prop :=
  ∀ s, I s → Ends x s (fun _ s' => I s') fun e _ => ∃ e', e = .err e'

/-! ## Programs that return -/

section
variable {ε σ α β : Type} {I : σ → Prop} {x : EStateM (Fault ε) σ α} {s : σ}

theorem Answers.returned (h : Answers I x) (hs : I s) : Returned x s :=
  (h s hs).mono (fun _ _ _ => trivial) fun _ _ he => he

theorem Answers.pure (a : α) : Answers I (Pure.pure a : EStateM (Fault ε) σ α) := fun _ hs => hs

theorem Answers.error (e : ε) : Answers I (throw (.err e) : EStateM (Fault ε) σ α) :=
  fun _ _ => ⟨e, rfl⟩

theorem Answers.modify {g : σ → σ} (h : ∀ s, I s → I (g s)) :
    Answers I (modifyThe σ g : EStateM (Fault ε) σ PUnit) := h

theorem Answers.bind {f : α → EStateM (Fault ε) σ β} (hx : Answers I x) (hf : ∀ a, Answers I (f a)) :
    Answers I (x >>= f) :=
  fun s hs => Ends.bind <| (hx s hs).mono (fun a s' hs' => hf a s' hs') fun _ _ he => he

theorem Answers.get_bind {f : σ → EStateM (Fault ε) σ β} (hf : ∀ s, I s → Answers I (f s)) :
    Answers I (get >>= f) := fun s hs => hf s hs s hs

end

/-- An encoder returns on a packet whose remaining length has at most four bytes. -/
theorem encodeReturns_of_measured {p : MqttPacket} {version : MqttVersion} {buf : List UInt8}
    {size : ℕ} (hlen : buf.length = size) (hdisc : ∀ d, p ≠ .disconnect d)
    (hm : p.Measured version size) : EncodeReturns size (p.encode version buf) := by
  subst hlen
  by_cases hbare : p.Bare
  · rw [(encode_of_bare hbare version).1, encodeBare]
    split
    · exact .inr ⟨_, _, rfl⟩
    · exact .inl ⟨_, _, rfl, by omega⟩
  · rw [MqttPacket.Measured, (encode_of_not_bare hbare version).2] at hm
    refine (returns_encode_iff p version buf).mpr ⟨fun h => ?_, fun h => ?_⟩
    · obtain ⟨⟨d, hd⟩, -⟩ := h
      exact hdisc d hd
    · obtain ⟨he, hroom, hlong⟩ := h
      have := headerLen_le (hm he hroom)
      omega

/-! ## The embedded client -/

namespace MqttClient
variable {E : Type} {bufSize maxInflight : ℕ} {version : MqttVersion}
  {incoming : List (Except E (BoundedVec UInt8 bufSize))}

/-- The client has this version, and these are the results of the receives to come. -/
def Awaits (version : MqttVersion) (incoming : List (Except E (BoundedVec UInt8 bufSize)))
    (s : MqttClient E bufSize maxInflight) : Prop :=
  s.options.version = version ∧ s.transport.incoming = incoming

theorem answers_lift {α : Type} {I : MqttClient E bufSize maxInflight → Prop}
    {x : Checked PacketError α} (h : Returns x) :
    Answers I (lift x : ClientM E bufSize maxInflight α) := by
  rcases (returns_iff x).mp h with ⟨a, rfl⟩ | ⟨e, rfl⟩
  · exact Answers.pure a
  · exact Answers.error _

theorem answers_send (bytes : List UInt8) :
    Answers (Awaits version incoming) (send bytes : ClientM E bufSize maxInflight Unit) := by
  intro s hs
  rw [Ends, send]
  rcases s.transport.sendResults with _ | ⟨_ | e, later⟩
  · exact hs
  · exact hs
  · exact ⟨_, rfl⟩

theorem answers_sendPacket {p : MqttPacket} (hdisc : ∀ d, p ≠ .disconnect d)
    (hm : p.Measured version bufSize) :
    Answers (Awaits version incoming) (sendPacket p : ClientM E bufSize maxInflight Unit) := by
  intro s hs
  rw [← hs.1] at hm
  have hreturns := encodeReturns_of_measured s.txBuffer.length_eq hdisc hm
  apply Ends.bind
  rw [Ends, encodeTx, if_pos (Nat.zero_le _), List.drop_zero]
  rcases hreturns with ⟨n, tail, hencode, hle⟩ | ⟨e, tail, hencode⟩
  · rw [hencode]
    apply Ends.bind
    have htx : Awaits version incoming (s.withTx (s.txBuffer.setTail 0 tail)) := hs
    change Ends (sendTx n) (s.withTx (s.txBuffer.setTail 0 tail)) _ _
    rw [Ends, sendTx_of_le hle]
    exact answers_send _ _ htx
  · rw [hencode]
    exact ⟨_, rfl⟩

theorem answers_requireConnected :
    Answers (Awaits version incoming) (requireConnected : ClientM E bufSize maxInflight Unit) := by
  apply Answers.get_bind
  intro s _
  split
  · exact Answers.error _
  · exact Answers.pure _

theorem answers_pingIfDue (now : ℕ) :
    Answers (Awaits version incoming) (pingIfDue now : ClientM E bufSize maxInflight Unit) := by
  apply Answers.get_bind
  intro s _
  split
  · exact (answers_sendPacket (by simp) (short_pingReq.measured _ _)).bind
      fun _ => Answers.modify fun _ hs => hs
  · exact Answers.pure _

/-- No packet that has been decoded stops the client from returning. -/
theorem answers_handlePacket (packet : MqttPacket) :
    Answers (Awaits version incoming)
      (handlePacket packet : ClientM E bufSize maxInflight (Option MqttEvent)) := by
  have hack {p : MqttPacket} (h : p.IsAck) :
      Answers (Awaits version incoming) (sendPacket p : ClientM E bufSize maxInflight Unit) := by
    apply answers_sendPacket _ ((short_of_isAck h).measured _ _)
    obtain ⟨id, rfl | rfl | rfl | rfl⟩ := h <;> simp
  have htable (f : InflightQueue maxInflight → Option (InflightQueue maxInflight)) :
      Answers (Awaits version incoming) (updateInflight f : ClientM E bufSize maxInflight Unit) :=
    Answers.modify fun _ hs => hs
  cases packet with
  | publish p =>
    unfold handlePacket
    dsimp only
    split
    · exact (hack ⟨_, .inl rfl⟩).bind fun _ => Answers.pure _
    · exact (hack ⟨_, .inr (.inl rfl)⟩).bind fun _ => (htable _).bind fun _ => Answers.pure _
    · exact Answers.pure _
  | pubAck ack => exact (htable _).bind fun _ => Answers.pure _
  | pubRec rec =>
    exact (htable _).bind fun _ => (hack ⟨_, .inr (.inr (.inl rfl))⟩).bind fun _ => Answers.pure _
  | pubRel rel =>
    exact (htable _).bind fun _ => (hack ⟨_, .inr (.inr (.inr rfl))⟩).bind fun _ => Answers.pure _
  | pubComp comp => exact (htable _).bind fun _ => Answers.pure _
  | disconnect d => exact Answers.bind (Answers.modify fun _ hs => hs) fun _ => Answers.pure _
  | _ => exact Answers.pure _

section
variable {s : MqttClient E bufSize maxInflight} {chunk : BoundedVec UInt8 bufSize}
  {later : List (Except E (BoundedVec UInt8 bufSize))}

/-- What has been received is decoded, and then something is done that returns. -/
theorem returned_decodeRx {α : Type} {f : Option MqttPacket → ClientM E bufSize maxInflight α}
    (hs : Awaits version later s)
    (hbytes : s.rxBuffer.bytes.take chunk.toList.length = chunk.toList)
    (hdecode : Returns (decode chunk.toList version))
    (hf : ∀ packet, Answers (Awaits version later) (f packet)) :
    Returned (decodeRx chunk.toList.length >>= f) s := by
  have hrange : (range s.rxBuffer.bytes 0 chunk.toList.length : Checked PacketError (List UInt8)) =
      .ok chunk.toList := by
    rw [range_of_le (Nat.zero_le _) (by rw [Buffer.length_eq]; exact chunk.length_le),
      List.drop_zero, hbytes]
  have hrun : (decodeRx chunk.toList.length >>= f) s = (lift (decode chunk.toList version) >>= f) s := by
    apply run_bind_congr
    change (lift (range s.rxBuffer.bytes 0 chunk.toList.length) >>= fun bytes =>
      lift (decode bytes s.options.version)) s = _
    rw [hrange, hs.1]
    rfl
  rw [Returned, Ends, hrun]
  exact (Answers.bind (answers_lift hdecode) hf).returned hs

theorem take_fill (buf : Buffer bufSize) (chunk : BoundedVec UInt8 bufSize) :
    (buf.fill chunk).bytes.take chunk.toList.length = chunk.toList := by
  simp [Buffer.fill]

/-- **`poll` returns on what `decode` returns on.** -/
theorem returned_poll (hincoming : s.transport.incoming = .ok chunk :: later)
    (hdecode : Returns (decode chunk.toList s.options.version)) (now : ℕ) :
    Returned (poll now) s := by
  have hstart : Awaits s.options.version (.ok chunk :: later) s := ⟨rfl, hincoming⟩
  generalize s.options.version = version at hdecode hstart
  apply Ends.bind
  apply (answers_requireConnected s hstart).mono _ fun _ _ he => he
  intro _ s₁ h₁
  apply Ends.bind
  apply (answers_pingIfDue now s₁ h₁).mono _ fun _ _ he => he
  intro _ s₂ h₂
  by_cases hne : chunk.toList = []
  · apply Ends.bind
    rw [Ends, recv, h₂.2]
    dsimp only
    rw [if_pos (by simp [hne])]
    trivial
  · have h₃ : Awaits version later (taken s₂ chunk later) := ⟨h₂.1, rfl⟩
    rw [Ends, receive_eq h₂.2 hne]
    refine returned_decodeRx h₃ (take_fill _ _) hdecode fun packet => ?_
    cases packet with
    | some packet => exact answers_handlePacket packet
    | none => exact Answers.pure _

/-- **`connect` returns on what `decode` returns on, if its CONNECT can be encoded.** -/
theorem returned_connect (hincoming : s.transport.incoming = .ok chunk :: later)
    (hdecode : Returns (decode chunk.toList s.options.version))
    (hsend : (MqttPacket.connect (connectPacket s.options)).Measured s.options.version bufSize)
    (now : ℕ) : Returned (connect now) s := by
  let s₁ : MqttClient E bufSize maxInflight := { s with state := .connecting }
  have h₁ : Awaits s.options.version (.ok chunk :: later) s₁ := ⟨rfl, hincoming⟩
  have hrefuse {I : MqttClient E bufSize maxInflight → Prop} (hI : ∀ s state, I s → I { s with state })
      (e : MqttError E) :
      Answers I (do setState .disconnected; fail e : ClientM E bufSize maxInflight Unit) :=
    Answers.bind (Answers.modify fun s hs => hI s _ hs) fun _ => Answers.error _
  apply Ends.bind
  change Ends _ s₁ _ _
  apply Ends.bind
  apply Ends.get
  apply Ends.bind
  apply (answers_sendPacket (by simp) hsend s₁ h₁).mono _ fun _ _ he => he
  intro _ s₂ h₂
  apply Ends.bind
  change Ends _ { s₂ with lastTxTime := now } _ _
  apply Ends.bind
  rw [Ends, recv, h₂.2]
  dsimp only
  split
  · exact (hrefuse (I := fun _ => True) (fun _ _ _ => trivial) _).returned trivial
  · have h₃ : Awaits s.options.version later
        { taken s₂ chunk later with rxLen := s₂.rxLen, lastTxTime := now } := ⟨h₂.1, rfl⟩
    refine returned_decodeRx h₃ (take_fill _ _) hdecode fun packet => ?_
    split
    · split
      · exact Answers.modify fun _ hs => hs
      · exact hrefuse (fun _ _ hs => hs) _
    · exact hrefuse (fun _ _ hs => hs) _

end

end MqttClient

/-! ## The Tokio client -/

namespace Tokio
open Conn EventLoop
variable {E R S W : Type} {maxPacketSize : ℕ} {s : Conn E R S W maxPacketSize}

theorem answers_lift {α : Type} {I : Conn E R S W maxPacketSize → Prop} (e : ClientError E)
    {x : Checked PacketError α} (h : Returns x) : Answers I (lift e x) := by
  rcases (returns_iff x).mp h with ⟨a, rfl⟩ | ⟨e', rfl⟩
  · exact Answers.pure a
  · exact Answers.error _

/-- Nothing but a read changes what the peer sends. -/
def Expects (version : MqttVersion) (incoming : List (Except E (List UInt8)))
    (s : Conn E R S W maxPacketSize) : Prop :=
  s.options.version = version ∧ s.socket.incoming = incoming

theorem answers_writeAll {version : MqttVersion} {incoming : List (Except E (List UInt8))}
    (bytes : List UInt8) :
    Answers (Expects version incoming) (writeAll bytes : ConnM E R S W maxPacketSize Unit) := by
  intro s hs
  rw [Ends, writeAll]
  rcases s.socket.writeResults with _ | ⟨_ | ⟨n, e⟩, later⟩
  · exact hs
  · exact hs
  · exact ⟨_, rfl⟩

theorem answers_flush {version : MqttVersion} {incoming : List (Except E (List UInt8))} :
    Answers (Expects version incoming) (flush : ConnM E R S W maxPacketSize Unit) := by
  intro s hs
  rw [Ends, flush]
  rcases s.socket.flushResults with _ | ⟨_ | e, later⟩
  · exact hs
  · exact hs
  · exact ⟨_, rfl⟩

/-- **The handshake returns on what `decode` returns on.** -/
theorem returned_performConnectHandshake {segment : List UInt8} {later : List (Except E (List UInt8))}
    (hincoming : s.socket.incoming = .ok segment :: later)
    (hdecode : Returns (decode (segment.take maxPacketSize) s.options.version)) :
    Returned performConnectHandshake s := by
  have hreturns := encodeReturns_of_measured s.txBuf.length_eq (by simp)
    ((short_connectPacket s.options).measured s.options.version maxPacketSize)
  apply Ends.bind
  apply Ends.get
  apply Ends.bind
  rw [Ends, encodeTx, if_pos (Nat.zero_le _), List.drop_zero]
  rcases hreturns with ⟨n, tail, hencode, hle⟩ | ⟨e, tail, hencode⟩
  · rw [hencode]
    let s₁ := s.withTx (s.txBuf.setTail 0 tail)
    have h₁ : Expects s.options.version (.ok segment :: later) s₁ := ⟨rfl, hincoming⟩
    generalize s.options.version = version at hdecode h₁
    change Ends (writeTx n >>= _) s₁ _ _
    apply Ends.bind
    rw [Ends, writeTx_of_le hle]
    apply (answers_writeAll _ s₁ h₁).mono _ fun _ _ he => he
    intro _ s₂ h₂
    apply Ends.bind
    apply (answers_flush s₂ h₂).mono _ fun _ _ he => he
    intro _ s₃ h₃
    apply Ends.bind
    rw [Ends, EventLoop.read, if_neg (Nat.not_lt_zero _)]
    by_cases hzero : 0 = maxPacketSize
    · rw [if_pos hzero]
      exact ⟨_, rfl⟩
    · rw [if_neg hzero]
      dsimp only
      rw [h₃.2]
      dsimp only
      rw [Nat.sub_zero]
      have hfit : (segment.take maxPacketSize).length ≤ maxPacketSize := List.length_take_le _ _
      generalize segment.take maxPacketSize = data at hdecode hfit
      split
      · exact ⟨_, rfl⟩
      · have hrange : (range (receiveAt s₃.rxBuf 0 data).bytes 0 data.length :
            Checked PacketError (List UInt8)) = .ok data := by
          rw [range_of_le (Nat.zero_le _) (by rwa [Buffer.length_eq]), List.drop_zero,
            take_receiveAt_zero _ hfit]
        apply Ends.bind
        apply Ends.get
        dsimp only
        rw [hrange, h₃.1]
        apply Answers.returned (I := fun _ => True) _ trivial
        apply Answers.bind (answers_lift _ hdecode)
        intro packet
        split
        · split
          · exact Answers.pure _
          · exact Answers.error _
        · exact Answers.error _
  · rw [hencode]
    exact ⟨_, rfl⟩

end Tokio

/-! ## Safe bytes -/

/-- All decoders return on these bytes, and so do the clients that receive them at once: `poll`, the
two handshakes. A CONNECT that is too long to be encoded is not the broker's. -/
structure DecodesSafely (version : MqttVersion) (buf : List UInt8) : Prop where
  any : Returns (decode buf version)
  connect : Returns (Connect.decode buf version)
  connAck : Returns (ConnAck.decode buf version)
  publish : Returns (Publish.decode buf version)
  ack : Returns (Ack.decode buf version)
  subscribe : Returns (Subscribe.decode buf version)
  codesAck : Returns (CodesAck.decode buf version)
  unsubscribe : Returns (Unsubscribe.decode buf version)
  disconnect : Returns (Disconnect.decode buf version)
  poll : ∀ {E : Type} {bufSize maxInflight : ℕ} (s : MqttClient E bufSize maxInflight) chunk later now,
    s.options.version = version → s.transport.incoming = .ok chunk :: later → chunk.toList = buf →
      Returned (MqttClient.poll now) s
  embeddedHandshake : ∀ {E : Type} {bufSize maxInflight : ℕ} (s : MqttClient E bufSize maxInflight)
    chunk later now,
    s.options.version = version → s.transport.incoming = .ok chunk :: later → chunk.toList = buf →
      (MqttPacket.connect (MqttClient.connectPacket s.options)).Measured version bufSize →
        Returned (MqttClient.connect now) s
  tokioHandshake : ∀ {E R S W : Type} {maxPacketSize : ℕ} (s : Tokio.Conn E R S W maxPacketSize)
    segment later,
    s.options.version = version → s.socket.incoming = .ok segment :: later →
      segment.take maxPacketSize = buf → Returned Tokio.EventLoop.performConnectHandshake s

/-- **Bytes are safe unless they are a PUBLISH that overruns its content.** -/
theorem decodesSafely_iff (version : MqttVersion) (buf : List UInt8) :
    DecodesSafely version buf ↔ ¬ PublishOverrun buf version := by
  refine ⟨fun h => (returns_publish_iff buf version).mp h.publish, fun h => ?_⟩
  have hdecode : Returns (decode buf version) :=
    (returns_decode_iff buf version).mpr fun hover => h hover.2
  refine ⟨hdecode, returns_connect buf version, returns_connAck buf version,
    (returns_publish_iff buf version).mpr h, returns_ack buf version, returns_subscribe buf version,
    returns_codesAck buf version, returns_unsubscribe buf version, returns_disconnect buf version,
    ?_, ?_, ?_⟩
  · rintro E bufSize maxInflight s chunk later now rfl hincoming rfl
    exact MqttClient.returned_poll hincoming hdecode now
  · rintro E bufSize maxInflight s chunk later now rfl hincoming rfl hsend
    exact MqttClient.returned_connect hincoming hdecode hsend now
  · rintro E R S W maxPacketSize s segment later rfl hincoming rfl
    exact Tokio.returned_performConnectHandshake hincoming hdecode

/-- A PUBLISH that declares no content, with an empty topic behind it. -/
theorem not_decodesSafely_publish : ¬ DecodesSafely .v3_1_1 [0x30, 0, 0, 0] := by
  intro h
  have hpanics : decode [0x30, 0, 0, 0] .v3_1_1 = .error .panic := rfl
  exact h.any.1 hpanics

end MqttEngine
