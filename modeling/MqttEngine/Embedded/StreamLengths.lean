import MqttEngine.Embedded.Publishing
import MqttEngine.Embedded.System
import MqttEngine.Packet.EncoderSafety

/-!
# Lengths that are announced

The remaining length of a packet reaches the wire on two paths: the encoders write it behind the
first byte of a packet they have put together, and `begin_stream_publish` announces it for a
payload that is still to come. Neither compares it with the greatest length that four bytes can
say.

## Main definitions

* `streamRemaining` — the remaining length that a stream announces.
* `StreamStops` — `begin_stream_publish` fails before it sends anything.
* `StreamLengthChecked` — the length that is announced is checked.

## Main results

* `beginStreamPublish_sends` — what `begin_stream_publish` sends.
* `lengths_checked_iff` — when lengths are checked, on both paths.
-/

namespace MqttEngine.MqttClient
open Checked

variable {E : Type} {bufSize maxInflight : ℕ}

/-- The remaining length of a streamed PUBLISH: its variable header, the same for every packet id,
and the payload that is to come. -/
def streamRemaining (version : MqttVersion) (topic : String) (total : ℕ) (qos : QoS) : ℕ :=
  (streamContent version topic (if qos = .atMostOnce then none else some 0)).length + total

/-- The length fits in a `usize`. -/
def FitsUsize (length : ℕ) : Prop := length < 2 ^ 64

/-- A stream does not begin: the client is not connected, its table of packet ids is full, or the
transport fails at the first send. -/
def StreamStops (s : MqttClient E bufSize maxInflight) (topic : String) (total : ℕ) (qos : QoS) :
    Prop :=
  s.state ≠ .connected ∨ reserve s.inflight s.nextPacketId qos = none ∨
    (FitsUsize (streamRemaining s.options.version topic total qos) ∧
      ∃ e, s.transport.sendResults.head? = some (some e))

/-- The header that announces this remaining length has been sent, and nothing before it. -/
def Announced (s s' : MqttClient E bufSize maxInflight) (qos : QoS) (remaining : ℕ) : Prop :=
  ∃ rest, s'.transport.sent = s.transport.sent ++ streamHeader qos remaining :: rest

/-- A send adds to what has been sent, or it fails and adds nothing. -/
theorem send_adds (bytes : List UInt8) (s : MqttClient E bufSize maxInflight) :
    Ends (send bytes) s
      (fun _ s' => s'.transport.sent = s.transport.sent ++ [bytes] ∧
        ¬ ∃ e, s.transport.sendResults.head? = some (some e))
      fun e s' => (∃ e', e = .err e') ∧ s'.transport.sent = s.transport.sent ∧
        ∃ e, s.transport.sendResults.head? = some (some e) := by
  rcases hresults : s.transport.sendResults with _ | ⟨_ | e, results⟩
  · simp [Ends, send, hresults]
  · simp [Ends, send, hresults]
  · simp [Ends, send, hresults]

theorem length_streamContent_of_reserve {inflight inflight' : InflightQueue maxInflight}
    {next next' : UInt16} {qos : QoS} {id : Option UInt16}
    (h : reserve inflight next qos = some (id, inflight', next')) (version : MqttVersion)
    (topic : String) :
    (streamContent version topic id).length =
      (streamContent version topic (if qos = .atMostOnce then none else some 0)).length := by
  unfold reserve at h
  split at h
  · cases h
    rename_i hqos
    rw [if_pos hqos]
  · rename_i hqos
    obtain ⟨q, -, heq⟩ := Option.map_eq_some_iff.mp h
    cases heq
    rw [if_neg hqos]
    simp [length_streamContent]

/-- Behind the fixed header nothing takes back what has been sent. -/
theorem announced_tail (topic : String) (id : Option UInt16) (version : MqttVersion)
    (varBuf : Buffer 256) (total now : ℕ) (s₁ : MqttClient E bufSize maxInflight) :
    Ends (match writeStreamHeader topic id version ⟨varBuf.bytes, 0⟩ with
      | .error e _ => lift (.error e)
      | .ok _ out => do
        let varHeader ← lift (range out.buf 0 out.cursor)
        send varHeader
        setLastTx now
        pure ({ totalLen := total, bytesRemaining := total } : MqttStreamWriter)) s₁
      (fun _ s' => ∃ rest, s'.transport.sent = s₁.transport.sent ++ rest)
      fun _ s' => ∃ rest, s'.transport.sent = s₁.transport.sent ++ rest := by
  have hlift {α : Type} (x : Checked PacketError α) :
      Preserves (fun s' : MqttClient E bufSize maxInflight =>
        ∃ rest, s'.transport.sent = s₁.transport.sent ++ rest) (lift x) := by
    rcases x with (_ | _ | _) | a
    · exact Preserves.throw _
    · exact Preserves.throw _
    · exact Preserves.throw _
    · exact Preserves.pure a
  have hsend (bytes : List UInt8) :
      Preserves (fun s' : MqttClient E bufSize maxInflight =>
        ∃ rest, s'.transport.sent = s₁.transport.sent ++ rest) (send bytes) := by
    rintro s ⟨rest, hrest⟩
    refine (send_adds bytes s).mono ?_ ?_
    · rintro _ s' ⟨hsent, -⟩
      exact ⟨rest ++ [bytes], by rw [hsent, hrest, List.append_assoc]⟩
    · rintro _ s' ⟨-, hsent, -⟩
      exact ⟨rest, by rw [hsent, hrest]⟩
  have hset : Preserves (fun s' : MqttClient E bufSize maxInflight =>
      ∃ rest, s'.transport.sent = s₁.transport.sent ++ rest) (setLastTx now) :=
    Preserves.modify fun _ h => h
  have hstart : ∃ rest, s₁.transport.sent = s₁.transport.sent ++ rest := ⟨[], by simp⟩
  rcases writeStreamHeader topic id version ⟨varBuf.bytes, 0⟩ with ⟨_, out⟩ | ⟨e, _⟩
  · exact ((hlift _).bind fun varHeader => (hsend varHeader).bind fun _ =>
      hset.bind fun _ => Preserves.pure _) s₁ hstart
  · exact hlift _ s₁ hstart

/-- What `begin_stream_publish` sends: nothing, if it stops before; otherwise the header that
announces the remaining length comes first. A remaining length beyond `usize` panics. -/
theorem beginStreamPublish_sends (s : MqttClient E bufSize maxInflight) (topic : String)
    (total : ℕ) (qos : QoS) (now : ℕ) :
    Ends (beginStreamPublish topic total qos now) s
      (fun _ s' => ¬ StreamStops s topic total qos ∧
        Announced s s' qos (streamRemaining s.options.version topic total qos))
      fun e s' =>
        (StreamStops s topic total qos ∧ (∃ e', e = .err e') ∧
          s'.transport.sent = s.transport.sent) ∨
        (¬ StreamStops s topic total qos ∧
          ((¬ FitsUsize (streamRemaining s.options.version topic total qos) ∧ e = .panic) ∨
            Announced s s' qos (streamRemaining s.options.version topic total qos))) := by
  by_cases hconnected : s.state = .connected
  · apply Ends.bind
    rw [Ends, requireConnected_of_connected hconnected]
    apply Ends.bind
    rcases hreserve : reserve s.inflight s.nextPacketId qos with _ | ⟨id, inflight, next⟩
    · rw [Ends, allocatePacketId_of_none hreserve]
      exact .inl ⟨.inr (.inl hreserve), ⟨_, rfl⟩, rfl⟩
    · rw [Ends, allocatePacketId_of_some hreserve]
      dsimp only
      apply Ends.bind
      apply Ends.get
      dsimp only
      have hlen := length_streamContent s.options.version topic id
      dsimp only at hlen
      rw [← hlen, length_streamContent_of_reserve hreserve]
      change Ends (addUsize _ _ >>= _) _ _ _
      have hremaining : (streamContent s.options.version topic
          (if qos = .atMostOnce then none else some 0)).length + total =
            streamRemaining s.options.version topic total qos := rfl
      have hstops : StreamStops s topic total qos ↔
          FitsUsize (streamRemaining s.options.version topic total qos) ∧
            ∃ e, s.transport.sendResults.head? = some (some e) := by
        simp [StreamStops, hconnected, hreserve]
      apply Ends.bind
      rw [addUsize, hremaining]
      generalize streamRemaining s.options.version topic total qos = remaining at hstops ⊢
      by_cases hsum : remaining < 2 ^ 64
      · rw [if_pos hsum]
        apply Ends.pure
        obtain ⟨hwrite, hheader⟩ := streamHeader_of_lt qos hsum
        rw [hwrite]
        dsimp only
        rw [hheader]
        apply Ends.bind
        apply Ends.pure
        apply Ends.bind
        generalize (Buffer.zero : Buffer 256) = varBuf
        refine (send_adds (streamHeader qos remaining)
          { s with inflight, nextPacketId := next }).mono ?_ ?_
        · intro _ s₁ hsend
          obtain ⟨hsent, hok⟩ := hsend
          have hgoes : ¬ StreamStops s topic total qos := fun h => hok (hstops.mp h).2
          refine (announced_tail topic id s.options.version varBuf total now s₁).mono ?_ ?_
          · rintro _ s' ⟨rest, hrest⟩
            exact ⟨hgoes, rest, by rw [hrest, hsent, List.append_assoc]; rfl⟩
          · rintro _ s' ⟨rest, hrest⟩
            exact .inr ⟨hgoes, .inr ⟨rest, by rw [hrest, hsent, List.append_assoc]; rfl⟩⟩
        · intro _ s' hsend
          obtain ⟨he, hsent, hfirst⟩ := hsend
          exact .inl ⟨hstops.mpr ⟨hsum, hfirst⟩, he, hsent⟩
      · rw [if_neg hsum]
        exact .inr ⟨fun h => hsum (hstops.mp h).1, .inl ⟨hsum, rfl⟩⟩
  · apply Ends.bind
    rw [Ends, requireConnected_of_not hconnected]
    exact .inl ⟨.inl hconnected, ⟨_, rfl⟩, rfl⟩

/-- The remaining length that `begin_stream_publish` announces is checked: if it exceeds what four
bytes can say, the operation returns an error and sends nothing, and the length field of the header
that it sends is read back as this length. -/
def StreamLengthChecked (s : MqttClient E bufSize maxInflight) (topic : String) (total : ℕ)
    (qos : QoS) (now : ℕ) : Prop :=
  let remaining := streamRemaining s.options.version topic total qos
  (268435455 < remaining → ∃ e s', beginStreamPublish topic total qos now s = .error (.err e) s' ∧
    s'.transport.sent = s.transport.sent) ∧
  ((beginStreamPublish topic total qos now s).final.transport.sent = s.transport.sent ∨
    ∃ header rest, (beginStreamPublish topic total qos now s).final.transport.sent =
      s.transport.sent ++ header :: rest ∧
      readVariableByteInteger 1 header = .ok (remaining, header.length) ∧
      2 ≤ header.length ∧ header.length ≤ 5)

theorem readStreamHeader (qos : QoS) {remaining : ℕ} (h : remaining ≤ 268435455) :
    readVariableByteInteger 1 (streamHeader qos remaining) =
        .ok (remaining, (streamHeader qos remaining).length) ∧
      2 ≤ (streamHeader qos remaining).length ∧ (streamHeader qos remaining).length ≤ 5 := by
  have hpos := Base128.length_encode_pos remaining
  have hfour := Base128.length_encode_le (show 0 < 4 by decide)
    (show remaining < 128 ^ 4 by omega)
  have hread := reads_vbi (show remaining < 128 ^ 4 by omega) 1 (streamHeader qos remaining) []
    (by simp [streamHeader])
  have hlen : (streamHeader qos remaining).length = 1 + (Base128.encode remaining).length := by
    rw [streamHeader, List.length_cons, Nat.add_comm]
  rw [hread, hlen]
  exact ⟨rfl, by omega, by omega⟩

/-- The length is checked exactly if it fits in four bytes, or if the operation fails for another
reason before it sends anything. -/
theorem streamLengthChecked_iff (s : MqttClient E bufSize maxInflight) (topic : String)
    (total : ℕ) (qos : QoS) (now : ℕ) :
    StreamLengthChecked s topic total qos now ↔
      streamRemaining s.options.version topic total qos ≤ 268435455 ∨
        StreamStops s topic total qos := by
  have hends := beginStreamPublish_sends s topic total qos now
  unfold StreamLengthChecked
  dsimp only
  by_cases hstops : StreamStops s topic total qos
  · -- Nothing is sent, and the operation returns an error.
    obtain ⟨e, s', herror, hsent⟩ : ∃ e s', beginStreamPublish topic total qos now s =
        .error (.err e) s' ∧ s'.transport.sent = s.transport.sent := by
      rcases hrun : beginStreamPublish topic total qos now s with ⟨writer, s'⟩ | ⟨e, s'⟩
      · exact absurd hstops (hends.ok_of hrun).1
      · rcases hends.error_of hrun with ⟨-, ⟨e', rfl⟩, hsent⟩ | ⟨hgoes, -⟩
        · exact ⟨e', s', rfl, hsent⟩
        · exact absurd hstops hgoes
    refine iff_of_true ⟨fun _ => ⟨e, s', herror, hsent⟩, .inl ?_⟩ (.inr hstops)
    rw [herror]
    exact hsent
  · have hsends : (∃ s', beginStreamPublish topic total qos now s = .error .panic s' ∧
          ¬ FitsUsize (streamRemaining s.options.version topic total qos)) ∨
        Announced s (beginStreamPublish topic total qos now s).final qos
          (streamRemaining s.options.version topic total qos) := by
      rcases hrun : beginStreamPublish topic total qos now s with ⟨writer, s'⟩ | ⟨e, s'⟩
      · exact .inr (hends.ok_of hrun).2
      · rcases hends.error_of hrun with ⟨hstop, -⟩ | ⟨-, ⟨hlarge, rfl⟩ | hannounced⟩
        · exact absurd hstop hstops
        · exact .inl ⟨s', rfl, hlarge⟩
        · exact .inr hannounced
    rw [or_iff_left hstops]
    constructor
    · intro h
      by_contra hlong
      obtain ⟨e, s', herror, hsent⟩ := h.1 (by omega)
      rcases hsends with ⟨s'', hpanic, -⟩ | ⟨rest, hrest⟩
      · rw [herror] at hpanic
        cases hpanic
      · rw [herror, EStateM.Result.final_error, hsent] at hrest
        simp at hrest
    · intro hshort
      refine ⟨fun h => by omega, .inr ?_⟩
      rcases hsends with ⟨_, _, hlarge⟩ | ⟨rest, hrest⟩
      · exact absurd (Nat.lt_of_le_of_lt hshort (by decide)) hlarge
      · exact ⟨_, rest, hrest, readStreamHeader qos hshort⟩

/-- When lengths are checked: by the encoders, and by `begin_stream_publish`. -/
theorem lengths_checked_iff :
    (∀ (p : MqttPacket) (version : MqttVersion) (buf : List UInt8), p.LengthChecked version buf ↔
      (p.content version).length ≤ 268435455 ∨
        ¬ (p.Encodable ∧ 5 + (p.content version).length ≤ buf.length)) ∧
    ∀ (s : MqttClient E bufSize maxInflight) (topic : String) (total : ℕ) (qos : QoS) (now : ℕ),
      StreamLengthChecked s topic total qos now ↔
        streamRemaining s.options.version topic total qos ≤ 268435455 ∨
          StreamStops s topic total qos :=
  ⟨lengthChecked_iff, streamLengthChecked_iff⟩

/-- A stream of 268435456 bytes is announced with a length field of five bytes. -/
theorem lengths_unchecked_stream :
    ¬ ∀ (s : MqttClient Unit 64 4) (topic : String) (total : ℕ) (qos : QoS) (now : ℕ),
      StreamLengthChecked s topic total qos now := by
  intro hall
  obtain ⟨e, s', herror, -⟩ := (hall
    { MqttClient.new ⟨[], [], []⟩ plainOptions 0 with state := .connected } "a" 268435456
    .atMostOnce 0).1 (by decide +kernel)
  have hok : (match (beginStreamPublish "a" 268435456 .atMostOnce 0
      { MqttClient.new ⟨[], [], []⟩ plainOptions 0 with state := .connected } :
        EStateM.Result _ (MqttClient Unit 64 4) _) with
      | .ok _ _ => true
      | .error _ _ => false) = true := by decide +kernel
  rw [herror] at hok
  cases hok

end MqttEngine.MqttClient
