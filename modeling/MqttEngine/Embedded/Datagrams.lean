import MqttEngine.Embedded.System
import MqttEngine.Packet.RoundTrip

/-!
# Datagrams of the QUIC client

`publish_datagram` puts the length of the topic, the topic and the payload into a datagram, without
a header in front of them. `recv_datagram` reads a datagram with `decode`. The first byte of a
datagram that is sent is the high byte of a length of at most 1022, which `decode` takes for a
packet of type 0.

## Main definitions

* `QuicMqttClient`, `publishDatagram`, `recvDatagram` — the client and its two operations.
* `DatagramArrives` — what is sent is received as a PUBLISH of the same topic and payload.

## Main results

* `recvDatagram_publish` — a datagram that holds a PUBLISH packet is received.
* `datagram_refused` — a datagram that has been sent is refused.
-/

namespace MqttEngine
open Checked

/-- The datagrams of a `MqttQuicTransport`: what has been sent, and what is to come. -/
structure QuicTransport (E : Type) (bufSize : ℕ) where
  /-- Every datagram handed to `send_datagram` so far. -/
  sent : List (List UInt8)
  /-- The errors of the sends to come; a send without an entry succeeds. -/
  sendResults : List (Option E)
  /-- The results of the receives to come. A receive fills the buffer it is given, so it
  returns at most `bufSize` bytes. -/
  incoming : List (Except E (BoundedVec UInt8 bufSize))

/-- `QuicMqttClient`. -/
structure QuicMqttClient (E : Type) (bufSize : ℕ) where
  transport : QuicTransport E bufSize
  options : MqttOptions
  rxBuf : Buffer bufSize

/-- A program on the client's state. -/
abbrev QuicM (E : Type) (bufSize : ℕ) := EStateM (Fault (MqttError E)) (QuicMqttClient E bufSize)

namespace QuicMqttClient
variable {E : Type} {bufSize : ℕ}

/-- `QuicMqttClient::new`. -/
def new (transport : QuicTransport E bufSize) (options : MqttOptions) : QuicMqttClient E bufSize :=
  { transport, options, rxBuf := .zero }

/-- `x.map_err(MqttError::from)?` for a call of the packet layer. -/
def lift {α : Type} (x : Checked PacketError α) : QuicM E bufSize α :=
  match x with
  | .ok a => pure a
  | .error (.err e) => throw (.err (.fromPacketError e))
  | .error .panic => throw .panic
  | .error .diverge => throw .diverge

/-- `self.transport.send_datagram(data).await?`. -/
def sendDatagram (data : List UInt8) : QuicM E bufSize Unit := fun s =>
  let t := s.transport
  match t.sendResults with
  | some e :: sendResults =>
    .error (.err (.transport e)) { s with transport := { t with sendResults } }
  | none :: sendResults =>
    .ok () { s with transport := { t with sendResults, sent := t.sent ++ [data] } }
  | [] => .ok () { s with transport := { t with sent := t.sent ++ [data] } }

/-- `self.transport.recv_datagram(&mut self.rx_buf).await?`. Without a result to come the call
does not end. -/
def fillRxBuf : QuicM E bufSize ℕ := fun s =>
  let t := s.transport
  match t.incoming with
  | [] => .error .diverge s
  | .error e :: incoming =>
    .error (.err (.transport e)) { s with transport := { t with incoming } }
  | .ok chunk :: incoming =>
    .ok chunk.toList.length
      { s with transport := { t with incoming }, rxBuf := s.rxBuf.fill chunk }

/-- `QuicMqttClient::publish_datagram`. -/
def publishDatagram (topic : String) (payload : List UInt8) : QuicM E bufSize Unit :=
  match writeUtf8String topic (Buffer.zero : Buffer 1024).bytes with
  | .error e _ => lift (.error e)
  | .ok cursor buf =>
    if cursor + payload.length > buf.length then throw (.err (.quicError .datagramTooLarge))
    else
      match (SliceWriter.storeSlice payload : SliceWriter PacketError UInt8 Unit) ⟨buf, cursor⟩ with
      | .error e _ => lift (.error e)
      | .ok _ out => do
        let data ← lift (range out.buf 0 (cursor + payload.length))
        sendDatagram data

/-- `QuicMqttClient::recv_datagram`. -/
def recvDatagram : QuicM E bufSize (Option MqttEvent) := do
  let n ← fillRxBuf
  if n = 0 then pure none
  else do
    let s ← get
    let bytes ← lift (range s.rxBuf.bytes 0 n)
    match ← lift (decode bytes s.options.version) with
    | some (.publish p) => pure (some (.publish p))
    | _ => pure none

/-! ## What is sent -/

section
variable {s s' : QuicMqttClient E bufSize} {topic : String} {payload data : List UInt8}

/-- A datagram that fits is the topic behind its length, and then the payload. -/
theorem publishDatagram_fits (h : 2 + (strBytes topic).length + payload.length ≤ 1024) :
    (publishDatagram topic payload : QuicM E bufSize Unit) =
      sendDatagram (lengthPrefixed (strBytes topic) ++ payload) := by
  rw [publishDatagram]
  generalize (Buffer.zero : Buffer 1024) = buf
  have hlength := buf.length_eq
  have htopic : writeUtf8String topic buf.bytes = .ok (2 + (strBytes topic).length)
      (lengthPrefixed (strBytes topic) ++ buf.bytes.drop (2 + (strBytes topic).length)) := by
    simp only [writeUtf8String, writeLengthPrefixed]
    rw [if_neg (by omega), if_pos (by omega), lengthPrefixed]
  have hfront := length_lengthPrefixed (strBytes topic)
  generalize lengthPrefixed (strBytes topic) = front at htopic hfront ⊢
  generalize hrest : buf.bytes.drop (2 + (strBytes topic).length) = rest at htopic
  have hbuf : (front ++ rest).length = 1024 := by
    rw [List.length_append, ← hrest, List.length_drop]
    omega
  rw [← hfront] at htopic h
  have hstore : SliceWriter.storeSlice payload ⟨front ++ rest, front.length⟩ =
      (.ok () ⟨front ++ payload ++ rest.drop payload.length, front.length + payload.length⟩ :
        EStateM.Result (Fault PacketError) (Out UInt8) Unit) := by
    rw [SliceWriter.storeSlice, if_pos (by dsimp only; omega)]
    simp [Out.patch, List.drop_append]
  have hrange : (range (front ++ payload ++ rest.drop payload.length) 0
      (front.length + payload.length) : Checked PacketError (List UInt8)) =
        .ok (front ++ payload) := by
    rw [range_of_le (Nat.zero_le _) (by simp), List.drop_zero, ← List.length_append,
      List.take_left]
  rw [htopic]
  dsimp only
  rw [if_neg (by omega), hstore]
  dsimp only
  rw [hrange]
  rfl

/-- A datagram that does not fit is not sent. -/
theorem publishDatagram_large (h : 1024 < 2 + (strBytes topic).length + payload.length) :
    ∃ e, publishDatagram topic payload s = .error (.err e) s := by
  rw [publishDatagram]
  generalize (Buffer.zero : Buffer 1024) = buf
  have hlength := buf.length_eq
  by_cases hfits : 2 + (strBytes topic).length ≤ buf.bytes.length
  · have htopic : writeUtf8String topic buf.bytes = .ok (2 + (strBytes topic).length)
        (lengthPrefixed (strBytes topic) ++ buf.bytes.drop (2 + (strBytes topic).length)) := by
      simp only [writeUtf8String, writeLengthPrefixed]
      rw [if_neg (by omega), if_pos hfits, lengthPrefixed]
    rw [htopic]
    dsimp only
    rw [if_pos (by simp; omega)]
    exact ⟨_, rfl⟩
  · obtain ⟨e, htopic⟩ : ∃ e, writeUtf8String topic buf.bytes = .error (.err e) buf.bytes := by
      simp only [writeUtf8String, writeLengthPrefixed, if_neg hfits]
      split
      · exact ⟨_, rfl⟩
      · exact ⟨_, rfl⟩
    rw [htopic]
    exact ⟨_, rfl⟩

theorem sendDatagram_ok (h : sendDatagram data s = .ok () s') :
    s'.transport.sent = s.transport.sent ++ [data] := by
  rcases hresults : s.transport.sendResults with _ | ⟨_ | e, results⟩
  all_goals
    simp only [sendDatagram, hresults] at h
    cases h
  all_goals rfl

/-- What has been sent. -/
theorem publishDatagram_ok (h : publishDatagram topic payload s = .ok () s') :
    2 + (strBytes topic).length + payload.length ≤ 1024 ∧
      s'.transport.sent = s.transport.sent ++ [lengthPrefixed (strBytes topic) ++ payload] := by
  by_cases hfits : 2 + (strBytes topic).length + payload.length ≤ 1024
  · rw [publishDatagram_fits hfits] at h
    exact ⟨hfits, sendDatagram_ok h⟩
  · obtain ⟨e, herror⟩ := publishDatagram_large (s := s) (Nat.lt_of_not_le hfits)
    rw [herror] at h
    cases h

end

/-! ## What is received -/

section
variable {r : QuicMqttClient E bufSize} {chunk : BoundedVec UInt8 bufSize}
  {later : List (Except E (BoundedVec UInt8 bufSize))}

/-- The client after `chunk` has been received. -/
def afterRecv (r : QuicMqttClient E bufSize) (chunk : BoundedVec UInt8 bufSize)
    (later : List (Except E (BoundedVec UInt8 bufSize))) : QuicMqttClient E bufSize :=
  { r with transport := { r.transport with incoming := later }, rxBuf := r.rxBuf.fill chunk }

/-- A datagram is decoded as a packet, and a PUBLISH becomes an event. -/
theorem recvDatagram_eq (h : r.transport.incoming = .ok chunk :: later) (hne : chunk.toList ≠ []) :
    recvDatagram r =
      (lift (decode chunk.toList r.options.version) >>= fun packet =>
        match packet with
        | some (.publish p) => pure (some (.publish p))
        | _ => pure none : QuicM E bufSize (Option MqttEvent)) (r.afterRecv chunk later) := by
  have hrecv : fillRxBuf r = .ok chunk.toList.length (r.afterRecv chunk later) := by
    simp only [fillRxBuf, h, afterRecv]
  have hrange : (range (r.rxBuf.fill chunk).bytes 0 chunk.toList.length :
      Checked PacketError (List UInt8)) = .ok chunk.toList := by
    rw [range_of_le (Nat.zero_le _) (by rw [Buffer.length_eq]; exact chunk.length_le), List.drop_zero]
    simp [Buffer.fill]
  rw [recvDatagram, run_bind hrecv, if_neg (by simpa using hne)]
  change (lift (range (r.rxBuf.fill chunk).bytes 0 chunk.toList.length) >>= fun bytes =>
    lift (decode bytes r.options.version) >>= _) (r.afterRecv chunk later) = _
  rw [hrange]
  rfl

/-- A datagram that holds a PUBLISH packet is received. -/
theorem recvDatagram_publish {p : Publish}
    (hp : (MqttPacket.publish p).Representable r.options.version)
    (he : (MqttPacket.publish p).Encodable) (h : r.transport.incoming = .ok chunk :: later)
    (hchunk : chunk.toList = (MqttPacket.publish p).wire r.options.version) :
    ∃ r', recvDatagram r = .ok (some (.publish p)) r' := by
  have hrun := recvDatagram_eq h (by rw [hchunk]; simp [MqttPacket.wire, frameBytes])
  have hdecode := decode_wire_append hp he []
  rw [List.append_nil] at hdecode
  refine ⟨r.afterRecv chunk later, ?_⟩
  rw [hrun, hchunk, hdecode]
  rfl

/-- The high byte of the length of a topic is no packet type. -/
theorem decode_datagram {topic : List UInt8} (h : topic.length < 4096) (rest : List UInt8)
    (version : MqttVersion) :
    decode (lengthPrefixed topic ++ rest) version = .error (.err (.invalidPacketType 0)) := by
  have hlow : UInt8.ofNat ((UInt16.ofNat topic.length).toNat / 256) >>> 4 = 0 := by
    apply UInt8.toNat_inj.mp
    simp only [UInt8.toNat_shiftRight, UInt8.toNat_ofNat', UInt16.toNat_ofNat', Nat.shiftRight_eq_div_pow]
    change topic.length % 65536 / 256 % 256 / 2 ^ 4 = 0
    omega
  rw [lengthPrefixed, toBeBytes]
  simp only [List.cons_append, decode, hlow]
  rfl

end

/-! ## What is sent is not received -/

/-- What is sent is received as a PUBLISH of the same topic and payload, by every receiver of the
same version with room for it. -/
def DatagramArrives (s : QuicMqttClient E bufSize) (topic : String) (payload : List UInt8) : Prop :=
  ∀ s', publishDatagram topic payload s = .ok () s' →
    ∃ data, s'.transport.sent = s.transport.sent ++ [data] ∧
      ∀ (size : ℕ) (r : QuicMqttClient E size) (chunk : BoundedVec UInt8 size)
        (later : List (Except E (BoundedVec UInt8 size))),
        r.options.version = s.options.version → r.transport.incoming = .ok chunk :: later →
          chunk.toList = data →
            ∃ p r', recvDatagram r = .ok (some (.publish p)) r' ∧
              p.topic = topic ∧ p.payload = payload ∧ p.qos = .atMostOnce

/-- A datagram that has been sent is refused by whoever receives it: its packet type is 0. -/
theorem recvDatagram_sent {s s' : QuicMqttClient E bufSize} {topic : String} {payload : List UInt8}
    (h : publishDatagram topic payload s = .ok () s') {size : ℕ} {r : QuicMqttClient E size}
    {chunk : BoundedVec UInt8 size} {later : List (Except E (BoundedVec UInt8 size))}
    (hincoming : r.transport.incoming = .ok chunk :: later)
    (hchunk : s'.transport.sent = s.transport.sent ++ [chunk.toList]) :
    recvDatagram r =
      .error (.err (.protocol (.invalidPacketType 0))) (r.afterRecv chunk later) := by
  obtain ⟨hfits, hsent⟩ := publishDatagram_ok h
  have hdata : chunk.toList = lengthPrefixed (strBytes topic) ++ payload := by
    simpa using hchunk.symm.trans hsent
  rw [recvDatagram_eq hincoming (by rw [hdata]; simp [lengthPrefixed, toBeBytes]), hdata,
    decode_datagram (by omega)]
  rfl

/-- Nothing that `publish_datagram` sends arrives. -/
theorem datagram_refused (s s' : QuicMqttClient E bufSize) (topic : String) (payload : List UInt8)
    (h : publishDatagram topic payload s = .ok () s') : ¬ DatagramArrives s topic payload := by
  intro harrives
  obtain ⟨data, hsent, hreceived⟩ := harrives s' h
  obtain ⟨hfits, hdata⟩ := publishDatagram_ok h
  have hlen : data.length ≤ 1024 := by
    have heq : data = lengthPrefixed (strBytes topic) ++ payload := by
      simpa using hsent.symm.trans hdata
    rw [heq, List.length_append, length_lengthPrefixed]
    exact hfits
  let r : QuicMqttClient E 1024 := new ⟨[], [], [.ok ⟨data, hlen⟩]⟩ s.options
  obtain ⟨p, r', hok, -⟩ := hreceived 1024 r ⟨data, hlen⟩ [] rfl rfl rfl
  rw [recvDatagram_sent h (r := r) rfl hsent] at hok
  cases hok

/-- A client whose datagrams are sent. -/
def quicClient : QuicMqttClient Unit 64 := new ⟨[], [], []⟩ plainOptions

/-- Topic `a` with two bytes. -/
theorem datagram_refused_two : ∃ s', publishDatagram "a" [1, 2] quicClient = .ok () s' ∧
    ¬ DatagramArrives quicClient "a" [1, 2] := by
  obtain ⟨_, s', hok, -⟩ := exists_ok (x := publishDatagram "a" [1, 2]) (s := quicClient)
    (f := fun _ s' => s'.transport.sent) (b := [[0, 1, 0x61, 1, 2]]) (by decide +kernel)
  exact ⟨s', hok, datagram_refused quicClient s' "a" [1, 2] hok⟩

/-- The receiver takes the length of the topic for a packet type. -/
theorem datagram_lost : ¬ ∀ (s : QuicMqttClient Unit 64) (topic : String) (payload : List UInt8),
    DatagramArrives s topic payload := by
  intro h
  obtain ⟨_, s', hok, hs'⟩ := exists_ok (x := publishDatagram "a" [1, 2]) (s := quicClient)
    (f := fun _ s' => s'.transport.sent) (b := [[0, 1, 0x61, 1, 2]]) (by decide +kernel)
  obtain ⟨data, hsent, hreceived⟩ := h quicClient "a" [1, 2] s' hok
  rw [hs'] at hsent
  cases hsent
  let r : QuicMqttClient Unit 64 :=
    new ⟨[], [], [.ok ⟨[0, 1, 0x61, 1, 2], by decide⟩]⟩ plainOptions
  obtain ⟨p, r', hok, -⟩ := hreceived 64 r ⟨[0, 1, 0x61, 1, 2], by decide⟩ [] rfl rfl rfl
  have herror : recvDatagram r = .error (.err (.protocol (.invalidPacketType 0)))
      (r.afterRecv ⟨[0, 1, 0x61, 1, 2], by decide⟩ []) := rfl
  rw [herror] at hok
  cases hok

end QuicMqttClient
end MqttEngine
