import MqttEngine.Packet.Codec

/-!
# The bytes of a packet

`MqttPacket.wire` is what a packet looks like on the wire: its first byte, the remaining
length, and its content. `encode` writes exactly these bytes to the front of the buffer, if
every length-prefixed field fits its 16-bit length, and if the buffer holds five bytes more
than the content, because the encoder reserves four bytes for a remaining length that may
turn out shorter.

## Main definitions

* `frameBytes` — the frame around a content.
* `MqttPacket.content`, `MqttPacket.wire` — the bytes of a packet.
* `MqttPacket.Encodable` — its length-prefixed fields fit.

## Main results

* `encodeFramed_fits`, `encodeFramed_ok` — when a frame is written, and what is written.
* `emits_write` — the content writers emit the content.
* `encode_fits`, `encode_ok` — when a packet is encoded, and what is written.
* `encode_error`, `length_encode` — the encoder does not panic, and keeps the buffer's length.
-/

namespace MqttEngine
open Checked SliceWriter

/-! ## Frames -/

/-- A frame: the first byte, the length of the content, and the content. -/
def frameBytes (first : UInt8) (content : List UInt8) : List UInt8 :=
  first :: (Base128.encode content.length ++ content)

theorem length_frameBytes (first : UInt8) (content : List UInt8) :
    (frameBytes first content).length =
      1 + (Base128.encode content.length).length + content.length := by
  simp only [frameBytes, List.length_cons, List.length_append]
  omega

theorem frameBytes_inj {first first' : UInt8} {content content' : List UInt8}
    (h : frameBytes first content = frameBytes first' content') :
    first = first' ∧ content = content' := by
  obtain ⟨hfirst, hrest⟩ := List.cons.inj h
  exact ⟨hfirst, (Base128.encode_append_inj hrest).2⟩

section
variable {first : UInt8} {content : SliceWriter PacketError UInt8 Unit} {P : Prop} {bs buf : List UInt8}

/-- The encoder of a frame, after its first byte has been stored. -/
theorem encodeFramed_cons (b : UInt8) (tail : List UInt8) :
    encodeFramed first content (b :: tail) =
      match content ⟨first :: tail, 5⟩ with
      | .error e s => .error e s.buf
      | .ok _ s =>
        match onTail .bufferTooSmall (writeVariableByteIntegerLen (s.cursor - 5)) ⟨s.buf, 1⟩ with
        | .error e s => .error e s.buf
        | .ok _ s' =>
          match copyWithin 5 s.cursor s'.cursor s' with
          | .error e s => .error e s.buf
          | .ok _ s'' => .ok (s'.cursor + (s.cursor - 5)) s''.buf := by
  have hput : putByte PacketError.bufferTooSmall first ⟨b :: tail, 0⟩ =
      .ok () ⟨first :: tail, 1⟩ := rfl
  rw [encodeFramed]
  dsimp only
  rw [run_bind hput]
  simp only [position_bind, seek_bind]
  rcases hcontent : content ⟨first :: tail, 1 + 4⟩ with ⟨u, s⟩ | ⟨e, s⟩
  · rw [run_bind hcontent]
    simp only [position_bind, seek_bind]
    rcases hfield : onTail .bufferTooSmall
        (writeVariableByteIntegerLen (s.cursor - (1 + 4))) ⟨s.buf, 1⟩ with ⟨u, s'⟩ | ⟨e, s'⟩
    · rw [run_bind hfield]
      simp only [position_bind]
      rcases hcopy : (copyWithin (1 + 4) s.cursor s'.cursor : SliceWriter PacketError UInt8 Unit) s' with
        ⟨u, s''⟩ | ⟨e, s''⟩
      · rw [run_bind hcopy]
        rfl
      · rw [run_bind_error hcopy]
    · rw [run_bind_error hfield]
  · rw [run_bind_error hcontent]

/-- A frame that fits is written to the front of the buffer. -/
theorem encodeFramed_fits (first : UInt8) (h : Emits .bufferTooSmall P content bs) (hP : P)
    (hroom : 5 + bs.length ≤ buf.length) (hlen : bs.length < 128 ^ 4) :
    ∃ tail, encodeFramed first content buf =
        .ok (frameBytes first bs).length (frameBytes first bs ++ tail) ∧
      (frameBytes first bs ++ tail).length = buf.length := by
  -- The buffer falls into the first byte, the reserved bytes, the content, and the rest.
  obtain ⟨b, gap, mid, post, rfl, hgap, hmid⟩ : ∃ b gap mid post,
      buf = b :: (gap ++ mid ++ post) ∧ gap.length = 4 ∧ mid.length = bs.length := by
    cases buf with
    | nil => simp at hroom
    | cons b t =>
      simp only [List.length_cons] at hroom
      refine ⟨b, t.take 4, (t.drop 4).take bs.length, (t.drop 4).drop bs.length, ?_, ?_, ?_⟩
      · rw [List.append_assoc, List.take_append_drop, List.take_append_drop]
      · rw [List.length_take]; omega
      · rw [List.length_take, List.length_drop]; omega
  have hfield := emits_vbiLen bs.length
  have hle := Base128.length_encode_le (show 0 < 4 by omega) hlen
  rw [frameBytes]
  generalize Base128.encode bs.length = field at hfield hle
  -- The length field takes the front of the reserved bytes and leaves a gap behind it.
  obtain ⟨front, gap, rfl, hfront⟩ : ∃ front gap', gap = front ++ gap' ∧
      front.length = field.length :=
    ⟨gap.take field.length, gap.drop field.length, by simp, by rw [List.length_take]; omega⟩
  simp only [List.length_append] at hgap
  have h1 : content ⟨first :: (front ++ gap ++ mid ++ post), 5⟩ =
      .ok () ⟨first :: (front ++ gap ++ bs ++ post), 5 + bs.length⟩ := by
    have hpatch := Out.patch_append (first :: (front ++ gap)) mid post hmid
    simp only [List.length_cons, List.length_append, hgap] at hpatch
    rw [h.fits hP _ (by simpa using hroom)]
    exact congrArg (EStateM.Result.ok ()) hpatch
  have h2 : onTail .bufferTooSmall (writeVariableByteIntegerLen bs.length)
      ⟨first :: (front ++ gap ++ bs ++ post), 1⟩ =
      .ok () ⟨[first] ++ field ++ gap ++ bs ++ post, 1 + field.length⟩ := by
    have hpatch := Out.patch_append [first] front (gap ++ bs ++ post) hfront
    rw [hfield.fits trivial _ (by simp only [List.length_cons, List.length_append]; omega)]
    simp only [List.append_assoc, List.cons_append, List.nil_append] at hpatch ⊢
    exact congrArg (EStateM.Result.ok ()) hpatch
  obtain ⟨post', h3, hpost'⟩ : ∃ post', (copyWithin 5 (5 + bs.length) (1 + field.length) :
        SliceWriter PacketError UInt8 Unit) ⟨[first] ++ field ++ gap ++ bs ++ post, 1 + field.length⟩ =
      .ok () ⟨[first] ++ field ++ bs ++ post', 1 + field.length⟩ ∧
      ([first] ++ field ++ bs ++ post').length = ([first] ++ field ++ gap ++ bs ++ post).length :=
    copyWithin_append _ ([first] ++ field) gap bs post
      (by simp only [List.length_append, List.length_singleton]; omega) rfl
      (by simp only [List.length_append, List.length_singleton])
  refine ⟨post', ?_, ?_⟩
  · rw [encodeFramed_cons, h1]
    simp only [Nat.add_sub_cancel_left, h2, h3]
    simp only [List.cons_append, List.nil_append, List.length_cons, List.length_append]
    congr 1
    omega
  · simp only [List.length_append, List.length_cons, List.length_nil] at hpost' ⊢
    omega

/-- Nothing else is written: what is encoded fits, and every field can be written. -/
theorem encodeFramed_ok (h : Emits .bufferTooSmall P content bs)
    (hover : ∀ s, s.buf.length < s.cursor →
      (∃ s', content s = .error (.err .bufferTooSmall) s') ∨ content s = .ok () s)
    {n : ℕ} {buf' : List UInt8} (hok : encodeFramed first content buf = .ok n buf') :
    P ∧ 5 + bs.length ≤ buf.length := by
  rcases buf with _ | ⟨b, tail⟩
  · cases hok
  rw [encodeFramed_cons] at hok
  simp only [List.length_cons]
  by_cases hc : 5 ≤ tail.length + 1
  · by_cases hP : P
    · by_cases hroom : 5 + bs.length ≤ tail.length + 1
      · exact ⟨hP, hroom⟩
      · obtain ⟨s', hs'⟩ := h.short hP ⟨first :: tail, 5⟩ hc (by simp only [List.length_cons]; omega)
        rw [hs'] at hok
        cases hok
    · obtain ⟨e, s', hs'⟩ := h.fails hP ⟨first :: tail, 5⟩ hc
      rw [hs'] at hok
      cases hok
  · -- The reserved bytes do not fit: the content cannot be written, or there is nothing to move.
    rcases hover ⟨first :: tail, 5⟩ (by simp only [List.length_cons]; omega) with ⟨s', hs'⟩ | hs'
    · rw [hs'] at hok
      cases hok
    · rw [hs'] at hok
      have hlen := (emits_vbiLen (5 - 5)).length ⟨first :: tail, 1⟩
      dsimp only at hok hlen
      rcases hfield : onTail .bufferTooSmall (writeVariableByteIntegerLen (5 - 5))
          ⟨first :: tail, 1⟩ with ⟨u, s⟩ | ⟨e, s⟩
      · rw [hfield, EStateM.Result.final_ok, List.length_cons] at hlen
        simp only [hfield, copyWithin, show ¬ (5 ≤ s.buf.length) by omega, false_and, and_false,
          if_false] at hok
        cases hok
      · rw [hfield] at hok
        cases hok

/-- What is encoded has been written behind the reserved bytes when the content is moved behind its
length. Of a length that takes more than the reserved bytes, the rest stands in the content. -/
theorem encodeFramed_move (first : UInt8) (h : Emits .bufferTooSmall P content bs) (hP : P)
    (hroom : 5 + bs.length ≤ buf.length) :
    ∃ mid, (first :: Base128.encode bs.length) <+: mid ∧ mid.length = buf.length ∧
      (mid.drop 5).take bs.length =
        (Base128.encode bs.length).drop 4 ++ bs.drop ((Base128.encode bs.length).length - 4) ∧
      encodeFramed first content buf =
        match (copyWithin 5 (5 + bs.length) (1 + (Base128.encode bs.length).length) :
            SliceWriter PacketError UInt8 Unit) ⟨mid, 1 + (Base128.encode bs.length).length⟩ with
        | .error e s => .error e s.buf
        | .ok _ s => .ok (1 + (Base128.encode bs.length).length + bs.length) s.buf := by
  rcases buf with _ | ⟨b, tail⟩
  · simp at hroom
  let written := (⟨first :: tail, 5⟩ : Out UInt8).patch bs
  have hpatch : written.buf.length = (b :: tail).length :=
    Out.length_patch ⟨first :: tail, 5⟩ (by simpa using hroom)
  -- The length takes at most the reserved bytes, or less than the content does.
  have hle : (Base128.encode bs.length).length ≤ 4 ∨
      (Base128.encode bs.length).length ≤ bs.length := by
    by_cases hshort : bs.length < 128 ^ 4
    · exact .inl (Base128.length_encode_le (by decide) hshort)
    · exact .inr (Base128.length_encode_le (by omega) (Nat.lt_pow_self (by decide)))
  have hfield : 1 + (Base128.encode bs.length).length ≤ (b :: tail).length := by omega
  have hwrite := (emits_vbiLen bs.length).fits trivial ⟨written.buf, 1⟩
    (by dsimp only; rw [hpatch]; exact hfield)
  have hfront : written.buf.take 1 = [first] := by simp [written, Out.patch]
  refine ⟨((⟨written.buf, 1⟩ : Out UInt8).patch (Base128.encode bs.length)).buf, ?_, ?_, ?_, ?_⟩
  · simp [Out.patch, hfront]
  · rw [Out.length_patch _ (by dsimp only; rw [hpatch]; exact hfield), hpatch]
  · have hcontent : written.buf.drop (5 + ((Base128.encode bs.length).length - 4)) = _ :=
      Out.drop_patch ⟨first :: tail, 5⟩ bs (by simp only [List.length_cons] at hroom ⊢; omega) _
    have hmid := Out.drop_patch (⟨written.buf, 1⟩ : Out UInt8) (Base128.encode bs.length)
      (by dsimp only; omega) 4
    dsimp only at hmid
    rw [show 1 + ((Base128.encode bs.length).length + (4 - (Base128.encode bs.length).length)) =
      5 + ((Base128.encode bs.length).length - 4) by omega, hcontent, ← List.append_assoc] at hmid
    rw [hmid, List.take_left']
    simp only [List.length_append, List.length_drop]
    omega
  · rw [encodeFramed_cons, h.fits hP ⟨first :: tail, 5⟩ (by simpa using hroom)]
    simp only [Out.cursor_patch, Nat.add_sub_cancel_left]
    rw [hwrite]
    rfl

/-- What has been encoded begins with its first byte and its length, however long the content. -/
theorem front_encodeFramed (h : Emits .bufferTooSmall P content bs)
    (hover : ∀ s, s.buf.length < s.cursor →
      (∃ s', content s = .error (.err .bufferTooSmall) s') ∨ content s = .ok () s)
    {n : ℕ} {buf' : List UInt8} (hok : encodeFramed first content buf = .ok n buf') :
    n = 1 + (Base128.encode bs.length).length + bs.length ∧
      (first :: Base128.encode bs.length) <+: buf' := by
  obtain ⟨hP, hroom⟩ := encodeFramed_ok h hover hok
  obtain ⟨mid, hmid, -, -, hmove⟩ := encodeFramed_move first h hP hroom
  rw [hmove, copyWithin] at hok
  split at hok
  · cases hok
  · rename_i hcopy
    split at hcopy
    · cases hcopy
      cases hok
      obtain ⟨t, rfl⟩ := hmid
      have htake : (first :: Base128.encode bs.length ++ t).take
          (1 + (Base128.encode bs.length).length) = first :: Base128.encode bs.length := by
        rw [Nat.add_comm, ← List.length_cons, List.take_left]
      dsimp only
      rw [htake, List.append_assoc]
      exact ⟨rfl, List.prefix_append _ _⟩
    · cases hcopy

/-- Encoding keeps the length of the buffer, whatever comes of it. -/
theorem length_encodeFramed (h : Emits .bufferTooSmall P content bs) (buf : List UInt8) :
    (encodeFramed first content buf).final.length = buf.length := by
  rcases buf with _ | ⟨b, tail⟩
  · rfl
  rw [encodeFramed_cons]
  have h1 := h.length ⟨first :: tail, 5⟩
  rcases hcontent : content ⟨first :: tail, 5⟩ with ⟨u, s⟩ | ⟨e, s⟩
  · rw [hcontent] at h1
    have h2 := (emits_vbiLen (s.cursor - 5)).length ⟨s.buf, 1⟩
    rcases hfield : onTail .bufferTooSmall (writeVariableByteIntegerLen (s.cursor - 5))
        ⟨s.buf, 1⟩ with ⟨u, s'⟩ | ⟨e, s'⟩
    · rw [hfield] at h2
      have h3 : ((copyWithin 5 s.cursor s'.cursor : SliceWriter PacketError UInt8 Unit) s').final.buf.length
          = s'.buf.length := length_copyWithin _ _ _ _
      rcases hcopy : (copyWithin 5 s.cursor s'.cursor : SliceWriter PacketError UInt8 Unit) s' with
        ⟨u, s''⟩ | ⟨e, s''⟩ <;> rw [hcopy] at h3
      all_goals
        simp only [EStateM.Result.final_ok, EStateM.Result.final_error, List.length_cons] at h1 h2 h3
        simp only [hfield, hcopy, EStateM.Result.final_ok, EStateM.Result.final_error,
          List.length_cons]
        omega
    · rw [hfield] at h2
      simp only [EStateM.Result.final_ok, EStateM.Result.final_error, List.length_cons] at h1 h2
      simp only [hfield, EStateM.Result.final_error, List.length_cons]
      omega
  · rw [hcontent] at h1
    exact h1

/-- A frame whose content notices a buffer without room for the reserved bytes is encoded, or
the encoder returns an error. -/
theorem encodeFramed_error (h : Emits .bufferTooSmall P content bs)
    (hlen : P → 5 + bs.length ≤ buf.length → bs.length < 128 ^ 4)
    (hover : Overruns .bufferTooSmall content) {e : Fault PacketError} {s : List UInt8}
    (herror : encodeFramed first content buf = .error e s) : ∃ e', e = .err e' := by
  rcases buf with _ | ⟨b, tail⟩
  · cases herror
    exact ⟨_, rfl⟩
  by_cases hfits : P ∧ 5 + bs.length ≤ (b :: tail).length
  · obtain ⟨tail', hok, _⟩ := encodeFramed_fits first h hfits.1 hfits.2 (hlen hfits.1 hfits.2)
    rw [hok] at herror
    cases herror
  · have hfails : ∃ e' s', content ⟨first :: tail, 5⟩ = .error (.err e') s' := by
      by_cases hc : 5 ≤ (first :: tail).length
      · by_cases hP : P
        · have hroom : ¬ 5 + bs.length ≤ (b :: tail).length := fun hroom => hfits ⟨hP, hroom⟩
          simp only [List.length_cons] at hroom
          exact ⟨_, h.short hP ⟨first :: tail, 5⟩ hc (by simp only [List.length_cons]; omega)⟩
        · exact h.fails hP ⟨first :: tail, 5⟩ hc
      · exact ⟨_, _, hover ⟨first :: tail, 5⟩ (Nat.lt_of_not_le hc)⟩
    obtain ⟨e', s', hs'⟩ := hfails
    rw [encodeFramed_cons, hs'] at herror
    cases herror
    exact ⟨e', rfl⟩

/-- A content that can be written is never refused: what becomes of one whose length takes more
than the reserved bytes is a frame or a panic. -/
theorem encodeFramed_not_refused (h : Emits .bufferTooSmall P content bs) (hP : P)
    (hroom : 5 + bs.length ≤ buf.length) {e : PacketError} {s : List UInt8} :
    encodeFramed first content buf ≠ .error (.err e) s := by
  obtain ⟨mid, -, -, -, hmove⟩ := encodeFramed_move first h hP hroom
  rw [hmove, copyWithin]
  split
  · rename_i hcopy
    split at hcopy
    · cases hcopy
    · cases hcopy
      simp
  · simp

/-- A buffer that is too small for the reserved bytes, or for a content that could be written,
is reported as such. -/
theorem encodeFramed_small (h : Emits .bufferTooSmall P content bs)
    (hover : Overruns .bufferTooSmall content)
    (hsmall : buf.length < 5 ∨ (P ∧ buf.length < 5 + bs.length)) :
    ∃ s, encodeFramed first content buf = .error (.err .bufferTooSmall) s := by
  rcases buf with _ | ⟨b, tail⟩
  · exact ⟨[], rfl⟩
  have hcontent : ∃ s', content ⟨first :: tail, 5⟩ = .error (.err .bufferTooSmall) s' := by
    simp only [List.length_cons] at hsmall
    by_cases hc : 5 ≤ tail.length + 1
    · rcases hsmall with hlt | ⟨hP, hlt⟩
      · omega
      · exact h.short hP ⟨first :: tail, 5⟩ hc (by simpa using hlt)
    · exact ⟨_, hover ⟨first :: tail, 5⟩ (Nat.lt_of_not_le hc)⟩
  obtain ⟨s', hs'⟩ := hcontent
  exact ⟨s'.buf, by rw [encodeFramed_cons, hs']⟩

end

/-! ## The content of each packet -/

/-- A property block, present in version 5 only. -/
def v5PropertiesBytes (version : MqttVersion) (properties : Properties) : List UInt8 :=
  if version = .v5 then propertiesBytes properties.toList else []

/-- The bytes of a will. -/
def Will.bytes (version : MqttVersion) (will : Will) : List UInt8 :=
  v5PropertiesBytes version will.properties ++
    (lengthPrefixed (strBytes will.topic) ++ lengthPrefixed will.payload)

/-- The protocol level of a version. -/
def MqttVersion.level : MqttVersion → UInt8
  | .v3_1_1 | .v3 => 0x04
  | .v5 => 0x05

/-- Reason code and properties, left out as `writeReason` leaves them out. -/
def reasonBytes (version : MqttVersion) (reasonCode : UInt8) (properties : Properties) :
    List UInt8 :=
  if version = .v5 ∧ (properties.toList ≠ [] ∨ reasonCode ≠ 0) then
    reasonCode :: propertiesBytes properties.toList
  else []

/-- Packet id and properties, with which five kinds of packets start. -/
def idAndPropertiesBytes (version : MqttVersion) (packetId : UInt16) (properties : Properties) :
    List UInt8 :=
  toBeBytes packetId ++ v5PropertiesBytes version properties

/-- A topic filter with its quality of service. -/
def topicBytes (topic : String × QoS) : List UInt8 :=
  lengthPrefixed (strBytes topic.1) ++ [topic.2.toByte]

/-- A string field, which may be absent. -/
def optionalBytes (s : Option String) : List UInt8 :=
  s.elim [] fun s => lengthPrefixed (strBytes s)

/-- The content of a packet: all that follows the remaining length. -/
def MqttPacket.content (version : MqttVersion) : MqttPacket → List UInt8
  | .connect p =>
    lengthPrefixed (strBytes "MQTT") ++ ([version.level] ++ ([p.flags] ++
      (toBeBytes p.keepAlive ++ (v5PropertiesBytes version p.properties ++
        (lengthPrefixed (strBytes p.clientId) ++ (p.will.elim [] (Will.bytes version) ++
          (optionalBytes p.username ++ optionalBytes p.password)))))))
  | .connAck p =>
    [if p.sessionPresent then 0x01 else 0x00] ++ ([p.reasonCode] ++
      v5PropertiesBytes version p.properties)
  | .publish p =>
    lengthPrefixed (strBytes p.topic) ++
      ((if p.qos ≠ .atMostOnce then toBeBytes (p.packetId.getD 1) else []) ++
        (v5PropertiesBytes version p.properties ++ p.payload))
  | .pubAck p | .pubRec p | .pubRel p | .pubComp p =>
    toBeBytes p.packetId ++ reasonBytes version p.reasonCode p.properties
  | .subscribe p =>
    idAndPropertiesBytes version p.packetId p.properties ++ p.topics.toList.flatMap topicBytes
  | .subAck p | .unsubAck p =>
    idAndPropertiesBytes version p.packetId p.properties ++ p.reasonCodes.toList
  | .unsubscribe p =>
    idAndPropertiesBytes version p.packetId p.properties ++
      p.topics.toList.flatMap fun topic => lengthPrefixed (strBytes topic)
  | .pingReq | .pingResp => []
  | .disconnect p => reasonBytes version p.reasonCode p.properties

/-- The first byte of a packet. -/
def MqttPacket.first : MqttPacket → UInt8
  | .connect _ => 0x10
  | .connAck _ => 0x20
  | .publish p => p.header
  | .pubAck _ => 0x40
  | .pubRec _ => 0x50
  | .pubRel _ => 0x62
  | .pubComp _ => 0x70
  | .subscribe _ => 0x82
  | .subAck _ => 0x90
  | .unsubscribe _ => 0xA2
  | .unsubAck _ => 0xB0
  | .pingReq => 0xC0
  | .pingResp => 0xD0
  | .disconnect _ => 0xE0

/-- The type of a packet, as `decode` finds it in the first byte. -/
def MqttPacket.packetType : MqttPacket → UInt8
  | .connect _ => 1
  | .connAck _ => 2
  | .publish _ => 3
  | .pubAck _ => 4
  | .pubRec _ => 5
  | .pubRel _ => 6
  | .pubComp _ => 7
  | .subscribe _ => 8
  | .subAck _ => 9
  | .unsubscribe _ => 10
  | .unsubAck _ => 11
  | .pingReq => 12
  | .pingResp => 13
  | .disconnect _ => 14

theorem packetType_first (p : MqttPacket) : p.first >>> 4 = p.packetType := by
  cases p with
  | publish p =>
    rcases p with ⟨dup, qos, retain, _, _, _, _⟩
    cases dup <;> cases qos <;> cases retain <;>
      simp [MqttPacket.first, MqttPacket.packetType, Publish.header, QoS.toByte] <;> decide
  | _ =>
    simp only [MqttPacket.first, MqttPacket.packetType]
    decide

/-- What a packet looks like on the wire. -/
def MqttPacket.wire (version : MqttVersion) (p : MqttPacket) : List UInt8 :=
  frameBytes p.first (p.content version)

/-- The fields of a packet that are written behind a 16-bit length. -/
def MqttPacket.prefixed : MqttPacket → List (List UInt8)
  | .connect p =>
    strBytes p.clientId ::
      ((p.will.elim [] fun will => [strBytes will.topic, will.payload]) ++
        ((p.username.toList.map strBytes) ++ (p.password.toList.map strBytes)))
  | .publish p => [strBytes p.topic]
  | .subscribe p => p.topics.toList.map fun topic => strBytes topic.1
  | .unsubscribe p => p.topics.toList.map strBytes
  | _ => []

/-- Every field that is written behind a 16-bit length fits that length. -/
def MqttPacket.Encodable (p : MqttPacket) : Prop := ∀ data ∈ p.prefixed, data.length ≤ 65535

instance (p : MqttPacket) : Decidable p.Encodable := by
  unfold MqttPacket.Encodable
  infer_instance

/-- The room `encode` needs in the buffer. -/
def MqttPacket.room (version : MqttVersion) : MqttPacket → ℕ
  | .pingReq | .pingResp => 2
  | p => 5 + (p.content version).length

/-- The packet can be encoded into a buffer of this size. -/
def MqttPacket.Fits (version : MqttVersion) (size : ℕ) (p : MqttPacket) : Prop :=
  p.Encodable ∧ p.room version ≤ size

instance (version : MqttVersion) (size : ℕ) (p : MqttPacket) : Decidable (p.Fits version size) :=
  inferInstanceAs (Decidable (_ ∧ _))

/-- If a buffer of this size takes the packet, its remaining length has at most four bytes. -/
def MqttPacket.Measured (version : MqttVersion) (size : ℕ) (p : MqttPacket) : Prop :=
  p.Encodable → p.room version ≤ size → (p.content version).length < 128 ^ 4

instance (version : MqttVersion) (size : ℕ) (p : MqttPacket) : Decidable (p.Measured version size) := by
  unfold MqttPacket.Measured
  infer_instance

theorem MqttPacket.Measured.mono {version : MqttVersion} {size size' : ℕ} {p : MqttPacket}
    (h : p.Measured version size) (hle : size' ≤ size) : p.Measured version size' :=
  fun hp hroom => h hp (hroom.trans hle)

/-! ## The writers emit the content -/

theorem emits_v5Properties (version : MqttVersion) (properties : Properties) :
    Emits .bufferTooSmall True (writeV5Properties version properties)
      (v5PropertiesBytes version properties) :=
  (Emits.when _ (emits_properties _)).congr (by simp) rfl

theorem emits_will (version : MqttVersion) (will : Will) :
    Emits .bufferTooSmall ((strBytes will.topic).length ≤ 65535 ∧ will.payload.length ≤ 65535)
      (will.write version) (will.bytes version) :=
  ((emits_v5Properties _ _).bind ((emits_utf8String _).bind (emits_binaryData _))).congr
    (by simp) rfl

theorem emits_optional (s : Option String) :
    Emits .bufferTooSmall (∀ x ∈ s, (strBytes x).length ≤ 65535)
      (whenSome s fun s => onTail .bufferTooSmall (writeUtf8String s)) (optionalBytes s) :=
  Emits.whenSome s emits_utf8String

theorem emits_reason (version : MqttVersion) (reasonCode : UInt8) (properties : Properties) :
    Emits .bufferTooSmall True (writeReason version reasonCode properties)
      (reasonBytes version reasonCode properties) :=
  (Emits.when _ ((Emits.putByte reasonCode).bind (emits_properties _))).congr (by simp) rfl

theorem emits_connect (p : Connect) (version : MqttVersion) :
    Emits .bufferTooSmall (MqttPacket.connect p).Encodable (p.write version)
      ((MqttPacket.connect p).content version) := by
  have hwrite := (emits_utf8String "MQTT").bind <| (Emits.putByte version.level).bind <|
    (Emits.putByte p.flags).bind <| (Emits.putSlice (toBeBytes p.keepAlive)).bind <|
    (emits_v5Properties version p.properties).bind <| (emits_utf8String p.clientId).bind <|
    (Emits.whenSome p.will (emits_will version)).bind <|
    (emits_optional p.username).bind (emits_optional p.password)
  refine hwrite.congr ?_ rfl
  have hname : (strBytes "MQTT").length ≤ 65535 := by decide
  rcases p with ⟨_, _, _, _ | user, _ | pass, _ | will, _⟩ <;>
    simp [MqttPacket.Encodable, MqttPacket.prefixed, hname, and_assoc]

theorem emits_connAck (p : ConnAck) (version : MqttVersion) :
    Emits .bufferTooSmall (MqttPacket.connAck p).Encodable (p.write version)
      ((MqttPacket.connAck p).content version) :=
  ((Emits.putByte _).bind <| (Emits.putByte _).bind (emits_v5Properties _ _)).congr
    (by simp [MqttPacket.Encodable, MqttPacket.prefixed]) rfl

theorem emits_publish (p : Publish) (version : MqttVersion) :
    Emits .bufferTooSmall (MqttPacket.publish p).Encodable (p.write version)
      ((MqttPacket.publish p).content version) :=
  ((emits_utf8String _).bind <| (Emits.when _ (Emits.putSlice _)).bind <|
    (emits_v5Properties _ _).bind (Emits.putSlice _)).congr
      (by simp [MqttPacket.Encodable, MqttPacket.prefixed]) rfl

theorem emits_ack (p : Ack) (version : MqttVersion) :
    Emits .bufferTooSmall True (p.write version)
      (toBeBytes p.packetId ++ reasonBytes version p.reasonCode p.properties) :=
  ((Emits.putSlice _).bind (emits_reason _ _ _)).congr (by simp) rfl

theorem emits_subscribe (p : Subscribe) (version : MqttVersion) :
    Emits .bufferTooSmall (MqttPacket.subscribe p).Encodable (p.write version)
      ((MqttPacket.subscribe p).content version) := by
  have htopic (topic : String × QoS) : Emits PacketError.bufferTooSmall
      ((strBytes topic.1).length ≤ 65535 ∧ True)
      (do onTail .bufferTooSmall (writeUtf8String topic.1); putByte .bufferTooSmall topic.2.toByte)
      (topicBytes topic) :=
    (emits_utf8String topic.1).bind (Emits.putByte topic.2.toByte)
  have hwrite := (Emits.putSlice (toBeBytes p.packetId)).bind <|
    (emits_v5Properties version p.properties).bind (Emits.forM p.topics.toList htopic)
  refine hwrite.congr ?_ ?_
  · simp only [MqttPacket.Encodable, MqttPacket.prefixed, List.forall_mem_map, true_and, and_true]
  · simp [MqttPacket.content, idAndPropertiesBytes]

theorem emits_codesAck (p : CodesAck) (version : MqttVersion) :
    Emits .bufferTooSmall True (p.write version)
      (idAndPropertiesBytes version p.packetId p.properties ++ p.reasonCodes.toList) := by
  have hwrite := (Emits.putSlice (toBeBytes p.packetId)).bind <|
    (emits_v5Properties version p.properties).bind (Emits.forM p.reasonCodes.toList Emits.putByte)
  refine hwrite.congr (by simp) ?_
  simp [idAndPropertiesBytes]

theorem emits_unsubscribe (p : Unsubscribe) (version : MqttVersion) :
    Emits .bufferTooSmall (MqttPacket.unsubscribe p).Encodable (p.write version)
      ((MqttPacket.unsubscribe p).content version) := by
  have hwrite := (Emits.putSlice (toBeBytes p.packetId)).bind <|
    (emits_v5Properties version p.properties).bind (Emits.forM p.topics.toList emits_utf8String)
  refine hwrite.congr ?_ ?_
  · simp only [MqttPacket.Encodable, MqttPacket.prefixed, List.forall_mem_map, true_and]
  · simp [MqttPacket.content, idAndPropertiesBytes]

/-! ## What `encode` writes -/

/-- The writer of a packet's content. -/
def MqttPacket.write (version : MqttVersion) : MqttPacket → SliceWriter PacketError UInt8 Unit
  | .connect p => p.write version
  | .connAck p => p.write version
  | .publish p => p.write version
  | .pubAck p | .pubRec p | .pubRel p | .pubComp p => p.write version
  | .subscribe p => p.write version
  | .subAck p | .unsubAck p => p.write version
  | .unsubscribe p => p.write version
  | .pingReq | .pingResp => pure ()
  | .disconnect p => writeReason version p.reasonCode p.properties

/-- The two packets without content have an encoder of their own. -/
def MqttPacket.Bare (p : MqttPacket) : Prop := p = .pingReq ∨ p = .pingResp

instance (p : MqttPacket) : Decidable p.Bare := inferInstanceAs (Decidable (_ ∨ _))

theorem encode_of_not_bare {p : MqttPacket} (h : ¬ p.Bare) (version : MqttVersion) :
    p.encode version = encodeFramed p.first (p.write version) ∧
      p.room version = 5 + (p.content version).length := by
  cases p <;> first | exact ⟨rfl, rfl⟩ | simp [MqttPacket.Bare] at h

theorem encode_of_bare {p : MqttPacket} (h : p.Bare) (version : MqttVersion) :
    p.encode version = encodeBare p.first ∧ p.room version = 2 ∧ p.Encodable ∧
      p.content version = [] := by
  rcases h with rfl | rfl <;>
    exact ⟨rfl, rfl, by simp [MqttPacket.Encodable, MqttPacket.prefixed], rfl⟩

/-- The writer of a packet emits its content. -/
theorem emits_write (p : MqttPacket) (version : MqttVersion) :
    Emits .bufferTooSmall p.Encodable (p.write version) (p.content version) := by
  have hfree {q : MqttPacket} (h : q.prefixed = []) : True ↔ q.Encodable := by
    simp [MqttPacket.Encodable, h]
  cases p with
  | connect p => exact emits_connect p version
  | connAck p => exact emits_connAck p version
  | publish p => exact emits_publish p version
  | pubAck p => exact (emits_ack p version).congr (hfree rfl) rfl
  | pubRec p => exact (emits_ack p version).congr (hfree rfl) rfl
  | pubRel p => exact (emits_ack p version).congr (hfree rfl) rfl
  | pubComp p => exact (emits_ack p version).congr (hfree rfl) rfl
  | subscribe p => exact emits_subscribe p version
  | subAck p => exact (emits_codesAck p version).congr (hfree rfl) rfl
  | unsubscribe p => exact emits_unsubscribe p version
  | unsubAck p => exact (emits_codesAck p version).congr (hfree rfl) rfl
  | pingReq => exact Emits.pure.congr (hfree rfl) rfl
  | pingResp => exact Emits.pure.congr (hfree rfl) rfl
  | disconnect p => exact (emits_reason version _ _).congr (hfree rfl) rfl

/-- Every writer but that of a packet that may be empty notices a cursor beyond the buffer. -/
theorem overruns_write {p : MqttPacket} (hbare : ¬ p.Bare) (hdisc : ∀ d, p ≠ .disconnect d)
    (version : MqttVersion) : Overruns PacketError.bufferTooSmall (p.write version) := by
  cases p with
  | connect p => exact (Overruns.onTail _).bind _
  | connAck p => exact (Overruns.putByte _).bind _
  | publish p => exact (Overruns.onTail _).bind _
  | pubAck p | pubRec p | pubRel p | pubComp p => exact (Overruns.putSlice _).bind _
  | subscribe p | unsubscribe p => exact (Overruns.putSlice _).bind _
  | subAck p | unsubAck p => exact (Overruns.putSlice _).bind _
  | pingReq | pingResp => simp [MqttPacket.Bare] at hbare
  | disconnect p => exact absurd rfl (hdisc p)

theorem overruns_or_nothing {p : MqttPacket} (hbare : ¬ p.Bare) (version : MqttVersion)
    (s : Out UInt8) (hs : s.buf.length < s.cursor) :
    (∃ s', p.write version s = .error (.err .bufferTooSmall) s') ∨
      p.write version s = .ok () s := by
  by_cases hdisc : ∃ d, p = .disconnect d
  · obtain ⟨d, rfl⟩ := hdisc
    simp only [MqttPacket.write, writeReason, SliceWriter.when]
    split
    · exact .inl ⟨s, (Overruns.putByte _).bind _ s hs⟩
    · exact .inr rfl
  · exact .inl ⟨s, overruns_write hbare (fun d hd => hdisc ⟨d, hd⟩) version s hs⟩

section
variable {p : MqttPacket} {version : MqttVersion} {buf : List UInt8}

/-- A packet that fits is written to the front of the buffer. -/
theorem encode_fits (hp : p.Encodable) (hroom : p.room version ≤ buf.length)
    (hlen : (p.content version).length < 128 ^ 4) :
    ∃ tail, p.encode version buf = .ok (p.wire version).length (p.wire version ++ tail) ∧
      (p.wire version ++ tail).length = buf.length := by
  by_cases hbare : p.Bare
  · obtain ⟨hencode, hr, _, hcontent⟩ := encode_of_bare hbare version
    have hwire : p.wire version = [p.first, 0x00] := by
      rw [MqttPacket.wire, hcontent, frameBytes, List.length_nil, Base128.encode_of_lt (by omega)]
      rfl
    refine ⟨buf.drop 2, ?_, ?_⟩
    · rw [hencode, encodeBare, if_neg (by omega), hwire]
      rfl
    · rw [hwire, List.length_append, List.length_drop, List.length_cons, List.length_singleton]
      omega
  · obtain ⟨hencode, hr⟩ := encode_of_not_bare hbare version
    rw [hencode]
    exact encodeFramed_fits _ (emits_write p version) hp (by omega) hlen

/-- What `encode` returns is a packet that fits, written to the front of the buffer. -/
theorem encode_ok {n : ℕ} {buf' : List UInt8} (h : p.encode version buf = .ok n buf')
    (hlen : p.Measured version buf.length) :
    p.Encodable ∧ p.room version ≤ buf.length ∧ n = (p.wire version).length ∧
      buf'.length = buf.length ∧ ∃ tail, buf' = p.wire version ++ tail := by
  have hfit : p.Encodable ∧ p.room version ≤ buf.length := by
    by_cases hbare : p.Bare
    · obtain ⟨hencode, hr, hp, _⟩ := encode_of_bare hbare version
      rw [hencode, encodeBare] at h
      split at h
      · cases h
      · exact ⟨hp, by omega⟩
    · obtain ⟨hencode, hr⟩ := encode_of_not_bare hbare version
      rw [hencode] at h
      rw [hr]
      exact encodeFramed_ok (emits_write p version) (overruns_or_nothing hbare version) h
  obtain ⟨tail, hok, hsize⟩ := encode_fits hfit.1 hfit.2 (hlen hfit.1 hfit.2)
  rw [hok] at h
  cases h
  exact ⟨hfit.1, hfit.2, rfl, hsize, tail, rfl⟩

/-- A buffer that is too small for a packet is reported as such. -/
theorem encode_small (hbare : ¬ p.Bare) (hdisc : ∀ d, p ≠ .disconnect d)
    (hsmall : buf.length < 5 ∨ (p.Encodable ∧ buf.length < p.room version)) :
    ∃ buf', p.encode version buf = .error (.err .bufferTooSmall) buf' := by
  obtain ⟨hencode, hr⟩ := encode_of_not_bare hbare version
  rw [hr] at hsmall
  rw [hencode]
  exact encodeFramed_small (emits_write p version) (overruns_write hbare hdisc version) hsmall

/-- A packet for which there is room is never refused, however long it is. -/
theorem encode_not_refused (hp : p.Encodable) (hroom : p.room version ≤ buf.length)
    (hpos : 4 ≤ (p.content version).length) {e : PacketError} {buf' : List UInt8} :
    p.encode version buf ≠ .error (.err e) buf' := by
  have hbare : ¬ p.Bare := by
    intro hbare
    rw [(encode_of_bare hbare version).2.2.2] at hpos
    simp at hpos
  obtain ⟨hencode, hr⟩ := encode_of_not_bare hbare version
  rw [hr] at hroom
  rw [hencode]
  exact encodeFramed_not_refused (emits_write p version) hp hroom

/-- What has been encoded begins with the first byte of the packet and the length of its content. -/
theorem front_encode {n : ℕ} {buf' : List UInt8} (h : p.encode version buf = .ok n buf') :
    n = 1 + (Base128.encode (p.content version).length).length + (p.content version).length ∧
      (p.first :: Base128.encode (p.content version).length) <+: buf' := by
  by_cases hbare : p.Bare
  · obtain ⟨hencode, -, -, hcontent⟩ := encode_of_bare hbare version
    rw [hencode, encodeBare] at h
    rw [hcontent, List.length_nil, Base128.encode_of_lt (by omega)]
    split at h
    · cases h
    · cases h
      exact ⟨rfl, _, rfl⟩
  · rw [(encode_of_not_bare hbare version).1] at h
    exact front_encodeFramed (emits_write p version) (overruns_or_nothing hbare version) h

/-- What has been encoded begins with the first byte of the packet. -/
theorem head_encode {n : ℕ} {buf' : List UInt8} (h : p.encode version buf = .ok n buf') :
    0 < n ∧ buf'.head? = some p.first := by
  obtain ⟨rfl, t, rfl⟩ := front_encode h
  exact ⟨by omega, rfl⟩

/-- Whatever comes of it, encoding keeps the length of the buffer. -/
theorem length_encode (p : MqttPacket) (version : MqttVersion) (buf : List UInt8) :
    (p.encode version buf).final.length = buf.length := by
  by_cases hbare : p.Bare
  · rw [(encode_of_bare hbare version).1, encodeBare]
    split
    · rfl
    · simp only [EStateM.Result.final_ok, List.length_cons, List.length_drop]
      omega
  · rw [(encode_of_not_bare hbare version).1]
    exact length_encodeFramed (emits_write p version) buf

/-- A packet other than DISCONNECT is encoded, or the encoder returns an error. -/
theorem encode_error (hdisc : ∀ d, p ≠ .disconnect d)
    (hlen : p.Measured version buf.length) {e : Fault PacketError} {buf' : List UInt8}
    (h : p.encode version buf = .error e buf') :
    ∃ e', e = .err e' := by
  by_cases hbare : p.Bare
  · rw [(encode_of_bare hbare version).1, encodeBare] at h
    split at h
    · cases h
      exact ⟨_, rfl⟩
    · cases h
  · obtain ⟨hencode, hr⟩ := encode_of_not_bare hbare version
    rw [hencode] at h
    rw [MqttPacket.Measured, hr] at hlen
    exact encodeFramed_error (emits_write p version) hlen (overruns_write hbare hdisc version) h

end

end MqttEngine
