import MqttEngine.Packet.Wire

/-!
# Round trip of the codec

A packet that is representable in a protocol version is decoded from its wire bytes,
whatever bytes follow it. Each decoder has one lemma, which follows the decoder's own
order: where a field stands, and where the next one starts.

## Main definitions

* `MqttPacket.Representable` — the packet loses nothing in this version.

## Main results

* `decode_wire_append` — decoding reads back a packet from the front of a buffer.
* `decode_encode` — decoding reads back what `encode` wrote.
-/

namespace MqttEngine
open Checked SliceWriter

/-! ## Representable packets -/

/-- The property lists of a packet. -/
def MqttPacket.propertyLists : MqttPacket → List Properties
  | .connect p => p.properties :: p.will.elim [] fun will => [will.properties]
  | .connAck p => [p.properties]
  | .publish p => [p.properties]
  | .pubAck p | .pubRec p | .pubRel p | .pubComp p => [p.properties]
  | .subscribe p => [p.properties]
  | .subAck p | .unsubAck p => [p.properties]
  | .unsubscribe p => [p.properties]
  | .pingReq | .pingResp => []
  | .disconnect p => [p.properties]

/-- The reason code that only version 5 writes. -/
def MqttPacket.v5ReasonCode : MqttPacket → UInt8
  | .pubAck p | .pubRec p | .pubRel p | .pubComp p => p.reasonCode
  | .disconnect p => p.reasonCode
  | _ => 0

/-- A property list loses nothing in this version. -/
def RepresentableProperties (version : MqttVersion) (ps : Properties) : Prop :=
  (version ≠ .v5 → ps = .empty) ∧ ∀ p ∈ ps.toList, p.WellShaped

/-- A packet loses nothing in this version: property lists and reason codes are empty unless
it is version 5, every property has the shape its identifier asks for, a PUBLISH has a packet
id exactly above QoS 0, and the content is no longer than a remaining length can say. -/
structure MqttPacket.Representable (version : MqttVersion) (p : MqttPacket) : Prop where
  properties : ∀ ps ∈ p.propertyLists, RepresentableProperties version ps
  reasonCode : version ≠ .v5 → p.v5ReasonCode = 0
  packetId : ∀ publish, p = .publish publish →
    (publish.packetId.isSome ↔ publish.qos ≠ .atMostOnce)
  length : (p.content version).length ≤ 268435455

/-! ## Fields at a position -/

section
variable {buf rest : List UInt8} {cursor contentEnd : ℕ} {version : MqttVersion}

/-- The bounds of the content of a frame. -/
theorem readContentBounds_frame {first : UInt8} {content : List UInt8}
    (hlen : content.length ≤ 268435455) (hbuf : buf = frameBytes first content ++ rest) :
    ∃ cursor, readContentBounds buf = .ok (cursor, cursor + content.length) ∧
      buf.drop cursor = content ++ rest ∧ 1 < cursor ∧
      cursor + content.length ≤ buf.length := by
  have hdrop : buf.drop 1 = Base128.encode content.length ++ (content ++ rest) := by
    rw [hbuf, frameBytes]
    simp
  have hsize := length_of_drop hdrop (by simp [Base128.encode_ne_nil])
  have hfield := Base128.length_encode_pos content.length
  simp only [List.length_append] at hsize
  refine ⟨1 + (Base128.encode content.length).length, ?_, drop_add_of_append hdrop, by omega,
    by omega⟩
  rw [readContentBounds, reads_vbi (by omega) 1 buf _ hdrop, ok_bind]
  dsimp only
  rw [failIf_of_not (by omega), ok_bind]

theorem readWord_of_drop {x : UInt16} (hbuf : buf.drop cursor = toBeBytes x ++ rest)
    (hend : cursor + 2 ≤ contentEnd) : readWord contentEnd cursor buf = .ok (x, cursor + 2) := by
  rw [readWord, failIf_of_not (by omega), ok_bind, readU16_of_drop hbuf, ok_bind]

theorem length_propertiesBytes_pos (ps : List Property) : 0 < (propertiesBytes ps).length := by
  have := Base128.length_encode_pos (propertiesBody ps).length
  rw [propertiesBytes, List.length_append]
  omega

theorem reads_propertiesBytes {ps : Properties} (hps : RepresentableProperties version ps)
    (hlen : (propertiesBytes ps.toList).length ≤ 268435455) :
    Reads readProperties (propertiesBytes ps.toList) ps := by
  apply reads_properties hps.2
  rw [propertiesBytes, List.length_append] at hlen
  omega

/-- The property block is read exactly when it was written. -/
theorem readPropertiesIf_of_drop {c : Prop} [Decidable c] {ps : Properties}
    (hps : RepresentableProperties version ps)
    (hbuf : buf.drop cursor = v5PropertiesBytes version ps ++ rest)
    (hlen : (v5PropertiesBytes version ps).length ≤ 268435455) (hc : c ↔ version = .v5) :
    readPropertiesIf c cursor buf =
      .ok (ps, cursor + (v5PropertiesBytes version ps).length) := by
  by_cases hv : version = .v5
  · simp only [v5PropertiesBytes, if_pos hv] at hbuf hlen ⊢
    rw [readPropertiesIf, if_pos (hc.mpr hv)]
    exact reads_propertiesBytes hps hlen cursor buf rest hbuf
  · rw [readPropertiesIf, if_neg (fun h => hv (hc.mp h)), v5PropertiesBytes, if_neg hv, hps.1 hv]
    rfl

theorem length_v5PropertiesBytes_pos (version : MqttVersion) (ps : Properties) (hv : version = .v5) :
    0 < (v5PropertiesBytes version ps).length := by
  rw [v5PropertiesBytes, if_pos hv]
  exact length_propertiesBytes_pos _

/-- A field under a flag is read exactly when it is present. -/
theorem readIf_of_drop {β : Type} {read : ℕ → List UInt8 → Checked PacketError (β × ℕ)}
    {encode : β → List UInt8} {flag : Bool} {o : Option β} (hflag : flag = o.isSome)
    (hbuf : buf.drop cursor = o.elim [] encode ++ rest)
    (hread : ∀ x ∈ o, buf.drop cursor = encode x ++ rest →
      read cursor buf = .ok (x, cursor + (encode x).length)) :
    readIf flag read cursor buf = .ok (o, cursor + (o.elim [] encode).length) := by
  subst hflag
  rcases o with _ | x
  · rfl
  · rw [readIf, Option.isSome_some, if_pos rfl, hread x rfl hbuf]
    rfl

theorem readOptional_of_drop {s : Option String} {flag : Bool} (hflag : flag = s.isSome)
    (hbuf : buf.drop cursor = optionalBytes s ++ rest)
    (hs : ∀ x ∈ s, (strBytes x).length ≤ 65535) :
    readIf flag readUtf8String cursor buf = .ok (s, cursor + (optionalBytes s).length) :=
  readIf_of_drop hflag hbuf fun x hx => reads_utf8String (hs x hx) cursor buf rest

theorem readReason_of_drop {reasonCode : UInt8} {ps : Properties}
    (hps : RepresentableProperties version ps) (hcode : version ≠ .v5 → reasonCode = 0)
    (hbuf : buf.drop cursor = reasonBytes version reasonCode ps ++ rest)
    (hlen : (reasonBytes version reasonCode ps).length ≤ 268435455)
    (hend : contentEnd = cursor + (reasonBytes version reasonCode ps).length) :
    readReason version contentEnd cursor buf = .ok (reasonCode, ps) := by
  unfold reasonBytes at hbuf hlen hend
  by_cases hwritten : version = .v5 ∧ (ps.toList ≠ [] ∨ reasonCode ≠ 0)
  · rw [if_pos hwritten] at hbuf hlen hend
    simp only [List.length_cons, List.cons_append] at hbuf hlen hend
    have hpos := length_propertiesBytes_pos ps.toList
    have hread := reads_propertiesBytes hps (by omega) _ _ _ (drop_succ_of_cons hbuf)
    rw [readReason, if_pos ⟨hwritten.1, by omega⟩, get_of_drop hbuf, ok_bind]
    simp only [readPropertiesIf, if_pos (show cursor + 1 < contentEnd by omega), hread, ok_bind]
  · rw [if_neg hwritten, List.length_nil] at hend
    rw [readReason, if_neg (by omega)]
    by_cases hv : version = .v5
    · simp only [hv, true_and, not_or, not_not] at hwritten
      rw [hwritten.2, ps.eq_empty_iff.mpr hwritten.1]
    · rw [hcode hv, hps.1 hv]

/-- The loop over topics or reason codes reads back what was written. -/
theorem readList_of_drop {β : Type} {item : ℕ → List UInt8 → Checked PacketError (β × ℕ)}
    {encode : β → List UInt8} {items : BoundedVec β 8}
    (hitem : ∀ x ∈ items.toList, 0 < (encode x).length ∧ Reads item (encode x) x)
    (hbuf : buf.drop cursor = items.toList.flatMap encode ++ rest)
    (hend : contentEnd = cursor + (items.toList.flatMap encode).length) :
    readList item contentEnd cursor buf = .ok items := by
  have hloop : readItems .batchCapacityExceeded item buf contentEnd (contentEnd - cursor) cursor
      (BoundedVec.empty : BoundedVec β 8) = .ok (items, contentEnd) :=
    readItems_append (fun x hx => ⟨(hitem x hx).1, fun c r hd _ => (hitem x hx).2 c buf r hd⟩)
      hbuf hend (by omega) (List.nil_append _)
  rw [readList, hloop]
  rfl

theorem reads_topic {topic : String × QoS} (h : (strBytes topic.1).length ≤ 65535) :
    Reads readTopic (topicBytes topic) topic := by
  intro cursor buf rest hbuf
  simp only [topicBytes, List.append_assoc] at hbuf
  have hqos := drop_add_of_append hbuf
  rw [readTopic, reads_utf8String h cursor buf _ hbuf, ok_bind]
  dsimp only
  rw [get_of_drop hqos, ok_bind, QoS.fromByte_toByte]
  simp [topicBytes, Nat.add_assoc]

theorem reads_code (code : UInt8) : Reads readCode [code] code := by
  intro cursor buf rest hbuf
  rw [readCode, get_of_drop hbuf]
  rfl

end

/-! ## Flags -/

theorem connect_flags_spec (p : Connect) :
    (decide (p.flags &&& 0x02 ≠ 0) = p.cleanSession ∧
      decide (p.flags &&& 0x04 ≠ 0) = p.will.isSome ∧
      decide (p.flags &&& 0x40 ≠ 0) = p.password.isSome ∧
      decide (p.flags &&& 0x80 ≠ 0) = p.username.isSome) ∧
    ∀ will ∈ p.will, QoS.fromByte ((p.flags >>> 3) &&& 0x03) = will.qos ∧
      decide (p.flags &&& 0x20 ≠ 0) = will.retain := by
  rcases p with ⟨clean, _, _, user, pass, _ | ⟨_, _, qos, retain, _⟩, _⟩
  · cases clean <;> cases user <;> cases pass <;> simp [Connect.flags] <;> decide
  · cases clean <;> cases user <;> cases pass <;> cases qos <;> cases retain <;>
      simp [Connect.flags, QoS.toByte, QoS.fromByte] <;> decide

theorem publish_header_spec (p : Publish) :
    decide (p.header &&& 0x08 ≠ 0) = p.dup ∧
      QoS.fromByte ((p.header >>> 1) &&& 0x03) = p.qos ∧
      decide (p.header &&& 0x01 ≠ 0) = p.retain := by
  rcases p with ⟨dup, qos, retain, _, _, _, _⟩
  cases dup <;> cases qos <;> cases retain <;>
    simp [Publish.header, QoS.toByte, QoS.fromByte] <;> decide

/-! ## The decoders -/

section
variable {version : MqttVersion} {buf rest : List UInt8} {cursor contentEnd : ℕ}

theorem will_read {v5 : Bool} {will : Will} (hv5 : v5 = true ↔ version = .v5)
    (hprops : RepresentableProperties version will.properties)
    (hsize : (strBytes will.topic).length ≤ 65535 ∧ will.payload.length ≤ 65535)
    (hd : buf.drop cursor = will.bytes version ++ rest)
    (hend : cursor + (will.bytes version).length ≤ contentEnd)
    (hlen : (will.bytes version).length ≤ 268435455) :
    Will.read v5 contentEnd will.qos will.retain cursor buf =
      .ok (will, cursor + (will.bytes version).length) := by
  simp only [Will.bytes, List.append_assoc, List.length_append, length_lengthPrefixed]
    at hd hend hlen ⊢
  have d1 := drop_add_of_append hd
  have d2 := drop_add_of_append d1
  have hc : v5 = true ∧ cursor < contentEnd ↔ version = .v5 := by
    rw [hv5]
    exact ⟨And.left, fun hv => ⟨hv, by omega⟩⟩
  rw [Will.read, readPropertiesIf_of_drop hprops hd (by omega) hc]
  simp only [ok_bind, reads_utf8String hsize.1 _ _ _ d1, reads_binaryData hsize.2 _ _ _ d2]
  simp only [length_lengthPrefixed, Nat.add_assoc]

theorem level_spec (version : MqttVersion) :
    decide (version = .v5 ∨ version.level = 5) = true ↔ version = .v5 := by
  cases version <;> decide

theorem connect_decode {p : Connect} (hp : (MqttPacket.connect p).Representable version)
    (he : (MqttPacket.connect p).Encodable)
    (hb : readContentBounds buf = .ok (cursor, contentEnd))
    (hd : buf.drop cursor = (MqttPacket.connect p).content version ++ rest)
    (hend : contentEnd = cursor + ((MqttPacket.connect p).content version).length) :
    Connect.decode buf version = .ok p := by
  obtain ⟨⟨hclean, hwill, hpass, huser⟩, hwillFlags⟩ := connect_flags_spec p
  have hlen := hp.length
  have hprops := hp.properties p.properties (by simp [MqttPacket.propertyLists])
  simp only [MqttPacket.Encodable, MqttPacket.prefixed, List.forall_mem_cons,
    List.forall_mem_append, List.forall_mem_map, Option.mem_toList] at he
  obtain ⟨hid, hwillSize, huserSize, hpassSize⟩ := he
  simp only [MqttPacket.content, List.append_assoc, List.cons_append, List.nil_append, List.length_append,
    List.length_cons, length_toBeBytes] at hd hend hlen
  have hpos := length_v5PropertiesBytes_pos version p.properties
  -- Where each field stands.
  have d1 := drop_add_of_append hd
  have d2 := drop_succ_of_cons d1
  have d3 := drop_succ_of_cons d2
  have d4 := drop_add_of_append d3
  have d5 := drop_add_of_append d4
  have d6 := drop_add_of_append d5
  have d7 := drop_add_of_append d6
  have d8 := drop_add_of_append d7
  simp only [length_toBeBytes] at d4 d5 d6 d7 d8
  -- What is read there.
  have r1 := reads_utf8String (show (strBytes "MQTT").length ≤ 65535 by decide) _ _ _ hd
  have r2 := get_of_drop d1 PacketError.incompletePacket
  have r3 := get_of_drop d2 PacketError.incompletePacket
  have r4 := readWord_of_drop d3 (show _ + 2 ≤ contentEnd by omega)
  have hc : decide (version = .v5 ∨ version.level = 5) = true ∧
      cursor + (lengthPrefixed (strBytes "MQTT")).length + 1 + 1 + 2 < contentEnd ↔
        version = .v5 := by
    rw [level_spec]
    exact ⟨And.left, fun hv => ⟨hv, by have := hpos hv; omega⟩⟩
  have r5 := readPropertiesIf_of_drop hprops d4 (by omega) hc
  have r6 := reads_utf8String hid _ _ _ d5
  have hwillRead (pos : ℕ) (rest : List UInt8) (will : Will) (hw : p.will = some will)
      (hdw : buf.drop pos = will.bytes version ++ rest)
      (hfit : pos + (will.bytes version).length ≤ contentEnd) :
      Will.read (decide (version = .v5 ∨ version.level = 5)) contentEnd
        (QoS.fromByte ((p.flags >>> 3) &&& 0x03)) (decide (p.flags &&& 0x20 ≠ 0)) pos buf =
          .ok (will, pos + (will.bytes version).length) := by
    obtain ⟨hqos, hretain⟩ := hwillFlags will hw
    rw [hw] at hwillSize hlen
    simp only [Option.elim_some, List.forall_mem_cons] at hwillSize hlen
    rw [hqos, hretain]
    apply will_read (level_spec version) _ ⟨hwillSize.1, hwillSize.2.1⟩ hdw hfit
    · omega
    · exact hp.properties _ (by simp [MqttPacket.propertyLists, hw])
  have r7 := readIf_of_drop hwill d6 fun will hw hdw => hwillRead _ _ will hw hdw (by
    rw [hw, Option.elim_some] at hend
    omega)
  have r8 := readOptional_of_drop huser d7 huserSize
  have r9 := readOptional_of_drop hpass d8 hpassSize
  rw [Connect.decode]
  simp only [hb, ok_bind, r1, r2, r3, r4, r5, r6, r7, r8, r9, hclean]
  rw [failIf_of_not (by decide), ok_bind]

theorem connAck_decode {p : ConnAck} (hp : (MqttPacket.connAck p).Representable version)
    (hb : readContentBounds buf = .ok (cursor, contentEnd))
    (hd : buf.drop cursor = (MqttPacket.connAck p).content version ++ rest)
    (hend : contentEnd = cursor + ((MqttPacket.connAck p).content version).length) :
    ConnAck.decode buf version = .ok p := by
  have hprops := hp.properties p.properties (by simp [MqttPacket.propertyLists])
  have hpos := length_v5PropertiesBytes_pos version p.properties
  have hlen := hp.length
  simp only [MqttPacket.content, List.cons_append, List.nil_append, List.length_cons] at hd hend hlen
  have d1 := drop_succ_of_cons hd
  have d2 := drop_succ_of_cons d1
  have hc : version = .v5 ∧ cursor + 1 + 1 < contentEnd ↔ version = .v5 :=
    ⟨And.left, fun hv => ⟨hv, by have := hpos hv; omega⟩⟩
  have r1 : (index buf cursor : Checked PacketError UInt8) = _ := index_of_drop hd
  have r2 : (index buf (cursor + 1) : Checked PacketError UInt8) = _ := index_of_drop d1
  have r3 := readPropertiesIf_of_drop hprops d2 (by omega) hc
  have hpresent : decide ((if p.sessionPresent then 0x01 else 0x00) &&& (0x01 : UInt8) ≠ 0) =
      p.sessionPresent := by
    cases p.sessionPresent <;> decide
  rw [ConnAck.decode]
  simp only [hb, ok_bind, r1, r2, r3, hpresent]
  rw [failIf_of_not (by omega), ok_bind]

theorem publish_decode {p : Publish} (hp : (MqttPacket.publish p).Representable version)
    (he : (MqttPacket.publish p).Encodable) (hfirst : ∃ tail, buf = p.header :: tail)
    (hb : readContentBounds buf = .ok (cursor, contentEnd))
    (hd : buf.drop cursor = (MqttPacket.publish p).content version ++ rest)
    (hend : contentEnd = cursor + ((MqttPacket.publish p).content version).length)
    (hbuf : contentEnd ≤ buf.length) : Publish.decode buf version = .ok p := by
  have hprops := hp.properties p.properties (by simp [MqttPacket.propertyLists])
  have hpos := length_v5PropertiesBytes_pos version p.properties
  have hlen := hp.length
  have hpid := hp.packetId p rfl
  have htopic : (strBytes p.topic).length ≤ 65535 := he _ (by simp [MqttPacket.prefixed])
  obtain ⟨hdup, hqos, hretain⟩ := publish_header_spec p
  obtain ⟨tail, hcons⟩ := hfirst
  have hfield : (if p.qos ≠ .atMostOnce then toBeBytes (p.packetId.getD 1) else []) =
      p.packetId.elim [] toBeBytes := by
    rcases hid : p.packetId with _ | x
    · rw [hid] at hpid
      simp only [Option.isSome_none, Bool.false_eq_true, false_iff, not_not] at hpid
      simp [hpid]
    · rw [hid] at hpid
      simp only [Option.isSome_some, true_iff] at hpid
      simp [hpid]
  simp only [MqttPacket.content, hfield, List.append_assoc, List.length_append] at hd hend hlen
  have d1 := drop_add_of_append hd
  have d2 := drop_add_of_append d1
  have d3 := drop_add_of_append d2
  have r0 : (index buf 0 : Checked PacketError UInt8) = .ok p.header := by rw [hcons]; rfl
  have r1 := reads_utf8String htopic _ _ _ hd
  have hflag : decide (p.qos ≠ .atMostOnce) = p.packetId.isSome := by
    rw [Bool.eq_iff_iff, hpid, decide_eq_true_iff]
  have r2 := readIf_of_drop hflag d1 fun x hx hdx => by
    rw [Option.mem_def] at hx
    rw [hx, Option.elim_some, length_toBeBytes] at hend
    exact readWord_of_drop hdx (show _ + 2 ≤ contentEnd by omega)
  have hc : version = .v5 ∧ cursor + (lengthPrefixed (strBytes p.topic)).length +
      (p.packetId.elim [] toBeBytes).length < contentEnd ↔ version = .v5 :=
    ⟨And.left, fun hv => ⟨hv, by have := hpos hv; omega⟩⟩
  have r3 := readPropertiesIf_of_drop hprops d2 (by omega) hc
  have r4 : (range buf _ _ : Checked PacketError (List UInt8)) = _ :=
    range_of_drop d3 (by omega)
  have hpayload : contentEnd = cursor + (lengthPrefixed (strBytes p.topic)).length +
      (p.packetId.elim [] toBeBytes).length + (v5PropertiesBytes version p.properties).length +
        p.payload.length := by omega
  rw [← hpayload] at r4
  rw [Publish.decode, failIf_of_not (by simp [hcons]), ok_bind]
  simp only [r0, ok_bind, hb, r1, hqos, r2, r3, r4, hdup, hretain]

theorem ack_decode {p : Ack} (hprops : RepresentableProperties version p.properties)
    (hcode : version ≠ .v5 → p.reasonCode = 0)
    (hb : readContentBounds buf = .ok (cursor, contentEnd))
    (hd : buf.drop cursor =
      (toBeBytes p.packetId ++ reasonBytes version p.reasonCode p.properties) ++ rest)
    (hlen : (toBeBytes p.packetId ++ reasonBytes version p.reasonCode p.properties).length ≤
      268435455)
    (hend : contentEnd = cursor +
      (toBeBytes p.packetId ++ reasonBytes version p.reasonCode p.properties).length) :
    Ack.decode buf version = .ok p := by
  simp only [List.append_assoc, List.length_append, length_toBeBytes] at hd hend hlen
  have d1 := drop_add_of_append hd
  have r1 := readWord_of_drop hd (show _ + 2 ≤ contentEnd by omega)
  have r2 := readReason_of_drop hprops hcode d1 (by omega)
    (show contentEnd = _ by rw [length_toBeBytes]; omega)
  rw [length_toBeBytes] at r2
  rw [Ack.decode]
  simp only [hb, ok_bind, r1, r2]

theorem readIdAndProperties_of_drop {packetId : UInt16} {ps : Properties} {items : List UInt8}
    (hprops : RepresentableProperties version ps)
    (hb : readContentBounds buf = .ok (cursor, contentEnd))
    (hd : buf.drop cursor = (idAndPropertiesBytes version packetId ps ++ items) ++ rest)
    (hlen : (idAndPropertiesBytes version packetId ps ++ items).length ≤ 268435455)
    (hend : contentEnd =
      cursor + (idAndPropertiesBytes version packetId ps ++ items).length) :
    ∃ pos, readIdAndProperties buf version = .ok (packetId, ps, pos, contentEnd) ∧
      buf.drop pos = items ++ rest ∧ contentEnd = pos + items.length := by
  have hpos := length_v5PropertiesBytes_pos version ps
  simp only [idAndPropertiesBytes, List.append_assoc, List.length_append, length_toBeBytes]
    at hd hend hlen
  have d1 := drop_add_of_append hd
  have d2 := drop_add_of_append d1
  have r1 := readWord_of_drop hd (show _ + 2 ≤ contentEnd by omega)
  have hc : version = .v5 ∧ cursor + 2 < contentEnd ↔ version = .v5 :=
    ⟨And.left, fun hv => ⟨hv, by have := hpos hv; omega⟩⟩
  have r2 := readPropertiesIf_of_drop hprops d1 (by omega) hc
  rw [length_toBeBytes] at r2 d2
  refine ⟨_, ?_, d2, by omega⟩
  rw [readIdAndProperties]
  simp only [hb, ok_bind, r1, r2]

theorem subscribe_decode {p : Subscribe} (hp : (MqttPacket.subscribe p).Representable version)
    (he : (MqttPacket.subscribe p).Encodable)
    (hb : readContentBounds buf = .ok (cursor, contentEnd))
    (hd : buf.drop cursor = (MqttPacket.subscribe p).content version ++ rest)
    (hend : contentEnd = cursor + ((MqttPacket.subscribe p).content version).length) :
    Subscribe.decode buf version = .ok p := by
  have hprops := hp.properties p.properties (by simp [MqttPacket.propertyLists])
  obtain ⟨pos, hread, hitems, hstop⟩ := readIdAndProperties_of_drop hprops hb hd hp.length hend
  have hlist := readList_of_drop (fun topic htopic => ⟨by simp [topicBytes], reads_topic
    (he _ (List.mem_map.mpr ⟨topic, htopic, rfl⟩))⟩) hitems hstop
  rw [Subscribe.decode]
  simp only [hread, ok_bind, hlist]

theorem codesAck_decode {p : CodesAck} (hprops : RepresentableProperties version p.properties)
    (hb : readContentBounds buf = .ok (cursor, contentEnd))
    (hd : buf.drop cursor =
      (idAndPropertiesBytes version p.packetId p.properties ++ p.reasonCodes.toList) ++ rest)
    (hlen : (idAndPropertiesBytes version p.packetId p.properties ++ p.reasonCodes.toList).length ≤
      268435455)
    (hend : contentEnd = cursor +
      (idAndPropertiesBytes version p.packetId p.properties ++ p.reasonCodes.toList).length) :
    CodesAck.decode buf version = .ok p := by
  obtain ⟨pos, hread, hitems, hstop⟩ := readIdAndProperties_of_drop hprops hb hd hlen hend
  have hflat : p.reasonCodes.toList = p.reasonCodes.toList.flatMap fun code => [code] := by simp
  rw [hflat] at hitems hstop
  have hlist := readList_of_drop (fun code _ => ⟨by simp, reads_code code⟩) hitems hstop
  rw [CodesAck.decode]
  simp only [hread, ok_bind, hlist]

theorem unsubscribe_decode {p : Unsubscribe}
    (hp : (MqttPacket.unsubscribe p).Representable version)
    (he : (MqttPacket.unsubscribe p).Encodable)
    (hb : readContentBounds buf = .ok (cursor, contentEnd))
    (hd : buf.drop cursor = (MqttPacket.unsubscribe p).content version ++ rest)
    (hend : contentEnd = cursor + ((MqttPacket.unsubscribe p).content version).length) :
    Unsubscribe.decode buf version = .ok p := by
  have hprops := hp.properties p.properties (by simp [MqttPacket.propertyLists])
  obtain ⟨pos, hread, hitems, hstop⟩ := readIdAndProperties_of_drop hprops hb hd hp.length hend
  have hlist := readList_of_drop (fun topic htopic => ⟨by simp, reads_utf8String
    (he _ (List.mem_map.mpr ⟨topic, htopic, rfl⟩))⟩) hitems hstop
  rw [Unsubscribe.decode]
  simp only [hread, ok_bind, hlist]

theorem disconnect_decode {p : Disconnect} (hp : (MqttPacket.disconnect p).Representable version)
    (hb : readContentBounds buf = .ok (cursor, contentEnd)) (hsize : 1 < buf.length)
    (hd : buf.drop cursor = (MqttPacket.disconnect p).content version ++ rest)
    (hend : contentEnd = cursor + ((MqttPacket.disconnect p).content version).length) :
    Disconnect.decode buf version = .ok p := by
  have hprops := hp.properties p.properties (by simp [MqttPacket.propertyLists])
  have r1 := readReason_of_drop hprops hp.reasonCode hd hp.length hend
  rw [Disconnect.decode, if_pos hsize]
  simp only [hb, ok_bind, r1]
  rfl

end

/-! ## Round trip -/

section
variable {version : MqttVersion} {p : MqttPacket}

/-- Decoding reads back a packet from the front of a buffer, whatever follows it. -/
theorem decode_wire_append (hp : p.Representable version) (he : p.Encodable)
    (rest : List UInt8) : decode (p.wire version ++ rest) version = .ok (some p) := by
  have hwire : p.wire version ++ rest = frameBytes p.first (p.content version) ++ rest := rfl
  obtain ⟨cursor, hb, hd, hpos, hle⟩ := readContentBounds_frame hp.length hwire
  have hprops {ps : Properties} (h : p.propertyLists = [ps]) : RepresentableProperties version ps :=
    hp.properties ps (by simp [h])
  have htype : decodeType (p.first >>> 4) (p.wire version ++ rest) version = .ok p := by
    rw [packetType_first]
    cases p with
    | connect p => exact map_eq_ok_of MqttPacket.connect (connect_decode hp he hb hd rfl)
    | connAck p => exact map_eq_ok_of MqttPacket.connAck (connAck_decode hp hb hd rfl)
    | publish p => exact map_eq_ok_of MqttPacket.publish (publish_decode hp he ⟨_, rfl⟩ hb hd rfl hle)
    | pubAck p =>
      exact map_eq_ok_of MqttPacket.pubAck (ack_decode (hprops rfl) hp.reasonCode hb hd hp.length rfl)
    | pubRec p =>
      exact map_eq_ok_of MqttPacket.pubRec (ack_decode (hprops rfl) hp.reasonCode hb hd hp.length rfl)
    | pubRel p =>
      exact map_eq_ok_of MqttPacket.pubRel (ack_decode (hprops rfl) hp.reasonCode hb hd hp.length rfl)
    | pubComp p =>
      exact map_eq_ok_of MqttPacket.pubComp (ack_decode (hprops rfl) hp.reasonCode hb hd hp.length rfl)
    | subscribe p => exact map_eq_ok_of MqttPacket.subscribe (subscribe_decode hp he hb hd rfl)
    | subAck p => exact map_eq_ok_of MqttPacket.subAck (codesAck_decode (hprops rfl) hb hd hp.length rfl)
    | unsubscribe p => exact map_eq_ok_of MqttPacket.unsubscribe (unsubscribe_decode hp he hb hd rfl)
    | unsubAck p => exact map_eq_ok_of MqttPacket.unsubAck (codesAck_decode (hprops rfl) hb hd hp.length rfl)
    | pingReq => rfl
    | pingResp => rfl
    | disconnect p => exact map_eq_ok_of MqttPacket.disconnect (disconnect_decode hp hb (by omega) hd rfl)
  exact map_eq_ok_of some htype

/-- Decoding reads back what `encode` wrote. -/
theorem decode_encode (hp : p.Representable version) {buf buf' : List UInt8} {n : ℕ}
    (h : p.encode version buf = .ok n buf') :
    decode (buf'.take n) version = .ok (some p) := by
  obtain ⟨he, _, rfl, _, tail, rfl⟩ := encode_ok h fun _ _ => Nat.lt_succ_of_le hp.length
  have hround := decode_wire_append hp he []
  rw [List.append_nil] at hround
  rwa [List.take_left]

/-- A version 5 PUBLISH at QoS 1 with one property comes back from a buffer of 20 bytes. -/
theorem decode_encode_publish :
    decode [0x33, 12, 0, 3, 97, 47, 98, 0, 7, 2, 0x01, 1, 104, 105] .v5 =
      .ok (some (.publish
        { dup := false, qos := .atLeastOnce, retain := true, topic := "a/b", packetId := some 7,
          payload := [104, 105], properties := ⟨[⟨0x01, [1]⟩], by decide⟩ })) := by
  have hencode : (MqttPacket.publish
      { dup := false, qos := .atLeastOnce, retain := true, topic := "a/b", packetId := some 7,
        payload := [104, 105], properties := ⟨[⟨0x01, [1]⟩], by decide⟩ }).encode .v5
          (List.replicate 20 0) = .ok 14 [0x33, 12, 0, 3, 97, 47, 98, 0, 7, 2, 0x01, 1, 104, 105,
            1, 104, 105, 0, 0, 0] := rfl
  refine decode_encode ⟨?_, ?_, ?_, ?_⟩ hencode
  · simp only [MqttPacket.propertyLists, List.forall_mem_singleton, RepresentableProperties]
    decide
  · decide
  · rintro _ ⟨⟩
    decide
  · simp [MqttPacket.content, v5PropertiesBytes, propertiesBytes, propertiesBody, Property.bytes,
      Base128.encode_of_lt]
    decide

end

end MqttEngine
