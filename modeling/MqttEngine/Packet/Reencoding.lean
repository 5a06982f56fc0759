import MqttEngine.Packet.OwnFrame
import MqttEngine.Packet.PropertyBlocks
import MqttEngine.Packet.RoundTrip

/-!
# Decoded packets are encoded again

The decoders are lenient: they accept length fields that are not minimal, flag bits without a
meaning, bytes behind the last field, and a quality of service of 3. What they return is
nevertheless a packet that `encode` accepts and that loses nothing on the wire, so encoding it
and decoding the result gives the same packet again.

Each decoder has one lemma, which follows the cursor: a field that has been read takes at
least the bytes that writing it will take.

## Main definitions

* `ProtocolLevel` — the protocol level byte of a CONNECT.

## Main results

* `faithful_of_decode` — what is decoded from a frame is encodable and loses nothing.
* `decode_reencode` — it is decoded again from what `encode` writes.
-/

namespace MqttEngine
open Checked SliceWriter

/-! ## Fields that have been read -/

section
variable {version : MqttVersion} {buf : List UInt8} {cursor c contentEnd : ℕ}

theorem lengthPrefixed_ok {data : List UInt8} (h : readLengthPrefixed cursor buf = .ok (data, c)) :
    data.length ≤ 65535 ∧ c = cursor + (lengthPrefixed data).length ∧ c ≤ buf.length := by
  rw [readLengthPrefixed_eq] at h
  split at h
  · cases h
  · have hlt : prefixAt buf cursor < 65536 := UInt16.toNat_lt _
    cases h
    rw [length_lengthPrefixed, List.length_take, List.length_drop]
    omega

theorem utf8String_ok {s : String} (h : readUtf8String cursor buf = .ok (s, c)) :
    (strBytes s).length ≤ 65535 ∧ c = cursor + (lengthPrefixed (strBytes s)).length ∧
      c ≤ buf.length := by
  obtain ⟨⟨bytes, c'⟩, hread, h⟩ := bind_eq_ok.mp h
  dsimp only at h
  split at h
  · rename_i s' hs
    cases h
    rw [strBytes_of_fromUtf8 hs]
    exact lengthPrefixed_ok hread
  · cases h

theorem binaryData_ok {data : List UInt8} (h : readBinaryData cursor buf = .ok (data, c)) :
    data.length ≤ 65535 ∧ c = cursor + (lengthPrefixed data).length ∧ c ≤ buf.length :=
  lengthPrefixed_ok h

theorem properties_ok {ps : Properties} (h : readProperties cursor buf = .ok (ps, c)) :
    cursor + (propertiesBytes ps.toList).length ≤ c ∧ c ≤ buf.length ∧
      ∀ p ∈ ps.toList, p.WellShaped := by
  obtain ⟨propLen, start, hvbi, hc, hle, hlen, -, hshape⟩ := readProperties_ok h
  refine ⟨?_, hle, hshape⟩
  rw [readVariableByteInteger_eq] at hvbi
  cases hread : Base128.read 4 (buf.drop cursor) with
  | value n len =>
    have hfield := Base128.length_encode_le_of_read hread
    simp only [hread, Except.ok.injEq, Prod.mk.injEq] at hvbi
    rw [propertiesBytes, List.length_append, hlen, ← hvbi.1]
    omega
  | incomplete => simp [hread] at hvbi
  | overlong => simp [hread] at hvbi

/-- A property block that is read under a condition: it was read, or it is empty. -/
theorem propertiesIf_ok {p : Prop} [Decidable p] {ps : Properties}
    (h : readPropertiesIf p cursor buf = .ok (ps, c)) (hcursor : cursor ≤ buf.length) :
    c ≤ buf.length ∧ (∀ q ∈ ps.toList, q.WellShaped) ∧
      ((p ∧ cursor + (propertiesBytes ps.toList).length ≤ c) ∨ (¬ p ∧ ps = .empty ∧ c = cursor)) := by
  rw [readPropertiesIf] at h
  split at h
  · rename_i hp
    obtain ⟨hlen, hle, hshape⟩ := properties_ok h
    exact ⟨hle, hshape, .inl ⟨hp, hlen⟩⟩
  · rename_i hp
    cases h
    exact ⟨hcursor, by simp, .inr ⟨hp, rfl, rfl⟩⟩

/-- A field that is read under a flag: it was read, or it is absent. -/
theorem readIf_ok {β : Type} {read : ℕ → List UInt8 → Checked PacketError (β × ℕ)} {flag : Bool}
    {o : Option β} (h : readIf flag read cursor buf = .ok (o, c)) :
    (∃ x, o = some x ∧ flag = true ∧ read cursor buf = .ok (x, c)) ∨
      (o = none ∧ flag = false ∧ c = cursor) := by
  cases flag with
  | true =>
    obtain ⟨⟨x, c'⟩, hread, h⟩ := bind_eq_ok.mp h
    cases h
    exact .inl ⟨x, rfl, rfl, hread⟩
  | false =>
    cases h
    exact .inr ⟨rfl, rfl, rfl⟩

theorem optional_ok {s : Option String} {flag : Bool}
    (h : readIf flag readUtf8String cursor buf = .ok (s, c)) (hcursor : cursor ≤ buf.length) :
    (∀ x ∈ s, (strBytes x).length ≤ 65535) ∧ c = cursor + (optionalBytes s).length ∧
      c ≤ buf.length := by
  obtain ⟨x, rfl, -, hread⟩ | ⟨rfl, -, rfl⟩ := readIf_ok h
  · obtain ⟨hsize, hc, hle⟩ := utf8String_ok hread
    exact ⟨by simpa using hsize, hc, hle⟩
  · exact ⟨by simp, rfl, hcursor⟩

theorem contentBounds_lt {start stop : ℕ} (h : readContentBounds buf = .ok (start, stop)) :
    stop < start + 128 ^ 4 := by
  obtain ⟨⟨len, pos⟩, hvbi, h⟩ := bind_eq_ok.mp h
  obtain ⟨_, _, h⟩ := bind_eq_ok.mp h
  have := vbi_lt hvbi
  cases h
  omega

/-- Reason code and properties that have been read take at most the rest of the content, or
say so little that they stay short. -/
theorem reason_ok {reasonCode : UInt8} {ps : Properties}
    (h : readReason version buf.length cursor buf = .ok (reasonCode, ps)) :
    RepresentableProperties version ps ∧ (version ≠ .v5 → reasonCode = 0) ∧
      (cursor + (reasonBytes version reasonCode ps).length ≤ buf.length ∨
        (reasonBytes version reasonCode ps).length ≤ 2) := by
  rw [readReason] at h
  split at h
  · rename_i hv
    obtain ⟨code, -, h⟩ := bind_eq_ok.mp h
    obtain ⟨⟨ps', c⟩, hprops, h⟩ := bind_eq_ok.mp h
    obtain ⟨hle, hshape, hread⟩ := propertiesIf_ok hprops (by omega)
    cases h
    refine ⟨⟨fun hne => absurd hv.1 hne, hshape⟩, fun hne => absurd hv.1 hne, ?_⟩
    rw [reasonBytes]
    split
    · rw [List.length_cons]
      rcases hread with ⟨-, hlen⟩ | ⟨-, rfl, -⟩
      · left
        omega
      · right
        simp [propertiesBytes, propertiesBody, Base128.encode_of_lt]
    · right
      simp
  · cases h
    exact ⟨⟨fun _ => rfl, by simp⟩, fun _ => rfl, .inr (by simp [reasonBytes])⟩

/-- A property block of version 5: it was read, or the content has ended in front of it. -/
theorem v5Properties_ok {p : Prop} [Decidable p] {ps : Properties} (hp : p ↔ version = .v5)
    (hcursor : cursor ≤ buf.length)
    (h : readPropertiesIf (p ∧ cursor < buf.length) cursor buf = .ok (ps, c)) :
    c ≤ buf.length ∧ RepresentableProperties version ps ∧
      (cursor + (v5PropertiesBytes version ps).length ≤ c ∨
        (c = buf.length ∧ (v5PropertiesBytes version ps).length = 1)) := by
  obtain ⟨hle, hshape, hread⟩ := propertiesIf_ok h hcursor
  by_cases hv : version = .v5
  · refine ⟨hle, ⟨fun hne => absurd hv hne, hshape⟩, ?_⟩
    rw [v5PropertiesBytes, if_pos hv]
    rcases hread with ⟨-, hlen⟩ | ⟨hend, rfl, rfl⟩
    · exact .inl hlen
    · have hstop : c = buf.length := by
        rw [hp, not_and] at hend
        have := hend hv
        omega
      exact .inr ⟨hstop, by simp [propertiesBytes, propertiesBody, Base128.encode_of_lt]⟩
  · rcases hread with ⟨hpresent, -⟩ | ⟨-, rfl, rfl⟩
    · exact absurd (hp.mp hpresent.1) hv
    · exact ⟨hle, ⟨fun _ => rfl, by simp⟩, .inl (by simp [v5PropertiesBytes, hv])⟩

/-- The items of a list that has been read take the bytes up to the end. -/
theorem list_ok {β : Type} {item : ℕ → List UInt8 → Checked PacketError (β × ℕ)}
    {encode : β → List UInt8} {P : β → Prop} {items : BoundedVec β 8}
    (hitem : ∀ c x c', item c buf = .ok (x, c') →
      P x ∧ c' = c + (encode x).length ∧ c' ≤ buf.length) (hcursor : cursor ≤ buf.length)
    (h : readList item buf.length cursor buf = .ok items) :
    (∀ x ∈ items.toList, P x) ∧
      buf.length = cursor + (items.toList.flatMap encode).length := by
  obtain ⟨⟨all, pos⟩, hloop, h⟩ := bind_eq_ok.mp h
  cases h
  have hconsumes (c : ℕ) (_ : c < buf.length) :
      Consumes (fun part x => part.length = (encode x).length ∧ P x) buf buf.length c
        (item c buf) := by
    intro x c' hx
    obtain ⟨hP, hc', hle⟩ := hitem c x c' hx
    have hlen : ((buf.drop c).take (encode x).length).length = (encode x).length := by
      rw [List.length_take, List.length_drop]
      omega
    refine ⟨(buf.drop c).take (encode x).length, ?_, by omega, hle, hlen, hP⟩
    rw [hc', ← List.drop_drop, List.take_append_drop]
  obtain ⟨parts, xs, hall, hparts, -, -, hstop⟩ := readItems_consumes hconsumes hcursor hloop
  have hparts' : parts.flatten.length = (xs.flatMap encode).length ∧ ∀ x ∈ xs, P x := by
    clear hall hstop
    induction hparts with
    | nil => simp
    | cons hx _ ih =>
      simp only [List.flatten_cons, List.flatMap_cons, List.length_append, List.forall_mem_cons]
      exact ⟨by rw [hx.1, ih.1], hx.2, ih.2⟩
  rw [hall, BoundedVec.toList_empty, List.nil_append]
  exact ⟨hparts'.2, by rw [← hparts'.1]; exact hstop⟩

theorem will_ok {v5 : Bool} {qos : QoS} {retain : Bool} {will : Will}
    (hv5 : v5 = true ↔ version = .v5) (hcursor : cursor ≤ buf.length)
    (h : Will.read v5 buf.length qos retain cursor buf = .ok (will, c)) :
    RepresentableProperties version will.properties ∧ (strBytes will.topic).length ≤ 65535 ∧
      will.payload.length ≤ 65535 ∧ cursor + (will.bytes version).length ≤ c ∧ c ≤ buf.length := by
  obtain ⟨⟨properties, c₁⟩, hprops, h⟩ := bind_eq_ok.mp h
  obtain ⟨⟨topic, c₂⟩, htopic, h⟩ := bind_eq_ok.mp h
  obtain ⟨⟨payload, c₃⟩, hpayload, h⟩ := bind_eq_ok.mp h
  obtain ⟨-, hrep, hlen⟩ := v5Properties_ok hv5 hcursor hprops
  obtain ⟨htopicSize, hc₂, hle₂⟩ := utf8String_ok htopic
  obtain ⟨hpayloadSize, hc₃, hle₃⟩ := binaryData_ok hpayload
  cases h
  refine ⟨hrep, htopicSize, hpayloadSize, ?_, hle₃⟩
  simp only [Will.bytes, List.length_append, length_lengthPrefixed] at hc₂ hc₃ ⊢
  omega

end

/-! ## The decoders -/

/-- The protocol level byte of a CONNECT. -/
def ProtocolLevel (buf : List UInt8) (level : UInt8) : Prop :=
  ∃ start stop name pos, readContentBounds buf = .ok (start, stop) ∧
    readUtf8String start buf = .ok (name, pos) ∧ buf[pos]? = some level

/-- A packet that loses nothing in this version and that `encode` accepts. -/
def MqttPacket.Faithful (version : MqttVersion) (p : MqttPacket) : Prop :=
  p.Representable version ∧ p.Encodable

section
variable {version : MqttVersion} {buf : List UInt8} {start : ℕ}

theorem connect_ok {p : Connect} (hb : readContentBounds buf = .ok (start, buf.length))
    (hlevel : ProtocolLevel buf 5 → version = .v5) (h : Connect.decode buf version = .ok p) :
    (MqttPacket.connect p).Faithful version := by
  have hbound := contentBounds_lt hb
  obtain ⟨⟨start', stop⟩, hb', h⟩ := bind_eq_ok.mp h
  rw [hb] at hb'
  cases hb'
  obtain ⟨⟨name, c₁⟩, hname, h⟩ := bind_eq_ok.mp h
  obtain ⟨level, hget, h⟩ := bind_eq_ok.mp h
  obtain ⟨_, hknown, h⟩ := bind_eq_ok.mp h
  obtain ⟨flags, _, h⟩ := bind_eq_ok.mp h
  obtain ⟨⟨keepAlive, c₂⟩, hword, h⟩ := bind_eq_ok.mp h
  obtain ⟨⟨properties, c₃⟩, hprops, h⟩ := bind_eq_ok.mp h
  obtain ⟨⟨clientId, c₄⟩, hid, h⟩ := bind_eq_ok.mp h
  obtain ⟨⟨will, c₅⟩, hwill, h⟩ := bind_eq_ok.mp h
  obtain ⟨⟨username, c₆⟩, huser, h⟩ := bind_eq_ok.mp h
  obtain ⟨⟨password, c₇⟩, hpass, h⟩ := bind_eq_ok.mp h
  cases h
  rw [failIf_eq_ok] at hknown
  have hv5 : decide (version = .v5 ∨ level = 5) = true ↔ version = .v5 := by
    rw [decide_eq_true_iff, or_iff_left_iff_imp]
    rintro rfl
    exact hlevel ⟨_, _, name, c₁, hb, hname, get_eq_ok.mp hget⟩
  -- The name takes at least as many bytes as the one that is written.
  obtain ⟨-, hc₁, hle₁⟩ := utf8String_ok hname
  have hnameLength : 4 ≤ (strBytes name).length := by
    by_cases hmqtt : name = "MQTT"
    · rw [hmqtt]
      decide
    · have hlegacy : name = "MQIsdp" := by
        by_contra hne
        exact hknown ⟨hmqtt, hne⟩
      rw [hlegacy]
      decide
  obtain ⟨hc₂, hle₂⟩ := readWord_spec hword
  obtain ⟨-, hrep, hlen₃⟩ := v5Properties_ok hv5 (by omega) hprops
  obtain ⟨hidSize, hc₄, hle₄⟩ := utf8String_ok hid
  rw [length_lengthPrefixed] at hc₁ hc₄
  have hwillOk : c₄ + (will.elim [] (Will.bytes version)).length ≤ c₅ ∧ c₅ ≤ buf.length ∧
      (∀ w ∈ will, RepresentableProperties version w.properties) ∧
      ∀ w ∈ will, (strBytes w.topic).length ≤ 65535 ∧ w.payload.length ≤ 65535 := by
    obtain ⟨w, rfl, -, hread⟩ | ⟨rfl, -, rfl⟩ := readIf_ok hwill
    · obtain ⟨hrepWill, htopic, hpayload, hlen, hle⟩ := will_ok hv5 hle₄ hread
      simp only [Option.mem_def, Option.some.injEq, forall_eq']
      exact ⟨hlen, hle, hrepWill, htopic, hpayload⟩
    · simpa using hle₄
  obtain ⟨hlen₅, hle₅, hrepWill, hwillSize⟩ := hwillOk
  obtain ⟨huserSize, hc₆, hle₆⟩ := optional_ok huser hle₅
  obtain ⟨hpassSize, hc₇, hle₇⟩ := optional_ok hpass hle₆
  refine ⟨⟨?_, fun _ => rfl, by simp, ?_⟩, ?_⟩
  · rcases will with _ | w
    · simpa [MqttPacket.propertyLists] using hrep
    · simp only [MqttPacket.propertyLists, Option.elim_some, List.forall_mem_cons,
        List.not_mem_nil, false_implies, implies_true, and_true]
      exact ⟨hrep, hrepWill w rfl⟩
  · have hmqtt : (strBytes "MQTT").length = 4 := by decide
    simp only [MqttPacket.content, List.length_append, List.length_cons, List.length_nil,
      length_lengthPrefixed, length_toBeBytes, hmqtt]
    omega
  · simp only [MqttPacket.Encodable, MqttPacket.prefixed, List.forall_mem_cons,
      List.forall_mem_append, List.forall_mem_map, Option.mem_toList]
    refine ⟨hidSize, ?_, huserSize, hpassSize⟩
    rcases will with _ | w
    · simp
    · simpa using hwillSize w rfl

theorem connAck_ok {p : ConnAck} (hb : readContentBounds buf = .ok (start, buf.length))
    (h : ConnAck.decode buf version = .ok p) : (MqttPacket.connAck p).Faithful version := by
  have hbound := contentBounds_lt hb
  obtain ⟨⟨start', stop⟩, hb', h⟩ := bind_eq_ok.mp h
  rw [hb] at hb'
  cases hb'
  obtain ⟨_, hfit, h⟩ := bind_eq_ok.mp h
  obtain ⟨present, _, h⟩ := bind_eq_ok.mp h
  obtain ⟨code, _, h⟩ := bind_eq_ok.mp h
  obtain ⟨⟨properties, c⟩, hprops, h⟩ := bind_eq_ok.mp h
  rw [failIf_eq_ok] at hfit
  cases h
  obtain ⟨hle, hrep, hlen⟩ := v5Properties_ok (Iff.refl _) (by omega) hprops
  refine ⟨⟨by simpa [MqttPacket.propertyLists] using hrep, fun _ => rfl, by simp, ?_⟩, ?_⟩
  · simp only [MqttPacket.content, List.length_append, List.length_cons, List.length_nil]
    omega
  · simp [MqttPacket.Encodable, MqttPacket.prefixed]

theorem publish_ok {p : Publish} (hb : readContentBounds buf = .ok (start, buf.length))
    (h : Publish.decode buf version = .ok p) : (MqttPacket.publish p).Faithful version := by
  have hbound := contentBounds_lt hb
  obtain ⟨_, _, h⟩ := bind_eq_ok.mp h
  obtain ⟨header, _, h⟩ := bind_eq_ok.mp h
  obtain ⟨⟨start', stop⟩, hb', h⟩ := bind_eq_ok.mp h
  rw [hb] at hb'
  cases hb'
  obtain ⟨⟨topic, c₁⟩, htopic, h⟩ := bind_eq_ok.mp h
  obtain ⟨⟨packetId, c₂⟩, hid, h⟩ := bind_eq_ok.mp h
  obtain ⟨⟨properties, c₃⟩, hprops, h⟩ := bind_eq_ok.mp h
  obtain ⟨payload, hpayload, h⟩ := bind_eq_ok.mp h
  cases h
  obtain ⟨hsize, hc₁, hle₁⟩ := utf8String_ok htopic
  have hidOk : (packetId.isSome ↔ QoS.fromByte ((header >>> 1) &&& 0x03) ≠ .atMostOnce) ∧
      c₂ ≤ buf.length ∧ c₂ = c₁ + if packetId.isSome then 2 else 0 := by
    obtain ⟨x, rfl, hflag, hread⟩ | ⟨rfl, hflag, rfl⟩ := readIf_ok hid
    · obtain ⟨hc₂, hle₂⟩ := readWord_spec hread
      exact ⟨by simpa using hflag, by omega, hc₂⟩
    · exact ⟨by simpa using hflag, hle₁, rfl⟩
  obtain ⟨hqos, hle₂, hc₂⟩ := hidOk
  obtain ⟨hle₃, hrep, hlen₃⟩ := v5Properties_ok (Iff.refl _) hle₂ hprops
  have hpayloadLength : payload.length = buf.length - c₃ := by
    rw [range_of_le hle₃ le_rfl] at hpayload
    cases hpayload
    rw [List.length_drop, List.length_take, Nat.min_self]
  refine ⟨⟨by simpa [MqttPacket.propertyLists] using hrep, fun _ => rfl, ?_, ?_⟩, ?_⟩
  · rintro _ ⟨⟩
    exact hqos
  · have hfield : (if QoS.fromByte ((header >>> 1) &&& 0x03) ≠ .atMostOnce then
        toBeBytes (packetId.getD 1) else []).length = if packetId.isSome then 2 else 0 := by
      simp only [← hqos]
      split <;> rfl
    rw [length_lengthPrefixed] at hc₁
    have hshort : (if packetId.isSome then 2 else 0) ≤ 2 := by split <;> decide
    simp only [MqttPacket.content, List.length_append, hfield, length_lengthPrefixed]
    omega
  · simpa [MqttPacket.Encodable, MqttPacket.prefixed] using hsize

/-- What the decoder of an acknowledgement returns, under whichever of its four names. -/
theorem ack_ok {p : Ack} (hb : readContentBounds buf = .ok (start, buf.length))
    (h : Ack.decode buf version = .ok p) :
    RepresentableProperties version p.properties ∧ (version ≠ .v5 → p.reasonCode = 0) ∧
      (toBeBytes p.packetId ++ reasonBytes version p.reasonCode p.properties).length ≤
        268435455 := by
  have hbound := contentBounds_lt hb
  obtain ⟨⟨start', stop⟩, hb', h⟩ := bind_eq_ok.mp h
  rw [hb] at hb'
  cases hb'
  obtain ⟨⟨packetId, c⟩, hword, h⟩ := bind_eq_ok.mp h
  obtain ⟨⟨reasonCode, properties⟩, hreason, h⟩ := bind_eq_ok.mp h
  cases h
  obtain ⟨hc, -⟩ := readWord_spec hword
  obtain ⟨hrep, hcode, hlen⟩ := reason_ok hreason
  refine ⟨hrep, hcode, ?_⟩
  rw [List.length_append, length_toBeBytes]
  dsimp only
  omega

theorem idAndProperties_ok {packetId : UInt16} {ps : Properties} {pos stop : ℕ}
    (hb : readContentBounds buf = .ok (start, buf.length))
    (h : readIdAndProperties buf version = .ok (packetId, ps, pos, stop)) :
    stop = buf.length ∧ pos ≤ buf.length ∧ RepresentableProperties version ps ∧
      (start + (idAndPropertiesBytes version packetId ps).length ≤ pos ∨
        (pos = buf.length ∧ (idAndPropertiesBytes version packetId ps).length = 3)) := by
  obtain ⟨⟨start', stop'⟩, hb', h⟩ := bind_eq_ok.mp h
  rw [hb] at hb'
  cases hb'
  obtain ⟨⟨id, c⟩, hword, h⟩ := bind_eq_ok.mp h
  obtain ⟨⟨properties, c'⟩, hprops, h⟩ := bind_eq_ok.mp h
  cases h
  obtain ⟨hc, hle⟩ := readWord_spec hword
  obtain ⟨hle', hrep, hlen⟩ := v5Properties_ok (Iff.refl _) (by omega) hprops
  refine ⟨rfl, hle', hrep, ?_⟩
  rw [idAndPropertiesBytes, List.length_append, length_toBeBytes]
  omega

theorem subscribe_ok {p : Subscribe} (hb : readContentBounds buf = .ok (start, buf.length))
    (h : Subscribe.decode buf version = .ok p) : (MqttPacket.subscribe p).Faithful version := by
  have hbound := contentBounds_lt hb
  obtain ⟨⟨packetId, properties, pos, stop⟩, hread, h⟩ := bind_eq_ok.mp h
  obtain ⟨topics, hlist, h⟩ := bind_eq_ok.mp h
  cases h
  obtain ⟨rfl, hpos, hrep, hlen⟩ := idAndProperties_ok hb hread
  have htopic (c : ℕ) (topic : String × QoS) (c' : ℕ) (h : readTopic c buf = .ok (topic, c')) :
      (strBytes topic.1).length ≤ 65535 ∧ c' = c + (topicBytes topic).length ∧
        c' ≤ buf.length := by
    obtain ⟨⟨name, c''⟩, hname, h⟩ := bind_eq_ok.mp h
    obtain ⟨qos, hqos, h⟩ := bind_eq_ok.mp h
    cases h
    obtain ⟨hsize, hc, -⟩ := utf8String_ok hname
    have hlt := (List.getElem?_eq_some_iff.mp (get_eq_ok.mp hqos)).1
    refine ⟨hsize, ?_, hlt⟩
    rw [topicBytes, List.length_append, List.length_singleton, hc, Nat.add_assoc]
  obtain ⟨hsizes, hend⟩ := list_ok htopic hpos hlist
  refine ⟨⟨by simpa [MqttPacket.propertyLists] using hrep, fun _ => rfl, by simp, ?_⟩, ?_⟩
  · simp only [MqttPacket.content, List.length_append]
    omega
  · simpa only [MqttPacket.Encodable, MqttPacket.prefixed, List.forall_mem_map] using hsizes

/-- What the decoder of SUBACK and UNSUBACK returns, under whichever name. -/
theorem codesAck_ok {p : CodesAck} (hb : readContentBounds buf = .ok (start, buf.length))
    (h : CodesAck.decode buf version = .ok p) :
    RepresentableProperties version p.properties ∧
      (idAndPropertiesBytes version p.packetId p.properties ++ p.reasonCodes.toList).length ≤
        268435455 := by
  have hbound := contentBounds_lt hb
  obtain ⟨⟨packetId, properties, pos, stop⟩, hread, h⟩ := bind_eq_ok.mp h
  obtain ⟨codes, hlist, h⟩ := bind_eq_ok.mp h
  cases h
  obtain ⟨rfl, hpos, hrep, hlen⟩ := idAndProperties_ok hb hread
  have hcode (c : ℕ) (code : UInt8) (c' : ℕ) (h : readCode c buf = .ok (code, c')) :
      True ∧ c' = c + ([code] : List UInt8).length ∧ c' ≤ buf.length := by
    obtain ⟨byte, hbyte, h⟩ := bind_eq_ok.mp h
    cases h
    exact ⟨trivial, rfl, (List.getElem?_eq_some_iff.mp (get_eq_ok.mp hbyte)).1⟩
  obtain ⟨-, hend⟩ := list_ok hcode hpos hlist
  refine ⟨hrep, ?_⟩
  have hflat : codes.toList.flatMap (fun code => [code]) = codes.toList := by simp
  rw [hflat] at hend
  rw [List.length_append]
  dsimp only
  omega

theorem unsubscribe_ok {p : Unsubscribe} (hb : readContentBounds buf = .ok (start, buf.length))
    (h : Unsubscribe.decode buf version = .ok p) : (MqttPacket.unsubscribe p).Faithful version := by
  have hbound := contentBounds_lt hb
  obtain ⟨⟨packetId, properties, pos, stop⟩, hread, h⟩ := bind_eq_ok.mp h
  obtain ⟨topics, hlist, h⟩ := bind_eq_ok.mp h
  cases h
  obtain ⟨rfl, hpos, hrep, hlen⟩ := idAndProperties_ok hb hread
  obtain ⟨hsizes, hend⟩ := list_ok (fun _ _ _ => utf8String_ok) hpos hlist
  refine ⟨⟨by simpa [MqttPacket.propertyLists] using hrep, fun _ => rfl, by simp, ?_⟩, ?_⟩
  · simp only [MqttPacket.content, List.length_append]
    omega
  · simpa only [MqttPacket.Encodable, MqttPacket.prefixed, List.forall_mem_map] using hsizes

theorem disconnect_ok {p : Disconnect} (hb : readContentBounds buf = .ok (start, buf.length))
    (h : Disconnect.decode buf version = .ok p) : (MqttPacket.disconnect p).Faithful version := by
  have hbound := contentBounds_lt hb
  have hsize := readContentBounds_spec hb
  rw [Disconnect.decode, if_pos (by omega)] at h
  obtain ⟨⟨start', stop⟩, hb', h⟩ := bind_eq_ok.mp h
  rw [hb] at hb'
  cases hb'
  obtain ⟨⟨reasonCode, properties⟩, hreason, h⟩ := bind_eq_ok.mp h
  cases h
  obtain ⟨hrep, hcode, hlen⟩ := reason_ok hreason
  refine ⟨⟨by simpa [MqttPacket.propertyLists] using hrep, hcode, by simp, ?_⟩, ?_⟩
  · simp only [MqttPacket.content]
    omega
  · simp [MqttPacket.Encodable, MqttPacket.prefixed]

/-- Whatever a decoder returns can be encoded and loses nothing. -/
theorem decodeType_ok {packetType : UInt8} {p : MqttPacket}
    (hb : readContentBounds buf = .ok (start, buf.length))
    (hlevel : packetType = 1 → ProtocolLevel buf 5 → version = .v5)
    (h : decodeType packetType buf version = .ok p) : p.Faithful version := by
  unfold decodeType at h
  split at h
  · rename_i htype
    obtain ⟨q, hq, rfl⟩ := map_eq_ok.mp h
    exact connect_ok hb (hlevel (UInt8.toNat_inj.mp htype)) hq
  · obtain ⟨q, hq, rfl⟩ := map_eq_ok.mp h
    exact connAck_ok hb hq
  · obtain ⟨q, hq, rfl⟩ := map_eq_ok.mp h
    exact publish_ok hb hq
  iterate 4
    · obtain ⟨q, hq, rfl⟩ := map_eq_ok.mp h
      obtain ⟨hrep, hcode, hlen⟩ := ack_ok hb hq
      exact ⟨⟨by simpa [MqttPacket.propertyLists] using hrep, hcode, by simp, hlen⟩,
        by simp [MqttPacket.Encodable, MqttPacket.prefixed]⟩
  · obtain ⟨q, hq, rfl⟩ := map_eq_ok.mp h
    exact subscribe_ok hb hq
  · obtain ⟨q, hq, rfl⟩ := map_eq_ok.mp h
    obtain ⟨hrep, hlen⟩ := codesAck_ok hb hq
    exact ⟨⟨by simpa [MqttPacket.propertyLists] using hrep, fun _ => rfl, by simp, hlen⟩,
      by simp [MqttPacket.Encodable, MqttPacket.prefixed]⟩
  · obtain ⟨q, hq, rfl⟩ := map_eq_ok.mp h
    exact unsubscribe_ok hb hq
  · obtain ⟨q, hq, rfl⟩ := map_eq_ok.mp h
    obtain ⟨hrep, hlen⟩ := codesAck_ok hb hq
    exact ⟨⟨by simpa [MqttPacket.propertyLists] using hrep, fun _ => rfl, by simp, hlen⟩,
      by simp [MqttPacket.Encodable, MqttPacket.prefixed]⟩
  · cases h
    exact ⟨⟨by simp [MqttPacket.propertyLists], fun _ => rfl, by simp, by simp [MqttPacket.content]⟩,
      by simp [MqttPacket.Encodable, MqttPacket.prefixed]⟩
  · cases h
    exact ⟨⟨by simp [MqttPacket.propertyLists], fun _ => rfl, by simp, by simp [MqttPacket.content]⟩,
      by simp [MqttPacket.Encodable, MqttPacket.prefixed]⟩
  · obtain ⟨q, hq, rfl⟩ := map_eq_ok.mp h
    exact disconnect_ok hb hq
  · cases h

/-! ## Decoding again -/

/-- What is decoded from a frame can be encoded and loses nothing. -/
theorem faithful_of_decode {p : MqttPacket} (hframe : framing.IsFrame buf)
    (hlevel : (∃ first tail, buf = first :: tail ∧ first >>> 4 = 1) → ProtocolLevel buf 5 →
      version = .v5)
    (h : decode buf version = .ok (some p)) : p.Faithful version := by
  obtain ⟨first, tail, start, hcons, -, -, hbounds⟩ := bounds_of_isFrame hframe
  have hb : readContentBounds buf = .ok (start, buf.length) := by
    simpa using hbounds []
  subst hcons
  obtain ⟨q, hq, hsome⟩ := map_eq_ok.mp h
  cases hsome
  exact decodeType_ok hb (fun htype => hlevel ⟨first, tail, rfl, htype⟩) hq

/-- A packet that was decoded from a frame is encoded into every buffer with room for its content
and five bytes more, and decoding the result gives the same packet. -/
theorem decode_reencode {p : MqttPacket} (hframe : framing.IsFrame buf)
    (hlevel : (∃ first tail, buf = first :: tail ∧ first >>> 4 = 1) → ProtocolLevel buf 5 →
      version = .v5)
    (h : decode buf version = .ok (some p)) {out : List UInt8}
    (hroom : 5 + (p.content version).length ≤ out.length) :
    ∃ n out', p.encode version out = .ok n out' ∧ decode (out'.take n) version = .ok (some p) := by
  obtain ⟨hp, he⟩ := faithful_of_decode hframe hlevel h
  have hneeded : p.room version ≤ 5 + (p.content version).length := by
    cases p <;> simp only [MqttPacket.room] <;> omega
  obtain ⟨tail, hencode, -⟩ := encode_fits he (hneeded.trans hroom) (Nat.lt_succ_of_le hp.length)
  exact ⟨_, _, hencode, decode_encode hp hencode⟩

/-- A PUBLISH of quality of service 3 behind a length field of two bytes is normalised. -/
theorem decode_reencode_publish :
    decode [0x36, 0x86, 0x00, 0, 1, 97, 0, 7, 104] .v3_1_1 =
        .ok (some (.publish { Publish.new "a" [104] .exactlyOnce with packetId := some 7 })) ∧
      ∃ n out', (MqttPacket.publish { Publish.new "a" [104] .exactlyOnce with
          packetId := some 7 }).encode .v3_1_1 (List.replicate 11 0) = .ok n out' ∧
        decode (out'.take n) .v3_1_1 =
          .ok (some (.publish { Publish.new "a" [104] .exactlyOnce with packetId := some 7 })) := by
  have h : decode [0x36, 0x86, 0x00, 0, 1, 97, 0, 7, 104] .v3_1_1 =
      .ok (some (.publish { Publish.new "a" [104] .exactlyOnce with packetId := some 7 })) := by
    decide +kernel
  refine ⟨h, decode_reencode (by decide +kernel) ?_ h (by decide +kernel)⟩
  rintro ⟨first, tail, hcons, htype⟩
  cases hcons
  exact absurd htype (by decide)

end

end MqttEngine
