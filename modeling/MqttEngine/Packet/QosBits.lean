import MqttEngine.Packet.Reencoding

/-!
# The quality of service on the wire

Where a frame carries a quality of service, and what `decode` makes of it. Three decoders hand
a byte to the total conversion `QoS::from`. Those of PUBLISH and CONNECT mask two bits out of
their byte first; that of SUBSCRIBE hands over the whole options byte, so that with an option
bit of version 5 set every quality of service is read as `ExactlyOnce`. None of the three
rejects the bits `11`, for which `PacketError` has `UnsupportedQoS`.

The layout is stated on the bytes alone: how a topic or a property block is skipped does not
depend on what the decoders return.

## Main definitions

* `subscribeOptions` — the options bytes of a SUBSCRIBE.
* `KeepsQos` — decoding a frame does not change its qualities of service.

## Main results

* `keepsQos_iff` — which frames keep their qualities of service.
-/

namespace MqttEngine
open Checked

/-! ## Where the bits stand -/

/-- What stands behind the length field of a frame. -/
def frameContent (f : List UInt8) : List UInt8 :=
  match readContentBounds f with
  | .ok (start, stop) => (f.take stop).drop start
  | .error _ => []

/-- The two low bits of a byte. -/
def lowBits (b : UInt8) : UInt8 := b &&& 0x03

/-- The flags of a CONNECT, behind the protocol name and the protocol level. -/
def connectFlags (f : List UInt8) : Option UInt8 :=
  (frameContent f)[2 + prefixAt (frameContent f) 0 + 1]?

/-- The bytes behind a property block. -/
def skipProperties (bytes : List UInt8) : List UInt8 :=
  match Base128.read 4 bytes with
  | .value propLen len => bytes.drop (len + propLen)
  | _ => bytes

/-- The options bytes in a list of topics: one behind each topic, which stands behind its two
length bytes. -/
def optionBytes : List UInt8 → List UInt8
  | hi :: lo :: rest =>
    let behind := rest.drop (fromBeBytes hi lo).toNat
    behind.take 1 ++ optionBytes (behind.drop 1)
  | _ => []
termination_by bytes => bytes.length
decreasing_by simp only [List.length_drop, List.length_cons]; omega

/-- The topics of a SUBSCRIBE, behind the packet id and, in version 5, the property block. -/
def topicList (f : List UInt8) (version : MqttVersion) : List UInt8 :=
  if version = .v5 then skipProperties ((frameContent f).drop 2) else (frameContent f).drop 2

/-- The options bytes of a SUBSCRIBE; other frames have none. -/
def subscribeOptions (f : List UInt8) (version : MqttVersion) : List UInt8 :=
  match f with
  | [] => []
  | header :: _ => if header >>> 4 = 8 then optionBytes (topicList f version) else []

/-- The two bits of every quality of service that a frame carries. -/
def qosBits (f : List UInt8) (version : MqttVersion) : List UInt8 :=
  match f with
  | [] => []
  | header :: _ =>
    match (header >>> 4).toNat with
    | 1 => (connectFlags f).toList.map fun flags : UInt8 => lowBits (flags >>> 3)
    | 3 => [lowBits (header >>> 1)]
    | 8 => (subscribeOptions f version).map lowBits
    | _ => []

/-- The qualities of service of a packet are those of the frame. -/
def MqttPacket.HasQosOf (f : List UInt8) (version : MqttVersion) : MqttPacket → Prop
  | .connect p => ∀ will ∈ p.will, qosBits f version = [will.qos.toByte]
  | .publish p => qosBits f version = [p.qos.toByte]
  | .subscribe p => qosBits f version = p.topics.toList.map fun topic => topic.2.toByte
  | _ => True

/-- Decoding a frame does not change a quality of service, and rejects the bits `11`. -/
def KeepsQos (f : List UInt8) (version : MqttVersion) : Prop :=
  (∀ p, decode f version = .ok (some p) → p.HasQosOf f version) ∧
    (3 ∈ qosBits f version → ∃ e, decode f version = .error (.err e))

/-- No quality of service has the bits `11`, and the options bytes of a SUBSCRIBE have no other
bit set unless they ask for `ExactlyOnce`. -/
def QosReadable (f : List UInt8) (version : MqttVersion) : Prop :=
  3 ∉ qosBits f version ∧
    ∀ options ∈ subscribeOptions f version, options < 4 ∨ lowBits options = 2

/-! ## The conversion -/

theorem toByte_fromByte_iff (b : UInt8) :
    (QoS.fromByte b).toByte = lowBits b ↔ lowBits b ≠ 3 ∧ (b < 4 ∨ lowBits b = 2) := by
  by_cases hsmall : b < 4
  · have hcases : b = 0 ∨ b = 1 ∨ b = 2 ∨ b = 3 := by
      simp only [UInt8.lt_iff_toNat_lt, ← UInt8.toNat_inj, UInt8.toNat_ofNat] at hsmall ⊢
      omega
    rcases hcases with rfl | rfl | rfl | rfl <;> decide
  · have h0 : b ≠ 0 := fun h => hsmall (by rw [h]; decide)
    have h1 : b ≠ 1 := fun h => hsmall (by rw [h]; decide)
    rw [QoS.fromByte, if_neg h0, if_neg h1, QoS.toByte]
    constructor
    · intro h
      rw [← h]
      exact ⟨by decide, .inr rfl⟩
    · intro h
      exact (h.2.resolve_left hsmall).symm

/-- Bits that were masked change only if both are set. -/
theorem toByte_fromByte_lowBits (b : UInt8) :
    (QoS.fromByte (lowBits b)).toByte = lowBits b ↔ lowBits b ≠ 3 := by
  have hlow : lowBits (lowBits b) = lowBits b := by
    rw [lowBits, lowBits, UInt8.and_assoc, UInt8.and_self]
  have hlt : lowBits b < 4 := by
    rw [UInt8.lt_iff_toNat_lt, lowBits, UInt8.toNat_and]
    exact Nat.lt_succ_of_le Nat.and_le_right
  have h := toByte_fromByte_iff (lowBits b)
  rw [hlow] at h
  simp [h, hlt]

/-! ## What the decoders read -/

section
variable {version : MqttVersion} {f : List UInt8} {start cursor c : ℕ}

theorem frameContent_of_bounds (hb : readContentBounds f = .ok (start, f.length)) :
    frameContent f = f.drop start := by
  simp [frameContent, hb]

/-- A string that has been read: its length bytes, its bytes, and what follows. -/
theorem utf8String_drop {s : String} (h : readUtf8String cursor f = .ok (s, c)) :
    ∃ hi lo, f.drop cursor = hi :: lo :: (strBytes s ++ f.drop c) ∧
      (fromBeBytes hi lo).toNat = (strBytes s).length := by
  obtain ⟨⟨bytes, c'⟩, hread, h⟩ := bind_eq_ok.mp h
  dsimp only at h
  split at h
  · rename_i s' hs
    cases h
    rw [strBytes_of_fromUtf8 hs]
    rw [readLengthPrefixed_eq] at hread
    split at hread
    · cases hread
    · rename_i hfit
      have h1 : cursor < f.length := by omega
      have h2 : cursor + 1 < f.length := by omega
      have hprefix : prefixAt f cursor = (fromBeBytes f[cursor] f[cursor + 1]).toNat := by
        rw [prefixAt, List.getD_eq_getElem _ _ h1, List.getD_eq_getElem _ _ h2]
      have hrest : f.drop (cursor + 2) = (f.drop (cursor + 2)).take (prefixAt f cursor) ++
          f.drop (cursor + 2 + prefixAt f cursor) := by
        rw [← List.drop_drop (i := prefixAt f cursor), List.take_append_drop]
      cases hread
      refine ⟨f[cursor], f[cursor + 1], ?_, ?_⟩
      · rw [List.drop_eq_getElem_cons h1, List.drop_eq_getElem_cons h2, ← hrest]
      · rw [← hprefix, List.length_take, List.length_drop]
        omega
  · cases h

/-- A property block that has been read is what `skipProperties` skips. -/
theorem skipProperties_of_read {ps : Properties} (h : readProperties cursor f = .ok (ps, c)) :
    skipProperties (f.drop cursor) = f.drop c := by
  obtain ⟨propLen, start, hvbi, rfl, -⟩ := readProperties_ok h
  rw [readVariableByteInteger_eq] at hvbi
  rw [skipProperties]
  split at hvbi
  · rename_i n len hread
    cases hvbi
    rw [hread]
    simp [Nat.add_assoc]
  · cases hvbi
  · cases hvbi

theorem optionBytes_topic {hi lo options : UInt8} {name rest : List UInt8}
    (h : (fromBeBytes hi lo).toNat = name.length) :
    optionBytes (hi :: lo :: (name ++ options :: rest)) = options :: optionBytes rest := by
  rw [optionBytes]
  simp [h]

theorem connect_qos {p : Connect} (hb : readContentBounds f = .ok (start, f.length))
    (h : Connect.decode f version = .ok p) :
    ∃ flags, connectFlags f = some flags ∧
      ∀ will ∈ p.will, will.qos = QoS.fromByte (lowBits (flags >>> 3)) := by
  obtain ⟨⟨start', stop⟩, hb', h⟩ := bind_eq_ok.mp h
  rw [hb] at hb'
  cases hb'
  obtain ⟨⟨name, c₁⟩, hname, h⟩ := bind_eq_ok.mp h
  obtain ⟨level, _, h⟩ := bind_eq_ok.mp h
  obtain ⟨_, _, h⟩ := bind_eq_ok.mp h
  obtain ⟨flags, hflags, h⟩ := bind_eq_ok.mp h
  obtain ⟨_, _, h⟩ := bind_eq_ok.mp h
  obtain ⟨_, _, h⟩ := bind_eq_ok.mp h
  obtain ⟨_, _, h⟩ := bind_eq_ok.mp h
  obtain ⟨⟨will, _⟩, hwill, h⟩ := bind_eq_ok.mp h
  obtain ⟨_, _, h⟩ := bind_eq_ok.mp h
  obtain ⟨_, _, h⟩ := bind_eq_ok.mp h
  cases h
  refine ⟨flags, ?_, ?_⟩
  · obtain ⟨hi, lo, hdrop, hlen⟩ := utf8String_drop hname
    have hprefix : prefixAt (hi :: lo :: (strBytes name ++ f.drop c₁)) 0 =
        (strBytes name).length := hlen
    rw [connectFlags, frameContent_of_bounds hb, hdrop, hprefix, ← get_eq_ok.mp hflags]
    simp [Nat.add_comm 2, List.getElem?_append_right]
  · intro w hw
    obtain ⟨x, rfl, -, hread⟩ | ⟨rfl, -, -⟩ := readIf_ok hwill
    · obtain ⟨_, _, hread⟩ := bind_eq_ok.mp hread
      obtain ⟨_, _, hread⟩ := bind_eq_ok.mp hread
      obtain ⟨_, _, hread⟩ := bind_eq_ok.mp hread
      cases hread
      cases hw
      rfl
    · cases hw

theorem publish_qos {header : UInt8} {tail : List UInt8} {p : Publish}
    (h : Publish.decode (header :: tail) version = .ok p) :
    p.qos = QoS.fromByte (lowBits (header >>> 1)) := by
  obtain ⟨_, _, h⟩ := bind_eq_ok.mp h
  obtain ⟨first, hfirst, h⟩ := bind_eq_ok.mp h
  obtain ⟨_, _, h⟩ := bind_eq_ok.mp h
  obtain ⟨_, _, h⟩ := bind_eq_ok.mp h
  obtain ⟨_, _, h⟩ := bind_eq_ok.mp h
  obtain ⟨_, _, h⟩ := bind_eq_ok.mp h
  obtain ⟨_, _, h⟩ := bind_eq_ok.mp h
  cases hfirst
  cases h
  rfl

/-- A topic that has been read: its length bytes, its bytes and its options byte. -/
theorem consumes_topic : Consumes
    (fun part topic => ∃ hi lo options, part = hi :: lo :: (strBytes topic.1 ++ [options]) ∧
      (fromBeBytes hi lo).toNat = (strBytes topic.1).length ∧ topic.2 = QoS.fromByte options)
    f f.length cursor (readTopic cursor f) := by
  intro topic c h
  obtain ⟨⟨name, c'⟩, hname, h⟩ := bind_eq_ok.mp h
  obtain ⟨options, hoptions, h⟩ := bind_eq_ok.mp h
  cases h
  obtain ⟨hi, lo, hdrop, hlen⟩ := utf8String_drop hname
  obtain ⟨-, hc, -⟩ := utf8String_ok hname
  obtain ⟨hlt, rfl⟩ := List.getElem?_eq_some_iff.mp (get_eq_ok.mp hoptions)
  refine ⟨_, ?_, ?_, hlt, hi, lo, f[c'], rfl, hlen, rfl⟩
  · rw [hdrop, List.drop_eq_getElem_cons hlt]
    simp
  · simp only [length_lengthPrefixed] at hc
    simp only [List.length_cons, List.length_append, List.length_nil]
    omega

theorem subscribe_qos {p : Subscribe} (hb : readContentBounds f = .ok (start, f.length))
    (h : Subscribe.decode f version = .ok p) :
    p.topics.toList.map Prod.snd = (optionBytes (topicList f version)).map QoS.fromByte := by
  obtain ⟨⟨packetId, properties, pos, stop⟩, hread, h⟩ := bind_eq_ok.mp h
  obtain ⟨topics, hlist, h⟩ := bind_eq_ok.mp h
  cases h
  obtain ⟨⟨start', stop'⟩, hb', hread⟩ := bind_eq_ok.mp hread
  rw [hb] at hb'
  cases hb'
  obtain ⟨⟨id, c⟩, hword, hread⟩ := bind_eq_ok.mp hread
  obtain ⟨⟨ps, c'⟩, hprops, hread⟩ := bind_eq_ok.mp hread
  cases hread
  obtain ⟨rfl, hid⟩ := readWord_spec hword
  have hpos := (propertiesIf_ok hprops hid).1
  obtain ⟨⟨all, stop⟩, hloop, hlist⟩ := bind_eq_ok.mp hlist
  cases hlist
  obtain ⟨parts, xs, hall, hparts, -, hdrop, -⟩ :=
    readItems_consumes (fun _ _ => consumes_topic) hpos hloop
  have hskip : topicList f version = parts.flatten := by
    rw [List.drop_length, List.append_nil] at hdrop
    rw [topicList, frameContent_of_bounds hb, List.drop_drop, ← hdrop]
    rw [readPropertiesIf] at hprops
    split at hprops
    · rename_i hv
      rw [if_pos hv.1, skipProperties_of_read hprops]
    · rename_i hv
      cases hprops
      split
      · rename_i hv5
        -- Nothing is left behind the packet id.
        have hend : f.drop (start + 2) = [] := by
          rw [List.drop_eq_nil_iff]
          rw [not_and] at hv
          exact Nat.le_of_not_lt (hv hv5)
        rw [hend]
        rfl
      · rfl
  rw [hskip, hall, BoundedVec.toList_empty, List.nil_append]
  clear hall hdrop hskip
  induction hparts with
  | nil => simp [optionBytes]
  | cons hx _ ih =>
    obtain ⟨hi, lo, options, rfl, hlen, hqos⟩ := hx
    rw [List.flatten_cons, List.map_cons, ih, hqos]
    simp [optionBytes_topic hlen]

/-! ## Which frames keep their qualities of service -/

/-- A frame that is accepted: its qualities of service are kept if no options byte of a SUBSCRIBE
is misread. -/
theorem hasQosOf_iff {p : MqttPacket} (hframe : framing.IsFrame f)
    (h : decode f version = .ok (some p)) (hbits : 3 ∉ qosBits f version) :
    p.HasQosOf f version ↔
      ∀ options ∈ subscribeOptions f version, options < 4 ∨ lowBits options = 2 := by
  obtain ⟨header, tail, start, hcons, -, -, hbounds⟩ := bounds_of_isFrame hframe
  have hb : readContentBounds f = .ok (start, f.length) := by
    simpa using hbounds []
  subst hcons
  obtain ⟨q, hq, hsome⟩ := map_eq_ok.mp h
  cases hsome
  unfold decodeType at hq
  have hother (htype : (header >>> 4).toNat ≠ 8) :
      subscribeOptions (header :: tail) version = [] := by
    rw [subscribeOptions, if_neg]
    intro h8
    exact htype (by rw [h8]; rfl)
  split at hq
  case h_1 htype =>
    obtain ⟨c, hc, rfl⟩ := map_eq_ok.mp hq
    obtain ⟨flags, hflags, hqos⟩ := connect_qos hb hc
    have hone : qosBits (header :: tail) version = [lowBits (flags >>> 3)] := by
      simp [qosBits, htype, hflags]
    rw [hone, List.mem_singleton] at hbits
    rw [hother (by simp [htype])]
    refine ⟨fun _ => by simp, fun _ will hwill => ?_⟩
    rw [hone, hqos will hwill, (toByte_fromByte_lowBits _).mpr (Ne.symm hbits)]
  case h_3 htype =>
    obtain ⟨c, hc, rfl⟩ := map_eq_ok.mp hq
    have hone : qosBits (header :: tail) version = [lowBits (header >>> 1)] := by
      simp [qosBits, htype]
    rw [hone, List.mem_singleton] at hbits
    rw [hother (by simp [htype]), MqttPacket.HasQosOf, hone, publish_qos hc,
      (toByte_fromByte_lowBits _).mpr (Ne.symm hbits)]
    simp
  case h_8 htype =>
    obtain ⟨c, hc, rfl⟩ := map_eq_ok.mp hq
    have hsub : header >>> 4 = 8 := UInt8.toNat_inj.mp htype
    have htopics : subscribeOptions (header :: tail) version =
        optionBytes (topicList (header :: tail) version) := if_pos hsub
    have hmany : qosBits (header :: tail) version =
        (subscribeOptions (header :: tail) version).map lowBits := by
      simp [qosBits, htype]
    have hqos : (c.topics.toList.map fun topic => topic.2.toByte) =
        (subscribeOptions (header :: tail) version).map fun options =>
          (QoS.fromByte options).toByte := by
      have hread := congrArg (List.map QoS.toByte) (subscribe_qos hb hc)
      rw [List.map_map, List.map_map] at hread
      rw [htopics]
      exact hread
    rw [hmany] at hbits
    rw [MqttPacket.HasQosOf, hmany, hqos, List.map_inj_left]
    -- Position by position: the bits are not 11, so an options byte is read or misread.
    refine forall₂_congr fun options hmem => ?_
    have h3 : lowBits options ≠ 3 := fun h => hbits (h ▸ List.mem_map_of_mem hmem)
    rw [eq_comm, toByte_fromByte_iff, and_iff_right h3]
  case h_15 => cases hq
  -- No other packet has a quality of service.
  all_goals
    rename_i htype
    first
      | obtain ⟨c, -, rfl⟩ := map_eq_ok.mp hq
      | cases hq
    simp [MqttPacket.HasQosOf, hother, htype]

/-- A frame that `decode` does not reject keeps its qualities of service exactly if none of them
has the bits `11` and no options byte is misread. -/
theorem keepsQos_iff (hframe : framing.IsFrame f)
    (h : ∀ e, decode f version ≠ .error (.err e)) :
    KeepsQos f version ↔ QosReadable f version := by
  have hbits : (3 ∈ qosBits f version → ∃ e, decode f version = .error (.err e)) ↔
      3 ∉ qosBits f version := by
    simp [h]
  rw [KeepsQos, QosReadable, hbits, and_comm]
  by_cases haccept : ∃ p, decode f version = .ok (some p)
  · obtain ⟨p, hp⟩ := haccept
    refine and_congr_right fun h3 => ?_
    rw [← hasQosOf_iff hframe hp h3]
    constructor
    · intro hall
      exact hall p hp
    · intro hkept q hq
      rw [hp] at hq
      cases hq
      exact hkept
  · -- Only a PUBLISH panics, and it has no options bytes.
    have hreturns : ¬ Returns (decode f version) := by
      rw [returns_iff]
      rintro (⟨_ | p, hok⟩ | ⟨e, herr⟩)
      · obtain ⟨header, tail, -, rfl, -⟩ := bounds_of_isFrame hframe
        obtain ⟨_, _, hsome⟩ := map_eq_ok.mp hok
        cases hsome
      · exact haccept ⟨p, hok⟩
      · exact h e herr
    rw [returns_decode_iff, not_not] at hreturns
    obtain ⟨⟨header, tail, rfl, htype⟩, -⟩ := hreturns
    have hnone : subscribeOptions (header :: tail) version = [] := by
      simp [subscribeOptions, htype]
    simp [hnone, not_exists.mp haccept]

/-- Two topics at QoS 1 and, with No Local set, at QoS 2. -/
theorem keepsQos_two : KeepsQos [0x82, 11, 0, 7, 0, 0, 1, 97, 0x01, 0, 1, 98, 0x06] .v5 := by
  have haccept : decode [0x82, 11, 0, 7, 0, 0, 1, 97, 0x01, 0, 1, 98, 0x06] .v5 =
      .ok (some (.subscribe
        { packetId := 7
          topics := ⟨[("a", .atLeastOnce), ("b", .exactlyOnce)], by decide⟩
          properties := .empty })) := by
    decide +kernel
  refine (keepsQos_iff (by decide +kernel) ?_).mpr ⟨by decide +kernel, by decide +kernel⟩
  rw [haccept]
  nofun

/-- A subscription at QoS 0 with No Local set is read as one at QoS 2, and a PUBLISH with the bits
`11` is accepted. -/
theorem noLocal_misread :
    framing.IsFrame [0x82, 7, 0, 7, 0, 0, 1, 97, 0x04] ∧
      decode [0x82, 7, 0, 7, 0, 0, 1, 97, 0x04] .v5 = .ok (some (.subscribe
        { packetId := 7, topics := ⟨[("a", .exactlyOnce)], by decide⟩, properties := .empty })) ∧
      ¬ KeepsQos [0x82, 7, 0, 7, 0, 0, 1, 97, 0x04] .v5 ∧
      framing.IsFrame [0x36, 5, 0, 1, 97, 0, 7] ∧ ¬ KeepsQos [0x36, 5, 0, 1, 97, 0, 7] .v3_1_1 := by
  have hsub : decode [0x82, 7, 0, 7, 0, 0, 1, 97, 0x04] .v5 = .ok (some (.subscribe
      { packetId := 7, topics := ⟨[("a", .exactlyOnce)], by decide⟩, properties := .empty })) := by
    decide +kernel
  have hpub : decode [0x36, 5, 0, 1, 97, 0, 7] .v3_1_1 =
      .ok (some (.publish { Publish.new "a" [] .exactlyOnce with packetId := some 7 })) := by
    decide +kernel
  refine ⟨by decide +kernel, hsub, ?_, by decide +kernel, ?_⟩
  · intro h
    have hkept : qosBits [0x82, 7, 0, 7, 0, 0, 1, 97, 0x04] .v5 = [2] := h.1 _ hsub
    exact absurd hkept (by decide +kernel)
  · intro h
    obtain ⟨e, he⟩ := h.2 (by decide +kernel)
    rw [hpub] at he
    cases he

end

end MqttEngine
