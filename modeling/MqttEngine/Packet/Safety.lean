import MqttEngine.Packet.Codec

/-!
# Decoder safety

Which decoders return on every input. Twelve of the thirteen do. `Publish.decode` slices the
payload from the cursor to the end of the content, and a topic or a property block that is
longer than the content leaves the cursor behind that end: `PublishOverrun` says when, and
`returns_publish_iff` says that the decoder then panics, and only then.

## Main results

* `returns_publish_iff` — when `Publish.decode` returns.
* `returns_decodeType` — every other decoder returns.
* `returns_decode_iff` — when `decode` returns.
-/

namespace MqttEngine
open Checked

section
variable {version : MqttVersion} {buf : List UInt8} {cursor contentEnd : ℕ}

theorem readContentBounds_spec (h : readContentBounds buf = .ok (cursor, contentEnd)) :
    1 < cursor ∧ cursor ≤ contentEnd ∧ contentEnd ≤ buf.length := by
  obtain ⟨⟨len, pos⟩, hvbi, h⟩ := bind_eq_ok.mp h
  obtain ⟨_, hfit, h⟩ := bind_eq_ok.mp h
  have hmoves := (advances_vbi 1 buf).2 len pos hvbi
  rw [failIf_eq_ok] at hfit
  cases h
  exact ⟨hmoves, by omega, by omega⟩

theorem returns_readContentBounds (buf : List UInt8) : Returns (readContentBounds buf) := by
  apply Returns.bind (advances_vbi 1 buf).1
  intro x _
  apply Returns.bind (returns_failIf _ _)
  intro _ _
  exact returns_ok _

theorem returns_readWord (h : contentEnd ≤ buf.length) :
    Returns (readWord contentEnd cursor buf) := by
  apply Returns.bind (returns_failIf _ _)
  intro _ hfit
  rw [failIf_eq_ok] at hfit
  apply Returns.bind (returns_readU16 (by omega))
  intro _ _
  exact returns_ok _

theorem readWord_spec {x : UInt16} {pos : ℕ} (h : readWord contentEnd cursor buf = .ok (x, pos)) :
    pos = cursor + 2 ∧ cursor + 2 ≤ contentEnd := by
  obtain ⟨_, hfit, h⟩ := bind_eq_ok.mp h
  obtain ⟨_, _, h⟩ := bind_eq_ok.mp h
  rw [failIf_eq_ok] at hfit
  cases h
  exact ⟨rfl, by omega⟩

theorem returns_readPropertiesIf (c : Prop) [Decidable c] :
    Returns (readPropertiesIf c cursor buf) := by
  unfold readPropertiesIf
  split
  · exact returns_readProperties _ _
  · exact returns_ok _

theorem returns_readIf {β : Type} {flag : Bool}
    {read : ℕ → List UInt8 → Checked PacketError (β × ℕ)} (h : Returns (read cursor buf)) :
    Returns (readIf flag read cursor buf) := by
  unfold readIf
  split
  · apply Returns.bind h
    intro _ _
    exact returns_ok _
  · exact returns_ok _

theorem returns_readReason : Returns (readReason version contentEnd cursor buf) := by
  unfold readReason
  split
  · apply Returns.bind (returns_get _ _ _)
    intro _ _
    apply Returns.bind (returns_readPropertiesIf _)
    intro _ _
    exact returns_ok _
  · exact returns_ok _

/-! ## The decoders that return on every input -/

theorem returns_will {v5 : Bool} {qos : QoS} {retain : Bool} :
    Returns (Will.read v5 contentEnd qos retain cursor buf) := by
  apply Returns.bind (returns_readPropertiesIf _)
  intro _ _
  apply Returns.bind (advances_utf8String _ _).1
  intro _ _
  apply Returns.bind (advances_binaryData _ _).1
  intro _ _
  exact returns_ok _

theorem returns_connect (buf : List UInt8) (version : MqttVersion) :
    Returns (Connect.decode buf version) := by
  apply Returns.bind (returns_readContentBounds buf)
  rintro ⟨cursor, contentEnd⟩ hb
  obtain ⟨_, _, hle⟩ := readContentBounds_spec hb
  apply Returns.bind (advances_utf8String _ _).1
  intro _ _
  apply Returns.bind (returns_get _ _ _)
  intro _ _
  apply Returns.bind (returns_failIf _ _)
  intro _ _
  apply Returns.bind (returns_get _ _ _)
  intro _ _
  apply Returns.bind (returns_readWord hle)
  intro _ _
  apply Returns.bind (returns_readPropertiesIf _)
  intro _ _
  apply Returns.bind (advances_utf8String _ _).1
  intro _ _
  apply Returns.bind (returns_readIf returns_will)
  intro _ _
  apply Returns.bind (returns_readIf (advances_utf8String _ _).1)
  intro _ _
  apply Returns.bind (returns_readIf (advances_utf8String _ _).1)
  intro _ _
  exact returns_ok _

theorem returns_connAck (buf : List UInt8) (version : MqttVersion) :
    Returns (ConnAck.decode buf version) := by
  apply Returns.bind (returns_readContentBounds buf)
  rintro ⟨cursor, contentEnd⟩ hb
  obtain ⟨_, _, hle⟩ := readContentBounds_spec hb
  apply Returns.bind (returns_failIf _ _)
  intro _ hfit
  rw [failIf_eq_ok] at hfit
  apply Returns.bind (returns_index (by omega))
  intro _ _
  apply Returns.bind (returns_index (by omega))
  intro _ _
  apply Returns.bind (returns_readPropertiesIf _)
  intro _ _
  exact returns_ok _

theorem returns_ack (buf : List UInt8) (version : MqttVersion) :
    Returns (Ack.decode buf version) := by
  apply Returns.bind (returns_readContentBounds buf)
  rintro ⟨cursor, contentEnd⟩ hb
  obtain ⟨_, _, hle⟩ := readContentBounds_spec hb
  apply Returns.bind (returns_readWord hle)
  intro _ _
  apply Returns.bind returns_readReason
  intro _ _
  exact returns_ok _

theorem returns_readIdAndProperties (buf : List UInt8) (version : MqttVersion) :
    Returns (readIdAndProperties buf version) := by
  apply Returns.bind (returns_readContentBounds buf)
  rintro ⟨cursor, contentEnd⟩ hb
  obtain ⟨_, _, hle⟩ := readContentBounds_spec hb
  apply Returns.bind (returns_readWord hle)
  intro _ _
  apply Returns.bind (returns_readPropertiesIf _)
  intro _ _
  exact returns_ok _

/-- The loop over the items of a packet returns if every item moves the cursor. -/
theorem returns_readList {β : Type} {item : ℕ → List UInt8 → Checked PacketError (β × ℕ)}
    (h : ∀ cursor, Advances (item cursor buf) cursor) :
    Returns (readList item contentEnd cursor buf) := by
  apply Returns.bind
  · apply returns_readItems (fun cursor _ => h cursor)
    omega
  · intro _ _
    exact returns_ok _

theorem advances_topic (cursor : ℕ) (buf : List UInt8) : Advances (readTopic cursor buf) cursor := by
  obtain ⟨hreturns, hmoves⟩ := advances_utf8String cursor buf
  constructor
  · apply Returns.bind hreturns
    intro _ _
    apply Returns.bind (returns_get _ _ _)
    intro _ _
    exact returns_ok _
  · intro x c h
    obtain ⟨⟨topic, pos⟩, hread, h⟩ := bind_eq_ok.mp h
    obtain ⟨_, _, h⟩ := bind_eq_ok.mp h
    have := hmoves topic pos hread
    cases h
    exact Nat.lt_succ_of_lt this

theorem advances_code (cursor : ℕ) (buf : List UInt8) : Advances (readCode cursor buf) cursor := by
  constructor
  · apply Returns.bind (returns_get _ _ _)
    intro _ _
    exact returns_ok _
  · intro x c h
    obtain ⟨_, _, h⟩ := bind_eq_ok.mp h
    cases h
    exact Nat.lt_succ_self cursor

theorem returns_subscribe (buf : List UInt8) (version : MqttVersion) :
    Returns (Subscribe.decode buf version) := by
  apply Returns.bind (returns_readIdAndProperties buf version)
  intro _ _
  apply Returns.bind (returns_readList fun cursor => advances_topic cursor buf)
  intro _ _
  exact returns_ok _

theorem returns_codesAck (buf : List UInt8) (version : MqttVersion) :
    Returns (CodesAck.decode buf version) := by
  apply Returns.bind (returns_readIdAndProperties buf version)
  intro _ _
  apply Returns.bind (returns_readList fun cursor => advances_code cursor buf)
  intro _ _
  exact returns_ok _

theorem returns_unsubscribe (buf : List UInt8) (version : MqttVersion) :
    Returns (Unsubscribe.decode buf version) := by
  apply Returns.bind (returns_readIdAndProperties buf version)
  intro _ _
  apply Returns.bind (returns_readList fun cursor => advances_utf8String cursor buf)
  intro _ _
  exact returns_ok _

theorem returns_disconnect (buf : List UInt8) (version : MqttVersion) :
    Returns (Disconnect.decode buf version) := by
  unfold Disconnect.decode
  split
  · apply Returns.bind (returns_readContentBounds buf)
    intro _ _
    apply Returns.bind returns_readReason
    intro _ _
    exact returns_ok _
  · exact returns_ok _

/-- Every decoder but that of PUBLISH returns. -/
theorem returns_decodeType {packetType : UInt8} (h : packetType ≠ 3) (buf : List UInt8)
    (version : MqttVersion) : Returns (decodeType packetType buf version) := by
  unfold decodeType
  split
  · exact (returns_map _).mpr (returns_connect buf version)
  · exact (returns_map _).mpr (returns_connAck buf version)
  · rename_i h3
    exact absurd (UInt8.toNat_inj.mp h3) h
  all_goals first
    | exact (returns_map _).mpr (returns_ack buf version)
    | exact (returns_map _).mpr (returns_subscribe buf version)
    | exact (returns_map _).mpr (returns_codesAck buf version)
    | exact (returns_map _).mpr (returns_unsubscribe buf version)
    | exact (returns_map _).mpr (returns_disconnect buf version)
    | exact returns_ok _
    | exact returns_err _

end

/-! ## PUBLISH -/

/-- The quality of service in the first byte of a PUBLISH. -/
def publishQoS (header : UInt8) : QoS := QoS.fromByte ((header >>> 1) &&& 0x03)

/-- The fields in front of the payload of a PUBLISH are longer than the content that the
remaining length declares: at QoS 0 the topic, or in version 5 the property block. -/
def PublishOverrun (buf : List UInt8) (version : MqttVersion) : Prop :=
  ∃ header tail start stop topic topicEnd, buf = header :: tail ∧
    readContentBounds buf = .ok (start, stop) ∧ readUtf8String start buf = .ok (topic, topicEnd) ∧
    let idEnd := if publishQoS header = .atMostOnce then topicEnd else topicEnd + 2
    (publishQoS header = .atMostOnce ∧ stop < topicEnd) ∨
      (version = .v5 ∧ idEnd < stop ∧ ∃ properties propertiesEnd,
        readProperties idEnd buf = .ok (properties, propertiesEnd) ∧ stop < propertiesEnd)

theorem readWord_of_le {contentEnd cursor : ℕ} {buf : List UInt8} (h : cursor + 2 ≤ contentEnd)
    (hle : contentEnd ≤ buf.length) :
    ∃ x, readWord contentEnd cursor buf = .ok (x, cursor + 2) := by
  refine ⟨fromBeBytes buf[cursor] buf[cursor + 1], ?_⟩
  rw [readWord, failIf_of_not (by omega), ok_bind, readU16,
    index_of_lt (show cursor < buf.length by omega), ok_bind,
    index_of_lt (show cursor + 1 < buf.length by omega)]
  rfl

/-- Where the packet id of a PUBLISH ends. -/
theorem readId_spec {header : UInt8} {contentEnd cursor pos : ℕ} {buf : List UInt8}
    {id : Option UInt16}
    (h : readIf (decide (publishQoS header ≠ .atMostOnce)) (readWord contentEnd) cursor buf =
      .ok (id, pos)) :
    pos = (if publishQoS header = .atMostOnce then cursor else cursor + 2) ∧
      (publishQoS header ≠ .atMostOnce → cursor + 2 ≤ contentEnd) := by
  by_cases hqos : publishQoS header = .atMostOnce
  · simp only [readIf, hqos, ne_eq, not_true, decide_false, Bool.false_eq_true, if_false,
      Except.ok.injEq, Prod.mk.injEq] at h
    exact ⟨by rw [if_pos hqos, h.2], fun hne => absurd hqos hne⟩
  · simp only [readIf, hqos, ne_eq, not_false_iff, decide_true, if_true] at h
    obtain ⟨⟨x, c⟩, hread, h⟩ := bind_eq_ok.mp h
    obtain ⟨rfl, hle⟩ := readWord_spec hread
    cases h
    exact ⟨by rw [if_neg hqos], fun _ => hle⟩

/-- On an overrun the payload slice starts behind its end. -/
theorem publish_of_overrun {buf : List UInt8} {version : MqttVersion}
    (h : PublishOverrun buf version) : Publish.decode buf version = .error .panic := by
  obtain ⟨header, tail, start, stop, topic, topicEnd, rfl, hb, htopic, h⟩ := h
  obtain ⟨_, _, hle⟩ := readContentBounds_spec hb
  have hindex : (index (header :: tail) 0 : Checked PacketError UInt8) = .ok header := rfl
  have hrange {a : ℕ} (ha : stop < a) :
      (range (header :: tail) a stop : Checked PacketError (List UInt8)) = .error .panic := by
    rw [range, if_neg (by omega)]
  rw [Publish.decode, failIf_of_not (by simp)]
  simp only [ok_bind, hindex, hb, htopic]
  change readIf (decide (publishQoS header ≠ .atMostOnce)) _ _ _ >>= _ = _
  rcases h with ⟨hqos, hstop⟩ | ⟨hv, hstop, properties, propertiesEnd, hprops, hend⟩
  · have hflag : decide (publishQoS header ≠ .atMostOnce) = false := by simp [hqos]
    have hskip : ¬ (version = .v5 ∧ topicEnd < stop) := by omega
    simp only [readIf, hflag, Bool.false_eq_true, if_false, ok_bind, readPropertiesIf, if_neg hskip,
      hrange hstop, error_bind]
  · have hid : ∃ id, readIf (decide (publishQoS header ≠ .atMostOnce)) (readWord stop) topicEnd
        (header :: tail) =
          .ok (id, if publishQoS header = .atMostOnce then topicEnd else topicEnd + 2) := by
      by_cases hqos : publishQoS header = .atMostOnce
      · exact ⟨none, by simp [readIf, hqos]⟩
      · rw [if_neg hqos] at hstop
        obtain ⟨x, hx⟩ := readWord_of_le (show topicEnd + 2 ≤ stop by omega) hle
        exact ⟨some x, by simp [readIf, hqos, hx]⟩
    obtain ⟨id, hid⟩ := hid
    rw [hid]
    simp only [ok_bind, readPropertiesIf, if_pos (And.intro hv hstop), hprops, hrange hend,
      error_bind]

/-- `Publish.decode` panics exactly when the fields in front of the payload overrun the
content. -/
theorem returns_publish_iff (buf : List UInt8) (version : MqttVersion) :
    Returns (Publish.decode buf version) ↔ ¬ PublishOverrun buf version := by
  constructor
  · intro h hover
    rw [publish_of_overrun hover] at h
    exact not_returns_panic h
  · intro hover
    rcases buf with _ | ⟨header, tail⟩
    · exact returns_err _
    rw [Publish.decode, failIf_of_not (by simp), ok_bind,
      show (index (header :: tail) 0 : Checked PacketError UInt8) = .ok header from rfl, ok_bind]
    apply Returns.bind (returns_readContentBounds _)
    rintro ⟨start, stop⟩ hb
    obtain ⟨_, hstart, hle⟩ := readContentBounds_spec hb
    apply Returns.bind (advances_utf8String _ _).1
    rintro ⟨topic, topicEnd⟩ htopic
    apply Returns.bind (returns_readIf (returns_readWord hle))
    rintro ⟨id, idEnd⟩ hid
    apply Returns.bind (returns_readPropertiesIf _)
    rintro ⟨properties, propertiesEnd⟩ hprops
    -- The slice is in order, because otherwise a field would overrun the content.
    have horder : propertiesEnd ≤ stop := by
      by_contra hlt
      have hidEnd := readId_spec hid
      refine hover ⟨header, tail, start, stop, topic, topicEnd, rfl, hb, htopic, ?_⟩
      by_cases hpresent : version = .v5 ∧ idEnd < stop
      · right
        rw [readPropertiesIf, if_pos hpresent] at hprops
        rw [← hidEnd.1]
        exact ⟨hpresent.1, hpresent.2, properties, propertiesEnd, hprops, by omega⟩
      · left
        rw [readPropertiesIf, if_neg hpresent] at hprops
        cases hprops
        by_cases hqos : publishQoS header = .atMostOnce
        · rw [if_pos hqos] at hidEnd
          exact ⟨hqos, by omega⟩
        · have := hidEnd.2 hqos
          rw [if_neg hqos] at hidEnd
          omega
    apply Returns.bind (returns_range_iff.mpr ⟨horder, hle⟩)
    intro _ _
    exact returns_ok _

/-- `decode` returns on everything but an overrun PUBLISH. -/
theorem returns_decode_iff (buf : List UInt8) (version : MqttVersion) :
    Returns (decode buf version) ↔
      ¬ ((∃ header tail, buf = header :: tail ∧ header >>> 4 = 3) ∧ PublishOverrun buf version) := by
  rcases buf with _ | ⟨header, tail⟩
  · simp [decode]
  · rw [decode, returns_map]
    by_cases h : header >>> 4 = 3
    · rw [h, show decodeType 3 = fun buf version => (Publish.decode buf version).map .publish from rfl]
      dsimp only
      rw [returns_map, returns_publish_iff]
      simp [h]
    · simp [h, returns_decodeType h]

end MqttEngine
