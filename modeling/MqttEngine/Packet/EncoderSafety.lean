import MqttEngine.Packet.Wire

/-!
# Encoder safety

When `encode` returns. The encoders check the buffer at every write but the last: the content is
moved with `copy_within`, which panics when the buffer is too small for the move. This happens to
a DISCONNECT without content, whose encoder has written nothing behind the reserved bytes when it
comes to the move, and to contents whose remaining length takes more than the four bytes that are
reserved for it.

## Main definitions

* `EncodeReturns` — the encoder has returned a count within the buffer, or an error.
* `MqttPacket.LengthChecked` — the encoder checks the remaining length.

## Main results

* `encodeFramed_room` — what becomes of a content that has been written.
* `returns_encode_iff` — when an encoder returns.
* `lengthChecked_iff` — when an encoder checks the remaining length.
-/

namespace MqttEngine
open Checked SliceWriter

/-- The encoder has returned the number of bytes, which lie within a buffer of this size, or an
error. -/
def EncodeReturns (size : ℕ) (r : EStateM.Result (Fault PacketError) (List UInt8) ℕ) : Prop :=
  (∃ n buf, r = .ok n buf ∧ n ≤ size) ∨ ∃ e buf, r = .error (.err e) buf

/-- The header of a packet whose content has this length. -/
def headerLen (length : ℕ) : ℕ := 1 + (Base128.encode length).length

theorem headerLen_le {length : ℕ} (h : length < 128 ^ 4) : headerLen length ≤ 5 := by
  have := Base128.length_encode_le (show 0 < 4 by decide) h
  rw [headerLen]
  omega

section
variable {first : UInt8} {content : SliceWriter PacketError UInt8 Unit} {P : Prop}
  {bs buf : List UInt8}

variable (first) in
/-- A content that has been written is moved behind its header if the buffer has room for both;
otherwise the move panics. -/
theorem encodeFramed_room (h : Emits .bufferTooSmall P content bs) (hP : P)
    (hroom : 5 + bs.length ≤ buf.length) :
    (headerLen bs.length + bs.length ≤ buf.length ∧
      ∃ buf', encodeFramed first content buf = .ok (headerLen bs.length + bs.length) buf') ∨
    (buf.length < headerLen bs.length + bs.length ∧
      ∃ buf', encodeFramed first content buf = .error .panic buf') := by
  obtain ⟨mid, -, hlength, -, hmove⟩ := encodeFramed_move first h hP hroom
  rw [hmove, copyWithin, hlength, headerLen]
  by_cases hfits : 1 + (Base128.encode bs.length).length + bs.length ≤ buf.length
  · left
    refine ⟨hfits, ?_⟩
    rw [if_pos ⟨by omega, by omega, by omega⟩]
    exact ⟨_, rfl⟩
  · right
    refine ⟨by omega, ?_⟩
    rw [if_neg (by omega)]
    exact ⟨_, rfl⟩

/-- Without content there is nothing that notices a buffer without room for the reserved bytes. -/
theorem encodeFramed_empty (hcontent : ∀ s, content s = .ok () s) (hsmall : buf.length < 5) :
    (buf.length < 2 ∧ ∃ buf', encodeFramed first content buf = .error (.err .bufferTooSmall) buf') ∨
    (2 ≤ buf.length ∧ ∃ buf', encodeFramed first content buf = .error .panic buf') := by
  rcases buf with _ | ⟨b, _ | ⟨c, tail⟩⟩
  · exact .inl ⟨by decide, _, rfl⟩
  · left
    refine ⟨by simp, ?_⟩
    rw [encodeFramed_cons, hcontent]
    exact ⟨_, rfl⟩
  · right
    refine ⟨by simp, ?_⟩
    have hfield : onTail PacketError.bufferTooSmall (writeVariableByteIntegerLen 0)
        ⟨first :: c :: tail, 1⟩ = .ok () ⟨first :: 0 :: tail, 2⟩ := rfl
    simp only [List.length_cons] at hsmall
    rw [encodeFramed_cons, hcontent]
    simp only [Nat.sub_self, hfield, copyWithin, List.length_cons]
    rw [if_neg (by omega)]
    exact ⟨_, rfl⟩

end

/-! ## The encoders -/

section
variable {p : MqttPacket} {version : MqttVersion} {buf : List UInt8}

/-- Only a DISCONNECT may be without content, apart from the two packets that have an encoder of
their own. -/
theorem overruns_of_content (hbare : ¬ p.Bare) (hcontent : p.content version ≠ []) :
    Overruns PacketError.bufferTooSmall (p.write version) := by
  by_cases hdisc : ∃ d, p = .disconnect d
  · obtain ⟨d, rfl⟩ := hdisc
    simp only [MqttPacket.content, reasonBytes, ne_eq, ite_eq_right_iff, reduceCtorEq, imp_false,
      not_not] at hcontent
    simp only [MqttPacket.write, writeReason, SliceWriter.when, if_pos hcontent]
    exact (Overruns.putByte _).bind _
  · exact overruns_write hbare (fun d hd => hdisc ⟨d, hd⟩) version

theorem write_of_no_content (hbare : ¬ p.Bare) (hcontent : p.content version = [])
    (s : Out UInt8) : p.write version s = .ok () s := by
  cases p with
  | disconnect d =>
    simp only [MqttPacket.content, reasonBytes, ite_eq_right_iff, reduceCtorEq, imp_false]
      at hcontent
    simp only [MqttPacket.write, writeReason, SliceWriter.when, if_neg hcontent]
    rfl
  | pingReq | pingResp => simp [MqttPacket.Bare] at hbare
  | _ => simp [MqttPacket.content, lengthPrefixed, toBeBytes, idAndPropertiesBytes] at hcontent

/-- A packet for which there is no room, or that is not encodable, is refused, unless it has no
content. -/
theorem encode_refuses (hcontent : p.content version ≠ [])
    (h : ¬ (p.Encodable ∧ 5 + (p.content version).length ≤ buf.length)) :
    ∃ e buf', p.encode version buf = .error (.err e) buf' := by
  have hbare : ¬ p.Bare := fun hbare => hcontent (encode_of_bare hbare version).2.2.2
  have hover := overruns_of_content hbare hcontent
  rw [(encode_of_not_bare hbare version).1]
  rcases hencode : encodeFramed p.first (p.write version) buf with ⟨n, buf'⟩ | ⟨e, buf'⟩
  · exact absurd (encodeFramed_ok (emits_write p version) (fun s hs => .inl ⟨s, hover s hs⟩)
      hencode) h
  · obtain ⟨e', rfl⟩ := encodeFramed_error (emits_write p version)
      (fun hp hroom => absurd ⟨hp, hroom⟩ h) hover hencode
    exact ⟨e', buf', rfl⟩

/-- An encoder returns exactly if it is not that of a DISCONNECT without content on two to four
bytes, and not that of a content which is written up to the end of the buffer and then has no room
behind a header of more than five bytes. -/
theorem returns_encode_iff (p : MqttPacket) (version : MqttVersion) (buf : List UInt8) :
    EncodeReturns buf.length (p.encode version buf) ↔
      ¬ ((∃ d, p = .disconnect d) ∧ p.content version = [] ∧ 2 ≤ buf.length ∧ buf.length < 5) ∧
      ¬ (p.Encodable ∧ 5 + (p.content version).length ≤ buf.length ∧
        buf.length < headerLen (p.content version).length + (p.content version).length) := by
  have hpanic {s : List UInt8} : ¬ EncodeReturns buf.length (.error .panic s) := by
    rintro (⟨_, _, h, _⟩ | ⟨_, _, h⟩) <;> cases h
  by_cases hbare : p.Bare
  · obtain ⟨hencode, -, -, hcontent⟩ := encode_of_bare hbare version
    have hdisc : ¬ ∃ d, p = .disconnect d := by
      rintro ⟨d, rfl⟩
      simp [MqttPacket.Bare] at hbare
    rw [hencode, hcontent, List.length_nil, headerLen, Base128.encode_of_lt (by decide)]
    refine iff_of_true ?_ ⟨fun h => hdisc h.1, fun h => ?_⟩
    · rw [encodeBare]
      split
      · exact .inr ⟨_, _, rfl⟩
      · exact .inl ⟨_, _, rfl, by omega⟩
    · simp only [List.length_singleton] at h
      omega
  have hencode := (encode_of_not_bare hbare version).1
  by_cases hfits : p.Encodable ∧ 5 + (p.content version).length ≤ buf.length
  · -- The content is written; what counts is the room for the move.
    have hleft : ¬ ((∃ d, p = .disconnect d) ∧ p.content version = [] ∧ 2 ≤ buf.length ∧
        buf.length < 5) := by omega
    rw [hencode]
    rcases encodeFramed_room p.first (emits_write p version) hfits.1 hfits.2 with
      ⟨hroom, buf', hok⟩ | ⟨hroom, buf', hpanics⟩
    · rw [hok]
      exact iff_of_true (.inl ⟨_, _, rfl, hroom⟩) ⟨hleft, fun h => by omega⟩
    · rw [hpanics]
      exact iff_of_false hpanic fun h => h.2 ⟨hfits.1, hfits.2, hroom⟩
  · have hright : ¬ (p.Encodable ∧ 5 + (p.content version).length ≤ buf.length ∧
        buf.length < headerLen (p.content version).length + (p.content version).length) :=
      fun h => hfits ⟨h.1, h.2.1⟩
    by_cases hcontent : p.content version = []
    · have hdisc : ∃ d, p = .disconnect d := by
        cases p with
        | disconnect d => exact ⟨d, rfl⟩
        | pingReq | pingResp => simp [MqttPacket.Bare] at hbare
        | _ => simp [MqttPacket.content, lengthPrefixed, toBeBytes, idAndPropertiesBytes] at hcontent
      have hencodable : p.Encodable := by
        obtain ⟨d, rfl⟩ := hdisc
        simp [MqttPacket.Encodable, MqttPacket.prefixed]
      rw [hcontent, List.length_nil] at hfits
      have hsmall : buf.length < 5 := by
        by_contra hge
        exact hfits ⟨hencodable, by omega⟩
      rw [hencode]
      rcases encodeFramed_empty (write_of_no_content hbare hcontent) hsmall with
        ⟨hlt, buf', herror⟩ | ⟨hge, buf', hpanics⟩
      · rw [herror]
        exact iff_of_true (.inr ⟨_, _, rfl⟩) ⟨fun h => by omega, hright⟩
      · rw [hpanics]
        exact iff_of_false hpanic fun h => h.1 ⟨hdisc, hcontent, hge, hsmall⟩
    · obtain ⟨e, buf', herror⟩ := encode_refuses hcontent hfits
      rw [herror]
      exact iff_of_true (.inr ⟨e, buf', rfl⟩) ⟨fun h => hcontent h.2.1, hright⟩

/-- A DISCONNECT on two bytes: the move of the empty content panics. -/
theorem encode_panics_disconnect :
    ¬ ∀ (p : MqttPacket) (version : MqttVersion) (buf : List UInt8),
      EncodeReturns buf.length (p.encode version buf) := by
  intro h
  have hpanics : (MqttPacket.disconnect .new).encode .v3_1_1 [0, 0] = .error .panic [0xE0, 0x00] :=
    rfl
  rcases h (.disconnect .new) .v3_1_1 [0, 0] with ⟨_, _, hok, _⟩ | ⟨_, _, herror⟩
  · rw [hpanics] at hok
    cases hok
  · rw [hpanics] at herror
    cases herror

/-! ## Packets that are too long -/

/-- The remaining length of a packet is checked: if it exceeds what four bytes can say, the encoder
returns an error, and the length field of what it writes is read back as the number of content
bytes. -/
def MqttPacket.LengthChecked (version : MqttVersion) (buf : List UInt8) (p : MqttPacket) : Prop :=
  (268435455 < (p.content version).length → ∃ e buf', p.encode version buf = .error (.err e) buf') ∧
  ∀ n buf', p.encode version buf = .ok n buf' →
    ∃ remainingLen pos, readVariableByteInteger 1 buf' = .ok (remainingLen, pos) ∧
      2 ≤ pos ∧ pos ≤ 5 ∧ n = pos + remainingLen ∧ remainingLen = (p.content version).length

theorem lengthChecked_of_le {buf' : List UInt8} {n : ℕ}
    (hlen : (p.content version).length ≤ 268435455) (h : p.encode version buf = .ok n buf') :
    ∃ remainingLen pos, readVariableByteInteger 1 buf' = .ok (remainingLen, pos) ∧
      2 ≤ pos ∧ pos ≤ 5 ∧ n = pos + remainingLen ∧ remainingLen = (p.content version).length := by
  obtain ⟨-, -, hn, -, tail, rfl⟩ := encode_ok h fun _ _ => Nat.lt_succ_of_le hlen
  have hpos := Base128.length_encode_pos (p.content version).length
  have hfour := Base128.length_encode_le (show 0 < 4 by decide)
    (show (p.content version).length < 128 ^ 4 by omega)
  have hread := reads_vbi (show (p.content version).length < 128 ^ 4 by omega) 1
    (p.wire version ++ tail) (p.content version ++ tail) (by
      rw [MqttPacket.wire, frameBytes, List.cons_append, List.drop_one, List.tail_cons,
        List.append_assoc])
  rw [MqttPacket.wire, length_frameBytes] at hn
  exact ⟨_, _, hread, by omega, by omega, hn, rfl⟩

/-- The remaining length is checked exactly if it fits in four bytes, or if the encoder fails for
another reason: a field that does not fit its own length, or a buffer that is too small. -/
theorem lengthChecked_iff (p : MqttPacket) (version : MqttVersion) (buf : List UInt8) :
    p.LengthChecked version buf ↔ (p.content version).length ≤ 268435455 ∨
      ¬ (p.Encodable ∧ 5 + (p.content version).length ≤ buf.length) := by
  rcases Nat.lt_or_ge 268435455 (p.content version).length with hlong | hshort
  · have hcontent : p.content version ≠ [] := List.ne_nil_of_length_pos (by omega)
    have hbare : ¬ p.Bare := fun hbare => hcontent (encode_of_bare hbare version).2.2.2
    by_cases hfits : p.Encodable ∧ 5 + (p.content version).length ≤ buf.length
    · refine iff_of_false (fun h => ?_) fun h => ?_
      · obtain ⟨e, buf', herror⟩ := h.1 hlong
        have hroom : p.room version ≤ buf.length := by
          rw [(encode_of_not_bare hbare version).2]
          exact hfits.2
        exact encode_not_refused hfits.1 hroom (by omega) herror
      · rcases h with hle | hnot
        · omega
        · exact hnot hfits
    · obtain ⟨e, buf', herror⟩ := encode_refuses hcontent hfits
      refine iff_of_true ⟨fun _ => ⟨e, buf', herror⟩, fun n out hok => ?_⟩ (.inr hfits)
      rw [herror] at hok
      cases hok
  · exact iff_of_true ⟨fun h => by omega, fun n buf' h => lengthChecked_of_le hshort h⟩
      (.inl hshort)

end

end MqttEngine
