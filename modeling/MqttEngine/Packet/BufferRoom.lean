import MqttEngine.Packet.EncoderSafety

/-!
# Room in the buffer

How large a buffer `encode` asks for. The content is written behind five bytes and then moved
down, so that all packets but the two with an encoder of their own need five bytes more than their
content, even if their header is shorter than that. What is encoded depends on the packet only:
the buffer decides whether there is room.

## Main definitions

* `MqttPacket.EncodesIfFits` — a packet is encoded exactly if the buffer holds its encoding.
* `MqttPacket.encoded` — what `encode` writes, however long the content.

## Main results

* `encodesIfFits_iff` — when a packet is encoded exactly if it fits.
* `encode_eq_ok`, `encode_of_room` — what is encoded, and when.
-/

namespace MqttEngine
open Checked SliceWriter

/-! ## Packets that fit -/

/-- The packet is encoded exactly if the buffer holds its encoding; a buffer that does not is
reported as too small. -/
def MqttPacket.EncodesIfFits (version : MqttVersion) (buf : List UInt8) (p : MqttPacket) : Prop :=
  ((∃ n buf', p.encode version buf = .ok n buf') ↔ (p.wire version).length ≤ buf.length) ∧
  (buf.length < (p.wire version).length →
    ∃ buf', p.encode version buf = .error (.err .bufferTooSmall) buf')

section
variable {p : MqttPacket} {version : MqttVersion} {buf : List UInt8}

theorem length_wire (p : MqttPacket) (version : MqttVersion) :
    (p.wire version).length =
      headerLen (p.content version).length + (p.content version).length := by
  rw [MqttPacket.wire, length_frameBytes, headerLen]

/-- The encoder asks for no less than the encoding takes. -/
theorem length_wire_le_room (hlen : (p.content version).length < 128 ^ 4) :
    (p.wire version).length ≤ p.room version := by
  by_cases hbare : p.Bare
  · obtain ⟨-, hroom, -, hcontent⟩ := encode_of_bare hbare version
    simp [length_wire, hroom, hcontent, headerLen, Base128.encode_of_lt]
  · rw [(encode_of_not_bare hbare version).2, length_wire]
    exact Nat.add_le_add_right (headerLen_le hlen) _

/-- A buffer that does not hold the encoding is too small for the encoder. -/
theorem encode_of_not_fits (hp : p.Encodable) (hlen : (p.content version).length < 128 ^ 4)
    (hsmall : buf.length < (p.wire version).length) :
    ∃ buf', p.encode version buf = .error (.err .bufferTooSmall) buf' := by
  have hroom := hsmall.trans_le (length_wire_le_room hlen)
  by_cases hbare : p.Bare
  · obtain ⟨hencode, hr, -, -⟩ := encode_of_bare hbare version
    rw [hr] at hroom
    exact ⟨buf, by rw [hencode, encodeBare, if_pos hroom]⟩
  · obtain ⟨hencode, hr⟩ := encode_of_not_bare hbare version
    rw [hr] at hroom
    rw [hencode]
    by_cases hcontent : p.content version = []
    · rw [length_wire, hcontent, List.length_nil, headerLen, Base128.encode_of_lt (by decide)]
        at hsmall
      simp only [hcontent, List.length_nil] at hroom
      rcases encodeFramed_empty (write_of_no_content hbare hcontent) hroom with
        ⟨-, herror⟩ | ⟨hge, -⟩
      · exact herror
      · simp at hsmall
        omega
    · exact encodeFramed_small (emits_write p version) (overruns_of_content hbare hcontent)
        (.inr ⟨hp, hroom⟩)

/-- A packet is encoded exactly if it fits, save in the buffers that hold its encoding but not the
five bytes in front of its content. -/
theorem encodesIfFits_iff (hp : p.Encodable)
    (hlen : (p.content version).length ≤ 268435455) :
    p.EncodesIfFits version buf ↔
      ¬ ((p.wire version).length ≤ buf.length ∧ buf.length < p.room version) := by
  have hshort : (p.content version).length < 128 ^ 4 := by omega
  have hok : (∃ n buf', p.encode version buf = .ok n buf') ↔ p.room version ≤ buf.length := by
    constructor
    · rintro ⟨n, buf', hok⟩
      exact (encode_ok hok fun _ _ => hshort).2.1
    · intro hroom
      obtain ⟨tail, hok, -⟩ := encode_fits hp hroom hshort
      exact ⟨_, _, hok⟩
  have hle := length_wire_le_room hshort
  constructor
  · rintro ⟨hiff, -⟩ ⟨hfits, hroom⟩
    have := hok.mp (hiff.mpr hfits)
    omega
  · intro hnot
    refine ⟨hok.trans ⟨fun hroom => hle.trans hroom, fun hfits => ?_⟩, encode_of_not_fits hp hshort⟩
    by_contra hroom
    exact hnot ⟨hfits, Nat.lt_of_not_le hroom⟩

/-- A PUBACK in a buffer of nine bytes. -/
theorem encodesIfFits_pubAck :
    (MqttPacket.pubAck (.new 1)).Encodable ∧
      (MqttPacket.EncodesIfFits .v3_1_1 (List.replicate 9 0) (.pubAck (.new 1)) ↔
        ¬ (((MqttPacket.pubAck (.new 1)).wire .v3_1_1).length ≤ 9 ∧
          9 < (MqttPacket.pubAck (.new 1)).room .v3_1_1)) :=
  ⟨by decide, encodesIfFits_iff (by decide) (by decide)⟩

/-- A PUBACK has four bytes, and a buffer of four bytes is refused. -/
theorem puback_refused_in_four_bytes :
    ¬ ∀ (p : MqttPacket) (version : MqttVersion) (buf : List UInt8), p.Encodable →
      (p.content version).length ≤ 268435455 → p.EncodesIfFits version buf := by
  intro h
  obtain ⟨n, buf', hok⟩ := (h (.pubAck (.new 1)) .v3_1_1 [0, 0, 0, 0] (by decide) (by decide)).1.mpr
    (by decide +kernel)
  have herror : (MqttPacket.pubAck (.new 1)).encode .v3_1_1 [0, 0, 0, 0] =
      .error (.err .bufferTooSmall) [0x40, 0, 0, 0] := rfl
  rw [herror] at hok
  cases hok

end

/-! ## What is encoded -/

section
variable {first : UInt8} {content : SliceWriter PacketError UInt8 Unit} {P : Prop}
  {bs buf : List UInt8}

/-- The end of a length that takes more than the four reserved bytes has been written over the
start of the content. -/
def encodedBytes (first : UInt8) (content : List UInt8) : List UInt8 :=
  let length := Base128.encode content.length
  first :: (length ++ (length.drop 4 ++ content.drop (length.length - 4)))

theorem encodedBytes_of_short (first : UInt8) (h : bs.length < 128 ^ 4) :
    encodedBytes first bs = frameBytes first bs := by
  have hle := Base128.length_encode_le (show 0 < 4 by decide) h
  simp [encodedBytes, frameBytes, List.drop_of_length_le hle, Nat.sub_eq_zero_of_le hle]

theorem length_encodedBytes (first : UInt8) (bs : List UInt8) :
    (encodedBytes first bs).length = headerLen bs.length + bs.length := by
  have hle : (Base128.encode bs.length).length ≤ 4 ∨
      (Base128.encode bs.length).length ≤ bs.length := by
    by_cases hshort : bs.length < 128 ^ 4
    · exact .inl (Base128.length_encode_le (by decide) hshort)
    · exact .inr (Base128.length_encode_le (by omega) (Nat.lt_pow_self (by decide)))
  simp only [encodedBytes, headerLen, List.length_cons, List.length_append, List.length_drop]
  omega

/-- A content that has been written is moved behind its header, if there is room for both. -/
theorem encodeFramed_bytes (first : UInt8) (h : Emits .bufferTooSmall P content bs) (hP : P)
    (hroom : 5 + bs.length ≤ buf.length) (hmove : (encodedBytes first bs).length ≤ buf.length) :
    ∃ tail, encodeFramed first content buf =
        .ok (encodedBytes first bs).length (encodedBytes first bs ++ tail) ∧
      (encodedBytes first bs ++ tail).length = buf.length := by
  obtain ⟨mid, ⟨behind, rfl⟩, hlength, hmid, hencode⟩ := encodeFramed_move first h hP hroom
  rw [length_encodedBytes, headerLen] at hmove
  have hfront : ((first :: Base128.encode bs.length) ++ behind).take
      (1 + (Base128.encode bs.length).length) = first :: Base128.encode bs.length := by
    rw [Nat.add_comm, ← List.length_cons, List.take_left]
  rw [copyWithin, if_pos (by dsimp only; omega), Nat.add_sub_cancel_left] at hencode
  dsimp only at hencode
  have hbytes : (first :: Base128.encode bs.length) ++ ((Base128.encode bs.length).drop 4 ++
      bs.drop ((Base128.encode bs.length).length - 4)) = encodedBytes first bs := rfl
  rw [hfront, List.drop_take, Nat.add_sub_cancel_left, hmid, hbytes, ← headerLen,
    ← length_encodedBytes first bs] at hencode
  refine ⟨_, hencode, ?_⟩
  have hkept : (encodeFramed first content buf).final.length = buf.length :=
    length_encodeFramed h buf
  rwa [hencode, EStateM.Result.final_ok] at hkept

end

/-- What `encode` writes for a packet, however long its content. -/
def MqttPacket.encoded (version : MqttVersion) (p : MqttPacket) : List UInt8 :=
  encodedBytes p.first (p.content version)

section
variable {p : MqttPacket} {version : MqttVersion} {buf : List UInt8}

theorem encoded_of_short (hlen : (p.content version).length < 128 ^ 4) :
    p.encoded version = p.wire version := encodedBytes_of_short p.first hlen

/-- A packet is encoded if the buffer has room for the encoder and for the encoding. -/
theorem encode_of_room (hp : p.Encodable) (hroom : p.room version ≤ buf.length)
    (hmove : (p.encoded version).length ≤ buf.length) :
    ∃ tail, p.encode version buf = .ok (p.encoded version).length (p.encoded version ++ tail) ∧
      (p.encoded version ++ tail).length = buf.length := by
  by_cases hlen : (p.content version).length < 128 ^ 4
  · rw [encoded_of_short hlen]
    exact encode_fits hp hroom hlen
  · have hbare : ¬ p.Bare := by
      intro hbare
      rw [(encode_of_bare hbare version).2.2.2] at hlen
      exact hlen (by decide)
    obtain ⟨hencode, hr⟩ := encode_of_not_bare hbare version
    rw [hencode]
    exact encodeFramed_bytes p.first (emits_write p version) hp (hr ▸ hroom) hmove

/-- A packet whose encoding has no room, although the encoder has, panics. -/
theorem encode_panics (hbare : ¬ p.Bare) (hp : p.Encodable) (hroom : p.room version ≤ buf.length)
    (hlong : buf.length < (p.encoded version).length) :
    ∃ buf', p.encode version buf = .error .panic buf' := by
  obtain ⟨hencode, hr⟩ := encode_of_not_bare hbare version
  rw [MqttPacket.encoded, length_encodedBytes] at hlong
  rw [hencode]
  rcases encodeFramed_room p.first (emits_write p version) hp (hr ▸ hroom) with
    ⟨hfits, -⟩ | ⟨-, hpanics⟩
  · omega
  · exact hpanics

/-- What is encoded is the encoding of the packet, and the buffer had room for it. -/
theorem encode_eq_ok {n : ℕ} {buf' : List UInt8} (h : p.encode version buf = .ok n buf') :
    p.Encodable ∧ p.room version ≤ buf.length ∧ n = (p.encoded version).length ∧
      (p.encoded version).length ≤ buf.length ∧ buf'.length = buf.length ∧
      ∃ tail, buf' = p.encoded version ++ tail := by
  by_cases hlen : (p.content version).length < 128 ^ 4
  · obtain ⟨hp, hroom, hn, hbuf, htail⟩ := encode_ok h fun _ _ => hlen
    rw [encoded_of_short hlen]
    exact ⟨hp, hroom, hn, (length_wire_le_room hlen).trans hroom, hbuf, htail⟩
  · have hbare : ¬ p.Bare := by
      intro hbare
      rw [(encode_of_bare hbare version).2.2.2] at hlen
      exact hlen (by decide)
    obtain ⟨hencode, hr⟩ := encode_of_not_bare hbare version
    have h' := h
    rw [hencode] at h'
    obtain ⟨hp, hroom⟩ :=
      encodeFramed_ok (emits_write p version) (overruns_or_nothing hbare version) h'
    rw [← hr] at hroom
    have hmove : (p.encoded version).length ≤ buf.length := by
      by_contra hlong
      obtain ⟨_, hpanics⟩ := encode_panics hbare hp hroom (Nat.lt_of_not_le hlong)
      rw [h] at hpanics
      cases hpanics
    obtain ⟨tail, hok, hbuf⟩ := encode_of_room hp hroom hmove
    rw [hok] at h
    cases h
    exact ⟨hp, hroom, rfl, hmove, hbuf, tail, rfl⟩

end

end MqttEngine
