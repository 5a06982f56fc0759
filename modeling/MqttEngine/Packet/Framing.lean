import MqttEngine.Lib.Segment
import MqttEngine.Packet.Wire

/-!
# MQTT frames in a byte stream

The framing of MQTT: a first byte, a remaining length of one to four bytes, and that many
bytes. What `encode` writes is a frame, and `RawPacketFrameIter` cuts a buffer where
`Framing.split` cuts it, except that on a length field that does not end it reports an error
and stays where it is.

## Main definitions

* `framing` — the framing of MQTT.
* `RawPacketFrameIter.rest` — the bytes the iterator has not passed yet.

## Main results

* `isFrame_wire` — what `encode` writes is a frame.
* `next_of_complete`, `next_of_incomplete`, `next_of_unread` — the three results of the
  iterator.
-/

namespace MqttEngine
open Checked

/-- Bytes are decoded to a packet or not at all. -/
theorem decode_ne_none {bytes : List UInt8} (hne : bytes ≠ []) (version : MqttVersion) :
    decode bytes version ≠ .ok none := by
  cases bytes with
  | nil => exact absurd rfl hne
  | cons first tail =>
    rw [decode]
    rcases decodeType (first >>> 4) (first :: tail) version with _ | _ <;> simp [Except.map]

/-- The length of the frame at the front of a stream. -/
def frameSize : List UInt8 → Option ℕ
  | [] => none
  | _ :: tail =>
    match Base128.read 4 tail with
    | .value n len => some (1 + len + n)
    | _ => none

theorem frameSize_eq_some {bs : List UInt8} {k : ℕ} (h : frameSize bs = some k) :
    ∃ b tail n len, bs = b :: tail ∧ Base128.read 4 tail = .value n len ∧ k = 1 + len + n := by
  cases bs with
  | nil => cases h
  | cons b tail =>
    rw [frameSize] at h
    split at h
    · rename_i n len hread
      cases h
      exact ⟨b, tail, n, len, rfl, hread, rfl⟩
    · cases h

theorem frameSize_of_read {b : UInt8} {tail : List UInt8} {n len : ℕ}
    (h : Base128.read 4 tail = .value n len) : frameSize (b :: tail) = some (1 + len + n) := by
  rw [frameSize, h]

/-- The framing of MQTT. -/
def framing : Framing UInt8 where
  size := frameSize
  pos h := by
    obtain ⟨b, tail, n, len, rfl, hread, rfl⟩ := frameSize_eq_some h
    omega
  stable t h := by
    obtain ⟨b, tail, n, len, rfl, hread, rfl⟩ := frameSize_eq_some h
    exact frameSize_of_read (Base128.read_append hread t)
  closed h := by
    obtain ⟨b, tail, n, len, rfl, hread, rfl⟩ := frameSize_eq_some h
    rw [show 1 + len + n = len + n + 1 by omega, List.take_succ_cons]
    rw [frameSize_of_read (Base128.read_take_of_le hread (by omega))]
    congr 1
    omega

theorem framing_size (bs : List UInt8) : framing.size bs = frameSize bs := rfl

instance (f : List UInt8) : Decidable (framing.IsFrame f) := inferInstanceAs (Decidable (_ = _))

/-- A frame whose content is still incomplete. -/
theorem opened_header (first : UInt8) {remaining missing : ℕ} (h : remaining < 128 ^ 4)
    {part : List UInt8} (hpart : part.length + missing = remaining) :
    framing.Opened missing (first :: (Base128.encode remaining ++ part)) := by
  rw [Framing.Opened, framing_size, frameSize_of_read (Base128.read_encode_append (by omega) h part)]
  simp only [List.length_cons, List.length_append, Option.some.injEq]
  omega

theorem isFrame_frameBytes (first : UInt8) {content : List UInt8} (h : content.length < 128 ^ 4) :
    framing.IsFrame (frameBytes first content) :=
  Framing.opened_zero.mp (opened_header first h (Nat.add_zero _))

/-- What `encode` writes is a frame. -/
theorem isFrame_wire {p : MqttPacket} {version : MqttVersion}
    (h : (p.content version).length < 128 ^ 4) : framing.IsFrame (p.wire version) :=
  isFrame_frameBytes p.first h

theorem isFrame_wire_iff {p : MqttPacket} {version : MqttVersion} :
    framing.IsFrame (p.wire version) ↔ (p.content version).length < 128 ^ 4 := by
  refine ⟨fun h => ?_, isFrame_wire⟩
  by_contra hlong
  rw [Framing.IsFrame, framing_size, MqttPacket.wire, frameBytes, frameSize,
    Base128.read_encode_of_le (Nat.le_of_not_lt hlong)] at h
  cases h

/-- What `encode` has made of a packet is its frame, or it is too long for one, and then no frame
begins with it. -/
theorem settled_encode {Q : List UInt8 → Prop} {p : MqttPacket} {version : MqttVersion}
    {buf buf' : List UInt8} {n : ℕ} (h : p.encode version buf = .ok n buf')
    (hQ : p.Encodable → (p.content version).length < 128 ^ 4 → Q (p.wire version)) :
    framing.Settled Q (buf'.take n) := by
  by_cases hlen : (p.content version).length < 128 ^ 4
  · obtain ⟨he, -, rfl, -, tail, rfl⟩ := encode_ok h fun _ _ => hlen
    rw [List.take_left]
    exact Framing.settled_of_isFrame (isFrame_wire hlen) (hQ he hlen)
  · obtain ⟨rfl, hfront⟩ := front_encode h
    have htake : (p.first :: Base128.encode (p.content version).length) <+:
        buf'.take (1 + (Base128.encode (p.content version).length).length +
          (p.content version).length) := by
      rw [List.prefix_take_iff]
      exact ⟨hfront, by rw [List.length_cons]; omega⟩
    obtain ⟨t, ht⟩ := htake
    rw [← ht]
    apply Framing.settled_of_size
    intro t'
    rw [List.append_assoc, List.cons_append, framing_size, frameSize,
      Base128.read_encode_of_le (by omega)]

/-! ## The iterator -/

namespace RawPacketFrameIter

/-- The bytes that the iterator has not passed yet. -/
def rest (self : RawPacketFrameIter) : List UInt8 := self.buffer.drop self.offset

@[simp] theorem rest_new (buffer : List UInt8) : (new buffer).rest = buffer := rfl

/-- The iterator after a step over `n` bytes. -/
def skip (self : RawPacketFrameIter) (n : ℕ) : RawPacketFrameIter :=
  { self with offset := self.offset + n }

@[simp] theorem rest_skip (self : RawPacketFrameIter) (n : ℕ) :
    (self.skip n).rest = self.rest.drop n := by
  rw [rest, rest, List.drop_drop]
  rfl

/-- The iterator looks at the remaining bytes only. -/
theorem next_eq (self : RawPacketFrameIter) :
    self.next =
      if self.rest.length < 2 then .ok (none, self)
      else
        match Base128.read 4 self.rest.tail with
        | .value n len =>
          if self.rest.length < 1 + len + n then .ok (none, self)
          else .ok (some (.ok (self.rest.take (1 + len + n))), self.skip (1 + len + n))
        | .incomplete => .ok (some (.error .incompletePacket), self)
        | .overlong => .ok (some (.error .malformedPacket), self) := by
  rw [next]
  by_cases hend : self.offset ≥ self.buffer.length
  · have hlen : self.rest.length < 2 := by
      rw [rest, List.length_drop]
      omega
    rw [if_pos hend, if_pos hlen]
  · rw [if_neg hend, range_of_le (by omega) le_rfl, List.take_length, ok_bind]
    change (if self.rest.length < 2 then _ else _) = _
    by_cases hshort : self.rest.length < 2
    · rw [if_pos hshort, if_pos hshort]
    · rw [if_neg hshort, if_neg hshort]
      change (range self.rest 1 self.rest.length >>= _) = _
      rw [range_of_le (by omega) le_rfl, List.take_length, ok_bind, List.drop_one,
        peekVariableByteInteger_eq]
      cases hread : Base128.read 4 self.rest.tail with
      | value n len =>
        change (if self.rest.length < 1 + len + n then _ else _) = _
        dsimp only
        by_cases hcut : self.rest.length < 1 + len + n
        · rw [if_pos hcut, if_pos hcut]
        · rw [if_neg hcut, if_neg hcut]
          change (range self.rest 0 (1 + len + n) >>= _) = _
          rw [range_of_le (by omega) (by omega), ok_bind, List.drop_zero]
          rfl
      | incomplete => rfl
      | overlong => rfl

/-- A complete frame is yielded, and the iterator steps over it. -/
theorem next_of_complete {self : RawPacketFrameIter} {k : ℕ} (h : framing.size self.rest = some k)
    (hk : k ≤ self.rest.length) :
    self.next = .ok (some (.ok (self.rest.take k)), self.skip k) := by
  obtain ⟨b, tail, n, len, hrest, hread, rfl⟩ := frameSize_eq_some h
  have hlen := (Base128.read_eq_value hread).1
  rw [next_eq, if_neg (by omega), show self.rest.tail = tail by rw [hrest]; rfl, hread]
  dsimp only
  rw [if_neg (by omega)]

/-- The iterator ends at less than two bytes, and at a frame that is not complete. -/
theorem next_of_incomplete {self : RawPacketFrameIter}
    (h : self.rest.length < 2 ∨ ∃ k, framing.size self.rest = some k ∧ self.rest.length < k) :
    self.next = .ok (none, self) := by
  rcases h with hshort | ⟨k, hk, hlt⟩
  · rw [next_eq, if_pos hshort]
  · obtain ⟨b, tail, n, len, hrest, hread, rfl⟩ := frameSize_eq_some hk
    rw [next_eq, show self.rest.tail = tail by rw [hrest]; rfl, hread]
    dsimp only
    rw [if_pos hlt, ite_self]

/-- On two bytes or more without a length field that can be read the iterator reports an
error and stays where it is. -/
theorem next_of_unread {self : RawPacketFrameIter} (hlen : 2 ≤ self.rest.length)
    (h : framing.size self.rest = none) : ∃ e, self.next = .ok (some (.error e), self) := by
  obtain ⟨b, tail, hrest⟩ : ∃ b tail, self.rest = b :: tail := by
    cases hrest : self.rest with
    | nil => simp [hrest] at hlen
    | cons b tail => exact ⟨b, tail, rfl⟩
  have hsize : frameSize (b :: tail) = none := by rw [← hrest]; exact h
  rw [next_eq, if_neg (by omega), show self.rest.tail = tail by rw [hrest]; rfl]
  cases hread : Base128.read 4 tail with
  | value n len =>
    rw [frameSize_of_read hread] at hsize
    cases hsize
  | incomplete => exact ⟨_, rfl⟩
  | overlong => exact ⟨_, rfl⟩

end RawPacketFrameIter

end MqttEngine
