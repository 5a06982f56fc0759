import MqttEngine.Packet.RoundTrip

/-!
# Truncated packets

What `decode` says of the front of an encoded packet. The decoders read the remaining length
first and compare it with the buffer, so that a packet that is cut short is incomplete. Three
kinds are taken for complete: PINGREQ and PINGRESP, whose length field `decode` does not look
at, and DISCONNECT, of which the first byte alone is accepted.

## Main results

* `readContentBounds_take` — the start of a frame is incomplete.
* `decode_take_iff` — which truncated packets are reported as incomplete.
-/

namespace MqttEngine
open Checked

/-- The bounds of a frame that is cut short are not read. -/
theorem readContentBounds_take {first : UInt8} {content : List UInt8}
    (hlen : content.length ≤ 268435455) {m : ℕ} (hm : 0 < m)
    (hcut : m < (frameBytes first content).length) :
    readContentBounds ((frameBytes first content).take m) = .error (.err .incompletePacket) := by
  obtain ⟨m, rfl⟩ : ∃ k, m = k + 1 := ⟨m - 1, by omega⟩
  rw [length_frameBytes] at hcut
  have hread := Base128.read_encode_append (show 0 < 4 by decide)
    (show content.length < 128 ^ 4 by omega) content
  rw [readContentBounds, readVariableByteInteger_eq, frameBytes, List.take_succ_cons,
    List.drop_one, List.tail_cons]
  rcases Nat.lt_or_ge m (Base128.encode content.length).length with hshort | hlong
  · rw [Base128.read_take hread hshort]
    rfl
  · rw [Base128.read_take_of_le hread hlong, ok_bind]
    dsimp only
    have hend : 1 + (Base128.encode content.length).length + content.length >
        (first :: (Base128.encode content.length ++ content).take m).length := by
      rw [List.length_cons, List.length_take, List.length_append]
      omega
    rw [failIf, if_pos hend]
    rfl

/-- Every decoder but those of PINGREQ and PINGRESP reports a packet whose bounds are not read,
and that of DISCONNECT does so for two bytes or more. -/
theorem decodeType_incomplete {buf : List UInt8} {version : MqttVersion} {p : MqttPacket}
    (hbounds : readContentBounds buf = .error (.err .incompletePacket)) (hne : buf ≠ [])
    (hbare : ¬ p.Bare) (hdisc : ∀ d, p = .disconnect d → 1 < buf.length) :
    decodeType p.packetType buf version = .error (.err .incompletePacket) := by
  obtain ⟨first, tail, rfl⟩ := List.exists_cons_of_ne_nil hne
  cases p with
  | connect _ =>
    change (Connect.decode _ _).map _ = _
    rw [Connect.decode, hbounds]
    rfl
  | connAck _ =>
    change (ConnAck.decode _ _).map _ = _
    rw [ConnAck.decode, hbounds]
    rfl
  | publish _ =>
    change (Publish.decode _ _).map _ = _
    rw [Publish.decode, failIf_of_not (by simp), ok_bind, hbounds]
    rfl
  | pubAck _ | pubRec _ | pubRel _ | pubComp _ =>
    change (Ack.decode _ _).map _ = _
    rw [Ack.decode, hbounds]
    rfl
  | subscribe _ =>
    change (Subscribe.decode _ _).map _ = _
    rw [Subscribe.decode, readIdAndProperties, hbounds]
    rfl
  | subAck _ | unsubAck _ =>
    change (CodesAck.decode _ _).map _ = _
    rw [CodesAck.decode, readIdAndProperties, hbounds]
    rfl
  | unsubscribe _ =>
    change (Unsubscribe.decode _ _).map _ = _
    rw [Unsubscribe.decode, readIdAndProperties, hbounds]
    rfl
  | pingReq | pingResp => simp [MqttPacket.Bare] at hbare
  | disconnect d =>
    change (Disconnect.decode _ _).map _ = _
    rw [Disconnect.decode, if_pos (hdisc d rfl), hbounds]
    rfl

section
variable {p : MqttPacket} {version : MqttVersion} {buf buf' : List UInt8} {n m : ℕ}

/-- A truncated packet is reported as incomplete, exactly if it is neither a PINGREQ nor a PINGRESP
nor the first byte of a DISCONNECT. -/
theorem decode_take_iff (h : p.encode version buf = .ok n buf')
    (hlen : (p.content version).length ≤ 268435455) (hm : 0 < m) (hmn : m < n) :
    decode (buf'.take m) version = .error (.err .incompletePacket) ↔
      ¬ (p = .pingReq ∨ p = .pingResp ∨ ((∃ d, p = .disconnect d) ∧ m = 1)) := by
  obtain ⟨-, -, rfl, -, rest, rfl⟩ := encode_ok h fun _ _ => Nat.lt_succ_of_le hlen
  rw [List.take_append_of_le_length (Nat.le_of_lt hmn)]
  obtain ⟨tail, hcons⟩ : ∃ tail, (p.wire version).take m = p.first :: tail := by
    obtain ⟨k, rfl⟩ : ∃ k, m = k + 1 := ⟨m - 1, by omega⟩
    exact ⟨_, List.take_succ_cons⟩
  have hdecode : decode ((p.wire version).take m) version =
      (decodeType p.packetType ((p.wire version).take m) version).map some := by
    rw [hcons, decode, packetType_first]
  have hlength : ((p.wire version).take m).length = m := by
    rw [List.length_take]
    omega
  rw [hdecode]
  constructor
  · rintro hincomplete (rfl | rfl | ⟨⟨d, rfl⟩, rfl⟩)
    · cases hincomplete
    · cases hincomplete
    · have htype (bytes : List UInt8) : decodeType (MqttPacket.disconnect d).packetType bytes version =
          (Disconnect.decode bytes version).map .disconnect := rfl
      rw [htype, Disconnect.decode, if_neg (by omega)] at hincomplete
      cases hincomplete
  · intro hkind
    have hbare : ¬ p.Bare := fun hbare => hkind (hbare.imp_right .inl)
    have hdisc (d : Disconnect) (hd : p = .disconnect d) :
        1 < ((p.wire version).take m).length := by
      rw [hlength]
      by_contra hone
      exact hkind (.inr (.inr ⟨⟨d, hd⟩, by omega⟩))
    have hbounds : readContentBounds ((p.wire version).take m) = .error (.err .incompletePacket) :=
      readContentBounds_take hlen hm hmn
    rw [decodeType_incomplete hbounds (by rw [hcons]; simp) hbare hdisc]
    rfl

/-- The first three bytes of a PUBACK are incomplete. -/
theorem decode_take_pubAck :
    decode ([0x40, 2, 0, 7, 0, 0, 7].take 3) .v5 = .error (.err .incompletePacket) := by
  have hencode : (MqttPacket.pubAck (Ack.new 7)).encode .v5 (List.replicate 7 0) =
      .ok 4 [0x40, 2, 0, 7, 0, 0, 7] := rfl
  exact (decode_take_iff hencode (by decide) (by decide) (by decide)).mpr (by simp)

/-- The first byte of a PINGREQ is taken for a PINGREQ. -/
theorem decode_take_pingReq :
    ¬ ∀ (p : MqttPacket) (version : MqttVersion) (buf buf' : List UInt8) (n m : ℕ),
      p.encode version buf = .ok n buf' → (p.content version).length ≤ 268435455 → 0 < m → m < n →
        decode (buf'.take m) version = .error (.err .incompletePacket) := by
  intro h
  have hping := h .pingReq .v3_1_1 [0, 0] [0xC0, 0x00] 2 1 rfl (by decide) (by decide) (by decide)
  revert hping
  decide +kernel

end

end MqttEngine
