import MqttEngine.Packet.UniqueDecoding

/-!
# What a client may say

Both clients send the same few kinds of packets, and all of them are decoded to themselves: they
have no properties, so that nothing in them depends on the version but their layout. Written one
behind the other, they are cut off and decoded one by one.

## Main definitions

* `MqttPacket.Legible` — a packet that is decoded to itself.
* `Conversation` — what a client may say on a connection.

## Main results

* `understands_of_legible` — what is written is what is heard.
-/

namespace MqttEngine
open Checked

/-- The packet is decoded to itself. -/
structure MqttPacket.Legible (version : MqttVersion) (p : MqttPacket) : Prop where
  representable : p.Representable version
  encodable : p.Encodable

/-- The packets that a client sends while it is connected. -/
def MqttPacket.ByClient : MqttPacket → Prop
  | .publish _ | .pubAck _ | .pubRec _ | .pubRel _ | .pubComp _ | .subscribe _ | .unsubscribe _
  | .pingReq => True
  | _ => False

/-- Without properties and without a reason code, and a PUBLISH with an id exactly above QoS 0. -/
structure MqttPacket.Simple (p : MqttPacket) : Prop where
  properties : ∀ ps ∈ p.propertyLists, ps = .empty
  reasonCode : p.v5ReasonCode = 0
  packetId : ∀ publish, p = .publish publish →
    (publish.packetId.isSome ↔ publish.qos ≠ .atMostOnce)

/-- What a client may say on a connection: CONNECT first, DISCONNECT last. -/
inductive Conversation (first : MqttPacket) : List MqttPacket → Prop
  | silent : Conversation first []
  | opened {body : List MqttPacket} (h : ∀ p ∈ body, p.ByClient) :
      Conversation first (first :: body)
  | closed {body : List MqttPacket} (h : ∀ p ∈ body, p.ByClient) :
      Conversation first (first :: (body ++ [.disconnect .new]))

section
variable {first : MqttPacket} {ps : List MqttPacket}

/-- The packet that opens a connection may fail. -/
theorem Conversation.opening (h : ps <+: [first]) : Conversation first ps := by
  rcases List.prefix_cons_iff.mp h with rfl | ⟨rest, rfl, hrest⟩
  · exact .silent
  · obtain rfl := List.prefix_nil.mp hrest
    exact .opened (by simp)

/-- The packet that closes a connection may fail. -/
theorem Conversation.closing {body : List MqttPacket} (hbody : ∀ p ∈ body, p.ByClient)
    (h : ps <+: [.disconnect .new]) : Conversation first (first :: body ++ ps) := by
  rcases List.prefix_cons_iff.mp h with rfl | ⟨rest, rfl, hrest⟩
  · rw [List.append_nil]
    exact .opened hbody
  · obtain rfl := List.prefix_nil.mp hrest
    exact .closed hbody

end

section
variable {version : MqttVersion} {p : MqttPacket} {ps : List MqttPacket}

theorem MqttPacket.Simple.legible (h : p.Simple) (he : p.Encodable)
    (hlen : (p.content version).length < 128 ^ 4) : p.Legible version := by
  refine ⟨⟨fun ps hps => ?_, fun _ => h.reasonCode, h.packetId, Nat.le_of_lt_succ hlen⟩, he⟩
  rw [h.properties ps hps]
  exact ⟨fun _ => rfl, by simp⟩

theorem simple_publish {publish : Publish} (hprops : publish.properties = .empty)
    (hid : publish.packetId.isSome ↔ publish.qos ≠ .atMostOnce) :
    (MqttPacket.publish publish).Simple where
  properties := by simpa [MqttPacket.propertyLists] using hprops
  reasonCode := rfl
  packetId := by
    rintro _ ⟨⟩
    exact hid

theorem talk_pingReq : MqttPacket.ByClient .pingReq ∧ MqttPacket.Simple .pingReq :=
  ⟨trivial, by simp [MqttPacket.propertyLists], rfl, by simp⟩

theorem talk_subscribe {sub : Subscribe} (h : sub.properties = .empty) :
    (MqttPacket.subscribe sub).ByClient ∧ (MqttPacket.subscribe sub).Simple :=
  ⟨trivial, by simpa [MqttPacket.propertyLists] using h, rfl, by simp⟩

theorem talk_unsubscribe {unsub : Unsubscribe} (h : unsub.properties = .empty) :
    (MqttPacket.unsubscribe unsub).ByClient ∧ (MqttPacket.unsubscribe unsub).Simple :=
  ⟨trivial, by simpa [MqttPacket.propertyLists] using h, rfl, by simp⟩

theorem simple_disconnect : MqttPacket.Simple (.disconnect .new) :=
  ⟨by simp [MqttPacket.propertyLists, Disconnect.new], rfl, by simp⟩

/-- The packets are cut off as frames, and decoded. -/
theorem understands_of_legible (h : ∀ p ∈ ps, p.Legible version) :
    framing.split (ps.flatMap (MqttPacket.wire version)) =
        (ps.map (MqttPacket.wire version), []) ∧
      Understands version (ps.map (MqttPacket.wire version)) ps := by
  have hframes : ∀ f ∈ ps.map (MqttPacket.wire version), framing.IsFrame f := by
    intro f hf
    obtain ⟨p, hp, rfl⟩ := List.mem_map.mp hf
    exact isFrame_wire (Nat.lt_succ_of_le (h p hp).representable.length)
  have hsplit := Framing.split_flatten hframes []
  rw [List.append_nil, Framing.split_nil, List.append_nil, ← List.flatMap_def] at hsplit
  refine ⟨hsplit, ?_⟩
  rw [Understands, List.forall₂_map_left_iff, List.forall₂_same]
  intro p hp
  have hdecode := decode_wire_append (h p hp).representable (h p hp).encodable []
  rwa [List.append_nil] at hdecode

end

end MqttEngine
