import MqttEngine.Packet.Iteration
import MqttEngine.Packet.RoundTrip

/-!
# Packets one behind the other

A stream of encoded packets says nothing but its packets. Where one encoding ends is told by its own
first bytes, and what it encodes by decoding it, so that no stream of packets can be read as another
one: a stream begins with another exactly if its packets do. A receiver that has got the beginning
of a stream, in chunks cut anywhere, has got the packets whose encodings are complete, and nothing
else.

## Main definitions

* `Understands` — what frames are decoded to.

## Main results

* `encodings_prefix_iff` — the streams of packets, ordered by how they go on.
* `understands_of_received` — what a receiver has got at any time.
-/

namespace MqttEngine
open Checked

/-- Each frame is decoded to its packet. -/
def Understands (version : MqttVersion) : List (List UInt8) → List MqttPacket → Prop :=
  List.Forall₂ fun frame p => decode frame version = .ok (some p)

section
variable {version : MqttVersion} {p : MqttPacket} {ps qs : List MqttPacket}
  {es fs : List (List UInt8)}

theorem wire_of_encodes {encoding : List UInt8} (h : Encodes version p encoding) :
    p.Encodable ∧ encoding = p.wire version := by
  obtain ⟨buf, n, buf', hencode, rfl, hlen⟩ := h
  obtain ⟨hp, -, rfl, -, tail, rfl⟩ := encode_ok hencode fun _ _ => Nat.lt_succ_of_le hlen
  exact ⟨hp, List.take_left⟩

/-- The encodings of packets are their wire bytes, and frames that are decoded to the packets. -/
theorem wires_of_encodes (h : List.Forall₂ (Encodes version) ps es) :
    es = ps.map (MqttPacket.wire version) ∧ (∀ f ∈ es, framing.IsFrame f) ∧
      ((∀ p ∈ ps, p.Representable version) → Understands version es ps) := by
  induction h with
  | nil => exact ⟨rfl, by simp, fun _ => .nil⟩
  | @cons p e ps es hp _ ih =>
    obtain ⟨hwires, hframes, hunderstands⟩ := ih
    obtain ⟨hencodable, rfl⟩ := wire_of_encodes hp
    refine ⟨by rw [hwires, List.map_cons],
      List.forall_mem_cons.mpr ⟨isFrame_of_encodes hp, hframes⟩, fun hrep => ?_⟩
    rw [List.forall_mem_cons] at hrep
    have hdecode := decode_wire_append hrep.1 hencodable []
    rw [List.append_nil] at hdecode
    exact .cons hdecode (hunderstands hrep.2)

/-- Frames are decoded to one list of packets only. -/
theorem Understands.init (hps : Understands version es ps) (hqs : Understands version fs qs)
    (h : es <+: fs) : ps <+: qs := by
  induction hps generalizing fs qs with
  | nil => exact List.nil_prefix
  | @cons e p es ps hp _ ih =>
    cases hqs with
    | nil => simp at h
    | @cons f q fs qs hq hqs =>
      obtain ⟨rfl, htail⟩ := List.cons_prefix_cons.mp h
      rw [hp] at hq
      cases hq
      exact List.cons_prefix_cons.mpr ⟨rfl, ih hqs htail⟩

/-- **A stream of packets begins with another one exactly if its packets do.** No encoding is the
beginning of another packet's, and no stream of packets can be cut into other packets. -/
theorem encodings_prefix_iff (hps : List.Forall₂ (Encodes version) ps es)
    (hqs : List.Forall₂ (Encodes version) qs fs) (hrep : ∀ p ∈ ps, p.Representable version)
    (hrep' : ∀ q ∈ qs, q.Representable version) :
    es.flatten <+: fs.flatten ↔ ps <+: qs := by
  obtain ⟨hwires, hframes, hunderstands⟩ := wires_of_encodes hps
  obtain ⟨hwires', hframes', hunderstands'⟩ := wires_of_encodes hqs
  constructor
  · intro h
    exact (hunderstands hrep).init (hunderstands' hrep')
      (Framing.prefix_of_flatten hframes hframes' h)
  · rintro ⟨rest, rfl⟩
    rw [hwires, hwires', List.map_append, List.flatten_append]
    exact List.prefix_append _ _

/-- **What a receiver has got at any time**, however the stream is cut into chunks: the packets
whose encodings are complete, in order, and all of them once the stream has come to its end. -/
theorem understands_of_received (hps : List.Forall₂ (Encodes version) ps es)
    (hrep : ∀ p ∈ ps, p.Representable version) {chunks : List (List UInt8)}
    (hchunks : chunks.flatten <+: es.flatten) :
    ∃ got, got <+: ps ∧ Understands version (framing.feed [] chunks).1 got ∧
      (∀ qs, qs <+: ps → (qs.flatMap (MqttPacket.wire version)) <+: chunks.flatten → qs <+: got) ∧
      (chunks.flatten = es.flatten → got = ps ∧ (framing.feed [] chunks).2 = []) := by
  obtain ⟨hwires, hframes, hunderstands⟩ := wires_of_encodes hps
  have hsplit : framing.split es.flatten = (es, []) := by
    have hall := Framing.split_flatten hframes []
    rwa [List.append_nil, Framing.split_nil, List.append_nil] at hall
  rw [Framing.feed_nil]
  -- The frames that have been cut off are the first ones of the stream.
  have hfirst := Framing.split_prefix (F := framing) hchunks
  rw [hsplit, List.prefix_iff_eq_take] at hfirst
  generalize (framing.split chunks.flatten).1.length = count at hfirst
  have hgot : Understands version (framing.split chunks.flatten).1 (ps.take count) := by
    rw [hfirst]
    exact List.forall₂_take count (hunderstands hrep)
  refine ⟨ps.take count, List.take_prefix _ _, hgot, fun qs hqs hcomplete => ?_, fun hend => ?_⟩
  · -- The frames of these packets have been cut off, too.
    have hencoded : ∀ f ∈ qs.map (MqttPacket.wire version), f ∈ es := by
      rw [hwires]
      exact fun f hf => (hqs.map _).subset hf
    have hcut := Framing.split_prefix (F := framing) hcomplete
    have hwhole := Framing.split_flatten (fun f hf => hframes f (hencoded f hf)) []
    rw [List.append_nil, Framing.split_nil, List.append_nil, ← List.flatMap_def] at hwhole
    rw [hwhole] at hcut
    have hle := hcut.length_le
    rw [List.length_map, hgot.length_eq] at hle
    exact List.prefix_of_prefix_length_le hqs (List.take_prefix _ _) hle
  · rw [hend, hsplit] at hgot ⊢
    have hlength := hgot.length_eq
    rw [hps.length_eq.symm] at hlength
    exact ⟨(List.take_prefix _ _).eq_of_length hlength.symm, rfl⟩

end

/-- The two packets of the examples. -/
def pingThenAck : List MqttPacket := [.pingReq, .pubAck (Ack.new 7)]

theorem encodes_ping : Encodes .v5 .pingReq [0xC0, 0x00] :=
  ⟨[0, 0], 2, [0xC0, 0x00], rfl, rfl, by decide⟩

theorem encodes_pingThenAck :
    List.Forall₂ (Encodes .v5) pingThenAck [[0xC0, 0x00], [0x40, 2, 0, 7]] :=
  .cons encodes_ping
    (.cons ⟨List.replicate 7 0, 4, [0x40, 2, 0, 7, 0, 0, 7], rfl, rfl, by decide⟩ .nil)

theorem representable_pingThenAck : ∀ p ∈ pingThenAck, p.Representable .v5 := by
  intro p hp
  simp only [pingThenAck, List.mem_cons, List.not_mem_nil, or_false] at hp
  rcases hp with rfl | rfl
  · exact ⟨by simp [MqttPacket.propertyLists], by simp, by simp, by decide⟩
  · refine ⟨?_, by simp, by simp, by decide⟩
    simp [MqttPacket.propertyLists, Ack.new, RepresentableProperties]

theorem encodings_prefix_iff_ping :
    ([[0xC0, 0x00]] : List (List UInt8)).flatten <+: [[0xC0, 0x00], [0x40, 2, 0, 7]].flatten ↔
      [MqttPacket.pingReq] <+: pingThenAck :=
  encodings_prefix_iff (.cons encodes_ping .nil) encodes_pingThenAck
    (fun p hp => representable_pingThenAck p
      (List.mem_of_mem_head? (List.mem_singleton.mp hp ▸ rfl)))
    representable_pingThenAck

/-- The last byte of the PUBACK is still to come. -/
theorem understands_of_received_ping : ∃ got, got <+: pingThenAck ∧
    Understands .v5 (framing.feed [] [[0xC0], [0x00, 0x40, 2], [0]]).1 got ∧
      [MqttPacket.pingReq] <+: got := by
  have hchunks : ([[0xC0], [0x00, 0x40, 2], [0]] : List (List UInt8)).flatten <+:
      ([[0xC0, 0x00], [0x40, 2, 0, 7]] : List (List UInt8)).flatten := ⟨[7], rfl⟩
  obtain ⟨got, hgot, hunderstands, hall, -⟩ :=
    understands_of_received encodes_pingThenAck representable_pingThenAck hchunks
  have hwire : MqttPacket.wire .v5 .pingReq = [0xC0, 0x00] := by decide +kernel
  refine ⟨got, hgot, hunderstands, hall _ ⟨[.pubAck (Ack.new 7)], rfl⟩ ?_⟩
  rw [List.flatMap_singleton, hwire]
  exact ⟨[0x40, 2, 0], rfl⟩

end MqttEngine
