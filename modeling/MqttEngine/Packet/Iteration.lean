import MqttEngine.Packet.Framing

/-!
# Runs of the frame iterator

What the calls of `RawPacketFrameIter::next` yield one after another. The complete frames at the
front of the buffer come first, in order, and then every call yields the same: `None`, or the
error of a length field that cannot be read, behind which the iterator never gets.

## Main definitions

* `RawPacketFrameIter.nexts` — the results of a number of calls.
* `Encodes` — bytes that `encode` has written for a packet.

## Main results

* `nexts_split` — the results of any number of calls.
* `terminates_iff` — when the iterator ends.
* `nexts_encodings` — the iterator inverts the concatenation of encoded packets.
-/

namespace MqttEngine
open Checked

namespace RawPacketFrameIter

/-- The results of `count` calls of `next`. -/
def nexts : ℕ → RawPacketFrameIter →
    Checked PacketError (List (Option (Except PacketError (List UInt8))) × RawPacketFrameIter)
  | 0, self => .ok ([], self)
  | count + 1, self => do
    let (result, self) ← self.next
    let (results, self) ← nexts count self
    .ok (result :: results, self)

/-- A frame as `next` yields it. -/
def yielded (frame : List UInt8) : Option (Except PacketError (List UInt8)) := some (.ok frame)

/-- The frame that a call has yielded. -/
def okItem : Option (Except PacketError (List UInt8)) → Option (List UInt8)
  | some (.ok frame) => some frame
  | _ => none

theorem filterMap_yielded (frames : List (List UInt8)) :
    (frames.map yielded).filterMap okItem = frames := by
  induction frames with
  | nil => rfl
  | cons f frames ih => simp [yielded, okItem, ih]

/-- The calls yield the frames at the front of what is left, one after another. -/
theorem nexts_frames {frames : List (List UInt8)} (hframes : ∀ f ∈ frames, framing.IsFrame f)
    {self : RawPacketFrameIter} {tail : List UInt8} (hrest : self.rest = frames.flatten ++ tail)
    (count : ℕ) :
    nexts (frames.length + count) self =
      nexts count (self.skip frames.flatten.length) >>= fun x =>
        .ok (frames.map yielded ++ x.1, x.2) := by
  induction frames generalizing self with
  | nil =>
    rw [List.length_nil, Nat.zero_add, List.flatten_nil]
    change nexts count self = nexts count self >>= _
    cases nexts count self <;> rfl
  | cons f frames ih =>
    have hf : framing.IsFrame f := hframes f (by simp)
    rw [List.flatten_cons, List.append_assoc] at hrest
    have hsize : framing.size self.rest = some f.length := by
      rw [hrest]
      exact framing.stable _ hf
    have hnext := next_of_complete hsize (by rw [hrest]; simp)
    have htake : self.rest.take f.length = f := by rw [hrest]; simp
    have hskip : (self.skip f.length).rest = frames.flatten ++ tail := by simp [hrest]
    have hskips : (self.skip f.length).skip frames.flatten.length =
        self.skip (f :: frames).flatten.length := by
      simp [skip, Nat.add_assoc]
    rw [List.length_cons, Nat.add_right_comm, nexts, hnext, htake, ok_bind]
    dsimp only
    rw [ih (fun g hg => hframes g (by simp [hg])) hskip, hskips]
    cases nexts count (self.skip (f :: frames).flatten.length) <;> rfl

/-- A call that leaves the iterator where it is repeats itself. -/
theorem nexts_of_stays {self : RawPacketFrameIter} {result : Option (Except PacketError (List UInt8))}
    (h : self.next = .ok (result, self)) (count : ℕ) :
    nexts count self = .ok (List.replicate count result, self) := by
  induction count with
  | zero => rfl
  | succ count ih =>
    rw [nexts, h, ok_bind]
    dsimp only
    rw [ih]
    rfl

/-- What cannot be cut off any more: the iterator ends there, or it repeats an error. -/
theorem next_of_split_rest {buffer : List UInt8} {self : RawPacketFrameIter}
    (h : self.rest = (framing.split buffer).2) :
    ∃ result, self.next = .ok (result, self) ∧ okItem result = none ∧
      (result = none ↔ (framing.split buffer).2.length < 2 ∨
        ∃ n, framing.size (framing.split buffer).2 = some n) := by
  rw [← h]
  by_cases hends : self.rest.length < 2 ∨ ∃ n, framing.size self.rest = some n
  · refine ⟨none, next_of_incomplete ?_, rfl, by simpa using hends⟩
    refine hends.imp_right ?_
    rintro ⟨n, hn⟩
    rw [h] at hn ⊢
    exact ⟨n, hn, framing.lt_of_size_split_rest buffer hn⟩
  · rw [not_or, Nat.not_lt, not_exists] at hends
    obtain ⟨e, he⟩ := next_of_unread hends.1 (Option.eq_none_iff_forall_ne_some.mpr hends.2)
    refine ⟨some (.error e), he, rfl, iff_of_false (by simp) ?_⟩
    rw [not_or, Nat.not_lt, not_exists]
    exact hends

/-- The calls yield the frames that are split off, and then the same again and again. -/
theorem nexts_split (buffer : List UInt8) :
    ∃ result self, okItem result = none ∧
      (result = none ↔ (framing.split buffer).2.length < 2 ∨
        ∃ n, framing.size (framing.split buffer).2 = some n) ∧
      ∀ count, nexts ((framing.split buffer).1.length + count) (new buffer) =
        .ok ((framing.split buffer).1.map yielded ++ List.replicate count result, self) := by
  have hrest : (new buffer).rest =
      (framing.split buffer).1.flatten ++ (framing.split buffer).2 := by
    rw [rest_new, framing.flatten_split]
  have hframes (f : List UInt8) (hf : f ∈ (framing.split buffer).1) : framing.IsFrame f :=
    Framing.isFrame_of_mem_split hf
  have hskip : ((new buffer).skip (framing.split buffer).1.flatten.length).rest =
      (framing.split buffer).2 := by
    rw [rest_skip, hrest, List.drop_left]
  obtain ⟨result, hnext, hitem, hends⟩ := next_of_split_rest hskip
  refine ⟨result, (new buffer).skip (framing.split buffer).1.flatten.length, hitem, hends,
    fun count => ?_⟩
  rw [nexts_frames hframes hrest, nexts_of_stays hnext, ok_bind]

/-- Frames that `next` yields are cut where their length fields say. -/
theorem peek_of_isFrame {f : List UInt8} (h : framing.IsFrame f) :
    ∃ first tail remainingLen lenBytes, f = first :: tail ∧
      peekVariableByteInteger tail = .ok (remainingLen, lenBytes) ∧
      f.length = 1 + lenBytes + remainingLen := by
  obtain ⟨first, tail, n, len, rfl, hread, hlen⟩ := frameSize_eq_some h
  exact ⟨first, tail, n, len, rfl, by rw [peekVariableByteInteger_eq, hread], hlen⟩

/-- The iterator ends within one call more than the buffer has bytes, after it has yielded
consecutive slices from the start of the buffer on, each as long as its header says, exactly if
what stands behind the complete frames is shorter than two bytes or begins with a length field
that can be read. -/
theorem terminates_iff (buffer : List UInt8) :
    (∃ before after self, nexts (buffer.length + 1) (new buffer) =
        .ok (before ++ none :: after, self) ∧ none ∉ before ∧
      (before.filterMap okItem).flatten <+: buffer ∧
      ∀ f ∈ before.filterMap okItem, ∃ first tail remainingLen lenBytes, f = first :: tail ∧
        peekVariableByteInteger tail = .ok (remainingLen, lenBytes) ∧
        f.length = 1 + lenBytes + remainingLen) ↔
      (framing.split buffer).2.length < 2 ∨
        ∃ n, framing.size (framing.split buffer).2 = some n := by
  obtain ⟨result, self, hitem, hends, hrun⟩ := nexts_split buffer
  have hframes (f : List UInt8) (hf : f ∈ (framing.split buffer).1) : framing.IsFrame f :=
    Framing.isFrame_of_mem_split hf
  have hcount : (framing.split buffer).1.length ≤ buffer.length := by
    have hle := Framing.length_le_flatten hframes
    have hlength := congrArg List.length (framing.flatten_split buffer)
    rw [List.length_append] at hlength
    omega
  obtain ⟨spare, hspare⟩ : ∃ spare,
      buffer.length + 1 = (framing.split buffer).1.length + (spare + 1) :=
    ⟨buffer.length - (framing.split buffer).1.length, by omega⟩
  rw [← hends, hspare, hrun, List.replicate_succ]
  constructor
  · rintro ⟨before, after, _, h, -⟩
    have hmem : none ∈ (framing.split buffer).1.map yielded ++ result :: List.replicate spare result := by
      rw [(Prod.mk.inj (Except.ok.inj h)).1]
      simp
    rw [List.mem_append, ← List.replicate_succ, List.mem_replicate] at hmem
    rcases hmem with hmem | ⟨-, hnone⟩
    · simp [yielded] at hmem
    · exact hnone.symm
  · rintro rfl
    refine ⟨(framing.split buffer).1.map yielded, _, self, rfl, by simp [yielded], ?_⟩
    rw [filterMap_yielded]
    exact ⟨⟨_, framing.flatten_split buffer⟩, fun f hf => peek_of_isFrame (hframes f hf)⟩

/-- On a header of two bytes whose length field goes on, the iterator never ends. -/
theorem not_terminates_header :
    ¬ ∀ buffer, ∃ before after self, nexts (buffer.length + 1) (new buffer) =
      .ok (before ++ none :: after, self) := by
  intro h
  obtain ⟨before, after, self, hrun⟩ := h [0x30, 0x80]
  have hstays : (new [0x30, 0x80]).next =
      .ok (some (.error .incompletePacket), new [0x30, 0x80]) := rfl
  rw [nexts_of_stays hstays] at hrun
  have hresults := (Prod.mk.inj (Except.ok.inj hrun)).1
  have hmem : none ∈ before ++ none :: after := by simp
  rw [← hresults] at hmem
  simp at hmem

end RawPacketFrameIter

/-! ## Encoded packets -/

/-- The bytes that `encode` has written for a packet whose remaining length has at most four
bytes. -/
def Encodes (version : MqttVersion) (p : MqttPacket) (encoding : List UInt8) : Prop :=
  ∃ buf n buf', p.encode version buf = .ok n buf' ∧ encoding = buf'.take n ∧
    (p.content version).length ≤ 268435455

theorem isFrame_of_encodes {version : MqttVersion} {p : MqttPacket} {encoding : List UInt8}
    (h : Encodes version p encoding) : framing.IsFrame encoding := by
  obtain ⟨buf, n, buf', hencode, rfl, hlen⟩ := h
  obtain ⟨-, -, rfl, -, tail, rfl⟩ := encode_ok hencode fun _ _ => Nat.lt_succ_of_le hlen
  rw [List.take_left]
  exact isFrame_wire (Nat.lt_succ_of_le hlen)

open RawPacketFrameIter in
/-- The iterator yields the encodings of packets that stand one behind the other, in order, and
then ends; what it yields is decoded like the encoding. -/
theorem nexts_encodings {version : MqttVersion} {packets : List MqttPacket}
    {encodings : List (List UInt8)} (h : List.Forall₂ (Encodes version) packets encodings) :
    ∃ results self, nexts (packets.length + 1) (new encodings.flatten) =
        .ok (results ++ [none], self) ∧
      List.Forall₂ (fun result encoding => ∃ frame, result = some (.ok frame) ∧ frame = encoding ∧
        decode frame version = decode encoding version) results encodings := by
  have hframes : ∀ f ∈ encodings, framing.IsFrame f := by
    intro f hf
    obtain ⟨i, hi, rfl⟩ := List.getElem_of_mem hf
    exact isFrame_of_encodes (h.get (by rw [h.length_eq]; exact hi) hi)
  have hrest : (new encodings.flatten).rest = encodings.flatten ++ [] := by simp
  have hend : ((new encodings.flatten).skip encodings.flatten.length).next =
      .ok (none, (new encodings.flatten).skip encodings.flatten.length) :=
    next_of_incomplete (.inl (by simp))
  refine ⟨encodings.map yielded, (new encodings.flatten).skip encodings.flatten.length, ?_, ?_⟩
  · rw [h.length_eq, nexts_frames hframes hrest, nexts_of_stays hend]
    rfl
  · rw [List.forall₂_map_left_iff, List.forall₂_same]
    intro encoding _
    exact ⟨encoding, rfl, rfl, rfl⟩

open RawPacketFrameIter in
/-- A PINGREQ and a PUBACK, one behind the other. -/
theorem nexts_encodings_two :
    ∃ results self, nexts 3 (new ([[0xC0, 0x00], [0x40, 2, 0, 7]] : List (List UInt8)).flatten) =
        .ok (results ++ [none], self) ∧
      List.Forall₂ (fun result encoding => ∃ frame, result = some (.ok frame) ∧ frame = encoding ∧
        decode frame .v5 = decode encoding .v5) results [[0xC0, 0x00], [0x40, 2, 0, 7]] :=
  have hping : Encodes .v5 .pingReq [0xC0, 0x00] :=
    ⟨[0, 0], 2, [0xC0, 0x00], rfl, rfl, by decide⟩
  have hack : Encodes .v5 (.pubAck (Ack.new 7)) [0x40, 2, 0, 7] :=
    ⟨List.replicate 7 0, 4, [0x40, 2, 0, 7, 0, 0, 7], rfl, rfl, by decide⟩
  nexts_encodings (.cons hping (.cons hack .nil))

end MqttEngine
