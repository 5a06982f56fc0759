import MqttEngine.Packet.Framing
import MqttEngine.Tokio.Sending

/-!
# Reading frames

The read branch of `drive_connection` appends what it has read to what is left in the receive
buffer, cuts off the frames that are complete, decodes them, and moves the rest to the front. What
it cuts off is what the framing of MQTT splits off. But while the length field at the front of the
rest is not complete, the iterator goes on to report the same error, and the branch does not end.

## Main definitions

* `Stalls` — a rest on which the branch does not end.
* `receivedFrames` — frames with their packets.
* `Readable` — a way in which the socket may cut a stream into reads.
* `Receives` — what is left in the buffer, and what is to come.

## Main results

* `receiveFrames_chunk`, `receiveFrames_stalls` — what a read does.
-/

namespace MqttEngine.Tokio
open Checked Conn

/-! ## Frames -/

/-- Two bytes or more, without a length field that can be read. -/
def Stalls (rest : List UInt8) : Prop := 2 ≤ rest.length ∧ framing.size rest = none

instance (rest : List UInt8) : Decidable (Stalls rest) := inferInstanceAs (Decidable (_ ∧ _))

/-- The frame can be decoded. -/
def Decodes (version : MqttVersion) (frame : List UInt8) : Prop :=
  ∃ packet, decode frame version = .ok packet

/-- A frame that is cut off, with its packet. -/
def receivedFrame (version : MqttVersion) (frame : List UInt8) : List Received :=
  match decode frame version with
  | .ok packet => packet.toList.map fun packet => ⟨frame, packet⟩
  | .error _ => []

/-- Frames with their packets. -/
def receivedFrames (version : MqttVersion) (frames : List (List UInt8)) : List Received :=
  frames.flatMap (receivedFrame version)

@[simp] theorem receivedFrames_nil (version : MqttVersion) : receivedFrames version [] = [] := rfl

@[simp] theorem receivedFrames_append (version : MqttVersion) (frames frames' : List (List UInt8)) :
    receivedFrames version (frames ++ frames') =
      receivedFrames version frames ++ receivedFrames version frames' :=
  List.flatMap_append

/-- The socket may cut a stream like this, if `rest` is left in a buffer of `size` bytes: no read is
empty, and each of them finds room behind what is left. -/
def Readable (size : ℕ) : List UInt8 → List (List UInt8) → Prop
  | _, [] => True
  | rest, chunk :: chunks =>
    chunk ≠ [] ∧ rest.length + chunk.length ≤ size ∧
      Readable size (framing.split (rest ++ chunk)).2 chunks

namespace EventLoop
variable {E R S W : Type} {maxPacketSize : ℕ} {s : Conn E R S W maxPacketSize}

/-! ## Cutting and decoding -/

/-- The loop over complete frames. -/
theorem parseFrames_frames {frames : List (List UInt8)} (hframes : ∀ f ∈ frames, framing.IsFrame f)
    (hdecodes : ∀ f ∈ frames, Decodes s.options.version f) {iter : RawPacketFrameIter}
    {tail : List UInt8} (hrest : iter.rest = frames.flatten ++ tail) (fuel : ℕ)
    (received : List Received) (consumed : ℕ) :
    ∃ iter' : RawPacketFrameIter, iter'.rest = tail ∧
      parseFrames (frames.length + fuel) iter received consumed s =
        parseFrames fuel iter' (received ++ receivedFrames s.options.version frames)
          (consumed + frames.flatten.length) s := by
  induction frames generalizing iter received consumed with
  | nil => exact ⟨iter, by simpa using hrest, by simp⟩
  | cons f frames ih =>
    have hf : framing.IsFrame f := hframes f (by simp)
    obtain ⟨packet, hpacket⟩ := hdecodes f (by simp)
    rw [List.flatten_cons, List.append_assoc] at hrest
    have hsize : framing.size iter.rest = some f.length := by
      rw [hrest]
      exact framing.stable _ hf
    have hnext := RawPacketFrameIter.next_of_complete hsize (by rw [hrest]; simp)
    have htake : iter.rest.take f.length = f := by rw [hrest]; simp
    have hskip : (iter.skip f.length).rest = frames.flatten ++ tail := by simp [hrest]
    obtain ⟨iter', hiter', hrun⟩ := ih (fun g hg => hframes g (by simp [hg]))
      (fun g hg => hdecodes g (by simp [hg])) hskip
      (received ++ packet.toList.map fun packet => ⟨f, packet⟩) (consumed + f.length)
    refine ⟨iter', hiter', ?_⟩
    have hstep : parseFrames (frames.length + fuel + 1) iter received consumed s =
        parseFrames (frames.length + fuel) (iter.skip f.length)
          (received ++ packet.toList.map fun packet => ⟨f, packet⟩) (consumed + f.length) s := by
      rw [parseFrames, hnext, htake]
      change (lift _ (decode f s.options.version) >>= _) s = _
      rw [hpacket]
      rfl
    rw [List.length_cons, Nat.add_right_comm, hstep, hrun]
    simp [receivedFrames, receivedFrame, hpacket, Nat.add_assoc]

/-- The loop ends at a frame that is not complete. -/
theorem parseFrames_end {iter : RawPacketFrameIter} (hincomplete : ∀ n,
      framing.size iter.rest = some n → iter.rest.length < n) (hstalls : ¬ Stalls iter.rest)
    (fuel : ℕ) (received : List Received) (consumed : ℕ) :
    parseFrames (fuel + 1) iter received consumed s = .ok (received, consumed) s := by
  have hnext : iter.next = .ok (none, iter) := by
    apply RawPacketFrameIter.next_of_incomplete
    by_cases hshort : iter.rest.length < 2
    · exact .inl hshort
    · right
      cases hsize : framing.size iter.rest with
      | none => exact absurd ⟨by omega, hsize⟩ hstalls
      | some n => exact ⟨n, rfl, hincomplete n hsize⟩
  rw [parseFrames, hnext]
  rfl

/-- The loop does not end on a length field that is not complete. -/
theorem parseFrames_stalls {iter : RawPacketFrameIter} (hstalls : Stalls iter.rest) (fuel : ℕ)
    (received : List Received) (consumed : ℕ) :
    parseFrames fuel iter received consumed s = .error .diverge s := by
  induction fuel with
  | zero => rfl
  | succ fuel ih =>
    obtain ⟨e, hnext⟩ := RawPacketFrameIter.next_of_unread hstalls.1 hstalls.2
    rw [parseFrames, hnext]
    exact ih

/-- The loop over what is in the buffer. -/
theorem parseFrames_split {bytes tail : List UInt8} {frames : List (List UInt8)}
    (hsplit : framing.split bytes = (frames, tail))
    (hdecodes : ∀ f ∈ frames, Decodes s.options.version f) :
    parseFrames (bytes.length + 1) (.new bytes) [] 0 s =
      if Stalls tail then .error .diverge s
      else .ok (receivedFrames s.options.version frames, frames.flatten.length) s := by
  have hflat := framing.flatten_split bytes
  have hframes : ∀ f ∈ (framing.split bytes).1, framing.IsFrame f :=
    fun f hf => Framing.isFrame_of_mem_split hf
  have hincomplete (n : ℕ) := framing.lt_of_size_split_rest bytes (n := n)
  simp only [hsplit] at hflat hframes hincomplete
  -- Every frame takes one unit of the fuel, and has at least one byte.
  obtain ⟨fuel, hfuel⟩ : ∃ fuel, bytes.length + 1 = frames.length + (fuel + 1) := by
    have hle := Framing.length_le_flatten hframes
    have hlen := congrArg List.length hflat
    rw [List.length_append] at hlen
    exact ⟨bytes.length - frames.length, by omega⟩
  have hnew : (RawPacketFrameIter.new bytes).rest = frames.flatten ++ tail := hflat.symm
  obtain ⟨iter, hiter, hrun⟩ := parseFrames_frames hframes hdecodes hnew (fuel + 1) [] 0
  rw [hfuel, hrun]
  split
  · rename_i hstalls
    exact parseFrames_stalls (hiter ▸ hstalls) _ _ _
  · rename_i hstalls
    rw [parseFrames_end (by rwa [hiter]) (by rwa [hiter])]
    simp

/-! ## The receive buffer -/

/-- What is read stands behind what has been left. -/
theorem take_receiveAt {n : ℕ} {buf : Buffer n} {rest : List UInt8} (chunk : List UInt8)
    (hrest : buf.bytes.take rest.length = rest) (hfit : rest.length + chunk.length ≤ n) :
    (receiveAt buf rest.length chunk).bytes.take (rest.length + chunk.length) = rest ++ chunk := by
  have hlen : (chunk ++ buf.bytes.drop (rest.length + chunk.length)).length = n - rest.length := by
    rw [List.length_append, List.length_drop, buf.length_eq]
    omega
  rw [receiveAt, Buffer.bytes_setTail _ (by omega) hlen, hrest, ← List.append_assoc]
  exact List.take_left' (by simp)

/-- What is read into an empty buffer stands in front. -/
theorem take_receiveAt_zero {n : ℕ} (buf : Buffer n) {data : List UInt8} (h : data.length ≤ n) :
    (receiveAt buf 0 data).bytes.take data.length = data := by
  simpa using @take_receiveAt n buf [] data rfl (by simpa)

/-- What is left is moved to the front. -/
theorem take_copyToFront {n : ℕ} {buf : Buffer n} {front tail : List UInt8}
    (hbuf : buf.bytes.take (front ++ tail).length = front ++ tail)
    (hfit : (front ++ tail).length ≤ n) :
    (copyToFront buf front.length (front ++ tail).length).bytes.take tail.length = tail := by
  have hlen : ((buf.bytes.take (front ++ tail).length).drop front.length ++
      buf.bytes.drop ((front ++ tail).length - front.length)).length = n - 0 := by
    rw [hbuf, List.drop_left, List.length_append, List.length_drop, buf.length_eq,
      List.length_append] at *
    omega
  rw [copyToFront, Buffer.bytes_setTail _ (Nat.zero_le _) hlen, hbuf]
  simp

/-! ## A read -/

/-- The state after a read, with this receive buffer. -/
def afterRead (s : Conn E R S W maxPacketSize) (rxBuf : Buffer maxPacketSize)
    (later : List (Except E (List UInt8))) : Conn E R S W maxPacketSize :=
  { s with rxBuf, socket := { s.socket with incoming := later } }

section
variable {rest chunk : List UInt8} {later : List (Except E (List UInt8))}

theorem read_chunk (hincoming : s.socket.incoming = .ok chunk :: later) (hne : chunk ≠ [])
    (hfit : rest.length + chunk.length ≤ maxPacketSize) :
    read rest.length s =
      .ok (some chunk.length) (afterRead s (receiveAt s.rxBuf rest.length chunk) later) := by
  have hpos : 0 < chunk.length := List.length_pos_iff.mpr hne
  have htake : chunk.take (maxPacketSize - rest.length) = chunk := List.take_of_length_le (by omega)
  have hdrop : chunk.drop (maxPacketSize - rest.length) = [] := List.drop_of_length_le (by omega)
  rw [read, if_neg (by omega), if_neg (by omega)]
  simp [hincoming, htake, hdrop, afterRead]

/-- A read, up to the loop over the frames. -/
theorem receiveFrames_eq (hrest : s.rxBuf.bytes.take rest.length = rest)
    (hincoming : s.socket.incoming = .ok chunk :: later) (hne : chunk ≠ [])
    (hfit : rest.length + chunk.length ≤ maxPacketSize) :
    receiveFrames rest.length s =
      (do
        let (received, consumed) ← parseFrames ((rest ++ chunk).length + 1) (.new (rest ++ chunk)) [] 0
        let left ← lift (.protocol .invalidResponse) (sub (rest ++ chunk).length consumed)
        if consumed > 0 then
          modify fun s => { s with rxBuf := copyToFront s.rxBuf consumed (rest ++ chunk).length }
        else pure ()
        pure (received, left) : ConnM E R S W maxPacketSize (List Received × ℕ))
          (afterRead s (receiveAt s.rxBuf rest.length chunk) later) := by
  have hpos : 0 < chunk.length := List.length_pos_iff.mpr hne
  have hbuf := take_receiveAt chunk hrest hfit
  have hrange : (range (receiveAt s.rxBuf rest.length chunk).bytes 0 (rest.length + chunk.length) :
      Checked PacketError (List UInt8)) = .ok (rest ++ chunk) := by
    rw [range_of_le (Nat.zero_le _) (by rw [Buffer.length_eq]; exact hfit), List.drop_zero, hbuf]
  rw [receiveFrames, run_bind (read_chunk hincoming hne hfit)]
  dsimp only
  rw [if_neg (by omega)]
  change (lift (.protocol .invalidResponse) (range (receiveAt s.rxBuf rest.length chunk).bytes 0
    (rest.length + chunk.length)) >>= _) _ = _
  rw [hrange, List.length_append]
  rfl

variable {frames : List (List UInt8)} {tail : List UInt8}

/-- **A read** yields the frames that are complete, and leaves the rest in front of the buffer. -/
theorem receiveFrames_chunk (hrest : s.rxBuf.bytes.take rest.length = rest)
    (hincoming : s.socket.incoming = .ok chunk :: later) (hne : chunk ≠ [])
    (hfit : rest.length + chunk.length ≤ maxPacketSize)
    (hsplit : framing.split (rest ++ chunk) = (frames, tail))
    (hdecodes : ∀ f ∈ frames, Decodes s.options.version f) (hstalls : ¬ Stalls tail) :
    ∃ rxBuf : Buffer maxPacketSize, rxBuf.bytes.take tail.length = tail ∧
      receiveFrames rest.length s =
        .ok (receivedFrames s.options.version frames, tail.length) (afterRead s rxBuf later) := by
  have hflat : frames.flatten ++ tail = rest ++ chunk := by
    have hflat := framing.flatten_split (rest ++ chunk)
    rwa [hsplit] at hflat
  have hparse := parseFrames_split
    (s := afterRead s (receiveAt s.rxBuf rest.length chunk) later) hsplit hdecodes
  have hsub : (sub (rest ++ chunk).length frames.flatten.length : Checked PacketError ℕ) =
      .ok tail.length := by
    rw [← hflat, List.length_append, sub_of_le (Nat.le_add_right _ _), Nat.add_sub_cancel_left]
  rw [if_neg hstalls] at hparse
  rw [receiveFrames_eq hrest hincoming hne hfit, run_bind hparse]
  dsimp only
  rw [hsub]
  have hread := take_receiveAt chunk hrest hfit
  have hlen : rest.length + chunk.length = (frames.flatten ++ tail).length := by
    rw [hflat, List.length_append]
  rw [← hflat, hlen] at hread
  rcases Nat.eq_zero_or_pos frames.flatten.length with hzero | hpos
  · refine ⟨receiveAt s.rxBuf rest.length chunk, ?_, ?_⟩
    · rw [List.length_eq_zero_iff.mp hzero, List.nil_append] at hread
      exact hread
    · simp [hzero, lift, afterRead]
      rfl
  · refine ⟨_, take_copyToFront hread (hlen ▸ hfit), ?_⟩
    change (do
      if frames.flatten.length > 0 then
        modify fun s => { s with
          rxBuf := copyToFront s.rxBuf frames.flatten.length (rest ++ chunk).length }
      else pure ()
      pure (_, tail.length) : ConnM E R S W maxPacketSize (List Received × ℕ)) _ = _
    rw [if_pos hpos, hflat]
    rfl

/-- **A read that does not end.** -/
theorem receiveFrames_stalls (hrest : s.rxBuf.bytes.take rest.length = rest)
    (hincoming : s.socket.incoming = .ok chunk :: later) (hne : chunk ≠ [])
    (hfit : rest.length + chunk.length ≤ maxPacketSize)
    (hsplit : framing.split (rest ++ chunk) = (frames, tail))
    (hdecodes : ∀ f ∈ frames, Decodes s.options.version f) (hstalls : Stalls tail) :
    ∃ c, receiveFrames rest.length s = .error .diverge c := by
  have hparse := parseFrames_split
    (s := afterRead s (receiveAt s.rxBuf rest.length chunk) later) hsplit hdecodes
  rw [if_pos hstalls] at hparse
  rw [receiveFrames_eq hrest hincoming hne hfit]
  exact ⟨_, run_bind_error hparse⟩

end

end EventLoop

/-! ## Streams -/

section
variable {E R S W : Type} {maxPacketSize : ℕ} {s t : Conn E R S W maxPacketSize}
  {rest : List UInt8} {chunks : List (List UInt8)}

/-- So much is left in the buffer, this is to come, and it can be decoded. -/
structure Receives (s : Conn E R S W maxPacketSize) (rest : List UInt8) (chunks : List (List UInt8)) :
    Prop where
  rest_eq : s.rxBuf.bytes.take rest.length = rest
  incoming : s.socket.incoming = chunks.map .ok
  readable : Readable maxPacketSize rest chunks
  decodes : ∀ f ∈ (framing.feed rest chunks).1, Decodes s.options.version f

theorem Receives.cons {chunk : List UInt8} (h : Receives s rest (chunk :: chunks)) :
    s.socket.incoming = .ok chunk :: chunks.map .ok ∧ chunk ≠ [] ∧
      rest.length + chunk.length ≤ maxPacketSize ∧
      ∀ f ∈ (framing.split (rest ++ chunk)).1, Decodes s.options.version f :=
  ⟨h.incoming, h.readable.1, h.readable.2.1,
    fun f hf => h.decodes f (by simpa [Framing.feed] using .inl hf)⟩

/-- What is left after a read, and what is still to come. -/
theorem Receives.next {chunk : List UInt8} (h : Receives s rest (chunk :: chunks))
    {rxBuf : Buffer maxPacketSize} (hoptions : t.options = s.options) (hrxBuf : t.rxBuf = rxBuf)
    (hincoming : t.socket.incoming = chunks.map .ok)
    (htail : rxBuf.bytes.take (framing.split (rest ++ chunk)).2.length =
      (framing.split (rest ++ chunk)).2) :
    Receives t (framing.split (rest ++ chunk)).2 chunks := by
  refine ⟨by rw [hrxBuf, htail], hincoming, h.readable.2.2, ?_⟩
  rw [hoptions]
  exact fun f hf => h.decodes f (by simpa [Framing.feed] using .inr hf)

end

end MqttEngine.Tokio
