import MqttEngine.Packet.OwnFrame
import MqttEngine.Tokio.Chunks
import MqttEngine.Tokio.System

/-!
# From the handshake to the connection loop

`perform_connect_handshake` decodes what its one read has returned, and `drive_connection` begins
with an empty buffer. So a CONNACK that comes in two reads is refused, and what comes in one read
with the CONNACK is lost. `handsOver_iff` says that nothing else is lost between the two, if there
is a keep-alive: without one, the timer of `drive_connection` panics before the first read.

That bytes are lost is shown by counting: what `drive_connection` acts on is no longer than what it
has read. It acts on a frame only if it can decode it, and does not go on after a DISCONNECT.

## Main definitions

* `Accepting` — the bytes are read as a CONNACK that accepts the connection.
* `Onward` — nothing has been read, and the transport does not fail.
* `LoopSystem.Drives` — `drive_connection` begins, and acts on every frame.
* `HandsOver` — the handshake succeeds, and every frame after the CONNACK is acted on.

## Main results

* `performConnectHandshake_eq` — what the handshake reads.
* `onward_performSessionDataRecovery` — what happens between the handshake and the loop.
* `ends_driveReads` — no more is acted on than is read, and only what can be decoded.
* `drives_iff` — when every frame is acted on.
* `handsOver_iff` — when nothing is lost.
-/

namespace MqttEngine.Tokio
open Checked Conn EventLoop

/-! ## The handshake -/

/-- These bytes are read as a CONNACK that accepts the connection. -/
def Accepting (version : MqttVersion) (bytes : List UInt8) : Prop :=
  ∃ connack, decode bytes version = .ok (some (.connAck connack)) ∧ connack.reasonCode = 0

theorem size_of_readContentBounds {buf : List UInt8} {start stop : ℕ}
    (h : readContentBounds buf = .ok (start, stop)) : framing.size buf = some stop := by
  obtain ⟨⟨n, pos⟩, hread, h⟩ := bind_eq_ok.mp h
  obtain ⟨-, -, h⟩ := bind_eq_ok.mp h
  cases h
  rw [readVariableByteInteger_eq] at hread
  split at hread
  · rename_i value len hvalue
    cases hread
    cases buf with
    | nil => simp at hvalue
    | cons b tail => exact frameSize_of_read (b := b) hvalue
  · cases hread
  · cases hread

/-- A CONNACK shows where its content ends. -/
theorem bounds_of_connAck {version : MqttVersion} {bytes : List UInt8} {connack : ConnAck}
    (h : decode bytes version = .ok (some (.connAck connack))) :
    ∃ start stop, readContentBounds bytes = .ok (start, stop) := by
  cases bytes with
  | nil => simp [decode] at h
  | cons b tail =>
    obtain ⟨packet, hdecode, heq⟩ := map_eq_ok.mp h
    cases heq
    have hconnAck : ConnAck.decode (b :: tail) version = .ok connack := by
      rw [decodeType] at hdecode
      split at hdecode
      case h_2 =>
        obtain ⟨p, hp, heq⟩ := map_eq_ok.mp hdecode
        cases heq
        exact hp
      case h_12 | h_13 | h_15 => cases hdecode
      all_goals
        obtain ⟨p, -, heq⟩ := map_eq_ok.mp hdecode
        cases heq
    obtain ⟨⟨start, stop⟩, hbounds, -⟩ := bind_eq_ok.mp hconnAck
    exact ⟨start, stop, hbounds⟩

/-- No beginning of a frame is read as a CONNACK. -/
theorem length_le_of_accepting {version : MqttVersion} {frame bytes rest rest' : List UInt8}
    (hframe : framing.IsFrame frame) (h : Accepting version bytes)
    (hsame : bytes ++ rest = frame ++ rest') : frame.length ≤ bytes.length := by
  obtain ⟨connack, hdecode, -⟩ := h
  obtain ⟨start, stop, hbounds⟩ := bounds_of_connAck hdecode
  have hsize := framing.stable rest (size_of_readContentBounds hbounds)
  have hle := (readContentBounds_spec hbounds).2.2
  rw [hsame, framing.stable rest' hframe] at hsize
  cases hsize
  exact hle

section
variable {E R S W : Type} {maxPacketSize : ℕ} {s t c : Conn E R S W maxPacketSize}
  {first : List UInt8} {later : List (Except E (List UInt8))}

/-- Nothing has been read, and the transport does not fail. -/
structure Onward (s t : Conn E R S W maxPacketSize) : Prop where
  options : t.options = s.options
  incoming : t.socket.incoming = s.socket.incoming
  steady : t.socket.Steady

theorem ends_lift {α : Type} (e : ClientError E) (x : Checked PacketError α)
    (s : Conn E R S W maxPacketSize) :
    Ends (lift e x) s (fun a t => x = .ok a ∧ s = t) fun _ _ => True := by
  rcases x with (_ | _ | _) | a
  · trivial
  · trivial
  · trivial
  · exact ⟨rfl, rfl⟩

/-- The handshake once something has been read. -/
def checkAnswer (bytes : List UInt8) : ConnM E R S W maxPacketSize Unit := do
  match ← lift (.protocol .invalidResponse) (decode bytes (← get).options.version) with
  | some (.connAck connack) =>
    if connack.reasonCode = 0 then pure ()
    else fail (.connectionRefused connack.reasonCode)
  | _ => fail (.protocol .invalidResponse)

/-- The handshake decodes what its read returns, and leaves the rest to come. -/
theorem performConnectHandshake_eq (hsteady : s.socket.Steady)
    (hfits : (MqttPacket.connect (connectPacket s.options)).Fits s.options.version maxPacketSize)
    (hincoming : s.socket.incoming = .ok first :: later) (hne : first ≠ [])
    (hle : first.length ≤ maxPacketSize) :
    ∃ c, performConnectHandshake s = checkAnswer first c ∧ c.options = s.options ∧
      c.socket.incoming = later ∧ c.socket.Steady := by
  have hmeasured := (short_connectPacket s.options).measured s.options.version maxPacketSize
  obtain ⟨tx, hencode, htake⟩ := encodeTx_fits (Nat.zero_le _) hfits hmeasured
  rw [Nat.zero_add, List.take_zero, List.nil_append] at htake
  have hlen := le_of_take_eq htake rfl
  let s₁ := s.withTx tx
  let s₂ := s₁.withSocket (s.socket.wrote (tx.bytes.take
    (MqttPacket.wire s.options.version (.connect (connectPacket s.options))).length))
  let s₃ := s₂.withSocket s₂.socket.flushed
  have hsteady₂ : s₂.socket.Steady := hsteady.wrote _
  let c := afterRead s₃ (receiveAt s₃.rxBuf 0 first) later
  have hwrite : writeTx (MqttPacket.wire s.options.version
      (.connect (connectPacket s.options))).length s₁ = .ok () s₂ := by
    rw [writeTx_of_le hlen]
    exact writeAll_of_ok (s := s₁) hsteady.writeOk _
  have hread : EventLoop.read 0 s₃ = .ok (some first.length) c :=
    @read_chunk _ _ _ _ _ s₃ [] first later hincoming hne (by simpa using hle)
  have hrange : (range c.rxBuf.bytes 0 first.length : Checked PacketError (List UInt8)) =
      .ok first := by
    have htake : c.rxBuf.bytes.take first.length = first := take_receiveAt_zero _ hle
    rw [range_of_le (Nat.zero_le _) (by rwa [Buffer.length_eq]), List.drop_zero, htake]
  refine ⟨c, ?_, rfl, rfl, hsteady₂.flushed.writes, hsteady₂.flushed.flushes⟩
  change (encodeTx 0 (.connect (connectPacket s.options)) >>= _) s = _
  rw [run_bind hencode]
  change (writeTx _ >>= _) s₁ = _
  rw [run_bind hwrite, run_bind (flush_of_ok hsteady₂.flushOk), run_bind hread]
  dsimp only
  rw [if_neg (by simpa using hne)]
  change (lift _ (range c.rxBuf.bytes 0 first.length) >>= _) c = _
  rw [hrange]
  rfl

/-- The handshake fails if its CONNECT does not fit. -/
theorem performConnectHandshake_unfit
    (h : ¬ (MqttPacket.connect (connectPacket s.options)).Fits s.options.version maxPacketSize) :
    ∃ e c, performConnectHandshake s = .error e c := by
  obtain ⟨tx, e, hencode, -⟩ := encodeTx_unfit (Nat.zero_le _) (by simp) h
  exact ⟨_, s.withTx tx, run_bind hencode⟩

theorem checkAnswer_of_accepting (h : Accepting s.options.version first) :
    checkAnswer first s = .ok () s := by
  obtain ⟨connack, hdecode, hcode⟩ := h
  change (lift (.protocol .invalidResponse) (decode first s.options.version) >>= _) s = _
  rw [hdecode]
  simp [lift, hcode]
  rfl

theorem ends_checkAnswer (bytes : List UInt8) (s : Conn E R S W maxPacketSize) :
    Ends (checkAnswer bytes) s (fun _ t => Accepting s.options.version bytes ∧ s = t)
      fun _ _ => True := by
  apply Ends.bind
  apply Ends.get
  apply Ends.bind
  apply (ends_lift _ _ s).mono _ fun _ _ _ => trivial
  rintro packet _ ⟨hdecode, rfl⟩
  split
  · rename_i connack
    apply Ends.ite
    · exact fun hcode => ⟨⟨connack, hdecode, hcode⟩, rfl⟩
    · exact fun _ => trivial
  · trivial

/-! ## Bytes that are read -/

/-- The number of bytes that are to come. -/
def incomingBytes (incoming : List (Except E (List UInt8))) : ℕ :=
  (incoming.map fun
    | .ok bytes => bytes.length
    | .error _ => 0).sum

theorem incomingBytes_cons (bytes : List UInt8) (incoming : List (Except E (List UInt8))) :
    incomingBytes (.ok bytes :: incoming) = bytes.length + incomingBytes incoming := by
  simp [incomingBytes]

@[simp] theorem incomingBytes_ok (chunks : List (List UInt8)) :
    incomingBytes (chunks.map .ok : List (Except E (List UInt8))) = chunks.flatten.length := by
  simp [incomingBytes, Function.comp_def]

/-- The number of bytes in these frames. -/
def receivedBytes (received : List Received) : ℕ := (received.map (·.frame.length)).sum

@[simp] theorem receivedBytes_append (received later : List Received) :
    receivedBytes (received ++ later) = receivedBytes received + receivedBytes later := by
  simp [receivedBytes]

/-- The packets are those of the frames. -/
def Decoded (version : MqttVersion) (received : List Received) : Prop :=
  ∀ r ∈ received, decode r.frame version = .ok (some r.packet)

theorem Decoded.append {version : MqttVersion} {received later : List Received}
    (h : Decoded version received) (hlater : Decoded version later) :
    Decoded version (received ++ later) := by
  intro r hr
  rcases List.mem_append.mp hr with hr | hr
  · exact h r hr
  · exact hlater r hr

/-- What has been decoded is told by its frames. -/
theorem Decoded.eq_receivedFrames {version : MqttVersion} {received : List Received}
    (h : Decoded version received) :
    received = receivedFrames version (received.map (·.frame)) := by
  induction received with
  | nil => rfl
  | cons r received ih =>
    have hrest := ih fun r hr => h r (List.mem_cons_of_mem _ hr)
    have hr : receivedFrame version r.frame = [r] := by
      simp [receivedFrame, h r List.mem_cons_self]
    rw [List.map_cons, receivedFrames, List.flatMap_cons, hr]
    exact congrArg (r :: ·) hrest

/-- Frames that can be decoded are all there. -/
theorem map_frame_receivedFrames {version : MqttVersion} {frames : List (List UInt8)}
    (hframes : ∀ f ∈ frames, framing.IsFrame f) (hdecodes : ∀ f ∈ frames, Decodes version f) :
    (receivedFrames version frames).map (·.frame) = frames := by
  induction frames with
  | nil => rfl
  | cons f frames ih =>
    have hrest := ih (fun g hg => hframes g (by simp [hg])) fun g hg => hdecodes g (by simp [hg])
    obtain ⟨packet, hpacket⟩ := hdecodes f (by simp)
    have hpos : 0 < f.length := framing.pos (hframes f (by simp))
    cases packet with
    | none => exact absurd hpacket (decode_ne_none (List.ne_nil_of_length_pos hpos) version)
    | some packet =>
      rw [show f :: frames = [f] ++ frames from rfl, receivedFrames_append, List.map_append, hrest]
      simp [receivedFrames, receivedFrame, hpacket]

theorem ends_read (cursor : ℕ) (s : Conn E R S W maxPacketSize) :
    Ends (EventLoop.read cursor) s
      (fun n t => t.options = s.options ∧
        n.getD 0 + incomingBytes t.socket.incoming ≤ incomingBytes s.socket.incoming)
      fun _ _ => True := by
  rw [Ends, EventLoop.read]
  split_ifs
  · trivial
  · simp
  · dsimp only
    rcases hincoming : s.socket.incoming with _ | ⟨e | segment, later⟩
    · simp [hincoming]
    · trivial
    · have hlen := congrArg List.length (List.take_append_drop (maxPacketSize - cursor) segment)
      rw [List.length_append] at hlen
      dsimp only
      refine ⟨rfl, ?_⟩
      split
      · rename_i hrest
        rw [hrest, List.length_nil] at hlen
        simp only [Option.getD_some, incomingBytes_cons]
        omega
      · simp only [Option.getD_some, incomingBytes_cons]
        omega

theorem ends_parseFrames (fuel : ℕ) (iter : RawPacketFrameIter) {received : List Received}
    (consumed : ℕ) (s : Conn E R S W maxPacketSize) (h : Decoded s.options.version received) :
    Ends (parseFrames fuel iter received consumed) s
      (fun parsed t => s = t ∧ Decoded s.options.version parsed.1 ∧
        receivedBytes parsed.1 + consumed ≤ receivedBytes received + parsed.2)
      fun _ _ => True := by
  induction fuel generalizing iter received consumed with
  | zero => trivial
  | succ fuel ih =>
    apply Ends.bind
    apply (ends_lift _ _ s).mono _ fun _ _ _ => trivial
    rintro ⟨item, iter'⟩ _ ⟨-, rfl⟩
    dsimp only
    split
    · exact ⟨rfl, h, le_rfl⟩
    · exact ih _ _ h
    · rename_i _ frame
      apply Ends.bind
      apply Ends.get
      apply Ends.bind
      apply (ends_lift _ _ _).mono _ fun _ _ _ => trivial
      rintro packet _ ⟨hpacket, rfl⟩
      have hdecoded : Decoded s.options.version
          (packet.toList.map fun packet => ⟨frame, packet⟩) := by
        rintro r hr
        obtain ⟨packet, hmem, rfl⟩ := List.mem_map.mp hr
        rw [Option.mem_toList] at hmem
        rw [hpacket, hmem]
      apply (ih iter' (consumed + frame.length) (h.append hdecoded)).mono _ fun _ _ _ => trivial
      rintro parsed t ⟨ht, hdecoded', hle⟩
      refine ⟨ht, hdecoded', ?_⟩
      cases packet with
      | none =>
        simp only [Option.toList_none, List.map_nil, List.append_nil] at hle
        omega
      | some packet =>
        simp only [Option.toList_some, List.map_cons, List.map_nil, receivedBytes_append] at hle
        rw [show receivedBytes [⟨frame, packet⟩] = frame.length from Nat.add_zero _] at hle
        omega

theorem ends_receiveFrames (rxCursor : ℕ) (s : Conn E R S W maxPacketSize) :
    Ends (receiveFrames rxCursor) s
      (fun parsed t => t.options = s.options ∧ Decoded s.options.version parsed.1 ∧
        receivedBytes parsed.1 + parsed.2 + incomingBytes t.socket.incoming ≤
          rxCursor + incomingBytes s.socket.incoming)
      fun _ _ => True := by
  apply Ends.bind
  apply (ends_read rxCursor s).mono _ fun _ _ _ => trivial
  rintro n t ⟨hoptions, ht⟩
  cases n with
  | none =>
    rw [Option.getD_none, Nat.zero_add] at ht
    exact ⟨hoptions, by simp [Decoded], Nat.add_le_add (Nat.zero_add rxCursor).le ht⟩
  | some n =>
    rw [Option.getD_some] at ht
    apply Ends.ite
    · exact fun _ => trivial
    intro _
    apply Ends.bind
    apply Ends.get
    apply Ends.bind
    apply (ends_lift _ _ _).mono _ fun _ _ _ => trivial
    rintro bytes _ ⟨-, rfl⟩
    apply Ends.bind
    apply (ends_parseFrames _ _ _ _ (by simp [Decoded])).mono _ fun _ _ _ => trivial
    rintro ⟨received, consumed⟩ _ ⟨rfl, hdecoded, hparsed⟩
    apply Ends.bind
    apply (ends_lift _ _ _).mono _ fun _ _ _ => trivial
    rintro left _ ⟨hleft, rfl⟩
    have hle : receivedBytes received + left + incomingBytes t.socket.incoming ≤
        rxCursor + incomingBytes s.socket.incoming := by
      have hsub := sub_eq_ok.mp hleft
      have hnil : receivedBytes [] = 0 := rfl
      dsimp only at hparsed
      omega
    rw [hoptions] at hdecoded
    apply Ends.ite
    · exact fun _ => ⟨hoptions, hdecoded, hle⟩
    · exact fun _ => ⟨hoptions, hdecoded, hle⟩

section
variable [DecidableEq S] (ch : Mpsc W S PublishMessage)

/-- A DISCONNECT ends the connection. -/
theorem not_disconnect_of_forM {received : List Received} {now : ℕ}
    {s t : Conn E R S W maxPacketSize} (h : received.forM (handle ch now) s = .ok () t) :
    ∀ r ∈ received, ∀ d, r.packet ≠ .disconnect d := by
  induction received generalizing s with
  | nil => simp
  | cons r received ih =>
    obtain ⟨_, u, hr, hrest⟩ := ok_of_bind h
    rintro r' hr' d hd
    rcases List.mem_cons.mp hr' with rfl | hr'
    · have hfail : handle ch now r' s = .error (.err .notConnected) s := by
        rw [handle, hd]
        rfl
      cases hr.symm.trans hfail
    · exact ih hrest r' hr' d hd

/-- Acting on frames reads nothing. -/
theorem ends_forM_handle (received : List Received) (now : ℕ) (s : Conn E R S W maxPacketSize) :
    Ends (received.forM (handle ch now)) s
      (fun _ t => t.options = s.options ∧ t.socket.incoming = s.socket.incoming ∧
        ∀ r ∈ received, ∀ d, r.packet ≠ .disconnect d)
      fun _ _ => True := by
  have halike := alike_forM ch received now now (.refl s)
  rw [Ends]
  rcases hrun : received.forM (handle ch now) s with ⟨u, t⟩ | ⟨e, t⟩
  · rw [hrun] at halike
    obtain ⟨-, ⟨hoptions, -, hincoming⟩, -⟩ := halike
    exact ⟨hoptions, hincoming, not_disconnect_of_forM ch hrun⟩
  · trivial

/-- **No more is acted on than is read**, only what can be decoded, and no DISCONNECT. -/
theorem ends_driveReads (nows : List ℕ) (rxCursor : ℕ) (s : Conn E R S W maxPacketSize) :
    Ends (driveReads ch nows rxCursor) s
      (fun parsed t => Decoded s.options.version parsed.1 ∧
        (∀ r ∈ parsed.1, ∀ d, r.packet ≠ .disconnect d) ∧
        receivedBytes parsed.1 + parsed.2 + incomingBytes t.socket.incoming ≤
          rxCursor + incomingBytes s.socket.incoming)
      fun _ _ => True := by
  induction nows generalizing rxCursor s with
  | nil =>
    exact ⟨by simp [Decoded], by simp, Nat.add_le_add (Nat.zero_add rxCursor).le le_rfl⟩
  | cons now nows ih =>
    apply Ends.bind
    apply Ends.bind
    apply (ends_receiveFrames rxCursor s).mono _ fun _ _ _ => trivial
    rintro ⟨received, left⟩ t ⟨hoptions, hdecoded, ht⟩
    apply Ends.bind
    apply (ends_forM_handle ch received now t).mono _ fun _ _ _ => trivial
    rintro _ u ⟨hoptions', hu, hdisconnect⟩
    apply Ends.pure
    apply Ends.bind
    apply (ih left u).mono _ fun _ _ _ => trivial
    rintro ⟨later, left'⟩ v ⟨hdecoded', hdisconnect', hv⟩
    apply Ends.pure
    rw [hoptions', hoptions] at hdecoded'
    rw [hu] at hv
    refine ⟨hdecoded.append hdecoded', ?_, ?_⟩
    · intro r hr
      rcases List.mem_append.mp hr with hr | hr
      · exact hdisconnect r hr
      · exact hdisconnect' r hr
    · rw [receivedBytes_append]
      dsimp only at ht hv ⊢
      omega

end

/-! ## Between the handshake and the loop -/

variable {s₀ : Conn E R S W maxPacketSize}

theorem Onward.withTx (h : Onward s₀ s) (tx : Buffer maxPacketSize) : Onward s₀ (s.withTx tx) :=
  ⟨h.options, h.incoming, h.steady⟩

theorem onward_encodeTx (cursor : ℕ) (p : MqttPacket) :
    Preserves (Onward s₀) (encodeTx cursor p) := by
  intro s hs
  by_cases hc : cursor ≤ maxPacketSize
  · obtain ⟨tx, r, hok, -⟩ := encodeTx_spec (s := s) hc p
    rw [Ends, hok]
    exact hs.withTx tx
  · rw [Ends, encodeTx, if_neg hc]
    exact hs

theorem onward_writeTx (len : ℕ) : Preserves (Onward s₀) (writeTx len) := by
  apply Preserves.get_bind
  intro s _
  apply Preserves.bind (preserves_lift _ _ _)
  intro bytes s hs
  rw [Ends, writeAll_of_ok hs.steady.writeOk]
  exact ⟨hs.options, hs.incoming, hs.steady.wrote bytes⟩

theorem onward_flush : Preserves (Onward s₀) flush := by
  intro s hs
  rw [Ends, flush_of_ok hs.steady.flushOk]
  exact ⟨hs.options, hs.incoming, hs.steady.flushed⟩

theorem onward_sendPacket (p : MqttPacket) (now : ℕ) :
    Preserves (Onward s₀) (sendPacket p now) := by
  apply Preserves.bind (onward_encodeTx 0 p)
  intro r
  apply Preserves.bind (preserves_lift _ _ _)
  intro len
  apply Preserves.bind (onward_writeTx len)
  intro _
  apply Preserves.bind onward_flush
  intro _
  exact Preserves.modify fun _ hs => ⟨hs.options, hs.incoming, hs.steady⟩

theorem onward_tryWritePacket (p : MqttPacket) : Preserves (Onward s₀) (tryWritePacket p) := by
  apply Preserves.bind (onward_encodeTx 0 p)
  rintro ((e | _ | _) | len)
  · exact Preserves.pure _
  · exact preserves_lift _ _ _
  · exact preserves_lift _ _ _
  · exact preserves_ignore (onward_writeTx len)

theorem onward_sendPublishDirect (message : PublishMessage) (ackSender : Option R) (now : ℕ) :
    Preserves (Onward s₀) (sendPublishDirect message ackSender now) := by
  intro s hs
  have hpublished : Onward s₀ (published s message ackSender) := by
    refine ⟨?_, ?_, ?_⟩
    · rw [options_published, hs.options]
    · rw [socket_published, hs.incoming]
    · rw [socket_published]
      exact hs.steady
  rw [Ends, sendPublishDirect_eq]
  exact onward_sendPacket _ now _ hpublished

/-- **The recovery of the session** reads nothing. -/
theorem onward_performSessionDataRecovery (order : HashOrder) (now : ℕ) :
    Preserves (Onward s₀) (performSessionDataRecovery order now) := by
  apply preserves_performSessionDataRecovery
  · exact fun _ _ _ _ _ => onward_tryWritePacket _
  · exact onward_flush
  · intro _ _ e _
    have hnext : Preserves (Onward s₀) (getNextPacketId : ConnM E R S W maxPacketSize UInt16) :=
      fun _ hs => ⟨hs.options, hs.incoming, hs.steady⟩
    exact Preserves.bind hnext fun pid => onward_tryWritePacket _
  · intro s _
    exact preserves_flushOfflineQueue (fun _ _ _ hs => ⟨hs.options, hs.incoming, hs.steady⟩)
      fun message _ => onward_sendPublishDirect message none now

/-! ## Nothing is lost -/

section
variable [DecidableEq S] (ch : Mpsc W S PublishMessage) (order : HashOrder)

/-- `drive_connection` begins, its reads act on every frame as they should, one after the other, and
nothing is left. -/
def LoopSystem.Drives (frames : List (List UInt8)) (nows : List ℕ)
    (self : LoopSystem E R S W maxPacketSize) : Prop :=
  ∃ t socket rxCursor received c, self.step ch order .enter = some t ∧
    t.phase = .driving socket rxCursor [] ∧
    driveReads ch nows rxCursor { t.loop with socket } = .ok (received, 0) c ∧
    received.map (·.frame) = frames ∧
    c.seen = (received.foldl (acted ch answered) { t.loop with socket }).seen

/-- The handshake succeeds, and then `drive_connection` acts on every frame, whatever has been done
in between without a read. -/
def HandsOver (frames : List (List UInt8)) (nows : List ℕ) (s : Conn E R S W maxPacketSize) :
    Prop :=
  ∃ c, performConnectHandshake s = .ok () c ∧
    ∀ (t : LoopSystem E R S W maxPacketSize) (socket : Socket E), t.phase = .idle →
      t.loop.transport = some socket → Onward c { t.loop with socket } →
      t.Drives ch order frames nows

variable {ch order} {connack first : List UInt8} {later frames : List (List UInt8)}
  {nows : List ℕ} {t : LoopSystem E R S W maxPacketSize} {socket : Socket E}

/-- The connection on which `drive_connection` begins. -/
def entered (loop : EventLoop E R S W maxPacketSize) (socket : Socket E) :
    Conn E R S W maxPacketSize :=
  { loop with transport := none, socket }

/-- The frames are acted on only if the timer has a period, and from an empty buffer. -/
theorem drives_cases (hidle : t.phase = .idle) (hsocket : t.loop.transport = some socket) :
    t.Drives ch order frames nows ↔
      t.loop.options.keepAlive ≠ 0 ∧ ∃ received c,
        driveReads ch nows 0 (entered t.loop socket) = .ok (received, 0) c ∧
        received.map (·.frame) = frames ∧
        c.seen = (received.foldl (acted ch answered) (entered t.loop socket)).seen := by
  constructor
  · rintro ⟨u, socket', rxCursor, received, c, henter, hphase, hrun, hframes, hseen⟩
    have hkeepAlive := LoopSystem.keepAlive_of_enter henter
    obtain ⟨-, socket'', hsocket', rfl⟩ := LoopSystem.step_enter henter
    cases hsocket.symm.trans hsocket'
    cases hphase
    exact ⟨hkeepAlive, received, c, hrun, hframes, hseen⟩
  · rintro ⟨hkeepAlive, received, c, hrun, hframes, hseen⟩
    let u : LoopSystem E R S W maxPacketSize := { t with
      loop := { t.loop with transport := none }, phase := .driving socket 0 [] }
    refine ⟨u, socket, 0, received, c, ?_, rfl, hrun, hframes, hseen⟩
    simp [LoopSystem.step, hidle, hsocket, hkeepAlive, u]

/-- **Frames that come alone** are all acted on if and only if the timer has a period, they can be
decoded and none of them is a DISCONNECT, no read leaves a length field that is not complete, and
the PUBACKs fit. -/
theorem drives_iff (hidle : t.phase = .idle) (hsocket : t.loop.transport = some socket)
    (hsteady : socket.Steady) (hframes : ∀ f ∈ frames, framing.IsFrame f)
    (hcut : later.flatten = frames.flatten) (hreadable : Readable maxPacketSize [] later)
    (hincoming : socket.incoming = later.map .ok) (hlen : nows.length = later.length) :
    t.Drives ch order frames nows ↔
      t.loop.options.keepAlive ≠ 0 ∧ (∀ f ∈ frames, Decodes t.loop.options.version f) ∧
      (∀ r ∈ receivedFrames t.loop.options.version frames, ∀ d, r.packet ≠ .disconnect d) ∧
      Clear later ∧
      ∀ r ∈ receivedFrames t.loop.options.version frames, ∀ packetId ∈ answered r,
        (pubAckPacket packetId).Fits t.loop.options.version maxPacketSize := by
  have hprocesses (hdecodes : ∀ f ∈ frames, Decodes t.loop.options.version f)
      (hdisconnect : ∀ r ∈ receivedFrames t.loop.options.version frames, ∀ d,
        r.packet ≠ .disconnect d) : Processes ch frames nows (entered t.loop socket) ↔ _ :=
    processes_iff (s := entered t.loop socket) hframes hdecodes hdisconnect hcut hreadable hincoming
      hlen
  rw [drives_cases hidle hsocket]
  constructor
  · rintro ⟨hkeepAlive, received, c, hrun, rfl, hseen⟩
    obtain ⟨hdecoded, hdisconnect, -⟩ := (ends_driveReads ch nows 0 _).ok_of hrun
    change Decoded t.loop.options.version received at hdecoded
    have hdecodes : ∀ f ∈ received.map (·.frame), Decodes t.loop.options.version f := by
      rintro f hf
      obtain ⟨r, hr, rfl⟩ := List.mem_map.mp hf
      exact ⟨_, hdecoded r hr⟩
    rw [hdecoded.eq_receivedFrames] at hrun hseen hdisconnect
    obtain ⟨hclear, hacks, -⟩ := (hprocesses hdecodes hdisconnect).mp ⟨c, hrun, hseen⟩
    exact ⟨hkeepAlive, hdecodes, hdisconnect, hclear, hacks⟩
  · rintro ⟨hkeepAlive, hdecodes, hdisconnect, hclear, hacks⟩
    obtain ⟨c, hrun, hseen⟩ :=
      (hprocesses hdecodes hdisconnect).mpr ⟨hclear, hacks, hsteady.holds _⟩
    exact ⟨hkeepAlive, _, c, hrun, map_frame_receivedFrames hframes hdecodes, hseen⟩

/-- All frames are acted on only if all of their bytes are still to come. -/
theorem length_le_of_drives (hidle : t.phase = .idle) (hsocket : t.loop.transport = some socket)
    (hincoming : socket.incoming = later.map .ok) (h : t.Drives ch order frames nows) :
    frames.flatten.length ≤ later.flatten.length := by
  obtain ⟨-, received, c, hrun, rfl, -⟩ := (drives_cases hidle hsocket).mp h
  obtain ⟨-, -, hcount⟩ := (ends_driveReads ch nows 0 _).ok_of hrun
  have hbytes : receivedBytes received = (received.map (·.frame)).flatten.length := by
    simp [receivedBytes, Function.comp_def]
  change receivedBytes received + 0 + _ ≤ 0 + incomingBytes socket.incoming at hcount
  rw [hincoming, incomingBytes_ok, hbytes] at hcount
  omega

/-- **A CONNACK and the frames after it, however they are cut into reads: nothing is lost between
the handshake and the connection loop if and only if the CONNACK comes alone in the first read, the
frames can be decoded and none of them is a DISCONNECT, no later read leaves a length field that is
not complete, the CONNECT and the PUBACKs fit, and there is a keep-alive.** -/
theorem handsOver_iff (hsteady : s.socket.Steady) (hconnack : framing.IsFrame connack)
    (haccepting : Accepting s.options.version connack)
    (hframes : ∀ f ∈ frames, framing.IsFrame f)
    (hcut : (first :: later).flatten = (connack :: frames).flatten)
    (hne : first ≠ []) (hle : first.length ≤ maxPacketSize)
    (hreadable : first = connack → Readable maxPacketSize [] later)
    (hincoming : s.socket.incoming = (first :: later).map .ok) (hlen : nows.length = later.length) :
    HandsOver ch order frames nows s ↔
      first = connack ∧ s.options.keepAlive ≠ 0 ∧
      (∀ f ∈ frames, Decodes s.options.version f) ∧
      (∀ r ∈ receivedFrames s.options.version frames, ∀ d, r.packet ≠ .disconnect d) ∧
      Clear later ∧
      (∀ r ∈ receivedFrames s.options.version frames, ∀ packetId ∈ answered r,
        (pubAckPacket packetId).Fits s.options.version maxPacketSize) ∧
      (MqttPacket.connect (connectPacket s.options)).Fits s.options.version maxPacketSize := by
  rw [List.flatten_cons, List.flatten_cons] at hcut
  constructor
  · rintro ⟨c, hrun, hdrives⟩
    have hfits : (MqttPacket.connect (connectPacket s.options)).Fits s.options.version
        maxPacketSize := by
      by_contra hunfit
      obtain ⟨e, c', herror⟩ := performConnectHandshake_unfit hunfit
      rw [hrun] at herror
      cases herror
    obtain ⟨c', hanswer, hoptions, hlater, hsteady'⟩ :=
      performConnectHandshake_eq hsteady hfits hincoming hne hle
    rw [hanswer] at hrun
    obtain ⟨haccepts, rfl⟩ := (ends_checkAnswer first c').ok_of hrun
    rw [hoptions] at haccepts
    -- `drive_connection` is called at once.
    let t : LoopSystem E R S W maxPacketSize :=
      { loop := { c'.toEventLoop with transport := some c'.socket }, phase := .idle, dropped := [] }
    have hdrives' : t.Drives ch order frames nows :=
      hdrives t c'.socket rfl rfl ⟨rfl, rfl, hsteady'⟩
    -- The first read has at least the CONNACK, and the later ones have all of the frames.
    have hlong := length_le_of_accepting hconnack haccepts hcut
    have hcount := length_le_of_drives (t := t) rfl rfl hlater hdrives'
    have hsame := congrArg List.length hcut
    rw [List.length_append, List.length_append] at hsame
    obtain ⟨hfirst, hrest⟩ := List.append_inj hcut (by omega)
    obtain ⟨hkeepAlive, hdecodes, hdisconnect, hclear, hacks⟩ :=
      (drives_iff rfl rfl hsteady' hframes hrest (hreadable hfirst) hlater hlen).mp hdrives'
    change c'.options.keepAlive ≠ 0 at hkeepAlive
    change ∀ f ∈ frames, Decodes c'.options.version f at hdecodes
    rw [hoptions] at hkeepAlive hdecodes
    rw [show t.loop.options = s.options from hoptions] at hdisconnect hacks
    exact ⟨hfirst, hkeepAlive, hdecodes, hdisconnect, hclear, hacks, hfits⟩
  · rintro ⟨rfl, hkeepAlive, hdecodes, hdisconnect, hclear, hacks, hfits⟩
    obtain ⟨c, hanswer, hoptions, hlater, hsteady'⟩ :=
      performConnectHandshake_eq hsteady hfits hincoming hne hle
    refine ⟨c, ?_, fun t socket hidle hsocket ht => ?_⟩
    · rw [hanswer]
      exact checkAnswer_of_accepting (by rwa [hoptions])
    · have hsame : t.loop.options = s.options := ht.options.trans hoptions
      apply (drives_iff hidle hsocket ht.steady hframes (List.append_cancel_left hcut)
        (hreadable rfl) (ht.incoming.trans hlater) hlen).mpr
      rw [hsame]
      exact ⟨hkeepAlive, hdecodes, hdisconnect, hclear, hacks⟩

end

end

/-! ## A CONNACK and a PUBLISH -/

/-- A CONNACK that accepts the connection. -/
def connAckFrame : List UInt8 := [0x20, 2, 0, 0]

/-- A PUBLISH at QoS 0. -/
def publishFrame : List UInt8 := [0x30, 3, 0, 1, 97]

theorem isFrame_publishFrame : framing.IsFrame publishFrame := by decide

theorem decode_publishFrame :
    decode publishFrame .v3_1_1 = .ok (some (.publish (Publish.new "a" [] .atMostOnce))) := by
  decide +kernel

theorem receivedFrames_publishFrame : receivedFrames .v3_1_1 [publishFrame] =
    [⟨publishFrame, .publish (Publish.new "a" [] .atMostOnce)⟩] := by
  simp [receivedFrames, receivedFrame, decode_publishFrame]

/-- The PUBLISH comes in a read of its own, and is acted on. -/
theorem handsOver_apart : HandsOver (.queues ℕ PublishMessage) LoopSystem.listed [publishFrame] [0]
    (reading [connAckFrame, publishFrame]) := by
  have hversion : (reading [connAckFrame, publishFrame]).options.version = .v3_1_1 := rfl
  have hsplit : framing.split publishFrame = ([publishFrame], []) :=
    Framing.split_of_isFrame isFrame_publishFrame
  have hcut : [connAckFrame, publishFrame].flatten = [connAckFrame, publishFrame].flatten := rfl
  refine (handsOver_iff (Socket.steady_sending _) (by decide)
    ⟨⟨false, 0, .empty⟩, by decide +kernel, rfl⟩ (by simpa using isFrame_publishFrame) hcut
    (by decide) (by decide) ?_ rfl rfl).mpr ⟨rfl, by decide, ?_, ?_, ?_, ?_, ?_⟩
  · exact fun _ => ⟨by decide, by decide, trivial⟩
  · simpa [hversion] using ⟨_, decode_publishFrame⟩
  · simp [hversion, receivedFrames_publishFrame]
  · rintro (_ | ⟨chunk, before⟩) chunk' after hcut
    · cases hcut
      rw [List.nil_append, Framing.feed, Framing.feed, List.nil_append, hsplit]
      decide
    · simp at hcut
  · simp [hversion, receivedFrames_publishFrame, answered, Publish.new]
  · decide +kernel

/-- A CONNACK that comes in two reads is refused, and a PUBLISH that comes with the CONNACK is
lost. -/
theorem not_handsOver :
    ¬ HandsOver (.queues ℕ PublishMessage) LoopSystem.listed [] [0]
        (reading [[0x20, 2, 0], [0]]) ∧
      ¬ HandsOver (.queues ℕ PublishMessage) LoopSystem.listed [publishFrame] []
        (reading [connAckFrame ++ publishFrame]) := by
  constructor
  · rintro ⟨c, hrun, -⟩
    have hend : (match performConnectHandshake (reading [[0x20, 2, 0], [0]]) with
        | .ok _ _ => true
        | .error _ _ => false) = false := by decide +kernel
    rw [hrun] at hend
    cases hend
  · rintro ⟨c, hrun, hdrives⟩
    have hincoming : (reading [connAckFrame ++ publishFrame]).socket.incoming =
        [.ok (connAckFrame ++ publishFrame)] := rfl
    obtain ⟨c', hanswer, -, hlater, hsteady⟩ := performConnectHandshake_eq
      (Socket.steady_sending _) (by decide +kernel) hincoming (by decide) (by decide)
    rw [hanswer] at hrun
    obtain ⟨-, rfl⟩ := (ends_checkAnswer _ _).ok_of hrun
    have hdrives' := hdrives
      { loop := { c'.toEventLoop with transport := some c'.socket }, phase := .idle, dropped := [] }
      c'.socket rfl rfl ⟨rfl, rfl, hsteady⟩
    have hnone : c'.socket.incoming = ([] : List (List UInt8)).map .ok := hlater
    have hcount := length_le_of_drives rfl rfl hnone hdrives'
    simp [publishFrame] at hcount

end MqttEngine.Tokio
