import MqttEngine.Tokio.Acting
import MqttEngine.Tokio.Reading

/-!
# Streams that arrive in reads

How the socket cuts a stream of frames into reads should not matter: frame after frame is acted on
as if all of them had come in one read. The framing takes care of this wherever a read ends, but a
read that ends within a length field makes the loop over the frames endless. `processes_iff` says
that nothing else goes wrong, as long as the PUBACKs fit and the transport does not fail.

## Main definitions

* `driveReads` — one read after the other.
* `Unread` — the same, up to what has been received and the stamp of the last write.
* `Processes` — every frame is acted on as it should be.
* `Clear` — no read ends within a length field.

## Main results

* `agree_handle` — what is done with a frame does not depend on what has been received.
* `alike_driveReads`, `diverges_driveReads` — the reads, and all frames in one go.
* `processes_iff` — when the reads do not matter.
-/

namespace MqttEngine.Tokio
open Checked Conn EventLoop

section
variable {E R S W : Type} {maxPacketSize : ℕ}

/-! ## What acting on a frame does not depend on -/

/-- The same, up to what has been received and the stamp of the last write. -/
def Unread (s t : Conn E R S W maxPacketSize) : Prop :=
  ∃ rxBuf lastTx incoming, t = { s with rxBuf, lastTx, socket := { s.socket with incoming } }

theorem Unread.refl (s : Conn E R S W maxPacketSize) : Unread s s := ⟨_, _, _, rfl⟩

theorem Unread.options {s t : Conn E R S W maxPacketSize} (h : Unread s t) : t.options = s.options := by
  obtain ⟨_, _, _, rfl⟩ := h
  rfl

theorem Unread.seen {s t : Conn E R S W maxPacketSize} (h : Unread s t) : s.seen = t.seen := by
  obtain ⟨_, _, _, rfl⟩ := h
  rfl

/-- They are the same up to what has been received, and the first one has been started in `s₀`. -/
def Beside (s₀ s t : Conn E R S W maxPacketSize) : Prop :=
  (s.options = s₀.options ∧ s.rxBuf = s₀.rxBuf ∧ s.socket.incoming = s₀.socket.incoming) ∧ Unread s t

theorem beside_self {s t : Conn E R S W maxPacketSize} (h : Unread s t) : Beside s s t :=
  ⟨⟨rfl, rfl, rfl⟩, h⟩

variable {s₀ : Conn E R S W maxPacketSize}

theorem agree_encodeTx (cursor : ℕ) (p : MqttPacket) :
    Agree (Beside s₀) (encodeTx cursor p : ConnM E R S W maxPacketSize _) (encodeTx cursor p) := by
  rintro s _ ⟨hs, rxBuf, lastTx, incoming, rfl⟩
  simp only [encodeTx]
  split
  · split <;> exact ⟨rfl, hs, _, _, _, rfl⟩
  · exact ⟨rfl, hs, _, _, _, rfl⟩

theorem agree_writeAll (bytes : List UInt8) :
    Agree (Beside s₀) (writeAll bytes : ConnM E R S W maxPacketSize Unit) (writeAll bytes) := by
  rintro s _ ⟨hs, rxBuf, lastTx, incoming, rfl⟩
  simp only [writeAll]
  rcases s.socket.writeResults with _ | ⟨_ | ⟨n, e⟩, later⟩ <;> exact ⟨rfl, hs, _, _, _, rfl⟩

theorem agree_flush : Agree (Beside s₀) (flush : ConnM E R S W maxPacketSize Unit) flush := by
  rintro s _ ⟨hs, rxBuf, lastTx, incoming, rfl⟩
  simp only [flush]
  rcases hresults : s.socket.flushResults with _ | ⟨_ | e, later⟩
  · exact ⟨rfl, hs, rxBuf, lastTx, incoming, by simp [hresults]⟩
  · exact ⟨rfl, hs, _, _, _, rfl⟩
  · exact ⟨rfl, hs, _, _, _, rfl⟩

theorem agree_lift {α : Type} (e : ClientError E) (x : Checked PacketError α) :
    Agree (Beside s₀) (lift e x : ConnM E R S W maxPacketSize α) (lift e x) := by
  rcases x with (e' | _ | _) | a
  · exact .throw _
  · exact .throw _
  · exact .throw _
  · exact .pure a

theorem agree_writeTx (len : ℕ) :
    Agree (Beside s₀) (writeTx len : ConnM E R S W maxPacketSize Unit) (writeTx len) := by
  rintro s _ ⟨hs, rxBuf, lastTx, incoming, rfl⟩
  exact Agree.bind (agree_lift _ (range s.txBuf.bytes 0 len)) agree_writeAll _ _ ⟨hs, _, _, _, rfl⟩

/-- The stamp may be another one. -/
theorem agree_setLastTx (now now' : ℕ) :
    Agree (Beside s₀) (setLastTx now : ConnM E R S W maxPacketSize Unit) (setLastTx now') := by
  apply Agree.modify
  rintro s _ ⟨hs, rxBuf, lastTx, incoming, rfl⟩
  exact ⟨hs, _, _, _, rfl⟩

theorem agree_acknowledgePublish (message : PublishMessage) (now now' : ℕ) :
    Agree (Beside s₀) (acknowledgePublish message now : ConnM E R S W maxPacketSize Unit)
      (acknowledgePublish message now') := by
  rw [acknowledgePublish.eq_def, acknowledgePublish.eq_def]
  split
  · apply Agree.bind (agree_encodeTx 0 _)
    rintro ((e | _ | _) | len)
    · exact .pure _
    · exact agree_lift _ _
    · exact agree_lift _ _
    · exact Agree.bind (agree_writeTx len) fun _ => Agree.bind agree_flush fun _ =>
        agree_setLastTx now now'
  · exact .pure _

/-- **What is done with a frame** depends neither on what has been received nor on the time. -/
theorem agree_handle [DecidableEq S] (ch : Mpsc W S PublishMessage) (received : Received)
    (now now' : ℕ) :
    Agree (Beside s₀) (handle ch now received : ConnM E R S W maxPacketSize Unit)
      (handle ch now' received) := by
  unfold handle
  split
  · rename_i action _
    cases action with
    | publish message =>
      apply Agree.bind (agree_acknowledgePublish message now now')
      intro _
      apply Agree.modify
      rintro s _ ⟨hs, rxBuf, lastTx, incoming, rfl⟩
      exact ⟨hs, _, _, _, rfl⟩
    | pubAck packetId =>
      rintro s _ ⟨hs, rxBuf, lastTx, incoming, rfl⟩
      rw [performAction_pubAck, performAction_pubAck]
      exact ⟨rfl, hs, _, _, _, rfl⟩
    | subAck packetId =>
      rintro s _ ⟨hs, rxBuf, lastTx, incoming, rfl⟩
      rw [performAction_subAck, performAction_subAck]
      exact ⟨rfl, hs, _, _, _, rfl⟩
    | unsubAck packetId =>
      rintro s _ ⟨hs, rxBuf, lastTx, incoming, rfl⟩
      rw [performAction_unsubAck, performAction_unsubAck]
      exact ⟨rfl, hs, _, _, _, rfl⟩
    | pingResp => exact .pure _
    | disconnect => exact .throw _
  · exact .pure _

/-! ## Reads -/

variable [DecidableEq S] (ch : Mpsc W S PublishMessage)

namespace EventLoop

/-- One read after the other, at these instants: what has been acted on, and how many bytes are
left. -/
def driveReads : List ℕ → ℕ → ConnM E R S W maxPacketSize (List Received × ℕ)
  | [], rxCursor => pure ([], rxCursor)
  | now :: nows, rxCursor => do
    let (received, rxCursor) ← driveRead ch rxCursor now
    let (later, left) ← driveReads nows rxCursor
    pure (received ++ later, left)

/-- Frame after frame is acted on, and so many bytes are left. -/
def handleAll (received : List Received) (left now : ℕ) :
    ConnM E R S W maxPacketSize (List Received × ℕ) := do
  received.forM (handle ch now)
  pure (received, left)

end EventLoop

/-- The frames have been acted on, and the connection is still there. -/
def Survives (received : List Received) (now : ℕ) (s : Conn E R S W maxPacketSize) : Prop :=
  ∃ c, received.forM (handle ch now) s = .ok () c

/-- No read ends within a length field, unless the connection has been lost before. -/
def NeverStalls (now : ℕ) (s : Conn E R S W maxPacketSize) (rest : List UInt8)
    (chunks : List (List UInt8)) : Prop :=
  ∀ before chunk after, chunks = before ++ chunk :: after →
    Stalls (framing.feed rest (before ++ [chunk])).2 →
      ¬ Survives ch (receivedFrames s.options.version (framing.feed rest before).1) now s

variable {s t : Conn E R S W maxPacketSize} {rest : List UInt8} {chunks : List (List UInt8)}

/-- How the frames are acted on depends neither on what has been received nor on the time. -/
theorem alike_forM (received : List Received) (now now' : ℕ) (h : Unread s t) :
    Alike (Beside s) (received.forM (handle ch now) s) (received.forM (handle ch now') t) :=
  Agree.forM (fun received => agree_handle ch received now now') received s t (beside_self h)

/-- A read on whose rest the loop does not end. -/
theorem driveReads_stalls {chunk : List UInt8} (h : Receives s rest (chunk :: chunks))
    (hstalls : Stalls (framing.split (rest ++ chunk)).2) (now : ℕ) (nows : List ℕ) :
    ∃ c, driveReads ch (now :: nows) rest.length s = .error .diverge c := by
  obtain ⟨hincoming, hne, hfit, hdecodes⟩ := h.cons
  obtain ⟨c, hrun⟩ := receiveFrames_stalls h.rest_eq hincoming hne hfit rfl hdecodes hstalls
  exact ⟨c, run_bind_error (run_bind_error hrun)⟩

/-- A read, and the reads after it. -/
theorem driveReads_cons {chunk : List UInt8} (h : Receives s rest (chunk :: chunks))
    (hstalls : ¬ Stalls (framing.split (rest ++ chunk)).2) (now : ℕ) (nows : List ℕ) :
    ∃ rxBuf : Buffer maxPacketSize,
      rxBuf.bytes.take (framing.split (rest ++ chunk)).2.length = (framing.split (rest ++ chunk)).2 ∧
      driveReads ch (now :: nows) rest.length s =
        (do
          (receivedFrames s.options.version (framing.split (rest ++ chunk)).1).forM (handle ch now)
          let (later, left) ← driveReads ch nows (framing.split (rest ++ chunk)).2.length
          pure (receivedFrames s.options.version (framing.split (rest ++ chunk)).1 ++ later, left))
            (afterRead s rxBuf (chunks.map .ok)) := by
  obtain ⟨hincoming, hne, hfit, hdecodes⟩ := h.cons
  obtain ⟨rxBuf, htail, hrun⟩ := receiveFrames_chunk h.rest_eq hincoming hne hfit rfl hdecodes hstalls
  refine ⟨rxBuf, htail, ?_⟩
  rw [driveReads, driveRead, bind_assoc, run_bind hrun]
  simp only [bind_assoc, pure_bind]

/-! ## All reads -/

variable {ch}

/-- The condition after the first read. -/
theorem NeverStalls.next {chunk : List UInt8} {now : ℕ} {received : List Received}
    (h : NeverStalls ch now s rest (chunk :: chunks))
    (hreceived : received = receivedFrames s.options.version (framing.split (rest ++ chunk)).1)
    (hoptions : t.options = s.options) (hrun : received.forM (handle ch now) s = .ok () t) :
    NeverStalls ch now t (framing.split (rest ++ chunk)).2 chunks := by
  rintro before chunk' after rfl hstalls ⟨c, hc⟩
  apply h (chunk :: before) chunk' after rfl hstalls
  refine ⟨c, ?_⟩
  rw [hoptions] at hc
  rw [List.forM_eq_forM] at *
  rw [Framing.feed, receivedFrames_append, ← hreceived, List.forM_append]
  exact (run_bind hrun).trans hc

/-- The first frames have been acted on if all have been. -/
theorem Survives.of_append {received later : List Received} {now : ℕ}
    (h : Survives ch (received ++ later) now s) : Survives ch received now s := by
  obtain ⟨c, hc⟩ := h
  rw [List.forM_eq_forM, List.forM_append] at hc
  rcases hrun : forM received (handle ch now) s with ⟨⟨⟩, t⟩ | ⟨e, t⟩
  · exact ⟨t, hrun⟩
  · rw [run_bind_error hrun] at hc
    cases hc

theorem handleAll_append (received later : List Received) (left now : ℕ) :
    handleAll ch (received ++ later) left now =
      (do
        received.forM (handle ch now)
        let (later, left) ← handleAll ch later left now
        pure (received ++ later, left) : ConnM E R S W maxPacketSize (List Received × ℕ)) := by
  simp [handleAll, List.forM_eq_forM, List.forM_append]

/-- If no read stalls, the frames are acted on as if they had come in one read. -/
theorem alike_driveReads {nows : List ℕ} {now : ℕ} (h : Receives s rest chunks) (ht : Unread s t)
    (hnever : NeverStalls ch now t rest chunks) (hlen : nows.length = chunks.length) :
    Alike Unread (driveReads ch nows rest.length s)
      (handleAll ch (receivedFrames s.options.version (framing.feed rest chunks).1)
        (framing.feed rest chunks).2.length now t) := by
  induction chunks generalizing nows rest s t with
  | nil =>
    obtain rfl := List.length_eq_zero_iff.mp hlen
    exact ⟨rfl, ht⟩
  | cons chunk chunks ih =>
    obtain ⟨now', nows, rfl⟩ := List.exists_cons_of_length_eq_add_one hlen
    have hstalls : ¬ Stalls (framing.split (rest ++ chunk)).2 :=
      fun hstalls => hnever [] chunk chunks rfl (by simpa [Framing.feed] using hstalls) ⟨t, rfl⟩
    obtain ⟨rxBuf, htail, hrun⟩ := driveReads_cons ch h hstalls now' nows
    have ht' : Unread (afterRead s rxBuf (chunks.map .ok)) t := by
      obtain ⟨_, _, _, rfl⟩ := ht
      exact ⟨_, _, _, rfl⟩
    have hoptions : t.options = s.options := ht.options
    rw [hrun, Framing.feed, receivedFrames_append, handleAll_append]
    apply Agree.bind_alike (alike_forM ch _ now' now ht') (fun _ _ h => h.2)
    rintro ⟨⟩ s' t' - hrun' ⟨⟨hs', hrx, hincoming⟩, hunread⟩
    have hnext : Receives s' (framing.split (rest ++ chunk)).2 chunks :=
      h.next hs' hrx hincoming htail
    have hnever' : NeverStalls ch now t' (framing.split (rest ++ chunk)).2 chunks :=
      hnever.next (by rw [hoptions]) (hunread.options.trans (hs'.trans hoptions.symm)) hrun'
    have hrest := ih hnext hunread hnever' (by simpa using hlen)
    rw [show s'.options = s.options from hs'] at hrest
    exact Agree.bind_alike hrest (fun _ _ h => h) fun _ _ _ _ _ h => ⟨rfl, h⟩

/-- If a read stalls while the connection is there, the reads do not end. -/
theorem diverges_driveReads {nows : List ℕ} {now : ℕ} {before after : List (List UInt8)}
    {chunk : List UInt8} (h : Receives s rest (before ++ chunk :: after)) (ht : Unread s t)
    (hstalls : Stalls (framing.feed rest (before ++ [chunk])).2)
    (hsurvives : Survives ch (receivedFrames s.options.version (framing.feed rest before).1) now t)
    (hlen : nows.length = (before ++ chunk :: after).length) :
    ∃ c, driveReads ch nows rest.length s = .error .diverge c := by
  induction before generalizing nows rest s t with
  | nil =>
    obtain ⟨now', nows, rfl⟩ := List.exists_cons_of_length_eq_add_one hlen
    exact driveReads_stalls ch h (by simpa [Framing.feed] using hstalls) now' nows
  | cons first before ih =>
    obtain ⟨now', nows, rfl⟩ := List.exists_cons_of_length_eq_add_one hlen
    by_cases hfirst : Stalls (framing.split (rest ++ first)).2
    · exact driveReads_stalls ch h hfirst now' nows
    · obtain ⟨rxBuf, htail, hrun⟩ := driveReads_cons ch h hfirst now' nows
      have ht' : Unread (afterRead s rxBuf ((before ++ chunk :: after).map .ok)) t := by
        obtain ⟨_, _, _, rfl⟩ := ht
        exact ⟨_, _, _, rfl⟩
      obtain ⟨c, hc⟩ := hsurvives
      rw [Framing.feed, receivedFrames_append, List.forM_eq_forM, List.forM_append] at hc
      -- The frames of the first read are acted on, because those of all reads are.
      have halike := alike_forM ch
        (receivedFrames s.options.version (framing.split (rest ++ first)).1) now' now ht'
      rw [List.forM_eq_forM] at halike
      rcases hfirst' : forM (receivedFrames s.options.version (framing.split (rest ++ first)).1)
        (handle ch now) t with ⟨⟨⟩, t'⟩ | ⟨e, t'⟩
      · rw [hfirst'] at halike
        rw [run_bind hfirst'] at hc
        rcases hrun' : forM (receivedFrames s.options.version (framing.split (rest ++ first)).1)
          (handle ch now') (afterRead s rxBuf ((before ++ chunk :: after).map .ok)) with
          ⟨⟨⟩, s'⟩ | ⟨e, s'⟩
        · rw [hrun'] at halike
          obtain ⟨-, ⟨hs', hrx, hincoming⟩, hunread⟩ := halike
          have hnext : Receives s' (framing.split (rest ++ first)).2 (before ++ chunk :: after) :=
            h.next hs' hrx hincoming htail
          have hsame : s'.options = s.options := hs'
          obtain ⟨c', hc'⟩ := ih hnext hunread hstalls ⟨c, by rw [hsame]; exact hc⟩
            (by simpa using hlen)
          refine ⟨c', ?_⟩
          rw [hrun, List.forM_eq_forM]
          exact (run_bind hrun').trans (run_bind_error hc')
        · rw [hrun'] at halike
          exact halike.elim
      · rw [run_bind_error hfirst'] at hc
        cases hc

/-! ## All frames -/

variable (ch) in
/-- The reads end, every frame is acted on as it should be, and nothing is left. -/
def Processes (frames : List (List UInt8)) (nows : List ℕ) (s : Conn E R S W maxPacketSize) : Prop :=
  ∃ t, driveReads ch nows 0 s = .ok (receivedFrames s.options.version frames, 0) t ∧
    t.seen = ((receivedFrames s.options.version frames).foldl (acted ch answered) s).seen

/-- No read leaves a length field that is not complete, with something of it. -/
def Clear (chunks : List (List UInt8)) : Prop :=
  ∀ before chunk after, chunks = before ++ chunk :: after →
    ¬ Stalls (framing.feed [] (before ++ [chunk])).2

/-- A cut stream of frames. -/
theorem feed_of_flatten {frames : List (List UInt8)} (hframes : ∀ f ∈ frames, framing.IsFrame f)
    (hcut : chunks.flatten = frames.flatten) : framing.feed [] chunks = (frames, []) := by
  have hfeed := framing.feed_split [] chunks
  have hsplit := Framing.split_flatten hframes []
  rw [List.append_nil, Framing.split_nil, List.append_nil] at hsplit
  rw [Framing.split_nil, List.nil_append, List.nil_append, hcut, hsplit] at hfeed
  exact hfeed.symm

/-- Frames, however the socket cuts them into reads: all of them are acted on as they should be if
and only if no read leaves a length field that is not complete, every PUBACK fits, and the
transport does not fail. -/
theorem processes_iff {frames : List (List UInt8)} (hframes : ∀ f ∈ frames, framing.IsFrame f)
    (hdecodes : ∀ f ∈ frames, Decodes s.options.version f)
    (hdisconnect : ∀ r ∈ receivedFrames s.options.version frames, ∀ d, r.packet ≠ .disconnect d)
    (hcut : chunks.flatten = frames.flatten) (hreadable : Readable maxPacketSize [] chunks)
    (hincoming : s.socket.incoming = chunks.map .ok) {nows : List ℕ}
    (hlen : nows.length = chunks.length) :
    Processes ch frames nows s ↔
      Clear chunks ∧
      (∀ r ∈ receivedFrames s.options.version frames, ∀ packetId ∈ answered r,
        (pubAckPacket packetId).Fits s.options.version maxPacketSize) ∧
      s.socket.Holds ((receivedFrames s.options.version frames).filterMap answered).length := by
  have hfeed := feed_of_flatten hframes hcut
  have h : Receives s [] chunks := ⟨rfl, hincoming, hreadable, by rwa [hfeed]⟩
  have hall := acts_iff ch (s := s) hdisconnect 0
  constructor
  · rintro ⟨t, hrun, ht⟩
    have hnever : NeverStalls ch 0 s [] chunks := by
      rintro before chunk after rfl hstalls hsurvives
      obtain ⟨c, hc⟩ := diverges_driveReads h (.refl s) hstalls hsurvives hlen
      exact nomatch hc.symm.trans hrun
    have halike := alike_driveReads h (.refl s) hnever hlen
    rw [hfeed] at halike
    change Alike Unread (driveReads ch nows 0 s) _ at halike
    rw [hrun] at halike
    rcases hforM : (receivedFrames s.options.version frames).forM (handle ch 0) s with ⟨⟨⟩, c⟩ | ⟨e, c⟩
    · rw [handleAll, run_bind hforM] at halike
      have hacts := hall.mp ⟨c, hforM, (halike.2.seen).symm.trans ht⟩
      refine ⟨?_, hacts⟩
      intro before chunk after hchunks hstalls
      apply hnever before chunk after hchunks hstalls
      rw [hchunks, Framing.feed_append, Prod.mk.injEq] at hfeed
      rw [← hfeed.1, receivedFrames_append] at hforM
      exact Survives.of_append ⟨c, hforM⟩
    · rw [handleAll, run_bind_error hforM] at halike
      exact halike.elim
  · rintro ⟨hclear, hacts⟩
    obtain ⟨c, hforM, hc⟩ := hall.mpr hacts
    have hnever : NeverStalls ch 0 s [] chunks :=
      fun before chunk after hchunks hstalls => absurd hstalls (hclear before chunk after hchunks)
    have halike := alike_driveReads h (.refl s) hnever hlen
    rw [hfeed, handleAll, run_bind hforM] at halike
    change Alike Unread (driveReads ch nows 0 s) _ at halike
    rcases hrun : driveReads ch nows 0 s with ⟨r, t⟩ | ⟨e, t⟩
    · rw [hrun] at halike
      obtain ⟨rfl, hunread⟩ := halike
      exact ⟨t, hrun, hunread.seen.trans hc⟩
    · rw [hrun] at halike
      exact halike.elim

end

/-! ## A long frame -/

/-- A PUBLISH with a length field of two bytes. -/
def longFrame : List UInt8 := [0x32, 0x80, 1, 0, 1, 97, 0, 1] ++ List.replicate 123 7

def longPublish : Publish :=
  { Publish.new "a" (List.replicate 123 7) .atLeastOnce with packetId := some 1 }

/-- The frame comes in two reads. -/
def cutLong (n : ℕ) : List (List UInt8) := [longFrame.take n, longFrame.drop n]

/-- A connection on which these reads come. -/
def reading (chunks : List (List UInt8)) : Conn Unit ℕ ℕ (ℕ → Queue PublishMessage) 256 :=
  { (EventLoop.new (.new "c" fun _ => 0) (fun _ => ⟨false, [], 128⟩) 0 :
      EventLoop Unit ℕ ℕ (ℕ → Queue PublishMessage) 256) with
    socket := .sending chunks }

theorem isFrame_longFrame : framing.IsFrame longFrame := by decide +kernel

theorem decode_longFrame : decode longFrame .v3_1_1 = .ok (some (.publish longPublish)) := by
  decide +kernel

theorem receivedFrames_longFrame :
    receivedFrames .v3_1_1 [longFrame] = [⟨longFrame, .publish longPublish⟩] := by
  simp [receivedFrames, receivedFrame, decode_longFrame]

/-- What is left if the frame is cut within its first two bytes. -/
theorem split_longFrame {n : ℕ} (h : n = 1 ∨ n = 2) :
    framing.size (longFrame.take n) = none ∧ framing.split (longFrame.take n) = ([], longFrame.take n) := by
  have hsize : framing.size (longFrame.take n) = none := by
    rcases h with rfl | rfl <;> decide +kernel
  exact ⟨hsize, Framing.split_of_incomplete fun m hm => nomatch hsize.symm.trans hm⟩

theorem readable_longFrame {n : ℕ} (h : n = 1 ∨ n = 2) : Readable 256 [] (cutLong n) := by
  have hlen : longFrame.length = 131 := by decide +kernel
  rw [cutLong, Readable, List.nil_append, (split_longFrame h).2]
  refine ⟨?_, ?_, ?_, ?_, trivial⟩
  · rcases h with rfl | rfl <;> decide
  · rw [List.length_take, List.length_nil]
    omega
  · exact List.ne_nil_of_length_pos (by rw [List.length_drop]; omega)
  · rw [List.length_take, List.length_drop]
    omega

theorem flatten_cutLong (n : ℕ) : (cutLong n).flatten = [longFrame].flatten := by
  simp only [cutLong, List.flatten_cons, List.flatten_nil, List.append_nil, List.take_append_drop]

theorem clear_longFrame : Clear (cutLong 1) := by
  have hshort : ¬ Stalls (framing.feed [] [longFrame.take 1]).2 := by
    simp only [Framing.feed, List.nil_append, (split_longFrame (.inl rfl)).2]
    decide
  have hempty : ¬ Stalls (framing.feed [] (cutLong 1)).2 := by
    rw [feed_of_flatten (by simpa using isFrame_longFrame) (flatten_cutLong 1)]
    decide
  rintro (_ | ⟨first, _ | ⟨second, before⟩⟩) chunk after hcut
  · cases hcut
    exact hshort
  · cases hcut
    exact hempty
  · simp [cutLong] at hcut

/-- The frame is acted on, if it is cut behind its first byte. -/
theorem processes_cut : Processes (.queues ℕ PublishMessage) [longFrame] [0, 0] (reading (cutLong 1)) := by
  have hversion : (reading (cutLong 1)).options.version = .v3_1_1 := rfl
  refine (processes_iff (by simpa using isFrame_longFrame) ?_ ?_ (flatten_cutLong 1)
    (readable_longFrame (.inl rfl)) rfl rfl).mpr ⟨clear_longFrame, ?_, ?_⟩
  · simpa [hversion] using ⟨_, decode_longFrame⟩
  · simp [hversion, receivedFrames_longFrame]
  · simp [hversion, receivedFrames_longFrame, answered, longPublish]
    decide
  · exact (Socket.steady_sending _).holds _

/-- It is not, if it is cut within its length field. -/
theorem diverges_cut :
    ¬ ∀ (frames chunks : List (List UInt8)) (nows : List ℕ)
        (s : Conn Unit ℕ ℕ (ℕ → Queue PublishMessage) 256),
      (∀ f ∈ frames, framing.IsFrame f) → (∀ f ∈ frames, Decodes s.options.version f) →
      (∀ r ∈ receivedFrames s.options.version frames, ∀ d, r.packet ≠ .disconnect d) →
      chunks.flatten = frames.flatten → Readable 256 [] chunks →
      s.socket.incoming = chunks.map .ok → nows.length = chunks.length →
      Processes (.queues ℕ PublishMessage) frames nows s := by
  intro hall
  have hversion : (reading (cutLong 2)).options.version = .v3_1_1 := rfl
  obtain ⟨t, hrun, -⟩ := hall [longFrame] (cutLong 2) [0, 0] (reading (cutLong 2))
    (by simpa using isFrame_longFrame) (by simpa [hversion] using ⟨_, decode_longFrame⟩)
    (by simp [hversion, receivedFrames_longFrame]) (flatten_cutLong 2)
    (readable_longFrame (.inr rfl)) rfl rfl
  have hend : (match driveReads (.queues ℕ PublishMessage) [0, 0] 0 (reading (cutLong 2)) with
      | .ok _ _ => true
      | .error _ _ => false) = false := by decide +kernel
  rw [hrun] at hend
  cases hend

end MqttEngine.Tokio
