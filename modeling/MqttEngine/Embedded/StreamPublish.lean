import MqttEngine.Embedded.StreamLengths
import MqttEngine.Embedded.BatchEquivalence

/-!
# A stream and a plain publish

`begin_stream_publish` puts the header of a PUBLISH together by hand, and the payload follows in
pieces through the methods of the stream writer. `publish_ok` and `beginStreamPublish_ok` say what
the two operations have done when they succeed, `Writes` is any sequence of calls on the writer, and
`Adds` says what has been handed over between two states.

The header of a stream is put together in two buffers: the fixed header is sent before the variable
header is found to be too long for the second one.

## Main definitions

* `Adds` — what has been sent between two states, which agree on the table and the next id.
* `StreamWrite`, `Writes` — the calls on a stream writer.
* `CleanBegin` — a stream fails to begin without a trace.

## Main results

* `stream_publish` — a stream against a plain publish.
* `cleanBegin_iff` — when a stream fails to begin without a trace.
-/

namespace MqttEngine.MqttClient
open Checked

variable {E : Type} {bufSize maxInflight : ℕ}

/-! ## What has been handed over -/

/-- From `s` to `s'` these bytes have been handed over, in any number of buffers. The table and the
next packet id are the same. -/
structure Adds (s s' : MqttClient E bufSize maxInflight) (bytes : List UInt8) : Prop where
  sent : s'.transport.sent.flatten = s.transport.sent.flatten ++ bytes
  inflight : s'.inflight = s.inflight
  nextPacketId : s'.nextPacketId = s.nextPacketId

section
variable {s s' s'' : MqttClient E bufSize maxInflight} {bytes bytes' : List UInt8}

theorem Adds.refl (s : MqttClient E bufSize maxInflight) : Adds s s [] := ⟨by simp, rfl, rfl⟩

theorem Adds.trans (h : Adds s s' bytes) (h' : Adds s' s'' bytes') :
    Adds s s'' (bytes ++ bytes') where
  sent := by rw [h'.sent, h.sent, List.append_assoc]
  inflight := h'.inflight.trans h.inflight
  nextPacketId := h'.nextPacketId.trans h.nextPacketId

theorem adds_send (h : send bytes s = .ok () s') : Adds s s' bytes := by
  rcases hresults : s.transport.sendResults with _ | ⟨_ | e, results⟩
  all_goals
    simp only [send, hresults] at h
    cases h
  · exact ⟨by simp, rfl, rfl⟩
  · exact ⟨by simp, rfl, rfl⟩

theorem adds_sendTx {len : ℕ} (hlen : len ≤ bufSize) (h : sendTx len s = .ok () s') :
    Adds s s' (s.txBuffer.bytes.take len) := by
  rw [sendTx_of_le hlen] at h
  exact adds_send h

/-- A packet that has been sent had room in the transmit buffer. -/
theorem adds_sendPacket {p : MqttPacket} (h : sendPacket p s = .ok () s') :
    p.Fits s.options.version bufSize ∧ Adds s s' (p.encoded s.options.version) := by
  obtain ⟨r, s₁, hencode, h⟩ := ok_of_bind h
  rcases r with (e | _ | _) | len
  · cases h
  · cases h
  · cases h
  · obtain ⟨hfits, rfl, hle, tx, rfl, htake⟩ := encodeTx_encoded hencode
    rw [Nat.zero_add] at hle htake
    rw [List.take_zero, List.nil_append] at htake
    have hadds := adds_sendTx (s := s.withTx tx) hle h
    rw [txBuffer_withTx, htake] at hadds
    exact ⟨hfits, hadds.sent, hadds.inflight, hadds.nextPacketId⟩

end

/-! ## The two operations -/

section
variable {s s' : MqttClient E bufSize maxInflight} {topic : String} {qos : QoS} {now : ℕ}

/-- A publish that succeeds has reserved an id and sent its packet. -/
theorem publish_ok {payload : List UInt8} (h : publish topic payload qos now s = .ok () s') :
    ∃ id inflight next, reserve s.inflight s.nextPacketId qos = some (id, inflight, next) ∧
      (MqttPacket.publish (publishPacket topic payload qos id)).Fits s.options.version bufSize ∧
      Adds { s with inflight, nextPacketId := next } s'
        ((MqttPacket.publish (publishPacket topic payload qos id)).encoded s.options.version) := by
  by_cases hconnected : s.state = .connected
  · rcases hreserve : reserve s.inflight s.nextPacketId qos with _ | ⟨id, inflight, next⟩
    · rw [publish, run_bind (requireConnected_of_connected hconnected),
        run_bind_error (allocatePacketId_of_none hreserve)] at h
      cases h
    · rw [publish, run_bind (requireConnected_of_connected hconnected),
        run_bind (allocatePacketId_of_some hreserve)] at h
      obtain ⟨_, s₁, hsent, hlast⟩ := ok_of_bind h
      cases hlast
      obtain ⟨hfits, hadds⟩ := adds_sendPacket hsent
      exact ⟨id, inflight, next, rfl, hfits, hadds.sent, hadds.inflight, hadds.nextPacketId⟩
  · rw [publish, run_bind_error (requireConnected_of_not hconnected)] at h
    cases h

/-- The second half of `begin_stream_publish`: the variable header is put together in a buffer and
sent. -/
def sendStreamHeader (varBuf : Buffer 256) (topic : String) (id : Option UInt16)
    (version : MqttVersion) (total now : ℕ) : ClientM E bufSize maxInflight MqttStreamWriter :=
  match writeStreamHeader topic id version ⟨varBuf.bytes, 0⟩ with
  | .error e _ => lift (.error e)
  | .ok _ out => do
    let varHeader ← lift (range out.buf 0 out.cursor)
    send varHeader
    setLastTx now
    pure { totalLen := total, bytesRemaining := total }

section
variable {id : Option UInt16} {version : MqttVersion} (varBuf : Buffer 256) (total : ℕ)

/-- A variable header with room in its buffer is sent. -/
theorem sendStreamHeader_fits (hfits : (streamContent version topic id).length ≤ 256) :
    (sendStreamHeader varBuf topic id version total now : ClientM E bufSize maxInflight _) =
      (do
        send (streamContent version topic id)
        setLastTx now
        pure { totalLen := total, bytesRemaining := total }) := by
  rw [sendStreamHeader]
  rcases writeStreamHeader_spec topic id version varBuf.length_eq with
    ⟨out, hout, htake, hle, -⟩ | ⟨e, out, -, hlong⟩
  · have hvar : (range out.buf 0 out.cursor : Checked PacketError (List UInt8)) =
        .ok (streamContent version topic id) := by
      rw [range_of_le (Nat.zero_le _) hle, htake, List.drop_zero]
    rw [hout]
    dsimp only
    rw [hvar]
    rfl
  · omega

/-- A variable header that is too long for its buffer is not sent. -/
theorem sendStreamHeader_long (hlong : 256 < (streamContent version topic id).length) :
    ∃ f, (sendStreamHeader varBuf topic id version total now : ClientM E bufSize maxInflight _) =
      throw f := by
  rw [sendStreamHeader]
  rcases writeStreamHeader_spec topic id version varBuf.length_eq with
    ⟨out, -, -, -, hfits⟩ | ⟨e, out, hout, -⟩
  · omega
  · rw [hout]
    rcases e with e | _ | _
    · exact ⟨_, rfl⟩
    · exact ⟨_, rfl⟩
    · exact ⟨_, rfl⟩

end

/-- With an id reserved, and a remaining length within `usize`, the fixed header is sent first. -/
theorem beginStreamPublish_run (hconnected : s.state = .connected) {id : Option UInt16}
    {inflight : InflightQueue maxInflight} {next : UInt16}
    (hreserve : reserve s.inflight s.nextPacketId qos = some (id, inflight, next)) {total : ℕ}
    (hsum : (streamContent s.options.version topic id).length + total < 2 ^ 64) (now : ℕ) :
    beginStreamPublish topic total qos now s =
      (send (streamHeader qos ((streamContent s.options.version topic id).length + total)) >>=
        fun _ => sendStreamHeader .zero topic id s.options.version total now)
          { s with inflight, nextPacketId := next } := by
  have hlen := length_streamContent s.options.version topic id
  dsimp only at hlen
  obtain ⟨hwrite, hheader⟩ := streamHeader_of_lt qos hsum
  rw [beginStreamPublish, run_bind (requireConnected_of_connected hconnected),
    run_bind (allocatePacketId_of_some hreserve)]
  generalize (Buffer.zero : Buffer 256) = varBuf
  change (addUsize _ _ >>= _) _ = _
  rw [← hlen, addUsize, if_pos hsum]
  generalize (streamContent s.options.version topic id).length + total = remaining at *
  rw [pure_bind]
  dsimp only
  rw [hwrite]
  dsimp only
  rw [hheader]
  rfl

/-- A remaining length beyond `usize` panics before anything is sent. -/
theorem beginStreamPublish_overflow (hconnected : s.state = .connected) {id : Option UInt16}
    {inflight : InflightQueue maxInflight} {next : UInt16}
    (hreserve : reserve s.inflight s.nextPacketId qos = some (id, inflight, next)) {total : ℕ}
    (hsum : ¬ (streamContent s.options.version topic id).length + total < 2 ^ 64) (now : ℕ) :
    beginStreamPublish topic total qos now s =
      .error .panic { s with inflight, nextPacketId := next } := by
  have hlen := length_streamContent s.options.version topic id
  dsimp only at hlen
  rw [beginStreamPublish, run_bind (requireConnected_of_connected hconnected),
    run_bind (allocatePacketId_of_some hreserve)]
  change (addUsize _ _ >>= _) _ = _
  rw [← hlen, addUsize, if_neg hsum]
  rfl

/-- A stream that has begun has reserved an id and sent its header. -/
theorem beginStreamPublish_ok {total : ℕ} {writer : MqttStreamWriter}
    (h : beginStreamPublish topic total qos now s = .ok writer s') :
    ∃ id inflight next, reserve s.inflight s.nextPacketId qos = some (id, inflight, next) ∧
      writer = ⟨total, total⟩ ∧ Adds { s with inflight, nextPacketId := next } s'
        (streamHeader qos ((streamContent s.options.version topic id).length + total) ++
          streamContent s.options.version topic id) := by
  by_cases hconnected : s.state = .connected
  · rcases hreserve : reserve s.inflight s.nextPacketId qos with _ | ⟨id, inflight, next⟩
    · rw [beginStreamPublish, run_bind (requireConnected_of_connected hconnected),
        run_bind_error (allocatePacketId_of_none hreserve)] at h
      cases h
    · by_cases hsum : (streamContent s.options.version topic id).length + total < 2 ^ 64
      · rw [beginStreamPublish_run hconnected hreserve hsum] at h
        obtain ⟨_, s₁, hheader, h⟩ := ok_of_bind h
        by_cases hfits : (streamContent s.options.version topic id).length ≤ 256
        · rw [sendStreamHeader_fits _ _ hfits] at h
          obtain ⟨_, s₂, hvar, hlast⟩ := ok_of_bind h
          cases hlast
          have hadds := (adds_send hheader).trans (adds_send hvar)
          exact ⟨id, inflight, next, rfl, rfl, hadds.sent, hadds.inflight, hadds.nextPacketId⟩
        · obtain ⟨f, hthrow⟩ : ∃ f, (sendStreamHeader .zero topic id s.options.version total now :
              ClientM E bufSize maxInflight _) = throw f :=
            sendStreamHeader_long _ _ (Nat.lt_of_not_le hfits)
          rw [hthrow] at h
          cases h
      · rw [beginStreamPublish_overflow hconnected hreserve hsum] at h
        cases h
  · rw [beginStreamPublish, run_bind_error (requireConnected_of_not hconnected)] at h
    cases h

end

/-! ## The stream writer -/

/-- A call that writes payload bytes; `write_dma_slice` calls `write_chunk`. -/
inductive StreamWrite
  | chunk (bytes : List UInt8)
  | dmaSlice (bytes : List UInt8)
  | dmaVectored (slices : List (List UInt8))

/-- The bytes that a call is to write. -/
def StreamWrite.bytes : StreamWrite → List UInt8
  | .chunk bytes | .dmaSlice bytes => bytes
  | .dmaVectored slices => slices.flatten

/-- The call as a program, which yields the writer after it. -/
def StreamWrite.exec (writer : MqttStreamWriter) :
    StreamWrite → ClientM E bufSize maxInflight MqttStreamWriter
  | .chunk bytes | .dmaSlice bytes => writeChunk writer bytes
  | .dmaVectored slices => writeDmaVectored writer slices

/-- A sequence of calls on the writer, and the bytes of those that have succeeded. The others have
more bytes than remain, and return an error. -/
inductive Writes (writer : MqttStreamWriter) (s : MqttClient E bufSize maxInflight) :
    List UInt8 → MqttStreamWriter → MqttClient E bufSize maxInflight → Prop
  | nil : Writes writer s [] writer s
  | write {bytes : List UInt8} {writer' writer'' : MqttStreamWriter}
      {s' s'' : MqttClient E bufSize maxInflight} (call : StreamWrite)
      (h : Writes writer s bytes writer' s') (hcall : call.exec writer' s' = .ok writer'' s'') :
      Writes writer s (bytes ++ call.bytes) writer'' s''
  | overlong {bytes : List UInt8} {writer' : MqttStreamWriter} {e : MqttError E}
      {s' s'' : MqttClient E bufSize maxInflight} (call : StreamWrite)
      (h : Writes writer s bytes writer' s')
      (hlong : writer'.bytesRemaining < call.bytes.length)
      (hcall : call.exec writer' s' = .error (.err e) s'') : Writes writer s bytes writer' s''

section
variable {s s' : MqttClient E bufSize maxInflight} {writer writer' : MqttStreamWriter}

theorem adds_sendVectored {slices : List (List UInt8)} (h : sendVectored slices s = .ok () s') :
    Adds s s' slices.flatten := by
  induction slices generalizing s with
  | nil =>
    cases h
    exact Adds.refl _
  | cons slice slices ih =>
    obtain ⟨_, s₁, hfirst, hrest⟩ := ok_of_bind h
    have hslice : Adds s s₁ slice := by
      by_cases hempty : slice = []
      · dsimp only at hfirst
        rw [if_neg (not_not.mpr hempty)] at hfirst
        cases hfirst
        rw [hempty]
        exact Adds.refl _
      · dsimp only at hfirst
        rw [if_pos hempty] at hfirst
        exact adds_send hfirst
    exact hslice.trans (ih hrest)

/-- A call that succeeds hands over its bytes and counts them. -/
theorem adds_exec {call : StreamWrite} (h : call.exec writer s = .ok writer' s') :
    Adds s s' call.bytes ∧ call.bytes.length ≤ writer.bytesRemaining ∧
      writer'.bytesRemaining = writer.bytesRemaining - call.bytes.length := by
  have hchunk {chunk : List UInt8} (h : writeChunk writer chunk s = .ok writer' s') :
      Adds s s' chunk ∧ chunk.length ≤ writer.bytesRemaining ∧
        writer'.bytesRemaining = writer.bytesRemaining - chunk.length := by
    rw [writeChunk] at h
    split at h
    · cases h
    · obtain ⟨_, s₁, hsent, hlast⟩ := ok_of_bind h
      cases hlast
      exact ⟨adds_send hsent, by omega, rfl⟩
  cases call with
  | chunk bytes => exact hchunk h
  | dmaSlice bytes => exact hchunk h
  | dmaVectored slices =>
    rw [StreamWrite.exec, writeDmaVectored] at h
    rw [StreamWrite.bytes, List.length_flatten]
    split at h
    · cases h
    · obtain ⟨_, s₁, hsent, hlast⟩ := ok_of_bind h
      cases hlast
      exact ⟨adds_sendVectored hsent, by omega, rfl⟩

/-- A call with more bytes than remain changes nothing. -/
theorem exec_overlong {call : StreamWrite} (h : writer.bytesRemaining < call.bytes.length) :
    call.exec writer s = .error (.err .bufferTooSmall) s := by
  cases call with
  | chunk bytes | dmaSlice bytes => exact congrFun (if_pos h) s
  | dmaVectored slices =>
    rw [StreamWrite.bytes, List.length_flatten] at h
    exact congrFun (if_pos h) s

/-- At every moment the bytes that have been sent and those that remain make up the total. -/
theorem Writes.accounted {bytes : List UInt8} (h : Writes writer s bytes writer' s') :
    Adds s s' bytes ∧ bytes.length + writer'.bytesRemaining = writer.bytesRemaining := by
  induction h with
  | nil => exact ⟨Adds.refl s, by simp⟩
  | write call _ hcall ih =>
    obtain ⟨hadds, hle, hremaining⟩ := adds_exec hcall
    refine ⟨ih.1.trans hadds, ?_⟩
    rw [List.length_append, hremaining]
    omega
  | overlong call _ hlong hcall ih =>
    rw [exec_overlong hlong] at hcall
    cases hcall
    exact ih

end

/-! ## A stream against a plain publish -/

section
variable {s sp s₁ s₂ : MqttClient E bufSize maxInflight} {topic : String} {payload written : List UInt8}
  {qos : QoS} {now now' : ℕ} {writer writer' : MqttStreamWriter}

/-- The encoding of a PUBLISH is the header of a stream with the payload behind it. -/
theorem wire_publishPacket (version : MqttVersion) {id : Option UInt16}
    (hid : id = none ↔ qos = .atMostOnce) :
    (MqttPacket.publish (publishPacket topic payload qos id)).wire version =
      streamHeader qos ((streamContent version topic id).length + payload.length) ++
        streamContent version topic id ++ payload := by
  have hprops : v5PropertiesBytes version .empty = if version = .v5 then [0] else [] := by
    have h : propertiesBytes [] = [0] := by decide +kernel
    rw [v5PropertiesBytes, BoundedVec.toList_empty, h]
  have hcontent : (MqttPacket.publish (publishPacket topic payload qos id)).content version =
      streamContent version topic id ++ payload := by
    simp only [MqttPacket.content, publishPacket, Publish.new, hprops, streamContent,
      List.append_assoc]
    rcases id with _ | id
    · simp [hid.mp rfl]
    · have hqos : qos ≠ .atMostOnce := fun h => by simpa using hid.mpr h
      simp [hqos]
  have hfirst : (publishPacket topic payload qos id).header = streamFlags qos := by
    cases qos <;> rfl
  rw [MqttPacket.wire, hcontent, frameBytes, List.length_append, MqttPacket.first, hfirst,
    streamHeader]
  simp

/-- While a stream is written, the payload bytes that have been sent and those that remain make up
the total; when it is finished, the bytes of the payload have been sent behind the header, and the
client has sent and holds what a plain publish would have. -/
theorem stream_publish (hsize : bufSize ≤ 268435455)
    (hpublish : publish topic payload qos now s = .ok () sp)
    (hbegin : beginStreamPublish topic payload.length qos now' s = .ok writer s₁)
    (hwrites : Writes writer s₁ written writer' s₂) :
    (s₂.transport.sent.flatten = s₁.transport.sent.flatten ++ written ∧
      written.length + writer'.bytesRemaining = payload.length) ∧
    ∀ s₃, written <+: payload → finish writer' s₂ = .ok () s₃ →
      s₃.transport.sent.flatten = sp.transport.sent.flatten ∧ s₃.inflight = sp.inflight ∧
        s₃.nextPacketId = sp.nextPacketId := by
  obtain ⟨id, inflight, next, hreserve, hfits, hplain⟩ := publish_ok hpublish
  obtain ⟨id', inflight', next', hreserve', rfl, hheader⟩ := beginStreamPublish_ok hbegin
  obtain ⟨hadds, haccount⟩ := hwrites.accounted
  dsimp only at haccount
  refine ⟨⟨hadds.sent, haccount⟩, fun s₃ hprefix hfinish => ?_⟩
  rw [hreserve] at hreserve'
  cases hreserve'
  have hid : id = none ↔ qos = .atMostOnce := by
    rw [reserve_id hreserve]
    simp
  -- The content of a packet that was encoded is shorter than the transmit buffer.
  have hshort : ((MqttPacket.publish (publishPacket topic payload qos id)).content
      s.options.version).length < 128 ^ 4 := by
    have hroom : 5 + _ ≤ bufSize := hfits.2
    omega
  rw [encoded_of_short hshort, wire_publishPacket _ hid] at hplain
  have hall : s₃ = s₂ ∧ writer'.bytesRemaining = 0 := by
    rw [finish] at hfinish
    split at hfinish
    · rename_i hdone
      cases hfinish
      exact ⟨rfl, hdone⟩
    · cases hfinish
  have hwritten : written = payload := hprefix.eq_of_length (by omega)
  have hstream := hheader.trans hadds
  rw [hall.1, hstream.sent, hplain.sent, hstream.inflight, hplain.inflight, hstream.nextPacketId,
    hplain.nextPacketId, hwritten]
  exact ⟨rfl, rfl, rfl⟩

/-- A payload of three bytes in two pieces, with a piece between them that is too long. -/
theorem stream_publish_three : ∃ sp s₁ s₂ s₃ : MqttClient Unit 64 4,
    publish "a" [1, 2, 3] .atLeastOnce 0 (onlineClient 64) = .ok () sp ∧
    beginStreamPublish "a" 3 .atLeastOnce 0 (onlineClient 64) = .ok ⟨3, 3⟩ s₁ ∧
    Writes ⟨3, 3⟩ s₁ [1, 2, 3] ⟨3, 0⟩ s₂ ∧ finish ⟨3, 0⟩ s₂ = .ok () s₃ ∧
    s₃.transport.sent.flatten = sp.transport.sent.flatten := by
  obtain ⟨_, sp, hpublish, -⟩ := exists_ok
    (x := (publish "a" [1, 2, 3] .atLeastOnce 0 : ClientM Unit 64 4 Unit))
    (s := onlineClient 64) (f := fun _ _ => ()) (b := ()) (by decide +kernel)
  obtain ⟨_, s₁, hbegin, hs₁⟩ := exists_ok
    (x := (beginStreamPublish "a" 3 .atLeastOnce 0 : ClientM Unit 64 4 _)) (s := onlineClient 64)
    (f := fun writer s₁ => (writer, s₁.transport.sendResults)) (b := (⟨3, 3⟩, []))
    (by decide +kernel)
  obtain ⟨rfl, hsend⟩ := Prod.mk.inj hs₁
  have hfirst : StreamWrite.exec ⟨3, 3⟩ (.chunk [1]) s₁ =
      .ok ⟨3, 2⟩ (s₁.afterSend s₁.txBuffer [] [1]) := run_bind (send_of_nil hsend [1])
  have hsecond : StreamWrite.exec ⟨3, 2⟩ (.dmaVectored [[2, 3]])
      (s₁.afterSend s₁.txBuffer [] [1]) = .ok ⟨3, 0⟩ _ :=
    run_bind (run_bind (send_of_nil (s := s₁.afterSend s₁.txBuffer [] [1]) rfl [2, 3]))
  have hwrites := (((Writes.nil).write (.chunk [1]) hfirst).overlong (.dmaSlice [2, 3, 4])
    (by decide) (exec_overlong (by decide))).write (.dmaVectored [[2, 3]]) hsecond
  have hall := (stream_publish (by decide) hpublish hbegin hwrites).2 _ (by decide) rfl
  exact ⟨sp, s₁, _, _, hpublish, hbegin, hwrites, rfl, hall.1⟩

/-! ## Streams that fail to begin -/

/-- A stream does not panic when it begins, and one that fails leaves no trace: nothing has been
sent, and the table is unchanged. -/
def CleanBegin (s : MqttClient E bufSize maxInflight) (topic : String) (total : ℕ) (qos : QoS)
    (now : ℕ) : Prop :=
  match beginStreamPublish topic total qos now s with
  | .ok _ _ => True
  | .error (.err _) s' => s'.transport.sent = s.transport.sent ∧ s'.inflight = s.inflight
  | .error _ _ => False

/-- A stream begins cleanly exactly if no id can be reserved for it, or its remaining length is
within `usize` and its variable header within its buffer. -/
theorem cleanBegin_iff (hconnected : s.state = .connected)
    (hsend : s.transport.sendResults = []) (topic : String) (total : ℕ) (qos : QoS) (now : ℕ) :
    CleanBegin s topic total qos now ↔
      reserve s.inflight s.nextPacketId qos = none ∨
        (FitsUsize (streamRemaining s.options.version topic total qos) ∧
          HeaderFits s.options.version topic qos) := by
  rw [CleanBegin]
  rcases hreserve : reserve s.inflight s.nextPacketId qos with _ | ⟨id, inflight, next⟩
  · rw [beginStreamPublish, run_bind (requireConnected_of_connected hconnected),
      run_bind_error (allocatePacketId_of_none hreserve)]
    exact iff_of_true ⟨rfl, rfl⟩ (.inl rfl)
  · have hid : id = none ↔ qos = .atMostOnce := by
      rw [reserve_id hreserve]
      simp
    rw [FitsUsize, streamRemaining, ← length_streamContent_of_reserve hreserve,
      headerFits_iff hid]
    simp only [reduceCtorEq, false_or]
    by_cases hsum : (streamContent s.options.version topic id).length + total < 2 ^ 64
    · rw [beginStreamPublish_run hconnected hreserve hsum,
        run_bind (send_of_nil (s := { s with inflight, nextPacketId := next }) hsend _)]
      by_cases hfits : (streamContent s.options.version topic id).length ≤ 256
      · rw [sendStreamHeader_fits _ _ hfits, run_bind (send_of_nil rfl _)]
        exact iff_of_true trivial ⟨hsum, hfits⟩
      · -- The fixed header has been sent, and stays.
        obtain ⟨f, hthrow⟩ : ∃ f, (sendStreamHeader .zero topic id s.options.version total now :
            ClientM E bufSize maxInflight _) = throw f :=
          sendStreamHeader_long _ _ (Nat.lt_of_not_le hfits)
        rw [hthrow]
        refine iff_of_false ?_ fun h => hfits h.2
        rcases f with e | _ | _
        · intro h
          have hsent := h.1
          simp at hsent
        · exact not_false
        · exact not_false
    · rw [beginStreamPublish_overflow hconnected hreserve hsum]
      exact iff_of_false (fun h => h) fun h => hsum h.1

/-- A topic that can be streamed. -/
theorem cleanBegin_short :
    CleanBegin (onlineClient 64) "a" 3 .exactlyOnce 0 ↔
      reserve (onlineClient 64).inflight (onlineClient 64).nextPacketId .exactlyOnce = none ∨
        (FitsUsize (streamRemaining .v3_1_1 "a" 3 .exactlyOnce) ∧
          HeaderFits .v3_1_1 "a" .exactlyOnce) :=
  cleanBegin_iff rfl rfl "a" 3 .exactlyOnce 0

/-- A topic of 255 bytes is refused after the fixed header has been sent. -/
theorem unclean_begin :
    ¬ ∀ (s : MqttClient Unit 64 4) (topic : String) (total : ℕ) (qos : QoS) (now : ℕ),
      s.state = .connected → s.transport.sendResults = [] → CleanBegin s topic total qos now := by
  intro hall
  obtain ⟨topic, heval⟩ : ∃ topic, (match beginStreamPublish topic 0 .atMostOnce 0
      (onlineClient 64) with
    | .ok _ _ => none
    | .error _ s' => some s'.transport.sent) = some [[0x30, 0x81, 0x02]] :=
    ⟨String.ofList (List.replicate 255 'a'), by decide +kernel⟩
  have hclean := hall (onlineClient 64) topic 0 .atMostOnce 0 rfl rfl
  rw [CleanBegin] at hclean
  split at hclean
  · rename_i hbegin
    rw [hbegin] at heval
    cases heval
  · rename_i hbegin
    rw [hbegin] at heval
    rw [Option.some.inj heval] at hclean
    cases hclean.1
  · exact hclean

end

end MqttEngine.MqttClient
