import MqttEngine.Embedded.Receiving

/-!
# What the embedded client receives

The transport returns bytes as they come: several frames in one receive, or a frame in
several. `poll` decodes the first frame of a receive and drops what stands behind it;
`poll_batch` drops a frame that is not complete. Nothing is kept for the next call. So all
frames are received if each receive ends where a frame ends, and holds a single frame in the
case of `poll`: `received_all` says that then every frame becomes its event and is
acknowledged, as long as no send fails.

## Main definitions

* `Recv.Whole` — the bytes of a receive are complete frames, and not too many.

## Main results

* `received_all` — no frame is lost.
* `received_first` — two frames in one receive.
-/

namespace MqttEngine
open Checked MqttClient ClientSystem

/-- The call can handle all of the bytes: they are one frame, or for `poll_batch` frames of
which there are no more than it may return events. -/
def Recv.Whole (bytes : List UInt8) : Recv → Prop
  | .poll _ => framing.IsFrame bytes
  | .pollBatch maxEvents => (framing.split bytes).2 = [] ∧ (framing.split bytes).1.length ≤ maxEvents

instance (bytes : List UInt8) : (call : Recv) → Decidable (call.Whole bytes)
  | .poll _ => inferInstanceAs (Decidable (framing.IsFrame bytes))
  | .pollBatch _ => inferInstanceAs (Decidable (_ ∧ _))

theorem Recv.Whole.split_rest {bytes : List UInt8} {call : Recv} (h : call.Whole bytes) :
    (framing.split bytes).2 = [] := by
  cases call with
  | poll now => rw [Framing.split_of_isFrame h]
  | pollBatch maxEvents => exact h.1

/-- An acknowledgement is not a PINGREQ. -/
theorem wire_ne_pingReq {p : MqttPacket} (h : p.IsAck) (version : MqttVersion) :
    p.wire version ≠ MqttPacket.wire version .pingReq := by
  obtain ⟨id, rfl | rfl | rfl | rfl⟩ := h
  all_goals simp [MqttPacket.wire, frameBytes, MqttPacket.first]

theorem filter_ackBytes (version : MqttVersion) (ps : List MqttPacket) :
    (ackBytes version ps).filter (· ≠ MqttPacket.wire version .pingReq) = ackBytes version ps := by
  rw [List.filter_eq_self]
  intro bytes hbytes
  obtain ⟨p, hp, rfl⟩ := List.mem_map.mp hbytes
  obtain ⟨q, -, hp⟩ := List.mem_flatMap.mp hp
  simpa using wire_ne_pingReq (MqttPacket.isAck_of_mem_acks hp) version

section
variable {E : Type} {bufSize maxInflight : ℕ} {c : MqttClient E bufSize maxInflight}

theorem filter_pings (c : MqttClient E bufSize maxInflight) (now : ℕ) :
    (pings c now).filter (· ≠ MqttPacket.wire c.options.version .pingReq) = [] := by
  unfold pings
  split <;> simp

theorem state_of_no_disconnect {ps : List MqttPacket} (h : ∀ d, MqttPacket.disconnect d ∉ ps)
    (state : ConnectionState) : ps.foldl MqttPacket.stateAfter state = state := by
  induction ps generalizing state with
  | nil => rfl
  | cons p ps ih =>
    have hp : p.stateAfter state = state := by
      cases p with
      | disconnect d => exact absurd (by simp) (h d)
      | _ => rfl
    rw [List.foldl_cons, hp]
    exact ih (fun d hd => h d (by simp [hd])) state

/-- One receive: the call handles all of its frames. -/
theorem receive_whole {call : Recv} {chunk : BoundedVec UInt8 bufSize}
    {later : List (Except E (BoundedVec UInt8 bufSize))} {ps : List MqttPacket}
    (hready : Ready c) (hconnected : c.state = .connected)
    (h : c.transport.incoming = .ok chunk :: later) (hne : chunk.toList ≠ [])
    (hdecode : ((framing.split chunk.toList).1.map fun f => decode f c.options.version) =
      ps.map fun p => .ok (some p))
    (hwhole : call.Whole chunk.toList) :
    ∃ packets c' new, call.receive c = some (⟨packets, ps.filterMap MqttPacket.event⟩, c') ∧
      Handled (withIncoming c later) c' ps new ∧
      new.filter (· ≠ MqttPacket.wire c.options.version .pingReq) = ackBytes c.options.version ps := by
  have hroom := hready.room hconnected
  cases call with
  | poll now =>
    rw [Framing.split_of_isFrame hwhole] at hdecode
    obtain ⟨p, rfl⟩ : ∃ p, ps = [p] := by
      have hlen := congrArg List.length hdecode
      rw [List.length_map, List.length_map, List.length_singleton] at hlen
      exact List.length_eq_one_iff.mp hlen.symm
    rw [List.map_singleton, List.map_singleton, List.cons.injEq] at hdecode
    obtain ⟨c', hrun, hhandled⟩ := poll_of_ok hconnected hready.sendResults hroom h hne now hdecode.1
    refine ⟨Recv.packets c, c', _, Recv.receive_of_ok (Recv.exec_poll hrun), hhandled, ?_⟩
    rw [List.filter_append, filter_pings, filter_ackBytes, List.nil_append]
  | pollBatch maxEvents =>
    obtain ⟨hnone, hcount⟩ := hwhole
    have hchunk := framing.flatten_split chunk.toList
    rw [hnone] at hchunk
    obtain ⟨c', hrun, hhandled⟩ := pollBatch_of_ok hconnected hready.sendResults hroom h hne maxEvents
      (fun f hf => Framing.isFrame_of_mem_split hf) hdecode hchunk.symm (.inl (by simp))
    have hlen := congrArg List.length hdecode
    rw [List.length_map, List.length_map] at hlen
    have hevents : (ps.filterMap MqttPacket.event).length ≤ maxEvents := by
      have := List.length_filterMap_le MqttPacket.event ps
      omega
    exact ⟨Recv.packets c, c', _,
      Recv.receive_of_ok (Recv.exec_pollBatch hrun hevents), hhandled, filter_ackBytes _ _⟩

theorem Handled.ready {s s' : MqttClient E bufSize maxInflight} {ps : List MqttPacket}
    {new : List (List UInt8)} (h : Handled s s' ps new) (hroom : 7 ≤ bufSize) : Ready s' :=
  ⟨h.sendResults, fun _ => hroom⟩

/-- A list of receives: the calls handle all frames. -/
theorem receiveAll_whole {rounds : List (Recv × BoundedVec UInt8 bufSize)}
    {fs : List (List UInt8)} {ps : List MqttPacket}
    {later : List (Except E (BoundedVec UInt8 bufSize))}
    (hready : Ready c) (hconnected : c.state = .connected)
    (hframes : ∀ f ∈ fs, framing.IsFrame f)
    (hdecode : (fs.map fun f => decode f c.options.version) = ps.map fun p => .ok (some p))
    (hdisconnect : ∀ d, MqttPacket.disconnect d ∉ ps)
    (hcut : (rounds.map fun r => r.2.toList).flatten = fs.flatten)
    (hincoming : c.transport.incoming = (rounds.map fun r => .ok r.2) ++ later)
    (hne : ∀ r ∈ rounds, r.2.toList ≠ []) (hwhole : ∀ r ∈ rounds, r.1.Whole r.2.toList) :
    ∃ receptions c' new, Recv.receiveAll (rounds.map fun r => r.1) c = some (receptions, c') ∧
      (receptions.flatMap fun r => r.events) = ps.filterMap MqttPacket.event ∧
      c'.transport.sent = c.transport.sent ++ new ∧
      new.filter (· ≠ MqttPacket.wire c.options.version .pingReq) =
        ackBytes c.options.version ps ∧
      c'.transport.incoming = later := by
  induction rounds generalizing c fs ps with
  | nil =>
    have hnil : fs = [] := by
      have hcount := Framing.length_le_flatten hframes
      rw [← hcut] at hcount
      simpa using hcount
    subst hnil
    have hps : ps = [] := by simpa using hdecode
    subst hps
    exact ⟨[], c, [], rfl, rfl, by simp, rfl, hincoming⟩
  | cons round rounds ih =>
    obtain ⟨call, chunk⟩ := round
    rw [List.map_cons, List.flatten_cons] at hcut
    rw [List.map_cons, List.cons_append] at hincoming
    have hcall : call.Whole chunk.toList := hwhole (call, chunk) (by simp)
    obtain ⟨-, gs, rfl, hrest⟩ := Framing.split_cut hframes hcut hcall.split_rest
    rw [List.map_append] at hdecode
    obtain ⟨qs, qs', rfl, hqs, hqs'⟩ := List.map_eq_append_iff.mp hdecode.symm
    obtain ⟨packets, c₁, new, hreceive, hhandled, hnew⟩ := receive_whole hready hconnected hincoming
      (hne (call, chunk) (by simp)) hqs.symm hcall
    have hstate : c₁.state = .connected := by
      rw [hhandled.state, state_of_no_disconnect fun d hd => hdisconnect d (List.mem_append_left _ hd)]
      exact hconnected
    have hoptions : c₁.options = c.options := hhandled.options
    obtain ⟨receptions, c', new', hreceiveAll, hevents, hsent, hnew', hlater⟩ :=
      ih (hhandled.ready (hready.room hconnected)) hstate
        (fun f hf => hframes f (List.mem_append_right _ hf)) (by rw [hoptions]; exact hqs'.symm)
        (fun d hd => hdisconnect d (List.mem_append_right _ hd)) hrest hhandled.incoming
        (fun r hr => hne r (List.mem_cons_of_mem _ hr))
        fun r hr => hwhole r (List.mem_cons_of_mem _ hr)
    refine ⟨⟨packets, qs.filterMap MqttPacket.event⟩ :: receptions, c', new ++ new', ?_, ?_, ?_, ?_,
      hlater⟩
    · rw [List.map_cons, Recv.receiveAll, hreceive]
      simp [hreceiveAll]
    · rw [List.flatMap_cons, hevents, List.filterMap_append]
    · rw [hsent, hhandled.sent, List.append_assoc]
      rfl
    · rw [hoptions] at hnew'
      rw [List.filter_append, hnew, hnew']
      simp [ackBytes]

/-- If every receive of a connected client ends where a frame ends, and returns one frame for a
`poll`, or for a `poll_batch` no more frames than it may return events, and no send to come fails,
then every frame becomes its event, in order, and is acknowledged as it calls for. Between the
acknowledgements only PINGREQ is sent. -/
theorem received_all {ok : ClientSystem E bufSize maxInflight → Call E bufSize → Prop}
    {transport : Transport E bufSize} {options : MqttOptions} {now : ℕ}
    {t : ClientSystem E bufSize maxInflight} (hrun : Runs ok (startOver transport options now) t)
    (hconnected : t.client.state = .connected) (hsends : t.client.transport.SendsOk)
    {fs : List (List UInt8)} {ps : List MqttPacket}
    (hframes : ∀ f ∈ fs, framing.IsFrame f)
    (hdecode : (fs.map fun f => decode f t.client.options.version) = ps.map fun p => .ok (some p))
    (hdisconnect : ∀ d, MqttPacket.disconnect d ∉ ps)
    {rounds : List (Recv × BoundedVec UInt8 bufSize)}
    {later : List (Except E (BoundedVec UInt8 bufSize))}
    (hcut : (rounds.map fun r => r.2.toList).flatten = fs.flatten)
    (hincoming : t.client.transport.incoming = (rounds.map fun r => .ok r.2) ++ later)
    (hne : ∀ r ∈ rounds, r.2.toList ≠ []) (hwhole : ∀ r ∈ rounds, r.1.Whole r.2.toList) :
    ∃ receptions c', Recv.receiveAll (rounds.map fun r => r.1) t.client = some (receptions, c') ∧
      (receptions.flatMap fun r => r.events) = ps.filterMap MqttPacket.event ∧
      (newlySent t.client c').filter
        (· ≠ MqttPacket.wire t.client.options.version .pingReq) =
        ackBytes t.client.options.version ps ∧
      c'.transport.incoming = later := by
  obtain ⟨receptions, c', new, hreceive, hevents, hsent, hnew, hlater⟩ := receiveAll_whole
    (ready_of_runs hrun hsends) hconnected hframes hdecode hdisconnect hcut hincoming hne hwhole
  refine ⟨receptions, c', hreceive, hevents, ?_, hlater⟩
  rw [newlySent, hsent, List.drop_left, hnew]

end

/-- A PUBLISH of QoS 1 to the topic `a` with the id 1. -/
def publishFrame : BoundedVec UInt8 64 := ⟨[0x32, 0x06, 0x00, 0x01, 0x61, 0x00, 0x01, 0x07], by decide⟩

/-- Two PINGRESP. -/
def pingRespFrames : BoundedVec UInt8 64 := ⟨[0xD0, 0x00, 0xD0, 0x00], by decide⟩

/-- A client whose first send fails. -/
def retriedClient : ClientSystem Unit 64 4 :=
  startOver ⟨[], [some ()], [.ok connAckAccepted, .ok publishFrame, .ok pingRespFrames]⟩
    plainOptions 0

/-- A frame that is polled, and two frames that are polled as a batch, once the client has
connected. -/
theorem received_all_run : ∃ t : ClientSystem Unit 64 4,
    run (fun _ _ => True) [.client (.connect 0), .client (.connect 0)] retriedClient = some t ∧
    ∃ receptions c', Recv.receiveAll [.poll 0, .pollBatch 2] t.client = some (receptions, c') ∧
      (receptions.flatMap fun r => r.events) =
        [.publish { Publish.new "a" [7] .atLeastOnce with packetId := some 1 }, .pingResp,
          .pingResp] ∧
      (newlySent t.client c').filter (· ≠ [0xC0, 0]) = [[0x40, 2, 0, 1]] := by
  have heval : (run (fun _ _ => True) [.client (.connect 0), .client (.connect 0)]
      retriedClient).map (fun t => (decide (t.client.state = .connected ∧
        t.client.options.version = .v3_1_1 ∧ t.client.transport.SendsOk),
        t.client.transport.incoming)) =
      some (true, [.ok publishFrame, .ok pingRespFrames]) := by
    decide +kernel
  obtain ⟨t, hrun, ht⟩ := Option.map_eq_some_iff.mp heval
  rw [Prod.mk.injEq, decide_eq_true_iff] at ht
  obtain ⟨⟨hconnected, hversion, hsends⟩, hincoming⟩ := ht
  obtain ⟨receptions, c', hreceive, hevents, hsent, -⟩ := @received_all _ _ _ _ _ _ _ _
    (runs_of_run hrun) hconnected hsends [publishFrame.toList, [0xD0, 0x00], [0xD0, 0x00]]
    [.publish { Publish.new "a" [7] .atLeastOnce with packetId := some 1 }, .pingResp, .pingResp]
    (by decide +kernel) (by rw [hversion]; decide +kernel) (by simp)
    [(.poll 0, publishFrame), (.pollBatch 2, pingRespFrames)] [] rfl hincoming (by decide)
    (by decide +kernel)
  have hping : MqttPacket.wire .v3_1_1 .pingReq = [0xC0, 0] := by decide +kernel
  have hacks : ackBytes .v3_1_1
      [.publish { Publish.new "a" [7] .atLeastOnce with packetId := some 1 }, .pingResp,
        .pingResp] = [[0x40, 2, 0, 1]] := by decide +kernel
  rw [hversion, hping, hacks] at hsent
  exact ⟨t, hrun, receptions, c', hreceive, hevents, hsent⟩

/-- Of two frames in one receive `poll` handles the first. -/
theorem received_first :
    ¬ ∀ (t : ClientSystem Unit 64 4) (fs : List (List UInt8)) (ps : List MqttPacket)
      (rounds : List (ℕ × BoundedVec UInt8 64)),
      Runs (fun _ _ => True)
        (start plainOptions [.ok connAckAccepted, .ok pingRespFrames] 0) t →
      t.client.state = .connected → (∀ f ∈ fs, framing.IsFrame f) →
      (fs.map fun f => decode f t.client.options.version) = ps.map (fun p => .ok (some p)) →
      (∀ d, MqttPacket.disconnect d ∉ ps) →
      (rounds.map fun r => r.2.toList).flatten = fs.flatten →
      t.client.transport.incoming = rounds.map (fun r => .ok r.2) →
      (∀ r ∈ rounds, r.2.toList ≠ []) →
      ∃ receptions c', Recv.receiveAll (rounds.map fun r => .poll r.1) t.client =
          some (receptions, c') ∧
        (receptions.flatMap fun r => r.events) = ps.filterMap MqttPacket.event := by
  intro hall
  have hafter : (run (fun _ _ => True) [.client (.connect 0)]
      (start plainOptions [.ok connAckAccepted, .ok pingRespFrames] 0 :
        ClientSystem Unit 64 4)).map
        (fun t => (t.client.state, t.client.options.version, t.client.transport.incoming)) =
      some (.connected, .v3_1_1, [.ok pingRespFrames]) := by
    decide +kernel
  have hfirst : (run (fun _ _ => True) [.client (.connect 0)]
      (start plainOptions [.ok connAckAccepted, .ok pingRespFrames] 0 :
        ClientSystem Unit 64 4)).map (fun t =>
          (Recv.receiveAll [.poll 0] t.client).map fun r => r.1.flatMap fun r => r.events) =
      some (some [.pingResp]) := by
    decide +kernel
  obtain ⟨t, hrun, ht⟩ := Option.map_eq_some_iff.mp hafter
  simp only [Prod.mk.injEq] at ht
  obtain ⟨hconnected, hversion, hincoming⟩ := ht
  obtain ⟨receptions, c', hreceive, hevents⟩ := hall t [[0xD0, 0x00], [0xD0, 0x00]]
    [.pingResp, .pingResp] [(0, pingRespFrames)] (runs_of_run hrun) hconnected (by decide +kernel)
    (by rw [hversion]; decide +kernel) (by simp) rfl hincoming (by decide)
  rw [List.map_singleton] at hreceive
  rw [hrun, Option.map_some, hreceive, Option.map_some, hevents] at hfirst
  exact absurd hfirst (by decide)

end MqttEngine
