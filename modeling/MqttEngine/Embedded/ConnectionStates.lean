import MqttEngine.Embedded.BatchEquivalence
import MqttEngine.Embedded.Receiving

/-!
# The connection state after a call

`connect` sets the state to connecting, and again to disconnected when the receive returns no bytes,
when the answer is not a CONNACK, and when the CONNACK refuses. On its other error exits, by the `?`
operator, the client is left connecting: when the CONNECT is not encoded, when a send or a receive
fails, and when the answer cannot be decoded. All other operations leave the state alone or set it
to disconnected.

## Main definitions

* `ConnectSettles` — a call of `connect` sets the state according to its result.
* `ConnectClean` — the CONNECT fits, and the transport answers.

## Main results

* `connectSettles` — `connect` settles the state exactly on a clean connect, and a run in which all
  of them are clean never leaves the client connecting.
-/

namespace MqttEngine
open Checked MqttClient ClientSystem

section
variable {E : Type} {bufSize maxInflight : ℕ} {s c : MqttClient E bufSize maxInflight}

/-! ## Calls of `connect` -/

/-- The client is connected after a success, and disconnected after an error. -/
def Settles :
    EStateM.Result (Fault (MqttError E)) (MqttClient E bufSize maxInflight) Unit → Prop
  | .ok _ c' => c'.state = .connected
  | .error (.err _) c' => c'.state = .disconnected
  | .error _ _ => True

/-- `connect` leaves the client connected if it succeeds, and disconnected if it returns an
error. -/
def ConnectSettles (c : MqttClient E bufSize maxInflight) (now : ℕ) : Prop :=
  Settles (connect now c)

/-- The CONNECT of a client. -/
def connectOf (c : MqttClient E bufSize maxInflight) : MqttPacket :=
  .connect (connectPacket c.options)

/-- What a transport does with a CONNECT: it is sent, and what is received is nothing, or something
that can be decoded. -/
structure AnswersConnect (version : MqttVersion) (transport : Transport E bufSize) : Prop where
  sends : ∀ e results, transport.sendResults ≠ some e :: results
  receives : ∀ e later, transport.incoming ≠ .error e :: later
  decodes : ∀ chunk later, transport.incoming = .ok chunk :: later → chunk.toList ≠ [] →
    ∀ e, decode chunk.toList version ≠ .error (.err e)

/-- The CONNECT fits, and the transport answers, if it comes to be used: `encode` panics if the
buffer has no room for a remaining length of more than four bytes. -/
structure ConnectClean (c : MqttClient E bufSize maxInflight) : Prop where
  fits : (connectOf c).Fits c.options.version bufSize
  answers : ((connectOf c).encoded c.options.version).length ≤ bufSize →
    AnswersConnect c.options.version c.transport

/-! ### Sending the CONNECT -/

theorem content_connect (p : Connect) (version : MqttVersion) :
    (MqttPacket.connect p).content version ≠ [] := by
  simp [MqttPacket.content, lengthPrefixed, toBeBytes]

/-- Encoding at the front of the buffer. -/
theorem encodeTx_zero (s : MqttClient E bufSize maxInflight) (p : MqttPacket) :
    encodeTx 0 p s =
      match p.encode s.options.version s.txBuffer.bytes with
      | .ok len tail => .ok (.ok len) { s with txBuffer := s.txBuffer.setTail 0 tail }
      | .error e tail => .ok (.error e) { s with txBuffer := s.txBuffer.setTail 0 tail } := by
  unfold encodeTx
  exact if_pos (Nat.zero_le _)

/-- A packet that is refused is not sent. -/
theorem sendPacket_refused {p : MqttPacket} (hcontent : p.content s.options.version ≠ [])
    (hbare : ¬ p.Bare) (hfits : ¬ p.Fits s.options.version bufSize) :
    ∃ e tx, sendPacket p s = .error (.err e) (s.withTx tx) := by
  have hroom := (encode_of_not_bare hbare s.options.version).2
  have hunfit : ¬ (p.Encodable ∧
      5 + (p.content s.options.version).length ≤ s.txBuffer.bytes.length) := by
    rw [← hroom, s.txBuffer.length_eq]
    exact hfits
  obtain ⟨e, buf', hencode⟩ := encode_refuses hcontent hunfit
  refine ⟨.fromPacketError e, s.txBuffer.setTail 0 buf', ?_⟩
  have htx := encodeTx_zero s p
  rw [hencode] at htx
  rw [sendPacket, run_bind htx]
  rfl

/-- A packet that is encoded beyond the end of the buffer panics. -/
theorem sendPacket_panics {p : MqttPacket} (hbare : ¬ p.Bare)
    (hfits : p.Fits s.options.version bufSize)
    (hlong : bufSize < (p.encoded s.options.version).length) :
    ∃ s', sendPacket p s = .error .panic s' := by
  have hsize := s.txBuffer.length_eq
  obtain ⟨buf', hpanics⟩ :=
    encode_panics hbare hfits.1 (hfits.2.trans hsize.ge) (hsize.trans_lt hlong)
  have htx := encodeTx_zero s p
  rw [hpanics] at htx
  exact ⟨_, by rw [sendPacket, run_bind htx]; rfl⟩

/-! ### The exits -/

/-- `connect` from the received bytes on. -/
def finishConnect (readLen : ℕ) : ClientM E bufSize maxInflight Unit :=
  if readLen = 0 then do
    setState .disconnected
    fail .notConnected
  else do
    match ← decodeRx readLen with
    | some (.connAck connack) =>
      if connack.reasonCode = 0 then
        modify fun s => { s with state := .connected, inflight := .empty }
      else do
        setState .disconnected
        fail (.connectionRefused (.fromByte connack.reasonCode))
    | _ => do
      setState .disconnected
      fail (.protocol .invalidResponse)

theorem connect_eq (c : MqttClient E bufSize maxInflight) (now : ℕ) :
    connect now c = (sendPacket (connectOf c) >>= fun _ => setLastTx now >>= fun _ =>
      recv >>= finishConnect) { c with state := .connecting } := rfl

theorem decodeRx_of_range {n : ℕ} {bytes : List UInt8}
    (h : (range s.rxBuffer.bytes 0 n : Checked PacketError (List UInt8)) = .ok bytes) :
    decodeRx n s = lift (decode bytes s.options.version) s := by
  change (lift (range s.rxBuffer.bytes 0 n) >>= fun bytes =>
    lift (decode bytes s.options.version)) s = _
  rw [h]
  rfl

/-- An answer settles the state if it can be decoded. -/
theorem settles_finishConnect {n : ℕ} {bytes : List UInt8} (hstate : s.state = .connecting)
    (hn : n ≠ 0) (h : (range s.rxBuffer.bytes 0 n : Checked PacketError (List UInt8)) = .ok bytes) :
    Settles (finishConnect n s) ↔ ∀ e, decode bytes s.options.version ≠ .error (.err e) := by
  have hdecode := decodeRx_of_range h
  rw [finishConnect, if_neg hn]
  rcases hpacket : decode bytes s.options.version with (e | _ | _) | packet
  all_goals
    rw [hpacket] at hdecode
  · rw [run_bind_error (e := .err (.fromPacketError e)) hdecode]
    simp [Settles, hstate]
  · rw [run_bind_error (e := .panic) hdecode]
    simp [Settles]
  · rw [run_bind_error (e := .diverge) hdecode]
    simp [Settles]
  · rw [run_bind (a := packet) hdecode]
    simp only [reduceCtorEq, not_false_eq_true, implies_true, iff_true, ne_eq]
    split
    · split
      · rfl
      · rfl
    · rfl

/-- A receive settles the state if it does not fail, and what it returns can be decoded. -/
theorem settles_recv (hstate : s.state = .connecting) :
    Settles ((recv >>= finishConnect) s) ↔
      (∀ e later, s.transport.incoming ≠ .error e :: later) ∧
      ∀ chunk later, s.transport.incoming = .ok chunk :: later → chunk.toList ≠ [] →
        ∀ e, decode chunk.toList s.options.version ≠ .error (.err e) := by
  rcases hincoming : s.transport.incoming with _ | ⟨e | chunk, later⟩
  · have hrecv : recv s = .error .diverge s := by rw [recv, hincoming]
    rw [run_bind_error hrecv]
    simp [Settles]
  · have hrecv : recv s = .error (.err (.transport e)) (withIncoming s later) := by
      rw [recv, hincoming]
      rfl
    rw [run_bind_error hrecv]
    simp [Settles, withIncoming, hstate]
  · have hrecv : recv s =
        .ok chunk.toList.length { taken s chunk later with rxLen := s.rxLen } := by
      rw [recv, hincoming]
      rfl
    rw [run_bind hrecv]
    by_cases hne : chunk.toList = []
    · have hquiet : Settles (finishConnect chunk.toList.length
          { taken s chunk later with rxLen := s.rxLen }) := by
        rw [finishConnect, if_pos (by rw [hne]; rfl)]
        rfl
      exact iff_of_true hquiet ⟨by simp, by simp +contextual [hne]⟩
    · rw [settles_finishConnect (s := { taken s chunk later with rxLen := s.rxLen }) hstate
        (by simpa using hne) (range_rxBuffer s chunk later)]
      simp [hne, taken]

/-- Beyond the CONNECT, `connect` settles the state if the transport answers. -/
theorem settles_send (bytes : List UInt8) (now : ℕ) (hstate : s.state = .connecting) :
    Settles ((send bytes >>= fun _ => setLastTx now >>= fun _ => recv >>= finishConnect) s) ↔
      AnswersConnect s.options.version s.transport := by
  have hanswers : AnswersConnect s.options.version s.transport ↔
      (∀ e results, s.transport.sendResults ≠ some e :: results) ∧
      (∀ e later, s.transport.incoming ≠ .error e :: later) ∧
      ∀ chunk later, s.transport.incoming = .ok chunk :: later → chunk.toList ≠ [] →
        ∀ e, decode chunk.toList s.options.version ≠ .error (.err e) :=
    ⟨fun h => ⟨h.sends, h.receives, h.decodes⟩, fun h => ⟨h.1, h.2.1, h.2.2⟩⟩
  have hsent (results : List (Option E)) (h : send bytes s = .ok () (s.afterSend s.txBuffer results bytes)) :
      Settles ((send bytes >>= fun _ => setLastTx now >>= fun _ => recv >>= finishConnect) s) ↔
        (∀ e later, s.transport.incoming ≠ .error e :: later) ∧
        ∀ chunk later, s.transport.incoming = .ok chunk :: later → chunk.toList ≠ [] →
          ∀ e, decode chunk.toList s.options.version ≠ .error (.err e) := by
    rw [run_bind h]
    exact settles_recv (s := { s.afterSend s.txBuffer results bytes with lastTxTime := now }) hstate
  rw [hanswers]
  rcases hresults : s.transport.sendResults with _ | ⟨_ | e, results⟩
  · rw [hsent [] (send_of_nil hresults bytes)]
    simp
  · rw [hsent results (by simp only [send, hresults]; rfl)]
    simp
  · have hfails : send bytes s = .error (.err (.transport e))
        { s with transport := { s.transport with sendResults := results } } := by
      simp only [send, hresults]
    rw [run_bind_error hfails]
    simp [Settles, hstate]

/-- `connect` settles the state exactly on a clean connect. -/
theorem connectSettles_iff (c : MqttClient E bufSize maxInflight) (now : ℕ) :
    ConnectSettles c now ↔ ConnectClean c := by
  have hbare : ¬ (connectOf c).Bare := by simp [MqttPacket.Bare, connectOf]
  rw [ConnectSettles, connect_eq]
  by_cases hfits : (connectOf c).Fits c.options.version bufSize
  · by_cases hmove : ((connectOf c).encoded c.options.version).length ≤ bufSize
    · obtain ⟨tx, hsend⟩ := sendPacket_of_room (s := { c with state := .connecting }) hfits hmove
      rw [run_bind_congr hsend, settles_send _ now rfl]
      exact ⟨fun h => ⟨hfits, fun _ => h⟩, fun h => h.answers hmove⟩
    · obtain ⟨s', hpanics⟩ := sendPacket_panics (s := { c with state := .connecting }) hbare hfits
        (Nat.lt_of_not_le hmove)
      rw [run_bind_error hpanics]
      exact iff_of_true trivial ⟨hfits, fun hle => absurd hle hmove⟩
  · obtain ⟨e, tx, hrefused⟩ := sendPacket_refused (s := { c with state := .connecting })
      (p := connectOf c) (content_connect _ _) hbare hfits
    rw [run_bind_error hrefused]
    exact iff_of_false (by simp [Settles, withTx]) fun h => hfits h.fits

/-! ## The other operations -/

/-- The client is not connecting. -/
def Settled (c : MqttClient E bufSize maxInflight) : Prop := c.state ≠ .connecting

theorem upheld_settled : Upheld (Settled : MqttClient E bufSize maxInflight → Prop) where
  sent bytes s hs := by
    rw [Ends, send]
    rcases s.transport.sendResults with _ | ⟨_ | e, results⟩ <;> exact hs
  received s hs := by
    rw [Ends, recv]
    rcases s.transport.incoming with _ | ⟨e | chunk, later⟩ <;> exact hs
  encoded _ _ hs := hs
  touched _ := Preserves.modify fun _ hs => hs
  filled _ := Preserves.modify fun _ hs => hs
  disconnected := Preserves.modify fun _ _ => by simp [Settled]
  tabled _ _ := Preserves.modify fun _ hs => hs

/-- All calls but those of `connect` leave a client settled. -/
theorem settled_exec (call : ClientCall) (hcall : ∀ now, call ≠ .connect now) :
    Preserves Settled
      (call.exec : ClientM E bufSize maxInflight (Option MqttStreamWriter)) :=
  upheld_exec (fun _ hs => hs) (preserves_trackOutbound fun _ _ hs => hs) upheld_settled call hcall

/-! ## Runs -/

/-- The condition under which `connect` settles the state, for a call in a run. -/
def ConnectsCleanly (s : ClientSystem E bufSize maxInflight) (call : Call E bufSize) : Prop :=
  ∀ now, call = .client (.connect now) → ConnectClean s.client

theorem settled_connect (hclean : ConnectClean c) (now : ℕ) :
    Ends (connect now) c (fun _ c' => Settled c') fun e c' => (∃ e', e = .err e') → Settled c' := by
  have hsettles := (connectSettles_iff c now).mpr hclean
  rw [ConnectSettles] at hsettles
  rw [Ends]
  rcases hrun : connect now c with ⟨_, c'⟩ | ⟨e | _ | _, c'⟩
  all_goals
    rw [hrun] at hsettles
    simp_all [Settles, Settled]

theorem settled_step {s t : ClientSystem E bufSize maxInflight} {call : Call E bufSize}
    (h : Settled s.client) (hok : ConnectsCleanly s call) (hstep : s.step call = some t) :
    Settled t.client := by
  refine step_keeps upheld_settled.sent (fun _ _ hc => hc) ?_ h hstep
  rintro call' rfl
  by_cases hconnect : ∃ now, call' = .connect now
  · obtain ⟨now, rfl⟩ := hconnect
    exact Ends.bind (settled_connect (hok now rfl) now)
  · exact (settled_exec call' (by simpa using hconnect) s.client h).mono (fun _ _ h => h)
      fun _ _ h _ => h

end

/-- `connect` leaves the client connected on success and disconnected on an error exactly if the
CONNECT fits and is sent, and the answer can be received and decoded. If all calls of `connect` are
like that, nobody sees the client connecting. -/
theorem connectSettles {E : Type} {bufSize maxInflight : ℕ} :
    (∀ (c : MqttClient E bufSize maxInflight) (now : ℕ), ConnectSettles c now ↔ ConnectClean c) ∧
    ∀ s t : ClientSystem E bufSize maxInflight, s.client.state ≠ .connecting →
      Runs ConnectsCleanly s t → t.client.state ≠ .connecting := by
  refine ⟨connectSettles_iff, fun s t hs hrun => ?_⟩
  exact hrun.invariant (I := fun s => Settled s.client) hs fun s t call h hok hstep =>
    settled_step h hok hstep

/-- A client that receives an accepting CONNACK. -/
def answeredClient : ClientSystem Unit 64 4 := start plainOptions [.ok connAckAccepted] 0

theorem connectClean_answered : ConnectClean answeredClient.client where
  fits := by decide +kernel
  answers _ :=
    { sends := by simp [answeredClient, start, MqttClient.new]
      receives := by simp [answeredClient, start, MqttClient.new]
      decodes := by
        intro chunk later h _ e
        cases h
        have hdecode : decode connAckAccepted.toList plainOptions.version =
            .ok (some (.connAck ⟨false, 0, .empty⟩)) := rfl
        exact fun herror => by cases hdecode.symm.trans herror }

/-- A run of one call. -/
theorem connectSettles_run : ∃ t : ClientSystem Unit 64 4,
    Runs ConnectsCleanly answeredClient t ∧ ConnectSettles answeredClient.client 0 ∧
      t.client.state ≠ .connecting := by
  obtain ⟨t, ht⟩ : ∃ t, answeredClient.step (.client (.connect 0)) = some t :=
    Option.isSome_iff_exists.mp (by decide +kernel)
  have hrun : Runs ConnectsCleanly answeredClient t :=
    .single ⟨_, fun _ _ => connectClean_answered, ht⟩
  exact ⟨t, hrun, (connectSettles.1 _ 0).mpr connectClean_answered,
    connectSettles.2 _ t (by decide) hrun⟩

/-- The receive fails, and the client stays connecting. -/
theorem connecting_after_failure :
    ¬ ∀ (c : MqttClient Unit 64 4) (now : ℕ), ConnectSettles c now := by
  intro h
  have hclean := (connectSettles_iff _ 0).mp (h (.new ⟨[], [], [.error ()]⟩ plainOptions 0) 0)
  exact (hclean.answers (by decide +kernel)).receives () [] rfl

end MqttEngine
