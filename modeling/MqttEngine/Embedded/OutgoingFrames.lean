import MqttEngine.Embedded.Publishing
import MqttEngine.Embedded.System

/-!
# What the embedded client sends is a sequence of frames

Every operation hands over whole frames, except that `begin_stream_publish` leaves a frame
open for the writer that it returns. Two things break the sequence: a writer that ends before
its frame is complete, and a stream whose topic does not fit the 256 bytes of the variable
header, which is refused after its fixed header has been sent. `Call.Whole` leaves out the
calls that do this, and `frames_sent` says that in all other runs the bytes sent since
`connect` are a sequence of frames whenever no writer is alive.

## Main definitions

* `Sends` — what has been handed to `send` between two states.
* `Call.Whole` — the call does not leave a frame open for good.

## Main results

* `framed_exec`, `writer_exec` — what a call hands over.
* `frames_sent` — the sequence of frames.
* `frames_broken` — a stream with a topic of 255 bytes.
-/

namespace MqttEngine
open Checked

namespace MqttClient
variable {E : Type} {bufSize maxInflight : ℕ}

/-- From `s` to `s'` the buffers `new` have been handed to `send`, and no send fails. -/
structure Sends (s s' : MqttClient E bufSize maxInflight) (new : List (List UInt8)) : Prop where
  options : s'.options = s.options
  sendResults : s'.transport.sendResults = []
  sent : s'.transport.sent = s.transport.sent ++ new

/-- From `s` to `s'` whole frames have been handed over. -/
def Framed (s s' : MqttClient E bufSize maxInflight) : Prop :=
  ∃ new, Sends s s' new ∧ framing.Sequence new.flatten

section
variable {s s' s'' : MqttClient E bufSize maxInflight} {new new' : List (List UInt8)}

theorem Sends.refl (h : s.transport.sendResults = []) : Sends s s [] := ⟨rfl, h, by simp⟩

theorem Sends.trans (h : Sends s s' new) (h' : Sends s' s'' new') : Sends s s'' (new ++ new') :=
  ⟨h'.options.trans h.options, h'.sendResults, by rw [h'.sent, h.sent, List.append_assoc]⟩

theorem Sends.newlySent (h : Sends s s' new) : ClientSystem.newlySent s s' = new := by
  rw [ClientSystem.newlySent, h.sent, List.drop_left]

/-- The steps of an operation hand over whole frames. -/
theorem Moves.framed {P : MqttPacket → Prop} (h : Moves P s s')
    (hsend : s.transport.sendResults = [])
    (hP : ∀ p, P p → p.Measured s.options.version bufSize) :
    Framed s s' := by
  induction h with
  | refl => exact ⟨[], Sends.refl hsend, Framing.sequence_nil⟩
  | tail hmoves hmove ih =>
    obtain ⟨new, hnew, hseq⟩ := ih
    cases hmove with
    | quiet hlocal =>
      have hresults := hlocal.sendResults
      rw [hnew.sendResults, List.suffix_nil] at hresults
      exact ⟨new, ⟨hlocal.options.trans hnew.options, hresults, hlocal.sent.trans hnew.sent⟩, hseq⟩
    | @send tx sendResults bytes p hresults hp hbytes =>
      rw [hnew.sendResults, List.suffix_nil] at hresults
      rw [hnew.options] at hbytes
      obtain ⟨hfits, rfl⟩ := hbytes (hP p hp)
      refine ⟨new ++ [p.wire s.options.version], ⟨hnew.options, hresults, ?_⟩, ?_⟩
      · rw [sent_afterSend, hnew.sent, List.append_assoc]
      · rw [List.flatten_append, List.flatten_singleton]
        exact hseq.append (isFrame_wire (hP p hp hfits.1 hfits.2)).sequence
    | table => exact ⟨new, ⟨hnew.options, hnew.sendResults, hnew.sent⟩, hseq⟩

/-- What has been handed over in whole packets is a sequence of frames. -/
theorem Handed.framed {chunks : List (List MqttPacket)} {lost : Set UInt16}
    (h : Handed s s' chunks lost) : Framed s s' := by
  refine ⟨_, ⟨h.options, h.sendResults, h.sent⟩, ?_⟩
  apply Framing.sequence_flatten
  intro bytes hbytes
  obtain ⟨ps, hps, rfl⟩ := List.mem_map.mp hbytes
  rw [List.flatMap_def]
  apply Framing.sequence_flatten
  intro frame hframe
  obtain ⟨p, hp, rfl⟩ := List.mem_map.mp hframe
  exact (isFrame_wire (h.whole p (List.mem_flatten.mpr ⟨ps, hps, hp⟩))).sequence

end

end MqttClient

open MqttClient ClientSystem

section
variable {E : Type} {bufSize maxInflight : ℕ}

/-! ## Calls that keep the frames whole -/

/-- The call hands over whole frames, or a frame that its writer can complete. -/
def ClientCall.Whole (c : MqttClient E bufSize maxInflight) : ClientCall → Prop
  | .connect _ => (MqttPacket.connect (connectPacket c.options)).Measured c.options.version bufSize
  | .publish topic payload qos _ => c.state = .connected →
    (MqttPacket.publish (publishPacket topic payload qos none)).Measured c.options.version bufSize
  | .publishBatch messages _ => c.state = .connected → ∀ msg ∈ messages,
    (MqttPacket.publish (msg.packet none)).Measured c.options.version bufSize
  | .beginStreamPublish topic total qos _ => c.state = .connected →
    match reserve c.inflight c.nextPacketId qos with
    | some (id, _, _) =>
      HeaderFits c.options.version topic qos ∧
        (streamContent c.options.version topic id).length + total < 128 ^ 4
    | none => True
  | _ => True

instance (c : MqttClient E bufSize maxInflight) (call : ClientCall) : Decidable (call.Whole c) := by
  unfold ClientCall.Whole
  split
  case h_4 => split <;> infer_instance
  all_goals infer_instance

/-- The call does not leave a frame open for good. -/
def Call.Whole (s : ClientSystem E bufSize maxInflight) : Call E bufSize → Prop
  | .client call => call.Whole s.client
  | .writer .finish | .writer .drop => ∀ writer ∈ s.writer, writer.bytesRemaining = 0
  | _ => True

instance (s : ClientSystem E bufSize maxInflight) (call : Call E bufSize) :
    Decidable (call.Whole s) := by
  unfold Call.Whole
  split <;> infer_instance

/-- What is left to do after a call on the client: nothing, or to complete a frame. -/
def Left (c c' : MqttClient E bufSize maxInflight) : Option MqttStreamWriter → Prop
  | none => Framed c c'
  | some writer => ∃ new, Sends c c' new ∧ framing.Opened writer.bytesRemaining new.flatten

variable {c : MqttClient E bufSize maxInflight}

theorem left_of_moves {α : Type} {x : ClientM E bufSize maxInflight α} {P : MqttPacket → Prop}
    (hx : Preserves (Moves P c) x) (hsend : c.transport.sendResults = [])
    (hP : ∀ p, P p → p.Measured c.options.version bufSize) :
    Ends (do let _ ← x; pure none : ClientM E bufSize maxInflight (Option MqttStreamWriter)) c
      (fun writer c' => Left c c' writer) fun _ c' => Framed c c' := by
  apply Ends.bind
  exact (hx c .refl).mono (fun _ _ h => h.framed hsend hP) fun _ _ h => h.framed hsend hP

/-- A stream whose header is refused is not whole. -/
theorem MqttClient.Refused.not_whole {c' : MqttClient E bufSize maxInflight} {topic : String}
    {total now : ℕ} {qos : QoS} {id : Option UInt16} (h : Refused c c' topic total qos id) :
    ¬ (ClientCall.beginStreamPublish topic total qos now).Whole c := by
  intro hwhole
  obtain ⟨inflight, next, hreserve, -⟩ := h.reserved
  have hid : id = none ↔ qos = .atMostOnce := by
    rw [reserve_id hreserve]
    simp
  have hwhole := hwhole h.connected
  rw [hreserve, headerFits_iff hid] at hwhole
  rcases h.long with hlong | hlong
  · omega
  · omega

/-- What a call on the client hands over, also if it panics. -/
theorem framed_exec (hsend : c.transport.sendResults = []) {call : ClientCall}
    (hwhole : call.Whole c) :
    Ends call.exec c (fun writer c' => Left c c' writer) fun _ c' => Framed c c' := by
  have hshort (p : MqttPacket) (h : p.Short) : p.Measured c.options.version bufSize :=
    h.measured _ _
  have hack (p : MqttPacket) (h : p.IsAck) : p.Short := short_of_isAck h
  have hmoves {α : Type} {x : ClientM E bufSize maxInflight α}
      (hx : Preserves (Moves MqttPacket.Short c) x) := left_of_moves hx hsend hshort
  cases call with
  | connect now =>
    apply left_of_moves (P := (· = .connect (connectPacket c.options))) (moves_connect now rfl)
      hsend
    intro p hp
    rw [hp]
    exact hwhole
  | publish topic payload qos now =>
    apply Ends.bind
    refine (publish_ends hsend topic payload qos now hwhole).mono ?_ ?_
    · intro _ c' hhanded
      obtain ⟨p, hhanded⟩ := hhanded
      exact hhanded.framed
    · intro _ c' hhanded
      obtain ⟨lost, hhanded, -⟩ := hhanded
      exact hhanded.framed
  | publishBatch messages now =>
    apply Ends.bind
    refine (publishBatch_ends hsend messages now hwhole).mono ?_ ?_
    · intro _ c' hhanded
      obtain ⟨chunks, hhanded⟩ := hhanded
      exact hhanded.framed
    · intro _ c' hhanded
      obtain ⟨chunks, lost, hhanded, -⟩ := hhanded
      exact hhanded.framed
  | beginStreamPublish topic total qos now =>
    apply Ends.bind
    refine (beginStreamPublish_ends hsend topic total qos now).mono ?_ ?_
    · rintro writer c' ⟨rfl, id, hbegun, -⟩
      obtain ⟨inflight, next, hreserve, -⟩ := hbegun.reserved
      have hwhole := hwhole hbegun.connected
      rw [hreserve] at hwhole
      refine ⟨_, ⟨hbegun.options, hbegun.sendResults, hbegun.sent⟩, ?_⟩
      have hopened := opened_header (streamFlags qos) hwhole.2 rfl
      simpa [streamHeader] using hopened
    · rintro _ c' (hhanded | ⟨id, hrefused⟩)
      · exact hhanded.framed
      · exact absurd hwhole hrefused.not_whole
  | subscribe topics now =>
    exact hmoves (moves_subscribe topics now fun _ => short_subscribe)
  | unsubscribe topics now =>
    exact hmoves (moves_unsubscribe topics now fun _ => short_unsubscribe)
  | poll now => exact hmoves (moves_poll now short_pingReq hack)
  | pollBatch maxEvents => exact hmoves (moves_pollBatch maxEvents hack)
  | disconnect => exact hmoves (moves_disconnect short_disconnect)

/-! ## The stream writer -/

theorem sends_send (hsend : c.transport.sendResults = []) (bytes : List UInt8) :
    ∃ c', send bytes c = .ok () c' ∧ Sends c c' [bytes] :=
  ⟨_, send_of_nil hsend bytes, rfl, rfl, rfl⟩

theorem sendVectored_cons (slice : List UInt8) (slices : List (List UInt8)) :
    (sendVectored (slice :: slices) : ClientM E bufSize maxInflight Unit) =
      (if slice ≠ [] then send slice else pure ()) >>= fun _ => sendVectored slices := rfl

theorem sends_sendVectored (hsend : c.transport.sendResults = []) (slices : List (List UInt8)) :
    ∃ c' new, sendVectored slices c = .ok () c' ∧ Sends c c' new ∧ new.flatten = slices.flatten := by
  induction slices generalizing c with
  | nil => exact ⟨c, [], rfl, Sends.refl hsend, rfl⟩
  | cons slice slices ih =>
    by_cases hempty : slice = []
    · obtain ⟨c', new, hrun, hnew, hflat⟩ := ih hsend
      refine ⟨c', new, ?_, hnew, by rw [hflat, hempty, List.flatten_cons, List.nil_append]⟩
      rw [← hrun, sendVectored_cons, if_neg (not_not.mpr hempty)]
      rfl
    · obtain ⟨c₁, hrun₁, hnew₁⟩ := sends_send hsend slice
      obtain ⟨c', new, hrun, hnew, hflat⟩ := ih hnew₁.sendResults
      refine ⟨c', [slice] ++ new, ?_, hnew₁.trans hnew, by simp [hflat]⟩
      rw [sendVectored_cons, if_pos hempty, run_bind hrun₁]
      exact hrun

/-- What a call on the writer hands over: no more than what is missing, and nothing if the
writer ends or an error is returned. -/
theorem writer_exec (hsend : c.transport.sendResults = []) (writer : MqttStreamWriter)
    (call : WriterCall) :
    Ends (call.exec writer) c
      (fun left c' => ∃ new, Sends c c' new ∧
        match left with
        | some writer' => new.flatten.length ≤ writer.bytesRemaining ∧
            writer'.bytesRemaining = writer.bytesRemaining - new.flatten.length
        | none => new = [] ∧ (call = .finish ∨ call = .drop))
      fun _ c' => Sends c c' [] := by
  cases call with
  | writeChunk chunk =>
    apply Ends.bind
    by_cases hlarge : chunk.length > writer.bytesRemaining
    · rw [Ends, writeChunk, if_pos hlarge]
      exact Sends.refl hsend
    · obtain ⟨c', hrun, hnew⟩ := sends_send hsend chunk
      rw [Ends, writeChunk, if_neg hlarge, run_bind hrun]
      refine ⟨[chunk], hnew, ?_⟩
      rw [List.flatten_singleton]
      exact ⟨Nat.le_of_not_gt hlarge, rfl⟩
  | writeDmaVectored slices =>
    apply Ends.bind
    by_cases hlarge : (slices.map List.length).sum > writer.bytesRemaining
    · rw [Ends, writeDmaVectored, if_pos hlarge]
      exact Sends.refl hsend
    · obtain ⟨c', new, hrun, hnew, hflat⟩ := sends_sendVectored hsend slices
      rw [Ends, writeDmaVectored, if_neg hlarge, run_bind hrun]
      refine ⟨new, hnew, ?_⟩
      rw [hflat, List.length_flatten]
      exact ⟨Nat.le_of_not_gt hlarge, rfl⟩
  | finish =>
    apply Ends.bind
    by_cases hdone : writer.bytesRemaining = 0
    · rw [Ends, finish, if_pos hdone]
      exact ⟨[], Sends.refl hsend, rfl, .inl rfl⟩
    · rw [Ends, finish, if_neg hdone]
      exact Sends.refl hsend
  | drop => exact ⟨[], Sends.refl hsend, rfl, .inr rfl⟩

/-! ## Runs -/

/-- The invariant of a run: frames, and behind them the frame that the writer is to complete. -/
structure Framing.Holds (s : ClientSystem E bufSize maxInflight) : Prop where
  sendResults : s.client.transport.sendResults = []
  closed : s.writer = none → framing.Sequence s.attempt.flatten
  opened : ∀ writer, s.writer = some writer → ∃ frames part, s.attempt.flatten = frames ++ part ∧
    framing.Sequence frames ∧ framing.Opened writer.bytesRemaining part

/-- A call on the client keeps the invariant: what it hands over is put behind what has been
handed over before, or starts anew. -/
theorem holds_of_left {s t : ClientSystem E bufSize maxInflight} (h : Framing.Holds s)
    (hwriter : s.writer = none) (hleft : Left s.client t.client t.writer)
    (hattempt : t.attempt = newlySent s.client t.client ∨
      t.attempt = s.attempt ++ newlySent s.client t.client) : Framing.Holds t := by
  have hfront : ∃ front, framing.Sequence front ∧
      t.attempt.flatten = front ++ (newlySent s.client t.client).flatten := by
    rcases hattempt with hattempt | hattempt
    · exact ⟨[], Framing.sequence_nil, by rw [hattempt, List.nil_append]⟩
    · exact ⟨_, h.closed hwriter, by rw [hattempt, List.flatten_append]⟩
  obtain ⟨front, hseq, hflat⟩ := hfront
  rcases hw : t.writer with _ | writer
  · rw [hw] at hleft
    obtain ⟨new, hnew, hwhole⟩ := hleft
    rw [hnew.newlySent] at hflat
    refine ⟨hnew.sendResults, fun _ => ?_, by simp [hw]⟩
    rw [hflat]
    exact hseq.append hwhole
  · rw [hw] at hleft
    obtain ⟨new, hnew, hopened⟩ := hleft
    rw [hnew.newlySent] at hflat
    refine ⟨hnew.sendResults, by simp [hw], ?_⟩
    intro writer' hwriter'
    rw [hw] at hwriter'
    cases hwriter'
    exact ⟨front, new.flatten, hflat, hseq, hopened⟩

/-- A call keeps the invariant. -/
theorem holds_step {s t : ClientSystem E bufSize maxInflight} {call : Call E bufSize}
    (h : Framing.Holds s) (hwhole : call.Whole s) (hstep : s.step call = some t) :
    Framing.Holds t := by
  cases call with
  | client call =>
    obtain ⟨hwriter, hstep⟩ := step_client hstep
    have hexec := framed_exec h.sendResults hwhole
    rcases hstep with ⟨writer, client, hrun, rfl⟩ | ⟨e, client, hrun, rfl⟩
    · have hleft := hexec.ok_of hrun
      cases call
      case connect => exact holds_of_left h hwriter hleft (.inl rfl)
      all_goals exact holds_of_left h hwriter hleft (.inr rfl)
    · have hleft := hexec.error_of hrun
      cases call
      case connect => exact holds_of_left h hwriter hleft (.inl rfl)
      all_goals exact holds_of_left h hwriter hleft (.inr rfl)
  | writer call =>
    obtain ⟨writer, hwriter, hstep⟩ := step_writer hstep
    obtain ⟨frames, part, hflat, hseq, hopened⟩ := h.opened writer hwriter
    have hexec := writer_exec h.sendResults writer call
    -- A writer that ends has completed its frame.
    have hended (hcall : call = .finish ∨ call = .drop) : framing.Sequence s.attempt.flatten := by
      have hdone : writer.bytesRemaining = 0 := by
        rcases hcall with rfl | rfl
        · exact hwhole writer hwriter
        · exact hwhole writer hwriter
      rw [hdone, Framing.opened_zero] at hopened
      rw [hflat]
      exact hseq.append hopened.sequence
    rcases hstep with ⟨left, client, hrun, rfl⟩ | ⟨e, client, hrun, rfl⟩
    · obtain ⟨new, hnew, hleft⟩ := hexec.ok_of hrun
      have hflat' : (s.afterWriter left client).attempt.flatten =
          s.attempt.flatten ++ new.flatten := by
        rw [afterWriter, hnew.newlySent, List.flatten_append]
      rcases left with _ | writer'
      · obtain ⟨rfl, hcall⟩ := hleft
        refine ⟨hnew.sendResults, fun _ => ?_, by simp [afterWriter]⟩
        rw [hflat', List.flatten_nil, List.append_nil]
        exact hended hcall
      · obtain ⟨hle, hremaining⟩ := hleft
        refine ⟨hnew.sendResults, by simp [afterWriter], ?_⟩
        intro writer'' hwriter''
        cases hwriter''
        refine ⟨frames, part ++ new.flatten, ?_, hseq, ?_⟩
        · rw [hflat', hflat, List.append_assoc]
        · rw [hremaining]
          exact hopened.append hle
    · have hnew := hexec.error_of hrun
      have hattempt (left : Option MqttStreamWriter) :
          (s.afterWriter left client).attempt = s.attempt := by
        rw [afterWriter, hnew.newlySent, List.append_nil]
      refine ⟨hnew.sendResults, ?_, ?_⟩
      · intro hnone
        rw [hattempt]
        cases call
        case finish => exact hended (.inl rfl)
        case drop => exact hended (.inr rfl)
        all_goals cases hnone
      · intro writer' hwriter'
        rw [hattempt]
        cases call
        case finish => cases hwriter'
        case drop => cases hwriter'
        all_goals
          cases hwriter'
          exact h.opened writer hwriter
  | receive result =>
    cases hstep
    exact ⟨h.sendResults, h.closed, h.opened⟩

/-- In a run whose calls leave no frame open for good, what has been sent since `connect` is a
sequence of frames whenever no writer is alive. -/
theorem frames_sent {options : MqttOptions} {incoming : List (Except E (BoundedVec UInt8 bufSize))}
    {now : ℕ} {t : ClientSystem E bufSize maxInflight}
    (hrun : Runs (fun s call => call.Whole s) (start options incoming now) t)
    (hwriter : t.writer = none) : framing.Sequence t.attempt.flatten := by
  have hstart : Framing.Holds (start options incoming now : ClientSystem E bufSize maxInflight) :=
    ⟨rfl, fun _ => Framing.sequence_nil, by simp [start]⟩
  exact (hrun.invariant hstart fun _ _ _ => holds_step).closed hwriter

end

/-- A stream that is completed between two other packets. -/
theorem frames_sent_stream : ∃ t : ClientSystem Unit 64 4,
    run (fun s call => call.Whole s)
      [.client (.connect 0), .client (.beginStreamPublish "a" 3 .atLeastOnce 0),
        .writer (.writeChunk [1, 2]), .writer (.writeDmaVectored [[], [3]]), .writer .finish,
        .client .disconnect]
      (start plainOptions [.ok connAckAccepted] 0) = some t ∧
    t.attempt.length = 6 ∧ framing.Sequence t.attempt.flatten := by
  have heval : (run (fun s call => call.Whole s)
      [.client (.connect 0), .client (.beginStreamPublish "a" 3 .atLeastOnce 0),
        .writer (.writeChunk [1, 2]), .writer (.writeDmaVectored [[], [3]]), .writer .finish,
        .client .disconnect]
      (start plainOptions [.ok connAckAccepted] 0 : ClientSystem Unit 64 4)).map
        (fun t => (t.writer, t.attempt.length)) = some (none, 6) := by decide +kernel
  obtain ⟨t, hrun, ht⟩ := Option.map_eq_some_iff.mp heval
  rw [Prod.mk.injEq] at ht
  exact ⟨t, hrun, ht.2, frames_sent (runs_of_run hrun) ht.1⟩

/-- The fixed header of a stream whose topic is refused stays behind without its frame. -/
theorem frames_broken :
    ¬ ∀ t : ClientSystem Unit 64 4,
      Runs (fun _ _ => True) (start plainOptions [.ok connAckAccepted] 0) t → t.writer = none →
        framing.Sequence t.attempt.flatten := by
  intro hall
  have heval : (run (fun _ _ => True)
      [.client (.connect 0),
        .client (.beginStreamPublish (String.ofList (List.replicate 255 'a')) 0 .atMostOnce 0)]
      (start plainOptions [.ok connAckAccepted] 0 : ClientSystem Unit 64 4)).map
        (fun t => (t.writer, t.attempt)) =
      some (none, [[0x10, 13, 0, 4, 77, 81, 84, 84, 4, 2, 0, 60, 0, 1, 99], [0x30, 0x81, 0x02]]) := by
    decide +kernel
  obtain ⟨t, hrun, ht⟩ := Option.map_eq_some_iff.mp heval
  rw [Prod.mk.injEq] at ht
  have hrest := (hall t (runs_of_run hrun) ht.1).split_rest
  have hconnect : framing.IsFrame [0x10, 13, 0, 4, 77, 81, 84, 84, 4, 2, 0, 60, 0, 1, 99] := by
    rfl
  rw [ht.2, List.flatten_cons, List.flatten_singleton, Framing.split_append_of_isFrame hconnect,
    Framing.split_of_incomplete] at hrest
  · cases hrest
  · intro n hn
    have hsize : framing.size [0x30, 0x81, 0x02] = some 260 := rfl
    rw [hsize] at hn
    cases hn
    decide

end MqttEngine
