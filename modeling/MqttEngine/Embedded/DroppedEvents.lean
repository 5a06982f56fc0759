import MqttEngine.Embedded.Batching
import MqttEngine.Packet.Iteration

/-!
# Messages that are acknowledged and dropped

`poll_batch` acknowledges a PUBLISH as soon as it has decoded it, and gives the application what it
has received at the end: a vector with room for a number of events, or an error if a frame behind
it cannot be handled. `beforeFailure` are the packets that come before the first failure, whatever
the frames, and the loop has acknowledged exactly those.

## Main definitions

* `beforeFailure` — the packets that are handled, and whether all are.
* `acknowledged` — the events of the PUBLISHes that call for an acknowledgement.
* `AckedDelivered` — every PUBLISH that is acknowledged is given to the application.

## Main results

* `pollBatchLoop_failure` — the frame loop on any frames, for any room.
* `ackedDelivered_iff` — when no PUBLISH is acknowledged and dropped.
-/

namespace MqttEngine
open Checked MqttClient

section
variable {E : Type} {bufSize maxInflight : ℕ}

/-! ## The packets before a failure -/

/-- The packets of the frames up to the first that fails, and whether none does. A frame fails if it
cannot be decoded, or if its packet cannot be acknowledged. -/
def beforeFailure (size : ℕ) (version : MqttVersion) :
    List (Option E) → List (List UInt8) → List MqttPacket × Bool
  | _, [] => ([], true)
  | results, f :: fs =>
    match decode f version with
    | .ok (some p) =>
      if p.Unanswered size results then ([], false)
      else (beforeFailure size version (results.drop p.acks.length) fs).map (p :: ·) fun all => all
    | .ok none => beforeFailure size version results fs
    | .error _ => ([], false)

/-- A frame is not empty, so that a packet is decoded or an error is returned. -/
theorem decode_of_isFrame {f : List UInt8} (h : framing.IsFrame f) (version : MqttVersion) :
    decode f version ≠ .ok none := by
  rcases f with _ | ⟨first, tail⟩
  · cases h
  · rw [decode]
    rcases decodeType (first >>> 4) (first :: tail) version with e | p
    · exact fun h => by cases h
    · exact fun h => by cases h

/-- What is handled has been received. -/
theorem beforeFailure_prefix {size : ℕ} {version : MqttVersion} {results : List (Option E)}
    {fs : List (List UInt8)} (h : ∀ f ∈ fs, framing.IsFrame f) :
    (beforeFailure size version results fs).1 <+: Recv.decodeFrames version fs := by
  induction fs generalizing results with
  | nil => exact List.prefix_refl _
  | cons f fs ih =>
    have hrest : ∀ g ∈ fs, framing.IsFrame g := fun g hg => h g (List.mem_cons_of_mem f hg)
    rw [beforeFailure, Recv.decodeFrames]
    rcases hdecode : decode f version with e | _ | p
    · exact List.prefix_refl _
    · exact absurd hdecode (decode_of_isFrame (h f List.mem_cons_self) version)
    · dsimp only
      split
      · exact List.nil_prefix
      · exact List.cons_prefix_cons.mpr ⟨rfl, ih hrest⟩

/-- The bytes are not a frame, nor the beginning of one whose length can be read. -/
def Unread (bytes : List UInt8) : Prop := 2 ≤ bytes.length ∧ framing.size bytes = none

instance (bytes : List UInt8) : Decidable (Unread bytes) := inferInstanceAs (Decidable (_ ∧ _))

/-! ## The frame loop -/

namespace Link
variable {size : ℕ} {l : Link E maxInflight} {p : MqttPacket}

variable (size) in
/-- What a frame sends: the acknowledgement of its packet, unless it fails. -/
theorem sent_frame {f : List UInt8} (h : decode f l.options.version = .ok (some p)) :
    (l.frame size f).2.sent =
      l.sent ++ if (l.frame size f).1.isSome then ackBytes l.options.version [p] else [] := by
  have hsent := sent_handle size p l
  rw [frame, h]
  rcases hhandle : l.handle size p with ⟨_ | _, l'⟩
  · simpa [hhandle] using hsent
  · simpa [hhandle] using hsent

end Link

/-- Cutting the front of a list first makes no difference. -/
theorem take_append_of_take {α : Type} (n : ℕ) (front rest : List α) :
    (front.take n ++ rest).take n = (front ++ rest).take n := by
  have hleft : n - min n front.length = n - front.length := by omega
  rw [List.take_append, List.take_append, List.take_take, Nat.min_self, List.length_take, hleft]

/-- What has been collected is cut to the room that there is. -/
theorem toList_pushEvents_take {maxEvents : ℕ} (events : BoundedVec MqttEvent maxEvents)
    (ps : List MqttPacket) :
    (pushEvents events ps).toList =
      (events.toList ++ ps.filterMap MqttPacket.event).take maxEvents := by
  induction ps generalizing events with
  | nil => simp [pushEvents, events.length_le]
  | cons p ps ih =>
    have hstep : (pushEvent events p.event).toList =
        (events.toList ++ p.event.toList).take maxEvents := by
      rcases hevent : p.event with _ | event
      · simp [pushEvent, events.length_le]
      · rcases hpush : events.push event with _ | events'
        · have hfull := BoundedVec.push_eq_none.mp hpush
          have hle := events.length_le
          have hlength : events.toList.length = maxEvents := by omega
          simp only [pushEvent, hpush, Option.getD_none, Option.toList_some]
          exact (List.take_left' hlength).symm
        · have hspec := BoundedVec.push_eq_some.mp hpush
          have hle := events'.length_le
          rw [pushEvent, hpush]
          simp only [Option.getD_some, Option.toList_some]
          rw [← hspec.2, List.take_of_length_le hle]
    have hevents : (p :: ps).filterMap MqttPacket.event =
        p.event.toList ++ ps.filterMap MqttPacket.event := by
      rcases hevent : p.event with _ | event <;> simp [hevent]
    have hrest : (pushEvents (pushEvent events p.event) ps).toList = _ :=
      ih (pushEvent events p.event)
    rw [hstep] at hrest
    rw [hevents, ← List.append_assoc]
    exact hrest.trans (take_append_of_take _ _ _)

/-- The frame loop acknowledges the packets before the first failure. It ends in their events, as far
as there is room, if there is no failure and what stands behind the frames may become one. -/
theorem pollBatchLoop_failure {maxEvents fuel : ℕ} {iter : RawPacketFrameIter}
    {events : BoundedVec MqttEvent maxEvents} {fs : List (List UInt8)} {tail : List UInt8}
    {s : MqttClient E bufSize maxInflight} (hframes : ∀ f ∈ fs, framing.IsFrame f)
    (hrest : iter.rest = fs.flatten ++ tail)
    (htail : ∀ n, framing.size tail = some n → tail.length < n) (hfuel : fs.length < fuel)
    {before : List MqttPacket} {all : Bool}
    (h : beforeFailure bufSize s.options.version s.transport.sendResults fs = (before, all)) :
    Ends (pollBatchLoop maxEvents fuel iter events) s
      (fun events' s' => all = true ∧ ¬ Unread tail ∧ events' = pushEvents events before ∧
        s'.transport.sent = s.transport.sent ++ ackBytes s.options.version before)
      fun _ s' => ¬ (all = true ∧ ¬ Unread tail) ∧
        s'.transport.sent = s.transport.sent ++ ackBytes s.options.version before := by
  induction fuel generalizing s iter events fs before with
  | zero => exact absurd hfuel (Nat.not_lt_zero _)
  | succ fuel ih =>
    rcases fs with _ | ⟨f, fs⟩
    · cases h
      rw [List.flatten_nil, List.nil_append] at hrest
      by_cases hunread : Unread tail
      · obtain ⟨e, hnext⟩ : ∃ e, iter.next = .ok (some (.error e), iter) :=
          RawPacketFrameIter.next_of_unread (by rw [hrest]; exact hunread.1)
            (by rw [hrest]; exact hunread.2)
        rw [Ends, pollBatchLoop, hnext]
        exact ⟨fun h => h.2 hunread, by simp [ackBytes]⟩
      · have hends : iter.rest.length < 2 ∨
            ∃ n, framing.size iter.rest = some n ∧ iter.rest.length < n := by
          rw [hrest]
          rcases hsize : framing.size tail with _ | n
          · exact .inl (Nat.lt_of_not_le fun hle => hunread ⟨hle, hsize⟩)
          · exact .inr ⟨n, rfl, htail n hsize⟩
        rw [Ends, pollBatchLoop, RawPacketFrameIter.next_of_incomplete hends]
        exact ⟨rfl, hunread, rfl, by simp [ackBytes]⟩
    · have hframe := hframes f List.mem_cons_self
      rw [List.flatten_cons, List.append_assoc] at hrest
      rw [beforeFailure] at h
      rw [Ends, pollBatchLoop_frame hframe hrest, ← Ends]
      apply Ends.bind
      rcases hdecode : decode f s.options.version with e | _ | p
      · rw [hdecode] at h
        cases h
        have hfails : s.link.frame bufSize f = (none, s.link) := by
          rw [Link.frame, options_link, hdecode]
        apply (receiveFrame_link f s).mono
        · intro event s' hlink
          rw [hfails] at hlink
          cases hlink.1
        · intro e s' hlink
          rw [hfails] at hlink
          have hsent := congrArg Link.sent (Prod.mk.inj hlink.1).2
          exact ⟨by simp, by simpa [ackBytes, MqttClient.link] using hsent.symm⟩
      · exact absurd hdecode (decode_of_isFrame hframe _)
      · rw [hdecode] at h
        dsimp only at h
        have hcases := Link.frame_of_packet bufSize (l := s.link) hdecode
        have hsent := Link.sent_frame bufSize (l := s.link) hdecode
        have hresults : s.link.sendResults = s.transport.sendResults := rfl
        rw [hresults] at hcases
        apply (receiveFrame_link f s).mono
        · intro event s' hlink
          obtain ⟨hlink, hkept⟩ := hlink
          rw [hlink] at hcases hsent
          rcases hcases with ⟨hnone, -⟩ | ⟨l', heq, hanswered, -, -, hleft⟩
          · cases hnone
          cases heq
          rw [if_neg hanswered] at h
          rcases hbefore : beforeFailure bufSize s.options.version
            (s.transport.sendResults.drop p.acks.length) fs with ⟨before', all'⟩
          rw [hbefore] at h
          cases h
          change s'.transport.sendResults = _ at hleft
          change s'.transport.sent = s.transport.sent ++ _ at hsent
          rw [← hkept.options, ← hleft] at hbefore
          have hloop : Ends (pollBatchLoop maxEvents fuel (iter.skip f.length)
              (pushEvent events p.event)) s' _ _ :=
            ih (fun g hg => hframes g (List.mem_cons_of_mem f hg))
              (by rw [RawPacketFrameIter.rest_skip, hrest, List.drop_left])
              (by simpa using hfuel) hbefore
          have hstep : s'.transport.sent ++ ackBytes s'.options.version before' =
              s.transport.sent ++ ackBytes s.options.version (p :: before') := by
            rw [hsent, hkept.options, ackBytes_cons _ p before', List.append_assoc]
            rfl
          rw [hstep] at hloop
          exact hloop.mono (fun _ _ h => h) fun _ _ h => h
        · intro e s' hlink
          obtain ⟨hlink, -⟩ := hlink
          rw [hlink] at hcases hsent
          rcases hcases with ⟨-, hun⟩ | ⟨l', heq, -⟩
          · rw [if_pos hun] at h
            cases h
            change s'.transport.sent = s.transport.sent ++ _ at hsent
            exact ⟨by simp, by simpa [ackBytes] using hsent⟩
          · cases heq

/-! ## A call of `poll_batch` -/

/-- The event is a PUBLISH that calls for an acknowledgement. -/
def MqttEvent.acknowledged : MqttEvent → Bool
  | .publish p => (MqttPacket.publish p).acks ≠ []
  | _ => false

/-- The events of the PUBLISHes among the packets that call for an acknowledgement. -/
def acknowledged (ps : List MqttPacket) : List MqttEvent :=
  (ps.filterMap MqttPacket.event).filter MqttEvent.acknowledged

/-- What `poll_batch` sends are acknowledgements of packets at the front of what it receives, and
the PUBLISHes among these are given to the application. -/
def AckedDelivered (maxEvents : ℕ) (c : MqttClient E bufSize maxInflight) : Prop :=
  ∃ ps, ps <+: Recv.packets c ∧
    (pollAll maxEvents c).2.transport.sent =
      c.transport.sent ++ ackBytes c.options.version ps ∧
    (acknowledged ps).Sublist (pollAll maxEvents c).1

/-- The bytes that a connected client receives next. -/
def received (c : MqttClient E bufSize maxInflight) : List UInt8 :=
  match c.state, c.transport.incoming with
  | .connected, .ok chunk :: _ => chunk.toList
  | _, _ => []

/-- No PUBLISH is acknowledged before a failure; and if there is no failure, none is acknowledged
behind as many events as there is room for. -/
def AcksKept (maxEvents : ℕ) (c : MqttClient E bufSize maxInflight) : Prop :=
  let (ps, all) := beforeFailure bufSize c.options.version c.transport.sendResults
    (framing.split (received c)).1
  if all ∧ ¬ Unread (framing.split (received c)).2 then
    ∀ event ∈ (ps.filterMap MqttPacket.event).drop maxEvents, ¬ event.acknowledged
  else acknowledged ps = []

/-- What a call has acknowledged does not depend on where the packets that it has handled end. -/
theorem acknowledged_of_ackBytes {version : MqttVersion} {ps qs received : List MqttPacket}
    (hps : ps <+: received) (hqs : qs <+: received)
    (h : ackBytes version ps = ackBytes version qs) : acknowledged ps = acknowledged qs := by
  have hshort {ps qs : List MqttPacket} (hpre : ps <+: qs)
      (h : ackBytes version ps = ackBytes version qs) : acknowledged ps = acknowledged qs := by
    obtain ⟨rest, rfl⟩ := hpre
    have hrest : rest.flatMap MqttPacket.acks = [] := by
      simpa [ackBytes] using h
    have hnone : acknowledged rest = [] := by
      rw [acknowledged, List.filter_eq_nil_iff]
      intro event hevent
      obtain ⟨p, hp, hpe⟩ := List.mem_filterMap.mp hevent
      have hacks := List.flatMap_eq_nil_iff.mp hrest p hp
      cases p with
      | publish p =>
        cases hpe
        simpa [MqttEvent.acknowledged] using hacks
      | _ => cases hpe <;> simp [MqttEvent.acknowledged]
    simpa [acknowledged] using hnone
  rcases List.prefix_or_prefix_of_prefix hps hqs with hpre | hpre
  · exact hshort hpre h
  · exact (hshort hpre h.symm).symm

/-- What satisfies a condition is kept by a cut exactly if nothing behind the cut does. -/
theorem filter_sublist_take {α : Type} (P : α → Bool) (l : List α) (n : ℕ) :
    (l.filter P).Sublist (l.take n) ↔ ∀ a ∈ l.drop n, ¬ P a := by
  have hsplit : l.filter P = (l.take n).filter P ++ (l.drop n).filter P := by
    rw [← List.filter_append, List.take_append_drop]
  constructor
  · intro h
    have hlength := (h.filter P).length_le
    rw [List.filter_filter] at hlength
    simp only [Bool.and_self] at hlength
    rw [hsplit, List.length_append] at hlength
    rw [← List.filter_eq_nil_iff, ← List.length_eq_zero_iff]
    omega
  · intro h
    rw [hsplit, List.filter_eq_nil_iff.mpr h, List.append_nil]
    exact List.filter_sublist

section
variable {maxEvents : ℕ} {c : MqttClient E bufSize maxInflight}

variable (maxEvents) in
/-- A call that receives nothing sends nothing. -/
theorem pollAll_quiet (h : received c = []) :
    (pollAll maxEvents c).1 = [] ∧
      (pollAll maxEvents c).2.transport.sent = c.transport.sent := by
  by_cases hconnected : c.state = .connected
  · rw [received, hconnected] at h
    rw [pollAll, pollBatch, run_bind (requireConnected_of_connected hconnected)]
    rcases hincoming : c.transport.incoming with _ | ⟨e | chunk, later⟩
    · have hrecv : recv c = .error .diverge c := by rw [recv, hincoming]
      rw [run_bind_error hrecv]
      exact ⟨rfl, rfl⟩
    · have hrecv : recv c = .error (.err (.transport e))
          { c with transport := { c.transport with incoming := later } } := by
        rw [recv, hincoming]
      rw [run_bind_error hrecv]
      exact ⟨rfl, rfl⟩
    · rw [hincoming] at h
      have hrecv : recv c = .ok 0 { taken c chunk later with rxLen := c.rxLen } := by
        have hnone : chunk.toList = [] := h
        simp only [recv, hincoming, taken, hnone, List.length_nil]
      rw [run_bind hrecv]
      exact ⟨rfl, rfl⟩
  · rw [pollAll, pollBatch, run_bind_error (requireConnected_of_not hconnected)]
    exact ⟨rfl, rfl⟩

/-- Bytes are received by a client that is connected. -/
theorem received_ne_nil (h : received c ≠ []) : c.state = .connected ∧
    ∃ chunk later, c.transport.incoming = .ok chunk :: later ∧ received c = chunk.toList := by
  rw [received] at h ⊢
  split at h
  · rename_i chunk later hstate hincoming
    exact ⟨hstate, chunk, later, hincoming, rfl⟩
  · exact absurd rfl h

variable (maxEvents) in
/-- What a call acknowledges and gives to the application. -/
theorem pollAll_failure {before : List MqttPacket} {all : Bool} (hne : received c ≠ [])
    (h : beforeFailure bufSize c.options.version c.transport.sendResults
      (framing.split (received c)).1 = (before, all)) :
    (pollAll maxEvents c).2.transport.sent =
        c.transport.sent ++ ackBytes c.options.version before ∧
      (pollAll maxEvents c).1 =
        if all ∧ ¬ Unread (framing.split (received c)).2 then
          (before.filterMap MqttPacket.event).take maxEvents
        else [] := by
  obtain ⟨hconnected, chunk, later, hincoming, hchunk⟩ := received_ne_nil hne
  rw [hchunk] at hne h ⊢
  have hframes (f : List UInt8) (hf : f ∈ (framing.split chunk.toList).1) : framing.IsFrame f :=
    Framing.isFrame_of_mem_split hf
  have hfuel : (framing.split chunk.toList).1.length < chunk.toList.length + 1 := by
    have hcount := Framing.length_le_flatten hframes
    have hlength := congrArg List.length (framing.flatten_split chunk.toList)
    rw [List.length_append] at hlength
    omega
  have hloop : Ends (pollBatchLoop maxEvents (chunk.toList.length + 1) (.new chunk.toList) .empty)
      (taken c chunk later) _ _ :=
    pollBatchLoop_failure hframes
      (by rw [RawPacketFrameIter.rest_new, framing.flatten_split])
      (fun n hn => framing.lt_of_size_split_rest chunk.toList hn) hfuel h
  rw [pollAll, pollBatch_eq hconnected hincoming hne]
  rcases hrun : pollBatchLoop maxEvents (chunk.toList.length + 1) (.new chunk.toList) .empty
    (taken c chunk later) with ⟨events, c'⟩ | ⟨e, c'⟩
  · obtain ⟨hall, hread, hevents, hsent⟩ := hloop.ok_of hrun
    refine ⟨hsent, ?_⟩
    rw [if_pos ⟨hall, hread⟩, hevents]
    dsimp only
    rw [toList_pushEvents_take, BoundedVec.toList_empty,
      List.nil_append]
  · obtain ⟨hfails, hsent⟩ := hloop.error_of hrun
    exact ⟨hsent, (if_neg hfails).symm⟩

/-- No PUBLISH is acknowledged and dropped exactly if none is acknowledged before a failure, or
behind as many events as there is room for. -/
theorem ackedDelivered_iff (maxEvents : ℕ) (c : MqttClient E bufSize maxInflight) :
    AckedDelivered maxEvents c ↔ AcksKept maxEvents c := by
  by_cases hne : received c = []
  · obtain ⟨hevents, hsent⟩ := pollAll_quiet maxEvents hne
    refine iff_of_true ⟨[], List.nil_prefix, ?_, ?_⟩ ?_
    · simpa [ackBytes] using hsent
    · simp [acknowledged]
    · simp [AcksKept, hne, beforeFailure, Unread]
  · rcases hbefore : beforeFailure bufSize c.options.version c.transport.sendResults
      (framing.split (received c)).1 with ⟨before, all⟩
    obtain ⟨hsent, hevents⟩ := pollAll_failure maxEvents hne hbefore
    have hprefix : before <+: Recv.packets c := by
      obtain ⟨hconnected, chunk, later, hincoming, hchunk⟩ := received_ne_nil hne
      have hframes (f : List UInt8) (hf : f ∈ (framing.split (received c)).1) :
          framing.IsFrame f := Framing.isFrame_of_mem_split hf
      have hpre : (beforeFailure bufSize c.options.version c.transport.sendResults
          (framing.split (received c)).1).1 <+: _ := beforeFailure_prefix hframes
      rw [hbefore, hchunk] at hpre
      rw [Recv.packets, hconnected, hincoming]
      exact hpre
    have hacked : AckedDelivered maxEvents c ↔
        (acknowledged before).Sublist (pollAll maxEvents c).1 := by
      constructor
      · rintro ⟨ps, hps, hbytes, hdelivered⟩
        rw [hsent] at hbytes
        rwa [acknowledged_of_ackBytes hprefix hps (List.append_cancel_left hbytes)]
      · exact fun h => ⟨before, hprefix, hsent, h⟩
    rw [hacked, hevents, AcksKept, hbefore]
    dsimp only
    split
    · exact filter_sublist_take _ _ _
    · exact List.sublist_nil

/-- A QoS 1 PUBLISH is acknowledged in a call without room for an event. -/
theorem acked_and_dropped :
    ¬ ∀ (maxEvents : ℕ) (c : MqttClient Unit 64 4), AckedDelivered maxEvents c := by
  intro hall
  obtain ⟨ps, hps, hsent, hdelivered⟩ := hall 0
    (withIncoming connectedClient [.ok ⟨[0x32, 5, 0, 1, 97, 0, 7], by decide⟩])
  have hpackets : Recv.packets
      (withIncoming connectedClient [.ok ⟨[0x32, 5, 0, 1, 97, 0, 7], by decide⟩]) =
      [.publish { dup := false, qos := .atLeastOnce, retain := false, topic := "a"
                  packetId := some 7, payload := [], properties := .empty }] := by
    decide +kernel
  have hacked : (pollAll 0 (withIncoming connectedClient
      [.ok ⟨[0x32, 5, 0, 1, 97, 0, 7], by decide⟩])).2.transport.sent = [[0x40, 2, 0, 7]] := by
    decide +kernel
  have hevents : (pollAll 0 (withIncoming connectedClient
      [.ok ⟨[0x32, 5, 0, 1, 97, 0, 7], by decide⟩])).1 = [] := by
    decide +kernel
  rw [hevents, List.sublist_nil] at hdelivered
  rw [hpackets, List.prefix_cons_iff] at hps
  rcases hps with rfl | ⟨t, rfl, ht⟩
  · rw [hacked] at hsent
    cases hsent
  · rw [List.prefix_nil.mp ht] at hdelivered
    cases hdelivered

end

end

end MqttEngine
