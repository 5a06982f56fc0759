import MqttEngine.Tokio.System
import MqttEngine.Tokio.TakenIds

/-!
# The publishes that wait for an acknowledgement

`LoopSystem.takes` lists the packet ids that an event takes, and `LoggedRun` collects them over
a run. Where no id is lapped, a publish that waits is not forgotten: its entry stays until the
broker acknowledges its id, and an id waits in one map only. Where one is, the new entry takes
the place of the old one.

## Main definitions

* `LoopSystem.takes`, `LoopSystem.LoggedRun` — the ids that are taken.
* `LoopSystem.acknowledged` — the publish that an event acknowledges.

## Main results

* `pending_kept` — where no id is lapped, no publish is forgotten.
* `forgets_publish` — a run of 65536 ids.
-/

namespace MqttEngine.Tokio
open Checked Conn EventLoop Rolling

section
variable {E R S W : Type} {maxPacketSize : ℕ}

namespace LoopSystem

/-- The ids that an event takes. -/
def takes (self : LoopSystem E R S W maxPacketSize) : Event E R S W → List Take
  | .attempt dial now => attemptTakes self.loop (dial.map Socket.opened) now
  | .request (some request) now =>
    match self.phase with
    | .driving socket _ _ => requestTakes { self.loop with socket } request now
    | _ => []
  | _ => []

variable [DecidableEq S] (ch : Mpsc W S PublishMessage) (order : HashOrder)

/-- Runs with the ids that they have taken. -/
inductive LoggedRun (s₀ : LoopSystem E R S W maxPacketSize) :
    List Take → LoopSystem E R S W maxPacketSize → Prop
  | start : LoggedRun s₀ [] s₀
  | step {log : List Take} {s t : LoopSystem E R S W maxPacketSize} {event : Event E R S W}
      (h : LoggedRun s₀ log s) (hstep : s.step ch order event = some t) :
      LoggedRun s₀ (log ++ s.takes event) t

/-- The end of a list of events, with the ids that they have taken. -/
def runLogged (events : List (Event E R S W)) (s : LoopSystem E R S W maxPacketSize) :
    Option (List Take × LoopSystem E R S W maxPacketSize) :=
  events.foldlM (fun (log, s) event =>
    (s.step ch order event).map fun t => (log ++ s.takes event, t)) ([], s)

theorem loggedRun_of_runLogged {events : List (Event E R S W)}
    {s t : LoopSystem E R S W maxPacketSize} {log : List Take}
    (h : runLogged ch order events s = some (log, t)) : LoggedRun ch order s log t := by
  refine Machine.foldlM_invariant (I := fun x => LoggedRun ch order s x.1 x.2) h .start ?_
  rintro ⟨log₁, s₁⟩ ⟨log₂, s₂⟩ event hrun hevent
  obtain ⟨t, hstep, heq⟩ := Option.map_eq_some_iff.mp hevent
  cases heq
  exact hrun.step hstep

end LoopSystem

/-! ## Runs -/

namespace LoopSystem
variable {s t : LoopSystem E R S W maxPacketSize}

/-- The publish that an event acknowledges. -/
def acknowledged (self : LoopSystem E R S W maxPacketSize) : Event E R S W → Option UInt16
  | .handle _ =>
    match self.phase with
    | .driving _ _ (received :: _) => acknowledgedId received.packet
    | _ => none
  | _ => none

variable [DecidableEq S] {ch : Mpsc W S PublishMessage} {order : HashOrder} {event : Event E R S W}

theorem goes_step (h : s.step ch order event = some t) :
    GoesExcept (s.acknowledged event) (s.takes event) s.loop t.loop := by
  have hunmoved {α : Type} {x : ConnM E R S W maxPacketSize α} {c : Conn E R S W maxPacketSize}
      (h : Preserves (Unmoved c) x) :
      Ends x c (fun _ c' => GoesExcept none [] c.toEventLoop c'.toEventLoop)
        fun _ c' => GoesExcept none [] c.toEventLoop c'.toEventLoop :=
    (h c .refl).mono (fun _ _ h => h.goes.except _) fun _ _ h => h.goes.except _
  refine loop_step (Q := GoesExcept (s.acknowledged event) (s.takes event) s.loop) h
    (fun _ _ _ hloop => hloop.sameIds ⟨rfl, rfl, rfl, rfl⟩) ?_
  cases event with
  | attempt dial now => exact fun _ _ _ hattempt => (goes_connectAttempt hattempt).except _
  | enter => exact SameIds.refl.goes.except _
  | read =>
    intro socket rxCursor _
    exact hunmoved (c := { s.loop with socket })
      (sameIds_sends (P := fun _ => True) fun _ => sends_receiveFrames rxCursor)
  | handle now =>
    intro socket rxCursor received later hphase
    have hid : s.acknowledged (.handle now) = acknowledgedId received.packet := by
      simp [acknowledged, hphase]
    rw [hid]
    exact goes_handle ch received now (s := { s.loop with socket })
  | request request now =>
    intro socket rxCursor hphase
    rcases request with _ | request
    · exact hunmoved (c := { s.loop with socket }) (x := driveRequest none now)
        (Preserves.bind (preserves_ignore sameIds_sendDisconnect) fun _ => Preserves.pure _)
    · have htakes : s.takes (.request (some request) now) =
          requestTakes { s.loop with socket } request now := by
        simp [takes, hphase]
      rw [htakes]
      have hrequest : Ends (driveRequest (some request) now) { s.loop with socket }
          (fun _ c => Goes (requestTakes { s.loop with socket } request now) s.loop c.toEventLoop)
          fun _ c => Goes (requestTakes { s.loop with socket } request now) s.loop c.toEventLoop :=
        Ends.bind (goes_handleClientRequest request now)
      exact hrequest.mono (fun _ _ h => h.except _) fun _ _ h => h.except _
  | tick now =>
    intro socket rxCursor _
    exact hunmoved (c := { s.loop with socket })
      (sameIds_sends (P := fun _ => True) fun _ => sends_driveTick trivial now)
  | arrive segment => exact SameIds.refl.goes.except _
  | channels w =>
    have hsame : SameIds s.loop { s.loop with channels := w } := ⟨rfl, rfl, rfl, rfl⟩
    exact hsame.goes.except _

/-- The counter and the maps of a run agree with its record. -/
theorem rolls_of_loggedRun {options : ClientOptions} {channels : W} {now : ℕ} {log : List Take}
    (h : LoggedRun ch order (start options channels now) log s) :
    Rolls log s.loop.nextPacketId { i | i ∈ s.loop.pendingIds } ∧ (Rolling.Fresh log → s.loop.Apart) := by
  induction h with
  | start =>
    refine ⟨rolls_nil (by simp [start, EventLoop.new, EventLoop.pendingIds, Assoc.keys]), fun _ => ?_⟩
    constructor <;> simp [start, EventLoop.new, Assoc.keys]
  | step hrun hstep ih =>
    have hgoes := goes_step hstep
    refine ⟨ih.1.follows hgoes.follows, fun hfresh => ?_⟩
    have hboth := fresh_append.mp hfresh
    exact hgoes.apart hboth.2 (ih.2 hboth.1)

/-- In a run up to an event: no id is taken by a request while it waits if and only if none is a
whole number of rounds behind one that still waits. In such a run a publish that waits goes on
to wait until the broker acknowledges its id, and an id waits in one map only. -/
theorem pending_kept {options : ClientOptions} {channels : W} {now : ℕ} {log : List Take}
    (h : LoggedRun ch order (start options channels now) log s)
    (hstep : s.step ch order event = some t) :
    (Rolling.Fresh (log ++ s.takes event) ↔ Unlapped (log ++ s.takes event)) ∧
      (Unlapped (log ++ s.takes event) →
        t.loop.Apart ∧ ∀ i entry, s.loop.inflightPublishes.get? i = some entry →
          s.acknowledged event ≠ some i → t.loop.inflightPublishes.get? i = some entry) := by
  have hgoes := goes_step hstep
  obtain ⟨hrolls, hapart⟩ := rolls_of_loggedRun h
  have hiff := (hrolls.follows hgoes.follows).fresh_iff
  refine ⟨hiff, fun hlap => ?_⟩
  have hfresh := fresh_append.mp (hiff.mpr hlap)
  exact ⟨hgoes.apart hfresh.2 (hapart hfresh.1), hgoes.kept hfresh.2⟩

end LoopSystem

end

namespace LoopSystem
open EventLoop

/-- A message of QoS 1. -/
def questioned (payload : List UInt8) : PublishMessage :=
  { PublishMessage.new "a" payload with qos := .atLeastOnce }

/-- Two publishes and a subscription, and the acknowledgement of the first publish. -/
def questioning : List (Event Unit ℕ ℕ (ℕ → Queue PublishMessage)) :=
  connecting [[0x40, 2, 0, 1]] ++
    [.request (some (.publish (questioned [1]) (some 0))) 0,
      .request (some (.subscribe "b" .atMostOnce 1 none)) 0,
      .request (some (.publish (questioned [2]) (some 2))) 0, .read]

/-- A publish that is acknowledged, a subscription and a publish that goes on to wait. -/
theorem pending_kept_sample :
    ∃ (log : List Take) (s t : LoopSystem Unit ℕ ℕ (ℕ → Queue PublishMessage) 64),
      log.map (fun t => (t.id, t.keeps, t.pending)) =
        [(1, true, []), (2, true, [1]), (3, true, [1, 2])] ∧
      s.step (.queues ℕ PublishMessage) listed (.handle 0) = some t ∧
      t.loop.Apart ∧ ∀ i entry, s.loop.inflightPublishes.get? i = some entry →
        s.acknowledged (.handle 0) ≠ some i → t.loop.inflightPublishes.get? i = some entry := by
  let ch : Mpsc _ _ _ := .queues ℕ PublishMessage
  let ran := runLogged ch listed questioning fresh
  have heval : ran.map (fun x => (x.1.map fun t => (t.id, t.keeps, t.pending),
        (x.2.step ch listed (.handle 0)).isSome)) =
      some ([(1, true, []), (2, true, [1]), (3, true, [1, 2])], true) := by
    decide +kernel
  obtain ⟨⟨log, s⟩, hrun, hs⟩ := Option.map_eq_some_iff.mp heval
  simp only [Prod.mk.injEq] at hs
  obtain ⟨t, hstep⟩ := Option.isSome_iff_exists.mp hs.2
  have htakes : s.takes (.handle 0) = [] := rfl
  have hfresh : Rolling.Fresh (log ++ s.takes (.handle 0)) := by
    rw [htakes, List.append_nil]
    intro u hu _
    have hmem := List.mem_map_of_mem (f := fun t : Take => (t.id, t.keeps, t.pending)) hu
    rw [hs.1] at hmem
    simp only [List.mem_cons, Prod.mk.injEq, List.not_mem_nil, or_false] at hmem
    rcases hmem with ⟨hid, -, hpending⟩ | ⟨hid, -, hpending⟩ | ⟨hid, -, hpending⟩
    all_goals
      rw [hid, hpending]
      decide
  obtain ⟨hiff, hkept⟩ := pending_kept (loggedRun_of_runLogged ch listed hrun) hstep
  exact ⟨log, s, t, hs.1, hstep, hkept (hiff.mp hfresh)⟩

/-! ## A counter that comes around -/

/-- A connection is driven, on which nothing has come in and nothing will fail. -/
def undisturbed : Phase Unit → Bool
  | .driving socket 0 [] => socket.writeResults.isEmpty && socket.flushResults.isEmpty
  | _ => false

/-- The loop drives a connection that does not fail, and a publish waits under the id 1. -/
structure Waiting (s : LoopSystem Unit ℕ ℕ (ℕ → Queue PublishMessage) 64) : Prop where
  driving : ∃ socket : Socket Unit, s.phase = .driving socket 0 [] ∧ socket.Steady
  version : s.loop.options.version = .v3_1_1
  pending : s.loop.inflightPublishes.get? 1 = some ({ questioned [1] with packetId := some 1 }, some 0)

theorem fits_unsubscribePacket (packetId : UInt16) :
    (unsubscribePacket packetId "a").Fits .v3_1_1 64 := by
  have hpacket : unsubscribePacket packetId "a" =
      .unsubscribe ⟨packetId, ⟨["a"], by decide⟩, .empty⟩ := rfl
  rw [hpacket]
  constructor
  · simp only [MqttPacket.Encodable, MqttPacket.prefixed]
    decide
  · simp only [MqttPacket.room, MqttPacket.content, idAndPropertiesBytes,
      List.length_append, length_toBeBytes]
    decide

/-- An UNSUBSCRIBE uses up an id. -/
theorem waiting_unsubscribe {s : LoopSystem Unit ℕ ℕ (ℕ → Queue PublishMessage) 64} (h : Waiting s) :
    ∃ t, s.step (.queues ℕ PublishMessage) listed (.request (some (.unsubscribe "a" 0)) 0) = some t ∧
      Waiting t ∧ t.loop.nextPacketId = succ s.loop.nextPacketId := by
  obtain ⟨socket, hphase, hsteady⟩ := h.driving
  let c : Conn Unit ℕ ℕ (ℕ → Queue PublishMessage) 64 := { s.loop with socket }
  have hversion : c.options.version = .v3_1_1 := h.version
  obtain ⟨tx, hsend⟩ := sendPacket_fits (s := unsubscribed c "a")
    (hversion ▸ fits_unsubscribePacket c.nextPacketId)
    ((short_unsubscribePacket _ _).measured _ _) hsteady.writeOk hsteady.flushOk 0
  let sent : Conn Unit ℕ ℕ (ℕ → Queue PublishMessage) 64 := afterSend (unsubscribed c "a") tx
    ((unsubscribePacket c.nextPacketId "a").wire (unsubscribed c "a").options.version) 0
  let c' : Conn Unit ℕ ℕ (ℕ → Queue PublishMessage) 64 :=
    { sent with inflightUnsubscribes := sent.inflightUnsubscribes.set c.nextPacketId 0 }
  have hrequest : driveRequest (some (.unsubscribe "a" 0)) 0 c = .ok true c' := by
    have hhandle : handleClientRequest (.unsubscribe "a" 0) 0 c = .ok () c' := by
      rw [handle_unsubscribe]
      exact run_bind hsend
    rw [driveRequest, run_bind hhandle]
    rfl
  refine ⟨s.goOn 0 [] c', ?_, ⟨⟨c'.socket, rfl, ?_⟩, h.version, h.pending⟩, rfl⟩
  · rw [step.eq_def, hphase]
    exact branch_eq_some.mpr (.inl ⟨true, c', hrequest, rfl⟩)
  · exact (hsteady.wrote _).flushed

/-- Any number of requests leave the publish waiting. -/
theorem waiting_rounds {s₀ s : LoopSystem Unit ℕ ℕ (ℕ → Queue PublishMessage) 64} {log : List Take}
    (hrun : LoggedRun (.queues ℕ PublishMessage) listed s₀ log s) (h : Waiting s) {k : ℕ}
    (hk : s.loop.nextPacketId = Rolling.id k) (n : ℕ) :
    ∃ log t, LoggedRun (.queues ℕ PublishMessage) listed s₀ log t ∧ Waiting t ∧
      t.loop.nextPacketId = Rolling.id (k + n) := by
  induction n with
  | zero => exact ⟨log, s, hrun, h, hk⟩
  | succ n ih =>
    obtain ⟨log, t, hrun, ht, hnext⟩ := ih
    obtain ⟨u, hstep, hu, hsucc⟩ := waiting_unsubscribe ht
    exact ⟨_, u, hrun.step hstep, hu, by rw [hsucc, hnext, succ_id]; rfl⟩

/-- When the counter has come around, a publish takes the place of the one that waits. -/
theorem replaced {s : LoopSystem Unit ℕ ℕ (ℕ → Queue PublishMessage) 64} (h : Waiting s)
    (hnext : s.loop.nextPacketId = 1) :
    ∃ t, s.step (.queues ℕ PublishMessage) listed
        (.request (some (.publish (questioned [2]) (some 2))) 0) = some t ∧
      t.loop.inflightPublishes.get? 1 = some ({ questioned [2] with packetId := some 1 }, some 2) := by
  obtain ⟨socket, hphase, hsteady⟩ := h.driving
  let c : Conn Unit ℕ ℕ (ℕ → Queue PublishMessage) 64 := { s.loop with socket }
  let p : MqttPacket := publishPacket (questioned [2]) (some 1) false
  have hid : takenId c (questioned [2]) = some 1 := congrArg some hnext
  have hversion : (published c (questioned [2]) (some 2)).options.version = .v3_1_1 := h.version
  have hfits : p.Fits .v3_1_1 64 := by decide +kernel
  have hmeasured : p.Measured .v3_1_1 64 := by decide +kernel
  obtain ⟨tx, hsend⟩ := sendPacket_fits (s := published c (questioned [2]) (some 2))
    (hversion ▸ hfits) (hversion ▸ hmeasured) hsteady.writeOk hsteady.flushOk 0
  let c' := afterSend (published c (questioned [2]) (some 2)) tx
    (p.wire (published c (questioned [2]) (some 2)).options.version) 0
  have hrequest : driveRequest (some (.publish (questioned [2]) (some 2))) 0 c = .ok true c' := by
    have hhandle : handleClientRequest (.publish (questioned [2]) (some 2)) 0 c = .ok () c' := by
      rw [handleClientRequest, sendPublishDirect_eq, hid]
      exact hsend
    rw [driveRequest, run_bind hhandle]
    rfl
  refine ⟨s.goOn 0 [] c', ?_, ?_⟩
  · rw [step.eq_def, hphase]
    exact branch_eq_some.mpr (.inl ⟨true, c', hrequest, rfl⟩)
  · change (Assoc.set c.inflightPublishes c.nextPacketId
      ({ questioned [2] with packetId := some c.nextPacketId }, some 2)).get? 1 = _
    rw [show c.nextPacketId = 1 from hnext, Assoc.get?_set_self]

/-- The first publish is forgotten, although it has not been acknowledged. -/
theorem forgets_publish :
    ¬ ∀ log s t event, LoggedRun (.queues ℕ PublishMessage) listed fresh log s →
      s.step (.queues ℕ PublishMessage) listed event = some t →
        ∀ i entry, s.loop.inflightPublishes.get? i = some entry →
          s.acknowledged event ≠ some i → t.loop.inflightPublishes.get? i = some entry := by
  intro hall
  let ran := runLogged (.queues ℕ PublishMessage) listed
    (connecting [] ++ [.request (some (.publish (questioned [1]) (some 0))) 0]) fresh
  have heval : ran.map (fun x => ((undisturbed x.2.phase, x.2.loop.options.version),
        x.2.loop.inflightPublishes.get? 1, x.2.loop.nextPacketId)) =
      some ((true, MqttVersion.v3_1_1),
        some ({ questioned [1] with packetId := some 1 }, some 0), Rolling.id 1) := by
    decide +kernel
  obtain ⟨⟨log, s⟩, hrun, hs⟩ := Option.map_eq_some_iff.mp heval
  simp only [Prod.mk.injEq] at hs
  obtain ⟨⟨hdriving, hversion⟩, hpending, hnext⟩ := hs
  have hwaiting : Waiting s := by
    refine ⟨?_, hversion, hpending⟩
    unfold undisturbed at hdriving
    split at hdriving
    · rename_i socket hphase
      simp only [Bool.and_eq_true, List.isEmpty_iff] at hdriving
      exact ⟨socket, hphase, by simp [hdriving], by simp [hdriving]⟩
    · cases hdriving
  obtain ⟨log, t, hrun, ht, hnext⟩ :=
    waiting_rounds (loggedRun_of_runLogged _ _ hrun) hwaiting hnext 65534
  obtain ⟨u, hstep, hentry⟩ := replaced ht (hnext.trans (by decide))
  have hkept := hall log t u _ hrun hstep 1 _ ht.pending (by simp [acknowledged])
  rw [hentry] at hkept
  cases hkept

end LoopSystem

end MqttEngine.Tokio
