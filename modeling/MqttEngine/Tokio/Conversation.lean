import MqttEngine.Tokio.Saying
import MqttEngine.Tokio.System

/-!
# What the broker hears from the event loop

On each of its connections the event loop writes whole packets, whatever happens meanwhile:
requests, acknowledgements of what is received, pings, a recovered session, and batches that are
packed into one write. Whoever cuts the bytes into frames and decodes them gets packets that follow
the protocol: a CONNECT, then what a client may send, and a DISCONNECT only at the end.

None of these packets is made up: the messages and filters come from the requests, and the packet
ids of the acknowledgements from what has been received.

This is about transports whose writes do not fail, and about a loop whose handles are not gone:
without them it sends a DISCONNECT whenever it drives the connection.

## Main definitions

* `Event.Undisturbed` — what may happen.
* `LoopSystem.Heard` — what has been said in a run.
* `LoopSystem.agendaOf` — what the steps of a run have asked the client to say.

## Main results

* `connectAttempt_ends` — the rule for an attempt to connect.
* `LoopSystem.heard_step` — a step keeps the conversations.
* `LoopSystem.conversations_of_runs` — what the broker hears in every run.
* `LoopSystem.due_of_traced` — why it hears it.
-/

namespace MqttEngine.Tokio
open Checked Conn EventLoop

section
variable {E R S W : Type} {maxPacketSize : ℕ}

/-! ## An attempt to connect -/

/-- How an attempt to connect leaves the loop, where `I` holds after a handshake and `D` after one
that has failed. -/
theorem connectAttempt_ends {D I : Conn E R S W maxPacketSize → Prop}
    {self loop : EventLoop E R S W maxPacketSize} {order : HashOrder}
    {dial : Except (ClientError E) (Socket E)} {now : ℕ} {attempt : Attempt E}
    {dropped : Option (Socket E)}
    (hhandshake : ∀ socket, dial = .ok socket →
      Ends performConnectHandshake { self.startAttempt with socket } (fun _ => I) fun _ => D)
    (hconnected : ∀ s : Conn E R S W maxPacketSize, I s → I { s with
      reconnectAttempt := 0, statuses := s.statuses ++ [.connected], lastTx := now })
    (hrecovery : Preserves I (performSessionDataRecovery order now))
    (h : self.connectAttempt order dial now = some (attempt, loop, dropped)) :
    (loop = self.startAttempt ∧ dropped = none) ∨
      (∃ s, D s ∧ loop = s.toEventLoop ∧ dropped = some s.socket) ∨
        ∃ s, I s ∧ loop = { s.toEventLoop with transport := some s.socket } ∧ dropped = none := by
  obtain ⟨-, h⟩ := connectAttempt_eq_some.mp h
  rw [finishAttempt.eq_def] at h
  rcases dial with e | opened
  · cases h
    exact .inl ⟨rfl, rfl⟩
  right
  let s : Conn E R S W maxPacketSize := { self.startAttempt with socket := opened }
  have hends := hhandshake opened rfl
  dsimp only at h
  rcases hrun : performConnectHandshake s with ⟨u, s'⟩ | ⟨(e | _ | _), s'⟩
  · have ht := hrecovery _ (hconnected s' (hends.ok_of hrun))
    rw [hrun] at h
    dsimp only at h
    split at h
    · rename_i c hok
      cases h
      exact .inr ⟨c, ht.ok_of hok, rfl, rfl⟩
    · rename_i e c herror
      cases h
      exact .inr ⟨c, ht.error_of herror, rfl, rfl⟩
    · cases h
  · rw [hrun] at h
    cases h
    exact .inl ⟨s', hends.error_of hrun, rfl, rfl⟩
  · rw [hrun] at h
    cases h
  · rw [hrun] at h
    cases h

/-! ## Runs -/

/-- The write of no transport fails, and the requests do not end. -/
def Event.Undisturbed : Event E R S W → Prop
  | .attempt (.ok socket) _ => socket.Reliable
  | .request none _ => False
  | _ => True

instance (event : Event E R S W) : Decidable event.Undisturbed :=
  match event with
  | .attempt (.ok socket) _ => inferInstanceAs (Decidable (∀ r ∈ socket.writeResults, r = none))
  | .request none _ => .isFalse not_false
  | .attempt (.error _) _ | .enter | .read | .handle _ | .request (some _) _ | .tick _ | .arrive _
  | .channels _ => .isTrue trivial

/-- A packet that the client has a reason to send. -/
def Agenda.Due (agenda : Agenda) (options : ClientOptions) (p : MqttPacket) : Prop :=
  p = opening options ∨ p = .disconnect .new ∨ agenda.Covers p

/-- The transport has heard a conversation about the agenda. -/
def Socket.Converses (self : Socket E) (agenda : Agenda) (options : ClientOptions) : Prop :=
  ∃ ps, Conversation (opening options) ps ∧ self.Hears options.version ps ∧
    ∀ p ∈ ps, agenda.Due options p

theorem Talking.converses {agenda : Agenda} {options : ClientOptions}
    {s : Conn E R S W maxPacketSize} (h : Talking agenda options s) :
    s.socket.Converses agenda options := by
  obtain ⟨body, hhears, hbody⟩ := h.heard
  refine ⟨_, .opened fun p hp => (hbody p hp).byClient, hhears, ?_⟩
  exact List.forall_mem_cons.mpr ⟨.inl rfl, fun p hp => .inr (.inr (hbody p hp))⟩

namespace LoopSystem
variable {agenda : Agenda} {options : ClientOptions} {s t : LoopSystem E R S W maxPacketSize}

/-- What an event asks the client to say is on the agenda. -/
structure Allows (agenda : Agenda) (system : LoopSystem E R S W maxPacketSize)
    (event : Event E R S W) : Prop where
  takes : ∀ request now, event = .request (some request) now → agenda.Takes request
  owes : ∀ packet ∈ system.acting event, agenda.Owes packet

/-- On the current connection the client may go on until `run` has returned, and each connection
has heard a conversation. -/
structure Heard (agenda : Agenda) (options : ClientOptions)
    (system : LoopSystem E R S W maxPacketSize) : Prop where
  sameOptions : system.loop.options = options
  minded : Minded agenda system.loop.inflightPublishes system.loop.activeSubscriptions
    system.loop.offlineQueue
  talking : system.phase ≠ .stopped → ∀ socket ∈ system.connection,
    Talking agenda options { system.loop with socket }
  connections : ∀ socket ∈ system.connections, socket.Converses agenda options

theorem heard_start (agenda : Agenda) (options : ClientOptions) (channels : W) (now : ℕ) :
    (start options channels now : LoopSystem E R S W maxPacketSize).Heard agenda options where
  sameOptions := rfl
  minded := ⟨by simp [start, EventLoop.new], by simp [start, EventLoop.new],
    by simp [start, EventLoop.new]⟩
  talking := by simp [start, EventLoop.new, connection]
  connections := by simp [start, EventLoop.new, LoopSystem.connections]

namespace Heard
variable {c : Conn E R S W maxPacketSize}

theorem dropped (h : s.Heard agenda options) :
    ∀ socket ∈ s.dropped, socket.Converses agenda options :=
  fun socket hsocket => h.connections socket (List.mem_append_left _ hsocket)

theorem converses (h : s.Heard agenda options) (hc : c.socket.Converses agenda options) :
    ∀ socket ∈ s.dropped ++ [c.socket], socket.Converses agenda options :=
  List.forall_mem_append.mpr ⟨h.dropped, by simpa using hc⟩

/-- The connection goes on. -/
theorem goOn (h : s.Heard agenda options) (hc : Talking agenda options c) (rxCursor : ℕ)
    (received : List Received) : (s.goOn rxCursor received c).Heard agenda options where
  sameOptions := hc.sameOptions
  minded := hc.minded
  talking := by
    rintro - _ ⟨⟩
    exact hc
  connections := by
    rw [connections_goOn]
    exact h.converses hc.converses

/-- The connection ends. -/
theorem driven (h : s.Heard agenda options) (hc : Talking agenda options c)
    (result : Except (ClientError E) Unit) : (s.driven result c).Heard agenda options := by
  obtain ⟨transport, statuses, hloop⟩ := s.loop_driven result c
  refine ⟨by rw [hloop]; exact hc.sameOptions, by rw [hloop]; exact hc.minded, ?_, ?_⟩
  · rcases result with e | u
    · intro hphase socket hsocket
      rcases s.phase_driven_error e c with hstopped | ⟨hidle, hnone⟩
      · exact absurd hstopped hphase
      · rw [connection, hidle, hnone] at hsocket
        cases hsocket
    · rintro - _ ⟨⟩
      exact ⟨hc.sameOptions, hc.minded, hc.heard⟩
  · rw [connections_driven]
    exact h.converses hc.converses

/-- The client has been asked to disconnect. -/
theorem closed (h : s.Heard agenda options) (hoptions : c.options = options)
    (hminded : Minded agenda c.inflightPublishes c.activeSubscriptions c.offlineQueue)
    (hc : c.socket.Converses agenda options) :
    (s.driven (.error .clientClosed) c).Heard agenda options where
  sameOptions := hoptions
  minded := hminded
  talking := fun hphase => absurd rfl hphase
  connections := by
    rw [connections_driven]
    exact h.converses hc

end Heard

variable [DecidableEq S] {ch : Mpsc W S PublishMessage} {order : HashOrder} {event : Event E R S W}

/-- An attempt to connect begins a conversation with its CONNECT. -/
theorem heard_attempt (hsize : maxPacketSize ≤ 128 ^ 4) {dial : Except (ClientError E) (Socket E)}
    {now : ℕ} (hs : s.Heard agenda options)
    (hevent : (.attempt dial now : Event E R S W).Undisturbed)
    (h : s.step ch order (.attempt dial now) = some t) : t.Heard agenda options := by
  obtain ⟨hphase, hnone, attempt, loop, dropped, hattempt, hend⟩ := step_attempt h
  have hstart (socket : Socket E) (hsocket : dial.map Socket.opened = .ok socket) :
      socket.Reliable ∧ socket.written = [] := by
    rcases dial with e | opened
    · cases hsocket
    · cases hsocket
      exact ⟨hevent, rfl⟩
  have hcases := connectAttempt_ends (I := Talking agenda options)
    (D := fun c => c.options = options ∧ c.transport = none ∧
      Minded agenda c.inflightPublishes c.activeSubscriptions c.offlineQueue ∧
      c.socket.Converses agenda options)
    (fun socket hsocket => ?_) (fun _ hc => ⟨hc.sameOptions, hc.minded, hc.heard⟩)
    (talking_performSessionDataRecovery hsize order now) hattempt
  · have hfacts : loop.options = options ∧
        Minded agenda loop.inflightPublishes loop.activeSubscriptions loop.offlineQueue ∧
        (∀ socket ∈ dropped, socket.Converses agenda options) ∧
        ∀ socket ∈ loop.transport, Talking agenda options { loop with socket } := by
      rcases hcases with ⟨rfl, rfl⟩ | ⟨c, ⟨hoptions, htransport, hminded, hc⟩, rfl, rfl⟩ |
        ⟨c, hc, rfl, rfl⟩
      · have hnone' : s.loop.startAttempt.transport = none := hnone
        exact ⟨hs.sameOptions, hs.minded, by simp, by simp [hnone']⟩
      · exact ⟨hoptions, hminded, by simpa using hc, by simp [htransport]⟩
      · refine ⟨hc.sameOptions, hc.minded, by simp, ?_⟩
        rintro _ ⟨⟩
        exact ⟨hc.sameOptions, hc.minded, hc.heard⟩
    obtain ⟨hoptions, hminded, hdropped, htalking⟩ := hfacts
    have hall : ∀ socket ∈ s.dropped ++ dropped.toList ++ loop.transport.toList,
        socket.Converses agenda options := by
      refine List.forall_mem_append.mpr ⟨List.forall_mem_append.mpr ⟨hs.dropped, ?_⟩, ?_⟩
      · simpa using hdropped
      · intro socket hsocket
        exact (htalking socket (by simpa using hsocket)).converses
    rcases hend with ⟨-, rfl⟩ | rfl
    · exact ⟨hoptions, hminded, fun hphase => absurd rfl hphase, hall⟩
    · refine ⟨hoptions, hminded, fun _ => ?_, ?_⟩
      · simpa [connection, hphase] using htalking
      · simpa [connections, hphase] using hall
  · obtain ⟨hreliable, hwritten⟩ := hstart socket hsocket
    have hempty : socket.Hears s.loop.startAttempt.options.version [] :=
      ⟨hreliable, by simp [hwritten], by simp⟩
    have hoptions : s.loop.startAttempt.options = options := hs.sameOptions
    refine (says_performConnectHandshake hsize hreliable).mono (fun _ c hc => ?_) fun _ c hc => ?_
    · have hheard := hc.hears hempty
      have hsame : c.options = options := hc.options.trans hoptions
      refine ⟨hsame, ?_, [], ?_, by simp⟩
      · rw [(congrArg EventLoop.inflightPublishes hc.loop).trans rfl,
          (congrArg EventLoop.activeSubscriptions hc.loop).trans rfl,
          (congrArg EventLoop.offlineQueue hc.loop).trans rfl]
        exact hs.minded
      · rw [hsame] at hheard
        exact hoptions ▸ hheard
    · obtain ⟨qs, hspoken, hinit⟩ := hc
      have hheard := hspoken.hears hempty
      have hsame : c.options = options := hspoken.options.trans hoptions
      rw [hoptions] at hinit
      refine ⟨hsame, ?_, ?_, qs, .opening hinit, ?_, fun p hp => ?_⟩
      · rw [(congrArg EventLoop.transport hspoken.loop).trans rfl]
        exact hnone
      · rw [(congrArg EventLoop.inflightPublishes hspoken.loop).trans rfl,
          (congrArg EventLoop.activeSubscriptions hspoken.loop).trans rfl,
          (congrArg EventLoop.offlineQueue hspoken.loop).trans rfl]
        exact hs.minded
      · rw [hsame] at hheard
        exact hheard
      · exact .inl (List.mem_singleton.mp (hinit.subset hp))

/-- Nothing that happens breaks off a conversation or mixes into it. -/
theorem heard_step (hsize : maxPacketSize ≤ 128 ^ 4) (hs : s.Heard agenda options)
    (hevent : event.Undisturbed) (hallows : s.Allows agenda event)
    (h : s.step ch order event = some t) : t.Heard agenda options := by
  by_cases hstopped : s.phase = .stopped
  · obtain ⟨w, rfl⟩ := step_stopped hstopped h
    exact ⟨hs.sameOptions, hs.minded, fun hphase => absurd hstopped hphase, hs.connections⟩
  have hdriving {socket : Socket E} {rxCursor : ℕ} {received : List Received}
      (hphase : s.phase = .driving socket rxCursor received) :
      Talking agenda options { s.loop with socket } :=
    hs.talking hstopped socket (by simp [connection, hphase])
  have hbranch {event : Event E R S W} (h : s.step ch order event = some t)
      (hends : s.BranchEnds ch (Talking agenda options) event) : t.Heard agenda options :=
    branch_step (Q := Heard agenda options) h hends
      (fun _ rxCursor received hc => hs.goOn hc rxCursor received)
      fun _ result hc => hs.driven hc result
  cases event with
  | attempt dial now => exact heard_attempt hsize hs hevent h
  | enter =>
    obtain ⟨hphase, socket, hsocket, rfl⟩ := step_enter h
    have htalking := hs.talking hstopped socket (by simp [connection, hphase, hsocket])
    refine ⟨hs.sameOptions, hs.minded, ?_, ?_⟩
    · rintro - _ ⟨⟩
      exact ⟨htalking.sameOptions, htalking.minded, htalking.heard⟩
    · simpa [connections, hphase, hsocket] using hs.connections
  | read =>
    exact hbranch h fun _ rxCursor hphase =>
      talking_of_silent (fun _ => says_receiveFrames rxCursor) _ (hdriving hphase)
  | handle now =>
    refine hbranch h fun _ _ received _ hphase => talking_handle hsize ch now ?_ _ (hdriving hphase)
    exact hallows.owes _ (by simp [acting, hphase, Phase.received])
  | request request now =>
    cases request with
    | none => exact hevent.elim
    | some request =>
      by_cases hdisconnect : ∃ sender, request = .disconnect sender
      · -- The DISCONNECT is the last packet, for the connection is not used any more.
        obtain ⟨sender, rfl⟩ := hdisconnect
        obtain ⟨socket, rxCursor, hphase, hstep⟩ := step_request h
        have htalking := hdriving hphase
        have hends : Ends (driveRequest (some (.disconnect sender)) now) { s.loop with socket }
            (fun _ _ => False) fun e c => ∀ e', e = .err e' → e' = .clientClosed ∧ ∃ t qs,
              Says { s.loop with socket } t qs ∧ qs <+: [.disconnect .new] ∧
              c = { t with statuses := c.statuses, answers := c.answers } :=
          Ends.bind <| (says_disconnect hsize htalking.reliable sender now).mono
            (fun _ _ h => h.elim) fun _ _ h => h
        rcases hstep with ⟨more, c, hrun, -⟩ | ⟨e, c, hrun, rfl⟩
        · exact (hends.ok_of hrun).elim
        · obtain ⟨rfl, u, qs, hspoken, hinit, hc⟩ := hends.error_of hrun e rfl
          obtain ⟨body, hhears, hbody⟩ := htalking.heard
          rw [← htalking.sameOptions] at hhears
          have hheard := hspoken.hears hhears
          have hsame : u.options = options := hspoken.options.trans htalking.sameOptions
          rw [htalking.sameOptions, hsame] at hheard
          rw [hc]
          refine hs.closed hsame ?_ ⟨_, .closing (fun p hp => (hbody p hp).byClient) hinit,
            hheard, fun p hp => ?_⟩
          · rw [(congrArg EventLoop.inflightPublishes hspoken.loop).trans rfl,
              (congrArg EventLoop.activeSubscriptions hspoken.loop).trans rfl,
              (congrArg EventLoop.offlineQueue hspoken.loop).trans rfl]
            exact hs.minded
          · rcases List.mem_append.mp hp with hp | hp
            · rcases List.mem_cons.mp hp with rfl | hp
              · exact .inl rfl
              · exact .inr (.inr (hbody p hp))
            · exact .inr (.inl (List.mem_singleton.mp (hinit.subset hp)))
      · exact hbranch h fun _ _ hphase => Preserves.bind
          (talking_handleClientRequest hsize (hallows.takes request now rfl)
            (fun sender heq => hdisconnect ⟨sender, heq⟩) now)
          (fun _ => Preserves.pure _) _ (hdriving hphase)
  | tick now =>
    exact hbranch h fun _ _ hphase => talking_driveTick hsize now _ (hdriving hphase)
  | arrive segment =>
    obtain ⟨socket, rxCursor, received, hphase, rfl⟩ := step_arrive h
    have htalking := hdriving hphase
    have hnext : Talking agenda options
        { s.loop with socket := { socket with incoming := socket.incoming ++ [segment] } } :=
      ⟨htalking.sameOptions, htalking.minded, htalking.heard⟩
    refine ⟨hs.sameOptions, hs.minded, ?_, hs.converses hnext.converses⟩
    rintro - _ ⟨⟩
    exact hnext
  | channels w =>
    cases h
    refine ⟨hs.sameOptions, hs.minded, fun hphase socket hsocket => ?_, hs.connections⟩
    have htalking := hs.talking hphase socket hsocket
    exact ⟨htalking.sameOptions, htalking.minded, htalking.heard⟩

/-- **What the broker hears.** In every run, whoever cuts what has been written on a connection into
frames and decodes them gets a conversation, and nothing is left over. -/
theorem conversations_of_runs (hsize : maxPacketSize ≤ 128 ^ 4) {channels : W} {now : ℕ}
    (h : Runs ch order (fun _ event => event.Undisturbed) (start options channels now) t) :
    ∀ socket ∈ t.connections, ∃ ps, Conversation (opening options) ps ∧
      (framing.split socket.written.flatten).2 = [] ∧
      Understands options.version (framing.split socket.written.flatten).1 ps := by
  -- Any agenda will do.
  have hheard : t.Heard ⟨fun _ => True, fun _ _ => True, fun _ => True, fun _ => True⟩ options :=
    h.invariant (heard_start _ options channels now) fun _ _ event hs hevent hstep =>
      heard_step hsize hs hevent ⟨fun request _ _ => by cases request <;> simp [Agenda.Takes],
        fun _ _ _ _ _ _ _ => trivial⟩ hstep
  intro socket hsocket
  obtain ⟨ps, hconversation, ⟨-, hwritten, hlegible⟩, -⟩ := hheard.connections socket hsocket
  obtain ⟨hsplit, hunderstands⟩ := understands_of_legible hlegible
  rw [hwritten, hsplit]
  exact ⟨ps, hconversation, rfl, hunderstands⟩

/-- It connects, publishes a message and disconnects. -/
def parting : List (Event Unit ℕ ℕ (ℕ → Queue PublishMessage)) :=
  connecting [] ++
    [.request (some (.publish (.new "t" [7]) none)) 1, .request (some (.disconnect 0)) 2]

theorem conversations_of_runs_parting :
    ∃ s : LoopSystem Unit ℕ ℕ (ℕ → Queue PublishMessage) 64,
      (s.connections.map fun socket => socket.written.tail) =
        [[[0x30, 4, 0, 1, 0x74, 7], [0xE0, 0]]] ∧
      ∀ socket ∈ s.connections, ∃ ps, Conversation (opening fresh.loop.options) ps ∧
        (framing.split socket.written.flatten).2 = [] ∧
        Understands fresh.loop.options.version (framing.split socket.written.flatten).1 ps := by
  let ran := run (.queues ℕ PublishMessage) listed (fun _ event => event.Undisturbed) parting fresh
  have hran : (ran.map fun s => s.connections.map fun socket => socket.written.tail) =
      some [[[0x30, 4, 0, 1, 0x74, 7], [0xE0, 0]]] := by
    decide +kernel
  obtain ⟨s, hrun, hs⟩ := Option.map_eq_some_iff.mp hran
  exact ⟨s, hs, conversations_of_runs (by decide) (runs_of_run hrun)⟩

/-! ## Reasons -/

/-- The step takes the request. -/
def Step.Requests (x : Step E R S W maxPacketSize) (request : ClientRequest R S) : Prop :=
  ∃ now, x.event = .request (some request) now

/-- What the steps of a run have put on the agenda. -/
def agendaOf (steps : List (Step E R S W maxPacketSize)) : Agenda where
  message message := ∃ x ∈ steps, (∃ sender, x.Requests (.publish message sender)) ∨
    ∃ messages sender, x.Requests (.publishBatch messages sender) ∧ message ∈ messages
  subscription topic qos := ∃ x ∈ steps, ∃ respSender streamSender,
    x.Requests (.subscribe topic qos respSender streamSender)
  unsubscription topic := ∃ x ∈ steps, ∃ respSender, x.Requests (.unsubscribe topic respSender)
  received packetId := ∃ x ∈ steps, ∃ p : Publish,
    x.before.acting x.event = some (.publish p) ∧ p.qos = .atLeastOnce ∧
      p.packetId = some packetId

omit [DecidableEq S] in
theorem allows_agendaOf {steps : List (Step E R S W maxPacketSize)} {x : Step E R S W maxPacketSize}
    (hx : x ∈ steps) : x.before.Allows (agendaOf steps) x.event where
  takes request now hevent := by
    cases request with
    | publish message sender => exact ⟨x, hx, .inl ⟨sender, now, hevent⟩⟩
    | publishBatch messages sender =>
      exact fun message hmessage => ⟨x, hx, .inr ⟨messages, sender, ⟨now, hevent⟩, hmessage⟩⟩
    | subscribe topic qos respSender streamSender =>
      exact ⟨x, hx, respSender, streamSender, now, hevent⟩
    | unsubscribe topic respSender => exact ⟨x, hx, respSender, now, hevent⟩
    | publishDatagram _ _ _ | disconnect _ => trivial
  owes packet hacting p hp hqos packetId hid := ⟨x, hx, p, by rw [← hp]; exact hacting, hqos, hid⟩

theorem heard_of_traced (hsize : maxPacketSize ≤ 128 ^ 4) {channels : W} {now : ℕ}
    {steps : List (Step E R S W maxPacketSize)}
    (h : Traced ch order (start options channels now) steps t)
    (hsteps : ∀ x ∈ steps, x.event.Undisturbed ∧ x.before.Allows agenda x.event) :
    t.Heard agenda options := by
  induction h with
  | start => exact heard_start agenda options channels now
  | step _ hstep ih =>
    rw [List.forall_mem_append, List.forall_mem_singleton] at hsteps
    exact heard_step hsize (ih hsteps.1) hsteps.2.1 hsteps.2.2 hstep

/-- **Nothing is made up.** In every run, each frame on a connection is the CONNECT or the
DISCONNECT, a ping, the PUBLISH of a message that the client has been asked to publish, unchanged
but for DUP, the SUBSCRIBE or UNSUBSCRIBE of a filter it has been asked to subscribe to or to
unsubscribe from, or the PUBACK of a PUBLISH of QoS 1 it has received. -/
theorem due_of_traced (hsize : maxPacketSize ≤ 128 ^ 4) {channels : W} {now : ℕ}
    {steps : List (Step E R S W maxPacketSize)}
    (h : Traced ch order (start options channels now) steps t)
    (hundisturbed : ∀ x ∈ steps, x.event.Undisturbed) :
    ∀ socket ∈ t.connections, ∀ f ∈ (framing.split socket.written.flatten).1,
      ∃ p, decode f options.version = .ok (some p) ∧ (agendaOf steps).Due options p := by
  have hheard : t.Heard (agendaOf steps) options :=
    heard_of_traced hsize h fun x hx => ⟨hundisturbed x hx, allows_agendaOf hx⟩
  intro socket hsocket f hf
  obtain ⟨ps, -, ⟨-, hwritten, hlegible⟩, hdue⟩ := hheard.connections socket hsocket
  rw [hwritten, (understands_of_legible hlegible).1] at hf
  obtain ⟨p, hp, rfl⟩ := List.mem_map.mp hf
  have hdecode := decode_wire_append (hlegible p hp).representable (hlegible p hp).encodable []
  rw [List.append_nil] at hdecode
  exact ⟨p, hdecode, hdue p hp⟩

theorem due_of_traced_parting :
    ∃ (steps : List (Step Unit ℕ ℕ (ℕ → Queue PublishMessage) 64))
      (s : LoopSystem Unit ℕ ℕ (ℕ → Queue PublishMessage) 64),
      (∀ x ∈ steps, x.event.Undisturbed) ∧ s.connections.length = 1 ∧
      ∀ socket ∈ s.connections, ∀ f ∈ (framing.split socket.written.flatten).1,
        ∃ p, decode f fresh.loop.options.version = .ok (some p) ∧
          (agendaOf steps).Due fresh.loop.options p := by
  let ran := runTraced (.queues ℕ PublishMessage) listed parting fresh
  have hran : (ran.map fun r => (decide (∀ x ∈ r.1, x.event.Undisturbed), r.2.connections.length)) =
      some (true, 1) := by
    decide +kernel
  obtain ⟨⟨steps, s⟩, hrun, hs⟩ := Option.map_eq_some_iff.mp hran
  obtain ⟨hundisturbed, hone⟩ := Prod.mk.inj hs
  have hundisturbed := of_decide_eq_true hundisturbed
  exact ⟨steps, s, hundisturbed, hone,
    due_of_traced (by decide) (traced_of_runTraced hrun) hundisturbed⟩

end LoopSystem

end

end MqttEngine.Tokio
