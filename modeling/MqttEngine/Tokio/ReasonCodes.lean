import MqttEngine.Tokio.Operations
import MqttEngine.Tokio.Registry
import MqttEngine.Tokio.System

/-!
# What the broker refuses

PUBACK, SUBACK and UNSUBACK carry reason codes, and the codes from 0x80 on report a failure. The
decoders keep them, but an `IncomingAction` does not: whoever waits for the acknowledgement is
told `Ok` in any case, and a filter that has been refused stays among the active subscriptions
and in the router. `honest_iff` says that a run reports success honestly exactly if nothing is
refused that anybody waits for.

## Main definitions

* `LoopSystem.Earned` — an `Ok` that may be sent after an event.
* `Step.Honest` — what a step should do about the reason codes.
* `LoopSystem.Unrefused` — a packet refuses nothing that anybody waits for.

## Main results

* `answers_step` — what is answered in a step.
* `honest_iff` — when a run is honest.
* `grants_refused` — a subscription that is refused.
-/

namespace MqttEngine

/-- The codes from 0x80 on report a failure. -/
def IsFailure (code : UInt8) : Prop := 0x80 ≤ code

instance (code : UInt8) : Decidable (IsFailure code) := inferInstanceAs (Decidable (_ ≤ _))

/-- A PUBACK with a failure. -/
def Ack.Refuses (self : Ack) : Prop := IsFailure self.reasonCode

/-- A SUBACK or an UNSUBACK with a failure. -/
def CodesAck.Refuses (self : CodesAck) : Prop := ∃ code ∈ self.reasonCodes.toList, IsFailure code

instance (ack : CodesAck) : Decidable ack.Refuses := inferInstanceAs (Decidable (∃ _ ∈ _, _))

end MqttEngine

namespace MqttEngine.Tokio
open Checked Conn EventLoop

section
variable {E R S W : Type} {maxPacketSize : ℕ}

/-! ## What is answered -/

/-- What has been answered meanwhile meets a condition. -/
def EventLoop.Answers (P : R → Answer E → Prop) (s s' : EventLoop E R S W maxPacketSize) : Prop :=
  ∃ answers, s'.answers = s.answers ++ answers ∧ ∀ a ∈ answers, P a.1 a.2

section
variable {P : R → Answer E → Prop} {s s' t : EventLoop E R S W maxPacketSize}

theorem answers_of_eq (h : s'.answers = s.answers) : s.Answers P s' := ⟨[], by simp [h], by simp⟩

/-- The condition is one on what has been added. -/
theorem answers_iff {answers : List (R × Answer E)} (h : s'.answers = s.answers ++ answers) :
    s.Answers P s' ↔ ∀ a ∈ answers, P a.1 a.2 := by
  constructor
  · rintro ⟨answers', h', hanswers⟩
    rwa [List.append_cancel_left (h.symm.trans h')]
  · exact fun hanswers => ⟨answers, h, hanswers⟩

theorem EventLoop.Answers.append (h : s.Answers P s') (answers : List (R × Answer E))
    (ht : t.answers = s'.answers ++ answers) (hanswers : ∀ a ∈ answers, P a.1 a.2) :
    s.Answers P t := by
  obtain ⟨before, hs', hbefore⟩ := h
  refine ⟨before ++ answers, by rw [ht, hs', List.append_assoc], ?_⟩
  simp only [List.mem_append]
  rintro a (ha | ha)
  · exact hbefore a ha
  · exact hanswers a ha

theorem EventLoop.Answers.congr (h : s.Answers P s') (ht : t.answers = s'.answers) :
    s.Answers P t :=
  h.append [] (by simp [ht]) (by simp)

end

/-- The answers to those who wait for what a packet acknowledges. -/
def EventLoop.completions (self : EventLoop E R S W maxPacketSize) : MqttPacket → List (R × Answer E)
  | .pubAck ack =>
    ((self.inflightPublishes.get? ack.packetId).bind (·.2)).toList.map fun sender =>
      (sender, .done (.ok ()))
  | .subAck ack =>
    (self.inflightSubscribes.get? ack.packetId).toList.map fun sender =>
      (sender, .packetId (.ok ack.packetId))
  | .unsubAck ack =>
    (self.inflightUnsubscribes.get? ack.packetId).toList.map fun sender =>
      (sender, .packetId (.ok ack.packetId))
  | _ => []

/-- Whoever made the request is to wait for an acknowledgement. -/
def ClientRequest.AwaitsAck : ClientRequest R S → Prop
  | .publish message _ => message.qos ≠ .atMostOnce
  | .subscribe _ _ _ _ | .unsubscribe _ _ => True
  | .publishBatch _ _ | .publishDatagram _ _ _ | .disconnect _ => False

/-- A request may be answered at once if it awaits no acknowledgement. -/
def ClientRequest.Answerable (self : ClientRequest R S) (sender : R) : Answer E → Prop
  | .done (.ok _) => ¬ self.AwaitsAck ∧ self.requester = some sender
  | .packetId (.ok _) => False
  | _ => True

section
variable {c : Conn E R S W maxPacketSize}

theorem answers_of_sends {P : R → Answer E → Prop} {Q : UInt8 → Prop}
    {s s' : Conn E R S W maxPacketSize} (h : c.toEventLoop.Answers P s.toEventLoop)
    (hsends : Sends Q s s') : c.toEventLoop.Answers P s'.toEventLoop :=
  h.congr (by rw [hsends.loop])

/-- A publish above QoS 0 is not answered yet. -/
theorem answers_published {s : Conn E R S W maxPacketSize} {message : PublishMessage}
    {ackSender : Option R}
    (h : c.toEventLoop.Answers
      (ClientRequest.publish message ackSender : ClientRequest R S).Answerable s.toEventLoop) :
    c.toEventLoop.Answers (ClientRequest.publish message ackSender : ClientRequest R S).Answerable
      (published s message ackSender).toEventLoop := by
  by_cases hqos : message.qos = .atMostOnce
  · refine h.append (ackSender.toList.map fun sender => (sender, .done (.ok ()))) ?_ ?_
    · simp [published, hqos]
    · simp [ClientRequest.Answerable, ClientRequest.AwaitsAck, ClientRequest.requester, hqos]
  · apply h.congr
    simp [published, hqos]

/-- What a request is answered before an acknowledgement comes. -/
theorem answers_handleClientRequest (request : ClientRequest R S) (now : ℕ) :
    Preserves (fun s => c.toEventLoop.Answers request.Answerable s.toEventLoop)
      (handleClientRequest request now) := by
  have hsend (p : MqttPacket) : Preserves (fun s : Conn E R S W maxPacketSize =>
      c.toEventLoop.Answers request.Answerable s.toEventLoop) (sendPacket p now) :=
    preserves_of_sends (P := fun _ => True) (fun _ _ => answers_of_sends)
      fun _ => sends_sendPacket trivial now
  cases request with
  | publish message ackSender =>
    exact preserves_sendPublishDirect (P := fun _ => True) (fun _ _ => answers_of_sends)
      (fun _ => trivial) (fun _ => answers_published) now
  | publishBatch messages ackSender =>
    apply preserves_publishBatch (P := fun _ => True) (fun _ _ => answers_of_sends) (fun _ => trivial)
    · intro s message hs
      exact hs.congr (answers_tracked message none)
    · intro s count hs
      exact hs.append _ rfl (by simp [ClientRequest.Answerable])
  | publishDatagram topic payload ackSender =>
    apply preserves_publishDatagram (P := fun _ => True) (fun _ _ => answers_of_sends)
    intro s result hs
    apply hs.append _ rfl
    cases result <;>
      simp [ClientRequest.Answerable, ClientRequest.AwaitsAck, ClientRequest.requester]
  | subscribe topic qos respSender streamSender =>
    intro s hs
    exact ends_subscribe (hs.congr rfl) (hsend _) (fun _ _ h => h.congr rfl) respSender
  | unsubscribe topic respSender =>
    intro s hs
    exact ends_unsubscribe (hs.congr rfl) (hsend _) (fun _ _ h => h.congr rfl) respSender
  | disconnect respSender =>
    apply Preserves.bind
    · exact preserves_sendDisconnect (P := fun _ => True)
        (fun _ _ => answers_of_sends) trivial fun _ _ h => h.congr rfl
    intro _
    apply Preserves.bind
    · apply Preserves.modify
      intro s hs
      exact hs.append _ rfl
        (by simp [ClientRequest.Answerable, ClientRequest.AwaitsAck, ClientRequest.requester])
    intro _
    exact Preserves.throw _

/-- Only the acknowledgements are answered when a frame is acted on. -/
theorem answers_handle [DecidableEq S] (ch : Mpsc W S PublishMessage) (received : Received) (now : ℕ) :
    Ends (handle ch now received) c
      (fun _ c' => c'.answers = c.answers ++ c.completions received.packet)
      fun _ c' => c'.answers = c.answers ++ c.completions received.packet := by
  obtain ⟨frame, packet⟩ := received
  cases packet with
  | publish p =>
    have hack (message : PublishMessage) : Preserves (fun s : Conn E R S W maxPacketSize =>
        s.answers = c.answers ++ []) (acknowledgePublish message now) :=
      preserves_of_sends (P := fun _ => True) (fun s s' hs hsends => by rw [← hs, hsends.loop])
        fun _ => sends_acknowledgePublish message now trivial
    have hdispatch (message : PublishMessage) : Preserves (fun s : Conn E R S W maxPacketSize =>
        s.answers = c.answers ++ []) (dispatch ch message) := Preserves.modify fun _ hs => hs
    exact Preserves.bind (hack _) (fun _ => hdispatch _) c (by simp)
  | pubAck ack =>
    change Ends (performAction ch now (.pubAck ack.packetId)) c _ _
    rw [Ends, performAction_pubAck]
    rfl
  | subAck ack =>
    change Ends (performAction ch now (.subAck ack.packetId)) c _ _
    rw [Ends, performAction_subAck]
    rfl
  | unsubAck ack =>
    change Ends (performAction ch now (.unsubAck ack.packetId)) c _ _
    rw [Ends, performAction_unsubAck]
    rfl
  | disconnect d => exact Ends.throw (by simp [completions])
  | _ => exact Ends.pure (by simp [completions])

/-- Connecting answers nobody. -/
theorem answers_connectAttempt {self loop : EventLoop E R S W maxPacketSize} {order : HashOrder}
    {dial : Except (ClientError E) (Socket E)} {now : ℕ} {attempt : Attempt E}
    {socket : Option (Socket E)}
    (h : self.connectAttempt order dial now = some (attempt, loop, socket)) :
    loop.answers = self.answers := by
  let I (s : Conn E R S W maxPacketSize) : Prop := s.answers = self.answers
  have hsends (s s' : Conn E R S W maxPacketSize) (hs : I s) (h : Sends (fun _ => True) s s') : I s' :=
    (congrArg EventLoop.answers h.loop).trans hs
  have hrecovery : Preserves I (performSessionDataRecovery order now) := by
    apply preserves_performSessionDataRecovery
    · exact fun _ _ _ _ _ => preserves_of_sends hsends fun _ => sends_tryWritePacket trivial
    · exact preserves_of_sends hsends fun _ => sends_flush
    · intro _ _ e _
      have hnext : Preserves I getNextPacketId := fun _ hs => hs
      exact Preserves.bind hnext fun pid =>
        preserves_of_sends hsends fun _ => sends_tryWritePacket trivial
    · intro s _
      refine preserves_flushOfflineQueue (fun _ _ _ hs => hs) fun message _ => ?_
      apply preserves_sendPublishDirect hsends (fun _ => trivial)
      intro s hs
      have hanswers : (published s message none).answers = s.answers := by
        rw [published]
        split <;> simp
      exact hanswers.trans hs
  rcases connectAttempt_cases (I := I) (fun _ _ => rfl)
    (preserves_of_sends hsends fun _ => sends_performConnectHandshake trivial) (fun _ hs => hs)
    hrecovery h with ⟨rfl, -⟩ | ⟨s, hs, ⟨rfl, -, -⟩ | ⟨rfl, -⟩⟩
  · rfl
  · exact hs
  · exact hs

end

end

/-! ## What a step should do -/

namespace LoopSystem
variable {E R S W : Type} {maxPacketSize : ℕ}

/-- The last SUBSCRIBE with the packet id on the connection is one for the topic filter. -/
def Asked (self : LoopSystem E R S W maxPacketSize) (packetId : UInt16) (topic : String) : Prop :=
  ∃ socket rxCursor received qos before later, self.phase = .driving socket rxCursor received ∧
    socket.written =
      before ++ (subscribePacket packetId topic qos).wire self.loop.options.version :: later ∧
    ∀ bytes ∈ later, ∀ topic qos,
      bytes ≠ (subscribePacket packetId topic qos).wire self.loop.options.version

/-- The filter is neither among the active subscriptions nor in the router. -/
def Unsubscribed (self : LoopSystem E R S W maxPacketSize) (topic : String) : Prop :=
  self.loop.activeSubscriptions.get? topic = none ∧
    self.loop.router.root.subscribers (levels topic) = []

/-- An answer may be sent after an event: if it is `Ok`, then because the broker has granted what
the sender waits for, or because there is nothing that the broker could grant. -/
def Earned (self : LoopSystem E R S W maxPacketSize) (event : Event E R S W) (sender : R) :
    Answer E → Prop
  | .done (.ok _) =>
    (∃ ack message, self.acting event = some (.pubAck ack) ∧ ¬ ack.Refuses ∧
        self.loop.inflightPublishes.get? ack.packetId = some (message, some sender)) ∨
      ∃ request now, event = .request (some request) now ∧ ¬ request.AwaitsAck ∧
        request.requester = some sender
  | .packetId (.ok packetId) =>
    ∃ ack : CodesAck, ack.packetId = packetId ∧ ¬ ack.Refuses ∧
      (self.acting event = some (.subAck ack) ∧
          self.loop.inflightSubscribes.get? packetId = some sender ∨
        self.acting event = some (.unsubAck ack) ∧
          self.loop.inflightUnsubscribes.get? packetId = some sender)
  | _ => True

/-- A step reports success only if it is earned, and a filter that is refused is gone after it. -/
structure Step.Honest (x : Step E R S W maxPacketSize) : Prop where
  answers : x.before.loop.Answers (x.before.Earned x.event) x.after.loop
  filters : ∀ ack, x.before.acting x.event = some (.subAck ack) → ack.Refuses →
    ∀ topic, x.before.Asked ack.packetId topic → x.after.Unsubscribed topic

/-- If the packet refuses something, nobody waits for it, and a filter that it refuses is gone
already. -/
def Unrefused (self : LoopSystem E R S W maxPacketSize) : MqttPacket → Prop
  | .pubAck ack =>
    ack.Refuses → (self.loop.inflightPublishes.get? ack.packetId).bind (·.2) = none
  | .subAck ack =>
    ack.Refuses → self.loop.inflightSubscribes.get? ack.packetId = none ∧
      ∀ topic, self.Asked ack.packetId topic → self.Unsubscribed topic
  | .unsubAck ack => ack.Refuses → self.loop.inflightUnsubscribes.get? ack.packetId = none
  | _ => True

variable [DecidableEq S] {ch : Mpsc W S PublishMessage} {order : HashOrder}
  {s t : LoopSystem E R S W maxPacketSize} {event : Event E R S W}

/-- What is answered in a step: the completions of the packet that it acts on, or what a request
may be answered at once. -/
theorem answers_step (h : s.step ch order event = some t) :
    (∀ packet, s.acting event = some packet →
      t.loop.answers = s.loop.answers ++ s.loop.completions packet) ∧
    (s.acting event = none → s.loop.Answers (s.Earned event) t.loop) := by
  constructor
  · intro packet hacting
    cases event with
    | handle now =>
      refine loop_step (Q := fun loop => loop.answers = s.loop.answers ++ s.loop.completions packet)
        h (fun _ _ _ hloop => hloop) ?_
      intro socket rxCursor received later hphase
      have hpacket : received.packet = packet := by
        simpa [acting, hphase, Phase.received] using hacting
      rw [← hpacket]
      exact answers_handle (c := { s.loop with socket }) ch received now
    | _ => simp [acting] at hacting
  · intro hacting
    have hsent {α : Type} {x : ConnM E R S W maxPacketSize α} {c : Conn E R S W maxPacketSize}
        (hx : ∀ s₀, Preserves (Sends (fun _ => True) s₀) x) :
        Ends x c (fun _ c' => c.toEventLoop.Answers (s.Earned event) c'.toEventLoop)
          fun _ c' => c.toEventLoop.Answers (s.Earned event) c'.toEventLoop :=
      preserves_of_sends (fun _ _ => answers_of_sends) hx c (answers_of_eq rfl)
    refine loop_step (Q := s.loop.Answers (s.Earned event)) h (fun _ _ _ hloop => hloop.congr rfl) ?_
    cases event with
    | attempt dial now => exact fun _ _ _ h => answers_of_eq (answers_connectAttempt h)
    | enter => exact answers_of_eq rfl
    | read =>
      intro socket rxCursor _
      exact hsent (c := { s.loop with socket }) fun _ => sends_receiveFrames rxCursor
    | handle now =>
      intro socket rxCursor received later hphase
      simp [acting, hphase, Phase.received] at hacting
    | request request now =>
      intro socket rxCursor _
      rcases request with _ | request
      · have hdisconnect : Preserves (fun c : Conn E R S W maxPacketSize =>
            s.loop.Answers (s.Earned (.request none now)) c.toEventLoop) sendDisconnect :=
          preserves_sendDisconnect (P := fun _ => True)
            (fun _ _ => answers_of_sends (c := { s.loop with socket })) trivial
            fun _ _ h => h.congr rfl
        exact Preserves.bind (preserves_ignore hdisconnect) (fun _ => Preserves.pure _) _
          (answers_of_eq rfl)
      · have hmono {c : Conn E R S W maxPacketSize}
            (h : s.loop.Answers request.Answerable c.toEventLoop) :
            s.loop.Answers (s.Earned (.request (some request) now)) c.toEventLoop := by
          obtain ⟨answers, heq, hanswers⟩ := h
          refine ⟨answers, heq, fun a ha => ?_⟩
          have := hanswers a ha
          rcases a with ⟨sender, (_ | _) | _ | (_ | _)⟩ <;>
            simp_all [Earned, ClientRequest.Answerable]
        refine Ends.bind ?_
        refine (answers_handleClientRequest (c := { s.loop with socket }) request now _
          (answers_of_eq rfl)).mono (fun _ _ h => hmono h) fun _ _ h => hmono h
    | tick now =>
      intro socket rxCursor _
      exact hsent (c := { s.loop with socket }) fun _ => sends_driveTick trivial now
    | arrive segment => exact answers_of_eq rfl
    | channels w => exact answers_of_eq rfl

/-- A SUBACK leaves the subscriptions as they are. -/
theorem unsubscribed_step (h : s.step ch order event = some t) {ack : SubAck}
    (hacting : s.acting event = some (.subAck ack)) (topic : String) :
    t.Unsubscribed topic ↔ s.Unsubscribed topic := by
  have hsame : t.loop.activeSubscriptions = s.loop.activeSubscriptions ∧
      t.loop.router = s.loop.router := by
    refine loop_step (Q := fun loop => loop.activeSubscriptions = s.loop.activeSubscriptions ∧
      loop.router = s.loop.router) h (fun _ _ _ hloop => hloop) ?_
    cases event with
    | handle now =>
      rintro socket rxCursor ⟨frame, packet⟩ later hphase
      obtain rfl : packet = .subAck ack := by
        simpa [acting, hphase, Phase.received] using hacting
      change Ends (performAction ch now (.subAck ack.packetId)) _ _ _
      rw [Ends, performAction_subAck]
      exact ⟨rfl, rfl⟩
    | _ => simp [acting] at hacting
  rw [Unsubscribed, Unsubscribed, hsame.1, hsame.2]

/-- A step is honest exactly if it acts on no packet that refuses what somebody waits for. -/
theorem honest_step (h : s.step ch order event = some t) :
    Step.Honest ⟨s, event, t⟩ ↔ ∀ packet, s.acting event = some packet → s.Unrefused packet := by
  obtain ⟨hcompletions, hnone⟩ := answers_step h
  rcases hacting : s.acting event with _ | packet
  · exact iff_of_true ⟨hnone hacting, by simp [hacting]⟩ (by simp)
  have hevent (request : ClientRequest R S) (now : ℕ) : event ≠ .request (some request) now := by
    rintro rfl
    simp [acting] at hacting
  have hanswers := answers_iff (P := s.Earned event) (hcompletions packet hacting)
  have hhonest : Step.Honest ⟨s, event, t⟩ ↔
      (∀ a ∈ s.loop.completions packet, s.Earned event a.1 a.2) ∧
        ∀ ack, packet = .subAck ack → ack.Refuses →
          ∀ topic, s.Asked ack.packetId topic → s.Unsubscribed topic := by
    constructor
    · intro hhonest
      refine ⟨hanswers.mp hhonest.answers, ?_⟩
      rintro ack rfl hrefuses topic hasked
      exact (unsubscribed_step h hacting topic).mp
        (hhonest.filters ack hacting hrefuses topic hasked)
    · rintro ⟨hearned, hfilters⟩
      refine ⟨hanswers.mpr hearned, ?_⟩
      intro ack hack hrefuses topic hasked
      have hpacket : packet = .subAck ack := Option.some.inj (hacting.symm.trans hack)
      exact (unsubscribed_step h hack topic).mpr (hfilters ack hpacket hrefuses topic hasked)
  have hone : (∀ p, some packet = some p → s.Unrefused p) ↔ s.Unrefused packet := by simp
  rw [hhonest, hone]
  cases packet with
  | pubAck ack =>
    rcases hentry : s.loop.inflightPublishes.get? ack.packetId with _ | ⟨message, _ | sender⟩ <;>
      simp [completions, Unrefused, Earned, hacting, hentry, hevent]
  | subAck ack =>
    rcases hsender : s.loop.inflightSubscribes.get? ack.packetId with _ | sender
    · simp [completions, Unrefused, hsender]
    · by_cases hrefuses : ack.Refuses <;>
        simp [completions, Unrefused, Earned, hacting, hsender, hrefuses]
  | unsubAck ack =>
    rcases hsender : s.loop.inflightUnsubscribes.get? ack.packetId with _ | sender <;>
      simp [completions, Unrefused, Earned, hacting, hsender]
  | _ => simp [completions, Unrefused]

/-- In every run: success is reported only where it is earned, and the filters that are refused are
gone, exactly if no packet is acted on that refuses something somebody waits for or a filter that
is still there. -/
theorem honest_iff {options : ClientOptions} {channels : W} {now : ℕ}
    {steps : List (Step E R S W maxPacketSize)}
    (h : Traced ch order (start options channels now) steps s) :
    (∀ x ∈ steps, x.Honest) ↔
      ∀ x ∈ steps, ∀ packet, x.before.acting x.event = some packet → x.before.Unrefused packet := by
  constructor
  · intro hhonest x hx
    exact (honest_step (h.step_of_mem hx)).mp (hhonest x hx)
  · intro hunrefused x hx
    exact (honest_step (h.step_of_mem hx)).mpr (hunrefused x hx)

/-- A subscription, and the SUBACK with this code. -/
def subscribing (code : UInt8) : List (Event Unit ℕ ℕ (ℕ → Queue PublishMessage)) :=
  connecting [[0x90, 3, 0, 1, code]] ++
    [.request (some (.subscribe "a" .atMostOnce 0 none)) 0, .read, .handle 0]

/-- The packets that are acted on. -/
def actings (x : List (Step Unit ℕ ℕ (ℕ → Queue PublishMessage) 64) ×
    LoopSystem Unit ℕ ℕ (ℕ → Queue PublishMessage) 64) : List MqttPacket :=
  x.1.filterMap fun x => x.before.acting x.event

/-- A SUBACK that grants the subscription. -/
theorem honest_iff_sample :
    ∃ steps s, Traced (.queues ℕ PublishMessage) listed fresh steps s ∧
      s.loop.answers.map (·.1) = [0] ∧ ∀ x ∈ steps, x.Honest := by
  let ran := runTraced (.queues ℕ PublishMessage) listed (subscribing 0) fresh
  have heval : ran.map (fun x => (actings x, x.2.loop.answers.map (·.1))) =
      some ([.subAck ⟨1, ⟨[0], by decide⟩, .empty⟩], [0]) := by
    decide +kernel
  obtain ⟨⟨steps, s⟩, hrun, hs⟩ := Option.map_eq_some_iff.mp heval
  simp only [Prod.mk.injEq] at hs
  have htraced := traced_of_runTraced hrun
  refine ⟨steps, s, htraced, hs.2, (honest_iff htraced).mpr fun x hx packet hacting => ?_⟩
  have hpacket : packet ∈ actings (steps, s) := List.mem_filterMap.mpr ⟨x, hx, hacting⟩
  rw [hs.1, List.mem_singleton] at hpacket
  rw [hpacket]
  intro hrefuses
  exact absurd hrefuses (by decide)

/-- The broker refuses a subscription, and the requester is told `Ok`. -/
theorem grants_refused :
    ¬ ∀ steps s, Traced (.queues ℕ PublishMessage) listed fresh steps s → ∀ x ∈ steps, x.Honest := by
  intro hall
  let ran := runTraced (.queues ℕ PublishMessage) listed (subscribing 0x80) fresh
  have heval : ran.bind (fun x => x.1.getLast?.map fun x =>
        (x.before.acting x.event, x.before.loop.inflightSubscribes.get? 1)) =
      some (some (.subAck ⟨1, ⟨[0x80], by decide⟩, .empty⟩), some 0) := by
    decide +kernel
  obtain ⟨⟨steps, s⟩, hrun, heval⟩ := Option.bind_eq_some_iff.mp heval
  obtain ⟨x, hlast, hx⟩ := Option.map_eq_some_iff.mp heval
  simp only [Prod.mk.injEq] at hx
  have htraced := traced_of_runTraced hrun
  have hmem : x ∈ steps := List.mem_of_getLast? hlast
  have hunrefused := (honest_step (htraced.step_of_mem hmem)).mp (hall steps s htraced x hmem) _ hx.1
  have hnone := (hunrefused (by decide)).1
  rw [hx.2] at hnone
  cases hnone

end LoopSystem

end MqttEngine.Tokio
