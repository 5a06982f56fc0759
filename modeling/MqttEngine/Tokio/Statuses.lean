import MqttEngine.Tokio.Backoff
import MqttEngine.Tokio.Stopping

/-!
# The statuses that the event loop publishes

Whoever watches a client sees its statuses one after the other. They come in the order that the
automaton `StatusMode` describes: attempts to connect are numbered from 1 since the connection was
lost, an attempt is announced by `Reconnecting` just when it has to wait, `Connected` comes after an
attempt only, and what comes after it is `Disconnected` or `Stopped`. And a client whose last status
is `Connected` has a connection.

## Main definitions

* `StatusMode`, `StatusMode.next` — the automaton.
* `Detached` — conditions that requests and frames do not matter for.
* `LoopSystem.Accords` — the automaton and the state of `run` agree.

## Main results

* `Detached.handle`, `Detached.handleClientRequest` and the others — what keeps such a condition.
* `statuses_of_runs` — the automaton accepts the statuses of every run.
* `connected_iff` — when the last status is `Connected`.
-/

namespace MqttEngine.Tokio
open Checked Conn EventLoop

/-! ## The automaton -/

/-- What the statuses so far say. -/
inductive StatusMode
  /-- There is no connection, and so many attempts have begun since there was one. -/
  | trying (attempts : ℕ)
  /-- It waits for the attempt of this number. -/
  | waiting (attempt : ℕ)
  | up
  /-- DISCONNECT has been sent. -/
  | leaving
  | over
  deriving DecidableEq

/-- The next status. -/
def StatusMode.next (policy : ReconnectPolicy) :
    StatusMode → ConnectionStatus → Option StatusMode
  | .trying n, .reconnecting attempt nextRetry =>
    if attempt = n + 1 ∧ policy.computeDelay attempt = some nextRetry ∧ 0 < nextRetry then
      some (.waiting attempt)
    else none
  | .trying n, .connecting =>
    if policy.computeDelay (n + 1) = some 0 then some (.trying (n + 1)) else none
  | .waiting n, .connecting => some (.trying n)
  | .trying n, .connected => if 0 < n then some .up else none
  | .trying n, .stopped =>
    if (n = 0 ∧ policy.enabled = false) ∨ (0 < n ∧ ∃ limit ∈ policy.maxRetries, limit ≤ n) then
      some .over
    else none
  | .up, .disconnected => some (.trying 0)
  | .up, .stopped => some .leaving
  | .leaving, .disconnected => some (.trying 0)
  | .leaving, .stopped => some .leaving
  | _, _ => none

/-- The mode after statuses. -/
def StatusMode.after (policy : ReconnectPolicy) (mode : StatusMode)
    (statuses : List ConnectionStatus) : Option StatusMode :=
  statuses.foldlM (next policy) mode

namespace StatusMode
variable {policy : ReconnectPolicy} {mode mode' : StatusMode} {statuses : List ConnectionStatus}
  {status : ConnectionStatus}

theorem after_append (more : List ConnectionStatus) :
    mode.after policy (statuses ++ more) =
      (mode.after policy statuses).bind (after policy · more) :=
  List.foldlM_append

@[simp] theorem after_singleton : mode.after policy [status] = mode.next policy status := by
  simp [after]

/-- The connection is up just after `Connected`. -/
theorem next_up (h : mode.next policy status = some mode') : mode' = .up ↔ status = .connected := by
  cases mode <;> cases status <;>
    simp only [next, Option.ite_none_right_eq_some, Option.some.injEq, reduceCtorEq] at h
  all_goals
    obtain ⟨-, rfl⟩ := h
    simp

/-- The last status says whether the connection is up. -/
theorem after_up (h : mode.after policy statuses = some mode') (hne : statuses ≠ []) :
    mode' = .up ↔ statuses.getLast? = some .connected := by
  obtain ⟨before, last, rfl⟩ := List.eq_nil_or_concat statuses |>.resolve_left hne
  rw [List.concat_eq_append, after_append] at h
  obtain ⟨between, -, hlast⟩ := Option.bind_eq_some_iff.mp h
  rw [after_singleton] at hlast
  rw [next_up hlast, List.concat_eq_append, List.getLast?_append]
  simp

/-- An attempt begins, after it has waited if it has to. -/
theorem after_attempt {n delay : ℕ} (h : mode.after policy statuses = some (.trying n))
    (hdelay : policy.computeDelay (n + 1) = some delay) :
    mode.after policy (statuses ++
        (if delay > 0 then [.reconnecting (n + 1) delay] else []) ++ [.connecting]) =
      some (.trying (n + 1)) := by
  rw [List.append_assoc, after_append, h, Option.bind_some]
  rcases Nat.eq_zero_or_pos delay with rfl | hpos
  · simp [after, next, hdelay]
  · simp [after, next, hdelay, hpos]

end StatusMode

/-! ## What requests and frames do not matter for -/

section
variable {E R S W : Type} {maxPacketSize : ℕ} {s : Conn E R S W maxPacketSize}

/-- A condition for which the use of the transport, the tables and the answers do not matter. -/
structure Detached (I : Conn E R S W maxPacketSize → Prop) : Prop where
  sends : ∀ s s', I s → Sends (fun _ => True) s s' → I s'
  tables : ∀ s router channels offlineQueue activeSubscriptions inflightPublishes
    inflightSubscribes inflightUnsubscribes nextPacketId answers, I s →
      I { s with
        router, channels, offlineQueue, activeSubscriptions, inflightPublishes, inflightSubscribes
        inflightUnsubscribes, nextPacketId, answers }

namespace Detached
variable {I : Conn E R S W maxPacketSize → Prop} (hI : Detached I)
include hI

theorem tracked (hs : I s) (message : PublishMessage) (ackSender : Option R) :
    I (tracked s message ackSender) := by
  unfold EventLoop.tracked
  split
  · exact hI.tables s _ _ _ _ _ _ _ _ _ hs
  · exact hs

theorem published (hs : I s) (message : PublishMessage) (ackSender : Option R) :
    I (published s message ackSender) := by
  unfold Tokio.published
  split
  · exact hI.tracked hs message ackSender
  · exact hI.tables s _ _ _ _ _ _ _ _ _ hs

theorem of_sends {α : Type} {x : ConnM E R S W maxPacketSize α}
    (h : ∀ s₀, Preserves (Sends (fun _ => True) s₀) x) : Preserves I x :=
  preserves_of_sends hI.sends h

theorem sendPublishDirect (message : PublishMessage) (ackSender : Option R) (now : ℕ) :
    Preserves I (sendPublishDirect message ackSender now) :=
  preserves_sendPublishDirect hI.sends (fun _ => trivial)
    (fun _ hs => hI.published hs message ackSender) now

/-- Requests, but for one to disconnect. -/
theorem handleClientRequest {request : ClientRequest R S}
    (h : ∀ sender, request ≠ .disconnect sender) (now : ℕ) :
    Preserves I (handleClientRequest request now) := by
  have hpublish (hrequest : request.IsPublish) :
      Preserves I (EventLoop.handleClientRequest request now) :=
    preserves_publishing hI.sends (fun _ => trivial)
      (fun _ message ackSender hs => hI.published hs message ackSender)
      (fun _ message hs => hI.tracked hs message none)
      (fun s _ hs => hI.tables s _ _ _ _ _ _ _ _ _ hs) hrequest now
  cases request with
  | subscribe topic qos respSender streamSender =>
    exact fun s hs => ends_subscribe (hI.tables s _ _ _ _ _ _ _ _ _ hs)
      (hI.of_sends fun _ => sends_sendPacket trivial now)
      (fun s _ hs => hI.tables s _ _ _ _ _ _ _ _ _ hs) respSender
  | unsubscribe topic respSender =>
    exact fun s hs => ends_unsubscribe (hI.tables s _ _ _ _ _ _ _ _ _ hs)
      (hI.of_sends fun _ => sends_sendPacket trivial now)
      (fun s _ hs => hI.tables s _ _ _ _ _ _ _ _ _ hs) respSender
  | disconnect respSender => exact absurd rfl (h respSender)
  | _ => exact hpublish trivial

theorem handle [DecidableEq S] (ch : Mpsc W S PublishMessage) (received : Received) (now : ℕ) :
    Preserves I (handle ch now received) :=
  preserves_handle ch now hI.sends trivial
    (fun s _ _ hs => hI.tables s _ _ _ _ _ _ _ _ _ hs)
    (fun s _ hs => hI.tables s _ _ _ _ _ _ _ _ _ hs)
    (fun s _ hs => hI.tables s _ _ _ _ _ _ _ _ _ hs)
    (fun s _ hs => hI.tables s _ _ _ _ _ _ _ _ _ hs) received

theorem performSessionDataRecovery (order : HashOrder) (now : ℕ) :
    Preserves I (performSessionDataRecovery order now) := by
  apply preserves_performSessionDataRecovery
  · exact fun _ _ _ _ _ => hI.of_sends fun _ => sends_tryWritePacket trivial
  · exact hI.of_sends fun _ => sends_flush
  · intro _ _ e _
    have hnext : Preserves I (getNextPacketId : ConnM E R S W maxPacketSize UInt16) :=
      fun s hs => hI.tables s _ _ _ _ _ _ _ _ _ hs
    apply Preserves.bind hnext
    intro pid
    exact hI.of_sends fun _ => sends_tryWritePacket trivial
  · intro s _
    exact preserves_flushOfflineQueue (fun s _ _ hs => hI.tables s _ _ _ _ _ _ _ _ _ hs)
      fun message _ => hI.sendPublishDirect message none now

/-- DISCONNECT, after which `Stopped` is published. -/
theorem sendDisconnect
    (hstopped : ∀ s, I s → I { s with statuses := s.statuses ++ [.stopped] }) :
    Preserves I sendDisconnect := by
  have hpublish : Preserves I (publishStatus .stopped) := Preserves.modify hstopped
  apply Preserves.bind (hI.of_sends fun _ => sends_encodeTx 0 _)
  rintro ((e | _ | _) | len)
  · exact hpublish
  · exact Preserves.throw _
  · exact Preserves.throw _
  · apply Preserves.bind (preserves_ignore (hI.of_sends fun _ => sends_writeTx len))
    intro _
    apply Preserves.bind (preserves_ignore (hI.of_sends fun _ => sends_flush))
    intro _
    exact hpublish

end Detached

/-! ## Statuses -/

/-- The statuses, the count of attempts and the options. -/
def Standing (statuses : List ConnectionStatus) (n : ℕ) (options : ClientOptions)
    (s : Conn E R S W maxPacketSize) : Prop :=
  s.statuses = statuses ∧ s.reconnectAttempt = n ∧ s.options = options

theorem detached_standing (statuses : List ConnectionStatus) (n : ℕ) (options : ClientOptions) :
    Detached (Standing statuses n options : Conn E R S W maxPacketSize → Prop) where
  sends _ _ hs h :=
    ⟨(congrArg EventLoop.statuses h.loop).trans hs.1,
      (congrArg EventLoop.reconnectAttempt h.loop).trans hs.2.1,
      (congrArg EventLoop.options h.loop).trans hs.2.2⟩
  tables _ _ _ _ _ _ _ _ _ _ hs := hs

/-- An attempt that has failed is the last one only if no more are permitted. -/
theorem attemptFailed_cases {self loop : EventLoop E R S W maxPacketSize} (e : ClientError E)
    (hcount : loop.reconnectAttempt = self.reconnectAttempt + 1)
    (hoptions : loop.options = self.options) :
    loop.attemptFailed e = .retry ∨ loop.attemptFailed e = .failed e ∧
      ∃ limit ∈ self.options.reconnect.maxRetries, limit ≤ self.reconnectAttempt + 1 := by
  rw [attemptFailed, hoptions, hcount]
  split
  · rename_i limit hlimit
    split
    · rename_i hlast
      exact .inr ⟨rfl, limit, hlimit, hlast⟩
    · exact .inl rfl
  · exact .inl rfl

/-- What an attempt to connect does to the statuses. -/
theorem statuses_connectAttempt {self loop : EventLoop E R S W maxPacketSize} {order : HashOrder}
    {dial : Except (ClientError E) (Socket E)} {now : ℕ} {attempt : Attempt E}
    {dropped : Option (Socket E)}
    (h : self.connectAttempt order (dial.map Socket.opened) now = some (attempt, loop, dropped)) :
    loop.options = self.options ∧
      ((attempt = .connected ∧ loop.statuses = self.startAttempt.statuses ++ [.connected] ∧
          loop.reconnectAttempt = 0 ∧ loop.transport ≠ none) ∨
        (loop.statuses = self.startAttempt.statuses ∧
          loop.reconnectAttempt = self.reconnectAttempt + 1 ∧ loop.transport = self.transport ∧
          (attempt = .retry ∨ ∃ e, attempt = .failed e ∧
            ∃ limit ∈ self.options.reconnect.maxRetries, limit ≤ self.reconnectAttempt + 1))) := by
  have hover {loop : EventLoop E R S W maxPacketSize} (e : ClientError E)
      (hcount : loop.reconnectAttempt = self.reconnectAttempt + 1)
      (hoptions : loop.options = self.options) :
      loop.attemptFailed e = .retry ∨ ∃ e', loop.attemptFailed e = .failed e' ∧
        ∃ limit ∈ self.options.reconnect.maxRetries, limit ≤ self.reconnectAttempt + 1 :=
    (attemptFailed_cases e hcount hoptions).imp_right fun ⟨hlast, hlimit⟩ => ⟨e, hlast, hlimit⟩
  obtain ⟨-, h⟩ := connectAttempt_eq_some.mp h
  rw [finishAttempt.eq_def] at h
  rcases dial with e | socket
  · cases h
    exact ⟨rfl, .inr ⟨rfl, rfl, rfl, hover e rfl rfl⟩⟩
  dsimp only [Except.map] at h
  let s : Conn E R S W maxPacketSize := { self.startAttempt with socket := socket.opened }
  have hsends := sends_performConnectHandshake (P := fun _ => True) trivial s .refl
  have hstanding := (detached_standing s.statuses s.reconnectAttempt s.options).of_sends
    (fun _ => sends_performConnectHandshake trivial) s ⟨rfl, rfl, rfl⟩
  rcases hrun : performConnectHandshake s with ⟨u, c⟩ | ⟨(e | _ | _), c⟩
  · rw [hrun] at h
    dsimp only at h
    obtain ⟨hstatuses, hcount, hoptions⟩ := hstanding.ok_of hrun
    let t : Conn E R S W maxPacketSize :=
      { c with reconnectAttempt := 0, statuses := c.statuses ++ [.connected], lastTx := now }
    have hrecovery :=
      (detached_standing t.statuses 0 t.options).performSessionDataRecovery order now t
        ⟨rfl, rfl, rfl⟩
    have hsilent := silent_performSessionDataRecovery (n := 0) order now t rfl
    rcases hrun' : performSessionDataRecovery order now t with ⟨u, d⟩ | ⟨(e | _ | _), d⟩
    · rw [hrun'] at h
      cases h
      obtain ⟨hstatuses', hcount', hoptions'⟩ := hrecovery.ok_of hrun'
      refine ⟨hoptions'.trans hoptions, .inl ⟨rfl, ?_, hcount', by simp⟩⟩
      exact hstatuses'.trans (congrArg (· ++ [.connected]) hstatuses)
    · exact absurd rfl (hsilent.error_of hrun' e)
    · rw [hrun'] at h
      cases h
    · rw [hrun'] at h
      cases h
  · obtain ⟨hstatuses, hcount, hoptions⟩ := hstanding.error_of hrun
    have htransport : c.transport = self.transport :=
      (congrArg EventLoop.transport (hsends.error_of hrun).loop).trans rfl
    rw [hrun] at h
    cases h
    exact ⟨hoptions, .inr ⟨hstatuses, hcount, htransport, hover e hcount hoptions⟩⟩
  · rw [hrun] at h
    cases h
  · rw [hrun] at h
    cases h

/-! ## Runs -/

/-- The automaton accepts the statuses, and is in a mode of this kind. -/
def Tells (policy : ReconnectPolicy) (modes : StatusMode → Prop)
    (statuses : List ConnectionStatus) : Prop :=
  ∃ rest mode, statuses = .disconnected :: rest ∧
    (StatusMode.trying 0).after policy rest = some mode ∧ modes mode

theorem Tells.mono {policy : ReconnectPolicy} {modes modes' : StatusMode → Prop}
    {statuses : List ConnectionStatus} (h : Tells policy modes statuses)
    (hmodes : ∀ mode, modes mode → modes' mode) : Tells policy modes' statuses := by
  obtain ⟨rest, mode, hrest, hafter, hmode⟩ := h
  exact ⟨rest, mode, hrest, hafter, hmodes mode hmode⟩

/-- One more status. -/
theorem Tells.append {policy : ReconnectPolicy} {modes modes' : StatusMode → Prop}
    {statuses : List ConnectionStatus} {status : ConnectionStatus} (h : Tells policy modes statuses)
    (hnext : ∀ mode, modes mode → ∃ mode', mode.next policy status = some mode' ∧ modes' mode') :
    Tells policy modes' (statuses ++ [status]) := by
  obtain ⟨rest, mode, rfl, hafter, hmode⟩ := h
  obtain ⟨mode', hnext, hmode'⟩ := hnext mode hmode
  refine ⟨rest ++ [status], mode', rfl, ?_, hmode'⟩
  rw [StatusMode.after_append, hafter, Option.bind_some, StatusMode.after_singleton, hnext]

/-- The connection is up, or DISCONNECT has been sent on it. -/
def StatusMode.Connected (mode : StatusMode) : Prop := mode = .up ∨ mode = .leaving

/-- On a connection the statuses say so, and no attempts are counted. -/
def Joined (policy : ReconnectPolicy) (modes : StatusMode → Prop)
    (s : Conn E R S W maxPacketSize) : Prop :=
  Tells policy modes s.statuses ∧ s.reconnectAttempt = 0 ∧ s.options.reconnect = policy

theorem detached_joined (policy : ReconnectPolicy) (modes : StatusMode → Prop) :
    Detached (Joined policy modes : Conn E R S W maxPacketSize → Prop) where
  sends _ _ hs h := by
    obtain ⟨hstatuses, hcount, hoptions⟩ :=
      (detached_standing _ _ _).sends _ _ ⟨rfl, rfl, rfl⟩ h
    rw [Joined, hstatuses, hcount, hoptions]
    exact hs
  tables _ _ _ _ _ _ _ _ _ _ hs := hs

/-- `Stopped` is published. -/
theorem Joined.stopped {policy : ReconnectPolicy} (hs : Joined policy StatusMode.Connected s) :
    Joined policy StatusMode.Connected { s with statuses := s.statuses ++ [.stopped] } := by
  refine ⟨hs.1.append fun mode hmode => ?_, hs.2⟩
  rcases hmode with rfl | rfl
  · exact ⟨.leaving, rfl, .inr rfl⟩
  · exact ⟨.leaving, rfl, .inr rfl⟩

/-- Any request, and the end of the requests. -/
theorem joined_driveRequest (policy : ReconnectPolicy) (request : Option (ClientRequest R S))
    (now : ℕ) :
    Preserves (Joined policy StatusMode.Connected : Conn E R S W maxPacketSize → Prop)
      (driveRequest request now) := by
  have hjoined :
      Detached (Joined policy StatusMode.Connected : Conn E R S W maxPacketSize → Prop) :=
    detached_joined policy StatusMode.Connected
  have hdisconnect := hjoined.sendDisconnect fun _ hs => hs.stopped
  rcases request with _ | request
  · exact Preserves.bind (preserves_ignore hdisconnect) fun _ => Preserves.pure _
  · apply Preserves.bind
    · by_cases hrequest : ∃ sender, request = .disconnect sender
      · obtain ⟨sender, rfl⟩ := hrequest
        apply Preserves.bind hdisconnect
        intro _
        exact Preserves.bind (Preserves.modify fun _ hs => hs) fun _ => Preserves.throw _
      · exact hjoined.handleClientRequest (fun sender heq => hrequest ⟨sender, heq⟩) now
    · exact fun _ => Preserves.pure _

/-- A request, unless it is the end of the requests: the loop goes on with a connection that is up,
or ends. -/
theorem joined_request (policy : ReconnectPolicy) (request : ClientRequest R S) (now : ℕ)
    (hs : Joined policy (· = .up) s) :
    Ends (driveRequest (some request) now) s (fun _ => Joined policy (· = .up))
      fun _ => Joined policy StatusMode.Connected := by
  have hweaken {s : Conn E R S W maxPacketSize} (hs : Joined policy (· = .up) s) :
      Joined policy StatusMode.Connected s := ⟨hs.1.mono fun _ => .inl, hs.2⟩
  by_cases hrequest : ∃ sender, request = .disconnect sender
  · obtain ⟨sender, rfl⟩ := hrequest
    have hjoined :
        Detached (Joined policy StatusMode.Connected : Conn E R S W maxPacketSize → Prop) :=
      detached_joined policy StatusMode.Connected
    have hdisconnect := hjoined.sendDisconnect (fun _ hs => hs.stopped) s (hweaken hs)
    apply Ends.bind
    apply Ends.bind
    exact hdisconnect.mono (fun _ _ h => h) fun _ _ h => h
  · have hup : Detached (Joined policy (· = .up) : Conn E R S W maxPacketSize → Prop) :=
      detached_joined policy (· = .up)
    have hkeeps : Preserves (Joined policy (· = .up))
        (driveRequest (some request) now : ConnM E R S W maxPacketSize Bool) :=
      Preserves.bind (hup.handleClientRequest (fun sender heq => hrequest ⟨sender, heq⟩) now)
        fun _ => Preserves.pure _
    exact (hkeeps s hs).mono (fun _ _ h => h) fun _ _ h => hweaken h

namespace LoopSystem
variable [DecidableEq S] {ch : Mpsc W S PublishMessage} {order : HashOrder}
  {self t : LoopSystem E R S W maxPacketSize} {event : Event E R S W} {policy : ReconnectPolicy}
  {modes : StatusMode → Prop}

/-- The statuses say where `run` stands. -/
structure Accords (policy : ReconnectPolicy) (modes : StatusMode → Prop)
    (system : LoopSystem E R S W maxPacketSize) : Prop where
  options : system.loop.options.reconnect = policy
  stopped : system.phase = .stopped →
    Tells policy (fun mode => mode = .leaving ∨ mode = .over) system.loop.statuses
  connected : system.phase ≠ .stopped → system.connection ≠ none →
    Tells policy modes system.loop.statuses ∧ system.loop.reconnectAttempt = 0
  trying : system.phase ≠ .stopped → system.connection = none →
    Tells policy (· = .trying system.loop.reconnectAttempt) system.loop.statuses

omit [DecidableEq S] in
theorem accords_start (options : ClientOptions) (channels : W) (now : ℕ) :
    (start options channels now : LoopSystem E R S W maxPacketSize).Accords options.reconnect
      modes where
  options := rfl
  stopped := by simp [start]
  connected := by simp [start, connection, EventLoop.new]
  trying _ _ := ⟨[], .trying 0, rfl, rfl, rfl⟩

omit [DecidableEq S] in
theorem accords_goOn {c : Conn E R S W maxPacketSize} (hc : Joined policy modes c) (rxCursor : ℕ)
    (received : List Received) : (self.goOn rxCursor received c).Accords policy modes where
  options := hc.2.2
  stopped := by simp [goOn]
  connected _ _ := ⟨hc.1, hc.2.1⟩
  trying := by simp [goOn, connection]

omit [DecidableEq S] in
theorem accords_driven_ok {c : Conn E R S W maxPacketSize} (hc : Joined policy modes c) :
    (self.driven (.ok ()) c).Accords policy modes where
  options := hc.2.2
  stopped := by simp [driven]
  connected _ _ := ⟨hc.1, hc.2.1⟩
  trying := by simp [driven, connection]

omit [DecidableEq S] in
/-- A connection is lost, or given up. -/
theorem accords_driven_error {c : Conn E R S W maxPacketSize}
    (hc : Joined policy StatusMode.Connected c) (e : ClientError E) :
    (self.driven (.error e) c).Accords policy modes := by
  have hlost : Tells policy (· = .trying 0) (c.statuses ++ [.disconnected]) := by
    refine hc.1.append fun mode hmode => ?_
    rcases hmode with rfl | rfl
    · exact ⟨_, rfl, rfl⟩
    · exact ⟨_, rfl, rfl⟩
  by_cases hclosed : e = .clientClosed
  · subst hclosed
    have hleft : Tells policy (fun mode => mode = .leaving ∨ mode = .over)
        (c.statuses ++ [.stopped]) := by
      refine hc.1.append fun mode hmode => ?_
      rcases hmode with rfl | rfl
      · exact ⟨.leaving, rfl, .inl rfl⟩
      · exact ⟨.leaving, rfl, .inl rfl⟩
    exact ⟨hc.2.2, fun _ => hleft, fun h => absurd rfl h, fun h => absurd rfl h⟩
  · rw [driven_error hclosed]
    dsimp only
    split
    · refine ⟨hc.2.2, by simp, fun _ h => absurd rfl h, fun _ _ => ?_⟩
      refine hlost.mono fun mode hmode => ?_
      rw [hmode]
      exact congrArg StatusMode.trying hc.2.1.symm
    · rename_i hdisabled
      refine ⟨hc.2.2, fun _ => ?_, fun h => absurd rfl h, fun h => absurd rfl h⟩
      refine hlost.append fun mode hmode => ⟨.over, ?_, .inr rfl⟩
      have hpolicy : policy.enabled = false := by simpa [hc.2.2] using hdisabled
      simp [hmode, StatusMode.next, hpolicy]

/-- An attempt to connect. -/
theorem Accords.attempt (hself : self.Accords policy modes) (hup : modes .up)
    {dial : Except (ClientError E) (Socket E)} {now : ℕ}
    (h : self.step ch order (.attempt dial now) = some t) : t.Accords policy modes := by
  obtain ⟨hphase, hnone, attempt, loop, dropped, hattempt, hend⟩ := step_attempt h
  obtain ⟨hoptions, hcases⟩ := statuses_connectAttempt hattempt
  have hpolicy : loop.options.reconnect = policy := by rw [hoptions, hself.options]
  have htrying : Tells policy (· = .trying self.loop.reconnectAttempt) self.loop.statuses :=
    hself.trying (by simp [hphase]) (by simp [connection, hphase, hnone])
  have hbegun : Tells policy (· = .trying (self.loop.reconnectAttempt + 1))
      self.loop.startAttempt.statuses := by
    obtain ⟨rest, mode, hrest, hafter, rfl⟩ := htrying
    obtain ⟨⟨delay, hdelay⟩, -⟩ := connectAttempt_eq_some.mp hattempt
    refine ⟨_, _, ?_, StatusMode.after_attempt hafter (hself.options ▸ hdelay), rfl⟩
    rw [startAttempt, hrest, hdelay]
    simp
  rcases hcases with ⟨rfl, hstatuses, hcount, htransport⟩ |
    ⟨hstatuses, hcount, htransport, hended⟩
  · have hconnected : Tells policy modes loop.statuses := by
      rw [hstatuses]
      refine hbegun.append fun mode hmode => ⟨.up, ?_, hup⟩
      simp [hmode, StatusMode.next]
    obtain ⟨⟨e, he⟩, -⟩ | rfl := hend
    · cases he
    · refine ⟨hpolicy, by simp [hphase], fun _ _ => ⟨hconnected, hcount⟩, fun _ hgone => ?_⟩
      simp [connection, hphase, htransport] at hgone
  · have hloop : Tells policy (· = .trying loop.reconnectAttempt) loop.statuses := by
      rw [hstatuses, hcount]
      exact hbegun
    rcases hended with rfl | ⟨e, rfl, limit, hlimit, hlast⟩
    · obtain ⟨⟨e, he⟩, -⟩ | rfl := hend
      · cases he
      · refine ⟨hpolicy, by simp [hphase], fun _ hthere => ?_, fun _ _ => hloop⟩
        simp [connection, hphase, htransport, hnone] at hthere
    · rw [step.eq_def, hphase] at h
      simp only [hnone, hattempt, Option.isSome_none, Bool.false_eq_true, if_false,
        Option.some_inj] at h
      subst h
      refine ⟨hpolicy, fun _ => ?_, fun h => absurd rfl h, fun h => absurd rfl h⟩
      refine hloop.append fun mode hmode => ⟨.over, ?_, .inr rfl⟩
      have hpermitted : ∃ limit ∈ policy.maxRetries, limit ≤ loop.reconnectAttempt := by
        rw [← hself.options, hcount]
        exact ⟨limit, hlimit, hlast⟩
      have hpos : 0 < loop.reconnectAttempt := by omega
      rw [hmode, StatusMode.next, if_pos (.inr ⟨hpos, hpermitted⟩)]

/-- Every step keeps the statuses in accord with the state, whatever the requests. -/
theorem Accords.step (hself : self.Accords policy modes) (hup : modes .up)
    (hmodes : ∀ mode, modes mode → mode.Connected)
    (hrequest : ∀ request now, event = .request request now → ∀ c, Joined policy modes c →
      Ends (driveRequest request now : ConnM E R S W maxPacketSize Bool) c
        (fun _ => Joined policy modes) fun _ => Joined policy StatusMode.Connected)
    (h : self.step ch order event = some t) : t.Accords policy modes := by
  have hjoined : Detached (Joined policy modes : Conn E R S W maxPacketSize → Prop) :=
    detached_joined policy modes
  have hdriving {socket : Socket E} {rxCursor : ℕ} {received : List Received}
      (hphase : self.phase = .driving socket rxCursor received) :
      Joined policy modes ({ self.loop with socket } : Conn E R S W maxPacketSize) := by
    obtain ⟨htells, hcount⟩ :=
      hself.connected (by simp [hphase]) (by simp [connection, hphase])
    exact ⟨htells, hcount, hself.options⟩
  have hweaken {c : Conn E R S W maxPacketSize} (hc : Joined policy modes c) :
      Joined policy StatusMode.Connected c := ⟨hc.1.mono hmodes, hc.2⟩
  cases event with
  | attempt dial now => exact hself.attempt hup h
  | enter =>
    obtain ⟨hphase, socket, hsocket, rfl⟩ := step_enter h
    obtain ⟨htells, hcount⟩ :=
      hself.connected (by simp [hphase]) (by simp [connection, hphase, hsocket])
    exact ⟨hself.options, by simp, fun _ _ => ⟨htells, hcount⟩, by simp [connection]⟩
  | read =>
    obtain ⟨socket, rxCursor, hphase, hend⟩ := step_read h
    have hends := hjoined.of_sends (fun _ => sends_receiveFrames rxCursor) _ (hdriving hphase)
    rcases hend with ⟨received, left, c, hrun, rfl⟩ | ⟨e, c, hrun, rfl⟩
    · exact accords_goOn (hends.ok_of hrun) left received
    · exact accords_driven_error (hweaken (hends.error_of hrun)) e
  | handle now =>
    obtain ⟨socket, rxCursor, received, later, hphase, hend⟩ := step_handle h
    have hends := hjoined.handle ch received now _ (hdriving hphase)
    rcases hend with ⟨c, hrun, rfl⟩ | ⟨e, c, hrun, rfl⟩
    · exact accords_goOn (hends.ok_of hrun) rxCursor later
    · exact accords_driven_error (hweaken (hends.error_of hrun)) e
  | request request now =>
    obtain ⟨socket, rxCursor, hphase, hend⟩ := step_request h
    have hends := hrequest request now rfl _ (hdriving hphase)
    rcases hend with ⟨more, c, hrun, rfl⟩ | ⟨e, c, hrun, rfl⟩
    · cases more
      · exact accords_driven_ok (hends.ok_of hrun)
      · exact accords_goOn (hends.ok_of hrun) rxCursor []
    · exact accords_driven_error (hends.error_of hrun) e
  | tick now =>
    obtain ⟨socket, rxCursor, hphase, hend⟩ := step_tick h
    have hends := hjoined.of_sends (fun _ => sends_driveTick trivial now) _ (hdriving hphase)
    rcases hend with ⟨c, hrun, rfl⟩ | ⟨e, c, hrun, rfl⟩
    · exact accords_goOn (hends.ok_of hrun) rxCursor []
    · exact accords_driven_error (hweaken (hends.error_of hrun)) e
  | arrive segment =>
    obtain ⟨socket, rxCursor, received, hphase, rfl⟩ := step_arrive h
    obtain ⟨htells, hcount⟩ :=
      hself.connected (by simp [hphase]) (by simp [connection, hphase])
    exact ⟨hself.options, by simp, fun _ _ => ⟨htells, hcount⟩, by simp [connection]⟩
  | channels w =>
    cases h
    exact ⟨hself.options, hself.stopped, hself.connected, hself.trying⟩

/-- **The statuses of every run come in order.** The automaton accepts them: attempts to connect are
numbered since there was a connection, an attempt is announced just when it has to wait, and for as
long as it has to, `Connected` comes after an attempt, and `Stopped` after the last attempt that is
permitted, after a connection that is lost when reconnecting is disabled, or after DISCONNECT. -/
theorem statuses_of_runs {options : ClientOptions} {channels : W} {now : ℕ}
    (h : Runs ch order (fun _ _ => True) (start options channels now) self) :
    ∃ rest mode, self.loop.statuses = .disconnected :: rest ∧
      (StatusMode.trying 0).after options.reconnect rest = some mode ∧
      (self.phase = .stopped → mode = .leaving ∨ mode = .over) ∧
      (self.phase ≠ .stopped → self.connection ≠ none → mode = .up ∨ mode = .leaving) ∧
      (self.phase ≠ .stopped → self.connection = none →
        mode = .trying self.loop.reconnectAttempt) := by
  have hself : self.Accords options.reconnect StatusMode.Connected :=
    h.invariant (I := Accords options.reconnect StatusMode.Connected)
      (accords_start options channels now) fun _ _ _ hs _ hstep =>
        hs.step (.inl rfl) (fun _ hmode => hmode)
          (fun request now _ c hc => joined_driveRequest options.reconnect request now c hc) hstep
  by_cases hstopped : self.phase = .stopped
  · obtain ⟨rest, mode, hrest, hafter, hmode⟩ := hself.stopped hstopped
    exact ⟨rest, mode, hrest, hafter, fun _ => hmode, fun h => absurd hstopped h,
      fun h => absurd hstopped h⟩
  · by_cases hconnection : self.connection = none
    · obtain ⟨rest, mode, hrest, hafter, hmode⟩ := hself.trying hstopped hconnection
      exact ⟨rest, mode, hrest, hafter, fun h => absurd h hstopped,
        fun _ h => absurd hconnection h, fun _ _ => hmode⟩
    · obtain ⟨⟨rest, mode, hrest, hafter, hmode⟩, -⟩ := hself.connected hstopped hconnection
      exact ⟨rest, mode, hrest, hafter, fun h => absurd h hstopped, fun _ _ => hmode,
        fun _ h => absurd h hconnection⟩

/-- **A client whose last status is `Connected` has a connection, and the other way round**, unless
its requests have ended. -/
theorem connected_iff {options : ClientOptions} {channels : W} {now : ℕ}
    (h : Runs ch order (fun _ event => event.requestsEnd = false) (start options channels now)
      self) :
    self.loop.statuses.getLast? = some .connected ↔
      self.phase ≠ .stopped ∧ self.connection ≠ none := by
  have hself : self.Accords options.reconnect (· = .up) :=
    h.invariant (I := Accords options.reconnect (· = .up)) (accords_start options channels now)
      fun _ _ _ hs hok hstep => hs.step rfl (fun _ hmode => .inl hmode)
        (fun request now heq c hc => by
          cases request with
          | none =>
            rw [heq] at hok
            cases hok
          | some request => exact joined_request options.reconnect request now hc) hstep
  have hlast {modes : StatusMode → Prop} (htells : Tells options.reconnect modes self.loop.statuses)
      (hconnected : self.loop.statuses.getLast? = some .connected) : modes .up := by
    obtain ⟨rest, mode, hrest, hafter, hmode⟩ := htells
    rw [hrest] at hconnected
    have hne : rest ≠ [] := by
      rintro rfl
      simp at hconnected
    have hup := (StatusMode.after_up hafter hne).mpr (by
      rwa [List.getLast?_cons_of_ne_nil hne] at hconnected)
    exact hup ▸ hmode
  constructor
  · intro hconnected
    have hruns : self.phase ≠ .stopped := fun hstopped => by
      have := hlast (hself.stopped hstopped) hconnected
      simp at this
    refine ⟨hruns, fun hnone => ?_⟩
    have := hlast (hself.trying hruns hnone) hconnected
    simp at this
  · rintro ⟨hruns, hthere⟩
    obtain ⟨⟨rest, mode, hrest, hafter, hmode⟩, -⟩ := hself.connected hruns hthere
    have hne : rest ≠ [] := by
      rintro rfl
      simp [StatusMode.after, hmode] at hafter
    rw [hrest, List.getLast?_cons_of_ne_nil hne]
    exact (StatusMode.after_up hafter hne).mp hmode

/-- An attempt fails, another one connects, and the broker closes the connection. -/
def severed : List (Event Unit ℕ ℕ (ℕ → Queue PublishMessage)) :=
  .attempt (.error .timeout) 0 :: connecting [] ++ [.arrive (.ok []), .read]

theorem statuses_of_runs_losing : ∃ s : LoopSystem Unit ℕ ℕ (ℕ → Queue PublishMessage) 64,
    s.loop.statuses = [.disconnected, .connecting, .connecting, .connected, .disconnected] ∧
    ∃ rest mode, s.loop.statuses = .disconnected :: rest ∧
      (StatusMode.trying 0).after (fresh.loop.options.reconnect) rest = some mode ∧
      (s.phase = .stopped → mode = .leaving ∨ mode = .over) ∧
      (s.phase ≠ .stopped → s.connection ≠ none → mode = .up ∨ mode = .leaving) ∧
      (s.phase ≠ .stopped → s.connection = none → mode = .trying s.loop.reconnectAttempt) := by
  let ran := run (.queues ℕ PublishMessage) listed (fun _ _ => True) severed fresh
  have hran : (ran.map fun s => s.loop.statuses) =
      some [.disconnected, .connecting, .connecting, .connected, .disconnected] := by
    decide +kernel
  obtain ⟨s, hrun, hs⟩ := Option.map_eq_some_iff.mp hran
  exact ⟨s, hs, statuses_of_runs (runs_of_run hrun)⟩

theorem connected_iff_connecting : ∃ s : LoopSystem Unit ℕ ℕ (ℕ → Queue PublishMessage) 64,
    s.loop.statuses = [.disconnected, .connecting, .connected] ∧
      (s.loop.statuses.getLast? = some .connected ↔ s.phase ≠ .stopped ∧ s.connection ≠ none) := by
  let ran := run (.queues ℕ PublishMessage) listed (fun _ event => event.requestsEnd = false)
    (connecting []) fresh
  have hran : (ran.map fun s => s.loop.statuses) =
      some [.disconnected, .connecting, .connected] := by
    decide +kernel
  obtain ⟨s, hrun, hs⟩ := Option.map_eq_some_iff.mp hran
  exact ⟨s, hs, connected_iff (runs_of_run hrun)⟩

end LoopSystem

end

end MqttEngine.Tokio
