import MqttEngine.Tokio.Acting
import MqttEngine.Tokio.Client
import MqttEngine.Tokio.InflightPublishes
import MqttEngine.Tokio.Requests
import MqttEngine.Tokio.Stamps

/-!
# Publishing while there is no connection

`OfflineQueuePolicy` says how many messages are buffered while there is no connection, and which
are dropped. The policy is consulted in `send_publish`, but the event loop never calls it: what is
published without a connection waits in the request channel, and is sent when there is one. So the
policy is honoured as long as it does not have to drop anything and everything can be sent: a
message that finds no place in the transmit buffer ends the connection.

That messages are delivered means that the run can always be continued to where all of them have
been sent, and that this then stays so.

## Main definitions

* `Publishes` — the bytes are a PUBLISH of a message.
* `Offline` — runs without a connection, in which messages are published.
* `Serves` — runs that keep their connection.
* `Delivers` — these messages are sent, and no others.
* `Honoured` — what the policy promises.

## Main results

* `carries_sendPublishDirect` — what a request to publish writes.
* `serving_step` — what has been sent, and what waits in the channel.
* `delivers_all`, `of_delivers` — when all messages are sent.
* `honoured_iff` — when the policy is honoured.
-/

namespace MqttEngine.Tokio
open Checked Conn EventLoop

/-! ## What is sent for the first time -/

/-- Not the first byte of a PUBLISH that is sent for the first time. -/
def IsOther (first : UInt8) : Prop := first >>> 3 ≠ 6

instance (first : UInt8) : Decidable (IsOther first) := inferInstanceAs (Decidable (_ ≠ _))

/-- The bytes begin like a PUBLISH that is sent for the first time. -/
def isNewPublish (bytes : List UInt8) : Bool := bytes.head?.any fun first : UInt8 => first >>> 3 = 6

/-- What has been published on a transport, without what has been published again. -/
def Socket.newPublishes {E : Type} (self : Socket E) : List (List UInt8) :=
  self.written.filter isNewPublish

/-- The bytes are a PUBLISH of the message, as it is encoded. -/
def Publishes (version : MqttVersion) (message : PublishMessage) (bytes : List UInt8) : Prop :=
  ∃ packetId buf len out,
    (publishPacket message packetId false).encode version buf = .ok len out ∧ bytes = out.take len

theorem header_shift (p : Publish) : p.header >>> 3 = if p.dup then 7 else 6 := by
  unfold Publish.header
  cases p.dup <;> cases p.qos <;> cases p.retain <;> decide

theorem isOther_publishPacket (message : PublishMessage) (packetId : Option UInt16) :
    IsOther (publishPacket message packetId true).first := by
  simp [IsOther, publishPacket, MqttPacket.first, header_shift]

theorem isNewPublish_of_publishes {version : MqttVersion} {message : PublishMessage}
    {bytes : List UInt8} (h : Publishes version message bytes) : isNewPublish bytes := by
  obtain ⟨packetId, buf, len, out, hencode, rfl⟩ := h
  obtain ⟨hpos, hhead⟩ := head_encode hencode
  have hfirst : (out.take len).head? = some (publishPacket message packetId false).first := by
    rw [List.head?_take, if_neg hpos.ne', hhead]
  simp [isNewPublish, hfirst, publishPacket, MqttPacket.first, header_shift]

/-- How much room a PUBLISH takes does not depend on its packet id. -/
theorem placed_publishPacket {version : MqttVersion} {size : ℕ} {message : PublishMessage}
    {packetId packetId' : Option UInt16} {dup : Bool}
    (h : Placed version size [publishPacket message packetId dup]) :
    Placed version size [publishPacket message packetId' dup] := by
  have hlen : ((publishPacket message packetId dup).content version).length =
      ((publishPacket message packetId' dup).content version).length := by
    simp only [publishPacket, MqttPacket.content]
    split <;> simp [toBeBytes]
  rw [placed_singleton, MqttPacket.encoded, length_encodedBytes] at h ⊢
  obtain ⟨⟨hencodable, hroom⟩, hmove⟩ := h
  refine ⟨⟨hencodable, ?_⟩, by rwa [← hlen]⟩
  change 5 + ((publishPacket message packetId dup).content version).length ≤ size at hroom
  rwa [hlen] at hroom

section
variable {E R S W : Type} {maxPacketSize : ℕ} {s s' : Conn E R S W maxPacketSize}
  {options : ClientOptions} {sent : List PublishMessage}

/-- What does not begin like a new PUBLISH does not count. -/
theorem newPublishes_of_sends (h : Sends IsOther s s') :
    s'.socket.newPublishes = s.socket.newPublishes := by
  obtain ⟨new, hnew, hfirst⟩ := h.written
  have hnone : new.filter isNewPublish = [] := by
    rw [List.filter_eq_nil_iff]
    intro bytes hbytes
    cases hhead : bytes.head? with
    | none => simp [isNewPublish, hhead]
    | some first =>
      have hother : first >>> 3 ≠ 6 := hfirst bytes hbytes first hhead
      simp [isNewPublish, hhead, hother]
  simp [Socket.newPublishes, hnew, hnone]

/-- The PUBLISH of the message finds its place in a transmit buffer of this size. -/
def FindsPlace (version : MqttVersion) (size : ℕ) (message : PublishMessage) : Prop :=
  Placed version size [publishPacket message none false]

instance (version : MqttVersion) (size : ℕ) (message : PublishMessage) :
    Decidable (FindsPlace version size message) :=
  inferInstanceAs (Decidable (Placed _ _ _))

/-- These messages have been published on the transport, which does not fail, and nothing waits in
the offline queue. -/
structure Carries (options : ClientOptions) (sent : List PublishMessage)
    (c : Conn E R S W maxPacketSize) : Prop where
  options_eq : c.options = options
  queue : c.offlineQueue = []
  publishes : List.Forall₂ (Publishes options.version) sent c.socket.newPublishes
  finds : ∀ message ∈ sent, FindsPlace options.version maxPacketSize message
  steady : c.socket.Steady

theorem Carries.congr (h : Carries options sent s) (hoptions : s'.options = s.options)
    (hqueue : s'.offlineQueue = s.offlineQueue) (hwritten : s'.socket.written = s.socket.written)
    (hsteady : s.socket.Steady → s'.socket.Steady) : Carries options sent s' := by
  refine ⟨hoptions.trans h.options_eq, hqueue.trans h.queue, ?_, h.finds, hsteady h.steady⟩
  rw [Socket.newPublishes, hwritten]
  exact h.publishes

theorem carries_of_sends (h : Carries options sent s) (hsends : Sends IsOther s s') :
    Carries options sent s' := by
  have hloop := hsends.loop
  refine ⟨(congrArg EventLoop.options hloop).trans h.options_eq,
    (congrArg EventLoop.offlineQueue hloop).trans h.queue, ?_, h.finds, hsends.steady h.steady⟩
  rw [newPublishes_of_sends hsends]
  exact h.publishes

theorem carries_sends {α : Type} {x : ConnM E R S W maxPacketSize α}
    (h : ∀ s₀, Preserves (Sends IsOther s₀) x) : Preserves (Carries options sent) x :=
  preserves_of_sends (fun _ _ => carries_of_sends) h

/-! ## Sending a message -/

theorem ends_writeTx_written (len : ℕ) :
    Ends (writeTx len) s
      (fun _ s' => s'.socket.written = s.socket.written ++ [s.txBuf.bytes.take len])
      fun _ _ => True := by
  change Ends (orMalformed (range s.txBuf.bytes 0 len) >>= writeAll) s _ _
  rw [range]
  split
  · rw [List.drop_zero]
    change Ends (writeAll _) s _ _
    rw [Ends, writeAll]
    rcases s.socket.writeResults with _ | ⟨_ | ⟨n, e⟩, later⟩ <;> simp
  · trivial

/-- A packet that is sent is written as it is encoded. -/
theorem ends_sendPacket_encoded (p : MqttPacket) (now : ℕ) :
    Ends (sendPacket p now) s
      (fun _ s' => ∃ buf len out, p.encode s.options.version buf = .ok len out ∧
        s'.socket.written = s.socket.written ++ [out.take len])
      fun _ _ => True := by
  apply Ends.bind
  rw [Ends, encodeTx, if_pos (Nat.zero_le _)]
  have hlen := s.txBuf.length_encode_drop p s.options.version 0
  rcases hencode : p.encode s.options.version (s.txBuf.bytes.drop 0) with ⟨len, tail⟩ | ⟨e, tail⟩
  · rw [hencode, EStateM.Result.final_ok] at hlen
    have hbytes : (s.txBuf.setTail 0 tail).bytes = tail := by
      simpa using s.txBuf.bytes_setTail (Nat.zero_le _) hlen
    change Ends (do writeTx len; flush; setLastTx now) _ _ _
    apply Ends.bind
    apply (ends_writeTx_written len).mono
    · intro _ t ht
      have hkeep : Preserves (fun u : Conn E R S W maxPacketSize => u.socket.written =
          s.socket.written ++ [tail.take len]) (do flush; setLastTx now) :=
        Preserves.bind (preserves_flush fun _ _ h hwritten _ => hwritten.trans h)
          fun _ => Preserves.modify fun _ h => h
      rw [hbytes] at ht
      exact (hkeep t ht).mono (fun _ _ h => ⟨_, _, _, hencode, h⟩) fun _ _ _ => trivial
    · exact fun _ _ h => h
  · cases e <;> trivial

/-- A message that is published is on the transport behind what has been published before. -/
theorem carries_sendPublishDirect {message : PublishMessage} (hdup : message.dup = false)
    (hs : Carries options sent s) (now : ℕ) :
    Ends (sendPublishDirect message none now) s
      (fun _ s' => Carries options (sent ++ [message]) s') fun _ _ => True := by
  have hpublished : (published s message none).offlineQueue = s.offlineQueue := by
    rw [published, tracked]
    split <;> rfl
  have hsends := sends_sendPacket (P := fun _ => True)
    (p := publishPacket message (takenId s message) message.dup) trivial now
      (published s message none) .refl
  have hplaced : Ends (sendPacket (publishPacket message (takenId s message) message.dup) now)
      (published s message none)
      (fun _ _ => FindsPlace options.version maxPacketSize message) fun _ _ => True := by
    by_cases hplaced : FindsPlace options.version maxPacketSize message
    · exact Ends.trivial.mono (fun _ _ _ => hplaced) fun _ _ h => h
    · obtain ⟨e, t, hend⟩ := sendPacket_of_not_placed (s := published s message none)
        (p := publishPacket message (takenId s message) message.dup)
        (by simp [publishPacket, MqttPacket.Bare]) (by simp [publishPacket])
        (by
          rw [options_published, hs.options_eq, hdup]
          exact fun h => hplaced (placed_publishPacket h))
        now
      rw [Ends, hend]
      trivial
  rw [Ends, sendPublishDirect_eq]
  apply ((ends_sendPacket_encoded _ now).and (Ends.and hsends hplaced)).mono
  · rintro _ s' ⟨⟨buf, len, out, hencode, hwritten⟩, hsends, hplaced⟩
    rw [options_published, hs.options_eq, hdup] at hencode
    have hloop := hsends.loop
    have hnew : Publishes options.version message (out.take len) := ⟨_, _, _, _, hencode, rfl⟩
    have hframes : s'.socket.newPublishes = s.socket.newPublishes ++ [out.take len] := by
      simp [Socket.newPublishes, hwritten, isNewPublish_of_publishes hnew]
    have hsteady : (published s message none).socket.Steady := by
      rw [socket_published]
      exact hs.steady
    refine ⟨(congrArg EventLoop.options hloop).trans ((options_published _ _).trans hs.options_eq),
      (congrArg EventLoop.offlineQueue hloop).trans (hpublished.trans hs.queue), ?_, ?_,
      hsends.steady hsteady⟩
    · rw [hframes]
      exact List.rel_append hs.publishes (.cons hnew .nil)
    · intro m hm
      rcases List.mem_append.mp hm with hm | hm
      · exact hs.finds m hm
      · rwa [List.mem_singleton.mp hm]
  · exact fun _ _ _ => trivial

/-! ## What is not a new PUBLISH -/

theorem carries_handle [DecidableEq S] (ch : Mpsc W S PublishMessage) (received : Received)
    (now : ℕ) :
    Preserves (Carries options sent : Conn E R S W maxPacketSize → Prop) (handle ch now received) :=
  preserves_handle ch now (fun _ _ => carries_of_sends) (by decide)
    (fun _ _ _ h => h.congr rfl rfl rfl id) (fun _ _ h => h.congr rfl rfl rfl id)
    (fun _ _ h => h.congr rfl rfl rfl id) (fun _ _ h => h.congr rfl rfl rfl id) received

theorem carries_driveRequest_none (now : ℕ) :
    Preserves (Carries options sent : Conn E R S W maxPacketSize → Prop)
      (driveRequest none now) := by
  apply Preserves.bind (preserves_ignore (preserves_sendDisconnect (fun _ _ => carries_of_sends)
    (by decide) fun _ _ h => h.congr rfl rfl rfl id))
  intro _
  exact Preserves.pure _

/-- Nothing is published for the first time when a session is recovered. -/
theorem carries_performSessionDataRecovery (order : HashOrder) (now : ℕ) :
    Preserves (Carries options sent : Conn E R S W maxPacketSize → Prop)
      (performSessionDataRecovery order now) := by
  apply preserves_performSessionDataRecovery
  · exact fun _ _ _ _ _ =>
      carries_sends fun _ => sends_tryWritePacket (isOther_publishPacket _ _)
  · exact carries_sends fun _ => sends_flush
  · intro _ _ e _
    have hnext : Preserves (Carries options sent : Conn E R S W maxPacketSize → Prop)
        getNextPacketId := fun _ hs => hs.congr rfl rfl rfl id
    apply Preserves.bind hnext
    intro pid
    apply carries_sends
    intro _
    apply sends_tryWritePacket
    obtain ⟨p, hp, -⟩ := subscribePacket_eq pid e.1 e.2
    rw [hp]
    exact show IsOther 0x82 by decide
  · intro s hs
    rw [hs.queue]
    exact Preserves.pure _

/-- A connection that has been made carries nothing yet. -/
theorem carries_connectAttempt {self loop : EventLoop E R S W maxPacketSize} {order : HashOrder}
    {dialed : Socket E} {now : ℕ} {attempt : Attempt E} {dropped : Option (Socket E)}
    (hsteady : dialed.Steady) (hnone : self.transport = none) (hqueue : self.offlineQueue = [])
    (h : self.connectAttempt order (.ok dialed.opened) now = some (attempt, loop, dropped)) :
    ∀ socket ∈ loop.transport, Carries self.options [] { loop with socket } := by
  have hstart (socket : Socket E)
      (hsocket : (.ok dialed.opened : Except (ClientError E) (Socket E)) = .ok socket) :
      Carries self.options [] ({ self.startAttempt with socket } : Conn E R S W maxPacketSize) := by
    cases hsocket
    exact ⟨rfl, hqueue, .nil, by simp, hsteady.writes, hsteady.flushes⟩
  rcases connectAttempt_cases (I := Carries self.options []) hstart
    (carries_sends fun _ => sends_performConnectHandshake (by decide))
    (fun _ hs => hs.congr rfl rfl rfl id) (carries_performSessionDataRecovery order now) h with
    ⟨rfl, -⟩ | ⟨s, hs, ⟨-, htransport, -⟩ | ⟨rfl, -⟩⟩
  · have hnone' : self.startAttempt.transport = none := hnone
    simp [hnone']
  · simp [htransport, hnone]
  · rintro socket ⟨⟩
    exact hs.congr rfl rfl rfl id

/-! ## The channel is emptied -/

/-- There is a connection, and no DISCONNECT has been read on it. -/
def LoopSystem.Alive (self : LoopSystem E R S W maxPacketSize) : Prop :=
  self.phase ≠ .stopped ∧ self.connection.isSome ∧
    ∀ r ∈ self.phase.received, ∀ d, r.packet ≠ .disconnect d

namespace ClientSystem
variable [DecidableEq S] {ch : Mpsc W S PublishMessage} {order : HashOrder}
  {s t : ClientSystem E R S W maxPacketSize} {messages : List PublishMessage}

variable (ch order) in
/-- The loop goes on with its connection: nobody asks for anything more, and neither what comes in
nor a tick ends the connection. -/
def Serves (s : ClientSystem E R S W maxPacketSize) : ClientAction E R S W → Prop
  | .send _ | .event (.attempt _ _) => False
  | .event event => ∀ u, s.system.step ch order event = some u → u.Alive
  | _ => True

/-- Some of the messages have been published on the current connection, if there is one, and the
others wait in the channel. Without a keep-alive the loop is not entered. -/
structure Serving (options : ClientOptions) (messages sent waiting : List PublishMessage)
    (s : ClientSystem E R S W maxPacketSize) : Prop where
  messages_eq : messages = sent ++ waiting
  requests_eq : s.requests = waiting.map (.publish · none)
  carries : s.system.phase ≠ .stopped →
    ∀ socket ∈ s.system.connection, Carries options sent { s.system.loop with socket }
  timed : s.system.phase = .idle ∧ sent = [] ∨ options.keepAlive ≠ 0

/-- An event that is neither an attempt to connect nor a request to publish. -/
theorem carries_event {self u : LoopSystem E R S W maxPacketSize} {event : Event E R S W}
    (h : self.step ch order event = some u)
    (hattempt : ∀ dial now, event ≠ .attempt dial now)
    (hrequest : ∀ request now, event ≠ .request (some request) now)
    (hself : self.phase ≠ .stopped →
      ∀ socket ∈ self.connection, Carries options sent { self.loop with socket })
    (hphase : u.phase ≠ .stopped) :
    ∀ socket ∈ u.connection, Carries options sent { u.loop with socket } := by
  have hbefore : self.phase ≠ .stopped := by
    intro hstopped
    obtain ⟨w, rfl⟩ := LoopSystem.step_stopped hstopped h
    exact hphase hstopped
  apply LoopSystem.connection_step h (hself hbefore)
  · exact fun _ _ _ _ h => h.congr rfl rfl rfl id
  · exact fun _ _ h => h.congr rfl rfl rfl fun h => ⟨h.writes, h.flushes⟩
  · exact fun dial now heq => absurd heq (hattempt dial now)
  · exact fun rxCursor => carries_sends fun _ => sends_receiveFrames rxCursor
  · exact fun now _ received => carries_handle ch received now
  · intro request now heq
    cases request with
    | none => exact carries_driveRequest_none now
    | some request => exact absurd heq (hrequest request now)
  · exact fun now _ => carries_sends fun _ => sends_driveTick (by decide) now

/-- The loop is entered with a keep-alive only. -/
theorem timed_event {self u : LoopSystem E R S W maxPacketSize} {event : Event E R S W}
    (h : self.step ch order event = some u)
    (hattempt : ∀ dial now, event ≠ .attempt dial now)
    (hself : self.phase ≠ .stopped →
      ∀ socket ∈ self.connection, Carries options sent { self.loop with socket })
    (htimed : self.phase = .idle ∧ sent = [] ∨ options.keepAlive ≠ 0) :
    u.phase = .idle ∧ sent = [] ∨ options.keepAlive ≠ 0 := by
  rcases htimed with ⟨hidle, hnil⟩ | hkeepAlive
  · cases event with
    | attempt dial now => exact absurd rfl (hattempt dial now)
    | enter =>
      obtain ⟨-, socket, hsocket, -⟩ := LoopSystem.step_enter h
      have hcarries : Carries options sent { self.loop with socket } :=
        hself (by simp [hidle]) socket (by simp [LoopSystem.connection, hidle, hsocket])
      refine .inr ?_
      rw [← hcarries.options_eq]
      exact LoopSystem.keepAlive_of_enter h
    | channels w =>
      cases h
      exact .inl ⟨hidle, hnil⟩
    | _ => simp [LoopSystem.step, hidle] at h
  · exact .inr hkeepAlive

/-- A request to publish that is taken from the channel. -/
theorem carries_take {self u : LoopSystem E R S W maxPacketSize} {message : PublishMessage}
    {now : ℕ} (hdup : message.dup = false)
    (h : self.step ch order (.request (some (.publish message none)) now) = some u)
    (hself : self.phase ≠ .stopped →
      ∀ socket ∈ self.connection, Carries options sent { self.loop with socket })
    (hphase : u.phase ≠ .stopped) :
    ∀ socket ∈ u.connection, Carries options (sent ++ [message]) { u.loop with socket } := by
  obtain ⟨socket, rxCursor, hdriving, hend⟩ := LoopSystem.step_request h
  have hcarries : Carries options sent { self.loop with socket } :=
    hself (by simp [hdriving]) socket (by simp [LoopSystem.connection, hdriving])
  have hends : Ends (driveRequest (some (.publish message none)) now) { self.loop with socket }
      (fun more c => more = true ∧ Carries options (sent ++ [message]) c) fun _ _ => True := by
    apply Ends.bind
    exact (carries_sendPublishDirect hdup hcarries now).mono (fun _ _ hc => ⟨rfl, hc⟩)
      fun _ _ h => h
  rcases hend with ⟨more, c, hrun, rfl⟩ | ⟨e, c, hrun, rfl⟩
  · obtain ⟨rfl, hc⟩ := hends.ok_of hrun
    rintro socket ⟨⟩
    exact hc
  · rcases self.phase_driven_error e c with hstopped | ⟨hidle, hnone⟩
    · exact absurd hstopped hphase
    · simp [LoopSystem.connection, hidle, hnone]

/-- **What happens keeps the order of the messages.** -/
theorem serving_step {action : ClientAction E R S W} {waiting : List PublishMessage}
    (hdup : ∀ message ∈ messages, message.dup = false)
    (hs : s.Serving options messages sent waiting) (hserves : s.Serves ch order action)
    (h : s.step ch order action = some t) :
    ∃ sent waiting, t.Serving options messages sent waiting := by
  cases action with
  | send request => exact hserves.elim
  | drop =>
    cases h
    exact ⟨sent, waiting, hs.messages_eq, hs.requests_eq, hs.carries, hs.timed⟩
  | take now =>
    rcases step_take h with ⟨hnone, hnone', hsystem⟩ | ⟨request, hsome, hsystem⟩
    · exact ⟨sent, waiting, hs.messages_eq, hnone'.trans (hnone.symm.trans hs.requests_eq),
        carries_event hsystem (by simp) (by simp) hs.carries,
        timed_event hsystem (by simp) hs.carries hs.timed⟩
    · obtain ⟨message, waiting, rfl, rfl, hwaiting⟩ :=
        List.map_eq_cons_iff.mp (hs.requests_eq.symm.trans hsome)
      have htimed : options.keepAlive ≠ 0 := by
        obtain ⟨socket, rxCursor, hdriving, -⟩ := LoopSystem.step_request hsystem
        simpa [hdriving] using hs.timed
      refine ⟨sent ++ [message], waiting, by simp [hs.messages_eq], hwaiting.symm, ?_, .inr htimed⟩
      exact carries_take (hdup message (by simp [hs.messages_eq])) hsystem hs.carries
  | event event =>
    have hattempt (dial : Except (ClientError E) (Socket E)) (now : ℕ) :
        event ≠ .attempt dial now := by
      rintro rfl
      exact hserves
    obtain ⟨hsystem, hsame, hrequest⟩ := step_event h
    exact ⟨sent, waiting, hs.messages_eq, hsame.trans hs.requests_eq,
      carries_event hsystem hattempt (fun request => hrequest (some request)) hs.carries,
      timed_event hsystem hattempt hs.carries hs.timed⟩

/-- What has been taken from the channel is not there any more. -/
theorem drained_step {action : ClientAction E R S W} (hs : s.requests = [])
    (hserves : s.Serves ch order action) (h : s.step ch order action = some t) :
    t.requests = [] := by
  cases action with
  | send request => exact hserves.elim
  | drop =>
    cases h
    exact hs
  | take now =>
    rcases step_take h with ⟨-, hnone, -⟩ | ⟨request, hsome, -⟩
    · exact hnone
    · rw [hs] at hsome
      cases hsome
  | event event => exact (step_event h).2.1.trans hs

/-! ## Messages that can be sent -/

section
variable {waiting : List PublishMessage}

omit [DecidableEq S] in
/-- A message that finds its place is published. -/
theorem driveRequest_finds {c : Conn E R S W maxPacketSize} {message : PublishMessage}
    (hdup : message.dup = false) (hc : Carries options sent c)
    (hfinds : FindsPlace options.version maxPacketSize message) (now : ℕ) :
    ∃ c', driveRequest (some (.publish message none)) now c = .ok true c' := by
  have hplaced : Placed c.options.version maxPacketSize
      ((ClientRequest.publish message none : ClientRequest R S).packets c.nextPacketId) := by
    rw [ClientRequest.packets, publishPackets_cons c message [] none, hc.options_eq, hdup]
    exact placed_publishPacket hfinds
  obtain ⟨c', hrun⟩ := handleClientRequest_placed hc.steady (by simp) hplaced now
  exact ⟨c', run_bind hrun⟩

/-- The connection is kept if the messages find their places. -/
theorem alive_step {action : ClientAction E R S W}
    (hdup : ∀ message ∈ messages, message.dup = false)
    (hfinds : ∀ message ∈ messages, FindsPlace options.version maxPacketSize message)
    (hs : s.Serving options messages sent waiting) (halive : s.system.Alive)
    (hserves : s.Serves ch order action) (h : s.step ch order action = some t) :
    t.system.Alive := by
  cases action with
  | send request => exact hserves.elim
  | drop =>
    cases h
    exact halive
  | take now =>
    rcases step_take h with ⟨-, -, hsystem⟩ | ⟨request, hsome, hsystem⟩
    · obtain ⟨socket, rxCursor, -, hend⟩ := LoopSystem.step_request hsystem
      have hignored : EventLoop.Silent (fun _ => True)
          (ignore sendDisconnect : ConnM E R S W maxPacketSize Unit) :=
        silent_ignore fun _ _ => Ends.trivial
      have hends : Ends (driveRequest none now) { s.system.loop with socket }
          (fun more _ => more = false) fun e _ => ∀ e', e ≠ .err e' := by
        apply Ends.bind
        exact (hignored _ trivial).mono (fun _ _ _ => rfl) fun _ _ h => h
      rcases hend with ⟨more, c, hrun, hsystem'⟩ | ⟨e, c, hrun, -⟩
      · obtain rfl := hends.ok_of hrun
        rw [hsystem']
        exact ⟨by simp [LoopSystem.driven], rfl, by simp [LoopSystem.driven, Phase.received]⟩
      · exact absurd rfl (hends.error_of hrun e)
    · obtain ⟨message, waiting, rfl, rfl, -⟩ :=
        List.map_eq_cons_iff.mp (hs.requests_eq.symm.trans hsome)
      have hmem : message ∈ messages := by simp [hs.messages_eq]
      obtain ⟨socket, rxCursor, hdriving, hend⟩ := LoopSystem.step_request hsystem
      have hcarries : Carries options sent { s.system.loop with socket } :=
        hs.carries (by simp [hdriving]) socket (by simp [LoopSystem.connection, hdriving])
      obtain ⟨c', hrun'⟩ :=
        driveRequest_finds (hdup message hmem) hcarries (hfinds message hmem) now
      rcases hend with ⟨more, c, hrun, hsystem'⟩ | ⟨e, c, hrun, -⟩
      · cases hrun'.symm.trans hrun
        rw [hsystem']
        exact ⟨by simp [LoopSystem.goOn], rfl, by simp [LoopSystem.goOn, Phase.received]⟩
      · cases hrun'.symm.trans hrun
  | event event =>
    obtain ⟨hsystem, -, -⟩ := step_event h
    cases event with
    | attempt dial now => exact hserves.elim
    | _ => exact hserves _ hsystem

/-- How much the loop has to do until the channel is empty. -/
def load (s : ClientSystem E R S W maxPacketSize) : ℕ :=
  s.requests.length +
    match s.system.phase with
    | .idle => 1
    | .driving _ _ received => received.length
    | .stopped => 0

/-- As long as there are messages in the channel, the loop can go on. -/
theorem exists_step (hdup : ∀ message ∈ messages, message.dup = false)
    (hfinds : ∀ message ∈ messages, FindsPlace options.version maxPacketSize message)
    (hkeepAlive : options.keepAlive ≠ 0) (hs : s.Serving options messages sent waiting)
    (halive : s.system.Alive) (hne : s.requests ≠ []) :
    ∃ action t, s.Serves ch order action ∧ s.step ch order action = some t ∧ t.load < s.load := by
  obtain ⟨hstopped, hconnection, hdisconnect⟩ := halive
  obtain ⟨socket, hsocket⟩ := Option.isSome_iff_exists.mp hconnection
  have hcarries := hs.carries hstopped socket hsocket
  rcases hphase : s.system.phase with _ | ⟨socket', rxCursor, _ | ⟨received, later⟩⟩ | _
  · -- The loop is entered.
    have htransport : s.system.loop.transport = some socket := by
      simpa [LoopSystem.connection, hphase] using hsocket
    have hoptions : s.system.loop.options.keepAlive ≠ 0 := by
      rw [show s.system.loop.options = options from hcarries.options_eq]
      exact hkeepAlive
    refine ⟨.event .enter, _, ?_,
      by simp [step, LoopSystem.step, hphase, htransport, hoptions]; rfl, by simp [load, hphase]⟩
    intro u hu
    obtain ⟨-, socket', -, rfl⟩ := LoopSystem.step_enter hu
    exact ⟨by simp, rfl, by simp [Phase.received]⟩
  · -- A request is taken.
    obtain rfl : socket' = socket := by simpa [LoopSystem.connection, hphase] using hsocket
    obtain ⟨request, requests, hrequests⟩ := List.exists_cons_of_ne_nil hne
    obtain ⟨message, waiting, rfl, rfl, -⟩ :=
      List.map_eq_cons_iff.mp (hs.requests_eq.symm.trans hrequests)
    have hmem : message ∈ messages := by simp [hs.messages_eq]
    obtain ⟨c, hrun⟩ := driveRequest_finds (hdup message hmem) hcarries (hfinds message hmem) 0
    have hstep : s.system.step ch order (.request (some (.publish message none)) 0) =
        some (s.system.goOn rxCursor [] c) := by
      simp [LoopSystem.step, hphase, LoopSystem.branch, hrun]
    refine ⟨.take 0, { s with system := s.system.goOn rxCursor [] c, requests := requests },
      trivial, by simp [step, hrequests, hstep], ?_⟩
    simp [load, hphase, hrequests, LoopSystem.goOn]
  · -- A frame is acted on.
    obtain rfl : socket' = socket := by simpa [LoopSystem.connection, hphase] using hsocket
    rw [hphase] at hdisconnect
    obtain ⟨c, hrun, -⟩ := handle_holds ch (s := { s.system.loop with socket := socket' })
      (hdisconnect received List.mem_cons_self) (hcarries.steady.holds _) 0
    have hstep : s.system.step ch order (.handle 0) = some (s.system.goOn rxCursor later c) := by
      simp [LoopSystem.step, hphase, LoopSystem.branch, hrun]
    refine ⟨.event (.handle 0), { s with system := s.system.goOn rxCursor later c }, ?_,
      by simp [step, hstep], by simp [load, hphase, LoopSystem.goOn]⟩
    intro u hu
    cases hstep.symm.trans hu
    exact ⟨by simp [LoopSystem.goOn], rfl,
      fun r hr => hdisconnect r (List.mem_cons_of_mem _ hr)⟩
  · exact absurd hphase hstopped

end

/-! ## What is delivered -/

/-- The channel is empty, and these messages have been published on the connection. -/
def Delivered (version : MqttVersion) (messages : List PublishMessage)
    (s : ClientSystem E R S W maxPacketSize) : Prop :=
  s.requests = [] ∧ s.system.phase ≠ .stopped ∧
    ∃ socket ∈ s.system.connection, List.Forall₂ (Publishes version) messages socket.newPublishes

variable (ch order) in
/-- As long as the connection is not ended by something else, these messages are sent on it in their
order, and nothing else is. -/
def Delivers (version : MqttVersion) (s : ClientSystem E R S W maxPacketSize)
    (messages : List PublishMessage) : Prop :=
  Machine.Settles (step ch order) (Serves ch order) (Delivered version messages) s

/-- **All messages are delivered** if they find their places and there is a keep-alive. -/
theorem delivers_all {waiting : List PublishMessage}
    (hdup : ∀ message ∈ messages, message.dup = false)
    (hs : s.Serving options messages sent waiting) (halive : s.system.Alive)
    (hkeepAlive : messages ≠ [] → options.keepAlive ≠ 0)
    (hfinds : ∀ message ∈ messages, FindsPlace options.version maxPacketSize message) :
    Delivers ch order options.version s messages := by
  refine Machine.settles_of_rank
    (I := fun s => (∃ sent waiting, s.Serving options messages sent waiting) ∧ s.system.Alive)
    (Q := fun s => s.requests = []) load ⟨⟨sent, waiting, hs⟩, halive⟩ ?_ ?_ ?_ ?_
  · rintro s t action ⟨⟨sent, waiting, hs⟩, halive⟩ hserves hstep
    exact ⟨serving_step hdup hs hserves hstep, alive_step hdup hfinds hs halive hserves hstep⟩
  · exact fun s t action hs hserves hstep => drained_step hs hserves hstep
  · rintro s ⟨⟨sent, waiting, hs⟩, halive⟩ hne
    have hsome : messages ≠ [] := by
      rintro rfl
      obtain ⟨-, rfl⟩ := List.append_eq_nil_iff.mp hs.messages_eq.symm
      exact hne hs.requests_eq
    exact exists_step hdup hfinds (hkeepAlive hsome) hs halive hne
  · rintro s ⟨⟨sent, waiting, hs⟩, hstopped, hconnection, -⟩ hdrained
    obtain ⟨socket, hsocket⟩ := Option.isSome_iff_exists.mp hconnection
    obtain rfl : waiting = [] := by simpa [hdrained] using hs.requests_eq
    refine ⟨hdrained, hstopped, socket, hsocket, ?_⟩
    rw [hs.messages_eq, List.append_nil]
    exact (hs.carries hstopped socket hsocket).publishes

/-- Messages are delivered only if there are as many of them as in the channel, and these find their
places. -/
theorem of_delivers {waiting delivered : List PublishMessage}
    (hdup : ∀ message ∈ messages, message.dup = false)
    (hs : s.Serving options messages sent waiting)
    (h : Delivers ch order options.version s delivered) :
    delivered.length = messages.length ∧ (messages ≠ [] → options.keepAlive ≠ 0) ∧
      ∀ message ∈ messages, FindsPlace options.version maxPacketSize message := by
  obtain ⟨t, hreach, hdrained, hstopped, socket, hsocket, hpublishes⟩ := h.exists_reaches
  obtain ⟨sent, waiting, ht⟩ := hreach.invariant
    (I := fun s => ∃ sent waiting, s.Serving options messages sent waiting) ⟨sent, waiting, hs⟩
    fun _ _ _ ⟨_, _, hs⟩ hserves hstep => serving_step hdup hs hserves hstep
  obtain rfl : waiting = [] := by simpa [hdrained] using ht.requests_eq
  obtain rfl : messages = sent := by simpa using ht.messages_eq
  have hcarries := ht.carries hstopped socket hsocket
  refine ⟨?_, fun hne => ?_, hcarries.finds⟩
  · exact hpublishes.length_eq.trans hcarries.publishes.length_eq.symm
  · rcases ht.timed with ⟨-, hnil⟩ | hkeepAlive
    · exact absurd hnil hne
    · exact hkeepAlive

/-! ## Messages without a connection -/

/-- Runs without a connection, in which these messages are published, with these results. -/
inductive Offline (ch : Mpsc W S PublishMessage) (order : HashOrder)
    (s₀ : ClientSystem E R S W maxPacketSize) :
    List PublishMessage → List (Except (ClientError E) Unit) →
      ClientSystem E R S W maxPacketSize → Prop
  | start : Offline ch order s₀ [] [] s₀
  | publish {messages : List PublishMessage} {results : List (Except (ClientError E) Unit)}
      {s t : ClientSystem E R S W maxPacketSize} {topic : String} {qos : QoS} {retain : Bool}
      {payload : List UInt8} {result : Except (ClientError E) Unit}
      (h : Offline ch order s₀ messages results s)
      (hpublish : s.publish topic qos retain payload = some (result, t)) :
      Offline ch order s₀ (messages ++ [message topic qos retain payload]) (results ++ [result]) t
  | other {messages : List PublishMessage} {results : List (Except (ClientError E) Unit)}
      {s t : ClientSystem E R S W maxPacketSize} {action : ClientAction E R S W}
      (h : Offline ch order s₀ messages results s) (hsend : ∀ request, action ≠ .send request)
      (hstep : s.step ch order action = some t) (hconnection : t.system.connection = none) :
      Offline ch order s₀ messages results t

variable {s₀ : ClientSystem E R S W maxPacketSize} {results : List (Except (ClientError E) Unit)}

/-- The loop of such a run makes a run of its own. -/
theorem Offline.runs (h : Offline ch order s₀ messages results s) :
    LoopSystem.Runs ch order (fun _ _ => True) s₀.system s.system := by
  induction h with
  | start => exact .refl
  | publish _ hpublish ih =>
    rw [(send_eq_some hpublish).1]
    exact ih
  | other _ _ hstep _ ih =>
    rcases step_system hstep with hsame | ⟨event, hsystem⟩
    · rwa [hsame]
    · exact ih.tail ⟨event, trivial, hsystem⟩

/-- **All messages are accepted, and wait in the channel in their order.** -/
theorem Offline.waits (h : Offline ch order s₀ messages results s)
    (hconnection : s₀.system.connection = none) (hrequests : s₀.requests = []) :
    s.system.connection = none ∧ (∀ message ∈ messages, message.dup = false) ∧
      (s.system.phase ≠ .stopped → s.requests = messages.map (.publish · none) ∧
        results = List.replicate messages.length (.ok ())) := by
  induction h with
  | start => simp [hconnection, hrequests]
  | @publish messages results s t topic qos retain payload result _ hpublish ih =>
    obtain ⟨hnone, hdup, hwaits⟩ := ih
    obtain ⟨hsystem, hsend⟩ := send_eq_some hpublish
    rw [hsystem]
    refine ⟨hnone, ?_, ?_⟩
    · simpa [or_imp, forall_and, message] using hdup
    · intro hphase
      rcases hsend with ⟨hstopped, -⟩ | ⟨-, rfl, happend⟩
      · exact absurd hstopped hphase
      · obtain ⟨hbefore, hok⟩ := hwaits hphase
        simp [happend, hbefore, hok, List.replicate_succ']
  | @other messages results s t action _ hsend hstep hnone' ih =>
    obtain ⟨hnone, hdup, hwaits⟩ := ih
    refine ⟨hnone', hdup, ?_⟩
    intro hphase
    cases action with
    | send request => exact absurd rfl (hsend request)
    | drop =>
      cases hstep
      exact hwaits hphase
    | take now =>
      have hdriving : ∃ socket rxCursor, s.system.phase = .driving socket rxCursor [] := by
        rcases step_take hstep with ⟨-, -, hsystem⟩ | ⟨request, -, hsystem⟩
        · obtain ⟨socket, rxCursor, hdriving, -⟩ := LoopSystem.step_request hsystem
          exact ⟨socket, rxCursor, hdriving⟩
        · obtain ⟨socket, rxCursor, hdriving, -⟩ := LoopSystem.step_request hsystem
          exact ⟨socket, rxCursor, hdriving⟩
      obtain ⟨socket, rxCursor, hdriving⟩ := hdriving
      simp [LoopSystem.connection, hdriving] at hnone
    | event event =>
      obtain ⟨hsystem, hsame, -⟩ := step_event hstep
      rw [hsame]
      apply hwaits
      intro hstopped
      obtain ⟨w, hw⟩ := LoopSystem.step_stopped hstopped hsystem
      rw [hw] at hphase
      exact hphase hstopped

/-- A connection that has been made has nothing to carry yet. -/
theorem serving_attempt {dialed : Socket E} {now : ℕ} (hsteady : dialed.Steady)
    (hoptions : s.system.loop.options = options) (hqueue : s.system.loop.offlineQueue = [])
    (hrequests : s.requests = messages.map (.publish · none))
    (h : s.step ch order (.event (.attempt (.ok dialed) now)) = some t)
    (hstopped : t.system.phase ≠ .stopped) (hconnection : t.system.connection.isSome) :
    t.Serving options messages [] messages ∧ t.system.Alive := by
  obtain ⟨hsystem, hsame, -⟩ := step_event h
  obtain ⟨hphase, hnone, attempt, loop, dropped, hattempt, ⟨-, hstop⟩ | hgo⟩ :=
    LoopSystem.step_attempt hsystem
  · rw [hstop] at hstopped
    exact absurd rfl hstopped
  · have hcarries := carries_connectAttempt hsteady hnone hqueue hattempt
    rw [hoptions] at hcarries
    refine ⟨⟨rfl, hsame.trans hrequests, fun _ => ?_, .inl ⟨?_, rfl⟩⟩, hstopped, hconnection, ?_⟩
    · simpa [hgo, LoopSystem.connection, hphase] using hcarries
    · simpa [hgo] using hphase
    · simp [hgo, hphase, Phase.received]

end ClientSystem

end

/-! ## What the policy promises -/

/-- What the policy says about messages that are published without a connection: which of them are
rejected, and which are delivered once there is one. -/
def Honoured {E : Type} (policy : OfflineQueuePolicy) (messages : List PublishMessage)
    (results : List (Except (ClientError E) Unit)) (delivers : List PublishMessage → Prop) : Prop :=
  let kept := min messages.length policy.capacity
  if policy.capacity = 0 then (∀ result ∈ results, result = .error .notConnected) ∧ delivers []
  else
    match policy.dropStrategy with
    | .dropOldest => delivers (messages.drop (messages.length - kept))
    | .errorOnFull =>
      delivers (messages.take kept) ∧ ∀ result ∈ results.drop kept, result = .error .queueFull
    | .block => True

/-- If all messages are accepted, and nothing but all of them can be delivered, the policy is
honoured when it drops none of them. -/
theorem honoured_of_delivers_all {E : Type} {policy : OfflineQueuePolicy}
    {messages : List PublishMessage} {delivers : List PublishMessage → Prop}
    (h : ∀ ms, delivers ms → ms.length = messages.length) :
    Honoured policy messages (List.replicate messages.length (.ok () : Except (ClientError E) Unit))
        delivers ↔
      policy.capacity ≠ 0 ∧ policy.dropStrategy = .block ∨
        messages.length ≤ policy.capacity ∧ delivers messages := by
  rw [Honoured]
  split
  · rename_i hzero
    simp only [hzero, Nat.le_zero, ne_eq, not_true_eq_false, false_and, false_or]
    constructor
    · rintro ⟨-, hdelivers⟩
      obtain rfl := List.length_eq_zero_iff.mp (h [] hdelivers).symm
      exact ⟨rfl, hdelivers⟩
    · rintro ⟨hnone, hdelivers⟩
      obtain rfl := List.length_eq_zero_iff.mp hnone
      exact ⟨by simp, hdelivers⟩
  · rename_i hpos
    split
    · rename_i hstrategy
      simp only [hstrategy, reduceCtorEq, and_false, false_or]
      constructor
      · intro hdrop
        have hlen := h _ hdrop
        rw [List.length_drop] at hlen
        have hle : messages.length ≤ policy.capacity := by omega
        rw [Nat.min_eq_left hle, Nat.sub_self, List.drop_zero] at hdrop
        exact ⟨hle, hdrop⟩
      · rintro ⟨hle, hdelivers⟩
        rwa [Nat.min_eq_left hle, Nat.sub_self, List.drop_zero]
    · rename_i hstrategy
      simp only [hstrategy, reduceCtorEq, and_false, false_or]
      constructor
      · rintro ⟨htake, -⟩
        have hlen := h _ htake
        rw [List.length_take] at hlen
        have hle : messages.length ≤ policy.capacity := by omega
        rw [Nat.min_eq_left hle, List.take_length] at htake
        exact ⟨hle, htake⟩
      · rintro ⟨hle, hdelivers⟩
        rw [Nat.min_eq_left hle, List.take_length]
        exact ⟨hdelivers, by simp⟩
    · rename_i hstrategy
      simp [hstrategy, hpos]

namespace ClientSystem
variable {E R S W : Type} {maxPacketSize : ℕ}

/-- **The offline-queue policy is honoured exactly if it has to drop nothing, and every message
finds its place in the transmit buffer and there is a keep-alive**: what is published without a
connection is delivered over the next one, whatever the policy says. -/
theorem honoured_iff [DecidableEq S] {ch : Mpsc W S PublishMessage} {order : HashOrder}
    {options : ClientOptions} {channelCapacity : ℕ} {channels : W} {now now' : ℕ}
    {s₀ s s₁ : ClientSystem E R S W maxPacketSize} {messages : List PublishMessage}
    {results : List (Except (ClientError E) Unit)} {dialed : Socket E}
    (hreach : Machine.Reaches (step ch order) (fun _ _ => True)
      (start options channelCapacity channels now) s₀)
    (hnone : s₀.system.connection = none) (hrequests : s₀.requests = [])
    (hoffline : Offline ch order s₀ messages results s) (hsteady : dialed.Steady)
    (hattempt : s.step ch order (.event (.attempt (.ok dialed) now')) = some s₁)
    (hstopped : s₁.system.phase ≠ .stopped) (hconnection : s₁.system.connection.isSome) :
    Honoured options.offlineQueue messages results (Delivers ch order options.version s₁) ↔
      options.offlineQueue.capacity ≠ 0 ∧ options.offlineQueue.dropStrategy = .block ∨
        messages.length ≤ options.offlineQueue.capacity ∧
          (messages ≠ [] → options.keepAlive ≠ 0) ∧
            ∀ message ∈ messages, FindsPlace options.version maxPacketSize message := by
  have hruns := (runs_of_reaches hreach).trans hoffline.runs
  have hoptions : s.system.loop.options = options := LoopSystem.options_of_runs hruns
  have hqueue : s.system.loop.offlineQueue = [] := LoopSystem.offlineQueue_of_runs hruns
  have hidle : s.system.phase = .idle := (LoopSystem.step_attempt (step_event hattempt).1).1
  obtain ⟨-, hdup, hwaits⟩ := hoffline.waits hnone hrequests
  obtain ⟨hwaiting, rfl⟩ := hwaits (by simp [hidle])
  obtain ⟨hserving, halive⟩ :=
    serving_attempt hsteady hoptions hqueue hwaiting hattempt hstopped hconnection
  rw [honoured_of_delivers_all fun ms h => (of_delivers hdup hserving h).1]
  apply or_congr_right
  apply and_congr_right
  intro _
  exact ⟨fun h => (of_delivers hdup hserving h).2,
    fun ⟨hkeepAlive, hfinds⟩ => delivers_all hdup hserving halive hkeepAlive hfinds⟩

/-! ## Two messages -/

/-- A new client with this policy. -/
def buffering (policy : OfflineQueuePolicy) : ClientSystem Unit ℕ ℕ (ℕ → Queue PublishMessage) 64 :=
  start { ClientOptions.new "c" fun _ => 0 with offlineQueue := policy } 1024
    (fun _ => ⟨false, [], 128⟩) 0

/-- The messages of two calls of `publish`. -/
def twoMessages : List PublishMessage :=
  [message "a" .atMostOnce false [1], message "a" .atMostOnce false [2]]

/-- The messages wait in the channel. -/
def waitingClient (policy : OfflineQueuePolicy) :
    ClientSystem Unit ℕ ℕ (ℕ → Queue PublishMessage) 64 :=
  { buffering policy with requests := twoMessages.map (.publish · none) }

theorem offline_waitingClient (policy : OfflineQueuePolicy) :
    Offline (.queues ℕ PublishMessage) LoopSystem.listed (buffering policy) twoMessages
      [.ok (), .ok ()] (waitingClient policy) :=
  .publish (.publish .start rfl) rfl

/-- A connection is made. -/
def connected (policy : OfflineQueuePolicy) :
    Option (ClientSystem Unit ℕ ℕ (ℕ → Queue PublishMessage) 64) :=
  (waitingClient policy).step (.queues ℕ PublishMessage) LoopSystem.listed
    (.event (.attempt (.ok LoopSystem.accepting) 0))

/-- The loop is at the head of its loop, and has a transport. -/
def isConnected (s : ClientSystem Unit ℕ ℕ (ℕ → Queue PublishMessage) 64) : Bool :=
  match s.system.phase with
  | .idle => s.system.loop.transport.isSome
  | _ => false

theorem exists_connected (policy : OfflineQueuePolicy)
    (heval : (connected policy).any isConnected = true) :
    ∃ s, connected policy = some s ∧ s.system.phase ≠ .stopped ∧ s.system.connection.isSome := by
  rcases hs : connected policy with _ | s
  · simp [hs] at heval
  · rw [hs, Option.any_some, isConnected] at heval
    refine ⟨s, rfl, ?_⟩
    split at heval
    · rename_i hidle
      exact ⟨by simp [hidle], by simpa [LoopSystem.connection, hidle] using heval⟩
    · cases heval

/-- There is room for both messages, and both are delivered. -/
theorem honoured_sample : ∃ s : ClientSystem Unit ℕ ℕ (ℕ → Queue PublishMessage) 64,
    connected ⟨2, .dropOldest⟩ = some s ∧
      Honoured (E := Unit) ⟨2, .dropOldest⟩ twoMessages [.ok (), .ok ()]
        (Delivers (.queues ℕ PublishMessage) LoopSystem.listed .v3_1_1 s) := by
  obtain ⟨s, hs, hstopped, hconnection⟩ := exists_connected ⟨2, .dropOldest⟩ (by decide +kernel)
  exact ⟨s, hs, (honoured_iff .refl rfl rfl (offline_waitingClient _) (Socket.steady_sending _) hs
    hstopped hconnection).mpr (.inr ⟨le_rfl, fun _ => by decide, by decide +kernel⟩)⟩

/-- There is room for one of them, but both are delivered. -/
theorem ignores_policy : ¬ ∀ s : ClientSystem Unit ℕ ℕ (ℕ → Queue PublishMessage) 64,
    connected ⟨1, .dropOldest⟩ = some s →
      Honoured (E := Unit) ⟨1, .dropOldest⟩ twoMessages [.ok (), .ok ()]
        (Delivers (.queues ℕ PublishMessage) LoopSystem.listed .v3_1_1 s) := by
  intro hall
  obtain ⟨s, hs, hstopped, hconnection⟩ := exists_connected ⟨1, .dropOldest⟩ (by decide +kernel)
  have hlast : Delivers (.queues ℕ PublishMessage) LoopSystem.listed .v3_1_1 s
      (twoMessages.drop 1) := hall s hs
  have hserving : s.Serving _ twoMessages [] twoMessages :=
    (serving_attempt (Socket.steady_sending _) rfl rfl rfl hs hstopped hconnection).1
  have hlen := (of_delivers (by simp [twoMessages, message]) hserving hlast).1
  cases hlen

end ClientSystem

end MqttEngine.Tokio
