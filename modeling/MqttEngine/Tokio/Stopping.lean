import MqttEngine.Tokio.Writes

/-!
# DISCONNECT is the last thing that is sent

A client that has sent DISCONNECT should stop: nothing more is written, and `run` returns. It
does so on a request to disconnect, because `handle_client_request` then returns `ClientClosed`.
When all senders of requests are gone, `drive_connection` sends DISCONNECT too, but it returns
`Ok`, and `run` calls it again. `stopped_after_disconnect` says that the first way is the
only one in runs where the requests do not end.

Every write of the event loop begins with the first byte of a packet, so a DISCONNECT is a write
that begins with its first byte.

## Main definitions

* `Socket.Clear`, `Socket.ClosesWith` — no DISCONNECT has been written, or one at the end.
* `EndsWithDisconnect` — nothing happens after a DISCONNECT.

## Main results

* `stopped_after_disconnect` — after a DISCONNECT nothing is sent.
* `idle_of_requestsEnd` — when the requests end, `run` goes on.
* `disconnects_again` — a run in which the requests end.
-/

namespace MqttEngine.Tokio
open Checked Conn EventLoop

/-! ## What is not a DISCONNECT -/

/-- The bytes of a write begin a DISCONNECT. -/
def BeginsDisconnect (bytes : List UInt8) : Prop := bytes.head? = some 0xE0

instance (bytes : List UInt8) : Decidable (BeginsDisconnect bytes) :=
  inferInstanceAs (Decidable (_ = _))

namespace Socket
variable {E : Type}

/-- No DISCONNECT has been written. -/
def Clear (self : Socket E) : Prop := ∀ bytes ∈ self.written, ¬ BeginsDisconnect bytes

/-- A DISCONNECT is the last thing that has been written, and the only one. -/
def ClosesWith (self : Socket E) (bytes : List UInt8) : Prop :=
  BeginsDisconnect bytes ∧ ∃ before, self.written = before ++ [bytes] ∧
    ∀ bytes ∈ before, ¬ BeginsDisconnect bytes

/-- Nothing is written behind a DISCONNECT. -/
def Closing (self : Socket E) : Prop := self.Clear ∨ ∃ bytes, self.ClosesWith bytes

/-- After one more write. -/
theorem closing_append {self t : Socket E} {bytes : List UInt8} (h : self.Clear)
    (ht : t.written = self.written ++ [bytes]) : t.Closing := by
  by_cases hbytes : BeginsDisconnect bytes
  · exact .inr ⟨bytes, hbytes, self.written, ht, h⟩
  · left
    intro b hb
    rw [ht, List.mem_append, List.mem_singleton] at hb
    rcases hb with hold | rfl
    · exact h b hold
    · exact hbytes

/-- The DISCONNECT with which everything that has been written ends is found at the end only. -/
theorem closesWith_split {self : Socket E} (h : ∃ bytes, self.ClosesWith bytes)
    {before after : List (List UInt8)} {bytes : List UInt8}
    (hwritten : self.written = before ++ bytes :: after) (hbytes : BeginsDisconnect bytes) :
    after = [] ∧ ∀ bytes ∈ before, ¬ BeginsDisconnect bytes := by
  obtain ⟨last, -, front, hfront, hclear⟩ := h
  rcases List.eq_nil_or_concat after with rfl | ⟨after, b, rfl⟩
  · rw [hfront] at hwritten
    obtain ⟨rfl, -⟩ := List.append_inj' hwritten rfl
    exact ⟨rfl, hclear⟩
  · rw [hfront, List.concat_eq_append, ← List.cons_append, ← List.append_assoc] at hwritten
    obtain ⟨rfl, -⟩ := List.append_inj' hwritten rfl
    exact absurd hbytes (hclear bytes (by simp))

theorem clear_iff {self : Socket E} : self.Clear ↔ self.Writes (· ≠ 0xE0) := by
  simp only [Clear, Writes, BeginsDisconnect]
  refine forall₂_congr fun bytes _ => ?_
  cases bytes.head? <;> simp

end Socket

section
variable {E R S W : Type} {maxPacketSize : ℕ}

theorem sendable_ne : Sendable (· ≠ 0xE0) where
  connect := by decide
  publish p := by
    intro h
    have htype := packetType_first (.publish p)
    rw [MqttPacket.first, h, MqttPacket.packetType] at htype
    exact absurd htype (by decide)
  pubAck := by decide
  subscribe := by decide
  unsubscribe := by decide
  pingReq := by decide

/-- Programs that write no DISCONNECT. -/
theorem clear_of_writes {α : Type} {x : ConnM E R S W maxPacketSize α}
    (h : Preserves (fun s => s.socket.Writes (· ≠ 0xE0)) x) : Preserves (fun s => s.socket.Clear) x := by
  simpa only [Socket.clear_iff] using h

/-- A write of the transmit buffer is one write at most. -/
theorem closing_writeTx {s : Conn E R S W maxPacketSize} (hs : s.socket.Clear) (len : ℕ) :
    Ends (writeTx len) s (fun _ s' => s'.socket.Closing) fun _ s' => s'.socket.Closing := by
  by_cases hlen : len ≤ maxPacketSize
  · rw [Ends, writeTx_of_le hlen, writeAll]
    rcases s.socket.writeResults with _ | ⟨_ | ⟨n, e⟩, later⟩
    · exact Socket.closing_append hs rfl
    · exact Socket.closing_append hs rfl
    · exact Socket.closing_append hs rfl
  · have hrange : (range s.txBuf.bytes 0 len : Checked PacketError (List UInt8)) =
        .error .panic := by
      rw [range, if_neg (by rw [s.txBuf.length_eq]; omega)]
    change Ends (orMalformed (range s.txBuf.bytes 0 len) >>= writeAll) s _ _
    rw [hrange]
    exact .inl hs

/-- DISCONNECT is written once at most, and nothing after it. -/
theorem closing_sendDisconnect {s : Conn E R S W maxPacketSize} (hs : s.socket.Clear) :
    Ends sendDisconnect s (fun _ s' => s'.socket.Closing) fun e s' =>
      (∀ e', e ≠ .err e') ∧ s'.socket.Closing := by
  obtain ⟨tx, r, hencode, -⟩ := encodeTx_spec (s := s) (Nat.zero_le _) (.disconnect .new)
  have hflush : Preserves (fun s : Conn E R S W maxPacketSize => s.socket.Closing) flush :=
    preserves_flush fun s t hs hwritten _ => by
      simpa [Socket.Closing, Socket.Clear, Socket.ClosesWith, hwritten] using hs
  rw [Ends, sendDisconnect, run_bind hencode]
  rcases r with (e | _ | _) | len
  · exact .inl hs
  · exact ⟨by simp, .inl hs⟩
  · exact ⟨by simp, .inl hs⟩
  · apply Ends.bind
    apply (ends_ignore (closing_writeTx (s := s.withTx tx) hs len)).mono
    · intro _ s' hs'
      apply Ends.bind
      exact ends_ignore (hflush s' hs')
    · exact fun _ _ h => h

/-- A request to disconnect: if a DISCONNECT is written, it is the last thing. -/
theorem ends_disconnect (respSender : R) (now : ℕ) {s : Conn E R S W maxPacketSize}
    (hs : s.socket.Clear) :
    Ends (handleClientRequest (.disconnect respSender) now) s (fun _ _ => False)
      fun e s' => (∀ e', e = .err e' → e' = .clientClosed) ∧ s'.socket.Closing := by
  apply Ends.bind
  apply (closing_sendDisconnect hs).mono
  · intro _ s' hs'
    exact ⟨by simp, hs'⟩
  · rintro e s' ⟨he, hs'⟩
    exact ⟨fun e' heq => absurd heq (he e'), hs'⟩

/-- A request. Only one to disconnect may write a DISCONNECT, and it ends the connection. -/
theorem ends_driveRequest (request : ClientRequest R S) (now : ℕ) {s : Conn E R S W maxPacketSize}
    (hs : s.socket.Clear) :
    Ends (driveRequest (some request) now) s (fun more s' => more = true ∧ s'.socket.Clear)
      fun e s' => ∀ e', e = .err e' →
        s'.socket.Clear ∨
          (.error e' : Except (ClientError E) Unit) = .error .clientClosed ∧ s'.socket.Closing := by
  apply Ends.bind
  by_cases hdisc : ∃ sender, request = .disconnect sender
  · obtain ⟨sender, rfl⟩ := hdisc
    apply (ends_disconnect sender now hs).mono
    · exact fun _ _ h => h.elim
    · rintro e s' ⟨he, hs'⟩ e' heq
      exact .inr ⟨by rw [he e' heq], hs'⟩
  · have hclear := clear_of_writes
      (writes_handleClientRequest sendable_ne (fun sender h => hdisc ⟨sender, h⟩) now) s hs
    exact hclear.mono (fun _ s' h => ⟨rfl, h⟩) fun _ s' h _ _ => .inl h

/-! ## Runs -/

/-- All senders of requests are gone. -/
def Event.requestsEnd : Event E R S W → Bool
  | .request none _ => true
  | _ => false

namespace LoopSystem
variable {s t : LoopSystem E R S W maxPacketSize}

/-- DISCONNECT has been sent on the last transport at most, and only if `run` has returned. -/
structure Orderly (t : LoopSystem E R S W maxPacketSize) : Prop where
  dropped : ∀ socket ∈ t.dropped, socket.Clear
  idle : t.phase = .idle → ∀ socket ∈ t.loop.transport, socket.Clear
  driving : ∀ socket rxCursor received, t.phase = .driving socket rxCursor received → socket.Clear
  stopped : t.phase = .stopped →
    t.loop.statuses.getLast? = some .stopped ∧ ∀ socket ∈ t.loop.transport, socket.Closing

theorem orderly_start (options : ClientOptions) (channels : W) (now : ℕ) :
    (start options channels now : LoopSystem E R S W maxPacketSize).Orderly :=
  ⟨by simp [start], by simp [start, EventLoop.new], by simp [start], by simp [start]⟩

theorem orderly_stop (hdropped : ∀ socket ∈ s.dropped, socket.Clear)
    (hcurrent : ∀ socket ∈ s.loop.transport, socket.Closing) : s.stop.Orderly :=
  ⟨hdropped, by simp [stop], by simp [stop], fun _ => ⟨by simp [stop, withStatus], hcurrent⟩⟩

theorem orderly_goOn (hs : s.Orderly) {c : Conn E R S W maxPacketSize} (hc : c.socket.Clear)
    (rxCursor : ℕ) (received : List Received) : (s.goOn rxCursor received c).Orderly :=
  ⟨hs.dropped, by simp [goOn], by simpa [goOn] using hc, by simp [goOn]⟩

/-- What `run` does with a result of `drive_connection`. -/
theorem orderly_driven (hs : s.Orderly) {result : Except (ClientError E) Unit}
    {c : Conn E R S W maxPacketSize}
    (hc : c.socket.Clear ∨ result = .error .clientClosed ∧ c.socket.Closing) :
    (s.driven result c).Orderly := by
  rcases result with e | u
  · by_cases hclosed : e = .clientClosed
    · subst hclosed
      refine orderly_stop hs.dropped ?_
      simpa using hc.elim .inl (·.2)
    · have hclear : c.socket.Clear := hc.elim id fun h => absurd (Except.error.inj h.1) hclosed
      have hdropped : ∀ t ∈ s.dropped ++ [c.socket], t.Clear := by
        simpa [or_imp, forall_and] using ⟨hs.dropped, hclear⟩
      rw [driven_error hclosed]
      split
      · exact ⟨hdropped, by simp [withStatus], by simp, by simp⟩
      · exact orderly_stop hdropped (by simp [withStatus])
  · have hclear : c.socket.Clear := hc.elim id fun h => absurd h.1 (by simp)
    exact ⟨hs.dropped, by simpa [driven] using hclear, by simp [driven], by simp [driven]⟩

theorem orderly_step [DecidableEq S] {ch : Mpsc W S PublishMessage} {order : HashOrder}
    {event : Event E R S W} (hs : s.Orderly) (hevent : event.requestsEnd = false)
    (h : s.step ch order event = some t) : t.Orderly := by
  have hbranch {event : Event E R S W} (h : s.step ch order event = some t)
      (hends : s.BranchEnds ch (fun c => c.socket.Clear) event) : t.Orderly :=
    branch_step h hends (fun _ rxCursor received hc => orderly_goOn hs hc rxCursor received)
      fun _ _ hc => orderly_driven hs (.inl hc)
  cases event with
  | attempt dial now =>
    obtain ⟨hphase, hnone, attempt, loop, socket, hattempt, hend⟩ := step_attempt h
    have hwrites := writes_connectAttempt sendable_ne hnone hattempt
    simp only [← Socket.clear_iff] at hwrites
    obtain ⟨hsocket, htransport⟩ := hwrites
    have hdropped : ∀ t ∈ s.dropped ++ socket.toList, t.Clear := by
      intro t ht
      rcases List.mem_append.mp ht with ht | ht
      · exact hs.dropped t ht
      · exact hsocket t (by simpa using ht)
    rcases hend with ⟨-, rfl⟩ | rfl
    · exact orderly_stop hdropped fun t ht => .inl (htransport t ht)
    · exact ⟨hdropped, fun _ => htransport, by simp [hphase], by simp [hphase]⟩
  | enter =>
    obtain ⟨hphase, socket, hsocket, rfl⟩ := step_enter h
    have hc : socket.Clear := hs.idle hphase socket hsocket
    refine ⟨hs.dropped, by simp, ?_, by simp⟩
    rintro _ _ _ ⟨⟩
    exact hc
  | read =>
    exact hbranch h fun socket rxCursor hphase =>
      clear_of_writes (writes_sends fun _ => sends_receiveFrames rxCursor)
        { s.loop with socket } (hs.driving _ _ _ hphase)
  | handle now =>
    exact hbranch h fun socket rxCursor received later hphase =>
      clear_of_writes (writes_handle sendable_ne ch received now)
        { s.loop with socket } (hs.driving _ _ _ hphase)
  | request request now =>
    obtain ⟨socket, rxCursor, hphase, hend⟩ := step_request h
    have hc : socket.Clear := hs.driving _ _ _ hphase
    rcases request with _ | request
    · cases hevent
    · have hrequest := ends_driveRequest request now (s := { s.loop with socket }) hc
      rcases hend with ⟨more, c, hrun, rfl⟩ | ⟨e, c, hrun, rfl⟩
      · obtain ⟨rfl, hclear⟩ := hrequest.ok_of hrun
        exact orderly_goOn hs hclear rxCursor []
      · exact orderly_driven hs ((hrequest.error_of hrun) e rfl)
  | tick now =>
    exact hbranch h fun socket rxCursor hphase =>
      clear_of_writes (writes_sends fun _ => sends_driveTick (by decide) now)
        { s.loop with socket } (hs.driving _ _ _ hphase)
  | arrive segment =>
    obtain ⟨socket, rxCursor, received, hphase, rfl⟩ := step_arrive h
    have hc : socket.Clear := hs.driving _ _ _ hphase
    refine ⟨hs.dropped, by simp, ?_, by simp⟩
    rintro _ _ _ ⟨⟩
    exact hc
  | channels w =>
    cases h
    exact ⟨hs.dropped, hs.idle, hs.driving, hs.stopped⟩

/-- After `run` has returned nothing happens. -/
theorem runs_stopped [DecidableEq S] {ch : Mpsc W S PublishMessage} {order : HashOrder}
    {ok : LoopSystem E R S W maxPacketSize → Event E R S W → Prop} (h : Runs ch order ok s t)
    (hs : s.phase = .stopped) :
    t.phase = .stopped ∧ t.connections = s.connections ∧ t.loop.statuses = s.loop.statuses := by
  apply h.invariant (I := fun t => t.phase = .stopped ∧ t.connections = s.connections ∧
    t.loop.statuses = s.loop.statuses) ⟨hs, rfl, rfl⟩
  rintro t t' event ⟨hphase, hconnections, hstatuses⟩ - hstep
  obtain ⟨w, rfl⟩ := step_stopped hphase hstep
  exact ⟨hphase, hconnections, hstatuses⟩

/-- A DISCONNECT is the last write of a run that has returned. -/
theorem Orderly.of_disconnect (hs : s.Orderly) {socket : Socket E} (h : socket ∈ s.connections)
    {bytes : List UInt8} (hbytes : bytes ∈ socket.written) (hbegins : BeginsDisconnect bytes) :
    s.phase = .stopped ∧ ∃ bytes, socket.ClosesWith bytes := by
  have hnot : ¬ socket.Clear := fun hclear => hclear bytes hbytes hbegins
  rw [connections] at h
  rcases List.mem_append.mp h with hdropped | hcurrent
  · exact absurd (hs.dropped socket hdropped) hnot
  · rcases hphase : s.phase with _ | ⟨current, rxCursor, received⟩ | _
    · rw [hphase] at hcurrent
      exact absurd (hs.idle hphase socket (by simpa using hcurrent)) hnot
    · rw [hphase] at hcurrent
      obtain rfl := List.mem_singleton.mp hcurrent
      exact absurd (hs.driving _ _ _ hphase) hnot
    · rw [hphase] at hcurrent
      have hclosing := (hs.stopped hphase).2 socket (by simpa using hcurrent)
      exact ⟨rfl, hclosing.resolve_left hnot⟩

end LoopSystem

/-! ## After a DISCONNECT -/

section
open LoopSystem
variable [DecidableEq S] (ch : Mpsc W S PublishMessage) (order : HashOrder)

/-- Where a DISCONNECT has been written, it is the only one on its connection and nothing has been
written behind it, `run` has returned, and from then on no transport is used or opened and the
status stays `Stopped`. -/
def EndsWithDisconnect (s : LoopSystem E R S W maxPacketSize) : Prop :=
  ∀ socket ∈ s.connections, ∀ before bytes after, socket.written = before ++ bytes :: after →
    BeginsDisconnect bytes →
    after = [] ∧ (∀ bytes ∈ before, ¬ BeginsDisconnect bytes) ∧
      ∀ s', Runs ch order (fun _ _ => True) s s' →
        s'.phase = .stopped ∧ s'.connections = s.connections ∧
          s'.loop.statuses.getLast? = some .stopped

variable {ch order}

/-- In a run in which the requests do not end, nothing happens after a DISCONNECT. -/
theorem stopped_after_disconnect {options : ClientOptions} {channels : W} {now : ℕ}
    {s : LoopSystem E R S W maxPacketSize}
    (h : Runs ch order (fun _ event => event.requestsEnd = false)
      (start options channels now) s) :
    EndsWithDisconnect ch order s := by
  have horderly : s.Orderly :=
    h.invariant (orderly_start options channels now) fun _ _ _ hs hevent hstep =>
      orderly_step hs hevent hstep
  intro socket hsocket before bytes after hwritten hbytes
  obtain ⟨hphase, hcloses⟩ := horderly.of_disconnect hsocket (by simp [hwritten]) hbytes
  obtain ⟨rfl, hbefore⟩ := Socket.closesWith_split hcloses hwritten hbytes
  refine ⟨rfl, hbefore, fun s' hruns => ?_⟩
  obtain ⟨hphase', hconnections, hstatuses⟩ := runs_stopped hruns hphase
  exact ⟨hphase', hconnections, hstatuses ▸ (horderly.stopped hphase).1⟩

/-- When the requests have ended, `run` goes on with the same transport. -/
theorem idle_of_requestsEnd {s t : LoopSystem E R S W maxPacketSize} {event : Event E R S W}
    (hevent : event.requestsEnd = true) (h : s.step ch order event = some t) :
    t.phase = .idle ∧ t.loop.transport.isSome := by
  rcases event with ⟨dial, now⟩ | _ | _ | now | ⟨_ | request, now⟩ | now | segment | w
  case request.none =>
    obtain ⟨socket, rxCursor, -, hend⟩ := step_request h
    have hrequest : Ends (driveRequest none now) { s.loop with socket } (fun more _ => more = false)
        fun e _ => ∀ e', e ≠ .err e' := by
      apply Ends.bind
      apply (ends_ignore (Q := fun _ => True) Ends.trivial).mono
      · exact fun _ _ _ => rfl
      · exact fun _ _ h => h.1
    rcases hend with ⟨more, c, hrun, rfl⟩ | ⟨e, c, hrun, rfl⟩
    · obtain rfl := hrequest.ok_of hrun
      exact ⟨rfl, rfl⟩
    · exact absurd rfl (hrequest.error_of hrun e)
  all_goals cases hevent

end

end

/-- A request to disconnect. -/
def disconnecting : List (Event Unit ℕ ℕ (ℕ → Queue PublishMessage)) :=
  LoopSystem.connecting [] ++ [.request (some (.disconnect 0)) 0]

/-- The requests end twice. -/
def abandoning : List (Event Unit ℕ ℕ (ℕ → Queue PublishMessage)) :=
  LoopSystem.connecting [] ++ [.request none 0, .enter, .request none 0]

/-- A run that ends with a DISCONNECT. -/
theorem stopped_after_disconnect_sample :
    ∃ s : LoopSystem Unit ℕ ℕ (ℕ → Queue PublishMessage) 64,
      s.connections.map (fun socket => socket.written.getLast?) = [some [0xE0, 0]] ∧
        EndsWithDisconnect (.queues ℕ PublishMessage) LoopSystem.listed s := by
  let ran := LoopSystem.run (.queues ℕ PublishMessage) LoopSystem.listed
    (fun _ event => event.requestsEnd = false) disconnecting LoopSystem.fresh
  have hran : (ran.map fun s => s.connections.map fun socket => socket.written.getLast?) =
      some [some [0xE0, 0]] := by
    decide +kernel
  obtain ⟨s, hrun, hs⟩ := Option.map_eq_some_iff.mp hran
  exact ⟨s, hs, stopped_after_disconnect (LoopSystem.runs_of_run hrun)⟩

/-- When the requests have ended, a second DISCONNECT is written. -/
theorem disconnects_again :
    ¬ ∀ s, LoopSystem.Runs (.queues ℕ PublishMessage) LoopSystem.listed (fun _ _ => True)
      LoopSystem.fresh s → EndsWithDisconnect (.queues ℕ PublishMessage) LoopSystem.listed s := by
  intro hall
  let ran := LoopSystem.run (.queues ℕ PublishMessage) LoopSystem.listed (fun _ _ => True)
    abandoning LoopSystem.fresh
  have hran : (ran.map fun s => s.connections.map fun socket => socket.written.drop 1) =
      some [[[0xE0, 0], [0xE0, 0]]] := by
    decide +kernel
  obtain ⟨s, hrun, hs⟩ := Option.map_eq_some_iff.mp hran
  obtain ⟨socket, hsocket, hwritten⟩ := List.mem_map.mp (hs ▸ List.mem_singleton_self _)
  have hsplit : socket.written = socket.written.take 1 ++ [0xE0, 0] :: [[0xE0, 0]] := by
    rw [← hwritten, List.take_append_drop]
  have hlast := (hall s (LoopSystem.runs_of_run hrun) socket hsocket _ _ _ hsplit rfl).1
  cases hlast

end MqttEngine.Tokio
