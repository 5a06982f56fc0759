import MqttEngine.Lib.Effect
import MqttEngine.Tokio.EventLoop
import Mathlib.Logic.Relation

/-!
# Runs of the event loop

`EventLoop::run` connects and drives the connection by turns. `LoopSystem.step` is what happens
next: a dial, the begin of `drive_connection`, one of its branches, or something that the
environment does. The read branch is taken in steps: the read, and then one frame after the
other, so that the receivers of the streams may go on between two frames. A branch that panics
or does not end has no next state.

## Main definitions

* `Phase`, `LoopSystem` — where `run` stands.
* `Event`, `LoopSystem.step` — what happens and what it does.
* `LoopSystem.connections`, `LoopSystem.connection` — all transports of a run, and the current one.
* `LoopSystem.Runs` — runs in which every event meets a condition, and `LoopSystem.run`, which
  computes one.
* `LoopSystem.Traced` — runs with their steps, and `LoopSystem.runTraced`, which computes one.

## Main results

* `step_attempt`, `step_handle` and the others — what a step does.
* `loop_step`, `connection_step`, `connections_step` — the rules for a condition on the loop after a
  step, for one on the loop and the current transport, and for one on all transports.
* `Runs.invariant` — what every step keeps holds at the end of a run.
-/

namespace MqttEngine.Tokio

/-- Where `run` stands. -/
inductive Phase (E : Type)
  /-- At the head of its loop. -/
  | idle
  /-- In `drive_connection`, with `rxCursor` bytes left in `rx_buf`, and with the frames of the
  last read that it has not acted on yet. -/
  | driving (socket : Socket E) (rxCursor : ℕ) (received : List Received)
  /-- It has returned. -/
  | stopped

/-- The frames of the last read that have not been acted on. -/
def Phase.received {E : Type} : Phase E → List Received
  | .driving _ _ received => received
  | _ => []

theorem Phase.eq_driving {E : Type} {self : Phase E} {received : Received} {later : List Received}
    (h : self.received = received :: later) :
    ∃ socket rxCursor, self = .driving socket rxCursor (received :: later) := by
  cases self with
  | driving socket rxCursor received =>
    obtain rfl : received = _ := h
    exact ⟨socket, rxCursor, rfl⟩
  | _ => cases h

/-- The state of `run`. -/
structure LoopSystem (E R S W : Type) (maxPacketSize : ℕ) where
  loop : EventLoop E R S W maxPacketSize
  phase : Phase E
  /-- The transports that have been dropped. -/
  dropped : List (Socket E)

/-- What happens next. -/
inductive Event (E R S W : Type)
  /-- `connect_transport` returns, in a round of `connect_with_backoff`. -/
  | attempt (dial : Except (ClientError E) (Socket E)) (now : ℕ)
  /-- `drive_connection` is called. -/
  | enter
  | read
  /-- The next frame of the last read is acted on. -/
  | handle (now : ℕ)
  /-- A request comes, or all senders of requests are gone. -/
  | request (request : Option (ClientRequest R S)) (now : ℕ)
  | tick (now : ℕ)
  /-- The peer sends something. -/
  | arrive (segment : Except E (List UInt8))
  /-- The receivers of the streams take messages or close their channels. -/
  | channels (w : W)

namespace LoopSystem
variable {E R S W : Type} {maxPacketSize : ℕ}

/-- `EventLoop::run` on a new loop, at the instant `now`. -/
def start (options : ClientOptions) (channels : W) (now : ℕ) : LoopSystem E R S W maxPacketSize :=
  { loop := .new options channels now, phase := .idle, dropped := [] }

/-- All transports of a run, the current one last. -/
def connections (self : LoopSystem E R S W maxPacketSize) : List (Socket E) :=
  self.dropped ++
    match self.phase with
    | .driving socket _ _ => [socket]
    | _ => self.loop.transport.toList

/-- The current transport. -/
def connection (self : LoopSystem E R S W maxPacketSize) : Option (Socket E) :=
  match self.phase with
  | .driving socket _ _ => some socket
  | _ => self.loop.transport

/-- A status is published. -/
def withStatus (loop : EventLoop E R S W maxPacketSize) (status : ConnectionStatus) :
    EventLoop E R S W maxPacketSize :=
  { loop with statuses := loop.statuses ++ [status] }

/-- `run` has broken out of its loop. -/
def stop (self : LoopSystem E R S W maxPacketSize) : LoopSystem E R S W maxPacketSize :=
  { self with loop := withStatus self.loop .stopped, phase := .stopped }

/-- What `run` does with the result of `drive_connection`. -/
def driven (self : LoopSystem E R S W maxPacketSize) (result : Except (ClientError E) Unit)
    (s : Conn E R S W maxPacketSize) : LoopSystem E R S W maxPacketSize :=
  let kept := { s.toEventLoop with transport := some s.socket }
  match result with
  | .ok _ => { self with loop := kept, phase := .idle }
  | .error .clientClosed => stop { self with loop := kept }
  | .error _ =>
    let lost : LoopSystem E R S W maxPacketSize :=
      { loop := withStatus { kept with transport := none } .disconnected, phase := .idle
        dropped := self.dropped ++ [s.socket] }
    if s.options.reconnect.enabled then lost else stop lost

/-- A branch of `drive_connection`: the loop goes on with `next`, or the call ends. -/
def branch {α : Type} (self : LoopSystem E R S W maxPacketSize)
    (r : EStateM.Result (Fault (ClientError E)) (Conn E R S W maxPacketSize) α)
    (next : α → Conn E R S W maxPacketSize → LoopSystem E R S W maxPacketSize) :
    Option (LoopSystem E R S W maxPacketSize) :=
  match r with
  | .ok a s => some (next a s)
  | .error (.err e) s => some (self.driven (.error e) s)
  | .error _ _ => none

/-- `drive_connection` goes on. -/
def goOn (self : LoopSystem E R S W maxPacketSize) (rxCursor : ℕ) (received : List Received)
    (s : Conn E R S W maxPacketSize) : LoopSystem E R S W maxPacketSize :=
  { self with loop := s.toEventLoop, phase := .driving s.socket rxCursor received }

variable [DecidableEq S] (ch : Mpsc W S PublishMessage) (order : HashOrder)

/-- The state after an event, if it can happen and does not panic. The branches of
`drive_connection` wait until the frames of the last read have been acted on. Its timer does not
take a period of zero. -/
def step (self : LoopSystem E R S W maxPacketSize) (event : Event E R S W) :
    Option (LoopSystem E R S W maxPacketSize) :=
  match event, self.phase with
  | .channels w, _ => some { self with loop := { self.loop with channels := w } }
  | .attempt dial now, .idle =>
    if self.loop.transport.isSome then none
    else
      match self.loop.connectAttempt order (dial.map Socket.opened) now with
      | none => none
      | some (attempt, loop, socket) =>
        let next := { self with loop, dropped := self.dropped ++ socket.toList }
        match attempt with
        | .failed _ => some next.stop
        | _ => some next
  | .enter, .idle =>
    match self.loop.transport with
    | none => none
    | some socket =>
      if self.loop.options.keepAlive = 0 then none
      else
        some { self with
          loop := { self.loop with transport := none }, phase := .driving socket 0 [] }
  | .read, .driving socket rxCursor [] =>
    self.branch (EventLoop.receiveFrames rxCursor { self.loop with socket })
      fun (received, left) s => self.goOn left received s
  | .handle now, .driving socket rxCursor (received :: later) =>
    self.branch (EventLoop.handle ch now received { self.loop with socket })
      fun _ s => self.goOn rxCursor later s
  | .request request now, .driving socket rxCursor [] =>
    self.branch (EventLoop.driveRequest request now { self.loop with socket })
      fun more s => if more then self.goOn rxCursor [] s else self.driven (.ok ()) s
  | .tick now, .driving socket rxCursor [] =>
    self.branch (EventLoop.driveTick now { self.loop with socket })
      fun _ s => self.goOn rxCursor [] s
  | .arrive segment, .driving socket rxCursor received =>
    let socket := { socket with incoming := socket.incoming ++ [segment] }
    some { self with phase := .driving socket rxCursor received }
  | _, _ => none

/-! ## What a step does -/

section
variable {ch order} {self t : LoopSystem E R S W maxPacketSize}

omit [DecidableEq S] in
/-- A connection is lost. -/
theorem driven_error {e : ClientError E} (h : e ≠ .clientClosed)
    {c : Conn E R S W maxPacketSize} :
    self.driven (.error e) c =
      let lost : LoopSystem E R S W maxPacketSize :=
        { loop := withStatus { c.toEventLoop with transport := none } .disconnected, phase := .idle
          dropped := self.dropped ++ [c.socket] }
      if c.options.reconnect.enabled then lost else lost.stop := by
  cases e with
  | clientClosed => exact absurd rfl h
  | _ => rfl

omit [DecidableEq S] in
/-- The end of `drive_connection` changes the transport and the statuses only. -/
theorem loop_driven (self : LoopSystem E R S W maxPacketSize)
    (result : Except (ClientError E) Unit) (c : Conn E R S W maxPacketSize) :
    ∃ transport statuses,
      (self.driven result c).loop = { c.toEventLoop with transport, statuses } := by
  rcases result with e | u
  · by_cases hclosed : e = .clientClosed
    · subst hclosed
      exact ⟨_, _, rfl⟩
    · rw [driven_error hclosed]
      split
      · exact ⟨_, _, rfl⟩
      · exact ⟨_, _, rfl⟩
  · exact ⟨_, _, rfl⟩

omit [DecidableEq S] in
/-- After an error there is no connection, or `run` has returned. -/
theorem phase_driven_error (self : LoopSystem E R S W maxPacketSize) (e : ClientError E)
    (c : Conn E R S W maxPacketSize) :
    (self.driven (.error e) c).phase = .stopped ∨
      (self.driven (.error e) c).phase = .idle ∧ (self.driven (.error e) c).loop.transport = none := by
  by_cases hclosed : e = .clientClosed
  · subst hclosed
    exact .inl rfl
  · rw [driven_error hclosed]
    dsimp only
    split
    · exact .inr ⟨rfl, rfl⟩
    · exact .inl rfl

omit [DecidableEq S] in
theorem connections_goOn (rxCursor : ℕ) (received : List Received)
    (c : Conn E R S W maxPacketSize) :
    (self.goOn rxCursor received c).connections = self.dropped ++ [c.socket] := rfl

omit [DecidableEq S] in
theorem connections_driven (result : Except (ClientError E) Unit) (c : Conn E R S W maxPacketSize) :
    (self.driven result c).connections = self.dropped ++ [c.socket] := by
  rcases result with e | u
  · by_cases hclosed : e = .clientClosed
    · subst hclosed
      rfl
    · rw [driven_error hclosed]
      split <;> simp [connections, stop, withStatus]
  · rfl

omit [DecidableEq S] in
/-- A branch goes on, or it fails. -/
theorem branch_eq_some {α : Type}
    {r : EStateM.Result (Fault (ClientError E)) (Conn E R S W maxPacketSize) α}
    {next : α → Conn E R S W maxPacketSize → LoopSystem E R S W maxPacketSize} :
    self.branch r next = some t ↔
      (∃ a c, r = .ok a c ∧ next a c = t) ∨
        ∃ e c, r = .error (.err e) c ∧ self.driven (.error e) c = t := by
  rcases r with ⟨a, c⟩ | ⟨(e | _ | _), c⟩ <;> simp [branch]

/-- Only at the head of its loop, and without a transport, `run` connects. -/
theorem step_attempt {dial : Except (ClientError E) (Socket E)} {now : ℕ}
    (h : self.step ch order (.attempt dial now) = some t) :
    self.phase = .idle ∧ self.loop.transport = none ∧ ∃ attempt loop socket,
      self.loop.connectAttempt order (dial.map Socket.opened) now = some (attempt, loop, socket) ∧
      ((∃ e, attempt = .failed e) ∧
          t = stop { self with loop, dropped := self.dropped ++ socket.toList } ∨
        t = { self with loop, dropped := self.dropped ++ socket.toList }) := by
  rw [step.eq_def] at h
  rcases hphase : self.phase with _ | ⟨socket, rxCursor, received⟩ | _
  · rw [hphase] at h
    dsimp only at h
    split at h
    · cases h
    · rename_i hnone
      split at h
      · cases h
      · rename_i attempt loop socket hattempt
        refine ⟨rfl, by simpa using hnone, attempt, loop, socket, hattempt, ?_⟩
        cases attempt with
        | failed e => exact .inl ⟨⟨e, rfl⟩, (Option.some.inj h).symm⟩
        | connected => exact .inr (Option.some.inj h).symm
        | retry => exact .inr (Option.some.inj h).symm
  · simp [hphase] at h
  · simp [hphase] at h

theorem step_enter (h : self.step ch order .enter = some t) :
    self.phase = .idle ∧ ∃ socket, self.loop.transport = some socket ∧
      t = { self with
        loop := { self.loop with transport := none }, phase := .driving socket 0 [] } := by
  rw [step.eq_def] at h
  rcases hphase : self.phase with _ | ⟨socket, rxCursor, received⟩ | _
  · rw [hphase] at h
    dsimp only at h
    split at h
    · cases h
    · rename_i socket hsocket
      split at h
      · cases h
      · exact ⟨rfl, socket, hsocket, (Option.some.inj h).symm⟩
  · simp [hphase] at h
  · simp [hphase] at h

/-- The timer of `drive_connection` has a period. -/
theorem keepAlive_of_enter (h : self.step ch order .enter = some t) :
    self.loop.options.keepAlive ≠ 0 := by
  rcases hphase : self.phase with _ | ⟨socket, rxCursor, received⟩ | _
  · intro hzero
    cases htransport : self.loop.transport <;> simp [step.eq_def, hphase, hzero, htransport] at h
  · simp [step.eq_def, hphase] at h
  · simp [step.eq_def, hphase] at h

theorem step_read (h : self.step ch order .read = some t) :
    ∃ socket rxCursor, self.phase = .driving socket rxCursor [] ∧
      ((∃ received left c, EventLoop.receiveFrames rxCursor { self.loop with socket } =
          .ok (received, left) c ∧ t = self.goOn left received c) ∨
        ∃ e c, EventLoop.receiveFrames rxCursor { self.loop with socket } = .error (.err e) c ∧
          t = self.driven (.error e) c) := by
  rw [step.eq_def] at h
  rcases hphase : self.phase with _ | ⟨socket, rxCursor, _ | ⟨received, later⟩⟩ | _
  · simp [hphase] at h
  · rw [hphase] at h
    refine ⟨socket, rxCursor, rfl, ?_⟩
    rcases branch_eq_some.mp h with ⟨⟨received, left⟩, c, hrun, rfl⟩ | ⟨e, c, hrun, rfl⟩
    · exact .inl ⟨received, left, c, hrun, rfl⟩
    · exact .inr ⟨e, c, hrun, rfl⟩
  · simp [hphase] at h
  · simp [hphase] at h

theorem step_handle {now : ℕ} (h : self.step ch order (.handle now) = some t) :
    ∃ socket rxCursor received later, self.phase = .driving socket rxCursor (received :: later) ∧
      ((∃ c, EventLoop.handle ch now received { self.loop with socket } = .ok () c ∧
          t = self.goOn rxCursor later c) ∨
        ∃ e c, EventLoop.handle ch now received { self.loop with socket } = .error (.err e) c ∧
          t = self.driven (.error e) c) := by
  rw [step.eq_def] at h
  rcases hphase : self.phase with _ | ⟨socket, rxCursor, _ | ⟨received, later⟩⟩ | _
  · simp [hphase] at h
  · simp [hphase] at h
  · rw [hphase] at h
    refine ⟨socket, rxCursor, received, later, rfl, ?_⟩
    rcases branch_eq_some.mp h with ⟨_, c, hrun, rfl⟩ | ⟨e, c, hrun, rfl⟩
    · exact .inl ⟨c, hrun, rfl⟩
    · exact .inr ⟨e, c, hrun, rfl⟩
  · simp [hphase] at h

theorem step_request {request : Option (ClientRequest R S)} {now : ℕ}
    (h : self.step ch order (.request request now) = some t) :
    ∃ socket rxCursor, self.phase = .driving socket rxCursor [] ∧
      ((∃ more c, EventLoop.driveRequest request now { self.loop with socket } = .ok more c ∧
          t = if more then self.goOn rxCursor [] c else self.driven (.ok ()) c) ∨
        ∃ e c, EventLoop.driveRequest request now { self.loop with socket } = .error (.err e) c ∧
          t = self.driven (.error e) c) := by
  rw [step.eq_def] at h
  rcases hphase : self.phase with _ | ⟨socket, rxCursor, _ | ⟨received, later⟩⟩ | _
  · simp [hphase] at h
  · rw [hphase] at h
    refine ⟨socket, rxCursor, rfl, ?_⟩
    rcases branch_eq_some.mp h with ⟨more, c, hrun, rfl⟩ | ⟨e, c, hrun, rfl⟩
    · exact .inl ⟨more, c, hrun, rfl⟩
    · exact .inr ⟨e, c, hrun, rfl⟩
  · simp [hphase] at h
  · simp [hphase] at h

theorem step_tick {now : ℕ} (h : self.step ch order (.tick now) = some t) :
    ∃ socket rxCursor, self.phase = .driving socket rxCursor [] ∧
      ((∃ c, EventLoop.driveTick now { self.loop with socket } = .ok () c ∧
          t = self.goOn rxCursor [] c) ∨
        ∃ e c, EventLoop.driveTick now { self.loop with socket } = .error (.err e) c ∧
          t = self.driven (.error e) c) := by
  rw [step.eq_def] at h
  rcases hphase : self.phase with _ | ⟨socket, rxCursor, _ | ⟨received, later⟩⟩ | _
  · simp [hphase] at h
  · rw [hphase] at h
    refine ⟨socket, rxCursor, rfl, ?_⟩
    rcases branch_eq_some.mp h with ⟨_, c, hrun, rfl⟩ | ⟨e, c, hrun, rfl⟩
    · exact .inl ⟨c, hrun, rfl⟩
    · exact .inr ⟨e, c, hrun, rfl⟩
  · simp [hphase] at h
  · simp [hphase] at h

theorem step_arrive {segment : Except E (List UInt8)}
    (h : self.step ch order (.arrive segment) = some t) :
    ∃ socket rxCursor received, self.phase = .driving socket rxCursor received ∧
      t = { self with
        phase := .driving { socket with incoming := socket.incoming ++ [segment] } rxCursor received } := by
  rw [step.eq_def] at h
  rcases hphase : self.phase with _ | ⟨socket, rxCursor, received⟩ | _
  · simp [hphase] at h
  · rw [hphase] at h
    exact ⟨socket, rxCursor, received, rfl, (Option.some.inj h).symm⟩
  · simp [hphase] at h

variable (ch) in
/-- However the branch of `drive_connection` that the event takes ends, `P` holds then. -/
def BranchEnds (self : LoopSystem E R S W maxPacketSize)
    (P : Conn E R S W maxPacketSize → Prop) : Event E R S W → Prop
  | .read => ∀ socket rxCursor, self.phase = .driving socket rxCursor [] →
    Ends (EventLoop.receiveFrames rxCursor) { self.loop with socket } (fun _ => P) fun _ => P
  | .handle now => ∀ socket rxCursor received later,
    self.phase = .driving socket rxCursor (received :: later) →
      Ends (EventLoop.handle ch now received) { self.loop with socket } (fun _ => P) fun _ => P
  | .request request now => ∀ socket rxCursor, self.phase = .driving socket rxCursor [] →
    Ends (EventLoop.driveRequest request now) { self.loop with socket } (fun _ => P) fun _ => P
  | .tick now => ∀ socket rxCursor, self.phase = .driving socket rxCursor [] →
    Ends (EventLoop.driveTick now) { self.loop with socket } (fun _ => P) fun _ => P
  | .attempt _ _ | .enter | .arrive _ | .channels _ => False

/-- After a branch `drive_connection` goes on or returns. -/
theorem branch_step {event : Event E R S W} {P : Conn E R S W maxPacketSize → Prop}
    {Q : LoopSystem E R S W maxPacketSize → Prop} (h : self.step ch order event = some t)
    (hbranch : self.BranchEnds ch P event)
    (hgoOn : ∀ c rxCursor received, P c → Q (self.goOn rxCursor received c))
    (hdriven : ∀ c result, P c → Q (self.driven result c)) : Q t := by
  cases event with
  | attempt dial now => exact hbranch.elim
  | enter => exact hbranch.elim
  | read =>
    obtain ⟨socket, rxCursor, hphase, hend⟩ := step_read h
    have hends := hbranch socket rxCursor hphase
    rcases hend with ⟨received, left, c, hrun, rfl⟩ | ⟨e, c, hrun, rfl⟩
    · exact hgoOn c left received (hends.ok_of hrun)
    · exact hdriven c _ (hends.error_of hrun)
  | handle now =>
    obtain ⟨socket, rxCursor, received, later, hphase, hend⟩ := step_handle h
    have hends := hbranch socket rxCursor received later hphase
    rcases hend with ⟨c, hrun, rfl⟩ | ⟨e, c, hrun, rfl⟩
    · exact hgoOn c rxCursor later (hends.ok_of hrun)
    · exact hdriven c _ (hends.error_of hrun)
  | request request now =>
    obtain ⟨socket, rxCursor, hphase, hend⟩ := step_request h
    have hends := hbranch socket rxCursor hphase
    rcases hend with ⟨more, c, hrun, rfl⟩ | ⟨e, c, hrun, rfl⟩
    · cases more
      · exact hdriven c (.ok ()) (hends.ok_of hrun)
      · exact hgoOn c rxCursor [] (hends.ok_of hrun)
    · exact hdriven c _ (hends.error_of hrun)
  | tick now =>
    obtain ⟨socket, rxCursor, hphase, hend⟩ := step_tick h
    have hends := hbranch socket rxCursor hphase
    rcases hend with ⟨c, hrun, rfl⟩ | ⟨e, c, hrun, rfl⟩
    · exact hgoOn c rxCursor [] (hends.ok_of hrun)
    · exact hdriven c _ (hends.error_of hrun)
  | arrive segment => exact hbranch.elim
  | channels w => exact hbranch.elim

variable (ch order) in
/-- What an event does to the loop establishes a condition on it. -/
def Establishes (self : LoopSystem E R S W maxPacketSize)
    (Q : EventLoop E R S W maxPacketSize → Prop) : Event E R S W → Prop
  | .attempt dial now => ∀ attempt loop socket,
    self.loop.connectAttempt order (dial.map Socket.opened) now = some (attempt, loop, socket) → Q loop
  | .read => ∀ socket rxCursor, self.phase = .driving socket rxCursor [] →
    Ends (EventLoop.receiveFrames rxCursor) { self.loop with socket } (fun _ c => Q c.toEventLoop)
      fun _ c => Q c.toEventLoop
  | .handle now => ∀ socket rxCursor received later,
    self.phase = .driving socket rxCursor (received :: later) →
      Ends (EventLoop.handle ch now received) { self.loop with socket } (fun _ c => Q c.toEventLoop)
        fun _ c => Q c.toEventLoop
  | .request request now => ∀ socket rxCursor, self.phase = .driving socket rxCursor [] →
    Ends (EventLoop.driveRequest request now) { self.loop with socket } (fun _ c => Q c.toEventLoop)
      fun _ c => Q c.toEventLoop
  | .tick now => ∀ socket rxCursor, self.phase = .driving socket rxCursor [] →
    Ends (EventLoop.driveTick now) { self.loop with socket } (fun _ c => Q c.toEventLoop)
      fun _ c => Q c.toEventLoop
  | .enter | .arrive _ => Q self.loop
  | .channels w => Q { self.loop with channels := w }

/-- What an event establishes of the loop holds after it, if the transport and the statuses do not
matter for it. -/
theorem loop_step {event : Event E R S W} {Q : EventLoop E R S W maxPacketSize → Prop}
    (h : self.step ch order event = some t)
    (hsame : ∀ loop transport statuses, Q loop → Q { loop with transport, statuses })
    (hevent : self.Establishes ch order Q event) : Q t.loop := by
  have hdriven {c : Conn E R S W maxPacketSize} (hc : Q c.toEventLoop)
      (result : Except (ClientError E) Unit) : Q (self.driven result c).loop := by
    obtain ⟨transport, statuses, hloop⟩ := self.loop_driven result c
    rw [hloop]
    exact hsame _ _ _ hc
  cases event with
  | attempt dial now =>
    obtain ⟨-, -, attempt, loop, socket, hattempt, hend⟩ := step_attempt h
    have hloop := hevent attempt loop socket hattempt
    rcases hend with ⟨-, rfl⟩ | rfl
    · exact hsame _ _ _ hloop
    · exact hloop
  | enter =>
    obtain ⟨-, socket, -, rfl⟩ := step_enter h
    exact hsame self.loop none self.loop.statuses hevent
  | read | handle now | request request now | tick now =>
    exact branch_step (P := fun c => Q c.toEventLoop) (Q := fun t => Q t.loop) h hevent
      (fun _ _ _ hc => hc) fun _ result hc => hdriven hc result
  | arrive segment =>
    obtain ⟨socket, rxCursor, received, -, rfl⟩ := step_arrive h
    exact hevent
  | channels w =>
    cases h
    exact hevent

/-- What holds of the loop and the current transport holds after an event, if it holds of every new
connection, every branch keeps it, and the fields that `run` itself sets do not matter for it. -/
theorem connection_step {event : Event E R S W} {I : Conn E R S W maxPacketSize → Prop}
    (h : self.step ch order event = some t)
    (hself : ∀ socket ∈ self.connection, I { self.loop with socket })
    (hsame : ∀ (c : Conn E R S W maxPacketSize) transport statuses channels, I c →
      I { c with transport, statuses, channels })
    (harrive : ∀ (c : Conn E R S W maxPacketSize) incoming, I c →
      I { c with socket := { c.socket with incoming } })
    (hattempt : ∀ dial now, event = .attempt dial now → ∀ attempt loop dropped,
      self.loop.connectAttempt order (dial.map Socket.opened) now = some (attempt, loop, dropped) →
        ∀ socket ∈ loop.transport, I { loop with socket })
    (hread : ∀ rxCursor, Preserves I (EventLoop.receiveFrames rxCursor))
    (hhandle : ∀ now, event = .handle now → ∀ received,
      Preserves I (EventLoop.handle ch now received))
    (hrequest : ∀ request now, event = .request request now →
      Preserves I (EventLoop.driveRequest request now))
    (htick : ∀ now, event = .tick now → Preserves I (EventLoop.driveTick now)) :
    ∀ socket ∈ t.connection, I { t.loop with socket } := by
  have hdriving {socket : Socket E} {rxCursor : ℕ} {received : List Received}
      (hphase : self.phase = .driving socket rxCursor received) : I { self.loop with socket } :=
    hself socket (by simp [connection, hphase])
  have hgoOn {c : Conn E R S W maxPacketSize} (hc : I c) (rxCursor : ℕ) (received : List Received) :
      ∀ socket ∈ (self.goOn rxCursor received c).connection,
        I { (self.goOn rxCursor received c).loop with socket } := by
    rintro socket ⟨⟩
    exact hc
  have hdriven {c : Conn E R S W maxPacketSize} (hc : I c)
      (result : Except (ClientError E) Unit) :
      ∀ socket ∈ (self.driven result c).connection, I { (self.driven result c).loop with socket } := by
    have hkept (statuses : List ConnectionStatus) :
        I { c with transport := some c.socket, statuses } := hsame c _ _ c.channels hc
    rcases result with e | u
    · by_cases hclosed : e = .clientClosed
      · subst hclosed
        rintro socket ⟨⟩
        exact hkept _
      · rw [driven_error hclosed]
        dsimp only
        split
        all_goals
          rintro socket ⟨⟩
    · rintro socket ⟨⟩
      exact hkept c.statuses
  have hbranch {event : Event E R S W} (h : self.step ch order event = some t)
      (hends : self.BranchEnds ch I event) : ∀ socket ∈ t.connection, I { t.loop with socket } :=
    branch_step (Q := fun t => ∀ socket ∈ t.connection, I { t.loop with socket }) h hends
      (fun _ rxCursor received hc => hgoOn hc rxCursor received)
      fun _ result hc => hdriven hc result
  cases event with
  | attempt dial now =>
    obtain ⟨hphase, -, attempt, loop, dropped, hrun, hend⟩ := step_attempt h
    have hloop := hattempt dial now rfl attempt loop dropped hrun
    rcases hend with ⟨-, rfl⟩ | rfl
    · intro socket hsocket
      exact hsame { loop with socket } _ _ loop.channels (hloop socket hsocket)
    · simpa [connection, hphase] using hloop
  | enter =>
    obtain ⟨hphase, socket, hsocket, rfl⟩ := step_enter h
    rintro socket' ⟨⟩
    have hI : I { self.loop with socket } := hself socket (by simp [connection, hphase, hsocket])
    exact hsame { self.loop with socket } none self.loop.statuses self.loop.channels hI
  | read =>
    exact hbranch h fun _ rxCursor hphase => hread rxCursor _ (hdriving hphase)
  | handle now =>
    exact hbranch h fun _ _ received _ hphase => hhandle now rfl received _ (hdriving hphase)
  | request request now =>
    exact hbranch h fun _ _ hphase => hrequest request now rfl _ (hdriving hphase)
  | tick now =>
    exact hbranch h fun _ _ hphase => htick now rfl _ (hdriving hphase)
  | arrive segment =>
    obtain ⟨socket, rxCursor, received, hphase, rfl⟩ := step_arrive h
    rintro socket' ⟨⟩
    exact harrive { self.loop with socket } _ (hdriving hphase)
  | channels w =>
    cases h
    intro socket hsocket
    exact hsame { self.loop with socket } _ _ w (hself socket hsocket)

/-- What holds of the loop and of all transports holds after an event, if every branch keeps it, an
attempt to connect establishes it, and the fields that `run` itself sets do not matter for it. -/
theorem connections_step {event : Event E R S W} {L : EventLoop E R S W maxPacketSize → Prop}
    {T : Socket E → Prop} (h : self.step ch order event = some t) (hloop : L self.loop)
    (hsockets : ∀ socket ∈ self.connections, T socket)
    (hsame : ∀ loop transport statuses channels, L loop → L { loop with transport, statuses, channels })
    (harrive : ∀ socket incoming, T socket → T { socket with incoming })
    (hattempt : ∀ dial now, event = .attempt dial now → self.loop.transport = none →
      ∀ attempt loop dropped,
        self.loop.connectAttempt order (dial.map Socket.opened) now = some (attempt, loop, dropped) →
          L loop ∧ (∀ socket ∈ dropped, T socket) ∧ ∀ socket ∈ loop.transport, T socket)
    (hread : ∀ rxCursor,
      Preserves (fun c => L c.toEventLoop ∧ T c.socket) (EventLoop.receiveFrames rxCursor))
    (hhandle : ∀ now, event = .handle now → ∀ received,
      Preserves (fun c => L c.toEventLoop ∧ T c.socket) (EventLoop.handle ch now received))
    (hrequest : ∀ request now, event = .request request now →
      Preserves (fun c => L c.toEventLoop ∧ T c.socket) (EventLoop.driveRequest request now))
    (htick : ∀ now, event = .tick now →
      Preserves (fun c => L c.toEventLoop ∧ T c.socket) (EventLoop.driveTick now)) :
    L t.loop ∧ ∀ socket ∈ t.connections, T socket := by
  have hdropped : ∀ socket ∈ self.dropped, T socket :=
    fun socket hsocket => hsockets socket (List.mem_append_left _ hsocket)
  have hcurrent {socket : Socket E} {rxCursor : ℕ} {received : List Received}
      (hphase : self.phase = .driving socket rxCursor received) : L self.loop ∧ T socket :=
    ⟨hloop, hsockets socket (by simp [connections, hphase])⟩
  have hall {c : Conn E R S W maxPacketSize} (hc : T c.socket) :
      ∀ socket ∈ self.dropped ++ [c.socket], T socket := by
    simpa [or_imp, forall_and] using ⟨hdropped, hc⟩
  have hgoOn {c : Conn E R S W maxPacketSize} (hc : L c.toEventLoop ∧ T c.socket) (rxCursor : ℕ)
      (received : List Received) : L (self.goOn rxCursor received c).loop ∧
        ∀ socket ∈ (self.goOn rxCursor received c).connections, T socket := by
    rw [connections_goOn]
    exact ⟨hc.1, hall hc.2⟩
  have hdriven {c : Conn E R S W maxPacketSize} (hc : L c.toEventLoop ∧ T c.socket)
      (result : Except (ClientError E) Unit) : L (self.driven result c).loop ∧
        ∀ socket ∈ (self.driven result c).connections, T socket := by
    obtain ⟨transport, statuses, hkept⟩ := self.loop_driven result c
    rw [connections_driven, hkept]
    exact ⟨hsame _ transport statuses c.channels hc.1, hall hc.2⟩
  have hbranch {event : Event E R S W} (h : self.step ch order event = some t)
      (hends : self.BranchEnds ch (fun c => L c.toEventLoop ∧ T c.socket) event) :
      L t.loop ∧ ∀ socket ∈ t.connections, T socket :=
    branch_step (Q := fun t => L t.loop ∧ ∀ socket ∈ t.connections, T socket) h hends
      (fun _ rxCursor received hc => hgoOn hc rxCursor received)
      fun _ result hc => hdriven hc result
  cases event with
  | attempt dial now =>
    obtain ⟨hphase, hnone, attempt, loop, socket, hrun, hend⟩ := step_attempt h
    obtain ⟨hL, hsocket, htransport⟩ := hattempt dial now rfl hnone attempt loop socket hrun
    have hall : ∀ t ∈ self.dropped ++ socket.toList ++ loop.transport.toList, T t := by
      simpa [or_imp, forall_and, and_assoc] using ⟨hdropped, hsocket, htransport⟩
    rcases hend with ⟨-, rfl⟩ | rfl
    · exact ⟨hsame loop loop.transport _ loop.channels hL, hall⟩
    · exact ⟨hL, by simpa [connections, hphase] using hall⟩
  | enter =>
    obtain ⟨hphase, socket, hsocket, rfl⟩ := step_enter h
    exact ⟨hsame self.loop none self.loop.statuses self.loop.channels hloop,
      by simpa [connections, hphase, hsocket] using hsockets⟩
  | read =>
    exact hbranch h fun _ rxCursor hphase => hread rxCursor _ (hcurrent hphase)
  | handle now =>
    exact hbranch h fun _ _ received _ hphase => hhandle now rfl received _ (hcurrent hphase)
  | request request now =>
    exact hbranch h fun _ _ hphase => hrequest request now rfl _ (hcurrent hphase)
  | tick now =>
    exact hbranch h fun _ _ hphase => htick now rfl _ (hcurrent hphase)
  | arrive segment =>
    obtain ⟨socket, rxCursor, received, hphase, rfl⟩ := step_arrive h
    exact ⟨hloop, hall (c := { self.loop with
      socket := { socket with incoming := socket.incoming ++ [segment] } })
      (harrive socket _ (hcurrent hphase).2)⟩
  | channels w =>
    cases h
    exact ⟨hsame self.loop self.loop.transport self.loop.statuses w hloop, hsockets⟩

/-- After `run` has returned, only the streams change. -/
theorem step_stopped {event : Event E R S W} (hphase : self.phase = .stopped)
    (h : self.step ch order event = some t) :
    ∃ w, t = { self with loop := { self.loop with channels := w } } := by
  cases event with
  | channels w => exact ⟨w, (Option.some.inj h).symm⟩
  | _ => simp [step, hphase] at h

end

/-! ## Runs -/

/-- Runs in which every event meets a condition on the state before it. -/
def Runs (ok : LoopSystem E R S W maxPacketSize → Event E R S W → Prop) :
    LoopSystem E R S W maxPacketSize → LoopSystem E R S W maxPacketSize → Prop :=
  Relation.ReflTransGen fun s t => ∃ event, ok s event ∧ s.step ch order event = some t

/-- The end of a list of events, if each of them meets the condition and can happen. -/
def run (ok : LoopSystem E R S W maxPacketSize → Event E R S W → Prop)
    [∀ s event, Decidable (ok s event)] (events : List (Event E R S W))
    (s : LoopSystem E R S W maxPacketSize) : Option (LoopSystem E R S W maxPacketSize) :=
  events.foldlM (fun s event => if ok s event then s.step ch order event else none) s

variable {ch order}

theorem runs_of_run {ok : LoopSystem E R S W maxPacketSize → Event E R S W → Prop}
    [∀ s event, Decidable (ok s event)] {events : List (Event E R S W)}
    {s t : LoopSystem E R S W maxPacketSize} (h : run ch order ok events s = some t) :
    Runs ch order ok s t :=
  Machine.reaches_of_replay h

/-- What holds at the start and every step of a run keeps holds at its end. -/
theorem Runs.invariant {ok : LoopSystem E R S W maxPacketSize → Event E R S W → Prop}
    {I : LoopSystem E R S W maxPacketSize → Prop} {s t : LoopSystem E R S W maxPacketSize}
    (h : Runs ch order ok s t) (hs : I s)
    (hstep : ∀ s t event, I s → ok s event → s.step ch order event = some t → I t) : I t :=
  Machine.Reaches.invariant h hs hstep

/-! ## Steps of a run -/

/-- The packet that an event acts on. -/
def acting (self : LoopSystem E R S W maxPacketSize) : Event E R S W → Option MqttPacket
  | .handle _ => self.phase.received.head?.map (·.packet)
  | _ => none

/-- A step of a run. -/
structure Step (E R S W : Type) (maxPacketSize : ℕ) where
  before : LoopSystem E R S W maxPacketSize
  event : Event E R S W
  after : LoopSystem E R S W maxPacketSize

variable (ch order)

/-- Runs with their steps. -/
inductive Traced (s₀ : LoopSystem E R S W maxPacketSize) :
    List (Step E R S W maxPacketSize) → LoopSystem E R S W maxPacketSize → Prop
  | start : Traced s₀ [] s₀
  | step {steps : List (Step E R S W maxPacketSize)} {s t : LoopSystem E R S W maxPacketSize}
      {event : Event E R S W} (h : Traced s₀ steps s) (hstep : s.step ch order event = some t) :
      Traced s₀ (steps ++ [⟨s, event, t⟩]) t

/-- The steps of a list of events, if each of them can happen, and their end. -/
def runTraced (events : List (Event E R S W)) (s : LoopSystem E R S W maxPacketSize) :
    Option (List (Step E R S W maxPacketSize) × LoopSystem E R S W maxPacketSize) :=
  events.foldlM (fun (steps, s) event =>
    (s.step ch order event).map fun t => (steps ++ [⟨s, event, t⟩], t)) ([], s)

variable {ch order}

theorem traced_of_runTraced {events : List (Event E R S W)} {s t : LoopSystem E R S W maxPacketSize}
    {steps : List (Step E R S W maxPacketSize)} (h : runTraced ch order events s = some (steps, t)) :
    Traced ch order s steps t := by
  refine Machine.foldlM_invariant (I := fun x => Traced ch order s x.1 x.2) h .start ?_
  rintro ⟨steps₁, s₁⟩ ⟨steps₂, s₂⟩ event hrun hevent
  obtain ⟨t, hstep, heq⟩ := Option.map_eq_some_iff.mp hevent
  cases heq
  exact hrun.step hstep

/-- Every step of a run can happen. -/
theorem Traced.step_of_mem {s₀ s : LoopSystem E R S W maxPacketSize}
    {steps : List (Step E R S W maxPacketSize)} (h : Traced ch order s₀ steps s)
    {x : Step E R S W maxPacketSize} (hx : x ∈ steps) :
    x.before.step ch order x.event = some x.after := by
  induction h with
  | start => simp at hx
  | step _ hstep ih =>
    rcases List.mem_append.mp hx with hx | hx
    · exact ih hx
    · rw [List.mem_singleton] at hx
      rw [hx]
      exact hstep

theorem Traced.runs {s₀ s : LoopSystem E R S W maxPacketSize}
    {steps : List (Step E R S W maxPacketSize)} (h : Traced ch order s₀ steps s) :
    Runs ch order (fun _ _ => True) s₀ s := by
  induction h with
  | start => exact .refl
  | step _ hstep ih => exact ih.tail ⟨_, trivial, hstep⟩

/-- A step of a run comes after a run. -/
theorem Traced.runs_before {s₀ s : LoopSystem E R S W maxPacketSize}
    {steps : List (Step E R S W maxPacketSize)} (h : Traced ch order s₀ steps s)
    {x : Step E R S W maxPacketSize} (hx : x ∈ steps) :
    Runs ch order (fun _ _ => True) s₀ x.before := by
  induction h with
  | start => simp at hx
  | step hrun _ ih =>
    rcases List.mem_append.mp hx with hx | hx
    · exact ih hx
    · rw [List.mem_singleton] at hx
      rw [hx]
      exact hrun.runs

/-! ## A run -/

/-- Hash maps that yield their entries in the order in which they are listed. -/
def listed : HashOrder := ⟨fun l => l, fun l => .refl l⟩

/-- `run` on a new loop, with streams of 128 places. -/
def fresh : LoopSystem Unit ℕ ℕ (ℕ → Queue PublishMessage) 64 :=
  start (.new "c" fun _ => 0) (fun _ => ⟨false, [], 128⟩) 0

/-- A broker that accepts the connection. -/
def accepting : Socket Unit := .sending [[0x20, 2, 0, 0]]

/-- It connects, and then the broker sends these segments. -/
def connecting (segments : List (List UInt8)) :
    List (Event Unit ℕ ℕ (ℕ → Queue PublishMessage)) :=
  [.attempt (.ok (.sending ([0x20, 2, 0, 0] :: segments))) 0, .enter]

end LoopSystem

end MqttEngine.Tokio
