import MqttEngine.Lib.IdleTimer
import MqttEngine.Tokio.Stamps

/-!
# The keep-alive of a connection

A broker drops a client from which it has heard nothing for one and a half keep-alive intervals.
The timer of `drive_connection` ticks once in an interval, and sends a PINGREQ if nothing has been
written for a whole one. A run is put on a clock (`Timed`): operations take no time, the timer is
never late, and between operations any time may pass up to its next tick. `IdleTimer` says what
follows: the promise is kept as long as no tick passes over what was written in the first half of
the interval before it. After a tick that does, the PINGREQ of the next one would come too late,
unless more is written before.

## Main definitions

* `Timed`, `Timed.step` — runs with a clock.
* `Timed.Punctual` — the broker has heard of the client recently enough.
* `Timed.Spared` — no tick passes over what is more than half an interval old.

## Main results

* `sound_step`, `kept_step` — the timer of a run.
* `idle_lt_of_reaches` — the broker hears of the client within two intervals in any run.
* `punctual_waits_iff` — what it takes to keep the promise up to the next tick.
* `punctual_of_reaches` — when the broker always hears of the client in time.
-/

namespace MqttEngine.Tokio
open Checked Conn EventLoop

/-! ## Runs on a clock -/

/-- What happens: time passes, or there is an event. -/
inductive Action (E R S W : Type)
  | wait (d : ℕ)
  | event (event : Event E R S W)

/-- The loop, its clock and its timer, and when it has last written something. -/
structure Timed (E R S W : Type) (maxPacketSize : ℕ) where
  system : LoopSystem E R S W maxPacketSize
  timer : IdleTimer
  /-- There are no requesters any more, and the client has said goodbye. -/
  leaving : Bool

namespace Timed
variable {E R S W : Type} {maxPacketSize : ℕ}

/-- A new loop, at the instant `now`. -/
def start (options : ClientOptions) (channels : W) (now : ℕ) : Timed E R S W maxPacketSize :=
  { system := .start options channels now, timer := ⟨now, 0, now, now⟩, leaving := false }

/-- The keep-alive interval. -/
def period (self : Timed E R S W maxPacketSize) : ℕ := self.system.loop.options.keepAlive

/-- The bytes that have been written on the current connection. -/
def written (self : Timed E R S W maxPacketSize) : Option (List (List UInt8)) :=
  self.system.connection.map (·.written)

/-- Events take place at the present moment, and the timer ticks when it is time. -/
def Due (self : Timed E R S W maxPacketSize) : Event E R S W → Prop
  | .attempt _ now | .handle now | .request _ now => now = self.timer.clock
  | .tick now => now = self.timer.clock ∧ self.timer.clock = self.timer.next self.period
  | .enter | .read | .arrive _ | .channels _ => True

instance (self : Timed E R S W maxPacketSize) (event : Event E R S W) :
    Decidable (self.Due event) := by
  unfold Due
  split <;> infer_instance

/-- The timer, once it is known what has been written. -/
def touched (self : Timed E R S W maxPacketSize) (system : LoopSystem E R S W maxPacketSize) :
    IdleTimer :=
  if system.connection.map (·.written) = self.written then self.timer
  else { self.timer with last := self.timer.clock }

/-- The clock and the timer after an event. -/
def after (self : Timed E R S W maxPacketSize) (event : Event E R S W)
    (system : LoopSystem E R S W maxPacketSize) : Timed E R S W maxPacketSize :=
  let timer := self.touched system
  match event with
  | .attempt _ _ => { system, timer, leaving := false }
  | .enter => { self with system, timer := { timer with start := timer.clock, fired := 0 } }
  | .tick _ => { self with system, timer := { timer with fired := timer.fired + 1 } }
  | .request none _ => { system, timer, leaving := true }
  | _ => { self with system, timer }

/-- Time passes, but not while there is something to do: `drive_connection` is called as soon as
there is a connection, and its timer is not late. -/
def waits (self : Timed E R S W maxPacketSize) (d : ℕ) : Bool :=
  match self.system.phase with
  | .idle => self.system.loop.transport.isNone
  | .driving _ _ _ => self.timer.clock + d ≤ self.timer.next self.period
  | .stopped => true

variable [DecidableEq S] (ch : Mpsc W S PublishMessage) (order : HashOrder)

def step (self : Timed E R S W maxPacketSize) :
    Action E R S W → Option (Timed E R S W maxPacketSize)
  | .wait d =>
    if self.waits d then
      some { self with timer := { self.timer with clock := self.timer.clock + d } }
    else none
  | .event event =>
    if self.Due event then (self.system.step ch order event).map (self.after event) else none

/-- A connection is driven, and the client has not said goodbye. -/
def live (self : Timed E R S W maxPacketSize) : Bool :=
  match self.system.phase with
  | .driving _ _ _ => !self.leaving
  | _ => false

/-- On a live connection the client has written something within one and a half intervals. -/
def Punctual (self : Timed E R S W maxPacketSize) : Prop :=
  self.live → 2 * self.timer.idle ≤ 3 * self.period

/-- At a tick the client has written something at most half an interval ago, or not for a whole one:
the tick passes over nothing that was written in the first half of the interval before it. -/
def Spared (self : Timed E R S W maxPacketSize) : Action E R S W → Prop
  | .event (.tick _) => self.live → ¬ self.timer.PassedOver self.period
  | _ => True

instance (self : Timed E R S W maxPacketSize) (action : Action E R S W) :
    Decidable (self.Spared action) := by
  unfold Spared
  split <;> infer_instance

/-! ## What always holds -/

/-- The timer of a live connection is sound, and `last_tx` is not ahead of what has been written. -/
structure Sound (t : Timed E R S W maxPacketSize) : Prop where
  lastTx_le : t.system.loop.lastTx ≤ t.timer.clock
  /-- A connection that has been made has just been written on. -/
  ready : t.system.phase = .idle → t.system.loop.transport ≠ none → t.leaving = false →
    t.timer.last = t.timer.clock
  sound : t.live → t.timer.Sound t.period ∧ t.system.loop.lastTx ≤ t.timer.last

variable {ch order} {t : Timed E R S W maxPacketSize} {system : LoopSystem E R S W maxPacketSize}
  {event : Event E R S W}

omit [DecidableEq S] in
@[simp] theorem clock_touched : (t.touched system).clock = t.timer.clock := by
  unfold touched
  split <;> rfl

omit [DecidableEq S] in
@[simp] theorem clock_after : (t.after event system).timer.clock = t.timer.clock := by
  cases event with
  | request request now => cases request <;> simp [after]
  | _ => simp [after]

omit [DecidableEq S] in
@[simp] theorem system_after : (t.after event system).system = system := by
  cases event with
  | request request now => cases request <;> rfl
  | _ => rfl

/-- An event does not stamp the future. -/
theorem lastTx_le_step (h : t.system.step ch order event = some system) (hdue : t.Due event)
    (hlast : t.system.loop.lastTx ≤ t.timer.clock) : system.loop.lastTx ≤ t.timer.clock := by
  have hstamps {α : Type} {now : ℕ} {x : ConnM E R S W maxPacketSize α} (hnow : now = t.timer.clock)
      (hx : ∀ s₀, Preserves (Stamps now s₀) x) (socket : Socket E) :
      Ends x { t.system.loop with socket } (fun _ c => c.toEventLoop.lastTx ≤ t.timer.clock)
        fun _ c => c.toEventLoop.lastTx ≤ t.timer.clock := by
    subst hnow
    exact preserves_of_stamps (fun _ _ hs h => h.lastTx_le hs) hx _ hlast
  apply LoopSystem.loop_step (Q := fun loop => loop.lastTx ≤ t.timer.clock) h
  · exact fun _ _ _ h => h
  · cases event with
    | attempt dial now =>
      obtain rfl : now = t.timer.clock := hdue
      intro attempt loop socket hattempt
      exact lastTx_connectAttempt hlast hattempt
    | read =>
      exact fun socket rxCursor _ => hstamps rfl (fun _ => stamps_receiveFrames rxCursor) socket
    | handle now =>
      exact fun socket _ received _ _ => hstamps hdue (fun _ => stamps_handle ch received) socket
    | request request now =>
      exact fun socket _ _ => hstamps hdue (fun _ => stamps_driveRequest request) socket
    | tick now => exact fun socket _ _ => hstamps hdue.1 (fun _ => stamps_driveTick) socket
    | enter => exact hlast
    | arrive segment => exact hlast
    | channels w => exact hlast

/-- On a connection that goes on, an event only stamps. -/
theorem stamps_step (h : t.system.step ch order event = some system) (hdue : t.Due event)
    {socket : Socket E} (hsocket : t.system.connection = some socket) :
    ∀ socket' ∈ system.connection,
      Stamps t.timer.clock ({ t.system.loop with socket } : Conn E R S W maxPacketSize)
        { system.loop with socket := socket' } := by
  refine LoopSystem.connection_step h ?_ (fun _ _ _ _ hc => hc.congr rfl rfl rfl)
    (fun _ _ hc => hc.congr rfl rfl rfl) ?_ stamps_receiveFrames ?_ ?_ ?_
  · rw [hsocket]
    rintro socket' ⟨⟩
    exact .refl
  · rintro dial now rfl
    obtain ⟨hphase, htransport, -⟩ := LoopSystem.step_attempt h
    simp [LoopSystem.connection, hphase, htransport] at hsocket
  · rintro now rfl received
    obtain rfl : now = t.timer.clock := hdue
    exact stamps_handle ch received
  · rintro request now rfl
    obtain rfl : now = t.timer.clock := hdue
    exact stamps_driveRequest request
  · rintro now rfl
    obtain rfl : now = t.timer.clock := hdue.1
    exact stamps_driveTick

omit [DecidableEq S] in
theorem live_iff : t.live ↔
    (∃ socket rxCursor received, t.system.phase = .driving socket rxCursor received) ∧
      t.leaving = false := by
  rw [live]
  cases hphase : t.system.phase <;> simp

omit [DecidableEq S] in
/-- Something has been written, or the timer is as it was. -/
theorem touched_last (hwritten : system.connection.map (·.written) ≠ t.written) :
    (t.touched system).last = t.timer.clock := by
  simp [touched, hwritten]

variable (system) in
omit [DecidableEq S] in
theorem last_le_touched (h : t.timer.last ≤ t.timer.clock) :
    t.timer.last ≤ (t.touched system).last := by
  unfold touched
  split
  · exact le_rfl
  · exact h

omit [DecidableEq S] in
@[simp] theorem next_touched : (t.touched system).next t.period = t.timer.next t.period := by
  unfold touched
  split <;> rfl

/-- An event on a live connection keeps the timer sound, if the connection goes on. -/
theorem sound_going (h : t.Sound) (hlive : t.live)
    (hstep : t.system.step ch order event = some system) (hdue : t.Due event) {socket : Socket E}
    {rxCursor : ℕ} {received : List Received}
    (hphase : system.phase = .driving socket rxCursor received) :
    system.loop.options = t.system.loop.options ∧ (t.touched system).Sound t.period ∧
      system.loop.lastTx ≤ (t.touched system).last := by
  obtain ⟨hsound, hlast⟩ := h.sound hlive
  obtain ⟨⟨socket₀, rxCursor₀, received₀, hphase₀⟩, -⟩ := live_iff.mp hlive
  have hsocket₀ : t.system.connection = some socket₀ := by simp [LoopSystem.connection, hphase₀]
  have hsocket : system.connection = some socket := by simp [LoopSystem.connection, hphase]
  have hstamps := stamps_step hstep hdue hsocket₀ socket hsocket
  refine ⟨hstamps.options, ?_, ?_⟩
  · unfold touched
    split
    · exact hsound
    · exact hsound.touch
  · rcases hstamps.stamp with hsame | ⟨hnow, hwritten⟩
    · calc system.loop.lastTx = t.system.loop.lastTx := hsame
        _ ≤ t.timer.last := hlast
        _ ≤ (t.touched system).last := last_le_touched system hsound.last_le
    · have hlast : (t.touched system).last = t.timer.clock :=
        touched_last (by simpa [written, hsocket₀, hsocket] using hwritten)
      exact (hnow.trans hlast.symm).le

/-- A tick finds that what has been written last is young enough, or writes. -/
theorem young_tick (h : t.Sound) (hlive : t.live) {now : ℕ}
    (hstep : t.system.step ch order (.tick now) = some system) (hdue : t.Due (.tick now))
    {socket : Socket E} {rxCursor : ℕ} {received : List Received}
    (hphase : system.phase = .driving socket rxCursor received) :
    t.timer.clock < (t.touched system).last + t.period := by
  obtain ⟨hsound, hlast⟩ := h.sound hlive
  obtain rfl : now = t.timer.clock := hdue.1
  obtain ⟨socket₀, rxCursor₀, hphase₀, ⟨c, hrun, rfl⟩ | ⟨e, c, hrun, rfl⟩⟩ :=
    LoopSystem.step_tick hstep
  · rcases ((ends_driveTick .refl).ok_of hrun).2 with hyoung | hwritten
    · have hle : t.timer.last ≤ (t.touched (t.system.goOn rxCursor₀ [] c)).last :=
        last_le_touched _ hsound.last_le
      have hyoung : t.timer.clock < t.system.loop.lastTx + t.period := hyoung
      omega
    · have hnow : (t.touched (t.system.goOn rxCursor₀ [] c)).last = t.timer.clock := by
        apply touched_last
        simpa [written, LoopSystem.connection, LoopSystem.goOn, hphase₀] using hwritten
      have hpos := hsound.pos
      omega
  · rcases t.system.phase_driven_error e c with hphase' | ⟨hphase', -⟩
    all_goals
      rw [hphase] at hphase'
      cases hphase'

/-- A connection that is waiting to be driven has just been made, whatever the event. -/
theorem ready_after (h : t.Sound) (hstep : t.system.step ch order event = some system)
    (hphase : (t.after event system).system.phase = .idle)
    (htransport : (t.after event system).system.loop.transport ≠ none)
    (hleaving : (t.after event system).leaving = false) :
    (t.after event system).timer.last = (t.after event system).timer.clock := by
  simp only [system_after] at hphase htransport
  have herror (e : ClientError E) (c : Conn E R S W maxPacketSize)
      (hsystem : system = t.system.driven (.error e) c) : False := by
    subst hsystem
    rcases t.system.phase_driven_error e c with hstopped | ⟨-, hnone⟩
    · rw [hphase] at hstopped
      cases hstopped
    · exact htransport hnone
  have hgoOn (rxCursor : ℕ) (received : List Received) (c : Conn E R S W maxPacketSize)
      (hsystem : system = t.system.goOn rxCursor received c) : False := by
    subst hsystem
    cases hphase
  cases event with
  | attempt dial now =>
    obtain ⟨hidle, hnone, -⟩ := LoopSystem.step_attempt hstep
    have hwritten : system.connection.map (·.written) ≠ t.written := by
      simpa [written, LoopSystem.connection, hidle, hnone, hphase] using htransport
    simp [after, touched_last hwritten]
  | enter =>
    obtain ⟨-, socket, -, rfl⟩ := LoopSystem.step_enter hstep
    cases hphase
  | read =>
    obtain ⟨socket, rxCursor, -, ⟨received, left, c, -, hend⟩ | ⟨e, c, -, hend⟩⟩ :=
      LoopSystem.step_read hstep
    · exact (hgoOn _ _ _ hend).elim
    · exact (herror _ _ hend).elim
  | handle now =>
    obtain ⟨socket, rxCursor, received, later, -, ⟨c, -, hend⟩ | ⟨e, c, -, hend⟩⟩ :=
      LoopSystem.step_handle hstep
    · exact (hgoOn _ _ _ hend).elim
    · exact (herror _ _ hend).elim
  | request request now =>
    cases request with
    | none => cases hleaving
    | some request =>
      obtain ⟨socket, rxCursor, -, ⟨more, c, hrun, hend⟩ | ⟨e, c, -, hend⟩⟩ :=
        LoopSystem.step_request hstep
      · have hmore : Ends (EventLoop.driveRequest (some request) now) { t.system.loop with socket }
            (fun more _ => more = true) fun _ _ => True := by
          exact Ends.bind (Ends.trivial.mono (fun _ _ _ => rfl) fun _ _ h => h)
        have htrue : more = true := hmore.ok_of hrun
        rw [htrue] at hend
        exact (hgoOn _ _ _ hend).elim
      · exact (herror _ _ hend).elim
  | tick now =>
    obtain ⟨socket, rxCursor, -, ⟨c, -, hend⟩ | ⟨e, c, -, hend⟩⟩ := LoopSystem.step_tick hstep
    · exact (hgoOn _ _ _ hend).elim
    · exact (herror _ _ hend).elim
  | arrive segment =>
    obtain ⟨socket, rxCursor, received, -, rfl⟩ := LoopSystem.step_arrive hstep
    cases hphase
  | channels w =>
    cases hstep
    have hsame : t.touched { t.system with loop := { t.system.loop with channels := w } } = t.timer := by
      simp [touched, written, LoopSystem.connection]
    have hlast := h.ready hphase htransport hleaving
    simpa [after, hsame] using hlast

/-- A connection is live because it goes on, or because it is entered. -/
theorem live_of_after (hstep : t.system.step ch order event = some system)
    (hlive : (t.after event system).live) : t.live ∨ event = .enter := by
  obtain ⟨⟨socket, rxCursor, received, hphase⟩, hleaving⟩ := live_iff.mp hlive
  rw [system_after] at hphase
  have hstay (hdriving : ∃ socket rxCursor received,
      t.system.phase = .driving socket rxCursor received) (hleaving : t.leaving = false) :
      t.live ∨ event = .enter :=
    .inl (live_iff.mpr ⟨hdriving, hleaving⟩)
  cases event with
  | attempt dial now =>
    obtain ⟨hidle, -, attempt, loop, dropped, -, ⟨-, rfl⟩ | rfl⟩ := LoopSystem.step_attempt hstep
    · cases hphase
    · rw [show _ = Phase.idle from hidle] at hphase
      cases hphase
  | enter => exact .inr rfl
  | read =>
    obtain ⟨socket', rxCursor', hdriving, -⟩ := LoopSystem.step_read hstep
    exact hstay ⟨_, _, _, hdriving⟩ hleaving
  | handle now =>
    obtain ⟨socket', rxCursor', received', later, hdriving, -⟩ := LoopSystem.step_handle hstep
    exact hstay ⟨_, _, _, hdriving⟩ hleaving
  | request request now =>
    cases request with
    | none => cases hleaving
    | some request =>
      obtain ⟨socket', rxCursor', hdriving, -⟩ := LoopSystem.step_request hstep
      exact hstay ⟨_, _, _, hdriving⟩ hleaving
  | tick now =>
    obtain ⟨socket', rxCursor', hdriving, -⟩ := LoopSystem.step_tick hstep
    exact hstay ⟨_, _, _, hdriving⟩ hleaving
  | arrive segment =>
    obtain ⟨socket', rxCursor', received', hdriving, -⟩ := LoopSystem.step_arrive hstep
    exact hstay ⟨_, _, _, hdriving⟩ hleaving
  | channels w =>
    cases hstep
    exact hstay ⟨_, _, _, hphase⟩ hleaving

/-- Nothing is written when a connection is entered. -/
theorem touched_enter (hstep : t.system.step ch order .enter = some system) :
    t.touched system = t.timer := by
  obtain ⟨hidle, socket, hsocket, rfl⟩ := LoopSystem.step_enter hstep
  simp [touched, written, LoopSystem.connection, hidle, hsocket]

/-- The timer of a connection that is entered. -/
theorem sound_enter (h : t.Sound) (hstep : t.system.step ch order .enter = some system)
    (hleaving : t.leaving = false) :
    (t.after .enter system).timer.Sound (t.after .enter system).period ∧
      system.loop.lastTx ≤ (t.after .enter system).timer.last ∧
      (t.after .enter system).timer.last = t.timer.clock := by
  have hpos := LoopSystem.keepAlive_of_enter hstep
  obtain ⟨hidle, socket, hsocket, rfl⟩ := LoopSystem.step_enter hstep
  have hlast := h.ready hidle (by simp [hsocket]) hleaving
  have hle := h.lastTx_le
  simp only [after, touched_enter hstep]
  exact ⟨IdleTimer.sound_restart (Nat.pos_of_ne_zero hpos) hlast, hlast ▸ hle, hlast⟩

/-- The timer of a connection that goes on is sound, whatever the event. -/
theorem sound_after (h : t.Sound) (hstep : t.system.step ch order event = some system)
    (hdue : t.Due event) (hlive : (t.after event system).live) :
    (t.after event system).timer.Sound (t.after event system).period ∧
      (t.after event system).system.loop.lastTx ≤ (t.after event system).timer.last := by
  obtain ⟨⟨socket, rxCursor, received, hphase⟩, hleaving⟩ := live_iff.mp hlive
  rw [system_after] at hphase ⊢
  rcases live_of_after hstep hlive with hbefore | rfl
  · obtain ⟨hoptions, hsound, hlast⟩ := sound_going h hbefore hstep hdue hphase
    rw [period, system_after, hoptions]
    cases event with
    | tick now =>
      have hyoung := young_tick h hbefore hstep hdue hphase
      have hclock : t.timer.clock = t.timer.next t.period := hdue.2
      exact ⟨hsound.tick (by simpa using hclock) (by simpa using hyoung), hlast⟩
    | enter =>
      obtain ⟨⟨_, _, _, hdriving⟩, -⟩ := live_iff.mp hbefore
      simp [(LoopSystem.step_enter hstep).1] at hdriving
    | request request now => cases request <;> exact ⟨hsound, hlast⟩
    | _ => exact ⟨hsound, hlast⟩
  · obtain ⟨hsound, hlast, -⟩ := sound_enter h hstep hleaving
    exact ⟨hsound, hlast⟩

/-- What happens keeps the timer sound. -/
theorem sound_step {t' : Timed E R S W maxPacketSize} {action : Action E R S W} (h : t.Sound)
    (hstep : t.step ch order action = some t') : t'.Sound := by
  cases action with
  | wait d =>
    rw [step] at hstep
    split at hstep
    · rename_i hwaits
      cases hstep
      refine ⟨h.lastTx_le.trans (Nat.le_add_right _ _), ?_, ?_⟩
      · intro hphase htransport _
        have hnone : t.system.loop.transport = none := by
          simpa [waits, show t.system.phase = .idle from hphase] using hwaits
        exact absurd hnone htransport
      · intro hlive
        obtain ⟨hsound, hlast⟩ := h.sound hlive
        obtain ⟨⟨socket, rxCursor, received, hphase⟩, -⟩ := live_iff.mp hlive
        have hphase : t.system.phase = .driving socket rxCursor received := hphase
        have hnext : t.timer.clock + d ≤ t.timer.next t.period := by
          simpa [waits, hphase] using hwaits
        exact ⟨hsound.wait hnext, hlast⟩
    · cases hstep
  | event event =>
    rw [step] at hstep
    split at hstep
    · rename_i hdue
      obtain ⟨system, hsystem, rfl⟩ := Option.map_eq_some_iff.mp hstep
      refine ⟨?_, ready_after h hsystem, sound_after h hsystem hdue⟩
      simpa using lastTx_le_step hsystem hdue h.lastTx_le
    · cases hstep

omit [DecidableEq S] in
theorem sound_start {options : ClientOptions} {channels : W} {now : ℕ} :
    (start options channels now : Timed E R S W maxPacketSize).Sound :=
  ⟨le_rfl, fun _ _ _ => rfl, fun hlive => by cases hlive⟩

theorem sound_of_reaches {options : ClientOptions} {channels : W} {now : ℕ}
    {ok : Timed E R S W maxPacketSize → Action E R S W → Prop}
    (h : Machine.Reaches (step ch order) ok (start options channels now) t) : t.Sound :=
  h.invariant (I := Sound) sound_start fun _ _ _ hs _ hstep => sound_step hs hstep

/-- **In any run, two intervals never go by on a live connection.** -/
theorem idle_lt_of_reaches {options : ClientOptions} {channels : W} {now : ℕ}
    (h : Machine.Reaches (step ch order) (fun _ _ => True) (start options channels now) t)
    (hlive : t.live) : t.timer.idle < 2 * t.period :=
  ((sound_of_reaches h).sound hlive).1.idle_lt

/-! ## One and a half intervals -/

omit [DecidableEq S] in
theorem punctual_of_kept (h : t.Sound) (hkept : t.live → t.timer.Kept t.period) : t.Punctual :=
  fun hlive => (h.sound hlive).1.idle_le (hkept hlive)

/-- The promise is kept up to the next tick, if nothing more is written, exactly if the latest write
will not be too old then. -/
theorem punctual_waits_iff (h : t.Sound) (hlive : t.live) :
    (∀ d t', t.step ch order (.wait d) = some t' → t'.Punctual) ↔ t.timer.Kept t.period := by
  obtain ⟨hsound, -⟩ := h.sound hlive
  constructor
  · intro hall
    by_contra hlate
    obtain ⟨⟨socket, rxCursor, received, hphase⟩, -⟩ := live_iff.mp hlive
    obtain ⟨d, hd⟩ := Nat.exists_eq_add_of_le hsound.clock_le
    have hstep : t.step ch order (.wait d) =
        some { t with timer := { t.timer with clock := t.timer.clock + d } } := by
      simp [step, waits, hphase, hd]
    have hidle : 2 * (t.timer.clock + d - t.timer.last) ≤ 3 * t.period := hall d _ hstep hlive
    have hlt : 3 * t.period < 2 * (t.timer.clock + d - t.timer.last) :=
      IdleTimer.lt_idle_of_not_kept (t := { t.timer with clock := t.timer.clock + d }) hlate hd.symm
    omega
  · intro hkept d t' hstep
    have hsound' := sound_step h hstep
    rw [step] at hstep
    split at hstep
    · cases hstep
      exact punctual_of_kept hsound' fun _ => hkept
    · cases hstep

/-- An event on a live connection keeps the promise, if no tick passes over an early write. -/
theorem kept_after (h : t.Sound) (hkept : t.live → t.timer.Kept t.period)
    (hspared : t.Spared (.event event)) (hstep : t.system.step ch order event = some system)
    (hdue : t.Due event) (hlive : (t.after event system).live) :
    (t.after event system).timer.Kept (t.after event system).period := by
  obtain ⟨⟨socket, rxCursor, received, hphase⟩, hleaving⟩ := live_iff.mp hlive
  rw [system_after] at hphase
  rcases live_of_after hstep hlive with hbefore | rfl
  · have hlast := (h.sound hbefore).1.last_le
    have htouched : (t.touched system).Kept t.period := by
      unfold touched
      split
      · exact hkept hbefore
      · exact (hkept hbefore).touch hlast
    rw [period, system_after, (sound_going h hbefore hstep hdue hphase).1]
    cases event with
    | tick now =>
      have hyoung := young_tick h hbefore hstep hdue hphase
      have hclock : t.timer.clock = t.timer.next t.period := hdue.2
      have hclock' : (t.touched system).clock = (t.touched system).next t.period := by
        simpa using hclock
      refine (IdleTimer.kept_tick_iff hclock').mpr ?_
      rw [touched] at hyoung ⊢
      split
      · -- Nothing has been written, so what was written last is not a whole interval old.
        rename_i hsame
        rw [if_pos hsame] at hyoung
        have hpassed := hspared hbefore
        rw [IdleTimer.PassedOver] at hpassed
        have hidle : t.timer.idle < t.period := by
          rw [IdleTimer.idle]
          omega
        change 2 * t.timer.idle ≤ t.period
        omega
      · simp [IdleTimer.idle]
    | enter =>
      obtain ⟨⟨_, _, _, hdriving⟩, -⟩ := live_iff.mp hbefore
      simp [(LoopSystem.step_enter hstep).1] at hdriving
    | request request now => cases request <;> exact htouched
    | _ => exact htouched
  · obtain ⟨hidle, socket, hsocket, rfl⟩ := LoopSystem.step_enter hstep
    have hready := h.ready hidle (by simp [hsocket]) hleaving
    simp only [after, touched_enter hstep]
    exact IdleTimer.kept_restart hready

/-- What happens keeps the promise, if no tick passes over an early write. -/
theorem kept_step {t' : Timed E R S W maxPacketSize} {action : Action E R S W} (h : t.Sound)
    (hkept : t.live → t.timer.Kept t.period) (hspared : t.Spared action)
    (hstep : t.step ch order action = some t') : t'.live → t'.timer.Kept t'.period := by
  cases action with
  | wait d =>
    rw [step] at hstep
    split at hstep
    · cases hstep
      exact hkept
    · cases hstep
  | event event =>
    rw [step] at hstep
    split at hstep
    · rename_i hdue
      obtain ⟨system, hsystem, rfl⟩ := Option.map_eq_some_iff.mp hstep
      exact kept_after h hkept hspared hsystem hdue
    · cases hstep

/-- **On a live connection the client writes at least once in one and a half intervals, in every run
in which no tick passes over what was written in the first half of the interval before it.** -/
theorem punctual_of_reaches {options : ClientOptions} {channels : W} {now : ℕ}
    (h : Machine.Reaches (step ch order) Spared (start options channels now) t) : t.Punctual := by
  have hboth : t.Sound ∧ (t.live → t.timer.Kept t.period) := by
    apply Machine.Reaches.invariant (I := fun s => s.Sound ∧ (s.live → s.timer.Kept s.period)) h
    · exact ⟨sound_start, fun hlive => by cases hlive⟩
    rintro s s' action ⟨hsound, hkept⟩ hspared hstep
    exact ⟨sound_step hsound hstep, kept_step hsound hkept hspared hstep⟩
  exact punctual_of_kept hboth.1 hboth.2

/-! ## Two schedules -/

/-- A client connects and publishes something `d` after that. -/
def publishingAfter (d : ℕ) : List (Action Unit ℕ ℕ (ℕ → Queue PublishMessage)) :=
  [.event (.attempt (.ok LoopSystem.accepting) 0), .event .enter, .event (.tick 0), .wait d,
    .event (.request (some (.publish (.new "a" [1]) none)) d), .wait (30000000 - d),
    .event (.tick 30000000), .wait 30000000]

/-- A new client. -/
def fresh : Timed Unit ℕ ℕ (ℕ → Queue PublishMessage) 64 :=
  start (.new "c" fun _ => 0) (fun _ => ⟨false, [], 128⟩) 0

/-- What is published in the second half of an interval is followed by a PINGREQ after forty
seconds. -/
theorem punctual_sample : ∃ s : Timed Unit ℕ ℕ (ℕ → Queue PublishMessage) 64,
    s.live ∧ s.timer.idle = 40000000 ∧ s.Punctual := by
  have heval : (Machine.replay (step (.queues ℕ PublishMessage) LoopSystem.listed) Spared fresh
      (publishingAfter 20000000)).map (fun s => (s.live, s.timer.idle)) = some (true, 40000000) := by
    decide +kernel
  obtain ⟨s, hrun, hs⟩ := Option.map_eq_some_iff.mp heval
  simp only [Prod.mk.injEq] at hs
  exact ⟨s, hs.1, hs.2, punctual_of_reaches (Machine.reaches_of_replay hrun)⟩

/-- What is published one second after a tick is followed by nothing for fifty-nine seconds. -/
theorem keeps_silent : ¬ ∀ s, Machine.Reaches
    (step (.queues ℕ PublishMessage) LoopSystem.listed) (fun _ _ => True) fresh s → s.Punctual := by
  intro hall
  have heval : (Machine.replay (step (.queues ℕ PublishMessage) LoopSystem.listed)
      (fun _ _ => True) fresh (publishingAfter 1000000)).map
        (fun s => (s.live, s.timer.idle, s.period)) = some (true, 59000000, 30000000) := by
    decide +kernel
  obtain ⟨s, hrun, hs⟩ := Option.map_eq_some_iff.mp heval
  simp only [Prod.mk.injEq] at hs
  have hpunctual := hall s (Machine.reaches_of_replay hrun) hs.1
  rw [hs.2.1, hs.2.2] at hpunctual
  omega

end Timed

end MqttEngine.Tokio
