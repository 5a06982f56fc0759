import Mathlib.Logic.Basic

/-!
# The protocol state machine of the core

`transition` of `state.rs`: a pure function from the state of a connection and an event to
the next state and the action for the driver. A driver feeds it one event after another and
keeps its state when an event is refused.

The number of reconnect attempts lives in the state `reconnecting` only. It grows while the
transport is reported closed again and again in that state; a new dial gives it up, so a
transport that drops before CONNACK is counted as the first attempt again, and a dial that
fails is not accepted at all.

## Main definitions

* `transition` — the state machine.
* `steps` — the steps of a run.
* `Escalates` — failed attempts are accepted, and their numbers grow.
* `KeepsCount` — no attempt fails where the number of attempts has been given up.

## Main results

* `escalates_iff` — the numbers grow in exactly the runs that keep the count.
-/

namespace MqttEngine.Core

/-- `ProtocolError`, as far as the state machine returns it. -/
inductive ProtocolError
  | stateMismatch
  deriving DecidableEq, Repr

/-- `ConnState`. -/
inductive ConnState
  | disconnected
  | connecting
  | waitingForConnAck
  | connected
  | disconnecting
  | reconnecting (attempt : UInt32)
  deriving DecidableEq, Repr

/-- `StateEvent`. -/
inductive StateEvent
  | connectRequested
  | transportConnected
  | connAckReceived (sessionPresent : Bool)
  | connAckRejected
  | disconnectRequested
  | transportClosed
  | keepAliveExpired
  deriving DecidableEq, Repr

/-- `StateAction`. -/
inductive StateAction
  | none
  | sendConnect
  | sendPing
  | sendDisconnect
  | notifyConnected (sessionPresent : Bool)
  | notifyDisconnected
  | scheduleReconnect (attempt : UInt32)
  deriving DecidableEq, Repr

/-- `u32::MAX`. -/
def u32Max : UInt32 := 0xFFFFFFFF

/-- `attempt.saturating_add(1)`. -/
def saturatingSucc (attempt : UInt32) : UInt32 :=
  if attempt = u32Max then u32Max else attempt + 1

/-- `transition`. -/
def transition (state : ConnState) (event : StateEvent) :
    Except ProtocolError (ConnState × StateAction) :=
  match state, event with
  | .disconnected, .connectRequested => .ok (.connecting, .none)
  | .connecting, .transportConnected => .ok (.waitingForConnAck, .sendConnect)
  | .waitingForConnAck, .connAckReceived sessionPresent =>
    .ok (.connected, .notifyConnected sessionPresent)
  | .waitingForConnAck, .connAckRejected => .ok (.disconnected, .notifyDisconnected)
  | .connected, .keepAliveExpired => .ok (.connected, .sendPing)
  | .connected, .disconnectRequested => .ok (.disconnecting, .sendDisconnect)
  | .disconnecting, .transportClosed => .ok (.disconnected, .notifyDisconnected)
  | .connected, .transportClosed | .waitingForConnAck, .transportClosed =>
    .ok (.reconnecting 1, .scheduleReconnect 1)
  | .reconnecting _, .connectRequested => .ok (.connecting, .none)
  | .reconnecting attempt, .transportClosed =>
    let nextAttempt := saturatingSucc attempt
    .ok (.reconnecting nextAttempt, .scheduleReconnect nextAttempt)
  | _, _ => .error .stateMismatch

/-! ## Runs -/

/-- The state after an event; an event that is refused changes nothing. -/
def next (state : ConnState) (event : StateEvent) : ConnState :=
  match transition state event with
  | .ok (state', _) => state'
  | .error _ => state

/-- A step of a run. -/
structure Step where
  state : ConnState
  event : StateEvent
  result : Except ProtocolError (ConnState × StateAction)

/-- The steps of a run over a sequence of events. -/
def steps (state : ConnState) : List StateEvent → List Step
  | [] => []
  | event :: events =>
    { state, event, result := transition state event } :: steps (next state event) events

/-- The attempt number that a step schedules a reconnect with. -/
def Step.scheduled (step : Step) : Option UInt32 :=
  match step.result with
  | .ok (_, .scheduleReconnect attempt) => some attempt
  | _ => none

/-- The step notifies that the connection is established. -/
def Step.notifies (step : Step) : Bool :=
  match step.result with
  | .ok (_, .notifyConnected _) => true
  | _ => false

/-- The last attempt that was scheduled since the connection was established, after a step. -/
def Step.pending (last : Option UInt32) (step : Step) : Option UInt32 :=
  if step.notifies then none else step.scheduled <|> last

/-- The step reports that the transport closed before the connection was established. -/
def Step.failsAttempt (step : Step) : Prop :=
  step.event = .transportClosed ∧ (step.state = .connecting ∨ step.state = .waitingForConnAck)

instance (step : Step) : Decidable step.failsAttempt := by
  unfold Step.failsAttempt
  infer_instance

/-- The second attempt number is greater, unless the numbers are used up. -/
def Greater (first second : UInt32) : Prop := first < second ∨ (first = u32Max ∧ second = u32Max)

instance (first second : UInt32) : Decidable (Greater first second) := by
  unfold Greater
  infer_instance

/-- Each scheduled attempt has a greater number than the last one, which is forgotten when
the connection is established. -/
def Growing : Option UInt32 → List Step → Prop
  | _, [] => True
  | last, step :: rest =>
    (∀ first ∈ last, ∀ second ∈ step.scheduled, Greater first second) ∧
      Growing (step.pending last) rest

/-- A run from `disconnected`: failed attempts are accepted and schedule a reconnect, and
the attempt numbers grow. -/
def Escalates (events : List StateEvent) : Prop :=
  (∀ step ∈ steps .disconnected events, step.failsAttempt → step.scheduled.isSome) ∧
    Growing none (steps .disconnected events)

/-- The count is kept: the transport is not reported closed while connecting, nor while
waiting for CONNACK when an attempt has been scheduled since the last connection. -/
def KeepsCount : Option UInt32 → List Step → Prop
  | _, [] => True
  | last, step :: rest =>
    (step.event = .transportClosed →
      step.state ≠ .connecting ∧ (step.state = .waitingForConnAck → last = none)) ∧
      KeepsCount (step.pending last) rest

/-- A request to connect is answered: the dial fails, or the transport connects and then
CONNACK is received or the transport drops. -/
def Answered : List StateEvent → Prop
  | .transportClosed :: _ => True
  | .transportConnected :: .connAckReceived _ :: _ => True
  | .transportConnected :: .transportClosed :: _ => True
  | _ => False

/-- Every request to connect is answered. -/
def Resolved : List StateEvent → Prop
  | [] => True
  | event :: events => (event = .connectRequested → Answered events) ∧ Resolved events

/-! ## Attempt numbers -/

theorem greater_saturatingSucc (attempt : UInt32) : Greater attempt (saturatingSucc attempt) := by
  rw [Greater, saturatingSucc]
  split
  · rename_i hmax
    exact .inr ⟨hmax, rfl⟩
  · rename_i hmax
    left
    rw [UInt32.lt_iff_toNat_lt]
    have hlt := attempt.toNat_lt
    have hne : attempt.toNat ≠ 4294967295 := fun h => hmax (UInt32.toNat_inj.mp h)
    rw [UInt32.toNat_add, show (1 : UInt32).toNat = 1 from rfl]
    omega

theorem saturatingSucc_ne_zero (attempt : UInt32) : saturatingSucc attempt ≠ 0 := by
  intro h
  rcases greater_saturatingSucc attempt with hlt | ⟨_, hmax⟩
  · rw [h] at hlt
    exact UInt32.not_lt_zero hlt
  · rw [h] at hmax
    cases hmax

/-- No attempt number lies below the first one. -/
theorem not_greater_one {attempt : UInt32} (h : attempt ≠ 0) : ¬ Greater attempt 1 := by
  rintro (hlt | ⟨_, hmax⟩)
  · rw [UInt32.lt_iff_toNat_lt, show (1 : UInt32).toNat = 1 from rfl] at hlt
    exact h (UInt32.toNat_inj.mp (by simp only [UInt32.toNat_zero]; omega))
  · cases hmax

/-- What a run knows about the last scheduled attempt: it is forgotten in a connection, it
is the number in `reconnecting`, and it is never zero. -/
structure Counted (state : ConnState) (last : Option UInt32) : Prop where
  connected : state = .connected → last = none
  reconnecting : ∀ attempt, state = .reconnecting attempt → last = some attempt
  nonzero : ∀ attempt ∈ last, attempt ≠ 0

theorem counted_disconnected : Counted .disconnected none := by
  constructor <;> simp

/-! ## Steps and runs -/

/-- The step that an event makes in a state. -/
def stepOf (state : ConnState) (event : StateEvent) : Step :=
  { state, event, result := transition state event }

@[simp] theorem steps_cons (state : ConnState) (event : StateEvent) (events : List StateEvent) :
    steps state (event :: events) = stepOf state event :: steps (next state event) events := rfl

/-- A step keeps what is known about the last scheduled attempt. -/
theorem Counted.step {state : ConnState} {last : Option UInt32} (h : Counted state last)
    (event : StateEvent) : Counted (next state event) ((stepOf state event).pending last) := by
  obtain ⟨hconnected, hreconnecting, hnonzero⟩ := h
  cases state <;> cases event <;>
    constructor <;>
    simp_all [next, stepOf, Step.pending, Step.notifies, Step.scheduled, transition,
      saturatingSucc_ne_zero]

/-- One step grows the count and accepts a failed attempt, unless the count was given up. -/
theorem grows_iff {state : ConnState} {last : Option UInt32} (h : Counted state last)
    (event : StateEvent) :
    (((stepOf state event).failsAttempt → (stepOf state event).scheduled.isSome) ∧
        ∀ first ∈ last, ∀ second ∈ (stepOf state event).scheduled, Greater first second) ↔
      (event = .transportClosed →
        state ≠ .connecting ∧ (state = .waitingForConnAck → last = none)) := by
  obtain ⟨hconnected, hreconnecting, hnonzero⟩ := h
  cases event with
  | transportClosed =>
    cases state with
    | waitingForConnAck =>
      -- The count starts again at one, which is no greater than any number.
      cases last with
      | none => simp [stepOf, Step.scheduled, transition]
      | some first =>
        have hone := not_greater_one (hnonzero first rfl)
        simp [stepOf, Step.failsAttempt, Step.scheduled, transition, hone]
    | reconnecting attempt =>
      rw [hreconnecting attempt rfl]
      simp [stepOf, Step.failsAttempt, Step.scheduled, transition, greater_saturatingSucc]
    | connected =>
      rw [hconnected rfl]
      simp [stepOf, Step.failsAttempt, Step.scheduled, transition]
    | connecting => simp [stepOf, Step.failsAttempt, Step.scheduled, transition]
    | disconnected => simp [stepOf, Step.failsAttempt, Step.scheduled, transition]
    | disconnecting => simp [stepOf, Step.failsAttempt, Step.scheduled, transition]
  | connectRequested | transportConnected | connAckReceived | connAckRejected
  | disconnectRequested | keepAliveExpired =>
    cases state <;> simp [stepOf, Step.failsAttempt, Step.scheduled, transition]

theorem growing_iff {state : ConnState} {last : Option UInt32} (h : Counted state last)
    (events : List StateEvent) :
    ((∀ step ∈ steps state events, step.failsAttempt → step.scheduled.isSome) ∧
        Growing last (steps state events)) ↔ KeepsCount last (steps state events) := by
  induction events generalizing state last with
  | nil => simp [steps, Growing, KeepsCount]
  | cons event events ih =>
    have hstep := grows_iff h event
    have hrest := ih (h.step event)
    rw [steps_cons, List.forall_mem_cons, Growing, KeepsCount, ← hrest]
    simp only [stepOf] at hstep ⊢
    rw [← hstep]
    constructor
    · rintro ⟨⟨haccept, haccepts⟩, hgrow, hgrows⟩
      exact ⟨⟨haccept, hgrow⟩, haccepts, hgrows⟩
    · rintro ⟨⟨haccept, hgrow⟩, haccepts, hgrows⟩
      exact ⟨⟨haccept, haccepts⟩, hgrow, hgrows⟩

/-! ## Reconnect attempts escalate -/

/-- Failed attempts are accepted with growing numbers in exactly the runs that keep the
count. -/
theorem escalates_iff (events : List StateEvent) :
    Escalates events ↔ KeepsCount none (steps .disconnected events) :=
  growing_iff counted_disconnected events

/-- A dial that fails is refused, and the second of two transports that drop before CONNACK
is the first attempt again. -/
theorem attempts_restart :
    (Resolved [.connectRequested, .transportClosed] ∧
      ¬ Escalates [.connectRequested, .transportClosed]) ∧
    Resolved [.connectRequested, .transportConnected, .transportClosed,
      .connectRequested, .transportConnected, .transportClosed] ∧
    ¬ Escalates [.connectRequested, .transportConnected, .transportClosed,
      .connectRequested, .transportConnected, .transportClosed] := by
  simp [Escalates, Growing, Greater, u32Max, Resolved, Answered, steps, next, transition,
    Step.failsAttempt, Step.pending, Step.notifies, Step.scheduled]

end MqttEngine.Core
