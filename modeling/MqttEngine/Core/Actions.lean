import MqttEngine.Core.State
import Mathlib.Data.List.Chain

/-!
# What the driver is told to do

A driver executes the actions of `transition` one after the other. Whatever events come, also those
that are refused, only some actions may follow another one: a ping or a DISCONNECT is sent only on a
connection that has been reported as established, and there is no other CONNECT before the end of a
connection has been reported or a reconnect has been scheduled. These rules are all there are
(`actions_iff`): each order of actions that follows them comes up in a run.

## Main definitions

* `actions` — the actions of a run.
* `Follows` — which action may follow another one.
* `After` — the states in which an action is the last one.

## Main results

* `After.step` — a step follows the rules.
* `actions_iff` — the orders of actions that come up.
-/

namespace MqttEngine.Core

/-- What there is to do after an event; nothing when it is refused. -/
def actionOf (state : ConnState) (event : StateEvent) : List StateAction :=
  match transition state event with
  | .ok (_, .none) => []
  | .ok (_, action) => [action]
  | .error _ => []

/-- What the driver is told to do in a run. -/
def actions (state : ConnState) : List StateEvent → List StateAction
  | [] => []
  | event :: events => actionOf state event ++ actions (next state event) events

/-- Which action may follow another one. -/
def Follows : StateAction → StateAction → Prop
  | .none, _ => False
  | .sendConnect, action =>
    (∃ sessionPresent, action = .notifyConnected sessionPresent) ∨ action = .notifyDisconnected ∨
      action = .scheduleReconnect 1
  | .notifyConnected _, action | .sendPing, action =>
    action = .sendPing ∨ action = .sendDisconnect ∨ action = .scheduleReconnect 1
  | .sendDisconnect, action => action = .notifyDisconnected
  | .notifyDisconnected, action => action = .sendConnect
  | .scheduleReconnect attempt, action =>
    action = .sendConnect ∨ action = .scheduleReconnect (saturatingSucc attempt)

/-- In the state this action may be the last one. -/
def After : StateAction → ConnState → Prop
  | .none, _ => False
  | .sendConnect, state => state = .waitingForConnAck
  | .notifyConnected _, state | .sendPing, state => state = .connected
  | .sendDisconnect, state => state = .disconnecting
  | .notifyDisconnected, state => state = .disconnected ∨ state = .connecting
  | .scheduleReconnect attempt, state => state = .reconnecting attempt ∨ state = .connecting

section
variable {state : ConnState} {last action : StateAction} {rest : List StateAction}

/-- An event keeps the last action, or the next one follows it. -/
theorem After.step (h : After last state) (event : StateEvent) :
    (actionOf state event = [] ∧ After last (next state event)) ∨
      ∃ action, actionOf state event = [action] ∧ Follows last action ∧
        After action (next state event) := by
  cases last with
  | none => exact h.elim
  | sendConnect | notifyConnected _ | sendPing | sendDisconnect =>
    cases h
    cases event <;> simp [actionOf, next, transition, After, Follows]
  | notifyDisconnected =>
    rcases h with rfl | rfl
    all_goals
      cases event <;> simp [actionOf, next, transition, After, Follows]
  | scheduleReconnect attempt =>
    rcases h with rfl | rfl
    all_goals
      cases event <;> simp [actionOf, next, transition, After, Follows]

/-- In a run each action follows the one before. -/
theorem After.isChain (h : After last state) (events : List StateEvent) :
    (last :: actions state events).IsChain Follows := by
  induction events generalizing last state with
  | nil => exact List.isChain_singleton last
  | cons event events ih =>
    rw [actions]
    rcases h.step event with ⟨hnone, hafter⟩ | ⟨action, haction, hfollows, hafter⟩
    · rw [hnone, List.nil_append]
      exact ih hafter
    · rw [haction, List.singleton_append, List.isChain_cons_cons]
      exact ⟨hfollows, ih hafter⟩

/-- The state right after an action. -/
def stateAfter : StateAction → ConnState
  | .none | .notifyDisconnected => .disconnected
  | .sendConnect => .waitingForConnAck
  | .notifyConnected _ | .sendPing => .connected
  | .sendDisconnect => .disconnecting
  | .scheduleReconnect attempt => .reconnecting attempt

/-- An action that may follow does so, after one event or two. -/
theorem Follows.exists_events (h : Follows last action) : ∃ events,
    ∀ later, actions (stateAfter last) (events ++ later) =
      action :: actions (stateAfter action) later := by
  cases last with
  | none => exact h.elim
  | sendConnect =>
    rcases h with ⟨sessionPresent, rfl⟩ | rfl | rfl
    · exact ⟨[.connAckReceived sessionPresent], fun _ => rfl⟩
    · exact ⟨[.connAckRejected], fun _ => rfl⟩
    · exact ⟨[.transportClosed], fun _ => rfl⟩
  | notifyConnected _ | sendPing =>
    rcases h with rfl | rfl | rfl
    · exact ⟨[.keepAliveExpired], fun _ => rfl⟩
    · exact ⟨[.disconnectRequested], fun _ => rfl⟩
    · exact ⟨[.transportClosed], fun _ => rfl⟩
  | sendDisconnect =>
    cases h
    exact ⟨[.transportClosed], fun _ => rfl⟩
  | notifyDisconnected =>
    cases h
    exact ⟨[.connectRequested, .transportConnected], fun _ => rfl⟩
  | scheduleReconnect attempt =>
    rcases h with rfl | rfl
    · exact ⟨[.connectRequested, .transportConnected], fun _ => rfl⟩
    · exact ⟨[.transportClosed], fun _ => rfl⟩

theorem exists_events_of_isChain (h : (last :: rest).IsChain Follows) :
    ∃ events, actions (stateAfter last) events = rest := by
  induction rest generalizing last with
  | nil => exact ⟨[], rfl⟩
  | cons action rest ih =>
    rw [List.isChain_cons_cons] at h
    obtain ⟨later, hlater⟩ := ih h.2
    obtain ⟨events, hevents⟩ := h.1.exists_events
    exact ⟨events ++ later, by rw [hevents, hlater]⟩

end

/-- **The orders of actions that come up** in the runs of a client that is disconnected at first:
exactly those in which each action may follow the one before, and the first one the end of a
connection. -/
theorem actions_iff (rest : List StateAction) :
    (∃ events, actions .disconnected events = rest) ↔
      (StateAction.notifyDisconnected :: rest).IsChain Follows := by
  constructor
  · rintro ⟨events, rfl⟩
    have hstart : After .notifyDisconnected .disconnected := Or.inl rfl
    exact hstart.isChain events
  · exact exists_events_of_isChain

end MqttEngine.Core
