import MqttEngine.Tokio.System

/-!
# The handles of a client

A client is used through its handles. They put requests into a channel, whether there is a
connection or not, and the event loop takes them out in their order while it drives a connection.
The channel is closed when `run` has returned, and the loop learns that all handles have been
dropped when it has taken the last request.

## Main definitions

* `ClientSystem` — the loop and the channel.
* `ClientSystem.send`, `ClientSystem.publish` — what a handle does.
* `ClientSystem.step` — what happens next.

## Main results

* `runs_of_reaches` — the loop of a client makes a run of its own.
-/

namespace MqttEngine.Tokio

/-- The event loop, and the channel in which the requests of the handles wait. -/
structure ClientSystem (E R S W : Type) (maxPacketSize : ℕ) where
  system : LoopSystem E R S W maxPacketSize
  /-- The requests in the channel, the oldest first. -/
  requests : List (ClientRequest R S)
  channelCapacity : ℕ
  /-- All handles have been dropped. -/
  closed : Bool

/-- What happens next. -/
inductive ClientAction (E R S W : Type)
  /-- A handle puts a request into the channel. -/
  | send (request : ClientRequest R S)
  /-- The last handle is dropped. -/
  | drop
  /-- The loop takes the next request, or learns that there will be none. -/
  | take (now : ℕ)
  /-- Anything else that the loop does. -/
  | event (event : Event E R S W)

namespace ClientSystem
variable {E R S W : Type} {maxPacketSize : ℕ}

/-- A new client, at the instant `now`. -/
def start (options : ClientOptions) (channelCapacity : ℕ) (channels : W) (now : ℕ) :
    ClientSystem E R S W maxPacketSize :=
  { system := .start options channels now, requests := [], channelCapacity, closed := false }

/-- `self.req_tx.send(request).await.map_err(|_| ClientError::ClientClosed)`. It waits while the
channel is full. -/
def send (self : ClientSystem E R S W maxPacketSize) (request : ClientRequest R S) :
    Option (Except (ClientError E) Unit × ClientSystem E R S W maxPacketSize) :=
  if self.closed then none
  else
    match self.system.phase with
    | .stopped => some (.error .clientClosed, self)
    | _ =>
      if self.requests.length < self.channelCapacity then
        some (.ok (), { self with requests := self.requests ++ [request] })
      else none

/-- The message of `AsyncClient::publish`. -/
def message (topic : String) (qos : QoS) (retain : Bool) (payload : List UInt8) : PublishMessage :=
  { topic, payload, qos, retain, dup := false, packetId := none, userProperties := [] }

/-- `AsyncClient::publish`. -/
def publish (self : ClientSystem E R S W maxPacketSize) (topic : String) (qos : QoS) (retain : Bool)
    (payload : List UInt8) :
    Option (Except (ClientError E) Unit × ClientSystem E R S W maxPacketSize) :=
  self.send (.publish (message topic qos retain payload) none)

variable [DecidableEq S] (ch : Mpsc W S PublishMessage) (order : HashOrder)

def step (self : ClientSystem E R S W maxPacketSize) :
    ClientAction E R S W → Option (ClientSystem E R S W maxPacketSize)
  | .send request => (self.send request).map (·.2)
  | .drop => some { self with closed := true }
  | .take now =>
    match self.requests with
    | [] =>
      if self.closed then
        (self.system.step ch order (.request none now)).map fun system => { self with system }
      else none
    | request :: requests =>
      (self.system.step ch order (.request (some request) now)).map fun system =>
        { self with system, requests }
  | .event (.request _ _) => none
  | .event event => (self.system.step ch order event).map fun system => { self with system }

variable {ch order} {self t : ClientSystem E R S W maxPacketSize}

omit [DecidableEq S] in
/-- A handle leaves the loop alone. -/
theorem send_eq_some {request : ClientRequest R S} {result : Except (ClientError E) Unit}
    (h : self.send request = some (result, t)) :
    t.system = self.system ∧
      (self.system.phase = .stopped ∧ result = .error .clientClosed ∧ t.requests = self.requests ∨
        self.system.phase ≠ .stopped ∧ result = .ok () ∧ t.requests = self.requests ++ [request]) := by
  rw [send] at h
  split at h
  · cases h
  · split at h
    · rename_i hphase
      cases h
      exact ⟨rfl, .inl ⟨hphase, rfl, rfl⟩⟩
    · rename_i hphase
      split at h
      · cases h
        exact ⟨rfl, .inr ⟨fun hstopped => hphase hstopped, rfl, rfl⟩⟩
      · cases h

/-- The loop takes the oldest request, or learns that there are none. -/
theorem step_take {now : ℕ} (h : self.step ch order (.take now) = some t) :
    (self.requests = [] ∧ t.requests = [] ∧
        self.system.step ch order (.request none now) = some t.system) ∨
      ∃ request, self.requests = request :: t.requests ∧
        self.system.step ch order (.request (some request) now) = some t.system := by
  rw [step] at h
  split at h
  · rename_i hnone
    split at h
    · obtain ⟨system, hsystem, rfl⟩ := Option.map_eq_some_iff.mp h
      exact .inl ⟨hnone, hnone, hsystem⟩
    · cases h
  · rename_i request requests hsome
    obtain ⟨system, hsystem, rfl⟩ := Option.map_eq_some_iff.mp h
    exact .inr ⟨request, hsome, hsystem⟩

/-- What the loop does of its own leaves the channel alone. -/
theorem step_event {event : Event E R S W} (h : self.step ch order (.event event) = some t) :
    self.system.step ch order event = some t.system ∧ t.requests = self.requests ∧
      ∀ request now, event ≠ .request request now := by
  cases event with
  | request request now => cases h
  | _ =>
    simp only [step] at h
    obtain ⟨system, hsystem, rfl⟩ := Option.map_eq_some_iff.mp h
    exact ⟨hsystem, rfl, by simp⟩

/-- The loop of a client goes on, or stays as it is. -/
theorem step_system {action : ClientAction E R S W} (h : self.step ch order action = some t) :
    t.system = self.system ∨ ∃ event, self.system.step ch order event = some t.system := by
  cases action with
  | send request =>
    obtain ⟨⟨result, u⟩, hsend, rfl⟩ := Option.map_eq_some_iff.mp h
    exact .inl (send_eq_some hsend).1
  | drop =>
    cases h
    exact .inl rfl
  | take now =>
    rcases step_take h with ⟨-, -, hsystem⟩ | ⟨request, -, hsystem⟩
    · exact .inr ⟨_, hsystem⟩
    · exact .inr ⟨_, hsystem⟩
  | event event => exact .inr ⟨event, (step_event h).1⟩

/-- **The loop of a client makes a run of its own.** -/
theorem runs_of_reaches {ok : ClientSystem E R S W maxPacketSize → ClientAction E R S W → Prop}
    {s : ClientSystem E R S W maxPacketSize} (h : Machine.Reaches (step ch order) ok s t) :
    LoopSystem.Runs ch order (fun _ _ => True) s.system t.system := by
  apply Machine.Reaches.invariant (I := fun t =>
    LoopSystem.Runs ch order (fun _ _ => True) s.system t.system) h
  · exact .refl
  intro u v action hu _ hstep
  rcases step_system hstep with hsame | ⟨event, hsystem⟩
  · rwa [hsame]
  · exact hu.tail ⟨event, trivial, hsystem⟩

end ClientSystem

end MqttEngine.Tokio
