import MqttEngine.Bridges.Web
import MqttEngine.Lib.Broadcast
import MqttEngine.Lib.Machine
import Mathlib.Data.Nat.Log

/-!
# The broadcast hub

`MqttBroadcastHub` of `web.rs`: a worker puts the payloads of a topic stream into a broadcast
channel, and each web client has a task that takes them out and passes them on through a channel
of 64 places, from which the stream of the client is polled. The worker, the tasks and the clients
run by turns in any order. A client that has fallen behind what the broadcast channel keeps goes
on with the oldest payload that is kept.

When no client is subscribed, the source keeps nothing in the broadcast channel. Here the payload
is kept, which no client sees: one that subscribes begins after it.

## Main definitions

* `WebClientStream`, `WebClientStream.task`, `WebClientStream.pollNext` — a client and its task.
* `MqttBroadcastHub`, `MqttBroadcastHub.step` — the hub with its worker and its clients.
* `WebClientStream.Sound` — what holds of every client in every run.
* `MqttBroadcastHub.After` — what holds of a client after it has subscribed.

## Main results

* `Sound.step`, `After.step` — what a step keeps.
* `covers_taken` — a client gets the payloads in order, but for stretches that it has missed.
-/

namespace MqttEngine.Bridges
open MqttEngine.Tokio Checked

/-! ## Web clients -/

/-- The stream of a web client, with the task that `subscribe` spawns for it. -/
structure WebClientStream where
  /-- How many payloads had been sent when it subscribed. -/
  start : ℕ
  /-- The place of `bcast_rx`. -/
  next : ℕ
  /-- What `bcast_rx` has given. -/
  taken : List (Broadcast.Taken (List UInt8))
  /-- The payload that waits for a place in the channel. -/
  sending : Option (List UInt8)
  /-- The payloads in the channel. -/
  queue : List (List UInt8)
  taskEnded : Bool
  /-- The client has disconnected. -/
  isDropped : Bool
  /-- What polling has given. -/
  polled : List (List UInt8)
  deriving DecidableEq

namespace WebClientStream

/-- `mpsc::channel(64)`. -/
def places : ℕ := 64

/-- A client that has just subscribed. -/
def subscribed (sender : Broadcast (List UInt8)) : WebClientStream :=
  { start := sender.sent.length, next := sender.sent.length, taken := [], sending := none
    queue := [], taskEnded := false, isDropped := false, polled := [] }

/-- The task gets on, if it need not wait. -/
def task (sender : Broadcast (List UInt8)) (self : WebClientStream) : Option WebClientStream :=
  if self.taskEnded then none
  else
    match self.sending with
    | some payload =>
      if self.isDropped then some { self with taskEnded := true }
      else if self.queue.length < places then
        some { self with sending := none, queue := self.queue ++ [payload] }
      else none
    | none =>
      match sender.recv self.next with
      | .taken (.message payload) next =>
        some { self with
          next, taken := self.taken ++ [.message payload], sending := some payload }
      | .taken (.lagged missed) next =>
        some { self with next, taken := self.taken ++ [.lagged missed] }
      | .closed => some { self with taskEnded := true }
      | .empty => none

/-- `poll_next`. -/
def pollNext (E : Type) (self : WebClientStream) :
    Poll (Option (Except (ClientError E) (List UInt8))) × WebClientStream :=
  match self.queue with
  | payload :: queue =>
    (.ready (some (.ok payload)), { self with queue, polled := self.polled ++ [payload] })
  | [] => if self.taskEnded then (.ready none, self) else (.pending, self)

/-! ### What holds of a client -/

/-- What holds of a client of the hub in every run. -/
structure Sound (sender : Broadcast (List UInt8)) (client : WebClientStream) : Prop where
  start_le : client.start ≤ client.next
  next_le : client.next ≤ sender.sent.length
  /-- It has been told of every payload that was sent up to its place. -/
  covers : Broadcast.Covers client.taken ((sender.sent.take client.next).drop client.start)
  /-- The payloads that it has been given are on their way. -/
  messages :
    Broadcast.messages client.taken = client.polled ++ client.queue ++ client.sending.toList
  room : client.queue.length ≤ places
  /-- The task ends when the client is gone, or at the end. -/
  ended : client.taskEnded = true → client.isDropped = true ∨
    client.next = sender.sent.length ∧ sender.isClosed = true ∧ client.sending = none

section
variable {sender : Broadcast (List UInt8)} {self t : WebClientStream} {payload : List UInt8}

theorem sound_subscribed : Sound sender (subscribed sender) where
  start_le := le_refl _
  next_le := le_refl _
  covers := by
    simpa [subscribed] using Broadcast.Covers.start
  messages := rfl
  room := Nat.zero_le _
  ended := by simp [subscribed]

/-- What a step of the task is. -/
theorem task_cases (h : self.task sender = some t) :
    self.taskEnded = false ∧
      ((∃ payload, self.sending = some payload ∧ self.isDropped = true ∧
          t = { self with taskEnded := true }) ∨
        (∃ payload, self.sending = some payload ∧ self.queue.length < places ∧
          t = { self with sending := none, queue := self.queue ++ [payload] }) ∨
        (∃ item next, self.sending = none ∧ sender.recv self.next = .taken item next ∧
          t = { self with next, taken := self.taken ++ [item], sending := item.message? }) ∨
        (self.sending = none ∧ sender.recv self.next = .closed ∧
          t = { self with taskEnded := true })) := by
  unfold task at h
  split at h
  · cases h
  · rename_i hended
    refine ⟨by simpa using hended, ?_⟩
    split at h
    · rename_i payload hsending
      split at h
      · rename_i hdropped
        exact .inl ⟨payload, hsending, hdropped, (Option.some.inj h).symm⟩
      · split at h
        · rename_i hroom
          exact .inr (.inl ⟨payload, hsending, hroom, (Option.some.inj h).symm⟩)
        · cases h
    · rename_i hsending
      refine .inr (.inr ?_)
      split at h
      · rename_i payload next hrecv
        exact .inl ⟨_, next, hsending, hrecv, (Option.some.inj h).symm⟩
      · rename_i missed next hrecv
        refine .inl ⟨_, next, hsending, hrecv, ?_⟩
        rw [← Option.some.inj h, Broadcast.Taken.message?, ← hsending]
      · rename_i hrecv
        exact .inr ⟨hsending, hrecv, (Option.some.inj h).symm⟩
      · cases h

theorem messages_concat (taken : List (Broadcast.Taken (List UInt8)))
    (item : Broadcast.Taken (List UInt8)) :
    Broadcast.messages (taken ++ [item]) = Broadcast.messages taken ++ item.message?.toList := by
  cases item <;> simp [Broadcast.Taken.message?]

/-- The task keeps the client sound. -/
theorem Sound.task (hself : Sound sender self) (h : self.task sender = some t) :
    Sound sender t := by
  obtain ⟨hruns, ⟨payload, hsending, hdropped, rfl⟩ | ⟨payload, hsending, hroom, rfl⟩ |
    ⟨item, next, hsending, hrecv, rfl⟩ | ⟨hsending, hrecv, rfl⟩⟩ := task_cases h
  · exact { hself with ended := fun _ => .inl hdropped }
  · refine { hself with messages := ?_, room := ?_, ended := ?_ }
    · simpa [hsending] using hself.messages
    · simpa [Nat.succ_le_iff] using hroom
    · simp [hruns]
  · obtain ⟨hlt, hle⟩ := Broadcast.next_of_recv hrecv
    refine { hself with start_le := ?_, next_le := hle, covers := ?_, messages := ?_, ended := ?_ }
    · exact le_trans hself.start_le (le_of_lt hlt)
    · exact Broadcast.covers_recv hrecv hself.start_le hself.covers
    · rw [messages_concat, hself.messages, hsending]
      simp
    · simp [hruns]
  · refine { hself with ended := fun _ => .inr ?_ }
    obtain ⟨hend, hclosed⟩ := Broadcast.recv_rest hself.next_le fun item next htaken => by
      rw [hrecv] at htaken
      cases htaken
    refine ⟨hend, ?_, hsending⟩
    by_contra hopen
    rw [hrecv, if_neg hopen] at hclosed
    cases hclosed

/-- A payload leaves the channel, or nothing changes. -/
theorem pollNext_cases (E : Type) (self : WebClientStream) :
    (∃ payload queue, self.queue = payload :: queue ∧ self.pollNext E =
        (.ready (some (.ok payload)), { self with queue, polled := self.polled ++ [payload] })) ∨
      self.queue = [] ∧
        self.pollNext E = (if self.taskEnded then (.ready none, self) else (.pending, self)) := by
  unfold pollNext
  cases self.queue with
  | cons payload queue => exact .inl ⟨payload, queue, rfl, rfl⟩
  | nil => exact .inr ⟨rfl, rfl⟩

/-- A stream ends when its channel is empty and its task has ended. -/
theorem ended_of_pollNext {E : Type} (self : WebClientStream)
    (h : (self.pollNext E).1 = .ready none) : self.queue = [] ∧ self.taskEnded = true := by
  rcases pollNext_cases E self with ⟨payload, queue, hqueue, hpoll⟩ | ⟨hqueue, hpoll⟩
  · rw [hpoll] at h
    cases h
  · refine ⟨hqueue, ?_⟩
    by_contra hruns
    rw [hpoll, if_neg hruns] at h
    cases h

theorem Sound.pollNext (hself : Sound sender self) (E : Type) :
    Sound sender (self.pollNext E).2 := by
  rcases pollNext_cases E self with ⟨payload, queue, hqueue, hpoll⟩ | ⟨hqueue, hpoll⟩
  · rw [hpoll]
    refine { hself with messages := ?_, room := ?_ }
    · simpa [hqueue] using hself.messages
    · have hroom := hself.room
      rw [hqueue, List.length_cons] at hroom
      exact le_of_lt hroom
  · rw [hpoll]
    split <;> exact hself

theorem Sound.disconnect (hself : Sound sender self) :
    Sound sender { self with isDropped := true } :=
  { hself with ended := fun _ => .inl rfl }

/-- A payload more does not matter to what the client has been told. -/
theorem Sound.send (hself : Sound sender self) (hopen : sender.isClosed = false)
    (payload : List UInt8) :
    Sound { sender with sent := sender.sent ++ [payload] } self := by
  refine { hself with next_le := ?_, covers := ?_, ended := ?_ }
  · exact le_trans hself.next_le (by simp)
  · rw [List.take_append_of_le_length hself.next_le]
    exact hself.covers
  · intro hended
    refine .inl ((hself.ended hended).resolve_right ?_)
    rintro ⟨-, hclosed, -⟩
    simp [hopen] at hclosed

theorem Sound.close (hself : Sound sender self) {isClosed : Bool}
    (hclosed : sender.isClosed = true → isClosed = true) : Sound { sender with isClosed } self :=
  { hself with
    ended := fun hended => (hself.ended hended).imp_right fun ⟨hnext, h, hsending⟩ =>
      ⟨hnext, hclosed h, hsending⟩ }

end

end WebClientStream

/-! ## The hub -/

/-- A hub, its worker and its clients. -/
structure MqttBroadcastHub where
  topic : String
  /-- What the broadcast channel keeps. -/
  capacity : ℕ
  /-- The payloads that the worker has sent. -/
  sent : List (List UInt8)
  workerEnded : Bool
  /-- The clones of the hub that are in use. -/
  handles : ℕ
  /-- Every client that has ever subscribed. -/
  clients : List WebClientStream
  deriving DecidableEq

namespace MqttBroadcastHub

/-- The broadcast channel. The worker and each clone of the hub have a sender. -/
def sender (self : MqttBroadcastHub) : Broadcast (List UInt8) :=
  { capacity := self.capacity, sent := self.sent
    isClosed := self.workerEnded && self.handles == 0 }

/-- `MqttBroadcastHub::new`, when `subscribe_stream` has returned. A broadcast channel keeps a
power of two of messages, and it refuses to keep none or more than half of all numbers. -/
def new {E : Type} (subscribed : Except (ClientError E) Unit) (topic : String)
    (broadcastCapacity : ℕ) : Checked (ClientError E) MqttBroadcastHub :=
  match subscribed with
  | .error e => .error (.err e)
  | .ok _ =>
    if broadcastCapacity = 0 ∨ 2 ^ 63 ≤ broadcastCapacity then .error .panic
    else
      .ok { topic, capacity := 2 ^ Nat.clog 2 broadcastCapacity, sent := []
            workerEnded := false, handles := 1, clients := [] }

/-- `receiver_count`: the tasks that go on. -/
def receiverCount (self : MqttBroadcastHub) : ℕ :=
  (self.clients.filter fun client => !client.taskEnded).length

/-- What happens next. -/
inductive Event
  /-- The worker gets a message from the topic stream, or the stream has ended. -/
  | message (message : Option Tokio.PublishMessage)
  | clone
  /-- A clone of the hub is dropped. -/
  | drop
  | subscribe
  /-- The task of a client gets on. -/
  | task (i : ℕ)
  | poll (i : ℕ)
  /-- A client drops its stream. -/
  | disconnect (i : ℕ)

/-- A client does something. -/
def withClient (self : MqttBroadcastHub) (i : ℕ)
    (f : WebClientStream → Option WebClientStream) : Option MqttBroadcastHub :=
  match self.clients[i]? with
  | none => none
  | some client => (f client).map fun client => { self with clients := self.clients.set i client }

/-- A clone of the hub does something. -/
def withHandle (self next : MqttBroadcastHub) : Option MqttBroadcastHub :=
  if self.handles = 0 then none else some next

/-- The state after an event, if it can happen. -/
def step (self : MqttBroadcastHub) : Event → Option MqttBroadcastHub
  | .message message =>
    if self.workerEnded then none
    else
      match message with
      | some message => some { self with sent := self.sent ++ [message.payload] }
      | none => some { self with workerEnded := true }
  | .clone => self.withHandle { self with handles := self.handles + 1 }
  | .drop => self.withHandle { self with handles := self.handles - 1 }
  | .subscribe => self.withHandle { self with clients := self.clients ++ [.subscribed self.sender] }
  | .task i => self.withClient i fun client => client.task self.sender
  | .poll i => self.withClient i fun client =>
      if client.isDropped then none else some (client.pollNext Empty).2
  | .disconnect i => self.withClient i fun client => some { client with isDropped := true }

section
variable {self t : MqttBroadcastHub} {event : Event} {i : ℕ}

theorem withClient_eq_some {f : WebClientStream → Option WebClientStream} :
    self.withClient i f = some t ↔ ∃ client next, self.clients[i]? = some client ∧
      f client = some next ∧ t = { self with clients := self.clients.set i next } := by
  unfold withClient
  cases hclient : self.clients[i]? with
  | none => simp
  | some client =>
    constructor
    · intro h
      obtain ⟨next, hnext, heq⟩ := Option.map_eq_some_iff.mp h
      exact ⟨client, next, rfl, hnext, heq.symm⟩
    · rintro ⟨client', next, hsame, hnext, rfl⟩
      cases hsame
      simp [hnext]

theorem withHandle_eq_some {next : MqttBroadcastHub} :
    self.withHandle next = some t ↔ self.handles ≠ 0 ∧ t = next := by
  unfold withHandle
  split <;> simp_all [eq_comm]

end

/-! ## Every run -/

/-- All clients are sound. -/
def Sound (self : MqttBroadcastHub) : Prop := ∀ client ∈ self.clients, client.Sound self.sender

section
variable {self t : MqttBroadcastHub} {event : Event}

theorem sound_new {E : Type} {subscribed : Except (ClientError E) Unit} {topic : String}
    {broadcastCapacity : ℕ} (h : new subscribed topic broadcastCapacity = .ok self) :
    self.Sound := by
  unfold new at h
  cases subscribed with
  | error e => cases h
  | ok u =>
    dsimp only at h
    split at h
    · cases h
    · cases h
      simp [Sound]

/-- A client that does something sound leaves all clients sound. -/
theorem Sound.withClient {i : ℕ} {f : WebClientStream → Option WebClientStream} (hself : self.Sound)
    (h : self.withClient i f = some t)
    (hf : ∀ client next, client.Sound self.sender → f client = some next →
      next.Sound self.sender) : t.Sound := by
  obtain ⟨client, next, hclient, hnext, rfl⟩ := withClient_eq_some.mp h
  intro c hc
  rcases List.mem_or_eq_of_mem_set hc with hc | rfl
  · exact hself c hc
  · exact hf client _ (hself client (List.mem_of_getElem? hclient)) hnext

/-- Every step keeps all clients sound. -/
theorem Sound.step (hself : self.Sound) (h : self.step event = some t) : t.Sound := by
  cases event with
  | message message =>
    simp only [MqttBroadcastHub.step] at h
    split at h
    · cases h
    · rename_i hworks
      cases message with
      | some message =>
        cases h
        intro client hclient
        exact (hself client hclient).send (by simp [sender, hworks]) message.payload
      | none =>
        cases h
        intro client hclient
        exact (hself client hclient).close (by simp [sender, hworks])
  | clone =>
    obtain ⟨hhandles, rfl⟩ := withHandle_eq_some.mp h
    intro client hclient
    exact (hself client hclient).close (by simp [sender, hhandles])
  | drop =>
    obtain ⟨hhandles, rfl⟩ := withHandle_eq_some.mp h
    intro client hclient
    exact (hself client hclient).close (by simp [sender, hhandles])
  | subscribe =>
    obtain ⟨-, rfl⟩ := withHandle_eq_some.mp h
    intro client hclient
    rcases List.mem_append.mp hclient with hclient | hclient
    · exact hself client hclient
    · rw [List.mem_singleton.mp hclient]
      exact WebClientStream.sound_subscribed
  | task i => exact hself.withClient h fun client next hclient hnext => hclient.task hnext
  | poll i =>
    refine hself.withClient h fun client next hclient hnext => ?_
    split at hnext
    · cases hnext
    · cases hnext
      exact hclient.pollNext Empty
  | disconnect i =>
    refine hself.withClient h fun client next hclient hnext => ?_
    cases hnext
    exact hclient.disconnect

/-- What is reached by events that meet a condition. -/
abbrev Reaches (ok : MqttBroadcastHub → Event → Prop) :
    MqttBroadcastHub → MqttBroadcastHub → Prop :=
  Machine.Reaches MqttBroadcastHub.step ok

/-- Any event. -/
def Any (_ : MqttBroadcastHub) (_ : Event) : Prop := True

instance (self : MqttBroadcastHub) (event : Event) : Decidable (self.Any event) :=
  inferInstanceAs (Decidable True)

/-- What is sent stays sent, and a client stays with what it has subscribed to. -/
structure After (s : MqttBroadcastHub) (i start : ℕ) (t : MqttBroadcastHub) : Prop where
  sound : t.Sound
  capacity : t.capacity = s.capacity
  sent : ∃ later, t.sent = s.sent ++ later
  client : ∃ client, t.clients[i]? = some client ∧ client.start = start

/-- A client that does something keeps its start. -/
theorem start_of_withClient {i j start : ℕ} {f : WebClientStream → Option WebClientStream}
    {client : WebClientStream} (hclient : self.clients[i]? = some client)
    (hstart : client.start = start)
    (hf : ∀ client next, f client = some next → next.start = client.start)
    (h : self.withClient j f = some t) :
    ∃ client, t.clients[i]? = some client ∧ client.start = start := by
  obtain ⟨other, next, hother, hnext, rfl⟩ := withClient_eq_some.mp h
  obtain ⟨hlt, -⟩ := List.getElem?_eq_some_iff.mp hclient
  by_cases hij : j = i
  · subst hij
    rw [hclient] at hother
    cases hother
    exact ⟨next, List.getElem?_set_self hlt, (hf client next hnext).trans hstart⟩
  · exact ⟨client, by rw [List.getElem?_set_ne hij, hclient], hstart⟩

theorem After.step {s : MqttBroadcastHub} {i start : ℕ} (hself : After s i start self)
    (h : self.step event = some t) : After s i start t := by
  have hsound := hself.sound.step h
  obtain ⟨later, hlater⟩ := hself.sent
  obtain ⟨client, hclient, hstart⟩ := hself.client
  have hsame {j : ℕ} {f : WebClientStream → Option WebClientStream}
      (hf : ∀ client next, f client = some next → next.start = client.start)
      (h : self.withClient j f = some t) : After s i start t := by
    have hthere := start_of_withClient hclient hstart hf h
    obtain ⟨_, _, _, _, rfl⟩ := withClient_eq_some.mp h
    exact ⟨hsound, hself.capacity, hself.sent, hthere⟩
  cases event with
  | message message =>
    simp only [MqttBroadcastHub.step] at h
    split at h
    · cases h
    · cases message with
      | some message =>
        cases h
        exact ⟨hsound, hself.capacity, ⟨later ++ [message.payload], by simp [hlater]⟩, hself.client⟩
      | none =>
        cases h
        exact ⟨hsound, hself.capacity, hself.sent, hself.client⟩
  | clone =>
    obtain ⟨-, rfl⟩ := withHandle_eq_some.mp h
    exact ⟨hsound, hself.capacity, hself.sent, hself.client⟩
  | drop =>
    obtain ⟨-, rfl⟩ := withHandle_eq_some.mp h
    exact ⟨hsound, hself.capacity, hself.sent, hself.client⟩
  | subscribe =>
    obtain ⟨-, rfl⟩ := withHandle_eq_some.mp h
    refine ⟨hsound, hself.capacity, hself.sent, client, ?_, hstart⟩
    obtain ⟨hlt, -⟩ := List.getElem?_eq_some_iff.mp hclient
    rw [List.getElem?_append_left hlt, hclient]
  | task j =>
    refine hsame (fun client next hnext => ?_) h
    obtain ⟨-, ⟨_, _, _, rfl⟩ | ⟨_, _, _, rfl⟩ | ⟨_, _, _, _, rfl⟩ | ⟨_, _, rfl⟩⟩ :=
      WebClientStream.task_cases hnext <;> rfl
  | poll j =>
    refine hsame (fun client next hnext => ?_) h
    split at hnext
    · cases hnext
    · cases hnext
      rcases client.pollNext_cases Empty with ⟨_, _, _, hpoll⟩ | ⟨_, hpoll⟩
      · rw [hpoll]
      · rw [hpoll]
        split <;> rfl
  | disconnect j =>
    refine hsame (fun client next hnext => ?_) h
    cases hnext
    rfl

/-- A client that has just subscribed. -/
theorem after_subscribe (hself : self.Sound) (h : self.step .subscribe = some t) :
    After self self.clients.length self.sent.length t := by
  have hsound := hself.step h
  obtain ⟨-, rfl⟩ := withHandle_eq_some.mp h
  refine ⟨hsound, rfl, ⟨[], by simp⟩, .subscribed self.sender, ?_, rfl⟩
  rw [List.getElem?_append_right le_rfl, Nat.sub_self]
  rfl

end

/-- A client in a run after it has subscribed. -/
theorem client_after {E : Type} {subscribed : Except (ClientError E) Unit} {topic : String}
    {broadcastCapacity : ℕ} {hub s s' t : MqttBroadcastHub}
    (hnew : new subscribed topic broadcastCapacity = .ok hub) (hbefore : Reaches Any hub s)
    (hsubscribe : s.step .subscribe = some s') (hafter : Reaches Any s' t) :
    ∃ client later, t.clients[s.clients.length]? = some client ∧ t.sent = s.sent ++ later ∧
      client.Sound t.sender ∧
      Broadcast.Covers client.taken (later.take (client.next - s.sent.length)) ∧
      client.polled.Sublist later := by
  have hs : s.Sound := hbefore.invariant (sound_new hnew) fun _ _ _ hself _ h => hself.step h
  obtain ⟨hsound, -, ⟨later, hsent⟩, client, hclient, hstart⟩ :=
    hafter.invariant (after_subscribe hs hsubscribe) fun _ _ _ hself _ h => hself.step h
  have hself := hsound client (List.mem_of_getElem? hclient)
  have hcovers : Broadcast.Covers client.taken (later.take (client.next - s.sent.length)) := by
    have htold := hself.covers
    rw [hstart] at htold
    have hdrop : (t.sent.take client.next).drop s.sent.length =
        later.take (client.next - s.sent.length) := by
      rw [hsent, List.take_append, List.take_of_length_le (hstart ▸ hself.start_le),
        List.drop_left]
    exact hdrop ▸ htold
  have hpolled : client.polled.Sublist (Broadcast.messages client.taken) := by
    rw [hself.messages, List.append_assoc]
    exact List.sublist_append_left _ _
  exact ⟨client, later, hclient, hsent, hself, hcovers,
    (hpolled.trans hcovers.sublist).trans (List.take_sublist _ _)⟩

/-- **A client gets what is sent after it has subscribed, in order, but for stretches that it has
missed**, in whatever order the worker, the tasks and the clients run. What it has been given and
has not polled is in its channel, which has 64 places, or waits for a place. When its stream ends,
it has polled all that was sent, but for these stretches. -/
theorem covers_taken {E : Type} {subscribed : Except (ClientError E) Unit} {topic : String}
    {broadcastCapacity : ℕ} {hub s s' t : MqttBroadcastHub}
    (hnew : new subscribed topic broadcastCapacity = .ok hub) (hbefore : Reaches Any hub s)
    (hsubscribe : s.step .subscribe = some s') (hafter : Reaches Any s' t) :
    ∃ client later, t.clients[s.clients.length]? = some client ∧ t.sent = s.sent ++ later ∧
      client.polled.Sublist later ∧ client.queue.length ≤ 64 ∧
      (∃ told, Broadcast.Covers client.taken (later.take told) ∧
        Broadcast.messages client.taken =
          client.polled ++ client.queue ++ client.sending.toList) ∧
      (client.isDropped = false → (client.pollNext E).1 = .ready none →
        Broadcast.Covers client.taken later ∧ client.polled = Broadcast.messages client.taken) := by
  obtain ⟨client, later, hclient, hsent, hself, hcovers, hpolled⟩ :=
    client_after hnew hbefore hsubscribe hafter
  refine ⟨client, later, hclient, hsent, hpolled, hself.room, ⟨_, hcovers, hself.messages⟩, ?_⟩
  intro hthere hended
  obtain ⟨hqueue, htask⟩ := client.ended_of_pollNext hended
  obtain ⟨hnext, -, hsending⟩ := (hself.ended htask).resolve_left (by simp [hthere])
  constructor
  · have hall : client.next - s.sent.length = later.length := by
      change client.next = t.sent.length at hnext
      rw [hnext, hsent, List.length_append, Nat.add_sub_cancel_left]
    rwa [hall, List.take_length] at hcovers
  · rw [hself.messages, hqueue, hsending]
    simp

/-- A hub that keeps two payloads. -/
def fresh : MqttBroadcastHub :=
  { topic := "t", capacity := 2, sent := [], workerEnded := false, handles := 1, clients := [] }

theorem new_fresh : new (E := Unit) (.ok ()) "t" 2 = .ok fresh := rfl

/-- Of three payloads the client misses the first, takes the second and polls it. -/
def lagging : List Event :=
  [.message (some (.new "t" [1])), .message (some (.new "t" [2])), .message (some (.new "t" [3])),
    .task 0, .task 0, .task 0, .poll 0]

/-- A client that misses a payload. -/
theorem covers_taken_lagging : ∃ s t, step fresh .subscribe = some s ∧
    Machine.replay step Any s lagging = some t ∧
    ∃ client later, t.clients[0]? = some client ∧ t.sent = [] ++ later ∧
      client.polled.Sublist later ∧ client.queue.length ≤ 64 ∧
      (∃ told, Broadcast.Covers client.taken (later.take told) ∧
        Broadcast.messages client.taken =
          client.polled ++ client.queue ++ client.sending.toList) ∧
      (client.isDropped = false → (client.pollNext Unit).1 = .ready none →
        Broadcast.Covers client.taken later ∧ client.polled = Broadcast.messages client.taken) :=
  ⟨_, _, rfl, rfl, covers_taken new_fresh .refl rfl
    (Machine.reaches_of_replay (show Machine.replay step Any _ lagging = some _ from rfl))⟩

example : ((step fresh .subscribe).bind fun s => Machine.replay step Any s lagging).map
    (fun t => t.clients.map fun client => (client.polled, client.taken)) =
      some [([[2]], [.lagged 1, .message [2]])] := by
  decide

end MqttBroadcastHub

end MqttEngine.Bridges
