import MqttEngine.Bridges.Hub

/-!
# The clients of the broadcast hub

A web client that never falls behind what the broadcast channel keeps misses nothing. What a client
gets does not depend on the other clients. And when nothing new is sent, a client that is polled
gets all that is left, in whatever order its task and the polls run.

## Main definitions

* `Near`, `Complete` — a client that keeps up, and what follows for it.
* `Event.concerns`, `SameFor` — the events that matter to a client, and hubs that it cannot tell
  apart.
* `Own`, `WebClientStream.rest`, `WebClientStream.weight` — the steps of a client and its task, what
  they will give, and how long they go on.

## Main results

* `complete_of_near` — a client that keeps up misses nothing.
* `alone` — a client gets the same without the others.
* `polled_of_stuck` — a client gets all that is left.
-/

namespace MqttEngine.Bridges
open MqttEngine.Tokio

namespace MqttBroadcastHub

/-! ## A client that keeps up -/

/-- A payload comes when the client has taken all but what is kept in the channel. -/
def Near (i : ℕ) (self : MqttBroadcastHub) : Event → Prop
  | .message (some _) =>
    ∀ client ∈ self.clients[i]?, self.sent.length < client.next + self.capacity
  | _ => True

instance (i : ℕ) (self : MqttBroadcastHub) (event : Event) : Decidable (self.Near i event) :=
  match event with
  | .message (some _) =>
    inferInstanceAs
      (Decidable (∀ client ∈ self.clients[i]?, self.sent.length < client.next + self.capacity))
  | .message none | .clone | .drop | .subscribe | .task _ | .poll _ | .disconnect _ =>
    inferInstanceAs (Decidable True)

/-- A client has missed nothing, and is not behind by more than what is kept. -/
def Complete (i : ℕ) (self : MqttBroadcastHub) : Prop :=
  ∀ client, self.clients[i]? = some client →
    Broadcast.missed client.taken = 0 ∧ self.sent.length ≤ client.next + self.capacity

section
variable {self t : MqttBroadcastHub} {event : Event} {i : ℕ}

theorem Complete.withClient {j : ℕ} {f : WebClientStream → Option WebClientStream}
    (hself : self.Complete i) (h : self.withClient j f = some t)
    (hf : ∀ client next, Broadcast.missed client.taken = 0 →
      self.sent.length ≤ client.next + self.capacity → f client = some next →
        Broadcast.missed next.taken = 0 ∧ self.sent.length ≤ next.next + self.capacity) :
    t.Complete i := by
  obtain ⟨client, next, hclient, hnext, rfl⟩ := withClient_eq_some.mp h
  intro c hc
  by_cases hij : j = i
  · subst hij
    obtain ⟨hlt, -⟩ := List.getElem?_eq_some_iff.mp hclient
    rw [List.getElem?_set_self hlt] at hc
    cases hc
    obtain ⟨hmissed, hnear⟩ := hself client hclient
    exact hf client next hmissed hnear hnext
  · rw [List.getElem?_set_ne hij] at hc
    exact hself c hc

theorem Complete.step (hi : i < self.clients.length) (hself : self.Complete i)
    (hnear : self.Near i event) (h : self.step event = some t) :
    i < t.clients.length ∧ t.Complete i := by
  have hlength {j : ℕ} {f : WebClientStream → Option WebClientStream}
      (h : self.withClient j f = some t) : i < t.clients.length := by
    obtain ⟨_, _, _, _, rfl⟩ := withClient_eq_some.mp h
    simpa using hi
  cases event with
  | message message =>
    simp only [MqttBroadcastHub.step] at h
    split at h
    · cases h
    · cases message with
      | some message =>
        cases h
        refine ⟨hi, fun client hclient => ⟨(hself client hclient).1, ?_⟩⟩
        have := hnear client hclient
        rw [List.length_append, List.length_singleton]
        exact this
      | none =>
        cases h
        exact ⟨hi, hself⟩
  | clone =>
    obtain ⟨-, rfl⟩ := withHandle_eq_some.mp h
    exact ⟨hi, hself⟩
  | drop =>
    obtain ⟨-, rfl⟩ := withHandle_eq_some.mp h
    exact ⟨hi, hself⟩
  | subscribe =>
    obtain ⟨-, rfl⟩ := withHandle_eq_some.mp h
    refine ⟨by simpa using Nat.lt_succ_of_lt hi, fun client hclient => ?_⟩
    rw [List.getElem?_append_left hi] at hclient
    exact hself client hclient
  | task j =>
    refine ⟨hlength h, hself.withClient h fun client next hmissed hnear hnext => ?_⟩
    obtain ⟨-, ⟨_, _, _, rfl⟩ | ⟨_, _, _, rfl⟩ | ⟨item, place, _, hrecv, rfl⟩ | ⟨_, _, rfl⟩⟩ :=
      WebClientStream.task_cases hnext
    · exact ⟨hmissed, hnear⟩
    · exact ⟨hmissed, hnear⟩
    · have hnone : Broadcast.missed [item] = item.missed := Nat.add_zero _
      rw [Broadcast.missed_append, hmissed, hnone, Broadcast.missed_of_recv hrecv hnear]
      refine ⟨rfl, le_trans hnear ?_⟩
      exact Nat.add_le_add_right (le_of_lt (Broadcast.next_of_recv hrecv).1) _
    · exact ⟨hmissed, hnear⟩
  | poll j =>
    refine ⟨hlength h, hself.withClient h fun client next hmissed hnear hnext => ?_⟩
    split at hnext
    · cases hnext
    · cases hnext
      rcases client.pollNext_cases Empty with ⟨_, _, _, hpoll⟩ | ⟨_, hpoll⟩
      · rw [hpoll]
        exact ⟨hmissed, hnear⟩
      · rw [hpoll]
        split <;> exact ⟨hmissed, hnear⟩
  | disconnect j =>
    refine ⟨hlength h, hself.withClient h fun client next hmissed hnear hnext => ?_⟩
    cases hnext
    exact ⟨hmissed, hnear⟩

end

/-- **A client that keeps up misses nothing.** If no payload comes while all that the broadcast
channel keeps is still waiting for the client, then what it has polled, what is on its way and what
waits for it are together all that was sent after it had subscribed. -/
theorem complete_of_near {E : Type} {subscribed : Except (ClientError E) Unit} {topic : String}
    {broadcastCapacity : ℕ} {hub s s' t : MqttBroadcastHub}
    (hnew : new subscribed topic broadcastCapacity = .ok hub) (hbefore : Reaches Any hub s)
    (hsubscribe : s.step .subscribe = some s') (hafter : Reaches (Near s.clients.length) s' t) :
    ∃ client later, t.clients[s.clients.length]? = some client ∧ t.sent = s.sent ++ later ∧
      client.polled ++ client.queue ++ client.sending.toList ++ t.sent.drop client.next =
        later := by
  have hs : s.Sound := hbefore.invariant (sound_new hnew) fun _ _ _ hself _ h => hself.step h
  have hcomplete : s.clients.length < s'.clients.length ∧ s'.Complete s.clients.length := by
    obtain ⟨-, rfl⟩ := withHandle_eq_some.mp hsubscribe
    refine ⟨by simp, fun client hclient => ?_⟩
    rw [List.getElem?_append_right le_rfl, Nat.sub_self] at hclient
    cases hclient
    exact ⟨rfl, Nat.le_add_right _ _⟩
  obtain ⟨⟨hsound, -, ⟨later, hsent⟩, client, hclient, hstart⟩, -, hcomplete⟩ :=
    hafter.invariant (I := fun hub => After s s.clients.length s.sent.length hub ∧
        s.clients.length < hub.clients.length ∧ hub.Complete s.clients.length)
      ⟨after_subscribe hs hsubscribe, hcomplete⟩
      fun _ _ _ ⟨hself, hlt, hall⟩ hnear h => ⟨hself.step h, hall.step hlt hnear h⟩
  refine ⟨client, later, hclient, hsent, ?_⟩
  have hself := hsound client (List.mem_of_getElem? hclient)
  have hall := hself.covers.eq_of_missed (hcomplete client hclient).1
  change _ = (t.sent.take client.next).drop client.start at hall
  have hle : client.next ≤ t.sent.length := hself.next_le
  rw [← hself.messages, hall, hstart, ← List.drop_append_of_le_length, List.take_append_drop, hsent,
    List.drop_left]
  rw [List.length_take, Nat.min_eq_left hle, ← hstart]
  exact hself.start_le

/-- A client that takes each payload before the next one comes. -/
def following : List Event :=
  [.message (some (.new "t" [1])), .task 0, .task 0, .message (some (.new "t" [2])), .task 0,
    .poll 0, .message (some (.new "t" [3]))]

theorem complete_of_near_following : ∃ s t, step fresh .subscribe = some s ∧
    Machine.replay step (Near 0) s following = some t ∧
    ∃ client later, t.clients[0]? = some client ∧ t.sent = [] ++ later ∧
      client.polled ++ client.queue ++ client.sending.toList ++ t.sent.drop client.next = later :=
  ⟨_, _, rfl, rfl, complete_of_near new_fresh .refl rfl
    (Machine.reaches_of_replay (show Machine.replay step (Near 0) _ following = some _ from rfl))⟩

/-! ## A client among others -/

/-- The events of the hub, and those of one client. -/
def Event.concerns (i : ℕ) : Event → Bool
  | .task j | .poll j | .disconnect j => j == i
  | _ => true

/-- The hubs differ in other clients only. -/
def SameFor (i : ℕ) (s t : MqttBroadcastHub) : Prop :=
  ∃ clients, t = { s with clients } ∧ clients.length = s.clients.length ∧
    clients[i]? = s.clients[i]?

section
variable {i : ℕ} {s s' t : MqttBroadcastHub} {event : Event}

/-- What another client does makes no difference. -/
theorem SameFor.withClient_other {j : ℕ} {f : WebClientStream → Option WebClientStream}
    (hsame : SameFor i s s') (hj : j ≠ i) (h : s.withClient j f = some t) : SameFor i t s' := by
  obtain ⟨clients, rfl, hlength, hclient⟩ := hsame
  obtain ⟨client, next, -, -, rfl⟩ := withClient_eq_some.mp h
  refine ⟨clients, rfl, by simpa using hlength, ?_⟩
  rw [List.getElem?_set_ne hj]
  exact hclient

/-- What the client itself does, it does in both hubs. -/
theorem SameFor.withClient {f : WebClientStream → Option WebClientStream} (hsame : SameFor i s s')
    (h : s.withClient i f = some t) : ∃ t', s'.withClient i f = some t' ∧ SameFor i t t' := by
  obtain ⟨clients, rfl, hlength, hclient⟩ := hsame
  obtain ⟨client, next, hthere, hnext, rfl⟩ := withClient_eq_some.mp h
  refine ⟨{ s with clients := clients.set i next },
    withClient_eq_some.mpr ⟨client, next, hclient.trans hthere, hnext, rfl⟩, clients.set i next,
    rfl, by simpa using hlength, ?_⟩
  obtain ⟨hlt, -⟩ := List.getElem?_eq_some_iff.mp hthere
  rw [List.getElem?_set_self hlt, List.getElem?_set_self (hlength ▸ hlt)]

theorem SameFor.withHandle {next next' : MqttBroadcastHub} (hsame : SameFor i s s')
    (hnext : SameFor i next next') (h : s.withHandle next = some t) :
    ∃ t', s'.withHandle next' = some t' ∧ SameFor i t t' := by
  obtain ⟨clients, rfl, -, -⟩ := hsame
  obtain ⟨hhandles, rfl⟩ := withHandle_eq_some.mp h
  exact ⟨next', withHandle_eq_some.mpr ⟨hhandles, rfl⟩, hnext⟩

/-- An event that concerns the client can happen in both hubs. -/
theorem SameFor.step (hsame : SameFor i s s') (hevent : event.concerns i = true)
    (h : s.step event = some t) : ∃ t', s'.step event = some t' ∧ SameFor i t t' := by
  have hown {j : ℕ} (hj : (j == i) = true) : j = i := by simpa using hj
  cases event with
  | message message =>
    obtain ⟨clients, rfl, hlength, hclient⟩ := hsame
    simp only [MqttBroadcastHub.step] at h ⊢
    split at h
    · cases h
    · rename_i hworks
      rw [if_neg hworks]
      cases message with
      | some message =>
        cases h
        exact ⟨_, rfl, clients, rfl, hlength, hclient⟩
      | none =>
        cases h
        exact ⟨_, rfl, clients, rfl, hlength, hclient⟩
  | clone =>
    refine hsame.withHandle ?_ h
    obtain ⟨clients, rfl, hlength, hclient⟩ := hsame
    exact ⟨clients, rfl, hlength, hclient⟩
  | drop =>
    refine hsame.withHandle ?_ h
    obtain ⟨clients, rfl, hlength, hclient⟩ := hsame
    exact ⟨clients, rfl, hlength, hclient⟩
  | subscribe =>
    refine hsame.withHandle ?_ h
    obtain ⟨clients, rfl, hlength, hclient⟩ := hsame
    refine ⟨clients ++ [.subscribed s.sender], rfl, by simp [hlength], ?_⟩
    simp only [List.getElem?_append, hlength, hclient]
  | task j =>
    obtain rfl := hown hevent
    obtain ⟨clients, rfl, hlength, hclient⟩ := hsame
    exact SameFor.withClient ⟨clients, rfl, hlength, hclient⟩ h
  | poll j =>
    obtain rfl := hown hevent
    exact hsame.withClient h
  | disconnect j =>
    obtain rfl := hown hevent
    exact hsame.withClient h

/-- An event that does not concern the client makes no difference. -/
theorem SameFor.step_other (hsame : SameFor i s s') (hevent : event.concerns i = false)
    (h : s.step event = some t) : SameFor i t s' := by
  have hother {j : ℕ} (hj : (j == i) = false) : j ≠ i := by simpa using hj
  cases event with
  | task j => exact hsame.withClient_other (hother hevent) h
  | poll j => exact hsame.withClient_other (hother hevent) h
  | disconnect j => exact hsame.withClient_other (hother hevent) h
  | _ => cases hevent

end

/-- **A client gets the same without the others.** Any events that can happen can happen without the
steps, the polls and the disconnects of all other clients, and the client, and what is sent, are
the same after them. -/
theorem alone (i : ℕ) {events : List Event} {s t : MqttBroadcastHub}
    (h : events.foldlM step s = some t) :
    ∃ t', (events.filter (Event.concerns i)).foldlM step s = some t' ∧ t'.sent = t.sent ∧
      t'.clients[i]? = t.clients[i]? := by
  suffices hall : ∀ s', SameFor i s s' → ∃ t',
      (events.filter (Event.concerns i)).foldlM step s' = some t' ∧ SameFor i t t' by
    obtain ⟨t', hrun, clients, rfl, -, hclient⟩ := hall s ⟨s.clients, rfl, rfl, rfl⟩
    exact ⟨_, hrun, rfl, hclient⟩
  induction events generalizing s with
  | nil =>
    cases h
    exact fun s' hsame => ⟨s', rfl, hsame⟩
  | cons event events ih =>
    rw [List.foldlM_cons] at h
    obtain ⟨u, hstep, hrest⟩ := Option.bind_eq_some_iff.mp h
    intro s' hsame
    cases hevent : event.concerns i with
    | true =>
      obtain ⟨u', hstep', hsame'⟩ := hsame.step hevent hstep
      obtain ⟨t', hrun, ht⟩ := ih hrest u' hsame'
      refine ⟨t', ?_, ht⟩
      rw [List.filter_cons_of_pos hevent, List.foldlM_cons, hstep']
      exact hrun
    | false =>
      rw [List.filter_cons_of_neg (by simp [hevent])]
      exact ih hrest s' (hsame.step_other hevent hstep)

/-- The second client disconnects while a payload is on its way to it. -/
def besides : List Event :=
  [.subscribe, .subscribe, .message (some (.new "t" [1])), .task 1, .disconnect 1, .task 0, .task 0,
    .task 1, .poll 0]

theorem alone_besides : ∃ t, besides.foldlM step fresh = some t ∧
    ∃ t', (besides.filter (Event.concerns 0)).foldlM step fresh = some t' ∧ t'.sent = t.sent ∧
      t'.clients[0]? = t.clients[0]? :=
  ⟨_, rfl, alone 0 (show besides.foldlM step fresh = some _ from rfl)⟩

end MqttBroadcastHub

/-! ## A client left alone -/

namespace WebClientStream
variable {sender : Broadcast (List UInt8)} {self t : WebClientStream}

/-- What a client has polled, and all that it can still get. -/
def rest (sender : Broadcast (List UInt8)) (self : WebClientStream) : List (List UInt8) :=
  self.polled ++ self.queue ++ self.sending.toList ++ sender.kept self.next

/-- A bound on the steps that are left. -/
def weight (sender : Broadcast (List UInt8)) (self : WebClientStream) : ℕ :=
  3 * (sender.sent.length - self.next) + 2 * self.sending.toList.length + self.queue.length +
    if self.taskEnded then 0 else 1

/-- A step of the task keeps what a client can get. -/
theorem rest_task (hthere : self.isDropped = false) (h : self.task sender = some t) :
    t.rest sender = self.rest sender ∧ t.weight sender < self.weight sender ∧
      t.isDropped = false := by
  obtain ⟨hruns, ⟨payload, -, hdropped, -⟩ | ⟨payload, hsending, -, rfl⟩ |
    ⟨item, next, hsending, hrecv, rfl⟩ | ⟨hsending, -, rfl⟩⟩ := task_cases h
  · simp [hthere] at hdropped
  · refine ⟨by simp [rest, hsending], ?_, hthere⟩
    simp only [weight, hsending, Option.toList, List.length_append, List.length_singleton,
      List.length_nil]
    omega
  · refine ⟨?_, ?_, hthere⟩
    · rw [rest, rest, hsending, Broadcast.kept_of_recv hrecv]
      simp
    · have hnext := Broadcast.next_of_recv hrecv
      have hitem : item.message?.toList.length ≤ 1 := by
        cases item <;> simp [Broadcast.Taken.message?]
      simp only [weight, hsending, Option.toList_none, List.length_nil]
      omega
  · refine ⟨rfl, ?_, hthere⟩
    simp [weight, hruns]

/-- A poll that gives something keeps what a client can get. -/
theorem rest_pollNext (E : Type) (hqueue : self.queue ≠ []) :
    (self.pollNext E).2.rest sender = self.rest sender ∧
      (self.pollNext E).2.weight sender < self.weight sender ∧
      (self.pollNext E).2.isDropped = self.isDropped := by
  rcases pollNext_cases E self with ⟨payload, queue, hfront, hpoll⟩ | ⟨hempty, -⟩
  · rw [hpoll]
    refine ⟨by simp [rest, hfront], ?_, rfl⟩
    simp [weight, hfront]
  · exact absurd hempty hqueue

/-- A task that cannot get on, with room in the channel, is at the end. -/
theorem Sound.end_of_stuck (hself : Sound sender self) (hthere : self.isDropped = false)
    (htask : self.task sender = none) (hqueue : self.queue = []) :
    self.next = sender.sent.length ∧ self.sending = none ∧
      (sender.isClosed = true → self.taskEnded = true) := by
  cases hended : self.taskEnded with
  | true =>
    obtain ⟨hnext, -, hsending⟩ := (hself.ended hended).resolve_left (by simp [hthere])
    exact ⟨hnext, hsending, fun _ => rfl⟩
  | false =>
    cases hsending : self.sending with
    | some payload => simp [WebClientStream.task, hended, hsending, hthere, hqueue, places] at htask
    | none =>
      have hempty : sender.recv self.next = .empty := by
        cases hrecv : sender.recv self.next with
        | taken item next =>
          cases item <;> simp [WebClientStream.task, hended, hsending, hrecv] at htask
        | closed => simp [WebClientStream.task, hended, hsending, hrecv] at htask
        | empty => rfl
      obtain ⟨hnext, hclosed⟩ := Broadcast.recv_rest hself.next_le fun item next htaken => by
        rw [hempty] at htaken
        cases htaken
      refine ⟨hnext, rfl, fun hclosed' => ?_⟩
      rw [hempty, if_pos hclosed'] at hclosed
      cases hclosed

/-- There it has polled all that it could get, and its stream ends if nothing can come. -/
theorem Sound.polled_at_end (hself : Sound sender self) (hthere : self.isDropped = false)
    (htask : self.task sender = none) (hqueue : self.queue = []) (E : Type) :
    self.polled = self.rest sender ∧
      (sender.isClosed = true → (self.pollNext E).1 = .ready none) := by
  obtain ⟨hnext, hsending, hended⟩ := hself.end_of_stuck hthere htask hqueue
  constructor
  · have hkept : sender.kept self.next = [] := by
      rw [Broadcast.kept, List.drop_eq_nil_iff, hnext]
      exact le_max_left _ _
    simp [rest, hqueue, hsending, hkept]
  · intro hclosed
    simp [WebClientStream.pollNext, hqueue, hended hclosed]

end WebClientStream

namespace MqttBroadcastHub

/-- The task of a client gets on, or the client polls and something is there. -/
def Own (i : ℕ) (self : MqttBroadcastHub) : Event → Prop
  | .task j => j = i
  | .poll j => j = i ∧ ∀ client ∈ self.clients[i]?, client.queue ≠ []
  | _ => False

instance (i : ℕ) (self : MqttBroadcastHub) (event : Event) : Decidable (self.Own i event) :=
  match event with
  | .task j => inferInstanceAs (Decidable (j = i))
  | .poll j => inferInstanceAs (Decidable (j = i ∧ ∀ client ∈ self.clients[i]?, client.queue ≠ []))
  | .message _ | .clone | .drop | .subscribe | .disconnect _ => inferInstanceAs (Decidable False)

section
variable {i : ℕ} {s t : MqttBroadcastHub} {client : WebClientStream}

/-- A step of a client and its task. -/
theorem rest_step {event : Event} (hclient : s.clients[i]? = some client)
    (hthere : client.isDropped = false) (hown : s.Own i event) (h : s.step event = some t) :
    ∃ next, t = { s with clients := s.clients.set i next } ∧
      next.rest s.sender = client.rest s.sender ∧
      next.weight s.sender < client.weight s.sender ∧ next.isDropped = false := by
  cases event with
  | task j =>
    obtain rfl : j = i := hown
    obtain ⟨c, next, hc, hnext, rfl⟩ := withClient_eq_some.mp h
    rw [hclient] at hc
    cases hc
    exact ⟨next, rfl, WebClientStream.rest_task hthere hnext⟩
  | poll j =>
    obtain ⟨rfl, hqueue⟩ := hown
    obtain ⟨c, next, hc, hnext, rfl⟩ := withClient_eq_some.mp h
    rw [hclient] at hc
    cases hc
    rw [hthere] at hnext
    cases hnext
    obtain ⟨hrest, hweight, hdropped⟩ := WebClientStream.rest_pollNext Empty (hqueue client hclient)
    exact ⟨_, rfl, hrest, hweight, hdropped.trans hthere⟩
  | _ => exact hown.elim

/-- A client that can do no step of its own is at the end. -/
theorem stuck_of_step (hclient : t.clients[i]? = some client) (hthere : client.isDropped = false)
    (hstuck : ∀ event, t.Own i event → t.step event = none) :
    client.task t.sender = none ∧ client.queue = [] := by
  constructor
  · cases htask : client.task t.sender with
    | none => rfl
    | some next =>
      have hstep := withClient_eq_some.mpr ⟨client, next, hclient, htask, rfl⟩
      exact absurd ((hstuck (.task i) rfl).symm.trans hstep) (by simp)
  · by_contra hqueue
    have hown : t.Own i (.poll i) := ⟨rfl, fun c hc => by
      rw [hclient] at hc
      cases hc
      exact hqueue⟩
    have hstep : t.step (.poll i) =
        some { t with clients := t.clients.set i (client.pollNext Empty).2 } :=
      withClient_eq_some.mpr ⟨client, _, hclient, by rw [hthere]; rfl, rfl⟩
    exact absurd ((hstuck _ hown).symm.trans hstep) (by simp)

end

/-- **A client that is left alone gets all that is left.** From any state of any run, the steps of a
connected client and its task come to an end, and in whatever order they are taken, the client has
then polled what was on its way and what the broadcast channel kept for it. If nothing can come any
more, its stream ends there. -/
theorem polled_of_stuck {E : Type} {subscribed : Except (ClientError E) Unit} {topic : String}
    {broadcastCapacity i : ℕ} {hub s t : MqttBroadcastHub} {client : WebClientStream}
    {events : List Event}
    (hnew : new subscribed topic broadcastCapacity = .ok hub) (hreached : Reaches Any hub s)
    (hclient : s.clients[i]? = some client) (hthere : client.isDropped = false)
    (hrun : Machine.replay step (Own i) s events = some t) :
    events.length ≤ client.weight s.sender ∧ ∃ last, t.clients[i]? = some last ∧
      ((∀ event, t.Own i event → t.step event = none) →
        last.polled = client.polled ++ client.queue ++ client.sending.toList ++
            s.sent.drop (max client.next (s.sent.length - s.capacity)) ∧
          (s.sender.isClosed = true → (last.pollNext E).1 = .ready none)) := by
  have hs : s.Sound := hreached.invariant (sound_new hnew) fun _ _ _ hself _ h => hself.step h
  let weightOf (hub : MqttBroadcastHub) : ℕ :=
    (hub.clients[i]?.map fun client => client.weight s.sender).getD 0
  have hweight {hub : MqttBroadcastHub} {c : WebClientStream} (h : hub.clients[i]? = some c) :
      weightOf hub = c.weight s.sender := by simp [weightOf, h]
  obtain ⟨⟨hsound, hsender, last, hlast, hrest, hthere'⟩, hle⟩ :=
    Machine.length_le_of_replay weightOf
      (I := fun hub => hub.Sound ∧ hub.sender = s.sender ∧ ∃ c, hub.clients[i]? = some c ∧
        c.rest s.sender = client.rest s.sender ∧ c.isDropped = false)
      hrun ⟨hs, rfl, client, hclient, rfl, hthere⟩ fun u v event hu hown hstep => by
        obtain ⟨husound, husender, c, hc, hcrest, hcthere⟩ := hu
        have hvsound := husound.step hstep
        obtain ⟨next, rfl, hnrest, hnweight, hnthere⟩ := rest_step hc hcthere hown hstep
        obtain ⟨hlt, -⟩ := List.getElem?_eq_some_iff.mp hc
        have hnext := List.getElem?_set_self (l := u.clients) (a := next) hlt
        rw [husender] at hnrest hnweight
        refine ⟨⟨hvsound, husender, next, hnext, hnrest.trans hcrest, hnthere⟩, ?_⟩
        rw [hweight hnext, hweight hc]
        exact hnweight
  rw [hweight hclient] at hle
  refine ⟨le_trans (Nat.le_add_right _ _) hle, last, hlast, fun hstuck => ?_⟩
  obtain ⟨htask, hqueue⟩ := stuck_of_step hlast hthere' hstuck
  obtain ⟨hpolled, hended⟩ :=
    (hsound last (List.mem_of_getElem? hlast)).polled_at_end hthere' htask hqueue E
  rw [hsender] at hpolled hended
  exact ⟨hpolled.trans hrest, hended⟩

/-- The steps of a client to which one payload is left. -/
def finishing : List Event := [.task 0, .task 0, .poll 0]

theorem polled_of_stuck_finishing : ∃ s t client,
    Machine.replay step Any fresh (.subscribe :: lagging) = some s ∧
    s.clients[0]? = some client ∧ Machine.replay step (Own 0) s finishing = some t ∧
    finishing.length ≤ client.weight s.sender ∧ ∃ last, t.clients[0]? = some last ∧
      ((∀ event, t.Own 0 event → t.step event = none) →
        last.polled = client.polled ++ client.queue ++ client.sending.toList ++
            s.sent.drop (max client.next (s.sent.length - s.capacity)) ∧
          (s.sender.isClosed = true → (last.pollNext Unit).1 = .ready none)) :=
  ⟨_, _, _, rfl, rfl, rfl, polled_of_stuck new_fresh
    (Machine.reaches_of_replay
      (show Machine.replay step Any _ (.subscribe :: lagging) = some _ from rfl)) rfl rfl
    (show Machine.replay step (Own 0) _ finishing = some _ from rfl)⟩

end MqttBroadcastHub

end MqttEngine.Bridges
