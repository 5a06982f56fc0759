import MqttEngine.Bridges.Hub

/-!
# What a bridge gives in a run of the hub

The bridges of `web.rs` wrap the stream of a web client and turn each payload that they poll into
bytes. Whatever they make of a payload, the bytes that a browser gets are those of the payloads that
have been polled, one behind the other, and these were sent after the client had subscribed.

## Main definitions

* `MqttBroadcastHub.emitted` — the bytes that a bridge gives in a run of the hub.
* `Gives` — a bridge that turns each payload into bytes.

## Main results

* `MqttBroadcastHub.emitted_after` — what a bridge gives after its client has subscribed.
-/

namespace MqttEngine.Bridges
open MqttEngine.Tokio

/-- The bytes that a poll has given. -/
def bytes {E : Type} : Poll (Option (Except (ClientError E) (List UInt8))) → List UInt8
  | .ready (some (.ok chunk)) => chunk
  | _ => []

/-- A bridge that gives the bytes of each payload it polls, and nothing when there is none. -/
def Gives (give : WebClientStream → List UInt8) (chunk : List UInt8 → List UInt8) : Prop :=
  ∀ client, give client =
    match (client.pollNext Empty).1 with
    | .ready (some (.ok payload)) => chunk payload
    | _ => []

namespace MqttBroadcastHub

/-- The bytes that a bridge on a client's stream gives when an event happens. -/
def given (give : WebClientStream → List UInt8) (i : ℕ) (hub : MqttBroadcastHub) :
    Event → List UInt8
  | .poll j =>
    if j = i then
      match hub.clients[i]? with
      | some client => give client
      | none => []
    else []
  | _ => []

/-- The bytes that it gives while events happen. -/
def emitted (give : WebClientStream → List UInt8) (i : ℕ) :
    MqttBroadcastHub → List Event → List UInt8
  | _, [] => []
  | hub, event :: events =>
    given give i hub event ++
      match hub.step event with
      | some next => emitted give i next events
      | none => []

section
variable {i : ℕ} {give : WebClientStream → List UInt8} {chunk : List UInt8 → List UInt8}
  {s t : MqttBroadcastHub} {client : WebClientStream}

/-- Of each payload that is polled the bytes are given. -/
theorem given_step (hgives : Gives give chunk) {event : Event}
    (hclient : s.clients[i]? = some client) (h : s.step event = some t) :
    ∃ next polled, t.clients[i]? = some next ∧ next.polled = client.polled ++ polled ∧
      given give i s event = (polled.map chunk).flatten := by
  have hlt : i < s.clients.length := (List.getElem?_eq_some_iff.mp hclient).1
  have hquiet {j : ℕ} {f : WebClientStream → Option WebClientStream}
      (h : s.withClient j f = some t)
      (hf : ∀ client next, f client = some next → next.polled = client.polled) :
      ∃ next, t.clients[i]? = some next ∧ next.polled = client.polled := by
    obtain ⟨other, next, hother, hnext, rfl⟩ := withClient_eq_some.mp h
    by_cases hj : j = i
    · subst hj
      rw [hclient] at hother
      cases hother
      exact ⟨next, List.getElem?_set_self hlt, hf client next hnext⟩
    · exact ⟨client, by rw [List.getElem?_set_ne hj, hclient], rfl⟩
  cases event with
  | message message =>
    simp only [step] at h
    split at h
    · cases h
    · cases message <;> cases h <;> exact ⟨client, [], hclient, by simp, rfl⟩
  | clone =>
    obtain ⟨-, rfl⟩ := withHandle_eq_some.mp h
    exact ⟨client, [], hclient, by simp, rfl⟩
  | drop =>
    obtain ⟨-, rfl⟩ := withHandle_eq_some.mp h
    exact ⟨client, [], hclient, by simp, rfl⟩
  | subscribe =>
    obtain ⟨-, rfl⟩ := withHandle_eq_some.mp h
    exact ⟨client, [], by rw [List.getElem?_append_left hlt, hclient], by simp, rfl⟩
  | task j =>
    obtain ⟨next, hnext, hpolled⟩ := hquiet h fun client next hnext => by
      obtain ⟨-, ⟨_, _, _, rfl⟩ | ⟨_, _, _, rfl⟩ | ⟨_, _, _, _, rfl⟩ | ⟨_, _, rfl⟩⟩ :=
        WebClientStream.task_cases hnext <;> rfl
    exact ⟨next, [], hnext, by simp [hpolled], rfl⟩
  | disconnect j =>
    obtain ⟨next, hnext, hpolled⟩ := hquiet h fun client next hnext => by
      cases hnext
      rfl
    exact ⟨next, [], hnext, by simp [hpolled], rfl⟩
  | poll j =>
    obtain ⟨other, next, hother, hnext, rfl⟩ := withClient_eq_some.mp h
    by_cases hj : j = i
    · subst hj
      rw [hclient] at hother
      cases hother
      split at hnext
      · cases hnext
      · cases hnext
        have hgiven : given give j s (.poll j) = give client := by
          simp [given, hclient]
        rcases WebClientStream.pollNext_cases Empty client with
          ⟨payload, queue, -, hpoll⟩ | ⟨-, hpoll⟩
        · refine ⟨_, [payload], List.getElem?_set_self hlt, by rw [hpoll], ?_⟩
          rw [hgiven, hgives client, hpoll]
          simp
        · refine ⟨_, [], List.getElem?_set_self hlt, ?_, ?_⟩
          · rw [hpoll]
            split <;> simp
          · rw [hgiven, hgives client, hpoll]
            cases client.taskEnded <;> rfl
    · refine ⟨client, [], by rw [List.getElem?_set_ne hj, hclient], by simp, ?_⟩
      simp [given, hj]

/-- Of the payloads that are polled in a run the bytes are given. -/
theorem emitted_run (hgives : Gives give chunk) {events : List Event}
    (hclient : s.clients[i]? = some client) (h : events.foldlM step s = some t) : ∃ next polled,
      t.clients[i]? = some next ∧ next.polled = client.polled ++ polled ∧
      emitted give i s events = (polled.map chunk).flatten := by
  induction events generalizing s client with
  | nil =>
    cases h
    exact ⟨client, [], hclient, by simp, rfl⟩
  | cons event events ih =>
    rw [List.foldlM_cons] at h
    obtain ⟨u, hstep, hrest⟩ := Option.bind_eq_some_iff.mp h
    obtain ⟨between, now, hbetween, hnow, hgiven⟩ := given_step hgives hclient hstep
    obtain ⟨next, later, hnext, hlater, hemitted⟩ := ih hbetween hrest
    refine ⟨next, now ++ later, hnext, by rw [hlater, hnow, List.append_assoc], ?_⟩
    rw [emitted, hstep, hgiven, List.map_append, List.flatten_append, ← hemitted]

/-- What a bridge has given is made of what its client has polled, and this was sent after the
client had subscribed. -/
theorem emitted_after {E : Type} {subscribed : Except (ClientError E) Unit} {topic : String}
    {broadcastCapacity : ℕ} {hub s s' t : MqttBroadcastHub} {events : List Event}
    (hnew : new subscribed topic broadcastCapacity = .ok hub) (hbefore : Reaches Any hub s)
    (hsubscribe : s.step .subscribe = some s') (hevents : events.foldlM step s' = some t)
    (hgives : Gives give chunk) :
    ∃ client later, t.clients[s.clients.length]? = some client ∧ t.sent = s.sent ++ later ∧
      client.polled.Sublist later ∧
      emitted give s.clients.length s' events = (client.polled.map chunk).flatten := by
  have hafter : Reaches Any s' t :=
    Machine.foldlM_invariant hevents .refl fun _ _ event hreached hstep =>
      hreached.tail ⟨event, trivial, hstep⟩
  obtain ⟨client, later, hclient, hsent, -, -, hsublist⟩ :=
    client_after hnew hbefore hsubscribe hafter
  have hstart : s'.clients[s.clients.length]? = some (.subscribed s.sender) := by
    obtain ⟨-, rfl⟩ := withHandle_eq_some.mp hsubscribe
    rw [List.getElem?_append_right le_rfl, Nat.sub_self]
    rfl
  obtain ⟨next, polled, hnext, hpolled, hemitted⟩ := emitted_run hgives hstart hevents
  rw [hclient] at hnext
  cases hnext
  have hall : client.polled = polled := hpolled
  exact ⟨client, later, hclient, hsent, hsublist, by rw [hall, hemitted]⟩

end

end MqttBroadcastHub

end MqttEngine.Bridges
