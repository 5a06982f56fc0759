import MqttEngine.Bridges.Emission

/-!
# Server-sent events in a run of the hub

`TelemetrySseBridge` on the stream of a web client. As long as the payloads are single lines of
text, a browser gets one event for each of them.

## Main results

* `data_emitted` — a browser gets the payloads that were sent after it had subscribed, in order.
-/

namespace MqttEngine.Bridges
open MqttEngine.Tokio

namespace TelemetrySseBridge

/-- The bytes that the bridge gives when it is polled. -/
def give (client : WebClientStream) : List UInt8 := bytes (pollNext (client.pollNext Empty).1)

theorem gives_give : Gives give event := by
  intro client
  rw [give]
  rcases WebClientStream.pollNext_cases Empty client with ⟨payload, queue, -, hpoll⟩ | ⟨-, hpoll⟩
  · rw [hpoll]
    rfl
  · rw [hpoll]
    cases client.taskEnded <;> rfl

/-- A payload that is a single line of text. -/
def Line (payload : List UInt8) : Prop :=
  ∃ text : String, payload = strBytes text ∧ EventStream.OneLine text.toList

theorem exists_texts {payloads : List (List UInt8)} (h : ∀ payload ∈ payloads, Line payload) :
    ∃ texts : List String, payloads = texts.map strBytes ∧
      ∀ text ∈ texts.map String.toList, EventStream.OneLine text := by
  induction payloads with
  | nil => exact ⟨[], rfl, by simp⟩
  | cons payload payloads ih =>
    rw [List.forall_mem_cons] at h
    obtain ⟨text, rfl, hone⟩ := h.1
    obtain ⟨texts, rfl, hall⟩ := ih h.2
    exact ⟨text :: texts, rfl, List.forall_mem_cons.mpr ⟨hone, hall⟩⟩

theorem event_strBytes (text : String) :
    event (strBytes text) = Utf8.encode (EventStream.dataEvent text.toList) := by
  unfold EventStream.dataEvent
  rw [event, strBytes_eq_encode, strBytes_eq_encode, strBytes_eq_encode, Utf8.encode_append,
    Utf8.encode_append]
  rfl

/-- The text of events begins with the name of a field. -/
theorem textOf_events (texts : List String) :
    EventStream.textOf ((texts.map fun text => event (strBytes text)).flatten) =
      (texts.map String.toList).flatMap EventStream.dataEvent := by
  have hbytes : (texts.map fun text => event (strBytes text)).flatten =
      Utf8.encode ((texts.map String.toList).flatMap EventStream.dataEvent) := by
    induction texts with
    | nil => rfl
    | cons text texts ih =>
      rw [List.map_cons, List.flatten_cons, ih, event_strBytes, List.map_cons, List.flatMap_cons,
        Utf8.encode_append]
  rw [hbytes, EventStream.textOf, Utf8.lossy_encode]
  cases texts <;> rfl

/-- **A browser gets the payloads that were sent after it had subscribed, in order**, if they are
single lines of text. In every run of the hub the events that it finds in what the bridge has given
are those of the payloads that the bridge has polled, and these are some of the payloads that were
sent since then, in their order and each at most once. -/
theorem data_emitted {E : Type} {subscribed : Except (ClientError E) Unit} {topic : String}
    {broadcastCapacity : ℕ} {hub s s' t : MqttBroadcastHub} {events : List MqttBroadcastHub.Event}
    (hnew : MqttBroadcastHub.new subscribed topic broadcastCapacity = .ok hub)
    (hbefore : MqttBroadcastHub.Reaches MqttBroadcastHub.Any hub s)
    (hsubscribe : s.step .subscribe = some s')
    (hevents : events.foldlM MqttBroadcastHub.step s' = some t)
    (hlines : ∀ payload ∈ t.sent.drop s.sent.length, Line payload) :
    ∃ (client : WebClientStream) (texts : List String),
      t.clients[s.clients.length]? = some client ∧
      client.polled = texts.map strBytes ∧
      client.polled.Sublist (t.sent.drop s.sent.length) ∧
      (EventStream.events (EventStream.textOf
        (MqttBroadcastHub.emitted give s.clients.length s' events))).map EventStream.dataOf =
          texts.map String.toList := by
  obtain ⟨client, later, hclient, hsent, hsublist, hemitted⟩ :=
    MqttBroadcastHub.emitted_after hnew hbefore hsubscribe hevents gives_give
  rw [hsent, List.drop_left] at hlines ⊢
  obtain ⟨texts, htexts, hone⟩ := exists_texts fun payload hpayload =>
    hlines payload (hsublist.subset hpayload)
  refine ⟨client, texts, hclient, htexts, hsublist, ?_⟩
  rw [hemitted, htexts, List.map_map]
  exact (congrArg _ (congrArg _ (textOf_events texts))).trans (EventStream.map_dataOf_events hone)

/-- A reading, on its way from the worker to the browser. -/
theorem data_emitted_reading : ∃ s t,
    MqttBroadcastHub.fresh.step .subscribe = some s ∧
    [.message (some (.new "t" (strBytes "21.5"))), .task 0, .task 0, .poll 0].foldlM
      MqttBroadcastHub.step s = some t ∧
    ∃ (client : WebClientStream) (texts : List String), t.clients[0]? = some client ∧
      client.polled = texts.map strBytes ∧ client.polled.Sublist t.sent ∧
      (EventStream.events (EventStream.textOf (MqttBroadcastHub.emitted give 0 s
        [.message (some (.new "t" (strBytes "21.5"))), .task 0, .task 0, .poll 0]))).map
          EventStream.dataOf = texts.map String.toList := by
  refine ⟨_, _, rfl, rfl, data_emitted MqttBroadcastHub.new_fresh .refl rfl rfl ?_⟩
  intro payload hpayload
  obtain rfl : payload = strBytes "21.5" := List.mem_singleton.mp hpayload
  exact ⟨"21.5", rfl, by decide⟩

end TelemetrySseBridge

end MqttEngine.Bridges
