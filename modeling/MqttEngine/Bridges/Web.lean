import MqttEngine.Lib.EventStream
import MqttEngine.Tokio.SensorData

/-!
# The bridge to server-sent events

`TelemetrySseBridge` of `web.rs` turns each payload that it polls into an event of an event stream.
The payload becomes the value of one `data` field as it is. So it must not end the line of that
field: a payload with line breaks comes out cut, and what comes after a line break is taken for
fields of its own.

## Main definitions

* `TelemetrySseBridge.pollNext` — the bridge.
* `Intact` — what a payload should come out as.

## Main results

* `intact_iff` — the payloads that do.
-/

namespace MqttEngine.Bridges
open MqttEngine.Tokio

/-- `Poll`. -/
inductive Poll (α : Type)
  | ready (a : α)
  | pending

namespace TelemetrySseBridge

/-- The bytes that are emitted for a payload. -/
def event (payload : List UInt8) : List UInt8 := strBytes "data: " ++ payload ++ strBytes "\n\n"

/-- `poll_next`, when the stream below has been polled. -/
def pollNext {E : Type} :
    Poll (Option (Except (ClientError E) (List UInt8))) →
      Poll (Option (Except (ClientError E) (List UInt8)))
  | .ready (some (.ok payload)) => .ready (some (.ok (event payload)))
  | .ready (some (.error e)) => .ready (some (.error e))
  | .ready none => .ready none
  | .pending => .pending

end TelemetrySseBridge

/-- The stream has one event, whose data are the payload with LF at the end of each line, and no
field of another meaning. -/
structure Intact (bytes : List UInt8) (payload : String) : Prop where
  plain : ∀ block ∈ EventStream.parse (EventStream.textOf bytes), ∀ field ∈ block,
    field.name ≠ "event".toList ∧ field.name ≠ "id".toList ∧ field.name ≠ "retry".toList
  single : ∃ block, EventStream.events (EventStream.textOf bytes) = [block] ∧
    EventStream.dataOf block = EventStream.normalize false payload.toList

/-- What is emitted is the payload in a `data` field. -/
theorem textOf_event (payload : String) :
    EventStream.textOf (TelemetrySseBridge.event (strBytes payload)) =
      EventStream.dataEvent payload.toList := by
  have hbytes : TelemetrySseBridge.event (strBytes payload) =
      Utf8.encode (EventStream.dataEvent payload.toList) := by
    unfold EventStream.dataEvent
    rw [TelemetrySseBridge.event, strBytes_eq_encode, strBytes_eq_encode, strBytes_eq_encode,
      Utf8.encode, Utf8.encode, Utf8.encode, Utf8.encode, List.flatMap_append, List.flatMap_append]
    rfl
  rw [hbytes, EventStream.textOf, Utf8.lossy_encode]
  rfl

/-- A payload with a line break is cut. -/
theorem Intact.oneLine {payload : String}
    (h : Intact (TelemetrySseBridge.event (strBytes payload)) payload) :
    EventStream.OneLine payload.toList := by
  by_contra hbroken
  obtain ⟨block, hevent, hdata⟩ := h.single
  rw [textOf_event] at hevent
  have hlt := EventStream.length_dataOf_lt hbroken hevent
  rw [hdata] at hlt
  exact lt_irrefl _ hlt

/-- **A payload comes out intact just if it is a single line.** -/
theorem intact_iff (E : Type) (payload : String) :
    ∃ bytes, TelemetrySseBridge.pollNext (E := E) (.ready (some (.ok (strBytes payload)))) =
        .ready (some (.ok bytes)) ∧
      (Intact bytes payload ↔ '\r' ∉ payload.toList ∧ '\n' ∉ payload.toList) := by
  refine ⟨_, rfl, Intact.oneLine, fun h => ?_⟩
  have hparse := EventStream.parse_dataEvent h
  constructor
  · intro block hblock field hfield
    rw [textOf_event, hparse, List.mem_singleton] at hblock
    rw [hblock, List.mem_singleton] at hfield
    subst hfield
    simp
  · rw [textOf_event, EventStream.events, hparse, EventStream.normalize_of_oneLine h]
    exact ⟨_, rfl, by simp [EventStream.dataOf, EventStream.dataValues]⟩

/-- A payload with a line break and the name of a field. -/
theorem not_intact_injected :
    ¬ Intact (TelemetrySseBridge.event (strBytes "21.5\nevent: alarm")) "21.5\nevent: alarm" := by
  intro h
  exact absurd h.oneLine (by decide)

end MqttEngine.Bridges
