import MqttEngine.Embedded.PacketIds
import MqttEngine.Tokio.PendingIds

/-!
# The cycle of packet ids

Both clients take their packet ids from `get_next_packet_id`, which does not look at what the ids
are for. The ids are 1 to 65535 in order, again and again, whether the function is called in a
row or in between other operations, and whether or not an operation that has taken an id goes
on to fail.

## Main results

* `allocates_getNextPacketId` — calls in a row, for the client and for the event loop.
* `packetIds_cycle` — calls in a row, and the ids that are taken in a run.
-/

namespace MqttEngine
open Rolling

namespace MqttClient
variable {E : Type} {bufSize maxInflight : ℕ}

theorem draws_getNextPacketId :
    Draws nextPacketId (getNextPacketId : ClientM E bufSize maxInflight UInt16) :=
  fun _ => ⟨_, rfl, rfl⟩

theorem allocates_getNextPacketId (transport : Transport E bufSize) (options : MqttOptions)
    (now : ℕ) :
    Allocates getNextPacketId (.new transport options now : MqttClient E bufSize maxInflight) :=
  draws_getNextPacketId.allocates rfl

end MqttClient

namespace Tokio.EventLoop
variable {E R S W : Type} {maxPacketSize : ℕ}

theorem draws_getNextPacketId :
    Draws (fun c => c.nextPacketId) (getNextPacketId : ConnM E R S W maxPacketSize UInt16) :=
  fun _ => ⟨_, rfl, rfl⟩

theorem allocates_getNextPacketId (options : ClientOptions) (channels : W) (now : ℕ)
    (socket : Socket E) :
    Allocates getNextPacketId
      ({ EventLoop.new options channels now with socket } : Conn E R S W maxPacketSize) :=
  draws_getNextPacketId.allocates rfl

end Tokio.EventLoop

section
variable {E R S W : Type} (bufSize maxInflight maxPacketSize : ℕ) [DecidableEq S]

/-- A new client and a new event loop hand out ids that cycle, to any number of calls in a row
and to the operations of any run. -/
theorem packetIds_cycle (transport : Transport E bufSize) (options : MqttOptions)
    (loopOptions : Tokio.ClientOptions) (channels : W) (socket : Tokio.Socket E)
    (ch : Mpsc W S Tokio.PublishMessage) (order : Tokio.HashOrder) (now : ℕ) :
    (Allocates MqttClient.getNextPacketId
        (.new transport options now : MqttClient E bufSize maxInflight) ∧
      Allocates Tokio.EventLoop.getNextPacketId
        ({ Tokio.EventLoop.new loopOptions channels now with socket } :
          Tokio.Conn E R S W maxPacketSize)) ∧
      (∀ (log : List Take) (s : ClientSystem E bufSize maxInflight),
        ClientSystem.LoggedRun (.startOver transport options now) log s → Cycles (log.map (·.id))) ∧
      ∀ (log : List Take) (s : Tokio.LoopSystem E R S W maxPacketSize),
        Tokio.LoopSystem.LoggedRun ch order (.start loopOptions channels now) log s →
          Cycles (log.map (·.id)) := by
  refine ⟨⟨MqttClient.allocates_getNextPacketId transport options now,
    Tokio.EventLoop.allocates_getNextPacketId loopOptions channels now socket⟩, ?_, ?_⟩
  · intro log s h
    exact (ClientSystem.rolls_of_loggedRun h).cycles
  · intro log s h
    exact (Tokio.LoopSystem.rolls_of_loggedRun h).1.cycles

end

/-- The messages of a batch above QoS 0 take an id each. -/
def batching : List (Call Unit 64) :=
  [.client (.connect 0),
    .client (.publishBatch [⟨"a", [1], .atLeastOnce, false⟩, ⟨"a", [], .atMostOnce, false⟩,
      ⟨"a", [2], .exactlyOnce, false⟩] 0)]

/-- A run of the client that takes two ids, and one of the event loop that takes three. -/
theorem packetIds_cycle_runs :
    (∃ (log : List Take) (s : ClientSystem Unit 64 4),
      ClientSystem.LoggedRun (.startOver ⟨[], [], [.ok connAckAccepted]⟩ plainOptions 0) log s ∧
        log.map (·.id) = [1, 2] ∧ Cycles (log.map (·.id))) ∧
      ∃ (log : List Take) (s : Tokio.LoopSystem Unit ℕ ℕ (ℕ → Queue Tokio.PublishMessage) 64),
        Tokio.LoopSystem.LoggedRun (.queues ℕ Tokio.PublishMessage) Tokio.LoopSystem.listed
          Tokio.LoopSystem.fresh log s ∧ log.map (·.id) = [1, 2, 3] ∧ Cycles (log.map (·.id)) := by
  have hclient : (ClientSystem.runLogged batching
      (.startOver ⟨[], [], [.ok connAckAccepted]⟩ plainOptions 0 : ClientSystem Unit 64 4)).map
        (fun x => x.1.map (·.id)) = some [1, 2] := by
    decide +kernel
  have hloop : (Tokio.LoopSystem.runLogged (.queues ℕ Tokio.PublishMessage) Tokio.LoopSystem.listed
      Tokio.LoopSystem.questioning Tokio.LoopSystem.fresh).map (fun x => x.1.map (·.id)) =
        some [1, 2, 3] := by
    decide +kernel
  obtain ⟨⟨log, s⟩, hrun, hids⟩ := Option.map_eq_some_iff.mp hclient
  obtain ⟨⟨loopLog, loop⟩, hloopRun, hloopIds⟩ := Option.map_eq_some_iff.mp hloop
  have hlogged := ClientSystem.loggedRun_of_runLogged hrun
  have hloopLogged := Tokio.LoopSystem.loggedRun_of_runLogged _ _ hloopRun
  obtain ⟨-, hcycles, hloopCycles⟩ := packetIds_cycle 64 4 64 ⟨[], [], [.ok connAckAccepted]⟩
    plainOptions (.new "c" fun _ => 0) (fun _ => ⟨false, [], 128⟩) Tokio.LoopSystem.accepting
    (.queues ℕ Tokio.PublishMessage) Tokio.LoopSystem.listed 0 (R := ℕ)
  exact ⟨⟨log, s, hlogged, hids, hcycles log s hlogged⟩, loopLog, loop, hloopLogged, hloopIds,
    hloopCycles loopLog loop hloopLogged⟩

end MqttEngine
