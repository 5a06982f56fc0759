import MqttEngine.Embedded.Client
import MqttEngine.Lib.Machine
import Mathlib.Logic.Relation

/-!
# Runs of the embedded client

A program that owns a client calls its operations one after the other. While a stream writer
is alive it borrows the client's transport, so that only the writer can be called. The
environment adds to what the transport will receive. `ClientSystem.step` is one call that returns;
a call that panics, or that waits for bytes which never come, has no next state.

Beside the client and the writer the state records what has been handed to `send`: since
`connect` was last called, and since it was last called with success.

## Main definitions

* `Call`, `ClientSystem`, `ClientSystem.step` — the calls and what they do.
* `ClientSystem.Runs` — runs in which every call meets a condition, and `ClientSystem.run`,
  which computes one.
-/

namespace MqttEngine

/-- A call of an operation of the client. -/
inductive ClientCall
  | connect (now : ℕ)
  | publish (topic : String) (payload : List UInt8) (qos : QoS) (now : ℕ)
  | publishBatch (messages : List PublishMessage) (now : ℕ)
  | beginStreamPublish (topic : String) (totalPayloadLen : ℕ) (qos : QoS) (now : ℕ)
  | subscribe (topics : List (String × QoS)) (now : ℕ)
  | unsubscribe (topics : List String) (now : ℕ)
  | poll (now : ℕ)
  | pollBatch (maxEvents : ℕ)
  | disconnect

/-- A call of an operation of a stream writer, or its end. -/
inductive WriterCall
  | writeChunk (chunk : List UInt8)
  | writeDmaVectored (slices : List (List UInt8))
  | finish
  | drop

/-- What happens next. -/
inductive Call (E : Type) (bufSize : ℕ)
  | client (call : ClientCall)
  | writer (call : WriterCall)
  /-- The transport is given the result of a receive to come. -/
  | receive (result : Except E (BoundedVec UInt8 bufSize))

section
variable {E : Type} {bufSize maxInflight : ℕ}

/-- The call as a program, which yields the stream writer that it makes. -/
def ClientCall.exec : ClientCall → ClientM E bufSize maxInflight (Option MqttStreamWriter)
  | .connect now => do MqttClient.connect now; pure none
  | .publish topic payload qos now => do MqttClient.publish topic payload qos now; pure none
  | .publishBatch messages now => do let _ ← MqttClient.publishBatch messages now; pure none
  | .beginStreamPublish topic total qos now => do
    let writer ← MqttClient.beginStreamPublish topic total qos now
    pure (some writer)
  | .subscribe topics now => do let _ ← MqttClient.subscribe topics now; pure none
  | .unsubscribe topics now => do let _ ← MqttClient.unsubscribe topics now; pure none
  | .poll now => do let _ ← MqttClient.poll now; pure none
  | .pollBatch maxEvents => do let _ ← MqttClient.pollBatch maxEvents; pure none
  | .disconnect => do MqttClient.disconnect; pure none

/-- The call as a program, which yields the writer that is left. -/
def WriterCall.exec (writer : MqttStreamWriter) :
    WriterCall → ClientM E bufSize maxInflight (Option MqttStreamWriter)
  | .writeChunk chunk => do
    let writer ← MqttClient.writeChunk writer chunk
    pure (some writer)
  | .writeDmaVectored slices => do
    let writer ← MqttClient.writeDmaVectored writer slices
    pure (some writer)
  | .finish => do MqttClient.finish writer; pure none
  | .drop => pure none

/-- What every send keeps, a call on the writer keeps. -/
theorem preserves_writer {I : MqttClient E bufSize maxInflight → Prop}
    (h : ∀ bytes, Preserves I (MqttClient.send bytes)) (writer : MqttStreamWriter)
    (call : WriterCall) : Preserves I (call.exec writer) := by
  cases call with
  | writeChunk chunk =>
    apply Preserves.bind
    · apply Preserves.ite
      · intro _
        exact Preserves.throw _
      · intro _
        exact Preserves.bind (h chunk) fun _ => Preserves.pure _
    · exact fun _ => Preserves.pure _
  | writeDmaVectored slices =>
    have hslices : Preserves I (MqttClient.sendVectored slices) := by
      apply Preserves.forM
      intro slice _
      exact Preserves.ite (fun _ => h slice) fun _ => Preserves.pure _
    apply Preserves.bind
    · apply Preserves.ite
      · intro _
        exact Preserves.throw _
      · intro _
        exact Preserves.bind hslices fun _ => Preserves.pure _
    · exact fun _ => Preserves.pure _
  | finish =>
    apply Preserves.bind
    · exact Preserves.ite (fun _ => Preserves.pure _) fun _ => Preserves.throw _
    · exact fun _ => Preserves.pure _
  | drop => exact Preserves.pure _

/-- The writer that is left when the call returns an error: `finish` consumes it either way. -/
def WriterCall.onError (writer : MqttStreamWriter) : WriterCall → Option MqttStreamWriter
  | .finish | .drop => none
  | _ => some writer

end

/-- The client, the stream writer that borrows it, and a record of what has been sent. -/
structure ClientSystem (E : Type) (bufSize maxInflight : ℕ) where
  client : MqttClient E bufSize maxInflight
  /-- The stream writer, while it is alive. -/
  writer : Option MqttStreamWriter
  /-- The packet id of the publish that was last begun as a stream. -/
  streamId : Option UInt16
  /-- The buffers handed to `send` since `connect` was last called. -/
  attempt : List (List UInt8)
  /-- The buffers handed to `send` since `connect` was last called with success. -/
  session : List (List UInt8)

namespace ClientSystem
variable {E : Type} {bufSize maxInflight : ℕ}

/-- A new client, at the instant `now`, over any transport. -/
def startOver (transport : Transport E bufSize) (options : MqttOptions) (now : ℕ) :
    ClientSystem E bufSize maxInflight :=
  { client := .new transport options now, writer := none, streamId := none, attempt := []
    session := [] }

/-- The same over a transport whose sends do not fail. -/
def start (options : MqttOptions) (incoming : List (Except E (BoundedVec UInt8 bufSize)))
    (now : ℕ) : ClientSystem E bufSize maxInflight :=
  { client := .new { sent := [], sendResults := [], incoming } options now
    writer := none, streamId := none, attempt := [], session := [] }

/-- What has been handed to `send` between two states. -/
def newlySent (client client' : MqttClient E bufSize maxInflight) : List (List UInt8) :=
  client'.transport.sent.drop client.transport.sent.length

/-- The state after a call on the client, which has returned a value if `ok` holds. -/
def afterClient (self : ClientSystem E bufSize maxInflight) (call : ClientCall) (ok : Bool)
    (writer : Option MqttStreamWriter) (client : MqttClient E bufSize maxInflight) :
    ClientSystem E bufSize maxInflight :=
  let sent := newlySent self.client client
  match call with
  | .connect _ =>
    { self with
      client, writer, attempt := sent, session := if ok then sent else self.session ++ sent }
  | .beginStreamPublish _ _ qos _ =>
    { client, writer, attempt := self.attempt ++ sent, session := self.session ++ sent
      streamId := if qos = .atMostOnce then none else some self.client.nextPacketId }
  | _ =>
    { self with
      client, writer, attempt := self.attempt ++ sent, session := self.session ++ sent }

/-- The state after a call on the writer. -/
def afterWriter (self : ClientSystem E bufSize maxInflight) (writer : Option MqttStreamWriter)
    (client : MqttClient E bufSize maxInflight) : ClientSystem E bufSize maxInflight :=
  let sent := newlySent self.client client
  { self with
    client, writer, attempt := self.attempt ++ sent, session := self.session ++ sent }

/-- The state after a call that returns. -/
def step (self : ClientSystem E bufSize maxInflight) :
    Call E bufSize → Option (ClientSystem E bufSize maxInflight)
  | .client call =>
    if self.writer.isSome then none
    else
      match call.exec self.client with
      | .ok writer client => some (self.afterClient call true writer client)
      | .error (.err _) client => some (self.afterClient call false none client)
      | .error _ _ => none
  | .writer call =>
    match self.writer with
    | none => none
    | some writer =>
      match call.exec writer self.client with
      | .ok writer client => some (self.afterWriter writer client)
      | .error (.err _) client => some (self.afterWriter (call.onError writer) client)
      | .error _ _ => none
  | .receive result =>
    let transport := self.client.transport
    some { self with
      client := { self.client with
        transport := { transport with incoming := transport.incoming ++ [result] } } }

/-- What a call on the client does: it is made while no writer is alive, and returns. -/
theorem step_client {s t : ClientSystem E bufSize maxInflight} {call : ClientCall}
    (h : s.step (.client call) = some t) :
    s.writer = none ∧
      ((∃ writer client, call.exec s.client = .ok writer client ∧
          t = s.afterClient call true writer client) ∨
        ∃ e client, call.exec s.client = .error (.err e) client ∧
          t = s.afterClient call false none client) := by
  rw [step] at h
  split at h
  · cases h
  · rename_i hwriter
    refine ⟨by simpa using hwriter, ?_⟩
    split at h
    · rename_i writer client hexec
      exact .inl ⟨writer, client, hexec, (Option.some.inj h).symm⟩
    · rename_i e client hexec
      exact .inr ⟨e, client, hexec, (Option.some.inj h).symm⟩
    · cases h

/-- What a call on the writer does. -/
theorem step_writer {s t : ClientSystem E bufSize maxInflight} {call : WriterCall}
    (h : s.step (.writer call) = some t) :
    ∃ writer, s.writer = some writer ∧
      ((∃ left client, call.exec writer s.client = .ok left client ∧
          t = s.afterWriter left client) ∨
        ∃ e client, call.exec writer s.client = .error (.err e) client ∧
          t = s.afterWriter (call.onError writer) client) := by
  rw [step] at h
  split at h
  · cases h
  · rename_i writer hwriter
    refine ⟨writer, hwriter, ?_⟩
    split at h
    · rename_i left client hexec
      exact .inl ⟨left, client, hexec, (Option.some.inj h).symm⟩
    · rename_i e client hexec
      exact .inr ⟨e, client, hexec, (Option.some.inj h).symm⟩
    · cases h

/-- Runs in which every call meets a condition on the state before it. -/
def Runs (ok : ClientSystem E bufSize maxInflight → Call E bufSize → Prop) :
    ClientSystem E bufSize maxInflight → ClientSystem E bufSize maxInflight → Prop :=
  Relation.ReflTransGen fun s t => ∃ call, ok s call ∧ s.step call = some t

/-- The end of a list of calls, if each of them meets the condition and returns. -/
def run (ok : ClientSystem E bufSize maxInflight → Call E bufSize → Prop)
    [∀ s call, Decidable (ok s call)] (calls : List (Call E bufSize))
    (s : ClientSystem E bufSize maxInflight) : Option (ClientSystem E bufSize maxInflight) :=
  calls.foldlM (fun s call => if ok s call then s.step call else none) s

theorem runs_of_run {ok : ClientSystem E bufSize maxInflight → Call E bufSize → Prop}
    [∀ s call, Decidable (ok s call)] {calls : List (Call E bufSize)}
    {s t : ClientSystem E bufSize maxInflight} (h : run ok calls s = some t) : Runs ok s t :=
  Machine.reaches_of_replay h

/-- What every start has, and every step of a run keeps, holds at the end of a run. -/
theorem Runs.invariant {ok : ClientSystem E bufSize maxInflight → Call E bufSize → Prop}
    {I : ClientSystem E bufSize maxInflight → Prop} {s t : ClientSystem E bufSize maxInflight}
    (h : Runs ok s t) (hs : I s)
    (hstep : ∀ s t call, I s → ok s call → s.step call = some t → I t) : I t :=
  Machine.Reaches.invariant h hs hstep

end ClientSystem

/-- The options of the runs on fixed inputs: version 3.1.1, and nothing that is optional. -/
def plainOptions : MqttOptions :=
  { clientId := "c", keepAlive := 60000000, cleanSession := true, username := none,
    password := none, will := none, properties := .empty, version := .v3_1_1 }

/-- A client that has connected, over a transport that never fails. -/
def onlineClient (bufSize : ℕ) : MqttClient Unit bufSize 4 :=
  { MqttClient.new ⟨[], [], []⟩ plainOptions 0 with state := .connected }

/-- A CONNACK that accepts the connection. -/
def connAckAccepted : BoundedVec UInt8 64 := ⟨[0x20, 0x02, 0x00, 0x00], by decide⟩

end MqttEngine
