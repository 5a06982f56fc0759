import MqttEngine.Embedded.Keeping
import MqttEngine.Embedded.Publishing
import MqttEngine.Lib.RollingIds

/-!
# The packet ids that the client takes

`get_next_packet_id` hands out ids from a rolling counter, which does not look at the
in-flight table. `MqttClient.takes` lists the ids that a call takes, each with the outbound
ids that are in the table at that moment, and `LoggedRun` collects them over a run. A publish
of QoS 1 or 2 keeps its id, and SUBSCRIBE and UNSUBSCRIBE only use theirs.

## Main definitions

* `ClientCall.takes`, `ClientSystem.takes` — the ids that a call takes.
* `LoggedRun` — runs with the record of the ids that were taken.

## Main results

* `takes_exec` — a call takes its ids one after the other, and the table gets no others.
* `fresh_iff_unlapped` — when a run takes an id that is still in use.
-/

namespace MqttEngine
open Checked MqttClient Rolling

section
variable {E : Type} {bufSize maxInflight : ℕ}

/-! ## What a call takes -/

/-- The ids of the outbound entries in the table. -/
def pendingIds (table : InflightQueue maxInflight) : List UInt16 :=
  (table.toList.filter fun e => e.status.Outbound).map (·.packetId)

theorem mem_pendingIds {table : InflightQueue maxInflight} {i : UInt16} :
    i ∈ pendingIds table ↔ i ∈ table.outboundIds := by
  simp [pendingIds, InflightQueue.outboundIds, and_assoc]

namespace MqttClient

/-- The next id is taken. -/
def takeNext (c : MqttClient E bufSize maxInflight) (keeps : Bool) : Take :=
  { id := c.nextPacketId, keeps, pending := pendingIds c.inflight }

/-- A publish takes an id above QoS 0. -/
def publishTakes (c : MqttClient E bufSize maxInflight) (qos : QoS) : List Take :=
  if qos ≠ .atMostOnce then [c.takeNext true] else []

/-- The rounds of a batch take their ids one after the other. -/
def batchTakes : List PublishMessage → ℕ → MqttClient E bufSize maxInflight → List Take
  | [], _, _ => []
  | msg :: messages, cursor, c =>
    c.publishTakes msg.qos ++
      match publishBatchRound msg cursor c with
      | .ok cursor c => batchTakes messages cursor c
      | .error _ _ => []

end MqttClient

/-- The ids that a call takes. -/
def ClientCall.takes (c : MqttClient E bufSize maxInflight) (call : ClientCall) : List Take :=
  if c.state ≠ .connected then []
  else
    match call with
    | .publish _ _ qos _ | .beginStreamPublish _ _ qos _ => c.publishTakes qos
    | .publishBatch messages _ => batchTakes messages 0 c
    | .subscribe _ _ | .unsubscribe _ _ => [c.takeNext false]
    | .connect _ | .poll _ | .pollBatch _ | .disconnect => []

namespace ClientSystem

/-- The ids that a call takes; while a writer is alive the client cannot be called. -/
def takes (s : ClientSystem E bufSize maxInflight) : Call E bufSize → List Take
  | .client call => if s.writer.isSome then [] else call.takes s.client
  | _ => []

/-- Runs with the ids that they have taken. -/
inductive LoggedRun (s₀ : ClientSystem E bufSize maxInflight) :
    List Take → ClientSystem E bufSize maxInflight → Prop
  | start : LoggedRun s₀ [] s₀
  | step {log : List Take} {s t : ClientSystem E bufSize maxInflight} {call : Call E bufSize}
      (h : LoggedRun s₀ log s) (hstep : s.step call = some t) :
      LoggedRun s₀ (log ++ s.takes call) t

/-- The end of a list of calls that all return, with the ids that they have taken. -/
def runLogged (calls : List (Call E bufSize)) (s : ClientSystem E bufSize maxInflight) :
    Option (List Take × ClientSystem E bufSize maxInflight) :=
  calls.foldlM (fun (log, s) call => (s.step call).map fun t => (log ++ s.takes call, t)) ([], s)

theorem loggedRun_of_runLogged {calls : List (Call E bufSize)}
    {s t : ClientSystem E bufSize maxInflight} {log : List Take}
    (h : runLogged calls s = some (log, t)) : LoggedRun s log t := by
  refine Machine.foldlM_invariant (I := fun x => LoggedRun s x.1 x.2) h .start ?_
  rintro ⟨log₁, s₁⟩ ⟨log₂, s₂⟩ call hrun hcall
  obtain ⟨t, hstep, heq⟩ := Option.map_eq_some_iff.mp hcall
  cases heq
  exact hrun.step hstep

end ClientSystem

/-! ## What the operations leave alone -/

namespace MqttClient

/-- The next id is the same, and no id has come into the table. -/
structure SameIds (c c' : MqttClient E bufSize maxInflight) : Prop where
  next : c'.nextPacketId = c.nextPacketId
  ids : c'.inflight.outboundIds ⊆ c.inflight.outboundIds

variable {c₀ c : MqttClient E bufSize maxInflight}

theorem SameIds.refl : SameIds c c := ⟨rfl, subset_rfl⟩

/-- The client is changed, but neither the table nor the counter. -/
theorem SameIds.congr {c' : MqttClient E bufSize maxInflight} (h : SameIds c₀ c)
    (hnext : c'.nextPacketId = c.nextPacketId) (htable : c'.inflight = c.inflight) :
    SameIds c₀ c' := ⟨hnext.trans h.next, by rw [htable]; exact h.ids⟩

/-- The steps of the operations leave the ids alone. -/
theorem upheld_sameIds : Upheld (SameIds c₀) where
  sent bytes s hs := by
    rw [Ends, send]
    rcases s.transport.sendResults with _ | ⟨_ | e, rest⟩
    · exact hs.congr rfl rfl
    · exact hs.congr rfl rfl
    · exact hs.congr rfl rfl
  received s hs := by
    rw [Ends, recv]
    rcases s.transport.incoming with _ | ⟨e | chunk, rest⟩
    · exact hs
    · exact hs.congr rfl rfl
    · exact hs.congr rfl rfl
  encoded _ _ hs := hs.congr rfl rfl
  touched _ := Preserves.modify fun _ hs => hs.congr rfl rfl
  filled _ := Preserves.modify fun _ hs => hs.congr rfl rfl
  disconnected := Preserves.modify fun _ hs => hs.congr rfl rfl
  tabled f hf := by
    apply Preserves.modify
    intro s hs
    refine ⟨hs.next, Set.Subset.trans ?_ hs.ids⟩
    rcases hq : f s.inflight with _ | q
    · exact subset_rfl
    · exact hf _ _ hq

theorem sameIds_connect (now : ℕ) : Preserves (SameIds c₀) (connect now) := by
  have hrefuse (e : MqttError E) : Preserves (SameIds c₀)
      (do setState .disconnected; fail e : ClientM E bufSize maxInflight Unit) :=
    Preserves.bind upheld_sameIds.disconnected fun _ => Preserves.throw _
  have hconnecting : Preserves (SameIds c₀) (setState .connecting) :=
    Preserves.modify fun _ hs => hs.congr rfl rfl
  apply Preserves.bind hconnecting
  intro _
  apply Preserves.get_bind
  intro s _
  apply Preserves.bind (carried_sendPacket upheld_sameIds.carried _)
  intro _
  apply Preserves.bind (upheld_sameIds.touched _)
  intro _
  apply Preserves.bind upheld_sameIds.received
  intro n
  apply Preserves.ite
  · intro _
    exact hrefuse _
  · intro _
    apply Preserves.bind (preserves_decodeRx n)
    intro packet
    split
    · apply Preserves.ite
      · intro _
        apply Preserves.modify
        intro s hs
        refine ⟨hs.next, ?_⟩
        rw [InflightQueue.outboundIds_empty]
        exact Set.empty_subset _
      · intro _
        exact hrefuse _
    · exact hrefuse _

/-! ## Ids are taken in order -/

/-- From one client to the other the ids of the log are taken. -/
def Taken (c : MqttClient E bufSize maxInflight) (log : List Take)
    (c' : MqttClient E bufSize maxInflight) : Prop :=
  Follows c.nextPacketId c.inflight.outboundIds log c'.nextPacketId c'.inflight.outboundIds

/-- However the program ends, it takes the ids of the log. -/
def Takes {α : Type} (x : ClientM E bufSize maxInflight α) (c : MqttClient E bufSize maxInflight)
    (log : List Take) : Prop :=
  Ends x c (fun _ c' => Taken c log c') fun _ c' => Taken c log c'

variable {α β : Type} {x : ClientM E bufSize maxInflight α}
  {f : α → ClientM E bufSize maxInflight β} {log : List Take}

theorem SameIds.taken {c' : MqttClient E bufSize maxInflight} (h : SameIds c c') :
    Taken c [] c' := ⟨h.next, h.ids⟩

theorem Taken.append {c' c'' : MqttClient E bufSize maxInflight} {log' : List Take}
    (h : Taken c log c') (h' : Taken c' log' c'') : Taken c (log ++ log') c'' :=
  Follows.append h fun _ hs => Follows.mono h' hs

theorem Taken.sameIds {c' c'' : MqttClient E bufSize maxInflight} (h : Taken c log c')
    (h' : SameIds c' c'') : Taken c log c'' := by
  have := h.append h'.taken
  rwa [List.append_nil] at this

theorem takes_of_sameIds (h : Preserves (SameIds c) x) : Takes x c [] :=
  (h c .refl).mono (fun _ _ h => h.taken) fun _ _ h => h.taken

/-- What comes after may leave the ids alone. -/
theorem Takes.bind (h : Takes x c log) (hf : ∀ a c', Preserves (SameIds c') (f a)) :
    Takes (x >>= f) c log := by
  apply Ends.bind
  apply Ends.mono h
  · intro a c' hc'
    exact (hf a c' c' .refl).mono (fun _ _ h => hc'.sameIds h) fun _ _ h => hc'.sameIds h
  · exact fun _ _ h => h

theorem takes_requireConnected {x : ClientM E bufSize maxInflight α}
    (h : c.state = .connected → Takes x c log) :
    Takes (requireConnected >>= fun _ => x) c (if c.state ≠ .connected then [] else log) := by
  by_cases hc : c.state = .connected
  · rw [if_neg (by simp [hc]), Takes, Ends, run_bind (requireConnected_of_connected hc)]
    exact h hc
  · rw [if_pos hc, Takes, Ends, run_bind_error (requireConnected_of_not hc)]
    exact SameIds.refl.taken

theorem takes_getNextPacketId (keeps : Bool) :
    Takes getNextPacketId c [c.takeNext keeps] :=
  ⟨rfl, fun _ hi => mem_pendingIds.mp hi, rfl, Set.subset_union_left⟩

/-- The id is taken also when the table is full. -/
theorem takes_allocatePacketId (qos : QoS) :
    Takes (allocatePacketId qos) c (c.publishTakes qos) := by
  rw [publishTakes, allocatePacketId]
  split
  · rw [Takes, Ends]
    simp only [getNextPacketId, trackOutbound, bind, EStateM.bind]
    rcases htrack : c.inflight.trackOutbound c.nextPacketId qos with _ | inflight
    · exact ⟨rfl, fun _ hi => mem_pendingIds.mp hi, rfl, Set.subset_union_left⟩
    · refine ⟨rfl, fun _ hi => mem_pendingIds.mp hi, rfl, fun i hi => ?_⟩
      rcases InflightQueue.outboundIds_trackOutbound htrack hi with rfl | hi
      · exact .inr ⟨rfl, rfl⟩
      · exact .inl hi
  · exact takes_of_sameIds (Preserves.pure _)

theorem takes_publish (topic : String) (payload : List UInt8) (qos : QoS) (now : ℕ) :
    Takes (publish topic payload qos now) c
      (if c.state ≠ .connected then [] else c.publishTakes qos) := by
  apply takes_requireConnected
  intro _
  apply (takes_allocatePacketId qos).bind
  intro id c'
  exact (stamped_sendPacket (upheld_sameIds.stamped now) upheld_sameIds.carried _).preserves

theorem takes_publishBatchRound (msg : PublishMessage) (cursor : ℕ) :
    Takes (publishBatchRound msg cursor) c (c.publishTakes msg.qos) := by
  apply (takes_allocatePacketId msg.qos).bind
  intro id c'
  apply Preserves.bind (carried_encodeTx upheld_sameIds.carried _ _)
  intro r
  split
  · exact Preserves.pure _
  · apply Preserves.ite
    · intro _
      apply Preserves.bind (carried_sendTx upheld_sameIds.carried _)
      intro _
      exact Preserves.bind (carried_encodeTx upheld_sameIds.carried _ _) fun _ => preserves_lift _
    · intro _
      exact Preserves.throw _
  · exact preserves_lift _

theorem takes_publishBatchLoop (messages : List PublishMessage) (cursor count : ℕ) :
    Takes (publishBatchLoop messages cursor count) c (batchTakes messages cursor c) := by
  induction messages generalizing cursor count c with
  | nil => exact takes_of_sameIds (Preserves.pure _)
  | cons msg messages ih =>
    have hround := takes_publishBatchRound msg cursor (c := c)
    rw [Takes, publishBatchLoop, batchTakes]
    rw [Takes] at hround
    rcases hres : publishBatchRound msg cursor c with ⟨cursor', c'⟩ | ⟨e, c'⟩
    · have hround := hround.ok_of hres
      rw [Ends, run_bind hres]
      exact (ih cursor' (count + 1)).mono (fun _ _ h => hround.append h) fun _ _ h => hround.append h
    · have hround := hround.error_of hres
      rw [Ends, run_bind_error hres, List.append_nil]
      exact hround

theorem takes_publishBatch (messages : List PublishMessage) (now : ℕ) :
    Takes (publishBatch messages now) c
      (if c.state ≠ .connected then [] else batchTakes messages 0 c) := by
  apply takes_requireConnected
  intro _
  apply (takes_publishBatchLoop messages 0 0).bind
  intro last c'
  apply Preserves.ite
  · intro _
    apply Preserves.bind (carried_sendTx upheld_sameIds.carried _)
    intro _
    exact Preserves.bind (upheld_sameIds.touched _) fun _ => Preserves.pure _
  · intro _
    exact Preserves.pure _

theorem takes_beginStreamPublish (topic : String) (total : ℕ) (qos : QoS) (now : ℕ) :
    Takes (beginStreamPublish topic total qos now) c
      (if c.state ≠ .connected then [] else c.publishTakes qos) := by
  apply takes_requireConnected
  intro _
  apply (takes_allocatePacketId qos).bind
  intro id c'
  apply Preserves.get_bind
  intro s _
  apply Preserves.bind (Preserves.ite (fun _ => Preserves.pure _) fun _ => Preserves.throw _)
  intro remainingLen
  dsimp only
  split
  · exact preserves_lift _
  · apply Preserves.bind (preserves_lift _)
    intro header
    apply Preserves.bind (upheld_sameIds.sent _)
    intro _
    split
    · exact preserves_lift _
    · apply Preserves.bind (preserves_lift _)
      intro varHeader
      apply Preserves.bind (upheld_sameIds.sent _)
      intro _
      exact Preserves.bind (upheld_sameIds.touched _) fun _ => Preserves.pure _

/-- SUBSCRIBE and UNSUBSCRIBE take an id. -/
theorem takes_request {α : Type} (packet : UInt16 → Checked PacketError α) (p : α → MqttPacket)
    (now : ℕ) :
    Takes (do
        requireConnected
        let packetId ← getNextPacketId
        let sub ← lift (packet packetId)
        sendPacket (p sub)
        setLastTx now
        pure packetId) c
      (if c.state ≠ .connected then [] else [c.takeNext false]) := by
  apply takes_requireConnected
  intro _
  apply (takes_getNextPacketId false).bind
  intro id c'
  apply Preserves.bind (preserves_lift _)
  intro sub
  exact (stamped_sendPacket (upheld_sameIds.stamped now) upheld_sameIds.carried
    (p sub)).preserves_pure id

/-- A call takes its ids one after the other, and the table gets no others. -/
theorem takes_exec (call : ClientCall) :
    Takes (call.exec : ClientM E bufSize maxInflight _) c (call.takes c) := by
  have hnone {α : Type} {x : ClientM E bufSize maxInflight α} (h : Preserves (SameIds c) x) :
      Takes (do let _ ← x; pure (none : Option MqttStreamWriter)) c
        (if c.state ≠ .connected then [] else []) := by
    rw [ite_self]
    exact takes_of_sameIds (Preserves.bind h fun _ => Preserves.pure _)
  cases call with
  | connect now => exact hnone (sameIds_connect now)
  | publish topic payload qos now =>
    exact (takes_publish topic payload qos now).bind fun _ _ => Preserves.pure _
  | publishBatch messages now =>
    exact (takes_publishBatch messages now).bind fun _ _ => Preserves.pure _
  | beginStreamPublish topic total qos now =>
    exact (takes_beginStreamPublish topic total qos now).bind fun _ _ => Preserves.pure _
  | subscribe topics now =>
    exact (takes_request _ _ now).bind fun _ _ => Preserves.pure _
  | unsubscribe topics now =>
    exact (takes_request _ _ now).bind fun _ _ => Preserves.pure _
  | poll now => exact hnone (carried_poll upheld_sameIds.carried (upheld_sameIds.stamped now))
  | pollBatch maxEvents => exact hnone (carried_pollBatch upheld_sameIds.carried maxEvents)
  | disconnect => exact hnone (carried_disconnect upheld_sameIds.carried)

end MqttClient

/-! ## Runs -/

namespace ClientSystem

/-- A call takes its ids one after the other, also one that does not return. -/
theorem exists_taken (s : ClientSystem E bufSize maxInflight) (call : Call E bufSize) :
    ∃ c, Taken s.client (s.takes call) c ∧ ∀ t, s.step call = some t → t.client = c := by
  cases call with
  | client call =>
    have hexec := takes_exec call (c := s.client)
    rw [Takes] at hexec
    by_cases hwriter : s.writer.isSome
    · refine ⟨s.client, ?_, ?_⟩
      · rw [takes, if_pos hwriter]
        exact SameIds.refl.taken
      · intro t h
        rw [step, if_pos hwriter] at h
        cases h
    · rw [takes, if_neg hwriter]
      rcases hend : call.exec s.client with ⟨writer, c⟩ | ⟨e, c⟩
      · refine ⟨c, hexec.ok_of hend, ?_⟩
        intro t h
        rw [step, if_neg hwriter, hend] at h
        cases h
        exact client_afterClient ..
      · refine ⟨c, hexec.error_of hend, ?_⟩
        intro t h
        rw [step, if_neg hwriter, hend] at h
        rcases e with e | _ | _
        · cases h
          exact client_afterClient ..
        · cases h
        · cases h
  | writer call =>
    rcases hwriter : s.writer with _ | writer
    · refine ⟨s.client, SameIds.refl.taken, ?_⟩
      intro t h
      rw [step, hwriter] at h
      cases h
    · have hexec := takes_of_sameIds (preserves_writer upheld_sameIds.sent writer call) (c := s.client)
      rw [Takes] at hexec
      rcases hend : call.exec writer s.client with ⟨left, c⟩ | ⟨e, c⟩
      · refine ⟨c, hexec.ok_of hend, ?_⟩
        intro t h
        rw [step, hwriter] at h
        simp only [hend] at h
        cases h
        rfl
      · refine ⟨c, hexec.error_of hend, ?_⟩
        intro t h
        rw [step, hwriter] at h
        simp only [hend] at h
        rcases e with e | _ | _
        · cases h
          rfl
        · cases h
        · cases h
  | receive result =>
    refine ⟨_, ?_, fun t h => by cases h; rfl⟩
    exact SameIds.taken ⟨rfl, subset_rfl⟩

theorem taken_step {s t : ClientSystem E bufSize maxInflight} {call : Call E bufSize}
    (h : s.step call = some t) : Taken s.client (s.takes call) t.client := by
  obtain ⟨c, htaken, hend⟩ := exists_taken s call
  rw [hend t h]
  exact htaken

/-- The counter and the table of a run agree with its record. -/
theorem rolls_of_loggedRun {transport : Transport E bufSize} {options : MqttOptions} {now : ℕ}
    {log : List Take} {s : ClientSystem E bufSize maxInflight}
    (h : LoggedRun (startOver transport options now) log s) :
    Rolls log s.client.nextPacketId s.client.inflight.outboundIds := by
  induction h with
  | start => exact rolls_nil InflightQueue.outboundIds_empty
  | step hrun hstep ih => exact ih.follows (taken_step hstep)

/-- In a run up to a call, no publish gets an id that is in use if and only if none is a whole
number of rounds behind one that still is. -/
theorem fresh_iff_unlapped {transport : Transport E bufSize} {options : MqttOptions} {now : ℕ}
    {log : List Take} {s : ClientSystem E bufSize maxInflight}
    (h : LoggedRun (startOver transport options now) log s) (call : Call E bufSize) :
    Fresh (log ++ s.takes call) ↔ Unlapped (log ++ s.takes call) := by
  obtain ⟨c, htaken, -⟩ := exists_taken s call
  exact ((rolls_of_loggedRun h).follows htaken).fresh_iff

end ClientSystem

end

namespace ClientSystem

/-- A publish that is acknowledged, one that is not, and a subscription. -/
theorem fresh_iff_unlapped_run : ∃ (log : List Take) (s : ClientSystem Unit 64 4),
    LoggedRun (startOver ⟨[], [], [.ok connAckAccepted, .ok ⟨[0x40, 2, 0, 1], by decide⟩]⟩
      plainOptions 0) log s ∧
    log.map (fun t => (t.id, t.keeps, t.pending)) =
      [(1, true, []), (2, true, [1]), (3, false, [2])] ∧
    (Fresh (log ++ s.takes (.client (.publish "a" [1] .atLeastOnce 0))) ↔
      Unlapped (log ++ s.takes (.client (.publish "a" [1] .atLeastOnce 0)))) := by
  have heval : (runLogged
      [.client (.connect 0), .client (.publish "a" [1] .atLeastOnce 0),
        .client (.publish "a" [2] .exactlyOnce 0), .client (.poll 0),
        .client (.subscribe [("a", .atMostOnce)] 0)]
      (startOver ⟨[], [], [.ok connAckAccepted, .ok ⟨[0x40, 2, 0, 1], by decide⟩]⟩ plainOptions 0 :
        ClientSystem Unit 64 4)).map
        (fun x => x.1.map (fun t => (t.id, t.keeps, t.pending))) =
      some [(1, true, []), (2, true, [1]), (3, false, [2])] := by
    decide +kernel
  obtain ⟨⟨log, s⟩, hrun, hlog⟩ := Option.map_eq_some_iff.mp heval
  have h := loggedRun_of_runLogged hrun
  exact ⟨log, s, h, hlog, fresh_iff_unlapped h _⟩

/-! ## A counter that comes around -/

/-- The client is connected over a transport whose sends do not fail, and waits for the
acknowledgement of the id 1. -/
structure Waiting (s : ClientSystem Unit 64 4) : Prop where
  writer : s.writer = none
  state : s.client.state = .connected
  sendResults : s.client.transport.sendResults = []
  version : s.client.options.version = .v3_1_1
  pending : 1 ∈ pendingIds s.client.inflight

/-- The packet of `unsubscribe` for one topic. -/
def unsubscribeA (packetId : UInt16) : Unsubscribe := ⟨packetId, ⟨["a"], by decide⟩, .empty⟩

theorem fits_unsubscribeA (packetId : UInt16) :
    (MqttPacket.unsubscribe (unsubscribeA packetId)).Fits .v3_1_1 64 := by
  constructor
  · simp only [MqttPacket.Encodable, MqttPacket.prefixed, unsubscribeA]
    decide
  · simp only [MqttPacket.room, MqttPacket.content, unsubscribeA, idAndPropertiesBytes,
      List.length_append, length_toBeBytes]
    decide

/-- An UNSUBSCRIBE uses up an id. -/
theorem waiting_unsubscribe {s : ClientSystem Unit 64 4} (h : Waiting s) :
    ∃ t, s.step (.client (.unsubscribe ["a"] 0)) = some t ∧ Waiting t ∧
      t.client.nextPacketId = succ s.client.nextPacketId := by
  let c : MqttClient Unit 64 4 :=
    { s.client with nextPacketId := succPacketId s.client.nextPacketId }
  obtain ⟨tx, hsend⟩ := sendPacket_fits (s := c) h.sendResults
    (h.version ▸ fits_unsubscribeA s.client.nextPacketId) ((short_unsubscribe rfl).measured _ _)
  have hnext : getNextPacketId s.client = .ok s.client.nextPacketId c := rfl
  have hexec : ∃ c', (ClientCall.unsubscribe ["a"] 0).exec s.client = .ok none c' ∧
      c' = { c.afterSend tx []
        ((MqttPacket.unsubscribe (unsubscribeA s.client.nextPacketId)).wire c.options.version) with
        lastTxTime := 0 } := by
    refine ⟨_, ?_, rfl⟩
    rw [ClientCall.exec, unsubscribe]
    apply run_bind
    rw [run_bind (requireConnected_of_connected h.state), run_bind hnext]
    exact run_bind hsend
  obtain ⟨c', hexec, rfl⟩ := hexec
  refine ⟨_, by rw [step, if_neg (by simp [h.writer]), hexec], ?_, rfl⟩
  exact ⟨rfl, h.state, rfl, h.version, h.pending⟩

/-- Any number of calls of `unsubscribe` leave the publish waiting. -/
theorem waiting_rounds {s₀ s : ClientSystem Unit 64 4} {log : List Take} (hrun : LoggedRun s₀ log s)
    (h : Waiting s) {k : ℕ} (hk : s.client.nextPacketId = Rolling.id k) (n : ℕ) :
    ∃ log t, LoggedRun s₀ log t ∧ Waiting t ∧ t.client.nextPacketId = Rolling.id (k + n) := by
  induction n with
  | zero => exact ⟨log, s, hrun, h, hk⟩
  | succ n ih =>
    obtain ⟨log, t, hrun, ht, hnext⟩ := ih
    obtain ⟨u, hstep, hu, hsucc⟩ := waiting_unsubscribe ht
    exact ⟨_, u, hrun.step hstep, hu, by rw [hsucc, hnext, succ_id]; rfl⟩

/-- The first id is taken again while its publish is not acknowledged. -/
theorem reuses_id :
    ¬ ∀ (log : List Take) (s : ClientSystem Unit 64 4) (call : Call Unit 64),
      LoggedRun (startOver ⟨[], [], [.ok connAckAccepted]⟩ plainOptions 0) log s →
        Fresh (log ++ s.takes call) := by
  intro hall
  have heval : (runLogged [.client (.connect 0), .client (.publish "a" [1] .atLeastOnce 0)]
      (startOver ⟨[], [], [.ok connAckAccepted]⟩ plainOptions 0 : ClientSystem Unit 64 4)).map
        (fun x => ((x.2.writer, x.2.client.state, x.2.client.transport.sendResults),
          x.2.client.options.version, pendingIds x.2.client.inflight, x.2.client.nextPacketId)) =
      some ((none, ConnectionState.connected, []), MqttVersion.v3_1_1, [1], Rolling.id 1) := by
    decide +kernel
  obtain ⟨⟨log, s⟩, hrun, hs⟩ := Option.map_eq_some_iff.mp heval
  simp only [Prod.mk.injEq] at hs
  obtain ⟨⟨hwriter, hstate, hsends⟩, hversion, hpending, hnext⟩ := hs
  have hwaiting : Waiting s := ⟨hwriter, hstate, hsends, hversion, by simp [hpending]⟩
  obtain ⟨log, t, hrun, ht, hnext⟩ :=
    waiting_rounds (loggedRun_of_runLogged hrun) hwaiting hnext 65534
  have htakes : t.takes (.client (.publish "a" [2] .atLeastOnce 0)) = [t.client.takeNext true] := by
    rw [takes, if_neg (by simp [ht.writer]), ClientCall.takes, if_neg (by simp [ht.state])]
    rfl
  have hfresh := hall log t (.client (.publish "a" [2] .atLeastOnce 0)) hrun
  rw [htakes] at hfresh
  have hid : t.client.nextPacketId = 1 := hnext.trans (by decide)
  apply hfresh (t.client.takeNext true) (by simp) rfl
  rw [show (t.client.takeNext true).id = 1 from hid]
  exact ht.pending

end ClientSystem

end MqttEngine
