import MqttEngine.Lib.Keyed
import MqttEngine.Tokio.Journal
import MqttEngine.Tokio.Reordering
import MqttEngine.Tokio.SensorData

/-!
# Data streams from end to end

A producer numbers the payloads of its calls of `send`, the calls hand their messages over in any
order, replays hand over the journal once more, and whatever lies between loses, repeats and
reorders messages. A consumer yields from what arrives. Replayed chunks are encoded like the first
ones, as the mark of a recovery is not part of the wire format, so a consumer takes whichever comes
first.

What it yields are chunks of the calls, unchanged, in the order of their numbers and none twice
(`returned_sublist`). It yields all of them if what was lost is still in the journal when a replay
arrives, and its window has room for the journal (`returned_recovered`).

## Main definitions

* `sends`, `sentChunks` — the calls of `send` in a run, and their chunks.
* `Streams` — what a producer has is one of these chunks.
* `From` — what a consumer has comes from the arrivals.
* `Carries` — a message that arrives, of one that was handed over.

## Main results

* `returned_sublist` — no chunk is changed, repeated or out of turn.
* `returned_recovered` — a replay makes up for what was lost.
-/

namespace MqttEngine.Tokio

/-! ## What is sent -/

/-- The time and the payload of a call of `send` that takes its number. -/
def ProducerAction.send : ProducerAction → Option (UInt64 × List UInt8)
  | .number now payload => some (now, payload)
  | _ => none

/-- The calls of `send` in a run, in the order of their numbers. -/
def sends (actions : List ProducerAction) : List (UInt64 × List UInt8) :=
  actions.filterMap ProducerAction.send

/-- The chunk of the call that takes its number after `i` others. -/
def sentChunk (topic : String) (i : ℕ) (call : UInt64 × List UInt8) : StreamChunk :=
  { seqId := ProducerSystem.numberAt i, timestampNs := call.1, topic, payload := call.2
    isRecovery := false }

/-- The chunks of the calls. -/
def sentChunks (topic : String) (calls : List (UInt64 × List UInt8)) : List StreamChunk :=
  calls.mapIdx (sentChunk topic)

section
variable {topic : String} {calls : List (UInt64 × List UInt8)} {chunk : StreamChunk}

@[simp] theorem length_sentChunks (topic : String) (calls : List (UInt64 × List UInt8)) :
    (sentChunks topic calls).length = calls.length := by
  simp [sentChunks]

theorem mem_sentChunks :
    chunk ∈ sentChunks topic calls ↔
      ∃ i call, calls[i]? = some call ∧ sentChunk topic i call = chunk := by
  simp only [sentChunks, List.mem_iff_getElem?, List.getElem?_mapIdx, Option.map_eq_some_iff]

theorem sentChunks_concat (topic : String) (calls : List (UInt64 × List UInt8))
    (call : UInt64 × List UInt8) : sentChunks topic (calls ++ [call]) =
      sentChunks topic calls ++ [sentChunk topic calls.length call] := by
  rw [sentChunks, List.mapIdx_concat]
  rfl

/-- What is sent is received as it was, with the mark of a recovery or without. -/
theorem ofWire_of_mem (h : chunk ∈ sentChunks topic calls) (isRecovery : Bool) :
    StreamChunk.ofWire topic { chunk with isRecovery }.encodeWire = chunk := by
  obtain ⟨i, call, -, rfl⟩ := mem_sentChunks.mp h
  rw [StreamChunk.ofWire_topic]
  rfl

/-- The chunks are numbered from one on. -/
theorem map_seqId_sentChunks (topic : String) (hcalls : calls.length < 2 ^ 64) :
    (sentChunks topic calls).map (fun chunk => chunk.seqId.toNat) = List.range' 1 calls.length := by
  refine List.ext_getElem (by simp) fun i hi hi' => ?_
  rw [List.length_map, length_sentChunks] at hi
  simp only [sentChunks, List.getElem_map, List.getElem_mapIdx, sentChunk, List.getElem_range',
    ProducerSystem.toNat_numberAt]
  omega

theorem seqId_of_mem (hcalls : calls.length < 2 ^ 64) (h : chunk ∈ sentChunks topic calls) :
    1 ≤ chunk.seqId.toNat ∧ chunk.seqId.toNat ≤ calls.length := by
  have hmem : chunk.seqId.toNat ∈ (sentChunks topic calls).map fun chunk => chunk.seqId.toNat :=
    List.mem_map_of_mem h
  rw [map_seqId_sentChunks topic hcalls, List.mem_range'_1] at hmem
  omega

end

/-! ## What is handed over -/

/-- A message carries one of the chunks. -/
def CarriesChunk (topic : String) (calls : List (UInt64 × List UInt8)) (msg : PublishMessage) :
    Prop :=
  msg.topic = topic ∧ StreamChunk.ofWire topic msg.payload ∈ sentChunks topic calls

namespace ProducerSystem
variable {E : Type} {topic : String} {calls : List (UInt64 × List UInt8)} {s t : ProducerSystem E}

/-- The calls have taken their numbers, and what the producer has are their chunks. -/
structure Streams (topic : String) (calls : List (UInt64 × List UInt8)) (s : ProducerSystem E) :
    Prop where
  onTopic : s.producer.topic = topic
  issued : s.issued = calls.length
  sequence : s.producer.sequence = numberAt calls.length
  numbered : ∀ call ∈ s.numbered, call.2 ∈ sentChunks topic calls
  recorded : ∀ chunk ∈ s.recorded, chunk ∈ sentChunks topic calls
  journal : ∀ chunk ∈ s.producer.recoveryJournal, chunk ∈ sentChunks topic calls
  rest : ∀ replay ∈ s.replays, ∀ chunk ∈ replay.rest, chunk ∈ sentChunks topic calls
  republished : ∀ replay ∈ s.replays, ∀ msg ∈ replay.republished, msg ∈ s.requests
  requests : ∀ msg ∈ s.requests, CarriesChunk topic calls msg

theorem streams_start (E : Type) (topic : String) (qos : QoS) (journalCapacity : ℕ) :
    Streams topic [] (start E (.new topic qos journalCapacity)) where
  onTopic := rfl
  issued := rfl
  sequence := rfl
  numbered := by simp [start]
  recorded := by simp [start]
  journal := by simp [start, DataStreamProducer.new]
  rest := by simp [start]
  republished := by simp [start]
  requests := by simp [start]

/-- The message of a chunk carries it, and so does that of a replay. -/
theorem Streams.carriesChunk (h : Streams topic calls s) {chunk : StreamChunk}
    (hchunk : chunk ∈ sentChunks topic calls) (isRecovery : Bool) :
    CarriesChunk topic calls (s.producer.message { chunk with isRecovery }) := by
  refine ⟨h.onTopic, ?_⟩
  rw [DataStreamProducer.message, ClientSystem.message, ofWire_of_mem hchunk]
  exact hchunk

/-- A call takes its number. -/
theorem Streams.number (h : Streams topic calls s) (now : UInt64) (payload : List UInt8)
    (ht : s.step (.number now payload) = some t) : Streams topic (calls ++ [(now, payload)]) t := by
  cases ht
  have hchunks := sentChunks_concat topic calls (now, payload)
  have hsub : sentChunks topic calls ⊆ sentChunks topic (calls ++ [(now, payload)]) := by
    rw [hchunks]
    exact List.subset_append_left _ _
  refine ⟨h.onTopic, ?_, ?_, fun call hcall => ?_,
    fun chunk hchunk => hsub (h.recorded chunk hchunk),
    fun chunk hchunk => hsub (h.journal chunk hchunk),
    fun replay hreplay chunk hchunk => hsub (h.rest replay hreplay chunk hchunk), h.republished,
    fun msg hmsg => (h.requests msg hmsg).imp_right fun hmem => hsub hmem⟩
  · change s.issued + 1 = _
    rw [h.issued, List.length_append, List.length_singleton]
  · change s.producer.sequence + 1 = _
    rw [h.sequence, List.length_append, List.length_singleton, numberAt_succ]
  · rcases List.mem_append.mp hcall with hbefore | hnew
    · exact hsub (h.numbered call hbefore)
    · rw [List.mem_singleton] at hnew
      rw [hnew, hchunks, List.mem_append, List.mem_singleton, sentChunk, ← h.sequence, ← h.onTopic]
      exact .inr rfl

/-- A call records its chunk. -/
theorem Streams.push (h : Streams topic calls s) {i : ℕ} (ht : s.step (.push i) = some t) :
    Streams topic calls t := by
  rw [step] at ht
  split at ht
  · cases ht
  split at ht
  · cases ht
  rename_i ticket chunk hcall
  have hchunk := h.numbered _ (List.mem_of_getElem? hcall)
  cases ht
  refine { h with
    numbered := fun call hcall => h.numbered call (List.mem_of_mem_eraseIdx hcall)
    recorded := fun chunk' hchunk' => ?_
    journal := fun chunk' hchunk' => ?_ }
  · rcases List.mem_append.mp hchunk' with hbefore | hnew
    · exact h.recorded chunk' hbefore
    · rw [List.mem_singleton] at hnew
      exact hnew ▸ hchunk
  · change chunk' ∈ SlidingWindow.push _ _ _ at hchunk'
    rw [SlidingWindow.push, List.mem_append, List.mem_singleton] at hchunk'
    rcases hchunk' with hbefore | hnew
    · split at hbefore
      · exact h.journal chunk' (List.mem_of_mem_tail hbefore)
      · exact h.journal chunk' hbefore
    · exact hnew ▸ hchunk

/-- A call publishes its chunk, and returns. -/
theorem Streams.publish (h : Streams topic calls s) {i : ℕ} (ht : s.step (.publish i) = some t) :
    Streams topic calls t := by
  rw [step] at ht
  split at ht
  · cases ht
  rename_i chunk hcall
  have hchunk := h.recorded _ (List.mem_of_getElem? hcall)
  dsimp only at ht
  split at ht
  · cases ht
    exact { h with
      recorded := fun chunk' hchunk' => h.recorded _ (List.mem_of_mem_eraseIdx hchunk') }
  · cases ht
    refine { h with
      recorded := fun chunk' hchunk' => h.recorded _ (List.mem_of_mem_eraseIdx hchunk')
      republished := fun replay hreplay msg hmsg =>
        List.mem_append_left _ (h.republished replay hreplay msg hmsg)
      requests := fun msg hmsg => ?_ }
    rcases List.mem_append.mp hmsg with hbefore | hnew
    · exact h.requests msg hbefore
    · rw [List.mem_singleton] at hnew
      exact hnew ▸ h.carriesChunk hchunk chunk.isRecovery

/-- A replay publishes its next chunk, or returns. -/
theorem Streams.republish (h : Streams topic calls s) {i : ℕ}
    (ht : s.step (.republish i) = some t) : Streams topic calls t := by
  have hleft {j : ℕ} {replay : Replay} (hreplay : replay ∈ s.replays.eraseIdx j) :
      replay ∈ s.replays := List.mem_of_mem_eraseIdx hreplay
  rw [step] at ht
  split at ht
  · cases ht
  · cases ht
    exact { h with
      rest := fun replay hreplay => h.rest replay (hleft hreplay)
      republished := fun replay hreplay => h.republished replay (hleft hreplay) }
  · rename_i chunk rest republished hreplay
    have hmem := List.mem_of_getElem? hreplay
    have hrest := h.rest _ hmem
    split at ht
    · cases ht
      exact { h with
        rest := fun replay hreplay => h.rest replay (hleft hreplay)
        republished := fun replay hreplay => h.republished replay (hleft hreplay) }
    · cases ht
      refine { h with
        rest := fun replay hreplay chunk' hchunk' => ?_
        republished := fun replay hreplay msg hmsg => ?_
        requests := fun msg hmsg => ?_ }
      · rcases List.mem_or_eq_of_mem_set hreplay with hbefore | rfl
        · exact h.rest replay hbefore chunk' hchunk'
        · exact hrest chunk' (List.mem_cons_of_mem _ hchunk')
      · rw [List.mem_append]
        rcases List.mem_or_eq_of_mem_set hreplay with hbefore | rfl
        · exact .inl (h.republished replay hbefore msg hmsg)
        · exact (List.mem_append.mp hmsg).imp_left (h.republished _ hmem msg)
      · rcases List.mem_append.mp hmsg with hbefore | hnew
        · exact h.requests msg hbefore
        · rw [List.mem_singleton] at hnew
          exact hnew ▸ h.carriesChunk (hrest chunk List.mem_cons_self) true

/-- A replay takes the lock. -/
theorem Streams.lock (h : Streams topic calls s) (ht : s.step .lock = some t) :
    Streams topic calls t := by
  cases ht
  refine { h with
    rest := fun replay hreplay => ?_
    republished := fun replay hreplay => ?_ }
  all_goals
    rcases List.mem_append.mp hreplay with hbefore | hnew
  · exact h.rest replay hbefore
  · rw [List.mem_singleton] at hnew
    exact hnew ▸ h.journal
  · exact h.republished replay hbefore
  · rw [List.mem_singleton] at hnew
    subst hnew
    exact fun msg hmsg => absurd hmsg List.not_mem_nil

/-- **One step.** -/
theorem Streams.step (h : Streams topic calls s) {action : ProducerAction}
    (ht : s.step action = some t) : Streams topic (calls ++ sends [action]) t := by
  have hsame (hnone : action.send = none) (h' : Streams topic calls t) :
      Streams topic (calls ++ sends [action]) t := by
    rwa [sends, List.filterMap_cons_none hnone, List.filterMap_nil, List.append_nil]
  cases action with
  | number now payload => exact h.number now payload ht
  | push i => exact hsame rfl (h.push ht)
  | publish i => exact hsame rfl (h.publish ht)
  | lock => exact hsame rfl (h.lock ht)
  | republish i => exact hsame rfl (h.republish ht)
  | close =>
    cases ht
    exact hsame rfl { h with }

/-- **A run.** -/
theorem Streams.foldlM (h : Streams topic calls s) {actions : List ProducerAction}
    (ht : actions.foldlM ProducerSystem.step s = some t) :
    Streams topic (calls ++ sends actions) t := by
  induction actions generalizing s calls with
  | nil =>
    cases ht
    simpa [sends] using h
  | cons action actions ih =>
    rw [List.foldlM_cons] at ht
    obtain ⟨u, hu, hrest⟩ := Option.bind_eq_some_iff.mp ht
    have hsends : sends (action :: actions) = sends [action] ++ sends actions :=
      List.filterMap_append (l := [action])
    rw [hsends, ← List.append_assoc]
    exact ih (h.step hu) hrest

end ProducerSystem

/-! ## What is yielded -/

namespace DataStreamConsumer
variable {E : Type} {P : StreamChunk → Prop} {consumer : DataStreamConsumer} {w : ℕ}

/-- Every chunk that a consumer holds or is still to receive satisfies `P`. -/
structure From (P : StreamChunk → Prop) (consumer : DataStreamConsumer) : Prop where
  coming : ∀ msg ∈ consumer.subscription, P (.ofWire msg.topic msg.payload)
  held : ∀ (k : UInt64) (chunk : StreamChunk), consumer.reorderBuffer[k]? = some chunk → P chunk

/-- So does what a call returns, and what it leaves. -/
structure Yielded (P : StreamChunk → Prop)
    (call : Checked (ClientError E) (Option StreamChunk) × DataStreamConsumer) : Prop where
  returned : ∀ chunk, call.1 = .ok (some chunk) → P chunk
  left : From P call.2

theorem From.erase (h : From P consumer) (k : UInt64) :
    From P { consumer with reorderBuffer := consumer.reorderBuffer.erase k } where
  coming := h.coming
  held k' chunk hchunk := by
    rw [Std.TreeMap.getElem?_erase] at hchunk
    split at hchunk
    · cases hchunk
    · exact h.held k' chunk hchunk

theorem From.insert (h : From P consumer) {chunk : StreamChunk} (hchunk : P chunk) :
    From P { consumer with
      reorderBuffer := consumer.reorderBuffer.insert chunk.seqId chunk } where
  coming := h.coming
  held k other hother := by
    rw [Std.TreeMap.getElem?_insert] at hother
    split at hother
    · cases hother
      exact hchunk
    · exact h.held k other hother

/-- A chunk is returned, unless the counter overflows. -/
theorem From.yielded (h : From P consumer) {chunk : StreamChunk} (hchunk : P chunk) (seq : UInt64) :
    Yielded P (outcome (expectAfter (E := E) seq >>= fun _ => pure (some chunk)) consumer) := by
  rw [outcome_expectAfter]
  split
  · refine ⟨fun other hother => ?_, ⟨h.coming, h.held⟩⟩
    cases hother
    exact hchunk
  · exact ⟨fun other hother => (by cases hother), h⟩

/-- The loop. -/
theorem From.recvLoop {rest : List PublishMessage} (h : From P consumer)
    (hrest : consumer.subscription = rest) :
    Yielded P (outcome (recvLoop (E := E) rest) consumer) := by
  induction rest generalizing consumer with
  | nil => exact ⟨fun chunk hchunk => (by cases hchunk), h⟩
  | cons msg rest ih =>
    have hchunk := h.coming msg (by simp [hrest])
    have hreceived : From P { consumer with subscription := rest } :=
      ⟨fun msg' hmsg' => h.coming msg' (by simp [hrest, hmsg']), h.held⟩
    simp only [DataStreamConsumer.recvLoop, StreamChunk.decodeWire, outcome_modify]
    generalize StreamChunk.ofWire msg.topic msg.payload = chunk at hchunk
    by_cases hzero : chunk.seqId = 0
    · rw [if_pos hzero]
      refine ⟨fun other hother => ?_, hreceived⟩
      cases hother
      exact hchunk
    rw [if_neg hzero, outcome_get]
    by_cases heq : chunk.seqId = consumer.expectedSeq
    · rw [if_pos heq]
      exact hreceived.yielded hchunk _
    rw [if_neg heq]
    by_cases hlt : consumer.expectedSeq < chunk.seqId
    · have hinserted := hreceived.insert hchunk
      rw [if_pos hlt, outcome_set]
      split
      · split
        · -- The first chunk is forced out.
          rename_i firstKey popped hmin
          rw [outcome_set]
          exact (hinserted.erase firstKey).yielded
            (hinserted.held _ popped (minEntry?_eq_some hmin).1) _
        · exact ih hinserted rfl
      · exact ih hinserted rfl
    · rw [if_neg hlt]
      exact ih hreceived rfl

/-- **One call.** -/
theorem From.recvOrdered (h : From P consumer) :
    Yielded P (outcome (recvOrdered (E := E)) consumer) := by
  rw [DataStreamConsumer.recvOrdered, outcome_get]
  cases hbuffer : consumer.reorderBuffer[consumer.expectedSeq]? with
  | none => exact h.recvLoop rfl
  | some chunk =>
    rw [outcome_set]
    exact (h.erase _).yielded (h.held _ chunk hbuffer) _

/-- The chunks that the first calls return. -/
def returned (E : Type) (self : DataStreamConsumer) (calls : ℕ) : List StreamChunk :=
  (results (E := E) self calls).filterMap fun
    | .ok chunk => chunk
    | .error _ => none

theorem returned_succ (E : Type) (consumer : DataStreamConsumer) (calls : ℕ) :
    returned E consumer (calls + 1) =
      (match (outcome (DataStreamConsumer.recvOrdered (E := E)) consumer).1 with
        | .ok (some chunk) => [chunk]
        | _ => []) ++
        returned E (outcome (DataStreamConsumer.recvOrdered (E := E)) consumer).2 calls := by
  rw [returned, results_succ, List.filterMap_cons, returned]
  rcases (outcome (DataStreamConsumer.recvOrdered (E := E)) consumer).1 with _ | _ | _ <;> rfl

/-- **A run.** -/
theorem From.returned (h : From P consumer) (calls : ℕ) :
    ∀ chunk ∈ returned E consumer calls, P chunk := by
  induction calls generalizing consumer with
  | zero => exact fun chunk hchunk => absurd hchunk List.not_mem_nil
  | succ calls ih =>
    have hcall := h.recvOrdered (E := E)
    intro chunk hchunk
    rw [returned_succ, List.mem_append] at hchunk
    rcases hchunk with hfirst | hlater
    · split at hfirst
      · rename_i other hother
        rw [List.mem_singleton] at hfirst
        exact hcall.returned chunk (hfirst ▸ hother)
      · cases hfirst
    · exact ih hcall.left chunk hlater

/-- The numbers of the chunks, if each of them has one. -/
theorem map_seqId_returned (calls : ℕ)
    (h : ∀ chunk ∈ returned E consumer calls, 1 ≤ chunk.seqId.toNat) :
    (DataStreamConsumer.returned E consumer calls).map (fun chunk => chunk.seqId.toNat) =
      deliveredNumbers E consumer calls := by
  rw [DataStreamConsumer.returned, deliveredNumbers, List.map_filterMap]
  refine List.filterMap_congr fun result hresult => ?_
  rcases result with error | _ | chunk
  · rfl
  · rfl
  · have hpos := h chunk (List.mem_filterMap.mpr ⟨_, hresult, rfl⟩)
    have hzero : chunk.seqId ≠ 0 := by
      intro hzero
      rw [hzero, UInt64.toNat_zero] at hpos
      omega
    simp [numberOf, hzero]

/-- No call fails. -/
theorem results_ok (h : Buffered w consumer) (calls : ℕ) :
    ∀ result ∈ results (E := E) consumer calls, ∃ chunk, result = .ok chunk := by
  induction calls generalizing consumer with
  | zero => exact fun result hresult => absurd hresult List.not_mem_nil
  | succ calls ih =>
    have hcall := recvOrdered_delivers (E := E) h
    intro result hresult
    rw [results_succ, List.mem_cons] at hresult
    rcases hresult with rfl | hlater
    · exact hcall.returned
    · exact ih hcall.buffered result hlater

/-- The calls from the number `e` on return chunks as long as there are any. -/
theorem length_returned {n e : ℕ} {received arrivals : List PublishMessage}
    (hcomplete : Complete n arrivals) (hn : n + 1 < 2 ^ 64)
    (h : Ordered arrivals consumer received e) (calls : ℕ) :
    (DataStreamConsumer.returned E consumer calls).length = min calls (n + 1 - e) := by
  induction calls generalizing consumer received e with
  | zero => simp [DataStreamConsumer.returned, results]
  | succ calls ih =>
    have hcall := recvOrdered_spec (E := E) hcomplete h
    rw [returned_succ]
    generalize outcome (DataStreamConsumer.recvOrdered (E := E)) consumer = call at hcall
    cases hcall with
    | chunk hle _ _ h' =>
      rw [List.length_append, ih h', List.length_singleton]
      omega
    | overflow hle hnext => omega
    | closed hlt h' =>
      rw [List.length_append, ih h', List.length_nil]
      omega

end DataStreamConsumer

/-! ## From end to end -/

/-- What arrives has the topic and the payload of a message that was handed over. -/
def Conveyed (requests : List PublishMessage) (msg : PublishMessage) : Prop :=
  ∃ request ∈ requests, request.topic = msg.topic ∧ request.payload = msg.payload

section
open ProducerSystem DataStreamConsumer
variable {E : Type} {topic : String} {qos : QoS} {journalCapacity w : ℕ}
  {actions : List ProducerAction} {s : ProducerSystem E} {arrivals : List PublishMessage}

theorem streams_of_foldlM
    (hrun : actions.foldlM step (start E (.new topic qos journalCapacity)) = some s) :
    s.Streams topic (sends actions) :=
  (streams_start E topic qos journalCapacity).foldlM hrun

/-- What arrives carries one of the chunks. -/
theorem ProducerSystem.Streams.arrives {calls : List (UInt64 × List UInt8)}
    (h : s.Streams topic calls) {msg : PublishMessage} (hmsg : Conveyed s.requests msg) :
    StreamChunk.ofWire msg.topic msg.payload ∈ sentChunks topic calls := by
  obtain ⟨request, hrequest, htopic, hpayload⟩ := hmsg
  obtain ⟨hsame, hchunk⟩ := h.requests request hrequest
  rwa [← htopic, ← hpayload, hsame]

/-- The number of what arrives has been issued. -/
theorem ProducerSystem.Streams.sequenceNumber_le {calls : List (UInt64 × List UInt8)}
    (h : s.Streams topic calls) (hissued : s.issued < 2 ^ 64) {msg : PublishMessage}
    (hmsg : Conveyed s.requests msg) :
    1 ≤ sequenceNumber msg ∧ sequenceNumber msg ≤ s.issued := by
  rw [h.issued] at hissued ⊢
  exact seqId_of_mem hissued (h.arrives hmsg)

theorem sublist_of_streams (hstreams : s.Streams topic (sends actions))
    (hissued : s.issued < 2 ^ 64 - 1) (harrivals : ∀ msg ∈ arrivals, Conveyed s.requests msg)
    (w calls : ℕ) :
    (∀ result ∈ results (E := E) (new arrivals w) calls, ∃ chunk, result = .ok chunk) ∧
      (returned E (new arrivals w) calls).Sublist (sentChunks topic (sends actions)) := by
  have hcalls : (sends actions).length < 2 ^ 64 := by
    rw [← hstreams.issued]
    omega
  have hbuffered : Buffered w (new arrivals w) :=
    { window := rfl
      coming := fun msg hmsg => by
        have hle := hstreams.sequenceNumber_le (by omega) (harrivals msg hmsg)
        omega
      holds := ⟨by simp [new], by simp [new], by simp [new]⟩
      size_le := by simp [new] }
  have hfrom : From (· ∈ sentChunks topic (sends actions)) (new arrivals w) :=
    ⟨fun msg hmsg => hstreams.arrives (harrivals msg hmsg), by simp [new]⟩
  have hmem := hfrom.returned (E := E) calls
  have hnumbers := map_seqId_returned calls fun chunk hchunk =>
    (seqId_of_mem hcalls (hmem chunk hchunk)).1
  refine ⟨results_ok hbuffered calls,
    Keyed.sublist_of_increasing (fun chunk => chunk.seqId.toNat) ?_ ?_ hmem⟩
  · rw [hnumbers]
    exact (increasing_of_buffered E hbuffered calls).2.1
  · rw [map_seqId_sentChunks topic hcalls]
    exact List.pairwise_lt_range' 1 Nat.one_pos

/-- **What is yielded was sent.** Whatever is lost, repeated or reordered on the way, no call of a
consumer fails, and what the calls return are chunks that were sent, unchanged, in the order of
their numbers, and none twice. -/
theorem returned_sublist
    (hrun : actions.foldlM step (start E (.new topic qos journalCapacity)) = some s)
    (hissued : s.issued < 2 ^ 64 - 1) (harrivals : ∀ msg ∈ arrivals, Conveyed s.requests msg)
    (w calls : ℕ) :
    (∀ result ∈ results (E := E) (new arrivals w) calls, ∃ chunk, result = .ok chunk) ∧
      (returned E (new arrivals w) calls).Sublist (sentChunks topic (sends actions)) :=
  sublist_of_streams (streams_of_foldlM hrun) hissued harrivals w calls

/-! ## Recovery -/

/-- If everything arrives and the window is wide enough, everything is yielded. -/
theorem returned_complete {calls : ℕ} (hstreams : s.Streams topic (sends actions))
    (hissued : s.issued < 2 ^ 64 - 1)
    (hsublist : (returned E (new arrivals w) calls).Sublist (sentChunks topic (sends actions)))
    (hcomplete : Complete s.issued arrivals) (hwithin : Within w arrivals)
    (hcalls : s.issued ≤ calls) :
    returned E (new arrivals w) calls = sentChunks topic (sends actions) := by
  refine hsublist.eq_of_length ?_
  rw [length_returned hcomplete (by omega) (ordered_new hwithin), length_sentChunks,
    ← hstreams.issued, Nat.add_sub_cancel, min_eq_right hcalls]

/-- The last numbers, as many as the journal has places for. -/
theorem ProducerSystem.mem_lastNumbers (hissued : s.issued < 2 ^ 64) {k : ℕ} :
    k ∈ s.lastNumbers.map UInt64.toNat ↔
      1 ≤ k ∧ k ≤ s.issued ∧ s.issued < k + s.producer.journalCapacity := by
  rw [lastNumbers, ← SlidingWindow.map_rtake, List.rtake, List.length_range, List.range_eq_range',
    List.drop_range', List.map_map, List.mem_map]
  constructor
  · rintro ⟨i, hi, rfl⟩
    rw [List.mem_range'_1] at hi
    rw [Function.comp_apply, toNat_numberAt, Nat.mod_eq_of_lt (by omega)]
    omega
  · rintro ⟨hpos, hle, hlt⟩
    refine ⟨k - 1, ?_, ?_⟩
    · rw [List.mem_range'_1]
      omega
    · rw [Function.comp_apply, toNat_numberAt, Nat.mod_eq_of_lt (by omega)]
      omega

/-- A window that has room for what is missing stays wide enough. -/
theorem within_append {before after : List PublishMessage} {n : ℕ} (first : ℕ)
    (hwithin : Within w before) (hle : ∀ k ∈ (before ++ after).map sequenceNumber, k ≤ n)
    (hbefore : ∀ k, 1 ≤ k → k < first → k ∈ before.map sequenceNumber) (hwindow : n ≤ first + w) :
    Within w (before ++ after) := by
  intro received rest hsplit e he
  rcases List.append_eq_append_iff.mp hsplit with ⟨more, rfl, -⟩ | ⟨more, hmore, -⟩
  · -- What was there before has been received.
    have hfirst : first ≤ e := by
      by_contra hlt
      refine he.1.2 ?_
      rw [List.map_append]
      exact List.mem_append_left _ (hbefore e he.1.1 (by omega))
    have hsub : beyond e (before ++ more) ⊆ Finset.Ioc e n := by
      intro k hk
      rw [beyond, Finset.mem_filter, List.mem_toFinset] at hk
      rw [Finset.mem_Ioc]
      refine ⟨hk.2, hle k ?_⟩
      rw [hsplit, List.map_append]
      exact List.mem_append_left _ hk.1
    calc (beyond e (before ++ more)).card ≤ (Finset.Ioc e n).card := Finset.card_le_card hsub
      _ = n - e := Nat.card_Ioc e n
      _ ≤ w := by omega
  · exact hwithin received more hmore e he

/-- **A replay makes up for what was lost.** The numbers that are lost are among the last that the
journal has places for; the calls have come to it in turn; and what a replay has republished
arrives, in any order. If the window has room for the journal, everything is yielded. -/
theorem returned_recovered {before after : List PublishMessage} {replay : Replay} {calls : ℕ}
    (hrun : actions.foldlM step (start E (.new topic qos journalCapacity)) = some s)
    (hissued : s.issued < 2 ^ 64 - 1) (hquiet : s.numbered = []) (horderly : s.Orderly)
    (hreplay : replay ∈ s.replays) (hdone : replay.rest = [])
    (harrivals : ∀ msg ∈ before ++ after, Conveyed s.requests msg)
    (hkept : ∀ k, 1 ≤ k → k + s.producer.journalCapacity ≤ s.issued →
      k ∈ before.map sequenceNumber)
    (hreplayed : ∀ msg ∈ replay.republished, Conveyed after msg)
    (hwithin : Within w before) (hwindow : s.producer.journalCapacity ≤ w + 1)
    (hcalls : s.issued ≤ calls) :
    returned E (new (before ++ after) w) calls = sentChunks topic (sends actions) := by
  have hstreams := streams_of_foldlM hrun
  have hjournaled : s.Journaled :=
    Machine.foldlM_invariant hrun (journaled_start topic qos journalCapacity)
      fun _ _ _ h ht => h.step ht
  have hreplays := (hjournaled.recent_of_orderly hquiet horderly).replays replay hreplay
  rw [hdone, List.map_nil, List.append_nil] at hreplays
  have hcomplete : Complete s.issued (before ++ after) := by
    intro k
    constructor
    · intro hk
      obtain ⟨msg, hmsg, rfl⟩ := List.mem_map.mp hk
      exact hstreams.sequenceNumber_le (by omega) (harrivals msg hmsg)
    · rintro ⟨hpos, hle⟩
      rw [List.map_append, List.mem_append]
      by_cases hlost : k + s.producer.journalCapacity ≤ s.issued
      · exact .inl (hkept k hpos hlost)
      · -- The number is still in the journal.
        have hlast := (mem_lastNumbers (s := s) (by omega)).mpr ⟨hpos, hle, by omega⟩
        rw [← hreplays] at hlast
        obtain ⟨msg, hmsg, rfl⟩ := List.mem_map.mp hlast
        obtain ⟨arrival, harrival, htopic, hpayload⟩ := hreplayed msg hmsg
        refine .inr (List.mem_map.mpr ⟨arrival, harrival, ?_⟩)
        rw [sequenceNumber, htopic, hpayload, sequenceNumber]
  refine returned_complete hstreams hissued
    (sublist_of_streams hstreams hissued harrivals w calls).2 hcomplete ?_ hcalls
  refine within_append (s.issued + 1 - s.producer.journalCapacity) hwithin
    (fun k hk => ((hcomplete k).mp hk).2) (fun k hpos hlt => hkept k hpos (by omega)) (by omega)

/-- Two calls, and a replay of both chunks. -/
def sampleActions : List ProducerAction :=
  [.number 5 [1], .push 0, .publish 0, .number 6 [2], .push 0, .publish 0, .lock, .republish 0,
    .republish 0]

/-- The messages of the two calls. -/
def sampleMessages : List PublishMessage :=
  (sentChunks "t" (sends sampleActions)).map (DataStreamProducer.new "t" .atMostOnce 2).message

/-- How the run ends. -/
theorem run_sampleActions : ∃ s,
    sampleActions.foldlM step (start Empty (.new "t" .atMostOnce 2)) = some s ∧ s.issued = 2 ∧
      s.numbered = [] ∧ s.producer.journalCapacity = 2 ∧ s.pushed = [0, 1] ∧
      s.requests = sampleMessages ++ sampleMessages ∧ s.replays = [⟨[], sampleMessages⟩] :=
  ⟨_, rfl, rfl, rfl, rfl, rfl, rfl, rfl⟩

/-- The second message arrives twice, and the first one after it. -/
theorem returned_sublist_repeated : ∃ s,
    sampleActions.foldlM step (start Empty (.new "t" .atMostOnce 2)) = some s ∧
      (returned Empty (new (sampleMessages ++ sampleMessages).tail 1) 2).Sublist
        (sentChunks "t" (sends sampleActions)) := by
  obtain ⟨s, hrun, hissued, -, -, -, hrequests, -⟩ := run_sampleActions
  refine ⟨s, hrun, (returned_sublist hrun (by rw [hissued]; decide) (fun msg hmsg => ?_) 1 2).2⟩
  exact ⟨msg, hrequests ▸ List.mem_of_mem_tail hmsg, rfl, rfl⟩

/-- The first message is lost, and the replay brings it. -/
theorem returned_recovered_first : ∃ s,
    sampleActions.foldlM step (start Empty (.new "t" .atMostOnce 2)) = some s ∧
      returned Empty (new (sampleMessages.tail ++ sampleMessages) 1) 2 =
        sentChunks "t" (sends sampleActions) := by
  obtain ⟨s, hrun, hissued, hquiet, hcapacity, hpushed, hrequests, hreplays⟩ := run_sampleActions
  have horderly : s.Orderly := by
    refine ⟨by omega, by omega, ?_⟩
    rw [hpushed, hcapacity]
    exact (SlidingWindow.rtake_eq_range_iff (List.Perm.refl (List.range 2))).mp rfl
  have hwithin : Within 1 sampleMessages.tail := by
    intro received rest hsplit e he
    have hlength := congrArg List.length hsplit
    rw [List.length_append, show sampleMessages.tail.length = 1 from rfl] at hlength
    calc (beyond e received).card ≤ (received.map sequenceNumber).toFinset.card :=
          Finset.card_filter_le _ _
      _ ≤ (received.map sequenceNumber).length := List.toFinset_card_le _
      _ ≤ 1 := by rw [List.length_map]; omega
  refine ⟨s, hrun, returned_recovered hrun (by rw [hissued]; decide) hquiet horderly
    (hreplays ▸ List.mem_cons_self) rfl (fun msg hmsg => ⟨msg, ?_, rfl, rfl⟩)
    (fun k hpos hle => by omega) (fun msg hmsg => ⟨msg, hmsg, rfl, rfl⟩) hwithin (by omega)
    (by omega)⟩
  rw [hrequests, List.mem_append]
  exact (List.mem_append.mp hmsg).imp_left List.mem_of_mem_tail

end

end MqttEngine.Tokio
