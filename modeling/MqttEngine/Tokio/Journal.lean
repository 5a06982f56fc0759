import MqttEngine.Lib.Machine
import MqttEngine.Lib.SlidingWindow
import MqttEngine.Tokio.Client
import MqttEngine.Tokio.Stream

/-!
# The recovery journal of a stream

`DataStreamProducer` of `stream.rs`. Its clones share the counter and the journal. A call of `send`
takes a number from the counter, records its chunk under the lock of the journal, and hands the
message over to the client; calls run side by side, and what happens between two of these steps is
up to the others. The number is taken outside the lock, so that a call may be overtaken by calls
with greater numbers before it comes to the journal. A replay holds the lock for reading until it has
republished the whole journal.

## Main definitions

* `DataStreamProducer` — the counter and the journal.
* `ProducerSystem`, `ProducerSystem.step` — calls of `send` and replays in progress.
* `Recent`, `Orderly` — the journal is the most recent window in order; when it is.

## Main results

* `journaled_of_reaches` — what the journal holds.
* `recent_of_reaches` — the calls after which the journal is the most recent window in order.
-/

namespace MqttEngine.Tokio

/-! ## The producer -/

/-- `DataStreamProducer`, less the handle of the client. -/
structure DataStreamProducer where
  topic : String
  sequence : UInt64
  qos : QoS
  /-- The oldest chunk first. -/
  recoveryJournal : List StreamChunk
  journalCapacity : ℕ

namespace DataStreamProducer

/-- `DataStreamProducer::new`. -/
def new (topic : String) (qos : QoS) (journalCapacity : ℕ) : DataStreamProducer :=
  { topic, sequence := 1, qos, recoveryJournal := [], journalCapacity }

/-- `sequence.fetch_add(1)`, which wraps around, and the chunk with that number. -/
def number (self : DataStreamProducer) (now : UInt64) (payload : List UInt8) :
    StreamChunk × DataStreamProducer :=
  ({ seqId := self.sequence, timestampNs := now, topic := self.topic, payload, isRecovery := false },
    { self with sequence := self.sequence + 1 })

/-- What is done under the lock of the journal. -/
def record (self : DataStreamProducer) (chunk : StreamChunk) : DataStreamProducer :=
  { self with
    recoveryJournal := SlidingWindow.push self.journalCapacity self.recoveryJournal chunk }

/-- The message that `self.client.publish` makes of a chunk. -/
def message (self : DataStreamProducer) (chunk : StreamChunk) : PublishMessage :=
  ClientSystem.message self.topic self.qos false chunk.encodeWire

end DataStreamProducer

/-! ## Calls in progress -/

/-- A call of `replay_recovery_journal`. -/
structure Replay where
  /-- The chunks that are still to be republished. -/
  rest : List StreamChunk
  /-- The messages that have been handed over. Their count is `replayed`. -/
  republished : List PublishMessage

/-- A producer and the calls of its clones. -/
structure ProducerSystem (E : Type) where
  producer : DataStreamProducer
  /-- The calls of `send` that have a number and are not in the journal, each with the count of the
  numbers that were issued before. -/
  numbered : List (ℕ × StreamChunk)
  /-- The calls of `send` that are in the journal and have not been handed over. -/
  recorded : List StreamChunk
  replays : List Replay
  /-- What has been handed over to the client, in order. -/
  requests : List PublishMessage
  /-- The client has closed its channel. -/
  closed : Bool
  /-- What the calls of `send` have returned. -/
  sent : List (Except (ClientError E) UInt64)
  /-- What the replays have returned. -/
  replayed : List (Except (ClientError E) ℕ)
  /-- How many numbers have been issued. -/
  issued : ℕ
  /-- The calls that have come to the journal, in order. -/
  pushed : List ℕ

/-- What one of the calls does next. -/
inductive ProducerAction
  /-- A new call of `send` takes its number. -/
  | number (now : UInt64) (payload : List UInt8)
  /-- A call of `send` records its chunk. -/
  | push (i : ℕ)
  /-- A call of `send` publishes its chunk, and returns. -/
  | publish (i : ℕ)
  /-- A replay takes the lock. -/
  | lock
  /-- A replay publishes its next chunk, or returns. -/
  | republish (i : ℕ)
  /-- The client closes its channel. -/
  | close

namespace ProducerSystem
variable {E : Type}

def start (E : Type) (producer : DataStreamProducer) : ProducerSystem E :=
  { producer, numbered := [], recorded := [], replays := [], requests := [], closed := false
    sent := [], replayed := [], issued := 0, pushed := [] }

def step (self : ProducerSystem E) : ProducerAction → Option (ProducerSystem E)
  | .number now payload =>
    let (chunk, producer) := self.producer.number now payload
    some { self with
      producer, numbered := self.numbered ++ [(self.issued, chunk)], issued := self.issued + 1 }
  | .push i =>
    -- `write().await` waits for the replays.
    if self.replays ≠ [] then none
    else
      match self.numbered[i]? with
      | none => none
      | some (ticket, chunk) =>
        some { self with
          producer := self.producer.record chunk
          numbered := self.numbered.eraseIdx i
          recorded := self.recorded ++ [chunk]
          pushed := self.pushed ++ [ticket] }
  | .publish i =>
    match self.recorded[i]? with
    | none => none
    | some chunk =>
      let recorded := self.recorded.eraseIdx i
      if self.closed then
        some { self with recorded, sent := self.sent ++ [.error .clientClosed] }
      else
        some { self with
          recorded
          requests := self.requests ++ [self.producer.message chunk]
          sent := self.sent ++ [.ok chunk.seqId] }
  | .lock =>
    let replay : Replay := { rest := self.producer.recoveryJournal, republished := [] }
    some { self with replays := self.replays ++ [replay] }
  | .republish i =>
    match self.replays[i]? with
    | none => none
    | some { rest := [], republished } =>
      some { self with
        replays := self.replays.eraseIdx i
        replayed := self.replayed ++ [.ok republished.length] }
    | some { rest := chunk :: rest, republished } =>
      if self.closed then
        some { self with
          replays := self.replays.eraseIdx i
          replayed := self.replayed ++ [.error .clientClosed] }
      else
        let message := self.producer.message { chunk with isRecovery := true }
        some { self with
          requests := self.requests ++ [message]
          replays := self.replays.set i { rest, republished := republished ++ [message] } }
  | .close => some { self with closed := true }

/-- What is reached by steps of the calls, in any order. -/
abbrev Reaches : ProducerSystem E → ProducerSystem E → Prop :=
  Machine.Reaches step fun _ _ => True

/-! ## What the journal holds -/

/-- The number that is issued after `i` others. -/
def numberAt (i : ℕ) : UInt64 := UInt64.ofNat (i + 1)

theorem toNat_numberAt (i : ℕ) : (numberAt i).toNat = (i + 1) % 2 ^ 64 :=
  UInt64.toNat_ofNat'

theorem numberAt_succ (i : ℕ) : numberAt (i + 1) = numberAt i + 1 := by
  apply UInt64.toNat_inj.mp
  rw [UInt64.toNat_add, toNat_numberAt, toNat_numberAt, show (1 : UInt64).toNat = 1 from rfl]
  omega

/-- Below the wrap around, a number tells how many were issued before. -/
theorem map_toNat_numberAt {l : List ℕ} (h : ∀ i ∈ l, i + 1 < 2 ^ 64) :
    (l.map numberAt).map (fun k => k.toNat - 1) = l := by
  rw [List.map_map]
  calc l.map ((fun k : UInt64 => k.toNat - 1) ∘ numberAt) = l.map id := by
        refine List.map_congr_left fun i hi => ?_
        rw [Function.comp_apply, toNat_numberAt, Nat.mod_eq_of_lt (h i hi)]
        rfl
    _ = l := List.map_id l

/-- The number of a message is that of its chunk. -/
@[simp] theorem sequenceNumber_message (producer : DataStreamProducer) (chunk : StreamChunk) :
    sequenceNumber (producer.message chunk) = chunk.seqId.toNat := by
  have hwire := StreamChunk.ofWire_encodeWire chunk
  have htopic : ∀ topic, (StreamChunk.ofWire topic chunk.encodeWire).seqId =
      (StreamChunk.ofWire chunk.topic chunk.encodeWire).seqId := fun topic => by
    rw [StreamChunk.ofWire, StreamChunk.ofWire]
    split <;> rfl
  rw [sequenceNumber, DataStreamProducer.message, ClientSystem.message, htopic, hwire]

/-- Every issued number is at most once on its way to the journal or has been there. The journal
holds the last that have come to it, and the replays go through it. -/
structure Journaled (s : ProducerSystem E) : Prop where
  sequence : s.producer.sequence = numberAt s.issued
  numbered : ∀ call ∈ s.numbered, call.2.seqId = numberAt call.1
  tickets : (s.numbered.map Prod.fst ++ s.pushed).Perm (List.range s.issued)
  journal : s.producer.recoveryJournal.map (fun chunk => chunk.seqId) =
    (s.pushed.map numberAt).rtake (max 1 s.producer.journalCapacity)
  replays : ∀ replay ∈ s.replays,
    replay.republished.map sequenceNumber ++ replay.rest.map (fun chunk => chunk.seqId.toNat) =
      s.producer.recoveryJournal.map fun chunk => chunk.seqId.toNat

theorem journaled_start (topic : String) (qos : QoS) (journalCapacity : ℕ) :
    Journaled (start E (.new topic qos journalCapacity)) where
  sequence := rfl
  numbered := by simp [start]
  tickets := .nil
  journal := by simp [start, DataStreamProducer.new]
  replays := by simp [start]

section
variable {s t : ProducerSystem E}

/-- A call takes its number. -/
theorem Journaled.number (h : s.Journaled) (now : UInt64) (payload : List UInt8)
    (ht : s.step (.number now payload) = some t) : t.Journaled := by
  cases ht
  refine ⟨?_, fun call hcall => ?_, ?_, h.journal, h.replays⟩
  · change s.producer.sequence + 1 = numberAt (s.issued + 1)
    rw [h.sequence, numberAt_succ]
  · rcases List.mem_append.mp hcall with hcall | hcall
    · exact h.numbered call hcall
    · rw [List.mem_singleton] at hcall
      subst hcall
      exact h.sequence
  · have hnew := (h.tickets.cons s.issued).trans (List.perm_append_singleton _ _).symm
    rw [← List.range_succ] at hnew
    refine List.Perm.trans ?_ hnew
    rw [List.map_append, List.map_singleton, List.append_assoc]
    exact List.perm_middle

/-- A call records its chunk. -/
theorem Journaled.push (h : s.Journaled) {i : ℕ} (ht : s.step (.push i) = some t) :
    t.Journaled := by
  rw [step] at ht
  split at ht
  · cases ht
  · rename_i hreplays
    split at ht
    · cases ht
    · rename_i ticket chunk hcall
      cases ht
      have hseq := h.numbered _ (List.mem_of_getElem? hcall)
      refine ⟨h.sequence, fun call hcall => h.numbered call (List.mem_of_mem_eraseIdx hcall), ?_, ?_,
        fun replay hreplay => ?_⟩
      · obtain ⟨hi, hget⟩ := List.getElem?_eq_some_iff.mp hcall
        have herased := (List.getElem_cons_eraseIdx_perm hi).map Prod.fst
        rw [hget] at herased
        refine List.Perm.trans ?_ ((herased.append_right s.pushed).trans h.tickets)
        change ((s.numbered.eraseIdx i).map Prod.fst ++ (s.pushed ++ [ticket])).Perm _
        rw [← List.append_assoc]
        exact List.perm_append_singleton _ _
      · change (SlidingWindow.push _ _ _).map _ = ((s.pushed ++ [ticket]).map numberAt).rtake _
        rw [SlidingWindow.map_push, h.journal, hseq, SlidingWindow.push_rtake, List.map_append]
        rfl
      · rw [ne_eq, not_not] at hreplays
        rw [hreplays] at hreplay
        cases hreplay

/-- A replay publishes its next chunk, or returns. -/
theorem Journaled.republish (h : s.Journaled) {i : ℕ} (ht : s.step (.republish i) = some t) :
    t.Journaled := by
  rw [step] at ht
  split at ht
  · cases ht
  · cases ht
    exact { h with
      replays := fun replay hreplay => h.replays replay (List.mem_of_mem_eraseIdx hreplay) }
  · rename_i chunk rest republished hreplay
    have hwhole := h.replays _ (List.mem_of_getElem? hreplay)
    split at ht
    · cases ht
      exact { h with
        replays := fun replay hreplay => h.replays replay (List.mem_of_mem_eraseIdx hreplay) }
    · cases ht
      refine { h with replays := fun replay hreplay => ?_ }
      rcases List.mem_or_eq_of_mem_set hreplay with hbefore | rfl
      · exact h.replays replay hbefore
      · rw [← hwhole]
        simp

theorem Journaled.step (h : s.Journaled) {action : ProducerAction} (ht : s.step action = some t) :
    t.Journaled := by
  cases action with
  | number now payload => exact h.number now payload ht
  | push i => exact h.push ht
  | publish i =>
    rw [ProducerSystem.step] at ht
    split at ht
    · cases ht
    · dsimp only at ht
      split at ht <;> cases ht <;> exact { h with }
  | lock =>
    cases ht
    refine { h with replays := fun replay hreplay => ?_ }
    rcases List.mem_append.mp hreplay with hbefore | hnew
    · exact h.replays replay hbefore
    · rw [List.mem_singleton] at hnew
      subst hnew
      rfl
  | republish i => exact h.republish ht
  | close =>
    cases ht
    exact { h with }

end

/-- **What the journal holds.** -/
theorem journaled_of_reaches {topic : String} {qos : QoS} {journalCapacity : ℕ}
    {s : ProducerSystem E} (h : Reaches (start E (.new topic qos journalCapacity)) s) : s.Journaled :=
  h.invariant (journaled_start topic qos journalCapacity) fun _ _ _ hs _ ht => hs.step ht

/-! ## The most recent window -/

/-- The last numbers that have been issued, as many as the journal has places for. -/
def lastNumbers (s : ProducerSystem E) : List UInt64 :=
  ((List.range s.issued).map numberAt).rtake s.producer.journalCapacity

/-- The journal holds the last numbers in increasing order, and so do the replays republish them. -/
structure Recent (s : ProducerSystem E) : Prop where
  journal : s.producer.recoveryJournal.map (fun chunk => chunk.seqId) = s.lastNumbers
  increasing : s.lastNumbers.Pairwise (· < ·)
  replays : ∀ replay ∈ s.replays,
    replay.republished.map sequenceNumber ++ replay.rest.map (fun chunk => chunk.seqId.toNat) =
      s.lastNumbers.map UInt64.toNat

/-- The journal has a place, unless nothing has been sent; the counter has not wrapped around within
the window; and none of the calls that were the last to come to the journal came there after a call
with a greater number. -/
structure Orderly (s : ProducerSystem E) : Prop where
  place : s.producer.journalCapacity = 0 → s.issued = 0
  unwrapped : (s.issued - s.producer.journalCapacity + 1) / 2 ^ 64 = s.issued / 2 ^ 64
  inTurn : SlidingWindow.InTurn s.pushed s.producer.journalCapacity

section
variable {s : ProducerSystem E}

/-- Numbers that are issued while the counter does not wrap around increase. -/
theorem pairwise_lastNumbers
    (h : (s.issued - s.producer.journalCapacity + 1) / 2 ^ 64 = s.issued / 2 ^ 64) :
    s.lastNumbers.Pairwise (· < ·) := by
  rw [lastNumbers, ← SlidingWindow.map_rtake, List.rtake, List.length_range, List.pairwise_map,
    List.range_eq_range', List.drop_range']
  refine (List.pairwise_lt_range' 1 Nat.one_pos).imp_of_mem fun {i j} hi hj hlt => ?_
  rw [List.mem_range'_1] at hi hj
  rw [UInt64.lt_iff_toNat_lt, toNat_numberAt, toNat_numberAt]
  omega

/-- Between two calls everything that has been issued has been pushed. -/
theorem Journaled.pushed (h : s.Journaled) (hquiet : s.numbered = []) :
    s.pushed.Perm (List.range s.issued) := by
  have htickets := h.tickets
  rwa [hquiet, List.map_nil, List.nil_append] at htickets

/-- The window is recent if the journal is. -/
theorem Journaled.recent (h : s.Journaled)
    (hjournal : s.producer.recoveryJournal.map (fun chunk => chunk.seqId) = s.lastNumbers)
    (hincreasing : s.lastNumbers.Pairwise (· < ·)) : s.Recent := by
  refine ⟨hjournal, hincreasing, fun replay hreplay => ?_⟩
  rw [h.replays replay hreplay, ← hjournal, List.map_map]
  rfl

theorem Journaled.recent_of_orderly (h : s.Journaled) (hquiet : s.numbered = [])
    (horderly : s.Orderly) : s.Recent := by
  refine h.recent ?_ (pairwise_lastNumbers horderly.unwrapped)
  rw [h.journal, lastNumbers, ← SlidingWindow.map_rtake, ← SlidingWindow.map_rtake]
  rcases Nat.eq_zero_or_pos s.producer.journalCapacity with hzero | hpos
  · -- Nothing has been sent.
    have hnone := h.pushed hquiet
    rw [horderly.place hzero] at hnone
    rw [hnone.eq_nil, horderly.place hzero]
    simp
  · rw [max_eq_right hpos, (SlidingWindow.rtake_eq_range_iff (h.pushed hquiet)).mpr horderly.inTurn]

theorem Recent.orderly (hrecent : s.Recent) (h : s.Journaled) (hquiet : s.numbered = [])
    (hissued : s.issued < 2 ^ 64) : s.Orderly := by
  have hperm := h.pushed hquiet
  have hjournal := hrecent.journal
  rw [h.journal, lastNumbers, ← SlidingWindow.map_rtake, ← SlidingWindow.map_rtake] at hjournal
  have hplace : s.producer.journalCapacity = 0 → s.issued = 0 := by
    intro hzero
    have hlength := congrArg List.length hjournal
    have hcount := hperm.length_eq
    rw [List.length_range] at hcount
    simp only [hzero, List.rtake, List.length_map, List.length_drop, List.length_range] at hlength
    omega
  refine ⟨hplace, by omega, ?_⟩
  rcases Nat.eq_zero_or_pos s.producer.journalCapacity with hzero | hpos
  · rw [hzero]
    exact fun before ticket after _ hlength => by omega
  · rw [max_eq_right hpos] at hjournal
    have hbelow : ∀ i ∈ List.range s.issued, i + 1 < 2 ^ 64 := fun i hi => by
      have hlt := List.mem_range.mp hi
      omega
    refine (SlidingWindow.rtake_eq_range_iff hperm).mp ?_
    rw [← map_toNat_numberAt fun i hi => hbelow i (hperm.subset (SlidingWindow.mem_of_mem_rtake hi)),
      hjournal, map_toNat_numberAt fun i hi => hbelow i (SlidingWindow.mem_of_mem_rtake hi)]

/-- **When the journal is the most recent window in order.** -/
theorem recent_of_reaches {topic : String} {qos : QoS} {journalCapacity : ℕ}
    (h : Reaches (start E (.new topic qos journalCapacity)) s) (hquiet : s.numbered = []) :
    (s.Orderly → s.Recent) ∧ (s.issued < 2 ^ 64 → s.Recent → s.Orderly) :=
  ⟨(journaled_of_reaches h).recent_of_orderly hquiet,
    fun hissued hrecent => hrecent.orderly (journaled_of_reaches h) hquiet hissued⟩

/-- A producer whose journal has the given number of places. -/
def sampleProducer (journalCapacity : ℕ) : ProducerSystem Empty :=
  start Empty (.new "t" .atMostOnce journalCapacity)

/-- Two calls that come to the journal in their order. -/
theorem recent_of_reaches_inOrder : ∃ s, Reaches (sampleProducer 1) s ∧ s.Recent := by
  have hreaches := Machine.reaches_of_replay
    (rfl : Machine.replay step (fun _ _ => True) (sampleProducer 1)
      [.number 0 [], .number 0 [], .push 0, .push 0] = some _)
  refine ⟨_, hreaches, (recent_of_reaches hreaches rfl).1 ⟨by decide, by decide, ?_⟩⟩
  exact (SlidingWindow.rtake_eq_range_iff (List.Perm.refl (List.range 2))).mp rfl

/-- The second call comes to the journal first; and a journal without places keeps a chunk. -/
theorem not_recent_of_overtaken :
    (∃ s, Reaches (sampleProducer 2) s ∧ s.numbered = [] ∧ ¬ s.Recent) ∧
      ∃ s, Reaches (sampleProducer 0) s ∧ s.numbered = [] ∧ ¬ s.Recent := by
  constructor
  · have hreaches := Machine.reaches_of_replay
      (rfl : Machine.replay step (fun _ _ => True) (sampleProducer 2)
        [.number 0 [], .number 0 [], .push 1, .push 0] = some _)
    refine ⟨_, hreaches, rfl, fun h => ?_⟩
    exact absurd h.journal (by decide)
  · have hreaches := Machine.reaches_of_replay
      (rfl : Machine.replay step (fun _ _ => True) (sampleProducer 0)
        [.number 0 [], .push 0] = some _)
    refine ⟨_, hreaches, rfl, fun h => ?_⟩
    exact absurd h.journal (by decide)

end

end ProducerSystem

end MqttEngine.Tokio
