import MqttEngine.Lib.BoundedVec
import MqttEngine.Lib.Keyed
import MqttEngine.Lib.Machine
import MqttEngine.Packet.Types

/-!
# The in-flight queue of the core

`InflightQueue<N>` of `inflight.rs`: the packets that wait for an acknowledgement, in a vector
of bounded capacity. What it is for is `InflightTable`: a finite map from packet ids to what is
known about the packet, together with the id that was acknowledged last.

The queue looks for an id in two ways: `hasCollision` skips entries that are `Acknowledged`, the
lookups of `acknowledge` and `markPubrelSent` do not. No operation ever leaves an entry with that
status, and the ids are distinct, so that both ways find the same entry.

## Main definitions

* `InflightQueue`, with the operations of the source.
* `InflightTable` — the map that the queue stands for.
* `InflightQueue.Represents` — the queue is a list of the entries of the map.

## Main results

* `simulates` — the queue simulates the map.
* `queue_refines` — in every run.
-/

namespace MqttEngine.Core

/-- Status of an in-flight message. -/
inductive InflightStatus
  /-- Initial transmission, pending acknowledgment. -/
  | sent
  /-- QoS 2: received PUBREC, awaiting PUBCOMP after PUBREL. -/
  | pubRelSent
  /-- Acknowledgment completed. -/
  | acknowledged
  deriving DecidableEq, Repr

/-- A tracked in-flight packet entry. -/
structure InflightEntry where
  packetId : UInt16
  qos : QoS
  status : InflightStatus
  retries : UInt8
  deriving DecidableEq, Repr

/-- `InflightQueue<N>`. -/
structure InflightQueue (N : ℕ) where
  entries : BoundedVec InflightEntry N
  lastAckedId : Option UInt16

namespace InflightQueue
variable {N : ℕ}

/-- `InflightQueue::new`. -/
def new : InflightQueue N := { entries := .empty, lastAckedId := none }

/-- `is_full`. -/
def isFull (self : InflightQueue N) : Bool := self.entries.toList.length = N

/-- `is_empty`. -/
def isEmpty (self : InflightQueue N) : Bool := self.entries.toList.isEmpty

/-- `len`. -/
def len (self : InflightQueue N) : ℕ := self.entries.toList.length

/-- `has_collision`. -/
def hasCollision (self : InflightQueue N) (packetId : UInt16) : Bool :=
  self.entries.toList.any fun e => e.packetId = packetId ∧ e.status ≠ .acknowledged

/-- `push`. -/
def push (self : InflightQueue N) (packetId : UInt16) (qos : QoS) :
    Except UInt16 Unit × InflightQueue N :=
  if self.hasCollision packetId then (.error packetId, self)
  else match self.entries.push { packetId, qos, status := .sent, retries := 0 } with
    | some entries => (.ok (), { self with entries })
    | none => (.error packetId, self)

/-- `acknowledge`. -/
def acknowledge (self : InflightQueue N) (packetId : UInt16) : Bool × InflightQueue N :=
  match self.entries.swapRemoveFirst fun e => e.packetId = packetId with
  | some entries => (true, { entries, lastAckedId := some packetId })
  | none => (false, self)

/-- `mark_pubrel_sent`. -/
def markPubrelSent (self : InflightQueue N) (packetId : UInt16) : Bool × InflightQueue N :=
  match self.entries.modifyFirst (fun e => e.packetId = packetId)
      fun entry => { entry with status := .pubRelSent } with
  | some entries => (true, { self with entries })
  | none => (false, self)

/-- `iter_unacked`. -/
def iterUnacked (self : InflightQueue N) : List InflightEntry :=
  self.entries.toList.filter fun e => e.status ≠ .acknowledged

/-- `clear`. -/
def clear (_self : InflightQueue N) : InflightQueue N := { entries := .empty, lastAckedId := none }

end InflightQueue

/-- A call that changes the queue. -/
inductive InflightCall
  | push (packetId : UInt16) (qos : QoS)
  | acknowledge (packetId : UInt16)
  | markPubrelSent (packetId : UInt16)
  | clear

/-- What a call returns. -/
inductive InflightAnswer
  | pushed (result : Except UInt16 Unit)
  | found (known : Bool)
  | cleared

/-- A call, with its answer. -/
def InflightQueue.call {N : ℕ} (self : InflightQueue N) : InflightCall →
    InflightAnswer × InflightQueue N
  | .push packetId qos => ((self.push packetId qos).map .pushed id)
  | .acknowledge packetId => ((self.acknowledge packetId).map .found id)
  | .markPubrelSent packetId => ((self.markPubrelSent packetId).map .found id)
  | .clear => (.cleared, self.clear)

/-! ## The map -/

/-- What the queue stands for: a map from the ids of the tracked packets to what is known about
them, and the id that was acknowledged last. -/
@[ext] structure InflightTable where
  entries : UInt16 → Option (QoS × InflightStatus)
  lastAckedId : Option UInt16

namespace InflightTable

/-- Nothing is tracked. -/
def empty : InflightTable := { entries := fun _ => none, lastAckedId := none }

/-- The tracked ids. -/
def tracked (t : InflightTable) : Set UInt16 := { packetId | (t.entries packetId).isSome }

/-- The map without an id. -/
def remove (t : InflightTable) (packetId : UInt16) : InflightTable :=
  { entries := Function.update t.entries packetId none, lastAckedId := some packetId }

/-- The map with an entry. -/
def insert (t : InflightTable) (packetId : UInt16) (entry : QoS × InflightStatus) :
    InflightTable :=
  { t with entries := Function.update t.entries packetId (some entry) }

open Classical in
/-- A call on a map with room for `N` ids. -/
noncomputable def call (N : ℕ) (t : InflightTable) : InflightCall → InflightAnswer × InflightTable
  | .push packetId qos =>
    if packetId ∈ t.tracked ∨ t.tracked.ncard = N then (.pushed (.error packetId), t)
    else (.pushed (.ok ()), t.insert packetId (qos, .sent))
  | .acknowledge packetId =>
    if packetId ∈ t.tracked then (.found true, t.remove packetId) else (.found false, t)
  | .markPubrelSent packetId =>
    match t.entries packetId with
    | some (qos, _) => (.found true, t.insert packetId (qos, .pubRelSent))
    | none => (.found false, t)
  | .clear => (.cleared, empty)

end InflightTable

/-! ## Representation -/

namespace InflightQueue
variable {N : ℕ} {q : InflightQueue N} {t : InflightTable} {packetId : UInt16} {qos : QoS}

/-- What is known about the packet of an entry. -/
def info (e : InflightEntry) : QoS × InflightStatus := (e.qos, e.status)

/-- The queue lists the entries of the map, each once, and none of them is `Acknowledged`. -/
structure Represents (q : InflightQueue N) (t : InflightTable) : Prop where
  /-- The ids are distinct. -/
  distinct : (q.entries.toList.map InflightEntry.packetId).Nodup
  /-- No entry is left behind once it is acknowledged. -/
  unacked : ∀ e ∈ q.entries.toList, e.status ≠ .acknowledged
  /-- The entries of the map are those of the queue. -/
  entries : ∀ packetId,
    t.entries packetId = (Keyed.find InflightEntry.packetId q.entries.toList packetId).map info
  /-- The last acknowledged id is the same. -/
  last : t.lastAckedId = q.lastAckedId

theorem represents_new : Represents (new : InflightQueue N) .empty := by
  constructor <;> simp [new, InflightTable.empty]

namespace Represents

theorem mem_tracked (h : Represents q t) :
    packetId ∈ t.tracked ↔ packetId ∈ q.entries.toList.map InflightEntry.packetId := by
  rw [← Keyed.find_isSome, InflightTable.tracked, Set.mem_ofPred_eq, h.entries, Option.isSome_map]

/-- An id collides when it is tracked. -/
theorem hasCollision_iff (h : Represents q t) :
    q.hasCollision packetId = true ↔ packetId ∈ t.tracked := by
  simp only [h.mem_tracked, hasCollision, List.any_eq_true, decide_eq_true_eq, List.mem_map]
  constructor
  · rintro ⟨e, he, hid, -⟩
    exact ⟨e, he, hid⟩
  · rintro ⟨e, he, hid⟩
    exact ⟨e, he, hid, h.unacked e he⟩

/-- As many ids are tracked as the queue has entries. -/
theorem ncard_tracked (h : Represents q t) : t.tracked.ncard = q.len := by
  have hset : t.tracked =
      { packetId | (Keyed.find InflightEntry.packetId q.entries.toList packetId).isSome } := by
    ext packetId
    simp [InflightTable.tracked, h.entries]
  rw [hset, Keyed.ncard_find h.distinct, len]

/-- The queue is full when `N` ids are tracked. -/
theorem isFull_iff (h : Represents q t) : q.isFull = true ↔ t.tracked.ncard = N := by
  simp [isFull, h.ncard_tracked, len]

/-- The queue is empty when no id is tracked. -/
theorem isEmpty_iff (h : Represents q t) : q.isEmpty = true ↔ t.tracked.ncard = 0 := by
  simp [isEmpty, h.ncard_tracked, len]

theorem iterUnacked (h : Represents q t) : q.iterUnacked = q.entries.toList := by
  rw [InflightQueue.iterUnacked, List.filter_eq_self]
  simpa using h.unacked

/-- The iterator yields the entries of the map. -/
theorem mem_iterUnacked (h : Represents q t) {entry : QoS × InflightStatus} :
    t.entries packetId = some entry ↔ ∃ e ∈ q.iterUnacked, e.packetId = packetId ∧ info e = entry := by
  simp only [h.iterUnacked, h.entries, Option.map_eq_some_iff, Keyed.find_eq_some h.distinct,
    and_assoc]

/-! ## The operations -/

theorem push (h : Represents q t) (packetId : UInt16) (qos : QoS) :
    ((q.push packetId qos).1 = .error packetId ∧ (q.push packetId qos).2 = q ∧
        (packetId ∈ t.tracked ∨ t.tracked.ncard = N)) ∨
      ((q.push packetId qos).1 = .ok () ∧
        Represents (q.push packetId qos).2 (t.insert packetId (qos, .sent)) ∧
        ¬ (packetId ∈ t.tracked ∨ t.tracked.ncard = N)) := by
  rw [InflightQueue.push, ← h.hasCollision_iff]
  by_cases hcollision : q.hasCollision packetId
  · simp [hcollision]
  rw [if_neg hcollision]
  have hnew := h.mem_tracked.not.mp (h.hasCollision_iff.not.mp hcollision)
  cases hpush : q.entries.push { packetId, qos, status := .sent, retries := 0 } with
  | none =>
    have hfull := BoundedVec.push_eq_none.mp hpush
    refine .inl ⟨rfl, rfl, .inr ?_⟩
    rw [h.ncard_tracked]
    exact Nat.le_antisymm q.entries.length_le hfull
  | some entries =>
    obtain ⟨hroom, hentries⟩ := BoundedVec.push_eq_some.mp hpush
    refine .inr ⟨rfl, ⟨BoundedVec.nodup_push h.distinct hnew hpush, ?_, ?_, h.last⟩, ?_⟩
    · intro e he
      rw [hentries, List.mem_append, List.mem_singleton] at he
      rcases he with he | rfl
      · exact h.unacked e he
      · simp
    · intro i
      rw [hentries, Keyed.find_concat hnew]
      by_cases hi : i = packetId
      · simp [InflightTable.insert, hi, info]
      · simp [InflightTable.insert, hi, h.entries]
    · rw [h.ncard_tracked, InflightQueue.len]
      simp [hcollision, hroom.ne]

theorem acknowledge (h : Represents q t) (packetId : UInt16) :
    ((q.acknowledge packetId).1 = false ∧ (q.acknowledge packetId).2 = q ∧
        packetId ∉ t.tracked) ∨
      ((q.acknowledge packetId).1 = true ∧
        Represents (q.acknowledge packetId).2 (t.remove packetId) ∧ packetId ∈ t.tracked) := by
  rw [InflightQueue.acknowledge, h.mem_tracked]
  cases hremove : q.entries.swapRemoveFirst fun e => e.packetId = packetId with
  | none =>
    have hnone := BoundedVec.swapRemoveFirst_eq_none.mp hremove
    refine .inl ⟨rfl, rfl, ?_⟩
    simpa using hnone
  | some entries =>
    obtain ⟨pre, e, post, hq, he, -, hperm⟩ := BoundedVec.swapRemoveFirst_eq_some hremove
    have hid : e.packetId = packetId := by simpa using he
    have hkeys := h.distinct
    rw [hq] at hkeys
    refine .inr ⟨rfl, ⟨BoundedVec.nodup_swapRemoveFirst h.distinct hremove, ?_, ?_, rfl⟩, ?_⟩
    · exact fun x hx => h.unacked x (BoundedVec.mem_of_swapRemoveFirst hremove hx)
    · intro i
      rw [Keyed.find_remove hkeys hperm, ← hq, hid]
      by_cases hi : i = packetId
      · simp [InflightTable.remove, hi]
      · simp [InflightTable.remove, hi, h.entries]
    · rw [hq, ← hid]
      simp

theorem markPubrelSent (h : Represents q t) (packetId : UInt16) :
    ((q.markPubrelSent packetId).1 = false ∧ (q.markPubrelSent packetId).2 = q ∧
        t.entries packetId = none) ∨
      ∃ qos status, (q.markPubrelSent packetId).1 = true ∧
        Represents (q.markPubrelSent packetId).2 (t.insert packetId (qos, .pubRelSent)) ∧
        t.entries packetId = some (qos, status) := by
  rw [InflightQueue.markPubrelSent]
  cases hmark : q.entries.modifyFirst (fun e => e.packetId = packetId)
      fun entry => { entry with status := .pubRelSent } with
  | none =>
    have hnone := BoundedVec.modifyFirst_eq_none.mp hmark
    refine .inl ⟨rfl, rfl, ?_⟩
    rw [h.entries, Option.map_eq_none_iff, Keyed.find_eq_none]
    simpa using hnone
  | some entries =>
    obtain ⟨pre, e, post, hq, he, -, hentries⟩ := BoundedVec.modifyFirst_eq_some hmark
    have hid : e.packetId = packetId := by simpa using he
    have hkeys := h.distinct
    rw [hq] at hkeys
    have hids : entries.toList.map InflightEntry.packetId =
        q.entries.toList.map InflightEntry.packetId :=
      BoundedVec.keys_modifyFirst (fun _ => by rfl) hmark
    refine .inr ⟨e.qos, e.status, rfl, ⟨hids ▸ h.distinct, ?_, ?_, h.last⟩, ?_⟩
    · intro x hx
      rcases BoundedVec.mem_of_modifyFirst hmark hx with hx | ⟨a, -, -, rfl⟩
      · exact h.unacked x hx
      · simp
    · intro i
      rw [hentries, Keyed.find_replace (b := { e with status := .pubRelSent }) hkeys rfl, ← hq, hid]
      by_cases hi : i = packetId
      · simp [InflightTable.insert, hi, info]
      · simp [InflightTable.insert, hi, h.entries]
    · rw [h.entries, (Keyed.find_eq_some h.distinct).mpr ⟨by simp [hq], hid⟩]
      rfl


/-- A call on the queue is a call on the map. -/
theorem call_spec (h : Represents q t) (call : InflightCall) :
    (q.call call).1 = (t.call N call).1 ∧ Represents (q.call call).2 (t.call N call).2 := by
  cases call with
  | push packetId qos =>
    rcases h.push packetId qos with ⟨hres, hq, hc⟩ | ⟨hres, hq, hc⟩
    · simp [InflightQueue.call, InflightTable.call, hres, hq, hc, h]
    · simp [InflightQueue.call, InflightTable.call, hres, hq, hc]
  | acknowledge packetId =>
    rcases h.acknowledge packetId with ⟨hres, hq, hc⟩ | ⟨hres, hq, hc⟩
    · simp [InflightQueue.call, InflightTable.call, hres, hq, hc, h]
    · simp [InflightQueue.call, InflightTable.call, hres, hq, hc]
  | markPubrelSent packetId =>
    rcases h.markPubrelSent packetId with ⟨hres, hq, hc⟩ | ⟨qos, status, hres, hq, hc⟩
    · simp [InflightQueue.call, InflightTable.call, hres, hq, hc, h]
    · simp [InflightQueue.call, InflightTable.call, hres, hq, hc]
  | clear => exact ⟨rfl, represents_new⟩

end Represents

/-- **The queue simulates the map.** -/
theorem simulates : Machine.Simulates Represents (call (N := N)) (InflightTable.call N) where
  answer h call := (h.call_spec call).1
  next h call := (h.call_spec call).2

/-! ## Runs -/

/-- The calls of a run with their answers. -/
def history (N : ℕ) (calls : List InflightCall) : List (InflightCall × InflightAnswer) :=
  calls.zip (Machine.run call (new : InflightQueue N) calls).1

/-- Neither a `clear` nor an `acknowledge` that returned true. -/
def Keeps : InflightCall × InflightAnswer → Prop
  | (.clear, _) => False
  | (.acknowledge _, .found true) => False
  | _ => True

/-- The id of the latest `acknowledge` that returned true, since the last `clear`. -/
def LatestAcknowledged (history : List (InflightCall × InflightAnswer)) (packetId : UInt16) : Prop :=
  Machine.Latest Keeps (.acknowledge packetId, .found true) history

theorem history_concat (calls : List InflightCall) (c : InflightCall) :
    history N (calls ++ [c]) =
      history N calls ++ [(c, ((Machine.run call (new : InflightQueue N) calls).2.call c).1)] := by
  rw [history, history, Machine.run_append, Machine.run_cons, Machine.run_nil,
    List.zip_append (by simp)]
  rfl

theorem push_lastAckedId (q : InflightQueue N) :
    (q.push packetId qos).2.lastAckedId = q.lastAckedId := by
  unfold push
  split
  · rfl
  · split <;> rfl

theorem markPubrelSent_lastAckedId (q : InflightQueue N) :
    (q.markPubrelSent packetId).2.lastAckedId = q.lastAckedId := by
  unfold markPubrelSent
  split <;> rfl

/-- What a call does to the last acknowledged id. -/
theorem call_lastAckedId (q : InflightQueue N) (c : InflightCall) :
    (q.call c).2.lastAckedId = some packetId ↔
      (c, (q.call c).1) = (.acknowledge packetId, .found true) ∨
        (q.lastAckedId = some packetId ∧ Keeps (c, (q.call c).1)) := by
  cases c with
  | push i qos => simp [call, Keeps, push_lastAckedId]
  | markPubrelSent i => simp [call, Keeps, markPubrelSent_lastAckedId]
  | clear => simp [call, Keeps, clear]
  | acknowledge i =>
    simp only [call, acknowledge]
    split
    · simp [Keeps]
    · simp [Keeps]

/-- The last acknowledged id, from the calls. -/
theorem lastAckedId_iff (calls : List InflightCall) :
    (Machine.run call (new : InflightQueue N) calls).2.lastAckedId = some packetId ↔
      LatestAcknowledged (history N calls) packetId := by
  induction calls using List.reverseRecOn with
  | nil => simp [LatestAcknowledged, history, new]
  | append_singleton calls c ih =>
    rw [history_concat, LatestAcknowledged, Machine.latest_concat, ← LatestAcknowledged, ← ih,
      Machine.run_append, Machine.run_cons, Machine.run_nil, call_lastAckedId]

/-- The queue after the calls, from an empty one. -/
def reached (N : ℕ) (calls : List InflightCall) : InflightQueue N :=
  (Machine.run call new calls).2

/-- The map after the calls, from the empty one. -/
noncomputable def table (N : ℕ) (calls : List InflightCall) : InflightTable :=
  (Machine.run (InflightTable.call N) .empty calls).2

theorem represents_reached (calls : List InflightCall) :
    Represents (reached N calls) (table N calls) :=
  (simulates.run represents_new calls).2

/-- `push` fails when the id is tracked or there is no room, and then changes nothing. -/
theorem Represents.push_fails (h : Represents q t) :
    ((q.push packetId qos).1 = .error packetId ↔ packetId ∈ t.tracked ∨ t.tracked.ncard = N) ∧
      ((q.push packetId qos).1 = .error packetId → (q.push packetId qos).2 = q) := by
  rcases h.push packetId qos with ⟨hres, hq, hc⟩ | ⟨hres, -, hc⟩
  · simp [hres, hq, hc]
  · simp [hres, hc]

/-- `acknowledge` returns true for a tracked id, and takes out its entry only. -/
theorem Represents.acknowledges (h : Represents q t) :
    ((q.acknowledge packetId).1 = true ↔ packetId ∈ t.tracked) ∧
      ∀ e, e ∈ (q.acknowledge packetId).2.entries.toList ↔
        e ∈ q.entries.toList ∧ e.packetId ≠ packetId := by
  rw [h.mem_tracked, InflightQueue.acknowledge]
  cases hremove : q.entries.swapRemoveFirst fun e => e.packetId = packetId with
  | none =>
    have hnone := BoundedVec.swapRemoveFirst_eq_none.mp hremove
    simp only [decide_eq_false_iff_not] at hnone
    simpa using hnone
  | some entries =>
    obtain ⟨pre, e, post, hq, he, -⟩ := BoundedVec.swapRemoveFirst_eq_some hremove
    constructor
    · simp only [true_iff, List.mem_map]
      exact ⟨e, by simp [hq], by simpa using he⟩
    · intro e
      rw [BoundedVec.mem_swapRemoveFirst h.distinct (fun a ha => by simpa using ha) hremove]
      simp

/-- `mark_pubrel_sent` returns true for a tracked id, and changes the status of its entry only. -/
theorem Represents.marks (h : Represents q t) :
    ((q.markPubrelSent packetId).1 = true ↔ packetId ∈ t.tracked) ∧
      ∀ e, e ∈ (q.markPubrelSent packetId).2.entries.toList ↔
        (e ∈ q.entries.toList ∧ e.packetId ≠ packetId) ∨
          ∃ old ∈ q.entries.toList, old.packetId = packetId ∧ e = { old with status := .pubRelSent } := by
  rw [h.mem_tracked, InflightQueue.markPubrelSent]
  cases hmark : q.entries.modifyFirst (fun e => e.packetId = packetId)
      fun entry => { entry with status := .pubRelSent } with
  | none =>
    have hnone := BoundedVec.modifyFirst_eq_none.mp hmark
    simp only [decide_eq_false_iff_not] at hnone
    constructor
    · simpa using hnone
    · intro e
      constructor
      · exact fun he => .inl ⟨he, hnone e he⟩
      · rintro (⟨he, -⟩ | ⟨old, hold, hid, -⟩)
        · exact he
        · exact absurd hid (hnone old hold)
  | some entries =>
    obtain ⟨pre, e, post, hq, he, -⟩ := BoundedVec.modifyFirst_eq_some hmark
    constructor
    · simp only [true_iff, List.mem_map]
      exact ⟨e, by simp [hq], by simpa using he⟩
    · intro e
      rw [BoundedVec.mem_modifyFirst h.distinct (fun a ha => by simpa using ha) hmark]
      simp

/-- **The queue refines a finite map of capacity `N`.** After any calls, what they returned is
what the map returns; the ids are distinct and at most `N`; an id collides, is refused by `push`,
acknowledged and marked just as it is tracked, and only its own entry changes; the unacknowledged
entries are those of the map; and the last acknowledged id is the latest since the last `clear`. -/
theorem queue_refines (calls : List InflightCall) :
    (Machine.run call (new : InflightQueue N) calls).1 =
        (Machine.run (InflightTable.call N) .empty calls).1 ∧
      (((reached N calls).iterUnacked.map InflightEntry.packetId).Nodup ∧
        (table N calls).tracked.ncard ≤ N) ∧
      (∀ packetId, (reached N calls).hasCollision packetId = true ↔
        packetId ∈ (table N calls).tracked) ∧
      (∀ packetId qos,
        (((reached N calls).push packetId qos).1 = .error packetId ↔
          packetId ∈ (table N calls).tracked ∨ (table N calls).tracked.ncard = N) ∧
        (((reached N calls).push packetId qos).1 = .error packetId →
          ((reached N calls).push packetId qos).2 = reached N calls)) ∧
      (∀ packetId,
        (((reached N calls).acknowledge packetId).1 = true ↔
          packetId ∈ (table N calls).tracked) ∧
        ∀ e, e ∈ ((reached N calls).acknowledge packetId).2.entries.toList ↔
          e ∈ (reached N calls).entries.toList ∧ e.packetId ≠ packetId) ∧
      (∀ packetId,
        (((reached N calls).markPubrelSent packetId).1 = true ↔
          packetId ∈ (table N calls).tracked) ∧
        ∀ e, e ∈ ((reached N calls).markPubrelSent packetId).2.entries.toList ↔
          (e ∈ (reached N calls).entries.toList ∧ e.packetId ≠ packetId) ∨
            ∃ old ∈ (reached N calls).entries.toList,
              old.packetId = packetId ∧ e = { old with status := .pubRelSent }) ∧
      (∀ packetId entry, (table N calls).entries packetId = some entry ↔
        ∃ e ∈ (reached N calls).iterUnacked, e.packetId = packetId ∧ info e = entry) ∧
      ∀ packetId, (reached N calls).lastAckedId = some packetId ↔
        LatestAcknowledged (history N calls) packetId := by
  have h := represents_reached (N := N) calls
  refine ⟨(simulates.run represents_new calls).1, ⟨?_, ?_⟩, fun _ => h.hasCollision_iff,
    fun _ _ => h.push_fails, fun _ => h.acknowledges, fun _ => h.marks, fun _ _ => h.mem_iterUnacked,
    fun _ => lastAckedId_iff calls⟩
  · rw [h.iterUnacked]
    exact h.distinct
  · rw [h.ncard_tracked]
    exact (reached N calls).entries.length_le

end InflightQueue

end MqttEngine.Core
