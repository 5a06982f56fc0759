import MqttEngine.Lib.BoundedVec
import MqttEngine.Packet.Types
import Mathlib.Data.List.Induction
import Mathlib.Data.List.Nodup
import Mathlib.Data.Set.Insert

/-!
# The in-flight table of the embedded client

`InflightQueue` of `mqtt-embedded`: a bounded table of unacknowledged QoS 1 and QoS 2
exchanges, keyed by packet id alone. Outbound exchanges and inbound QoS 2 exchanges stand in
the same table.

The two directions number their packets independently, so an id can be in use in both.
`Op.Collides` says when an operation of one direction finds an entry of the other under its
id; `frame_iff` says that this is exactly when the operation changes an entry that does not
belong to it.

## Main definitions

* `InflightQueue`, with the operations of the source.
* `Op`, `step`, `run` — operations as steps on tables, from the empty table.
* `Op.Frame`, `Op.Collides` — the entries an operation must leave alone, and when it does not.
* `Waits` — an exchange is in the table and waits for its next acknowledgement.

## Main results

* `run_distinct` — the ids in a reachable table are distinct.
* `frame_iff` — when an operation leaves the other direction alone.
* `transactions_apart_iff` — when the two directions never interfere in a run.
-/

namespace MqttEngine

/-- Status of an in-flight message. -/
inductive InflightStatus
  /-- QoS 1: published, awaiting PUBACK. -/
  | awaitingPubAck
  /-- QoS 2: published, awaiting PUBREC. -/
  | awaitingPubRec
  /-- QoS 2: received PUBREC, sent PUBREL, awaiting PUBCOMP. -/
  | awaitingPubComp
  /-- QoS 2, incoming: received PUBLISH, sent PUBREC, awaiting PUBREL. -/
  | awaitingPubRel
  deriving DecidableEq, Repr

/-- The entry belongs to a message that the client itself has published. -/
def InflightStatus.Outbound (s : InflightStatus) : Prop := s ≠ .awaitingPubRel

instance : DecidablePred InflightStatus.Outbound := fun s => inferInstanceAs (Decidable (s ≠ _))

/-- An entry of the in-flight table. -/
structure InflightEntry where
  packetId : UInt16
  qos : QoS
  status : InflightStatus
  deriving DecidableEq, Repr

/-- `InflightQueue<MAX_INFLIGHT>`. -/
abbrev InflightQueue (maxInflight : ℕ) := BoundedVec InflightEntry maxInflight

namespace InflightQueue
variable {maxInflight : ℕ}

/-- `if let Some(existing) = entries.iter_mut().find(..) { existing.status = status }`, and
otherwise a push, which fails when the table is full. -/
def upsert (self : InflightQueue maxInflight) (packetId : UInt16) (qos : QoS)
    (status : InflightStatus) : Option (InflightQueue maxInflight) :=
  match self.modifyFirst (fun e => e.packetId = packetId) fun e => { e with status } with
  | some q => some q
  | none => self.push { packetId, qos, status }

/-- `track_outbound`; `none` is the error `InflightQueueFull`, which leaves the table as it
is. -/
def trackOutbound (self : InflightQueue maxInflight) (packetId : UInt16) (qos : QoS) :
    Option (InflightQueue maxInflight) :=
  match qos with
  | .atLeastOnce => self.upsert packetId qos .awaitingPubAck
  | .exactlyOnce => self.upsert packetId qos .awaitingPubRec
  | .atMostOnce => some self

/-- `track_inbound_qos2`; `none` is the error `InflightQueueFull`. -/
def trackInboundQos2 (self : InflightQueue maxInflight) (packetId : UInt16) :
    Option (InflightQueue maxInflight) :=
  self.upsert packetId .exactlyOnce .awaitingPubRel

/-- Remove the entry with the given id and status; `none` if there is no such entry. -/
def complete (self : InflightQueue maxInflight) (packetId : UInt16) (status : InflightStatus) :
    Option (InflightQueue maxInflight) :=
  self.swapRemoveFirst fun e => e.packetId = packetId ∧ e.status = status

/-- `handle_puback`; `none` is the result `false`, which leaves the table as it is. -/
def handlePuback (self : InflightQueue maxInflight) (packetId : UInt16) :
    Option (InflightQueue maxInflight) :=
  self.complete packetId .awaitingPubAck

/-- `handle_pubrec`; `none` is the result `false`. -/
def handlePubrec (self : InflightQueue maxInflight) (packetId : UInt16) :
    Option (InflightQueue maxInflight) :=
  self.modifyFirst (fun e => e.packetId = packetId ∧ e.status = .awaitingPubRec)
    fun e => { e with status := .awaitingPubComp }

/-- `handle_pubrel`; `none` is the result `false`. -/
def handlePubrel (self : InflightQueue maxInflight) (packetId : UInt16) :
    Option (InflightQueue maxInflight) :=
  self.complete packetId .awaitingPubRel

/-- `handle_pubcomp`; `none` is the result `false`. -/
def handlePubcomp (self : InflightQueue maxInflight) (packetId : UInt16) :
    Option (InflightQueue maxInflight) :=
  self.complete packetId .awaitingPubComp

/-! ## What the operations change -/

/-- The ids in the table are distinct. -/
def Distinct (self : InflightQueue maxInflight) : Prop := (self.toList.map (·.packetId)).Nodup

/-- In a table with distinct ids an entry is determined by its id. -/
theorem Distinct.eq_of_id {self : InflightQueue maxInflight} (h : self.Distinct)
    {e e' : InflightEntry} (he : e ∈ self.toList) (he' : e' ∈ self.toList)
    (hid : e.packetId = e'.packetId) : e = e' :=
  List.inj_on_of_nodup_map h he he' hid

theorem upsert_spec {self q : InflightQueue maxInflight} {packetId : UInt16} {qos : QoS}
    {status : InflightStatus} (hd : self.Distinct) (h : self.upsert packetId qos status = some q) :
    q.Distinct ∧ (∀ e, e.packetId ≠ packetId → (e ∈ q.toList ↔ e ∈ self.toList)) ∧
      (∃ e ∈ q.toList, e.packetId = packetId) ∧
      ∀ e ∈ q.toList, e.packetId = packetId → e.status = status := by
  unfold upsert at h
  split at h
  · rename_i hmod
    cases h
    obtain ⟨pre, a, post, hself, ha, -, hq⟩ := BoundedVec.modifyFirst_eq_some hmod
    have hid : a.packetId = packetId := by simpa using ha
    unfold Distinct at hd ⊢
    rw [hself] at hd
    have hd' : (q.toList.map (·.packetId)).Nodup := by
      rw [hq]
      simpa using hd
    refine ⟨hd', ?_, ?_, ?_⟩
    · intro e hne
      have h1 : e ≠ a := fun he => hne (by rw [he, hid])
      have h2 : e ≠ { a with status } := fun he => hne (by rw [he]; exact hid)
      simp [hq, hself, h1, h2]
    · exact ⟨{ a with status }, by simp [hq], hid⟩
    · intro e he heid
      have hmem : { a with status } ∈ q.toList := by simp [hq]
      have := List.inj_on_of_nodup_map hd' he hmem (heid.trans hid.symm)
      rw [this]
  · rename_i hmod
    rw [BoundedVec.modifyFirst_eq_none] at hmod
    obtain ⟨-, hq⟩ := BoundedVec.push_eq_some.mp h
    have hfresh : ∀ e ∈ self.toList, e.packetId ≠ packetId := by simpa using hmod
    refine ⟨?_, ?_, ?_, ?_⟩
    · unfold Distinct at hd ⊢
      rw [hq, List.map_append, List.nodup_append]
      refine ⟨hd, by simp, ?_⟩
      intro x hx y hy
      obtain ⟨e, he, rfl⟩ := List.mem_map.mp hx
      simp only [List.map_cons, List.map_nil, List.mem_singleton] at hy
      rw [hy]
      exact hfresh e he
    · intro e hne
      rw [hq, List.mem_append, List.mem_singleton]
      refine ⟨?_, Or.inl⟩
      rintro (he | rfl)
      · exact he
      · exact absurd rfl hne
    · exact ⟨⟨packetId, qos, status⟩, by simp [hq], rfl⟩
    · intro e he heid
      rw [hq, List.mem_append, List.mem_singleton] at he
      rcases he with he | rfl
      · exact absurd heid (hfresh e he)
      · rfl

theorem complete_spec {self q : InflightQueue maxInflight} {packetId : UInt16}
    {status : InflightStatus} (hd : self.Distinct) (h : self.complete packetId status = some q) :
    q.Distinct ∧ ∀ e, e ∈ q.toList ↔ e ∈ self.toList ∧ e.packetId ≠ packetId := by
  obtain ⟨pre, a, post, hself, ha, -, hperm⟩ := BoundedVec.swapRemoveFirst_eq_some h
  have hid : a.packetId = packetId := by
    simp only [decide_eq_true_eq] at ha
    exact ha.1
  unfold Distinct at hd ⊢
  have hmap := hperm.map (·.packetId)
  rw [hself] at hd
  simp only [List.map_append, List.map_cons] at hd hmap
  have hmid := List.nodup_middle.mp hd
  rw [List.nodup_cons] at hmid
  refine ⟨hmap.nodup_iff.mpr hmid.2, ?_⟩
  intro e
  rw [hperm.mem_iff, hself, List.mem_append, List.mem_append, List.mem_cons]
  constructor
  · intro he
    refine ⟨by tauto, ?_⟩
    intro heid
    apply hmid.1
    rw [← List.map_append, hid, ← heid]
    exact List.mem_map.mpr ⟨e, by rwa [List.mem_append], rfl⟩
  · rintro ⟨he, hne⟩
    have : e ≠ a := fun hea => hne (by rw [hea, hid])
    tauto

theorem handlePubrec_spec {self q : InflightQueue maxInflight} {packetId : UInt16}
    (hd : self.Distinct) (h : self.handlePubrec packetId = some q) :
    q.Distinct ∧ (∀ e, e.packetId ≠ packetId → (e ∈ q.toList ↔ e ∈ self.toList)) ∧
      ∃ e ∈ q.toList, e.packetId = packetId ∧ e.status = .awaitingPubComp := by
  obtain ⟨pre, a, post, hself, ha, -, hq⟩ := BoundedVec.modifyFirst_eq_some h
  have hid : a.packetId = packetId := by
    simp only [decide_eq_true_eq] at ha
    exact ha.1
  unfold Distinct at hd ⊢
  rw [hself] at hd
  refine ⟨?_, ?_, ?_⟩
  · rw [hq]
    simpa using hd
  · intro e hne
    have h1 : e ≠ a := fun he => hne (by rw [he, hid])
    have h2 : e ≠ { a with status := .awaitingPubComp } := fun he => hne (by rw [he]; exact hid)
    simp [hq, hself, h1, h2]
  · exact ⟨{ a with status := .awaitingPubComp }, by simp [hq], hid, rfl⟩

/-! ## The ids of outbound entries -/

/-- The ids under which messages of the client itself stand in the table. -/
def outboundIds (self : InflightQueue maxInflight) : Set UInt16 :=
  { i | ∃ e ∈ self.toList, e.status.Outbound ∧ e.packetId = i }

theorem outboundIds_empty : outboundIds (.empty : InflightQueue maxInflight) = ∅ := by
  ext i
  simp [outboundIds]

theorem outboundIds_upsert {self q : InflightQueue maxInflight} {packetId : UInt16} {qos : QoS}
    {status : InflightStatus} (h : self.upsert packetId qos status = some q) {i : UInt16}
    (hi : i ∈ q.outboundIds) : i ∈ self.outboundIds ∨ (status.Outbound ∧ i = packetId) := by
  obtain ⟨e, he, hout, rfl⟩ := hi
  unfold upsert at h
  split at h
  · rename_i hmod
    cases h
    rcases BoundedVec.mem_of_modifyFirst hmod he with he | ⟨a, -, ha, rfl⟩
    · exact .inl ⟨e, he, hout, rfl⟩
    · exact .inr ⟨hout, by simpa using ha⟩
  · obtain ⟨-, hq⟩ := BoundedVec.push_eq_some.mp h
    rw [hq, List.mem_append, List.mem_singleton] at he
    rcases he with he | rfl
    · exact .inl ⟨e, he, hout, rfl⟩
    · exact .inr ⟨hout, rfl⟩

/-- Tracking a publish adds no id but its own. -/
theorem outboundIds_trackOutbound {self q : InflightQueue maxInflight} {packetId : UInt16}
    {qos : QoS} (h : self.trackOutbound packetId qos = some q) :
    q.outboundIds ⊆ insert packetId self.outboundIds := by
  intro i hi
  cases qos with
  | atMostOnce =>
    cases h
    exact .inr hi
  | atLeastOnce => exact (outboundIds_upsert h hi).symm.imp And.right id
  | exactlyOnce => exact (outboundIds_upsert h hi).symm.imp And.right id

theorem outboundIds_trackInboundQos2 {self q : InflightQueue maxInflight} {packetId : UInt16}
    (h : self.trackInboundQos2 packetId = some q) : q.outboundIds ⊆ self.outboundIds := by
  intro i hi
  rcases outboundIds_upsert h hi with hi | ⟨hout, -⟩
  · exact hi
  · exact absurd rfl hout

theorem outboundIds_complete {self q : InflightQueue maxInflight} {packetId : UInt16}
    {status : InflightStatus} (h : self.complete packetId status = some q) :
    q.outboundIds ⊆ self.outboundIds := by
  intro i hi
  obtain ⟨e, he, hout, rfl⟩ := hi
  exact ⟨e, BoundedVec.mem_of_swapRemoveFirst h he, hout, rfl⟩

theorem outboundIds_handlePubrec {self q : InflightQueue maxInflight} {packetId : UInt16}
    (h : self.handlePubrec packetId = some q) : q.outboundIds ⊆ self.outboundIds := by
  intro i hi
  obtain ⟨e, he, hout, rfl⟩ := hi
  rcases BoundedVec.mem_of_modifyFirst h he with he | ⟨a, ha, hsel, rfl⟩
  · exact ⟨e, he, hout, rfl⟩
  · simp only [decide_eq_true_eq] at hsel
    exact ⟨a, ha, by rw [hsel.2]; decide, rfl⟩

/-! ## Runs -/

/-- An operation on the table. -/
inductive Op
  | trackOutbound (packetId : UInt16) (qos : QoS)
  | trackInboundQos2 (packetId : UInt16)
  | handlePuback (packetId : UInt16)
  | handlePubrec (packetId : UInt16)
  | handlePubrel (packetId : UInt16)
  | handlePubcomp (packetId : UInt16)
  | clear
  deriving DecidableEq

/-- The table after an operation, which leaves it alone when it fails. -/
def step (self : InflightQueue maxInflight) : Op → InflightQueue maxInflight
  | .trackOutbound packetId qos => (self.trackOutbound packetId qos).getD self
  | .trackInboundQos2 packetId => (self.trackInboundQos2 packetId).getD self
  | .handlePuback packetId => (self.handlePuback packetId).getD self
  | .handlePubrec packetId => (self.handlePubrec packetId).getD self
  | .handlePubrel packetId => (self.handlePubrel packetId).getD self
  | .handlePubcomp packetId => (self.handlePubcomp packetId).getD self
  | .clear => .empty

/-- The table after a list of operations on an empty one. -/
def run (ops : List Op) : InflightQueue maxInflight := ops.foldl step .empty

theorem run_append (ops ops' : List Op) :
    run (ops ++ ops') = ops'.foldl step (run ops : InflightQueue maxInflight) := by
  rw [run, List.foldl_append, run]

/-- The entries of the other direction, which an operation must leave alone. -/
def Op.Frame (self q : InflightQueue maxInflight) : Op → Prop
  | .trackInboundQos2 _ | .handlePubrel _ =>
    ∀ e ∈ self.toList, e.status.Outbound → e ∈ q.toList
  | .trackOutbound _ _ => ∀ e ∈ self.toList, ¬ e.status.Outbound → e ∈ q.toList
  | _ => True

/-- The operation finds an entry of the other direction under its id. -/
def Op.Collides (self : InflightQueue maxInflight) : Op → Prop
  | .trackInboundQos2 packetId =>
    ∃ e ∈ self.toList, e.packetId = packetId ∧ e.status.Outbound
  | .trackOutbound packetId qos =>
    qos ≠ .atMostOnce ∧ ∃ e ∈ self.toList, e.packetId = packetId ∧ ¬ e.status.Outbound
  | _ => False

theorem trackOutbound_spec {self q : InflightQueue maxInflight} {packetId : UInt16} {qos : QoS}
    (hqos : qos ≠ .atMostOnce) (hd : self.Distinct)
    (h : self.trackOutbound packetId qos = some q) :
    q.Distinct ∧ (∀ e, e.packetId ≠ packetId → (e ∈ q.toList ↔ e ∈ self.toList)) ∧
      (∃ e ∈ q.toList, e.packetId = packetId) ∧
      ∀ e ∈ q.toList, e.packetId = packetId → e.status.Outbound := by
  cases qos with
  | atMostOnce => exact absurd rfl hqos
  | atLeastOnce =>
    obtain ⟨hd', hother, hself, hstatus⟩ := upsert_spec hd h
    refine ⟨hd', hother, hself, ?_⟩
    intro e he hid
    rw [hstatus e he hid]
    decide
  | exactlyOnce =>
    obtain ⟨hd', hother, hself, hstatus⟩ := upsert_spec hd h
    refine ⟨hd', hother, hself, ?_⟩
    intro e he hid
    rw [hstatus e he hid]
    decide

/-- A step keeps the ids distinct. -/
theorem step_distinct {self : InflightQueue maxInflight} (hd : self.Distinct) (op : Op) :
    (self.step op).Distinct := by
  have hgetD {o : Option (InflightQueue maxInflight)} (h : ∀ q, o = some q → q.Distinct) :
      (o.getD self).Distinct := by
    rcases o with _ | q
    · exact hd
    · exact h q rfl
  cases op with
  | trackOutbound packetId qos =>
    apply hgetD
    intro q hq
    by_cases hqos : qos = .atMostOnce
    · subst hqos
      cases hq
      exact hd
    · exact (trackOutbound_spec hqos hd hq).1
  | trackInboundQos2 packetId => exact hgetD fun q hq => (upsert_spec hd hq).1
  | handlePuback packetId => exact hgetD fun q hq => (complete_spec hd hq).1
  | handlePubrec packetId => exact hgetD fun q hq => (handlePubrec_spec hd hq).1
  | handlePubrel packetId => exact hgetD fun q hq => (complete_spec hd hq).1
  | handlePubcomp packetId => exact hgetD fun q hq => (complete_spec hd hq).1
  | clear => exact List.nodup_nil

/-- The ids in a reachable table are distinct. -/
theorem run_distinct (ops : List Op) : (run ops : InflightQueue maxInflight).Distinct := by
  induction ops using List.reverseRecOn with
  | nil => exact List.nodup_nil
  | append_singleton ops op ih =>
    rw [run_append]
    exact step_distinct ih op

/-! ## Frame conditions -/

/-- An insertion under an id leaves the entries selected by `P` alone exactly when none of
them has this id. -/
theorem upsert_frame_iff {self q : InflightQueue maxInflight} {packetId : UInt16} {qos : QoS}
    {status : InflightStatus} {P : InflightStatus → Prop} (hd : self.Distinct)
    (h : self.upsert packetId qos status = some q) (hP : ¬ P status) :
    (∀ e ∈ self.toList, P e.status → e ∈ q.toList) ↔
      ¬ ∃ e ∈ self.toList, e.packetId = packetId ∧ P e.status := by
  obtain ⟨-, hother, -, hstatus⟩ := upsert_spec hd h
  constructor
  · rintro hframe ⟨e, he, hid, hPe⟩
    rw [hstatus e (hframe e he hPe) hid] at hPe
    exact hP hPe
  · intro hfree e he hPe
    rw [hother e fun hid => hfree ⟨e, he, hid, hPe⟩]
    exact he

/-- A full table has no room for a new id, so an insertion that fails finds no entry. -/
theorem upsert_eq_none {self : InflightQueue maxInflight} {packetId : UInt16} {qos : QoS}
    {status : InflightStatus} (h : self.upsert packetId qos status = none) :
    ∀ e ∈ self.toList, e.packetId ≠ packetId := by
  unfold upsert at h
  split at h
  · cases h
  · rename_i hmod
    rw [BoundedVec.modifyFirst_eq_none] at hmod
    simpa using hmod

/-- An operation leaves the entries of the other direction alone exactly when it finds none
of them under its id. -/
theorem frame_iff {self : InflightQueue maxInflight} (hd : self.Distinct) (op : Op) :
    op.Frame self (self.step op) ↔ ¬ op.Collides self := by
  have hupsert {packetId : UInt16} {qos : QoS} {status : InflightStatus}
      {P : InflightStatus → Prop} (hP : ¬ P status) :
      (∀ e ∈ self.toList, P e.status →
          e ∈ ((self.upsert packetId qos status).getD self).toList) ↔
        ¬ ∃ e ∈ self.toList, e.packetId = packetId ∧ P e.status := by
    rcases h : self.upsert packetId qos status with _ | q
    · have hfresh := upsert_eq_none h
      simp only [Option.getD_none]
      exact ⟨fun _ ⟨e, he, hid, _⟩ => hfresh e he hid, fun _ e he _ => he⟩
    · exact upsert_frame_iff hd h hP
  cases op with
  | trackOutbound packetId qos =>
    cases qos with
    | atMostOnce => exact ⟨fun _ h => h.1 rfl, fun _ e he _ => he⟩
    | atLeastOnce =>
      rw [Op.Collides, and_iff_right (by decide)]
      exact hupsert (P := fun s => ¬ s.Outbound) (by decide)
    | exactlyOnce =>
      rw [Op.Collides, and_iff_right (by decide)]
      exact hupsert (P := fun s => ¬ s.Outbound) (by decide)
  | trackInboundQos2 packetId => exact hupsert (P := InflightStatus.Outbound) (by decide)
  | handlePubrel packetId =>
    simp only [Op.Frame, Op.Collides, not_false_iff, iff_true, step]
    intro e he hout
    rcases h : self.handlePubrel packetId with _ | q
    · exact he
    · obtain ⟨pre, a, post, hself, ha, -, hperm⟩ := BoundedVec.swapRemoveFirst_eq_some h
      simp only [decide_eq_true_eq] at ha
      have hne : e ≠ a := by
        rintro rfl
        exact hout ha.2
      rw [Option.getD_some, hperm.mem_iff]
      rw [hself] at he
      simpa [hne] using he
  | handlePuback packetId => simp [Op.Frame, Op.Collides]
  | handlePubrec packetId => simp [Op.Frame, Op.Collides]
  | handlePubcomp packetId => simp [Op.Frame, Op.Collides]
  | clear => simp [Op.Frame, Op.Collides]

/-! ## Waiting for an acknowledgement -/

/-- An exchange is in the table and waits for the acknowledgement that `status` names. -/
def Waits (self : InflightQueue maxInflight) (packetId : UInt16) (status : InflightStatus) :
    Prop :=
  ∃ e ∈ self.toList, e.packetId = packetId ∧ e.status = status

/-- The acknowledgement an exchange waits for. -/
def Op.ack (packetId : UInt16) : InflightStatus → Op
  | .awaitingPubAck => .handlePuback packetId
  | .awaitingPubRec => .handlePubrec packetId
  | .awaitingPubComp => .handlePubcomp packetId
  | .awaitingPubRel => .handlePubrel packetId

/-- The operation is one that ends the wait of an exchange, or starts an exchange anew under
the same id: its acknowledgement, another publish under its id, or clearing the table. -/
def Op.Ends (packetId : UInt16) (status : InflightStatus) (op : Op) : Prop :=
  op = .ack packetId status ∨ op = .clear ∨ ∃ qos, op = .trackOutbound packetId qos

/-- An exchange goes on waiting until an operation of its own ends the wait, as long as the
two directions do not collide. -/
theorem step_waits {self : InflightQueue maxInflight} (hd : self.Distinct) {packetId : UInt16}
    {status : InflightStatus} (hout : status.Outbound) (hw : self.Waits packetId status) {op : Op}
    (hends : ¬ op.Ends packetId status) (hcol : ¬ op.Collides self) :
    (self.step op).Waits packetId status := by
  obtain ⟨e, he, hid, hst⟩ := hw
  have hgetD {o : Option (InflightQueue maxInflight)} (h : ∀ q, o = some q → e ∈ q.toList) :
      (o.getD self).Waits packetId status := by
    refine ⟨e, ?_, hid, hst⟩
    rcases o with _ | q
    · exact he
    · exact h q rfl
  -- An acknowledgement of another kind does not select the entry.
  have hkeep {i : UInt16} {st : InflightStatus} (hne : ¬ (i = packetId ∧ st = status)) :
      ∀ q, self.complete i st = some q → e ∈ q.toList := by
    intro q hq
    obtain ⟨pre, a, post, hself, ha, -, hperm⟩ := BoundedVec.swapRemoveFirst_eq_some hq
    simp only [decide_eq_true_eq] at ha
    have hea : e ≠ a := by
      rintro rfl
      exact hne ⟨ha.1.symm.trans hid, ha.2.symm.trans hst⟩
    rw [hperm.mem_iff]
    rw [hself] at he
    simpa [hea] using he
  cases op with
  | trackOutbound i qos =>
    apply hgetD
    intro q hq
    have hi : i ≠ packetId := fun h => hends (.inr (.inr ⟨qos, by rw [h]⟩))
    by_cases hqos : qos = .atMostOnce
    · subst hqos
      cases hq
      exact he
    · exact ((trackOutbound_spec hqos hd hq).2.1 e (by rw [hid]; exact hi.symm)).mpr he
  | trackInboundQos2 i =>
    apply hgetD
    intro q hq
    have hi : e.packetId ≠ i := fun h => hcol ⟨e, he, h, by rw [hst]; exact hout⟩
    exact ((upsert_spec hd hq).2.1 e hi).mpr he
  | handlePuback i =>
    exact hgetD (hkeep fun h => hends (.inl (by rw [h.1, ← h.2]; rfl)))
  | handlePubrec i =>
    apply hgetD
    intro q hq
    obtain ⟨pre, a, post, hself, ha, -, hmod⟩ := BoundedVec.modifyFirst_eq_some hq
    simp only [decide_eq_true_eq] at ha
    have hea : e ≠ a := by
      rintro rfl
      exact hends (.inl (by rw [← hst, ha.2, ← ha.1, hid]; rfl))
    rw [hmod]
    rw [hself] at he
    simp only [List.mem_append, List.mem_cons, hea, false_or] at he
    simp only [List.mem_append, List.mem_cons]
    tauto
  | handlePubrel i =>
    exact hgetD (hkeep fun h => hends (.inl (by rw [h.1, ← h.2]; rfl)))
  | handlePubcomp i =>
    exact hgetD (hkeep fun h => hends (.inl (by rw [h.1, ← h.2]; rfl)))
  | clear => exact absurd (.inr (.inl rfl)) hends

/-- The handler of the acknowledgement that an exchange in this status waits for. -/
def handleAck (self : InflightQueue maxInflight) (packetId : UInt16) :
    InflightStatus → Option (InflightQueue maxInflight)
  | .awaitingPubAck => self.handlePuback packetId
  | .awaitingPubRec => self.handlePubrec packetId
  | .awaitingPubComp => self.handlePubcomp packetId
  | .awaitingPubRel => self.handlePubrel packetId

/-- The handler finds the exchange that waits for it. -/
theorem handleAck_isSome {self : InflightQueue maxInflight} {packetId : UInt16}
    {status : InflightStatus} (hw : self.Waits packetId status) :
    (self.handleAck packetId status).isSome := by
  obtain ⟨e, he, hid, hst⟩ := hw
  have hcomplete : (self.complete packetId status).isSome := by
    rw [Option.isSome_iff_ne_none, complete, ne_eq, BoundedVec.swapRemoveFirst_eq_none]
    intro h
    simpa [hid, hst] using h e he
  cases status with
  | awaitingPubAck => exact hcomplete
  | awaitingPubRec =>
    change (self.handlePubrec packetId).isSome
    rw [Option.isSome_iff_ne_none, handlePubrec, ne_eq, BoundedVec.modifyFirst_eq_none]
    intro h
    simpa [hid, hst] using h e he
  | awaitingPubComp => exact hcomplete
  | awaitingPubRel => exact hcomplete

/-! ## Interference over runs -/

section
variable (maxInflight) (ops : List Op)

/-- Every operation of the run leaves the entries of the other direction alone. -/
def RunFrames : Prop :=
  ∀ pre op post, ops = pre ++ op :: post →
    op.Frame (run pre : InflightQueue maxInflight) (run (pre ++ [op]))

/-- Every outbound exchange is found by its own acknowledgement, whatever other operations
lie in between. -/
def RunCompletes : Prop :=
  ∀ pre mid post packetId status, ops = pre ++ mid ++ post → status.Outbound →
    (run pre : InflightQueue maxInflight).Waits packetId status →
    (∀ op ∈ mid, ¬ op.Ends packetId status) →
    ((run (pre ++ mid) : InflightQueue maxInflight).handleAck packetId status).isSome

/-- No operation of the run finds an entry of the other direction under its id. -/
def CollisionFree : Prop :=
  ∀ pre op post, ops = pre ++ op :: post → ¬ op.Collides (run pre : InflightQueue maxInflight)

end

theorem run_concat (ops : List Op) (op : Op) :
    (run (ops ++ [op]) : InflightQueue maxInflight) = (run ops).step op := by
  rw [run_append, List.foldl_cons, List.foldl_nil]

/-- Along a run without collisions an exchange waits until an operation of its own. -/
theorem run_waits {pre mid post : List Op} {packetId : UInt16} {status : InflightStatus}
    (hfree : CollisionFree maxInflight (pre ++ mid ++ post)) (hout : status.Outbound)
    (hw : (run pre : InflightQueue maxInflight).Waits packetId status)
    (hends : ∀ op ∈ mid, ¬ op.Ends packetId status) :
    (run (pre ++ mid) : InflightQueue maxInflight).Waits packetId status := by
  induction mid using List.reverseRecOn generalizing post with
  | nil => rwa [List.append_nil]
  | append_singleton mid op ih =>
    rw [← List.append_assoc, run_concat]
    apply step_waits (run_distinct _) hout
    · have hfree' : CollisionFree maxInflight (pre ++ mid ++ (op :: post)) := by
        simpa using hfree
      exact ih hfree' fun op' hop' => hends op' (by simp [hop'])
    · exact hends op (by simp)
    · exact hfree (pre ++ mid) op post (by simp)

/-- The two directions stay apart in a run exactly when no operation finds an entry of the
other direction under its id. -/
theorem transactions_apart_iff (maxInflight : ℕ) (ops : List Op) :
    RunFrames maxInflight ops ∧ RunCompletes maxInflight ops ↔ CollisionFree maxInflight ops := by
  constructor
  · rintro ⟨hframes, -⟩ pre op post hops
    have h := hframes pre op post hops
    rwa [run_concat, frame_iff (run_distinct pre)] at h
  · intro hfree
    constructor
    · intro pre op post hops
      rw [run_concat, frame_iff (run_distinct pre)]
      exact hfree pre op post hops
    · intro pre mid post packetId status hops hout hw hends
      rw [hops] at hfree
      exact handleAck_isSome (run_waits hfree hout hw hends)

/-- An inbound QoS 2 PUBLISH with the id of an unacknowledged QoS 1 publish takes over the
publish's entry, and the PUBACK no longer finds it. -/
theorem transactions_collide :
    ¬ (RunFrames 8 [.trackOutbound 1 .atLeastOnce, .trackInboundQos2 1] ∧
      RunCompletes 8 [.trackOutbound 1 .atLeastOnce, .trackInboundQos2 1]) := by
  rintro ⟨hframes, -⟩
  have h := hframes [.trackOutbound 1 .atLeastOnce] (.trackInboundQos2 1) [] rfl
    ⟨1, .atLeastOnce, .awaitingPubAck⟩ (by decide) (by decide)
  revert h
  decide

end InflightQueue

end MqttEngine
