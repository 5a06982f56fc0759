import MqttEngine.Embedded.Inflight

/-!
# Runs of acknowledgements

A handler looks for an entry by its packet id and its status together, so an acknowledgement
concerns one entry of the in-flight table at most, and what it does to that entry does not
depend on the rest of the table. `mem_handleAll` says so for whole sequences: the table after
them has what `advanceAll` makes of each entry. Which sequences end an entry, and that only the
order of the acknowledgements with its id matters, are then facts about one entry.

## Main definitions

* `Acknowledgement`, `handleAll` — acknowledgements that come in.
* `Acknowledgement.advance`, `advanceAll` — what becomes of one entry.
* `InflightEntry.EndedBy` — a sequence ends an entry.

## Main results

* `mem_handleAll` — the table after a sequence, entry by entry.
* `acknowledged` — when an entry is gone, and what does not depend on the order.
-/

namespace MqttEngine

namespace InflightQueue
variable {maxInflight : ℕ}

/-- An acknowledgement that comes in. -/
inductive Acknowledgement
  | pubAck (packetId : UInt16)
  | pubRec (packetId : UInt16)
  | pubRel (packetId : UInt16)
  | pubComp (packetId : UInt16)
  deriving DecidableEq

namespace Acknowledgement

def packetId : Acknowledgement → UInt16
  | pubAck packetId | pubRec packetId | pubRel packetId | pubComp packetId => packetId

/-- The call of the handler. -/
def op : Acknowledgement → Op
  | pubAck packetId => .handlePuback packetId
  | pubRec packetId => .handlePubrec packetId
  | pubRel packetId => .handlePubrel packetId
  | pubComp packetId => .handlePubcomp packetId

/-- An acknowledgement ends an entry with its id in the status that waits for it. -/
def close (packetId : UInt16) (status : InflightStatus) (e : InflightEntry) : Option InflightEntry :=
  if e.packetId = packetId ∧ e.status = status then none else some e

/-- What becomes of an entry. -/
def advance (e : InflightEntry) : Acknowledgement → Option InflightEntry
  | pubAck packetId => close packetId .awaitingPubAck e
  | pubRec packetId =>
    if e.packetId = packetId ∧ e.status = .awaitingPubRec then
      some { e with status := .awaitingPubComp }
    else some e
  | pubRel packetId => close packetId .awaitingPubRel e
  | pubComp packetId => close packetId .awaitingPubComp e

theorem packetId_close {i : UInt16} {status : InflightStatus} {e e' : InflightEntry}
    (h : close i status e = some e') : e'.packetId = e.packetId := by
  rw [close] at h
  split at h
  · cases h
  · cases h
    rfl

theorem packetId_advance {ack : Acknowledgement} {e e' : InflightEntry}
    (h : advance e ack = some e') : e'.packetId = e.packetId := by
  cases ack with
  | pubRec i =>
    rw [advance] at h
    split at h
    · cases h
      rfl
    · cases h
      rfl
  | _ => exact packetId_close h

/-- An acknowledgement of another id leaves an entry alone. -/
theorem advance_of_ne {ack : Acknowledgement} {e : InflightEntry} (h : ack.packetId ≠ e.packetId) :
    advance e ack = some e := by
  have hne : e.packetId ≠ ack.packetId := fun heq => h heq.symm
  cases ack <;> exact if_neg fun hsel => hne hsel.1

end Acknowledgement

open Acknowledgement

/-- The table after a sequence of acknowledgements. -/
def handleAll (acks : List Acknowledgement) (self : InflightQueue maxInflight) :
    InflightQueue maxInflight :=
  acks.foldl (fun q ack => q.step ack.op) self

/-- What becomes of an entry in a sequence of acknowledgements. -/
def advanceAll (acks : List Acknowledgement) (e : InflightEntry) : Option InflightEntry :=
  acks.foldlM advance e

@[simp] theorem advanceAll_nil (e : InflightEntry) : advanceAll [] e = some e := rfl

@[simp] theorem advanceAll_cons (ack : Acknowledgement) (acks : List Acknowledgement)
    (e : InflightEntry) : advanceAll (ack :: acks) e = (advance e ack).bind (advanceAll acks) := rfl

/-! ## The table, entry by entry -/

/-- Completing an exchange closes its entry. -/
theorem mem_complete {self : InflightQueue maxInflight} (hd : self.Distinct) (i : UInt16)
    (status : InflightStatus) {e' : InflightEntry} :
    e' ∈ ((self.complete i status).getD self).toList ↔
      ∃ e ∈ self.toList, close i status e = some e' := by
  rcases h : self.complete i status with _ | q
  · have hnone := BoundedVec.swapRemoveFirst_eq_none.mp h
    simp only [decide_eq_false_iff_not] at hnone
    simp only [Option.getD_none, close]
    constructor
    · exact fun he => ⟨e', he, if_neg (hnone e' he)⟩
    · rintro ⟨e, he, hclose⟩
      rw [if_neg (hnone e he)] at hclose
      cases hclose
      exact he
  · rw [Option.getD_some, BoundedVec.mem_swapRemoveFirst hd (k := i) (by simp +contextual) h]
    simp only [decide_eq_false_iff_not, close]
    constructor
    · exact fun ⟨he, hne⟩ => ⟨e', he, if_neg hne⟩
    · rintro ⟨e, he, hclose⟩
      split at hclose
      · cases hclose
      · rename_i hne
        cases hclose
        exact ⟨he, hne⟩

/-- A handler does to each entry what the acknowledgement does to it. -/
theorem mem_step_op {self : InflightQueue maxInflight} (hd : self.Distinct) (ack : Acknowledgement)
    {e' : InflightEntry} :
    e' ∈ (self.step ack.op).toList ↔ ∃ e ∈ self.toList, advance e ack = some e' := by
  cases ack with
  | pubRec i =>
    change e' ∈ ((self.handlePubrec i).getD self).toList ↔ _
    simp only [advance]
    rcases h : self.handlePubrec i with _ | q
    · have hnone := BoundedVec.modifyFirst_eq_none.mp h
      simp only [decide_eq_false_iff_not] at hnone
      constructor
      · exact fun he => ⟨e', he, if_neg (hnone e' he)⟩
      · rintro ⟨e, he, hadvance⟩
        rw [if_neg (hnone e he)] at hadvance
        cases hadvance
        exact he
    · rw [Option.getD_some, BoundedVec.mem_modifyFirst hd (k := i) (by simp +contextual) h]
      simp only [decide_eq_false_iff_not, decide_eq_true_eq]
      constructor
      · rintro (⟨he, hne⟩ | ⟨e, he, hsel, rfl⟩)
        · exact ⟨e', he, if_neg hne⟩
        · exact ⟨e, he, if_pos hsel⟩
      · rintro ⟨e, he, hadvance⟩
        split at hadvance
        · rename_i hsel
          cases hadvance
          exact .inr ⟨e, he, hsel, rfl⟩
        · rename_i hne
          cases hadvance
          exact .inl ⟨he, hne⟩
  | _ => exact mem_complete hd _ _

/-- The table after a sequence of acknowledgements. -/
theorem mem_handleAll {self : InflightQueue maxInflight} (hd : self.Distinct)
    (acks : List Acknowledgement) {e' : InflightEntry} :
    e' ∈ (self.handleAll acks).toList ↔ ∃ e ∈ self.toList, advanceAll acks e = some e' := by
  induction acks generalizing self with
  | nil => simp [handleAll]
  | cons ack acks ih =>
    change e' ∈ ((self.step ack.op).handleAll acks).toList ↔ _
    rw [ih (step_distinct hd _)]
    simp only [mem_step_op hd, advanceAll_cons, Option.bind_eq_some_iff]
    constructor
    · rintro ⟨e, ⟨e₀, he₀, hadvance⟩, hall⟩
      exact ⟨e₀, he₀, e, hadvance, hall⟩
    · rintro ⟨e₀, he₀, e, hadvance, hall⟩
      exact ⟨e, ⟨e₀, he₀, hadvance⟩, hall⟩

/-! ## One entry -/

theorem packetId_advanceAll {acks : List Acknowledgement} {e e' : InflightEntry}
    (h : advanceAll acks e = some e') : e'.packetId = e.packetId := by
  induction acks generalizing e with
  | nil =>
    cases h
    rfl
  | cons ack acks ih =>
    obtain ⟨e₁, hadvance, hall⟩ := Option.bind_eq_some_iff.mp h
    exact (ih hall).trans (packetId_advance hadvance)

/-- Only the acknowledgements with the id of an entry concern it. -/
theorem advanceAll_filter (acks : List Acknowledgement) (e : InflightEntry) :
    advanceAll (acks.filter (·.packetId = e.packetId)) e = advanceAll acks e := by
  induction acks generalizing e with
  | nil => rfl
  | cons ack acks ih =>
    by_cases hid : ack.packetId = e.packetId
    · rw [List.filter_cons_of_pos (by simpa using hid), advanceAll_cons, advanceAll_cons]
      rcases h : advance e ack with _ | e'
      · rfl
      · rw [Option.bind_some, Option.bind_some, ← packetId_advance h, ih]
    · rw [List.filter_cons_of_neg (by simpa using hid), advanceAll_cons, advance_of_ne hid, ih]
      rfl

/-- An entry that only one acknowledgement concerns is ended by it. -/
theorem advanceAll_eq_none {last : Acknowledgement} {e : InflightEntry} (hlast : advance e last = none)
    (hother : ∀ ack, ack ≠ last → advance e ack = some e) (acks : List Acknowledgement) :
    advanceAll acks e = none ↔ last ∈ acks := by
  induction acks with
  | nil => simp
  | cons ack acks ih =>
    by_cases h : ack = last
    · simp [h, hlast]
    · simp [hother ack h, ih, show last ≠ ack from fun heq => h heq.symm]


/-- The sequence has the acknowledgement that the entry waits for, or for an entry that waits for
PUBREC that and later the PUBCOMP. -/
def EndedBy (acks : List Acknowledgement) (e : InflightEntry) : Prop :=
  match e.status with
  | .awaitingPubAck => .pubAck e.packetId ∈ acks
  | .awaitingPubRec =>
    ∃ before after, acks = before ++ .pubRec e.packetId :: after ∧ .pubComp e.packetId ∈ after
  | .awaitingPubComp => .pubComp e.packetId ∈ acks
  | .awaitingPubRel => .pubRel e.packetId ∈ acks

theorem advanceAll_eq_none_of_pubComp {e : InflightEntry} (h : e.status = .awaitingPubComp)
    (acks : List Acknowledgement) : advanceAll acks e = none ↔ .pubComp e.packetId ∈ acks := by
  apply advanceAll_eq_none (by simp [advance, close, h])
  intro ack hne
  cases ack with
  | pubComp i => exact if_neg fun hsel => hne (congrArg pubComp hsel.1.symm)
  | _ => simp [advance, close, h]

/-- An entry that waits for PUBREC is ended by a PUBREC and a later PUBCOMP. -/
theorem advanceAll_eq_none_of_pubRec {e : InflightEntry} (h : e.status = .awaitingPubRec)
    (acks : List Acknowledgement) :
    advanceAll acks e = none ↔
      ∃ before after, acks = before ++ .pubRec e.packetId :: after ∧ .pubComp e.packetId ∈ after := by
  induction acks with
  | nil => simp
  | cons ack acks ih =>
    by_cases hack : ack = .pubRec e.packetId
    · have hadvance : advance e ack = some { e with status := .awaitingPubComp } := by
        simp [hack, advance, h]
      rw [advanceAll_cons, hadvance, Option.bind_some, advanceAll_eq_none_of_pubComp rfl]
      constructor
      · exact fun hmem => ⟨[], acks, by simp [hack], hmem⟩
      · rintro ⟨_ | ⟨b, before⟩, after, hsplit, hmem⟩
        · cases hsplit
          exact hmem
        · cases hsplit
          simp [hmem]
    · have hadvance : advance e ack = some e := by
        cases ack with
        | pubRec i => exact if_neg fun hsel => hack (congrArg pubRec hsel.1.symm)
        | _ => simp [advance, close, h]
      rw [advanceAll_cons, hadvance, Option.bind_some, ih]
      constructor
      · rintro ⟨before, after, hsplit, hmem⟩
        exact ⟨ack :: before, after, by simp [hsplit], hmem⟩
      · rintro ⟨_ | ⟨b, before⟩, after, hsplit, hmem⟩
        · cases hsplit
          exact absurd rfl hack
        · cases hsplit
          exact ⟨before, after, rfl, hmem⟩

theorem advanceAll_eq_none_iff (acks : List Acknowledgement) (e : InflightEntry) :
    advanceAll acks e = none ↔ EndedBy acks e := by
  rw [EndedBy]
  rcases h : e.status
  · apply advanceAll_eq_none (by simp [advance, close, h])
    intro ack hne
    cases ack with
    | pubAck i => exact if_neg fun hsel => hne (congrArg pubAck hsel.1.symm)
    | _ => simp [advance, close, h]
  · exact advanceAll_eq_none_of_pubRec h acks
  · exact advanceAll_eq_none_of_pubComp h acks
  · apply advanceAll_eq_none (by simp [advance, close, h])
    intro ack hne
    cases ack with
    | pubRel i => exact if_neg fun hsel => hne (congrArg pubRel hsel.1.symm)
    | _ => simp [advance, close, h]

/-! ## Reachable tables -/

/-- In every reachable table the ids are distinct and at most `maxInflight`. After any sequence of
acknowledgements, an entry is gone exactly if the sequence ends it, and the entries that are left
depend only on the order of the acknowledgements with the same id. -/
theorem acknowledged (maxInflight : ℕ) (ops : List Op) (acks : List Acknowledgement) :
    let table : InflightQueue maxInflight := run ops
    table.Distinct ∧ table.toList.length ≤ maxInflight ∧
      (∀ e ∈ table.toList,
        (∀ e' ∈ (table.handleAll acks).toList, e'.packetId ≠ e.packetId) ↔ EndedBy acks e) ∧
      ∀ acks', (∀ i, acks'.filter (·.packetId = i) = acks.filter (·.packetId = i)) →
        ∀ e', e' ∈ (table.handleAll acks').toList ↔ e' ∈ (table.handleAll acks).toList := by
  intro table
  have hd : table.Distinct := run_distinct ops
  refine ⟨hd, table.length_le, ?_, ?_⟩
  · intro e he
    rw [← advanceAll_eq_none_iff]
    constructor
    · intro hgone
      by_contra hleft
      obtain ⟨e', he'⟩ := Option.ne_none_iff_exists'.mp hleft
      exact hgone e' ((mem_handleAll hd acks).mpr ⟨e, he, he'⟩) (packetId_advanceAll he')
    · intro hnone e' he' hid
      obtain ⟨e₀, he₀, hall⟩ := (mem_handleAll hd acks).mp he'
      have hsame : e₀ = e := hd.eq_of_id he₀ he ((packetId_advanceAll hall).symm.trans hid)
      rw [hsame, hnone] at hall
      cases hall
  · intro acks' hacks e'
    have hall (e : InflightEntry) : advanceAll acks' e = advanceAll acks e := by
      rw [← advanceAll_filter acks', hacks, advanceAll_filter]
    simp only [mem_handleAll hd, hall]

/-- PUBACKs out of order, and a handshake of which only the first half has taken place. -/
example : ((run [.trackOutbound 1 .atLeastOnce, .trackOutbound 2 .exactlyOnce,
    .trackOutbound 3 .atLeastOnce] : InflightQueue 8).handleAll
      [.pubAck 3, .pubComp 2, .pubRec 2, .pubAck 1]).toList = [⟨2, .exactlyOnce, .awaitingPubComp⟩] := by
  decide

end InflightQueue

end MqttEngine
