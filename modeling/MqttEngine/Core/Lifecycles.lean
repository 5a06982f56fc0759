import MqttEngine.Core.Inflight

/-!
# QoS lifecycles

A QoS 1 packet is acknowledged at once; a QoS 2 packet goes through PUBREC, PUBREL and PUBCOMP. The
queue keeps the QoS of a packet and how far it has come, but its operations find a packet by its id
only: what they are called with is up to the caller. The packets go through their lifecycles
exactly if every call fits the packet that it finds.

## Main definitions

* `InflightEntry.Legal`, `Lawful` — the lifecycles, of an entry and of a run.
* `Fits` — a call fits the state of the queue.

## Main results

* `lawful_iff` — a run is lawful if and only if all its calls fit.
-/

namespace MqttEngine.Core

/-- The packet needs an acknowledgement, and only one of QoS 2 waits for a PUBCOMP. -/
def InflightEntry.Legal (e : InflightEntry) : Prop :=
  e.qos ≠ .atMostOnce ∧ (e.status = .pubRelSent → e.qos = .exactlyOnce)

namespace InflightQueue
variable {N : ℕ} {q : InflightQueue N} {packetId : UInt16} {qos : QoS} {calls : List InflightCall}

/-- In every state of the run all entries are legal, and a packet of QoS 2 is removed by
`acknowledge` only once its PUBREL has been sent. -/
structure Lawful (N : ℕ) (calls : List InflightCall) : Prop where
  legal : ∀ done rest, calls = done ++ rest → ∀ e ∈ (reached N done).entries.toList, e.Legal
  completed : ∀ done packetId rest, calls = done ++ .acknowledge packetId :: rest →
    ∀ e ∈ (reached N done).entries.toList, e.qos = .exactlyOnce →
      e ∉ ((reached N done).acknowledge packetId).2.entries.toList → e.status = .pubRelSent

/-- What is pushed needs an acknowledgement, or is refused; PUBREL is for packets of QoS 2, and
these are acknowledged after it. -/
def Fits (q : InflightQueue N) : InflightCall → Prop
  | .push packetId qos => qos ≠ .atMostOnce ∨ q.hasCollision packetId ∨ q.isFull
  | .acknowledge packetId =>
    ∀ e ∈ q.entries.toList, e.packetId = packetId → e.qos = .exactlyOnce → e.status = .pubRelSent
  | .markPubrelSent packetId => ∀ e ∈ q.entries.toList, e.packetId = packetId → e.qos = .exactlyOnce
  | .clear => True

/-! ## The calls -/

/-- What is tracked after a push. -/
theorem mem_push {e : InflightEntry} :
    e ∈ (q.push packetId qos).2.entries.toList ↔
      e ∈ q.entries.toList ∨ ¬ q.hasCollision packetId ∧ ¬ q.isFull ∧
        e = { packetId, qos, status := .sent, retries := 0 } := by
  rw [push]
  by_cases hcollision : q.hasCollision packetId
  · simp [hcollision]
  · rw [if_neg hcollision]
    have hfull : q.isFull ↔ q.entries.toList.length = N := by simp [isFull]
    cases hpush : q.entries.push { packetId, qos, status := .sent, retries := 0 } with
    | none =>
      have hle := BoundedVec.push_eq_none.mp hpush
      have hlength := q.entries.length_le
      simp [hfull.mpr (by omega)]
    | some entries =>
      obtain ⟨hroom, hentries⟩ := BoundedVec.push_eq_some.mp hpush
      have hnot : ¬ q.isFull := fun h => by
        rw [hfull] at h
        omega
      simp [hentries, hcollision, hnot]

theorem reached_concat (done : List InflightCall) (c : InflightCall) :
    reached N (done ++ [c]) = ((reached N done).call c).2 := by
  rw [reached, reached, Machine.run_append, Machine.run_cons, Machine.run_nil]

/-- A call that fits leaves legal entries. -/
theorem legal_call {t : InflightTable} (h : Represents q t) (hlegal : ∀ e ∈ q.entries.toList, e.Legal)
    {c : InflightCall} (hfits : q.Fits c) : ∀ e ∈ (q.call c).2.entries.toList, e.Legal := by
  intro e he
  cases c with
  | push packetId qos =>
    rcases mem_push.mp he with hold | ⟨hcollision, hfull, rfl⟩
    · exact hlegal e hold
    · rcases hfits with hqos | hrefused | hrefused
      · exact ⟨hqos, by simp⟩
      · exact absurd hrefused hcollision
      · exact absurd hrefused hfull
  | acknowledge packetId => exact hlegal e ((h.acknowledges.2 e).mp he).1
  | markPubrelSent packetId =>
    rcases (h.marks.2 e).mp he with ⟨hold, -⟩ | ⟨old, hold, hid, rfl⟩
    · exact hlegal e hold
    · exact ⟨(hlegal old hold).1, fun _ => hfits old hold hid⟩
  | clear => simp [call, clear] at he

/-- A call that leaves legal entries, and completes no packet of QoS 2 too early, has fitted. -/
theorem fits_of_legal {t : InflightTable} (h : Represents q t) {c : InflightCall}
    (hlegal : ∀ e ∈ (q.call c).2.entries.toList, e.Legal)
    (hcompleted : ∀ packetId, c = .acknowledge packetId → ∀ e ∈ q.entries.toList,
      e.qos = .exactlyOnce → e ∉ (q.acknowledge packetId).2.entries.toList → e.status = .pubRelSent) :
    q.Fits c := by
  cases c with
  | push packetId qos =>
    by_contra hnot
    rw [Fits, not_or, not_or, ne_eq, not_not] at hnot
    obtain ⟨rfl, hcollision, hfull⟩ := hnot
    exact (hlegal _ (mem_push.mpr (.inr ⟨hcollision, hfull, rfl⟩))).1 rfl
  | acknowledge packetId =>
    intro e he hid hqos
    refine hcompleted packetId rfl e he hqos fun hleft => ?_
    exact ((h.acknowledges.2 e).mp hleft).2 hid
  | markPubrelSent packetId =>
    intro e he hid
    exact (hlegal _ ((h.marks.2 _).mpr (.inr ⟨e, he, hid, rfl⟩))).2 rfl
  | clear => trivial

/-! ## Runs -/

/-- After calls that fit, all entries are legal. -/
theorem legal_reached
    (hfits : ∀ done c rest, calls = done ++ c :: rest → (reached N done).Fits c) :
    ∀ e ∈ (reached N calls).entries.toList, e.Legal := by
  induction calls using List.reverseRecOn with
  | nil => simp [reached, new]
  | append_singleton calls c ih =>
    rw [reached_concat]
    refine legal_call (represents_reached calls) (ih fun done c' rest heq => ?_)
      (hfits calls c [] rfl)
    exact hfits done c' (rest ++ [c]) (by simp [heq])

/-- **The lifecycles hold exactly in the runs whose calls all fit.** -/
theorem lawful_iff (N : ℕ) (calls : List InflightCall) :
    Lawful N calls ↔ ∀ done c rest, calls = done ++ c :: rest → (reached N done).Fits c := by
  constructor
  · intro hlawful done c rest heq
    refine fits_of_legal (represents_reached done) ?_ fun packetId hc => ?_
    · rw [← reached_concat]
      exact hlawful.legal (done ++ [c]) rest (by simp [heq])
    · exact hlawful.completed done packetId rest (hc ▸ heq)
  · intro hfits
    constructor
    · intro done rest heq
      exact legal_reached fun before c after hdone =>
        hfits before c (after ++ rest) (by simp [heq, hdone])
    · intro done packetId rest heq e he hqos hremoved
      have hid : e.packetId = packetId := by
        by_contra hne
        exact hremoved (((represents_reached done).acknowledges.2 e).mpr ⟨he, hne⟩)
      exact hfits done _ rest heq e he hid hqos

/-- A packet of QoS 0 is tracked, one of QoS 1 gets a PUBREL, and a PUBACK completes one of
QoS 2. -/
theorem not_lawful :
    ¬ Lawful 1 [.push 1 .atMostOnce] ∧
      ¬ Lawful 1 [.push 1 .atLeastOnce, .markPubrelSent 1] ∧
      ¬ Lawful 1 [.push 1 .exactlyOnce, .acknowledge 1] := by
  refine ⟨fun h => ?_, fun h => ?_, fun h => ?_⟩
  · exact (h.legal [.push 1 .atMostOnce] [] rfl ⟨1, .atMostOnce, .sent, 0⟩ (by decide)).1 rfl
  · have hqos := (h.legal [.push 1 .atLeastOnce, .markPubrelSent 1] [] rfl
      ⟨1, .atLeastOnce, .pubRelSent, 0⟩ (by decide)).2 rfl
    cases hqos
  · have hstatus := h.completed [.push 1 .exactlyOnce] 1 [] rfl ⟨1, .exactlyOnce, .sent, 0⟩
      (by decide) rfl (by decide)
    cases hstatus

end InflightQueue

end MqttEngine.Core
