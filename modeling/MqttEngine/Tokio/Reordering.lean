import MqttEngine.Tokio.Stream

/-!
# Ordered streams with gaps

`Tokio.Stream` is about streams that arrive completely. Here the arrivals are any messages: numbers
may be missing, come twice or too late, and payloads may be too short for a number. A chunk that is
forced out of the buffer moves the expected number past a gap; what is left in the buffer lies
beyond it, because the chunk was the first one.

## Main definitions

* `Holds`, `Buffered` — what a consumer holds between two calls.
* `Delivered` — what a call returns, and what it leaves.

## Main results

* `recvOrdered_delivers` — one call.
* `recvOrdered_increasing` — the numbers of successive calls increase.
-/

namespace MqttEngine.Tokio.DataStreamConsumer

/-! ## The first entry of a tree map -/

section
open Std.DTreeMap.Internal

theorem mem_toListModel_of_minEntry? {α : Type} {β : α → Type} {t : Impl α β} {e : (a : α) × β a}
    (h : t.minEntry? = some e) : e ∈ t.toListModel := by
  induction t using Impl.minEntry?.induct with
  | case1 => simp [Impl.minEntry?] at h
  | case2 size k v r =>
    simp only [Impl.minEntry?, Option.some.injEq] at h
    simp [h]
  | case3 size k v size' k' v' l r r' ih =>
    rw [Impl.minEntry?] at h
    rw [Impl.toListModel_inner]
    exact List.mem_append_left _ (ih h)

theorem minKey?_eq_fst {β : Type} (t : Std.TreeMap UInt64 β) :
    t.minKey? = t.minEntry?.map Prod.fst := by
  change t.inner.inner.minKey? = (Impl.Const.minEntry? t.inner.inner).map Prod.fst
  rw [Impl.minKey?_eq_minEntry?_map_fst, Impl.Const.minEntry?_eq_minEntry?, Option.map_map]
  rfl

/-- The first entry is an entry, and no key is smaller than its key. -/
theorem minEntry?_eq_some {β : Type} {t : Std.TreeMap UInt64 β} {k : UInt64} {v : β}
    (h : t.minEntry? = some (k, v)) : t[k]? = some v ∧ ∀ k' ∈ t, k ≤ k' := by
  have hentry : t.inner.inner.minEntry? = some ⟨k, v⟩ := by
    have hmap := Impl.Const.minEntry?_eq_minEntry? (l := t.inner.inner)
    rw [show Impl.Const.minEntry? t.inner.inner = some (k, v) from h] at hmap
    obtain ⟨e, he, hkv⟩ := Option.map_eq_some_iff.mp hmap.symm
    cases e
    cases hkv
    exact he
  have hkey : t.minKey? = some k := by rw [minKey?_eq_fst, h, Option.map_some]
  refine ⟨?_, fun k' hk' => ?_⟩
  · rw [← Std.TreeMap.mem_toList_iff_getElem?_eq_some]
    change (k, v) ∈ Impl.Const.toList t.inner.inner
    rw [Impl.Const.toList_eq_toListModel_map]
    exact List.mem_map.mpr ⟨_, mem_toListModel_of_minEntry? hentry, rfl⟩
  · have hle := (Std.TreeMap.minKey?_eq_some_iff_mem_and_forall.mp hkey).2 k' hk'
    exact Std.isLE_compare.mp hle

theorem size_eq_zero_of_minEntry? {β : Type} {t : Std.TreeMap UInt64 β} (h : t.minEntry? = none) :
    t.size = 0 := by
  have hkey : t.minKey? = none := by rw [minKey?_eq_fst, h, Option.map_none]
  simpa [Std.TreeMap.isEmpty_eq_size_eq_zero] using Std.TreeMap.minKey?_eq_none_iff.mp hkey

end

variable {E : Type} {w : ℕ} {consumer : DataStreamConsumer}

/-! ## One call -/

/-- The chunks of a reorder buffer while `expectedSeq` is expected: each is under its number, and
the counter has room behind it. -/
structure Holds (expectedSeq : UInt64) (reorderBuffer : Std.TreeMap UInt64 StreamChunk) : Prop where
  keyed : ∀ k (chunk : StreamChunk), reorderBuffer[k]? = some chunk → chunk.seqId = k
  ahead : ∀ k ∈ reorderBuffer, expectedSeq ≤ k
  room : ∀ k ∈ reorderBuffer, k.toNat + 1 < 2 ^ 64

/-- What a consumer holds between two calls, while its window is `w` and no message that is still to
come carries the greatest number. -/
structure Buffered (w : ℕ) (consumer : DataStreamConsumer) : Prop where
  window : consumer.maxReorderWindow = w
  coming : ∀ msg ∈ consumer.subscription, sequenceNumber msg + 1 < 2 ^ 64
  holds : Holds consumer.expectedSeq consumer.reorderBuffer
  size_le : consumer.reorderBuffer.size ≤ w

/-- The number of a chunk that has one. -/
def numberOf (result : Checked (ClientError E) (Option StreamChunk)) : Option ℕ :=
  match result with
  | .ok (some chunk) => if chunk.seqId = 0 then none else some chunk.seqId.toNat
  | _ => none

/-- What a call returns and leaves: no error, and a number from the expected one on, behind which
the next one is expected. -/
structure Delivered (w : ℕ) (expectedSeq : UInt64)
    (call : Checked (ClientError E) (Option StreamChunk) × DataStreamConsumer) : Prop where
  returned : ∃ chunk, call.1 = .ok chunk
  buffered : Buffered w call.2
  expected : expectedSeq.toNat ≤ call.2.expectedSeq.toNat
  number : ∀ k ∈ numberOf call.1, expectedSeq.toNat ≤ k ∧ k < call.2.expectedSeq.toNat

section
variable {e : UInt64} {reorderBuffer : Std.TreeMap UInt64 StreamChunk} {chunk : StreamChunk}

theorem Holds.insert (h : Holds e reorderBuffer) (hlt : e < chunk.seqId)
    (hroom : chunk.seqId.toNat + 1 < 2 ^ 64) :
    Holds e (reorderBuffer.insert chunk.seqId chunk) where
  keyed := keyed_insert h.keyed
  ahead k hk := by
    rw [Std.TreeMap.mem_insert, Std.LawfulEqCmp.compare_eq_iff_eq] at hk
    rcases hk with rfl | hk
    · exact UInt64.le_of_lt hlt
    · exact h.ahead k hk
  room k hk := by
    rw [Std.TreeMap.mem_insert, Std.LawfulEqCmp.compare_eq_iff_eq] at hk
    rcases hk with rfl | hk
    · exact hroom
    · exact h.room k hk

theorem Holds.erase (h : Holds e reorderBuffer) (k : UInt64) :
    Holds e (reorderBuffer.erase k) where
  keyed := keyed_erase h.keyed
  ahead k' hk' := h.ahead k' (Std.TreeMap.mem_of_mem_erase hk')
  room k' hk' := h.room k' (Std.TreeMap.mem_of_mem_erase hk')

/-- Everything else lies behind the first chunk. -/
theorem lt_of_mem_erase {k k' : UInt64} (hmin : ∀ k' ∈ reorderBuffer, k ≤ k')
    (hk' : k' ∈ reorderBuffer.erase k) : k < k' := by
  rw [Std.TreeMap.mem_erase, ne_eq, Std.LawfulEqCmp.compare_eq_iff_eq] at hk'
  exact UInt64.lt_of_le_of_ne (hmin k' hk'.2) hk'.1

/-- A chunk is returned, and those behind it are left. -/
theorem Buffered.deliver (h : Buffered w consumer) (hholds : Holds consumer.expectedSeq reorderBuffer)
    (hsize : reorderBuffer.size ≤ w) {next : UInt64} (hnext : next.toNat = chunk.seqId.toNat + 1)
    (hle : consumer.expectedSeq ≤ chunk.seqId) (hahead : ∀ k ∈ reorderBuffer, chunk.seqId < k) :
    Delivered (E := E) w consumer.expectedSeq
      (.ok (some chunk), { consumer with reorderBuffer, expectedSeq := next }) := by
  rw [UInt64.le_iff_toNat_le] at hle
  refine ⟨⟨_, rfl⟩, ⟨h.window, h.coming, ⟨hholds.keyed, fun k hk => ?_, hholds.room⟩, hsize⟩,
    by dsimp only; omega, fun k hk => ?_⟩
  · have hlt := UInt64.lt_iff_toNat_lt.mp (hahead k hk)
    rw [UInt64.le_iff_toNat_le]
    dsimp only
    omega
  · simp only [numberOf] at hk
    split at hk
    · cases hk
    · cases hk
      exact ⟨hle, by dsimp only; omega⟩

/-- The next message is received. -/
theorem Buffered.receive {msg : PublishMessage} {rest : List PublishMessage}
    (h : Buffered w consumer) (hrest : consumer.subscription = msg :: rest) :
    Buffered w { consumer with subscription := rest } :=
  { h with coming := fun msg' hmsg' => h.coming msg' (by simp [hrest, hmsg']) }

end

/-- The loop, while the expected chunk is not buffered. -/
theorem recvLoop_delivers {rest : List PublishMessage} (h : Buffered w consumer)
    (hrest : consumer.subscription = rest)
    (hmissing : consumer.expectedSeq ∉ consumer.reorderBuffer) :
    Delivered w consumer.expectedSeq (outcome (recvLoop (E := E) rest) consumer) := by
  induction rest generalizing consumer with
  | nil => exact ⟨⟨none, rfl⟩, h, le_rfl, by simp [recvLoop, numberOf]⟩
  | cons msg rest ih =>
    have hroom := h.coming msg (by simp [hrest])
    have hseq : (StreamChunk.ofWire msg.topic msg.payload).seqId.toNat = sequenceNumber msg := rfl
    have hreceived := h.receive hrest
    simp only [recvLoop, StreamChunk.decodeWire, outcome_modify]
    generalize StreamChunk.ofWire msg.topic msg.payload = chunk at hseq
    rw [← hseq] at hroom
    by_cases hzero : chunk.seqId = 0
    · rw [if_pos hzero]
      exact ⟨⟨some chunk, rfl⟩, hreceived, le_rfl, by simp [numberOf, hzero]⟩
    rw [if_neg hzero, outcome_get]
    by_cases heq : chunk.seqId = consumer.expectedSeq
    · -- The expected chunk.
      rw [if_pos heq, outcome_expectAfter, if_pos (heq ▸ hroom)]
      refine hreceived.deliver h.holds h.size_le (heq ▸ toNat_succ hroom) (UInt64.le_of_eq heq.symm)
        fun k hk => ?_
      rw [heq]
      exact UInt64.lt_of_le_of_ne (h.holds.ahead k hk) fun hk' => hmissing (hk' ▸ hk)
    rw [if_neg heq]
    by_cases hlt : consumer.expectedSeq < chunk.seqId
    · have hinsert := h.holds.insert hlt hroom
      have hmissing' : consumer.expectedSeq ∉ consumer.reorderBuffer.insert chunk.seqId chunk := by
        simp [hmissing, heq]
      have hsize : (consumer.reorderBuffer.insert chunk.seqId chunk).size ≤ w + 1 :=
        Std.TreeMap.size_insert_le.trans (Nat.succ_le_succ h.size_le)
      rw [if_pos hlt, outcome_set]
      generalize consumer.reorderBuffer.insert chunk.seqId chunk = reorderBuffer
        at hinsert hmissing' hsize
      have hwindow := h.window
      by_cases hfull : consumer.maxReorderWindow < reorderBuffer.size
      · -- The first chunk is forced out.
        rw [if_pos hfull]
        split
        · rename_i firstKey popped hmin
          obtain ⟨hpopped, hfirst⟩ := minEntry?_eq_some hmin
          have hmem : firstKey ∈ reorderBuffer := by
            rw [Std.TreeMap.mem_iff_isSome_getElem?, hpopped]
            rfl
          have hkey := hinsert.keyed _ popped hpopped
          have hroom := hinsert.room _ hmem
          rw [← hkey] at hroom
          rw [outcome_set, outcome_expectAfter, if_pos hroom]
          refine hreceived.deliver (hinsert.erase firstKey) ?_ (toNat_succ hroom)
            (hkey ▸ hinsert.ahead _ hmem) fun k hk => hkey ▸ lt_of_mem_erase hfirst hk
          have herased := size_erase_of_mem hmem
          omega
        · rename_i hmin
          have := size_eq_zero_of_minEntry? hmin
          omega
      · rw [if_neg hfull]
        have hkept : Buffered w { consumer with subscription := rest, reorderBuffer } :=
          { hreceived with holds := hinsert, size_le := by dsimp only; omega }
        exact ih hkept rfl hmissing'
    · rw [if_neg hlt]
      exact ih hreceived rfl hmissing

/-- One call. -/
theorem recvOrdered_delivers (h : Buffered w consumer) :
    Delivered w consumer.expectedSeq (outcome (recvOrdered (E := E)) consumer) := by
  rw [recvOrdered, outcome_get]
  cases hbuffer : consumer.reorderBuffer[consumer.expectedSeq]? with
  | none =>
    refine recvLoop_delivers h rfl fun hmem => ?_
    rw [Std.TreeMap.mem_iff_isSome_getElem?, hbuffer] at hmem
    cases hmem
  | some chunk =>
    have hmem : consumer.expectedSeq ∈ consumer.reorderBuffer := by
      rw [Std.TreeMap.mem_iff_isSome_getElem?, hbuffer]
      rfl
    have hseq := h.holds.keyed _ chunk hbuffer
    have hroom := h.holds.room _ hmem
    simp only [outcome_set, outcome_expectAfter]
    rw [if_pos hroom]
    refine h.deliver (h.holds.erase _) (Std.TreeMap.size_erase_le.trans h.size_le)
      (by rw [toNat_succ hroom, hseq]) (UInt64.le_of_eq hseq.symm) fun k hk => ?_
    exact hseq ▸ lt_of_mem_erase h.holds.ahead hk

/-! ## Runs -/

/-- The consumer after some calls. -/
def afterCalls (E : Type) (self : DataStreamConsumer) (calls : ℕ) : DataStreamConsumer :=
  (Machine.run (fun self (_ : Unit) => outcome (recvOrdered (E := E)) self) self
    (List.replicate calls ())).2

/-- The numbers of the chunks that the first calls return. -/
def deliveredNumbers (E : Type) (self : DataStreamConsumer) (calls : ℕ) : List ℕ :=
  (results (E := E) self calls).filterMap numberOf

/-- The numbers of successive calls increase, from the expected one on. -/
theorem increasing_of_buffered (E : Type) (h : Buffered w consumer) (calls : ℕ) :
    (∀ k ∈ deliveredNumbers E consumer calls, consumer.expectedSeq.toNat ≤ k) ∧
      (deliveredNumbers E consumer calls).Pairwise (· < ·) ∧
        Buffered w (afterCalls E consumer calls) := by
  induction calls generalizing consumer with
  | zero => simpa [deliveredNumbers, results, afterCalls] using h
  | succ calls ih =>
    have hcall := recvOrdered_delivers (E := E) h
    obtain ⟨hge, hpairwise, hbuffered⟩ := ih hcall.buffered
    have hnumbers : deliveredNumbers E consumer (calls + 1) =
        (numberOf (outcome (recvOrdered (E := E)) consumer).1).toList ++
          deliveredNumbers E (outcome (recvOrdered (E := E)) consumer).2 calls := by
      rw [deliveredNumbers, results_succ, List.filterMap_cons, deliveredNumbers]
      split <;> simp [*]
    have hafter : afterCalls E consumer (calls + 1) =
        afterCalls E (outcome (recvOrdered (E := E)) consumer).2 calls := by
      rw [afterCalls, List.replicate_succ, Machine.run_cons]
      rfl
    rw [hnumbers, hafter, List.pairwise_append]
    refine ⟨fun k hk => ?_, ⟨?_, hpairwise, fun k hk k' hk' => ?_⟩, hbuffered⟩
    · rw [List.mem_append, Option.mem_toList] at hk
      rcases hk with hk | hk
      · exact (hcall.number k hk).1
      · exact hcall.expected.trans (hge k hk)
    · cases numberOf (outcome (recvOrdered (E := E)) consumer).1 <;> simp
    · exact (hcall.number k (Option.mem_toList.mp hk)).2.trans_le (hge k' hk')

/-- However messages arrive, as long as none of them carries the greatest number, the numbers that
successive calls return increase, what is buffered lies from the expected number on, and the window
is respected. -/
theorem recvOrdered_increasing (E : Type) (w : ℕ) (arrivals : List PublishMessage)
    (h : ∀ msg ∈ arrivals, sequenceNumber msg < 2 ^ 64 - 1) (calls : ℕ) :
    (deliveredNumbers E (new arrivals w) calls).Pairwise (· < ·) ∧
      (∀ k ∈ (afterCalls E (new arrivals w) calls).reorderBuffer,
        (afterCalls E (new arrivals w) calls).expectedSeq ≤ k) ∧
      (afterCalls E (new arrivals w) calls).reorderBuffer.size ≤ w := by
  have hnew : Buffered w (new arrivals w) :=
    { window := rfl
      coming := fun msg hmsg => by have := h msg hmsg; omega
      holds := ⟨by simp [new], by simp [new], by simp [new]⟩
      size_le := by simp [new] }
  obtain ⟨-, hpairwise, hbuffered⟩ := increasing_of_buffered E hnew calls
  exact ⟨hpairwise, hbuffered.holds.ahead, hbuffered.size_le⟩

/-- A gap, a late chunk and a duplicate, in a window of one chunk. -/
theorem recvOrdered_increasing_gap :
    (∀ msg ∈ [3, 5, 2, 5, 7].map numberedMessage, sequenceNumber msg < 2 ^ 64 - 1) ∧
      (deliveredNumbers Empty (new ([3, 5, 2, 5, 7].map numberedMessage) 1) 4).Pairwise (· < ·) := by
  have hbelow : ∀ msg ∈ [3, 5, 2, 5, 7].map numberedMessage, sequenceNumber msg < 2 ^ 64 - 1 := by
    simp [sequenceNumber_numberedMessage]
  exact ⟨hbelow, (recvOrdered_increasing Empty 1 _ hbelow 4).1⟩

end MqttEngine.Tokio.DataStreamConsumer
