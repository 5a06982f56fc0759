import MqttEngine.Tokio.Reordering

/-!
# The end of an ordered stream

When the subscription is closed, `recv_ordered` returns `None`, and whatever still waits behind a
gap in the numbers stays in the reorder buffer. Which gap that is does not depend on the order of
the arrivals: a gap is passed only when more numbers beyond it have come than the window has room
for (`Passed`), so the consumer ends at the first number that never comes and has no more than a
window of numbers beyond it. What lies beyond that number is lost, and the counter overflows
exactly if there is no such number.

## Main definitions

* `Passed` — a number that the consumer does not wait for.
* `Lags` — where a consumer stands in a stream with gaps.
* `LosesNothing`, `SafeArithmetic` — what is expected of a consumer.

## Main results

* `recvOrdered_answers` — one call.
* `Run.exists_end` — a stream comes to its end, or overflows the counter.
* `losesNothing_iff` — the streams that are returned to their end.
* `safeArithmetic_iff` — the streams that do not overflow the counter.
-/

namespace MqttEngine.Tokio.DataStreamConsumer
variable {E : Type} {w g : ℕ} {consumer after : DataStreamConsumer}
  {received arrivals : List PublishMessage} {chunks : List StreamChunk}

/-! ## Where a consumer stands -/

/-- A number that has been received, or has more numbers beyond it than the window has room for. -/
def Passed (w : ℕ) (received : List PublishMessage) (g : ℕ) : Prop :=
  g ∈ received.map sequenceNumber ∨ w < (beyond g received).card

theorem mem_beyond {k : ℕ} :
    k ∈ beyond g received ↔ k ∈ received.map sequenceNumber ∧ g < k := by
  rw [beyond, Finset.mem_filter, List.mem_toFinset]

theorem beyond_subset (rest : List PublishMessage) :
    beyond g received ⊆ beyond g (received ++ rest) := by
  intro k hk
  rw [mem_beyond] at hk ⊢
  rw [List.map_append]
  exact ⟨List.mem_append_left _ hk.1, hk.2⟩

/-- What comes later does not bring a gap back. -/
theorem Passed.append (h : Passed w received g) (rest : List PublishMessage) :
    Passed w (received ++ rest) g := by
  rcases h with hmem | hcard
  · refine .inl ?_
    rw [List.map_append]
    exact List.mem_append_left _ hmem
  · exact .inr (hcard.trans_le (Finset.card_le_card (beyond_subset rest)))

/-- The consumer has received some of the arrivals. It holds the received numbers from the expected
one on, and it has passed every number before. -/
structure Lags (arrivals : List PublishMessage) (w : ℕ) (consumer : DataStreamConsumer)
    (received : List PublishMessage) : Prop where
  window : consumer.maxReorderWindow = w
  arrivals : arrivals = received ++ consumer.subscription
  pos : 1 ≤ consumer.expectedSeq.toNat
  buffered : ∀ k, k ∈ consumer.reorderBuffer ↔
    k.toNat ∈ received.map sequenceNumber ∧ consumer.expectedSeq.toNat ≤ k.toNat
  keyed : ∀ k (chunk : StreamChunk), consumer.reorderBuffer[k]? = some chunk → chunk.seqId = k
  passed : ∀ g, 1 ≤ g → g < consumer.expectedSeq.toNat → Passed w received g

theorem lags_new (arrivals : List PublishMessage) (w : ℕ) : Lags arrivals w (new arrivals w) [] where
  window := rfl
  arrivals := rfl
  pos := le_rfl
  buffered := by simp [new]
  keyed := by simp [new]
  passed g hpos hlt := by
    have hone : (new arrivals w).expectedSeq.toNat = 1 := rfl
    omega

namespace Lags

/-- What has been received and lies from the expected number on is held. -/
theorem exists_key (h : Lags arrivals w consumer received) {k : ℕ}
    (hk : k ∈ received.map sequenceNumber) (hle : consumer.expectedSeq.toNat ≤ k) :
    ∃ key ∈ consumer.reorderBuffer, key.toNat = k := by
  obtain ⟨msg, hmsg, rfl⟩ := List.mem_map.mp hk
  exact ⟨_, (h.buffered _).mpr ⟨hk, hle⟩, rfl⟩

/-- Everything that is held lies beyond a smaller number. -/
theorem size_le_beyond (h : Lags arrivals w consumer received)
    (hlt : ∀ k ∈ consumer.reorderBuffer, g < k.toNat) :
    consumer.reorderBuffer.size ≤ (beyond g received).card := by
  rw [← card_keys]
  refine Finset.card_le_card fun k hk => ?_
  obtain ⟨key, hkey, rfl⟩ := mem_keys_toNat.mp hk
  exact mem_beyond.mpr ⟨((h.buffered key).mp hkey).1, hlt key hkey⟩

/-- What lies beyond the expected number is held. -/
theorem beyond_le_size (h : Lags arrivals w consumer received) :
    (beyond consumer.expectedSeq.toNat received).card ≤ consumer.reorderBuffer.size := by
  rw [← card_keys]
  refine Finset.card_le_card fun k hk => ?_
  rw [mem_beyond] at hk
  exact mem_keys_toNat.mpr (h.exists_key hk.1 hk.2.le)

/-- An expected number that has not been received is not passed by a buffer within the window. -/
theorem not_passed (h : Lags arrivals w consumer received) (hsize : consumer.reorderBuffer.size ≤ w)
    (hmissing : consumer.expectedSeq.toNat ∉ received.map sequenceNumber) :
    ¬ Passed w received consumer.expectedSeq.toNat := by
  rintro (hmem | hfull)
  · exact hmissing hmem
  · exact absurd (h.beyond_le_size.trans hsize) hfull.not_ge

/-- A number that has been received is passed with the gaps before it, if it is the expected one, or
the first one of a buffer that is too long. -/
theorem passed_upTo (h : Lags arrivals w consumer received) {k : UInt64}
    (hk : k.toNat ∈ received.map sequenceNumber)
    (hfirst : k = consumer.expectedSeq ∨
      w < consumer.reorderBuffer.size ∧ ∀ k' ∈ consumer.reorderBuffer, k ≤ k')
    (hpos : 1 ≤ g) (hle : g ≤ k.toNat) : Passed w received g := by
  rcases hle.eq_or_lt with rfl | hlt
  · exact .inl hk
  by_cases hpast : g < consumer.expectedSeq.toNat
  · exact h.passed g hpos hpast
  rcases hfirst with rfl | ⟨hfull, hfirst⟩
  · exact absurd hlt hpast
  · refine .inr (hfull.trans_le (h.size_le_beyond fun k' hk' => ?_))
    exact hlt.trans_le (UInt64.le_iff_toNat_le.mp (hfirst k' hk'))

/-- A message behind the expected number changes nothing. -/
theorem receive_old {msg : PublishMessage} {rest : List PublishMessage}
    (h : Lags arrivals w consumer received) (hrest : consumer.subscription = msg :: rest)
    (hold : sequenceNumber msg < consumer.expectedSeq.toNat) :
    Lags arrivals w { consumer with subscription := rest } (received ++ [msg]) where
  window := h.window
  arrivals := by simp [h.arrivals, hrest]
  pos := h.pos
  buffered k := by
    rw [List.map_append, List.mem_append, List.map_singleton, List.mem_singleton, h.buffered]
    constructor
    · exact fun hk => ⟨.inl hk.1, hk.2⟩
    · rintro ⟨hk | hk, hle⟩
      · exact ⟨hk, hle⟩
      · exact absurd hle (by simpa [hk] using hold)
  keyed := h.keyed
  passed g hpos hlt := (h.passed g hpos hlt).append _

/-- The expected message. -/
theorem receive_expected {msg : PublishMessage} {rest : List PublishMessage}
    (h : Lags arrivals w consumer received) (hrest : consumer.subscription = msg :: rest)
    (hnew : consumer.expectedSeq ∉ consumer.reorderBuffer)
    (heq : sequenceNumber msg = consumer.expectedSeq.toNat) {next : UInt64}
    (hnext : next.toNat = consumer.expectedSeq.toNat + 1) :
    Lags arrivals w { consumer with subscription := rest, expectedSeq := next }
      (received ++ [msg]) where
  window := h.window
  arrivals := by simp [h.arrivals, hrest]
  pos := by rw [hnext]; omega
  buffered k := by
    rw [List.map_append, List.mem_append, List.map_singleton, List.mem_singleton, h.buffered, hnext,
      heq]
    constructor
    · rintro ⟨hk, hle⟩
      have hne : k.toNat ≠ consumer.expectedSeq.toNat := fun heq' =>
        hnew ((h.buffered _).mpr ⟨heq' ▸ hk, le_rfl⟩)
      exact ⟨.inl hk, by omega⟩
    · rintro ⟨hk | hk, hle⟩
      · exact ⟨hk, by omega⟩
      · omega
  keyed := h.keyed
  passed g hpos hlt := by
    rw [hnext] at hlt
    by_cases hg : g = consumer.expectedSeq.toNat
    · exact .inl (by simp [hg, heq])
    · exact (h.passed g hpos (by omega)).append _

/-- A message beyond the expected one is buffered. -/
theorem receive_beyond {msg : PublishMessage} {rest : List PublishMessage}
    (h : Lags arrivals w consumer received) (hrest : consumer.subscription = msg :: rest)
    {chunk : StreamChunk} (hchunk : chunk.seqId.toNat = sequenceNumber msg)
    (hlt : consumer.expectedSeq < chunk.seqId) :
    Lags arrivals w { consumer with
      subscription := rest
      reorderBuffer := consumer.reorderBuffer.insert chunk.seqId chunk } (received ++ [msg]) where
  window := h.window
  arrivals := by simp [h.arrivals, hrest]
  pos := h.pos
  buffered k := by
    rw [UInt64.lt_iff_toNat_lt] at hlt
    rw [List.map_append, List.mem_append, List.map_singleton, List.mem_singleton,
      Std.TreeMap.mem_insert, Std.LawfulEqCmp.compare_eq_iff_eq, h.buffered, ← hchunk,
      UInt64.toNat_inj]
    constructor
    · rintro (rfl | hk)
      · exact ⟨.inr rfl, hlt.le⟩
      · exact ⟨.inl hk.1, hk.2⟩
    · rintro ⟨hk | rfl, hle⟩
      · exact .inr ⟨hk, hle⟩
      · exact .inl rfl
  keyed := keyed_insert h.keyed
  passed g hpos hlt := (h.passed g hpos hlt).append _

/-- The first chunk is given out, and every number up to it is passed. -/
theorem give (h : Lags arrivals w consumer received) {k next : UInt64}
    (hk : k ∈ consumer.reorderBuffer) (hmin : ∀ k' ∈ consumer.reorderBuffer, k ≤ k')
    (hnext : next.toNat = k.toNat + 1)
    (hpassed : k = consumer.expectedSeq ∨ w < consumer.reorderBuffer.size) :
    Lags arrivals w { consumer with
      reorderBuffer := consumer.reorderBuffer.erase k, expectedSeq := next } received where
  window := h.window
  arrivals := h.arrivals
  pos := by rw [hnext]; omega
  buffered k' := by
    rw [Std.TreeMap.mem_erase, ne_eq, Std.LawfulEqCmp.compare_eq_iff_eq, h.buffered, hnext]
    have hle := ((h.buffered k).mp hk).2
    constructor
    · rintro ⟨hne, hk'⟩
      have hlt := UInt64.lt_iff_toNat_lt.mp
        (UInt64.lt_of_le_of_ne (hmin k' ((h.buffered k').mpr hk')) hne)
      exact ⟨hk'.1, hlt⟩
    · rintro ⟨hk', hlt⟩
      refine ⟨fun heq => ?_, hk', by omega⟩
      rw [heq] at hlt
      omega
  keyed := keyed_erase h.keyed
  passed g hpos hlt := by
    rw [hnext] at hlt
    exact h.passed_upTo ((h.buffered k).mp hk).1 (hpassed.imp_right fun hfull => ⟨hfull, hmin⟩) hpos
      (by omega)

end Lags

/-! ## Calls -/

/-- How a call ends that starts with the messages `start` received and expects the number `e`;
`budget` is what was still to come or held. -/
inductive Answers (arrivals : List PublishMessage) (w : ℕ) (start : List PublishMessage) (e : UInt64)
    (budget : ℕ) : Checked (ClientError E) (Option StreamChunk) × DataStreamConsumer → Prop
  /-- With a chunk: nothing else has been passed of what has come and was not behind. -/
  | chunk {chunk : StreamChunk} {after : DataStreamConsumer} {received : List PublishMessage}
      (h : Lags arrivals w after received) (hsize : after.reorderBuffer.size ≤ w)
      (hstart : start <+: received) (hle : e ≤ after.expectedSeq)
      (hgiven : ∀ k ∈ received.map sequenceNumber, e.toNat ≤ k → k < after.expectedSeq.toNat →
        k = chunk.seqId.toNat)
      (hfewer : after.subscription.length + after.reorderBuffer.size < budget) :
      Answers arrivals w start e budget (.ok (some chunk), after)
  /-- In the overflow of the counter, which has passed every number. -/
  | overflow {after : DataStreamConsumer}
      (h : ∀ g, 1 ≤ g → g < 2 ^ 64 → Passed w arrivals g)
      (hgreatest : 2 ^ 64 - 1 ∈ arrivals.map sequenceNumber) (hsame : after.expectedSeq = e) :
      Answers arrivals w start e budget (.error .panic, after)
  /-- With nothing, while the expected number has not come. -/
  | closed {after : DataStreamConsumer} (h : Lags arrivals w after arrivals)
      (hsize : after.reorderBuffer.size ≤ w) (hsame : after.expectedSeq = e)
      (hmissing : e.toNat ∉ arrivals.map sequenceNumber) :
      Answers arrivals w start e budget (.ok none, after)

/-- The greatest number, if it is passed, leaves no number to wait for. -/
theorem answers_overflow {e : UInt64} {budget : ℕ} {start rest : List PublishMessage} {k : UInt64}
    (harrivals : arrivals = received ++ rest) (hk : k.toNat ∈ received.map sequenceNumber)
    (hpassed : ∀ g, 1 ≤ g → g ≤ k.toNat → Passed w received g) (hnext : ¬ k.toNat + 1 < 2 ^ 64)
    (hsame : after.expectedSeq = e) :
    Answers (E := E) arrivals w start e budget (.error .panic, after) := by
  have hlt := k.toNat_lt
  have hgreatest : k.toNat = 2 ^ 64 - 1 := by omega
  subst harrivals
  refine .overflow (fun g hpos hg => (hpassed g hpos (by omega)).append rest) ?_ hsame
  rw [← hgreatest, List.map_append]
  exact List.mem_append_left _ hk

/-- The loop, while the expected chunk is not buffered. -/
theorem recvLoop_answers {start rest : List PublishMessage} {budget : ℕ}
    (h : Lags arrivals w consumer received) (hstart : start <+: received)
    (hsize : consumer.reorderBuffer.size ≤ w)
    (hrest : consumer.subscription = rest) (hmissing : consumer.expectedSeq ∉ consumer.reorderBuffer)
    (hbudget : rest.length + consumer.reorderBuffer.size ≤ budget) :
    Answers arrivals w start consumer.expectedSeq budget
      (outcome (recvLoop (E := E) rest) consumer) := by
  induction rest generalizing consumer received with
  | nil =>
    have harrivals : arrivals = received := by
      simpa [hrest] using h.arrivals
    subst harrivals
    exact .closed h hsize rfl fun hmem => hmissing ((h.buffered _).mpr ⟨hmem, le_rfl⟩)
  | cons msg rest ih =>
    have hseq : (StreamChunk.ofWire msg.topic msg.payload).seqId.toNat = sequenceNumber msg := rfl
    simp only [recvLoop, StreamChunk.decodeWire, outcome_modify]
    generalize StreamChunk.ofWire msg.topic msg.payload = chunk at hseq
    have hstart' : start <+: received ++ [msg] := hstart.trans (List.prefix_append _ _)
    rw [List.length_cons] at hbudget
    by_cases hzero : chunk.seqId = 0
    · -- A payload without a number.
      have hold : sequenceNumber msg < consumer.expectedSeq.toNat := by
        rw [← hseq, hzero]
        exact h.pos
      rw [if_pos hzero]
      refine .chunk (h.receive_old hrest hold) hsize hstart' UInt64.le_rfl (fun k _ hle hlt => ?_)
        (by dsimp only; omega)
      exact absurd hlt hle.not_gt
    rw [if_neg hzero, outcome_get]
    by_cases heq : chunk.seqId = consumer.expectedSeq
    · -- The expected chunk.
      have hnumber : sequenceNumber msg = consumer.expectedSeq.toNat := by
        rw [← hseq, heq]
      rw [if_pos heq, outcome_expectAfter]
      by_cases hnext : consumer.expectedSeq.toNat + 1 < 2 ^ 64
      · have hsucc := toNat_succ hnext
        rw [if_pos hnext]
        refine .chunk (h.receive_expected hrest hmissing hnumber hsucc) hsize hstart' ?_
          (fun k _ hle hlt => ?_) (by dsimp only; omega)
        · rw [UInt64.le_iff_toNat_le]
          dsimp only
          omega
        · dsimp only at hlt
          rw [heq]
          omega
      · rw [if_neg hnext]
        have harrivals : arrivals = (received ++ [msg]) ++ rest := by
          simp [h.arrivals, hrest]
        refine answers_overflow (k := consumer.expectedSeq) harrivals (by simp [hnumber])
          (fun g hpos hle => ?_) hnext rfl
        rcases hle.eq_or_lt with rfl | hlt
        · exact .inl (by simp [hnumber])
        · exact (h.passed g hpos hlt).append _
    rw [if_neg heq]
    by_cases hlt : consumer.expectedSeq < chunk.seqId
    · -- A chunk beyond the expected one.
      have hkept := h.receive_beyond hrest hseq hlt
      have hmissing' : consumer.expectedSeq ∉ consumer.reorderBuffer.insert chunk.seqId chunk := by
        simp [hmissing, heq]
      have hgrown : (consumer.reorderBuffer.insert chunk.seqId chunk).size ≤
          consumer.reorderBuffer.size + 1 := Std.TreeMap.size_insert_le
      rw [if_pos hlt, outcome_set]
      generalize consumer.reorderBuffer.insert chunk.seqId chunk = reorderBuffer
        at hkept hmissing' hgrown
      by_cases hfull : consumer.maxReorderWindow < reorderBuffer.size
      · -- The first chunk is forced out.
        rw [if_pos hfull]
        rw [h.window] at hfull
        split
        · rename_i firstKey popped hmin
          obtain ⟨hpopped, hfirst⟩ := minEntry?_eq_some hmin
          have hmem : firstKey ∈ reorderBuffer := by
            rw [Std.TreeMap.mem_iff_isSome_getElem?, hpopped]
            rfl
          have hkey : popped.seqId = firstKey := hkept.keyed _ popped hpopped
          have hheld := (hkept.buffered firstKey).mp hmem
          have herased := size_erase_of_mem hmem
          rw [outcome_set, outcome_expectAfter, hkey]
          by_cases hnext : firstKey.toNat + 1 < 2 ^ 64
          · have hsucc := toNat_succ hnext
            rw [if_pos hnext]
            refine .chunk (hkept.give hmem hfirst hsucc (.inr hfull)) ?_ hstart' ?_
              (fun k hk hle hlt => ?_) ?_
            · dsimp only
              omega
            · have hle := hheld.2
              rw [UInt64.le_iff_toNat_le]
              dsimp only at hle ⊢
              omega
            · obtain ⟨key, hkey', rfl⟩ := hkept.exists_key hk hle
              have hge := UInt64.le_iff_toNat_le.mp (hfirst key hkey')
              dsimp only at hlt
              rw [hkey]
              omega
            · dsimp only
              omega
          · rw [if_neg hnext]
            exact answers_overflow hkept.arrivals hheld.1
              (fun g => hkept.passed_upTo hheld.1 (.inr ⟨hfull, hfirst⟩)) hnext rfl
        · rename_i hmin
          have := size_eq_zero_of_minEntry? hmin
          omega
      · rw [if_neg hfull]
        rw [h.window] at hfull
        exact ih hkept hstart' (Nat.le_of_not_lt hfull) rfl hmissing' (by dsimp only; omega)
    · -- A chunk behind the expected one.
      have hold : sequenceNumber msg < consumer.expectedSeq.toNat := by
        rw [← hseq]
        exact UInt64.lt_iff_toNat_lt.mp (UInt64.lt_of_le_of_ne (UInt64.not_lt.mp hlt) heq)
      rw [if_neg hlt]
      exact ih (h.receive_old hrest hold) hstart' hsize rfl hmissing (by dsimp only; omega)

/-- **One call.** -/
theorem recvOrdered_answers (h : Lags arrivals w consumer received)
    (hsize : consumer.reorderBuffer.size ≤ w) :
    Answers arrivals w received consumer.expectedSeq
      (consumer.subscription.length + consumer.reorderBuffer.size)
      (outcome (recvOrdered (E := E)) consumer) := by
  rw [recvOrdered, outcome_get]
  cases hbuffer : consumer.reorderBuffer[consumer.expectedSeq]? with
  | none =>
    refine recvLoop_answers h (List.prefix_refl _) hsize rfl (fun hmem => ?_) le_rfl
    rw [Std.TreeMap.mem_iff_isSome_getElem?, hbuffer] at hmem
    cases hmem
  | some chunk =>
    have hmem : consumer.expectedSeq ∈ consumer.reorderBuffer := by
      rw [Std.TreeMap.mem_iff_isSome_getElem?, hbuffer]
      rfl
    have hheld := (h.buffered consumer.expectedSeq).mp hmem
    have hfirst : ∀ k ∈ consumer.reorderBuffer, consumer.expectedSeq ≤ k := fun k hk =>
      UInt64.le_iff_toNat_le.mpr ((h.buffered k).mp hk).2
    have herased := size_erase_of_mem hmem
    simp only [outcome_set, outcome_expectAfter]
    by_cases hnext : consumer.expectedSeq.toNat + 1 < 2 ^ 64
    · have hsucc := toNat_succ hnext
      rw [if_pos hnext]
      refine .chunk (h.give hmem hfirst hsucc (.inl rfl)) ?_ (List.prefix_refl _) ?_
        (fun k _ hle hlt => ?_) ?_
      · dsimp only
        omega
      · rw [UInt64.le_iff_toNat_le]
        dsimp only
        omega
      · rw [h.keyed _ chunk hbuffer]
        dsimp only at hlt
        omega
      · dsimp only
        omega
    · rw [if_neg hnext]
      exact answers_overflow h.arrivals hheld.1 (fun g => h.passed_upTo hheld.1 (.inl rfl)) hnext rfl

/-! ## Runs -/

theorem results_concat (consumer : DataStreamConsumer) (calls : ℕ) :
    results (E := E) consumer (calls + 1) = results consumer calls ++
      [(outcome (recvOrdered (E := E)) (afterCalls E consumer calls)).1] := by
  rw [results, List.replicate_succ', Machine.run_append]
  rfl

theorem afterCalls_succ (consumer : DataStreamConsumer) (calls : ℕ) :
    afterCalls E consumer (calls + 1) =
      (outcome (recvOrdered (E := E)) (afterCalls E consumer calls)).2 := by
  rw [afterCalls, List.replicate_succ', Machine.run_append]
  rfl

/-- In one of the first calls a message of the number `k` arrived that was not behind. -/
def Accepted (E : Type) (self : DataStreamConsumer) (calls k : ℕ) : Prop :=
  ∃ call < calls, ∃ taken,
    (afterCalls E self call).subscription = taken ++ (afterCalls E self (call + 1)).subscription ∧
      k ∈ taken.map sequenceNumber ∧ (afterCalls E self call).expectedSeq.toNat ≤ k

theorem accepted_succ {k calls : ℕ} (h : Accepted E consumer (calls + 1) k) :
    Accepted E consumer calls k ∨ ∃ taken,
      (afterCalls E consumer calls).subscription =
          taken ++ (afterCalls E consumer (calls + 1)).subscription ∧
        k ∈ taken.map sequenceNumber ∧ (afterCalls E consumer calls).expectedSeq.toNat ≤ k := by
  obtain ⟨call, hcall, htaken⟩ := h
  rcases Nat.lt_succ_iff_lt_or_eq.mp hcall with hlt | rfl
  · exact .inl ⟨call, hlt, htaken⟩
  · exact .inr htaken

/-- The first calls have returned the chunks. What has been accepted is among them, or held. -/
structure Run (E : Type) (arrivals : List PublishMessage) (w : ℕ) (chunks : List StreamChunk)
    (received : List PublishMessage) : Prop where
  results : results (E := E) (new arrivals w) chunks.length = chunks.map fun chunk => .ok (some chunk)
  lags : Lags arrivals w (afterCalls E (new arrivals w) chunks.length) received
  size_le : (afterCalls E (new arrivals w) chunks.length).reorderBuffer.size ≤ w
  returned : ∀ k, Accepted E (new arrivals w) chunks.length k →
    k ∈ chunks.map (fun chunk => chunk.seqId.toNat) ∨ k ∈ received.map sequenceNumber ∧
      (afterCalls E (new arrivals w) chunks.length).expectedSeq.toNat ≤ k

theorem run_nil (E : Type) (arrivals : List PublishMessage) (w : ℕ) : Run E arrivals w [] [] where
  results := rfl
  lags := lags_new arrivals w
  size_le := Nat.zero_le w
  returned k h := by
    obtain ⟨call, hcall, -⟩ := h
    cases hcall

/-- What a call takes has been received after it. -/
theorem Lags.taken {received' taken : List PublishMessage} (h : Lags arrivals w consumer received)
    (h' : Lags arrivals w after received')
    (htaken : consumer.subscription = taken ++ after.subscription) :
    received' = received ++ taken := by
  have harrivals := h.arrivals.symm.trans h'.arrivals
  rw [htaken, ← List.append_assoc] at harrivals
  exact (List.append_cancel_right harrivals).symm

namespace Run

/-- The next call. -/
theorem answers (h : Run E arrivals w chunks received) :
    Answers arrivals w received (afterCalls E (new arrivals w) chunks.length).expectedSeq
      ((afterCalls E (new arrivals w) chunks.length).subscription.length +
        (afterCalls E (new arrivals w) chunks.length).reorderBuffer.size)
      (outcome (recvOrdered (E := E)) (afterCalls E (new arrivals w) chunks.length)) :=
  recvOrdered_answers h.lags h.size_le

/-- What has been accepted after one more call has been returned before it, or has been received and
was not behind. -/
theorem returned_succ (h : Run E arrivals w chunks received) {received' : List PublishMessage}
    (h' : Lags arrivals w (afterCalls E (new arrivals w) (chunks.length + 1)) received')
    (hstart : received <+: received') {k : ℕ}
    (hk : Accepted E (new arrivals w) (chunks.length + 1) k) :
    k ∈ chunks.map (fun chunk => chunk.seqId.toNat) ∨ k ∈ received'.map sequenceNumber ∧
      (afterCalls E (new arrivals w) chunks.length).expectedSeq.toNat ≤ k := by
  rcases accepted_succ hk with hbefore | ⟨taken, htaken, hmem, hle⟩
  · exact (h.returned k hbefore).imp_right fun hheld =>
      ⟨(hstart.map sequenceNumber).subset hheld.1, hheld.2⟩
  · refine .inr ⟨?_, hle⟩
    rw [h.lags.taken h' htaken, List.map_append]
    exact List.mem_append_right _ hmem

/-- A call that returns one more chunk. -/
theorem succ (h : Run E arrivals w chunks received) {chunk : StreamChunk}
    {received' : List PublishMessage}
    (hresult : (outcome (recvOrdered (E := E)) (afterCalls E (new arrivals w) chunks.length)).1 =
      .ok (some chunk))
    (h' : Lags arrivals w (afterCalls E (new arrivals w) (chunks.length + 1)) received')
    (hsize : (afterCalls E (new arrivals w) (chunks.length + 1)).reorderBuffer.size ≤ w)
    (hstart : received <+: received')
    (hgiven : ∀ k ∈ received'.map sequenceNumber,
      (afterCalls E (new arrivals w) chunks.length).expectedSeq.toNat ≤ k →
        k < (afterCalls E (new arrivals w) (chunks.length + 1)).expectedSeq.toNat →
          k = chunk.seqId.toNat) :
    Run E arrivals w (chunks ++ [chunk]) received' := by
  have hlength : (chunks ++ [chunk]).length = chunks.length + 1 := by simp
  refine ⟨?_, hlength ▸ h', hlength ▸ hsize, fun k hk => ?_⟩
  · rw [hlength, results_concat, h.results, hresult, List.map_append]
    rfl
  · rw [hlength] at hk ⊢
    rw [List.map_append, List.mem_append, List.map_singleton, List.mem_singleton]
    rcases h.returned_succ h' hstart hk with hbefore | ⟨hmem, hle⟩
    · exact .inl (.inl hbefore)
    · rcases lt_or_ge k (afterCalls E (new arrivals w) (chunks.length + 1)).expectedSeq.toNat with
        hlt | hge
      · exact .inl (.inr (hgiven k hmem hle hlt))
      · exact .inr ⟨hmem, hge⟩

/-- The calls return chunks until the stream is closed, or the counter overflows. -/
theorem exists_end (h : Run E arrivals w chunks received) :
    ∃ chunks received, Run E arrivals w chunks received ∧
      ∀ chunk, (outcome (recvOrdered (E := E)) (afterCalls E (new arrivals w) chunks.length)).1 ≠
        .ok (some chunk) := by
  obtain ⟨budget, hbudget⟩ : ∃ budget,
      (afterCalls E (new arrivals w) chunks.length).subscription.length +
        (afterCalls E (new arrivals w) chunks.length).reorderBuffer.size = budget := ⟨_, rfl⟩
  induction budget using Nat.strong_induction_on generalizing chunks received with
  | h budget ih =>
    have hcall := h.answers
    have hafter := afterCalls_succ (E := E) (new arrivals w) chunks.length
    generalize hcalled : outcome (recvOrdered (E := E)) (afterCalls E (new arrivals w) chunks.length)
      = call at hcall hafter
    cases hcall with
    | chunk h' hsize hstart hle hgiven hfewer =>
      dsimp only at hafter
      subst hafter
      exact ih _ (hbudget ▸ hfewer) (h.succ (by rw [hcalled]) h' hsize hstart hgiven) (by simp)
    | overflow => exact ⟨chunks, received, h, by simp [hcalled]⟩
    | closed => exact ⟨chunks, received, h, by simp [hcalled]⟩

/-- Results that are all chunks come from such calls. -/
theorem of_results
    (h : DataStreamConsumer.results (E := E) (new arrivals w) chunks.length =
      chunks.map fun chunk => .ok (some chunk)) :
    ∃ received, Run E arrivals w chunks received := by
  induction chunks using List.reverseRecOn with
  | nil => exact ⟨[], run_nil E arrivals w⟩
  | append_singleton chunks chunk ih =>
    have hlength : (chunks ++ [chunk]).length = chunks.length + 1 := by simp
    rw [hlength, results_concat, List.map_append, List.map_singleton] at h
    obtain ⟨hbefore, hlast⟩ := List.append_inj' h rfl
    obtain ⟨received, hrun⟩ := ih hbefore
    have hresult := List.singleton_inj.mp hlast
    have hcall := hrun.answers
    have hafter := afterCalls_succ (E := E) (new arrivals w) chunks.length
    generalize hcalled : outcome (recvOrdered (E := E)) (afterCalls E (new arrivals w) chunks.length)
      = call at hcall hafter hresult
    cases hcall with
    | chunk h' hsize hstart hle hgiven hfewer =>
      dsimp only at hafter hresult
      cases hresult
      subst hafter
      exact ⟨_, hrun.succ (by rw [hcalled]) h' hsize hstart hgiven⟩
    | overflow => cases hresult
    | closed => cases hresult

end Run

/-! ## To the end of a stream -/

/-- Calls return chunks until one returns nothing: by then every number that was accepted has been
returned, and nothing is held. -/
def LosesNothing (E : Type) (w : ℕ) (arrivals : List PublishMessage) : Prop :=
  ∃ chunks : List StreamChunk,
    results (E := E) (new arrivals w) (chunks.length + 1) =
      chunks.map (fun chunk => .ok (some chunk)) ++ [.ok none] ∧
    (∀ k, Accepted E (new arrivals w) (chunks.length + 1) k →
      k ∈ chunks.map fun chunk => chunk.seqId.toNat) ∧
    (afterCalls E (new arrivals w) (chunks.length + 1)).reorderBuffer.isEmpty

/-- No call overflows the counter, and no call takes the expected number back. -/
def SafeArithmetic (E : Type) (w : ℕ) (arrivals : List PublishMessage) : Prop :=
  ∀ calls, .error .panic ∉ results (E := E) (new arrivals w) calls ∧
    (afterCalls E (new arrivals w) calls).expectedSeq ≤
      (afterCalls E (new arrivals w) (calls + 1)).expectedSeq

/-- A stream that is returned to its end has no gap with something beyond it that is not passed. -/
theorem LosesNothing.passed (h : LosesNothing E w arrivals) :
    2 ^ 64 - 1 ∉ arrivals.map sequenceNumber ∧
      ∀ g, 1 ≤ g → Passed w arrivals g ∨ beyond g arrivals = ∅ := by
  obtain ⟨chunks, hresults, -, hempty⟩ := h
  rw [results_concat] at hresults
  obtain ⟨hbefore, hlast⟩ := List.append_inj' hresults rfl
  obtain ⟨received, hrun⟩ := Run.of_results hbefore
  have hresult := List.singleton_inj.mp hlast
  have hcall := hrun.answers
  rw [afterCalls_succ] at hempty
  generalize outcome (recvOrdered (E := E)) (afterCalls E (new arrivals w) chunks.length) = call
    at hcall hresult hempty
  cases hcall with
  | chunk => cases hresult
  | overflow => cases hresult
  | closed h' hsize hsame hmissing =>
    rename_i after
    have hnothing : ∀ k ∈ arrivals.map sequenceNumber, ¬ after.expectedSeq.toNat ≤ k := by
      intro k hk hle
      obtain ⟨key, hkey, -⟩ := h'.exists_key hk hle
      exact Std.TreeMap.not_mem_of_isEmpty hempty hkey
    refine ⟨fun hgreatest => hnothing _ hgreatest ?_, fun g hpos => ?_⟩
    · have hlt := after.expectedSeq.toNat_lt
      omega
    · by_cases hpast : g < after.expectedSeq.toNat
      · exact .inl (h'.passed g hpos hpast)
      · refine .inr (Finset.eq_empty_of_forall_notMem fun k hk => ?_)
        rw [mem_beyond] at hk
        exact hnothing k hk.1 (by omega)

/-- **Which streams are returned to their end.** The greatest number does not come, and of every
number that does not come, nothing comes beyond it or more than the window has room for. -/
theorem losesNothing_iff (E : Type) (w : ℕ) (arrivals : List PublishMessage) :
    LosesNothing E w arrivals ↔ 2 ^ 64 - 1 ∉ arrivals.map sequenceNumber ∧
      ∀ g, 1 ≤ g → Passed w arrivals g ∨ beyond g arrivals = ∅ := by
  refine ⟨LosesNothing.passed, fun ⟨hgreatest, hpassed⟩ => ?_⟩
  obtain ⟨chunks, received, hrun, hend⟩ := (run_nil E arrivals w).exists_end
  have hcall := hrun.answers
  have hafter := afterCalls_succ (E := E) (new arrivals w) chunks.length
  generalize hcalled : outcome (recvOrdered (E := E)) (afterCalls E (new arrivals w) chunks.length)
    = call at hcall hafter hend
  cases hcall with
  | chunk => exact absurd rfl (hend _)
  | overflow _ hoverflow => exact absurd hoverflow hgreatest
  | closed h' hsize hsame hmissing =>
    dsimp only at hafter
    subst hafter
    have hbeyond := (hpassed _ h'.pos).resolve_left (h'.not_passed hsize (hsame ▸ hmissing))
    have hnothing : ∀ k ∈ arrivals.map sequenceNumber,
        ¬ (afterCalls E (new arrivals w) (chunks.length + 1)).expectedSeq.toNat ≤ k := by
      intro k hk hle
      have hne : (afterCalls E (new arrivals w) (chunks.length + 1)).expectedSeq.toNat ≠ k :=
        fun heq => hmissing (hsame ▸ heq ▸ hk)
      have hmem := mem_beyond.mpr ⟨hk, Nat.lt_of_le_of_ne hle hne⟩
      rw [hbeyond] at hmem
      cases hmem
    refine ⟨chunks, ?_, fun k hk => ?_, ?_⟩
    · rw [results_concat, hrun.results, hcalled]
    · have hstart : received <+: arrivals := by
        rw [hrun.lags.arrivals]
        exact List.prefix_append _ _
      refine (hrun.returned_succ h' hstart hk).resolve_right fun hheld => ?_
      exact hnothing k hheld.1 (hsame ▸ hheld.2)
    · rw [Std.TreeMap.isEmpty_iff_forall_not_mem]
      intro k hk
      have hheld := (h'.buffered k).mp hk
      exact hnothing _ hheld.1 hheld.2

/-- The chunk 2 does not come, and the chunk 3 is not returned. -/
theorem not_losesNothing_gap : ¬ LosesNothing Empty 8 ([1, 3].map numberedMessage) := by
  intro h
  have hnumbers : ([1, 3].map numberedMessage).map sequenceNumber = [1, 3] := by
    simp [sequenceNumber_numberedMessage]
  have hgap := h.passed.2 2 (by decide)
  rw [Passed, beyond, hnumbers] at hgap
  revert hgap
  decide

/-! ## The counter -/

/-- While some number is not passed, the counter does not overflow. -/
theorem no_panic (hpos : 1 ≤ g) (hlt : g < 2 ^ 64) (hgap : ¬ Passed w arrivals g) (calls : ℕ) :
    .error .panic ∉ results (E := E) (new arrivals w) calls ∧ ∃ received,
      Lags arrivals w (afterCalls E (new arrivals w) calls) received ∧
        (afterCalls E (new arrivals w) calls).reorderBuffer.size ≤ w := by
  induction calls with
  | zero => exact ⟨List.not_mem_nil, [], lags_new arrivals w, Nat.zero_le w⟩
  | succ calls ih =>
    obtain ⟨hbefore, received, hlags, hsize⟩ := ih
    have hcall := recvOrdered_answers (E := E) hlags hsize
    rw [results_concat, afterCalls_succ, List.mem_append, List.mem_singleton]
    generalize outcome (recvOrdered (E := E)) (afterCalls E (new arrivals w) calls) = call at hcall
    cases hcall with
    | chunk h' hsize' => exact ⟨by simpa using hbefore, _, h', hsize'⟩
    | overflow hpassed => exact absurd (hpassed g hpos hlt) hgap
    | closed h' hsize' => exact ⟨by simpa using hbefore, _, h', hsize'⟩

/-- A consumer that overflows its counter has passed every number. -/
theorem SafeArithmetic.exists_gap (h : SafeArithmetic E w arrivals) :
    ∃ g, 1 ≤ g ∧ g < 2 ^ 64 ∧ ¬ Passed w arrivals g := by
  obtain ⟨chunks, received, hrun, hend⟩ := (run_nil E arrivals w).exists_end
  have hcall := hrun.answers
  have hsafe := (h (chunks.length + 1)).1
  rw [results_concat, List.mem_append, List.mem_singleton, not_or] at hsafe
  generalize outcome (recvOrdered (E := E)) (afterCalls E (new arrivals w) chunks.length) = call
    at hcall hend hsafe
  cases hcall with
  | chunk => exact absurd rfl (hend _)
  | overflow => exact absurd rfl hsafe.2
  | closed h' hsize hsame hmissing =>
    exact ⟨_, h'.pos, UInt64.toNat_lt _, h'.not_passed hsize (hsame ▸ hmissing)⟩

/-- **Which streams do not overflow the counter.** Some number does not come, and no more numbers
beyond it than the window has room for. -/
theorem safeArithmetic_iff (E : Type) (w : ℕ) (arrivals : List PublishMessage) :
    SafeArithmetic E w arrivals ↔ ∃ g, 1 ≤ g ∧ g < 2 ^ 64 ∧ ¬ Passed w arrivals g := by
  refine ⟨SafeArithmetic.exists_gap, fun ⟨g, hpos, hlt, hgap⟩ calls => ?_⟩
  obtain ⟨hbefore, received, hlags, hsize⟩ := no_panic (E := E) hpos hlt hgap calls
  refine ⟨hbefore, ?_⟩
  have hcall := recvOrdered_answers (E := E) hlags hsize
  rw [afterCalls_succ]
  generalize outcome (recvOrdered (E := E)) (afterCalls E (new arrivals w) calls) = call at hcall
  cases hcall with
  | chunk _ _ _ hle => exact hle
  | overflow _ _ hsame => exact UInt64.le_of_eq hsame.symm
  | closed _ _ hsame => exact UInt64.le_of_eq hsame.symm

/-- The greatest number, in a window without room. -/
theorem not_safeArithmetic_greatest :
    ¬ SafeArithmetic Empty 0 ([2 ^ 64 - 1].map numberedMessage) := by
  intro h
  obtain ⟨g, -, hlt, hgap⟩ := h.exists_gap
  have hnumbers : ([2 ^ 64 - 1].map numberedMessage).map sequenceNumber = [2 ^ 64 - 1] := by
    simp [sequenceNumber_numberedMessage]
  refine hgap ?_
  rw [Passed, beyond, hnumbers, List.mem_singleton]
  by_cases hg : g = 2 ^ 64 - 1
  · exact .inl hg
  · refine .inr (Finset.card_pos.mpr ⟨2 ^ 64 - 1, ?_⟩)
    rw [Finset.mem_filter, List.mem_toFinset, List.mem_singleton]
    exact ⟨rfl, by omega⟩

end MqttEngine.Tokio.DataStreamConsumer
