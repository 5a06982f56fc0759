import MqttEngine.Lib.Checked
import MqttEngine.Lib.Effect
import MqttEngine.Lib.Machine
import MqttEngine.Tokio.Types
import Mathlib.Data.Finset.Card
import Mathlib.Order.Bounds.Basic
import Mathlib.Order.Interval.Finset.Nat

/-!
# Ordered streams

`StreamChunk` and `DataStreamConsumer` of `stream.rs`. The wire format of a chunk starts with its
sequence number. `recvOrdered` yields chunks by number: the one it expects is taken from the
reorder buffer or from the subscription, a later one is buffered, an earlier one is dropped, and a
buffer that has grown beyond its window gives up its first chunk out of turn.

The consumer reads a message only when the chunk it expects is not buffered. At that moment the
expected number is the smallest one that has not been received, and the buffer holds just the
received numbers beyond it (`Ordered`), so the window bounds exactly the arrivals that a stream may
have ahead of a gap.

## Main definitions

* `StreamChunk.encodeWire`, `StreamChunk.decodeWire` — the wire format.
* `DataStreamConsumer.recvOrdered` — the consumer.
* `Complete`, `Within` — the arrivals of a whole stream, and their distance from order.
* `Ordered` — what a consumer holds between two calls.

## Main results

* `recvOrdered_spec` — one call.
* `recvOrdered_complete` — every number once and in order.
-/

namespace MqttEngine.Tokio

/-! ## Wire format -/

/-- `put_u64`. -/
def putU64 (x : UInt64) : List UInt8 :=
  [7, 6, 5, 4, 3, 2, 1, 0].map fun i => UInt8.ofNat (x.toNat / 256 ^ i)

/-- `get_u64`, of the eight bytes at the front. -/
def getU64 (data : List UInt8) : UInt64 :=
  UInt64.ofNat ((data.take 8).foldl (fun acc b => 256 * acc + b.toNat) 0)

@[simp] theorem length_putU64 (x : UInt64) : (putU64 x).length = 8 := rfl

@[simp] theorem getU64_putU64 (x : UInt64) (rest : List UInt8) : getU64 (putU64 x ++ rest) = x := by
  have hx := x.toNat_lt
  -- One more byte: the front of the number grows by a digit to the base 256.
  have hfirst : 256 * 0 + x.toNat / 256 ^ 7 % 2 ^ 8 = x.toNat / 256 ^ 7 := by omega
  have hnext (i : ℕ) :
      256 * (x.toNat / 256 ^ (i + 1)) + x.toNat / 256 ^ i % 2 ^ 8 = x.toNat / 256 ^ i := by
    rw [pow_succ, ← Nat.div_div_eq_div_mul]
    exact Nat.div_add_mod _ _
  apply UInt64.toNat_inj.mp
  simp only [getU64, putU64, List.map_cons, List.map_nil, List.cons_append, List.nil_append,
    List.take_succ_cons, List.take_zero, List.foldl_cons, List.foldl_nil, UInt64.toNat_ofNat',
    UInt8.toNat_ofNat']
  rw [hfirst, hnext 6, hnext 5, hnext 4, hnext 3, hnext 2, hnext 1, hnext 0, pow_zero, Nat.div_one,
    Nat.mod_eq_of_lt hx]

/-- `StreamChunk`. -/
structure StreamChunk where
  seqId : UInt64
  timestampNs : UInt64
  topic : String
  payload : List UInt8
  isRecovery : Bool
  deriving DecidableEq

/-- `encode_wire`. -/
def StreamChunk.encodeWire (self : StreamChunk) : List UInt8 :=
  putU64 self.seqId ++ putU64 self.timestampNs ++ self.payload

/-- The chunk in a payload; one too short for the two numbers has no sequence number. -/
def StreamChunk.ofWire (topic : String) (data : List UInt8) : StreamChunk :=
  if data.length < 16 then
    { seqId := 0, timestampNs := 0, topic, payload := data, isRecovery := false }
  else
    { seqId := getU64 data, timestampNs := getU64 (data.drop 8), topic
      payload := data.drop 16, isRecovery := false }

/-- `decode_wire`, which returns no error. -/
def StreamChunk.decodeWire {E : Type} (topic : String) (data : List UInt8) :
    Except (ClientError E) StreamChunk := .ok (ofWire topic data)

/-- What is encoded is decoded, less the mark of a recovery. -/
theorem StreamChunk.ofWire_encodeWire (chunk : StreamChunk) :
    ofWire chunk.topic chunk.encodeWire = { chunk with isRecovery := false } := by
  have hdrop : chunk.encodeWire.drop 8 = putU64 chunk.timestampNs ++ chunk.payload := by
    rw [encodeWire, List.append_assoc, List.drop_left' (length_putU64 _)]
  have hrest : chunk.encodeWire.drop 16 = chunk.payload := by
    rw [← List.drop_drop (i := 8) (j := 8), hdrop, List.drop_left' (length_putU64 _)]
  have hlength : ¬ chunk.encodeWire.length < 16 := by
    simp [encodeWire]
    omega
  rw [ofWire, if_neg hlength, hdrop, hrest, getU64_putU64, encodeWire, List.append_assoc,
    getU64_putU64]

/-! ## The consumer -/

/-- `DataStreamConsumer`, over the messages that its subscription still receives before it is
closed. -/
structure DataStreamConsumer where
  subscription : List PublishMessage
  expectedSeq : UInt64
  reorderBuffer : Std.TreeMap UInt64 StreamChunk
  maxReorderWindow : ℕ

namespace DataStreamConsumer
variable {E : Type}

/-- `DataStreamConsumer::new`. -/
def new (subscription : List PublishMessage) (maxReorderWindow : ℕ) : DataStreamConsumer :=
  { subscription, expectedSeq := 1, reorderBuffer := ∅, maxReorderWindow }

/-- `self.expected_seq = seq + 1`, which overflows after the last number. -/
def expectAfter (seq : UInt64) : EStateM (Fault (ClientError E)) DataStreamConsumer Unit :=
  if seq.toNat + 1 < 2 ^ 64 then modify fun self => { self with expectedSeq := seq + 1 }
  else throw .panic

/-- The loop of `recv_ordered`, over the messages that the subscription still receives. -/
def recvLoop : List PublishMessage →
    EStateM (Fault (ClientError E)) DataStreamConsumer (Option StreamChunk)
  | [] => return none
  | msg :: rest => do
    modify fun self => { self with subscription := rest }
    match StreamChunk.decodeWire msg.topic msg.payload with
    | .error e => throw (.err e)
    | .ok chunk =>
      if chunk.seqId = 0 then return some chunk
      else
        let self ← get
        if chunk.seqId = self.expectedSeq then
          expectAfter self.expectedSeq
          return some chunk
        else if self.expectedSeq < chunk.seqId then
          let reorderBuffer := self.reorderBuffer.insert chunk.seqId chunk
          set { self with reorderBuffer }
          if self.maxReorderWindow < reorderBuffer.size then
            -- The window is exceeded: the smallest chunk is forced out.
            match reorderBuffer.minEntry? with
            | some (firstKey, popped) =>
              set { self with reorderBuffer := reorderBuffer.erase firstKey }
              expectAfter popped.seqId
              return some popped
            | none => recvLoop rest
          else recvLoop rest
        else recvLoop rest

/-- `recv_ordered`. -/
def recvOrdered : EStateM (Fault (ClientError E)) DataStreamConsumer (Option StreamChunk) := do
  let self ← get
  match self.reorderBuffer[self.expectedSeq]? with
  | some chunk =>
    set { self with reorderBuffer := self.reorderBuffer.erase self.expectedSeq }
    expectAfter self.expectedSeq
    return some chunk
  | none => recvLoop self.subscription

/-- What the first calls return. -/
def results (self : DataStreamConsumer) (calls : ℕ) :
    List (Checked (ClientError E) (Option StreamChunk)) :=
  (Machine.run (fun self (_ : Unit) => outcome recvOrdered self) self (List.replicate calls ())).1

end DataStreamConsumer

/-! ## Arrivals -/

/-- The sequence number of a message. -/
def sequenceNumber (msg : PublishMessage) : ℕ :=
  (StreamChunk.ofWire msg.topic msg.payload).seqId.toNat

/-- The arrivals of a stream of `n` chunks: each number is among them, and no other. -/
def Complete (n : ℕ) (arrivals : List PublishMessage) : Prop :=
  ∀ k, k ∈ arrivals.map sequenceNumber ↔ 1 ≤ k ∧ k ≤ n

/-- The distinct numbers received that lie beyond `e`. -/
def beyond (e : ℕ) (received : List PublishMessage) : Finset ℕ :=
  (received.map sequenceNumber).toFinset.filter (e < ·)

/-- At every point at most `w` received numbers lie beyond the smallest one that is missing. -/
def Within (w : ℕ) (arrivals : List PublishMessage) : Prop :=
  ∀ received rest, arrivals = received ++ rest →
    ∀ e, IsLeast { k | 1 ≤ k ∧ k ∉ received.map sequenceNumber } e → (beyond e received).card ≤ w

namespace DataStreamConsumer

/-! ## Maps of chunks -/

section
variable {reorderBuffer : Std.TreeMap UInt64 StreamChunk}

theorem mem_keys_toNat {β : Type} {t : Std.TreeMap UInt64 β} {k : ℕ} :
    k ∈ (t.keys.map UInt64.toNat).toFinset ↔ ∃ key ∈ t, key.toNat = k := by
  rw [List.mem_toFinset, List.mem_map]
  simp only [Std.TreeMap.mem_keys]

/-- A map is as long as it has keys. -/
theorem card_keys {β : Type} (t : Std.TreeMap UInt64 β) :
    (t.keys.map UInt64.toNat).toFinset.card = t.size := by
  rw [List.toFinset_card_of_nodup, List.length_map, Std.TreeMap.length_keys]
  exact Std.TreeMap.nodup_keys.map fun _ _ => UInt64.toNat_inj.mp

theorem size_erase_of_mem {β : Type} {t : Std.TreeMap UInt64 β} {k : UInt64} (hk : k ∈ t) :
    (t.erase k).size + 1 = t.size := by
  have hpos : 0 < t.keys.length := List.length_pos_of_mem (Std.TreeMap.mem_keys.mpr hk)
  rw [Std.TreeMap.length_keys] at hpos
  rw [Std.TreeMap.size_erase, if_pos (Std.TreeMap.mem_iff_contains.mp hk)]
  omega

theorem keyed_insert
    (h : ∀ k (chunk : StreamChunk), reorderBuffer[k]? = some chunk → chunk.seqId = k)
    {chunk : StreamChunk} (k : UInt64) (other : StreamChunk)
    (hother : (reorderBuffer.insert chunk.seqId chunk)[k]? = some other) : other.seqId = k := by
  rw [Std.TreeMap.getElem?_insert] at hother
  split at hother
  · rename_i heq
    cases hother
    exact Std.LawfulEqCmp.eq_of_compare heq
  · exact h k other hother

theorem keyed_erase
    (h : ∀ k (chunk : StreamChunk), reorderBuffer[k]? = some chunk → chunk.seqId = k)
    {erased : UInt64} (k : UInt64) (other : StreamChunk)
    (hother : (reorderBuffer.erase erased)[k]? = some other) : other.seqId = k := by
  rw [Std.TreeMap.getElem?_erase] at hother
  split at hother
  · cases hother
  · exact h k other hother

end

variable {E : Type} {consumer : DataStreamConsumer} {n e : ℕ}
  {received arrivals : List PublishMessage}

/-! ## Between two calls -/

/-- The consumer has received some of the arrivals and yielded the numbers below `e`: what it still
holds are the received numbers from `e` on, each under its own number. -/
structure Ordered (arrivals : List PublishMessage) (consumer : DataStreamConsumer)
    (received : List PublishMessage) (e : ℕ) : Prop where
  /-- The window is wide enough. -/
  within : Within consumer.maxReorderWindow arrivals
  /-- The messages are received in their order. -/
  arrivals : arrivals = received ++ consumer.subscription
  /-- The numbers start at one. -/
  pos : 1 ≤ e
  /-- The number of the next chunk. -/
  expected : consumer.expectedSeq.toNat = e
  /-- The numbers below it have been received. -/
  below : ∀ k, 1 ≤ k → k < e → k ∈ received.map sequenceNumber
  /-- The received numbers from it on are buffered. -/
  buffered : ∀ k, k ∈ consumer.reorderBuffer ↔ k.toNat ∈ received.map sequenceNumber ∧ e ≤ k.toNat
  /-- A chunk is buffered under its number. -/
  keyed : ∀ k (chunk : StreamChunk), consumer.reorderBuffer[k]? = some chunk → chunk.seqId = k

theorem ordered_new {w : ℕ} (hwithin : Within w arrivals) :
    Ordered arrivals (new arrivals w) [] 1 where
  within := hwithin
  arrivals := rfl
  pos := le_rfl
  expected := rfl
  below := by omega
  buffered := by simp [new]
  keyed := by simp [new]

namespace Ordered

/-- While the expected number has not been received, it is the smallest one. -/
theorem isLeast (h : Ordered arrivals consumer received e)
    (hnew : e ∉ received.map sequenceNumber) :
    IsLeast { k | 1 ≤ k ∧ k ∉ received.map sequenceNumber } e := by
  refine ⟨⟨h.pos, hnew⟩, fun k hk => ?_⟩
  by_contra hlt
  exact hk.2 (h.below k hk.1 (by omega))

/-- The buffer is as long as there are received numbers beyond the expected one. -/
theorem size (h : Ordered arrivals consumer received e) (hnew : e ∉ received.map sequenceNumber) :
    consumer.reorderBuffer.size = (beyond e received).card := by
  rw [← card_keys]
  congr 1
  ext k
  rw [mem_keys_toNat, beyond, Finset.mem_filter, List.mem_toFinset]
  constructor
  · rintro ⟨key, hkey, rfl⟩
    have hbuffered := (h.buffered key).mp hkey
    have hne : key.toNat ≠ e := fun heq => hnew (heq ▸ hbuffered.1)
    exact ⟨hbuffered.1, by omega⟩
  · intro hk
    obtain ⟨msg, hmsg, rfl⟩ := List.mem_map.mp hk.1
    exact ⟨_, (h.buffered _).mpr ⟨hk.1, hk.2.le⟩, rfl⟩

/-- A message that is not newer than what is expected changes nothing. -/
theorem receive_old {msg : PublishMessage} {rest : List PublishMessage}
    (h : Ordered arrivals consumer received e) (hrest : consumer.subscription = msg :: rest)
    (hold : sequenceNumber msg < e) :
    Ordered arrivals { consumer with subscription := rest } (received ++ [msg]) e where
  within := h.within
  arrivals := by simp [h.arrivals, hrest]
  pos := h.pos
  expected := h.expected
  below k hk hlt := by simpa using .inl (by simpa using h.below k hk hlt)
  buffered k := by
    rw [List.map_append, List.mem_append, h.buffered]
    constructor
    · exact fun hk => ⟨.inl hk.1, hk.2⟩
    · rintro ⟨hk | hk, hle⟩
      · exact ⟨hk, hle⟩
      · rw [List.map_singleton, List.mem_singleton] at hk
        omega
  keyed := h.keyed

/-- The expected message is yielded. -/
theorem receive_expected {msg : PublishMessage} {rest : List PublishMessage}
    (h : Ordered arrivals consumer received e) (hrest : consumer.subscription = msg :: rest)
    (hnew : e ∉ received.map sequenceNumber) (heq : sequenceNumber msg = e) {next : UInt64}
    (hnext : next.toNat = e + 1) :
    Ordered arrivals { consumer with subscription := rest, expectedSeq := next }
      (received ++ [msg]) (e + 1) where
  within := h.within
  arrivals := by simp [h.arrivals, hrest]
  pos := by omega
  expected := hnext
  below k hk hlt := by
    rw [List.map_append, List.mem_append, List.map_singleton, List.mem_singleton, heq]
    by_cases hke : k = e
    · exact .inr hke
    · exact .inl (h.below k hk (by omega))
  buffered k := by
    rw [List.map_append, List.mem_append, List.map_singleton, List.mem_singleton, heq, h.buffered]
    constructor
    · rintro ⟨hk, hle⟩
      have hne : k.toNat ≠ e := fun heq => hnew (heq ▸ hk)
      exact ⟨.inl hk, by omega⟩
    · rintro ⟨hk | hk, hle⟩
      · exact ⟨hk, by omega⟩
      · omega
  keyed := h.keyed

/-- A message beyond the expected one is buffered. -/
theorem receive_beyond {msg : PublishMessage} {rest : List PublishMessage}
    (h : Ordered arrivals consumer received e) (hrest : consumer.subscription = msg :: rest)
    (hlt : e < sequenceNumber msg) {chunk : StreamChunk}
    (hchunk : chunk.seqId.toNat = sequenceNumber msg) :
    Ordered arrivals { consumer with
      subscription := rest
      reorderBuffer := consumer.reorderBuffer.insert chunk.seqId chunk } (received ++ [msg]) e where
  within := h.within
  arrivals := by simp [h.arrivals, hrest]
  pos := h.pos
  expected := h.expected
  below k hk hlt := by simpa using .inl (by simpa using h.below k hk hlt)
  buffered k := by
    rw [List.map_append, List.mem_append, List.map_singleton, List.mem_singleton,
      Std.TreeMap.mem_insert, Std.LawfulEqCmp.compare_eq_iff_eq, h.buffered, ← hchunk,
      UInt64.toNat_inj]
    constructor
    · rintro (rfl | hk)
      · exact ⟨.inr rfl, by omega⟩
      · exact ⟨.inl hk.1, hk.2⟩
    · rintro ⟨hk | rfl, hle⟩
      · exact .inr ⟨hk, hle⟩
      · exact .inl rfl
  keyed := keyed_insert h.keyed

/-- No chunk is forced out while the expected one is missing. -/
theorem size_le (h : Ordered arrivals consumer received e)
    (hnew : e ∉ received.map sequenceNumber) :
    consumer.reorderBuffer.size ≤ consumer.maxReorderWindow := by
  rw [h.size hnew]
  exact h.within received consumer.subscription h.arrivals e (h.isLeast hnew)

/-- A buffered chunk is yielded. -/
theorem take (h : Ordered arrivals consumer received e) {next : UInt64}
    (hnext : next.toNat = e + 1) (he : e ∈ received.map sequenceNumber) :
    Ordered arrivals { consumer with
      reorderBuffer := consumer.reorderBuffer.erase consumer.expectedSeq
      expectedSeq := next } received (e + 1) where
  within := h.within
  arrivals := h.arrivals
  pos := by omega
  expected := hnext
  below k hk hlt := by
    by_cases hke : k = e
    · exact hke ▸ he
    · exact h.below k hk (by omega)
  buffered k := by
    rw [Std.TreeMap.mem_erase, h.buffered, ne_eq, Std.LawfulEqCmp.compare_eq_iff_eq,
      ← UInt64.toNat_inj, h.expected]
    constructor
    · exact fun hk => ⟨hk.2.1, by omega⟩
    · exact fun hk => ⟨by omega, hk.1, by omega⟩
  keyed := keyed_erase h.keyed

end Ordered

/-! ## Calls -/

/-- How a call ends that expects the number `e` of `n`. -/
inductive Yields (arrivals : List PublishMessage) (n e : ℕ) :
    Checked (ClientError E) (Option StreamChunk) × DataStreamConsumer → Prop
  /-- With the chunk of that number. -/
  | chunk {chunk : StreamChunk} {consumer : DataStreamConsumer} {received : List PublishMessage}
      (hle : e ≤ n) (hnext : e + 1 < 2 ^ 64) (hseq : chunk.seqId.toNat = e)
      (h : Ordered arrivals consumer received (e + 1)) : Yields arrivals n e (.ok (some chunk), consumer)
  /-- In the overflow of the counter. -/
  | overflow {consumer : DataStreamConsumer} (hle : e ≤ n) (hnext : ¬ e + 1 < 2 ^ 64) :
      Yields arrivals n e (.error .panic, consumer)
  /-- With nothing, at the end of the stream. -/
  | closed {consumer : DataStreamConsumer} {received : List PublishMessage} (hlt : n < e)
      (h : Ordered arrivals consumer received e) : Yields arrivals n e (.ok none, consumer)

theorem toNat_succ {seq : UInt64} (hnext : seq.toNat + 1 < 2 ^ 64) :
    (seq + 1).toNat = seq.toNat + 1 := by
  rw [UInt64.toNat_add, show (1 : UInt64).toNat = 1 from rfl, Nat.mod_eq_of_lt hnext]

theorem outcome_expectAfter {seq : UInt64} {chunk : StreamChunk} :
    outcome (expectAfter (E := E) seq >>= fun _ => pure (some chunk)) consumer =
      if seq.toNat + 1 < 2 ^ 64 then (.ok (some chunk), { consumer with expectedSeq := seq + 1 })
      else (.error .panic, consumer) := by
  unfold expectAfter
  split <;> rfl

/-- The loop, while the expected number has not been received. -/
theorem recvLoop_spec (hcomplete : Complete n arrivals) {rest : List PublishMessage}
    (h : Ordered arrivals consumer received e) (hrest : consumer.subscription = rest)
    (hnew : e ∉ received.map sequenceNumber) :
    Yields arrivals n e (outcome (recvLoop (E := E) rest) consumer) := by
  induction rest generalizing consumer received with
  | nil =>
    have harrivals : arrivals = received := by
      simpa [hrest] using h.arrivals
    refine .closed ?_ h
    by_contra hle
    exact hnew (harrivals ▸ (hcomplete e).mpr ⟨h.pos, by omega⟩)
  | cons msg rest ih =>
    have hmem : sequenceNumber msg ∈ arrivals.map sequenceNumber := by
      simp [h.arrivals, hrest]
    have hrange := (hcomplete _).mp hmem
    have hseq : (StreamChunk.ofWire msg.topic msg.payload).seqId.toNat = sequenceNumber msg := rfl
    simp only [recvLoop, StreamChunk.decodeWire, outcome_modify]
    generalize StreamChunk.ofWire msg.topic msg.payload = chunk at hseq
    have hzero : chunk.seqId ≠ 0 := by
      intro hzero
      rw [hzero, UInt64.toNat_zero] at hseq
      omega
    rw [if_neg hzero, outcome_get]
    by_cases heq : chunk.seqId = consumer.expectedSeq
    · -- The expected message.
      have he : sequenceNumber msg = e := by
        rw [← hseq, heq, h.expected]
      rw [if_pos heq, ← heq, outcome_expectAfter, hseq, he]
      by_cases hnext : e + 1 < 2 ^ 64
      · rw [if_pos hnext]
        refine .chunk (he ▸ hrange.2) hnext (hseq.trans he) (h.receive_expected hrest hnew he ?_)
        rw [toNat_succ (by omega), hseq, he]
      · rw [if_neg hnext]
        exact .overflow (he ▸ hrange.2) hnext
    · rw [if_neg heq]
      have hne : sequenceNumber msg ≠ e := by
        rw [← hseq, ← h.expected]
        exact fun heq' => heq (UInt64.toNat_inj.mp heq')
      have hmissing : e ∉ (received ++ [msg]).map sequenceNumber := by
        simp [hnew, hne.symm]
      by_cases hlt : consumer.expectedSeq < chunk.seqId
      · -- A message beyond the expected one; the window has room for it.
        have hbeyond : e < sequenceNumber msg := by
          rw [← hseq, ← h.expected]
          exact UInt64.lt_iff_toNat_lt.mp hlt
        have hinsert := h.receive_beyond hrest hbeyond hseq
        have hroom := hinsert.size_le hmissing
        rw [if_pos hlt, outcome_set, if_neg (by simpa using hroom)]
        exact ih hinsert rfl hmissing
      · -- A duplicate.
        have hold : sequenceNumber msg < e := by
          rw [UInt64.lt_iff_toNat_lt, hseq, h.expected] at hlt
          omega
        rw [if_neg hlt]
        exact ih (h.receive_old hrest hold) rfl hmissing

/-- **One call.** The expected chunk is yielded, or the stream is at its end. -/
theorem recvOrdered_spec (hcomplete : Complete n arrivals)
    (h : Ordered arrivals consumer received e) :
    Yields arrivals n e (outcome (recvOrdered (E := E)) consumer) := by
  rw [recvOrdered, outcome_get]
  cases hbuffer : consumer.reorderBuffer[consumer.expectedSeq]? with
  | none =>
    refine recvLoop_spec hcomplete h rfl fun he => ?_
    have hmem := (h.buffered consumer.expectedSeq).mpr ⟨h.expected.symm ▸ he, h.expected.ge⟩
    rw [Std.TreeMap.mem_iff_isSome_getElem?, hbuffer] at hmem
    cases hmem
  | some chunk =>
    have hmem : consumer.expectedSeq ∈ consumer.reorderBuffer := by
      rw [Std.TreeMap.mem_iff_isSome_getElem?, hbuffer]
      rfl
    have he : e ∈ received.map sequenceNumber := h.expected ▸ ((h.buffered _).mp hmem).1
    have hrange : e ≤ n := by
      refine ((hcomplete e).mp ?_).2
      rw [h.arrivals, List.map_append, List.mem_append]
      exact .inl he
    simp only [outcome_set, outcome_expectAfter, h.expected]
    by_cases hnext : e + 1 < 2 ^ 64
    · rw [if_pos hnext]
      refine .chunk hrange hnext (h.keyed _ chunk hbuffer ▸ h.expected) (h.take ?_ he)
      rw [toNat_succ (by rw [h.expected]; exact hnext), h.expected]
    · rw [if_neg hnext]
      exact .overflow hrange hnext

/-! ## Runs -/

/-- The sequence number of what a call returns. -/
def numbered (result : Checked (ClientError E) (Option StreamChunk)) :
    Checked (ClientError E) (Option ℕ) :=
  result.map (Option.map fun chunk => chunk.seqId.toNat)

/-- However often the consumer is called, it yields the numbers from 1 to `n` in order, each once,
and then nothing. -/
def Delivers (E : Type) (n w : ℕ) (arrivals : List PublishMessage) : Prop :=
  ∀ calls, (results (E := E) (new arrivals w) calls).map numbered =
    (List.range calls).map fun i => .ok (if i < n then some (i + 1) else none)

theorem results_succ (consumer : DataStreamConsumer) (calls : ℕ) :
    results (E := E) consumer (calls + 1) =
      (outcome recvOrdered consumer).1 :: results (outcome (recvOrdered (E := E)) consumer).2 calls := by
  rw [results, List.replicate_succ, Machine.run_cons]
  rfl

/-- The calls from the number `e` on. -/
theorem results_spec (hcomplete : Complete n arrivals) (hn : n + 1 < 2 ^ 64)
    (h : Ordered arrivals consumer received e) (calls : ℕ) :
    (results (E := E) consumer calls).map numbered =
      (List.range calls).map fun i => .ok (if e + i ≤ n then some (e + i) else none) := by
  induction calls generalizing consumer received e with
  | zero => rfl
  | succ calls ih =>
    have hcall := recvOrdered_spec (E := E) hcomplete h
    rw [results_succ, List.range_succ_eq_map, List.map_cons, List.map_cons, List.map_map]
    generalize outcome (recvOrdered (E := E)) consumer = call at hcall
    cases hcall with
    | chunk hle hnext hseq h' =>
      rw [ih h']
      simp [numbered, Except.map, hle, hseq, Nat.add_assoc, Nat.add_comm 1]
    | overflow hle hnext => omega
    | closed hlt h' =>
      rw [ih h']
      have hnone : ∀ i, ¬ e + i ≤ n := by omega
      simp only [numbered, Except.map, hnone, if_false, Option.map_none, Function.comp_def]

/-- **A stream is delivered completely and in order.** Its last number leaves room for the counter,
which is one ahead. -/
theorem recvOrdered_complete (E : Type) {n w : ℕ} {arrivals : List PublishMessage}
    (hn : n < 2 ^ 64 - 1) (hcomplete : Complete n arrivals) (hwithin : Within w arrivals) :
    Delivers E n w arrivals := by
  intro calls
  rw [results_spec hcomplete (by omega) (ordered_new hwithin)]
  simp only [Nat.add_comm 1, Nat.succ_le_iff]

/-- The message that carries a chunk of the given number. -/
def numberedMessage (k : ℕ) : PublishMessage :=
  .new "t" (StreamChunk.encodeWire
    { seqId := UInt64.ofNat k, timestampNs := 0, topic := "t", payload := [], isRecovery := false })

theorem sequenceNumber_numberedMessage {k : ℕ} (hk : k < 2 ^ 64) :
    sequenceNumber (numberedMessage k) = k := by
  have hwire := StreamChunk.ofWire_encodeWire
    { seqId := UInt64.ofNat k, timestampNs := 0, topic := "t", payload := [], isRecovery := false }
  rw [sequenceNumber, numberedMessage, PublishMessage.new, hwire, UInt64.toNat_ofNat',
    Nat.mod_eq_of_lt hk]

/-- No more numbers can lie ahead than there are. -/
theorem within_of_complete (hcomplete : Complete n arrivals) : Within (n - 1) arrivals := by
  intro received rest harrivals e he
  have hsub : beyond e received ⊆ Finset.Ioc 1 n := by
    intro k hk
    rw [beyond, Finset.mem_filter, List.mem_toFinset] at hk
    have hmem : k ∈ arrivals.map sequenceNumber := by
      rw [harrivals, List.map_append, List.mem_append]
      exact .inl hk.1
    have hrange := (hcomplete k).mp hmem
    have hpos : 1 ≤ e := he.1.1
    rw [Finset.mem_Ioc]
    omega
  calc (beyond e received).card ≤ (Finset.Ioc 1 n).card := Finset.card_le_card hsub
    _ = n - 1 := Nat.card_Ioc 1 n

/-- Three chunks of which the last arrives first, and twice. -/
theorem recvOrdered_complete_three :
    Delivers Empty 3 2 ([3, 2, 3, 1].map numberedMessage) := by
  have hnumbers : ([3, 2, 3, 1].map numberedMessage).map sequenceNumber = [3, 2, 3, 1] := by
    simp [sequenceNumber_numberedMessage]
  have hcomplete : Complete 3 ([3, 2, 3, 1].map numberedMessage) := by
    intro k
    rw [hnumbers]
    simp
    omega
  exact recvOrdered_complete Empty (by decide) hcomplete (within_of_complete hcomplete)

/-- The calls from the number `e` on end in a panic, when the last number is the greatest one. -/
theorem results_panic (hcomplete : Complete (2 ^ 64 - 1) arrivals)
    (h : Ordered arrivals consumer received e) {calls : ℕ} (hcalls : e + calls = 2 ^ 64 - 1) :
    (results (E := E) consumer (calls + 1))[calls]? = some (.error .panic) := by
  induction calls generalizing consumer received e with
  | zero =>
    have hcall := recvOrdered_spec (E := E) hcomplete h
    rw [results_succ]
    generalize outcome (recvOrdered (E := E)) consumer = call at hcall
    cases hcall with
    | chunk hle hnext hseq h' => omega
    | overflow hle hnext => rfl
    | closed hlt h' => omega
  | succ calls ih =>
    have hcall := recvOrdered_spec (E := E) hcomplete h
    rw [results_succ, List.getElem?_cons_succ]
    generalize outcome (recvOrdered (E := E)) consumer = call at hcall
    cases hcall with
    | chunk hle hnext hseq h' => exact ih h' (by omega)
    | overflow hle hnext => omega
    | closed hlt h' => omega

/-- The arrivals in order. -/
def inOrder (n : ℕ) : List PublishMessage := (List.range' 1 n).map numberedMessage

theorem sequenceNumber_inOrder (hn : n < 2 ^ 64) :
    (inOrder n).map sequenceNumber = List.range' 1 n := by
  rw [inOrder, List.map_map]
  calc (List.range' 1 n).map (sequenceNumber ∘ numberedMessage) = (List.range' 1 n).map id := by
        refine List.map_congr_left fun k hk => ?_
        rw [List.mem_range'_1] at hk
        exact sequenceNumber_numberedMessage (by omega)
    _ = List.range' 1 n := List.map_id _

theorem complete_inOrder (hn : n < 2 ^ 64) : Complete n (inOrder n) := by
  intro k
  rw [sequenceNumber_inOrder hn, List.mem_range'_1]
  omega

/-- Nothing lies ahead of a gap. -/
theorem within_inOrder (hn : n < 2 ^ 64) : Within 0 (inOrder n) := by
  intro received rest harrivals e he
  have hnumbers := congrArg (List.map sequenceNumber) harrivals
  rw [sequenceNumber_inOrder hn, List.map_append, List.range'_eq_append_iff] at hnumbers
  obtain ⟨j, -, hreceived, -⟩ := hnumbers
  have hmissing := he.1
  simp only [Set.mem_ofPred_eq, hreceived, List.mem_range'_1] at hmissing
  have hempty : beyond e received = ∅ := by
    rw [beyond, hreceived, Finset.filter_eq_empty_iff]
    intro k hk
    rw [List.mem_toFinset, List.mem_range'_1] at hk
    omega
  simp [hempty]

/-- The counter overflows with the greatest number. -/
theorem recvOrdered_overflow :
    Complete (2 ^ 64 - 1) (inOrder (2 ^ 64 - 1)) ∧ Within 0 (inOrder (2 ^ 64 - 1)) ∧
      ¬ Delivers Empty (2 ^ 64 - 1) 0 (inOrder (2 ^ 64 - 1)) := by
  have hcomplete : Complete (2 ^ 64 - 1) (inOrder (2 ^ 64 - 1)) := complete_inOrder (by decide)
  have hwithin : Within 0 (inOrder (2 ^ 64 - 1)) := within_inOrder (by decide)
  refine ⟨hcomplete, hwithin, fun hdelivers => ?_⟩
  have hpanic := results_panic (E := Empty) hcomplete (ordered_new hwithin)
    (show 1 + (2 ^ 64 - 2) = 2 ^ 64 - 1 by omega)
  have hresult := congrArg (·[2 ^ 64 - 2]?) (hdelivers (2 ^ 64 - 2 + 1))
  simp only [List.getElem?_map, hpanic, List.getElem?_range (show 2 ^ 64 - 2 < 2 ^ 64 - 2 + 1 by omega),
    Option.map_some, numbered, Except.map, Option.some.injEq, reduceCtorEq] at hresult

end DataStreamConsumer

end MqttEngine.Tokio
