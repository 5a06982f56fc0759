import MqttEngine.Lib.BoundedVec
import MqttEngine.Lib.Checked
import MqttEngine.Lib.Effect
import MqttEngine.Lib.Keyed
import MqttEngine.Lib.Machine
import Mathlib.Data.List.GetD

/-!
# The in-memory store

`StaticMemStore` of `mem.rs`: keys and values in two vectors of bounded capacity, where the value
of a key stands at the position of the key. A removal swaps the last key and the last value into
the place of the removed ones, so the two vectors stay aligned while their order changes.

What the store is for is a finite map from keys to values, of bounded capacity (`MemMap`). The two
vectors are the two halves of one list of pairs, and every operation on both halves is an operation
on that list.

## Main definitions

* `StaticMemStore`, with the operations of the source.
* `MemMap` — the map that the store stands for.
* `StaticMemStore.Represents` — the two vectors are the halves of a list of the map's pairs.

## Main results

* `StaticMemStore.simulates` — the store simulates the map.
* `StaticMemStore.store_refines` — in every run.
-/

namespace MqttEngine.Storage

/-- `MemStorageError`. -/
inductive MemStorageError
  | keyNotFound
  | capacityFull
  | bufferTooSmall
  deriving DecidableEq, Repr

/-- `StaticMemStore<MAX_ENTRIES, MAX_KEY_LEN, MAX_VAL_LEN>`. -/
@[ext] structure StaticMemStore (maxEntries maxKeyLen maxValLen : ℕ) where
  keys : BoundedVec (BoundedVec UInt8 maxKeyLen) maxEntries
  values : BoundedVec (BoundedVec UInt8 maxValLen) maxEntries

/-- `o.ok_or(e)?`, or the panic of an index that is out of bounds. -/
def orFault {σ α : Type} (o : Option α) (e : Fault MemStorageError) :
    EStateM (Fault MemStorageError) σ α :=
  match o with
  | some a => pure a
  | none => throw e

section
variable {σ α β : Type} {f : α → EStateM (Fault MemStorageError) σ β} {s : σ}
  {e : Fault MemStorageError}

@[simp] theorem outcome_orFault_some (a : α) :
    outcome (orFault (some a) e >>= f) s = outcome (f a) s := rfl

@[simp] theorem outcome_orFault_none :
    outcome (orFault none e >>= f) s = (.error e, s) := rfl

end

namespace StaticMemStore
variable {maxEntries maxKeyLen maxValLen : ℕ}

/-- `StaticMemStore::new`. -/
def new : StaticMemStore maxEntries maxKeyLen maxValLen := { keys := .empty, values := .empty }

/-- `self.keys.iter().position(|entry| entry.as_slice() == key)`. -/
def position (self : StaticMemStore maxEntries maxKeyLen maxValLen) (key : List UInt8) : Option ℕ :=
  self.keys.toList.findIdx? fun entry => entry.toList = key

/-- `persist`. -/
def persist (key value : List UInt8) :
    EStateM (Fault MemStorageError) (StaticMemStore maxEntries maxKeyLen maxValLen) Unit := do
  let k ← orFault (BoundedVec.ofSlice key) (.err .bufferTooSmall)
  let v ← orFault (BoundedVec.ofSlice value) (.err .bufferTooSmall)
  let self ← get
  match self.position key with
  | some idx =>
    let values ← orFault (self.values.set? idx v) .panic
    set { self with values }
  | none =>
    if self.keys.toList.length = maxEntries then throw (.err .capacityFull)
    else
      -- The results of the two pushes are ignored.
      set { keys := (self.keys.push k).getD self.keys,
            values := (self.values.push v).getD self.values : StaticMemStore _ _ _ }

/-- `load`, as a program on `out_buf`. -/
def load (self : StaticMemStore maxEntries maxKeyLen maxValLen) (key : List UInt8) :
    EStateM (Fault MemStorageError) (List UInt8) (Option ℕ) := do
  match self.position key with
  | some idx =>
    let val ← orFault self.values.toList[idx]? .panic
    let outBuf ← get
    if outBuf.length < val.toList.length then throw (.err .bufferTooSmall)
    else
      set (val.toList ++ outBuf.drop val.toList.length)
      return some val.toList.length
  | none => return none

/-- `remove`. -/
def remove (key : List UInt8) :
    EStateM (Fault MemStorageError) (StaticMemStore maxEntries maxKeyLen maxValLen) Unit := do
  let self ← get
  match self.position key with
  | some idx =>
    let keys ← orFault (self.keys.swapRemove? idx) .panic
    set { self with keys }
    let values ← orFault (self.values.swapRemove? idx) .panic
    set { keys, values : StaticMemStore _ _ _ }
  | none => throw (.err .keyNotFound)

/-- `clear`. -/
def clear (_self : StaticMemStore maxEntries maxKeyLen maxValLen) :
    StaticMemStore maxEntries maxKeyLen maxValLen := new

end StaticMemStore

/-- A call to the store. -/
inductive MemCall
  | persist (key value : List UInt8)
  | load (key outBuf : List UInt8)
  | remove (key : List UInt8)
  | clear

/-- What a call returns; a `load` also leaves its buffer. -/
inductive MemAnswer
  | done (result : Checked MemStorageError Unit)
  | loaded (result : Checked MemStorageError (Option ℕ)) (outBuf : List UInt8)

/-- A call, with its answer. -/
def StaticMemStore.call {maxEntries maxKeyLen maxValLen : ℕ}
    (self : StaticMemStore maxEntries maxKeyLen maxValLen) :
    MemCall → MemAnswer × StaticMemStore maxEntries maxKeyLen maxValLen
  | .persist key value => ((outcome (persist key value) self).map .done id)
  | .load key outBuf =>
    (.loaded (outcome (self.load key) outBuf).1 (outcome (self.load key) outBuf).2, self)
  | .remove key => ((outcome (remove key) self).map .done id)
  | .clear => (.done (.ok ()), self.clear)

/-! ## The map -/

/-- What the store stands for: a finite map from keys to values. -/
abbrev MemMap := List UInt8 → Option (List UInt8)

namespace MemMap

/-- The map without keys. -/
def empty : MemMap := fun _ => none

/-- The keys that are present. -/
def present (m : MemMap) : Set (List UInt8) := { key | (m key).isSome }

/-- What the source bounds: the number of keys and the lengths of a key and a value. -/
structure Bounds where
  maxEntries : ℕ
  maxKeyLen : ℕ
  maxValLen : ℕ

/-- A key or a value is over its bound. -/
def Bounds.Exceeded (b : Bounds) (key value : List UInt8) : Prop :=
  b.maxKeyLen < key.length ∨ b.maxValLen < value.length

/-- There is no room for another key. -/
def Full (m : MemMap) (b : Bounds) (key : List UInt8) : Prop :=
  key ∉ m.present ∧ m.present.ncard = b.maxEntries

open Classical in
/-- A call on a map. -/
noncomputable def call (b : Bounds) (m : MemMap) : MemCall → MemAnswer × MemMap
  | .persist key value =>
    if b.Exceeded key value then (.done (.error (.err .bufferTooSmall)), m)
    else if m.Full b key then (.done (.error (.err .capacityFull)), m)
    else (.done (.ok ()), Function.update m key (some value))
  | .load key outBuf =>
    match m key with
    | some value =>
      if outBuf.length < value.length then (.loaded (.error (.err .bufferTooSmall)) outBuf, m)
      else (.loaded (.ok (some value.length)) (value ++ outBuf.drop value.length), m)
    | none => (.loaded (.ok none) outBuf, m)
  | .remove key =>
    if key ∈ m.present then (.done (.ok ()), Function.update m key none)
    else (.done (.error (.err .keyNotFound)), m)
  | .clear => (.done (.ok ()), empty)

end MemMap

/-! ## Representation -/

namespace StaticMemStore
variable {maxEntries maxKeyLen maxValLen : ℕ}
  {s : StaticMemStore maxEntries maxKeyLen maxValLen} {m : MemMap} {key value outBuf : List UInt8}

/-- The bytes of the key of a pair. -/
def pairKey (p : BoundedVec UInt8 maxKeyLen × BoundedVec UInt8 maxValLen) : List UInt8 := p.1.toList

/-- The two vectors are the halves of a list of pairs with distinct keys. -/
structure Halves (s : StaticMemStore maxEntries maxKeyLen maxValLen)
    (pairs : List (BoundedVec UInt8 maxKeyLen × BoundedVec UInt8 maxValLen)) : Prop where
  keys : s.keys.toList = pairs.map Prod.fst
  values : s.values.toList = pairs.map Prod.snd
  distinct : (pairs.map pairKey).Nodup

/-- The store lists the pairs of the map. -/
def Represents (s : StaticMemStore maxEntries maxKeyLen maxValLen) (m : MemMap) : Prop :=
  ∃ pairs, Halves s pairs ∧
    ∀ key, m key = (Keyed.find pairKey pairs key).map fun p => p.2.toList

theorem represents_new : Represents (new : StaticMemStore maxEntries maxKeyLen maxValLen) .empty :=
  ⟨[], ⟨rfl, rfl, by simp⟩, fun _ => rfl⟩

namespace Halves
variable {pairs : List (BoundedVec UInt8 maxKeyLen × BoundedVec UInt8 maxValLen)}

/-- The position of a key is that of its pair. -/
theorem position (h : Halves s pairs) (key : List UInt8) :
    (s.position key = none ∧ key ∉ pairs.map pairKey) ∨
      ∃ pre p post, pairs = pre ++ p :: post ∧ pairKey p = key ∧
        s.position key = some pre.length := by
  rw [StaticMemStore.position, h.keys, List.findIdx?_map]
  cases hidx : pairs.findIdx? ((fun entry => decide (entry.toList = key)) ∘ Prod.fst) with
  | none =>
    refine .inl ⟨rfl, ?_⟩
    simpa [List.findIdx?_eq_none_iff, pairKey] using hidx
  | some i =>
    have hi := List.findIdx?_eq_some_iff_getElem.mp hidx
    refine .inr ⟨pairs.take i, pairs.get ⟨i, hi.1⟩, pairs.drop (i + 1), by simp, ?_, ?_⟩
    · simpa [pairKey] using hi.2.1
    · have := hi.1
      simp
      omega

theorem length_keys (h : Halves s pairs) : s.keys.toList.length = pairs.length := by
  rw [h.keys, List.length_map]

theorem length_values (h : Halves s pairs) : s.values.toList.length = pairs.length := by
  rw [h.values, List.length_map]

end Halves

/-- The bounds of the store. -/
def bounds (_s : StaticMemStore maxEntries maxKeyLen maxValLen) : MemMap.Bounds :=
  { maxEntries, maxKeyLen, maxValLen }

namespace Represents

/-- The map holds as many keys as the store. -/
theorem ncard_present (h : Represents s m) : m.present.ncard = s.keys.toList.length := by
  obtain ⟨pairs, hs, hm⟩ := h
  have hset : m.present = { key | (Keyed.find pairKey pairs key).isSome } := by
    ext key
    simp [MemMap.present, hm]
  rw [hset, Keyed.ncard_find hs.distinct, hs.length_keys]

/-- A key is found where the map has it. -/
theorem position_isSome (h : Represents s m) : (s.position key).isSome ↔ key ∈ m.present := by
  obtain ⟨pairs, hs, hm⟩ := h
  have hpresent : key ∈ m.present ↔ key ∈ pairs.map pairKey := by
    rw [← Keyed.find_isSome, MemMap.present, Set.mem_ofPred_eq, hm, Option.isSome_map]
  rw [hpresent]
  rcases hs.position key with ⟨hnone, hkey⟩ | ⟨pre, p, post, rfl, hkey, hsome⟩
  · simp [hnone, hkey]
  · simp [hsome, hkey]

/-! ## The operations -/

/-- `persist` fails on a key or a value over its bound. -/
theorem persist_exceeded (hbound : s.bounds.Exceeded key value) :
    outcome (persist key value) s = (.error (.err .bufferTooSmall), s) := by
  by_cases hkey : maxKeyLen < key.length
  · simp [persist, BoundedVec.ofSlice_eq_none.mpr hkey]
  · have hvalue : maxValLen < value.length := hbound.resolve_left hkey
    have hk : (BoundedVec.ofSlice key : Option (BoundedVec UInt8 maxKeyLen)) =
        some ⟨key, by omega⟩ := BoundedVec.ofSlice_eq_some.mpr rfl
    simp [persist, hk, BoundedVec.ofSlice_eq_none.mpr hvalue]

/-- `persist` fails on a new key when there is no room for it. -/
theorem persist_full (h : Represents s m) (hbound : ¬ s.bounds.Exceeded key value)
    (hfull : m.Full s.bounds key) :
    outcome (persist key value) s = (.error (.err .capacityFull), s) := by
  simp only [MemMap.Bounds.Exceeded, bounds, not_or, not_lt] at hbound
  have hk : (BoundedVec.ofSlice key : Option (BoundedVec UInt8 maxKeyLen)) =
      some ⟨key, hbound.1⟩ := BoundedVec.ofSlice_eq_some.mpr rfl
  have hv : (BoundedVec.ofSlice value : Option (BoundedVec UInt8 maxValLen)) =
      some ⟨value, hbound.2⟩ := BoundedVec.ofSlice_eq_some.mpr rfl
  have hposition : s.position key = none := by
    simpa using h.position_isSome.not.mpr hfull.1
  have hlength : s.keys.toList.length = maxEntries := h.ncard_present ▸ hfull.2
  simp [persist, hk, hv, hposition, hlength]

/-- Otherwise `persist` puts the value under the key. -/
theorem persist_ok (h : Represents s m) (hbound : ¬ s.bounds.Exceeded key value)
    (hroom : ¬ m.Full s.bounds key) :
    (outcome (persist key value) s).1 = .ok () ∧
      Represents (outcome (persist key value) s).2 (Function.update m key (some value)) := by
  have hpresent : (s.position key).isSome ↔ key ∈ m.present := h.position_isSome
  have hcard := h.ncard_present
  obtain ⟨pairs, hs, hm⟩ := h
  simp only [MemMap.Bounds.Exceeded, bounds, not_or, not_lt] at hbound
  have hk : (BoundedVec.ofSlice key : Option (BoundedVec UInt8 maxKeyLen)) =
      some ⟨key, hbound.1⟩ := BoundedVec.ofSlice_eq_some.mpr rfl
  have hv : (BoundedVec.ofSlice value : Option (BoundedVec UInt8 maxValLen)) =
      some ⟨value, hbound.2⟩ := BoundedVec.ofSlice_eq_some.mpr rfl
  rcases hs.position key with ⟨hnone, hnew⟩ | ⟨pre, p, post, rfl, hkey, hsome⟩
  · -- A new key and its value are pushed; there is room for both, since the lengths agree.
    have hlt : s.keys.toList.length < maxEntries := by
      have hle := s.keys.length_le
      have hne : s.keys.toList.length ≠ maxEntries := by
        intro heq
        refine hroom ⟨?_, hcard.trans heq⟩
        simpa [hnone] using hpresent.not.mp
      omega
    have hlt' : s.values.toList.length < maxEntries := by
      rw [hs.length_values, ← hs.length_keys]
      exact hlt
    obtain ⟨keys, hpushk, hkeys⟩ := BoundedVec.push_of_lt hlt ⟨key, hbound.1⟩
    obtain ⟨values, hpushv, hvalues⟩ := BoundedVec.push_of_lt hlt' ⟨value, hbound.2⟩
    have hrun : outcome (persist key value) s = (.ok (), { keys, values }) := by
      simp [persist, hk, hv, hnone, hlt.ne, hpushk, hpushv]
    rw [hrun]
    refine ⟨rfl, pairs ++ [(⟨key, hbound.1⟩, ⟨value, hbound.2⟩)], ⟨?_, ?_, ?_⟩, ?_⟩
    · simp [hkeys, hs.keys]
    · simp [hvalues, hs.values]
    · rw [List.map_append, List.map_singleton, ← List.concat_eq_append]
      exact List.Nodup.concat hnew hs.distinct
    · intro other
      rw [Keyed.find_concat hnew]
      by_cases hother : other = key
      · simp [hother, pairKey]
      · simp [hother, pairKey, hm]
  · -- The value of a key that is there is replaced.
    have hlt : pre.length < s.values.toList.length := by
      rw [hs.length_values]
      simp
    obtain ⟨values, hset, hvalues⟩ := BoundedVec.set?_of_lt hlt ⟨value, hbound.2⟩
    have hrun : outcome (persist key value) s = (.ok (), { s with values }) := by
      simp [persist, hk, hv, hsome, hset]
    rw [hrun]
    refine ⟨rfl, pre ++ (p.1, ⟨value, hbound.2⟩) :: post, ⟨?_, ?_, ?_⟩, ?_⟩
    · simp [hs.keys]
    · rw [hvalues, hs.values]
      simp
    · simpa [pairKey] using hs.distinct
    · intro other
      rw [Keyed.find_replace (b := (p.1, ⟨value, hbound.2⟩)) hs.distinct rfl, hkey]
      by_cases hother : other = key
      · simp [hother]
      · simp [hother, hm]

/-- `load` copies the value of a key that is there, where the buffer is long enough. -/
theorem load_some (h : Represents s m) (hvalue : m key = some value) :
    outcome (s.load key) outBuf =
      if outBuf.length < value.length then (.error (.err .bufferTooSmall), outBuf)
      else (.ok (some value.length), value ++ outBuf.drop value.length) := by
  obtain ⟨pairs, hs, hm⟩ := h
  rcases hs.position key with ⟨hnone, hkey⟩ | ⟨pre, p, post, rfl, hkey, hsome⟩
  · rw [← Keyed.find_isSome, ← Option.isSome_map (f := fun p => p.2.toList), ← hm, hvalue] at hkey
    exact absurd rfl hkey
  · have hp : p.2.toList = value := by
      rw [hm, (Keyed.find_eq_some hs.distinct).mpr ⟨by simp, hkey⟩] at hvalue
      simpa using hvalue
    have hval : s.values.toList[pre.length]? = some p.2 := by
      simp [hs.values]
    simp only [load, hsome, hval, outcome_orFault_some, outcome_get, hp]
    split <;> rfl

/-- `load` returns `Ok(None)` for a key that is not there. -/
theorem load_none (h : Represents s m) (hkey : m key = none) :
    outcome (s.load key) outBuf = (.ok none, outBuf) := by
  have hnone : s.position key = none := by
    have hpresent : (s.position key).isSome ↔ key ∈ m.present := h.position_isSome
    simpa [MemMap.present, hkey] using hpresent
  simp [load, hnone]

/-- `remove` takes a key that is there out of both vectors. -/
theorem remove_ok (h : Represents s m) (hkey : key ∈ m.present) :
    (outcome (remove key) s).1 = .ok () ∧
      Represents (outcome (remove key) s).2 (Function.update m key none) := by
  have hposition := h.position_isSome.mpr hkey
  obtain ⟨pairs, hs, hm⟩ := h
  rcases hs.position key with ⟨hnone, -⟩ | ⟨pre, p, post, rfl, hpkey, hsome⟩
  · simp [hnone] at hposition
  have hlt : pre.length < (pre ++ p :: post).length := by
    simp
  obtain ⟨keys, hswapk, hkeys⟩ := BoundedVec.swapRemove?_of_lt (hs.length_keys ▸ hlt)
  obtain ⟨values, hswapv, hvalues⟩ := BoundedVec.swapRemove?_of_lt (hs.length_values ▸ hlt)
  have hrun : outcome (remove key) s = (.ok (), { keys, values }) := by
    simp [remove, hsome, hswapk, hswapv]
  have hperm := BoundedVec.swapRemoveList_perm hlt
  rw [List.eraseIdx_append_of_length_le (Nat.le_refl _), Nat.sub_self] at hperm
  rw [hrun]
  refine ⟨rfl, BoundedVec.swapRemoveList (pre ++ p :: post) pre.length, ⟨?_, ?_, ?_⟩, ?_⟩
  · rw [hkeys, hs.keys, BoundedVec.swapRemoveList_map]
  · rw [hvalues, hs.values, BoundedVec.swapRemoveList_map]
  · have hdistinct := hs.distinct
    rw [List.map_append, List.map_cons] at hdistinct
    rw [(hperm.map pairKey).nodup_iff]
    simpa using (List.nodup_cons.mp (List.nodup_middle.mp hdistinct)).2
  · intro other
    rw [Keyed.find_remove hs.distinct hperm, hpkey]
    by_cases hother : other = key
    · simp [hother]
    · simp [hother, hm]

/-- `remove` fails on a key that is not there. -/
theorem remove_fails (h : Represents s m) (hkey : key ∉ m.present) :
    outcome (remove key) s = (.error (.err .keyNotFound), s) := by
  have hnone : s.position key = none := by
    simpa using h.position_isSome.not.mpr hkey
  simp [remove, hnone]

/-- A call on the store is a call on the map. -/
theorem call_spec (h : Represents s m) (c : MemCall) :
    (s.call c).1 = (m.call s.bounds c).1 ∧ Represents (s.call c).2 (m.call s.bounds c).2 := by
  cases c with
  | persist key value =>
    by_cases hbound : s.bounds.Exceeded key value
    · simp [call, MemMap.call, persist_exceeded hbound, hbound, h]
    · by_cases hfull : m.Full s.bounds key
      · simp [call, MemMap.call, h.persist_full hbound hfull, hbound, hfull, h]
      · have hok := h.persist_ok hbound hfull
        simp [call, MemMap.call, hok, hbound, hfull]
  | load key outBuf =>
    cases hkey : m key with
    | none => simp [call, MemMap.call, h.load_none hkey, hkey, h]
    | some value =>
      by_cases hlt : outBuf.length < value.length
      · simp [call, MemMap.call, h.load_some hkey, hkey, hlt, h]
      · simp [call, MemMap.call, h.load_some hkey, hkey, hlt, h]
  | remove key =>
    by_cases hkey : key ∈ m.present
    · simp [call, MemMap.call, h.remove_ok hkey, hkey]
    · simp [call, MemMap.call, h.remove_fails hkey, hkey, h]
  | clear => exact ⟨rfl, represents_new⟩

end Represents

/-- **The store simulates the map.** -/
theorem simulates :
    Machine.Simulates Represents (@call maxEntries maxKeyLen maxValLen)
      (MemMap.call { maxEntries, maxKeyLen, maxValLen }) where
  answer h c := (h.call_spec c).1
  next h c := (h.call_spec c).2

/-! ## Runs -/

section
variable (maxEntries maxKeyLen maxValLen)

/-- The store after the calls, from an empty one. -/
def reached (calls : List MemCall) : StaticMemStore maxEntries maxKeyLen maxValLen :=
  (Machine.run call new calls).2

/-- The map after the calls, from the empty one. -/
noncomputable def table (calls : List MemCall) : MemMap :=
  (Machine.run (MemMap.call { maxEntries, maxKeyLen, maxValLen }) .empty calls).2

/-- The calls of a run with their answers. -/
def history (calls : List MemCall) : List (MemCall × MemAnswer) :=
  calls.zip (Machine.run call (new : StaticMemStore maxEntries maxKeyLen maxValLen) calls).1

end

/-- Neither a `remove` of the key, nor a `clear`, nor a `persist` of the key that succeeded. -/
def Keeps (key : List UInt8) (e : MemCall × MemAnswer) : Prop :=
  e.1 ≠ .remove key ∧ e.1 ≠ .clear ∧ ∀ value, e ≠ (.persist key value, .done (.ok ()))

/-- The value of the last successful `persist` of the key, since the last `remove` or `clear`. -/
def Stored (history : List (MemCall × MemAnswer)) (key value : List UInt8) : Prop :=
  Machine.Latest (Keeps key) (.persist key value, .done (.ok ())) history

/-- The keys with a value. -/
def presentKeys (history : List (MemCall × MemAnswer)) : Set (List UInt8) :=
  { key | ∃ value, Stored history key value }

theorem represents_reached (calls : List MemCall) :
    Represents (reached maxEntries maxKeyLen maxValLen calls)
      (table maxEntries maxKeyLen maxValLen calls) :=
  (simulates.run represents_new calls).2

/-- What a call does to the value of a key. -/
theorem call_eq_some (b : MemMap.Bounds) (m : MemMap) (c : MemCall) :
    (m.call b c).2 key = some value ↔
      (c, (m.call b c).1) = (.persist key value, .done (.ok ())) ∨
        (m key = some value ∧ Keeps key (c, (m.call b c).1)) := by
  cases c with
  | persist k v =>
    by_cases hbound : b.Exceeded k v
    · simp [MemMap.call, hbound, Keeps]
    · by_cases hfull : m.Full b k
      · simp [MemMap.call, hbound, hfull, Keeps]
      · by_cases hk : key = k
        · simp [MemMap.call, hbound, hfull, Keeps, hk]
        · simp [MemMap.call, hbound, hfull, Keeps, hk, Ne.symm hk]
  | load k outBuf =>
    simp only [MemMap.call]
    split
    · split <;> simp [Keeps]
    · simp [Keeps]
  | remove k =>
    by_cases hk : key = k
    · by_cases hpresent : k ∈ m.present
      · simp [MemMap.call, hk, hpresent, Keeps]
      · have hnone : m k = none := by
          simpa [MemMap.present] using hpresent
        simp [MemMap.call, hk, hpresent, Keeps, hnone]
    · by_cases hpresent : k ∈ m.present
      · simp [MemMap.call, hpresent, Keeps, hk, Ne.symm hk]
      · simp [MemMap.call, hpresent, Keeps, Ne.symm hk]
  | clear => simp [MemMap.call, Keeps, MemMap.empty]

/-- The map, from the calls. -/
theorem table_eq_some (calls : List MemCall) :
    table maxEntries maxKeyLen maxValLen calls key = some value ↔
      Stored (history maxEntries maxKeyLen maxValLen calls) key value := by
  rw [history, (simulates.run represents_new calls).1, table]
  induction calls using List.reverseRecOn with
  | nil => simp [Stored, MemMap.empty]
  | append_singleton calls c ih =>
    rw [Machine.run_append, List.zip_append (by simp), Stored]
    simp only [Machine.run_cons, Machine.run_nil, List.zip_cons_cons, List.zip_nil_right]
    rw [Machine.latest_concat, ← Stored, ← ih, call_eq_some]

theorem present_table (calls : List MemCall) :
    (table maxEntries maxKeyLen maxValLen calls).present =
      presentKeys (history maxEntries maxKeyLen maxValLen calls) := by
  ext key
  simp [MemMap.present, presentKeys, ← table_eq_some, Option.isSome_iff_exists]

/-- When `persist` fails, and why. -/
theorem Represents.persist_fails_iff (h : Represents s m) (e : Fault MemStorageError) :
    (outcome (persist key value) s).1 = .error e ↔
      (e = .err .bufferTooSmall ∧ s.bounds.Exceeded key value) ∨
        (e = .err .capacityFull ∧ ¬ s.bounds.Exceeded key value ∧ m.Full s.bounds key) := by
  by_cases hbound : s.bounds.Exceeded key value
  · simp [persist_exceeded hbound, hbound, eq_comm]
  · by_cases hfull : m.Full s.bounds key
    · simp [h.persist_full hbound hfull, hbound, hfull, eq_comm]
    · simp [h.persist_ok hbound hfull, hbound, hfull]

/-- A call that fails changes neither the store nor the buffer. -/
theorem Represents.unchanged (h : Represents s m) {e : Fault MemStorageError} :
    ((outcome (persist key value) s).1 = .error e → (outcome (persist key value) s).2 = s) ∧
      ((outcome (remove key) s).1 = .error e → (outcome (remove key) s).2 = s) ∧
      ((outcome (s.load key) outBuf).1 = .error e → (outcome (s.load key) outBuf).2 = outBuf) := by
  refine ⟨?_, ?_, ?_⟩
  · by_cases hbound : s.bounds.Exceeded key value
    · simp [persist_exceeded hbound]
    · by_cases hfull : m.Full s.bounds key
      · simp [h.persist_full hbound hfull]
      · simp [h.persist_ok hbound hfull]
  · by_cases hkey : key ∈ m.present
    · simp [h.remove_ok hkey]
    · simp [h.remove_fails hkey]
  · cases hkey : m key with
    | none => simp [h.load_none hkey]
    | some value =>
      rw [h.load_some hkey]
      split <;> simp

/-- **The store refines a finite map of bounded capacity.** After any calls, what they returned is
what the map returns; `load` copies the value that was persisted last where the buffer is long
enough for it, fails with `BufferTooSmall` where it is not, and finds nothing under a key without
a value; `persist` fails for the two reasons only; and a call that fails changes nothing. -/
theorem store_refines (calls : List MemCall) :
    (Machine.run call (new : StaticMemStore maxEntries maxKeyLen maxValLen) calls).1 =
        (Machine.run (MemMap.call { maxEntries, maxKeyLen, maxValLen }) .empty calls).1 ∧
      (∀ key value outBuf, Stored (history maxEntries maxKeyLen maxValLen calls) key value →
        outcome ((reached maxEntries maxKeyLen maxValLen calls).load key) outBuf =
          if outBuf.length < value.length then (.error (.err .bufferTooSmall), outBuf)
          else (.ok (some value.length), value ++ outBuf.drop value.length)) ∧
      (∀ key outBuf, key ∉ presentKeys (history maxEntries maxKeyLen maxValLen calls) →
        outcome ((reached maxEntries maxKeyLen maxValLen calls).load key) outBuf =
          (.ok none, outBuf)) ∧
      (∀ key value e,
        (outcome (persist key value) (reached maxEntries maxKeyLen maxValLen calls)).1 = .error e ↔
          (e = .err .bufferTooSmall ∧ (maxKeyLen < key.length ∨ maxValLen < value.length)) ∨
          (e = .err .capacityFull ∧ ¬ (maxKeyLen < key.length ∨ maxValLen < value.length) ∧
            key ∉ presentKeys (history maxEntries maxKeyLen maxValLen calls) ∧
            (presentKeys (history maxEntries maxKeyLen maxValLen calls)).ncard = maxEntries)) ∧
      (presentKeys (history maxEntries maxKeyLen maxValLen calls)).ncard ≤ maxEntries ∧
      ∀ key value outBuf e,
        ((outcome (persist key value) (reached maxEntries maxKeyLen maxValLen calls)).1 = .error e →
          (outcome (persist key value) (reached maxEntries maxKeyLen maxValLen calls)).2 =
            reached maxEntries maxKeyLen maxValLen calls) ∧
        ((outcome (remove key) (reached maxEntries maxKeyLen maxValLen calls)).1 = .error e →
          (outcome (remove key) (reached maxEntries maxKeyLen maxValLen calls)).2 =
            reached maxEntries maxKeyLen maxValLen calls) ∧
        ((outcome ((reached maxEntries maxKeyLen maxValLen calls).load key) outBuf).1 = .error e →
          (outcome ((reached maxEntries maxKeyLen maxValLen calls).load key) outBuf).2 = outBuf) := by
  have h := @represents_reached maxEntries maxKeyLen maxValLen calls
  have hpresent := @present_table maxEntries maxKeyLen maxValLen calls
  refine ⟨(simulates.run represents_new calls).1, ?_, ?_, ?_, ?_, fun _ _ _ _ => h.unchanged⟩
  · exact fun key value outBuf hstored => h.load_some ((table_eq_some calls).mpr hstored)
  · intro key outBuf hkey
    apply h.load_none
    simpa [← hpresent, MemMap.present] using hkey
  · intro key value e
    rw [h.persist_fails_iff, ← hpresent]
    rfl
  · rw [← hpresent, h.ncard_present]
    exact (reached maxEntries maxKeyLen maxValLen calls).keys.length_le

/-- A value that was persisted is not loaded into a shorter buffer. -/
theorem load_short_buffer :
    Stored (history 1 1 1 [.persist [0] [7]]) [0] [7] ∧
      outcome ((reached 1 1 1 [.persist [0] [7]]).load [0]) [] =
        (.error (.err .bufferTooSmall), []) :=
  ⟨⟨[], [], rfl, by simp⟩, rfl⟩

end StaticMemStore

end MqttEngine.Storage
