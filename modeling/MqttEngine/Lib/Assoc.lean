import MqttEngine.Lib.Machine
import Mathlib.Data.List.Nodup

/-!
# Maps as association lists

A map with decidable keys is the list of its entries. The operations are those of a hash map;
the order of the entries means nothing, and an operation may change it.

## Main definitions

* `Assoc.get?`, `Assoc.set`, `Assoc.erase`, `Assoc.keys` — the operations.
* `Assoc.setAll` — one entry after the other is set.

## Main results

* `get?_set`, `get?_erase` — what a key holds after an operation.
* `latest_setAll` — the entries of a map that has been set along a history.
-/

universe u v w

/-- A map from `κ` to `β`. -/
abbrev Assoc (κ : Type u) (β : Type v) := List (κ × β)

namespace Assoc
variable {κ : Type u} {β : Type v} [DecidableEq κ] {self : Assoc κ β} {k k' : κ} {b : β}

/-- What the key holds. -/
def get? (self : Assoc κ β) (k : κ) : Option β := (self.find? fun e => e.1 = k).map (·.2)

/-- The map without the key. -/
def erase (self : Assoc κ β) (k : κ) : Assoc κ β := self.filter fun e => e.1 ≠ k

/-- The map where the key holds `b`. -/
def set (self : Assoc κ β) (k : κ) (b : β) : Assoc κ β := (k, b) :: self.erase k

/-- The keys that hold something. -/
def keys (self : Assoc κ β) : List κ := self.map (·.1)

@[simp] theorem get?_nil : get? ([] : Assoc κ β) k = none := rfl

theorem get?_cons (e : κ × β) (self : Assoc κ β) :
    get? (e :: self) k = if e.1 = k then some e.2 else self.get? k := by
  rw [get?, List.find?_cons]
  by_cases h : e.1 = k
  · simp [h]
  · simp [h, get?]

theorem get?_erase : (self.erase k).get? k' = if k' = k then none else self.get? k' := by
  induction self with
  | nil => simp [erase]
  | cons e self ih =>
    rw [erase, List.filter_cons]
    by_cases he : e.1 = k
    · by_cases hk : k' = k
      · simpa [he, hk, erase] using ih
      · have hne : ¬ k = k' := fun h => hk h.symm
        simpa [he, hk, hne, get?_cons, erase] using ih
    · by_cases hk : k' = k
      · simpa [he, hk, get?_cons, erase] using ih
      · simp only [he, hk, ne_eq, not_false_eq_true, decide_true, if_true, get?_cons, if_false]
        rw [← erase, ih, if_neg hk]

@[simp] theorem get?_erase_self : (self.erase k).get? k = none := by
  simp [get?_erase]

theorem get?_set : (self.set k b).get? k' = if k' = k then some b else self.get? k' := by
  rw [set, get?_cons, get?_erase]
  by_cases h : k' = k
  · simp [h]
  · have hne : ¬ k = k' := fun hk => h hk.symm
    simp [h, hne]

@[simp] theorem get?_set_self : (self.set k b).get? k = some b := by
  simp [get?_set]

/-- What a key holds is an entry. -/
theorem mem_of_get? (h : self.get? k = some b) : (k, b) ∈ self := by
  obtain ⟨⟨k', b'⟩, hfind, hb⟩ := Option.map_eq_some_iff.mp h
  have hkey := List.find?_some hfind
  simp only [decide_eq_true_eq] at hkey hb
  subst hkey hb
  exact List.mem_of_find?_eq_some hfind

theorem mem_erase {e : κ × β} : e ∈ self.erase k ↔ e ∈ self ∧ e.1 ≠ k := by
  simp [erase]

theorem mem_set {e : κ × β} : e ∈ self.set k b ↔ e = (k, b) ∨ (e ∈ self ∧ e.1 ≠ k) := by
  rw [set, List.mem_cons, mem_erase]

/-- A key is in the map if and only if it holds something. -/
theorem mem_keys : k ∈ self.keys ↔ (self.get? k).isSome := by
  simp [keys, get?, List.mem_map]

theorem get?_eq_none : self.get? k = none ↔ k ∉ self.keys := by
  rw [mem_keys]
  simp

theorem mem_keys_set : k' ∈ (self.set k b).keys ↔ k' = k ∨ k' ∈ self.keys := by
  rw [mem_keys, mem_keys, get?_set]
  by_cases h : k' = k <;> simp [h]

theorem mem_keys_erase : k' ∈ (self.erase k).keys ↔ k' ≠ k ∧ k' ∈ self.keys := by
  rw [mem_keys, mem_keys, get?_erase]
  by_cases h : k' = k <;> simp [h]

/-! ## Distinct keys -/

theorem nodup_keys_erase (h : self.keys.Nodup) : (self.erase k).keys.Nodup :=
  h.sublist (List.filter_sublist.map _)

theorem nodup_keys_set (h : self.keys.Nodup) : (self.set k b).keys.Nodup := by
  have hk : k ∉ (self.erase k).keys := by simp [mem_keys_erase]
  exact List.nodup_cons.mpr ⟨hk, nodup_keys_erase h⟩

/-! ## Many entries -/

/-- The map after one entry after the other has been set. -/
def setAll (self : Assoc κ β) (entries : List (κ × β)) : Assoc κ β :=
  entries.foldl (fun m e => m.set e.1 e.2) self

@[simp] theorem setAll_nil : self.setAll [] = self := rfl

@[simp] theorem setAll_cons (e : κ × β) (entries : List (κ × β)) :
    self.setAll (e :: entries) = (self.set e.1 e.2).setAll entries := rfl

theorem setAll_append (entries entries' : List (κ × β)) :
    self.setAll (entries ++ entries') = (self.setAll entries).setAll entries' :=
  List.foldl_append

theorem nodup_keys_setAll (h : self.keys.Nodup) (entries : List (κ × β)) :
    (self.setAll entries).keys.Nodup := by
  induction entries generalizing self with
  | nil => exact h
  | cons e entries ih => exact ih (nodup_keys_set h)

/-- Each entry that is set takes at most one place. -/
theorem length_setAll_le (self : Assoc κ β) (entries : List (κ × β)) :
    (self.setAll entries).length ≤ self.length + entries.length := by
  induction entries generalizing self with
  | nil => exact Nat.le_refl _
  | cons e entries ih =>
    have hset : (self.set e.1 e.2).length ≤ self.length + 1 :=
      Nat.succ_le_succ (List.length_filter_le _ _)
    have hrest := ih (self.set e.1 e.2)
    rw [setAll_cons, List.length_cons]
    omega

/-- Every entry is the latest of the history with its key. -/
theorem latest_setAll {history : List (κ × β)}
    (h : ∀ e ∈ self, Machine.Latest (fun x => x.1 ≠ e.1) e history) (entries : List (κ × β)) :
    ∀ e ∈ self.setAll entries, Machine.Latest (fun x => x.1 ≠ e.1) e (history ++ entries) := by
  induction entries generalizing self history with
  | nil => simpa using h
  | cons a entries ih =>
    have hset : ∀ e ∈ self.set a.1 a.2,
        Machine.Latest (fun x => x.1 ≠ e.1) e (history ++ [a]) := by
      intro e he
      rw [Machine.latest_concat]
      rcases mem_set.mp he with rfl | ⟨he, hne⟩
      · exact .inl rfl
      · exact .inr ⟨h e he, hne.symm⟩
    simpa using ih hset

/-! ## Changed values -/

section
variable {γ : Type w} (f : β → γ)

/-- The map with the function applied to what the keys hold. -/
def mapValues (self : Assoc κ β) : Assoc κ γ := self.map fun e => (e.1, f e.2)

omit [DecidableEq κ] in
@[simp] theorem keys_mapValues : (self.mapValues f).keys = self.keys := by
  simp [mapValues, keys]

theorem mapValues_erase : (self.erase k).mapValues f = (self.mapValues f).erase k := by
  simp [mapValues, erase, List.filter_map, Function.comp_def]

theorem mapValues_set : (self.set k b).mapValues f = (self.mapValues f).set k (f b) := by
  rw [set, set, ← mapValues_erase]
  rfl

end

end Assoc
