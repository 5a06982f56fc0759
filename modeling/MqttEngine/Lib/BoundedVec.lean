import Mathlib.Data.List.Perm.Basic
import Mathlib.Data.List.Basic
import Mathlib.Data.List.Nodup

/-!
# Vectors of bounded capacity

A `BoundedVec α N` is a list that carries the proof that it holds at most `N` elements,
so a table of fixed capacity cannot be overfilled. `push` reports a full vector,
`modifyFirst` updates the first element a predicate selects in place, and
`swapRemoveFirst` removes it by moving the last element into its place; the removal
changes the order of what remains, and `swapRemoveFirst_eq_some` says that it changes
nothing else. `set?` and `swapRemove?` do the same at a position, and report one that is out of
bounds. Where the elements have distinct keys, `mem_modifyFirst` and `mem_swapRemoveFirst` say
what is left without a word about positions.
-/

universe u

/-- A vector of capacity `N`. -/
structure BoundedVec (α : Type u) (N : ℕ) where
  /-- The elements, in order. -/
  toList : List α
  /-- The capacity is respected. -/
  length_le : toList.length ≤ N

namespace BoundedVec
variable {α : Type u} {N : ℕ}

@[ext] theorem ext {v w : BoundedVec α N} (h : v.toList = w.toList) : v = w := by
  cases v; cases w
  congr

instance [DecidableEq α] : DecidableEq (BoundedVec α N) := fun v w =>
  decidable_of_iff (v.toList = w.toList) ⟨ext, congrArg toList⟩

instance [Repr α] : Repr (BoundedVec α N) := ⟨fun v n => reprPrec v.toList n⟩

/-- The vector without elements. -/
def empty : BoundedVec α N := ⟨[], Nat.zero_le N⟩

@[simp] theorem toList_empty : (empty : BoundedVec α N).toList = [] := rfl

theorem eq_empty_iff (v : BoundedVec α N) : v = empty ↔ v.toList = [] :=
  ⟨fun h => by rw [h, toList_empty], fun h => ext h⟩

/-- Append an element, if there is room for it. -/
def push (v : BoundedVec α N) (a : α) : Option (BoundedVec α N) :=
  if h : v.toList.length < N then some ⟨v.toList ++ [a], by
    simpa using Nat.succ_le_of_lt h⟩ else none

theorem push_eq_some {v w : BoundedVec α N} {a : α} :
    v.push a = some w ↔ v.toList.length < N ∧ w.toList = v.toList ++ [a] := by
  unfold push
  split
  · rename_i h
    simp only [Option.some.injEq, h, true_and]
    exact ⟨fun e => by rw [← e], fun e => ext e.symm⟩
  · rename_i h
    simp [h]

theorem push_eq_none {v : BoundedVec α N} {a : α} : v.push a = none ↔ N ≤ v.toList.length := by
  unfold push
  split
  · rename_i h
    simpa using h
  · rename_i h
    simpa using h

theorem push_of_lt {v : BoundedVec α N} (h : v.toList.length < N) (a : α) :
    ∃ w, v.push a = some w ∧ w.toList = v.toList ++ [a] :=
  ⟨_, dif_pos h, rfl⟩

/-- `Vec::new()` and `extend_from_slice`: a copy of a slice that fits. -/
def ofSlice (l : List α) : Option (BoundedVec α N) :=
  if h : l.length ≤ N then some ⟨l, h⟩ else none

theorem ofSlice_eq_some {l : List α} {v : BoundedVec α N} : ofSlice l = some v ↔ v.toList = l := by
  unfold ofSlice
  split
  · simp only [Option.some.injEq]
    exact ⟨fun h => by rw [← h], fun h => ext h.symm⟩
  · rename_i h
    simp only [reduceCtorEq, false_iff]
    exact fun hv => h (hv ▸ v.length_le)

theorem ofSlice_eq_none {l : List α} : (ofSlice l : Option (BoundedVec α N)) = none ↔ N < l.length := by
  simp [ofSlice]

/-- `v[i] = a`; `none` when the index is out of bounds. -/
def set? (v : BoundedVec α N) (i : ℕ) (a : α) : Option (BoundedVec α N) :=
  if i < v.toList.length then some ⟨v.toList.set i a, by simpa using v.length_le⟩ else none

theorem set?_of_lt {v : BoundedVec α N} {i : ℕ} (hi : i < v.toList.length) (a : α) :
    ∃ w, v.set? i a = some w ∧ w.toList = v.toList.set i a :=
  ⟨_, if_pos hi, rfl⟩

/-! ## Updating the first selected element -/

/-- Replace the first element that satisfies `p` by its image; `none` if there is none. -/
def modifyList (p : α → Bool) (f : α → α) : List α → Option (List α)
  | [] => none
  | a :: l => if p a then some (f a :: l) else (modifyList p f l).map (a :: ·)

theorem modifyList_eq_none {p : α → Bool} {f : α → α} {l : List α} :
    modifyList p f l = none ↔ ∀ a ∈ l, p a = false := by
  induction l with
  | nil => simp [modifyList]
  | cons a l ih =>
    by_cases hp : p a
    · simp [modifyList, hp]
    · simp [modifyList, hp, ih]

theorem modifyList_eq_some {p : α → Bool} {f : α → α} {l l' : List α}
    (h : modifyList p f l = some l') :
    ∃ pre a post, l = pre ++ a :: post ∧ p a = true ∧ (∀ x ∈ pre, p x = false) ∧
      l' = pre ++ f a :: post := by
  induction l generalizing l' with
  | nil => simp [modifyList] at h
  | cons a l ih =>
    by_cases hp : p a
    · simp only [modifyList, hp, if_true, Option.some.injEq] at h
      exact ⟨[], a, l, rfl, hp, by simp, h.symm⟩
    · simp only [modifyList, hp, Bool.false_eq_true, if_false, Option.map_eq_some_iff] at h
      obtain ⟨m, hm, rfl⟩ := h
      obtain ⟨pre, b, post, rfl, hb, hpre, rfl⟩ := ih hm
      refine ⟨a :: pre, b, post, rfl, hb, ?_, rfl⟩
      simpa [hp] using hpre

theorem length_modifyList {p : α → Bool} {f : α → α} {l l' : List α}
    (h : modifyList p f l = some l') : l'.length = l.length := by
  obtain ⟨pre, a, post, rfl, -, -, rfl⟩ := modifyList_eq_some h
  simp

/-- `if let Some(e) = v.iter_mut().find(p) { *e = f(e) }`, and whether there was one. -/
def modifyFirst (v : BoundedVec α N) (p : α → Bool) (f : α → α) : Option (BoundedVec α N) :=
  match h : modifyList p f v.toList with
  | some l => some ⟨l, Nat.le_trans (Nat.le_of_eq (length_modifyList h)) v.length_le⟩
  | none => none

theorem modifyFirst_eq_none {v : BoundedVec α N} {p : α → Bool} {f : α → α} :
    v.modifyFirst p f = none ↔ ∀ a ∈ v.toList, p a = false := by
  unfold modifyFirst
  split
  · rename_i l h
    simp only [reduceCtorEq, false_iff]
    intro hall
    rw [modifyList_eq_none.mpr hall] at h
    cases h
  · rename_i h
    simpa using modifyList_eq_none.mp h

theorem modifyFirst_eq_some {v w : BoundedVec α N} {p : α → Bool} {f : α → α}
    (h : v.modifyFirst p f = some w) :
    ∃ pre a post, v.toList = pre ++ a :: post ∧ p a = true ∧ (∀ x ∈ pre, p x = false) ∧
      w.toList = pre ++ f a :: post := by
  unfold modifyFirst at h
  split at h
  · rename_i l hl
    cases h
    exact modifyList_eq_some hl
  · cases h

/-- An element after the update was there before, or is the image of one that was. -/
theorem mem_of_modifyFirst {v w : BoundedVec α N} {p : α → Bool} {f : α → α}
    (h : v.modifyFirst p f = some w) {x : α} (hx : x ∈ w.toList) :
    x ∈ v.toList ∨ ∃ a ∈ v.toList, p a = true ∧ x = f a := by
  obtain ⟨pre, a, post, hv, ha, -, hw⟩ := modifyFirst_eq_some h
  rw [hw, List.mem_append, List.mem_cons] at hx
  rw [hv]
  rcases hx with hx | rfl | hx
  · exact .inl (by simp [hx])
  · exact .inr ⟨a, by simp, ha, rfl⟩
  · exact .inl (by simp [hx])

/-! ## Removing by swapping with the last element -/

/-- Put the last element at position `i` and drop the last position. -/
def swapRemoveList (l : List α) (i : ℕ) : List α :=
  match l.getLast? with
  | none => l
  | some z => (l.set i z).dropLast

theorem swapRemoveList_perm {l : List α} {i : ℕ} (hi : i < l.length) :
    (swapRemoveList l i).Perm (l.eraseIdx i) := by
  have hne : l ≠ [] := List.ne_nil_of_length_pos (by omega)
  obtain ⟨init, z, rfl⟩ : ∃ init z, l = init ++ [z] :=
    ⟨l.dropLast, l.getLast hne, (List.dropLast_append_getLast hne).symm⟩
  simp only [swapRemoveList, List.getLast?_append, List.getLast?_singleton, Option.some_or]
  by_cases h : i < init.length
  · rw [List.set_append_left _ _ h, List.dropLast_concat, List.eraseIdx_append_of_lt_length h]
    exact (List.set_perm_cons_eraseIdx h z).trans (List.perm_append_singleton z _).symm
  · have hlast : i = init.length := by simp at hi; omega
    subst hlast
    rw [List.set_append_right _ _ (Nat.le_refl _), List.eraseIdx_append_of_length_le (Nat.le_refl _)]
    simp

theorem length_swapRemoveList {l : List α} {i : ℕ} (hi : i < l.length) :
    (swapRemoveList l i).length = l.length - 1 := by
  rw [(swapRemoveList_perm hi).length_eq, List.length_eraseIdx_of_lt hi]

/-- A map of the elements goes through the removal. -/
theorem swapRemoveList_map {β : Type*} (f : α → β) (l : List α) (i : ℕ) :
    swapRemoveList (l.map f) i = (swapRemoveList l i).map f := by
  unfold swapRemoveList
  rw [List.getLast?_map]
  cases l.getLast? with
  | none => rfl
  | some z => simp [List.map_set, List.map_dropLast]

/-- `v.swap_remove(i)`; `none` when the index is out of bounds. -/
def swapRemove? (v : BoundedVec α N) (i : ℕ) : Option (BoundedVec α N) :=
  if hi : i < v.toList.length then some ⟨swapRemoveList v.toList i, by
    rw [length_swapRemoveList hi]
    have := v.length_le
    omega⟩ else none

theorem swapRemove?_of_lt {v : BoundedVec α N} {i : ℕ} (hi : i < v.toList.length) :
    ∃ w, v.swapRemove? i = some w ∧ w.toList = swapRemoveList v.toList i :=
  ⟨_, dif_pos hi, rfl⟩

/-- `if let Some(idx) = v.iter().position(p) { v.swap_remove(idx) }`, and whether there
was one. -/
def swapRemoveFirst (v : BoundedVec α N) (p : α → Bool) : Option (BoundedVec α N) :=
  match h : v.toList.findIdx? p with
  | some i => some ⟨swapRemoveList v.toList i, by
      have hi : i < v.toList.length := (List.findIdx?_eq_some_iff_findIdx_eq.mp h).1
      rw [length_swapRemoveList hi]
      have := v.length_le
      omega⟩
  | none => none

theorem swapRemoveFirst_eq_none {v : BoundedVec α N} {p : α → Bool} :
    v.swapRemoveFirst p = none ↔ ∀ a ∈ v.toList, p a = false := by
  unfold swapRemoveFirst
  split
  · rename_i i h
    have hne : v.toList.findIdx? p ≠ none := by rw [h]; simp
    simpa [List.findIdx?_eq_none_iff] using hne
  · rename_i h
    simpa [List.findIdx?_eq_none_iff] using h

/-- Removal takes out the first selected element and permutes the rest. -/
theorem swapRemoveFirst_eq_some {v w : BoundedVec α N} {p : α → Bool}
    (h : v.swapRemoveFirst p = some w) :
    ∃ pre a post, v.toList = pre ++ a :: post ∧ p a = true ∧ (∀ x ∈ pre, p x = false) ∧
      w.toList.Perm (pre ++ post) := by
  unfold swapRemoveFirst at h
  split at h
  · rename_i i hi
    cases h
    obtain ⟨hlt, hp, hpre⟩ := List.findIdx?_eq_some_iff_getElem.mp hi
    refine ⟨v.toList.take i, v.toList[i], v.toList.drop (i + 1), by simp, hp, ?_, ?_⟩
    · intro x hx
      obtain ⟨j, hj, rfl⟩ := List.mem_take_iff_getElem.mp hx
      simpa using hpre j (by omega)
    · simpa [List.eraseIdx_eq_take_drop_succ] using swapRemoveList_perm hlt
  · cases h

/-- What is left after a removal was there before. -/
theorem mem_of_swapRemoveFirst {v w : BoundedVec α N} {p : α → Bool}
    (h : v.swapRemoveFirst p = some w) {x : α} (hx : x ∈ w.toList) : x ∈ v.toList := by
  obtain ⟨pre, a, post, hv, -, -, hw⟩ := swapRemoveFirst_eq_some h
  rw [hw.mem_iff, List.mem_append] at hx
  rw [hv]
  rcases hx with hx | hx <;> simp [hx]

/-! ## Elements with distinct keys -/

section
variable {κ : Type*} {key : α → κ} {k : κ} {v w : BoundedVec α N} {p : α → Bool} {f : α → α}

/-- Where the keys are distinct and only one of them is selected, the elements around a selected
one are not selected. -/
theorem not_selected {pre post : List α} {a : α} (hkeys : ((pre ++ a :: post).map key).Nodup)
    (hp : ∀ a, p a = true → key a = k) (ha : p a = true) : ∀ x ∈ pre ++ post, p x = false := by
  intro x hx
  by_contra hpx
  have hxa : key x = key a := (hp x (by simpa using hpx)).trans (hp a ha).symm
  rw [List.map_append, List.map_cons] at hkeys
  apply (List.nodup_cons.mp (List.nodup_middle.mp hkeys)).1
  rw [← List.map_append, ← hxa]
  exact List.mem_map_of_mem hx

/-- The update replaces the selected element. -/
theorem mem_modifyFirst (hkeys : (v.toList.map key).Nodup) (hp : ∀ a, p a = true → key a = k)
    (h : v.modifyFirst p f = some w) {x : α} :
    x ∈ w.toList ↔ (x ∈ v.toList ∧ p x = false) ∨ ∃ a ∈ v.toList, p a = true ∧ x = f a := by
  obtain ⟨pre, a, post, hv, ha, -, hw⟩ := modifyFirst_eq_some h
  rw [hv] at hkeys
  have hrest := not_selected hkeys hp ha
  rw [hv, hw]
  constructor
  · intro hx
    by_cases hmem : x ∈ pre ++ post
    · exact .inl ⟨by simp at hmem ⊢; tauto, hrest x hmem⟩
    · exact .inr ⟨a, by simp, ha, by simp at hmem hx; tauto⟩
  · rintro (⟨hx, hpx⟩ | ⟨b, hb, hpb, rfl⟩)
    · have hne : x ≠ a := fun h => by simp [h, ha] at hpx
      simpa [hne, or_comm, or_left_comm] using Or.inr (by simpa [hne] using hx)
    · have hba : b = a := by
        by_contra hne
        have := hrest b (by simpa [hne] using hb)
        simp [hpb] at this
      simp [hba]

theorem keys_modifyFirst (hf : ∀ a, key (f a) = key a) (h : v.modifyFirst p f = some w) :
    w.toList.map key = v.toList.map key := by
  obtain ⟨pre, a, post, hv, -, -, hw⟩ := modifyFirst_eq_some h
  simp [hv, hw, hf]

/-- The removal takes out the selected element. -/
theorem mem_swapRemoveFirst (hkeys : (v.toList.map key).Nodup) (hp : ∀ a, p a = true → key a = k)
    (h : v.swapRemoveFirst p = some w) {x : α} :
    x ∈ w.toList ↔ x ∈ v.toList ∧ p x = false := by
  obtain ⟨pre, a, post, hv, ha, -, hw⟩ := swapRemoveFirst_eq_some h
  rw [hv] at hkeys
  have hrest := not_selected hkeys hp ha
  rw [hv, hw.mem_iff]
  constructor
  · exact fun hx => ⟨by simp at hx ⊢; tauto, hrest x hx⟩
  · rintro ⟨hx, hpx⟩
    have hne : x ≠ a := fun h => by simp [h, ha] at hpx
    simpa [hne] using hx

theorem nodup_swapRemoveFirst (hkeys : (v.toList.map key).Nodup) (h : v.swapRemoveFirst p = some w) :
    (w.toList.map key).Nodup := by
  obtain ⟨pre, a, post, hv, -, -, hw⟩ := swapRemoveFirst_eq_some h
  rw [hv, List.map_append, List.map_cons] at hkeys
  rw [(hw.map key).nodup_iff, List.map_append]
  exact (List.nodup_cons.mp (List.nodup_middle.mp hkeys)).2

theorem nodup_push (hkeys : (v.toList.map key).Nodup) {a : α} (ha : key a ∉ v.toList.map key)
    (h : v.push a = some w) : (w.toList.map key).Nodup := by
  rw [(push_eq_some.mp h).2, List.map_append, List.map_singleton, ← List.concat_eq_append]
  exact List.Nodup.concat ha hkeys

end

end BoundedVec
