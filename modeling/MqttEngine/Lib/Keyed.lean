import Mathlib.Data.List.Nodup
import Mathlib.Data.List.Perm.Basic
import Mathlib.Data.List.Sort
import Mathlib.Data.Set.Card

/-!
# Lists with distinct keys as finite maps

A list whose elements have distinct keys is a finite map: `find key l k` is the element under a
key. Neither the order of the elements nor how one of them is put, replaced or taken out matters
to it, so an implementation that keeps a map as a list may permute the list as it likes.

## Main definitions

* `Keyed.find` — the element under a key.

## Main results

* `Keyed.find_perm` — the order does not matter.
* `Keyed.find_concat`, `Keyed.find_replace`, `Keyed.find_remove` — the three ways to change a map.
* `Keyed.ncard_find` — there are as many keys as elements.
* `Keyed.sublist_of_increasing` — elements in the order of their keys.
-/

namespace Keyed
universe u v
variable {α : Type u} {κ : Type v} [DecidableEq κ] (key : α → κ)

/-- The element under a key. -/
def find (l : List α) (k : κ) : Option α := l.find? fun a => key a = k

variable {key} {l l' pre post : List α} {a b : α} {k : κ}

@[simp] theorem find_nil : find key [] k = none := rfl

theorem find_eq_none : find key l k = none ↔ ∀ a ∈ l, key a ≠ k := by
  simp [find]

theorem find_eq_some (hkeys : (l.map key).Nodup) : find key l k = some a ↔ a ∈ l ∧ key a = k := by
  constructor
  · intro h
    exact ⟨List.mem_of_find?_eq_some h, by simpa using List.find?_some h⟩
  · rintro ⟨ha, rfl⟩
    rcases h : find key l (key a) with _ | b
    · exact absurd rfl (find_eq_none.mp h a ha)
    · have hkey : key b = key a := by simpa using List.find?_some h
      rw [List.inj_on_of_nodup_map hkeys (List.mem_of_find?_eq_some h) ha hkey]

theorem find_isSome : (find key l k).isSome ↔ k ∈ l.map key := by
  simp [find]

/-- The elements and their keys determine the map. -/
theorem find_congr (hkeys : (l.map key).Nodup) (hkeys' : (l'.map key).Nodup)
    (h : ∀ a, key a = k → (a ∈ l' ↔ a ∈ l)) : find key l' k = find key l k := by
  ext a
  rw [find_eq_some hkeys, find_eq_some hkeys']
  exact and_congr_left (h a)

theorem find_perm (hkeys : (l.map key).Nodup) (h : l'.Perm l) : find key l' k = find key l k :=
  find_congr hkeys ((h.map key).nodup_iff.mpr hkeys) fun _ _ => h.mem_iff

/-- A new element. -/
theorem find_concat (ha : key a ∉ l.map key) :
    find key (l ++ [a]) k = if k = key a then some a else find key l k := by
  have happend : find key (l ++ [a]) k = (find key l k).or (find key [a] k) := List.find?_append
  rw [happend]
  by_cases hk : k = key a
  · have hnone : find key l k = none :=
      find_eq_none.mpr fun b hb hkey => ha (hk ▸ hkey ▸ List.mem_map_of_mem hb)
    rw [hnone, if_pos hk, Option.none_or]
    simp [find, hk]
  · have hnone : find key [a] k = none := by
      simp [find, show ¬ key a = k from fun h => hk h.symm]
    rw [hnone, if_neg hk, Option.or_none]

/-- An element in the place of another one with its key. -/
theorem find_replace (hkeys : ((pre ++ a :: post).map key).Nodup) (hb : key b = key a) :
    find key (pre ++ b :: post) k = if k = key a then some b else find key (pre ++ a :: post) k := by
  have hkeys' : ((pre ++ b :: post).map key).Nodup := by
    simpa [hb] using hkeys
  by_cases hk : k = key a
  · rw [if_pos hk, find_eq_some hkeys']
    exact ⟨by simp, hb.trans hk.symm⟩
  · rw [if_neg hk]
    refine find_congr hkeys hkeys' fun c hc => ?_
    have hca : c ≠ a := fun h => hk (by rw [← hc, h])
    have hcb : c ≠ b := fun h => hk (by rw [← hc, h, hb])
    simp [hca, hcb]

/-- What is left without an element, in any order. -/
theorem find_remove (hkeys : ((pre ++ a :: post).map key).Nodup) (h : l.Perm (pre ++ post)) :
    find key l k = if k = key a then none else find key (pre ++ a :: post) k := by
  have hmiddle : ((a :: (pre ++ post)).map key).Nodup :=
    ((List.perm_middle.map key).nodup_iff).mp hkeys
  rw [List.map_cons, List.nodup_cons] at hmiddle
  rw [find_perm hmiddle.2 h]
  by_cases hk : k = key a
  · rw [if_pos hk, find_eq_none]
    exact fun b hb hkey => hmiddle.1 (hk ▸ hkey ▸ List.mem_map_of_mem hb)
  · rw [if_neg hk]
    refine find_congr hkeys hmiddle.2 fun c hc => ?_
    have hca : c ≠ a := fun h => hk (by rw [← hc, h])
    simp [hca]

/-- There are as many keys as elements. -/
theorem ncard_find (hkeys : (l.map key).Nodup) :
    { k | (find key l k).isSome }.ncard = l.length := by
  classical
  have hset : { k | (find key l k).isSome } = ((l.map key).toFinset : Set κ) := by
    ext k
    simp [find_isSome]
  rw [hset, Set.ncard_coe_finset, List.toFinset_card_of_nodup hkeys, List.length_map]

/-- Elements of a list whose keys increase, in the order of their keys, are a part of it. -/
theorem sublist_of_increasing {κ : Type v} [Preorder κ] (key : α → κ)
    (h : (l.map key).Pairwise (· < ·)) (h' : (l'.map key).Pairwise (· < ·)) (hsub : l ⊆ l') :
    l.Sublist l' := by
  have : Std.Antisymm fun a b : α => key a < key b :=
    ⟨fun a b hab hba => absurd (hab.trans hba) (lt_irrefl _)⟩
  rw [List.pairwise_map] at h h'
  have hnodup : l.Nodup := h.imp fun hlt => ne_of_apply_ne key hlt.ne
  exact List.sublist_of_subperm_of_pairwise (hnodup.subperm hsub) h h'

end Keyed
