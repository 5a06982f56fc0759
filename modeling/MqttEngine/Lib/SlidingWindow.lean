import Mathlib.Data.List.DropRight
import Mathlib.Data.List.Induction
import Mathlib.Data.List.Perm.Basic
import Mathlib.Data.List.Range

/-!
# Sliding windows

A window keeps the latest entries of a history: an entry that finds the window full pushes the
oldest one out. The check for room comes before the entry, so that a window without places keeps one
entry all the same. When the entries are tickets that have been given out in order, the window holds
the latest tickets just if none of the latest entries comes in behind a later ticket.

## Main definitions

* `SlidingWindow.push` — one more entry.
* `SlidingWindow.InTurn` — none of the latest entries comes in late.

## Main results

* `push_rtake` — a window holds the latest entries of its history.
* `rtake_eq_range_iff` — when these are the latest tickets.
-/

namespace SlidingWindow
universe u
variable {α : Type u}

/-- One more entry, after the oldest one has been pushed out of a full window. -/
def push (capacity : ℕ) (window : List α) (a : α) : List α :=
  (if capacity ≤ window.length then window.tail else window) ++ [a]

theorem map_push {β : Type u} (f : α → β) (capacity : ℕ) (window : List α) (a : α) :
    (push capacity window a).map f = push capacity (window.map f) (f a) := by
  rw [push, push, List.map_append, List.length_map]
  split
  · rw [List.map_tail, List.map_singleton]
  · rw [List.map_singleton]

theorem map_rtake {β : Type u} (f : α → β) (l : List α) (n : ℕ) :
    (l.rtake n).map f = (l.map f).rtake n := by
  rw [List.rtake, List.rtake, List.map_drop, List.length_map]

theorem mem_of_mem_rtake {l : List α} {n : ℕ} {a : α} (h : a ∈ l.rtake n) : a ∈ l :=
  List.mem_of_mem_drop h

/-- A window with places holds as many of the latest entries, one without places the latest. -/
theorem push_rtake (capacity : ℕ) (history : List α) (a : α) :
    push capacity (history.rtake (max 1 capacity)) a = (history ++ [a]).rtake (max 1 capacity) := by
  obtain ⟨rest, hrest⟩ : ∃ rest, max 1 capacity = rest + 1 := ⟨max 1 capacity - 1, by omega⟩
  rw [hrest, List.rtake_concat_succ, push, List.rtake, List.rtake, List.length_drop, List.tail_drop]
  congr 1
  split
  · -- The window is full, or has no places.
    rename_i hfull
    by_cases hlong : rest + 1 ≤ history.length
    · congr 1
      omega
    · rw [List.drop_eq_nil_of_le (by omega), List.drop_eq_nil_of_le (by omega)]
  · congr 1
    omega

/-! ## Tickets -/

/-- None of the latest `n` entries has come in behind a later ticket. -/
def InTurn (entries : List ℕ) (n : ℕ) : Prop :=
  ∀ before ticket after, entries = before ++ ticket :: after → after.length < n →
    ∀ earlier ∈ before, earlier < ticket

theorem inTurn_concat {entries : List ℕ} {ticket n : ℕ} :
    InTurn (entries ++ [ticket]) (n + 1) ↔
      (∀ earlier ∈ entries, earlier < ticket) ∧ InTurn entries n := by
  constructor
  · intro h
    refine ⟨h entries ticket [] rfl (by simp), fun before ticket' after heq hlength => ?_⟩
    exact h before ticket' (after ++ [ticket]) (by simp [heq]) (by simpa using hlength)
  · rintro ⟨hlast, h⟩ before ticket' after heq hlength
    induction after using List.reverseRecOn with
    | nil =>
      obtain ⟨rfl, hticket⟩ := List.append_inj' heq rfl
      obtain rfl := List.singleton_inj.mp hticket
      exact hlast
    | append_singleton after last _ =>
      rw [← List.cons_append, ← List.append_assoc] at heq
      obtain ⟨rfl, -⟩ := List.append_inj' heq rfl
      exact h before ticket' after rfl (by simpa using hlength)

/-- When all tickets have come in, the latest entry is the latest ticket just if it is the greatest. -/
theorem forall_lt_iff {entries : List ℕ} {ticket count : ℕ}
    (h : (entries ++ [ticket]).Perm (List.range (count + 1))) :
    (∀ earlier ∈ entries, earlier < ticket) ↔ ticket = count := by
  have hmem : ∀ a, a ∈ entries ∨ a = ticket ↔ a < count + 1 := fun a => by
    rw [← List.mem_range, ← h.mem_iff, List.mem_append, List.mem_singleton]
  have hnodup := h.nodup_iff.mpr List.nodup_range
  rw [List.nodup_append] at hnodup
  constructor
  · intro hlast
    rcases (hmem count).mpr (by omega) with hcount | hcount
    · have hlt := hlast count hcount
      have hle := (hmem ticket).mp (.inr rfl)
      omega
    · exact hcount.symm
  · rintro rfl earlier hearlier
    have hle := (hmem earlier).mp (.inl hearlier)
    have hne : earlier ≠ ticket := hnodup.2.2 earlier hearlier ticket (by simp)
    omega

/-- **The latest entries are the latest tickets** just if each of them has come in its turn. -/
theorem rtake_eq_range_iff {entries : List ℕ} {count n : ℕ} (h : entries.Perm (List.range count)) :
    entries.rtake n = (List.range count).rtake n ↔ InTurn entries n := by
  induction entries using List.reverseRecOn generalizing count n with
  | nil =>
    have hcount : List.range count = [] := h.symm.eq_nil
    rw [hcount]
    exact iff_of_true rfl fun before ticket after heq => by simp at heq
  | append_singleton entries ticket ih =>
    cases n with
    | zero => exact iff_of_true (by simp) fun before ticket after _ hlength => by omega
    | succ n =>
      obtain ⟨count, rfl⟩ : ∃ m, count = m + 1 := by
        have hlength := h.length_eq
        rw [List.length_append, List.length_singleton, List.length_range] at hlength
        exact ⟨_, hlength.symm⟩
      rw [inTurn_concat, forall_lt_iff h, List.range_succ, List.rtake_concat_succ,
        List.rtake_concat_succ]
      constructor
      · intro heq
        obtain ⟨hrest, hticket⟩ := List.append_inj' heq rfl
        obtain rfl := List.singleton_inj.mp hticket
        rw [List.range_succ] at h
        exact ⟨rfl, (ih ((List.perm_append_right_iff _).mp h)).mp hrest⟩
      · rintro ⟨rfl, hturn⟩
        rw [List.range_succ] at h
        rw [(ih ((List.perm_append_right_iff _).mp h)).mpr hturn]

end SlidingWindow
