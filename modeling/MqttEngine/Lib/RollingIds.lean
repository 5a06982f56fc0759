import Mathlib.Data.Set.Insert
import Mathlib.Data.List.Basic

/-!
# Ids from a rolling 16-bit counter

A counter hands out the ids 1 to 65535 in order and then starts again at 1. A record of the
ids that were taken says for each of them whether it is kept, that is, in use from then on,
and which ids were in use when it was taken. An id is released at any time.

`Rolls` is what such a record and the state of the counter have in common. Under it, whether
an id is taken again while it is in use is a matter of distances only: it happens where an
id is taken a whole number of rounds behind one that is still in use.

## Main definitions

* `Rolling.succ`, `Rolling.id` — the counter and its `k`-th id.
* `Take`, `Follows`, `Rolls` — ids that are taken, one after the other, and in a whole run.
* `Fresh`, `Unlapped` — no id is taken while it is in use; no id is lapped.
* `Cycles` — a list of ids is what the counter hands out from its first id on.
* `Draws`, `calls` — a program that hands out the counter's id, and what calls of it return.
* `Allocates` — the ids that calls return cycle.

## Main results

* `Rolls.follows` — a run goes on.
* `Rolls.fresh_iff` — the ids are fresh if and only if none is lapped.
* `Rolls.cycles` — the ids of a run cycle.
* `Draws.allocates` — the ids that calls return cycle if the counter is new.
-/

namespace Rolling

/-- The id after `id`: the counter wraps around and leaves out 0. -/
def succ (id : UInt16) : UInt16 := if id + 1 = 0 then 1 else id + 1

/-- The `k`-th id, counted from 0. -/
def id (k : ℕ) : UInt16 := UInt16.ofNat (k % 65535 + 1)

theorem id_toNat (k : ℕ) : (id k).toNat = k % 65535 + 1 := by
  rw [id, UInt16.toNat_ofNat']
  omega

theorem succ_id (k : ℕ) : succ (id k) = id (k + 1) := by
  have hk := id_toNat k
  have hk' := id_toNat (k + 1)
  have hadd : (id k + 1).toNat = (k % 65535 + 1 + 1) % 65536 := by
    rw [UInt16.toNat_add, hk]
    rfl
  apply UInt16.toNat_inj.mp
  rw [hk', succ]
  split
  · rename_i hwrap
    rw [hwrap, UInt16.toNat_zero] at hadd
    rw [show (1 : UInt16).toNat = 1 from rfl]
    omega
  · rename_i hwrap
    have hne : (id k + 1).toNat ≠ 0 := fun h => hwrap (UInt16.toNat_inj.mp h)
    omega

/-- Two ids are equal if they are whole rounds apart. -/
theorem id_eq_iff {i j : ℕ} : id i = id j ↔ i % 65535 = j % 65535 := by
  rw [← UInt16.toNat_inj, id_toNat, id_toNat]
  omega

theorem id_eq_iff_dvd {i j : ℕ} (h : i ≤ j) : id i = id j ↔ 65535 ∣ j - i := by
  rw [id_eq_iff]
  omega

/-! ## Records of the ids that were taken -/

/-- An id that is taken from the counter. -/
structure Take where
  id : UInt16
  /-- The id is in use from then on. -/
  keeps : Bool
  /-- The ids that are in use when it is taken. -/
  pending : List UInt16
  deriving DecidableEq

/-- From a counter at `next` with the ids `used` in use, ids are taken until the counter is at
`next'`, and then the ids in use are among `used'`. -/
def Follows : UInt16 → Set UInt16 → List Take → UInt16 → Set UInt16 → Prop
  | next, used, [], next', used' => next' = next ∧ used' ⊆ used
  | next, used, t :: log, next', used' =>
    t.id = next ∧ (∀ i ∈ t.pending, i ∈ used) ∧
      Follows (succ next) (used ∪ { i | t.keeps ∧ i = next }) log next' used'

theorem Follows.refl {next : UInt16} {used used' : Set UInt16} (h : used' ⊆ used) :
    Follows next used [] next used' := ⟨rfl, h⟩

theorem Follows.append {next next' next'' : UInt16} {used used' used'' : Set UInt16}
    {log log' : List Take} (h : Follows next used log next' used')
    (h' : ∀ s, used' ⊆ s → Follows next' s log' next'' used'') :
    Follows next used (log ++ log') next'' used'' := by
  induction log generalizing next used with
  | nil =>
    obtain ⟨rfl, hused⟩ := h
    exact h' used hused
  | cons t log ih =>
    obtain ⟨hid, hpending, h⟩ := h
    exact ⟨hid, hpending, ih h⟩

/-- More ids may have been in use before. -/
theorem Follows.mono {next next' : UInt16} {used used' s : Set UInt16} {log : List Take}
    (h : Follows next used log next' used') (hs : used ⊆ s) : Follows next s log next' used' := by
  induction log generalizing next used s with
  | nil => exact ⟨h.1, h.2.trans hs⟩
  | cons t log ih =>
    obtain ⟨hid, hpending, h⟩ := h
    exact ⟨hid, fun i hi => hs (hpending i hi), ih h (Set.union_subset_union_left _ hs)⟩

/-- What a run from the first id on has in common with its record. -/
structure Rolls (log : List Take) (next : UInt16) (used : Set UInt16) : Prop where
  id_eq : ∀ (k : ℕ) (t : Take), log[k]? = some t → t.id = id k
  next_eq : next = id log.length
  earlier : ∀ (k : ℕ) (t : Take), log[k]? = some t → ∀ i ∈ t.pending,
    ∃ (j : ℕ) (u : Take), j < k ∧ log[j]? = some u ∧ u.keeps ∧ u.id = i
  kept : ∀ i ∈ used, ∃ (j : ℕ) (u : Take), log[j]? = some u ∧ u.keeps ∧ u.id = i

theorem rolls_nil {used : Set UInt16} (h : used = ∅) : Rolls [] 1 used where
  id_eq := by simp
  next_eq := rfl
  earlier := by simp
  kept := by simp [h]

/-- A run goes on. -/
theorem Rolls.follows {log log' : List Take} {next next' : UInt16} {used used' : Set UInt16}
    (h : Rolls log next used) (h' : Follows next used log' next' used') :
    Rolls (log ++ log') next' used' := by
  induction log' generalizing log next used with
  | nil =>
    obtain ⟨rfl, hused⟩ := h'
    rw [List.append_nil]
    exact ⟨h.id_eq, h.next_eq, h.earlier, fun i hi => h.kept i (hused hi)⟩
  | cons t log' ih =>
    obtain ⟨hid, hpending, h'⟩ := h'
    rw [List.append_cons]
    apply ih _ h'
    have hlast (k : ℕ) (u : Take) (hu : (log ++ [t])[k]? = some u) :
        log[k]? = some u ∨ (k = log.length ∧ u = t) := by
      rcases Nat.lt_trichotomy k log.length with hlt | rfl | hgt
      · rw [List.getElem?_append_left hlt] at hu
        exact .inl hu
      · simp only [List.getElem?_concat_length, Option.some.injEq] at hu
        exact .inr ⟨rfl, hu.symm⟩
      · rw [List.getElem?_eq_none (by simp; omega)] at hu
        cases hu
    have hold {k : ℕ} {u : Take} (hu : log[k]? = some u) : (log ++ [t])[k]? = some u := by
      rw [List.getElem?_append_left (List.getElem?_eq_some_iff.mp hu).1]
      exact hu
    constructor
    · intro k u hu
      rcases hlast k u hu with hu | ⟨rfl, rfl⟩
      · exact h.id_eq k u hu
      · rw [hid, h.next_eq]
    · rw [h.next_eq, succ_id, List.length_append, List.length_singleton]
    · intro k u hu i hi
      rcases hlast k u hu with hu | ⟨rfl, rfl⟩
      · obtain ⟨j, v, hj, hv, hkeeps, hvid⟩ := h.earlier k u hu i hi
        exact ⟨j, v, hj, hold hv, hkeeps, hvid⟩
      · obtain ⟨j, v, hv, hkeeps, hvid⟩ := h.kept i (hpending i hi)
        exact ⟨j, v, (List.getElem?_eq_some_iff.mp hv).1, hold hv, hkeeps, hvid⟩
    · intro i hi
      rcases hi with hi | ⟨hkeeps, rfl⟩
      · obtain ⟨j, v, hv, hkeeps, hvid⟩ := h.kept i hi
        exact ⟨j, v, hold hv, hkeeps, hvid⟩
      · exact ⟨log.length, t, by simp, hkeeps, hid⟩

/-! ## Fresh ids -/

/-- No id is kept that is already in use. -/
def Fresh (log : List Take) : Prop := ∀ t ∈ log, t.keeps → t.id ∉ t.pending

/-- No id is kept a whole number of rounds behind a kept one that is still in use. -/
def Unlapped (log : List Take) : Prop :=
  ∀ (i j : ℕ) (t u : Take), i < j → log[i]? = some t → log[j]? = some u → t.keeps → u.keeps →
    t.id ∈ u.pending → ¬ 65535 ∣ j - i

/-- The ids are fresh if and only if none is lapped. -/
theorem Rolls.fresh_iff {log : List Take} {next : UInt16} {used : Set UInt16}
    (h : Rolls log next used) : Fresh log ↔ Unlapped log := by
  constructor
  · intro hfresh i j t u hlt ht hu _ hkeeps hpending hdvd
    have hsame : t.id = u.id := by
      rw [h.id_eq i t ht, h.id_eq j u hu, id_eq_iff_dvd hlt.le]
      exact hdvd
    rw [hsame] at hpending
    exact hfresh u (List.mem_of_getElem? hu) hkeeps hpending
  · intro hlap u hu hkeeps hpending
    obtain ⟨j, hu⟩ := List.getElem?_of_mem hu
    obtain ⟨i, t, hlt, ht, htkeeps, htid⟩ := h.earlier j u hu u.id hpending
    apply hlap i j t u hlt ht hu htkeeps hkeeps (htid ▸ hpending)
    rw [← id_eq_iff_dvd hlt.le, ← h.id_eq i t ht, ← h.id_eq j u hu]
    exact htid

/-! ## Cycles -/

/-- The ids go through 1 to 65535 again and again: the `k`-th, counted from 0, is `k` modulo 65535
plus 1, so that none is 0 and an id comes again only after all the others. -/
structure Cycles (ids : List UInt16) : Prop where
  nth : ∀ (k : ℕ) (i : UInt16), ids[k]? = some i → i.toNat = k % 65535 + 1
  ne_zero : 0 ∉ ids
  distinct : ∀ k : ℕ, ((ids.drop k).take 65535).Nodup

theorem cycles_of_getElem? {ids : List UInt16}
    (h : ∀ (k : ℕ) (i : UInt16), ids[k]? = some i → i = id k) : Cycles ids where
  nth k i hi := by rw [h k i hi, id_toNat]
  ne_zero hzero := by
    obtain ⟨k, hk⟩ := List.getElem?_of_mem hzero
    have hid := id_toNat k
    rw [← h k 0 hk, UInt16.toNat_zero] at hid
    omega
  distinct k := by
    rw [List.Nodup, List.pairwise_iff_getElem]
    intro a b ha hb hlt heq
    have hat {c : ℕ} (hc : c < ((ids.drop k).take 65535).length) :
        ((ids.drop k).take 65535)[c] = id (k + c) := by
      apply h
      rw [← List.getElem?_drop, ← List.getElem?_take_of_lt (by simp at hc; omega : c < 65535)]
      exact List.getElem?_eq_getElem hc
    -- Two ids of a window are less than a round apart.
    rw [hat ha, hat hb, id_eq_iff] at heq
    have hwindow : b < 65535 := by
      simp only [List.length_take] at hb
      omega
    omega

theorem Rolls.cycles {log : List Take} {next : UInt16} {used : Set UInt16}
    (h : Rolls log next used) : Cycles (log.map (·.id)) := by
  apply cycles_of_getElem?
  intro k i hi
  rw [List.getElem?_map] at hi
  obtain ⟨t, ht, rfl⟩ := Option.map_eq_some_iff.mp hi
  exact h.id_eq k t ht

/-! ### Calls in a row -/

section
variable {ε σ α : Type}

/-- The results of a number of calls, one after the other. -/
def calls (x : EStateM ε σ α) : ℕ → EStateM ε σ (List α)
  | 0 => pure []
  | n + 1 => do
    let a ← x
    let rest ← calls x n
    pure (a :: rest)

/-- The program hands out the counter's id and moves the counter on. -/
def Draws (counter : σ → UInt16) (x : EStateM ε σ UInt16) : Prop :=
  ∀ s, ∃ s', x s = .ok (counter s) s' ∧ counter s' = succ (counter s)

variable {x : EStateM ε σ UInt16} {counter : σ → UInt16}

/-- A number of calls hand out the ids in order. -/
theorem Draws.calls_eq (h : Draws counter x) (n : ℕ) {k : ℕ} {s : σ} (hs : counter s = id k) :
    ∃ s', calls x n s = .ok ((List.range' k n).map id) s' ∧ counter s' = id (k + n) := by
  induction n generalizing k s with
  | zero => exact ⟨s, rfl, hs⟩
  | succ n ih =>
    obtain ⟨s', hx, hs'⟩ := h s
    rw [hs, succ_id] at hs'
    obtain ⟨s'', hcalls, hs''⟩ := ih hs'
    refine ⟨s'', ?_, ?_⟩
    · simp only [calls, bind, EStateM.bind, hx, hcalls, hs]
      rfl
    · rw [hs'']
      congr 1
      omega

theorem cycles_range (n : ℕ) : Cycles ((List.range' 0 n).map id) := by
  apply cycles_of_getElem?
  intro k i hi
  rw [List.getElem?_map] at hi
  obtain ⟨j, hj, rfl⟩ := Option.map_eq_some_iff.mp hi
  obtain ⟨hlt, rfl⟩ := List.getElem?_eq_some_iff.mp hj
  simp

/-- However often the program is called from the state on, it returns every time, and the ids
cycle. -/
def Allocates (x : EStateM ε σ UInt16) (s : σ) : Prop :=
  ∀ n, ∃ ids s', calls x n s = .ok ids s' ∧ ids.length = n ∧ Cycles ids

theorem Draws.allocates (h : Draws counter x) {s : σ} (hs : counter s = 1) : Allocates x s := by
  intro n
  obtain ⟨s', hcalls, -⟩ := h.calls_eq n (k := 0) hs
  exact ⟨_, s', hcalls, by simp, cycles_range n⟩

end

end Rolling
