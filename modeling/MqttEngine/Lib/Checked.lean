import Mathlib.Data.List.Basic

/-!
# Checked evaluation of slice programs

A call ends in a value, in an error it returns, in a panic, or not at all. The four
outcomes are kept apart, so that "returns" is a statement about a program and
not a convention: an out-of-bounds index is `panic`, and a loop that has used up the
iterations its caller allows it is `diverge`.

## Main definitions

* `Fault ε`, `Checked ε α` — the outcomes of a call.
* `Returns` — the call ends in a value or in an error of its own.
* `Checked.get`, `Checked.index`, `Checked.range` — the three ways a program reads a slice.
* `Checked.sub` — subtraction, which panics below zero.
-/

universe u v

/-- How a call can end without a value. -/
inductive Fault (ε : Type u)
  /-- The call returned an error. -/
  | err (e : ε)
  /-- The call panicked. -/
  | panic
  /-- A loop of the call did not end. -/
  | diverge
  deriving DecidableEq, Repr

/-- The outcome of a pure call. -/
abbrev Checked (ε : Type u) (α : Type v) := Except (Fault ε) α

instance {ε α : Type} [DecidableEq ε] [DecidableEq α] : DecidableEq (Checked ε α)
  | .ok a, .ok b => decidable_of_iff (a = b) (by simp)
  | .error a, .error b => decidable_of_iff (a = b) (by simp)
  | .ok _, .error _ => isFalse (by simp)
  | .error _, .ok _ => isFalse (by simp)

namespace Checked
variable {ε : Type u} {α β : Type v}

/-- The call ends: in a value, or in an error it returns. -/
def Returns (x : Checked ε α) : Prop := x ≠ .error .panic ∧ x ≠ .error .diverge

theorem returns_iff (x : Checked ε α) :
    Returns x ↔ (∃ a, x = .ok a) ∨ ∃ e, x = .error (.err e) := by
  constructor
  · intro h
    match x, h with
    | .ok a, _ => exact .inl ⟨a, rfl⟩
    | .error (.err e), _ => exact .inr ⟨e, rfl⟩
    | .error .panic, h => exact absurd rfl h.1
    | .error .diverge, h => exact absurd rfl h.2
  · rintro (⟨a, rfl⟩ | ⟨e, rfl⟩) <;> simp [Returns]

@[simp] theorem returns_ok (a : α) : Returns (.ok a : Checked ε α) := by simp [Returns]
@[simp] theorem returns_pure (a : α) : Returns (pure a : Checked ε α) := returns_ok a
@[simp] theorem returns_err (e : ε) : Returns (.error (.err e) : Checked ε α) := by
  simp [Returns]
@[simp] theorem returns_throw (e : ε) : Returns (throw (.err e) : Checked ε α) := returns_err e
@[simp] theorem not_returns_panic : ¬ Returns (.error .panic : Checked ε α) := by
  simp [Returns]
@[simp] theorem not_returns_diverge : ¬ Returns (.error .diverge : Checked ε α) := by
  simp [Returns]

/-- Sequencing: the second call has to return only on values the first one yields. -/
theorem Returns.bind {x : Checked ε α} {f : α → Checked ε β} (hx : Returns x)
    (hf : ∀ a, x = .ok a → Returns (f a)) : Returns (x >>= f) := by
  match x, hx, hf with
  | .ok a, _, hf => exact hf a rfl
  | .error (.err e), _, _ => exact returns_err e
  | .error .panic, hx, _ => exact absurd rfl hx.1
  | .error .diverge, hx, _ => exact absurd rfl hx.2

/-- A sequence yields a value when its first call yields one from which the second does. -/
theorem bind_eq_ok {x : Checked ε α} {f : α → Checked ε β} {b : β} :
    (x >>= f) = .ok b ↔ ∃ a, x = .ok a ∧ f a = .ok b := by
  cases x with
  | ok a => simp [Bind.bind, Except.bind]
  | error e => simp [Bind.bind, Except.bind]

/-- What every call of a fold keeps holds of the value that the fold yields. -/
theorem foldlM_invariant {f : α → β → Checked ε α} {I : α → Prop} {bs : List β} {a a' : α}
    (h : bs.foldlM f a = .ok a') (ha : I a) (hf : ∀ a a' b, I a → f a b = .ok a' → I a') :
    I a' := by
  induction bs generalizing a with
  | nil =>
    cases h
    exact ha
  | cons b bs ih =>
    rw [List.foldlM_cons] at h
    obtain ⟨next, hnext, h⟩ := bind_eq_ok.mp h
    exact ih h (hf a next b ha hnext)

theorem map_eq_ok {x : Checked ε α} {f : α → β} {b : β} :
    x.map f = .ok b ↔ ∃ a, x = .ok a ∧ f a = b := by
  cases x <;> simp [Except.map]

theorem map_eq_ok_of {x : Checked ε α} {a : α} (f : α → β) (h : x = .ok a) :
    x.map f = .ok (f a) := by rw [h]; rfl

theorem returns_map {x : Checked ε α} (f : α → β) : Returns (x.map f) ↔ Returns x := by
  rcases x with (_ | _ | _) | a <;> simp [Except.map, Returns]

@[simp] theorem ok_bind (a : α) (f : α → Checked ε β) : ((.ok a : Checked ε α) >>= f) = f a := rfl
@[simp] theorem error_bind (e : Fault ε) (f : α → Checked ε β) :
    ((.error e : Checked ε α) >>= f) = .error e := rfl

/-- `xs.get(i).ok_or(e)?`. -/
def get (xs : List α) (i : ℕ) (e : ε) : Checked ε α :=
  match xs[i]? with
  | some a => .ok a
  | none => .error (.err e)

/-- `xs[i]`. -/
def index (xs : List α) (i : ℕ) : Checked ε α :=
  match xs[i]? with
  | some a => .ok a
  | none => .error .panic

/-- `&xs[a..b]`. -/
def range (xs : List α) (a b : ℕ) : Checked ε (List α) :=
  if a ≤ b ∧ b ≤ xs.length then .ok ((xs.take b).drop a) else .error .panic

/-- `a - b` on unsigned numbers. -/
def sub (a b : ℕ) : Checked ε ℕ := if b ≤ a then .ok (a - b) else .error .panic

theorem sub_of_le {a b : ℕ} (h : b ≤ a) : (sub a b : Checked ε ℕ) = .ok (a - b) := if_pos h

theorem sub_eq_ok {a b c : ℕ} : (sub a b : Checked ε ℕ) = .ok c ↔ c + b = a := by
  rw [sub]
  split
  · rw [Except.ok.injEq]
    omega
  · simp only [reduceCtorEq, false_iff]
    omega

theorem returns_get (xs : List α) (i : ℕ) (e : ε) : Returns (get xs i e) := by
  unfold get
  split <;> simp

theorem get_eq_ok {xs : List α} {i : ℕ} {e : ε} {a : α} :
    get xs i e = .ok a ↔ xs[i]? = some a := by
  unfold get
  split <;> simp_all

theorem get_of_lt {xs : List α} {i : ℕ} (h : i < xs.length) (e : ε) :
    get xs i e = .ok xs[i] := get_eq_ok.mpr (List.getElem?_eq_getElem h)

theorem get_of_le {xs : List α} {i : ℕ} (h : xs.length ≤ i) (e : ε) :
    get xs i e = .error (.err e) := by
  simp [get, List.getElem?_eq_none h]

theorem index_of_lt {xs : List α} {i : ℕ} (h : i < xs.length) :
    (index xs i : Checked ε α) = .ok xs[i] := by
  simp [index, List.getElem?_eq_getElem h]

theorem returns_index {xs : List α} {i : ℕ} (h : i < xs.length) :
    Returns (index xs i : Checked ε α) := by
  rw [index_of_lt h]; exact returns_ok _

theorem range_of_le {xs : List α} {a b : ℕ} (hab : a ≤ b) (hb : b ≤ xs.length) :
    (range xs a b : Checked ε (List α)) = .ok ((xs.take b).drop a) := if_pos ⟨hab, hb⟩

theorem returns_range_iff {xs : List α} {a b : ℕ} :
    Returns (range xs a b : Checked ε (List α)) ↔ a ≤ b ∧ b ≤ xs.length := by
  unfold range
  split <;> simp_all

end Checked
