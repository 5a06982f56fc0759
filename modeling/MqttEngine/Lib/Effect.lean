import Mathlib.Logic.Basic

/-!
# Pre- and postconditions of programs with state and errors

A program with state `σ` and errors `ε` is an `EStateM ε σ α`: it ends in a value or in an
error, and in a state either way. `Ends x s Q E` says how `x` ends when it starts in `s`:
in a value and a state that satisfy `Q`, or in an error and a state that satisfy `E`.
`Preserves I x` is the case where both are the invariant `I`. The rules follow the
structure of a program. `outcome` evaluates a program instead: what it ends in, and the state it
leaves. `Agree R x y` compares two programs: started in related states they end alike, in related
states.

## Main definitions

* `outcome` — the value or error of a run, and its last state.
* `Ends` — the postcondition of a run.
* `Preserves` — a program that keeps an invariant, however it ends.
* `Alike`, `Agree` — two ends that are alike, and two programs that end alike.
-/

universe u

/-- Started in `s`, the program ends in a value with `Q` or in an error with `E`. -/
def Ends {ε σ α : Type u} (x : EStateM ε σ α) (s : σ) (Q : α → σ → Prop) (E : ε → σ → Prop) : Prop :=
  match x s with
  | .ok a s' => Q a s'
  | .error e s' => E e s'

section
variable {ε σ α β : Type u} {x y : EStateM ε σ α} {f : α → EStateM ε σ β} {s s' : σ}

/-- A sequence depends on how its first program ends. -/
theorem run_bind_congr (h : x s = y s') : (x >>= f) s = (y >>= f) s' := by
  simp only [Bind.bind, EStateM.bind, h]

/-- A sequence continues where its first program ends. -/
theorem run_bind {a : α} (h : x s = .ok a s') : (x >>= f) s = f a s' := by
  simp only [Bind.bind, EStateM.bind, h]

/-- A sequence ends where its first program fails. -/
theorem run_bind_error {e : ε} (h : x s = .error e s') : (x >>= f) s = .error e s' := by
  simp only [Bind.bind, EStateM.bind, h]

/-- A sequence that ends in a value has gone through a value of its first program. -/
theorem ok_of_bind {b : β} {t : σ} (h : (x >>= f) s = .ok b t) :
    ∃ a s', x s = .ok a s' ∧ f a s' = .ok b t := by
  rcases hx : x s with ⟨a, s'⟩ | ⟨e, s'⟩
  · exact ⟨a, s', rfl, by rwa [run_bind hx] at h⟩
  · rw [run_bind_error hx] at h
    cases h

end

/-! ## Evaluation -/

/-- The value or error that a program ends in, and the state it leaves. -/
def outcome {ε σ α : Type u} (x : EStateM ε σ α) (s : σ) : Except ε α × σ :=
  match x s with
  | .ok a s' => (.ok a, s')
  | .error e s' => (.error e, s')

/-- A run that is evaluated to an observation of its value and its last state has ended in them. -/
theorem exists_ok {ε σ α β : Type u} {x : EStateM ε σ α} {s : σ} {f : α → σ → β} {b : β}
    (h : (match x s with
      | .ok a s' => some (f a s')
      | .error _ _ => none) = some b) : ∃ a s', x s = .ok a s' ∧ f a s' = b := by
  split at h
  · exact ⟨_, _, by assumption, Option.some.inj h⟩
  · cases h

section
variable {ε σ α β : Type u} {s t : σ} {e : ε} {g : PUnit → EStateM ε σ β}

@[simp] theorem outcome_get {f : σ → EStateM ε σ β} :
    outcome (get >>= f) s = outcome (f s) s := rfl

@[simp] theorem outcome_set : outcome (set t >>= g) s = outcome (g ⟨⟩) t := rfl

@[simp] theorem outcome_set_last : outcome (set t : EStateM ε σ PUnit) s = (.ok ⟨⟩, t) := rfl

@[simp] theorem outcome_modify {f : σ → σ} :
    outcome (modify f >>= g) s = outcome (g ⟨⟩) (f s) := rfl

@[simp] theorem outcome_pure (a : α) : outcome (pure a : EStateM ε σ α) s = (.ok a, s) := rfl

@[simp] theorem outcome_throw : outcome (throw e : EStateM ε σ α) s = (.error e, s) := rfl

end

/-! ## Postconditions -/

namespace Ends
variable {ε σ α β : Type u} {x : EStateM ε σ α} {f : α → EStateM ε σ β} {s : σ}
  {Q Q' : α → σ → Prop} {R : β → σ → Prop} {E E' : ε → σ → Prop}

theorem ok_of (h : Ends x s Q E) {a : α} {s' : σ} (hx : x s = .ok a s') : Q a s' := by
  simpa only [Ends, hx] using h

theorem error_of (h : Ends x s Q E) {e : ε} {s' : σ} (hx : x s = .error e s') : E e s' := by
  simpa only [Ends, hx] using h

theorem trivial : Ends x s (fun _ _ => True) fun _ _ => True := by
  unfold Ends
  split <;> simp

/-- A postcondition may be weakened. -/
theorem mono (h : Ends x s Q E) (hQ : ∀ a s', Q a s' → Q' a s') (hE : ∀ e s', E e s' → E' e s') :
    Ends x s Q' E' := by
  unfold Ends at h ⊢
  split at h
  · exact hQ _ _ h
  · exact hE _ _ h

/-- Two postconditions of one run hold together. -/
theorem and (h : Ends x s Q E) (h' : Ends x s Q' E') :
    Ends x s (fun a s' => Q a s' ∧ Q' a s') fun e s' => E e s' ∧ E' e s' := by
  unfold Ends at h h' ⊢
  rcases hx : x s with ⟨a, s'⟩ | ⟨e, s'⟩
  · rw [hx] at h h'
    exact ⟨h, h'⟩
  · rw [hx] at h h'
    exact ⟨h, h'⟩

/-- Sequencing: the second program starts where the first one ends. -/
theorem bind (h : Ends x s (fun a s' => Ends (f a) s' R E) E) : Ends (x >>= f) s R E := by
  unfold Ends at h ⊢
  simp only [Bind.bind, EStateM.bind]
  split at h
  · rename_i a s' hx
    rw [hx]
    exact h
  · rename_i e s' hx
    rw [hx]
    exact h

/-- Sequencing, when only the value of the whole program matters. -/
theorem bind_any (h : ∀ a s', Ends (f a) s' R fun _ _ => True) :
    Ends (x >>= f) s R fun _ _ => True := by
  apply bind
  unfold Ends
  split
  · exact h _ _
  · trivial

/-- The two branches of a choice. -/
theorem ite {c : Prop} [Decidable c] {y : EStateM ε σ α} (hx : c → Ends x s Q E)
    (hy : ¬ c → Ends y s Q E) : Ends (if c then x else y) s Q E := by
  by_cases hc : c
  · rw [if_pos hc]
    exact hx hc
  · rw [if_neg hc]
    exact hy hc

theorem pure {a : α} (h : Q a s) : Ends (Pure.pure a) s Q E := h

theorem throw {e : ε} (h : E e s) : Ends (MonadExcept.throw e) s Q E := h

theorem get {Q : σ → σ → Prop} (h : Q s s) : Ends MonadState.get s Q E := h

theorem modify {g : σ → σ} {Q : PUnit → σ → Prop} (h : Q ⟨⟩ (g s)) :
    Ends (modifyThe σ g) s Q E := h

end Ends

/-- Started in a state with the invariant `I`, the program ends in one. -/
def Preserves {ε σ α : Type u} (I : σ → Prop) (x : EStateM ε σ α) : Prop :=
  ∀ s, I s → Ends x s (fun _ s' => I s') fun _ s' => I s'

namespace Preserves
variable {ε σ α β γ : Type u} {I : σ → Prop} {x : EStateM ε σ α}

theorem pure (a : α) : Preserves I (Pure.pure a : EStateM ε σ α) := fun _ h => h

theorem throw (e : ε) : Preserves I (MonadExcept.throw e : EStateM ε σ α) := fun _ h => h

theorem bind {f : α → EStateM ε σ β} (hx : Preserves I x) (hf : ∀ a, Preserves I (f a)) :
    Preserves I (x >>= f) := fun s hs =>
  Ends.bind <| (hx s hs).mono (fun a s' hs' => hf a s' hs') fun _ _ h => h

/-- A program that looks at the state may rely on the invariant. -/
theorem get_bind {f : σ → EStateM ε σ β} (hf : ∀ s, I s → Preserves I (f s)) :
    Preserves I (MonadState.get >>= f) := fun s hs => hf s hs s hs

theorem modify {g : σ → σ} (h : ∀ s, I s → I (g s)) : Preserves I (modifyThe σ g : EStateM ε σ PUnit) :=
  fun s hs => h s hs

theorem ite {c : Prop} [Decidable c] {y : EStateM ε σ α} (hx : c → Preserves I x)
    (hy : ¬ c → Preserves I y) : Preserves I (if c then x else y) :=
  fun s hs => Ends.ite (fun hc => hx hc s hs) fun hc => hy hc s hs

/-- The invariant rule of a loop over a list. -/
theorem forM {γ : Type} {f : γ → EStateM ε σ PUnit} {l : List γ} (h : ∀ a ∈ l, Preserves I (f a)) :
    Preserves I (l.forM f) := by
  induction l with
  | nil => exact pure _
  | cons a l ih =>
    apply bind (h a (by simp))
    intro _
    exact ih fun b hb => h b (by simp [hb])

end Preserves

/-! ## Two programs -/

/-- Two ends with the same value, or the same error, and related states. -/
def Alike {ε σ α : Type u} (R : σ → σ → Prop) : EStateM.Result ε σ α → EStateM.Result ε σ α → Prop
  | .ok a s, .ok b t => a = b ∧ R s t
  | .error e s, .error e' t => e = e' ∧ R s t
  | _, _ => False

/-- Started in related states, the programs end alike. -/
def Agree {ε σ α : Type u} (R : σ → σ → Prop) (x y : EStateM ε σ α) : Prop :=
  ∀ s t, R s t → Alike R (x s) (y t)

namespace Agree
variable {ε σ α β : Type u} {R : σ → σ → Prop} {x y : EStateM ε σ α}

theorem pure (a : α) : Agree R (Pure.pure a : EStateM ε σ α) (Pure.pure a) :=
  fun _ _ h => ⟨rfl, h⟩

theorem throw (e : ε) : Agree R (MonadExcept.throw e : EStateM ε σ α) (MonadExcept.throw e) :=
  fun _ _ h => ⟨rfl, h⟩

theorem modify {g g' : σ → σ} (h : ∀ s t, R s t → R (g s) (g' t)) :
    Agree R (modifyThe σ g : EStateM ε σ PUnit) (modifyThe σ g') :=
  fun s t hst => ⟨rfl, h s t hst⟩

/-- If the first programs end alike, the second ones are started in related states. -/
theorem bind_alike {R' : σ → σ → Prop} {f g : α → EStateM ε σ β} {s t : σ}
    (hx : Alike R (x s) (y t)) (hR : ∀ s t, R s t → R' s t)
    (hf : ∀ a s' t', x s = .ok a s' → y t = .ok a t' → R s' t' → Alike R' (f a s') (g a t')) :
    Alike R' ((x >>= f) s) ((y >>= g) t) := by
  simp only [Bind.bind, EStateM.bind]
  rcases hxs : x s with ⟨a, s'⟩ | ⟨e, s'⟩ <;> rcases hyt : y t with ⟨b, t'⟩ | ⟨e', t'⟩
  all_goals
    rw [hxs, hyt] at hx
  · obtain ⟨rfl, hst⟩ := hx
    exact hf a s' t' hxs hyt hst
  · exact hx.elim
  · exact hx.elim
  · exact ⟨hx.1, hR _ _ hx.2⟩

theorem bind {f g : α → EStateM ε σ β} (hx : Agree R x y) (hf : ∀ a, Agree R (f a) (g a)) :
    Agree R (x >>= f) (y >>= g) :=
  fun s t hst => bind_alike (hx s t hst) (fun _ _ h => h) fun a s' t' _ _ hR => hf a s' t' hR

theorem forM {γ : Type} {f g : γ → EStateM ε σ PUnit} (h : ∀ a, Agree R (f a) (g a)) (l : List γ) :
    Agree R (l.forM f) (l.forM g) := by
  induction l with
  | nil => exact pure _
  | cons a l ih => exact bind (h a) fun _ => ih

end Agree
