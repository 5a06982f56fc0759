import Mathlib.Data.List.Induction
import Mathlib.Logic.Relation

/-!
# Components that answer requests

A component with states `σ` takes a request to an answer and to its next state. One component
simulates another along a relation of their states when related states give equal answers and
related next states. Whoever only sees the answers cannot tell the two apart in any run.

## Main definitions

* `Machine.run` — the answers of a run, and the state it ends in.
* `Machine.Simulates` — simulation along a relation.
* `Machine.Reaches`, `Machine.replay` — runs of steps that may be impossible.
* `Machine.Settles` — something comes to hold for good.
* `Machine.Latest` — an event of a history, with only events of some kind after it.
* `Machine.Before` — of two events, each the latest with its key, one comes before the other.

## Main results

* `Machine.Simulates.run` — equal answers in every run, and related states after it.
* `Machine.foldlM_invariant`, `Machine.Reaches.invariant` — an invariant of steps that may be
  impossible holds in every run.
* `Machine.length_le_of_replay` — steps that lower a bound come to an end.
* `Machine.settles_of_rank` — what a falling rank leads to.
* `Machine.Before.asymm`, `Machine.before_or_before` — the latest events are in order.
-/

namespace Machine
universe u v
variable {ι ο σ τ : Type u}

/-- The answers of a run, and the state it ends in. -/
def run (step : σ → ι → ο × σ) (s : σ) : List ι → List ο × σ
  | [] => ([], s)
  | i :: is => ((step s i).1 :: (run step (step s i).2 is).1, (run step (step s i).2 is).2)

section
variable {step : σ → ι → ο × σ} {s : σ}

@[simp] theorem run_nil : run step s [] = ([], s) := rfl

@[simp] theorem run_cons (i : ι) (is : List ι) :
    run step s (i :: is) =
      ((step s i).1 :: (run step (step s i).2 is).1, (run step (step s i).2 is).2) := rfl

theorem run_append (is js : List ι) :
    run step s (is ++ js) =
      ((run step s is).1 ++ (run step (run step s is).2 js).1,
        (run step (run step s is).2 js).2) := by
  induction is generalizing s with
  | nil => simp
  | cons i is ih => simp [ih]

/-- Every request is answered. -/
@[simp] theorem length_run (is : List ι) : (run step s is).1.length = is.length := by
  induction is generalizing s with
  | nil => simp
  | cons i is ih => simp [ih]

end

/-- Related states give equal answers and related next states. -/
structure Simulates (R : σ → τ → Prop) (step : σ → ι → ο × σ) (abstract : τ → ι → ο × τ) : Prop where
  /-- The answers are equal. -/
  answer : ∀ {s t}, R s t → ∀ i, (step s i).1 = (abstract t i).1
  /-- The next states are related. -/
  next : ∀ {s t}, R s t → ∀ i, R (step s i).2 (abstract t i).2

/-- Related states give the same answers in a run, and are related after it. -/
theorem Simulates.run {R : σ → τ → Prop} {step : σ → ι → ο × σ} {abstract : τ → ι → ο × τ}
    (h : Simulates R step abstract) {s : σ} {t : τ} (hR : R s t) (is : List ι) :
    (Machine.run step s is).1 = (Machine.run abstract t is).1 ∧
      R (Machine.run step s is).2 (Machine.run abstract t is).2 := by
  induction is generalizing s t with
  | nil => exact ⟨rfl, hR⟩
  | cons i is ih =>
    have hrest := ih (h.next hR i)
    exact ⟨by simp [h.answer hR i, hrest.1], hrest.2⟩

/-! ## Steps that may be impossible -/

/-- What is reached by steps that are possible and meet a condition. -/
def Reaches (step : σ → ι → Option σ) (ok : σ → ι → Prop) : σ → σ → Prop :=
  Relation.ReflTransGen fun s t => ∃ i, ok s i ∧ step s i = some t

/-- The end of a list of steps, if each of them is possible and meets the condition. -/
def replay (step : σ → ι → Option σ) (ok : σ → ι → Prop) [∀ s i, Decidable (ok s i)] (s : σ)
    (is : List ι) : Option σ :=
  is.foldlM (fun s i => if ok s i then step s i else none) s

section
variable {step : σ → ι → Option σ} {ok : σ → ι → Prop} {s t : σ}

/-- What holds at the start and every step that is possible keeps holds at the end of a list of
steps. -/
theorem foldlM_invariant {I : σ → Prop} {is : List ι} (h : is.foldlM step s = some t) (hs : I s)
    (hstep : ∀ s t i, I s → step s i = some t → I t) : I t := by
  induction is generalizing s with
  | nil =>
    cases h
    exact hs
  | cons i is ih =>
    rw [List.foldlM_cons] at h
    obtain ⟨u, hi, hrest⟩ := Option.bind_eq_some_iff.mp h
    exact ih hrest (hstep s u i hs hi)

theorem reaches_of_replay [∀ s i, Decidable (ok s i)] {is : List ι}
    (h : replay step ok s is = some t) : Reaches step ok s t := by
  apply foldlM_invariant h (Relation.ReflTransGen.refl : Reaches step ok s s)
  intro u v i hu hi
  split at hi
  · rename_i hok
    exact .tail hu ⟨i, hok, hi⟩
  · cases hi

/-- Steps that lower a bound come to an end. -/
theorem length_le_of_replay [∀ s i, Decidable (ok s i)] (bound : σ → ℕ) {I : σ → Prop}
    {is : List ι} (h : replay step ok s is = some t) (hs : I s)
    (hstep : ∀ s t i, I s → ok s i → step s i = some t → I t ∧ bound t < bound s) :
    I t ∧ is.length + bound t ≤ bound s := by
  induction is generalizing s with
  | nil =>
    cases h
    exact ⟨hs, by simp⟩
  | cons i is ih =>
    rw [replay, List.foldlM_cons] at h
    obtain ⟨u, hi, hrest⟩ := Option.bind_eq_some_iff.mp h
    split at hi
    · rename_i hok
      obtain ⟨hu, hlt⟩ := hstep s u i hs hok hi
      obtain ⟨ht, hle⟩ := ih hrest hu
      exact ⟨ht, by rw [List.length_cons]; omega⟩
    · cases hi

/-- What holds at the start and every step keeps holds of all that is reached. -/
theorem Reaches.invariant {I : σ → Prop} (h : Reaches step ok s t) (hs : I s)
    (hstep : ∀ s t i, I s → ok s i → step s i = some t → I t) : I t := by
  induction h with
  | refl => exact hs
  | tail _ hlast ih =>
    obtain ⟨i, hok, hi⟩ := hlast
    exact hstep _ _ i ih hok hi

end

/-! ## What comes to hold for good -/

/-- Wherever a run has led, it can be continued to where `P` holds for good. -/
def Settles (step : σ → ι → Option σ) (ok : σ → ι → Prop) (P : σ → Prop) (s : σ) : Prop :=
  ∀ t, Reaches step ok s t → ∃ u, Reaches step ok t u ∧ ∀ v, Reaches step ok u v → P v

section
variable {step : σ → ι → Option σ} {ok : σ → ι → Prop} {s : σ}

theorem Settles.exists_reaches {P : σ → Prop} (h : Settles step ok P s) :
    ∃ u, Reaches step ok s u ∧ P u := by
  obtain ⟨u, hu, hP⟩ := h s .refl
  exact ⟨u, hu, hP u .refl⟩

/-- If some step lowers the rank as long as the goal is not reached, it can be reached. -/
theorem exists_reaches_of_rank {I Q : σ → Prop} (rank : σ → ℕ) (hs : I s)
    (hI : ∀ s t i, I s → ok s i → step s i = some t → I t)
    (hprogress : ∀ s, I s → ¬ Q s → ∃ i t, ok s i ∧ step s i = some t ∧ rank t < rank s) :
    ∃ t, Reaches step ok s t ∧ I t ∧ Q t := by
  induction hrank : rank s using Nat.strongRecOn generalizing s with
  | ind n ih =>
    by_cases hQ : Q s
    · exact ⟨s, .refl, hs, hQ⟩
    · obtain ⟨i, u, hok, hi, hlt⟩ := hprogress s hs hQ
      obtain ⟨t, hreach, ht⟩ := ih (rank u) (by omega) (hI s u i hs hok hi) rfl
      exact ⟨t, .head ⟨i, hok, hi⟩ hreach, ht⟩

/-- **A goal that a falling rank leads to and every step keeps** holds for good in the end. -/
theorem settles_of_rank {I Q P : σ → Prop} (rank : σ → ℕ) (hs : I s)
    (hI : ∀ s t i, I s → ok s i → step s i = some t → I t)
    (hQ : ∀ s t i, Q s → ok s i → step s i = some t → Q t)
    (hprogress : ∀ s, I s → ¬ Q s → ∃ i t, ok s i ∧ step s i = some t ∧ rank t < rank s)
    (hP : ∀ s, I s → Q s → P s) : Settles step ok P s := by
  intro t ht
  obtain ⟨u, hu, hIu, hQu⟩ := exists_reaches_of_rank rank (ht.invariant hs hI) hI hprogress
  exact ⟨u, hu, fun v hv => hP v (hv.invariant hIu hI) (hv.invariant hQu hQ)⟩

end

/-! ## The latest event of a history -/

/-- The event `x` is in the history, and what comes after it satisfies `P`. -/
def Latest {ε : Type u} (P : ε → Prop) (x : ε) (history : List ε) : Prop :=
  ∃ before after, history = before ++ x :: after ∧ ∀ e ∈ after, P e

section
variable {ε : Type u} {P : ε → Prop} {x e : ε} {history : List ε}

@[simp] theorem not_latest_nil : ¬ Latest P x [] := by
  simp [Latest]

theorem latest_concat : Latest P x (history ++ [e]) ↔ e = x ∨ (Latest P x history ∧ P e) := by
  constructor
  · rintro ⟨before, after, heq, hafter⟩
    induction after using List.reverseRecOn with
    | nil => exact .inl (by simpa using congrArg List.getLast? heq)
    | append_singleton after z _ =>
      have hsplit : history ++ [e] = (before ++ x :: after) ++ [z] := by simpa using heq
      have hparts := List.append_inj' hsplit rfl
      have hz : e = z := by simpa using hparts.2
      refine .inr ⟨⟨before, after, hparts.1, fun y hy => hafter y (by simp [hy])⟩, ?_⟩
      exact hz ▸ hafter z (by simp)
  · rintro (rfl | ⟨⟨before, after, rfl, hafter⟩, he⟩)
    · exact ⟨history, [], rfl, by simp⟩
    · refine ⟨before, after ++ [e], by simp, fun y hy => ?_⟩
      rcases List.mem_append.mp hy with hy | hy
      · exact hafter y hy
      · exact List.mem_singleton.mp hy ▸ he

end

/-! ## The order of the latest events -/

/-- The event `x` is the latest with its key, and `y` comes after it. -/
def Before {ε : Type u} {κ : Type v} (key : ε → κ) (x y : ε) (history : List ε) : Prop :=
  ∃ before after, history = before ++ x :: after ∧ (∀ e ∈ after, key e ≠ key x) ∧ y ∈ after

section
variable {ε : Type u} {κ : Type v} {key : ε → κ} {x y : ε} {history : List ε}

theorem Before.asymm (h : Before key x y history) : ¬ Before key y x history := by
  obtain ⟨before, after, heq, hlatest, hy⟩ := h
  rintro ⟨before', after', heq', hlatest', hx⟩
  have hsuffix : after <:+ history := ⟨before ++ [x], by simp [heq]⟩
  have hsuffix' : after' <:+ history := ⟨before' ++ [y], by simp [heq']⟩
  rcases List.suffix_or_suffix_of_suffix hsuffix hsuffix' with hsub | hsub
  · exact hlatest' y (hsub.mem hy) rfl
  · exact hlatest x (hsub.mem hx) rfl

/-- Of two events that are the latest with their keys, one comes before the other. -/
theorem before_or_before (hx : Latest (fun e => key e ≠ key x) x history)
    (hy : Latest (fun e => key e ≠ key y) y history) (hne : x ≠ y) :
    Before key x y history ∨ Before key y x history := by
  obtain ⟨before, after, heq, hafter⟩ := hx
  obtain ⟨before', after', heq', hafter'⟩ := hy
  have hsuffix : x :: after <:+ history := ⟨before, heq.symm⟩
  have hsuffix' : y :: after' <:+ history := ⟨before', heq'.symm⟩
  rcases List.suffix_or_suffix_of_suffix hsuffix hsuffix' with hsub | hsub
  · have hmem : x ∈ after' := by
      rcases List.suffix_cons_iff.mp hsub with hsame | hsub
      · exact absurd (List.cons.inj hsame).1 hne
      · exact hsub.mem (by simp)
    exact .inr ⟨before', after', heq', hafter', hmem⟩
  · have hmem : y ∈ after := by
      rcases List.suffix_cons_iff.mp hsub with hsame | hsub
      · exact absurd (List.cons.inj hsame).1.symm hne
      · exact hsub.mem (by simp)
    exact .inl ⟨before, after, heq, hafter, hmem⟩

end

end Machine
