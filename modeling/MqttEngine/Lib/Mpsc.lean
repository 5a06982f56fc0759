import Mathlib.Logic.Function.Basic
import Mathlib.Data.List.Count

/-!
# Bounded channels

A family of channels with bounded queues, one for each sender. A message can be sent without
waiting; it is accepted if the channel is open and has a free place, and lost otherwise.
`Mpsc` is what a program relies on; how the receivers empty the queues is left to them.

## Main definitions

* `Mpsc` — the senders of a family of channels.
* `Mpsc.deliver` — one message for each of a list of senders.
* `Mpsc.queues` — channels that are queues.

## Main results

* `Mpsc.accepted_deliver` — with enough free places every sender gets its messages.
* `Mpsc.accepted_deliver_of_open` — an open channel gets what it has places for.
-/

universe u

/-- The senders `S` of a family of channels for messages in `α`, in a world in `W`. -/
structure Mpsc (W S α : Type) [DecidableEq S] where
  /-- The receiver has closed the channel or is gone. -/
  isClosed : W → S → Bool
  /-- Send without waiting. -/
  trySend : W → S → α → W
  /-- The messages that the channel has accepted, in order. -/
  accepted : W → S → List α
  /-- The free places of the queue. -/
  free : W → S → ℕ
  /-- An open channel with a free place accepts the message. -/
  accepted_trySend : ∀ w s a, isClosed w s = false → 0 < free w s →
    accepted (trySend w s a) = Function.update (accepted w) s (accepted w s ++ [a])
  /-- The message takes a place. -/
  free_trySend : ∀ w s a, isClosed w s = false → 0 < free w s →
    free (trySend w s a) = Function.update (free w) s (free w s - 1)
  /-- Otherwise nothing happens. -/
  trySend_of_not : ∀ w s a, isClosed w s = true ∨ free w s = 0 → trySend w s a = w
  /-- Sending closes no channel. -/
  isClosed_trySend : ∀ w s a, isClosed (trySend w s a) = isClosed w

namespace Mpsc
variable {W S α : Type} [DecidableEq S] (ch : Mpsc W S α)

/-- The message is sent to each of the senders, one after the other. -/
def deliver (w : W) (senders : List S) (a : α) : W :=
  senders.foldl (fun w s => ch.trySend w s a) w

@[simp] theorem deliver_nil (w : W) (a : α) : ch.deliver w [] a = w := rfl

@[simp] theorem deliver_cons (w : W) (s : S) (senders : List S) (a : α) :
    ch.deliver w (s :: senders) a = ch.deliver (ch.trySend w s a) senders a := rfl

theorem deliver_append (w : W) (senders senders' : List S) (a : α) :
    ch.deliver w (senders ++ senders') a = ch.deliver (ch.deliver w senders a) senders' a :=
  List.foldl_append

@[simp] theorem isClosed_deliver (w : W) (senders : List S) (a : α) :
    ch.isClosed (ch.deliver w senders a) = ch.isClosed w := by
  induction senders generalizing w with
  | nil => rfl
  | cons s senders ih => rw [deliver_cons, ih, ch.isClosed_trySend]

theorem blocked {w : W} {s : S} (h : ¬ (ch.isClosed w s = false ∧ 0 < ch.free w s)) :
    ch.isClosed w s = true ∨ ch.free w s = 0 := by
  by_cases hclosed : ch.isClosed w s = false
  · exact .inr (Nat.eq_zero_of_not_pos fun hfree => h ⟨hclosed, hfree⟩)
  · exact .inl (by simpa using hclosed)

/-- With enough free places in open channels, every sender gets one message each time that it
occurs. -/
theorem accepted_deliver {w : W} {senders : List S}
    (hopen : ∀ s ∈ senders, ch.isClosed w s = false)
    (hroom : ∀ s ∈ senders, senders.count s ≤ ch.free w s) (a : α) (s : S) :
    ch.accepted (ch.deliver w senders a) s =
      ch.accepted w s ++ List.replicate (senders.count s) a := by
  induction senders generalizing w with
  | nil => simp
  | cons s₀ senders ih =>
    have hclosed := hopen s₀ (by simp)
    have hfree : 0 < ch.free w s₀ := by
      have := hroom s₀ (by simp)
      rw [List.count_cons_self] at this
      omega
    have hrest := ih (w := ch.trySend w s₀ a)
      (by
        intro t ht
        rw [ch.isClosed_trySend]
        exact hopen t (by simp [ht]))
      (by
        intro t ht
        have := hroom t (by simp [ht])
        rw [ch.free_trySend w s₀ a hclosed hfree]
        by_cases hts : t = s₀
        · subst hts
          rw [List.count_cons_self] at this
          simp
          omega
        · rw [List.count_cons_of_ne (Ne.symm hts)] at this
          simpa [hts] using this)
    rw [deliver_cons, hrest, ch.accepted_trySend w s₀ a hclosed hfree]
    by_cases hs : s = s₀
    · subst hs
      simp [List.replicate_succ]
    · rw [List.count_cons_of_ne (Ne.symm hs)]
      simp [hs]

/-- An open channel gets as many of its messages as it has places for. -/
theorem accepted_deliver_of_open {w : W} {s : S} (hopen : ch.isClosed w s = false)
    (senders : List S) (a : α) :
    ch.accepted (ch.deliver w senders a) s =
      ch.accepted w s ++ List.replicate (min (senders.count s) (ch.free w s)) a := by
  induction senders generalizing w with
  | nil => simp
  | cons s₀ senders ih =>
    rw [deliver_cons, ih (by rw [ch.isClosed_trySend]; exact hopen)]
    by_cases hsent : ch.isClosed w s₀ = false ∧ 0 < ch.free w s₀
    · rw [ch.accepted_trySend w s₀ a hsent.1 hsent.2, ch.free_trySend w s₀ a hsent.1 hsent.2]
      by_cases hs : s = s₀
      · subst hs
        have hmin : min (senders.count s + 1) (ch.free w s) =
            min (senders.count s) (ch.free w s - 1) + 1 := by omega
        simp [hmin, List.replicate_succ]
      · rw [List.count_cons_of_ne (Ne.symm hs)]
        simp [hs]
    · have hnot := ch.blocked hsent
      rw [ch.trySend_of_not w s₀ a hnot]
      by_cases hs : s = s₀
      · subst hs
        have hfull : ch.free w s = 0 := hnot.resolve_left (by simp [hopen])
        simp [hfull]
      · rw [List.count_cons_of_ne (Ne.symm hs)]

/-- A channel gets none of the messages of others. -/
theorem accepted_deliver_of_not_mem {w : W} {senders : List S} {s : S} (h : s ∉ senders) (a : α) :
    ch.accepted (ch.deliver w senders a) s = ch.accepted w s := by
  induction senders generalizing w with
  | nil => rfl
  | cons s₀ senders ih =>
    rw [List.mem_cons, not_or] at h
    rw [deliver_cons, ih h.2]
    by_cases hsent : ch.isClosed w s₀ = false ∧ 0 < ch.free w s₀
    · rw [ch.accepted_trySend w s₀ a hsent.1 hsent.2, Function.update_of_ne h.1]
    · rw [ch.trySend_of_not w s₀ a (ch.blocked hsent)]

end Mpsc

/-- A channel as a queue. -/
structure Queue (α : Type) where
  closed : Bool
  accepted : List α
  free : ℕ

/-- Channels that are queues. -/
def Mpsc.queues (S α : Type) [DecidableEq S] : Mpsc (S → Queue α) S α where
  isClosed w s := (w s).closed
  trySend w s a :=
    if (w s).closed = false ∧ 0 < (w s).free then
      Function.update w s
        { (w s) with accepted := (w s).accepted ++ [a], free := (w s).free - 1 }
    else w
  accepted w s := (w s).accepted
  free w s := (w s).free
  accepted_trySend w s a hopen hfree := by
    ext1 t
    by_cases h : t = s
    · subst h
      simp [hopen, hfree]
    · simp [hopen, hfree, h]
  free_trySend w s a hopen hfree := by
    ext1 t
    by_cases h : t = s
    · subst h
      simp [hopen, hfree]
    · simp [hopen, hfree, h]
  trySend_of_not w s a h := by
    apply if_neg
    rintro ⟨hopen, hfree⟩
    rcases h with h | h
    · simp [hopen] at h
    · omega
  isClosed_trySend w s a := by
    ext1 t
    split
    · rename_i h
      by_cases hts : t = s
      · subst hts
        simp
      · simp [hts]
    · rfl
