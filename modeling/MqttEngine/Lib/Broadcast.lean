import Mathlib.Data.List.Basic

/-!
# Broadcast channels that keep the latest messages

Everything that is sent goes to every receiver, and the channel keeps the latest messages only. A
receiver takes them one after the other. One that has fallen behind what is kept is told how many
messages it has missed, and goes on with the oldest that is kept.

## Main definitions

* `Broadcast`, `Broadcast.recv` — the channel, and what a receiver is given.
* `Broadcast.Taken`, `Broadcast.messages`, `Broadcast.missed` — what a receiver has been given.
* `Broadcast.Covers` — what that says about the messages that were sent.
* `Broadcast.kept` — what a receiver can still get.

## Main results

* `Broadcast.Covers.sublist`, `Broadcast.Covers.length_eq` — what was taken, how much was missed.
* `Broadcast.covers_recv` — what a receiver is given covers what was sent.
* `Broadcast.missed_of_recv` — a receiver that keeps up misses nothing.
-/

universe u

/-- A channel, and all that has been sent. -/
structure Broadcast (α : Type u) where
  /-- The number of messages that are kept. -/
  capacity : ℕ
  sent : List α
  /-- There are no senders any more. -/
  isClosed : Bool

namespace Broadcast
variable {α : Type u}

/-- What a receiver is given: a message, or how many it has missed. -/
inductive Taken (α : Type u)
  | message (a : α)
  | lagged (missed : ℕ)
  deriving DecidableEq

/-- What a receiver finds, and its place after that. -/
inductive Recv (α : Type u)
  | taken (taken : Taken α) (next : ℕ)
  | closed
  | empty

/-! ## What a receiver has been given -/

namespace Taken

def message? : Taken α → Option α
  | message a => some a
  | lagged _ => none

def missed : Taken α → ℕ
  | message _ => 0
  | lagged missed => missed

end Taken

/-- The messages among what a receiver has been given. -/
def messages (taken : List (Taken α)) : List α := taken.filterMap Taken.message?

/-- How many messages a receiver has missed. -/
def missed (taken : List (Taken α)) : ℕ := (taken.map Taken.missed).foldr (· + ·) 0

/-- The messages that were sent: those that were taken, and stretches that were missed. -/
inductive Covers : List (Taken α) → List α → Prop
  | start : Covers [] []
  | message {taken sent} (h : Covers taken sent) (a : α) :
    Covers (taken ++ [.message a]) (sent ++ [a])
  | lagged {taken sent} (h : Covers taken sent) (stretch : List α) :
    Covers (taken ++ [.lagged stretch.length]) (sent ++ stretch)

section
variable {taken : List (Taken α)} {sent : List α} {a : α} {n : ℕ}

@[simp] theorem messages_nil : messages ([] : List (Taken α)) = [] := rfl

@[simp] theorem messages_concat_message :
    messages (taken ++ [.message a]) = messages taken ++ [a] := by
  simp [messages, Taken.message?]

@[simp] theorem messages_concat_lagged : messages (taken ++ [.lagged n]) = messages taken := by
  simp [messages, Taken.message?]

@[simp] theorem missed_nil : missed ([] : List (Taken α)) = 0 := rfl

theorem missed_append (taken later : List (Taken α)) :
    missed (taken ++ later) = missed taken + missed later := by
  induction taken with
  | nil => simp
  | cons t taken ih =>
    have hcons (ts : List (Taken α)) : missed (t :: ts) = t.missed + missed ts := rfl
    rw [List.cons_append, hcons, hcons, ih, Nat.add_assoc]

@[simp] theorem missed_message : missed [(.message a : Taken α)] = 0 := rfl

@[simp] theorem missed_lagged : missed [(.lagged n : Taken α)] = n := rfl

/-- The messages taken are among those sent, in their order and each at most once. -/
theorem Covers.sublist (h : Covers taken sent) : (messages taken).Sublist sent := by
  induction h with
  | start => simp
  | message _ a ih =>
    rw [messages_concat_message]
    exact ih.append (.refl [a])
  | lagged _ stretch ih =>
    rw [messages_concat_lagged]
    exact ih.trans (List.sublist_append_left _ stretch)

/-- Every message that was sent was taken or missed. -/
theorem Covers.length_eq (h : Covers taken sent) :
    sent.length = (messages taken).length + missed taken := by
  induction h with
  | start => rfl
  | message _ a ih =>
    rw [messages_concat_message, missed_append, missed_message, List.length_append,
      List.length_append, ih]
    simp
    omega
  | lagged _ stretch ih =>
    rw [messages_concat_lagged, missed_append, missed_lagged, List.length_append, ih]
    omega

/-- Without a miss all messages were taken. -/
theorem Covers.eq_of_missed (h : Covers taken sent) (hmissed : missed taken = 0) :
    messages taken = sent := by
  apply h.sublist.eq_of_length
  rw [h.length_eq, hmissed, Nat.add_zero]

end

/-! ## Channels -/

section
variable {self : Broadcast α} {start next next' : ℕ} {taken : List (Taken α)} {t : Taken α}

/-- Where the messages that are kept begin. -/
def oldest (self : Broadcast α) : ℕ := self.sent.length - self.capacity

/-- What the receiver at `next` finds. -/
def recv (self : Broadcast α) (next : ℕ) : Recv α :=
  if next < self.oldest then .taken (.lagged (self.oldest - next)) self.oldest
  else
    match self.sent[next]? with
    | some a => .taken (.message a) (next + 1)
    | none => if self.isClosed then .closed else .empty

theorem recv_message {a : α} (h : self.recv next = .taken (.message a) next') :
    self.oldest ≤ next ∧ self.sent[next]? = some a ∧ next' = next + 1 := by
  unfold recv at h
  split at h
  · cases h
  · rename_i hoff
    split at h
    · rename_i b hb
      cases h
      exact ⟨Nat.le_of_not_lt hoff, hb, rfl⟩
    · split at h <;> cases h

theorem recv_lagged {n : ℕ} (h : self.recv next = .taken (.lagged n) next') :
    next < self.oldest ∧ n = self.oldest - next ∧ next' = self.oldest := by
  unfold recv at h
  split at h
  · rename_i hoff
    cases h
    exact ⟨hoff, rfl, rfl⟩
  · split at h
    · cases h
    · split at h <;> cases h

/-- A receiver finds nothing only at the end. -/
theorem recv_rest (hnext : next ≤ self.sent.length)
    (h : ∀ t next', self.recv next ≠ .taken t next') :
    next = self.sent.length ∧ self.recv next = if self.isClosed then .closed else .empty := by
  unfold recv at h ⊢
  split
  · rename_i hoff
    rw [if_pos hoff] at h
    exact absurd rfl (h _ _)
  · rename_i hoff
    rw [if_neg hoff] at h
    cases hget : self.sent[next]? with
    | some a =>
      rw [hget] at h
      exact absurd rfl (h _ _)
    | none => exact ⟨Nat.le_antisymm hnext (List.getElem?_eq_none_iff.mp hget), rfl⟩

/-- A receiver moves on, within what has been sent. -/
theorem next_of_recv (h : self.recv next = .taken t next') :
    next < next' ∧ next' ≤ self.sent.length := by
  cases t with
  | message a =>
    obtain ⟨-, hget, rfl⟩ := recv_message h
    obtain ⟨hlt, -⟩ := List.getElem?_eq_some_iff.mp hget
    exact ⟨Nat.lt_succ_self next, hlt⟩
  | lagged n =>
    obtain ⟨hlt, -, rfl⟩ := recv_lagged h
    exact ⟨hlt, Nat.sub_le _ _⟩

/-- What a receiver has been given covers what was sent from its start up to its place. -/
theorem covers_recv (h : self.recv next = .taken t next') (hstart : start ≤ next)
    (hcovers : Covers taken ((self.sent.take next).drop start)) :
    Covers (taken ++ [t]) ((self.sent.take next').drop start) := by
  have hlt := next_of_recv h
  have hsplit : (self.sent.take next').drop start =
      (self.sent.take next).drop start ++ (self.sent.take next').drop next := by
    have htake : self.sent.take next = (self.sent.take next').take next := by
      rw [List.take_take, Nat.min_eq_left (Nat.le_of_lt hlt.1)]
    rw [htake, ← List.drop_append_of_le_length, List.take_append_drop]
    rw [List.length_take, List.length_take]
    omega
  rw [hsplit]
  cases t with
  | message a =>
    obtain ⟨-, hget, rfl⟩ := recv_message h
    have hlast : (self.sent.take (next + 1)).drop next = [a] := by
      rw [List.take_add_one, hget, List.drop_append_of_le_length (by rw [List.length_take]; omega)]
      simp
    rw [hlast]
    exact hcovers.message a
  | lagged n =>
    obtain ⟨-, rfl, rfl⟩ := recv_lagged h
    have hlen : ((self.sent.take self.oldest).drop next).length = self.oldest - next := by
      rw [List.length_drop, List.length_take, Nat.min_eq_left hlt.2]
    rw [← hlen]
    exact hcovers.lagged _

/-- A receiver that is behind by no more than what is kept misses nothing. -/
theorem missed_of_recv (h : self.recv next = .taken t next')
    (hnear : self.sent.length ≤ next + self.capacity) : t.missed = 0 := by
  cases t with
  | message a => rfl
  | lagged n =>
    have hlt := (recv_lagged h).1
    unfold oldest at hlt
    omega

/-- What a receiver at `next` can still get. -/
def kept (self : Broadcast α) (next : ℕ) : List α := self.sent.drop (max next self.oldest)

/-- What can still be got is what is given next, and what can be got after that. -/
theorem kept_of_recv (h : self.recv next = .taken t next') :
    self.kept next = t.message?.toList ++ self.kept next' := by
  cases t with
  | message a =>
    obtain ⟨hold, hget, rfl⟩ := recv_message h
    obtain ⟨hlt, rfl⟩ := List.getElem?_eq_some_iff.mp hget
    rw [kept, kept, Nat.max_eq_left hold, Nat.max_eq_left (Nat.le_succ_of_le hold)]
    exact List.drop_eq_getElem_cons hlt
  | lagged n =>
    obtain ⟨hlt, -, rfl⟩ := recv_lagged h
    rw [kept, kept, Nat.max_eq_right (Nat.le_of_lt hlt), Nat.max_self]
    rfl

end

end Broadcast
