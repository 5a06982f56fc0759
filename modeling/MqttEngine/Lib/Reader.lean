import MqttEngine.Lib.BoundedVec
import MqttEngine.Lib.Checked

/-!
# Reading through a cursor

A reader takes a cursor and a buffer and returns what it read with the position behind
it. `Reads r bs x` says that the reader `r` finds `x` wherever the bytes `bs` stand in a
buffer, whatever stands around them.

`readItems` is the loop that reads items into a bounded vector until the cursor reaches a
position `stop`. Its two rules are an induction each: `readItems_append` reads back a
concatenation of encodings, and `returns_readItems` says that the loop ends, because every
item moves the cursor. `readItems_consumes` says the converse of the first rule: what the loop
has read without an error falls into the parts of its items.

## Main definitions

* `Reads` — a reader's specification on the bytes it was made for.
* `Advances` — a reader that returns, and moves the cursor when it yields a value.
* `Consumes` — how the bytes that a reader has passed are related to the value it yields.
* `readItems` — the reading loop.
-/

namespace Checked
variable {ε α β : Type}

/-- Return the error `e` if `c` holds. -/
def failIf (c : Prop) [Decidable c] (e : ε) : Checked ε Unit :=
  if c then .error (.err e) else .ok ()

theorem failIf_of_not {c : Prop} [Decidable c] (h : ¬ c) (e : ε) : failIf c e = .ok () := if_neg h

theorem failIf_eq_ok {c : Prop} [Decidable c] {e : ε} {u : Unit} : failIf c e = .ok u ↔ ¬ c := by
  unfold failIf
  split <;> simp_all

@[simp] theorem returns_failIf (c : Prop) [Decidable c] (e : ε) : Returns (failIf c e) := by
  unfold failIf
  split <;> simp

/-! ## Bytes at a position -/

/-- The reader `r` finds `x` wherever the bytes `bs` stand in a buffer. -/
def Reads (r : ℕ → List α → Checked ε (β × ℕ)) (bs : List α) (x : β) : Prop :=
  ∀ cursor buf rest, buf.drop cursor = bs ++ rest → r cursor buf = .ok (x, cursor + bs.length)

/-- Behind the bytes read stand the bytes that followed them. -/
theorem drop_add_of_append {buf bs rest : List α} {cursor : ℕ}
    (h : buf.drop cursor = bs ++ rest) : buf.drop (cursor + bs.length) = rest := by
  rw [← List.drop_drop, h, List.drop_left]

theorem drop_succ_of_cons {buf rest : List α} {cursor : ℕ} {b : α}
    (h : buf.drop cursor = b :: rest) : buf.drop (cursor + 1) = rest := by
  rw [← List.drop_drop, h, List.drop_one, List.tail_cons]

theorem length_of_drop {buf bs : List α} {cursor : ℕ} (h : buf.drop cursor = bs)
    (hne : bs ≠ []) : buf.length = cursor + bs.length := by
  have hlen := congrArg List.length h
  have hpos := List.length_pos_of_ne_nil hne
  simp only [List.length_drop] at hlen
  omega

theorem get_of_drop {buf rest : List α} {cursor : ℕ} {b : α}
    (h : buf.drop cursor = b :: rest) (e : ε) : get buf cursor e = .ok b := by
  have hb := congrArg (·[0]?) h
  simp only [List.getElem?_drop, List.getElem?_cons_zero, Nat.add_zero] at hb
  exact get_eq_ok.mpr hb

theorem index_of_drop {buf rest : List α} {cursor : ℕ} {b : α}
    (h : buf.drop cursor = b :: rest) : (index buf cursor : Checked ε α) = .ok b := by
  have hb := congrArg (·[0]?) h
  simp only [List.getElem?_drop, List.getElem?_cons_zero, Nat.add_zero] at hb
  simp [index, hb]

/-- A slice of the buffer that starts where `bs` stands and has its length is `bs`. -/
theorem range_of_drop {buf bs rest : List α} {cursor : ℕ}
    (h : buf.drop cursor = bs ++ rest) (hc : cursor ≤ buf.length) :
    (range buf cursor (cursor + bs.length) : Checked ε (List α)) = .ok bs := by
  have hlen := congrArg List.length h
  simp only [List.length_drop, List.length_append] at hlen
  rw [range_of_le (by omega) (by omega), List.drop_take, h]
  simp

/-! ## The reading loop -/

/-- A reader that returns, and moves the cursor when it yields a value. -/
def Advances (r : Checked ε (β × ℕ)) (cursor : ℕ) : Prop :=
  Returns r ∧ ∀ x c, r = .ok (x, c) → cursor < c

/-- Read items into a vector while the cursor lies below `stop`. `fuel` bounds the rounds. -/
def readItems {N : ℕ} (full : ε) (item : ℕ → List α → Checked ε (β × ℕ)) (buf : List α)
    (stop : ℕ) : ℕ → ℕ → BoundedVec β N → Checked ε (BoundedVec β N × ℕ)
  | fuel, cursor, items =>
    if cursor < stop then
      match fuel with
      | 0 => .error .diverge
      | fuel + 1 => do
        let (x, cursor) ← item cursor buf
        match items.push x with
        | some items => readItems full item buf stop fuel cursor items
        | none => .error (.err full)
    else .ok (items, cursor)

section
variable {N : ℕ} {full : ε} {item : ℕ → List α → Checked ε (β × ℕ)} {buf : List α}
  {stop fuel cursor : ℕ}

theorem readItems_of_le (h : stop ≤ cursor) (items : BoundedVec β N) :
    readItems full item buf stop fuel cursor items = .ok (items, cursor) := by
  cases fuel <;> simp [readItems, Nat.not_lt.mpr h]

theorem readItems_of_lt (h : cursor < stop) (items : BoundedVec β N) :
    readItems full item buf stop (fuel + 1) cursor items =
      item cursor buf >>= fun x =>
        match items.push x.1 with
        | some items => readItems full item buf stop fuel x.2 items
        | none => .error (.err full) := by
  simp [readItems, h]

/-- The loop reads back a concatenation of encodings. -/
theorem readItems_append {encode : β → List α} {rest : List α} {xs : List β}
    (hitem : ∀ x ∈ xs, 0 < (encode x).length ∧ ∀ cursor rest, buf.drop cursor = encode x ++ rest →
      cursor + (encode x).length ≤ stop → item cursor buf = .ok (x, cursor + (encode x).length))
    {items all : BoundedVec β N} (hbuf : buf.drop cursor = xs.flatMap encode ++ rest)
    (hstop : stop = cursor + (xs.flatMap encode).length) (hfuel : stop ≤ cursor + fuel)
    (hall : items.toList ++ xs = all.toList) :
    readItems full item buf stop fuel cursor items = .ok (all, stop) := by
  induction xs generalizing fuel cursor items with
  | nil =>
    simp only [List.flatMap_nil, List.length_nil, Nat.add_zero] at hstop
    have hdone : items = all := BoundedVec.ext (by simpa using hall)
    rw [readItems_of_le (by omega), hdone, hstop]
  | cons x xs ih =>
    obtain ⟨hpos, hx⟩ := hitem x (by simp)
    simp only [List.flatMap_cons, List.append_assoc, List.length_append] at hbuf hstop
    cases fuel with
    | zero => omega
    | succ fuel =>
      have hroom : items.toList.length < N := by
        have := all.length_le
        rw [← hall, List.length_append, List.length_cons] at this
        omega
      rw [readItems_of_lt (by omega), hx cursor _ hbuf (by omega), ok_bind]
      dsimp only
      cases hpush : items.push x with
      | none => rw [BoundedVec.push_eq_none] at hpush; omega
      | some items' =>
        rw [BoundedVec.push_eq_some] at hpush
        apply ih (fun y hy => hitem y (by simp [hy])) (drop_add_of_append hbuf)
        · omega
        · omega
        · rw [hpush.2, ← hall]; simp

/-- The loop returns, because every item moves the cursor. -/
theorem returns_readItems (hitem : ∀ cursor < stop, Advances (item cursor buf) cursor)
    (hfuel : stop ≤ cursor + fuel) (items : BoundedVec β N) :
    Returns (readItems full item buf stop fuel cursor items) := by
  induction fuel generalizing cursor items with
  | zero =>
    rw [readItems_of_le (by omega)]
    exact returns_ok _
  | succ fuel ih =>
    rcases Nat.lt_or_ge cursor stop with hlt | hge
    · obtain ⟨hreturns, hmoves⟩ := hitem cursor hlt
      rw [readItems_of_lt hlt]
      apply Returns.bind hreturns
      rintro ⟨x, c⟩ hx
      have := hmoves x c hx
      dsimp only
      split
      · exact ih (by omega) _
      · exact returns_err _
    · rw [readItems_of_le hge]
      exact returns_ok _

/-- When the reader yields a value, the bytes between the two positions of the cursor stand in
the buffer in front of `stop`, and `Q` relates them to the value. -/
def Consumes (Q : List α → β → Prop) (buf : List α) (stop cursor : ℕ) (r : Checked ε (β × ℕ)) :
    Prop :=
  ∀ x c, r = .ok (x, c) →
    ∃ part, buf.drop cursor = part ++ buf.drop c ∧ c = cursor + part.length ∧ c ≤ stop ∧ Q part x

/-- What the loop has consumed falls into the parts of its items, and reaches up to `stop`. -/
theorem readItems_consumes {Q : List α → β → Prop} {items all : BoundedVec β N} {pos : ℕ}
    (hitem : ∀ c < stop, Consumes Q buf stop c (item c buf)) (hcursor : cursor ≤ stop)
    (h : readItems full item buf stop fuel cursor items = .ok (all, pos)) :
    ∃ parts xs, all.toList = items.toList ++ xs ∧ List.Forall₂ Q parts xs ∧ pos = stop ∧
      buf.drop cursor = parts.flatten ++ buf.drop stop ∧
      stop = cursor + parts.flatten.length := by
  have hdone {fuel : ℕ} (cursor : ℕ) (items : BoundedVec β N) (hle : cursor ≤ stop)
      (hge : stop ≤ cursor) (h : readItems full item buf stop fuel cursor items = .ok (all, pos)) :
      ∃ parts xs, all.toList = items.toList ++ xs ∧ List.Forall₂ Q parts xs ∧ pos = stop ∧
        buf.drop cursor = parts.flatten ++ buf.drop stop ∧
        stop = cursor + parts.flatten.length := by
    obtain rfl : stop = cursor := Nat.le_antisymm hge hle
    rw [readItems_of_le hge] at h
    cases h
    exact ⟨[], [], by simp, .nil, rfl, by simp, by simp⟩
  induction fuel generalizing cursor items with
  | zero =>
    rcases Nat.lt_or_ge cursor stop with hlt | hge
    · simp [readItems, hlt] at h
    · exact hdone cursor items hcursor hge h
  | succ fuel ih =>
    rcases Nat.lt_or_ge cursor stop with hlt | hge
    · rw [readItems_of_lt hlt] at h
      obtain ⟨⟨x, c⟩, hx, h⟩ := bind_eq_ok.mp h
      obtain ⟨part, hdrop, hc, hle, hQ⟩ := hitem cursor hlt x c hx
      dsimp only at h
      split at h
      · rename_i items' hpush
        rw [BoundedVec.push_eq_some] at hpush
        obtain ⟨parts, xs, hall, hparts, hpos, hrest, hstop⟩ := ih hle h
        refine ⟨part :: parts, x :: xs, ?_, .cons hQ hparts, hpos, ?_, ?_⟩
        · rw [hall, hpush.2]
          simp
        · rw [hdrop, hrest, List.flatten_cons, List.append_assoc]
        · rw [List.flatten_cons, List.length_append]
          omega
      · cases h
    · exact hdone cursor items hcursor hge h

end

end Checked
