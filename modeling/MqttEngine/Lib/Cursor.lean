import MqttEngine.Lib.Checked
import MqttEngine.Lib.Effect

/-!
# Writing through a cursor

A writer fills a buffer of fixed length from left to right. `Emits small P w bs` says
all there is to say about one: if `P` holds, `w` writes exactly `bs` at the cursor when
there is room for it and fails with the error `small` when there is not; if `P` does
not hold, it returns an error; and it never changes the buffer's length. Writers
compose as their outputs concatenate.

## Main definitions

* `Out`, `SliceWriter` — a buffer with a cursor, and the programs that fill it.
* `SliceWriter.putByte`, `SliceWriter.putSlice`, `SliceWriter.onTail` — the primitive writes.
* `Emits` — the specification of a writer, with a rule for each way of composing them.
* `Overruns` — a writer that notices that its cursor already lies beyond the buffer.
* `Stores` — the specification of a writer that indexes the buffer without a check.
-/

/-- A buffer being filled, and the position of the next write. -/
structure Out (α : Type) where
  /-- The whole buffer. -/
  buf : List α
  /-- The position of the next write. -/
  cursor : ℕ

namespace Out
variable {α : Type}

/-- The buffer after `bs` has been written at the cursor. -/
def patch (s : Out α) (bs : List α) : Out α :=
  ⟨s.buf.take s.cursor ++ bs ++ s.buf.drop (s.cursor + bs.length), s.cursor + bs.length⟩

@[simp] theorem cursor_patch (s : Out α) (bs : List α) :
    (s.patch bs).cursor = s.cursor + bs.length := rfl

@[simp] theorem patch_nil (s : Out α) : s.patch [] = s := by
  simp [patch]

theorem length_patch (s : Out α) {bs : List α} (h : s.cursor + bs.length ≤ s.buf.length) :
    (s.patch bs).buf.length = s.buf.length := by
  simp only [patch, List.length_append, List.length_take, List.length_drop]
  omega

/-- Behind a position at or after the cursor stand the rest of what was written, and the buffer
behind that. -/
theorem drop_patch (s : Out α) (bs : List α) (h : s.cursor ≤ s.buf.length) (k : ℕ) :
    (s.patch bs).buf.drop (s.cursor + k) =
      bs.drop k ++ s.buf.drop (s.cursor + (bs.length + (k - bs.length))) := by
  have hfront : (s.buf.take s.cursor).length = s.cursor := List.length_take_of_le h
  simp only [patch, List.append_assoc]
  nth_rewrite 1 [← hfront]
  rw [List.drop_length_add_append, List.drop_append, List.drop_drop, Nat.add_assoc]

/-- A write replaces the stretch of the buffer it covers. -/
theorem patch_append (pre mid post : List α) {bs : List α} (h : mid.length = bs.length) :
    (⟨pre ++ mid ++ post, pre.length⟩ : Out α).patch bs =
      ⟨pre ++ bs ++ post, pre.length + bs.length⟩ := by
  have htake : (pre ++ mid ++ post).take pre.length = pre := by
    rw [List.append_assoc, List.take_left]
  have hdrop : (pre ++ mid ++ post).drop (pre.length + bs.length) = post := by
    rw [← h, ← List.length_append, List.drop_left]
  simp only [patch, htake, hdrop]

/-- A write at the start stands in front of the cursor. -/
theorem take_patch (buf bs : List α) :
    ((⟨buf, 0⟩ : Out α).patch bs).buf.take ((⟨buf, 0⟩ : Out α).patch bs).cursor = bs := by
  simp [patch]

/-- Two writes in a row are one write of both outputs. -/
theorem patch_patch (s : Out α) {bs cs : List α} (h : s.cursor + bs.length ≤ s.buf.length) :
    (s.patch bs).patch cs = s.patch (bs ++ cs) := by
  have hlen : (s.buf.take s.cursor ++ bs).length = s.cursor + bs.length := by
    simp only [List.length_append, List.length_take]; omega
  have htake : (s.patch bs).buf.take (s.cursor + bs.length) = s.buf.take s.cursor ++ bs := by
    simp only [patch]
    rw [← hlen, List.take_left']
    rfl
  have hdrop : (s.patch bs).buf.drop (s.cursor + bs.length + cs.length) =
      s.buf.drop (s.cursor + (bs ++ cs).length) := by
    simp only [patch]
    rw [← hlen, List.drop_append, List.drop_of_length_le (by omega), List.drop_drop, hlen]
    simp only [List.nil_append, List.length_append]
    congr 1
    omega
  simp only [patch, Out.mk.injEq] at htake hdrop ⊢
  refine ⟨?_, by simp [Nat.add_assoc]⟩
  rw [htake, hdrop]
  simp [List.append_assoc]

end Out

/-- The state in which a computation ends, whatever its result. -/
def EStateM.Result.final {ε σ α : Type} : EStateM.Result ε σ α → σ
  | .ok _ s => s
  | .error _ s => s

@[simp] theorem EStateM.Result.final_ok {ε σ α : Type} (a : α) (s : σ) :
    (EStateM.Result.ok a s : EStateM.Result ε σ α).final = s := rfl
@[simp] theorem EStateM.Result.final_error {ε σ α : Type} (e : ε) (s : σ) :
    (EStateM.Result.error e s : EStateM.Result ε σ α).final = s := rfl

/-- A program that fills a buffer. -/
abbrev SliceWriter (ε α β : Type) := EStateM (Fault ε) (Out α) β

namespace SliceWriter
variable {ε α : Type}

/-- `*buf.get_mut(cursor).ok_or(small)? = b; cursor += 1`. -/
def putByte (small : ε) (b : α) : SliceWriter ε α Unit := fun s =>
  if s.cursor < s.buf.length then .ok () ⟨s.buf.set s.cursor b, s.cursor + 1⟩
  else .error (.err small) s

/-- `buf.get_mut(cursor..cursor + bs.len()).ok_or(small)?.copy_from_slice(bs)`, and the
cursor moves behind the copy. -/
def putSlice (small : ε) (bs : List α) : SliceWriter ε α Unit := fun s =>
  if s.cursor + bs.length ≤ s.buf.length then .ok () (s.patch bs)
  else .error (.err small) s

/-- `buf[cursor] = b; cursor += 1`, which panics beyond the buffer. -/
def store (b : α) : SliceWriter ε α Unit := fun s =>
  if s.cursor < s.buf.length then .ok () ⟨s.buf.set s.cursor b, s.cursor + 1⟩
  else .error .panic s

/-- `buf[cursor..cursor + bs.len()].copy_from_slice(bs)`, which panics beyond the buffer, and
the cursor moves behind the copy. -/
def storeSlice (bs : List α) : SliceWriter ε α Unit := fun s =>
  if s.cursor + bs.length ≤ s.buf.length then .ok () (s.patch bs)
  else .error .panic s

/-- Run `f` on the slice `buf.get_mut(cursor..).ok_or(small)?` and move the cursor by the
count `f` returns. -/
def onTail (small : ε) (f : EStateM (Fault ε) (List α) ℕ) : SliceWriter ε α Unit := fun s =>
  if s.cursor ≤ s.buf.length then
    match f (s.buf.drop s.cursor) with
    | .ok n tail => .ok () ⟨s.buf.take s.cursor ++ tail, s.cursor + n⟩
    | .error e tail => .error e ⟨s.buf.take s.cursor ++ tail, s.cursor⟩
  else .error (.err small) s

/-- Move the cursor to a position. -/
def seek (pos : ℕ) : SliceWriter ε α Unit := fun s => .ok () ⟨s.buf, pos⟩

/-- The position of the cursor. -/
def position : SliceWriter ε α ℕ := fun s => .ok s.cursor s

/-- `buf.copy_within(a..b, dest)`, which panics if the source or the destination does not
lie in the buffer. -/
def copyWithin (a b dest : ℕ) : SliceWriter ε α Unit := fun s =>
  if a ≤ b ∧ b ≤ s.buf.length ∧ dest + (b - a) ≤ s.buf.length then
    .ok () ⟨s.buf.take dest ++ (s.buf.take b).drop a ++ s.buf.drop (dest + (b - a)), s.cursor⟩
  else .error .panic s

@[simp] theorem seek_bind {γ : Type} (pos : ℕ) (f : Unit → SliceWriter ε α γ) (s : Out α) :
    (seek pos >>= f) s = f () ⟨s.buf, pos⟩ := rfl

@[simp] theorem position_bind {γ : Type} (f : ℕ → SliceWriter ε α γ) (s : Out α) :
    (position >>= f) s = f s.cursor s := rfl

/-- Moving a stretch down over the gap in front of it. -/
theorem copyWithin_append (ε : Type) (pre gap mid post : List α) {a b dest cursor : ℕ}
    (ha : a = (pre ++ gap).length) (hb : b = a + mid.length) (hdest : dest = pre.length) :
    ∃ post', (copyWithin a b dest : SliceWriter ε α Unit) ⟨pre ++ gap ++ mid ++ post, cursor⟩ =
        .ok () ⟨pre ++ mid ++ post', cursor⟩ ∧
      (pre ++ mid ++ post').length = (pre ++ gap ++ mid ++ post).length := by
  subst ha hb hdest
  have hmid : ((pre ++ gap ++ mid ++ post).take ((pre ++ gap).length + mid.length)).drop
      (pre ++ gap).length = mid := by
    rw [← List.length_append, List.take_left, List.drop_left]
  have hpre : (pre ++ gap ++ mid ++ post).take pre.length = pre := by
    rw [List.append_assoc, List.append_assoc, List.take_left]
  refine ⟨(pre ++ gap ++ mid ++ post).drop (pre.length + mid.length), ?_, ?_⟩
  · rw [copyWithin, if_pos (by simp only [List.length_append]; omega), hmid, hpre]
    simp
  · simp only [List.length_append, List.length_drop]
    omega

theorem length_copyWithin (a b dest : ℕ) (s : Out α) :
    ((copyWithin a b dest : SliceWriter ε α Unit) s).final.buf.length = s.buf.length := by
  unfold copyWithin
  split
  · simp only [EStateM.Result.final_ok, List.length_append, List.length_take, List.length_drop]
    omega
  · rfl

/-- Run a writer from the start of a slice and return how far it came. -/
def fromStart (w : SliceWriter ε α Unit) : EStateM (Fault ε) (List α) ℕ := fun slice =>
  match w ⟨slice, 0⟩ with
  | .ok _ s => .ok s.cursor s.buf
  | .error e s => .error e s.buf

/-- Run `w` if `c` holds. -/
def when (c : Prop) [Decidable c] (w : SliceWriter ε α Unit) : SliceWriter ε α Unit :=
  if c then w else pure ()

/-- `if let Some(x) = o { f(x) }`. -/
def whenSome {γ : Type} (o : Option γ) (f : γ → SliceWriter ε α Unit) : SliceWriter ε α Unit :=
  match o with
  | some x => f x
  | none => pure ()

/-- Running on the tail of the buffer keeps the buffer's length if the run on the tail does. -/
theorem length_onTail {small : ε} {f : EStateM (Fault ε) (List α) ℕ}
    (hf : ∀ tail, (f tail).final.length = tail.length) (s : Out α) :
    (onTail small f s).final.buf.length = s.buf.length := by
  unfold onTail
  split
  · rename_i hc
    have h := hf (s.buf.drop s.cursor)
    split
    all_goals
      rename_i heq
      rw [heq] at h
      simp only [EStateM.Result.final_ok, EStateM.Result.final_error, List.length_drop] at h
      simp only [EStateM.Result.final_ok, EStateM.Result.final_error, List.length_append,
        List.length_take]
      omega
  · rfl

end SliceWriter

/-- What a writer does: it emits `bs` if `P` holds, and returns an error if `P` does not
hold or if the buffer is too small. -/
structure Emits {ε α : Type} (small : ε) (P : Prop) (w : SliceWriter ε α Unit) (bs : List α) :
    Prop where
  fits : P → ∀ s, s.cursor + bs.length ≤ s.buf.length → w s = .ok () (s.patch bs)
  short : P → ∀ s, s.cursor ≤ s.buf.length → s.buf.length < s.cursor + bs.length →
    ∃ s', w s = .error (.err small) s'
  fails : ¬ P → ∀ s, s.cursor ≤ s.buf.length → ∃ e s', w s = .error (.err e) s'
  length : ∀ s, (w s).final.buf.length = s.buf.length

/-- A writer that fails when its cursor already lies beyond the buffer. -/
def Overruns {ε α : Type} (small : ε) (w : SliceWriter ε α Unit) : Prop :=
  ∀ s, s.buf.length < s.cursor → w s = .error (.err small) s

namespace Emits
variable {ε α : Type} {small : ε} {P Q : Prop} {w w' : SliceWriter ε α Unit} {bs cs : List α}

/-- Conditions and outputs may be replaced by equivalent ones. -/
theorem congr (h : Emits small P w bs) (hP : P ↔ Q) (hbs : bs = cs) : Emits small Q w cs := by
  subst hbs
  exact ⟨fun q => h.fits (hP.mpr q), fun q => h.short (hP.mpr q),
    fun q => h.fails (fun p => q (hP.mp p)), h.length⟩

theorem pure : Emits small True (Pure.pure () : SliceWriter ε α Unit) [] where
  fits _ s _ := by rw [Out.patch_nil]; rfl
  short _ s h h' := by simp at h'; omega
  fails h := absurd trivial h
  length _ := rfl

/-- Writers in sequence emit the concatenation of what each emits. -/
theorem bind (h : Emits small P w bs) (h' : Emits small Q w' cs) :
    Emits small (P ∧ Q) (w >>= fun _ => w') (bs ++ cs) where
  fits := by
    rintro ⟨p, q⟩ s hs
    simp only [List.length_append] at hs
    rw [run_bind (h.fits p s (by omega)),
      h'.fits q _ (by rw [Out.length_patch _ (by omega), Out.cursor_patch]; omega),
      Out.patch_patch _ (by omega)]
  short := by
    rintro ⟨p, q⟩ s hc hs
    simp only [List.length_append] at hs
    by_cases hfit : s.cursor + bs.length ≤ s.buf.length
    · have hlen := Out.length_patch s hfit
      obtain ⟨s', hs'⟩ := h'.short q (s.patch bs) (by rw [hlen, Out.cursor_patch]; omega)
        (by rw [hlen, Out.cursor_patch]; omega)
      exact ⟨s', by rw [run_bind (h.fits p s hfit), hs']⟩
    · obtain ⟨s', hs'⟩ := h.short p s hc (by omega)
      exact ⟨s', run_bind_error hs'⟩
  fails := by
    intro hPQ s hc
    by_cases p : P
    · have q : ¬ Q := fun q => hPQ ⟨p, q⟩
      by_cases hfit : s.cursor + bs.length ≤ s.buf.length
      · have hlen := Out.length_patch s hfit
        obtain ⟨e, s', hs'⟩ := h'.fails q (s.patch bs) (by rw [hlen, Out.cursor_patch]; omega)
        exact ⟨e, s', by rw [run_bind (h.fits p s hfit), hs']⟩
      · obtain ⟨s', hs'⟩ := h.short p s hc (by omega)
        exact ⟨small, s', run_bind_error hs'⟩
    · obtain ⟨e, s', hs'⟩ := h.fails p s hc
      exact ⟨e, s', run_bind_error hs'⟩
  length := by
    intro s
    have hw := h.length s
    cases hr : w s with
    | ok u s₁ =>
      rw [hr, EStateM.Result.final_ok] at hw
      rw [run_bind hr, h'.length, hw]
    | error e s₁ =>
      rw [hr, EStateM.Result.final_error] at hw
      rw [run_bind_error hr, EStateM.Result.final_error, hw]

theorem when (c : Prop) [Decidable c] (h : Emits small P w bs) :
    Emits small (c → P) (SliceWriter.when c w) (if c then bs else []) := by
  by_cases hc : c
  · simpa only [SliceWriter.when, hc, if_true, true_implies] using h
  · simpa only [SliceWriter.when, hc, if_false, false_implies] using pure

theorem whenSome {γ : Type} {f : γ → SliceWriter ε α Unit} {C : γ → Prop} {g : γ → List α}
    (o : Option γ) (h : ∀ x, Emits small (C x) (f x) (g x)) :
    Emits small (∀ x ∈ o, C x) (SliceWriter.whenSome o f) (o.elim [] g) := by
  cases o with
  | none => exact pure.congr (by simp) rfl
  | some x => exact (h x).congr (by simp) rfl

/-- A loop emits the outputs of its rounds one after the other. -/
theorem forM {γ : Type} {f : γ → SliceWriter ε α Unit} {C : γ → Prop} {g : γ → List α}
    (l : List γ) (h : ∀ x, Emits small (C x) (f x) (g x)) :
    Emits small (∀ x ∈ l, C x) (l.forM f) (l.flatMap g) := by
  induction l with
  | nil => exact pure.congr (by simp) rfl
  | cons x l ih =>
    change Emits small _ (f x >>= fun _ => l.forM f) _
    exact ((h x).bind ih).congr (by simp) rfl

theorem putByte (b : α) : Emits small True (SliceWriter.putByte small b) [b] where
  fits _ s hs := by
    simp only [List.length_singleton] at hs
    have hlt : s.cursor < s.buf.length := by omega
    simp only [SliceWriter.putByte, hlt, if_true, Out.patch, List.length_singleton]
    rw [List.set_eq_take_append_cons_drop, if_pos hlt]
    simp
  short _ s _ h := by
    simp only [List.length_singleton] at h
    exact ⟨s, by simp [SliceWriter.putByte, show ¬ s.cursor < s.buf.length by omega]⟩
  fails h := absurd trivial h
  length s := by
    unfold SliceWriter.putByte
    split <;> simp

theorem putSlice (bs : List α) : Emits small True (SliceWriter.putSlice small bs) bs where
  fits _ s hs := by simp [SliceWriter.putSlice, hs]
  short _ s _ h := ⟨s, by
    simp [SliceWriter.putSlice, show ¬ s.cursor + bs.length ≤ s.buf.length by omega]⟩
  fails h := absurd trivial h
  length s := by
    unfold SliceWriter.putSlice
    split
    · rename_i h
      simpa using Out.length_patch s h
    · rfl

/-- A writer that runs on the tail of the buffer emits there what it emits from the start. -/
theorem onTail (h : Emits small P w bs) :
    Emits small P (SliceWriter.onTail small (SliceWriter.fromStart w)) bs where
  fits p s hs := by
    have hw := h.fits p ⟨s.buf.drop s.cursor, 0⟩ (by simp only [List.length_drop]; omega)
    simp only [SliceWriter.onTail, SliceWriter.fromStart, hw, show s.cursor ≤ s.buf.length by omega, if_true]
    simp [Out.patch, List.drop_drop]
  short p s hc hs := by
    obtain ⟨s', hw⟩ := h.short p ⟨s.buf.drop s.cursor, 0⟩ (by simp)
      (by simp only [List.length_drop]; omega)
    simp only [SliceWriter.onTail, SliceWriter.fromStart, hw, hc, if_true]
    exact ⟨_, rfl⟩
  fails np s hc := by
    obtain ⟨e, s', hw⟩ := h.fails np ⟨s.buf.drop s.cursor, 0⟩ (by simp)
    simp only [SliceWriter.onTail, SliceWriter.fromStart, hw, hc, if_true]
    exact ⟨_, _, rfl⟩
  length s := by
    apply SliceWriter.length_onTail
    intro tail
    have hw := h.length ⟨tail, 0⟩
    unfold SliceWriter.fromStart
    split
    · rename_i heq
      rw [heq] at hw
      exact hw
    · rename_i heq
      rw [heq] at hw
      exact hw

end Emits

namespace Overruns
variable {ε α : Type} {small : ε}

/-- A sequence overruns if its first writer does. -/
theorem bind {w : SliceWriter ε α Unit} (h : Overruns small w) (f : Unit → SliceWriter ε α Unit) :
    Overruns small (w >>= f) := fun s hs => run_bind_error (h s hs)

theorem putByte (b : α) : Overruns small (SliceWriter.putByte small b) := fun s hs => by
  simp [SliceWriter.putByte, show ¬ s.cursor < s.buf.length by omega]

theorem putSlice (bs : List α) : Overruns small (SliceWriter.putSlice small bs) := fun s hs => by
  simp [SliceWriter.putSlice, show ¬ s.cursor + bs.length ≤ s.buf.length by omega]

theorem onTail (f : EStateM (Fault ε) (List α) ℕ) : Overruns small (SliceWriter.onTail small f) :=
  fun s hs => by simp [SliceWriter.onTail, show ¬ s.cursor ≤ s.buf.length by omega]

end Overruns

/-- What a writer by plain indexing does: it writes `bs` if there is room, and panics if there
is not. -/
structure Stores {ε α : Type} (w : SliceWriter ε α Unit) (bs : List α) : Prop where
  fits : ∀ s, s.cursor + bs.length ≤ s.buf.length → w s = .ok () (s.patch bs)
  panics : ∀ s, s.cursor ≤ s.buf.length → s.buf.length < s.cursor + bs.length →
    ∃ s', w s = .error .panic s'

namespace Stores
variable {ε α : Type} {w w' : SliceWriter ε α Unit} {bs cs : List α}

theorem pure : Stores (Pure.pure () : SliceWriter ε α Unit) [] where
  fits s _ := by rw [Out.patch_nil]; rfl
  panics s h h' := by simp at h'; omega

theorem storeSlice (bs : List α) : Stores (SliceWriter.storeSlice bs : SliceWriter ε α Unit) bs where
  fits s hs := if_pos hs
  panics s _ h := ⟨s, if_neg (by omega)⟩

theorem store (b : α) : Stores (SliceWriter.store b : SliceWriter ε α Unit) [b] where
  fits s hs := by
    simp only [List.length_singleton] at hs
    have hlt : s.cursor < s.buf.length := by omega
    simp only [SliceWriter.store, hlt, if_true, Out.patch, List.length_singleton]
    rw [List.set_eq_take_append_cons_drop, if_pos hlt]
    simp
  panics s _ h := by
    simp only [List.length_singleton] at h
    exact ⟨s, if_neg (by omega)⟩

theorem bind (h : Stores w bs) (h' : Stores w' cs) :
    Stores (w >>= fun _ => w') (bs ++ cs) where
  fits s hs := by
    simp only [List.length_append] at hs
    rw [run_bind (h.fits s (by omega)),
      h'.fits _ (by rw [Out.length_patch _ (by omega), Out.cursor_patch]; omega),
      Out.patch_patch _ (by omega)]
  panics s hc hs := by
    simp only [List.length_append] at hs
    by_cases hfit : s.cursor + bs.length ≤ s.buf.length
    · have hlen := Out.length_patch s hfit
      obtain ⟨s', hs'⟩ := h'.panics (s.patch bs) (by rw [hlen, Out.cursor_patch]; omega)
        (by rw [hlen, Out.cursor_patch]; omega)
      exact ⟨s', by rw [run_bind (h.fits s hfit), hs']⟩
    · obtain ⟨s', hs'⟩ := h.panics s hc (by omega)
      exact ⟨s', run_bind_error hs'⟩

theorem when (c : Prop) [Decidable c] (h : Stores w bs) :
    Stores (SliceWriter.when c w) (if c then bs else []) := by
  by_cases hc : c
  · simpa only [SliceWriter.when, hc, if_true] using h
  · simpa only [SliceWriter.when, hc, if_false] using pure

theorem whenSome {γ : Type} {f : γ → SliceWriter ε α Unit} {g : γ → List α} (o : Option γ)
    (h : ∀ x, Stores (f x) (g x)) : Stores (SliceWriter.whenSome o f) (o.elim [] g) := by
  cases o with
  | none => exact pure
  | some x => exact h x

end Stores
