import Mathlib.Data.List.Basic

/-!
# Streams of self-delimiting frames

A `Framing` says how long the frame at the front of a stream is, as soon as enough of the
frame has arrived to tell. `split` cuts off the complete frames at the front of a stream and
keeps the rest. The rest may be continued later: `split_append` says that cutting a stream
in two pieces, splitting the first, and splitting the second behind the rest of the first
gives the same frames as splitting the whole stream, wherever the cut lies.

## Main definitions

* `Framing`, `Framing.IsFrame`, `Framing.Sequence` — frames, and sequences of frames.
* `Framing.Opened` — a frame of which a known number of elements is still to come.
* `Framing.split` — the complete frames at the front, and the rest.
* `Framing.Settled` — a stream with which other frames can be continued.

## Main results

* `Framing.split_append` — splitting does not depend on how the stream arrives.
* `Framing.split_flatten` — splitting a sequence of frames gives back the frames.
-/

universe u

/-- How long the frame at the front of a stream is. -/
structure Framing (α : Type u) where
  /-- The length of the frame, if the beginning of the stream tells it. -/
  size : List α → Option ℕ
  /-- A frame is not empty. -/
  pos : ∀ {bs n}, size bs = some n → 0 < n
  /-- What follows does not change the length. -/
  stable : ∀ {bs n} t, size bs = some n → size (bs ++ t) = some n
  /-- The frame alone tells its length. -/
  closed : ∀ {bs n}, size bs = some n → size (bs.take n) = some n

namespace Framing
variable {α : Type u} (F : Framing α)

/-- A complete frame. -/
def IsFrame (f : List α) : Prop := F.size f = some f.length

/-- A concatenation of complete frames. -/
def Sequence (bs : List α) : Prop :=
  ∃ fs : List (List α), (∀ f ∈ fs, F.IsFrame f) ∧ bs = fs.flatten

/-- A frame that has begun, and of which `missing` elements are still to come. -/
def Opened (missing : ℕ) (bs : List α) : Prop := F.size bs = some (bs.length + missing)

variable {F}

theorem sequence_nil : F.Sequence [] := ⟨[], by simp, rfl⟩

theorem IsFrame.sequence {f : List α} (h : F.IsFrame f) : F.Sequence f :=
  ⟨[f], by simpa using h, by simp⟩

/-- There are no more frames than elements. -/
theorem length_le_flatten {fs : List (List α)} (h : ∀ f ∈ fs, F.IsFrame f) :
    fs.length ≤ fs.flatten.length := by
  induction fs with
  | nil => exact Nat.le_refl _
  | cons f fs ih =>
    have hpos : 0 < f.length := F.pos (h f (by simp))
    have hrest := ih fun g hg => h g (by simp [hg])
    rw [List.length_cons, List.flatten_cons, List.length_append]
    omega

theorem Sequence.append {bs cs : List α} (h : F.Sequence bs) (h' : F.Sequence cs) :
    F.Sequence (bs ++ cs) := by
  obtain ⟨fs, hfs, rfl⟩ := h
  obtain ⟨gs, hgs, rfl⟩ := h'
  refine ⟨fs ++ gs, ?_, by simp⟩
  intro f hf
  rcases List.mem_append.mp hf with hf | hf
  · exact hfs f hf
  · exact hgs f hf

theorem sequence_flatten {fs : List (List α)} (h : ∀ f ∈ fs, F.Sequence f) :
    F.Sequence fs.flatten := by
  induction fs with
  | nil => exact sequence_nil
  | cons f fs ih =>
    rw [List.flatten_cons]
    exact (h f (by simp)).append (ih fun g hg => h g (by simp [hg]))

/-- Elements that arrive are no longer missing. -/
theorem Opened.append {missing : ℕ} {bs : List α} (h : F.Opened missing bs) {t : List α}
    (ht : t.length ≤ missing) : F.Opened (missing - t.length) (bs ++ t) := by
  have hsize := F.stable t h
  rw [Opened, hsize, List.length_append]
  congr 1
  omega

/-- A frame of which nothing is missing is complete. -/
theorem opened_zero {bs : List α} : F.Opened 0 bs ↔ F.IsFrame bs := Iff.rfl

/-! ## Splitting -/

variable (F) in
/-- The complete frames at the front of a stream, and the rest. -/
def split (bs : List α) : List (List α) × List α :=
  match _h : F.size bs with
  | some n =>
    if _hn : n ≤ bs.length then
      let rest := split (bs.drop n)
      (bs.take n :: rest.1, rest.2)
    else ([], bs)
  | none => ([], bs)
termination_by bs.length
decreasing_by
  have := F.pos _h
  rw [List.length_drop]
  omega

/-- No complete frame stands at the front. -/
theorem split_of_incomplete {bs : List α} (h : ∀ n, F.size bs = some n → bs.length < n) :
    F.split bs = ([], bs) := by
  rw [split]
  split
  · rename_i n hn
    rw [dif_neg (Nat.not_le.mpr (h n hn))]
  · rfl

theorem split_of_complete {bs : List α} {n : ℕ} (h : F.size bs = some n) (hn : n ≤ bs.length) :
    F.split bs = (bs.take n :: (F.split (bs.drop n)).1, (F.split (bs.drop n)).2) := by
  rw [split]
  split
  · rename_i m hm
    rw [h] at hm
    cases hm
    rw [dif_pos hn]
  · rename_i hnone
    rw [h] at hnone
    cases hnone

@[simp] theorem split_nil : F.split [] = ([], []) := split_of_incomplete fun _ hn => F.pos hn

/-- The frame at the front is cut off. -/
theorem split_append_of_isFrame {f : List α} (h : F.IsFrame f) (t : List α) :
    F.split (f ++ t) = (f :: (F.split t).1, (F.split t).2) := by
  rw [split_of_complete (F.stable t h) (by simp)]
  simp

/-- A frame by itself. -/
theorem split_of_isFrame {f : List α} (h : F.IsFrame f) : F.split f = ([f], []) := by
  simpa using split_append_of_isFrame h []

/-- Splitting a sequence of frames gives back the frames. -/
theorem split_flatten {fs : List (List α)} (h : ∀ f ∈ fs, F.IsFrame f) (t : List α) :
    F.split (fs.flatten ++ t) = (fs ++ (F.split t).1, (F.split t).2) := by
  induction fs with
  | nil => rfl
  | cons f fs ih =>
    rw [List.flatten_cons, List.append_assoc, split_append_of_isFrame (h f (by simp)),
      ih fun g hg => h g (by simp [hg])]
    rfl

variable (F) in
/-- Splitting loses nothing. -/
theorem flatten_split (bs : List α) : (F.split bs).1.flatten ++ (F.split bs).2 = bs := by
  induction hlen : bs.length using Nat.strongRecOn generalizing bs with
  | ind len ih =>
    by_cases hcomplete : ∃ n, F.size bs = some n ∧ n ≤ bs.length
    · obtain ⟨n, hn, hle⟩ := hcomplete
      have hpos := F.pos hn
      have hrest := ih (bs.drop n).length (by rw [List.length_drop]; omega) (bs.drop n) rfl
      rw [split_of_complete hn hle, List.flatten_cons, List.append_assoc, hrest,
        List.take_append_drop]
    · rw [split_of_incomplete fun n hn => Nat.lt_of_not_le fun hle => hcomplete ⟨n, hn, hle⟩]
      rfl

/-- What is cut off are frames. -/
theorem isFrame_of_mem_split {bs f : List α} (h : f ∈ (F.split bs).1) : F.IsFrame f := by
  induction hlen : bs.length using Nat.strongRecOn generalizing bs with
  | ind len ih =>
    by_cases hcomplete : ∃ n, F.size bs = some n ∧ n ≤ bs.length
    · obtain ⟨n, hn, hle⟩ := hcomplete
      have hpos := F.pos hn
      rw [split_of_complete hn hle, List.mem_cons] at h
      rcases h with rfl | h
      · rw [IsFrame, F.closed hn, List.length_take, Nat.min_eq_left hle]
      · exact ih (bs.drop n).length (by rw [List.length_drop]; omega) h rfl
    · rw [split_of_incomplete fun n hn => Nat.lt_of_not_le fun hle => hcomplete ⟨n, hn, hle⟩] at h
      cases h

variable (F) in
/-- What is left over is not complete. -/
theorem lt_of_size_split_rest (bs : List α) {n : ℕ} (h : F.size (F.split bs).2 = some n) :
    (F.split bs).2.length < n := by
  induction hlen : bs.length using Nat.strongRecOn generalizing bs with
  | ind len ih =>
    by_cases hcomplete : ∃ n, F.size bs = some n ∧ n ≤ bs.length
    · obtain ⟨m, hm, hle⟩ := hcomplete
      have hpos := F.pos hm
      rw [split_of_complete hm hle] at h ⊢
      exact ih (bs.drop m).length (by rw [List.length_drop]; omega) (bs.drop m) h rfl
    · have hinc : ∀ n, F.size bs = some n → bs.length < n :=
        fun n hn => Nat.lt_of_not_le fun hle => hcomplete ⟨n, hn, hle⟩
      rw [split_of_incomplete hinc] at h ⊢
      exact hinc n h

/-- Nothing is left of a sequence of frames. -/
theorem Sequence.split_rest {bs : List α} (h : F.Sequence bs) : (F.split bs).2 = [] := by
  obtain ⟨fs, hfs, rfl⟩ := h
  rw [← List.append_nil fs.flatten, split_flatten hfs, split_nil]

/-- Splitting in two pieces: what the first piece leaves over is continued by the second. -/
theorem split_append (bs t : List α) :
    F.split (bs ++ t) =
      ((F.split bs).1 ++ (F.split ((F.split bs).2 ++ t)).1, (F.split ((F.split bs).2 ++ t)).2) := by
  induction hlen : bs.length using Nat.strongRecOn generalizing bs with
  | ind len ih =>
    by_cases hcomplete : ∃ n, F.size bs = some n ∧ n ≤ bs.length
    · obtain ⟨n, hn, hle⟩ := hcomplete
      have hpos := F.pos hn
      have hrest := ih (bs.drop n).length (by rw [List.length_drop]; omega) (bs.drop n) rfl
      rw [split_of_complete hn hle,
        split_of_complete (F.stable t hn) (by rw [List.length_append]; omega),
        List.take_append_of_le_length hle, List.drop_append_of_le_length hle, hrest]
      rfl
    · have hinc : ∀ n, F.size bs = some n → bs.length < n := by
        intro n hn
        by_contra hle
        exact hcomplete ⟨n, hn, by omega⟩
      rw [split_of_incomplete hinc]
      rfl

/-- The frames of a beginning of the stream are the first frames of the stream. -/
theorem split_prefix {bs cs : List α} (h : bs <+: cs) : (F.split bs).1 <+: (F.split cs).1 := by
  obtain ⟨t, rfl⟩ := h
  rw [split_append]
  exact List.prefix_append _ _

/-- A sequence of frames with which another one begins has its first frames. -/
theorem prefix_of_flatten {fs gs : List (List α)} (hfs : ∀ f ∈ fs, F.IsFrame f)
    (hgs : ∀ f ∈ gs, F.IsFrame f) (h : fs.flatten <+: gs.flatten) : fs <+: gs := by
  have hfirst := split_flatten hfs []
  have hall := split_flatten hgs []
  rw [List.append_nil, split_nil, List.append_nil] at hfirst hall
  have hprefix := split_prefix (F := F) h
  rwa [hfirst, hall] at hprefix

/-- A piece that ends where a frame ends takes the first frames of a sequence. -/
theorem split_cut {fs : List (List α)} (h : ∀ f ∈ fs, F.IsFrame f) {bs t : List α}
    (hcut : bs ++ t = fs.flatten) (hrest : (F.split bs).2 = []) :
    bs = (F.split bs).1.flatten ∧
      ∃ gs, fs = (F.split bs).1 ++ gs ∧ t = gs.flatten := by
  have hbs := F.flatten_split bs
  rw [hrest, List.append_nil] at hbs
  have hfs := split_flatten h []
  rw [List.append_nil, ← hcut, split_append, hrest, List.nil_append, split_nil, List.append_nil,
    Prod.mk.injEq] at hfs
  refine ⟨hbs.symm, (F.split t).1, hfs.1.symm, ?_⟩
  have ht := F.flatten_split t
  rw [hfs.2, List.append_nil] at ht
  exact ht.symm

/-! ## Streams made of parts -/

variable (F) in
/-- The frames of the stream are in `Q`, and it ends where a frame ends, or with something that no
frame begins with. -/
structure Settled (Q : List α → Prop) (bs : List α) : Prop where
  frames : ∀ f ∈ (F.split bs).1, Q f
  rest : (F.split bs).2 = [] ∨ ∀ t, F.size ((F.split bs).2 ++ t) = none

section
variable {Q : List α → Prop} {bs cs : List α}

theorem settled_nil : F.Settled Q [] := ⟨by simp, .inl (by simp)⟩

theorem settled_of_isFrame {f : List α} (h : F.IsFrame f) (hQ : Q f) : F.Settled Q f := by
  have hsplit := split_of_isFrame h
  exact ⟨by simpa [hsplit] using hQ, .inl (by rw [hsplit])⟩

theorem settled_of_size (h : ∀ t, F.size (bs ++ t) = none) : F.Settled Q bs := by
  have hnone : F.size bs = none := by simpa using h []
  have hsplit : F.split bs = ([], bs) := split_of_incomplete fun n hn => by
    rw [hnone] at hn
    cases hn
  exact ⟨by simp [hsplit], .inr (by rwa [hsplit])⟩

theorem Settled.append (h : F.Settled Q bs) (h' : F.Settled Q cs) : F.Settled Q (bs ++ cs) := by
  rcases h.rest with hrest | hrest
  · have hsplit : F.split (bs ++ cs) = ((F.split bs).1 ++ (F.split cs).1, (F.split cs).2) := by
      rw [split_append, hrest, List.nil_append]
    constructor
    · rw [hsplit]
      intro f hf
      exact (List.mem_append.mp hf).elim (h.frames f) (h'.frames f)
    · rw [hsplit]
      exact h'.rest
  · have hnone : F.split ((F.split bs).2 ++ cs) = ([], (F.split bs).2 ++ cs) :=
      split_of_incomplete fun n hn => by
        rw [hrest cs] at hn
        cases hn
    have hsplit : F.split (bs ++ cs) = ((F.split bs).1, (F.split bs).2 ++ cs) := by
      rw [split_append, hnone, List.append_nil]
    constructor
    · rw [hsplit]
      exact h.frames
    · rw [hsplit]
      right
      intro t
      rw [List.append_assoc]
      exact hrest (cs ++ t)

/-- A beginning of the stream has no other frames. -/
theorem Settled.frames_prefix (h : F.Settled Q bs) (hcs : cs <+: bs) :
    ∀ f ∈ (F.split cs).1, Q f := by
  obtain ⟨t, rfl⟩ := hcs
  intro f hf
  apply h.frames
  rw [split_append]
  exact List.mem_append_left _ hf

end

/-! ## Streams that arrive in chunks -/

variable (F) in
/-- Split what has been left over together with each chunk that arrives. -/
def feed : List α → List (List α) → List (List α) × List α
  | rest, [] => ([], rest)
  | rest, chunk :: chunks =>
    let now := F.split (rest ++ chunk)
    let later := feed now.2 chunks
    (now.1 ++ later.1, later.2)

/-- The chunks may be fed in two parts. -/
theorem feed_append (rest : List α) (before later : List (List α)) :
    F.feed rest (before ++ later) =
      ((F.feed rest before).1 ++ (F.feed (F.feed rest before).2 later).1,
        (F.feed (F.feed rest before).2 later).2) := by
  induction before generalizing rest with
  | nil => simp [feed]
  | cons chunk before ih => simp [feed, ih]

/-- The frames found do not depend on how the stream is cut into chunks. -/
theorem feed_split (bs : List α) (chunks : List (List α)) :
    F.split (bs ++ chunks.flatten) =
      ((F.split bs).1 ++ (F.feed (F.split bs).2 chunks).1, (F.feed (F.split bs).2 chunks).2) := by
  induction chunks generalizing bs with
  | nil => simp [feed]
  | cons chunk chunks ih =>
    rw [List.flatten_cons, ← List.append_assoc, ih, split_append bs chunk, List.append_assoc]
    rfl

/-- What has been fed to an empty buffer has been split. -/
theorem feed_nil (chunks : List (List α)) : F.feed [] chunks = F.split chunks.flatten := by
  have h := F.feed_split [] chunks
  rw [split_nil, List.nil_append, List.nil_append] at h
  exact h.symm

end Framing
