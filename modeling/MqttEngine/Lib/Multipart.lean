import MqttEngine.Lib.Decimal
import MqttEngine.Lib.Segment

/-!
# Multipart streams

A stream of parts, each with a delimiter, a header whose `Content-Length` says how long the content
is, an empty line, the content and the end of a line. As a part says how long it is, its content may
be anything, the delimiter included.

## Main definitions

* `Multipart.before` — what stands in front of a mark.
* `Multipart.head` — where the content of the part at the front begins, and how long it is.
* `Multipart.framing`, `Multipart.contents` — the parts of a stream and what is in them.

## Main results

* `Multipart.isFrame_part`, `Multipart.content_part` — a part with the right header.
* `Multipart.contents_parts` — the contents of parts, however the stream arrives.
-/

namespace Multipart

/-! ## Marks -/

section
variable {α : Type} [DecidableEq α]

/-- What stands in front of the first `mark`. -/
def before (mark : List α) : List α → Option (List α)
  | [] => none
  | a :: as =>
    if mark <+: a :: as then some [] else (before mark as).map fun front => a :: front

variable {mark front bs : List α}

theorem before_cons_of_begins {a : α} {as : List α} (h : mark <+: a :: as) :
    before mark (a :: as) = some [] := if_pos h

theorem before_cons_of_not_begins {a : α} {as : List α} (h : ¬ mark <+: a :: as) :
    before mark (a :: as) = (before mark as).map fun front => a :: front := if_neg h

/-- The mark stands behind. -/
theorem prefix_of_before (h : before mark bs = some front) : front ++ mark <+: bs := by
  induction bs generalizing front with
  | nil => cases h
  | cons a as ih =>
    by_cases hmark : mark <+: a :: as
    · rw [before_cons_of_begins hmark] at h
      cases h
      exact hmark
    · rw [before_cons_of_not_begins hmark] at h
      obtain ⟨rest, hrest, rfl⟩ := Option.map_eq_some_iff.mp h
      exact List.prefix_cons_inj a |>.mpr (ih hrest)

/-- What follows makes no difference. -/
theorem before_append (h : before mark bs = some front) (t : List α) :
    before mark (bs ++ t) = some front := by
  induction bs generalizing front with
  | nil => cases h
  | cons a as ih =>
    rw [List.cons_append]
    by_cases hmark : mark <+: a :: as
    · rw [before_cons_of_begins hmark] at h
      cases h
      exact before_cons_of_begins (hmark.trans (List.prefix_append (a :: as) t))
    · have hfront := prefix_of_before h
      rw [before_cons_of_not_begins hmark] at h
      obtain ⟨rest, hrest, rfl⟩ := Option.map_eq_some_iff.mp h
      have hnot : ¬ mark <+: a :: (as ++ t) := by
        intro hinit
        refine hmark (List.prefix_of_prefix_length_le hinit (List.prefix_append (a :: as) t) ?_)
        have hlength := hfront.length_le
        rw [List.length_append] at hlength
        omega
      rw [before_cons_of_not_begins hnot, ih hrest]
      rfl

/-- Nothing is needed behind the mark. -/
theorem before_closed (hmark : mark ≠ []) (h : before mark bs = some front) :
    before mark (front ++ mark) = some front := by
  induction bs generalizing front with
  | nil => cases h
  | cons a as ih =>
    by_cases hinit : mark <+: a :: as
    · rw [before_cons_of_begins hinit] at h
      cases h
      obtain ⟨m, ms, rfl⟩ := List.exists_cons_of_ne_nil hmark
      exact before_cons_of_begins (List.prefix_refl _)
    · rw [before_cons_of_not_begins hinit] at h
      obtain ⟨rest, hrest, rfl⟩ := Option.map_eq_some_iff.mp h
      have hbehind : a :: (rest ++ mark) <+: a :: as :=
        (List.prefix_cons_inj a).mpr (prefix_of_before hrest)
      have hnot : ¬ mark <+: a :: (rest ++ mark) := fun hm => hinit (hm.trans hbehind)
      rw [List.cons_append, before_cons_of_not_begins hnot, ih hrest]
      rfl

/-- A mark begins where its first element is. -/
theorem before_of_not_mem {m : α} {ms : List α} (h : m ∉ front) (rest : List α) :
    before (m :: ms) (front ++ rest) = (before (m :: ms) rest).map fun later => front ++ later := by
  induction front with
  | nil => simp
  | cons a front ih =>
    rw [List.mem_cons, not_or] at h
    have hnot : ¬ m :: ms <+: a :: (front ++ rest) := by
      rw [List.cons_prefix_cons]
      exact fun hm => h.1 hm.1
    rw [List.cons_append, before_cons_of_not_begins hnot, ih h.2, Option.map_map]
    rfl

end

/-! ## Headers -/

/-- The end of a line. -/
def crlf : List UInt8 := [13, 10]

/-- The end of a line, and an empty line. -/
def blankLine : List UInt8 := [13, 10, 13, 10]

/-- The characters that bytes stand for. -/
def text (bytes : List UInt8) : List Char := bytes.map fun b => Char.ofNat b.toNat

/-- The lines of a text. -/
def lines (current : List Char) : List Char → List (List Char)
  | '\r' :: '\n' :: rest => current :: lines [] rest
  | c :: rest => lines (current ++ [c]) rest
  | [] => [current]

/-- The value of a field in its line, when the line is of that field. -/
def fieldValue (name line : List Char) : Option (List Char) :=
  match before [':'] line with
  | none => none
  | some front =>
    if front.map Char.toLower = name then
      some ((line.drop (front.length + 1)).dropWhile fun c => c = ' ')
    else none

/-- How long the content is. -/
def contentLength (header : List Char) : Option ℕ :=
  (lines [] header).findSome? fun line =>
    (fieldValue "content-length".toList line).bind Decimal.parse

theorem fieldValue_append {name front : List Char} (h : ':' ∉ front) (value : List Char) :
    fieldValue name (front ++ ':' :: value) =
      if front.map Char.toLower = name then some (value.dropWhile fun c => c = ' ') else none := by
  have hcolon : before [':'] (':' :: value) = some [] := before_cons_of_begins ⟨value, rfl⟩
  have hdrop : (front ++ ':' :: value).drop (front.length + 1) = value := by
    rw [← List.drop_drop, List.drop_left]
    rfl
  rw [fieldValue, before_of_not_mem h, hcolon]
  simp [hdrop]

theorem lines_append_crlf {line : List Char} (h : '\r' ∉ line) (current rest : List Char) :
    lines current (line ++ '\r' :: '\n' :: rest) = (current ++ line) :: lines [] rest := by
  induction line generalizing current with
  | nil => simp [lines]
  | cons c line ih =>
    rw [List.mem_cons, not_or] at h
    rw [List.cons_append, lines, ih h.2]
    · simp
    · simp [Ne.symm h.1]

theorem lines_of_not_mem {line : List Char} (h : '\r' ∉ line) (current : List Char) :
    lines current line = [current ++ line] := by
  induction line generalizing current with
  | nil => simp [lines]
  | cons c line ih =>
    rw [List.mem_cons, not_or] at h
    rw [lines, ih h.2]
    · simp
    · simp [Ne.symm h.1]

/-! ## Parts -/

/-- The line in front of a part. -/
def delimiter (boundary : List UInt8) : List UInt8 := [45, 45] ++ boundary ++ crlf

/-- Where the content of the part at the front begins, and how long it is. -/
def head (boundary bs : List UInt8) : Option (ℕ × ℕ) :=
  if delimiter boundary <+: bs then
    match before blankLine (bs.drop (delimiter boundary).length) with
    | some header =>
      (contentLength (text header)).map fun length =>
        ((delimiter boundary).length + header.length + blankLine.length, length)
    | none => none
  else none

theorem head_eq_some {boundary bs : List UInt8} {start length : ℕ} :
    head boundary bs = some (start, length) ↔ ∃ header rest,
      bs = delimiter boundary ++ rest ∧ before blankLine rest = some header ∧
        contentLength (text header) = some length ∧
        start = (delimiter boundary).length + header.length + blankLine.length := by
  unfold head
  constructor
  · intro h
    split at h
    · rename_i hinit
      obtain ⟨rest, rfl⟩ := hinit
      rw [List.drop_left] at h
      split at h
      · rename_i header hheader
        obtain ⟨n, hlength, heq⟩ := Option.map_eq_some_iff.mp h
        cases heq
        exact ⟨header, rest, rfl, hheader, hlength, rfl⟩
      · cases h
    · cases h
  · rintro ⟨header, rest, rfl, hheader, hlength, rfl⟩
    rw [if_pos (List.prefix_append _ _), List.drop_left]
    simp [hheader, hlength]

theorem head_append {boundary bs : List UInt8} {x : ℕ × ℕ} (h : head boundary bs = some x)
    (t : List UInt8) : head boundary (bs ++ t) = some x := by
  obtain ⟨start, length⟩ := x
  obtain ⟨header, rest, rfl, hheader, hlength, hstart⟩ := head_eq_some.mp h
  exact head_eq_some.mpr ⟨header, rest ++ t, by simp, before_append hheader t, hlength, hstart⟩

/-- The header and the lines around it tell. -/
theorem head_take {boundary bs : List UInt8} {start length n : ℕ}
    (h : head boundary bs = some (start, length)) (hn : start ≤ n) :
    head boundary (bs.take n) = some (start, length) := by
  obtain ⟨header, rest, rfl, hheader, hlength, rfl⟩ := head_eq_some.mp h
  obtain ⟨behind, rfl⟩ := prefix_of_before hheader
  refine head_eq_some.mpr
    ⟨header, (header ++ blankLine ++ behind).take (n - (delimiter boundary).length), ?_, ?_,
      hlength, rfl⟩
  · rw [List.take_append, List.take_of_length_le (by omega)]
  · rw [List.take_append, List.take_of_length_le (by rw [List.length_append]; omega)]
    exact before_append (before_closed (by decide) hheader) _

/-- The parts of a stream. -/
def framing (boundary : List UInt8) : Framing UInt8 where
  size bs := (head boundary bs).map fun (start, length) => start + length + crlf.length
  pos := by
    intro bs n h
    obtain ⟨⟨start, length⟩, -, rfl⟩ := Option.map_eq_some_iff.mp h
    simp [crlf]
  stable := by
    intro bs n t h
    obtain ⟨x, hx, rfl⟩ := Option.map_eq_some_iff.mp h
    rw [head_append hx]
    rfl
  closed := by
    intro bs n h
    obtain ⟨⟨start, length⟩, hx, heq⟩ := Option.map_eq_some_iff.mp h
    have hstart : start ≤ n := by
      dsimp only at heq
      omega
    rw [head_take hx hstart, ← heq]
    rfl

/-- What is in a part. -/
def content (boundary part : List UInt8) : List UInt8 :=
  match head boundary part with
  | some (start, length) => (part.drop start).take length
  | none => []

/-- What is in the parts of a stream that arrives in chunks. -/
def contents (boundary : List UInt8) (chunks : List (List UInt8)) : List (List UInt8) :=
  ((framing boundary).feed [] chunks).1.map (content boundary)

/-! ## Writing parts -/

/-- A part with a header and a content. -/
def part (boundary header body : List UInt8) : List UInt8 :=
  delimiter boundary ++ header ++ blankLine ++ body ++ crlf

section
variable {boundary header body : List UInt8}

/-- The head of a part whose header ends at the empty line, and gives the length of the content. -/
theorem head_part (hheader : before blankLine (header ++ blankLine) = some header)
    (hlength : contentLength (text header) = some body.length) :
    head boundary (part boundary header body) =
      some ((delimiter boundary).length + header.length + blankLine.length, body.length) := by
  refine head_eq_some.mpr ⟨header, header ++ blankLine ++ (body ++ crlf), ?_, ?_, hlength, rfl⟩
  · simp [part]
  · exact before_append hheader _

theorem isFrame_part (hheader : before blankLine (header ++ blankLine) = some header)
    (hlength : contentLength (text header) = some body.length) :
    (framing boundary).IsFrame (part boundary header body) := by
  change Option.map _ (head boundary _) = _
  rw [head_part hheader hlength]
  simp [part]
  omega

theorem content_part (hheader : before blankLine (header ++ blankLine) = some header)
    (hlength : contentLength (text header) = some body.length) :
    content boundary (part boundary header body) = body := by
  rw [content, head_part hheader hlength]
  have hfront : ((delimiter boundary).length + header.length + blankLine.length) =
      (delimiter boundary ++ header ++ blankLine).length := by simp [Nat.add_assoc]
  have hpart : part boundary header body =
      (delimiter boundary ++ header ++ blankLine) ++ (body ++ crlf) := by simp [part]
  dsimp only
  rw [hpart, hfront, List.drop_left, List.take_left]

end

/-- The contents of parts are read back, however the stream arrives. -/
theorem contents_parts {boundary : List UInt8} {parts chunks : List (List UInt8)}
    (hparts : ∀ p ∈ parts, (framing boundary).IsFrame p)
    (hchunks : chunks.flatten = parts.flatten) :
    contents boundary chunks = parts.map (content boundary) := by
  have hfeed := (framing boundary).feed_split [] chunks
  have hsplit := Framing.split_flatten hparts []
  rw [List.nil_append, hchunks] at hfeed
  rw [List.append_nil, Framing.split_nil, List.append_nil, hfeed, Framing.split_nil] at hsplit
  rw [contents]
  rw [Prod.mk.injEq] at hsplit
  rw [← hsplit.1]
  rfl

end Multipart
