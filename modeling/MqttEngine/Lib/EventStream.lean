import MqttEngine.Lib.Utf8
import Mathlib.Algebra.Order.Ring.Nat
import Mathlib.Data.List.Basic

/-!
# Event streams

The grammar of `text/event-stream`. The text is UTF-8. A line is ended by CR, LF or CRLF. A line
that begins with a colon is a comment, any other line is a field: its name goes up to the first
colon, its value from there on, without one leading space. A blank line ends a block of fields, and
dispatches an event if there are `data` fields in it; its data are their values, joined with LF.
What is not ended by a blank line is discarded.

The name of a field and its colon are not part of the value. So the data of an event are shorter than
the text of its lines, and a text with a line break cannot come back whole from one `data` field
(`length_dataOf_lt`).

## Main definitions

* `lines`, `normalize` — the lines of a text; the text with LF at the end of each line.
* `field`, `blocks` — the field in a line, and the blocks of fields.
* `parse`, `events`, `dataOf` — the blocks and events of a text, and the data of an event.
* `dataEvent` — a text that is sent as one field.

## Main results

* `lines_append_lf` — a line without line breaks.
* `exists_block` — a block ends at the first blank line.
* `parse_dataEvent`, `length_dataOf_lt` — what comes back of a text that is sent as one field.
* `map_dataOf_events` — what comes back of texts that are sent one behind the other.
-/

namespace EventStream

/-! ## Lines -/

/-- The lines that are ended, behind the characters of the current one. The LF after a CR belongs to
the same end of a line. -/
def lines (afterCr : Bool) (current : List Char) : List Char → List (List Char)
  | [] => []
  | c :: rest =>
    if c = '\n' then
      if afterCr then lines false current rest else current :: lines false [] rest
    else if c = '\r' then current :: lines true [] rest
    else lines false (current ++ [c]) rest

/-- The text with LF for every end of a line. -/
def normalize (afterCr : Bool) : List Char → List Char
  | [] => []
  | c :: rest =>
    if c = '\n' then if afterCr then normalize false rest else '\n' :: normalize false rest
    else if c = '\r' then '\n' :: normalize true rest
    else c :: normalize false rest

/-- There is no end of a line in the text. -/
def OneLine (text : List Char) : Prop := '\r' ∉ text ∧ '\n' ∉ text

instance (text : List Char) : Decidable (OneLine text) := inferInstanceAs (Decidable (_ ∧ _))

section
variable {afterCr : Bool} {current text rest : List Char} {c : Char}

theorem oneLine_cons : OneLine (c :: text) ↔ c ≠ '\r' ∧ c ≠ '\n' ∧ OneLine text := by
  simp only [OneLine, List.mem_cons, not_or, ne_eq, eq_comm]
  tauto

theorem normalize_of_oneLine (h : OneLine text) : normalize false text = text := by
  induction text with
  | nil => rfl
  | cons c text ih =>
    obtain ⟨hcr, hlf, htext⟩ := oneLine_cons.mp h
    rw [normalize, if_neg hlf, if_neg hcr, ih htext]

/-- A text in one line, up to the LF that ends the line. -/
theorem lines_append_lf (h : OneLine text) (current rest : List Char) :
    lines false current (text ++ '\n' :: rest) = (current ++ text) :: lines false [] rest := by
  induction text generalizing current with
  | nil => simp [lines]
  | cons c text ih =>
    obtain ⟨hcr, hlf, htext⟩ := oneLine_cons.mp h
    rw [List.cons_append, lines, if_neg hlf, if_neg hcr, ih htext, List.append_assoc]
    rfl

theorem length_normalize_le (afterCr : Bool) (text : List Char) :
    (normalize afterCr text).length ≤ text.length := by
  induction text generalizing afterCr with
  | nil => exact Nat.le_refl _
  | cons c text ih =>
    have hfalse := ih false
    have htrue := ih true
    rw [normalize, List.length_cons]
    split
    · split
      · omega
      · simpa using hfalse
    · split <;> simpa

theorem length_normalize_append_le (afterCr : Bool) (text rest : List Char) :
    (normalize afterCr (text ++ rest)).length ≤ (normalize afterCr text).length + rest.length := by
  induction text generalizing afterCr with
  | nil => simpa [normalize] using length_normalize_le afterCr rest
  | cons c text ih =>
    have hfalse := ih false
    have htrue := ih true
    rw [List.cons_append, normalize, normalize]
    split
    · split
      · exact hfalse
      · simp only [List.length_cons]
        omega
    · split
      · simp only [List.length_cons]
        omega
      · simp only [List.length_cons]
        omega

/-- The characters of some lines, each with the end of its line. -/
def size (ls : List (List Char)) : ℕ := (ls.map fun line => line.length + 1).sum

/-- Nothing is added to the lines of a text. -/
theorem size_lines_le (afterCr : Bool) (current text : List Char) :
    size (lines afterCr current text) ≤ current.length + (normalize afterCr text).length := by
  induction text generalizing afterCr current with
  | nil => exact Nat.zero_le _
  | cons c text ih =>
    have hsame := ih false current
    have hended := ih false []
    have hcr := ih true []
    have hmore := ih false (current ++ [c])
    simp only [List.length_append, List.length_singleton, List.length_nil] at hmore hended hcr
    rw [lines, normalize]
    split
    · split
      · exact hsame
      · simp only [size, List.map_cons, List.sum_cons, List.length_cons] at hended ⊢
        omega
    · split
      · simp only [size, List.map_cons, List.sum_cons, List.length_cons] at hcr ⊢
        omega
      · simp only [List.length_cons]
        omega

/-- A text with line breaks, before two LF: its first line, and what the lines after it take. -/
theorem exists_firstLine (h : ¬ OneLine text) (current : List Char) :
    ∃ line rest, lines false current (text ++ ['\n', '\n']) = (current ++ line) :: rest ∧
      line.length + 1 ≤ (normalize false text).length ∧
      line.length + size rest < (normalize false text).length + 2 := by
  induction text generalizing current with
  | nil => exact absurd ⟨List.not_mem_nil, List.not_mem_nil⟩ h
  | cons c text ih =>
    rw [List.cons_append, lines, normalize]
    by_cases hlf : c = '\n'
    · have hsize := size_lines_le false [] (text ++ ['\n', '\n'])
      have happend := length_normalize_append_le false text ['\n', '\n']
      rw [if_pos hlf, if_pos hlf]
      refine ⟨[], lines false [] (text ++ ['\n', '\n']), by simp, by simp, ?_⟩
      simp only [List.length_nil, List.length_cons] at hsize happend ⊢
      simp only [Bool.false_eq_true, if_false, List.length_cons]
      omega
    rw [if_neg hlf, if_neg hlf]
    by_cases hcr : c = '\r'
    · have hsize := size_lines_le true [] (text ++ ['\n', '\n'])
      have happend := length_normalize_append_le true text ['\n', '\n']
      rw [if_pos hcr, if_pos hcr]
      refine ⟨[], lines true [] (text ++ ['\n', '\n']), by simp, by simp, ?_⟩
      simp only [List.length_nil, List.length_cons] at hsize happend ⊢
      omega
    rw [if_neg hcr, if_neg hcr]
    have htext : ¬ OneLine text := fun htext => h (oneLine_cons.mpr ⟨hcr, hlf, htext⟩)
    obtain ⟨line, rest, hlines, hlong, hsize⟩ := ih htext (current ++ [c])
    refine ⟨c :: line, rest, by simpa using hlines, ?_, ?_⟩
    · simpa using hlong
    · simp only [List.length_cons]
      omega

end

/-! ## Fields -/

/-- A field. -/
structure Field where
  name : List Char
  value : List Char
  deriving DecidableEq

/-- The field in a line that is not blank, unless the line is a comment. -/
def field (line : List Char) : Option Field :=
  if line.head? = some ':' then none
  else
    let value := (line.dropWhile (· ≠ ':')).tail
    some
      { name := line.takeWhile (· ≠ ':')
        value := if value.head? = some ' ' then value.tail else value }

/-- The blocks that are ended by a blank line, behind the fields of the current one. -/
def blocks (fields : List Field) : List (List Char) → List (List Field)
  | [] => []
  | line :: rest =>
    if line = [] then fields :: blocks [] rest else blocks (fields ++ (field line).toList) rest

/-- The values of the `data` fields. -/
def dataValues (block : List Field) : List (List Char) :=
  (block.filter fun field => field.name = "data".toList).map (·.value)

/-- The data of the event that a block dispatches. -/
def dataOf (block : List Field) : List Char := ['\n'].intercalate (dataValues block)

/-- The text of a stream, without a byte order mark. -/
def textOf (bytes : List UInt8) : List Char :=
  match Utf8.lossy bytes with
  | '\uFEFF' :: text => text
  | text => text

/-- The blocks of a text. -/
def parse (text : List Char) : List (List Field) := blocks [] (lines false [] text)

/-- The blocks that dispatch an event. -/
def events (text : List Char) : List (List Field) :=
  (parse text).filter fun block => dataValues block ≠ []

section
variable {fields : List Field} {ls : List (List Char)} {line : List Char} {f : Field}

theorem length_value_le (h : field line = some f) :
    f.name.length + f.value.length ≤ line.length := by
  rw [field] at h
  split at h
  · cases h
  · cases h
    have hsplit :=
      congrArg List.length (List.takeWhile_append_dropWhile (p := (· ≠ ':')) (l := line))
    rw [List.length_append] at hsplit
    dsimp only
    split
    · rw [List.length_tail, List.length_tail]
      omega
    · rw [List.length_tail]
      omega

/-- A block ends at the first blank line. -/
theorem exists_block (fields : List Field) (ls : List (List Char)) :
    blocks fields ls = [] ∨ ∃ before after, ls = before ++ [] :: after ∧
      blocks fields ls = (fields ++ before.filterMap field) :: blocks [] after := by
  induction ls generalizing fields with
  | nil => exact .inl rfl
  | cons line ls ih =>
    rw [blocks]
    split
    · rename_i hblank
      subst hblank
      exact .inr ⟨[], ls, rfl, by simp⟩
    · rcases ih (fields ++ (field line).toList) with hnone | ⟨before, after, rfl, hblocks⟩
      · exact .inl hnone
      · refine .inr ⟨line :: before, after, rfl, ?_⟩
        rw [hblocks, List.append_assoc, List.filterMap_cons]
        cases field line <;> rfl

/-- The `data` fields of some lines take the lines without their names. -/
theorem size_dataValues_add_le (ls : List (List Char)) :
    size (dataValues (ls.filterMap field)) + 4 * (dataValues (ls.filterMap field)).length ≤
      size ls := by
  induction ls with
  | nil => exact Nat.zero_le _
  | cons line ls ih =>
    rw [List.filterMap_cons]
    split
    · exact Nat.le_trans ih (Nat.le_add_left _ _)
    · rename_i f hf
      have hlength := length_value_le hf
      rw [dataValues, List.filter_cons]
      split
      · rename_i hname
        rw [decide_eq_true_eq] at hname
        have hfour : f.name.length = 4 := by
          rw [hname]
          rfl
        simp only [size, dataValues, List.map_cons, List.sum_cons, List.length_cons] at ih ⊢
        omega
      · exact Nat.le_trans ih (Nat.le_add_left _ _)

theorem length_intercalate (value : List Char) (values : List (List Char)) :
    (['\n'].intercalate (value :: values)).length = value.length + size values := by
  induction values generalizing value with
  | nil => simp [size]
  | cons next values ih =>
    rw [List.intercalate_cons_cons, List.length_append, List.length_append, ih]
    simp only [size, List.map_cons, List.sum_cons, List.length_singleton]
    omega

end

/-! ## One field -/

/-- A text in a `data` field, and a blank line. -/
def dataEvent (text : List Char) : List Char := "data: ".toList ++ text ++ ['\n', '\n']

section
variable {text line : List Char} {block : List Field}

theorem field_data (line : List Char) :
    field ("data: ".toList ++ line) = some { name := "data".toList, value := line } := by
  simp [field]

theorem lines_dataEvent (text : List Char) :
    lines false [] (dataEvent text) = lines false "data: ".toList (text ++ ['\n', '\n']) := by
  unfold dataEvent
  rw [List.append_assoc]
  simp [lines]

/-- A text in one line is the data of one event. -/
theorem parse_dataEvent (h : OneLine text) :
    parse (dataEvent text) = [[{ name := "data".toList, value := text }]] := by
  rw [parse, lines_dataEvent, lines_append_lf h, blocks, if_neg (by simp), field_data]
  simp [lines, blocks]

theorem parse_cons_dataEvent (h : OneLine text) (rest : List Char) :
    parse (dataEvent text ++ rest) = [{ name := "data".toList, value := text }] :: parse rest := by
  have hline : OneLine ("data: ".toList ++ text) :=
    ⟨by simpa using h.1, by simpa using h.2⟩
  have hsplit : dataEvent text ++ rest = ("data: ".toList ++ text) ++ '\n' :: '\n' :: rest := by
    simp [dataEvent]
  have hblank : lines false [] ('\n' :: rest) = [] :: lines false [] rest := rfl
  rw [parse, hsplit, lines_append_lf hline, hblank, List.nil_append, blocks, if_neg (by simp),
    field_data, blocks, if_pos rfl]
  rfl

/-- Texts in one line each, sent one behind the other, are the data of events in their order. -/
theorem map_dataOf_events {texts : List (List Char)} (h : ∀ text ∈ texts, OneLine text) :
    (events (texts.flatMap dataEvent)).map dataOf = texts := by
  induction texts with
  | nil => rfl
  | cons text texts ih =>
    rw [List.forall_mem_cons] at h
    have hdata : dataOf [{ name := "data".toList, value := text }] = text := by
      simp [dataOf, dataValues]
    have hrest := ih h.2
    rw [events] at hrest
    rw [events, List.flatMap_cons, parse_cons_dataEvent h.1,
      List.filter_cons_of_pos (by simp [dataValues]), List.map_cons, hrest, hdata]

/-- **A text with a line break comes back shortened**, if it comes back as one event. -/
theorem length_dataOf_lt (h : ¬ OneLine text) (hevent : events (dataEvent text) = [block]) :
    (dataOf block).length < (normalize false text).length := by
  obtain ⟨line, rest, hlines, hlong, hsize⟩ := exists_firstLine h "data: ".toList
  rw [events, parse, lines_dataEvent, hlines, blocks, if_neg (by simp), field_data] at hevent
  rcases exists_block _ rest with hnone | ⟨before, after, rfl, hblocks⟩
  · rw [hnone] at hevent
    cases hevent
  · -- The first block has the field in the first line, and dispatches the event.
    have hvalues : dataValues ([{ name := "data".toList, value := line }] ++ before.filterMap field) =
        line :: dataValues (before.filterMap field) := by
      simp [dataValues]
    rw [Option.toList_some, List.nil_append] at hblocks hevent
    rw [hblocks, List.filter_cons, if_pos (by rw [hvalues]; simp), List.cons_eq_cons] at hevent
    have hdata := size_dataValues_add_le before
    have hbefore : size before ≤ size (before ++ [] :: after) := by
      simp only [size, List.map_append, List.sum_append]
      omega
    rw [← hevent.1, dataOf, hvalues, length_intercalate]
    rcases hlater : dataValues (before.filterMap field) with _ | ⟨value, values⟩
    · simp only [size, List.map_nil, List.sum_nil]
      omega
    · rw [hlater, List.length_cons] at hdata
      omega

end

end EventStream
