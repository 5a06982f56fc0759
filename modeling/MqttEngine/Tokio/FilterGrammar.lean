import MqttEngine.Tokio.Router

/-!
# The grammar of topic filters

`validate_topic_filter` goes over the levels of a filter. What it accepts is said here on the
characters instead, as the protocol does: a `+` fills the place between two separators, and a `#`
the one behind the last of them. The proof follows the separators, since no character of a level
has a separator next to it but at the ends.

## Main definitions

* `TopicFilter` — the filters of the protocol.

## Main results

* `validateTopicFilter_iff` — the validator accepts just these.
-/

namespace MqttEngine.Tokio

/-- There is a separator in front, or the filter begins here. -/
def LevelBegins (before : List Char) : Prop := before = [] ∨ before.getLast? = some '/'

/-- There is a separator behind, or the filter ends here. -/
def LevelEnds (after : List Char) : Prop := after = [] ∨ after.head? = some '/'

/-- The places of the wildcards in a filter. -/
structure Wildcards (chars : List Char) : Prop where
  plus : ∀ before after, chars = before ++ '+' :: after → LevelBegins before ∧ LevelEnds after
  hash : ∀ before after, chars = before ++ '#' :: after → LevelBegins before ∧ after = []

/-- A topic filter of the protocol. -/
structure TopicFilter (filter : String) : Prop where
  nonempty : filter ≠ ""
  noNul : '\x00' ∉ filter.toList
  wildcards : Wildcards filter.toList

/-! ## Levels -/

/-- What the levels of a filter may be. -/
def LevelsOk : List (List Char) → Prop
  | [] => True
  | level :: rest =>
    (('#' ∈ level → level = ['#'] ∧ rest = []) ∧ ('+' ∈ level → level = ['+'])) ∧ LevelsOk rest

/-- The loop accepts such levels. -/
theorem validateLevels_iff {E : Type} (parts : List (List Char)) :
    (validateLevels (parts.map String.ofList) : Except (ClientError E) Unit) = .ok () ↔
      LevelsOk parts := by
  induction parts with
  | nil => simp [validateLevels, LevelsOk]
  | cons level rest ih =>
    have hname (c : Char) : String.ofList level = String.singleton c ↔ level = [c] := by
      rw [← String.toList_inj, String.toList_ofList, String.toList_singleton]
    have hhash : String.ofList level = "#" ↔ level = ['#'] := hname '#'
    have hplus : String.ofList level = "+" ↔ level = ['+'] := hname '+'
    simp only [List.map_cons, validateLevels, LevelsOk, ne_eq, List.map_eq_nil_iff, hhash, hplus,
      String.toList_ofList]
    by_cases h : level = ['#']
    · by_cases hrest : rest = []
      · simp [h, hrest, validateLevels, LevelsOk]
      · simp [h, hrest]
    · by_cases hmem : '#' ∈ level
      · simp [h, hmem]
      · by_cases hfill : '+' ∈ level ∧ ¬ level = ['+']
        · simp [h, hmem, hfill]
        · rw [if_neg h, if_neg hmem, if_neg hfill, ih]
          have hlevel : '+' ∈ level → level = ['+'] := fun hin => by
            by_contra hne
            exact hfill ⟨hin, hne⟩
          exact ⟨fun h => ⟨⟨fun hin => absurd hin hmem, hlevel⟩, h⟩, fun h => h.2⟩

/-! ## Separators -/

section
variable {level rest before after : List Char} {c : Char}

/-- Within a level only its begin begins something. -/
theorem levelBegins_iff (h : '/' ∉ before) : LevelBegins before ↔ before = [] := by
  constructor
  · rintro (hnil | hlast)
    · exact hnil
    · exact absurd (List.mem_of_getLast? hlast) h
  · exact .inl

theorem levelEnds_iff (h : '/' ∉ after) : LevelEnds after ↔ after = [] := by
  constructor
  · rintro (hnil | hhead)
    · exact hnil
    · exact absurd (List.mem_of_mem_head? hhead) h
  · exact .inl

/-- What is in front of the separator does not matter. -/
theorem levelBegins_append : LevelBegins (level ++ '/' :: before) ↔ LevelBegins before := by
  rcases List.eq_nil_or_concat before with rfl | ⟨l, a, rfl⟩
  · simp [LevelBegins]
  · have hlast : (level ++ '/' :: (l ++ [a])).getLast? = some a := by
      rw [← List.cons_append, ← List.append_assoc, List.getLast?_concat]
    simp [LevelBegins, hlast]

/-- A character of a filter is one of its first level, or one behind the first separator. -/
theorem split_of_mem (hc : c ≠ '/') (h : level ++ '/' :: rest = before ++ c :: after) :
    (∃ after', level = before ++ c :: after' ∧ after = after' ++ '/' :: rest) ∨
      ∃ before', before = level ++ '/' :: before' ∧ rest = before' ++ c :: after := by
  rcases List.append_eq_append_iff.mp h with ⟨mid, rfl, hmid⟩ | ⟨mid, rfl, hmid⟩
  · cases mid with
    | nil => exact absurd (List.cons.inj hmid).1.symm hc
    | cons a mid =>
      obtain ⟨rfl, hrest⟩ := List.cons.inj hmid
      exact .inr ⟨mid, rfl, hrest⟩
  · cases mid with
    | nil => exact absurd (List.cons.inj hmid).1 hc
    | cons a mid =>
      obtain ⟨rfl, hafter⟩ := List.cons.inj hmid
      exact .inl ⟨mid, rfl, hafter⟩

/-- A single level. -/
theorem wildcards_level (h : '/' ∉ level) : Wildcards level ↔ LevelsOk [level] := by
  have hparts {before after : List Char} {c : Char} (heq : level = before ++ c :: after) :
      '/' ∉ before ∧ '/' ∉ after := by
    simp only [heq, List.mem_append, List.mem_cons, not_or] at h
    exact ⟨h.1, h.2.2⟩
  simp only [LevelsOk, and_true]
  constructor
  · intro hwild
    constructor
    · intro hmem
      obtain ⟨before, after, heq⟩ := List.append_of_mem hmem
      obtain ⟨hbegins, rfl⟩ := hwild.hash before after heq
      rw [levelBegins_iff (hparts heq).1] at hbegins
      simp [heq, hbegins]
    · intro hmem
      obtain ⟨before, after, heq⟩ := List.append_of_mem hmem
      obtain ⟨hbegins, hends⟩ := hwild.plus before after heq
      rw [levelBegins_iff (hparts heq).1] at hbegins
      rw [levelEnds_iff (hparts heq).2] at hends
      simp [heq, hbegins, hends]
  · rintro ⟨hhash, hplus⟩
    constructor
    · intro before after heq
      have hlevel := hplus (by simp [heq])
      rw [heq, List.append_eq_singleton_iff] at hlevel
      simp only [reduceCtorEq, and_false, or_false, List.cons.injEq, true_and] at hlevel
      exact ⟨.inl hlevel.1, .inl hlevel.2⟩
    · intro before after heq
      have hlevel := hhash (by simp [heq])
      rw [heq, List.append_eq_singleton_iff] at hlevel
      simp only [reduceCtorEq, and_false, or_false, List.cons.injEq, true_and] at hlevel
      exact ⟨.inl hlevel.1, hlevel.2⟩

/-- The first level and its separator. -/
theorem wildcards_cons (h : '/' ∉ level) :
    Wildcards (level ++ '/' :: rest) ↔
      ('#' ∉ level ∧ ('+' ∈ level → level = ['+'])) ∧ Wildcards rest := by
  constructor
  · intro hwild
    refine ⟨⟨fun hmem => ?_, fun hmem => ?_⟩, fun before after heq => ?_, fun before after heq => ?_⟩
    · obtain ⟨before, after, heq⟩ := List.append_of_mem hmem
      have hlast := (hwild.hash before (after ++ '/' :: rest) (by simp [heq])).2
      simp at hlast
    · obtain ⟨before, after, heq⟩ := List.append_of_mem hmem
      obtain ⟨hbegins, hends⟩ := hwild.plus before (after ++ '/' :: rest) (by simp [heq])
      simp only [heq, List.mem_append, List.mem_cons, not_or] at h
      rw [levelBegins_iff h.1] at hbegins
      cases after with
      | nil => simp [heq, hbegins]
      | cons a after =>
        obtain rfl : a = '/' := by simpa [LevelEnds] using hends
        simp at h
    · have hplace := hwild.plus (level ++ '/' :: before) after (by simp [heq])
      rwa [levelBegins_append] at hplace
    · have hplace := hwild.hash (level ++ '/' :: before) after (by simp [heq])
      rwa [levelBegins_append] at hplace
  · rintro ⟨⟨hhash, hplus⟩, hwild⟩
    constructor
    · intro before after heq
      rcases split_of_mem (by decide) heq with ⟨after', hlevel, rfl⟩ | ⟨before', rfl, hrest⟩
      · have hwhole := hplus (by simp [hlevel])
        rw [hlevel, List.append_eq_singleton_iff] at hwhole
        simp only [reduceCtorEq, and_false, or_false, List.cons.injEq, true_and] at hwhole
        exact ⟨.inl hwhole.1, .inr (by simp [hwhole.2])⟩
      · rw [levelBegins_append]
        exact hwild.plus before' after hrest
    · intro before after heq
      rcases split_of_mem (by decide) heq with ⟨after', hlevel, rfl⟩ | ⟨before', rfl, hrest⟩
      · exact absurd (by simp [hlevel]) hhash
      · rw [levelBegins_append]
        exact hwild.hash before' after hrest

end

/-- The levels of a filter, and the places of its wildcards. -/
theorem wildcards_iff (chars : List Char) : Wildcards chars ↔ LevelsOk (chars.splitOn '/') := by
  induction hlength : chars.length using Nat.strongRecOn generalizing chars with
  | ind n ih =>
    by_cases hslash : '/' ∈ chars
    · obtain ⟨level, rest, rfl, hlevel⟩ := List.eq_append_cons_of_mem hslash
      have hrest := ih rest.length (by
        rw [← hlength, List.length_append, List.length_cons]
        omega) rest rfl
      rw [List.splitOn_append_cons_self_of_not_mem hlevel, wildcards_cons hlevel, hrest, LevelsOk]
      simp [List.splitOn_ne_nil]
    · rw [List.splitOn_eq_singleton hslash, wildcards_level hslash]

/-- **The validator accepts the filters of the protocol.** -/
theorem validateTopicFilter_iff (E : Type) (filter : String) :
    (validateTopicFilter filter : Except (ClientError E) Unit) = .ok () ↔ TopicFilter filter := by
  rw [validateTopicFilter]
  by_cases hempty : filter = ""
  · rw [if_pos hempty]
    constructor
    · rintro ⟨⟩
    · exact fun h => absurd hempty h.nonempty
  · rw [if_neg hempty]
    by_cases hnul : '\x00' ∈ filter.toList
    · rw [if_pos hnul]
      constructor
      · rintro ⟨⟩
      · exact fun h => absurd hnul h.noNul
    · rw [if_neg hnul, levels, validateLevels_iff, ← wildcards_iff]
      exact ⟨fun h => ⟨hempty, hnul, h⟩, fun h => h.wildcards⟩

end MqttEngine.Tokio
