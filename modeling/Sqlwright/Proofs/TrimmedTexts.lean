import Mathlib.Data.List.DropRight
import Sqlwright.Text.Blank

/-!
Trimmed texts. Trimming takes the blanks around a text away and nothing else: what is left begins
and ends in no blank, it stands in the text with blanks around it, and a text that begins and ends
in no blank is left as it is.
-/

namespace Sqlwright.Text

variable {s before after : List Char}

theorem trimLeft_sublist (s : List Char) : (trimLeft s).Sublist s := List.dropWhile_sublist isBlank

theorem trimRight_front (s : List Char) : trimRight s <+: s := by
  simpa [trimRight] using List.reverse_prefix.mpr (List.dropWhile_suffix (l := s.reverse) isBlank)

/-! ### What is left -/

theorem trimLeft_starts (s : List Char) : ∀ c ∈ (trimLeft s).head?, isBlank c = false := by
  intro c first
  have stops := List.head?_dropWhile_not isBlank s
  rw [← trimLeft, Option.mem_def.mp first] at stops
  exact stops

theorem trimChars_starts (s : List Char) : ∀ c ∈ (trimChars s).head?, isBlank c = false := by
  intro c first
  apply trimLeft_starts s
  obtain ⟨back, whole⟩ : trimChars s <+: trimLeft s := trimRight_front (trimLeft s)
  rw [← whole, List.head?_append, Option.mem_def.mp first]
  rfl

theorem trimChars_ends (s : List Char) : ∀ c ∈ (trimChars s).getLast?, isBlank c = false := by
  intro c last
  obtain ⟨some, rfl⟩ := List.mem_getLast?_eq_getLast last
  exact Bool.not_eq_true _ ▸ List.rdropWhile_last_not isBlank (trimLeft s) some

/-- A text is what trimming leaves of it, with blanks around. -/
theorem exists_padding (s : List Char) : ∃ before after, s = before ++ (trimChars s ++ after) ∧
    (∀ c ∈ before, isBlank c) ∧ ∀ c ∈ after, isBlank c := by
  refine ⟨s.takeWhile isBlank, (trimLeft s).rtakeWhile isBlank, ?_,
    List.all_eq_true.mp List.all_takeWhile, fun c member => List.mem_rtakeWhile_imp member⟩
  have right : trimChars s ++ (trimLeft s).rtakeWhile isBlank = trimLeft s :=
    List.rdropWhile_append_rtakeWhile
  rw [right, trimLeft, List.takeWhile_append_dropWhile]

/-! ### Texts without blanks at their ends -/

theorem trimLeft_of_starts (starts : ∀ c ∈ s.head?, isBlank c = false) : trimLeft s = s := by
  cases s with
  | nil => rfl
  | cons c rest => exact List.dropWhile_cons_of_neg (by simp [starts c rfl])

theorem trimRight_of_ends (ends : ∀ c ∈ s.getLast?, isBlank c = false) : trimRight s = s := by
  have reversed : trimLeft s.reverse = s.reverse :=
    trimLeft_of_starts (by rwa [List.head?_reverse])
  rw [trimLeft] at reversed
  rw [trimRight, reversed, List.reverse_reverse]

theorem trimChars_of_ends (starts : ∀ c ∈ s.head?, isBlank c = false)
    (ends : ∀ c ∈ s.getLast?, isBlank c = false) : trimChars s = s := by
  rw [trimChars, trimLeft_of_starts starts, trimRight_of_ends ends]

theorem trimLeft_trimChars (s : List Char) : trimLeft (trimChars s) = trimChars s :=
  trimLeft_of_starts (trimChars_starts s)

theorem trimChars_trimChars (s : List Char) : trimChars (trimChars s) = trimChars s :=
  trimChars_of_ends (trimChars_starts s) (trimChars_ends s)

/-- A text between two characters that are not blank has no blanks around it. -/
theorem trimChars_between {first last : Char} (solid : isBlank first = false)
    (solid' : isBlank last = false) (s : List Char) :
    trimChars (first :: (s ++ [last])) = first :: (s ++ [last]) :=
  trimChars_of_ends (by simpa using solid) (by simpa [List.getLast?_cons] using solid')

section Solid

variable (solid : ∀ c ∈ s, !isBlank c)
include solid

theorem trimLeft_solid : trimLeft s = s :=
  trimLeft_of_starts fun c first => by simpa using solid c (List.mem_of_mem_head? first)

theorem trimRight_solid : trimRight s = s :=
  trimRight_of_ends fun c last => by simpa using solid c (List.mem_of_getLast? last)

theorem trimChars_solid : trimChars s = s := by
  rw [trimChars, trimLeft_solid solid, trimRight_solid solid]

end Solid

/-! ### Blanks around a text -/

theorem trimRight_append_blank (blank : ∀ c ∈ after, isBlank c) :
    trimRight (s ++ after) = trimRight s := by
  rw [trimRight, List.reverse_append, List.dropWhile_append_of_pos (by simpa using blank)]
  rfl

/-- Blanks in front of a text are trimmed away. -/
theorem trimChars_blank_append (blank : ∀ c ∈ before, isBlank c) :
    trimChars (before ++ s) = trimChars s := by
  rw [trimChars, trimLeft, List.dropWhile_append_of_pos blank]
  rfl

/-- Blanks behind a text are trimmed away. -/
theorem trimChars_append_blank (blank : ∀ c ∈ after, isBlank c) :
    trimChars (s ++ after) = trimChars s := by
  rw [trimChars, trimLeft, List.dropWhile_append]
  split
  · rename_i nothing
    rw [List.dropWhile_eq_nil_iff.mpr blank, trimChars, trimLeft, List.isEmpty_iff.mp nothing]
  · exact trimRight_append_blank blank

theorem trimRight_eq_nil_iff : trimRight s = [] ↔ ∀ c ∈ s, isBlank c := by
  rw [trimRight, List.reverse_eq_nil_iff, List.dropWhile_eq_nil_iff]
  simp

theorem trimChars_blank (blank : ∀ c ∈ s, isBlank c) : trimChars s = [] :=
  trimRight_eq_nil_iff.mpr fun c member => blank c ((trimLeft_sublist s).subset member)

theorem trimRight_cons {c : Char} (kept : isBlank c = false ∨ trimRight s ≠ []) :
    trimRight (c :: s) = c :: trimRight s := by
  rw [trimRight, List.reverse_cons, List.dropWhile_append]
  split
  · rename_i nothing
    have empty : trimRight s = [] := by
      rw [trimRight, List.isEmpty_iff.mp nothing, List.reverse_nil]
    have solid : isBlank c = false := kept.resolve_right (not_not_intro empty)
    rw [empty, List.dropWhile_cons_of_neg (by simp [solid])]
    rfl
  · rw [List.reverse_append]
    rfl

end Sqlwright.Text
