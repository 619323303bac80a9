import Mathlib.Data.List.Infix
import Sqlwright.Text.Fields

/-!
Texts joined by a separator of several characters. The texts are told by their join if the separator
does not start anywhere before the end of a text, neither within it nor across its end.
-/

namespace Sqlwright.Text

/-- A text behind which a separator is found first at the end of the text. -/
def EndsBefore (sep s : List Char) : Prop := ¬ sep <:+: s ++ sep.dropLast

instance (sep s : List Char) : Decidable (EndsBefore sep s) :=
  inferInstanceAs (Decidable (¬ sep <:+: s ++ sep.dropLast))

variable {sep first second rest others : List Char}

/-- Such a text has no separator inside. -/
theorem EndsBefore.ne_append (ends : EndsBefore sep first) : first ≠ second ++ (sep ++ rest) := by
  rintro rfl
  apply ends
  refine ⟨second, rest ++ sep.dropLast, ?_⟩
  simp [List.append_assoc]

/-- A separator in front of a text that ends before one starts no later than that. -/
theorem EndsBefore.eq_nil_of_append (ends : EndsBefore sep (first ++ second))
    (same : sep ++ rest = second ++ (sep ++ others)) : second = [] := by
  by_contra filled
  have whole : sep <+: second ++ (sep ++ others) := ⟨rest, same⟩
  have front : second ++ sep.dropLast <+: second ++ (sep ++ others) :=
    (List.prefix_append_right_inj second).mpr
      (sep.dropLast_prefix.trans (List.prefix_append sep others))
  have room : sep.length ≤ (second ++ sep.dropLast).length := by
    have some : 0 < second.length := List.length_pos_iff.mpr filled
    rw [List.length_append, List.length_dropLast]
    omega
  have inside : sep <:+: second ++ sep.dropLast :=
    (List.prefix_of_prefix_length_le whole front room).isInfix
  apply ends
  rw [List.append_assoc]
  exact inside.trans (List.suffix_append first _).isInfix

/-- What stands before and behind the first separator. -/
theorem EndsBefore.append_inj (ends : EndsBefore sep first) (ends' : EndsBefore sep second)
    (same : first ++ (sep ++ rest) = second ++ (sep ++ others)) :
    first = second ∧ rest = others := by
  rcases List.append_eq_append_iff.mp same with ⟨more, rfl, behind⟩ | ⟨more, rfl, behind⟩
  · obtain rfl := ends'.eq_nil_of_append behind
    simpa using behind
  · obtain rfl := ends.eq_nil_of_append behind
    simpa [eq_comm] using behind

/-- Texts that end before the separator are told by their join. -/
theorem join_injective {sep : String} {front back : List String} (filled : front ≠ [])
    (filled' : back ≠ []) (ends : ∀ s ∈ front, EndsBefore sep.toList s.toList)
    (ends' : ∀ s ∈ back, EndsBefore sep.toList s.toList) (same : join sep front = join sep back) :
    front = back := by
  induction front generalizing back with
  | nil => exact absurd rfl filled
  | cons s more ih =>
    obtain ⟨t, more', rfl⟩ := List.exists_cons_of_ne_nil filled'
    obtain ⟨here, later⟩ := List.forall_mem_cons.mp ends
    obtain ⟨here', later'⟩ := List.forall_mem_cons.mp ends'
    have texts := congrArg String.toList same
    cases more with
    | nil =>
      cases more' with
      | nil => exact congrArg (fun text => [text]) same
      | cons t' more' =>
        rw [toList_join_cons] at texts
        exact absurd texts here.ne_append
    | cons s' more =>
      rw [toList_join_cons] at texts
      cases more' with
      | nil => exact absurd texts.symm here'.ne_append
      | cons t' more' =>
        rw [toList_join_cons] at texts
        obtain ⟨first, rest⟩ := here.append_inj here' texts
        have others := ih (List.cons_ne_nil _ _) (List.cons_ne_nil _ _) later later'
          (String.toList_inj.mp rest)
        rw [String.toList_inj.mp first, others]

end Sqlwright.Text
