import Mathlib.Data.List.Forall2
import Mathlib.Data.List.Induction

/-!
Names in order of first appearance. A list from which repetitions are taken keeps the first of each,
so what is appended to it changes the names only if it is new.
-/

namespace Sqlwright

variable {α β γ : Type} [DecidableEq β] [DecidableEq γ]

theorem eraseDups_concat (items : List β) (last : β) :
    (items ++ [last]).eraseDups =
      if last ∈ items then items.eraseDups else items.eraseDups ++ [last] := by
  rw [List.eraseDups_append]
  by_cases known : last ∈ items
  · simp [List.removeAll, known]
  · simp [List.removeAll, known, List.eraseDups_cons]

/-- Two keys that are equal together appear first together. -/
theorem eraseDups_map_forall₂ (first : α → β) (second : α → γ) (items : List α)
    (same : ∀ x ∈ items, ∀ y ∈ items, first x = first y ↔ second x = second y) :
    List.Forall₂ (fun a b => ∃ x ∈ items, first x = a ∧ second x = b)
      (items.map first).eraseDups (items.map second).eraseDups := by
  induction items using List.reverseRecOn with
  | nil => exact .nil
  | append_singleton rest last ih =>
    have inner := ih fun x member y member' =>
      same x (List.mem_append_left _ member) y (List.mem_append_left _ member')
    have kept : List.Forall₂ (fun a b => ∃ x ∈ rest ++ [last], first x = a ∧ second x = b)
        (rest.map first).eraseDups (rest.map second).eraseDups := by
      refine inner.imp fun a b found => ?_
      obtain ⟨x, member, equal⟩ := found
      exact ⟨x, List.mem_append_left _ member, equal⟩
    have together : last ∈ rest ++ [last] := List.mem_append_right _ (List.mem_singleton_self last)
    have known : first last ∈ rest.map first ↔ second last ∈ rest.map second := by
      simp only [List.mem_map]
      refine exists_congr fun x => and_congr_right fun member => ?_
      exact same x (List.mem_append_left _ member) last together
    rw [List.map_append, List.map_append, List.map_singleton, List.map_singleton,
      eraseDups_concat, eraseDups_concat]
    by_cases here : first last ∈ rest.map first
    · rwa [if_pos here, if_pos (known.mp here)]
    · rw [if_neg here, if_neg (mt known.mpr here)]
      have next : ∃ x ∈ rest ++ [last], first x = first last ∧ second x = second last :=
        ⟨last, together, rfl, rfl⟩
      exact List.rel_append kept (.cons next .nil)

end Sqlwright
