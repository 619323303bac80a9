import Sqlwright.Proofs.CommaLists
import Sqlwright.Query.Call

/-!
Columns that are passed in lists. A call that selects columns or groups by them takes comma
separated lists. Whether columns stand in one list, in several or one by one, and however a list is
spaced, the call does the same.
-/

namespace Sqlwright

/-- Two ways to pass the same arguments: the second may pass what a list of columns holds one by
one. -/
inductive PassedApart {α : Type} (column : String → α) : List α → List α → Prop where
  | nil : PassedApart column [] []
  | keep (argument : α) {arguments apart : List α} (rest : PassedApart column arguments apart) :
      PassedApart column (argument :: arguments) (argument :: apart)
  | list (slots : List Text.Slot) {arguments apart : List α}
      (rest : PassedApart column arguments apart) :
      PassedApart column (column (Text.Slot.written slots) :: arguments)
        ((Text.Slot.entries slots).map column ++ apart)

/-! ### Select lists -/

theorem Item.addAll_append (front back : List Item) (b : Builder) :
    Item.addAll (front ++ back) b = Item.addAll back (Item.addAll front b) := by
  induction front generalizing b with
  | nil => rfl
  | cons item rest ih => exact ih (item.add b)

/-- Lists that are passed one after the other select the columns of each. -/
theorem Item.addAll_columns (lists : List String) (b : Builder) :
    Item.addAll (lists.map .columns) b =
      b.edit fun q =>
        { q with columns := q.columns ++ (lists.flatMap Text.commaList).map .column } := by
  induction lists generalizing b with
  | nil =>
    obtain ⟨grammar, connection, query, isStrict⟩ := b
    cases query
    simp [Item.addAll, Builder.edit]
  | cons list rest ih =>
    rw [List.map_cons, Item.addAll, Item.add, ih]
    simp [Builder.selectColumns, Builder.edit, List.append_assoc]

theorem Item.add_written (slots : List Text.Slot) (b : Builder) :
    (Item.columns (Text.Slot.written slots)).add b =
      Item.addAll ((Text.Slot.entries slots).map .columns) b := by
  rw [Item.addAll_columns, Text.flatMap_commaList (Text.isEntry_of_mem_entries slots),
    ← Text.commaList_written]
  rfl

theorem PassedApart.addAll_eq {items apart : List Item} (same : PassedApart .columns items apart)
    (b : Builder) : Item.addAll items b = Item.addAll apart b := by
  induction same generalizing b with
  | nil => rfl
  | keep item _ ih => exact ih (item.add b)
  | list slots _ ih => rw [Item.addAll_append, ← Item.add_written, ← ih, Item.addAll]

/-! ### Groups -/

theorem PassedApart.flatMap_eq {lists apart : List String} (same : PassedApart id lists apart) :
    lists.flatMap Text.commaList = apart.flatMap Text.commaList := by
  induction same with
  | nil => rfl
  | keep list _ ih => rw [List.flatMap_cons, List.flatMap_cons, ih]
  | list slots _ ih =>
    rw [List.map_id, List.flatMap_append, List.flatMap_cons, ih, id, Text.commaList_written,
      Text.flatMap_commaList (Text.isEntry_of_mem_entries slots)]

/-- Comma separated lists are read entry by entry. However entries are written in a list, with
blanks around commas and at the ends and with empty or blank slots in between, reading gives back
exactly the entries. Every text is such a list; what is read of it are entries, and they are the
parts between the separators of the trimmed text. So it makes no difference to a call that selects
columns or groups by them how they are passed. -/
theorem comma_lists_read_back :
    (∀ slots : List Text.Slot,
      Text.commaList (Text.Slot.written slots) = Text.Slot.entries slots) ∧
      (∀ s : String, (∃ slots, Text.Slot.written slots = s) ∧
        (∀ entry ∈ Text.commaList s, Text.IsEntry entry) ∧
        Text.commaList s =
          ((Text.cutAtSeparators (Text.trim s).toList).filter (· ≠ [])).map .ofList) ∧
      (∀ (b : Builder) (items apart : List Item), PassedApart .columns items apart →
        (Call.select items).run b = (Call.select apart).run b ∧
          (Call.addSelect items).run b = (Call.addSelect apart).run b) ∧
      ∀ (b : Builder) (lists apart : List String), PassedApart id lists apart →
        (Call.groupBy lists).run b = (Call.groupBy apart).run b := by
  refine ⟨Text.commaList_written, fun s => ?_, fun b items apart same => ?_,
    fun b lists apart same => ?_⟩
  · exact ⟨Text.exists_written s, fun entry => Text.isEntry_of_mem_commaList,
      Text.commaList_eq_cutAtSeparators s⟩
  · exact ⟨same.addAll_eq b.clearSelect, same.addAll_eq b⟩
  · rw [Call.run, Call.run, Builder.groupBy, Builder.groupBy, same.flatMap_eq]

/-- A list with an alias, a name of two words, blanks of all kinds, and slots without an entry. -/
def spacedList : List Text.Slot :=
  [.filled ⟨" \t", by decide⟩ "users.name as who" (by decide +kernel)
      ⟨"\n", by decide⟩,
    .empty ⟨"", rfl⟩,
    .empty ⟨"\u3000", by decide⟩,
    .filled ⟨"\u00a0", by decide⟩ "full name" (by decide +kernel)
      ⟨"", rfl⟩,
    .empty ⟨" ", by decide⟩]

/-- The same columns in a spaced list and one by one, selected in front of an expression and grouped
by behind another column. -/
theorem comma_lists_read_back_spaced :
    Text.Slot.written spacedList = " \tusers.name as who\n,,\u3000,\u00a0full name, " ∧
      "full name" ∈ Text.commaList (Text.Slot.written spacedList) ∧ Text.IsEntry "full name" ∧
      (Call.select [.columns (Text.Slot.written spacedList), .raw "now()"]).run
          { grammar := ⟨.mysql, ""⟩ } =
        (Call.select [.columns "users.name as who", .columns "full name", .raw "now()"]).run
          { grammar := ⟨.mysql, ""⟩ } ∧
      (Call.groupBy ["id", Text.Slot.written spacedList]).run { grammar := ⟨.mysql, ""⟩ } =
        (Call.groupBy ["id", "users.name as who", "full name"]).run
          { grammar := ⟨.mysql, ""⟩ } := by
  obtain ⟨read, each, selected, grouped⟩ := comma_lists_read_back
  have member : "full name" ∈ Text.commaList (Text.Slot.written spacedList) := by
    rw [read]
    decide +kernel
  have items : PassedApart Item.columns
      [.columns (Text.Slot.written spacedList), Item.raw "now()"]
      [.columns "users.name as who", .columns "full name", Item.raw "now()"] :=
    .list spacedList (.keep (Item.raw "now()") .nil)
  have lists : PassedApart id ["id", Text.Slot.written spacedList]
      ["id", "users.name as who", "full name"] := .keep "id" (.list spacedList .nil)
  exact ⟨by decide +kernel, member, (each _).2.1 _ member, (selected _ _ _ items).1,
    grouped _ _ _ lists⟩

end Sqlwright
