import Sqlwright.Proofs.TrimmedTexts
import Sqlwright.Text.Fields

/-!
Comma separated lists. A list is written as slots with commas between them; a slot holds an entry
with blanks around it, or blanks alone. Reading gives the entries of the slots that have one, and
every text is a list of this kind. The same entries stand between the separators of the trimmed
text, where a separator is a comma with all blanks around it.
-/

namespace Sqlwright.Text

/-- An entry of a list: not empty, without commas, and without blanks at its ends. -/
structure IsEntry (s : String) : Prop where
  filled : s ≠ ""
  free : ',' ∉ s.toList
  starts : ∀ c ∈ s.toList.head?, isBlank c = false
  ends : ∀ c ∈ s.toList.getLast?, isBlank c = false

theorem IsEntry.of_solid {s : String} (filled : s ≠ "")
    (solid : ∀ c ∈ s.toList, c ≠ ',' ∧ isBlank c = false) : IsEntry s where
  filled := filled
  free member := (solid ',' member).1 rfl
  starts c first := (solid c (List.mem_of_mem_head? first)).2
  ends c last := (solid c (List.mem_of_getLast? last)).2

/-- Blanks between two other things; there may be none. -/
structure Gap where
  text : String
  blank : text.toList.all isBlank

theorem Gap.isBlank_of_mem (gap : Gap) : ∀ c ∈ gap.text.toList, isBlank c :=
  List.all_eq_true.mp gap.blank

/-- What stands between two commas of a list. -/
inductive Slot where
  | empty (gap : Gap)
  | filled (before : Gap) (entry : String) (whole : IsEntry entry) (after : Gap)

namespace Slot

def text : Slot → String
  | .empty gap => gap.text
  | .filled before entry _ after => before.text ++ entry ++ after.text

def entry? : Slot → Option String
  | .empty _ => none
  | .filled _ entry _ _ => some entry

/-- The list as it is written. -/
def written (slots : List Slot) : String := join "," (slots.map text)

/-- The entries of a list. -/
def entries (slots : List Slot) : List String := slots.filterMap entry?

end Slot

/-- What stands behind a separator that a text begins with. -/
def afterSeparator? (s : List Char) : Option (List Char) :=
  match trimLeft s with
  | [] => none
  | c :: rest => if c = ',' then some (trimLeft rest) else none

theorem afterSeparator?_eq_some_iff {s later : List Char} :
    afterSeparator? s = some later ↔
      ∃ gap rest, s = gap ++ ',' :: rest ∧ (∀ c ∈ gap, isBlank c) ∧ trimLeft rest = later := by
  constructor
  · intro found
    simp only [afterSeparator?] at found
    split at found
    · cases found
    · rename_i c rest shape
      split at found
      · rename_i comma
        refine ⟨s.takeWhile isBlank, rest, ?_, List.all_eq_true.mp List.all_takeWhile,
          Option.some.inj found⟩
        rw [← comma, ← shape, trimLeft, List.takeWhile_append_dropWhile]
      · cases found
  · rintro ⟨gap, rest, rfl, blank, rfl⟩
    have shape : trimLeft (gap ++ ',' :: rest) = ',' :: rest := by
      rw [trimLeft, List.dropWhile_append_of_pos blank, List.dropWhile_cons_of_neg (by decide)]
    simp [afterSeparator?, shape]

theorem length_lt_of_afterSeparator? {s later : List Char}
    (found : afterSeparator? s = some later) : later.length < s.length := by
  obtain ⟨gap, rest, rfl, -, rfl⟩ := afterSeparator?_eq_some_iff.mp found
  have shorter := (trimLeft_sublist rest).length_le
  simp only [List.length_append, List.length_cons]
  omega

/-- The parts between the separators, each separator taken as far to the left as one begins. -/
def cutAtSeparators : List Char → List (List Char)
  | [] => [[]]
  | c :: rest =>
    match _found : afterSeparator? (c :: rest) with
    | some later => [] :: cutAtSeparators later
    | none => (cutAtSeparators rest).modifyHead (c :: ·)
termination_by s => s.length
decreasing_by
  · exact length_lt_of_afterSeparator? _found
  · exact Nat.lt_succ_self rest.length

variable {s t gap : List Char}

/-! ### Fields of a text -/

/-- What stands between the commas, trimmed. -/
def trimmedFields (s : List Char) : List (List Char) := (splitOn ',' s).map trimChars

theorem commaList_eq (s : String) :
    commaList s = ((trimmedFields s.toList).filter (· ≠ [])).map .ofList := by
  have trimmed : trim ∘ String.ofList = String.ofList ∘ trimChars := by
    funext field
    simp [trim]
  have filled : (· != "") ∘ String.ofList = fun field => decide (field ≠ []) := by
    funext field
    simp [bne, BEq.beq, String.ofList_eq_empty_iff]
  rw [commaList, fields, List.map_map, trimmed, ← List.map_map, List.filter_map, filled]
  rfl

theorem trimmedFields_append (s t : List Char) :
    trimmedFields (s ++ ',' :: t) = trimmedFields s ++ trimmedFields t := by
  rw [trimmedFields, splitOn_append, List.map_append]
  rfl

theorem trimmedFields_joinWith {fields : List (List Char)} (some : fields ≠ []) :
    trimmedFields (joinWith ',' fields) = fields.flatMap trimmedFields := by
  rw [trimmedFields, splitOn_joinWith ',' some, List.map_flatMap]
  rfl

theorem trimmedFields_of_free (free : ',' ∉ s) : trimmedFields s = [trimChars s] := by
  rw [trimmedFields, splitOn_free free]
  rfl

theorem comma_not_mem_of_blank (blank : ∀ c ∈ gap, isBlank c) : ',' ∉ gap :=
  fun member => absurd (blank ',' member) (by decide)

theorem trimmedFields_blank_append (blank : ∀ c ∈ gap, isBlank c) (s : List Char) :
    trimmedFields (gap ++ s) = trimmedFields s := by
  have alone : ∀ {field : List Char}, ',' ∉ field →
      trimmedFields (gap ++ field) = trimmedFields field := by
    intro field free
    have free' : ',' ∉ gap ++ field := by simp [comma_not_mem_of_blank blank, free]
    rw [trimmedFields_of_free free', trimmedFields_of_free free, trimChars_blank_append blank]
  by_cases comma : ',' ∈ s
  · obtain ⟨first, rest, rfl, free⟩ := List.eq_append_cons_of_mem comma
    rw [← List.append_assoc, trimmedFields_append, trimmedFields_append, alone free]
  · exact alone comma

theorem trimmedFields_append_blank (blank : ∀ c ∈ gap, isBlank c) (s : List Char) :
    trimmedFields (s ++ gap) = trimmedFields s := by
  by_cases comma : ',' ∈ s
  · obtain ⟨first, rest, rfl, -⟩ := List.eq_append_cons_of_mem comma
    rw [List.append_assoc, List.cons_append, trimmedFields_append, trimmedFields_append,
      trimmedFields_append_blank blank rest]
  · have free : ',' ∉ s ++ gap := by simp [comma_not_mem_of_blank blank, comma]
    rw [trimmedFields_of_free free, trimmedFields_of_free comma, trimChars_append_blank blank]
termination_by s.length

/-- Blanks around a list change none of its fields. -/
theorem trimmedFields_trimChars (s : List Char) :
    trimmedFields (trimChars s) = trimmedFields s := by
  obtain ⟨before, after, whole, blank, blank'⟩ := exists_padding s
  conv_rhs => rw [whole]
  rw [trimmedFields_blank_append blank, trimmedFields_append_blank blank']

theorem trimmedFields_trimLeft (s : List Char) : trimmedFields (trimLeft s) = trimmedFields s := by
  have blank : ∀ c ∈ s.takeWhile isBlank, isBlank c := List.all_eq_true.mp List.all_takeWhile
  have same := trimmedFields_blank_append blank (trimLeft s)
  rw [trimLeft, List.takeWhile_append_dropWhile] at same
  exact same.symm

/-! ### Written lists -/

theorem toList_join (parts : List String) :
    (join "," parts).toList = joinWith ',' (parts.map String.toList) := by
  induction parts with
  | nil => rfl
  | cons part rest ih =>
    cases rest with
    | nil => rfl
    | cons next more =>
      rw [toList_join_cons, ih]
      rfl

/-- The entries of joined lists are the entries of each. -/
theorem commaList_join (parts : List String) :
    commaList (join "," parts) = parts.flatMap commaList := by
  cases parts with
  | nil => decide
  | cons part rest =>
    rw [commaList_eq, toList_join, trimmedFields_joinWith (by simp), List.flatMap_map,
      List.filter_flatMap, List.map_flatMap]
    exact List.flatMap_congr fun part _ => (commaList_eq part).symm

/-- An entry with blanks around it is a list of one. -/
theorem commaList_padded {entry : String} (whole : IsEntry entry) (before after : Gap) :
    commaList (before.text ++ entry ++ after.text) = [entry] := by
  have solid := trimChars_of_ends whole.starts whole.ends
  rw [commaList_eq, String.toList_append, String.toList_append,
    trimmedFields_append_blank after.isBlank_of_mem,
    trimmedFields_blank_append before.isBlank_of_mem, trimmedFields_of_free whole.free, solid]
  simp [whole.filled]

theorem commaList_blank (gap : Gap) : commaList gap.text = [] := by
  rw [commaList_eq, trimmedFields_of_free (comma_not_mem_of_blank gap.isBlank_of_mem),
    trimChars_blank gap.isBlank_of_mem]
  rfl

theorem commaList_slot (slot : Slot) : commaList slot.text = slot.entry?.toList := by
  cases slot with
  | empty gap => exact commaList_blank gap
  | filled before entry whole after => exact commaList_padded whole before after

/-- The entries of a written list are read. -/
theorem commaList_written (slots : List Slot) :
    commaList (Slot.written slots) = Slot.entries slots := by
  rw [Slot.written, commaList_join, List.flatMap_map, Slot.entries,
    List.filterMap_eq_flatMap_toList]
  exact List.flatMap_congr fun slot _ => commaList_slot slot

theorem isEntry_of_mem_entries (slots : List Slot) :
    ∀ entry ∈ Slot.entries slots, IsEntry entry := by
  intro entry member
  obtain ⟨slot, -, found⟩ := List.mem_filterMap.mp member
  cases slot with
  | empty gap => cases found
  | filled before entry whole after =>
    cases found
    exact whole

/-- What trimming leaves of a field is an entry. -/
theorem isEntry_trimChars {field : List Char} (free : ',' ∉ field) (filled : trimChars field ≠ []) :
    IsEntry (.ofList (trimChars field)) := by
  obtain ⟨before, after, whole, -⟩ := exists_padding field
  constructor
  case filled => simpa using filled
  case free =>
    intro comma
    rw [whole] at free
    simp [String.toList_ofList ▸ comma] at free
  case starts => simpa using trimChars_starts field
  case ends => simpa using trimChars_ends field

/-- What is read is an entry. -/
theorem isEntry_of_mem_commaList {s entry : String} (member : entry ∈ commaList s) :
    IsEntry entry := by
  rw [commaList_eq] at member
  obtain ⟨trimmed, kept, rfl⟩ := List.mem_map.mp member
  obtain ⟨inside, filled⟩ := List.mem_filter.mp kept
  obtain ⟨field, there, rfl⟩ := List.mem_map.mp inside
  exact isEntry_trimChars (not_mem_of_mem_splitOn s.toList field there) (by simpa using filled)

/-- An entry is a list of its own. -/
theorem isEntry_iff {s : String} : IsEntry s ↔ commaList s = [s] := by
  constructor
  · intro whole
    simpa using commaList_padded whole ⟨"", rfl⟩ ⟨"", rfl⟩
  · intro alone
    exact isEntry_of_mem_commaList (alone ▸ List.mem_singleton_self s)

instance (s : String) : Decidable (IsEntry s) := decidable_of_iff _ isEntry_iff.symm

/-- Entries that are read one by one stay as they are. -/
theorem flatMap_commaList {entries : List String} (whole : ∀ entry ∈ entries, IsEntry entry) :
    entries.flatMap commaList = entries := by
  rw [List.flatMap_congr fun entry member => isEntry_iff.mp (whole entry member),
    List.flatMap_singleton']

theorem exists_slot {field : List Char} (free : ',' ∉ field) :
    ∃ slot : Slot, slot.text.toList = field := by
  obtain ⟨before, after, whole, blank, blank'⟩ := exists_padding field
  by_cases nothing : trimChars field = []
  · rw [nothing, List.nil_append] at whole
    refine ⟨.empty ⟨.ofList field, ?_⟩, String.toList_ofList⟩
    rw [String.toList_ofList, whole, List.all_eq_true]
    exact List.forall_mem_append.mpr ⟨blank, blank'⟩
  · refine ⟨.filled ⟨.ofList before, by simpa using blank⟩ (.ofList (trimChars field))
      (isEntry_trimChars free nothing) ⟨.ofList after, by simpa using blank'⟩, ?_⟩
    conv_rhs => rw [whole]
    simp [Slot.text]

theorem exists_slots {fields : List (List Char)} (free : ∀ field ∈ fields, ',' ∉ field) :
    ∃ slots : List Slot, slots.map (String.toList ∘ Slot.text) = fields := by
  induction fields with
  | nil => exact ⟨[], rfl⟩
  | cons field rest ih =>
    obtain ⟨here, later⟩ := List.forall_mem_cons.mp free
    obtain ⟨slot, text⟩ := exists_slot here
    obtain ⟨slots, texts⟩ := ih later
    exact ⟨slot :: slots, by rw [List.map_cons, Function.comp_apply, text, texts]⟩

/-- Every text is a written list. -/
theorem exists_written (s : String) : ∃ slots, Slot.written slots = s := by
  have free : ∀ field ∈ splitOn ',' s.toList, ',' ∉ field := not_mem_of_mem_splitOn s.toList
  obtain ⟨slots, texts⟩ := exists_slots free
  refine ⟨slots, String.toList_inj.mp ?_⟩
  rw [Slot.written, toList_join, List.map_map, texts, joinWith_splitOn]

/-! ### Separators -/

/-- The first field of a text that begins with no blank is trimmed at its end only. -/
theorem trimmedFields_of_starts {field : List Char} {fields : List (List Char)}
    (starts : ∀ c ∈ s.head?, isBlank c = false) (shape : splitOn ',' s = field :: fields) :
    trimmedFields s = trimRight field :: fields.map trimChars := by
  have fieldStarts : ∀ c ∈ field.head?, isBlank c = false := by
    intro c first
    apply starts
    rw [← joinWith_splitOn ',' s, shape]
    cases fields with
    | nil => exact first
    | cons next more => simp [joinWith, Option.mem_def.mp first]
  rw [trimmedFields, shape, List.map_cons, trimChars, trimLeft_of_starts fieldStarts]

theorem ends_of_suffix (ends : ∀ c ∈ s.getLast?, isBlank c = false) (suffix : t <:+ s) :
    ∀ c ∈ t.getLast?, isBlank c = false := by
  obtain ⟨front, rfl⟩ := suffix
  intro c last
  exact ends c (by simp [Option.mem_def.mp last])

/-- Where no separator begins and the text ends in no blank, its first field is not blank. -/
theorem first_field_solid {field : List Char} {fields : List (List Char)}
    (filled : s ≠ []) (none : afterSeparator? s = none)
    (ends : ∀ c ∈ s.getLast?, isBlank c = false) (shape : splitOn ',' s = field :: fields) :
    ¬ ∀ c ∈ field, isBlank c := by
  intro blank
  have whole := joinWith_splitOn ',' s
  rw [shape] at whole
  cases fields with
  | nil =>
    obtain rfl : field = s := whole
    have last := ends _ (List.getLast?_eq_some_getLast filled)
    rw [blank _ (List.getLast_mem filled)] at last
    cases last
  | cons next more =>
    have found := afterSeparator?_eq_some_iff.mpr ⟨field, joinWith ',' (next :: more), whole.symm,
      blank, rfl⟩
    rw [none] at found
    cases found

/-- A text that ends in no blank, cut at its separators. Only the first field keeps its blanks in
front, because no comma stands there. -/
theorem cutAtSeparators_eq {s field : List Char} {fields : List (List Char)}
    (ends : ∀ c ∈ s.getLast?, isBlank c = false) (shape : splitOn ',' s = field :: fields) :
    cutAtSeparators s = trimRight field :: fields.map trimChars := by
  fun_induction cutAtSeparators s generalizing field fields with
  | case1 =>
    cases shape
    rfl
  | case2 c rest later found ih =>
    obtain ⟨gap, behind, whole, blank, rfl⟩ := afterSeparator?_eq_some_iff.mp found
    have suffix : trimLeft behind <:+ c :: rest := by
      rw [whole]
      exact (List.dropWhile_suffix isBlank).trans ((List.suffix_cons ',' behind).trans
        (List.suffix_append gap _))
    rw [whole, splitOn_append, splitOn_free (comma_not_mem_of_blank blank)] at shape
    obtain ⟨rfl, rfl⟩ := List.cons.inj shape
    obtain ⟨next, more, shape'⟩ := List.exists_cons_of_ne_nil (splitOn_ne_nil ',' (trimLeft behind))
    have nothing : trimRight gap = [] := trimRight_eq_nil_iff.mpr blank
    rw [ih (ends_of_suffix ends suffix) shape', nothing,
      ← trimmedFields_of_starts (trimLeft_starts behind) shape', trimmedFields_trimLeft]
    rfl
  | case3 c rest none ih =>
    obtain ⟨next, more, shape'⟩ := List.exists_cons_of_ne_nil (splitOn_ne_nil ',' rest)
    have solid := first_field_solid (List.cons_ne_nil c rest) none ends shape
    have apart : c ≠ ',' := by
      rintro rfl
      rw [splitOn, if_pos rfl] at shape
      obtain ⟨rfl, -⟩ := List.cons.inj shape
      exact solid (List.forall_mem_nil _)
    rw [splitOn, if_neg apart, shape'] at shape
    obtain ⟨rfl, rfl⟩ := List.cons.inj shape
    have kept : isBlank c = false ∨ trimRight next ≠ [] := by
      by_contra! lost
      exact solid (List.forall_mem_cons.mpr
        ⟨by simpa using lost.1, trimRight_eq_nil_iff.mp lost.2⟩)
    rw [ih (ends_of_suffix ends (List.suffix_cons c rest)) shape', List.modifyHead_cons,
      trimRight_cons kept]

/-- Reading a list takes the parts between the separators of the trimmed text, without the empty
ones. -/
theorem commaList_eq_cutAtSeparators (s : String) :
    commaList s = ((cutAtSeparators (trim s).toList).filter (· ≠ [])).map .ofList := by
  obtain ⟨field, fields, shape⟩ :=
    List.exists_cons_of_ne_nil (splitOn_ne_nil ',' (trimChars s.toList))
  rw [trim, String.toList_ofList, cutAtSeparators_eq (trimChars_ends s.toList) shape,
    ← trimmedFields_of_starts (trimChars_starts s.toList) shape, trimmedFields_trimChars,
    ← commaList_eq]

end Sqlwright.Text
