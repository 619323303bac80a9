import Sqlwright.Proofs.AlterRun
import Sqlwright.Proofs.NativeTypes
import Sqlwright.Schema

/-!
The labels of an enum on Postgres, read back from the array that the server prints. The server puts
a label in double quotes where it must, with a backslash in front of each double quote and of each
backslash inside. Reading cuts at every comma, takes the quotes off the ends and leaves backslashes
where they are, so just the labels come back that need none of this.
-/

namespace Sqlwright

/-! ### Arrays as the server prints them -/

/-- Characters that are marks in an array. -/
def arrayMarks : List Char := [',', '\x7b', '\x7d', '\x22', '\\']

section Printing

-- what the server takes for white space
variable (blank : Char → Bool)

/-- Whether the server quotes a label. -/
def quotesLabel (label : List Char) : Bool :=
  label.isEmpty || label == "NULL".toList || label.any fun c => arrayMarks.contains c || blank c

/-- Double quotes and backslashes behind a backslash each. -/
def escapeLabel (label : List Char) : List Char :=
  label.flatMap fun c => if c = '\x22' ∨ c = '\\' then ['\\', c] else [c]

def printLabel (label : List Char) : List Char :=
  if quotesLabel blank label then '\x22' :: (escapeLabel label ++ ['\x22']) else label

/-- The text of an array of labels. -/
def printLabels (labels : List String) : String :=
  let printed := labels.map fun label => printLabel blank label.toList
  .ofList ('\x7b' :: (Text.joinWith ',' printed ++ ['\x7d']))

/-- A label that comes back: it is not empty, has no comma and nothing that is escaped, and has
blanks at its ends only if the server quotes it for them. -/
structure ComesBack (label : String) : Prop where
  filled : label ≠ ""
  unmarked : ∀ c ∈ label.toList, c ≠ ',' ∧ c ≠ '\x22' ∧ c ≠ '\\'
  ends : quotesLabel blank label.toList ∨ Text.trimChars label.toList = label.toList

end Printing

/-! ### Reading one label -/

namespace Text

variable {q : Char} {s : List Char}

theorem dropWhile_head_ne (apart : s.head? ≠ some q) : s.dropWhile (· == q) = s := by
  cases s with
  | nil => rfl
  | cons c rest =>
    have other : (c == q) = false := by simpa using apart
    exact List.dropWhile_cons_of_neg (by simp [other])

/-- Between two characters that are taken off, a text is left alone if it does not go on with
them. -/
theorem stripEnds_between {front back : Char} (first : s.head? ≠ some front)
    (last : s.getLast? ≠ some back) (apart : s = [] → back ≠ front) :
    stripEnds front back (front :: (s ++ [back])) = s := by
  have opened : (s ++ [back]).head? ≠ some front := by
    cases s with
    | nil => simpa using apart rfl
    | cons c rest => simpa using first
  have closed : s.reverse.head? ≠ some back := by rwa [List.head?_reverse]
  rw [stripEnds, List.dropWhile_cons_of_pos (by simp), dropWhile_head_ne opened,
    List.reverse_append, List.reverse_singleton, List.singleton_append,
    List.dropWhile_cons_of_pos (by simp), dropWhile_head_ne closed, List.reverse_reverse]

theorem stripEnds_free (free : q ∉ s) : stripEnds q q s = s := by
  have opened : s.head? ≠ some q := fun opens => free (List.mem_of_head? opens)
  have closed : s.reverse.head? ≠ some q := fun closes =>
    free (List.mem_reverse.mp (List.mem_of_head? closes))
  rw [stripEnds, dropWhile_head_ne opened, dropWhile_head_ne closed, List.reverse_reverse]

theorem count_dropWhile {c : Char} (apart : c ≠ q) (s : List Char) :
    (s.dropWhile (· == q)).count c = s.count c := by
  have taken : (s.takeWhile (· == q)).count c = 0 := by
    refine List.count_eq_zero.mpr fun inside => apart ?_
    simpa using List.mem_takeWhile_imp inside
  have whole := congrArg (List.count c) (List.takeWhile_append_dropWhile (p := (· == q)) (l := s))
  rw [← whole, List.count_append, taken, Nat.zero_add]

/-- Only what is at the ends is taken off. -/
theorem count_stripEnds {c front back : Char} (first : c ≠ front) (last : c ≠ back)
    (s : List Char) : (stripEnds front back s).count c = s.count c := by
  rw [stripEnds, List.count_reverse, count_dropWhile last, List.count_reverse,
    count_dropWhile first]

end Text

/-! ### Arrays -/

section Reading

variable {blank : Char → Bool} {label : List Char}

theorem unmarked_of_unquoted (bare : quotesLabel blank label = false) :
    label ≠ [] ∧ ∀ c ∈ label, c ∉ arrayMarks := by
  simp only [quotesLabel, Bool.or_eq_false_iff, List.any_eq_false] at bare
  obtain ⟨⟨filled, -⟩, each⟩ := bare
  refine ⟨by simpa using filled, fun c member mark => each c member ?_⟩
  simp [mark]

theorem printLabel_ends (blank : Char → Bool) (label : List Char) :
    printLabel blank label ≠ [] ∧ (printLabel blank label).head? ≠ some '\x7b' ∧
      (printLabel blank label).getLast? ≠ some '\x7d' := by
  unfold printLabel
  split
  · refine ⟨List.cons_ne_nil _ _, by simp, ?_⟩
    rw [← List.cons_append, List.getLast?_concat]
    decide
  · next bare =>
    obtain ⟨filled, unmarked⟩ := unmarked_of_unquoted (Bool.eq_false_iff.mpr bare)
    refine ⟨filled, fun opens => ?_, fun closes => ?_⟩
    · exact unmarked _ (List.mem_of_head? opens) (by decide)
    · exact unmarked _ (List.mem_of_getLast? closes) (by decide)

/-- The text between the braces starts and ends with no brace. -/
theorem joinWith_ends (blank : Char → Bool) (labels : List (List Char)) :
    (Text.joinWith ',' (labels.map (printLabel blank))).head? ≠ some '\x7b' ∧
      (Text.joinWith ',' (labels.map (printLabel blank))).getLast? ≠ some '\x7d' := by
  induction labels with
  | nil => simp [Text.joinWith]
  | cons label rest ih =>
    obtain ⟨filled, opens, closes⟩ := printLabel_ends blank label
    cases rest with
    | nil => exact ⟨opens, closes⟩
    | cons next more =>
      have joined : Text.joinWith ',' ((label :: next :: more).map (printLabel blank)) =
          printLabel blank label ++
            ',' :: Text.joinWith ',' ((next :: more).map (printLabel blank)) := rfl
      rw [joined]
      constructor
      · rwa [List.head?_append_of_ne_nil _ filled]
      · rw [List.getLast?_append_of_ne_nil _ (List.cons_ne_nil _ _), List.getLast?_cons]
        cases last : (Text.joinWith ',' ((next :: more).map (printLabel blank))).getLast? with
        | none => decide
        | some c =>
          rw [last] at ih
          exact ih.2

/-- How a field of an array is read. -/
def readField (field : List Char) : String :=
  .ofList (Text.stripEnds '\x22' '\x22' (Text.trimChars field))

/-- What is read of a label, which is nothing if it is empty and more than one text if it has
commas. -/
def readLabel (blank : Char → Bool) (label : String) : List String :=
  ((Text.splitOn ',' (printLabel blank label.toList)).map readField).filter (· ≠ "")

/-- Labels are read one by one. -/
theorem readEnumLabels_printLabels (blank : Char → Bool) (labels : List String) :
    readEnumLabels (printLabels blank labels) = labels.flatMap (readLabel blank) := by
  have ends := joinWith_ends blank (labels.map String.toList)
  rw [List.map_map] at ends
  have inner : Text.stripEnds '\x7b' '\x7d' (Text.trimChars (printLabels blank labels).toList) =
      Text.joinWith ',' (labels.map (printLabel blank ∘ String.toList)) := by
    rw [printLabels, String.toList_ofList, Text.trimChars_between (by decide) (by decide)]
    exact Text.stripEnds_between ends.1 ends.2 fun _ => by decide
  have read : readEnumLabels (printLabels blank labels) =
      ((Text.splitOn ',' (Text.joinWith ',' (labels.map (printLabel blank ∘ String.toList)))).map
        readField).filter (· ≠ "") := by
    rw [readEnumLabels, inner]
    rfl
  rw [read]
  cases labels with
  | nil => rfl
  | cons label rest =>
    have some : (label :: rest).map (printLabel blank ∘ String.toList) ≠ [] := by simp
    rw [Text.splitOn_joinWith ',' some, List.flatMap_map, List.map_flatMap, List.filter_flatMap]
    rfl

theorem toList_readField (field : List Char) :
    (readField field).toList = Text.stripEnds '\x22' '\x22' (Text.trimChars field) :=
  String.toList_ofList

/-- Reading a field takes double quotes and blanks away and nothing else. -/
theorem count_readField {c : Char} (solid : Text.isBlank c = false) (unquoted : c ≠ '\x22')
    (field : List Char) : (readField field).toList.count c = field.count c := by
  rw [toList_readField, Text.count_stripEnds unquoted unquoted, Text.count_trimChars solid]

/-- Every double quote and every backslash gets a backslash. -/
theorem count_escapeLabel (c : Char) (label : List Char) :
    (escapeLabel label).count c = label.count c +
      if c = '\\' then label.count '\x22' + label.count '\\' else 0 := by
  induction label with
  | nil => simp [escapeLabel]
  | cons d rest ih =>
    have first : escapeLabel (d :: rest) =
        (if d = '\x22' ∨ d = '\\' then ['\\', d] else [d]) ++ escapeLabel rest := rfl
    rw [first, List.count_append, ih, List.count_cons, List.count_cons, List.count_cons]
    by_cases marked : d = '\x22' ∨ d = '\\'
    · rw [if_pos marked, List.count_cons, List.count_singleton]
      grind
    · rw [if_neg marked, List.count_singleton]
      grind

theorem escapeLabel_plain {label : List Char} (plain : ∀ c ∈ label, c ≠ '\x22' ∧ c ≠ '\\') :
    escapeLabel label = label := by
  have each : ∀ c ∈ label, (if c = '\x22' ∨ c = '\\' then ['\\', c] else [c]) = [c] := by
    intro c member
    simp [plain c member]
  rw [escapeLabel, List.flatMap_congr each, List.flatMap_singleton']

/-- No comma is left in what is read. -/
theorem unmarked_of_mem_readLabel {label text : String} (member : text ∈ readLabel blank label) :
    ',' ∉ text.toList := by
  obtain ⟨field, inside, rfl⟩ := List.mem_map.mp (List.mem_filter.mp member).1
  rw [← List.count_eq_zero, count_readField (by decide) (by decide), List.count_eq_zero]
  exact Text.not_mem_of_mem_splitOn _ field inside

/-- Of a label without commas at most one text is read. -/
theorem readLabel_eq {label : String} (unmarked : ',' ∉ label.toList) :
    readLabel blank label =
      [readField (printLabel blank label.toList)].filter (· ≠ "") := by
  have free : ',' ∉ printLabel blank label.toList := by
    unfold printLabel
    split
    · rw [← List.count_eq_zero] at unmarked ⊢
      simpa [List.count_append, count_escapeLabel] using unmarked
    · exact unmarked
  rw [readLabel, Text.splitOn_free free, List.map_singleton]

/-- A label without commas is read as it is exactly if nothing in it is escaped and the server does
not leave blanks at its ends. -/
theorem readField_printLabel_iff {label : String} (filled : label ≠ "")
    (unmarked : ',' ∉ label.toList) :
    readField (printLabel blank label.toList) = label ↔ ComesBack blank label := by
  rw [← String.toList_inj]
  cases quoted : quotesLabel blank label.toList with
  | false =>
    have printed : printLabel blank label.toList = label.toList := if_neg (by simp [quoted])
    obtain ⟨-, bare⟩ := unmarked_of_unquoted quoted
    have free : '\x22' ∉ Text.trimChars label.toList := by
      rw [← List.count_eq_zero, Text.count_trimChars (by decide), List.count_eq_zero]
      exact fun member => bare _ member (by decide)
    rw [printed, toList_readField, Text.stripEnds_free free]
    constructor
    · intro ends
      refine ⟨filled, fun c member => ⟨?_, ?_, ?_⟩, .inr ends⟩
      all_goals
        rintro rfl
        exact bare _ member (by decide)
    · intro back
      exact back.ends.resolve_left (by simp [quoted])
  | true =>
    have printed : printLabel blank label.toList =
        '\x22' :: (escapeLabel label.toList ++ ['\x22']) := if_pos quoted
    constructor
    · intro same
      have slashes := congrArg (List.count '\\') same
      rw [count_readField (by decide) (by decide), printed, List.count_cons, List.count_append,
        count_escapeLabel, if_pos rfl] at slashes
      have none : label.toList.count '\x22' = 0 ∧ label.toList.count '\\' = 0 := by omega
      rw [List.count_eq_zero, List.count_eq_zero] at none
      refine ⟨filled, fun c member => ⟨?_, ?_, ?_⟩, .inl quoted⟩
      · rintro rfl
        exact unmarked member
      · rintro rfl
        exact none.1 member
      · rintro rfl
        exact none.2 member
    · intro back
      have plain : escapeLabel label.toList = label.toList :=
        escapeLabel_plain fun c member => (back.unmarked c member).2
      have free : '\x22' ∉ label.toList := fun member => (back.unmarked _ member).2.1 rfl
      rw [toList_readField, printed, plain, Text.trimChars_between (by decide) (by decide)]
      refine Text.stripEnds_between (fun opens => free (List.mem_of_head? opens))
        (fun closes => free (List.mem_of_getLast? closes)) fun none => ?_
      exact absurd (String.toList_eq_nil_iff.mp none) filled

/-- What yields at most one entry for each, and all of them in the end, yields each for itself. -/
theorem flatMap_eq_self {α : Type} {f : α → List α} {entries : List α}
    (few : ∀ a ∈ entries, (f a).length ≤ 1) (same : entries.flatMap f = entries) :
    ∀ a ∈ entries, f a = [a] := by
  have first : ∀ a ∈ entries, f a = (f a).head?.toList := by
    intro a member
    have few := few a member
    cases shape : f a with
    | nil => rfl
    | cons b more =>
      rw [shape, List.length_cons] at few
      obtain rfl : more = [] := List.length_eq_zero_iff.mp (by omega)
      rfl
  have kept : entries.filterMap (fun a => (f a).head?) = entries := by
    rw [List.filterMap_eq_flatMap_toList, ← List.flatMap_congr first, same]
  have all := List.filterMap_length_eq_length.mp (congrArg List.length kept)
  clear same few
  induction entries with
  | nil => exact List.forall_mem_nil _
  | cons a rest ih =>
    obtain ⟨here, later⟩ := List.forall_mem_cons.mp first
    obtain ⟨some, others⟩ := List.forall_mem_cons.mp all
    obtain ⟨b, head⟩ := Option.isSome_iff_exists.mp some
    rw [List.filterMap_cons_some (f := fun a => (f a).head?) head] at kept
    obtain ⟨rfl, rest⟩ := List.cons.inj kept
    refine List.forall_mem_cons.mpr ⟨?_, ih later rest others⟩
    rw [here, head, Option.toList_some]

/-- Labels come back exactly if each of them does. -/
theorem readEnumLabels_eq_iff (blank : Char → Bool) (labels : List String) :
    readEnumLabels (printLabels blank labels) = labels ↔
      ∀ label ∈ labels, ComesBack blank label := by
  rw [readEnumLabels_printLabels]
  constructor
  · intro same
    have unmarked : ∀ label ∈ labels, ',' ∉ label.toList := by
      intro label member
      rw [← same] at member
      obtain ⟨source, -, read⟩ := List.mem_flatMap.mp member
      exact unmarked_of_mem_readLabel read
    have few : ∀ label ∈ labels, (readLabel blank label).length ≤ 1 := by
      intro label member
      rw [readLabel_eq (unmarked label member)]
      exact List.length_filter_le _ _
    intro label member
    have alone := flatMap_eq_self few same label member
    have kept : label ∈ readLabel blank label := alone ▸ List.mem_singleton_self label
    rw [readLabel_eq (unmarked label member), List.mem_filter, List.mem_singleton,
      decide_eq_true_eq] at kept
    exact (readField_printLabel_iff kept.2 (unmarked label member)).mp kept.1.symm
  · intro back
    have each : ∀ label ∈ labels, readLabel blank label = [label] := by
      intro label member
      have back := back label member
      have unmarked : ',' ∉ label.toList := fun comma => (back.unmarked _ comma).1 rfl
      rw [readLabel_eq unmarked, (readField_printLabel_iff back.filled unmarked).mpr back]
      exact List.filter_cons_of_pos (by simpa using back.filled)
    rw [List.flatMap_congr each, List.flatMap_singleton']

end Reading

/-! ### Listed columns -/

/-- The enum type of a listed column, if its type is one that enum columns are declared with. -/
def Column.enumType? (c : Column) : Option String :=
  let type := (c.nativeType.getD "").toLower
  if "enum__".toList.isPrefixOf type.toList then some type else none

/-- A listed column with the labels of its enum type, if it has one. -/
def Column.withOptions (labelsOf : String → List String) (c : Column) : Column :=
  match c.enumType? with
  | some type => { c with type := .enum, options := labelsOf type, length := none }
  | none => c

namespace Schema

variable {s : Schema} {schema : String} {blank : Char → Bool} {labelsOf : String → List String}

/-- The server answers the question for the labels of a type by printing them. -/
def TellsLabels (s : Schema) (schema : String) (blank : Char → Bool)
    (labelsOf : String → List String) (type : String) : Prop :=
  ∀ past, ∃ rows,
    s.connection.query past ((labelQuery schema type).sql s.grammar.dialect) [] = .ok rows ∧
      Row.firstCell? rows = some (.text (printLabels blank (labelsOf type)))

/-- A column gets what is read of the labels that the server tells. -/
theorem withLabels_run (dialect : s.grammar.dialect = .postgres) {c : Column}
    (tells : ∀ type, c.enumType? = some type → s.TellsLabels schema blank labelsOf type)
    (past : List Request) :
    ∃ asked, (ExceptT.run (s.withLabels schema c)).run past =
      (.ok (c.withOptions fun type => readEnumLabels (printLabels blank (labelsOf type))),
        past ++ asked) := by
  unfold withLabels Column.withOptions
  unfold Column.enumType? at tells ⊢
  dsimp only at tells ⊢
  generalize (c.nativeType.getD "").toLower = type at tells ⊢
  by_cases named : "enum__".toList.isPrefixOf type.toList
  · rw [if_pos ⟨dialect, named⟩, if_pos named]
    rw [if_pos named] at tells
    obtain ⟨rows, answer, cell⟩ := tells type rfl past
    have asked : (ExceptT.run (s.query (labelQuery schema type))).run past =
        (.ok rows, past ++ [⟨.query, (labelQuery schema type).sql s.grammar.dialect, []⟩]) := by
      rw [← answer]
      exact Connection.run_send ..
    refine ⟨[⟨.query, (labelQuery schema type).sql s.grammar.dialect, []⟩], ?_⟩
    have text : ((Row.firstCell? rows).bind Value.toText).getD "" =
        printLabels blank (labelsOf type) := by
      rw [cell]
      rfl
    rw [Session.run_bind_ok asked, text]
    rfl
  · rw [if_neg (fun both => named both.2), if_neg named]
    exact ⟨[], by simp; rfl⟩

/-- All listed columns get what is read of their labels. -/
theorem mapM_withLabels_run (dialect : s.grammar.dialect = .postgres) {listed : List Column}
    (tells : ∀ c ∈ listed, ∀ type, c.enumType? = some type →
      s.TellsLabels schema blank labelsOf type) (past : List Request) :
    ∃ asked, (ExceptT.run (listed.mapM (s.withLabels schema))).run past =
      (.ok (listed.map (Column.withOptions fun type =>
        readEnumLabels (printLabels blank (labelsOf type)))), past ++ asked) := by
  induction listed generalizing past with
  | nil => exact ⟨[], by simp; rfl⟩
  | cons c rest ih =>
    obtain ⟨here, later⟩ := List.forall_mem_cons.mp tells
    obtain ⟨asked, run⟩ := withLabels_run dialect here past
    obtain ⟨more, runs⟩ := ih later (past ++ asked)
    refine ⟨asked ++ more, ?_⟩
    rw [List.mapM_cons, Session.run_bind_ok run, Session.run_bind_ok runs, ← List.append_assoc]
    rfl

end Schema

/-- Columns get the same options exactly if their types have the same labels. -/
theorem Column.map_withOptions_iff {listed : List Column} {labelsOf others : String → List String} :
    listed.map (withOptions labelsOf) = listed.map (withOptions others) ↔
      ∀ c ∈ listed, ∀ type, c.enumType? = some type → labelsOf type = others type := by
  rw [List.map_inj_left]
  refine forall₂_congr fun c _ => ?_
  unfold withOptions
  cases c.enumType? with
  | none => simp
  | some type => simp

/-- What the server prints of labels is read back exactly if each of them comes back, and then every
listed column of an enum type gets the labels of its type; otherwise some column does not. -/
theorem enum_labels_read_iff (blank : Char → Bool) :
    (∀ labels, readEnumLabels (printLabels blank labels) = labels ↔
      ∀ label ∈ labels, ComesBack blank label) ∧
    ∀ (s : Schema) (schema : String) (listed : List Column) (labelsOf : String → List String),
      s.grammar.dialect = .postgres →
      (∀ c ∈ listed, ∀ type, c.enumType? = some type →
        s.TellsLabels schema blank labelsOf type) →
      ∀ past, ∃ finished asked,
        (ExceptT.run (listed.mapM (s.withLabels schema))).run past =
          (.ok finished, past ++ asked) ∧
        (finished = listed.map (Column.withOptions labelsOf) ↔
          ∀ c ∈ listed, ∀ type, c.enumType? = some type →
            ∀ label ∈ labelsOf type, ComesBack blank label) := by
  refine ⟨readEnumLabels_eq_iff blank, fun s schema listed labelsOf dialect tells past => ?_⟩
  obtain ⟨asked, run⟩ := Schema.mapM_withLabels_run dialect tells past
  refine ⟨_, asked, run, ?_⟩
  rw [Column.map_withOptions_iff]
  exact forall₄_congr fun _ _ _ _ => readEnumLabels_eq_iff blank _

/-- A server with two enum types, of which one has labels that are quoted. -/
def twoTypes (type : String) : List String :=
  if type = "enum__open_eopt_on hold" then ["open", "on hold"] else ["NULL", "null", "(x)"]

def twoTypesServer : Schema where
  grammar := { dialect := .postgres }
  connection :=
    { dialect := .postgres
      query := fun _ sql _ =>
        let type := if sql = (Schema.labelQuery "public" "enum__open_eopt_on hold").sql .postgres
          then "enum__open_eopt_on hold" else ""
        .ok [⟨["options"], [.text (printLabels Text.isBlank (twoTypes type))]⟩]
      execute := fun _ _ _ => .ok 0
      insert := fun _ _ _ => .ok 0 }
  name := "public"

def twoTypesListing : List Column :=
  [{ name := "state", type := .other "ENUM", nativeType := some "ENUM__OPEN_EOPT_ON HOLD" },
   { name := "note", type := .text, nativeType := some "TEXT" },
   { name := "kind", type := .other "ENUM", nativeType := some "ENUM__NULL_EOPT_NULL_EOPT_(X)" }]

/-- Both columns of an enum type get the labels of their types. -/
theorem enum_labels_read_two_types :
    ∃ finished asked,
      (ExceptT.run (twoTypesListing.mapM (twoTypesServer.withLabels "public"))).run [] =
        (.ok finished, asked) ∧
      finished = twoTypesListing.map (Column.withOptions twoTypes) := by
  have types : ∀ c ∈ twoTypesListing, ∀ type, c.enumType? = some type →
      type = "enum__open_eopt_on hold" ∨ type = "enum__null_eopt_null_eopt_(x)" := by
    have found : twoTypesListing.map Column.enumType? =
        [some "enum__open_eopt_on hold", none, some "enum__null_eopt_null_eopt_(x)"] := by
      decide +kernel
    intro c member type named
    have listed := List.mem_map_of_mem (f := Column.enumType?) member
    rw [found, named] at listed
    simpa using listed
  have tells : ∀ c ∈ twoTypesListing, ∀ type, c.enumType? = some type →
      twoTypesServer.TellsLabels "public" Text.isBlank twoTypes type := by
    intro c member type named past
    rcases types c member type named with rfl | rfl <;> exact ⟨_, rfl, rfl⟩
  obtain ⟨finished, asked, run, options⟩ := (enum_labels_read_iff Text.isBlank).2 twoTypesServer
    "public" twoTypesListing twoTypes rfl tells []
  refine ⟨finished, asked, run, options.mpr fun c member type named label inside => ?_⟩
  have label : label ∈ ["open", "on hold", "NULL", "null", "(x)"] := by
    rcases types c member type named with rfl | rfl
    · exact List.mem_of_mem_take (i := 2) inside
    · exact List.mem_of_mem_drop (i := 2) inside
  simp only [List.mem_cons, List.not_mem_nil, or_false] at label
  rcases label with rfl | rfl | rfl | rfl | rfl <;>
    exact ⟨by decide, by simp, by decide⟩

/-- A label with a comma is read as two. -/
theorem label_cut_at_comma :
    printLabels Text.isBlank ["a,b", "c"] = "\x7b\x22a,b\x22,c\x7d" ∧
      readEnumLabels (printLabels Text.isBlank ["a,b", "c"]) = ["a", "b", "c"] := by
  decide

end Sqlwright
