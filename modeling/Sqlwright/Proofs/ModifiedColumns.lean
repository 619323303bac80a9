import Sqlwright.Ddl.Alter
import Sqlwright.Proofs.FixedText

/-!
Columns that are modified. MySQL and HANA write the whole definition again, so whatever differs in
two definitions of a column differs in the statements. Postgres has a statement for each attribute
but none for the collation and for how the column counts up, and the generic dialect writes the type
and the comment alone: what they leave out is forgotten, without a failure.
-/

namespace Sqlwright

/-! ### Texts -/

/-- Lists are told apart by their fronts, which are marked, and by what follows. -/
theorem append_inj_of_marked {α : Type} {mark : α → Bool} {front others back rest : List α}
    (marked : ∀ a ∈ front ++ others, mark a) (unmarked : ∀ a ∈ back ++ rest, ¬ mark a) :
    front ++ back = others ++ rest ↔ front = others ∧ back = rest := by
  constructor
  · intro same
    have fronts := congrArg (List.filter mark) same
    have left : ∀ a ∈ front, mark a := fun a member => marked a (List.mem_append_left _ member)
    have right : ∀ a ∈ others, mark a := fun a member => marked a (List.mem_append_right _ member)
    have left' : back.filter mark = [] :=
      List.filter_eq_nil_iff.mpr fun a member => unmarked a (List.mem_append_left _ member)
    have right' : rest.filter mark = [] :=
      List.filter_eq_nil_iff.mpr fun a member => unmarked a (List.mem_append_right _ member)
    rw [List.filter_append, List.filter_append, left', right', List.append_nil, List.append_nil,
      List.filter_eq_self.mpr left, List.filter_eq_self.mpr right] at fronts
    exact ⟨fronts, List.append_cancel_left (fronts ▸ same)⟩
  · rintro ⟨rfl, rfl⟩
    rfl

/-- A text that stands twice between others is told from the whole. -/
theorem eq_of_twice (before between behind : String) {s other : String}
    (same : before ++ s ++ between ++ s ++ behind = before ++ other ++ between ++ other ++ behind) :
    s = other := by
  have lists := congrArg String.toList same
  simp only [String.toList_append, List.append_assoc, List.append_cancel_left_eq] at lists
  have lengths := congrArg List.length lists
  simp only [List.length_append] at lengths
  have length : s.toList.length = other.toList.length := by omega
  exact String.toList_inj.mp (List.append_inj_left lists length)

theorem Text.quoted_injective {q : Char} {s other : String} (same : quoted q s = quoted q other) :
    s = other := by
  have read (text : String) : unquote q (quoted q text).toList = some (text.toList, []) := by
    have apart : ([] : List Char).head? ≠ some q := by simp
    rw [quoted, String.toList_ofList, ← unquote_quote text.toList apart, List.append_nil]
  have both := (read s).symm.trans (same ▸ read other)
  exact String.toList_inj.mp (Prod.mk.inj (Option.some.inj both)).1

section Texts

variable {d : Dialect} {front : List Piece}

theorem render_append (fixed : Fixed front) (back : List Piece) :
    render d (front ++ back) = render d front ++ render d back := by
  rw [render, renderFrom_append, fixed.advance]
  rfl

theorem render_text (s : String) (rest : List Piece) :
    render d (.text s :: rest) = s ++ render d rest := rfl

theorem render_singleton (s : String) : render d [.text s] = s := String.append_empty

theorem render_segment (s : String) (rest : List Piece) :
    render d (Grammar.segment s :: rest) = render d [Grammar.segment s] ++ render d rest :=
  render_append (.cons (Grammar.segment_fixed s) .nil) rest

theorem render_parenthesised (inner : List Piece) :
    render d (parenthesised inner) = "(" ++ render d inner ++ ")" := by
  rw [parenthesised, render, renderFrom_append]
  rfl

/-- The text of a clause behind others, with a blank in front of it if there is any. -/
def spaced (d : Dialect) (clause : List Piece) : String :=
  if clause.isEmpty then "" else " " ++ render d clause

/-- A sentence is its first clause and the others that are written, each behind a blank. -/
theorem render_sentence {first : List Piece} {rest : List (List Piece)} (written : first ≠ [])
    (fixed : Fixed first) (others : ∀ clause ∈ rest, Fixed clause) :
    render d (sentence (first :: rest)) = render d first ++ String.join (rest.map (spaced d)) := by
  induction rest generalizing first with
  | nil =>
    have alone : sentence [first] = first := by simp [sentence, written, joinPieces]
    rw [alone, List.map_nil, String.join_nil, String.append_empty]
  | cons clause more ih =>
    obtain ⟨here, later⟩ := List.forall_mem_cons.mp others
    cases clause with
    | nil =>
      have silent : sentence (first :: [] :: more) = sentence (first :: more) := by
        simp [sentence, List.filter_cons]
      rw [silent, ih written fixed later]
      simp [spaced]
    | cons piece pieces =>
      have behind : sentence (first :: (piece :: pieces) :: more) =
          first ++ .text " " :: sentence ((piece :: pieces) :: more) := by
        simp [sentence, written, joinPieces]
      rw [behind, render_append fixed, render_text, ih (List.cons_ne_nil _ _) here later]
      simp [spaced, String.append_assoc]

/-- A segment is told from its text. -/
theorem segment_eq_of_render {s other : String}
    (same : render d [Grammar.segment s] = render d [Grammar.segment other]) : s = other := by
  have quotes (name : String) : render d [.name name] ≠ render d [.text "*"] := by
    intro same
    have star : d.quoteChar = '*' := by
      simpa [render, renderFrom, Piece.render, Dialect.quoteIdentifier, Text.quoted, Text.quote]
        using congrArg (fun text : String => text.toList.head?) same
    revert star
    cases d <;> decide
  unfold Grammar.segment at same
  split at same <;> split at same
  · next star star' => rw [star, star']
  · exact absurd same.symm (quotes other)
  · exact absurd same (quotes s)
  · simp only [render, renderFrom, Piece.render, String.append_left_inj] at same
    exact Text.quoted_injective same

end Texts

/-! ### Clauses of a definition -/

namespace Dialect

variable (d : Dialect) (c : Column)

def typeText : String := render d (d.columnType c)

def defaultText : String := render d (d.defaultClause c)

/-- What the generic dialect writes of a column behind its name and its type. -/
def attributes : List (List Piece) :=
  [nullClause c, d.defaultClause c,
   if c.autoIncrement then [.text "GENERATED BY DEFAULT AS IDENTITY"] else [],
   option "COLLATE " c.collation, d.enumCheck c]

/-- What Postgres has no statement for: the type that counts up, or else the collation. -/
def counterOrCollation : String ⊕ Option String :=
  if c.autoIncrement then .inl (serialType c.type) else .inr c.collation

/-- Two definitions of a column differ in something that its modification says nothing of. -/
def Forgets (other : Column) : Prop :=
  match d with
  | .generic =>
    d.typeText c = d.typeText other ∧ d.storedComment? c = d.storedComment? other ∧
      render d (sentence (d.attributes c)) ≠ render d (sentence (d.attributes other))
  | .postgres =>
    d.typeText c = d.typeText other ∧ c.nullable = other.nullable ∧
      d.defaultText c = d.defaultText other ∧ d.storedComment? c = d.storedComment? other ∧
      (d.createTypes [c]).map (render d) = (d.createTypes [other]).map (render d) ∧
      counterOrCollation c ≠ counterOrCollation other
  | _ => False

end Dialect

theorem Dialect.defaultClause_fixed (d : Dialect) (c : Column) : Fixed (d.defaultClause c) := by
  have value (v : Value) : (d.literal v).IsFixed := by
    unfold literal
    split <;> trivial
  unfold defaultClause
  split
  · exact .nil
  · exact .text .nil
  · exact .text (.cons (value _) .nil)

namespace Grammar

/-- The text of the definition of a column. -/
def definition (g : Grammar) (c : Column) : String :=
  render g.dialect (g.dialect.columnDefinition c)

/-- The texts of the statements that modify a column. -/
def modification (g : Grammar) (t : Table) (c : Column) : Except Fault (List String) :=
  (g.alterModifyColumn t c).map fun statements => statements.map (render g.dialect)

variable (g : Grammar) (t : Table) {c other : Column}

theorem altering_fixed (action : String) : Fixed (g.altering t action []) :=
  (Fixed.text (g.table_fixed t.name)).append (.text .nil)

/-- Behind the same beginning, statements differ where the rest does. -/
theorem render_altering_inj {action : String} {rest others : List Piece} :
    render g.dialect (g.altering t action rest) = render g.dialect (g.altering t action others) ↔
      render g.dialect rest = render g.dialect others := by
  have split (rest : List Piece) : render g.dialect (g.altering t action rest) =
      render g.dialect (g.altering t action []) ++ render g.dialect rest := by
    rw [← render_append (g.altering_fixed t action)]
    simp [altering]
  rw [split, split others, String.append_right_inj]

/-- The comments of a column are stored alike exactly if the same comment is. -/
theorem commenting_inj (named : c.name = other.name) (owned : c.tableName = other.tableName) :
    (g.commenting c).map (render g.dialect) = (g.commenting other).map (render g.dialect) ↔
      g.dialect.storedComment? c = g.dialect.storedComment? other := by
  let front : List Piece := .text "COMMENT ON COLUMN " :: g.table other.tableName ++
    [.text ".", segment other.name, .text " IS "]
  have fixed : Fixed front := (Fixed.text (g.table_fixed _)).append
    (.text (.cons (segment_fixed _) (.text .nil)))
  have texts (c : Column) (named : c.name = other.name) (owned : c.tableName = other.tableName) :
      (g.commenting c).map (render g.dialect) =
        ((g.dialect.storedComment? c).map fun comment =>
          render g.dialect front ++ render g.dialect [.literal comment]).toList := by
    rw [commenting, commentStatement?, named, owned]
    cases g.dialect.storedComment? c with
    | none => rfl
    | some comment =>
      have statement : .text "COMMENT ON COLUMN " :: g.table other.tableName ++
          [.text ".", segment other.name, .text " IS ", .literal comment] =
            front ++ [.literal comment] := by simp [front]
      rw [Option.map_some, Option.map_some, statement, Option.toList_some, Option.toList_some,
        List.map_singleton, render_append fixed]
  have injective : Function.Injective fun comment =>
      render g.dialect front ++ render g.dialect [.literal comment] := by
    intro first second same
    simp only [String.append_right_inj, render, renderFrom, Piece.render, Dialect.quoteString,
      String.append_left_inj] at same
    exact Text.quoted_injective same
  have toList {first second : Option String} : first.toList = second.toList ↔ first = second := by
    cases first <;> cases second <;> simp
  rw [texts c named owned, texts other rfl rfl, toList, (Option.map_injective injective).eq_iff]

end Grammar

/-! ### Single dialects -/

/-- Whatever differs in definitions is kept if only such are modified alike that are alike but for
what is kept in any case. -/
theorem kept_iff {modified defined said unsaid : Prop} (tells : modified ↔ said)
    (defines : said → (defined ↔ unsaid)) : (¬ defined → ¬ modified) ↔ ¬ (said ∧ ¬ unsaid) := by
  tauto

/-- Outside MySQL a type is one text. -/
theorem Dialect.columnType_eq {d : Dialect} (unlike : d ≠ .mysql) (c : Column) :
    d.columnType c = [.text (d.typeText c)] := by
  obtain ⟨type, written⟩ : ∃ type, d.columnType c = [.text type] := by
    unfold columnType
    split
    · cases d with
      | mysql => exact absurd rfl unlike
      | _ => exact ⟨_, rfl⟩
    · exact ⟨_, rfl⟩
  rw [typeText, written, render_singleton]

namespace Grammar

variable {g : Grammar} (t : Table) {c other : Column}

theorem modification_ok (unlike : g.dialect ≠ .sqlite) (c : Column) :
    ∃ statements, g.modification t c = .ok statements := by
  unfold modification alterModifyColumn
  cases dialect : g.dialect with
  | sqlite => exact absurd dialect unlike
  | generic | mysql | postgres | hana => exact ⟨_, rfl⟩

theorem mysql_modifies_iff (c other : Column) (dialect : g.dialect = .mysql) :
    g.modification t c = g.modification t other ↔ g.definition c = g.definition other := by
  have texts (c : Column) : g.modification t c = .ok
      [render g.dialect (g.altering t "MODIFY COLUMN " (g.dialect.columnDefinition c))] := by
    simp only [modification, alterModifyColumn, dialect]
    rfl
  rw [texts, texts, Except.ok.injEq, List.singleton_inj, render_altering_inj]
  rfl

theorem hana_modifies_iff (dialect : g.dialect = .hana) (named : c.name = other.name)
    (owned : c.tableName = other.tableName) :
    g.modification t c = g.modification t other ↔ g.definition c = g.definition other ∧
      g.dialect.storedComment? c = g.dialect.storedComment? other := by
  have texts (c : Column) : g.modification t c = .ok
      (render g.dialect (g.altering t "ALTER " (parenthesised (g.dialect.columnDefinition c))) ::
        (g.commenting c).map (render g.dialect)) := by
    simp only [modification, alterModifyColumn, dialect]
    rfl
  rw [texts, texts, Except.ok.injEq, List.cons.injEq, render_altering_inj,
    render_parenthesised, render_parenthesised, String.append_left_inj, String.append_right_inj,
    g.commenting_inj named owned]
  rfl

theorem generic_modifies_iff (dialect : g.dialect = .generic) (named : c.name = other.name)
    (owned : c.tableName = other.tableName) :
    g.modification t c = g.modification t other ↔
      g.dialect.typeText c = g.dialect.typeText other ∧
        g.dialect.storedComment? c = g.dialect.storedComment? other := by
  have texts (c : Column) : g.modification t c = .ok
      (render g.dialect (g.altering t "ALTER COLUMN "
          (segment c.name :: .text " SET DATA TYPE " :: g.dialect.columnType c)) ::
        (g.commenting c).map (render g.dialect)) := by
    simp only [modification, alterModifyColumn, dialect]
    rfl
  rw [texts, texts, Except.ok.injEq, List.cons.injEq, render_altering_inj, named,
    render_segment, render_segment _ (.text _ :: g.dialect.columnType other),
    String.append_right_inj, render_text, render_text, String.append_right_inj,
    g.commenting_inj named owned]
  rfl

/-- What a text starts with tells the statements of a modification apart. -/
def startsWith (c : Char) (text : String) : Bool := text.toList.head? == some c

theorem not_startsWith {first second : Char} {text : String} (starts : startsWith first text)
    (apart : first ≠ second) : ¬ startsWith second text := by
  simp only [startsWith, beq_iff_eq] at starts ⊢
  rwa [starts, Option.some.injEq]

theorem altering_starts (action : String) (rest : List Piece) :
    startsWith 'A' (render g.dialect (g.altering t action rest)) := by
  rw [altering, alterTable, List.cons_append, render_text, startsWith, String.toList_append]
  rfl

theorem commenting_starts (c : Column) :
    ∀ text ∈ (g.commenting c).map (render g.dialect), startsWith 'C' text := by
  intro text member
  rw [commenting, commentStatement?, List.mem_map] at member
  obtain ⟨statement, given, rfl⟩ := member
  obtain ⟨comment, -, rfl⟩ := Option.map_eq_some_iff.mp (Option.mem_toList.mp given)
  rw [List.cons_append, render_text, startsWith, String.toList_append]
  rfl

theorem createTypes_starts (d : Dialect) (c : Column) :
    ∀ text ∈ (d.createTypes [c]).map (render d), startsWith 'D' text := by
  intro text member
  obtain ⟨statement, created, rfl⟩ := List.mem_map.mp member
  unfold Dialect.createTypes at created
  split at created
  · obtain ⟨c, -, rfl⟩ := List.mem_map.mp created
    rw [List.cons_append, render_text, startsWith, String.toList_append, String.toList_append,
      String.toList_append]
    rfl
  · cases created

/-- The statements that Postgres modifies a column by, but for its types and its comment. -/
def attributeStatements (g : Grammar) (t : Table) (c : Column) : List String :=
  let altering (rest : List Piece) : String :=
    render g.dialect (g.altering t "ALTER COLUMN " (segment c.name :: rest))
  let type := g.dialect.typeText c
  [altering [.text " TYPE ", .text type, .text " USING (", segment c.name, .text "::", .text type,
     .text ")"],
   altering [.text (if c.nullable then " DROP NOT NULL" else " SET NOT NULL")],
   altering (if (g.dialect.defaultClause c).isEmpty then [.text " DROP DEFAULT"]
     else .text " SET " :: g.dialect.defaultClause c)]

theorem attributeStatements_starts (c : Column) :
    ∀ text ∈ g.attributeStatements t c, startsWith 'A' text := by
  intro text member
  simp only [attributeStatements, List.mem_cons, List.not_mem_nil, or_false] at member
  rcases member with rfl | rfl | rfl <;> exact g.altering_starts t _ _

theorem isEmpty_defaultClause_iff (d : Dialect) (c : Column) :
    (d.defaultClause c).isEmpty ↔ d.defaultText c = "" := by
  unfold Dialect.defaultText Dialect.defaultClause
  split <;> simp [render, renderFrom, Piece.render]

theorem defaultStatement (d : Dialect) (c : Column) :
    render d (if (d.defaultClause c).isEmpty then [.text " DROP DEFAULT"]
        else .text " SET " :: d.defaultClause c) =
      if d.defaultText c = "" then " DROP DEFAULT" else " SET " ++ d.defaultText c := by
  have silent := isEmpty_defaultClause_iff d c
  by_cases none : d.defaultText c = ""
  · rw [if_pos none, if_pos (silent.mpr none)]
    rfl
  · rw [if_neg none, if_neg (mt silent.mp none)]
    rfl

theorem attributeStatements_inj (named : c.name = other.name) :
    g.attributeStatements t c = g.attributeStatements t other ↔
      g.dialect.typeText c = g.dialect.typeText other ∧ c.nullable = other.nullable ∧
        g.dialect.defaultText c = g.dialect.defaultText other := by
  have behind (rest others : List Piece) :
      render g.dialect (g.altering t "ALTER COLUMN " (segment other.name :: rest)) =
          render g.dialect (g.altering t "ALTER COLUMN " (segment other.name :: others)) ↔
        render g.dialect rest = render g.dialect others := by
    rw [render_altering_inj, render_segment, render_segment _ others, String.append_right_inj]
  have type (first second : String) :
      render g.dialect [.text " TYPE ", .text first, .text " USING (", segment other.name,
          .text "::", .text first, .text ")"] =
        render g.dialect [.text " TYPE ", .text second, .text " USING (", segment other.name,
          .text "::", .text second, .text ")"] ↔ first = second := by
    constructor
    · intro same
      simp only [render_text, render_segment (d := g.dialect) other.name (.text "::" :: _)] at same
      refine eq_of_twice " TYPE " (" USING (" ++ (render g.dialect [segment other.name] ++ "::"))
        (")" ++ render g.dialect []) ?_
      simpa only [String.append_assoc] using same
    · rintro rfl
      rfl
  have null : render g.dialect [.text (if c.nullable then " DROP NOT NULL" else " SET NOT NULL")] =
      render g.dialect [.text (if other.nullable then " DROP NOT NULL" else " SET NOT NULL")] ↔
        c.nullable = other.nullable := by
    cases c.nullable <;> cases other.nullable <;> simp [render_text]
  simp only [attributeStatements, named, List.cons.injEq, behind, type, null, defaultStatement,
    and_true]
  refine and_congr_right' (and_congr_right' ?_)
  have apart (text : String) : " SET " ++ text ≠ " DROP DEFAULT" := by
    intro same
    have lists := congrArg String.toList same
    simp [String.toList_append] at lists
  generalize g.dialect.defaultText c = first
  generalize g.dialect.defaultText other = second
  split <;> split
  · next none none' => simp [none, none']
  · next none given => exact iff_of_false (apart second).symm fun same => given (same ▸ none)
  · next given none => exact iff_of_false (apart first) fun same => given (same ▸ none)
  · exact String.append_right_inj _

theorem postgres_modifies_iff (dialect : g.dialect = .postgres) (named : c.name = other.name)
    (owned : c.tableName = other.tableName) :
    g.modification t c = g.modification t other ↔
      g.dialect.typeText c = g.dialect.typeText other ∧ c.nullable = other.nullable ∧
        g.dialect.defaultText c = g.dialect.defaultText other ∧
        g.dialect.storedComment? c = g.dialect.storedComment? other ∧
        (g.dialect.createTypes [c]).map (render g.dialect) =
          (g.dialect.createTypes [other]).map (render g.dialect) := by
  have unlike : g.dialect ≠ .mysql := by
    rw [dialect]
    decide
  have texts (c : Column) : g.modification t c = .ok
      ((g.dialect.createTypes [c]).map (render g.dialect) ++
        (g.attributeStatements t c ++ (g.commenting c).map (render g.dialect))) := by
    have statements : g.alterModifyColumn t c = .ok (g.postgresModifyColumn t c) := by
      simp only [alterModifyColumn, dialect]
    rw [modification, statements, postgresModifyColumn, Dialect.columnType_eq unlike]
    simp only [Except.map, List.map_append, List.append_assoc]
    rfl
  have types (c : Column) := createTypes_starts g.dialect c
  have attributes (c : Column) := g.attributeStatements_starts t c
  have comments (c : Column) : ∀ text ∈ (g.commenting c).map (render g.dialect),
      ¬ startsWith 'A' text :=
    fun text member => not_startsWith (g.commenting_starts c text member) (by decide)
  have later (c : Column) : ∀ text ∈ g.attributeStatements t c ++
      (g.commenting c).map (render g.dialect), ¬ startsWith 'D' text :=
    List.forall_mem_append.mpr
      ⟨fun text member => not_startsWith (attributes c text member) (by decide),
        fun text member => not_startsWith (g.commenting_starts c text member) (by decide)⟩
  rw [texts, texts, Except.ok.injEq,
    append_inj_of_marked (List.forall_mem_append.mpr ⟨types c, types other⟩)
      (List.forall_mem_append.mpr ⟨later c, later other⟩),
    append_inj_of_marked (List.forall_mem_append.mpr ⟨attributes c, attributes other⟩)
      (List.forall_mem_append.mpr ⟨comments c, comments other⟩),
    g.attributeStatements_inj t named, g.commenting_inj named owned]
  tauto

/-! ### Definitions -/

theorem generic_defines_iff (dialect : g.dialect = .generic) (named : c.name = other.name)
    (typed : g.dialect.typeText c = g.dialect.typeText other) :
    g.definition c = g.definition other ↔
      render g.dialect (sentence (g.dialect.attributes c)) =
        render g.dialect (sentence (g.dialect.attributes other)) := by
  have texts (c : Column) : g.definition c = render g.dialect (segment c.name :: .text " " ::
      .text (g.dialect.typeText c) :: .text " " :: sentence (g.dialect.attributes c)) := by
    have type : Dialect.generic.columnType c = [.text (Dialect.generic.typeText c)] :=
      Dialect.columnType_eq (by decide) c
    simp only [definition, dialect, Dialect.columnDefinition, type]
    rfl
  rw [texts, texts, named, typed]
  simp only [render_segment (d := g.dialect) other.name (.text " " :: _), render_text,
    String.append_right_inj]

/-- The collation in a definition on Postgres. -/
def collationText (d : Dialect) : Option String → String
  | some collation => " " ++ ("COLLATE " ++ render d [segment collation])
  | none => ""

theorem collationText_inj {d : Dialect} {first second : Option String} :
    collationText d first = collationText d second ↔ first = second := by
  constructor
  · intro same
    have written (collation : String) : collationText d (some collation) ≠ "" := by
      simp [collationText]
    cases first with
    | none =>
      cases second with
      | none => rfl
      | some collation => exact absurd same.symm (written collation)
    | some collation =>
      cases second with
      | none => exact absurd same (written collation)
      | some another =>
        simp only [collationText, String.append_right_inj] at same
        rw [segment_eq_of_render same]
  · rintro rfl
    rfl

/-- The definition on Postgres of a column that does not count up. -/
theorem postgres_definition (dialect : g.dialect = .postgres) (plain : c.autoIncrement = false) :
    g.definition c = render g.dialect [segment c.name] ++ (" " ++ (g.dialect.typeText c ++
      (" " ++ (render g.dialect (Dialect.nullClause c) ++
        ((if g.dialect.defaultText c = "" then "" else " " ++ g.dialect.defaultText c) ++
          collationText g.dialect c.collation))))) := by
  let collation : List Piece := match c.collation with
    | some collation => [.text "COLLATE ", segment collation]
    | none => []
  have clauses : g.dialect.columnDefinition c = sentence [[segment c.name],
      [.text (g.dialect.typeText c)], Dialect.nullClause c, g.dialect.defaultClause c,
      collation] := by
    have type := Dialect.columnType_eq (d := .postgres) (by decide) c
    simp only [dialect, Dialect.columnDefinition, plain, type]
    rfl
  have name : Fixed [segment c.name] := .cons (segment_fixed _) .nil
  have others : ∀ clause ∈ [[.text (g.dialect.typeText c)], Dialect.nullClause c,
      g.dialect.defaultClause c, collation], Fixed clause := by
    have given : Fixed collation := by
      unfold collation
      split
      · exact .text (.cons (segment_fixed _) .nil)
      · exact .nil
    simpa [given, Dialect.nullClause] using
      ⟨Fixed.text .nil, Fixed.text .nil, Dialect.defaultClause_fixed g.dialect c⟩
  have collated : spaced g.dialect collation = collationText g.dialect c.collation := by
    unfold collation
    cases c.collation with
    | none => rfl
    | some given => simp [spaced, collationText, render_text]
  have defaulted : spaced g.dialect (g.dialect.defaultClause c) =
      if g.dialect.defaultText c = "" then "" else " " ++ g.dialect.defaultText c := by
    simp only [spaced, isEmpty_defaultClause_iff]
    rfl
  rw [definition, clauses, render_sentence (List.cons_ne_nil _ _) name others]
  have written (clause : List Piece) (some : clause ≠ []) :
      spaced g.dialect clause = " " ++ render g.dialect clause := by
    simp [spaced, some]
  have null : Dialect.nullClause c ≠ [] := List.cons_ne_nil _ _
  simp only [List.map_cons, List.map_nil, String.join_cons, String.join_nil, collated, defaulted,
    written _ null, written _ (List.cons_ne_nil _ _), render_singleton, String.append_empty,
    String.append_assoc]

/-- A definition on Postgres tells what a modification does, and how the column counts up or what
its collation is. -/
theorem postgres_defines_iff (dialect : g.dialect = .postgres) (named : c.name = other.name)
    (typed : g.dialect.typeText c = g.dialect.typeText other)
    (nullable : c.nullable = other.nullable)
    (default : g.dialect.defaultText c = g.dialect.defaultText other) :
    g.definition c = g.definition other ↔
      Dialect.counterOrCollation c = Dialect.counterOrCollation other := by
  have counting {c : Column} (auto : c.autoIncrement) : g.definition c =
      render g.dialect [segment c.name] ++ (" " ++ Dialect.serialType c.type) := by
    have clauses : g.dialect.columnDefinition c =
        [segment c.name, .text " ", .text (Dialect.serialType c.type)] := by
      simp only [dialect, Dialect.columnDefinition, auto]
      rfl
    rw [definition, clauses, render_segment, render_text, render_singleton]
  have solid (type : ColumnType) (front behind : String) :
      Dialect.serialType type ≠ front ++ (" " ++ behind) := by
    intro same
    have blank : ' ' ∈ (Dialect.serialType type).toList := by
      simp [same, String.toList_append]
    revert blank
    unfold Dialect.serialType
    split <;> decide
  unfold Dialect.counterOrCollation
  cases auto : c.autoIncrement with
  | true =>
    rw [counting auto, named, if_pos rfl]
    cases auto' : other.autoIncrement with
    | true =>
      rw [counting auto', if_pos rfl, String.append_right_inj, String.append_right_inj,
        Sum.inl.injEq]
    | false =>
      rw [postgres_definition dialect auto', if_neg Bool.false_ne_true, String.append_right_inj,
        String.append_right_inj]
      exact iff_of_false (solid _ _ _) (by simp)
  | false =>
    rw [postgres_definition dialect auto, named, if_neg Bool.false_ne_true]
    cases auto' : other.autoIncrement with
    | true =>
      rw [counting auto', if_pos rfl, String.append_right_inj, String.append_right_inj]
      exact iff_of_false (solid _ _ _).symm (by simp)
    | false =>
      have null : Dialect.nullClause c = Dialect.nullClause other := by
        rw [Dialect.nullClause, Dialect.nullClause, nullable]
      rw [postgres_definition dialect auto', if_neg Bool.false_ne_true, typed, null, default]
      simp only [String.append_right_inj, collationText_inj, Sum.inr.injEq]

end Grammar

/-- Columns cannot be modified on SQLite. On the other dialects they can, and where two definitions
of a column differ the statements do too, exactly unless the difference is in something that the
statements of the dialect say nothing of. -/
theorem modification_keeps_iff (g : Grammar) (t : Table) (c other : Column)
    (named : c.name = other.name) (owned : c.tableName = other.tableName) :
    (g.dialect = .sqlite →
      g.modification t c = .error (.unsupported .sqlite "modifying columns")) ∧
    (g.dialect ≠ .sqlite →
      (∃ statements, g.modification t c = .ok statements) ∧
        ((g.definition c ≠ g.definition other → g.modification t c ≠ g.modification t other) ↔
          ¬ g.dialect.Forgets c other)) := by
  constructor
  · intro dialect
    simp only [Grammar.modification, Grammar.alterModifyColumn, dialect]
    rfl
  · intro unlike
    refine ⟨g.modification_ok t unlike c, ?_⟩
    cases dialect : g.dialect with
    | sqlite => exact absurd dialect unlike
    | mysql =>
      have same := g.mysql_modifies_iff t c other dialect
      exact iff_of_true (fun differ => mt same.mp differ) id
    | hana =>
      have same := g.hana_modifies_iff t dialect named owned
      exact iff_of_true (fun differ => mt (fun alike => (same.mp alike).1) differ) id
    | generic =>
      have kept := kept_iff (g.generic_modifies_iff t dialect named owned)
        fun said => g.generic_defines_iff dialect named said.1
      simpa only [Dialect.Forgets, dialect, and_assoc] using kept
    | postgres =>
      have kept := kept_iff (g.postgres_modifies_iff t dialect named owned)
        fun said => g.postgres_defines_iff dialect named said.1 said.2.1 said.2.2.1
      simpa only [Dialect.Forgets, dialect, and_assoc] using kept

/-- A short text column, and the same with a collation and with a greater length. -/
def shortText : Column := { name := "a", tableName := "t", type := .string, length := some 20 }

def collatedText : Column := { shortText with collation := some "C" }

def longText : Column := { shortText with length := some 40 }

/-- A new collation is kept on HANA and a new length on Postgres. -/
theorem modification_keeps_collation :
    Grammar.modification { dialect := .hana } { name := "t" } shortText ≠
        Grammar.modification { dialect := .hana } { name := "t" } collatedText ∧
      Grammar.modification { dialect := .postgres } { name := "t" } shortText ≠
        Grammar.modification { dialect := .postgres } { name := "t" } longText := by
  constructor
  · have kept :=
      modification_keeps_iff { dialect := .hana } { name := "t" } shortText collatedText rfl rfl
    exact (kept.2 (by decide)).2.mpr id (by decide)
  · have kept :=
      modification_keeps_iff { dialect := .postgres } { name := "t" } shortText longText rfl rfl
    refine (kept.2 (by decide)).2.mpr ?_ (by decide)
    rintro ⟨typed, -⟩
    exact absurd typed (by decide)

/-- Postgres gives the column no collation when it is modified, and the generic dialect does not let
it take nulls. -/
theorem collation_forgotten :
    let nullable : Column := { shortText with nullable := true }
    let modification (d : Dialect) := Grammar.modification { dialect := d } { name := "t" }
    Grammar.definition { dialect := .postgres } shortText ≠
        Grammar.definition { dialect := .postgres } collatedText ∧
      modification .postgres shortText = modification .postgres collatedText ∧
      Grammar.definition { dialect := .generic } shortText ≠
        Grammar.definition { dialect := .generic } nullable ∧
      modification .generic shortText = modification .generic nullable := by
  refine ⟨?_, rfl, ?_, rfl⟩ <;> decide

end Sqlwright
