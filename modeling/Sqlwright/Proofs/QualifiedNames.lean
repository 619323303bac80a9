import Sqlwright.Query.Write
import Sqlwright.Proofs.AliasReading

/-!
Qualified names. The FROM clause declares a name for its source, and columns, row ids and the target
of a delete refer to the source by it. The table prefix is put before the name in each of these
places on its own; for tables all places agree, for queries they do only where the prefix is empty.
-/

namespace Sqlwright

/-! ### Names in pieces -/

/-- The word in front of an alias. -/
def Piece.isLabel : Piece → Bool
  | .text " as " => true
  | _ => false

def Piece.isPoint : Piece → Bool
  | .text "." => true
  | _ => false

@[simp] theorem Piece.isLabel_label : (Piece.text " as ").isLabel = true := rfl

@[simp] theorem Piece.isLabel_point : (Piece.text ".").isLabel = false := rfl

@[simp] theorem Piece.isPoint_point : (Piece.text ".").isPoint = true := rfl

/-- The name that a clause declares for its source: what follows the last alias word, everything
where there is none. -/
def declaredName (source : List Piece) : List Piece :=
  (source.reverse.takeWhile fun piece => !piece.isLabel).reverse

/-- The name that a written column is qualified by: what stands in front of the last point, the
aliases of the column aside. -/
def qualifier (written : List Piece) : List Piece :=
  ((written.takeWhile fun piece => !piece.isLabel).reverse.dropWhile
    fun piece => !piece.isPoint).tail.reverse

namespace Grammar

variable (g : Grammar)

/-- The written segments of a name; the last one names the table. -/
def namePieces (name : List Char) : List Piece :=
  dotted (g.tableSegments ((Text.splitOn '.' name).map .ofList))

theorem columnSegments_concat {front : List String} (some : front ≠ []) (last : String) :
    g.columnSegments (front ++ [last]) = g.tableSegments front ++ [segment last] := by
  match front with
  | [] => exact absurd rfl some
  | [table] => rfl
  | [qualifier, table] => rfl
  | qualifier :: next :: more :: rest =>
    have inner := columnSegments_concat (List.cons_ne_nil next (more :: rest)) last
    simp only [List.cons_append] at inner
    simp only [List.cons_append, columnSegments, tableSegments] at inner ⊢
    rw [inner]

theorem dotted_concat {front : List Piece} (some : front ≠ []) (last : Piece) :
    dotted (front ++ [last]) = dotted front ++ [.text ".", last] := by
  induction front with
  | nil => exact absurd rfl some
  | cons piece rest ih =>
    cases rest with
    | nil => rfl
    | cons next more =>
      have inner := ih (List.cons_ne_nil next more)
      simp only [dotted, List.cons_append, List.map_cons, joinPieces] at inner ⊢
      rw [inner]
      rfl

@[simp] theorem segment_isLabel (s : String) : (segment s).isLabel = false := by
  unfold segment
  split <;> rfl

@[simp] theorem segment_isPoint (s : String) : (segment s).isPoint = false := by
  unfold segment
  split <;> rfl

/-- What holds of the segments and of the point holds of the whole name. -/
theorem dotted_forall {p : Piece → Prop} (point : p (.text ".")) {segments : List Piece}
    (each : ∀ s ∈ segments, p s) : ∀ piece ∈ dotted segments, p piece :=
  joinPieces_map_forall point fun s member => List.forall_mem_singleton.mpr (each s member)

theorem tableSegments_forall {p : Piece → Prop} (each : ∀ s, p (segment s))
    (segments : List String) : ∀ piece ∈ g.tableSegments segments, p piece := by
  match segments with
  | [] => exact List.forall_mem_nil _
  | [table] => exact List.forall_mem_singleton.mpr (each _)
  | qualifier :: next :: rest =>
    exact List.forall_mem_cons.mpr ⟨each _, tableSegments_forall each (next :: rest)⟩

theorem namePieces_free {name : List Char} (free : '.' ∉ name) :
    g.namePieces name = [g.tableSegment (.ofList name)] := by
  rw [namePieces, Text.splitOn_free free]
  rfl

theorem namePieces_unlabelled (name : List Char) :
    ∀ piece ∈ g.namePieces name, !piece.isLabel := by
  have each (s : String) : !(segment s).isLabel := by simp
  have point : !(Piece.text ".").isLabel := rfl
  exact dotted_forall point (g.tableSegments_forall each _)

theorem tableSegments_ne_nil {segments : List String} (some : segments ≠ []) :
    g.tableSegments segments ≠ [] := by
  match segments with
  | [] => exact absurd rfl some
  | [table] => exact List.cons_ne_nil _ _
  | qualifier :: next :: rest => exact List.cons_ne_nil _ _

end Grammar

theorem qualifier_append {name : List Piece} (plain : ∀ piece ∈ name, !piece.isLabel)
    (last : String) (aliases : List (List Char)) :
    qualifier (name ++ [.text ".", Grammar.segment last] ++
      aliases.flatMap fun label => [.text " as ", Grammar.segment (.ofList label)]) = name := by
  have shown : ∀ piece ∈ name ++ [.text ".", Grammar.segment last], !piece.isLabel :=
    List.forall_mem_append.mpr ⟨plain, by simp⟩
  rw [qualifier, List.takeWhile_append_of_pos shown]
  cases aliases with
  | nil => simp
  | cons label rest => simp

theorem qualifier_single (name : String) (aliases : List (List Char)) :
    qualifier (Grammar.segment name :: aliases.flatMap fun label =>
      [.text " as ", Grammar.segment (.ofList label)]) = [] := by
  cases aliases with
  | nil => simp [qualifier]
  | cons label rest => simp [qualifier]

theorem declaredName_plain {source : List Piece} (plain : ∀ piece ∈ source, !piece.isLabel) :
    declaredName source = source := by
  rw [declaredName, List.takeWhile_eq_self_iff.mpr (by simpa using plain), List.reverse_reverse]

theorem declaredName_label (front : List Piece) (label : String) :
    declaredName (front ++ [.text " as ", Grammar.segment label]) = [Grammar.segment label] := by
  simp [declaredName]

/-! ### Sources -/

namespace Grammar

variable (g : Grammar)

/-- A column is qualified by the name that stands in front of its last point. -/
theorem qualifier_column {reference name : String}
    (plain : Text.splitAlias? (reference.toList ++ ['.']) = none) (free : '.' ∉ name.toList) :
    qualifier (g.column (reference ++ "." ++ name)) =
      g.namePieces (Text.trimLeft reference.toList) := by
  obtain ⟨rest, restFree, read⟩ := Text.read_qualified plain free
  have written : (reference ++ "." ++ name).toList = reference.toList ++ '.' :: name.toList := by
    simp
  have front : (Text.splitOn '.' (Text.trimLeft reference.toList)).map String.ofList ≠ [] := by
    simpa using Text.splitOn_ne_nil '.' (Text.trimLeft reference.toList)
  simp only [column, written, segmentsOf, read, Text.splitOn_append,
    Text.splitOn_free restFree, List.map_append, List.map_cons, List.map_nil]
  rw [g.columnSegments_concat front, dotted_concat (g.tableSegments_ne_nil front)]
  exact qualifier_append (g.namePieces_unlabelled _) _ _

/-- A reference that is read as a text with an alias does not qualify a column. -/
theorem qualifier_lost {reference : String} (free : '.' ∉ reference.toList)
    (found : Text.splitAlias? (reference.toList ++ ['.']) ≠ none) :
    qualifier (g.column (reference ++ "." ++ "")) = [] := by
  have written : (reference ++ "." ++ "").toList = reference.toList ++ ['.'] := by simp
  have baseFree := Text.base_free free found
  have trimmedFree : '.' ∉ Text.trimChars (Text.Aliased.read (reference.toList ++ ['.'])).base :=
    fun inside => baseFree
      ((Text.trimLeft_sublist _).subset ((Text.trimRight_front _).subset inside))
  simp only [column, written, segmentsOf, Text.splitOn_free trimmedFree]
  exact qualifier_single _ _

/-- A table without aliases is written as its trimmed name. -/
theorem table_plain {name : String} (plain : Text.splitAlias? name.toList = none) :
    g.table name = g.namePieces (Text.trimChars name.toList) := by
  simp [table, Text.read_of_none plain, segmentsOf, namePieces]

theorem table_label {text : String} {name label : List Char}
    (found : Text.splitAlias? text.toList = some (name, label)) :
    g.table text = g.table (.ofList name) ++ [.text " as ", g.tableSegment (.ofList label)] := by
  simp [table, Text.read_of_some found]

end Grammar

namespace Source

theorem ofTable_label {text : String} {name label : List Char}
    (found : Text.splitAlias? text.toList = some (name, label)) :
    ofTable text = .table (.ofList name) (some (.ofList label)) := by
  simp [ofTable, Text.splitAlias, found]

theorem ofTable_plain {text : String} (plain : Text.splitAlias? text.toList = none) :
    ofTable text = .table (Text.trim text) none := by
  simp [ofTable, Text.splitAlias, plain]

/-- A table is written as its text wherever it stands, in FROM as in a join. -/
theorem ofTable_pieces (g : Grammar) (text : String) :
    (ofTable text).pieces g = g.table text := by
  cases found : Text.splitAlias? text.toList with
  | some parts => rw [ofTable_label found, Source.pieces, g.table_label found]
  | none =>
    have trimmed : Text.splitAlias? (Text.trim text).toList = none := by
      simpa [Text.trim] using Text.splitAlias?_trimChars found
    rw [ofTable_plain found, Source.pieces, g.table_plain found, g.table_plain trimmed]
    simp [Text.trim, Text.trimChars_trimChars]

/-- Wherever a query refers to its source, it names what the source declares. -/
structure Resolves (g : Grammar) (source : Source) : Prop where
  /-- A column that is qualified by the reference of the source. -/
  column (name : String) : '.' ∉ name.toList →
    qualifier (g.column (source.reference ++ "." ++ name)) = declaredName (source.pieces g)
  /-- The row id; it is not qualified where the source has no alias and stands alone. -/
  rowId (q : Query) (id : String) : q.source = some source → g.dialect.rowId? = some id →
    ∃ written, (Grammar.rowIdQuery q id).columns = [.column written] ∧
      (qualifier (g.column written) = declaredName (source.pieces g) ∨
        written = id ∧ source.label? = none ∧ q.joins = [])
  /-- The target of a joined delete. -/
  deleted (q : Query) : q.source = some source → g.dialect = .mysql →
    g.deleteTarget q source = declaredName (source.pieces g)

/-- Row ids are columns, so they name what columns name. -/
theorem rowId_of_column {g : Grammar} {source : Source} {q : Query} {id : String}
    (column : ∀ name : String, '.' ∉ name.toList →
      qualifier (g.column (source.reference ++ "." ++ name)) = declaredName (source.pieces g))
    (held : q.source = some source) (known : g.dialect.rowId? = some id) :
    ∃ written, (Grammar.rowIdQuery q id).columns = [.column written] ∧
      (qualifier (g.column written) = declaredName (source.pieces g) ∨
        written = id ∧ source.label? = none ∧ q.joins = []) := by
  have free : '.' ∉ id.toList := by
    cases dialect : g.dialect <;> simp [dialect, Dialect.rowId?] at known <;> subst known <;> decide
  by_cases ambiguous : source.label?.isSome || !q.joins.isEmpty
  · refine ⟨source.reference ++ "." ++ id, ?_, .inl (column id free)⟩
    simp [Grammar.rowIdQuery, held, ambiguous]
  · refine ⟨id, ?_, .inr ⟨rfl, ?_⟩⟩
    · simp [Grammar.rowIdQuery, held, ambiguous]
    · simpa using ambiguous

theorem resolves_of_named {g : Grammar} {source : Source}
    (plain : Text.splitAlias? (source.reference.toList ++ ['.']) = none)
    (named : g.namePieces (Text.trimLeft source.reference.toList) =
      declaredName (source.pieces g))
    (deleted : ∀ q : Query, q.source = some source → g.dialect = .mysql →
      g.deleteTarget q source = declaredName (source.pieces g)) : source.Resolves g := by
  have column (name : String) (free : '.' ∉ name.toList) :
      qualifier (g.column (source.reference ++ "." ++ name)) = declaredName (source.pieces g) :=
    (g.qualifier_column plain free).trans named
  exact ⟨column, fun q id held known => rowId_of_column column held known, deleted⟩

/-- A table resolves when its alias, if it has one, holds no point. -/
theorem ofTable_resolves (g : Grammar) {text : String}
    (free : ∀ label, (ofTable text).label? = some label → '.' ∉ label.toList) :
    (ofTable text).Resolves g := by
  cases found : Text.splitAlias? text.toList with
  | some parts =>
    obtain ⟨name, label⟩ := parts
    have solid := Text.label_solid found
    rw [ofTable_label found] at free ⊢
    have labelFree : '.' ∉ label := by simpa using free _ rfl
    have declared : declaredName ((table (.ofList name) (some (.ofList label))).pieces g) =
        [g.tableSegment (.ofList label)] := declaredName_label _ _
    refine resolves_of_named ?_ ?_ fun q _ _ => declared.symm
    · refine Text.splitAlias?_solid ?_
      simpa [reference] using List.forall_mem_append.mpr
        ⟨solid, List.forall_mem_singleton.mpr (by decide)⟩
    · rw [declared, reference, Option.getD_some, String.toList_ofList, Text.trimLeft_solid solid,
        g.namePieces_free labelFree]
  | none =>
    have trimmed : Text.splitAlias? (Text.trim text).toList = none := by
      simpa [Text.trim] using Text.splitAlias?_trimChars found
    rw [ofTable_plain found]
    have declared : declaredName ((table (Text.trim text) none).pieces g) =
        g.table (Text.trim text) := by
      rw [Source.pieces, g.table_plain trimmed]
      exact declaredName_plain (g.namePieces_unlabelled _)
    refine resolves_of_named ?_ ?_ ?_
    · simpa [reference, Text.trim] using Text.splitAlias?_trimChars_point found
    · rw [declared, g.table_plain trimmed]
      simp [reference, Text.trim, Text.trimLeft_trimChars, Text.trimChars_trimChars]
    · intro q held _
      rw [declared]
      simp [Grammar.deleteTarget, label?, Grammar.writeTable, Query.tableName?, held, tableName?]

/-- What a query under an alias without points needs to resolve. -/
theorem sub_resolves_iff (g : Grammar) (sub : Query) {label : String} (free : '.' ∉ label.toList) :
    (Source.sub sub label).Resolves g ↔
      Text.splitAlias (label ++ ".") = none ∧
        g.tablePrefix ++ .ofList (Text.trimLeft label.toList) = label ∧
        (g.dialect = .mysql → g.tablePrefix = "") := by
  have declared : declaredName ((Source.sub sub label).pieces g) = [Grammar.segment label] :=
    declaredName_label _ _
  have trimmedFree : '.' ∉ Text.trimLeft label.toList :=
    fun inside => free ((Text.trimLeft_sublist _).subset inside)
  constructor
  · intro resolves
    have column : qualifier (g.column (label ++ "." ++ "")) =
        declaredName ((Source.sub sub label).pieces g) := resolves.column "" (by simp)
    have plain : Text.splitAlias? (label.toList ++ ['.']) = none := by
      by_contra found
      rw [declared, g.qualifier_lost free found] at column
      cases column
    rw [declared, g.qualifier_column plain (by simp), g.namePieces_free trimmedFree] at column
    refine ⟨by simpa [Text.splitAlias] using plain, ?_, ?_⟩
    · exact Grammar.segment_injective (List.singleton_inj.mp column)
    · intro dialect
      have target := resolves.deleted { source := some (.sub sub label) } rfl dialect
      rw [declared] at target
      have same : g.tablePrefix ++ label = label :=
        Grammar.segment_injective (List.singleton_inj.mp target)
      simpa using congrArg String.toList same
  · rintro ⟨plain, same, unprefixed⟩
    refine resolves_of_named ?_ ?_ ?_
    · simpa [Text.splitAlias, reference] using plain
    · rw [declared, reference, g.namePieces_free trimmedFree, Grammar.tableSegment, same]
    · intro q held dialect
      rw [declared]
      simp [Grammar.deleteTarget, label?, Grammar.tableSegment, unprefixed dialect]

end Source

/-- A table resolves under every prefix, in FROM as in a join, where it is written alike. A query
resolves exactly when its alias holds no alias of its own and the prefix leaves it as it is. -/
theorem sources_resolve_iff (g : Grammar) :
    (∀ text : String, (Source.ofTable text).pieces g = g.table text ∧
      ((∀ label, (Source.ofTable text).label? = some label → '.' ∉ label.toList) →
        (Source.ofTable text).Resolves g)) ∧
      ∀ (sub : Query) (label : String), '.' ∉ label.toList →
        ((Source.sub sub label).Resolves g ↔
          Text.splitAlias (label ++ ".") = none ∧
            g.tablePrefix ++ .ofList (Text.trimLeft label.toList) = label ∧
            (g.dialect = .mysql → g.tablePrefix = "")) := by
  refine ⟨fun text => ⟨?_, ?_⟩, fun sub label free => ?_⟩
  · exact Source.ofTable_pieces g text
  · exact Source.ofTable_resolves g
  · exact Source.sub_resolves_iff g sub free

theorem sources_resolve_prefixed : (Source.ofTable "users as u").Resolves ⟨.mysql, "p_"⟩ := by
  refine ((sources_resolve_iff ⟨.mysql, "p_"⟩).1 "users as u").2 fun label found => ?_
  have parts : Text.splitAlias? "users as u".toList = some ("users".toList, "u".toList) := by
    decide +kernel
  rw [Source.ofTable_label parts] at found
  cases found
  decide

/-- Columns of a query name its alias with a prefix that FROM does not put before it. -/
theorem sub_not_resolved :
    ¬ (Source.sub { source := some (.ofTable "users") } "u").Resolves ⟨.postgres, "p_"⟩ := by
  intro resolves
  have kept := ((Source.sub_resolves_iff _ _ (by decide)).mp resolves).2.1
  have changed : "p_" ++ String.ofList (Text.trimLeft "u".toList) ≠ "u" := by decide +kernel
  exact changed kept

end Sqlwright
