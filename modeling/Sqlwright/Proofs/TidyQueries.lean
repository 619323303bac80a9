import Sqlwright.Proofs.Parentheses
import Sqlwright.Proofs.QualifiedNames

/-!
Queries without SQL of a caller's own. All of a tidy query, at every depth, is written from columns,
values and operators of the dialect, and no group of conditions in it is empty. So each part of it
is a phrase: whatever it opens in parentheses it fills and closes.
-/

namespace Sqlwright

def Ordering.isRaw : Ordering → Bool
  | .raw _ _ => true
  | .column _ _ => false

mutual

inductive Operand.Tidy (g : Grammar) : Operand → Prop where
  | value (v : Value) : Operand.Tidy g (.value v)
  | column (name : String) : Operand.Tidy g (.column name)
  | sub {query : Query} (tidy : query.Tidy g) : Operand.Tidy g (.sub query)

inductive Selection.Tidy (g : Grammar) : Selection → Prop where
  | column (reference : String) : Selection.Tidy g (.column reference)
  | sub {query : Query} (tidy : query.Tidy g) (label : String) : Selection.Tidy g (.sub query label)

inductive Source.Tidy (g : Grammar) : Source → Prop where
  | table (name : String) (label : Option String) : Source.Tidy g (.table name label)
  | sub {query : Query} (tidy : query.Tidy g) (label : String) : Source.Tidy g (.sub query label)

/-- A condition on columns, values and tidy queries, with operators of the dialect. -/
inductive Condition.Tidy (g : Grammar) : Condition → Prop where
  | compare (column : String) {operator : String} {value : Operand}
      (known : g.isOperator operator) (right : value.Tidy g) :
      Condition.Tidy g (.compare column operator value)
  | compareSub {query : Query} {operator : String} {value : Operand} (left : query.Tidy g)
      (known : g.isOperator operator) (right : value.Tidy g) :
      Condition.Tidy g (.compareSub query operator value)
  | columns (first second : String) {operator : String} (known : g.isOperator operator) :
      Condition.Tidy g (.columns first operator second)
  | null (column : String) (negated : Bool) : Condition.Tidy g (.null column negated)
  | between (column : String) {low high : Operand} (negated : Bool) (lower : low.Tidy g)
      (upper : high.Tidy g) : Condition.Tidy g (.between column low high negated)
  | among (column : String) {values : List Operand} (negated : Bool)
      (each : ∀ value ∈ values, value.Tidy g) : Condition.Tidy g (.among column values negated)
  | amongSub (column : String) {query : Query} (negated : Bool) (tidy : query.Tidy g) :
      Condition.Tidy g (.amongSub column query negated)
  | exists {query : Query} (negated : Bool) (tidy : query.Tidy g) :
      Condition.Tidy g (.exists query negated)
  | group {conditions : List Linked} (filled : conditions ≠ [])
      (each : ∀ linked ∈ conditions, linked.Tidy g) : Condition.Tidy g (.group conditions)
  | datePart (part : DatePart) (column : String) {operator : String} {value : Operand}
      (known : g.isOperator operator) (right : value.Tidy g) :
      Condition.Tidy g (.datePart part column operator value)

inductive Linked.Tidy (g : Grammar) : Linked → Prop where
  | mk (link : Connective) {condition : Condition} (tidy : condition.Tidy g) :
      Linked.Tidy g (.mk link condition)

inductive Query.Tidy (g : Grammar) : Query → Prop where
  | intro {q : Query} (columns : ∀ entry ∈ q.columns, entry.Tidy g)
      (source : ∀ source ∈ q.source, source.Tidy g) (joins : ∀ join ∈ q.joins, join.Known g)
      (wheres : ∀ linked ∈ q.wheres, linked.Tidy g) (havings : ∀ linked ∈ q.havings, linked.Tidy g)
      (orders : ∀ entry ∈ q.orders, ¬ entry.isRaw) : Query.Tidy g q

end

/-! ### Names and operators -/

namespace Grammar

variable (g : Grammar)

theorem flat_of_isOperator {g : Grammar} {operator : String} (known : g.isOperator operator) :
    operator.toList.all isFlat := by
  have table : ∀ special ∈ ['\x60', '\x22', '\x27', '(', ')'],
      Text.isBlank special = false ∧ special.toLower = special ∧
        ∀ listed ∈ g.dialect.operators, special ∉ listed.toList := by
    simp only [List.forall_mem_cons]
    refine ⟨?_, ?_, ?_, ?_, ?_, List.forall_mem_nil _⟩
    all_goals cases g.dialect <;> decide
  refine List.all_eq_true.mpr fun c member => decide_eq_true fun special => ?_
  obtain ⟨solid, lower, absent⟩ := table c special
  exact not_mem_of_isOperator known solid lower absent member

theorem segment_phrase (d : Dialect) (s : String) : Phrase d [segment s] := by
  unfold segment
  split
  · exact .word (by decide)
  · exact .name s

theorem dotted_ne_nil {segments : List Piece} (some : segments ≠ []) : dotted segments ≠ [] := by
  match segments with
  | [] => exact absurd rfl some
  | [only] => exact List.cons_ne_nil _ _
  | first :: second :: rest => exact List.cons_ne_nil _ _

theorem columnSegments_ne_nil {segments : List String} (some : segments ≠ []) :
    g.columnSegments segments ≠ [] := by
  match segments with
  | [] => exact absurd rfl some
  | [column] => exact List.cons_ne_nil _ _
  | [table, column] => exact List.cons_ne_nil _ _
  | qualifier :: table :: column :: rest => exact List.cons_ne_nil _ _

theorem segmentsOf_ne_nil (reference : List Char) : segmentsOf reference ≠ [] := by
  rw [segmentsOf, ne_eq, List.map_eq_nil_iff]
  exact Text.splitOn_ne_nil '.' _

/-- Names are phrases, token by token. -/
theorem tokens_phrases (d : Dialect) (tokens : List NameToken) :
    ∀ piece ∈ tokens.map NameToken.piece, Phrase d [piece] := by
  refine List.forall_mem_map.mpr fun token _ => ?_
  cases token with
  | ident s => exact .name s
  | star | point | comma | label => exact .word (by decide)

theorem column_phrase (reference : String) : Phrase g.dialect (g.column reference) := by
  refine .of_pieces ?_ ?_
  · rw [g.column_eq]
    exact tokens_phrases g.dialect _
  · exact List.append_ne_nil_of_left_ne_nil
      (dotted_ne_nil (g.columnSegments_ne_nil (segmentsOf_ne_nil _))) _

theorem table_phrase (reference : String) : Phrase g.dialect (g.table reference) := by
  refine .of_pieces ?_ ?_
  · rw [g.table_eq]
    exact tokens_phrases g.dialect _
  · exact List.append_ne_nil_of_left_ne_nil
      (dotted_ne_nil (g.tableSegments_ne_nil (segmentsOf_ne_nil _))) _

theorem comparison_phrase {operator : String} (known : g.isOperator operator)
    (first second : String) : Phrase g.dialect (g.comparison first operator second) :=
  (g.column_phrase first).between (flat_around (flat_of_isOperator known)) (g.column_phrase second)

/-! ### Clauses -/

theorem joinConditions_phrase {conditions : List JoinCondition} (some : conditions ≠ [])
    (known : ∀ condition ∈ conditions, g.isOperator condition.operator) :
    Phrase g.dialect (g.joinConditions conditions) := by
  cases conditions with
  | nil => exact absurd rfl some
  | cons first rest =>
    obtain ⟨here, later⟩ := List.forall_mem_cons.mp known
    refine (g.comparison_phrase here first.first first.second).chain fun condition member => ?_
    refine ⟨?_, g.comparison_phrase (later condition member) _ _⟩
    cases condition.connective <;> decide

theorem joinPiece_phrase {join : Join} (known : join.Known g) :
    Phrase g.dialect (g.joinPiece join) := by
  have table : Phrase g.dialect (.text (join.kind.words ++ " ") :: g.table join.table) :=
    (g.table_phrase join.table).behind (by cases join.kind <;> decide)
  unfold joinPiece
  split
  · simpa using table
  · next written =>
    have some : join.conditions ≠ [] := by
      intro none
      simp [none] at written
    exact table.between (by decide) (g.joinConditions_phrase some known)

theorem joinClause_phrase {joins : List Join} (known : ∀ join ∈ joins, join.Known g) :
    g.joinClause joins = [] ∨ Phrase g.dialect (g.joinClause joins) := by
  cases joins with
  | nil => exact .inl rfl
  | cons first rest =>
    refine .inr (.join (by decide) (List.forall_mem_map.mpr fun join member => ?_) ?_)
    · exact g.joinPiece_phrase (known join member)
    · exact List.cons_ne_nil _ _

theorem groupClause_phrase (groups : List String) :
    g.groupClause groups = [] ∨ Phrase g.dialect (g.groupClause groups) := by
  cases groups with
  | nil => exact .inl rfl
  | cons first rest =>
    have names : Phrase g.dialect (g.columnList (first :: rest)) :=
      .join (by decide) (List.forall_mem_map.mpr fun name _ => g.column_phrase name)
        (List.cons_ne_nil _ _)
    exact .inr (names.behind (by decide))

theorem orderClause_phrase {orders : List Ordering} (plain : ∀ entry ∈ orders, ¬ entry.isRaw) :
    g.orderClause orders = [] ∨ Phrase g.dialect (g.orderClause orders) := by
  cases orders with
  | nil => exact .inl rfl
  | cons first rest =>
    have each : ∀ entry ∈ first :: rest, Phrase g.dialect (g.orderingPieces entry) := by
      intro entry member
      cases entry with
      | column name direction =>
        exact (g.column_phrase name).followed (by cases direction <;> decide)
      | raw sql places => exact absurd rfl (plain _ member)
    have listed : Phrase g.dialect (joinPieces ", " ((first :: rest).map g.orderingPieces)) :=
      .join (by decide) (List.forall_mem_map.mpr each) (List.cons_ne_nil _ _)
    exact .inr (listed.behind (by decide))

end Grammar

namespace Dialect

variable (d : Dialect)

/-- A number between words. -/
theorem number_phrase {before behind : String} (opening : IsWords before)
    (closing : behind.toList.all isFlat) (n : Nat) :
    Phrase d [.text (before ++ toString n ++ behind)] := by
  refine .word ⟨?_, ?_⟩
  · rw [String.toList_append, String.toList_append, List.all_append, List.all_append, opening.1,
      isFlat_number, closing]
    rfl
  · simp [opening.2]

theorem counted_phrase {before : String} (opening : IsWords before) (n : Nat) :
    Phrase d [.text (before ++ toString n)] := by
  have whole : Phrase d [.text (before ++ toString n ++ "")] := d.number_phrase opening rfl n
  rwa [String.append_empty] at whole

theorem limitClause_phrase (limit offset : Option Nat) :
    d.limitClause limit offset = [] ∨ Phrase d (d.limitClause limit offset) := by
  have skipped (n : Nat) : Phrase d [.text ("offset " ++ toString n ++ " rows")] :=
    d.number_phrase (by decide) (by decide) n
  have fetched (n : Nat) : Phrase d [.text ("fetch next " ++ toString n ++ " rows only")] :=
    d.number_phrase (by decide) (by decide) n
  unfold limitClause
  split
  · cases offset with
    | none =>
      cases limit with
      | none => exact .inl rfl
      | some n => exact .inr (fetched n)
    | some n =>
      cases limit with
      | none => exact .inr (skipped n)
      | some rows => exact .inr ((skipped n).between (by decide) (fetched rows))
  · split
    · exact .inr (d.counted_phrase (by decide) _)
    · next count unlimited =>
      refine .inr (.word ?_)
      cases d <;> cases unlimited <;> decide
    · exact .inl rfl

theorem offsetClause_phrase (offset : Option Nat) :
    d.offsetClause offset = [] ∨ Phrase d (d.offsetClause offset) := by
  unfold offsetClause
  split
  · exact .inl rfl
  · exact .inr (d.counted_phrase (by decide) _)
  · exact .inl rfl

theorem lockClause_phrase (lock : Option Lock) :
    d.lockClause lock = [] ∨ Phrase d (d.lockClause lock) := by
  unfold lockClause
  split <;> first | exact .inl rfl | exact .inr (.word (by decide))

theorem emptySource_phrase : d.emptySource = [] ∨ Phrase d d.emptySource := by
  unfold emptySource
  split
  · exact .inr (.word (by decide))
  · exact .inl rfl

/-- `extract(part from column)` is a phrase around the column. -/
theorem extracted_phrase (part : DatePart) {column : List Piece} (named : Phrase d column) :
    Phrase d (extracted part column) := by
  have opening : ("extract(" ++ part.word ++ " from ").toList =
      "extract".toList ++ '(' :: (part.word ++ " from ").toList := by
    cases part <;> rfl
  have closing : ")".toList = [] ++ ')' :: [] := rfl
  refine named.enclosed opening closing ⟨⟨by decide, ?_⟩, rfl, rfl⟩
  cases part <;> decide

theorem datePart_phrase (part : DatePart) {column value : List Piece} {operator : String}
    (flat : operator.toList.all isFlat) (named : Phrase d column) (right : Phrase d value) :
    Phrase d (d.datePart part column operator value) := by
  cases d with
  | mysql =>
    have opening : (part.word ++ "(").toList = part.word.toList ++ '(' :: [] := by simp
    have closing : (")" ++ operator).toList = [] ++ ')' :: operator.toList := by simp
    have test := named.enclosed opening closing ⟨⟨by cases part <;> decide, rfl⟩, rfl, flat⟩
    simpa [datePart] using test.append right
  | sqlite =>
    have between : (") " ++ operator ++ " cast(").toList =
        ([] ++ ')' :: []) ++ ((" " ++ operator ++ " cast").toList ++ '(' :: []) := by simp
    have cast : (" " ++ operator ++ " cast").toList.all isFlat := by
      rw [String.toList_append, String.toList_append, List.all_append, List.all_append, flat]
      rfl
    have arguments : Phrase .sqlite (.literal (sqliteFormat part) :: .text "," :: column) :=
      (Phrase.literal _).between (by decide) named
    have first : "strftime(".toList = "strftime".toList ++ '(' :: [] := rfl
    have last : " as text)".toList = " as text".toList ++ ')' :: [] := rfl
    intro depth fresh
    have opened := (leads_opening first ⟨by decide, rfl⟩ depth fresh).append (arguments _ _)
    -- one word closes the first call and opens the second
    have turned : Leads .sqlite [.text (") " ++ operator ++ " cast(")] { depth := depth + 1 }
        { depth := depth + 1, fresh := true } :=
      leads_text (between ▸ Text.nest?_trans (Text.nest?_closing ⟨rfl, rfl⟩ depth)
        (Text.nest?_opening ⟨cast, rfl⟩ depth false))
    have closed := (right (depth + 1) true).append (leads_closing last ⟨by decide, rfl⟩ depth)
    simpa [datePart] using (opened.append turned).append closed
  | hana =>
    have opening : (hanaFunction part ++ "(").toList = (hanaFunction part).toList ++ '(' :: [] := by
      simp
    have closing : (") " ++ operator ++ " ").toList =
        [] ++ ')' :: (" " ++ operator ++ " ").toList := by simp
    have test := named.enclosed opening closing
      ⟨⟨by cases part <;> decide, rfl⟩, rfl, flat_around flat⟩
    simpa [datePart] using test.append right
  | postgres =>
    cases part with
    | date | time =>
      refine named.between ?_ right
      rw [String.toList_append, List.all_append, flat]
      rfl
    | year | month | day => exact (extracted_phrase .postgres _ named).between flat right
  | generic =>
    cases part with
    | date | time =>
      have opening : "cast(".toList = "cast".toList ++ '(' :: [] := rfl
      have test (word : String) (worded : (" as " ++ word).toList.all isFlat) : Phrase .generic
          (.text "cast(" :: column ++ .text (" as " ++ word ++ ") " ++ operator ++ " ") ::
            value) := by
        have closing : (" as " ++ word ++ ") " ++ operator ++ " ").toList =
            (" as " ++ word).toList ++ ')' :: (" " ++ operator ++ " ").toList := by simp
        have cast := named.enclosed opening closing
          ⟨⟨by decide, rfl⟩, worded, flat_around flat⟩
        simpa using cast.append right
      exact test _ (by decide)
    | year | month | day =>
      exact (extracted_phrase .generic _ named).between (flat_around flat) right

end Dialect

/-! ### Queries -/

/-- Conditions that are phrases, behind each other. -/
theorem Linked.first_phrase {g : Grammar} {conditions : List Linked} (some : conditions ≠ [])
    (each : ∀ linked ∈ conditions, Phrase g.dialect (linked.condition.pieces g)) :
    Phrase g.dialect (Linked.first g conditions) := by
  have others (conditions : List Linked) : Linked.others g conditions =
      conditions.flatMap fun linked =>
        .text (" " ++ linked.connective.word ++ " ") :: linked.condition.pieces g := by
    induction conditions with
    | nil => rfl
    | cons linked rest ih =>
      cases linked with
      | mk link condition =>
        rw [Linked.others, ih]
        rfl
  match conditions with
  | [] => exact absurd rfl some
  | .mk link condition :: rest =>
    obtain ⟨here, later⟩ := List.forall_mem_cons.mp each
    rw [Linked.first, others]
    refine Phrase.chain here fun linked member => ⟨?_, later linked member⟩
    cases linked.connective <;> decide

theorem Linked.clause_phrase {g : Grammar} {keyword : String} (words : IsWords keyword)
    {conditions : List Linked}
    (each : ∀ linked ∈ conditions, Phrase g.dialect (linked.condition.pieces g)) :
    Linked.clause g keyword conditions = [] ∨
      Phrase g.dialect (Linked.clause g keyword conditions) := by
  rw [Linked.clause_eq]
  split
  · exact .inl rfl
  · next some =>
    have filled : conditions ≠ [] := by simpa using some
    exact .inr ((Linked.first_phrase filled each).behind words)

/-- Values in parentheses, or a constant where there is none. -/
theorem Condition.among_phrase {g : Grammar} (column : String) (negated : Bool)
    {values : List Operand} (each : ∀ value ∈ values, Phrase g.dialect (value.pieces g)) :
    Phrase g.dialect ((Condition.among column values negated).pieces g) := by
  cases values with
  | nil =>
    rw [Condition.pieces]
    exact .word (by cases negated <;> decide)
  | cons value more =>
    have list : Phrase g.dialect (joinPieces "," (value.pieces g :: Operand.parts g more)) := by
      rw [Operand.parts_eq_map, ← List.map_cons]
      exact .join (by decide) (List.forall_mem_map.mpr each) (List.cons_ne_nil _ _)
    rw [Condition.pieces]
    exact (g.column_phrase column).between (by cases negated <;> decide) list.parenthesised

/-- A query whose entries are phrases is a phrase. -/
theorem Query.phrase_of_clauses {g : Grammar} {q : Query}
    (columns : ∀ entry ∈ q.columns, Phrase g.dialect (entry.pieces g))
    (source : ∀ source ∈ q.source, Phrase g.dialect (source.pieces g))
    (joins : ∀ join ∈ q.joins, join.Known g)
    (wheres : ∀ linked ∈ q.wheres, Phrase g.dialect (linked.condition.pieces g))
    (havings : ∀ linked ∈ q.havings, Phrase g.dialect (linked.condition.pieces g))
    (orders : ∀ entry ∈ q.orders, ¬ entry.isRaw) : Phrase g.dialect (q.pieces g) := by
  have list : Phrase g.dialect
      (if q.columns.isEmpty then [.text "*"]
      else joinPieces ", " (Selection.parts g q.columns)) := by
    split
    · exact .word (by decide)
    · next some =>
      rw [Selection.parts_eq_map]
      refine .join (by decide) (List.forall_mem_map.mpr columns) ?_
      simpa using some
  have head := list.behind (w := if q.distinct then "select distinct " else "select ")
    (by cases q.distinct <;> decide)
  have sourced : Source.clause g q.source = [] ∨ Phrase g.dialect (Source.clause g q.source) := by
    cases given : q.source with
    | none => exact g.dialect.emptySource_phrase
    | some found =>
      rw [Source.clause]
      exact .inr ((source found given).behind (by decide))
  rw [Query.pieces, Outline.pieces, outline_eq]
  refine head.sentence (List.cons_ne_nil _ _) (List.forall_iff_forall_mem.mp ?_)
  exact ⟨sourced, g.joinClause_phrase joins, Linked.clause_phrase (by decide) wheres,
    g.groupClause_phrase q.groups, Linked.clause_phrase (by decide) havings,
    g.orderClause_phrase orders, g.dialect.limitClause_phrase q.limit q.offset,
    g.dialect.offsetClause_phrase q.offset, g.dialect.lockClause_phrase q.lock⟩

/-- A query in parentheses under a name. -/
theorem labelled_phrase {d : Dialect} {inner : List Piece} (said : Phrase d inner)
    (label : String) :
    Phrase d (parenthesised inner ++ [.text " as ", Grammar.segment label]) :=
  said.parenthesised.between (by decide) (Grammar.segment_phrase d label)

section Tidy

variable {g : Grammar}

mutual

theorem Operand.Tidy.phrase {operand : Operand} (tidy : operand.Tidy g) :
    Phrase g.dialect (operand.pieces g) := by
  match tidy with
  | .value v =>
    rw [Operand.pieces]
    exact .place v
  | .column name =>
    rw [Operand.pieces]
    exact g.column_phrase name
  | .sub inner =>
    rw [Operand.pieces]
    exact (Query.Tidy.phrase inner).parenthesised
termination_by structural tidy

theorem Selection.Tidy.phrase {entry : Selection} (tidy : entry.Tidy g) :
    Phrase g.dialect (entry.pieces g) := by
  match tidy with
  | .column reference =>
    rw [Selection.pieces]
    exact g.column_phrase reference
  | .sub inner label =>
    rw [Selection.pieces]
    exact labelled_phrase (Query.Tidy.phrase inner) label
termination_by structural tidy

theorem Source.Tidy.phrase {source : Source} (tidy : source.Tidy g) :
    Phrase g.dialect (source.pieces g) := by
  match tidy with
  | .table name none =>
    rw [Source.pieces]
    exact g.table_phrase name
  | .table name (some label) =>
    rw [Source.pieces]
    exact (g.table_phrase name).between (by decide) (Grammar.segment_phrase g.dialect _)
  | .sub inner label =>
    rw [Source.pieces]
    exact labelled_phrase (Query.Tidy.phrase inner) label
termination_by structural tidy

/-- All that a condition opens in parentheses it fills and closes. -/
theorem Condition.Tidy.phrase {condition : Condition} (tidy : condition.Tidy g) :
    Phrase g.dialect (condition.pieces g) := by
  match tidy with
  | .compare column known right =>
    rw [Condition.pieces]
    exact (g.column_phrase column).between (flat_around (Grammar.flat_of_isOperator known))
      right.phrase
  | .compareSub left known right =>
    rw [Condition.pieces]
    exact (Query.Tidy.phrase left).parenthesised.between
      (flat_around (Grammar.flat_of_isOperator known)) right.phrase
  | .columns first second known =>
    rw [Condition.pieces]
    exact g.comparison_phrase known first second
  | .null column negated =>
    rw [Condition.pieces]
    exact (g.column_phrase column).followed (by cases negated <;> decide)
  | .between column negated lower upper =>
    rw [Condition.pieces]
    exact ((g.column_phrase column).between (by cases negated <;> decide) lower.phrase).between
      (by decide) upper.phrase
  | .among column negated each =>
    exact Condition.among_phrase column negated fun value member => (each value member).phrase
  | .amongSub column negated inner =>
    rw [Condition.pieces]
    exact (g.column_phrase column).between (by cases negated <;> decide)
      (Query.Tidy.phrase inner).parenthesised
  | .exists negated inner =>
    rw [Condition.pieces]
    exact (Query.Tidy.phrase inner).parenthesised.behind (by cases negated <;> decide)
  | .group filled each =>
    rw [Condition.pieces]
    exact (Linked.first_phrase filled fun linked member =>
      Linked.Tidy.phrase (each linked member)).parenthesised
  | .datePart part column known right =>
    rw [Condition.pieces]
    exact g.dialect.datePart_phrase part (Grammar.flat_of_isOperator known)
      (g.column_phrase column) right.phrase
termination_by structural tidy

theorem Linked.Tidy.phrase {linked : Linked} (tidy : linked.Tidy g) :
    Phrase g.dialect (linked.condition.pieces g) := by
  match tidy with
  | .mk link inner => exact Condition.Tidy.phrase inner
termination_by structural tidy

theorem Query.Tidy.phrase {q : Query} (tidy : q.Tidy g) : Phrase g.dialect (q.pieces g) := by
  match tidy with
  | .intro columns sourced joins wheres havings orders =>
    exact Query.phrase_of_clauses (fun entry member => (columns entry member).phrase)
      (fun source member => (sourced source member).phrase) joins
      (fun linked member => (wheres linked member).phrase)
      (fun linked member => (havings linked member).phrase) orders
termination_by structural tidy

end

end Tidy

end Sqlwright
