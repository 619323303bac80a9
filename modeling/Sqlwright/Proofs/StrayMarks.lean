import Sqlwright.Proofs.KnownOperators
import Sqlwright.Proofs.UnquotedText

/-!
Question marks outside quotes. Where places are not numbered, a driver finds them as the question
marks that stand outside quotes. A SELECT without SQL of the caller's own writes one for each of its
values, and beyond these just those that its operators hold. HANA lets operators through that hold
one, and no other dialect does.
-/

namespace Sqlwright

/-! ### Queries without raw SQL -/

def Operand.isRaw : Operand → Bool
  | .raw _ => true
  | .value _ | .column _ | .sub _ => false

mutual

/-- The operands that a condition is written with, also inside a group. -/
def Condition.operands : Condition → List Operand
  | .compare _ _ value | .compareSub _ _ value | .datePart _ _ _ value => [value]
  | .between _ low high _ => [low, high]
  | .among _ values _ => values
  | .columns _ _ _ | .null _ _ | .amongSub _ _ _ | .exists _ _ | .raw _ _ => []
  | .group conditions => Linked.operands conditions

def Linked.operands : List Linked → List Operand
  | [] => []
  | .mk _ condition :: rest => condition.operands ++ Linked.operands rest

end

/-- The operators of the comparisons that a join is written with; a cross join writes none. -/
def Join.operators (join : Join) : List String :=
  if join.kind = .cross then [] else join.conditions.map (·.operator)

namespace Query

/-- The clauses of a query hold no SQL that is written as it is. -/
structure WithoutRaw (q : Query) : Prop where
  fragments : q.fragments = []
  operands : ∀ operand ∈ Linked.operands q.wheres ++ Linked.operands q.havings, ¬ operand.isRaw

/-- The operators that the clauses of a query are written with. -/
def operators (q : Query) : List String :=
  q.joins.flatMap Join.operators ++ Linked.operators q.wheres ++ Linked.operators q.havings

end Query

/-! ### Operators of a dialect -/

namespace Grammar

variable {g : Grammar} {operator : String} {c : Char}

/-- A character that is in none of the operators of a dialect is in none that it lets through. -/
theorem not_mem_of_isOperator (known : g.isOperator operator) (solid : Text.isBlank c = false)
    (lower : c.toLower = c) (absent : ∀ listed ∈ g.dialect.operators, c ∉ listed.toList) :
    c ∉ operator.toList := by
  intro member
  have listed : (Text.trim operator).toLower ∈ g.dialect.operators := by
    simpa [isOperator] using known
  have trimmed : c ∈ Text.trimChars operator.toList := by
    have count := Text.count_trimChars solid operator.toList
    exact List.count_pos_iff.mp (count ▸ List.count_pos_iff.mpr member)
  have lowered : (Text.trim operator).toLower = (Text.trim operator).map Char.toLower := rfl
  apply absent _ listed
  rw [lowered, String.toList_map, Text.trim, String.toList_ofList]
  exact List.mem_map.mpr ⟨c, trimmed, lower⟩

theorem bare_of_isOperator (known : g.isOperator operator) :
    ∀ c ∈ operator.toList, c ∉ g.dialect.quotes := by
  intro c member quote
  have special : c ∈ ['\x60', '\x22', '\x27'] := by
    have listed (d : Dialect) : d.quotes ⊆ ['\x60', '\x22', '\x27'] := by cases d <;> decide
    exact listed g.dialect quote
  have table : ∀ q ∈ ['\x60', '\x22', '\x27'], Text.isBlank q = false ∧ q.toLower = q ∧
      ∀ listed ∈ g.dialect.operators, q ∉ listed.toList := by
    simp only [List.forall_mem_cons]
    refine ⟨?_, ?_, ?_, List.forall_mem_nil _⟩
    all_goals cases g.dialect <;> decide
  obtain ⟨solid, lower, absent⟩ := table c special
  exact not_mem_of_isOperator known solid lower absent member

/-- Only HANA has operators with a question mark. -/
theorem unmarked_of_isOperator (known : g.isOperator operator) (other : g.dialect ≠ .hana) :
    '?' ∉ operator.toList := by
  have absent : ∀ listed ∈ g.dialect.operators, '?' ∉ listed.toList := by
    cases found : g.dialect with
    | hana => exact absurd found other
    | generic | mysql | postgres | sqlite => decide
  exact not_mem_of_isOperator known (by decide) (by decide) absent

end Grammar

/-! ### Words of the clauses -/

section Words

variable {g : Grammar} {ok : Char → Prop} (plain : ∀ c, isPlain c → ok c)
include plain

theorem Grammar.says_comparison (g : Grammar) (first operator second : String) :
    Says ok (g.comparison first operator second) ↔ ∀ c ∈ operator.toList, ok c := by
  rw [comparison, says_append, says_between plain (by decide) (by decide)]
  simp only [says_column plain, true_and, and_true]

theorem Grammar.says_joinConditions (g : Grammar) (conditions : List JoinCondition) :
    Says ok (g.joinConditions conditions) ↔
      ∀ operator ∈ conditions.map (·.operator), ∀ c ∈ operator.toList, ok c := by
  cases conditions with
  | nil => simpa [joinConditions] using says_nil
  | cons first rest =>
    have each (condition : JoinCondition) : Says ok
        (.text (" " ++ condition.connective.word ++ " ") ::
          g.comparison condition.first condition.operator condition.second) ↔
        ∀ c ∈ condition.operator.toList, ok c := by
      rw [says_word plain (by cases condition.connective <;> decide), says_comparison plain]
    rw [joinConditions, says_append, says_comparison plain, says_flatMap, List.forall_mem_map,
      List.forall_mem_cons]
    exact and_congr_right fun _ => forall₂_congr fun condition _ => each condition

theorem Grammar.says_joinClause (g : Grammar) (joins : List Join) :
    Says ok (g.joinClause joins) ↔
      ∀ operator ∈ joins.flatMap Join.operators, ∀ c ∈ operator.toList, ok c := by
  have each (join : Join) : Says ok (g.joinPiece join) ↔
      ∀ operator ∈ join.operators, ∀ c ∈ operator.toList, ok c := by
    rw [joinPiece, says_append, says_word plain (by cases join.kind <;> decide),
      and_iff_right (says_table plain g _), Join.operators]
    by_cases cross : join.kind = .cross
    · simpa [cross] using says_nil
    · cases shape : join.conditions with
      | nil => simpa [cross] using says_nil
      | cons condition rest =>
        simp only [cross, decide_false, List.isEmpty_cons, Bool.or_false, Bool.false_eq_true,
          if_false]
        rw [says_word plain (by decide), says_joinConditions plain]
  rw [joinClause, says_join_map plain (by decide)]
  simp only [each, List.mem_flatMap, forall_exists_index, and_imp]
  exact ⟨fun all operator join member inside => all join member operator inside,
    fun all join member operator inside => all operator join member inside⟩

theorem Operand.says_pieces (operand : Operand) (unraw : ¬ operand.isRaw) :
    Says ok (operand.pieces g) ↔ ∀ s ∈ operand.subqueries, Says ok (s.pieces g) := by
  cases operand with
  | value v =>
    rw [Operand.pieces]
    exact iff_of_true (says_of_words_nil rfl) (List.forall_mem_nil _)
  | raw sql => exact absurd rfl unraw
  | column name =>
    rw [Operand.pieces]
    exact iff_of_true (says_column plain g name) (List.forall_mem_nil _)
  | sub query =>
    have only : (∀ s ∈ [query], Says ok (s.pieces g)) ↔ Says ok (query.pieces g) :=
      List.forall_mem_singleton
    rw [Operand.pieces, says_parenthesised plain]
    exact only.symm

theorem Dialect.says_datePart (d : Dialect) (part : DatePart) {column value : List Piece}
    (operator : String) (names : Says ok column) :
    Says ok (d.datePart part column operator value) ↔
      (∀ c ∈ operator.toList, ok c) ∧ Says ok value := by
  have extracted : Says ok (extracted part column) := by
    rw [Dialect.extracted, List.cons_append, says_word plain (by cases part <;> decide),
      says_append]
    exact ⟨names, (says_word plain (by decide)).mpr says_nil⟩
  cases d with
  | mysql =>
    rw [datePart, List.cons_append, says_word plain (by cases part <;> decide), says_append,
      says_behind plain (by decide)]
    exact and_iff_right names
  | sqlite =>
    have opening : Says ok
        (.text "strftime(" :: .literal (sqliteFormat part) :: .text "," :: column) := by
      rw [says_word plain (by decide), says_cons, says_word plain (by decide)]
      exact ⟨says_of_words_nil rfl, names⟩
    have closing : Says ok [.text " as text)"] := (says_word plain (by decide)).mpr says_nil
    rw [datePart, says_append, and_iff_left closing, says_append, and_iff_right opening,
      says_between plain (by decide) (by decide)]
  | hana =>
    rw [datePart, List.cons_append, says_word plain (by cases part <;> decide), says_append,
      says_between plain (by decide) (by decide)]
    exact and_iff_right names
  | postgres =>
    cases part with
    | date | time =>
      rw [datePart, says_append, says_behind plain (by decide)]
      exact and_iff_right names
    | year | month | day =>
      rw [datePart, says_append, says_cons, says_text]
      exact and_iff_right extracted
  | generic =>
    cases part with
    | date | time =>
      rw [datePart, List.cons_append, says_word plain (by decide), says_append,
        says_between plain (by decide) (by decide)]
      exact and_iff_right names
    | year | month | day =>
      rw [datePart, says_append, says_between plain (by decide) (by decide)]
      exact and_iff_right extracted

omit plain in
private theorem without_operators {inside : Prop} :
    ((∀ operator ∈ ([] : List String), ∀ c ∈ operator.toList, ok c) ∧ inside) ↔ inside :=
  and_iff_right (List.forall_mem_nil _)

mutual

/-- A condition says what its operators and the queries inside it say. -/
theorem Condition.says_pieces (condition : Condition)
    (unraw : ∀ operand ∈ condition.operands, ¬ operand.isRaw) :
    Says ok (condition.pieces g) ↔ (∀ operator ∈ condition.operators, ∀ c ∈ operator.toList, ok c) ∧
      ∀ s ∈ condition.subqueries, Says ok (s.pieces g) := by
  match condition with
  | .compare column operator value =>
    have right := value.says_pieces (g := g) plain (unraw value List.mem_cons_self)
    rw [Condition.pieces, says_append, says_between plain (by decide) (by decide), right,
      and_iff_right (says_column plain g column)]
    simp [Condition.operators, Condition.subqueries]
  | .compareSub query operator value =>
    have right := value.says_pieces (g := g) plain (unraw value List.mem_cons_self)
    rw [Condition.pieces, says_append, says_between plain (by decide) (by decide), right,
      says_parenthesised plain]
    simp only [Condition.operators, Condition.subqueries, List.forall_mem_cons, List.not_mem_nil,
      false_implies, implies_true, and_true]
    exact and_left_comm
  | .columns first operator second =>
    rw [Condition.pieces, Grammar.says_comparison plain]
    simp [Condition.operators, Condition.subqueries]
  | .null column negated =>
    rw [Condition.pieces, says_append, says_word plain (by cases negated <;> decide)]
    exact iff_of_true ⟨says_column plain g column, says_nil⟩
      (by simp [Condition.operators, Condition.subqueries])
  | .between column low high negated =>
    have left := low.says_pieces (g := g) plain (unraw low List.mem_cons_self)
    have right := high.says_pieces (g := g) plain
      (unraw high (List.mem_cons_of_mem _ List.mem_cons_self))
    rw [Condition.pieces, says_append, says_append, says_word plain (by cases negated <;> decide),
      says_word plain (by decide), left, right, and_iff_right (says_column plain g column)]
    rw [Condition.operators, Condition.subqueries, without_operators, List.forall_mem_append]
  | .among column [] negated =>
    rw [Condition.pieces, says_word plain (by cases negated <;> decide)]
    exact iff_of_true says_nil (by simp [Condition.operators, Condition.subqueries])
  | .among column (value :: values) negated =>
    have each (operand : Operand) (member : operand ∈ value :: values) :=
      operand.says_pieces (g := g) plain (unraw operand member)
    rw [Condition.pieces, Operand.parts_eq_map, ← List.map_cons, says_append,
      says_word plain (by cases negated <;> decide), says_parenthesised plain,
      says_join_map plain (by decide), and_iff_right (says_column plain g column),
      forall₂_congr each]
    rw [Condition.operators, Condition.subqueries, without_operators, List.forall_mem_flatMap]
  | .amongSub column query negated =>
    rw [Condition.pieces, says_append, says_word plain (by cases negated <;> decide),
      says_parenthesised plain, and_iff_right (says_column plain g column)]
    rw [Condition.operators, Condition.subqueries, without_operators, List.forall_mem_singleton]
    rfl
  | .exists query negated =>
    rw [Condition.pieces, says_word plain (by cases negated <;> decide), says_parenthesised plain]
    rw [Condition.operators, Condition.subqueries, without_operators, List.forall_mem_singleton]
    rfl
  | .raw sql places =>
    rw [Condition.pieces]
    exact iff_of_true (says_of_words_nil rfl) (by simp [Condition.operators, Condition.subqueries])
  | .group conditions =>
    rw [Condition.pieces, says_parenthesised plain]
    exact (Linked.says_pieces conditions unraw).1
  | .datePart part column operator value =>
    have right := value.says_pieces (g := g) plain (unraw value List.mem_cons_self)
    rw [Condition.pieces, Dialect.says_datePart plain _ _ _ (says_column plain g column), right]
    simp [Condition.operators, Condition.subqueries]

theorem Linked.says_pieces (conditions : List Linked)
    (unraw : ∀ operand ∈ Linked.operands conditions, ¬ operand.isRaw) :
    (Says ok (Linked.first g conditions) ↔
        (∀ operator ∈ Linked.operators conditions, ∀ c ∈ operator.toList, ok c) ∧
          ∀ s ∈ Linked.subqueries conditions, Says ok (s.pieces g)) ∧
      (Says ok (Linked.others g conditions) ↔
        (∀ operator ∈ Linked.operators conditions, ∀ c ∈ operator.toList, ok c) ∧
          ∀ s ∈ Linked.subqueries conditions, Says ok (s.pieces g)) := by
  match conditions with
  | [] =>
    have none : (∀ operator ∈ Linked.operators [], ∀ c ∈ operator.toList, ok c) ∧
        ∀ s ∈ Linked.subqueries [], Says ok (s.pieces g) :=
      ⟨List.forall_mem_nil _, List.forall_mem_nil _⟩
    exact ⟨iff_of_true says_nil none, iff_of_true says_nil none⟩
  | .mk link condition :: rest =>
    obtain ⟨here, behind⟩ := List.forall_mem_append.mp unraw
    have head := Condition.says_pieces condition here
    have tail := (Linked.says_pieces rest behind).2
    have whole : Says ok (condition.pieces g ++ Linked.others g rest) ↔
        (∀ operator ∈ condition.operators ++ Linked.operators rest,
            ∀ c ∈ operator.toList, ok c) ∧
          ∀ s ∈ condition.subqueries ++ Linked.subqueries rest, Says ok (s.pieces g) := by
      rw [says_append, head, tail, List.forall_mem_append, List.forall_mem_append]
      exact and_and_and_comm
    refine ⟨whole, ?_⟩
    rw [Linked.others, List.cons_append, says_word plain (by cases link <;> decide)]
    exact whole

end

theorem Linked.says_clause (keyword : String) (fixed : keyword.toList.all isPlain)
    {conditions : List Linked} (unraw : ∀ operand ∈ Linked.operands conditions, ¬ operand.isRaw) :
    Says ok (Linked.clause g keyword conditions) ↔
      (∀ operator ∈ Linked.operators conditions, ∀ c ∈ operator.toList, ok c) ∧
        ∀ s ∈ Linked.subqueries conditions, Says ok (s.pieces g) := by
  rw [← (Linked.says_pieces plain conditions unraw).1, Linked.clause_eq]
  split
  · next empty => rw [List.isEmpty_iff.mp empty, Linked.first]
  · exact says_word plain fixed

/-- A query in parentheses under a name. -/
theorem says_labelled {inner : List Piece} (label : String) :
    Says ok (parenthesised inner ++ [.text " as ", Grammar.segment label]) ↔ Says ok inner := by
  rw [says_append, says_parenthesised plain, says_word plain (by decide)]
  exact and_iff_left (says_segment plain label)

theorem Selection.says_pieces (entry : Selection) :
    Says ok (entry.pieces g) ↔ ∀ s ∈ entry.subqueries, Says ok (s.pieces g) := by
  cases entry with
  | column reference =>
    rw [Selection.pieces]
    exact iff_of_true (says_column plain g reference) (List.forall_mem_nil _)
  | raw sql places =>
    rw [Selection.pieces]
    exact iff_of_true (says_of_words_nil rfl) (List.forall_mem_nil _)
  | sub query label =>
    rw [Selection.pieces, says_labelled plain, Selection.subqueries, List.forall_mem_singleton]
    rfl

theorem Source.says_clause (source : Option Source) :
    Says ok (Source.clause g source) ↔
      ∀ s ∈ source.toList.flatMap Source.subqueries, Says ok (s.pieces g) := by
  cases source with
  | none =>
    refine iff_of_true ?_ (List.forall_mem_nil _)
    rw [Source.clause]
    unfold Dialect.emptySource
    split
    · exact (says_word plain (by decide)).mpr says_nil
    · exact says_nil
  | some source =>
    rw [Source.clause, says_word plain (by decide), Option.toList_some, List.flatMap_singleton]
    cases source with
    | table name label =>
      refine iff_of_true ?_ (List.forall_mem_nil _)
      cases label with
      | none =>
        rw [Source.pieces]
        exact says_table plain g name
      | some label =>
        rw [Source.pieces, says_append, says_word plain (by decide)]
        exact ⟨says_table plain g name, says_segment plain _⟩
    | sub query label =>
      rw [Source.pieces, says_labelled plain, Source.subqueries, List.forall_mem_singleton]
      rfl

theorem Grammar.says_orderClause (g : Grammar) (orders : List Ordering) :
    Says ok (g.orderClause orders) := by
  unfold orderClause
  split
  · exact says_nil
  · rw [says_word plain (by decide), says_join_map plain (by decide)]
    intro entry _
    cases entry with
    | column name direction =>
      rw [orderingPieces, says_append, says_word plain (by cases direction <;> decide)]
      exact ⟨says_column plain g name, says_nil⟩
    | raw sql places => exact says_of_words_nil rfl

theorem Grammar.says_groupClause (g : Grammar) (groups : List String) :
    Says ok (g.groupClause groups) := by
  unfold groupClause
  split
  · exact says_nil
  · exact (says_word plain (by decide)).mpr (says_columnList plain g groups)

/-- A number behind fixed words. -/
theorem says_number {before : String} (opening : before.toList.all isPlain) (n : Nat) :
    Says ok [.text (before ++ toString n)] := by
  refine (says_behind plain opening).mpr ⟨fun c member => ?_, says_nil⟩
  exact plain c (List.all_eq_true.mp (isPlain_number n) c member)

theorem Dialect.says_limitClause (d : Dialect) (limit offset : Option Nat) :
    Says ok (d.limitClause limit offset) := by
  have number {before behind : String} (opening : before.toList.all isPlain)
      (closing : behind.toList.all isPlain) (n : Nat) :
      Says ok [.text (before ++ toString n ++ behind)] := by
    refine (says_between plain opening closing).mpr ⟨fun c member => ?_, says_nil⟩
    exact plain c (List.all_eq_true.mp (isPlain_number n) c member)
  unfold limitClause
  split
  · rw [says_sentence plain, List.forall_mem_cons, List.forall_mem_singleton]
    constructor
    · cases offset with
      | none => exact says_nil
      | some n => exact number (by decide) (by decide) n
    · cases limit with
      | none => exact says_nil
      | some n => exact number (by decide) (by decide) n
  · split
    · exact says_number plain (by decide) _
    · next count unlimited =>
      refine (says_word plain ?_).mpr says_nil
      cases d <;> cases unlimited <;> decide
    · exact says_nil

theorem Dialect.says_offsetClause (d : Dialect) (offset : Option Nat) :
    Says ok (d.offsetClause offset) := by
  unfold offsetClause
  split
  · exact says_nil
  · exact says_number plain (by decide) _
  · exact says_nil

theorem Dialect.says_lockClause (d : Dialect) (lock : Option Lock) :
    Says ok (d.lockClause lock) := by
  unfold lockClause
  split <;> first | exact says_nil | exact (says_word plain (by decide)).mpr says_nil

namespace Query

/-- A query says what its operators and the queries inside it say. -/
theorem says_pieces {q : Query} (unraw : q.WithoutRaw) :
    Says ok (q.pieces g) ↔ (∀ operator ∈ q.operators, ∀ c ∈ operator.toList, ok c) ∧
      ∀ s ∈ q.subqueries, Says ok (s.pieces g) := by
  obtain ⟨inWheres, inHavings⟩ := List.forall_mem_append.mp unraw.operands
  have head : Says ok (q.outline g).head ↔
      ∀ s ∈ q.columns.flatMap Selection.subqueries, Says ok (s.pieces g) := by
    rw [outline_eq, says_word plain (by cases q.distinct <;> decide), Selection.parts_eq_map,
      List.forall_mem_flatMap]
    split
    · next empty =>
      rw [List.isEmpty_iff.mp empty]
      exact iff_of_true ((says_word plain (by decide)).mpr says_nil) (List.forall_mem_nil _)
    · rw [says_join_map plain (by decide)]
      exact forall₂_congr fun entry _ => entry.says_pieces plain
  have wheres := Linked.says_clause (g := g) plain "where " (by decide) inWheres
  have havings := Linked.says_clause (g := g) plain "having " (by decide) inHavings
  rw [pieces, Outline.pieces, says_sentence plain, List.forall_mem_cons, head, outline_eq]
  simp only [List.forall_mem_cons, Source.says_clause plain, g.says_joinClause plain, wheres,
    havings, g.says_groupClause plain, g.says_orderClause plain, g.dialect.says_limitClause plain,
    g.dialect.says_offsetClause plain, g.dialect.says_lockClause plain, operators, subqueries,
    List.forall_mem_append]
  constructor
  · rintro ⟨columns, source, joins, ⟨wheres, inWheres⟩, -, ⟨havings, inHavings⟩, -⟩
    exact ⟨⟨⟨joins, wheres⟩, havings⟩, ⟨⟨columns, source⟩, inWheres⟩, inHavings⟩
  · rintro ⟨⟨⟨joins, wheres⟩, havings⟩, ⟨⟨columns, source⟩, inWheres⟩, inHavings⟩
    exact ⟨columns, source, joins, ⟨wheres, inWheres⟩, trivial, ⟨havings, inHavings⟩, trivial,
      trivial, trivial, trivial, List.forall_mem_nil _⟩

end Query

end Words

namespace Query

variable {g : Grammar} {q : Query}

theorem OperatorsKnown.all (known : q.OperatorsKnown g) :
    ∀ operator ∈ q.operators, g.isOperator operator := by
  refine List.forall_mem_append.mpr ⟨List.forall_mem_append.mpr ⟨?_, known.wheres⟩, known.havings⟩
  intro operator member
  obtain ⟨join, joined, inside⟩ := List.mem_flatMap.mp member
  rw [Join.operators] at inside
  split at inside
  · cases inside
  · obtain ⟨condition, present, rfl⟩ := List.mem_map.mp inside
    exact known.joins join joined condition present

/-- No quote stands in the words of a query whose operators are known. -/
theorem Everywhere.bare (unraw : q.Everywhere WithoutRaw)
    (known : q.Everywhere (OperatorsKnown g)) :
    Says (· ∉ g.dialect.quotes) (q.pieces g) := by
  have plain : ∀ c, isPlain c → c ∉ g.dialect.quotes := fun c fixed =>
    not_mem_quotes_of_isPlain fixed g.dialect
  induction unraw with
  | intro here _ ih =>
    refine (says_pieces plain here).mpr ⟨fun operator member => ?_, fun s member => ?_⟩
    · exact Grammar.bare_of_isOperator (known.here.all operator member)
    · exact ih s member (known.inside s member)

/-- Question marks among the words of a query are those of its operators, at every depth. -/
theorem Everywhere.unmarked_iff (unraw : q.Everywhere WithoutRaw) :
    Says (· ≠ '?') (q.pieces g) ↔
      q.Everywhere fun s => ∀ operator ∈ s.operators, '?' ∉ operator.toList := by
  have plain : ∀ c, isPlain c → c ≠ '?' := by
    rintro c fixed rfl
    cases fixed
  have free (operator : String) : (∀ c ∈ operator.toList, c ≠ '?') ↔ '?' ∉ operator.toList :=
    ⟨fun all member => all '?' member rfl, fun absent c member same => absent (same ▸ member)⟩
  induction unraw with
  | intro here _ ih =>
    rw [says_pieces plain here, forall₂_congr fun operator _ => free operator, forall₂_congr ih]
    exact ⟨fun both => .intro both.1 both.2, fun all => ⟨all.here, all.inside⟩⟩

theorem Everywhere.withoutFragments (unraw : q.Everywhere WithoutRaw) :
    WithoutFragments (q.pieces g) := by
  refine Everywhere.pieces_meet (unraw.mono fun s here fragment member => ?_)
  rw [here.fragments] at member
  cases member

end Query

/-- The placeholders that a driver finds in a statement without numbers. -/
def Statement.marks (s : Statement) (d : Dialect) : Nat := (d.outsideQuotes (s.sql d)).count '?'

/-- A SELECT without raw SQL and numbers shows as many question marks outside quotes as it has
values exactly when none of its operators holds one, at any depth. It always does where the dialect
is not HANA. -/
theorem select_marks_iff {g : Grammar} {q : Query} (unnumbered : g.dialect ≠ .postgres)
    (coherent : q.Coherent) (unraw : q.Everywhere Query.WithoutRaw)
    (known : q.Everywhere (Query.OperatorsKnown g)) :
    ((q.select g).marks g.dialect = (q.select g).values.length ↔
        q.Everywhere fun s => ∀ operator ∈ s.operators, '?' ∉ operator.toList) ∧
      (g.dialect ≠ .hana → (q.select g).marks g.dialect = (q.select g).values.length) := by
  have unnumbered : g.dialect.numbered = false := by
    cases found : g.dialect with
    | postgres => exact absurd found unnumbered
    | generic | mysql | sqlite | hana => rfl
  have exact : q.Everywhere Query.FragmentsExact := unraw.mono fun s here fragment member => by
    rw [here.fragments] at member
    cases member
  have plain := unraw.withoutFragments (g := g)
  -- Coherence gives a place for each value; what is left to count are the marks within words.
  have places : (placesOf (q.pieces g)).length = q.values.length := by
    have advance := ((coherent.and exact).accounted (g := g)).carried.binds 0 |>.advance
    rw [advanceAll_eq plain] at advance
    omega
  have marks : (q.select g).marks g.dialect =
      q.values.length + (wordsOf (q.pieces g)).count '?' := by
    rw [Statement.marks, Dialect.outsideQuotes, Query.select, Statement.sql, render,
      outside_renderFrom plain (unraw.bare known), count_unquotedFrom unnumbered plain, places]
  have equal_iff : (q.select g).marks g.dialect = (q.select g).values.length ↔
      q.Everywhere fun s => ∀ operator ∈ s.operators, '?' ∉ operator.toList := by
    rw [← unraw.unmarked_iff (g := g), marks, Query.select, Nat.add_eq_left, List.count_eq_zero]
    exact ⟨fun absent c member same => absent (same ▸ member), fun all member => all '?' member rfl⟩
  refine ⟨equal_iff, fun other => equal_iff.mpr (known.mono fun s here operator member => ?_)⟩
  exact Grammar.unmarked_of_isOperator (here.all operator member) other

/-- Question marks in the names of a column, of a source and of a cross join, and a query inside. -/
def questioningQuery : Query where
  source := some (.sub activeUsers "who?")
  joins := [⟨.cross, "why?", []⟩]
  wheres := [.mk .and (.compare "how?" "like" (.value (.text "so?"))),
    .mk .or (.datePart .year "when?" "=" (.value (.int 2024)))]
  bound := { source := [.bool true], condition := [.text "so?", .int 2024] }

theorem questioningQuery_subqueries : questioningQuery.subqueries = [activeUsers] := by
  simp [questioningQuery, Query.subqueries, Source.subqueries, Linked.subqueries,
    Condition.subqueries, Operand.subqueries]

theorem questioningQuery_coherent : questioningQuery.Coherent := by
  refine .intro ⟨⟨⟨rfl, ?_, rfl, ?_, ?_⟩, ?_⟩, ?_⟩ ?_
  case refine_6 =>
    rw [questioningQuery_subqueries]
    have inner : activeUsers.Everywhere Query.SectionsFit := activeUsers_coherent
    simpa using inner
  all_goals
    simp [questioningQuery, activeUsers, Fits, Linked.slots, Condition.slots, Operand.values,
      Source.slots, Query.values, Bindings.all]

theorem activeUsers_everywhere {P : Query → Prop} (here : P activeUsers) :
    activeUsers.Everywhere P := by
  refine .intro here ?_
  simp [activeUsers, Query.subqueries, Source.subqueries, Linked.subqueries, Condition.subqueries,
    Operand.subqueries]

theorem questioningQuery_everywhere {P : Query → Prop} (here : P questioningQuery)
    (inside : P activeUsers) : questioningQuery.Everywhere P := by
  refine .intro here ?_
  rw [questioningQuery_subqueries]
  exact List.forall_mem_singleton.mpr (activeUsers_everywhere inside)

theorem questioningQuery_withoutRaw : questioningQuery.Everywhere Query.WithoutRaw := by
  refine questioningQuery_everywhere ⟨rfl, ?_⟩ ⟨rfl, ?_⟩ <;>
    simp [questioningQuery, activeUsers, Linked.operands, Condition.operands, Operand.isRaw]

theorem questioningQuery_known :
    questioningQuery.Everywhere (Query.OperatorsKnown ⟨.hana, "app_"⟩) := by
  have listed : Grammar.isOperator ⟨.hana, "app_"⟩ "=" ∧
      Grammar.isOperator ⟨.hana, "app_"⟩ "like" := by decide +kernel
  refine questioningQuery_everywhere ⟨⟨?_, ?_⟩, ?_⟩ ⟨⟨?_, ?_⟩, ?_⟩ <;>
    simp [questioningQuery, activeUsers, Linked.operators, Condition.operators, Join.Known, listed]

/-- On HANA the three places of a query are its only question marks outside quotes, whatever its
columns and tables are called. -/
theorem select_marks_questioning :
    questioningQuery.Coherent ∧ questioningQuery.Everywhere Query.WithoutRaw ∧
      questioningQuery.Everywhere (Query.OperatorsKnown ⟨.hana, "app_"⟩) ∧
      (questioningQuery.select ⟨.hana, "app_"⟩).marks .hana = 3 := by
  refine ⟨questioningQuery_coherent, questioningQuery_withoutRaw, questioningQuery_known, ?_⟩
  refine (select_marks_iff (g := ⟨.hana, "app_"⟩) (by decide) questioningQuery_coherent
    questioningQuery_withoutRaw questioningQuery_known).1.mpr ?_
  refine questioningQuery_everywhere ?_ ?_ <;>
    simp [questioningQuery, activeUsers, Query.operators, Join.operators, Linked.operators,
      Condition.operators]

/-- A comparison by an operator of HANA that is a question mark. -/
def keyQuery : Query where
  source := some (.table "t" none)
  wheres := [.mk .and (.compare "a" "?" (.value (.int 1)))]
  bound := { condition := [.int 1] }

theorem keyQuery_built :
    Call.build ⟨.hana, ""⟩ [.table "t", .compare .and "a" "?" (.value (.int 1))] = keyQuery := by
  have table : Source.ofTable "t" = .table "t" none := by
    have unlabelled : Text.splitAlias "t" = none := by decide +kernel
    have trimmed : Text.trim "t" = "t" := by decide +kernel
    simp only [Source.ofTable, unlabelled, trimmed]
  have trimmed : Text.trim "?" = "?" := by decide +kernel
  have listed : Grammar.isOperator ⟨.hana, ""⟩ "?" := by decide +kernel
  simp [Call.build, Call.runAll, Call.run, Builder.table, Builder.edit, Builder.whereCompare,
    Builder.operator, Builder.addCondition, Arg.operand, trimmed, listed, table, Query.bind,
    Bindings.add, keyQuery, Operand.isNull, Operand.values]

/-- A query that a builder makes of known operators and of bound values alone shows a driver two
placeholders and has one value. -/
theorem operator_read_as_place :
    Call.build ⟨.hana, ""⟩ [.table "t", .compare .and "a" "?" (.value (.int 1))] = keyQuery ∧
      keyQuery.Coherent ∧ keyQuery.Everywhere Query.WithoutRaw ∧
      keyQuery.Everywhere (Query.OperatorsKnown ⟨.hana, ""⟩) ∧
      (keyQuery.select ⟨.hana, ""⟩).marks .hana ≠ (keyQuery.select ⟨.hana, ""⟩).values.length := by
  have alone : keyQuery.subqueries = [] := by
    simp [keyQuery, Query.subqueries, Source.subqueries, Linked.subqueries, Condition.subqueries,
      Operand.subqueries]
  have everywhere {P : Query → Prop} (here : P keyQuery) : keyQuery.Everywhere P :=
    .intro here (alone ▸ List.forall_mem_nil _)
  have listed : Grammar.isOperator ⟨.hana, ""⟩ "?" := by decide +kernel
  refine ⟨keyQuery_built, everywhere ⟨⟨⟨rfl, ?_, rfl, ?_, ?_⟩, ?_⟩, ?_⟩, everywhere ⟨rfl, ?_⟩,
    everywhere ⟨⟨?_, ?_⟩, ?_⟩, by decide +kernel⟩ <;>
    simp [keyQuery, Fits, Linked.slots, Condition.slots, Operand.values, Source.slots,
      Linked.operands, Condition.operands, Operand.isRaw, Linked.operators, Condition.operators,
      listed]

end Sqlwright
