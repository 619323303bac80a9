import Sqlwright.Proofs.SelectNumbering

/-!
Statements as tokens. A token is text that is the same everywhere, an identifier that is still to be
quoted, or the place of a value by its number; a dialect decides how the last two are written and
nothing else. Every statement is written as its tokens, and where its raw fragments hold as many
marks as they declare, the places among the tokens are numbered one by one.
-/

namespace Sqlwright

/-- One token of a statement, before a dialect writes it. -/
inductive Token where
  | text (s : String)
  | ident (s : String)
  | place (number : Nat)
  deriving DecidableEq, Repr

namespace Token

/-- The text of a token: an identifier between quote characters, the one inside it doubled; a place
as a question mark or by its number. -/
def written (d : Dialect) : Token → String
  | .text s => s
  | .ident s => Text.quoted d.quoteChar s
  | .place number => if d.numbered then "$" ++ toString number else "?"

/-- The text of tokens one after the other. -/
def writtenAll (d : Dialect) : List Token → String
  | [] => ""
  | token :: rest => token.written d ++ writtenAll d rest

def number? : Token → Option Nat
  | .place number => some number
  | .text _ | .ident _ => none

/-- The numbers of the places, from left to right. -/
def numbers (tokens : List Token) : List Nat := tokens.filterMap number?

/-- A raw fragment behind `offset` places: its first marks are the places that it declares, and what
else it says is text. -/
def ofFragment : (places offset : Nat) → List Char → List Token
  | _, _, [] => []
  | 0, _, s => [.text (.ofList s)]
  | places + 1, offset, c :: rest =>
    if c = '?' then .place (offset + 1) :: ofFragment places (offset + 1) rest
    else .text (.singleton c) :: ofFragment (places + 1) offset rest

/-- The tokens of a piece behind `offset` places. -/
def ofPiece (offset : Nat) : Piece → List Token
  | .text s => [.text s]
  | .name s => [.ident s]
  | .literal s => [.text (Text.quoted '\x27' s)]
  | .fragment sql places => ofFragment places offset sql.toList
  | .place _ => [.place (offset + 1)]
  | .renumber _ => []

def ofPieces (offset : Nat) : List Piece → List Token
  | [] => []
  | piece :: rest => ofPiece offset piece ++ ofPieces (piece.advance offset) rest

/-! ### Writing -/

theorem writtenAll_append (d : Dialect) (front back : List Token) :
    writtenAll d (front ++ back) = writtenAll d front ++ writtenAll d back := by
  induction front with
  | nil => simp [writtenAll]
  | cons token rest ih => simp [writtenAll, ih, String.append_assoc]

theorem written_place (d : Dialect) (number : Nat) :
    (place number).written d = d.placeholder number := rfl

/-- A fragment says what its tokens say, with numbers over its marks where places are numbered. -/
theorem writtenAll_ofFragment (d : Dialect) (places offset : Nat) (s : List Char) :
    writtenAll d (ofFragment places offset s) =
      .ofList (if d.numbered then Piece.numberMarks d places offset s else s) := by
  fun_induction ofFragment places offset s with
  | case1 => cases d.numbered <;> simp [writtenAll, Piece.numberMarks]
  | case2 offset s => simp [writtenAll, written, numberMarks_zero]
  | case3 places offset rest ih =>
    rw [writtenAll, ih, written_place]
    by_cases numbered : d.numbered
    · simp [numbered, Piece.numberMarks]
    · simp [numbered, placeholder_of_unnumbered, String.ofList_cons]
  | case4 places offset c rest other ih =>
    rw [writtenAll, ih]
    by_cases numbered : d.numbered
    · simp [numbered, written, numberMarks_cons d _ _ rest other, String.ofList_cons]
    · simp [numbered, written, String.ofList_cons]

theorem written_ofPiece (d : Dialect) (offset : Nat) (piece : Piece) :
    writtenAll d (ofPiece offset piece) = piece.render d offset := by
  cases piece with
  | fragment sql places =>
    rw [ofPiece, writtenAll_ofFragment, Piece.render, Piece.fragmentText]
    split <;> simp
  | text s | name s | literal s | place value | renumber count =>
    simp [ofPiece, writtenAll, written, Piece.render, Dialect.quoteIdentifier, Dialect.quoteString,
      Dialect.placeholder]

/-- Every statement is written as its tokens. -/
theorem writtenAll_ofPieces (d : Dialect) (offset : Nat) (pieces : List Piece) :
    renderFrom d offset pieces = writtenAll d (ofPieces offset pieces) := by
  induction pieces generalizing offset with
  | nil => rfl
  | cons piece rest ih => rw [renderFrom, ofPieces, writtenAll_append, written_ofPiece, ih]

/-! ### Numbers -/

theorem numbers_append (front back : List Token) :
    numbers (front ++ back) = numbers front ++ numbers back :=
  List.filterMap_append

/-- As many marks are numbered as there are, but no more than are declared. -/
theorem numbers_ofFragment (places offset : Nat) (s : List Char) :
    numbers (ofFragment places offset s) = List.range' (offset + 1) (min places (s.count '?')) := by
  fun_induction ofFragment places offset s with
  | case1 => simp [numbers]
  | case2 offset s => simp [numbers, number?]
  | case3 places offset rest ih =>
    have more : min (places + 1) (('?' :: rest).count '?') = min places (rest.count '?') + 1 := by
      rw [List.count_cons_self]
      omega
    rw [more, List.range'_succ, ← ih]
    rfl
  | case4 places offset c rest other ih =>
    rw [List.count_cons_of_ne other, ← ih]
    rfl

end Token

/-- A piece that does not number anew and that meets a requirement if it is a raw fragment. -/
def Piece.Meets (R : String → Nat → Prop) : Piece → Prop
  | .fragment sql places => R sql places
  | .renumber _ => False
  | _ => True

/-- Pieces of which every one meets a requirement on fragments. -/
def Meets (R : String → Nat → Prop) (pieces : List Piece) : Prop := ∀ piece ∈ pieces, piece.Meets R

variable {R : String → Nat → Prop}

theorem Piece.Meets.advance {piece : Piece} (meets : piece.Meets R) (offset : Nat) :
    piece.advance offset = offset + piece.places.length := by
  cases piece with
  | text s | name s | literal s | place value => rfl
  | renumber count => exact meets.elim
  | fragment sql places => simp [Piece.advance, Piece.places]

namespace Token

/-- The numbers of a piece stand behind the offset and are counted by the places of the piece. -/
theorem numbers_ofPiece {piece : Piece} (meets : piece.Meets R) (offset : Nat) :
    ∃ count ≤ piece.places.length,
      numbers (ofPiece offset piece) = List.range' (offset + 1) count := by
  cases piece with
  | text s | name s | literal s => exact ⟨0, Nat.zero_le _, rfl⟩
  | place value => exact ⟨1, Nat.le_refl _, rfl⟩
  | renumber count => exact meets.elim
  | fragment sql places =>
    refine ⟨min places (sql.toList.count '?'), ?_, numbers_ofFragment places offset sql.toList⟩
    rw [Piece.places, List.length_replicate]
    exact Nat.min_le_left _ _

/-- Places are numbered in order, each behind the offset. -/
theorem numbers_increase {pieces : List Piece} (meets : Meets R pieces) (offset : Nat) :
    (numbers (ofPieces offset pieces)).Pairwise (· < ·) ∧
      ∀ number ∈ numbers (ofPieces offset pieces), offset < number := by
  induction pieces generalizing offset with
  | nil => exact ⟨.nil, List.forall_mem_nil _⟩
  | cons piece rest ih =>
    obtain ⟨first, later⟩ := List.forall_mem_cons.mp meets
    obtain ⟨count, bound, numbered⟩ := numbers_ofPiece first offset
    obtain ⟨increase, behind⟩ := ih later (piece.advance offset)
    rw [ofPieces, numbers_append, numbered]
    rw [first.advance offset] at increase behind ⊢
    refine ⟨List.pairwise_append.mpr ⟨List.pairwise_lt_range', increase, ?_⟩, ?_⟩
    · intro number inside other after
      have start := behind other after
      obtain ⟨-, stop⟩ := List.mem_range'_1.mp inside
      omega
    · intro number inside
      rcases List.mem_append.mp inside with here | after
      · obtain ⟨start, -⟩ := List.mem_range'_1.mp here
        omega
      · have start := behind number after
        omega

/-- Where fragments have as many marks as they declare, no number is left out. -/
theorem numbers_ofPieces {pieces : List Piece} (exact : Meets MarksExact pieces) (offset : Nat) :
    numbers (ofPieces offset pieces) = List.range' (offset + 1) (placesOf pieces).length := by
  induction pieces generalizing offset with
  | nil => rfl
  | cons piece rest ih =>
    obtain ⟨first, later⟩ := List.forall_mem_cons.mp exact
    have numbered : numbers (ofPiece offset piece) =
        List.range' (offset + 1) piece.places.length := by
      cases piece with
      | text s | name s | literal s | place value => rfl
      | renumber count => exact first.elim
      | fragment sql places =>
        have counted : sql.toList.count '?' = places := first
        rw [ofPiece, numbers_ofFragment, counted, Nat.min_self, Piece.places, List.length_replicate]
    have places : placesOf (piece :: rest) = piece.places ++ placesOf rest := List.flatMap_cons
    have start : offset + piece.places.length + 1 = offset + 1 + piece.places.length := by omega
    rw [ofPieces, numbers_append, numbered, first.advance, ih later, places, List.length_append,
      start, List.range'_append_1]

end Token

/-! ### Pieces of a query -/

namespace Meets

variable {front back : List Piece}

theorem of_fixed (fixed : Fixed front) : Meets R front := by
  intro piece member
  have plain := fixed piece member
  cases piece with
  | text s | name s | literal s => trivial
  | fragment sql places | place value | renumber count => exact plain.elim

theorem append (first : Meets R front) (second : Meets R back) : Meets R (front ++ back) :=
  List.forall_mem_append.mpr ⟨first, second⟩

theorem cons {piece : Piece} (head : piece.Meets R) (rest : Meets R back) :
    Meets R (piece :: back) :=
  List.forall_mem_cons.mpr ⟨head, rest⟩

theorem text {s : String} (rest : Meets R back) : Meets R (.text s :: back) := rest.cons trivial

theorem parenthesised (inner : Meets R front) : Meets R (parenthesised front) :=
  parenthesised_forall trivial trivial inner

theorem fragment {sql : String} {places : Nat} (counted : R sql places) :
    Meets R [.fragment sql places] :=
  List.forall_mem_singleton.mpr counted

end Meets

variable {g : Grammar}

theorem Operand.pieces_meet (operand : Operand)
    (subs : ∀ s ∈ operand.subqueries, Meets R (s.pieces g)) : Meets R (operand.pieces g) := by
  cases operand with
  | value v =>
    rw [Operand.pieces]
    exact List.forall_mem_singleton.mpr trivial
  | raw sql =>
    rw [Operand.pieces]
    exact .of_fixed Fixed.nil.text
  | column name =>
    rw [Operand.pieces]
    exact .of_fixed (g.column_fixed name)
  | sub query =>
    rw [Operand.pieces]
    exact (subs query List.mem_cons_self).parenthesised

theorem Dialect.datePart_meets (d : Dialect) (part : DatePart) {column value : List Piece}
    (operator : String) (fixed : Fixed column) (meets : Meets R value) :
    Meets R (d.datePart part column operator value) := by
  have columns : Meets R column := .of_fixed fixed
  have extracted : Meets R (extracted part column) :=
    (columns.append (.of_fixed Fixed.nil.text)).text
  cases d with
  | mysql => exact (columns.append meets.text).text
  | hana => exact (columns.append meets.text).text
  | sqlite =>
    have format : (Piece.literal (sqliteFormat part)).Meets R := trivial
    exact ((columns.text.cons format).text.append meets.text).append (.of_fixed Fixed.nil.text)
  | postgres =>
    cases part with
    | date | time => exact columns.append meets.text
    | year | month | day => exact extracted.append meets.text
  | generic =>
    cases part with
    | date | time => exact (columns.append meets.text).text
    | year | month | day => exact extracted.append meets.text

mutual

theorem Condition.pieces_meet (condition : Condition)
    (subs : ∀ s ∈ condition.subqueries, Meets R (s.pieces g))
    (counted : ∀ fragment ∈ condition.fragments, R fragment.1 fragment.2) :
    Meets R (condition.pieces g) := by
  match condition with
  | .compare column operator value =>
    rw [Condition.pieces]
    exact (Meets.of_fixed (g.column_fixed column)).append (value.pieces_meet subs).text
  | .compareSub query operator value =>
    rw [Condition.pieces]
    have inner := (subs query List.mem_cons_self).parenthesised
    have right := value.pieces_meet fun s member => subs s (List.mem_cons_of_mem _ member)
    exact inner.append right.text
  | .columns first operator second =>
    rw [Condition.pieces]
    exact .of_fixed (g.comparison_fixed first operator second)
  | .null column negated =>
    rw [Condition.pieces]
    exact .of_fixed ((g.column_fixed column).append Fixed.nil.text)
  | .between column low high negated =>
    rw [Condition.pieces]
    have left := low.pieces_meet fun s member => subs s (List.mem_append_left _ member)
    have right := high.pieces_meet fun s member => subs s (List.mem_append_right _ member)
    exact ((Meets.of_fixed (g.column_fixed column)).append left.text).append right.text
  | .among column [] negated =>
    rw [Condition.pieces]
    exact .of_fixed Fixed.nil.text
  | .among column (value :: values) negated =>
    have each (operand : Operand) (member : operand ∈ value :: values) :
        Meets R (operand.pieces g) :=
      operand.pieces_meet fun s inside => subs s (List.mem_flatMap.mpr ⟨operand, member, inside⟩)
    have list : Meets R (joinPieces "," ((value :: values).map (Operand.pieces g))) :=
      joinPieces_map_forall trivial each
    rw [Condition.pieces, Operand.parts_eq_map, ← List.map_cons]
    exact (Meets.of_fixed (g.column_fixed column)).append list.parenthesised.text
  | .amongSub column query negated =>
    rw [Condition.pieces]
    exact (Meets.of_fixed (g.column_fixed column)).append
      (subs query List.mem_cons_self).parenthesised.text
  | .exists query negated =>
    rw [Condition.pieces]
    exact (subs query List.mem_cons_self).parenthesised.text
  | .raw sql places =>
    rw [Condition.pieces]
    exact .fragment (counted (sql, places) List.mem_cons_self)
  | .group conditions =>
    rw [Condition.pieces]
    exact (Linked.pieces_meet conditions subs counted).1.parenthesised
  | .datePart part column operator value =>
    rw [Condition.pieces]
    exact g.dialect.datePart_meets part operator (g.column_fixed column) (value.pieces_meet subs)

theorem Linked.pieces_meet (conditions : List Linked)
    (subs : ∀ s ∈ Linked.subqueries conditions, Meets R (s.pieces g))
    (counted : ∀ fragment ∈ Linked.fragments conditions, R fragment.1 fragment.2) :
    Meets R (Linked.first g conditions) ∧ Meets R (Linked.others g conditions) := by
  match conditions with
  | [] => exact ⟨List.forall_mem_nil _, List.forall_mem_nil _⟩
  | .mk link condition :: rest =>
    have head := condition.pieces_meet (fun s member => subs s (List.mem_append_left _ member))
      (fun fragment member => counted fragment (List.mem_append_left _ member))
    have tail := Linked.pieces_meet rest (fun s member => subs s (List.mem_append_right _ member))
      (fun fragment member => counted fragment (List.mem_append_right _ member))
    rw [Linked.first, Linked.others]
    exact ⟨head.append tail.2, (head.append tail.2).text⟩

end

theorem Linked.clause_meets (keyword : String) {conditions : List Linked}
    (subs : ∀ s ∈ Linked.subqueries conditions, Meets R (s.pieces g))
    (counted : ∀ fragment ∈ Linked.fragments conditions, R fragment.1 fragment.2) :
    Meets R (Linked.clause g keyword conditions) := by
  rw [Linked.clause_eq]
  split
  · exact List.forall_mem_nil _
  · exact (Linked.pieces_meet conditions subs counted).1.text

theorem named_meets (s : String) : Meets R [.text " as ", Grammar.segment s] :=
  .of_fixed (.text (.cons (Grammar.segment_fixed s) .nil))

theorem Selection.pieces_meet (entry : Selection)
    (subs : ∀ s ∈ entry.subqueries, Meets R (s.pieces g))
    (counted : ∀ fragment ∈ entry.fragments, R fragment.1 fragment.2) :
    Meets R (entry.pieces g) := by
  cases entry with
  | column reference =>
    rw [Selection.pieces]
    exact .of_fixed (g.column_fixed reference)
  | raw sql places =>
    rw [Selection.pieces]
    exact .fragment (counted (sql, places) List.mem_cons_self)
  | sub query label =>
    rw [Selection.pieces]
    exact (subs query List.mem_cons_self).parenthesised.append (named_meets label)

theorem Source.clause_meets {source : Option Source}
    (subs : ∀ s ∈ source.toList.flatMap Source.subqueries, Meets R (s.pieces g)) :
    Meets R (Source.clause g source) := by
  cases source with
  | none =>
    rw [Source.clause]
    exact .of_fixed g.dialect.emptySource_fixed
  | some source =>
    rw [Source.clause]
    refine Meets.text ?_
    cases source with
    | table name label => exact .of_fixed (Source.table_fixed g name label)
    | sub query label =>
      rw [Source.pieces]
      exact (subs query (by simp [Source.subqueries])).parenthesised.append (named_meets label)

theorem Grammar.orderClause_meets {orders : List Ordering}
    (counted : ∀ fragment ∈ orders.flatMap Ordering.fragments, R fragment.1 fragment.2) :
    Meets R (g.orderClause orders) := by
  have each (entry : Ordering) (member : entry ∈ orders) : Meets R (g.orderingPieces entry) := by
    cases entry with
    | column name direction => exact .of_fixed ((g.column_fixed name).append Fixed.nil.text)
    | raw sql places =>
      exact .fragment (counted (sql, places) (List.mem_flatMap.mpr ⟨_, member, List.mem_cons_self⟩))
  unfold orderClause
  split
  · exact List.forall_mem_nil _
  · exact Meets.text (joinPieces_map_forall trivial each)

namespace Query

/-- A query whose fragments meet a requirement, and the queries inside which do, writes pieces that
meet it. -/
theorem pieces_meet {q : Query} (counted : ∀ fragment ∈ q.fragments, R fragment.1 fragment.2)
    (subs : ∀ s ∈ q.subqueries, Meets R (s.pieces g)) : Meets R (q.pieces g) := by
  have head : Meets R (q.outline g).head := by
    rw [outline_eq, Selection.parts_eq_map]
    refine Meets.text ?_
    split
    · exact .of_fixed Fixed.nil.text
    · refine joinPieces_map_forall trivial fun entry member => ?_
      have listed {α : Type} {f : Selection → List α} {a : α} (inside : a ∈ f entry) :
          a ∈ q.columns.flatMap f := List.mem_flatMap.mpr ⟨entry, member, inside⟩
      refine entry.pieces_meet (fun s inside => subs s ?_)
        fun fragment inside => counted fragment ?_
      · simp [subqueries, listed inside]
      · simp [fragments, listed inside]
  have source : Meets R (Source.clause g q.source) :=
    Source.clause_meets fun s member => subs s (by
      simp only [subqueries, List.mem_append, member, or_true, true_or])
  have wheres : Meets R (Linked.clause g "where " q.wheres) :=
    Linked.clause_meets _ (fun s member => subs s (by simp [subqueries, member]))
      fun fragment member => counted fragment (by simp [fragments, member])
  have havings : Meets R (Linked.clause g "having " q.havings) :=
    Linked.clause_meets _ (fun s member => subs s (by simp [subqueries, member]))
      fun fragment member => counted fragment (by simp [fragments, member])
  have orders : Meets R (g.orderClause q.orders) :=
    Grammar.orderClause_meets fun fragment member => counted fragment (by
      simp only [fragments, List.mem_append, member, or_true])
  refine sentence_forall trivial (List.forall_mem_cons.mpr ⟨head, ?_⟩)
  rw [outline_eq]
  have joins : Meets R (g.joinClause q.joins) := .of_fixed (g.joinClause_fixed q.joins)
  have groups : Meets R (g.groupClause q.groups) := .of_fixed (g.groupClause_fixed q.groups)
  have limit : Meets R (g.dialect.limitClause q.limit q.offset) :=
    .of_fixed (g.dialect.limitClause_fixed q.limit q.offset)
  have offset : Meets R (g.dialect.offsetClause q.offset) :=
    .of_fixed (g.dialect.offsetClause_fixed q.offset)
  have lock : Meets R (g.dialect.lockClause q.lock) :=
    .of_fixed (g.dialect.lockClause_fixed q.lock)
  simp only [List.forall_mem_cons]
  exact ⟨source, joins, wheres, groups, havings, orders, limit, offset, lock, List.forall_mem_nil _⟩

theorem Everywhere.pieces_meet {q : Query}
    (counted : q.Everywhere fun q => ∀ fragment ∈ q.fragments, R fragment.1 fragment.2) :
    Meets R (q.pieces g) := by
  induction counted with
  | intro here _ ih => exact Query.pieces_meet here ih

end Query

end Sqlwright
