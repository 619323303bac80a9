import Sqlwright.Proofs.FixedText

/-!
Numbering of a SELECT. Every clause writes its places in the order in which its entries bring their
slots, so the places of a coherent query are numbered one by one, through groups and queries inside
it, and stand for the values of the query in their order.
-/

namespace Sqlwright

/-- Pieces that write one place for each slot, in order, wherever their numbering starts. -/
def Carries (d : Dialect) (pieces : List Piece) (slots : List (Option Value)) : Prop :=
  ∀ offset values, Fits slots values → Binds d offset pieces values

theorem Fixed.carries {pieces : List Piece} (fixed : Fixed pieces) (d : Dialect) :
    Carries d pieces [] := by
  intro offset values fits
  rw [fits_nil_iff.mp fits]
  exact fixed.binds d offset

namespace Carries

variable {d : Dialect} {front back : List Piece} {slots more : List (Option Value)}

theorem append (first : Carries d front slots) (second : Carries d back more) :
    Carries d (front ++ back) (slots ++ more) := by
  intro offset values fits
  obtain ⟨left, right, same, leftFits, rightFits⟩ := fits.split
  subst same
  exact (first offset left leftFits).append (second _ right rightFits)

/-- Values that fit the slots may take their place. -/
theorem fill {values : List Value} (carries : Carries d front slots) (fits : Fits slots values) :
    Carries d front (values.map some) := by
  intro offset others same
  rw [fits_map_some_iff.mp same]
  exact carries offset values fits

theorem binds {values : List Value} (carries : Carries d front (values.map some)) (offset : Nat) :
    Binds d offset front values :=
  carries offset values (fits_map_some values)

theorem place (d : Dialect) (value : Value) : Carries d [.place value] [some value] := by
  intro offset values fits
  have same : values = [value] := fits_map_some_iff.mp fits
  rw [same]
  exact .place d offset value

theorem fragment {sql : String} {places : Nat} (counted : MarksExact sql places) :
    Carries d [.fragment sql places] (List.replicate places none) :=
  fun offset _ fits => .fragment counted (fits_replicate_none_iff.mp fits) d offset

end Carries

/-- A sentence is its first clause and the sentence of the others, with a blank between two clauses
that are written. -/
theorem sentence_cons (clause : List Piece) (rest : List (List Piece)) :
    sentence (clause :: rest) = clause ++ sentence rest ∨
      sentence (clause :: rest) = clause ++ .text " " :: sentence rest := by
  unfold sentence
  cases clause with
  | nil => exact .inl rfl
  | cons piece more =>
    cases others : rest.filter fun clause => !clause.isEmpty with
    | nil => exact .inl (by simp [others, joinPieces])
    | cons next after => exact .inr (by simp [others, joinPieces])

/-- A relation between pieces and the slots that they fill, which goes over from the parts of a
statement to the whole. Raw fragments take part that meet a requirement. -/
structure Tracks (R : String → Nat → Prop) (C : List Piece → List (Option Value) → Prop) :
    Prop where
  fixed {pieces : List Piece} (fixed : Fixed pieces) : C pieces []
  append {front back : List Piece} {slots more : List (Option Value)} (first : C front slots)
    (second : C back more) : C (front ++ back) (slots ++ more)
  place (value : Value) : C [.place value] [some value]
  fragment {sql : String} {places : Nat} (counted : R sql places) :
    C [.fragment sql places] (List.replicate places none)
  /-- Values that fit the slots may take their place. -/
  fill {front : List Piece} {slots : List (Option Value)} {values : List Value}
    (tracked : C front slots) (fits : Fits slots values) : C front (values.map some)

namespace Tracks

variable {R : String → Nat → Prop} {C : List Piece → List (Option Value) → Prop}
  {front back : List Piece} {slots more : List (Option Value)}

theorem after (tracks : Tracks R C) (first : Fixed front) (second : C back more) :
    C (front ++ back) more :=
  tracks.append (tracks.fixed first) second

theorem before (tracks : Tracks R C) (first : C front slots) (second : Fixed back) :
    C (front ++ back) slots := by
  have both := tracks.append first (tracks.fixed second)
  rwa [List.append_nil] at both

theorem text (tracks : Tracks R C) {s : String} (rest : C back more) : C (.text s :: back) more :=
  tracks.after Fixed.nil.text rest

theorem parenthesised (tracks : Tracks R C) (inner : C front slots) :
    C (parenthesised front) slots :=
  tracks.text (tracks.before inner Fixed.nil.text)

/-- Parts with a separator between them fill the slots of the parts in order. -/
theorem join (tracks : Tracks R C) {α : Type} {sep : String} {write : α → List Piece}
    {slots : α → List (Option Value)} {items : List α}
    (each : ∀ item ∈ items, C (write item) (slots item)) :
    C (joinPieces sep (items.map write)) (items.flatMap slots) := by
  induction items with
  | nil => exact tracks.fixed Fixed.nil
  | cons item rest ih =>
    have head := each item List.mem_cons_self
    have tail := ih fun other member => each other (List.mem_cons_of_mem _ member)
    cases rest with
    | nil => simpa [joinPieces] using head
    | cons next more => exact tracks.append head (tracks.text tail)

theorem sentence (tracks : Tracks R C) {clause : List Piece} {rest : List (List Piece)}
    (head : C clause slots) (tail : C (sentence rest) more) :
    C (sentence (clause :: rest)) (slots ++ more) := by
  rcases sentence_cons clause rest with plain | spaced
  · rw [plain]
    exact tracks.append head tail
  · rw [spaced]
    exact tracks.append head (tracks.text tail)

end Tracks

theorem carries_tracks (d : Dialect) : Tracks MarksExact (Carries d) where
  fixed fixed := fixed.carries d
  append first second := first.append second
  place value := .place d value
  fragment counted := .fragment counted
  fill carries fits := carries.fill fits

namespace Carries

variable {d : Dialect} {front back : List Piece} {slots more : List (Option Value)}

theorem after (second : Carries d back more) (first : Fixed front) :
    Carries d (front ++ back) more :=
  (carries_tracks d).after first second

theorem before (first : Carries d front slots) (second : Fixed back) :
    Carries d (front ++ back) slots :=
  (carries_tracks d).before first second

theorem text {s : String} (rest : Carries d back more) : Carries d (.text s :: back) more :=
  (carries_tracks d).text rest

theorem parenthesised (inner : Carries d front slots) :
    Carries d (parenthesised front) slots :=
  (carries_tracks d).parenthesised inner

theorem join {α : Type} {sep : String} {write : α → List Piece} {slots : α → List (Option Value)}
    {items : List α} (each : ∀ item ∈ items, Carries d (write item) (slots item)) :
    Carries d (joinPieces sep (items.map write)) (items.flatMap slots) :=
  (carries_tracks d).join each

theorem sentence_nil (d : Dialect) : Carries d (sentence []) [] := Fixed.nil.carries d

theorem sentence {clause : List Piece} {rest : List (List Piece)} (head : Carries d clause slots)
    (tail : Carries d (sentence rest) more) :
    Carries d (sentence (clause :: rest)) (slots ++ more) :=
  (carries_tracks d).sentence head tail

end Carries

/-! ### Raw fragments of a query -/

def Selection.fragments : Selection → List (String × Nat)
  | .raw sql places => [(sql, places)]
  | .column _ | .sub _ _ => []

def Ordering.fragments : Ordering → List (String × Nat)
  | .raw sql places => [(sql, places)]
  | .column _ _ => []

mutual

def Condition.fragments : Condition → List (String × Nat)
  | .raw sql places => [(sql, places)]
  | .group conditions => Linked.fragments conditions
  | .compare _ _ _ | .compareSub _ _ _ | .columns _ _ _ | .null _ _ | .between _ _ _ _
  | .among _ _ _ | .amongSub _ _ _ | .exists _ _ | .datePart _ _ _ _ => []

def Linked.fragments : List Linked → List (String × Nat)
  | [] => []
  | .mk _ condition :: rest => condition.fragments ++ Linked.fragments rest

end

namespace Query

/-- The raw fragments in the clauses of a query, each with the number of places it declares. -/
def fragments (q : Query) : List (String × Nat) :=
  q.columns.flatMap Selection.fragments ++ Linked.fragments q.wheres ++
    Linked.fragments q.havings ++ q.orders.flatMap Ordering.fragments

/-- Every raw fragment contains as many question marks as it declares. -/
def FragmentsExact (q : Query) : Prop := ∀ fragment ∈ q.fragments, MarksExact fragment.1 fragment.2

/-- A query that writes the places of its own values wherever it stands. -/
def Carried (g : Grammar) (q : Query) : Prop :=
  Carries g.dialect (q.pieces g) (q.values.map some)

end Query

/-! ### Clauses -/

section Clauses

variable {g : Grammar} {R : String → Nat → Prop} {C : List Piece → List (Option Value) → Prop}

theorem Operand.tracked (tracks : Tracks R C) (operand : Operand)
    (subs : ∀ s ∈ operand.subqueries, C (s.pieces g) (s.values.map some)) :
    C (operand.pieces g) (operand.values.map some) := by
  cases operand with
  | value v =>
    rw [Operand.pieces]
    exact tracks.place v
  | raw sql =>
    rw [Operand.pieces]
    exact tracks.fixed Fixed.nil.text
  | column name =>
    rw [Operand.pieces]
    exact tracks.fixed (g.column_fixed name)
  | sub query =>
    rw [Operand.pieces]
    exact tracks.parenthesised (subs query List.mem_cons_self)

theorem Operand.parts_eq_map (g : Grammar) (operands : List Operand) :
    Operand.parts g operands = operands.map (Operand.pieces g) := by
  induction operands with
  | nil => rfl
  | cons operand rest ih => rw [Operand.parts, ih, List.map_cons]

theorem Selection.parts_eq_map (g : Grammar) (columns : List Selection) :
    Selection.parts g columns = columns.map (Selection.pieces g) := by
  induction columns with
  | nil => rfl
  | cons entry rest ih => rw [Selection.parts, ih, List.map_cons]

theorem Dialect.tracked_datePart (tracks : Tracks R C) (d : Dialect) (part : DatePart)
    {column value : List Piece} (operator : String) {slots : List (Option Value)}
    (fixed : Fixed column) (tracked : C value slots) :
    C (d.datePart part column operator value) slots := by
  have compared {s : String} : C (.text s :: value) slots := tracks.text tracked
  have extracted : Fixed (extracted part column) := (fixed.append Fixed.nil.text).text
  cases d with
  | mysql => exact tracks.text (tracks.after fixed compared)
  | hana => exact tracks.text (tracks.after fixed compared)
  | sqlite =>
    have format : (Piece.literal (sqliteFormat part)).IsFixed := trivial
    exact tracks.before (tracks.after (fixed.text.cons format).text compared) Fixed.nil.text
  | postgres =>
    cases part with
    | date | time => exact tracks.after fixed compared
    | year | month | day => exact tracks.after extracted compared
  | generic =>
    cases part with
    | date | time => exact tracks.text (tracks.after fixed compared)
    | year | month | day => exact tracks.after extracted compared

mutual

theorem Condition.tracked (tracks : Tracks R C) (condition : Condition)
    (subs : ∀ s ∈ condition.subqueries, C (s.pieces g) (s.values.map some))
    (counted : ∀ fragment ∈ condition.fragments, R fragment.1 fragment.2) :
    C (condition.pieces g) condition.slots := by
  match condition with
  | .compare column operator value =>
    rw [Condition.pieces]
    exact tracks.after (g.column_fixed column) (tracks.text (value.tracked tracks subs))
  | .compareSub query operator value =>
    rw [Condition.pieces]
    have inner := tracks.parenthesised (subs query List.mem_cons_self)
    have right := value.tracked tracks fun s member => subs s (List.mem_cons_of_mem _ member)
    exact tracks.append inner (tracks.text right)
  | .columns first operator second =>
    rw [Condition.pieces]
    exact tracks.fixed (g.comparison_fixed first operator second)
  | .null column negated =>
    rw [Condition.pieces]
    exact tracks.fixed ((g.column_fixed column).append Fixed.nil.text)
  | .between column low high negated =>
    rw [Condition.pieces]
    have left := low.tracked tracks fun s member => subs s (List.mem_append_left _ member)
    have right := high.tracked tracks fun s member => subs s (List.mem_append_right _ member)
    exact tracks.append (tracks.after (g.column_fixed column) (tracks.text left))
      (tracks.text right)
  | .among column [] negated =>
    rw [Condition.pieces]
    exact tracks.fixed Fixed.nil.text
  | .among column (value :: values) negated =>
    have each (operand : Operand) (member : operand ∈ value :: values) :
        C (operand.pieces g) (operand.values.map some) :=
      operand.tracked tracks fun s inside =>
        subs s (List.mem_flatMap.mpr ⟨operand, member, inside⟩)
    rw [Condition.pieces, Condition.slots, List.map_flatMap, Operand.parts_eq_map, ← List.map_cons]
    exact tracks.after (g.column_fixed column)
      (tracks.text (tracks.parenthesised (tracks.join each)))
  | .amongSub column query negated =>
    rw [Condition.pieces]
    exact tracks.after (g.column_fixed column)
      (tracks.text (tracks.parenthesised (subs query List.mem_cons_self)))
  | .exists query negated =>
    rw [Condition.pieces]
    exact tracks.text (tracks.parenthesised (subs query List.mem_cons_self))
  | .raw sql places =>
    rw [Condition.pieces]
    exact tracks.fragment (counted (sql, places) List.mem_cons_self)
  | .group conditions =>
    rw [Condition.pieces]
    exact tracks.parenthesised (Linked.tracked tracks conditions subs counted).1
  | .datePart part column operator value =>
    rw [Condition.pieces]
    exact g.dialect.tracked_datePart tracks part operator (g.column_fixed column)
      (value.tracked tracks subs)

theorem Linked.tracked (tracks : Tracks R C) (conditions : List Linked)
    (subs : ∀ s ∈ Linked.subqueries conditions, C (s.pieces g) (s.values.map some))
    (counted : ∀ fragment ∈ Linked.fragments conditions, R fragment.1 fragment.2) :
    C (Linked.first g conditions) (Linked.slots conditions) ∧
      C (Linked.others g conditions) (Linked.slots conditions) := by
  match conditions with
  | [] => exact ⟨tracks.fixed Fixed.nil, tracks.fixed Fixed.nil⟩
  | .mk link condition :: rest =>
    have head := condition.tracked tracks (fun s member => subs s (List.mem_append_left _ member))
      (fun fragment member => counted fragment (List.mem_append_left _ member))
    have tail := Linked.tracked tracks rest
      (fun s member => subs s (List.mem_append_right _ member))
      (fun fragment member => counted fragment (List.mem_append_right _ member))
    rw [Linked.first, Linked.others]
    have both := tracks.append head tail.2
    exact ⟨both, tracks.text both⟩

end

theorem Linked.tracked_clause (tracks : Tracks R C) (keyword : String) (conditions : List Linked)
    (subs : ∀ s ∈ Linked.subqueries conditions, C (s.pieces g) (s.values.map some))
    (counted : ∀ fragment ∈ Linked.fragments conditions, R fragment.1 fragment.2) :
    C (Linked.clause g keyword conditions) (Linked.slots conditions) := by
  have list := (Linked.tracked tracks conditions subs counted).1
  cases conditions with
  | nil => exact list
  | cons linked rest =>
    cases linked with
    | mk link condition =>
      rw [Linked.first] at list
      rw [Linked.clause]
      exact tracks.text list

private theorem named_fixed (s : String) : Fixed [.text " as ", Grammar.segment s] :=
  .text (.cons (Grammar.segment_fixed s) .nil)

theorem Selection.tracked (tracks : Tracks R C) (entry : Selection)
    (subs : ∀ s ∈ entry.subqueries, C (s.pieces g) (s.values.map some))
    (counted : ∀ fragment ∈ entry.fragments, R fragment.1 fragment.2) :
    C (entry.pieces g) entry.slots := by
  cases entry with
  | column reference =>
    rw [Selection.pieces]
    exact tracks.fixed (g.column_fixed reference)
  | raw sql places =>
    rw [Selection.pieces]
    exact tracks.fragment (counted (sql, places) List.mem_cons_self)
  | sub query label =>
    rw [Selection.pieces]
    exact tracks.before (tracks.parenthesised (subs query List.mem_cons_self)) (named_fixed _)

theorem Source.tracked (tracks : Tracks R C) (source : Source)
    (subs : ∀ s ∈ source.subqueries, C (s.pieces g) (s.values.map some)) :
    C (source.pieces g) source.slots := by
  cases source with
  | table name label => exact tracks.fixed (Source.table_fixed g name label)
  | sub query label =>
    rw [Source.pieces]
    exact tracks.before (tracks.parenthesised (subs query List.mem_cons_self)) (named_fixed _)

theorem Source.tracked_clause (tracks : Tracks R C) (source : Option Source)
    (subs : ∀ s ∈ source.toList.flatMap Source.subqueries, C (s.pieces g) (s.values.map some)) :
    C (Source.clause g source) (source.toList.flatMap Source.slots) := by
  cases source with
  | none =>
    rw [Source.clause]
    exact tracks.fixed g.dialect.emptySource_fixed
  | some source =>
    have inner := source.tracked tracks fun s member => subs s (by simpa using member)
    rw [Source.clause]
    simpa using tracks.text inner

theorem Grammar.tracked_orderClause (tracks : Tracks R C) (orders : List Ordering)
    (counted : ∀ fragment ∈ orders.flatMap Ordering.fragments, R fragment.1 fragment.2) :
    C (g.orderClause orders) (orders.flatMap Ordering.slots) := by
  have each (entry : Ordering) (member : entry ∈ orders) :
      C (g.orderingPieces entry) entry.slots := by
    cases entry with
    | column name direction =>
      exact tracks.fixed ((g.column_fixed name).append Fixed.nil.text)
    | raw sql places =>
      have listed : (sql, places) ∈ orders.flatMap Ordering.fragments :=
        List.mem_flatMap.mpr ⟨_, member, List.mem_cons_self⟩
      exact tracks.fragment (counted (sql, places) listed)
  unfold orderClause
  split
  · rename_i empty
    rw [List.isEmpty_iff.mp empty]
    exact tracks.fixed Fixed.nil
  · exact tracks.text (tracks.join each)

end Clauses

variable {g : Grammar}

theorem Operand.carries (operand : Operand) (subs : ∀ s ∈ operand.subqueries, s.Carried g) :
    Carries g.dialect (operand.pieces g) (operand.values.map some) :=
  operand.tracked (carries_tracks g.dialect) subs

theorem Source.carries (source : Source) (subs : ∀ s ∈ source.subqueries, s.Carried g) :
    Carries g.dialect (source.pieces g) source.slots :=
  source.tracked (carries_tracks g.dialect) subs

/-! ### Queries -/

namespace Query

theorem outline_eq (q : Query) (g : Grammar) : q.outline g =
    { head :=
        .text (if q.distinct then "select distinct " else "select ") ::
          if q.columns.isEmpty then [.text "*"]
          else joinPieces ", " (Selection.parts g q.columns)
      clauses :=
        [Source.clause g q.source, g.joinClause q.joins, Linked.clause g "where " q.wheres,
         g.groupClause q.groups, Linked.clause g "having " q.havings, g.orderClause q.orders,
         g.dialect.limitClause q.limit q.offset, g.dialect.offsetClause q.offset,
         g.dialect.lockClause q.lock] } := by
  cases q
  rw [outline]

/-- A query whose sections fit, whose fragments meet a requirement and whose subqueries are
tracked. -/
structure Tracked (g : Grammar) (R : String → Nat → Prop)
    (C : List Piece → List (Option Value) → Prop) (q : Query) : Prop where
  fit : q.SectionsFit
  counted : ∀ fragment ∈ q.fragments, R fragment.1 fragment.2
  subs : ∀ s ∈ q.subqueries, C (s.pieces g) (s.values.map some)

namespace Tracked

variable {q : Query} {R : String → Nat → Prop} {C : List Piece → List (Option Value) → Prop}

theorem source (tracked : q.Tracked g R C) (tracks : Tracks R C) :
    C (Source.clause g q.source) (q.bound.source.map some) := by
  refine tracks.fill (Source.tracked_clause tracks q.source fun s member => ?_) tracked.fit.source
  exact tracked.subs s (by simp only [subqueries, List.mem_append, member, or_true, true_or])

theorem wheres (tracked : q.Tracked g R C) (tracks : Tracks R C) (keyword : String) :
    C (Linked.clause g keyword q.wheres) (q.bound.condition.map some) := by
  refine tracks.fill (Linked.tracked_clause tracks keyword q.wheres (fun s member => ?_)
    (fun fragment member => ?_)) tracked.fit.condition
  · exact tracked.subs s (by simp [subqueries, member])
  · exact tracked.counted fragment (by simp [fragments, member])

theorem havings (tracked : q.Tracked g R C) (tracks : Tracks R C) (keyword : String) :
    C (Linked.clause g keyword q.havings) (q.bound.having.map some) := by
  refine tracks.fill (Linked.tracked_clause tracks keyword q.havings (fun s member => ?_)
    (fun fragment member => ?_)) tracked.fit.having
  · exact tracked.subs s (by simp [subqueries, member])
  · exact tracked.counted fragment (by simp [fragments, member])

theorem orders (tracked : q.Tracked g R C) (tracks : Tracks R C) :
    C (g.orderClause q.orders) (q.bound.order.map some) := by
  refine tracks.fill (Grammar.tracked_orderClause tracks q.orders fun fragment member => ?_)
    tracked.fit.order
  exact tracked.counted fragment (by simp only [fragments, List.mem_append, member, or_true])

theorem head (tracked : q.Tracked g R C) (tracks : Tracks R C) :
    C (q.outline g).head (q.bound.select.map some) := by
  have each (entry : Selection) (member : entry ∈ q.columns) : C (entry.pieces g) entry.slots := by
    refine entry.tracked tracks (fun s inside => tracked.subs s ?_)
      (fun fragment inside => tracked.counted fragment ?_)
    · have listed := List.mem_flatMap.mpr ⟨entry, member, inside⟩
      simp [subqueries, listed]
    · have listed := List.mem_flatMap.mpr ⟨entry, member, inside⟩
      simp [fragments, listed]
  refine tracks.fill ?_ tracked.fit.select
  rw [outline_eq, Selection.parts_eq_map]
  refine tracks.text ?_
  split
  · rename_i empty
    rw [List.isEmpty_iff.mp empty]
    exact tracks.fixed Fixed.nil.text
  · exact tracks.join each

/-- The clauses behind the select list fill their sections in order. -/
theorem clauses (tracked : q.Tracked g R C) (tracks : Tracks R C) :
    C (sentence (q.outline g).clauses)
      ((q.bound.source ++ q.bound.condition ++ q.bound.having ++ q.bound.order).map some) := by
  have joins := tracks.fixed (g.joinClause_fixed q.joins)
  have groups := tracks.fixed (g.groupClause_fixed q.groups)
  have limit := tracks.fixed (g.dialect.limitClause_fixed q.limit q.offset)
  have offset := tracks.fixed (g.dialect.offsetClause_fixed q.offset)
  have lock := tracks.fixed (g.dialect.lockClause_fixed q.lock)
  have nothing : C (sentence []) [] := tracks.fixed Fixed.nil
  have paging := tracks.sentence limit (tracks.sentence offset (tracks.sentence lock nothing))
  have behind := tracks.sentence (tracked.havings tracks "having ")
    (tracks.sentence (tracked.orders tracks) paging)
  have chosen := tracks.sentence (tracked.wheres tracks "where ") (tracks.sentence groups behind)
  have all := tracks.sentence (tracked.source tracks) (tracks.sentence joins chosen)
  rw [outline_eq]
  simpa using all

theorem whole (tracked : q.Tracked g R C) (tracks : Tracks R C) :
    C (q.pieces g) (q.values.map some) := by
  have all := tracks.sentence (tracked.head tracks) (tracked.clauses tracks)
  simpa [Query.pieces, Outline.pieces, Query.values, Bindings.all, tracked.fit.join,
    tracked.fit.group] using all

end Tracked

/-- Queries of which every one fits its sections are tracked wherever they stand. -/
theorem Everywhere.tracked {q : Query} {R : String → Nat → Prop}
    {C : List Piece → List (Option Value) → Prop} (tracks : Tracks R C)
    (all : q.Everywhere fun q =>
      q.SectionsFit ∧ ∀ fragment ∈ q.fragments, R fragment.1 fragment.2) : q.Tracked g R C := by
  induction all with
  | intro here _ ih => exact ⟨here.1, here.2, fun s member => (ih s member).whole tracks⟩

/-- A query whose sections fit, whose fragments are exact and whose subqueries write the places of
their values. -/
structure Accounted (g : Grammar) (q : Query) : Prop where
  fit : q.SectionsFit
  counted : q.FragmentsExact
  subs : ∀ s ∈ q.subqueries, s.Carried g

namespace Accounted

variable {q : Query}

theorem tracked (accounted : q.Accounted g) : q.Tracked g MarksExact (Carries g.dialect) :=
  ⟨accounted.fit, accounted.counted, accounted.subs⟩

theorem wheres (accounted : q.Accounted g) (keyword : String) :
    Carries g.dialect (Linked.clause g keyword q.wheres) (q.bound.condition.map some) :=
  accounted.tracked.wheres (carries_tracks g.dialect) keyword

theorem orders (accounted : q.Accounted g) :
    Carries g.dialect (g.orderClause q.orders) (q.bound.order.map some) :=
  accounted.tracked.orders (carries_tracks g.dialect)

theorem clauses (accounted : q.Accounted g) :
    Carries g.dialect (sentence (q.outline g).clauses)
      ((q.bound.source ++ q.bound.condition ++ q.bound.having ++ q.bound.order).map some) :=
  accounted.tracked.clauses (carries_tracks g.dialect)

theorem carried (accounted : q.Accounted g) : q.Carried g :=
  accounted.tracked.whole (carries_tracks g.dialect)

end Accounted

/-- Coherent queries write the places of their own values wherever they stand. -/
theorem Everywhere.accounted {q : Query}
    (all : q.Everywhere fun q => q.SectionsFit ∧ q.FragmentsExact) : q.Accounted g := by
  have tracked : q.Tracked g MarksExact (Carries g.dialect) :=
    Everywhere.tracked (carries_tracks g.dialect) all
  exact ⟨tracked.fit, tracked.counted, tracked.subs⟩

end Query

/-- A coherent query numbers its places one by one from `offset + 1` on, in the order of its values,
each place standing for the value at its position. -/
theorem select_binds (g : Grammar) (q : Query) (offset : Nat) (coherent : q.Coherent)
    (counted : q.Everywhere Query.FragmentsExact) :
    Binds g.dialect offset (q.pieces g) q.values ∧
      (g.dialect = .postgres →
        markTexts g.dialect (stretchesFrom g.dialect offset (q.pieces g)) =
          (List.range' (offset + 1) q.values.length).map fun number => "$" ++ toString number) := by
  have binds : Binds g.dialect offset (q.pieces g) q.values :=
    (coherent.and counted).accounted.carried.binds offset
  exact ⟨binds, binds.markTexts_eq⟩

/-- A query on a plain table with one condition. -/
def activeUsers : Query where
  source := some (.table "users" none)
  wheres := [.mk .and (.compare "active" "=" (.value (.bool true)))]
  bound := { condition := [.bool true] }

/-- A raw entry, a query as source, a group around a query, and a raw ordering. -/
def layeredQuery : Query where
  columns := [.raw "coalesce(a, ?)" 1]
  source := some (.sub activeUsers "u")
  wheres := [.mk .and (.group
    [.mk .and (.exists activeUsers false),
     .mk .or (.between "b" (.value .null) (.value .default) false)])]
  orders := [.raw "field(c, ?, ?)" 2]
  bound :=
    { select := [.text "x"], source := [.bool true], condition := [.bool true, .null, .default]
      order := [.text "y", .text "z"] }

theorem activeUsers_coherent : activeUsers.Coherent := by
  refine .intro ⟨⟨⟨rfl, ?_, rfl, ?_, ?_⟩, ?_⟩, ?_⟩ ?_ <;>
    simp [activeUsers, Fits, Linked.slots, Condition.slots, Operand.values, Source.slots,
      Query.subqueries, Source.subqueries, Linked.subqueries, Condition.subqueries,
      Operand.subqueries]

theorem activeUsers_fragments : activeUsers.Everywhere Query.FragmentsExact := by
  refine .intro ?_ ?_ <;>
    simp [activeUsers, Query.FragmentsExact, Query.fragments, Linked.fragments,
      Condition.fragments, Query.subqueries, Source.subqueries, Linked.subqueries,
      Condition.subqueries, Operand.subqueries]

theorem layeredQuery_subqueries : layeredQuery.subqueries = [activeUsers, activeUsers] := by
  simp [layeredQuery, Query.subqueries, Selection.subqueries, Source.subqueries,
    Linked.subqueries, Condition.subqueries, Operand.subqueries]

theorem layeredQuery_coherent : layeredQuery.Coherent := by
  refine .intro ⟨⟨⟨rfl, ?_, rfl, ?_, ?_⟩, ?_⟩, ?_⟩ ?_
  case refine_6 =>
    rw [layeredQuery_subqueries]
    have inner : activeUsers.Everywhere Query.SectionsFit := activeUsers_coherent
    simpa using inner
  all_goals
    simp [layeredQuery, activeUsers, Fits, Selection.slots, Linked.slots, Condition.slots,
      Operand.values, Source.slots, Ordering.slots, Query.values, Bindings.all]

theorem layeredQuery_fragments : layeredQuery.Everywhere Query.FragmentsExact := by
  refine .intro ?_ ?_
  · intro fragment member
    simp [layeredQuery, Query.fragments, Selection.fragments, Linked.fragments,
      Condition.fragments, Ordering.fragments] at member
    rcases member with same | same
    · subst same
      decide
    · subst same
      decide
  · rw [layeredQuery_subqueries]
    simpa using activeUsers_fragments

/-- Behind two places the six places of a layered query are numbered three to eight. -/
theorem select_binds_layered : layeredQuery.Coherent ∧
    layeredQuery.Everywhere Query.FragmentsExact ∧
    Binds .postgres 2 (layeredQuery.pieces ⟨.postgres, "app_"⟩) layeredQuery.values :=
  ⟨layeredQuery_coherent, layeredQuery_fragments,
    (select_binds ⟨.postgres, "app_"⟩ layeredQuery 2 layeredQuery_coherent
      layeredQuery_fragments).1⟩

end Sqlwright
