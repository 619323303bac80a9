import Sqlwright.Proofs.BuilderExchange
import Sqlwright.Proofs.WriteExchange

/-!
Exchanging values in builder calls. Calls that differ only in bound values build queries that differ
only in bound values, and so compile to the same texts.
-/

namespace Sqlwright

variable {R : Value → Value → Prop}

namespace Arg

/-- The text of a bound text. -/
def text? : Arg → Option String
  | .value (.text s) => some s
  | _ => none

end Arg

/-- A call without values and without calls inside it. -/
def Call.IsPlain : Call → Prop
  | .table _ | .distinct | .columns _ _ _ _ | .columnRows _ | .nulls _ _ _ | .join _ _ _ _ _
  | .crossJoin _ | .joinWith _ | .groupBy _ | .orderBy _ _ | .limit _ | .offset _ | .forPage _ _
  | .lock _ | .strict _ | .reset => True
  | _ => False

mutual

inductive Arg.Alike (R : Value → Value → Prop) : Arg → Arg → Prop where
  | value {v w : Value} (exchanged : R v w) : Arg.Alike R (.value v) (.value w)
  | raw (sql : String) : Arg.Alike R (.raw sql) (.raw sql)
  | column (name : String) : Arg.Alike R (.column name) (.column name)
  | sub {calls others : List Call} (inner : List.Forall₂ (Call.Alike R) calls others) :
      Arg.Alike R (.sub calls) (.sub others)

inductive Item.Alike (R : Value → Value → Prop) : Item → Item → Prop where
  | columns (list : String) : Item.Alike R (.columns list) (.columns list)
  | raw (sql : String) (places : Nat) : Item.Alike R (.raw sql places) (.raw sql places)
  | sub {calls others : List Call} (inner : List.Forall₂ (Call.Alike R) calls others)
      (label : String) : Item.Alike R (.sub calls label) (.sub others label)

/-- Calls that differ only in bound values, also inside nested builders. In a condition row only the
last cell is bound. -/
inductive Call.Alike (R : Value → Value → Prop) : Call → Call → Prop where
  | plain {call : Call} (plain : call.IsPlain) : Call.Alike R call call
  | fromSub {calls others : List Call} (inner : List.Forall₂ (Call.Alike R) calls others)
      (label : String) : Call.Alike R (.fromSub calls label) (.fromSub others label)
  | select {items others : List Item} (entries : List.Forall₂ (Item.Alike R) items others) :
      Call.Alike R (.select items) (.select others)
  | addSelect {items others : List Item} (entries : List.Forall₂ (Item.Alike R) items others) :
      Call.Alike R (.addSelect items) (.addSelect others)
  | selectRaw (sql : String) {vs ws : List Value} (exchanged : Exchanged R vs ws) :
      Call.Alike R (.selectRaw sql vs) (.selectRaw sql ws)
  | selectSub {calls others : List Call} (inner : List.Forall₂ (Call.Alike R) calls others)
      (label : String) : Call.Alike R (.selectSub calls label) (.selectSub others label)
  | compare (link : Connective) (column operator : String) {v w : Arg} (values : Arg.Alike R v w) :
      Call.Alike R (.compare link column operator v) (.compare link column operator w)
  | compareSub (column operator : String) {calls others : List Call}
      (inner : List.Forall₂ (Call.Alike R) calls others) :
      Call.Alike R (.compareSub column operator calls) (.compareSub column operator others)
  | subCompare {calls others : List Call} (inner : List.Forall₂ (Call.Alike R) calls others)
      (operator : String) {v w : Arg} (values : Arg.Alike R v w) :
      Call.Alike R (.subCompare calls operator v) (.subCompare others operator w)
  | group (link : Connective) {calls others : List Call}
      (inner : List.Forall₂ (Call.Alike R) calls others) :
      Call.Alike R (.group link calls) (.group link others)
  | rows (link : Connective) {rows others : List (List Arg)}
      (cells : List.Forall₂ (RowAlike Arg.text? (Arg.Alike R)) rows others) :
      Call.Alike R (.rows link rows) (.rows link others)
  | raw (link : Connective) (sql : String) {vs ws : List Value} (exchanged : Exchanged R vs ws) :
      Call.Alike R (.raw link sql vs) (.raw link sql ws)
  | between (link : Connective) (column : String) {ends others : List Arg}
      (values : List.Forall₂ (Arg.Alike R) ends others) (negated : Bool) :
      Call.Alike R (.between link column ends negated) (.between link column others negated)
  | among (link : Connective) (column : String) {vs ws : List Arg}
      (values : List.Forall₂ (Arg.Alike R) vs ws) (negated : Bool) :
      Call.Alike R (.among link column vs negated) (.among link column ws negated)
  | amongSub (column : String) {calls others : List Call}
      (inner : List.Forall₂ (Call.Alike R) calls others) (negated : Bool) :
      Call.Alike R (.amongSub column calls negated) (.amongSub column others negated)
  | exists (link : Connective) {calls others : List Call}
      (inner : List.Forall₂ (Call.Alike R) calls others) (negated : Bool) :
      Call.Alike R (.exists link calls negated) (.exists link others negated)
  | datePart (link : Connective) (part : DatePart) (column operator : String) {v w : Arg}
      (values : Arg.Alike R v w) :
      Call.Alike R (.datePart link part column operator v) (.datePart link part column operator w)
  | branch (condition : Bool) {yes no yes' no' : List Call}
      (first : List.Forall₂ (Call.Alike R) yes yes')
      (second : List.Forall₂ (Call.Alike R) no no') :
      Call.Alike R (.branch condition yes no) (.branch condition yes' no')
  | having (link : Connective) (column operator : String) {v w : Arg} (values : Arg.Alike R v w) :
      Call.Alike R (.having link column operator v) (.having link column operator w)
  | havingRaw (sql : String) {vs ws : List Value} (exchanged : Exchanged R vs ws) :
      Call.Alike R (.havingRaw sql vs) (.havingRaw sql ws)
  | orderByRaw (sql : String) {vs ws : List Value} (exchanged : Exchanged R vs ws) :
      Call.Alike R (.orderByRaw sql vs) (.orderByRaw sql ws)

end

theorem Call.run_plain {b c : Builder} {call : Call} (plain : call.IsPlain) (alike : b.Alike R c) :
    (call.run b).Alike R (call.run c) := by
  match call, plain with
  | .table name, _ => exact ⟨alike.grammar, alike.query.table name⟩
  | .distinct, _ => exact ⟨alike.grammar, alike.query.settings (fun _ => true) id id id id id⟩
  | .columns link first operator second, _ => exact alike.whereColumns link first operator second
  | .columnRows lists, _ => exact alike.whereColumnRows lists
  | .nulls link names negated, _ =>
    exact .foldl (fun b column => b.whereNull link column negated)
      (fun _ _ _ _ later same => same ▸ later.whereNull link _ negated) alike
      (List.forall₂_same.mpr fun _ _ => rfl)
  | .join kind name first operator second, _ => exact alike.join kind name first operator second
  | .crossJoin name, _ => exact alike.addJoin _
  | .joinWith joined, _ => exact alike.addJoin joined
  | .groupBy lists, _ =>
    exact ⟨alike.grammar, alike.query.settings id id (· ++ lists.flatMap Text.commaList) id id id⟩
  | .orderBy column direction, _ => exact alike.orderBy column direction
  | .limit count, _ =>
    exact ⟨alike.grammar, alike.query.settings id id id (fun _ => some count) id id⟩
  | .offset count, _ =>
    exact ⟨alike.grammar, alike.query.settings id id id id (fun _ => some count) id⟩
  | .forPage page perPage, _ =>
    exact ⟨alike.grammar, alike.query.settings id id id (fun _ => some perPage)
      (fun _ => some (min ((page - 1) * perPage) Number.maxWide)) id⟩
  | .lock mode, _ => exact ⟨alike.grammar, alike.query.settings id id id id id fun _ => some mode⟩
  | .strict flag, _ => exact ⟨alike.grammar, alike.query⟩
  | .reset, _ => exact alike.fresh

theorem Arg.operand_text? (arg : Arg) (b : Builder) : (arg.operand b).text? = arg.text? := by
  cases arg with
  | value v => cases v <;> rfl
  | raw | column | sub => rfl

mutual

theorem Arg.operand_alike (exchange : Exchange R) {arg other : Arg} (same : arg.Alike R other)
    {b c : Builder} (alike : b.Alike R c) : (arg.operand b).Alike R (other.operand c) := by
  cases same with
  | value exchanged => exact .value exchanged
  | raw sql => exact .raw sql
  | column name => exact .column name
  | sub inner => exact .sub (Call.runAll_alike exchange inner alike.fresh).query
termination_by structural arg

theorem Arg.operands_alike (exchange : Exchange R) {args others : List Arg}
    (same : List.Forall₂ (Arg.Alike R) args others) {b c : Builder} (alike : b.Alike R c) :
    List.Forall₂ (Operand.Alike R) (Arg.operands args b) (Arg.operands others c) := by
  cases same with
  | nil => exact .nil
  | cons head tail =>
    exact .cons (Arg.operand_alike exchange head alike) (Arg.operands_alike exchange tail alike)
termination_by structural args

theorem Arg.row_alike (exchange : Exchange R) {row other : List Arg}
    (same : RowAlike Arg.text? (Arg.Alike R) row other) {b c : Builder} (alike : b.Alike R c) :
    RowAlike Operand.text? (Operand.Alike R) (Arg.operands row b) (Arg.operands other c) := by
  cases same with
  | empty => exact .empty
  | last cells => exact .last (Arg.operand_alike exchange cells alike)
  | front texts rest =>
    refine .front ?_ (Arg.row_alike exchange rest alike)
    rw [Arg.operand_text?, Arg.operand_text?]
    exact texts
termination_by structural row

theorem Arg.operandRows_alike (exchange : Exchange R) {rows others : List (List Arg)}
    (same : List.Forall₂ (RowAlike Arg.text? (Arg.Alike R)) rows others) {b c : Builder}
    (alike : b.Alike R c) : List.Forall₂ (RowAlike Operand.text? (Operand.Alike R))
      (Arg.operandRows rows b) (Arg.operandRows others c) := by
  cases same with
  | nil => exact .nil
  | cons head tail =>
    exact .cons (Arg.row_alike exchange head alike) (Arg.operandRows_alike exchange tail alike)
termination_by structural rows

theorem Item.add_alike (exchange : Exchange R) {item other : Item} (same : item.Alike R other)
    {b c : Builder} (alike : b.Alike R c) : (item.add b).Alike R (other.add c) := by
  cases same with
  | columns list => exact ⟨alike.grammar, alike.query.selectColumns (Text.commaList list)⟩
  | raw sql places => exact alike.addSelection (.raw sql places) .nil
  | sub inner label =>
    have queries := (Call.runAll_alike exchange inner alike.fresh).query
    exact alike.addSelection (.sub queries label) queries.values
termination_by structural item

theorem Item.addAll_alike (exchange : Exchange R) {items others : List Item}
    (same : List.Forall₂ (Item.Alike R) items others) {b c : Builder} (alike : b.Alike R c) :
    (Item.addAll items b).Alike R (Item.addAll others c) := by
  cases same with
  | nil => exact alike
  | cons head tail => exact Item.addAll_alike exchange tail (Item.add_alike exchange head alike)
termination_by structural items

theorem Call.run_alike (exchange : Exchange R) {call other : Call} (same : call.Alike R other)
    {b c : Builder} (alike : b.Alike R c) : (call.run b).Alike R (other.run c) := by
  cases same with
  | plain plain => exact Call.run_plain plain alike
  | fromSub inner label =>
    exact alike.fromQuery (Call.runAll_alike exchange inner alike.fresh).query label
  | select entries =>
    have cleared : b.clearSelect.Alike R c.clearSelect := ⟨alike.grammar, alike.query.clearSelect⟩
    exact Item.addAll_alike exchange entries cleared
  | addSelect entries => exact Item.addAll_alike exchange entries alike
  | selectRaw sql exchanged => exact alike.selectRaw sql exchanged
  | selectSub inner label =>
    have queries := (Call.runAll_alike exchange inner alike.fresh).query
    exact alike.addSelection (.sub queries label) queries.values
  | compare link column operator values =>
    exact alike.whereCompare exchange link column operator (Arg.operand_alike exchange values alike)
  | compareSub column operator inner =>
    exact alike.whereCompare exchange .and column operator
      (.sub (Call.runAll_alike exchange inner alike.fresh).query)
  | subCompare inner operator values =>
    exact alike.whereQueryCompare (Call.runAll_alike exchange inner alike.fresh).query operator
      (Arg.operand_alike exchange values alike)
  | group link inner =>
    exact alike.addGroup link (Call.runAll_alike exchange inner alike.freshGroup).query
  | rows link cells =>
    exact alike.whereRows exchange link (Arg.operandRows_alike exchange cells alike)
  | raw link sql exchanged => exact alike.whereRaw link sql exchanged
  | between link column values negated =>
    exact alike.whereBetween link column (Arg.operands_alike exchange values alike) negated
  | among link column values negated =>
    exact alike.whereAmong link column (Arg.operands_alike exchange values alike) negated
  | amongSub column inner negated =>
    have queries := (Call.runAll_alike exchange inner alike.fresh).query
    exact alike.addCondition .and (.amongSub column queries negated) queries.values
  | «exists» link inner negated =>
    have queries := (Call.runAll_alike exchange inner alike.fresh).query
    exact alike.addCondition link (.exists queries negated) queries.values
  | datePart link part column operator values =>
    exact alike.whereDatePart link part column operator (Arg.operand_alike exchange values alike)
  | branch condition first second =>
    rw [Call.run, Call.run]
    split
    · exact Call.runAll_alike exchange first alike
    · exact Call.runAll_alike exchange second alike
  | having link column operator values =>
    exact alike.having link column operator (Arg.operand_alike exchange values alike)
  | havingRaw sql exchanged => exact alike.havingRaw sql exchanged
  | orderByRaw sql exchanged => exact alike.orderByRaw sql exchanged
termination_by structural call

theorem Call.runAll_alike (exchange : Exchange R) {calls others : List Call}
    (same : List.Forall₂ (Call.Alike R) calls others) {b c : Builder} (alike : b.Alike R c) :
    (Call.runAll calls b).Alike R (Call.runAll others c) := by
  cases same with
  | nil => exact alike
  | cons head tail => exact Call.runAll_alike exchange tail (Call.run_alike exchange head alike)
termination_by structural calls

end

/-! ### Statements -/

/-- Statements of one text in a dialect whose values are exchanged position by position. -/
def Statement.Agree (R : Value → Value → Prop) (d : Dialect) (s t : Statement) : Prop :=
  s.sql d = t.sql d ∧ Exchanged R s.values t.values

theorem Statement.Alike.agree {s t : Statement} (alike : s.Alike R t) (d : Dialect) :
    s.Agree R d t :=
  ⟨alike.sql_eq d, alike.values⟩

/-- Bound values never reach the text of a statement. Calls, records and assignments that differ
only in values exchanged by `R`, NULL for NULL alone, compile to one text in every statement, and
the values bound to it differ only by the exchange. -/
theorem exchange_keeps_text (exchange : Exchange R) (b : Builder) {calls others : List Call}
    (same : List.Forall₂ (Call.Alike R) calls others) {records twins : List Record}
    (rows : List.Forall₂ (Record.Alike R) records twins) {record twin : Record}
    (set : record.Alike R twin) {update later : Overwrite} (overwritten : update.Alike R later)
    {source chosen : List Call} (sources : List.Forall₂ (Call.Alike R) source chosen)
    (function column : String) (columns key : List String) (sequence : Option String) :
    let d := b.grammar.dialect
    let first := Call.runAll calls b.fresh
    let second := Call.runAll others b.fresh
    first.select.Agree R d second.select ∧
      first.existsStatement.Agree R d second.existsStatement ∧
      (first.aggregateStatement function column).Agree R d
        (second.aggregateStatement function column) ∧
      (first.insertStatement records).Agree R d (second.insertStatement twins) ∧
      (first.insertOrIgnoreStatement records).Agree R d (second.insertOrIgnoreStatement twins) ∧
      (first.insertGetIdStatement record sequence).Agree R d
        (second.insertGetIdStatement twin sequence) ∧
      (first.insertUsingStatement columns (Call.runAll source b.fresh).query).Agree R d
        (second.insertUsingStatement columns (Call.runAll chosen b.fresh).query) ∧
      (first.updateStatement record).Agree R d (second.updateStatement twin) ∧
      first.deleteStatement.Agree R d second.deleteStatement ∧
      (first.upsertStatement records key update).Agree R d
        (second.upsertStatement twins key later) := by
  intro d first second
  have start : b.fresh.Alike R b.fresh := ⟨rfl, .empty⟩
  have built : first.Alike R second := Call.runAll_alike exchange same start
  have inner := (Call.runAll_alike exchange sources start).query
  have data := RowSet.ofRecords_alike exchange rows
  have alike := built.query
  obtain ⟨grammar, _⟩ := built
  refine ⟨?_, ?_, ?_, ?_, ?_, ?_, ?_, ?_, ?_, ?_⟩
  · unfold Builder.select
    rw [grammar]
    exact (Query.select_alike alike).agree d
  · unfold Builder.existsStatement
    rw [grammar]
    exact (Query.exists_alike alike).agree d
  · unfold Builder.aggregateStatement
    rw [grammar]
    exact (Query.aggregate_alike alike function column).agree d
  · unfold Builder.insertStatement
    rw [grammar]
    exact (Grammar.insert_alike alike data).agree d
  · unfold Builder.insertOrIgnoreStatement
    rw [grammar]
    exact (Grammar.insertOrIgnore_alike alike data).agree d
  · unfold Builder.insertGetIdStatement
    rw [grammar]
    exact (Grammar.insertGetId_alike exchange alike set sequence).agree d
  · unfold Builder.insertUsingStatement
    rw [grammar]
    exact (Grammar.insertUsing_alike alike columns inner).agree d
  · unfold Builder.updateStatement
    rw [grammar]
    exact (Grammar.update_alike alike set).agree d
  · unfold Builder.deleteStatement
    rw [grammar]
    exact (Grammar.delete_alike alike).agree d
  · simp only [Builder.upsertStatement, grammar, data.columns]
    exact (Grammar.upsert_alike alike data key (Grammar.orInserted_alike overwritten _ key)).agree d

/-- A text that would change the meaning of SQL it is written into. -/
def injected : Value := .text "1' or '1' = '1"

/-- Values stay as they are, but one number may be exchanged for the injected text. -/
def Injects (v w : Value) : Prop := v = w ∨ v = .int 1 ∧ w = injected

theorem injects_exchange : Exchange Injects where
  null := .inl rfl
  isNull := by
    rintro v w (same | ⟨number, text⟩)
    · rw [same]
    · rw [number, text]
      rfl

/-- The calls of a lookup by a value: in a condition, in the last cell of a row and in a query. -/
def lookup (value : Value) : List Call :=
  [.table "users", .compare .and "id" "=" (.value value),
   .rows .or [[.value (.text "role"), .value (.text "<>"), .value value]],
   .exists .and [.table "sessions", .raw .and "user_id = ?" [value]] false]

theorem lookup_alike {v w : Value} (exchanged : R v w) :
    List.Forall₂ (Call.Alike R) (lookup v) (lookup w) := by
  have cells : RowAlike Arg.text? (Arg.Alike R)
      [.value (.text "role"), .value (.text "<>"), .value v]
      [.value (.text "role"), .value (.text "<>"), .value w] :=
    .front rfl (.front rfl (.last (.value exchanged)))
  have inner : List.Forall₂ (Call.Alike R) [.table "sessions", .raw .and "user_id = ?" [v]]
      [.table "sessions", .raw .and "user_id = ?" [w]] :=
    .cons (.plain trivial) (.cons (.raw .and _ (.cons exchanged .nil)) .nil)
  exact .cons (.plain trivial) (.cons (.compare .and "id" "=" (.value exchanged))
    (.cons (.rows .or (.cons cells .nil)) (.cons (.exists .and inner false) .nil)))

/-- A lookup and an update by the injected text are written like those by a number. -/
theorem exchange_keeps_text_injected : Exchange Injects ∧
    List.Forall₂ (Call.Alike Injects) (lookup (.int 1)) (lookup injected) ∧
    (Builder.select (Call.runAll (lookup (.int 1)) { grammar := ⟨.postgres, ""⟩ })).Agree Injects
      .postgres (Builder.select (Call.runAll (lookup injected) { grammar := ⟨.postgres, ""⟩ })) ∧
    (Builder.updateStatement (Call.runAll (lookup (.int 1)) { grammar := ⟨.postgres, ""⟩ })
      ⟨[("name", .value (.int 1))]⟩).Agree Injects .postgres
      (Builder.updateStatement (Call.runAll (lookup injected) { grammar := ⟨.postgres, ""⟩ })
        ⟨[("name", .value injected)]⟩) := by
  have changed : Injects (.int 1) injected := .inr ⟨rfl, rfl⟩
  have calls : List.Forall₂ (Call.Alike Injects) (lookup (.int 1)) (lookup injected) :=
    lookup_alike changed
  have set : Record.Alike Injects ⟨[("name", .value (.int 1))]⟩ ⟨[("name", .value injected)]⟩ :=
    .cons ⟨rfl, .value changed⟩ .nil
  have all := exchange_keeps_text injects_exchange { grammar := ⟨.postgres, ""⟩ } calls
    (.cons set .nil) set (.values set) calls "count" "*" ["name"] [] none
  exact ⟨injects_exchange, calls, all.1, all.2.2.2.2.2.2.2.1⟩

end Sqlwright
