import Sqlwright.Query.Execute
import Sqlwright.Proofs.BuilderTrace
import Sqlwright.Proofs.CallExchange

/-!
Strict building. Which input of a call is repaired or skipped is read off the call. What happens on
the builder or in a group ends up in the issues of the query, in order, and a strict builder then
refuses to read or write. What happens inside a query that is taken in stays with that query, and a
strict builder does not see it.
-/

namespace Sqlwright

/-! ### What is repaired or skipped -/

/-- An operator that the dialect does not know is repaired. -/
def Grammar.operatorIssues (g : Grammar) (symbol : String) : List Issue :=
  if g.isOperator (Text.trim symbol) then [] else [.unknownOperator (Text.trim symbol)]

/-- A direction that is not known is repaired. -/
def Direction.issues (direction : String) : List Issue :=
  if (Direction.parse? direction).isSome then [] else [.unknownDirection direction]

/-- A row of column names that is no comparison is skipped. -/
def Grammar.columnRowIssues (g : Grammar) (row : List String) : List Issue :=
  match row with
  | [_, _] => []
  | [_, operator, _] => g.operatorIssues operator
  | _ => [.malformedColumns row]

namespace Arg

/-- The form of an operand that is shown in diagnostics. -/
def diagnostic : Arg → String
  | .value v => (Operand.value v).diagnostic
  | .raw sql => (Operand.raw sql).diagnostic
  | .column name => (Operand.column name).diagnostic
  | .sub _ => (Operand.sub {}).diagnostic

/-- A condition row that is no comparison is skipped. -/
def rowIssues (g : Grammar) (row : List Arg) : List Issue :=
  let malformed := [Issue.malformedRow (bracketed (row.map diagnostic))]
  match row with
  | [first, _] => if first.text?.isSome then [] else malformed
  | [first, operator, _] =>
    match first.text?, operator.text? with
    | some _, some symbol => g.operatorIssues symbol
    | _, _ => malformed
  | _ => malformed

/-- A range with fewer than two ends is skipped. -/
def rangeIssues (column : String) (ends : List Arg) : List Issue :=
  match ends with
  | _ :: _ :: _ => []
  | _ => [.openRange column]

theorem operand_diagnostic (arg : Arg) (b : Builder) :
    (arg.operand b).diagnostic = arg.diagnostic := by
  cases arg <;> rfl

theorem operands_diagnostic (args : List Arg) (b : Builder) :
    (operands args b).map Operand.diagnostic = args.map diagnostic := by
  induction args with
  | nil => rfl
  | cons arg rest ih => simp [operands, operand_diagnostic, ih]

theorem operandRows_eq_map (rows : List (List Arg)) (b : Builder) :
    operandRows rows b = rows.map fun row => operands row b := by
  induction rows with
  | nil => rfl
  | cons row rest ih => simp [operandRows, ih]

end Arg

mutual

/-- What a call repairs or skips on the builder and in its groups. -/
def Call.repairs (g : Grammar) : Call → List Issue
  | .compare _ _ operator _ | .compareSub _ operator _ | .subCompare _ operator _
  | .columns _ _ operator _ | .datePart _ _ _ operator _ | .join _ _ _ operator _
  | .having _ _ operator _ => g.operatorIssues operator
  | .rows _ cells => cells.flatMap (Arg.rowIssues g)
  | .columnRows names => names.flatMap g.columnRowIssues
  | .between _ column ends _ => Arg.rangeIssues column ends
  | .orderBy _ direction => Direction.issues direction
  | .group _ calls => Call.allRepairs g calls
  | .branch condition yes no =>
    if condition then Call.allRepairs g yes else Call.allRepairs g no
  | _ => []

def Call.allRepairs (g : Grammar) : List Call → List Issue
  | [] => []
  | call :: rest => call.repairs g ++ Call.allRepairs g rest

end

mutual

/-- What a call repairs or skips inside the queries it takes in, at any depth. -/
def Call.innerRepairs (g : Grammar) : Call → List Issue
  | .fromSub calls _ | .selectSub calls _ | .compareSub _ _ calls | .amongSub _ calls _
  | .exists _ calls _ => Call.allRepairs g calls ++ Call.allInnerRepairs g calls
  | .subCompare calls _ value =>
    Call.allRepairs g calls ++ Call.allInnerRepairs g calls ++ value.innerRepairs g
  | .select items | .addSelect items => Item.allInnerRepairs g items
  | .compare _ _ _ value | .datePart _ _ _ _ value | .having _ _ _ value => value.innerRepairs g
  | .rows _ cells => Arg.rowsInnerRepairs g cells
  | .between _ _ ends _ => Arg.allInnerRepairs g ends
  | .among _ _ values _ => Arg.allInnerRepairs g values
  | .group _ calls => Call.allInnerRepairs g calls
  | .branch condition yes no =>
    if condition then Call.allInnerRepairs g yes else Call.allInnerRepairs g no
  | _ => []

def Call.allInnerRepairs (g : Grammar) : List Call → List Issue
  | [] => []
  | call :: rest => call.innerRepairs g ++ Call.allInnerRepairs g rest

def Arg.innerRepairs (g : Grammar) : Arg → List Issue
  | .sub calls => Call.allRepairs g calls ++ Call.allInnerRepairs g calls
  | _ => []

def Arg.allInnerRepairs (g : Grammar) : List Arg → List Issue
  | [] => []
  | arg :: rest => arg.innerRepairs g ++ Arg.allInnerRepairs g rest

def Arg.rowsInnerRepairs (g : Grammar) : List (List Arg) → List Issue
  | [] => []
  | row :: rest => Arg.allInnerRepairs g row ++ Arg.rowsInnerRepairs g rest

def Item.innerRepairs (g : Grammar) : Item → List Issue
  | .sub calls _ => Call.allRepairs g calls ++ Call.allInnerRepairs g calls
  | _ => []

def Item.allInnerRepairs (g : Grammar) : List Item → List Issue
  | [] => []
  | item :: rest => item.innerRepairs g ++ Item.allInnerRepairs g rest

end

mutual

/-- A call discards what the builder or one of its groups has. -/
def Call.resets : Call → Bool
  | .reset => true
  | .group _ calls => Call.anyResets calls
  | .branch condition yes no => if condition then Call.anyResets yes else Call.anyResets no
  | _ => false

def Call.anyResets : List Call → Bool
  | [] => false
  | call :: rest => call.resets || Call.anyResets rest

end

/-! ### What is reported -/

/-- A builder keeps its grammar and its issues, and further ones are found. -/
structure Builder.Reports (b later : Builder) (found : List Issue) : Prop where
  grammar : later.grammar = b.grammar
  issues : later.query.issues = b.query.issues ++ found

namespace Builder

variable {b later last : Builder} {found more : List Issue}

theorem Reports.trans (first : b.Reports later found) (second : later.Reports last more) :
    b.Reports last (found ++ more) where
  grammar := second.grammar.trans first.grammar
  issues := by rw [second.issues, first.issues, List.append_assoc]

/-- A step that leaves the issues alone. -/
theorem Reports.nothing (grammar : later.grammar = b.grammar)
    (issues : later.query.issues = b.query.issues) : b.Reports later [] :=
  ⟨grammar, by rw [issues, List.append_nil]⟩

theorem Reports.quiet (first : b.Reports later found) (second : later.Reports last []) :
    b.Reports last found := by
  simpa using first.trans second

theorem report_reports (b : Builder) (issue : Issue) : b.Reports (b.report issue) [issue] :=
  ⟨rfl, rfl⟩

/-- Steps taken for the items of a list report what each of them is reported for, in order. -/
theorem foldl_reports {α : Type} {step : Builder → α → Builder} (issues : Grammar → α → List Issue)
    (each : ∀ (b : Builder) (item : α), b.Reports (step b item) (issues b.grammar item))
    (items : List α) (b : Builder) :
    b.Reports (items.foldl step b) (items.flatMap (issues b.grammar)) := by
  induction items generalizing b with
  | nil => exact ⟨rfl, by simp⟩
  | cons item rest ih =>
    have head := each b item
    have tail := ih (step b item)
    rw [head.grammar] at tail
    exact head.trans tail

theorem operator_reports (b : Builder) (symbol : String) :
    b.Reports (b.operator symbol).2 (b.grammar.operatorIssues symbol) := by
  by_cases known : b.grammar.isOperator (Text.trim symbol)
  · simp only [operator, Grammar.operatorIssues, known, if_true]
    exact ⟨rfl, by simp⟩
  · simp only [operator, Grammar.operatorIssues, known]
    exact b.report_reports _

theorem addCondition_quiet (b : Builder) (link : Connective) (condition : Condition)
    (values : List Value) : b.Reports (b.addCondition link condition values) [] :=
  .nothing rfl rfl

theorem whereCompare_reports (b : Builder) (link : Connective) (column symbol : String)
    (value : Operand) :
    b.Reports (b.whereCompare link column symbol value) (b.grammar.operatorIssues symbol) := by
  have repaired := b.operator_reports symbol
  rw [whereCompare_eq]
  split
  · exact repaired.quiet (addCondition_quiet _ link _ _)
  · exact repaired.quiet (addCondition_quiet _ link _ _)

theorem whereColumns_reports (b : Builder) (link : Connective) (first symbol second : String) :
    b.Reports (b.whereColumns link first symbol second) (b.grammar.operatorIssues symbol) :=
  (b.operator_reports symbol).quiet (addCondition_quiet _ link _ _)

/-- The issues of a group are handed over, also where the group has no conditions. -/
theorem addGroup_reports (b : Builder) (link : Connective) (child : Query) :
    b.Reports (b.addGroup link child) child.issues := by
  have handed : b.Reports (b.edit fun q => { q with issues := q.issues ++ child.issues })
      child.issues := ⟨rfl, rfl⟩
  unfold addGroup
  split
  · exact handed
  · exact handed.quiet (addCondition_quiet _ link _ _)

theorem operatorIssues_eq (g : Grammar) : g.operatorIssues "=" = [] := by
  have trimmed : Text.trim "=" = "=" := by decide +kernel
  rw [Grammar.operatorIssues, trimmed, isOperator_eq, if_pos rfl]

theorem whereColumnRow_reports (b : Builder) (row : List String) :
    b.Reports (b.whereColumnRow row) (b.grammar.columnRowIssues row) := by
  match row with
  | [first, second] =>
    have compared := b.whereColumns_reports .and first "=" second
    rw [operatorIssues_eq] at compared
    exact compared
  | [first, operator, second] => exact b.whereColumns_reports .and first operator second
  | [] | [_] | _ :: _ :: _ :: _ :: _ => exact b.report_reports _

theorem whereColumnRows_reports (b : Builder) (rows : List (List String)) :
    b.Reports (b.whereColumnRows rows) (rows.flatMap b.grammar.columnRowIssues) := by
  have child := foldl_reports Grammar.columnRowIssues whereColumnRow_reports rows b.freshGroup
  have handed := b.addGroup_reports .and (rows.foldl whereColumnRow b.freshGroup).query
  rw [child.issues] at handed
  exact handed

theorem whereRow_reports (b start : Builder) (row : List Arg) :
    b.Reports (b.whereRow (Arg.operands row start)) (Arg.rowIssues b.grammar row) := by
  have malformed : b.Reports
      (b.report (.malformedRow (bracketed ((Arg.operands row start).map Operand.diagnostic))))
      [.malformedRow (bracketed (row.map Arg.diagnostic))] := by
    rw [Arg.operands_diagnostic]
    exact b.report_reports _
  match row with
  | [first, value] =>
    simp only [Arg.operands, whereRow, Arg.rowIssues, Arg.operand_text?] at malformed ⊢
    cases first.text? with
    | none => exact malformed
    | some column =>
      have compared := b.whereCompare_reports .and column "=" (value.operand start)
      rw [operatorIssues_eq] at compared
      exact compared
  | [first, operator, value] =>
    simp only [Arg.operands, whereRow, Arg.rowIssues, Arg.operand_text?] at malformed ⊢
    cases first.text? with
    | none => exact malformed
    | some column =>
      cases operator.text? with
      | none => exact malformed
      | some symbol => exact b.whereCompare_reports .and column symbol (value.operand start)
  | [] | [_] | _ :: _ :: _ :: _ :: _ => exact malformed

theorem whereRows_reports (b start : Builder) (link : Connective) (rows : List (List Arg)) :
    b.Reports (b.whereRows link (Arg.operandRows rows start))
      (rows.flatMap (Arg.rowIssues b.grammar)) := by
  have child :=
    foldl_reports Arg.rowIssues (fun b row => b.whereRow_reports start row) rows b.freshGroup
  have handed := b.addGroup_reports link
    (rows.foldl (fun b row => b.whereRow (Arg.operands row start)) b.freshGroup).query
  rw [child.issues] at handed
  rw [whereRows, Arg.operandRows_eq_map, List.foldl_map]
  exact handed

theorem whereBetween_reports (b start : Builder) (link : Connective) (column : String)
    (ends : List Arg) (negated : Bool) :
    b.Reports (b.whereBetween link column (Arg.operands ends start) negated)
      (Arg.rangeIssues column ends) := by
  match ends with
  | low :: high :: _ => exact b.addCondition_quiet link _ _
  | [] | [_] => exact b.report_reports _

theorem orderBy_reports (b : Builder) (column direction : String) :
    b.Reports (b.orderBy column direction) (Direction.issues direction) := by
  unfold orderBy Direction.issues
  cases Direction.parse? direction with
  | some known => exact .nothing rfl rfl
  | none => exact (b.report_reports _).quiet (.nothing rfl rfl)

end Builder

theorem Item.addAll_quiet (items : List Item) (b : Builder) :
    b.Reports (Item.addAll items b) [] := by
  induction items generalizing b with
  | nil => exact .nothing rfl rfl
  | cons item rest ih =>
    have head : b.Reports (item.add b) [] := by
      cases item <;> exact .nothing rfl rfl
    exact head.quiet (ih (item.add b))

mutual

theorem Call.run_reports (call : Call) (b : Builder) (kept : call.resets = false) :
    b.Reports (call.run b) (call.repairs b.grammar) := by
  match call with
  | .table _ | .fromSub _ _ | .selectRaw _ _ | .selectSub _ _ | .distinct | .raw _ _ _
  | .among _ _ _ _ | .amongSub _ _ _ | .exists _ _ _ | .crossJoin _ | .joinWith _ | .groupBy _
  | .havingRaw _ _ | .orderByRaw _ _ | .limit _ | .offset _ | .forPage _ _ | .lock _ | .strict _ =>
    exact .nothing rfl rfl
  | .select items =>
    have cleared : b.Reports b.clearSelect [] := .nothing rfl rfl
    exact cleared.quiet (Item.addAll_quiet items b.clearSelect)
  | .addSelect items => exact Item.addAll_quiet items b
  | .compare link column operator value => exact b.whereCompare_reports link column operator _
  | .compareSub column operator calls =>
    exact b.whereCompare_reports .and column operator (.sub (Call.runAll calls b.fresh).query)
  | .subCompare _ operator _ =>
    exact (b.operator_reports operator).quiet (Builder.addCondition_quiet _ .and _ _)
  | .datePart link _ _ operator _ =>
    exact (b.operator_reports operator).quiet (Builder.addCondition_quiet _ link _ _)
  | .columns link first operator second => exact b.whereColumns_reports link first operator second
  | .join _ _ _ operator _ => exact (b.operator_reports operator).quiet (.nothing rfl rfl)
  | .having _ _ operator _ => exact (b.operator_reports operator).quiet (.nothing rfl rfl)
  | .rows link cells => exact b.whereRows_reports b link cells
  | .columnRows names => exact b.whereColumnRows_reports names
  | .nulls link names negated =>
    have each (b : Builder) (name : String) : b.Reports (b.whereNull link name negated) [] :=
      b.addCondition_quiet link _ _
    have none : names.flatMap (fun _ => ([] : List Issue)) = [] :=
      List.flatMap_eq_nil_iff.mpr fun _ _ => rfl
    have steps := Builder.foldl_reports (fun _ _ => []) each names b
    rw [none] at steps
    exact steps
  | .between link column ends negated => exact b.whereBetween_reports b link column ends negated
  | .orderBy column direction => exact b.orderBy_reports column direction
  | .group link calls =>
    have child := Call.runAll_reports calls b.freshGroup kept
    have handed := b.addGroup_reports link (Call.runAll calls b.freshGroup).query
    rw [child.issues] at handed
    exact handed
  | .branch condition yes no =>
    cases condition with
    | true => exact Call.runAll_reports yes b kept
    | false => exact Call.runAll_reports no b kept
termination_by structural call

/-- Calls that discard nothing leave all that they repaired or skipped in the issues. -/
theorem Call.runAll_reports (calls : List Call) (b : Builder)
    (kept : Call.anyResets calls = false) :
    b.Reports (Call.runAll calls b) (Call.allRepairs b.grammar calls) := by
  match calls with
  | [] => exact .nothing rfl rfl
  | call :: rest =>
    obtain ⟨first, others⟩ := Bool.or_eq_false_iff.mp kept
    have head := Call.run_reports call b first
    have tail := Call.runAll_reports rest (call.run b) others
    rw [head.grammar] at tail
    exact head.trans tail
termination_by structural calls

end

/-! ### What a strict builder refuses -/

namespace Builder

/-- Whatever reads rows or changes them ends in a fault before anything is sent. -/
structure Refuses (b : Builder) (fault : Fault) : Prop where
  select : b.trySelect = .error fault
  getRows : b.getRows = throw fault
  first : b.first = throw fault
  hasRows : b.hasRows = throw fault
  aggregate : ∀ function column, b.aggregate function column = throw fault
  update : ∀ record, b.update record = throw fault
  delete : b.delete = throw fault

/-- Strictness changes nothing in what reads rows, nor in writes that lose no clauses. -/
structure Passes (b : Builder) : Prop where
  select : b.trySelect = .ok b.select
  getRows : b.getRows = (b.strict false).getRows
  first : b.first = (b.strict false).first
  hasRows : b.hasRows = (b.strict false).hasRows
  aggregate : ∀ function column, b.aggregate function column =
    (b.strict false).aggregate function column
  update : b.grammar.writeLimit? b.query = none → ∀ record, b.update record =
    (b.strict false).update record
  delete : b.grammar.writeLimit? b.query = none → b.delete = (b.strict false).delete

variable {b : Builder}

theorem refuses_of_issues (strict : b.isStrict = true) (found : b.query.issues ≠ []) :
    b.Refuses (.repairedInput b.query.issues) := by
  have checked : b.check = .error (.repairedInput b.query.issues) := by
    simp [check, strict, found]
  have selected : b.trySelect = .error (.repairedInput b.query.issues) := by
    simp [trySelect, checked, bind, Except.bind]
  have limited : (b.limit 1).trySelect = .error (.repairedInput b.query.issues) := by
    simp [trySelect, limit, edit, check, strict, found, bind, Except.bind]
  constructor
  · exact selected
  · rw [getRows, selected]
    rfl
  · rw [first, getRows, limited]
    rfl
  · rw [hasRows, checked]
    rfl
  · intro function column
    rw [aggregate, checked]
    rfl
  · intro record
    rw [update, checkWrite, checked]
    rfl
  · rw [delete, checkWrite, checked]
    rfl

theorem check_of_clean (clean : b.query.issues = []) : b.check = .ok () := by
  simp [check, clean]

theorem getRows_of_clean (clean : b.query.issues = []) :
    b.getRows = (b.strict false).getRows := by
  have lenient : (b.strict false).check = .ok () := check_of_clean clean
  rw [getRows, getRows, trySelect, trySelect, check_of_clean clean, lenient]
  rfl

theorem checkWrite_of_clean (clean : b.query.issues = [])
    (whole : b.grammar.writeLimit? b.query = none) : b.checkWrite = .ok () := by
  rw [checkWrite, check_of_clean clean, whole]
  rfl

theorem passes_of_clean (clean : b.query.issues = []) : b.Passes := by
  have checked : b.check = .ok () := check_of_clean clean
  have lenient : (b.strict false).check = .ok () := check_of_clean clean
  constructor
  · rw [trySelect, checked]
    rfl
  · exact getRows_of_clean clean
  · have page : (b.limit 1).getRows = ((b.limit 1).strict false).getRows := getRows_of_clean clean
    rw [first, first, page]
    rfl
  · rw [hasRows, hasRows, checked, lenient]
    rfl
  · intro function column
    rw [aggregate, aggregate, checked, lenient]
    rfl
  · intro whole record
    have kept : (b.strict false).checkWrite = .ok () := checkWrite_of_clean clean whole
    rw [update, update, checkWrite_of_clean clean whole, kept]
    rfl
  · intro whole
    have kept : (b.strict false).checkWrite = .ok () := checkWrite_of_clean clean whole
    rw [delete, delete, checkWrite_of_clean clean whole, kept]
    rfl

/-- Compiling is refused as invalid input. -/
def RefusesInput (b : Builder) : Prop :=
  ∃ fault, b.trySelect = .error fault ∧ fault.kind = .invalidInput

theorem refusesInput_iff (strict : b.isStrict = true) : b.RefusesInput ↔ b.query.issues ≠ [] := by
  constructor
  · rintro ⟨fault, refused, -⟩ clean
    rw [(passes_of_clean clean).select] at refused
    cases refused
  · intro found
    exact ⟨_, (refuses_of_issues strict found).select, rfl⟩

end Builder

/-- Calls that discard nothing make a strict builder that refuses, with the whole list, what they
repaired or skipped on the builder or in its groups, and that is otherwise like a lenient one. So it
refuses all repaired input exactly if none of it lies inside the queries that are taken in, or some
lies outside. -/
theorem strict_refuses_iff (b : Builder) (calls : List Call)
    (kept : Call.anyResets calls = false)
    (strict : (Call.runAll calls b.fresh).isStrict = true) :
    let built := Call.runAll calls b.fresh
    let own := Call.allRepairs b.grammar calls
    let inner := Call.allInnerRepairs b.grammar calls
    (own ≠ [] → built.Refuses (.repairedInput own)) ∧ (own = [] → built.Passes) ∧
      ((built.RefusesInput ↔ own ≠ [] ∨ inner ≠ []) ↔ (inner ≠ [] → own ≠ [])) := by
  intro built own inner
  have issues : built.query.issues = own := (Call.runAll_reports calls b.fresh kept).issues
  have refuses := Builder.refusesInput_iff strict
  rw [issues] at refuses
  refine ⟨fun found => ?_, fun clean => ?_, ?_⟩
  · have refused := Builder.refuses_of_issues strict (issues ▸ found)
    rwa [issues] at refused
  · exact Builder.passes_of_clean (issues.trans clean)
  · rw [refuses]
    tauto

/-- A strict builder with a range that is left open in a group and another one in a query that is
taken in. -/
def openRanges : List Call :=
  [.strict true, .table "users", .group .or [.between .and "age" [.value (.int 18)] false],
    .amongSub "id" [.table "posts", .between .and "day" [] false] false]

/-- The range in the group is refused, by whatever reads or writes. -/
theorem strict_refuses_open_group :
    (Call.anyResets openRanges = false ∧
        (Call.runAll openRanges ({ grammar := ⟨.postgres, ""⟩ } : Builder)).isStrict = true) ∧
      (Call.runAll openRanges ({ grammar := ⟨.postgres, ""⟩ } : Builder)).Refuses
        (.repairedInput [.openRange "age"]) := by
  have all := strict_refuses_iff { grammar := ⟨.postgres, ""⟩ } openRanges rfl rfl
  exact ⟨⟨rfl, rfl⟩, all.1 (List.cons_ne_nil _ _)⟩

/-- A strict builder whose only open range is in a query that is taken in. -/
def openSubquery : List Call :=
  [.strict true, .table "users",
    .amongSub "id" [.table "posts", .between .and "day" [] false] false]

/-- A strict builder compiles a query although a condition inside it was skipped. -/
theorem strict_passes_open_subquery :
    (Call.anyResets openSubquery = false ∧
        (Call.runAll openSubquery ({ grammar := ⟨.mysql, ""⟩ } : Builder)).isStrict = true) ∧
      Call.allInnerRepairs ⟨.mysql, ""⟩ openSubquery = [.openRange "day"] ∧
      ¬ (Call.runAll openSubquery ({ grammar := ⟨.mysql, ""⟩ } : Builder)).RefusesInput := by
  refine ⟨⟨rfl, rfl⟩, rfl, ?_⟩
  rw [Builder.refusesInput_iff rfl]
  exact fun found => found rfl

end Sqlwright
