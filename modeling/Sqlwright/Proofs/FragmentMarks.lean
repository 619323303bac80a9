import Sqlwright.Proofs.UnquotedText

/-!
Raw fragments whose marks are miscounted. A fragment takes as many numbers as it declares places,
whatever number of marks it contains: marks beyond the places stay as they are, and places without a
mark are skipped. So what follows is numbered as if the fragment were exact, and every place behind
it is written with the number of the value that is bound to it.
-/

namespace Sqlwright

namespace Text

/-- The fields with a text between any two neighbours. -/
def interleave : List (List Char) → List (List Char) → List Char
  | field :: fields, between :: rest => field ++ (between ++ interleave fields rest)
  | fields, [] => fields.flatten
  | [], _ :: _ => []

end Text

/-- What stands where a fragment had its marks: numbers from `offset + 1` on as far as places are
declared, and the mark itself behind them. -/
def writtenMarks (places offset marks : Nat) : List (List Char) :=
  let numbers := List.range' (offset + 1) (min places marks)
  numbers.map (fun number => ("$" ++ toString number).toList) ++
    List.replicate (marks - places) ['?']

/-- A fragment as it is written behind `offset` places: on Postgres with numbers over its marks,
elsewhere as it is. -/
def markedText (d : Dialect) (sql : String) (places offset : Nat) : String :=
  match d with
  | .postgres =>
    .ofList (Text.interleave (Text.splitOn '?' sql.toList)
      (writtenMarks places offset (sql.toList.count '?')))
  | _ => sql

/-- Pieces that number no place anew and have one place for each slot, in order, whatever number of
marks their fragments contain. -/
structure Fills (pieces : List Piece) (slots : List (Option Value)) : Prop where
  continuous : Meets (fun _ _ => True) pieces
  fit : ∀ values, Fits slots values → Fits (placesOf pieces) values

/-! ### Marks -/

theorem writtenMarks_zero (offset marks : Nat) :
    writtenMarks 0 offset (marks + 1) = ['?'] :: writtenMarks 0 offset marks := by
  simp [writtenMarks, List.replicate_succ]

theorem writtenMarks_succ (places offset marks : Nat) :
    writtenMarks (places + 1) offset (marks + 1) =
      ("$" ++ toString (offset + 1)).toList :: writtenMarks places (offset + 1) marks := by
  simp [writtenMarks, Nat.add_min_add_right, List.range'_succ]

namespace Text

theorem interleave_cons (c : Char) (field : List Char) (fields marks : List (List Char)) :
    interleave ((c :: field) :: fields) marks = c :: interleave (field :: fields) marks := by
  cases marks <;> simp [interleave]

end Text

/-- The loop over a fragment writes numbers over its marks until the places are used up, and keeps
everything else. -/
theorem numberMarks_eq_interleave (places offset : Nat) (s : List Char) :
    Piece.numberMarks .postgres places offset s =
      Text.interleave (Text.splitOn '?' s) (writtenMarks places offset (s.count '?')) := by
  induction s generalizing places offset with
  | nil =>
    have none_there : writtenMarks places offset 0 = [] := by simp [writtenMarks]
    rw [List.count_nil, none_there]
    cases places <;> rfl
  | cons c rest ih =>
    by_cases mark : c = '?'
    · subst mark
      rw [List.count_cons_self, Text.splitOn, if_pos rfl]
      cases places with
      | zero =>
        rw [writtenMarks_zero, Text.interleave, ← ih, numberMarks_zero, numberMarks_zero]
        rfl
      | succ places =>
        rw [writtenMarks_succ, Text.interleave, ← ih, Piece.numberMarks, if_pos rfl]
        rfl
    · obtain ⟨field, fields, shape⟩ := List.exists_cons_of_ne_nil (Text.splitOn_ne_nil '?' rest)
      rw [numberMarks_cons _ _ _ rest mark, ih, List.count_cons_of_ne mark, Text.splitOn,
        if_neg mark, shape, Text.interleave_cons]

theorem fragmentText_eq (d : Dialect) (sql : String) (places offset : Nat) :
    Piece.fragmentText d sql places offset = markedText d sql places offset := by
  cases d with
  | postgres => exact congrArg String.ofList (numberMarks_eq_interleave places offset sql.toList)
  | generic | mysql | sqlite | hana => rfl

example : markedText .postgres "a = ? or b = ?" 1 2 = "a = $3 or b = ?" := by decide +kernel

/-! ### Places -/

theorem Fixed.placesOf_eq {pieces : List Piece} (fixed : Fixed pieces) : placesOf pieces = [] := by
  apply List.flatMap_eq_nil_iff.mpr
  intro piece member
  have plain := fixed piece member
  cases piece with
  | text s | name s | literal s => rfl
  | fragment sql places | place value | renumber count => exact plain.elim

theorem placesOf_append (front back : List Piece) :
    placesOf (front ++ back) = placesOf front ++ placesOf back :=
  List.flatMap_append

theorem fills_tracks : Tracks (fun _ _ => True) Fills where
  fixed fixed := ⟨.of_fixed fixed, fun values fits => fixed.placesOf_eq ▸ fits⟩
  append first second := by
    refine ⟨first.continuous.append second.continuous, fun values fits => ?_⟩
    obtain ⟨left, right, rfl, leftFits, rightFits⟩ := fits.split
    rw [placesOf_append]
    exact (first.fit left leftFits).append (second.fit right rightFits)
  place value := ⟨List.forall_mem_singleton.mpr trivial, fun values fits => fits⟩
  fragment counted := by
    refine ⟨.fragment counted, fun values fits => ?_⟩
    rwa [placesOf, List.flatMap_singleton, Piece.places]
  fill filled fits := by
    refine ⟨filled.continuous, fun others same => ?_⟩
    rw [fits_map_some_iff.mp same]
    exact filled.fit _ fits

/-- A coherent query has one place for each of its values, in their order. -/
theorem Query.Coherent.fills {q : Query} (coherent : q.Coherent) (g : Grammar) :
    Fills (q.pieces g) (q.values.map some) := by
  have counted := coherent.mono fun s fit =>
    (⟨fit, fun _ _ => trivial⟩ : s.SectionsFit ∧ ∀ fragment ∈ s.fragments, True)
  exact (Query.Everywhere.tracked fills_tracks counted).whole fills_tracks

/-- What stands in a known slot is the value at its position. -/
theorem Fits.getElem?_eq {front back : List (Option Value)} {value : Value} {values : List Value}
    (fits : Fits (front ++ some value :: back) values) : values[front.length]? = some value := by
  obtain ⟨left, right, rfl, leftFits, rightFits⟩ := fits.split
  have length : front.length = left.length := leftFits.length_eq
  cases rightFits with
  | cons known _ =>
    rw [length, List.getElem?_append_right (Nat.le_refl _), Nat.sub_self, List.getElem?_cons_zero,
      known value rfl]

/-- Behind continuous pieces a place is written with the number of the places in front. -/
theorem renderFrom_place {front : List Piece} (continuous : Meets (fun _ _ => True) front)
    (d : Dialect) (offset : Nat) (value : Value) (back : List Piece) :
    renderFrom d offset (front ++ .place value :: back) =
      renderFrom d offset front ++ (d.placeholder (offset + (placesOf front).length + 1) ++
        renderFrom d (offset + (placesOf front).length + 1) back) := by
  rw [renderFrom_append, advanceAll_eq continuous]
  rfl

/-- Miscounted fragments do not shift the places behind them. A fragment is written with numbers
over as many of its marks as it declares places, on Postgres, and what follows is numbered behind
all of the declared places. So in a coherent query, whatever marks its fragments contain, every
place is written with the number that the value bound to it has among the values of the query. -/
theorem fragments_keep_numbering (g : Grammar) :
    (∀ (sql : String) (places offset : Nat) (rest : List Piece),
      renderFrom g.dialect offset (.fragment sql places :: rest) =
        markedText g.dialect sql places offset ++ renderFrom g.dialect (offset + places) rest) ∧
      ∀ (q : Query) (offset : Nat) (front back : List Piece) (value : Value), q.Coherent →
        q.pieces g = front ++ .place value :: back →
          renderFrom g.dialect offset (q.pieces g) =
              renderFrom g.dialect offset front ++
                (g.dialect.placeholder (offset + (placesOf front).length + 1) ++
                  renderFrom g.dialect (offset + (placesOf front).length + 1) back) ∧
            q.values[(placesOf front).length]? = some value := by
  constructor
  · intro sql places offset rest
    rw [← fragmentText_eq]
    rfl
  · intro q offset front back value coherent split
    obtain ⟨continuous, fit⟩ := coherent.fills g
    have bound := fit q.values (fits_map_some q.values)
    rw [split] at continuous bound ⊢
    constructor
    · have before := (List.forall_mem_append.mp continuous).1
      exact renderFrom_place before g.dialect offset value back
    · rw [placesOf_append] at bound
      exact bound.getElem?_eq

/-- A fragment with one mark more than it declares places, and a condition behind it. -/
def miscountedQuery : Query where
  source := some (.table "t" none)
  wheres := [.mk .and (.raw "a = ? or b = ?" 1), .mk .and (.compare "c" "=" (.value (.int 7)))]
  bound := { condition := [.int 5, .int 7] }

theorem miscountedQuery_coherent : miscountedQuery.Coherent := by
  refine .intro ⟨⟨⟨rfl, ?_, rfl, ?_, ?_⟩, ?_⟩, ?_⟩ ?_ <;>
    simp [miscountedQuery, Fits, Linked.slots, Condition.slots, Operand.values, Source.slots,
      Query.subqueries, Source.subqueries, Linked.subqueries, Condition.subqueries,
      Operand.subqueries]

/-- The second mark of the fragment stays, and the second value is bound to the second place. -/
theorem fragments_keep_numbering_miscounted :
    render .postgres (miscountedQuery.pieces ⟨.postgres, ""⟩) =
        "select * from \x22t\x22 where a = $1 or b = ? and \x22c\x22 = $2" ∧
      miscountedQuery.values[1]? = some (.int 7) := by
  let g : Grammar := ⟨.postgres, ""⟩
  let front : List Piece :=
    joinPieces " " [[.text "select ", .text "*"], .text "from " :: g.table "t",
      .text "where " :: .fragment "a = ? or b = ?" 1 :: .text " and " :: g.column "c" ++
        [.text " = "]]
  have split : miscountedQuery.pieces g = front ++ [.place (.int 7)] := by
    simp only [front, miscountedQuery, Query.pieces, Query.outline, Outline.pieces, Source.clause,
      Source.pieces, sentence, Linked.clause, Linked.others, Condition.pieces, Operand.pieces,
      joinPieces, List.append_assoc, List.cons_append, List.nil_append]
    rfl
  have before : (placesOf front).length = 1 := by decide +kernel
  have start : renderFrom .postgres 0 front =
      "select * from \x22t\x22 where a = $1 or b = ? and \x22c\x22 = " := by decide +kernel
  obtain ⟨text, bound⟩ := (fragments_keep_numbering g).2 miscountedQuery 0 front [] (.int 7)
    miscountedQuery_coherent split
  rw [before] at text bound
  refine ⟨?_, bound⟩
  rw [render, text, start]
  rfl

end Sqlwright
