import Sqlwright.Proofs.Coherence
import Sqlwright.Piece

/-!
Numbered places. The text of a list of pieces falls into stretches: fixed text, and marks that carry
their number and the value known to stand there. `Binds` says that the marks of a text are numbered
one by one from a given offset on and stand for a given list of values.
-/

namespace Sqlwright

/-- A stretch of statement text; the value at a mark is open where a raw fragment takes it. -/
inductive Stretch where
  | written (s : String)
  | mark (number : Nat) (value : Option Value)

namespace Stretch

def text (d : Dialect) : Stretch → String
  | .written s => s
  | .mark number _ => d.placeholder number

def mark? : Stretch → Option (Nat × Option Value)
  | .written _ => none
  | .mark number value => some (number, value)

end Stretch

/-- The text of stretches one after the other. -/
def textOf (d : Dialect) : List Stretch → String
  | [] => ""
  | stretch :: rest => stretch.text d ++ textOf d rest

/-- The marks of stretches, from left to right. -/
def marksOf (stretches : List Stretch) : List (Nat × Option Value) :=
  stretches.filterMap Stretch.mark?

/-- A raw fragment cut at its question marks, which are numbered from `offset + 1` on. -/
def fragmentStretches (offset : Nat) : List Char → List Stretch
  | [] => []
  | c :: rest =>
    if c = '?' then .mark (offset + 1) none :: fragmentStretches (offset + 1) rest
    else .written (.singleton c) :: fragmentStretches offset rest

namespace Piece

def stretches (d : Dialect) (offset : Nat) : Piece → List Stretch
  | .fragment sql _ => fragmentStretches offset sql.toList
  | .place value => [.mark (offset + 1) (some value)]
  | .text s => [.written s]
  | .name s => [.written (d.quoteIdentifier s)]
  | .literal s => [.written (d.quoteString s)]
  | .renumber _ => []

/-- Fixed text: a piece without places. -/
def IsFixed : Piece → Prop
  | .text _ | .name _ | .literal _ => True
  | .fragment _ _ | .place _ | .renumber _ => False

end Piece

/-- The stretches of pieces that follow `offset` places. -/
def stretchesFrom (d : Dialect) (offset : Nat) : List Piece → List Stretch
  | [] => []
  | piece :: rest => piece.stretches d offset ++ stretchesFrom d (piece.advance offset) rest

/-- A fragment has as many marks as it declares. -/
def MarksExact (sql : String) (places : Nat) : Prop := sql.toList.count '?' = places

instance (sql : String) (places : Nat) : Decidable (MarksExact sql places) :=
  inferInstanceAs (Decidable (_ = _))

/-- Marks numbered from `offset + 1` on without gap or repeat, each standing for the value at its
position. -/
def Numbered (offset : Nat) (marks : List (Nat × Option Value)) (values : List Value) : Prop :=
  List.Forall₂ (fun mark value => mark.1 = value.2 ∧ ∀ known, mark.2 = some known → value.1 = known)
    marks (values.zipIdx (offset + 1))

/-- Pieces behind `offset` places write exactly one mark for each value, in order, and the places
that follow are numbered behind them. -/
structure Binds (d : Dialect) (offset : Nat) (pieces : List Piece) (values : List Value) :
    Prop where
  text : renderFrom d offset pieces = textOf d (stretchesFrom d offset pieces)
  marks : Numbered offset (marksOf (stretchesFrom d offset pieces)) values
  advance : advanceAll offset pieces = offset + values.length

theorem textOf_append (d : Dialect) (front back : List Stretch) :
    textOf d (front ++ back) = textOf d front ++ textOf d back := by
  induction front with
  | nil => simp [textOf]
  | cons stretch rest ih => simp [textOf, ih, String.append_assoc]

theorem stretchesFrom_append (d : Dialect) (offset : Nat) (front back : List Piece) :
    stretchesFrom d offset (front ++ back) =
      stretchesFrom d offset front ++ stretchesFrom d (advanceAll offset front) back := by
  induction front generalizing offset with
  | nil => simp [stretchesFrom, advanceAll]
  | cons piece rest ih => simp [stretchesFrom, advanceAll, ih, List.append_assoc]

theorem Numbered.append {offset : Nat} {front back : List (Nat × Option Value)}
    {values more : List Value} (first : Numbered offset front values)
    (second : Numbered (offset + values.length) back more) :
    Numbered offset (front ++ back) (values ++ more) := by
  have shifted : offset + values.length + 1 = offset + 1 + values.length := by omega
  unfold Numbered at second
  rw [shifted] at second
  rw [Numbered, List.zipIdx_append]
  exact List.rel_append first second

theorem Numbered.numbers {offset : Nat} {marks : List (Nat × Option Value)} {values : List Value}
    (numbered : Numbered offset marks values) :
    marks.map Prod.fst = List.range' (offset + 1) values.length := by
  have paired : marks.map Prod.fst = (values.zipIdx (offset + 1)).map Prod.snd := by
    unfold Numbered at numbered
    generalize values.zipIdx (offset + 1) = indexed at numbered ⊢
    induction numbered with
    | nil => rfl
    | cons head _ ih => rw [List.map_cons, List.map_cons, head.1, ih]
  rw [paired, List.zipIdx_map_snd]

/-- The marks of a text as they are written. -/
def markTexts (d : Dialect) (stretches : List Stretch) : List String :=
  (marksOf stretches).map fun mark => d.placeholder mark.1

namespace Binds

variable {d : Dialect} {offset : Nat} {front back : List Piece} {values more : List Value}

theorem nil (d : Dialect) (offset : Nat) : Binds d offset [] [] where
  text := rfl
  marks := .nil
  advance := rfl

theorem append (first : Binds d offset front values)
    (second : Binds d (offset + values.length) back more) :
    Binds d offset (front ++ back) (values ++ more) where
  text := by
    rw [renderFrom_append, stretchesFrom_append, textOf_append, first.advance, first.text,
      second.text]
  marks := by
    rw [stretchesFrom_append, first.advance, marksOf, List.filterMap_append]
    exact first.marks.append second.marks
  advance := by
    rw [advanceAll_append, first.advance, second.advance, List.length_append, Nat.add_assoc]

theorem fixed {piece : Piece} (plain : piece.IsFixed) (d : Dialect) (offset : Nat) :
    Binds d offset [piece] [] := by
  have written (s : String) (text : piece.render d offset = s)
      (stretch : piece.stretches d offset = [.written s]) (still : piece.advance offset = offset) :
      Binds d offset [piece] [] := by
    refine ⟨?_, ?_, still⟩
    · simp [renderFrom, stretchesFrom, textOf, Stretch.text, text, stretch]
    · rw [stretchesFrom, stretch]
      exact .nil
  cases piece with
  | text s | name s | literal s => exact written _ rfl rfl rfl
  | fragment _ _ | place _ | renumber _ => exact plain.elim

theorem place (d : Dialect) (offset : Nat) (value : Value) :
    Binds d offset [.place value] [value] where
  text := by simp [renderFrom, Piece.render, stretchesFrom, Piece.stretches, textOf, Stretch.text]
  marks := .cons ⟨rfl, fun known found => Option.some.inj found⟩ .nil
  advance := rfl

/-- Numbering on from where the places stand changes nothing. -/
theorem renumber (d : Dialect) (offset : Nat) : Binds d offset [.renumber offset] [] where
  text := by simp [renderFrom, Piece.render, stretchesFrom, Piece.stretches, textOf]
  marks := .nil
  advance := rfl

/-- Where places carry their numbers, the marks run through all numbers behind the offset. -/
theorem markTexts_eq (binds : Binds d offset front values) (postgres : d = .postgres) :
    markTexts d (stretchesFrom d offset front) =
      (List.range' (offset + 1) values.length).map fun number => "$" ++ toString number := by
  rw [← binds.marks.numbers, List.map_map, postgres]
  rfl

end Binds

/-! ### Raw fragments -/

private theorem numbered_fragmentStretches (offset : Nat) (sql : List Char) {values : List Value}
    (length : values.length = sql.count '?') :
    Numbered offset (marksOf (fragmentStretches offset sql)) values := by
  induction sql generalizing offset values with
  | nil =>
    have empty := List.length_eq_zero_iff.mp length
    subst empty
    exact .nil
  | cons c rest ih =>
    by_cases mark : c = '?'
    · subst mark
      cases values with
      | nil => simp at length
      | cons value more =>
        have bound : more.length = rest.count '?' := by simpa using length
        have tail := ih (offset + 1) bound
        simp only [fragmentStretches, if_true, marksOf, List.filterMap_cons, Stretch.mark?]
        exact .cons ⟨rfl, fun known absurd => by cases absurd⟩ tail
    · have bound : values.length = rest.count '?' := by simpa [List.count_cons, mark] using length
      simp only [fragmentStretches, if_neg mark, marksOf, List.filterMap_cons, Stretch.mark?]
      exact ih offset bound

theorem placeholder_of_unnumbered {d : Dialect} (plain : d.numbered = false)
    (number : Nat) : d.placeholder number = "?" := by
  simp [Dialect.placeholder, plain]

private theorem text_of_unnumbered {d : Dialect} (plain : d.numbered = false) (offset : Nat)
    (sql : List Char) : textOf d (fragmentStretches offset sql) = .ofList sql := by
  induction sql generalizing offset with
  | nil => rfl
  | cons c rest ih =>
    by_cases mark : c = '?'
    · subst mark
      simp [fragmentStretches, textOf, Stretch.text, placeholder_of_unnumbered plain, ih,
        String.ofList_cons]
    · simp [fragmentStretches, mark, textOf, Stretch.text, ih, String.ofList_cons]

theorem numberMarks_zero (d : Dialect) (offset : Nat) (sql : List Char) :
    Piece.numberMarks d 0 offset sql = sql := by
  cases sql <;> rfl

theorem numberMarks_cons (d : Dialect) (places offset : Nat) {c : Char} (rest : List Char)
    (other : c ≠ '?') : Piece.numberMarks d places offset (c :: rest) =
      c :: Piece.numberMarks d places offset rest := by
  cases places with
  | zero => rw [numberMarks_zero, numberMarks_zero]
  | succ places => rw [Piece.numberMarks, if_neg other]

private theorem text_of_numberMarks (d : Dialect) (offset : Nat) (sql : List Char) :
    textOf d (fragmentStretches offset sql) =
      .ofList (Piece.numberMarks d (sql.count '?') offset sql) := by
  induction sql generalizing offset with
  | nil => simp [fragmentStretches, textOf, Piece.numberMarks]
  | cons c rest ih =>
    by_cases mark : c = '?'
    · subst mark
      simp [fragmentStretches, textOf, Stretch.text, Piece.numberMarks, ih]
    · rw [List.count_cons_of_ne mark, numberMarks_cons d _ _ rest mark]
      simp [fragmentStretches, mark, textOf, Stretch.text, ih, String.ofList_cons]

theorem Binds.fragment {sql : String} {places : Nat} {values : List Value}
    (counted : MarksExact sql places) (length : values.length = places) (d : Dialect)
    (offset : Nat) :
    Binds d offset [.fragment sql places] values where
  text := by
    have written : Piece.fragmentText d sql places offset =
        textOf d (fragmentStretches offset sql.toList) := by
      unfold Piece.fragmentText
      split
      · rw [text_of_numberMarks, counted]
      · rename_i plain
        rw [text_of_unnumbered (by simpa using plain), String.ofList_toList]
    simpa [renderFrom, Piece.render, stretchesFrom, Piece.stretches] using written
  marks := by
    have numbered := numbered_fragmentStretches offset sql.toList (length.trans counted.symm)
    simpa [stretchesFrom, Piece.stretches] using numbered
  advance := by
    simp [advanceAll, Piece.advance, length]

end Sqlwright
