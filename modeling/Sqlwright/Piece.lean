import Sqlwright.Value
import Sqlwright.Dialect
import Sqlwright.Text.Fields

/-!
SQL as a list of typed pieces. A piece says what a stretch of text is (fixed text, an identifier, a
string literal, a caller's own fragment, a place for a bound value), and rendering writes it in a
dialect: it quotes the identifiers and literals and numbers the places from left to right. So two
dialects that agree on the pieces of a statement differ in quoting and placeholder style alone.
-/

namespace Sqlwright

inductive Piece where
  /-- Keywords, punctuation, operators and numbers, written as they are. -/
  | text (s : String)
  /-- An identifier, to be quoted. -/
  | name (s : String)
  /-- A string literal, to be quoted. -/
  | literal (s : String)
  /-- A caller's fragment with this many places for values, marked by `?`. -/
  | fragment (sql : String) (places : Nat)
  /-- The place of one bound value. -/
  | place (value : Value)
  /-- Writes nothing; the places that follow are numbered as if `count` places stood before. -/
  | renumber (count : Nat)

namespace Piece

/-- Writes numbers over the first `places` marks of a fragment, from `offset + 1` on; what else the
fragment says is kept. -/
def numberMarks (d : Dialect) : (places offset : Nat) → List Char → List Char
  | _, _, [] => []
  | 0, _, s => s
  | places + 1, offset, c :: rest =>
    if c = '?' then (d.placeholder (offset + 1)).toList ++ numberMarks d places (offset + 1) rest
    else c :: numberMarks d (places + 1) offset rest

/-- A caller's fragment in a dialect: its marks are numbered where the dialect numbers places. -/
def fragmentText (d : Dialect) (sql : String) (places offset : Nat) : String :=
  if d.numbered then .ofList (numberMarks d places offset sql.toList) else sql

/-- The number of places written once a piece is done, from the number before it. -/
def advance (offset : Nat) : Piece → Nat
  | .text _ | .name _ | .literal _ => offset
  | .fragment _ places => offset + places
  | .place _ => offset + 1
  | .renumber count => count

/-- The text of one piece that follows `offset` places. -/
def render (d : Dialect) (offset : Nat) : Piece → String
  | .text s => s
  | .name s => d.quoteIdentifier s
  | .literal s => d.quoteString s
  | .fragment sql places => fragmentText d sql places offset
  | .place _ => d.placeholder (offset + 1)
  | .renumber _ => ""

/-- What stands at the places of a piece: the bound value, or none where a fragment takes it. -/
def places : Piece → List (Option Value)
  | .place value => [some value]
  | .fragment _ count => List.replicate count none
  | _ => []

end Piece

/-- The text of a statement whose first place is number `offset + 1`. -/
def renderFrom (d : Dialect) (offset : Nat) : List Piece → String
  | [] => ""
  | piece :: rest => piece.render d offset ++ renderFrom d (piece.advance offset) rest

/-- The number of places written after all pieces. -/
def advanceAll (offset : Nat) (pieces : List Piece) : Nat := pieces.foldl Piece.advance offset

/-- The text of a statement of its own. -/
def render (d : Dialect) (pieces : List Piece) : String := renderFrom d 0 pieces

/-- What stands at the places of a statement, from left to right. -/
def placesOf (pieces : List Piece) : List (Option Value) := pieces.flatMap Piece.places

/-- The parts with `sep` between neighbours. -/
def joinPieces (sep : String) : List (List Piece) → List Piece
  | [] => []
  | [part] => part
  | part :: rest => part ++ .text sep :: joinPieces sep rest

/-- The clauses that are not empty, a blank between neighbours. -/
def sentence (clauses : List (List Piece)) : List Piece :=
  joinPieces " " (clauses.filter fun clause => !clause.isEmpty)

/-- Pieces between parentheses. -/
def parenthesised (inner : List Piece) : List Piece := .text "(" :: inner ++ [.text ")"]

/-- A compiled statement: what is sent and the values bound to its places. -/
structure Statement where
  pieces : List Piece
  values : List Value

/-- The SQL text of a statement. -/
def Statement.sql (s : Statement) (d : Dialect) : String := render d s.pieces

theorem renderFrom_append (d : Dialect) (offset : Nat) (front back : List Piece) :
    renderFrom d offset (front ++ back) =
      renderFrom d offset front ++ renderFrom d (advanceAll offset front) back := by
  induction front generalizing offset with
  | nil => simp [renderFrom, advanceAll]
  | cons piece rest ih => simp [renderFrom, advanceAll, ih, String.append_assoc]

theorem advanceAll_append (offset : Nat) (front back : List Piece) :
    advanceAll offset (front ++ back) = advanceAll (advanceAll offset front) back :=
  List.foldl_append

/-! ### Joined parts -/

/-- The texts of parts that stand one after the other behind `offset` places. -/
def textsFrom (d : Dialect) (offset : Nat) : List (List Piece) → List String
  | [] => []
  | part :: rest => renderFrom d offset part :: textsFrom d (advanceAll offset part) rest

theorem joinPieces_cons_cons (sep : String) (part next : List Piece) (rest : List (List Piece)) :
    joinPieces sep (part :: next :: rest) = part ++ .text sep :: joinPieces sep (next :: rest) :=
  rfl

/-- Separators hold no places. -/
theorem advanceAll_joinPieces (offset : Nat) (sep : String) (parts : List (List Piece)) :
    advanceAll offset (joinPieces sep parts) = advanceAll offset parts.flatten := by
  induction parts generalizing offset with
  | nil => rfl
  | cons part rest ih =>
    cases rest with
    | nil => simp [joinPieces]
    | cons next more =>
      have silent (offset : Nat) (later : List Piece) :
          advanceAll offset (.text sep :: later) = advanceAll offset later := rfl
      rw [joinPieces_cons_cons, advanceAll_append, silent, ih, ← advanceAll_append,
        ← List.flatten_cons]

theorem renderFrom_joinPieces (d : Dialect) (offset : Nat) (sep : String)
    (parts : List (List Piece)) :
    renderFrom d offset (joinPieces sep parts) = Text.join sep (textsFrom d offset parts) := by
  induction parts generalizing offset with
  | nil => rfl
  | cons part rest ih =>
    cases rest with
    | nil => rfl
    | cons next more =>
      have between (offset : Nat) (later : List Piece) :
          renderFrom d offset (.text sep :: later) = sep ++ renderFrom d offset later := rfl
      rw [joinPieces_cons_cons, renderFrom_append, between, ih, ← String.append_assoc]
      rfl

/-! ### What holds of all pieces -/

section All

variable {P : Piece → Prop}

theorem parenthesised_forall (opening : P (.text "(")) (closing : P (.text ")"))
    {inner : List Piece} (each : ∀ piece ∈ inner, P piece) :
    ∀ piece ∈ parenthesised inner, P piece := by
  refine List.forall_mem_cons.mpr ⟨opening, List.forall_mem_append.mpr ⟨each, ?_⟩⟩
  exact List.forall_mem_singleton.mpr closing

/-- Joined parts consist of the pieces of the parts and of the separator. -/
theorem joinPieces_forall {sep : String} (between : P (.text sep)) {parts : List (List Piece)}
    (each : ∀ part ∈ parts, ∀ piece ∈ part, P piece) : ∀ piece ∈ joinPieces sep parts, P piece := by
  induction parts with
  | nil => exact List.forall_mem_nil _
  | cons part rest ih =>
    obtain ⟨first, later⟩ := List.forall_mem_cons.mp each
    cases rest with
    | nil => exact first
    | cons next more =>
      exact List.forall_mem_append.mpr ⟨first, List.forall_mem_cons.mpr ⟨between, ih later⟩⟩

theorem joinPieces_map_forall {α : Type} {sep : String} (between : P (.text sep))
    {write : α → List Piece} {items : List α}
    (each : ∀ item ∈ items, ∀ piece ∈ write item, P piece) :
    ∀ piece ∈ joinPieces sep (items.map write), P piece := by
  refine joinPieces_forall between fun part member => ?_
  obtain ⟨item, present, rfl⟩ := List.mem_map.mp member
  exact each item present

theorem sentence_forall (blank : P (.text " ")) {clauses : List (List Piece)}
    (each : ∀ clause ∈ clauses, ∀ piece ∈ clause, P piece) : ∀ piece ∈ sentence clauses, P piece :=
  joinPieces_forall blank fun clause member => each clause (List.mem_filter.mp member).1

end All

end Sqlwright
