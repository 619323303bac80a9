import Mathlib.Data.List.Chain
import Sqlwright.Grammar
import Sqlwright.Proofs.AliasReading

/-!
Reading written names back. The text of a column or table reference is a row of tokens: quoted
identifiers, the bare star, points, commas and the word `as`. The lexer of a dialect takes exactly
the rows in which no two identifiers touch, so whatever a caller's text contains, none of it stands
outside the quotes of an identifier.
-/

namespace Sqlwright

/-- One token of written names. -/
inductive NameToken where
  | ident (s : String)
  | star
  | point
  | comma
  /-- The word `as` between blanks. -/
  | label
  deriving DecidableEq, Repr

namespace NameToken

/-- The text of a token. -/
def chars (d : Dialect) : NameToken → List Char
  | .ident s => Text.quote d.quoteChar s.toList
  | .star => ['*']
  | .point => ['.']
  | .comma => [',', ' ']
  | .label => [' ', 'a', 's', ' ']

/-- The text of tokens one after the other. -/
def written (d : Dialect) (tokens : List NameToken) : List Char := tokens.flatMap (chars d)

def IsIdent : NameToken → Prop
  | .ident _ => True
  | _ => False

/-- Two identifiers in a row would read as one that contains a quote. -/
def Apart (first second : NameToken) : Prop := first.IsIdent → ¬ second.IsIdent

/-- Reads the token that a text starts with, and what follows it. -/
def next? (d : Dialect) : List Char → Option (NameToken × List Char)
  | '*' :: rest => some (.star, rest)
  | '.' :: rest => some (.point, rest)
  | ',' :: ' ' :: rest => some (.comma, rest)
  | ' ' :: 'a' :: 's' :: ' ' :: rest => some (.label, rest)
  | s => (Text.unquote d.quoteChar s).map fun read => (.ident (.ofList read.1), read.2)

variable {d : Dialect}

/-- What is read stands in front of what is left, and an identifier ends where it is read to end. -/
theorem eq_append_of_next? {s rest : List Char} {token : NameToken}
    (found : next? d s = some (token, rest)) :
    s = token.chars d ++ rest ∧ (token.IsIdent → rest.head? ≠ some d.quoteChar) := by
  unfold next? at found
  split at found
  case h_5 =>
    obtain ⟨⟨name, after⟩, read, same⟩ := Option.map_eq_some_iff.mp found
    obtain ⟨rfl, rfl⟩ := Prod.mk.inj same
    obtain ⟨whole, apart⟩ := Text.unquote_eq_some_iff.mp read
    exact ⟨by simpa [chars] using whole, fun _ => apart⟩
  all_goals
    obtain ⟨rfl, rfl⟩ := Prod.mk.inj (Option.some.inj found)
    exact ⟨rfl, False.elim⟩

theorem next?_append {token : NameToken} {rest : List Char}
    (apart : token.IsIdent → rest.head? ≠ some d.quoteChar) :
    next? d (token.chars d ++ rest) = some (token, rest) := by
  cases token with
  | ident s =>
    have read := Text.unquote_quote s.toList (apart trivial)
    -- no quote character starts one of the other tokens
    have unquoted : next? d (Text.quote d.quoteChar s.toList ++ rest) =
        (Text.unquote d.quoteChar (Text.quote d.quoteChar s.toList ++ rest)).map
          fun read => (.ident (.ofList read.1), read.2) := by
      cases d <;> rfl
    rw [chars, unquoted, read]
    simp
  | star | point | comma | label => rfl

theorem length_lt_of_next? {s rest : List Char} {token : NameToken}
    (found : next? d s = some (token, rest)) : rest.length < s.length := by
  have whole := (eq_append_of_next? found).1
  have some : 0 < (token.chars d).length := by cases token <;> simp [chars, Text.quote]
  rw [whole, List.length_append]
  omega

/-- The tokens of a text, none where a part of it is no token. -/
def lex (d : Dialect) (s : List Char) : Option (List NameToken) :=
  match s with
  | [] => some []
  | c :: more =>
    match _found : next? d (c :: more) with
    | none => none
    | some (token, rest) => (lex d rest).map fun tokens => token :: tokens
  termination_by s.length
  decreasing_by exact length_lt_of_next? _found

theorem lex_of_next? {s rest : List Char} {token : NameToken}
    (found : next? d s = some (token, rest)) :
    lex d s = (lex d rest).map fun tokens => token :: tokens := by
  cases s with
  | nil => cases found
  | cons c more =>
    rw [lex]
    split
    · rename_i missing
      rw [found] at missing
      cases missing
    · rename_i other after same
      rw [found] at same
      obtain ⟨rfl, rfl⟩ := Prod.mk.inj (Option.some.inj same)
      rfl

theorem head?_written {token : NameToken} {rest : List NameToken} (plain : ¬ token.IsIdent) :
    (written d (token :: rest)).head? ≠ some d.quoteChar := by
  cases token with
  | ident s => exact absurd trivial plain
  | star | point | comma | label => cases d <;> simp [written, chars, Dialect.quoteChar]

theorem lex_written {tokens : List NameToken} (apart : tokens.IsChain Apart) :
    lex d (written d tokens) = some tokens := by
  induction tokens with
  | nil => simp [written, lex]
  | cons token rest ih =>
    obtain ⟨next, later⟩ := List.isChain_cons.mp apart
    have closed : token.IsIdent → (written d rest).head? ≠ some d.quoteChar := by
      intro quoted
      cases rest with
      | nil => simp [written]
      | cons follower more => exact head?_written (next follower rfl quoted)
    have found : next? d (written d (token :: rest)) = some (token, written d rest) :=
      next?_append closed
    rw [lex_of_next? found, ih later]
    rfl

theorem of_lex {s : List Char} {tokens : List NameToken} (read : lex d s = some tokens) :
    s = written d tokens ∧ tokens.IsChain Apart := by
  fun_induction lex d s generalizing tokens with
  | case1 =>
    cases read
    exact ⟨rfl, .nil⟩
  | case2 => cases read
  | case3 c more token rest found ih =>
    obtain ⟨others, inner, rfl⟩ := Option.map_eq_some_iff.mp read
    obtain ⟨rfl, apart⟩ := ih inner
    obtain ⟨whole, closed⟩ := eq_append_of_next? found
    refine ⟨whole, List.isChain_cons.mpr ⟨?_, apart⟩⟩
    intro follower first quoted ident
    cases others with
    | nil => cases first
    | cons other after =>
      cases first
      cases follower with
      | ident s => exact closed quoted rfl
      | star | point | comma | label => exact ident

/-- A lexed text is the text of its tokens and nothing else, and every row of tokens that keeps
identifiers apart is lexed as it was written. -/
theorem lex_eq_some_iff {s : List Char} {tokens : List NameToken} :
    lex d s = some tokens ↔ s = written d tokens ∧ tokens.IsChain Apart := by
  constructor
  · exact of_lex
  · rintro ⟨rfl, apart⟩
    exact lex_written apart

example : lex .mysql "\x60a\x60\x60b\x60.*".toList = some [.ident "a\x60b", .point, .star] := by
  cbv

/-! ### Rows of tokens -/

theorem isChain_append_separator {front back : List NameToken} {separator : NameToken}
    (plain : ¬ separator.IsIdent) (first : front.IsChain Apart) (second : back.IsChain Apart) :
    (front ++ separator :: back).IsChain Apart := by
  refine List.isChain_append.mpr ⟨first, List.isChain_cons.mpr ⟨?_, second⟩, ?_⟩
  · intro follower _ quoted
    exact absurd quoted plain
  · intro last _ follower head _
    cases head
    exact plain

theorem isChain_intercalate {separator : NameToken} (plain : ¬ separator.IsIdent)
    {parts : List (List NameToken)} (each : ∀ part ∈ parts, part.IsChain Apart) :
    ([separator].intercalate parts).IsChain Apart := by
  induction parts with
  | nil => simp
  | cons part rest ih =>
    have later := ih fun other member => each other (List.mem_cons_of_mem _ member)
    cases rest with
    | nil => simpa using each part List.mem_cons_self
    | cons next more =>
      rw [List.intercalate_cons_cons, List.append_assoc]
      exact isChain_append_separator plain (each part List.mem_cons_self) later

theorem isChain_labelled {front : List NameToken} (base : front.IsChain Apart) {α : Type}
    (names : List α) (label : α → NameToken) :
    (front ++ names.flatMap fun name => [.label, label name]).IsChain Apart := by
  induction names generalizing front with
  | nil => simpa using base
  | cons name rest ih =>
    have labelled : (front ++ [.label, label name]).IsChain Apart :=
      isChain_append_separator id base (.singleton _)
    simpa using ih labelled

/-! ### Tokens of references -/

/-- A segment as a token; a star stands for all columns and stands bare. -/
def ofSegment (s : String) : NameToken := if s = "*" then .star else .ident s

/-- The segments, the table prefix put before the one that `behind` segments follow. -/
def prefixed (tablePrefix : String) (behind : Nat) (segments : List String) : List String :=
  segments.mapIdx fun i s => if i + behind + 1 = segments.length then tablePrefix ++ s else s

/-- The tokens of a reference: the segments of the trimmed text in front of its aliases with points
between them, and every alias behind the word `as`. -/
def ofReference (tablePrefix : String) (behind : Nat) (labelPrefix reference : String) :
    List NameToken :=
  let read := Text.Aliased.read reference.toList
  let segments := prefixed tablePrefix behind (Text.fields '.' (Text.trim (.ofList read.base)))
  [.point].intercalate (segments.map fun s => [ofSegment s]) ++
    read.aliases.flatMap fun name => [.label, ofSegment (labelPrefix ++ .ofList name)]

/-- In a column reference the last segment but one names the table. -/
def ofColumn (tablePrefix reference : String) : List NameToken :=
  ofReference tablePrefix 1 "" reference

/-- In a table reference the last segment names the table, and so do the aliases. -/
def ofTable (tablePrefix reference : String) : List NameToken :=
  ofReference tablePrefix 0 tablePrefix reference

theorem ofReference_isChain (tablePrefix : String) (behind : Nat)
    (labelPrefix reference : String) :
    (ofReference tablePrefix behind labelPrefix reference).IsChain Apart := by
  refine isChain_labelled (isChain_intercalate id fun part member => ?_) _ _
  obtain ⟨s, _, rfl⟩ := List.mem_map.mp member
  exact .singleton _

end NameToken

/-! ### Written references -/

namespace NameToken

/-- The piece that writes a token. -/
def piece : NameToken → Piece
  | .ident s => .name s
  | .star => .text "*"
  | .point => .text "."
  | .comma => .text ", "
  | .label => .text " as "

theorem renderFrom_pieces (d : Dialect) (offset : Nat) (tokens : List NameToken) :
    renderFrom d offset (tokens.map piece) = .ofList (written d tokens) := by
  induction tokens with
  | nil => rfl
  | cons token rest ih =>
    have text : token.piece.render d offset = .ofList (token.chars d) := by cases token <;> rfl
    have still : token.piece.advance offset = offset := by cases token <;> rfl
    rw [List.map_cons, renderFrom, still, ih, text, ← String.ofList_append]
    rfl

theorem segment_eq_piece (s : String) : Grammar.segment s = (ofSegment s).piece := by
  unfold Grammar.segment ofSegment
  split <;> rfl

theorem joinPieces_map_piece (separator : NameToken) (sep : String)
    (same : separator.piece = .text sep) (parts : List (List NameToken)) :
    joinPieces sep (parts.map (List.map piece)) = ([separator].intercalate parts).map piece := by
  induction parts with
  | nil => rfl
  | cons part rest ih =>
    cases rest with
    | nil => simp [joinPieces]
    | cons next more =>
      rw [List.intercalate_cons_cons, List.map_append, List.map_append, ← ih]
      simp [joinPieces, same]

end NameToken

namespace Grammar

open NameToken

variable (g : Grammar)

theorem prefixed_cons {tablePrefix : String} {behind : Nat} {s : String} {rest : List String}
    (later : behind < rest.length) :
    prefixed tablePrefix behind (s :: rest) = s :: prefixed tablePrefix behind rest := by
  have other : ¬ (0 + behind + 1 = rest.length + 1) := by omega
  have shift (i : Nat) : i + 1 + behind + 1 = rest.length + 1 ↔ i + behind + 1 = rest.length := by
    omega
  simp only [prefixed, List.mapIdx_cons, List.length_cons, if_neg other, shift]

theorem columnSegments_eq (segments : List String) :
    g.columnSegments segments =
      (prefixed g.tablePrefix 1 segments).map fun s => (ofSegment s).piece := by
  match segments with
  | [] => rfl
  | [name] =>
    have alone : g.columnSegments [name] = [segment name] := rfl
    simp [alone, prefixed, segment_eq_piece]
  | [table, name] =>
    have both : g.columnSegments [table, name] = [g.tableSegment table, segment name] := rfl
    simp [both, prefixed, tableSegment, segment_eq_piece]
  | qualifier :: next :: last :: rest =>
    have long : 1 < (next :: last :: rest).length := by simp
    rw [prefixed_cons long, List.map_cons, ← columnSegments_eq (next :: last :: rest),
      ← segment_eq_piece]
    rfl

theorem tableSegments_eq (segments : List String) :
    g.tableSegments segments =
      (prefixed g.tablePrefix 0 segments).map fun s => (ofSegment s).piece := by
  match segments with
  | [] => rfl
  | [table] =>
    have alone : g.tableSegments [table] = [g.tableSegment table] := rfl
    simp [alone, prefixed, tableSegment, segment_eq_piece]
  | qualifier :: next :: rest =>
    have long : 0 < (next :: rest).length := by simp
    rw [prefixed_cons long, List.map_cons, ← tableSegments_eq (next :: rest), ← segment_eq_piece]
    rfl

theorem dotted_eq (segments : List String) :
    dotted (segments.map fun s => (ofSegment s).piece) =
      ([NameToken.point].intercalate (segments.map fun s => [ofSegment s])).map piece := by
  rw [← joinPieces_map_piece .point "." rfl, dotted]
  simp [Function.comp_def]

theorem segmentsOf_eq (s : List Char) :
    segmentsOf s = Text.fields '.' (Text.trim (.ofList s)) := by
  simp [segmentsOf, Text.fields, Text.trim]

theorem column_eq (reference : String) :
    g.column reference = (ofColumn g.tablePrefix reference).map piece := by
  simp only [column, ofColumn, ofReference, List.map_append, List.map_flatMap, segmentsOf_eq,
    columnSegments_eq, dotted_eq, segment_eq_piece, String.empty_append, List.map_cons,
    List.map_nil]
  rfl

theorem table_eq (reference : String) :
    g.table reference = (ofTable g.tablePrefix reference).map piece := by
  simp only [table, ofTable, ofReference, List.map_append, List.map_flatMap, segmentsOf_eq,
    tableSegments_eq, dotted_eq, tableSegment, segment_eq_piece, List.map_cons, List.map_nil]
  rfl

theorem columnList_eq (references : List String) :
    g.columnList references =
      ([NameToken.comma].intercalate (references.map (ofColumn g.tablePrefix))).map piece := by
  have each : g.column = List.map piece ∘ ofColumn g.tablePrefix := by
    funext reference
    rw [Function.comp_apply, column_eq]
  rw [columnList, each, ← joinPieces_map_piece .comma ", " rfl, List.map_map]

end Grammar

/-- A text that the lexer of a dialect takes as a row of tokens, and that is nothing but their
text. -/
structure ReadsAs (d : Dialect) (text : String) (tokens : List NameToken) : Prop where
  lexed : NameToken.lex d text.toList = some tokens
  whole : text = .ofList (NameToken.written d tokens)

theorem readsAs_pieces (d : Dialect) {tokens : List NameToken}
    (apart : tokens.IsChain NameToken.Apart) :
    ReadsAs d (render d (tokens.map NameToken.piece)) tokens := by
  have text : render d (tokens.map NameToken.piece) = .ofList (NameToken.written d tokens) :=
    NameToken.renderFrom_pieces d 0 tokens
  refine ⟨NameToken.lex_eq_some_iff.mpr ⟨?_, apart⟩, text⟩
  rw [text, String.toList_ofList]

/-- Whatever text a reference is given by, it is read as it is taken apart around its aliases, and
what is written for it reads as its segments and aliases, the table prefix where a table is named,
and as the marks between them. -/
theorem references_read_back (g : Grammar) (reference : String) (references : List String) :
    (∀ (text : String) (split : Text.Aliased),
        Text.Splits text.toList split ↔ split = Text.Aliased.read text.toList) ∧
      ReadsAs g.dialect (render g.dialect (g.column reference))
        (NameToken.ofColumn g.tablePrefix reference) ∧
      ReadsAs g.dialect (render g.dialect (g.table reference))
        (NameToken.ofTable g.tablePrefix reference) ∧
      ReadsAs g.dialect (render g.dialect (g.columnList references))
        ([.comma].intercalate (references.map (NameToken.ofColumn g.tablePrefix))) := by
  have each (name : String) : (NameToken.ofColumn g.tablePrefix name).IsChain NameToken.Apart :=
    NameToken.ofReference_isChain _ _ _ name
  refine ⟨fun _ _ => Text.splits_iff, ?_, ?_, ?_⟩
  · rw [g.column_eq]
    exact readsAs_pieces g.dialect (each reference)
  · rw [g.table_eq]
    exact readsAs_pieces g.dialect (NameToken.ofReference_isChain _ _ _ reference)
  · rw [g.columnList_eq]
    refine readsAs_pieces g.dialect (NameToken.isChain_intercalate id fun part member => ?_)
    obtain ⟨name, _, rfl⟩ := List.mem_map.mp member
    exact each name

example : render .postgres ((⟨.postgres, "p_"⟩ : Grammar).column "a\x22.b.c AS x.y") =
    "\x22a\x22\x22\x22.\x22p_b\x22.\x22c\x22 as \x22x.y\x22" := by
  cbv

end Sqlwright
