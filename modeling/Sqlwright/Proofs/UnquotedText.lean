import Sqlwright.Proofs.NameReading
import Sqlwright.Proofs.NativeTypes
import Sqlwright.Proofs.SelectTokens

/-!
Text outside quotes. Whoever looks for something in a statement, such as its placeholders, passes
over quoted identifiers and string literals. What is left of a statement is known piece by piece: a
name or a literal leaves nothing, whatever it says, a place leaves its placeholder, and words stay
as they are as long as they hold no quote.
-/

namespace Sqlwright

namespace Text

/-- The characters that stand outside quotes, from a point within the quote `opened` or outside of
all. A stretch runs to the next quote like the one that opened it, so a quote that is doubled ends a
stretch and starts the next. -/
def outside (quotes : List Char) (opened : Option Char) : List Char → List Char
  | [] => []
  | c :: rest =>
    match opened with
    | some q => outside quotes (if c = q then none else some q) rest
    | none => if c ∈ quotes then outside quotes (some c) rest else c :: outside quotes none rest

variable {quotes : List Char} {q : Char}

theorem outside_double (quoting : q ∈ quotes) (s rest : List Char) :
    outside quotes (some q) (double q s ++ q :: rest) = outside quotes none rest := by
  induction s with
  | nil => simp [double, outside]
  | cons c more ih =>
    by_cases same : c = q
    · subst same
      simp [double, outside, quoting, ih]
    · simp [double, outside, same, ih]

/-- A quoted text leaves nothing. -/
theorem outside_quote (quoting : q ∈ quotes) (s rest : List Char) :
    outside quotes none (quote q s ++ rest) = outside quotes none rest := by
  have opened := outside_double quoting s rest
  simpa [quote, outside, quoting] using opened

/-- A text without quotes stays as it is. -/
theorem outside_append {s : List Char} (bare : ∀ c ∈ s, c ∉ quotes) (rest : List Char) :
    outside quotes none (s ++ rest) = s ++ outside quotes none rest := by
  induction s with
  | nil => rfl
  | cons c more ih =>
    obtain ⟨first, later⟩ := List.forall_mem_cons.mp bare
    simp [outside, first, ih later]

end Text

namespace Dialect

/-- The quotes around identifiers and around string literals. -/
def quotes (d : Dialect) : List Char := [d.quoteChar, '\x27']

/-- The characters of a statement that stand outside quotes. -/
def outsideQuotes (d : Dialect) (sql : String) : List Char := Text.outside d.quotes none sql.toList

end Dialect

/-- A character of fixed words: no quote and no question mark. -/
def isPlain (c : Char) : Bool := c ∉ ['\x60', '\x22', '\x27', '?']

theorem not_mem_quotes_of_isPlain {c : Char} (plain : isPlain c) (d : Dialect) : c ∉ d.quotes := by
  intro quote
  cases d <;> simp_all [isPlain, Dialect.quotes, Dialect.quoteChar]

theorem isPlain_number (n : Nat) : (toString n).toList.all isPlain := by
  refine List.all_eq_true.mpr fun c member => decide_eq_true fun special => ?_
  have digit := Number.isDigit_of_mem_toString member
  simp only [List.mem_cons, List.not_mem_nil, or_false] at special
  rcases special with rfl | rfl | rfl | rfl <;> cases digit

/-- A placeholder holds no quotes. -/
theorem Dialect.placeholder_bare (d : Dialect) (number : Nat) :
    ∀ c ∈ (d.placeholder number).toList, c ∉ d.quotes := by
  unfold placeholder
  split
  · rw [String.toList_append]
    refine List.forall_mem_append.mpr ⟨List.forall_mem_singleton.mpr ?_, fun c member => ?_⟩
    · cases d <;> decide
    · exact not_mem_quotes_of_isPlain (List.all_eq_true.mp (isPlain_number number) c member) d
  · refine List.forall_mem_singleton.mpr ?_
    cases d <;> decide

/-! ### What pieces leave -/

/-- The characters that a piece writes as they are. -/
def Piece.words : Piece → List Char
  | .text s => s.toList
  | _ => []

def wordsOf (pieces : List Piece) : List Char := pieces.flatMap Piece.words

/-- What a piece that follows `offset` places leaves outside quotes. -/
def Piece.unquoted (d : Dialect) (offset : Nat) : Piece → List Char
  | .text s => s.toList
  | .place _ => (d.placeholder (offset + 1)).toList
  | _ => []

/-- What pieces that follow `offset` places leave outside quotes. -/
def unquotedFrom (d : Dialect) (offset : Nat) : List Piece → List Char
  | [] => []
  | piece :: rest => piece.unquoted d offset ++ unquotedFrom d (piece.advance offset) rest

/-- There are no fragments among the pieces, and nothing is numbered anew. -/
def WithoutFragments (pieces : List Piece) : Prop := Meets (fun _ _ => False) pieces

/-- Where words hold no quotes, a statement without fragments leaves outside quotes just what its
pieces leave. -/
theorem outside_renderFrom {d : Dialect} {pieces : List Piece} (plain : WithoutFragments pieces)
    (bare : ∀ c ∈ wordsOf pieces, c ∉ d.quotes) (offset : Nat) :
    Text.outside d.quotes none (renderFrom d offset pieces).toList =
      unquotedFrom d offset pieces := by
  induction pieces generalizing offset with
  | nil => rfl
  | cons piece rest ih =>
    obtain ⟨first, later⟩ := List.forall_mem_cons.mp plain
    rw [wordsOf, List.flatMap_cons] at bare
    obtain ⟨here, behind⟩ := List.forall_mem_append.mp bare
    rw [renderFrom, String.toList_append, unquotedFrom, ← ih later behind]
    cases piece with
    | text s => exact Text.outside_append here _
    | place value => exact Text.outside_append (d.placeholder_bare _) _
    | name s =>
      have listed : d.quoteChar ∈ d.quotes := List.mem_cons_self
      simpa only [Piece.render, Dialect.quoteIdentifier, Text.quoted, String.toList_ofList,
        Piece.unquoted, List.nil_append] using
        Text.outside_quote listed s.toList _
    | literal s =>
      have listed : '\x27' ∈ d.quotes := List.mem_cons_of_mem _ List.mem_cons_self
      simpa only [Piece.render, Dialect.quoteString, Text.quoted, String.toList_ofList,
        Piece.unquoted, List.nil_append] using
        Text.outside_quote listed s.toList _
    | fragment sql places | renumber count => exact first.elim

/-! ### Counting marks and places -/

/-- Where places are not numbered, the question marks outside quotes are the places and those in
words. -/
theorem count_unquotedFrom {d : Dialect} (unnumbered : d.numbered = false) {pieces : List Piece}
    (plain : WithoutFragments pieces) (offset : Nat) :
    (unquotedFrom d offset pieces).count '?' =
      (placesOf pieces).length + (wordsOf pieces).count '?' := by
  induction pieces generalizing offset with
  | nil => rfl
  | cons piece rest ih =>
    obtain ⟨first, later⟩ := List.forall_mem_cons.mp plain
    have here : (piece.unquoted d offset).count '?' =
        piece.places.length + piece.words.count '?' := by
      cases piece with
      | text s => simp [Piece.unquoted, Piece.places, Piece.words]
      | place value =>
        simp [Piece.unquoted, Piece.places, Piece.words, placeholder_of_unnumbered unnumbered]
      | name s | literal s => rfl
      | fragment sql places | renumber count => exact first.elim
    have places : placesOf (piece :: rest) = piece.places ++ placesOf rest := List.flatMap_cons
    have words : wordsOf (piece :: rest) = piece.words ++ wordsOf rest := List.flatMap_cons
    rw [unquotedFrom, List.count_append, here, ih later, places, words, List.length_append,
      List.count_append]
    omega

theorem advanceAll_eq {R : String → Nat → Prop} {pieces : List Piece} (meets : Meets R pieces)
    (offset : Nat) : advanceAll offset pieces = offset + (placesOf pieces).length := by
  induction pieces generalizing offset with
  | nil => rfl
  | cons piece rest ih =>
    obtain ⟨first, later⟩ := List.forall_mem_cons.mp meets
    have step : advanceAll offset (piece :: rest) = advanceAll (piece.advance offset) rest := rfl
    have places : placesOf (piece :: rest) = piece.places ++ placesOf rest := List.flatMap_cons
    rw [step, ih later, first.advance, places, List.length_append, Nat.add_assoc]

/-! ### What holds of all words -/

/-- The words of pieces consist of certain characters. -/
def Says (ok : Char → Prop) (pieces : List Piece) : Prop := ∀ c ∈ wordsOf pieces, ok c

section Says

variable {ok : Char → Prop} {front rest : List Piece}

theorem says_nil : Says ok [] := List.forall_mem_nil _

theorem says_append : Says ok (front ++ rest) ↔ Says ok front ∧ Says ok rest := by
  rw [Says, wordsOf, List.flatMap_append]
  exact List.forall_mem_append

theorem says_cons {piece : Piece} : Says ok (piece :: rest) ↔ Says ok [piece] ∧ Says ok rest :=
  @says_append ok [piece] rest

theorem says_text {s : String} : Says ok [.text s] ↔ ∀ c ∈ s.toList, ok c := by
  simp [Says, wordsOf, Piece.words]

theorem says_of_words_nil {piece : Piece} (silent : piece.words = []) : Says ok [piece] := by
  simp [Says, wordsOf, silent]

theorem says_flatMap {α : Type} {write : α → List Piece} {items : List α} :
    Says ok (items.flatMap write) ↔ ∀ item ∈ items, Says ok (write item) := by
  induction items with
  | nil => simpa using says_nil
  | cons item more ih => rw [List.flatMap_cons, says_append, ih, List.forall_mem_cons]

variable (plain : ∀ c, isPlain c → ok c)
include plain

/-- Fixed words say nothing of their own. -/
theorem says_word {s : String} (fixed : s.toList.all isPlain) :
    Says ok (.text s :: rest) ↔ Says ok rest := by
  rw [says_cons, says_text]
  exact and_iff_right fun c member => plain c (List.all_eq_true.mp fixed c member)

/-- An operator behind fixed words. -/
theorem says_behind {before operator : String} (opening : before.toList.all isPlain) :
    Says ok (.text (before ++ operator) :: rest) ↔
      (∀ c ∈ operator.toList, ok c) ∧ Says ok rest := by
  rw [says_cons, says_text, String.toList_append, List.forall_mem_append]
  refine and_congr_left fun _ => and_iff_right fun c member => ?_
  exact plain c (List.all_eq_true.mp opening c member)

/-- An operator between fixed words. -/
theorem says_between {before operator behind : String} (opening : before.toList.all isPlain)
    (closing : behind.toList.all isPlain) :
    Says ok (.text (before ++ operator ++ behind) :: rest) ↔
      (∀ c ∈ operator.toList, ok c) ∧ Says ok rest := by
  rw [String.append_assoc, says_behind plain opening, String.toList_append, List.forall_mem_append]
  refine and_congr_left fun _ => and_iff_left fun c member => ?_
  exact plain c (List.all_eq_true.mp closing c member)

theorem says_parenthesised {inner : List Piece} :
    Says ok (parenthesised inner) ↔ Says ok inner := by
  rw [parenthesised, List.cons_append, says_word plain (by decide), says_append]
  exact and_iff_left ((says_word plain (by decide)).mpr says_nil)

theorem says_join {sep : String} (fixed : sep.toList.all isPlain) {parts : List (List Piece)} :
    Says ok (joinPieces sep parts) ↔ ∀ part ∈ parts, Says ok part := by
  induction parts with
  | nil => simpa [joinPieces] using says_nil
  | cons part more ih =>
    cases more with
    | nil => simp [joinPieces]
    | cons next others =>
      rw [joinPieces_cons_cons, says_append, says_word plain fixed, ih, ← List.forall_mem_cons]

theorem says_join_map {α : Type} {sep : String} (fixed : sep.toList.all isPlain)
    {write : α → List Piece} {items : List α} :
    Says ok (joinPieces sep (items.map write)) ↔ ∀ item ∈ items, Says ok (write item) := by
  rw [says_join plain fixed, List.forall_mem_map]

theorem says_sentence {clauses : List (List Piece)} :
    Says ok (sentence clauses) ↔ ∀ clause ∈ clauses, Says ok clause := by
  rw [sentence, says_join plain (by decide)]
  constructor
  · intro written clause member
    cases empty : clause.isEmpty with
    | true => exact List.isEmpty_iff.mp empty ▸ says_nil
    | false => exact written clause (List.mem_filter.mpr ⟨member, by simp [empty]⟩)
  · exact fun all clause member => all clause (List.mem_filter.mp member).1

/-- Names say nothing, whatever they are. -/
theorem says_tokens (tokens : List NameToken) : Says ok (tokens.map NameToken.piece) := by
  induction tokens with
  | nil => exact says_nil
  | cons token more ih =>
    refine says_cons.mpr ⟨?_, ih⟩
    cases token with
    | ident s => exact says_of_words_nil rfl
    | star | point | comma | label => exact (says_word plain (by decide)).mpr says_nil

theorem says_segment (s : String) : Says ok [Grammar.segment s] := by
  rw [NameToken.segment_eq_piece]
  exact says_tokens plain [NameToken.ofSegment s]

theorem says_column (g : Grammar) (reference : String) : Says ok (g.column reference) := by
  rw [g.column_eq]
  exact says_tokens plain _

theorem says_table (g : Grammar) (reference : String) : Says ok (g.table reference) := by
  rw [g.table_eq]
  exact says_tokens plain _

theorem says_columnList (g : Grammar) (references : List String) :
    Says ok (g.columnList references) := by
  rw [g.columnList_eq]
  exact says_tokens plain _

end Says

end Sqlwright
