import Sqlwright.Proofs.StrayMarks

/-!
Parentheses outside quotes. A reader of a statement passes over quoted text, counts how deep in
parentheses it is, and stops where one closes nothing or closes what was opened just before. What is
written piece by piece is read piece by piece, and a phrase is read from any depth back to it.
-/

namespace Sqlwright

namespace Text

/-! ### Reading -/

/-- A point of a statement. -/
structure Nesting where
  /-- The quote that the point is within. -/
  opened : Option Char := none
  /-- How many parentheses are open. -/
  depth : Nat
  /-- A parenthesis was opened just before. -/
  fresh : Bool := false

/-- The point behind a character. Outside quotes a parenthesis must close one, and not the one that
was opened just before. -/
def Nesting.next? (quotes : List Char) (s : Nesting) (c : Char) : Option Nesting :=
  match s with
  | ⟨some q, depth, _⟩ => some { opened := if c = q then none else some q, depth }
  | ⟨none, depth, fresh⟩ =>
    if c ∈ quotes then some { opened := some c, depth }
    else if c = '(' then some { depth := depth + 1, fresh := true }
    else if c = ')' then
      match depth, fresh with
      | outer + 1, false => some { depth := outer }
      | _, _ => none
    else some { depth }

/-- The point behind a text, if its parentheses can be read. -/
def nest? (quotes : List Char) (s : Nesting) (text : List Char) : Option Nesting :=
  text.foldlM (Nesting.next? quotes) s

/-- The quote that a point is within, read from a point within `opened` or outside of all. -/
def openedAfter (quotes : List Char) (opened : Option Char) : List Char → Option Char
  | [] => opened
  | c :: rest =>
    match opened with
    | some q => openedAfter quotes (if c = q then none else some q) rest
    | none => openedAfter quotes (if c ∈ quotes then some c else none) rest

section Reading

variable {quotes : List Char} {s t : Nesting} {front rest text : List Char}

theorem nest?_append (quotes : List Char) (s : Nesting) (front rest : List Char) :
    nest? quotes s (front ++ rest) = (nest? quotes s front).bind fun t => nest? quotes t rest :=
  List.foldlM_append

theorem nest?_cons (quotes : List Char) (s : Nesting) (c : Char) (rest : List Char) :
    nest? quotes s (c :: rest) = (s.next? quotes c).bind fun t => nest? quotes t rest :=
  List.foldlM_cons

theorem nest?_trans {u : Nesting} (first : nest? quotes s front = some t)
    (second : nest? quotes t rest = some u) : nest? quotes s (front ++ rest) = some u := by
  rw [nest?_append, first, Option.bind_some, second]

theorem nest?_quote {q : Char} (quoting : q ∈ quotes) (text : List Char) (depth : Nat)
    (fresh : Bool) : nest? quotes ⟨none, depth, fresh⟩ (quote q text) = some { depth } := by
  have inside (text : List Char) :
      nest? quotes ⟨some q, depth, false⟩ (double q text ++ [q]) = some { depth } := by
    induction text with
    | nil => simp [double, nest?, Nesting.next?]
    | cons c more ih =>
      by_cases same : c = q
      · subst same
        -- a doubled quote ends a stretch and starts the next
        simp [double, nest?_cons, Nesting.next?, quoting, ih]
      · simp [double, nest?_cons, Nesting.next?, same, ih]
  have opening : Nesting.next? quotes ⟨none, depth, fresh⟩ q = some ⟨some q, depth, false⟩ := by
    simp [Nesting.next?, quoting]
  rw [quote, List.cons_append, nest?_cons, opening, Option.bind_some, inside]

/-- What one character does: within quotes it may end them, a quote opens them, and any other
character changes the depth as far as it is a parenthesis. -/
theorem Nesting.next?_cases {c : Char} (step : s.next? quotes c = some t) :
    (∃ q, s.opened = some q ∧ t.opened = (if c = q then none else some q) ∧ t.depth = s.depth) ∨
    (s.opened = none ∧ c ∈ quotes ∧ t.opened = some c ∧ t.depth = s.depth) ∨
    (s.opened = none ∧ c ∉ quotes ∧ t.opened = none ∧
      t.depth + [c].count ')' = s.depth + [c].count '(') := by
  obtain ⟨opened, depth, fresh⟩ := s
  cases opened with
  | some q =>
    cases step
    exact .inl ⟨q, rfl, rfl, rfl⟩
  | none =>
    by_cases quoting : c ∈ quotes
    · simp only [next?, quoting, if_true] at step
      cases step
      exact .inr (.inl ⟨rfl, quoting, rfl, rfl⟩)
    · refine .inr (.inr ⟨rfl, quoting, ?_⟩)
      simp only [next?, quoting, if_false] at step
      by_cases opens : c = '('
      · subst opens
        cases step
        exact ⟨rfl, rfl⟩
      · by_cases closes : c = ')'
        · subst closes
          rw [if_neg opens, if_pos rfl] at step
          split at step
          · cases step
            exact ⟨rfl, rfl⟩
          · cases step
        · rw [if_neg opens, if_neg closes] at step
          cases step
          simp [opens, closes]

/-- What is read from a point on closes no more than is open, and ends as deep as it says. -/
theorem nest?_counts (nested : nest? quotes s text = some t) :
    (∀ front, front <+: outside quotes s.opened text →
      front.count ')' ≤ s.depth + front.count '(') ∧
    s.depth + (outside quotes s.opened text).count '(' =
      t.depth + (outside quotes s.opened text).count ')' := by
  induction text generalizing s with
  | nil =>
    cases nested
    refine ⟨fun front within => ?_, rfl⟩
    rw [List.prefix_nil.mp within]
    exact Nat.zero_le _
  | cons c more ih =>
    rw [nest?_cons] at nested
    obtain ⟨middle, step, later⟩ := Option.bind_eq_some_iff.mp nested
    obtain ⟨prefixes, total⟩ := ih later
    obtain ⟨q, opened, after, depth⟩ | ⟨opened, quoting, after, depth⟩ |
      ⟨opened, plain, after, depth⟩ := Nesting.next?_cases step
    · rw [after, depth] at prefixes total
      rw [opened, outside]
      exact ⟨prefixes, total⟩
    · rw [after, depth] at prefixes total
      rw [opened, outside, if_pos quoting]
      exact ⟨prefixes, total⟩
    · rw [after] at prefixes total
      rw [opened, outside, if_neg plain]
      have split (a : Char) (l : List Char) : (c :: l).count a = [c].count a + l.count a := by
        rw [← List.count_append, List.singleton_append]
      refine ⟨fun front within => ?_, ?_⟩
      · cases front with
        | nil => exact Nat.zero_le _
        | cons first rest =>
          obtain ⟨rfl, inside⟩ := List.cons_prefix_cons.mp within
          have deeper := prefixes rest inside
          rw [split ')' rest, split '(' rest]
          omega
      · rw [split ')' _, split '(' _]
        omega

theorem nest?_opened (nested : nest? quotes s text = some t) :
    openedAfter quotes s.opened text = t.opened := by
  induction text generalizing s with
  | nil =>
    cases nested
    rfl
  | cons c more ih =>
    rw [nest?_cons] at nested
    obtain ⟨middle, step, later⟩ := Option.bind_eq_some_iff.mp nested
    rw [← ih later]
    obtain ⟨q, opened, after, -⟩ | ⟨opened, quoting, after, -⟩ | ⟨opened, plain, after, -⟩ :=
      Nesting.next?_cases step
    · rw [opened, openedAfter, after]
    · rw [opened, openedAfter, after, if_pos quoting]
    · rw [opened, openedAfter, after, if_neg plain]

/-- Nothing is closed right behind where it was opened. -/
theorem nest?_filled (bare : '(' ∉ quotes ∧ ')' ∉ quotes)
    (nested : nest? quotes s (front ++ '(' :: ')' :: rest) = some t) :
    (openedAfter quotes s.opened front).isSome := by
  rw [nest?_append] at nested
  obtain ⟨⟨opened, depth, fresh⟩, before, behind⟩ := Option.bind_eq_some_iff.mp nested
  rw [nest?_opened before]
  cases opened with
  | some q => rfl
  | none => simp [nest?_cons, Nesting.next?, bare] at behind

end Reading

end Text

/-- The parentheses of a statement outside quotes match: no front of it closes more than it opens,
it closes as many as it opens, and none is closed right behind where it was opened. -/
structure Dialect.ParenthesesMatch (d : Dialect) (sql : String) : Prop where
  prefixes : ∀ front, front <+: d.outsideQuotes sql → front.count ')' ≤ front.count '('
  total : (d.outsideQuotes sql).count '(' = (d.outsideQuotes sql).count ')'
  filled : ∀ front rest, sql.toList = front ++ '(' :: ')' :: rest →
    (Text.openedAfter d.quotes none front).isSome

theorem Dialect.parenthesesMatch_of_nest? {d : Dialect} {sql : String} {fresh : Bool}
    (nested : Text.nest? d.quotes { depth := 0 } sql.toList = some { depth := 0, fresh }) :
    d.ParenthesesMatch sql := by
  have bare : '(' ∉ d.quotes ∧ ')' ∉ d.quotes := by cases d <;> decide
  obtain ⟨prefixes, total⟩ := Text.nest?_counts nested
  simp only [Nat.zero_add] at prefixes total
  refine ⟨prefixes, total, fun front rest whole => ?_⟩
  rw [whole] at nested
  exact Text.nest?_filled bare nested

/-! ### Flat text -/

/-- A character that is neither a quote nor a parenthesis. -/
def isFlat (c : Char) : Bool := c ∉ ['\x60', '\x22', '\x27', '(', ')']

/-- A text of such characters that is not empty. -/
def IsWords (w : String) : Prop := w.toList.all isFlat ∧ w ≠ ""

instance (w : String) : Decidable (IsWords w) := inferInstanceAs (Decidable (_ ∧ _))

section Flat

variable {d : Dialect} {text before behind : List Char}

theorem Text.Nesting.next?_flat {c : Char} (flat : isFlat c) (depth : Nat) (fresh : Bool) :
    next? d.quotes ⟨none, depth, fresh⟩ c = some { depth } := by
  have absent : c ∉ ['\x60', '\x22', '\x27', '(', ')'] := of_decide_eq_true flat
  have bare : c ∉ d.quotes := by
    cases d <;> simp_all [Dialect.quotes, Dialect.quoteChar]
  simp only [List.mem_cons, not_or] at absent
  simp [next?, bare, absent]

theorem Text.nest?_flat (flat : text.all isFlat) (depth : Nat) (fresh : Bool) :
    nest? d.quotes ⟨none, depth, fresh⟩ text = some ⟨none, depth, fresh && text.isEmpty⟩ := by
  induction text generalizing fresh with
  | nil => simp [nest?]
  | cons c rest ih =>
    rw [List.all_cons, Bool.and_eq_true] at flat
    rw [nest?_cons, Nesting.next?_flat flat.1, Option.bind_some, ih flat.2]
    simp

theorem Text.nest?_opening (flat : before.all isFlat ∧ behind.all isFlat) (depth : Nat)
    (fresh : Bool) : nest? d.quotes ⟨none, depth, fresh⟩ (before ++ '(' :: behind) =
      some { depth := depth + 1, fresh := behind.isEmpty } := by
  have bare : '(' ∉ d.quotes := by cases d <;> decide
  have opens (fresh : Bool) : Nesting.next? d.quotes ⟨none, depth, fresh⟩ '(' =
      some { depth := depth + 1, fresh := true } := by simp [Nesting.next?, bare]
  refine nest?_trans (nest?_flat flat.1 depth fresh) ?_
  rw [nest?_cons, opens, Option.bind_some, nest?_flat flat.2, Bool.true_and]

theorem Text.nest?_closing (flat : before.all isFlat ∧ behind.all isFlat) (depth : Nat) :
    nest? d.quotes { depth := depth + 1 } (before ++ ')' :: behind) = some { depth } := by
  have bare : ')' ∉ d.quotes := by cases d <;> decide
  have closes : Nesting.next? d.quotes ⟨none, depth + 1, false⟩ ')' = some { depth } := by
    simp [Nesting.next?, bare]
  refine nest?_trans (nest?_flat flat.1 (depth + 1) false) ?_
  rw [Bool.false_and, nest?_cons, closes, Option.bind_some, nest?_flat flat.2, Bool.false_and]

theorem isFlat_number (n : Nat) : (toString n).toList.all isFlat := by
  refine List.all_eq_true.mpr fun c member => decide_eq_true fun special => ?_
  have digit := Number.isDigit_of_mem_toString member
  simp only [List.mem_cons, List.not_mem_nil, or_false] at special
  rcases special with rfl | rfl | rfl | rfl | rfl <;> cases digit

/-- A flat text between blanks. -/
theorem flat_around {s : String} (flat : s.toList.all isFlat) :
    (" " ++ s ++ " ").toList.all isFlat := by
  rw [String.toList_append, String.toList_append, List.all_append, List.all_append, flat]
  rfl

theorem Dialect.placeholder_words (d : Dialect) (number : Nat) :
    IsWords (d.placeholder number) := by
  unfold placeholder
  split
  · refine ⟨?_, by simp⟩
    rw [String.toList_append, List.all_append, isFlat_number number]
    rfl
  · decide

end Flat

/-! ### Phrases -/

/-- Reading the pieces leads from one point to another, whatever number the places have. -/
def Leads (d : Dialect) (pieces : List Piece) (s t : Text.Nesting) : Prop :=
  ∀ offset, Text.nest? d.quotes s (renderFrom d offset pieces).toList = some t

/-- Pieces that say something and close just what they open. -/
def Phrase (d : Dialect) (pieces : List Piece) : Prop :=
  ∀ depth fresh, Leads d pieces { depth, fresh } { depth }

section Phrases

variable {d : Dialect} {front rest : List Piece} {s t u : Text.Nesting}

theorem renderFrom_parenthesised (d : Dialect) (offset : Nat) (inner : List Piece) :
    renderFrom d offset (parenthesised inner) = "(" ++ renderFrom d offset inner ++ ")" := by
  rw [parenthesised, renderFrom_append]
  rfl

theorem Leads.append (first : Leads d front s t) (second : Leads d rest t u) :
    Leads d (front ++ rest) s u := by
  intro offset
  rw [renderFrom_append, String.toList_append]
  exact Text.nest?_trans (first offset) (second _)

theorem leads_text {word : String} (nested : Text.nest? d.quotes s word.toList = some t) :
    Leads d [.text word] s t := by
  intro offset
  have whole : renderFrom d offset [.text word] = word := String.append_empty
  rw [whole]
  exact nested

/-- Words without parentheses, behind something. -/
theorem leads_flat {word : String} (flat : word.toList.all isFlat) (depth : Nat) :
    Leads d [.text word] { depth } { depth } :=
  leads_text (Text.nest?_flat flat depth false)

/-- Words that open a parenthesis. -/
theorem leads_opening {word : String} {before behind : List Char}
    (same : word.toList = before ++ '(' :: behind) (flat : before.all isFlat ∧ behind.all isFlat)
    (depth : Nat) (fresh : Bool) :
    Leads d [.text word] { depth, fresh } { depth := depth + 1, fresh := behind.isEmpty } :=
  leads_text (same ▸ Text.nest?_opening flat depth fresh)

/-- Words that close a parenthesis. -/
theorem leads_closing {word : String} {before behind : List Char}
    (same : word.toList = before ++ ')' :: behind) (flat : before.all isFlat ∧ behind.all isFlat)
    (depth : Nat) : Leads d [.text word] { depth := depth + 1 } { depth } :=
  leads_text (same ▸ Text.nest?_closing flat depth)

namespace Phrase

theorem append (first : Phrase d front) (second : Phrase d rest) : Phrase d (front ++ rest) :=
  fun depth fresh => (first depth fresh).append (second depth false)

theorem word {w : String} (words : IsWords w) : Phrase d [.text w] := by
  intro depth fresh
  have nested := Text.nest?_flat (d := d) words.1 depth fresh
  have said : w.toList.isEmpty = false := by simpa using words.2
  rw [said, Bool.and_false] at nested
  exact leads_text nested

theorem quoted {q : Char} (quoting : q ∈ d.quotes) {piece : Piece} {text : List Char}
    (written : ∀ offset, (piece.render d offset).toList = Text.quote q text) :
    Phrase d [piece] := by
  intro depth fresh offset
  have whole : renderFrom d offset [piece] = piece.render d offset := String.append_empty
  rw [whole, written]
  exact Text.nest?_quote quoting text depth fresh

theorem name (text : String) : Phrase d [.name text] :=
  quoted (q := d.quoteChar) List.mem_cons_self fun _ => String.toList_ofList

theorem literal (text : String) : Phrase d [.literal text] :=
  quoted (List.mem_cons_of_mem _ List.mem_cons_self) fun _ => String.toList_ofList

theorem place (value : Value) : Phrase d [.place value] := by
  intro depth fresh offset
  exact word (d.placeholder_words (offset + 1)) depth fresh offset

/-- Words in front of a phrase. -/
theorem behind {w : String} (words : IsWords w) (said : Phrase d rest) :
    Phrase d (.text w :: rest) :=
  (word words).append said

/-- Words between two phrases. -/
theorem between {w : String} (first : Phrase d front) (flat : w.toList.all isFlat)
    (second : Phrase d rest) : Phrase d (front ++ .text w :: rest) := fun depth fresh =>
  (first depth fresh).append ((leads_flat flat depth).append (second depth false))

/-- Words behind a phrase. -/
theorem followed {w : String} (first : Phrase d front) (flat : w.toList.all isFlat) :
    Phrase d (front ++ [.text w]) := fun depth fresh =>
  (first depth fresh).append (leads_flat flat depth)

/-- A phrase in parentheses, with words around them. -/
theorem enclosed {first last : String} {before inside within behind : List Char}
    (opening : first.toList = before ++ '(' :: inside)
    (closing : last.toList = within ++ ')' :: behind)
    (flat : (before.all isFlat ∧ inside.all isFlat) ∧ within.all isFlat ∧ behind.all isFlat)
    (inner : Phrase d rest) : Phrase d (.text first :: rest ++ [.text last]) := by
  intro depth fresh
  have opened := (leads_opening (d := d) opening flat.1 depth fresh).append (inner _ _)
  exact opened.append (leads_closing closing flat.2 depth)

theorem parenthesised (inner : Phrase d rest) : Phrase d (parenthesised rest) := by
  have opening : "(".toList = [] ++ '(' :: [] := rfl
  have closing : ")".toList = [] ++ ')' :: [] := rfl
  exact enclosed opening closing ⟨⟨rfl, rfl⟩, rfl, rfl⟩ inner

theorem of_pieces (each : ∀ piece ∈ front, Phrase d [piece]) (some : front ≠ []) :
    Phrase d front := by
  induction front with
  | nil => exact absurd rfl some
  | cons piece more ih =>
    obtain ⟨first, later⟩ := List.forall_mem_cons.mp each
    cases more with
    | nil => exact first
    | cons next others => exact first.append (ih later (List.cons_ne_nil _ _))

theorem join {sep : String} (words : IsWords sep) {parts : List (List Piece)}
    (each : ∀ part ∈ parts, Phrase d part) (any : parts ≠ []) :
    Phrase d (joinPieces sep parts) := by
  induction parts with
  | nil => exact absurd rfl any
  | cons part more ih =>
    obtain ⟨first, later⟩ := List.forall_mem_cons.mp each
    cases more with
    | nil => exact first
    | cons next others =>
      exact first.append ((ih later (List.cons_ne_nil _ _)).behind words)

/-- Further phrases, each behind a word. -/
theorem chain {α : Type} (first : Phrase d front) {word : α → String} {write : α → List Piece}
    {items : List α}
    (each : ∀ item ∈ items, (word item).toList.all isFlat ∧ Phrase d (write item)) :
    Phrase d (front ++ items.flatMap fun item => .text (word item) :: write item) := by
  induction items generalizing front with
  | nil => simpa using first
  | cons item rest ih =>
    obtain ⟨⟨flat, said⟩, later⟩ := List.forall_mem_cons.mp each
    simpa using ih (first.between flat said) later

/-- A sentence of a phrase and of clauses that are phrases or left out. -/
theorem sentence {clauses : List (List Piece)} (head : Phrase d front) (begun : front ≠ [])
    (each : ∀ clause ∈ clauses, clause = [] ∨ Phrase d clause) :
    Phrase d (sentence (front :: clauses)) := by
  refine join (by decide) (fun clause member => ?_) ?_
  · obtain ⟨listed, written⟩ := List.mem_filter.mp member
    rcases List.mem_cons.mp listed with rfl | later
    · exact head
    · refine (each clause later).resolve_left ?_
      simpa using written
  · simp [begun]

/-- Wherever a phrase stands, its parentheses match. -/
theorem parenthesesMatch (said : Phrase d front) (offset : Nat) :
    d.ParenthesesMatch (renderFrom d offset front) :=
  Dialect.parenthesesMatch_of_nest? (said 0 false offset)

theorem renderFrom_ne_empty (said : Phrase d front) (offset : Nat) :
    renderFrom d offset front ≠ "" := by
  intro empty
  -- nothing at all would leave a parenthesis that was just opened as it is
  have nested := said 0 true offset
  rw [empty] at nested
  cases nested

end Phrase

end Phrases

end Sqlwright
