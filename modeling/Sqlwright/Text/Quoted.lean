/-!
Quoting by doubling: a quoted text stands between two quote characters and every quote inside is
written twice. `unquote_eq_some_iff` says that reading takes exactly the quoted texts and gives them
back, whatever follows, as long as what follows does not start with the quote.
-/

namespace Sqlwright.Text

/-- Every quote written twice. -/
def double (q : Char) : List Char → List Char
  | [] => []
  | c :: rest => if c = q then q :: q :: double q rest else c :: double q rest

/-- The text between two quotes. -/
def quote (q : Char) (s : List Char) : List Char := q :: double q s ++ [q]

def quoted (q : Char) (s : String) : String := .ofList (quote q s.toList)

/-- Reads the inside of a quoted text up to its closing quote; the result holds the text and what
follows the closing quote. None when the text is never closed. -/
def unquoteInside (q : Char) : List Char → Option (List Char × List Char)
  | [] => none
  | [c] => if c = q then some ([], []) else none
  | c :: d :: rest =>
    if c = q then
      if d = q then (unquoteInside q rest).map fun read => (q :: read.1, read.2)
      else some ([], d :: rest)
    else (unquoteInside q (d :: rest)).map fun read => (c :: read.1, read.2)

/-- Reads one quoted text and what follows it. -/
def unquote (q : Char) : List Char → Option (List Char × List Char)
  | [] => none
  | c :: rest => if c = q then unquoteInside q rest else none

theorem unquoteInside_double {q : Char} {after : List Char} (s : List Char)
    (apart : after.head? ≠ some q) :
    unquoteInside q (double q s ++ q :: after) = some (s, after) := by
  induction s with
  | nil =>
    cases after with
    | nil => simp [double, unquoteInside]
    | cons d rest =>
      have : d ≠ q := by simpa using apart
      simp [double, unquoteInside, this]
  | cons c rest ih =>
    by_cases h : c = q
    · subst h
      simp [double, unquoteInside, ih]
    · simp only [double, h, if_false, List.cons_append]
      cases hd : double q rest ++ q :: after with
      | nil => simp at hd
      | cons d more => simp [unquoteInside, h, ← hd, ih]

/-- Reading a quoted text gives it back and leaves what follows. -/
theorem unquote_quote {q : Char} {after : List Char} (s : List Char)
    (apart : after.head? ≠ some q) : unquote q (quote q s ++ after) = some (s, after) := by
  simpa [unquote, quote] using unquoteInside_double s apart

theorem eq_double_of_unquoteInside {q : Char} {s name after : List Char}
    (read : unquoteInside q s = some (name, after)) :
    s = double q name ++ q :: after ∧ after.head? ≠ some q := by
  fun_induction unquoteInside q s generalizing name with
  | case1 => cases read
  | case2 =>
    obtain ⟨rfl, rfl⟩ := Prod.mk.inj (Option.some.inj read)
    simp [double]
  | case3 c other => cases read
  | case4 rest ih =>
    obtain ⟨⟨inside, left⟩, found, same⟩ := Option.map_eq_some_iff.mp read
    obtain ⟨rfl, rfl⟩ := Prod.mk.inj same
    obtain ⟨whole, apart⟩ := ih found
    exact ⟨by simp [double, whole], apart⟩
  | case5 d rest other =>
    obtain ⟨rfl, rfl⟩ := Prod.mk.inj (Option.some.inj read)
    simpa [double] using other
  | case6 c d rest other ih =>
    obtain ⟨⟨inside, left⟩, found, same⟩ := Option.map_eq_some_iff.mp read
    obtain ⟨rfl, rfl⟩ := Prod.mk.inj same
    obtain ⟨whole, apart⟩ := ih found
    exact ⟨by simp [double, other, whole], apart⟩

/-- What is read is a quoted text, and nothing else is. -/
theorem unquote_eq_some_iff {q : Char} {s name after : List Char} :
    unquote q s = some (name, after) ↔ s = quote q name ++ after ∧ after.head? ≠ some q := by
  constructor
  · intro read
    cases s with
    | nil => cases read
    | cons c rest =>
      by_cases opens : c = q
      · rw [unquote, if_pos opens] at read
        obtain ⟨whole, apart⟩ := eq_double_of_unquoteInside read
        exact ⟨by simp [quote, opens, whole], apart⟩
      · rw [unquote, if_neg opens] at read
        cases read
  · rintro ⟨rfl, apart⟩
    exact unquote_quote name apart

end Sqlwright.Text
