import Sqlwright.Dialect

/-!
How the dialects read string literals. All of them read a doubled quote as one quote. MySQL reads a
backslash as well, together with the character behind it, and quoting does not know: a literal is
read as the text it was made of just if each backslash in the text is one that MySQL keeps.
-/

namespace Sqlwright

namespace Text

/-- What MySQL reads for a backslash and the character behind it. In front of the marks of patterns
the backslash is kept; in front of a character without a meaning of its own it is dropped. -/
def unescaped : Char → List Char
  | '0' => ['\x00']
  | 'b' => ['\x08']
  | 'n' => ['\n']
  | 'r' => ['\r']
  | 't' => ['\t']
  | 'Z' => ['\x1a']
  | '%' => ['\\', '%']
  | '_' => ['\\', '_']
  | c => [c]

/-- Reads the inside of a literal with escapes up to its closing quote; the result holds the text
and what follows the closing quote. None when the literal is never closed. -/
def unescapeInside : List Char → Option (List Char × List Char)
  | [] => none
  | [c] => if c = '\x27' then some ([], []) else none
  | c :: next :: rest =>
    if c = '\x27' then
      if next = '\x27' then (unescapeInside rest).map fun read => ('\x27' :: read.1, read.2)
      else some ([], next :: rest)
    else if c = '\\' then (unescapeInside rest).map fun read => (unescaped next ++ read.1, read.2)
    else (unescapeInside (next :: rest)).map fun read => (c :: read.1, read.2)

/-- Reads one literal with escapes and what follows it. -/
def unescape : List Char → Option (List Char × List Char)
  | [] => none
  | c :: rest => if c = '\x27' then unescapeInside rest else none

/-- Every backslash is one that is kept: a mark of patterns stands behind it. -/
def KeepsBackslashes (s : List Char) : Prop :=
  ∀ behind, '\\' :: behind <:+ s → behind.head? = some '%' ∨ behind.head? = some '_'

section Reading

variable {c : Char} {s after : List Char}

theorem keepsBackslashes_cons : KeepsBackslashes (c :: s) ↔
    (c = '\\' → s.head? = some '%' ∨ s.head? = some '_') ∧ KeepsBackslashes s := by
  simp only [KeepsBackslashes, List.suffix_cons_iff, or_imp, forall_and, List.cons.injEq]
  refine and_congr_left fun _ => ⟨fun kept backslash => ?_, ?_⟩
  · exact kept s ⟨backslash.symm, rfl⟩
  · rintro kept behind ⟨rfl, rfl⟩
    exact kept rfl

theorem keepsBackslashes_nil : KeepsBackslashes [] := fun _ within =>
  absurd (List.suffix_nil.mp within) (List.cons_ne_nil _ _)

instance decidableKeepsBackslashes : (s : List Char) → Decidable (KeepsBackslashes s)
  | [] => .isTrue keepsBackslashes_nil
  | _ :: rest =>
    have := decidableKeepsBackslashes rest
    decidable_of_iff' _ keepsBackslashes_cons

/-- A text takes no less room in quotes than where it was read. -/
theorem length_double_of_unescapeInside {read : List Char}
    (found : unescapeInside s = some (read, after)) :
    (double '\x27' read).length + after.length < s.length := by
  fun_induction unescapeInside s generalizing read with
  | case1 => cases found
  | case2 =>
    cases found
    simp [double]
  | case3 => cases found
  | case4 rest ih =>
    obtain ⟨⟨inside, left⟩, within, same⟩ := Option.map_eq_some_iff.mp found
    obtain ⟨rfl, rfl⟩ := Prod.mk.inj same
    have shorter : (double '\x27' inside).length + left.length < rest.length := ih within
    simp only [double, if_true, List.length_cons]
    omega
  | case5 next rest other =>
    cases found
    simp [double]
  | case6 next rest other ih =>
    obtain ⟨⟨inside, left⟩, within, same⟩ := Option.map_eq_some_iff.mp found
    obtain ⟨rfl, rfl⟩ := Prod.mk.inj same
    have shorter : (double '\x27' inside).length + left.length < rest.length := ih within
    have room : (double '\x27' (unescaped next ++ inside)).length ≤
        (double '\x27' inside).length + 2 := by
      unfold unescaped
      split <;> simp [double]
      split <;> simp
    simp only [List.length_cons]
    omega
  | case7 c next rest other plain ih =>
    obtain ⟨⟨inside, left⟩, within, same⟩ := Option.map_eq_some_iff.mp found
    obtain ⟨rfl, rfl⟩ := Prod.mk.inj same
    have shorter := ih within
    simp only [double, other, if_false, List.length_cons] at shorter ⊢
    omega

/-- What is read for a backslash starts with one if it is kept, or else if it stands for another. -/
theorem unescaped_head? (next : Char) : (unescaped next).head? = some '\\' →
    next = '%' ∨ next = '_' ∨ next = '\\' ∧ unescaped next = ['\\'] := by
  unfold unescaped
  split <;> simp +contextual

theorem unescapeInside_backslash (next : Char) (rest : List Char) :
    unescapeInside ('\\' :: next :: rest) =
      (unescapeInside rest).map fun read => (unescaped next ++ read.1, read.2) := by
  simp [unescapeInside]

theorem unescapeInside_plain {rest : List Char} (quote : c ≠ '\x27') (backslash : c ≠ '\\')
    (more : rest ≠ []) :
    unescapeInside (c :: rest) = (unescapeInside rest).map fun read => (c :: read.1, read.2) := by
  obtain ⟨next, later, rfl⟩ := List.exists_cons_of_ne_nil more
  rw [unescapeInside, if_neg quote, if_neg backslash]

/-- In front of a mark of patterns a backslash is read like any other character. -/
theorem unescapeInside_kept (mark : s.head? = some '%' ∨ s.head? = some '_') :
    unescapeInside ('\\' :: (double '\x27' s ++ '\x27' :: after)) =
      (unescapeInside (double '\x27' s ++ '\x27' :: after)).map
        fun read => ('\\' :: read.1, read.2) := by
  have kept {c : Char} (mark : c = '%' ∨ c = '_') {rest : List Char} (more : rest ≠ []) :
      unescapeInside ('\\' :: c :: rest) =
        (unescapeInside (c :: rest)).map fun read => ('\\' :: read.1, read.2) := by
    rcases mark with rfl | rfl
    all_goals
      rw [unescapeInside_backslash, unescapeInside_plain (by decide) (by decide) more,
        Option.map_map]
      rfl
  cases s with
  | nil => simp at mark
  | cons c rest =>
    have first : c = '%' ∨ c = '_' := by simpa using mark
    have other : c ≠ '\x27' := by rcases first with rfl | rfl <;> decide
    rw [double, if_neg other]
    exact kept first (by simp)

/-- Reading gives a character and the text behind it exactly if it gives that text. -/
theorem map_cons_eq_some_iff {read : Option (List Char × List Char)} :
    (read.map fun read => (c :: read.1, read.2)) = some (c :: s, after) ↔
      read = some (s, after) := by
  cases read with
  | none => simp
  | some pair => simp [Prod.ext_iff]

/-- A backslash in front of anything but a mark of patterns is lost. -/
theorem mark_of_unescapeInside
    (found : unescapeInside ('\\' :: (double '\x27' s ++ '\x27' :: after)) =
      some ('\\' :: s, after)) : s.head? = some '%' ∨ s.head? = some '_' := by
  -- the character behind the backslash is the first one of the text, or a quote
  cases shape : double '\x27' s ++ '\x27' :: after with
  | nil => simp at shape
  | cons next rest =>
    rw [shape, unescapeInside_backslash] at found
    obtain ⟨⟨inside, left⟩, within, same⟩ := Option.map_eq_some_iff.mp found
    obtain ⟨whole, rfl⟩ := Prod.mk.inj same
    have opens : (unescaped next).head? = some '\\' := by
      cases first : unescaped next with
      | nil =>
        unfold unescaped at first
        split at first <;> cases first
      | cons d more =>
        rw [first] at whole
        rw [List.head?_cons, (List.cons.inj whole).1]
    cases s with
    | nil =>
      obtain rfl : '\x27' = next := (List.cons.inj shape).1
      exact absurd opens (by decide)
    | cons d more =>
      by_cases quote : d = '\x27'
      · rw [quote, double, if_pos rfl] at shape
        obtain rfl : '\x27' = next := (List.cons.inj shape).1
        exact absurd opens (by decide)
      · rw [double, if_neg quote] at shape
        obtain ⟨rfl, rfl⟩ := List.cons.inj shape
        rcases unescaped_head? d opens with rfl | rfl | ⟨rfl, single⟩
        · exact .inl rfl
        · exact .inr rfl
        · -- the text would have to take more room than there is behind the two backslashes
          rw [single] at whole
          obtain rfl : inside = '\\' :: more := (List.cons.inj whole).2
          have shorter := length_double_of_unescapeInside within
          have room : (double '\x27' ('\\' :: more)).length = (double '\x27' more).length + 1 := rfl
          simp only [List.append_eq, List.length_append, List.length_cons] at shorter
          omega

theorem unescapeInside_double_iff (apart : after.head? ≠ some '\x27') (s : List Char) :
    unescapeInside (double '\x27' s ++ '\x27' :: after) = some (s, after) ↔
      KeepsBackslashes s := by
  induction s with
  | nil =>
    refine iff_of_true ?_ keepsBackslashes_nil
    cases after with
    | nil => rfl
    | cons d rest =>
      have other : d ≠ '\x27' := by simpa using apart
      simp [double, unescapeInside, other]
  | cons c rest ih =>
    have more : double '\x27' rest ++ '\x27' :: after ≠ [] := by simp
    rw [keepsBackslashes_cons, ← ih]
    by_cases quote : c = '\x27'
    · have doubled : unescapeInside (double '\x27' (c :: rest) ++ '\x27' :: after) =
          (unescapeInside (double '\x27' rest ++ '\x27' :: after)).map
            fun read => (c :: read.1, read.2) := by
        simp [double, quote, unescapeInside]
      rw [doubled, map_cons_eq_some_iff]
      simp [quote]
    · rw [double, if_neg quote, List.cons_append]
      by_cases backslash : c = '\\'
      · subst backslash
        constructor
        · intro found
          have mark := mark_of_unescapeInside found
          rw [unescapeInside_kept mark, map_cons_eq_some_iff] at found
          exact ⟨fun _ => mark, found⟩
        · rintro ⟨kept, found⟩
          rwa [unescapeInside_kept (kept rfl), map_cons_eq_some_iff]
      · rw [unescapeInside_plain quote backslash more, map_cons_eq_some_iff]
        simp [backslash]

end Reading

end Text

namespace Dialect

/-- Reads one string literal of the dialect and what follows it. -/
def readString : Dialect → List Char → Option (List Char × List Char)
  | .mysql => Text.unescape
  | _ => Text.unquote '\x27'

/-- The literal of a text spells it: no backslash in it means something else to the dialect. -/
def Spells (d : Dialect) (s : String) : Prop := d = .mysql → Text.KeepsBackslashes s.toList

theorem toList_quoteString (d : Dialect) (s : String) :
    (d.quoteString s).toList = Text.quote '\x27' s.toList := String.toList_ofList

/-- A literal is read as the text that was quoted, whatever follows, just if it spells the text. -/
theorem readString_quoteString_iff (d : Dialect) (s : String) {after : List Char}
    (apart : after.head? ≠ some '\x27') :
    d.readString ((d.quoteString s).toList ++ after) = some (s.toList, after) ↔ d.Spells s := by
  rw [toList_quoteString]
  by_cases escapes : d = .mysql
  · subst escapes
    have inside : readString .mysql (Text.quote '\x27' s.toList ++ after) =
        Text.unescapeInside (Text.double '\x27' s.toList ++ '\x27' :: after) := by
      simp [readString, Text.unescape, Text.quote]
    rw [inside, Text.unescapeInside_double_iff apart]
    exact ⟨fun kept _ => kept, fun spells => spells rfl⟩
  · refine iff_of_true ?_ fun mysql => absurd mysql escapes
    have doubled : d.readString = Text.unquote '\x27' := by
      cases d with
      | mysql => exact absurd rfl escapes
      | _ => rfl
    rw [doubled, Text.unquote_quote _ apart]

end Dialect

end Sqlwright
