import Mathlib.Tactic.IntervalCases
import Sqlwright.Catalog.NativeType
import Sqlwright.Proofs.AliasReading
import Sqlwright.Proofs.CommaLists

/-!
Native types as columns are declared with them: a name in capitals and, in parentheses behind it,
what belongs to the type. Such a text is read as these two parts, whatever stands between the
parentheses, because the arguments reach to the last one. Numbers that are written there are the
arguments that are read.
-/

namespace Sqlwright

namespace NativeType

/-- The letters that the names of types are written in. -/
def capitals : List Char := "ABCDEFGHIJKLMNOPQRSTUVWXYZ".toList

/-- What holds of capitals where names are read. -/
theorem capital_letter : ∀ c ∈ capitals,
    startsName c = true ∧ Text.isBlank c = false ∧ c ≠ '(' ∧ c.toUpper = c := by
  have table : (capitals.all fun c =>
      startsName c ∧ Text.isBlank c = false ∧ c ≠ '(' ∧ c.toUpper = c) = true := by decide
  simpa using table

theorem toUpper_eq_self {s : String} (upper : ∀ c ∈ s.toList, c.toUpper = c) : s.toUpper = s := by
  rw [← String.toList_inj, String.toUpper, String.toList_map]
  exact (List.map_congr_left upper).trans (List.map_id' _)

variable {name inner rest s : List Char}

/-! ### Parentheses that are not read -/

theorem paren_mem_trimLeft (member : '(' ∈ s) : '(' ∈ Text.trimLeft s := by
  have count := Text.count_trimLeft (by decide : Text.isBlank '(' = false) s
  exact List.count_pos_iff.mp (count ▸ List.count_pos_iff.mpr member)

/-- No word takes a parenthesis. -/
theorem paren_mem_dropWord? (word : List Char) (plain : '(' ∉ word) (member : '(' ∈ s) :
    '(' ∈ (dropWord? word s).getD s := by
  cases found : dropWord? word s with
  | none => exact member
  | some left =>
    rw [Option.getD_some]
    fun_induction dropWord? word s with
    | case1 s =>
      cases found
      exact member
    | case2 => cases found
    | case3 word c s ih =>
      obtain ⟨apart, free⟩ : '(' ≠ foldLetter c ∧ '(' ∉ word := by simpa using plain
      rcases List.mem_cons.mp member with rfl | later
      · exact absurd rfl apart
      · exact ih free later found
    | case4 => cases found

/-- Behind a name and its arguments there is no parenthesis. -/
theorem suffix?_of_paren (member : '(' ∈ s) : suffix? s = none := by
  have afterSign := paren_mem_dropWord? "unsigned".toList (by decide) (paren_mem_trimLeft member)
  have afterFill := paren_mem_dropWord? "zerofill".toList (by decide)
    (paren_mem_trimLeft afterSign)
  have filled := List.isEmpty_eq_false_iff.mpr (List.ne_nil_of_mem (paren_mem_trimLeft afterFill))
  simp only [suffix?, filled, Bool.false_eq_true, if_false]

/-! ### Names and arguments -/

/-- The arguments reach to a parenthesis that ends the text. -/
theorem arguments?_concat (inner : List Char) :
    arguments? (inner ++ [')']) = some (inner, false) := by
  induction inner with
  | nil => decide
  | cons c rest ih => rw [List.cons_append, arguments?, ih]

theorem remainder?_arguments (inner : List Char) :
    remainder? ('(' :: (inner ++ [')'])) = some (inner, false) := by
  have solid : Text.trimLeft ('(' :: (inner ++ [')'])) = '(' :: (inner ++ [')']) :=
    List.dropWhile_cons_of_neg (by decide)
  rw [remainder?, solid]
  exact arguments?_concat inner

/-- Within a name nothing but the rest of the name follows. -/
theorem remainder?_capital {c : Char} (letter : c ∈ capitals) (member : '(' ∈ rest) :
    remainder? (c :: rest) = none := by
  obtain ⟨-, solid, apart, -⟩ := capital_letter c letter
  have trimmed : Text.trimLeft (c :: rest) = c :: rest :=
    List.dropWhile_cons_of_neg (by simp [solid])
  have nothing : suffix? (c :: rest) = none := suffix?_of_paren (List.mem_cons_of_mem c member)
  simp [remainder?, trimmed, apart, nothing]

theorem nameRest?_arguments (letters : ∀ c ∈ name, c ∈ capitals) (inner : List Char) :
    nameRest? (name ++ '(' :: (inner ++ [')'])) = some (name, inner, false) := by
  induction name with
  | nil => rw [List.nil_append, nameRest?, remainder?_arguments]
  | cons c rest ih =>
    obtain ⟨letter, later⟩ := List.forall_mem_cons.mp letters
    have follows : '(' ∈ rest ++ '(' :: (inner ++ [')']) := by simp
    have inside : inName c = true := by rw [inName, (capital_letter c letter).1]; rfl
    rw [List.cons_append, nameRest?, remainder?_capital letter follows, if_pos inside, ih later]
    rfl

/-- A name in capitals with arguments in parentheses is read as the name and the arguments. -/
theorem parse_arguments {name : String} (named : name ≠ "")
    (upper : name.toList.all capitals.contains) (inner : String) :
    parse (name ++ "(" ++ inner ++ ")") = { base := name, args := argsOf inner.toList } := by
  have letters : ∀ c ∈ name.toList, c ∈ capitals := by simpa using upper
  obtain ⟨c, rest, whole⟩ := List.exists_cons_of_ne_nil (String.toList_eq_nil_iff.not.mpr named)
  have text : (name ++ "(" ++ inner ++ ")").toList =
      c :: (rest ++ '(' :: (inner.toList ++ [')'])) := by
    simp [String.toList_append, whole]
  rw [whole] at letters
  obtain ⟨starts, solid, -, -⟩ := capital_letter c (letters c List.mem_cons_self)
  have trimmed : Text.trimLeft (c :: (rest ++ '(' :: (inner.toList ++ [')']))) =
      c :: (rest ++ '(' :: (inner.toList ++ [')'])) :=
    List.dropWhile_cons_of_neg (by simp [solid])
  have read := nameRest?_arguments (List.forall_mem_cons.mp letters).2 inner.toList
  have same : (String.ofList (c :: rest)).toUpper = name := by
    rw [← whole, String.ofList_toList]
    exact toUpper_eq_self fun d member => (capital_letter d (letters d (whole ▸ member))).2.2.2
  simp only [parse, text, trimmed, starts, if_true, read, same]

end NativeType

/-! ### Numbers and lists -/

namespace Number

theorem digitsValue_toDigits (n : Nat) : digitsValue 0 (Nat.toDigits 10 n) = n := by
  have steps : ∀ start digits, digitsValue start digits = Nat.ofDigitChars 10 digits start := by
    intro start digits
    simp [digitsValue, Nat.ofDigitChars, digitValue, Nat.mul_comm]
  rw [steps, Nat.ofDigitChars_ten_toDigits]

theorem readNat?_toDigits (n : Nat) : readNat? (Nat.toDigits 10 n) = some n := by
  have digits : (Nat.toDigits 10 n).all Char.isDigit = true :=
    List.all_eq_true.mpr fun c member =>
      Nat.isDigit_of_mem_toDigits (by decide) (by decide) member
  have filled : (Nat.toDigits 10 n).isEmpty = false :=
    List.isEmpty_eq_false_iff.mpr Nat.toDigits_ne_nil
  rw [readNat?, digits, filled, digitsValue_toDigits]
  rfl

theorem toList_toString (n : Nat) : (toString n).toList = Nat.toDigits 10 n := by
  rw [Nat.toString_eq_repr, Nat.toList_repr]

theorem isDigit_of_mem_toString {n : Nat} {c : Char} (member : c ∈ (toString n).toList) :
    c.isDigit = true := by
  rw [toList_toString] at member
  exact Nat.isDigit_of_mem_toDigits (by decide) (by decide) member

/-- What holds of digits where lists of numbers are read. -/
theorem digit_plain {c : Char} (digit : c.isDigit) :
    Text.isBlank c = false ∧ c ≠ ',' ∧ c ≠ '\x27' ∧ c.toUpper = c := by
  have table : ("0123456789".toList.all fun d =>
      Text.isBlank d = false ∧ d ≠ ',' ∧ d ≠ '\x27' ∧ d.toUpper = d) = true := by decide
  apply of_decide_eq_true
  apply List.all_eq_true.mp table
  obtain ⟨low, high⟩ : 48 ≤ c.toNat ∧ c.toNat ≤ 57 := by
    simpa [Char.isDigit, UInt32.le_iff_toNat_le] using digit
  rw [← Char.ofNat_toNat c]
  generalize c.toNat = n at low high
  interval_cases n <;> decide

/-- A number that is written is read back. -/
theorem readUpTo?_toString {n most : Nat} (low : n ≤ most) :
    readUpTo? most (toString n).toList = some n := by
  have unsigned : ∀ rest, (toString n).toList ≠ '+' :: rest := by
    intro rest shape
    have plus := isDigit_of_mem_toString (n := n) (shape ▸ List.mem_cons_self)
    cases plus
  rw [readUpTo?, toList_toString, readNat?_toDigits]
  · simp [low]
  · exact unsigned

end Number

namespace Text

/-- The characters of joined entries are those of the entries and of what stands between them. -/
theorem mem_join {sep : String} {entries : List String} {c : Char}
    (member : c ∈ (join sep entries).toList) : (∃ e ∈ entries, c ∈ e.toList) ∨ c ∈ sep.toList := by
  fun_induction join sep entries with
  | case1 => simp at member
  | case2 entry => exact .inl ⟨entry, List.mem_singleton_self entry, member⟩
  | case3 entry rest _ ih =>
    rw [String.toList_append, String.toList_append, List.mem_append, List.mem_append] at member
    rcases member with (first | between) | later
    · exact .inl ⟨entry, List.mem_cons_self, first⟩
    · exact .inr between
    · rcases ih later with ⟨e, inside, there⟩ | between
      · exact .inl ⟨e, List.mem_cons_of_mem entry inside, there⟩
      · exact .inr between

end Text

/-! ### Numbers as arguments -/

/-- Numbers in parentheses, nothing where there are none. -/
def sizesText (sizes : List Nat) : String :=
  if sizes.isEmpty then "" else "(" ++ Text.join "," (sizes.map toString) ++ ")"

namespace NativeType

variable {sizes : List Nat} {name : String}

theorem digit_or_comma {c : Char} (member : c ∈ (Text.join "," (sizes.map toString)).toList) :
    c.isDigit ∨ c = ',' := by
  rcases Text.mem_join member with ⟨e, inside, there⟩ | comma
  · obtain ⟨n, -, rfl⟩ := List.mem_map.mp inside
    exact .inl (Number.isDigit_of_mem_toString there)
  · exact .inr (by simpa using comma)

theorem argsOf_sizes (sizes : List Nat) :
    argsOf (Text.join "," (sizes.map toString)).toList = sizes.map toString := by
  have unquoted : '\x27' ∉ (Text.join "," (sizes.map toString)).toList := by
    intro member
    rcases digit_or_comma member with digit | comma
    · exact (Number.digit_plain digit).2.2.1 rfl
    · cases comma
  have plain : ∀ e ∈ sizes.map toString, Text.IsEntry e := by
    intro e member
    obtain ⟨n, -, rfl⟩ := List.mem_map.mp member
    apply Text.IsEntry.of_solid
    · rw [ne_eq, ← String.toList_eq_nil_iff, Number.toList_toString]
      exact Nat.toDigits_ne_nil
    · intro c inside
      obtain ⟨solid, apart, -⟩ := Number.digit_plain (Number.isDigit_of_mem_toString inside)
      exact ⟨apart, solid⟩
  rw [argsOf, if_neg (by simpa using unquoted), String.ofList_toList, Text.commaList_join,
    Text.flatMap_commaList plain]

theorem parse_sizes (named : name ≠ "") (upper : name.toList.all capitals.contains)
    (some_size : sizes ≠ []) :
    parse (name ++ sizesText sizes) = { base := name, args := sizes.map toString } := by
  have filled : sizes.isEmpty = false := List.isEmpty_eq_false_iff.mpr some_size
  have text : name ++ sizesText sizes =
      name ++ "(" ++ Text.join "," (sizes.map toString) ++ ")" := by
    simp [sizesText, filled, String.append_assoc]
  rw [text, parse_arguments named upper, argsOf_sizes]

/-- The numbers behind a name are its arguments. -/
theorem arg?_sizes (low : ∀ n ∈ sizes, n ≤ Number.maxCount) (i : Nat) :
    arg? { base := name, args := sizes.map toString } i = sizes[i]? := by
  rw [arg?, List.getElem?_map]
  cases found : sizes[i]? with
  | none => rfl
  | some n =>
    rw [Option.map_some, Option.bind_some]
    exact Number.readUpTo?_toString (low n (List.mem_of_getElem? found))

end NativeType

theorem sizesText_injective : Function.Injective sizesText := by
  intro first second same
  have inner : ∀ sizes : List Nat, (NativeType.parse ("T" ++ sizesText sizes)).args =
      sizes.map toString := by
    intro sizes
    by_cases empty : sizes = []
    · rw [empty]
      decide +kernel
    · rw [NativeType.parse_sizes (by decide) (by decide) empty]
  have digits := inner first
  rw [same, inner second] at digits
  have apart : Function.Injective (toString : Nat → String) := by
    intro m n equal
    have read := congrArg (Number.readNat? ∘ String.toList) equal
    simpa [Number.readNat?_toDigits, Nat.toList_repr] using read
  exact (List.map_injective_iff.mpr apart digits).symm

end Sqlwright
