import Sqlwright.Version
import Sqlwright.Proofs.NativeTypes

/-!
Versions that are written in decimal. Whatever number of zeros stands in front of a number and
whatever follows it, unless it is another digit, the number is read as it is; so a version is read
back from its own text. A number that does not fit into 64 bits would count as zero.
-/

namespace Sqlwright

/-- A number in decimal, with any number of zeros in front. -/
def IsDecimal (n : Nat) (s : String) : Prop :=
  ∃ zeros, s.toList = List.replicate zeros '0' ++ (toString n).toList

/-- What may follow a number: nothing, or a text that does not go on with a digit. -/
def EndsNumber (rest : List Char) : Prop := ∀ c ∈ rest.head?, c.isDigit = false

/-- Every number of a version fits into 64 bits. -/
structure Version.Fits (v : Version) : Prop where
  major : v.major < 2 ^ 64
  minor : v.minor < 2 ^ 64
  patch : v.patch < 2 ^ 64

/-! ### Digits -/

namespace Number

variable {digits rest : List Char}

theorem digitsValue_dropWhile_zero (digits : List Char) :
    digitsValue 0 (digits.dropWhile (· == '0')) = digitsValue 0 digits := by
  induction digits with
  | nil => rfl
  | cons c more ih =>
    by_cases zero : c = '0'
    · subst c
      rw [List.dropWhile_cons_of_pos (by rfl), ih]
      rfl
    · rw [List.dropWhile_cons_of_neg (by simpa using zero)]

theorem digitsValue_replicate_zero (zeros : Nat) (digits : List Char) :
    digitsValue 0 (List.replicate zeros '0' ++ digits) = digitsValue 0 digits := by
  induction zeros with
  | zero => rfl
  | succ zeros ih => exact ih

/-- Digits without the zeros in front of them are read up to what follows. -/
theorem takeWhile_isDigit_dropWhile_zero (all : ∀ c ∈ digits, c.isDigit)
    (ends : EndsNumber rest) :
    ((digits ++ rest).dropWhile (· == '0')).takeWhile Char.isDigit =
      digits.dropWhile (· == '0') := by
  have stops : rest.takeWhile Char.isDigit = [] ∧ rest.dropWhile (· == '0') = rest := by
    cases rest with
    | nil => exact ⟨rfl, rfl⟩
    | cons c more =>
      have plain : c.isDigit = false := ends c rfl
      have apart : c ≠ '0' := by
        rintro rfl
        cases plain
      exact ⟨List.takeWhile_cons_of_neg (by simp [plain]),
        List.dropWhile_cons_of_neg (by simpa using apart)⟩
  induction digits with
  | nil => rw [List.nil_append, stops.2, stops.1, List.dropWhile_nil]
  | cons c more ih =>
    obtain ⟨digit, later⟩ := List.forall_mem_cons.mp all
    by_cases zero : c = '0'
    · subst c
      rw [List.cons_append, List.dropWhile_cons_of_pos (by rfl), ih later,
        List.dropWhile_cons_of_pos (by rfl)]
    · rw [List.cons_append, List.dropWhile_cons_of_neg (by simpa using zero),
        List.dropWhile_cons_of_neg (by simpa using zero), ← List.cons_append,
        List.takeWhile_append_of_pos all, stops.1, List.append_nil]

end Number

namespace Version

/-- Digits count as their value if that fits into 64 bits, and as zero otherwise. -/
theorem part_digits {digits rest : List Char} (all : ∀ c ∈ digits, c.isDigit)
    (solid : ∀ c ∈ digits ++ rest, !Text.isBlank c) (ends : EndsNumber rest) :
    part (digits ++ rest) =
      if Number.digitsValue 0 digits ≤ Number.maxWide then Number.digitsValue 0 digits else 0 := by
  have kept : ∀ c ∈ digits.dropWhile (· == '0'), c.isDigit :=
    fun c member => all c ((List.dropWhile_sublist _).subset member)
  rw [part, Text.trimChars_solid solid, Number.takeWhile_isDigit_dropWhile_zero all ends,
    Number.readNat?, List.all_eq_true.mpr kept, ← Number.digitsValue_dropWhile_zero digits]
  generalize digits.dropWhile (· == '0') = significant
  cases significant with
  | nil => rfl
  | cons c more =>
    by_cases fits : Number.digitsValue 0 (c :: more) ≤ Number.maxWide <;>
      simp [Option.filter, fits]

end Version

/-! ### Numbers in decimal -/

namespace IsDecimal

variable {n : Nat} {s : String}

theorem isDigit (written : IsDecimal n s) : ∀ c ∈ s.toList, c.isDigit := by
  obtain ⟨zeros, shape⟩ := written
  rw [shape]
  intro c member
  rcases List.mem_append.mp member with zero | digit
  · rw [(List.mem_replicate.mp zero).2]
    rfl
  · exact Number.isDigit_of_mem_toString digit

theorem solid (written : IsDecimal n s) : ∀ c ∈ s.toList, !Text.isBlank c := by
  intro c member
  simp [(Number.digit_plain (written.isDigit c member)).1]

theorem pointless (written : IsDecimal n s) : '.' ∉ s.toList := by
  intro point
  have digit := written.isDigit '.' point
  cases digit

theorem ne_nil (written : IsDecimal n s) : s.toList ≠ [] := by
  obtain ⟨zeros, shape⟩ := written
  rw [shape, Number.toList_toString]
  exact List.append_ne_nil_of_right_ne_nil _ Nat.toDigits_ne_nil

theorem digitsValue_eq (written : IsDecimal n s) : Number.digitsValue 0 s.toList = n := by
  obtain ⟨zeros, shape⟩ := written
  rw [shape, Number.digitsValue_replicate_zero, Number.toList_toString,
    Number.digitsValue_toDigits]

/-- A number is its own decimal. -/
theorem self (n : Nat) : IsDecimal n (toString n) := ⟨0, rfl⟩

/-- A number that fits into 64 bits is what its part counts as, whatever follows it. -/
theorem part_eq (written : IsDecimal n s) (fits : n < 2 ^ 64) {rest : List Char}
    (ends : EndsNumber rest) (solid : ∀ c ∈ rest, !Text.isBlank c) :
    Version.part (s.toList ++ rest) = n := by
  have small : n ≤ Number.maxWide := Nat.le_of_lt_succ fits
  rw [Version.part_digits written.isDigit (List.forall_mem_append.mpr ⟨written.solid, solid⟩) ends,
    written.digitsValue_eq, if_pos small]

end IsDecimal

theorem EndsNumber.nil : EndsNumber [] := nofun

theorem EndsNumber.takeWhile {rest : List Char} (ends : EndsNumber rest) (p : Char → Bool) :
    EndsNumber (rest.takeWhile p) := by
  cases rest with
  | nil => exact .nil
  | cons c more =>
    by_cases goes : p c
    · rw [List.takeWhile_cons_of_pos goes]
      exact ends
    · rw [List.takeWhile_cons_of_neg goes]
      exact .nil

/-! ### Words and fields -/

namespace Text

/-- The first field of a text reaches to its first separator. -/
theorem exists_splitOn_eq_cons (sep : Char) (s : List Char) :
    ∃ more, splitOn sep s = s.takeWhile (· ≠ sep) :: more := by
  induction s with
  | nil => exact ⟨[], rfl⟩
  | cons c rest ih =>
    obtain ⟨more, shape⟩ := ih
    by_cases here : c = sep
    · exact ⟨splitOn sep rest, by simp [splitOn, here]⟩
    · exact ⟨more, by simp [splitOn, here, shape]⟩

/-- A text without blanks is in the first word, with what follows it up to the next blank. -/
theorem firstWord_append {front : List Char} (solid : ∀ c ∈ front, !isBlank c) (some : front ≠ [])
    (rest : List Char) :
    firstWord (front ++ rest) = front ++ rest.takeWhile fun c => !isBlank c := by
  have starts : trimLeft (front ++ rest) = front ++ rest := by
    obtain ⟨c, more, rfl⟩ := List.exists_cons_of_ne_nil some
    exact List.dropWhile_cons_of_neg (by simpa using solid c List.mem_cons_self)
  rw [firstWord, starts, List.takeWhile_append_of_pos solid]

end Text

/-! ### Versions -/

namespace Version

variable {v : Version} {first second third : String}

theorem startsWithDigit_of_isDecimal {n : Nat} (written : IsDecimal n first) :
    startsWithDigit first.toList := by
  obtain ⟨c, more, shape⟩ := List.exists_cons_of_ne_nil written.ne_nil
  have digit : c.isDigit := written.isDigit c (shape ▸ List.mem_cons_self)
  rw [startsWithDigit, Text.trimChars_solid written.solid, shape]
  simpa using digit

/-- A version is read from its three numbers, whatever follows the last one. -/
theorem parse_decimals (fits : v.Fits) (major : IsDecimal v.major first)
    (minor : IsDecimal v.minor second) (patch : IsDecimal v.patch third) {tail : String}
    (ends : EndsNumber tail.toList) :
    parse v.driver (first ++ "." ++ second ++ "." ++ third ++ tail) = .ok v := by
  let numbers := first.toList ++ '.' :: (second.toList ++ '.' :: third.toList)
  let rest := tail.toList.takeWhile fun c => !Text.isBlank c
  have word : Text.firstWord (first ++ "." ++ second ++ "." ++ third ++ tail).toList =
      numbers ++ rest := by
    have solid : ∀ c ∈ numbers, !Text.isBlank c := by
      refine List.forall_mem_append.mpr ⟨major.solid, List.forall_mem_cons.mpr ⟨rfl, ?_⟩⟩
      exact List.forall_mem_append.mpr
        ⟨minor.solid, List.forall_mem_cons.mpr ⟨rfl, patch.solid⟩⟩
    have some : numbers ≠ [] := List.append_ne_nil_of_right_ne_nil _ (List.cons_ne_nil _ _)
    rw [← Text.firstWord_append solid some]
    simp [numbers, String.toList_append]
  obtain ⟨more, last⟩ := Text.exists_splitOn_eq_cons '.' (third.toList ++ rest)
  have pointless : ∀ c ∈ third.toList, decide (c ≠ '.') := by
    rintro c member
    exact decide_eq_true fun point => patch.pointless (point ▸ member)
  rw [List.takeWhile_append_of_pos pointless] at last
  have parts : Text.splitOn '.' (numbers ++ rest) =
      first.toList :: second.toList :: (third.toList ++ rest.takeWhile (· ≠ '.')) :: more := by
    simp only [numbers, List.append_assoc, List.cons_append]
    rw [Text.splitOn_append, Text.splitOn_append, Text.splitOn_free major.pointless,
      Text.splitOn_free minor.pointless, last]
    rfl
  have solid : ∀ c ∈ rest.takeWhile (· ≠ '.'), !Text.isBlank c := by
    intro c member
    have inside : c ∈ rest := (List.takeWhile_sublist _).subset member
    exact List.mem_takeWhile_imp (p := fun c => !Text.isBlank c) inside
  have majorPart := major.part_eq fits.major .nil (List.forall_mem_nil _)
  have minorPart := minor.part_eq fits.minor .nil (List.forall_mem_nil _)
  rw [List.append_nil] at majorPart minorPart
  have patchPart : part (third.toList ++ rest.takeWhile (· ≠ '.')) = v.patch :=
    patch.part_eq fits.patch ((ends.takeWhile _).takeWhile _) solid
  simp only [parse, word, parts, List.headD_cons, List.getD_cons_succ, List.getD_cons_zero,
    startsWithDigit_of_isDecimal major, if_true, majorPart, minorPart, patchPart]

/-- A HANA version is read from the first, the third and the fifth of its parts. -/
theorem parseHana_decimals (fits : v.Fits) (major : IsDecimal v.major first)
    (minor : IsDecimal v.minor second) (patch : IsDecimal v.patch third) {x y : String}
    (free : '.' ∉ x.toList) (free' : '.' ∉ y.toList) :
    parseHana v.driver (first ++ "." ++ x ++ "." ++ second ++ "." ++ y ++ "." ++ third) =
      .ok v := by
  have text : (first ++ "." ++ x ++ "." ++ second ++ "." ++ y ++ "." ++ third).toList =
      first.toList ++ '.' :: (x.toList ++ '.' :: (second.toList ++ '.' ::
        (y.toList ++ '.' :: third.toList))) := by
    simp [String.toList_append]
  have trimmed : Text.trimChars (first.toList ++ '.' :: (x.toList ++ '.' :: (second.toList ++
      '.' :: (y.toList ++ '.' :: third.toList)))) = first.toList ++ '.' :: (x.toList ++ '.' ::
        (second.toList ++ '.' :: (y.toList ++ '.' :: third.toList))) := by
    rw [Text.trimChars_append_point, Text.trimLeft_solid major.solid, Text.trimRight_append_point,
      Text.trimRight_append_point, Text.trimRight_append_point, Text.trimRight_solid patch.solid]
  have parts : Text.splitOn '.' (first.toList ++ '.' :: (x.toList ++ '.' :: (second.toList ++
      '.' :: (y.toList ++ '.' :: third.toList)))) =
        [first.toList, x.toList, second.toList, y.toList, third.toList] := by
    rw [Text.splitOn_append, Text.splitOn_append, Text.splitOn_append, Text.splitOn_append,
      Text.splitOn_free major.pointless, Text.splitOn_free free,
      Text.splitOn_free minor.pointless, Text.splitOn_free free',
      Text.splitOn_free patch.pointless]
    rfl
  have majorPart := major.part_eq fits.major .nil (List.forall_mem_nil _)
  have minorPart := minor.part_eq fits.minor .nil (List.forall_mem_nil _)
  have patchPart := patch.part_eq fits.patch .nil (List.forall_mem_nil _)
  rw [List.append_nil] at majorPart minorPart patchPart
  simp only [parseHana, text, trimmed, parts, majorPart, minorPart, patchPart]

end Version

/-- A version is read from its numbers in decimal, whatever zeros stand in front of them: as a
dotted version whatever follows the last number, unless it is another digit, and as a HANA version
whatever stands in the second and the fourth part. So every version is read back from its text. -/
theorem versions_read_back {v : Version} (fits : v.Fits) :
    (∀ first second third : String, IsDecimal v.major first → IsDecimal v.minor second →
      IsDecimal v.patch third →
        (∀ tail : String, EndsNumber tail.toList →
          Version.parse v.driver (first ++ "." ++ second ++ "." ++ third ++ tail) = .ok v) ∧
        ∀ x y : String, '.' ∉ x.toList → '.' ∉ y.toList →
          Version.parseHana v.driver
            (first ++ "." ++ x ++ "." ++ second ++ "." ++ y ++ "." ++ third) = .ok v) ∧
      Version.parse v.driver v.text = .ok v := by
  constructor
  · intro first second third major minor patch
    constructor
    · intro tail ends
      exact Version.parse_decimals fits major minor patch ends
    · intro x y free free'
      exact Version.parseHana_decimals fits major minor patch free free'
  · have shown : Version.parse v.driver (v.text ++ "") = .ok v :=
      Version.parse_decimals fits (.self v.major) (.self v.minor) (.self v.patch) .nil
    rwa [String.append_empty] at shown

/-- A part of zeros alone, the largest number that fits, and a suffix with a point and a blank. -/
theorem versions_read_back_padded :
    let v : Version := ⟨0, 18446744073709551615, 7, "mysql"⟩
    Version.parse "mysql" "000.0018446744073709551615.07-log.9 x1" = .ok v ∧
      Version.parseHana "mysql" "000. a.0018446744073709551615..07" = .ok v ∧
      Version.parse "mysql" v.text = .ok v := by
  intro v
  obtain ⟨numbers, own⟩ := versions_read_back (v := v) ⟨by decide, by decide, by decide⟩
  have major : IsDecimal 0 "000" := ⟨2, by decide +kernel⟩
  have minor : IsDecimal 18446744073709551615 "0018446744073709551615" := ⟨2, by decide +kernel⟩
  have patch : IsDecimal 7 "07" := ⟨1, by decide +kernel⟩
  obtain ⟨dotted, hana⟩ := numbers "000" "0018446744073709551615" "07" major minor patch
  have ends : EndsNumber "-log.9 x1".toList := by
    rintro c ⟨⟩
    rfl
  exact ⟨dotted "-log.9 x1" ends, hana " a" "" (by decide) (by decide), own⟩

end Sqlwright
