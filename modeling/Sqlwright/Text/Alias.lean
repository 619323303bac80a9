import Sqlwright.Text.Fields

/-!
Names with a trailing alias, `name as alias`. The word `as` is recognised in any case of letters and
must stand between blanks; the alias is the last word. What stands before is the name and may itself
carry an alias, so a text is read as a base and the aliases that follow it.
-/

namespace Sqlwright.Text

private def isLetterA (c : Char) : Bool := c == 'a' || c == 'A'

/-- Case folding identifies the long s with the plain one. -/
private def isLetterS (c : Char) : Bool := c == 's' || c == 'S' || c.toNat == 0x17F

/-- The name before `as`, from the reversed text in front of the word: without surrounding blanks.
Of a blank text the last character but one stands in for the name. -/
def nameBefore? (reversed : List Char) : Option (List Char) :=
  match reversed with
  | [] => none
  | c :: rest =>
    if isBlank c then
      let name := trimChars reversed.reverse
      if name.isEmpty then rest.head?.map fun d => [d] else some name
    else none

/-- The name and the alias of a text that ends in `as` and a word. -/
def splitAlias? (s : List Char) : Option (List Char × List Char) :=
  let reversed := s.reverse.dropWhile isBlank
  let label := (reversed.takeWhile fun c => !isBlank c).reverse
  match (reversed.dropWhile fun c => !isBlank c).dropWhile isBlank with
  | y :: x :: before =>
    if isLetterS y && isLetterA x then (nameBefore? before).map fun name => (name, label) else none
  | _ => none

private theorem length_dropWhile_le {α : Type} (p : α → Bool) (s : List α) :
    (s.dropWhile p).length ≤ s.length :=
  (List.dropWhile_sublist p).length_le

theorem length_trimChars_le (s : List Char) : (trimChars s).length ≤ s.length := by
  simp only [trimChars, trimRight, trimLeft, List.length_reverse]
  refine Nat.le_trans (length_dropWhile_le _ _) ?_
  simpa using length_dropWhile_le isBlank s

theorem length_nameBefore?_le {reversed name : List Char}
    (found : nameBefore? reversed = some name) :
    name.length ≤ reversed.length := by
  cases reversed with
  | nil => simp [nameBefore?] at found
  | cons c rest =>
    simp only [nameBefore?] at found
    split at found
    · split at found
      · cases rest with
        | nil => simp at found
        | cons d more => simp at found; subst found; simp
      · cases found
        simpa using length_trimChars_le (c :: rest).reverse
    · cases found

/-- The name before an alias is shorter than the whole text. -/
theorem length_lt_of_splitAlias? {s name label : List Char}
    (found : splitAlias? s = some (name, label)) : name.length < s.length := by
  simp only [splitAlias?] at found
  split at found
  · next y x before shape =>
    split at found
    · cases hn : nameBefore? before with
      | none => simp [hn] at found
      | some n =>
        simp [hn] at found
        have h1 := length_nameBefore?_le hn
        have h2 := length_dropWhile_le isBlank
          ((s.reverse.dropWhile isBlank).dropWhile fun c => !isBlank c)
        have h3 := length_dropWhile_le (fun c => !isBlank c) (s.reverse.dropWhile isBlank)
        have h4 := length_dropWhile_le isBlank s.reverse
        rw [shape] at h2
        simp only [List.length_cons, List.length_reverse] at h2 h4
        rw [← found.1]
        omega
    · cases found
  · cases found

/-- The two letters of the word `as`. -/
def isWordAs (x y : Char) : Bool := isLetterS y && isLetterA x

theorem ne_point_of_isWordAs {x y : Char} (word : isWordAs x y) : x ≠ '.' ∧ y ≠ '.' := by
  obtain ⟨second, first⟩ := Bool.and_eq_true_iff.mp word
  constructor
  · rintro rfl
    exact absurd first (by decide)
  · rintro rfl
    exact absurd second (by decide)

theorem solid_of_isWordAs {x y : Char} (word : isWordAs x y) : !isBlank y := by
  have second : isLetterS y := (Bool.and_eq_true_iff.mp word).1
  simp only [isLetterS, Bool.or_eq_true, beq_iff_eq] at second
  rcases second with (rfl | rfl) | long
  · decide
  · decide
  · simp [isBlank, blankRanges, long]

/-- A text taken apart around its alias: what names the thing, the word `as`, blanks, the alias and
the blanks it ends in. -/
inductive Labelled : List Char → List Char → List Char → Prop where
  | intro {front gap label tail name : List Char} {x y : Char}
      (named : nameBefore? front.reverse = some name) (word : isWordAs x y)
      (gapBlank : ∀ c ∈ gap, isBlank c) (gapSome : gap ≠ [])
      (labelSolid : ∀ c ∈ label, !isBlank c) (labelSome : label ≠ [])
      (tailBlank : ∀ c ∈ tail, isBlank c) :
      Labelled (front ++ x :: y :: (gap ++ (label ++ tail))) name label

/-- A text is cut behind its longest run of characters of one kind. -/
private theorem cut_run_iff {p : Char → Bool} {s run rest : List Char} :
    (s.takeWhile p = run ∧ s.dropWhile p = rest) ↔
      s = run ++ rest ∧ (∀ c ∈ run, p c) ∧ ∀ c ∈ rest.head?, !p c := by
  constructor
  · rintro ⟨rfl, rfl⟩
    refine ⟨List.takeWhile_append_dropWhile.symm, List.all_eq_true.mp List.all_takeWhile, ?_⟩
    intro c first
    have ends := List.head?_dropWhile_not p s
    rw [Option.mem_def.mp first] at ends
    simpa using ends
  · rintro ⟨rfl, inside, ends⟩
    rw [List.takeWhile_append_of_pos inside, List.dropWhile_append_of_pos inside]
    cases rest with
    | nil => simp
    | cons c more =>
      have stop : ¬ p c := by simpa using ends c rfl
      simp [stop]

private theorem exists_cut_run (p : Char → Bool) (s : List Char) :
    ∃ run rest, s = run ++ rest ∧ (∀ c ∈ run, p c) ∧ ∀ c ∈ rest.head?, !p c :=
  ⟨_, _, cut_run_iff.mp ⟨rfl, rfl⟩⟩

/-- A text read from its end: blanks, the last word, blanks and what stands in front of them. -/
private structure Stretches (reversed tail word gap front : List Char) : Prop where
  whole : reversed = tail ++ (word ++ (gap ++ front))
  tailBlank : ∀ c ∈ tail, isBlank c
  tailEnds : ∀ c ∈ (word ++ (gap ++ front)).head?, !isBlank c
  wordSolid : ∀ c ∈ word, !isBlank c
  wordEnds : ∀ c ∈ (gap ++ front).head?, !!isBlank c
  gapBlank : ∀ c ∈ gap, isBlank c
  gapEnds : ∀ c ∈ front.head?, !isBlank c

private theorem exists_stretches (reversed : List Char) :
    ∃ tail word gap front, Stretches reversed tail word gap front := by
  obtain ⟨tail, solid, rfl, tailBlank, tailEnds⟩ := exists_cut_run isBlank reversed
  obtain ⟨word, blank, rfl, wordSolid, wordEnds⟩ := exists_cut_run (fun c => !isBlank c) solid
  obtain ⟨gap, front, rfl, gapBlank, gapEnds⟩ := exists_cut_run isBlank blank
  exact ⟨tail, word, gap, front, rfl, tailBlank, tailEnds, wordSolid, wordEnds, gapBlank, gapEnds⟩

private theorem mem_of_mem_head?_append {front back : List Char} {c : Char} (some : front ≠ [])
    (first : c ∈ (front ++ back).head?) : c ∈ front := by
  cases front with
  | nil => exact absurd rfl some
  | cons d rest =>
    cases first
    exact List.mem_cons_self

/-- A text has an alias when the word `as` and a name stand in front of its last word. -/
private theorem splitAlias?_of_stretches {s tail word gap front name label : List Char}
    (cut : Stretches s.reverse tail word gap front) :
    splitAlias? s = some (name, label) ↔
      ∃ y x before, front = y :: x :: before ∧ isWordAs x y ∧ nameBefore? before = some name ∧
        word.reverse = label := by
  have atTail := cut_run_iff.mpr ⟨cut.whole, cut.tailBlank, cut.tailEnds⟩
  have atWord := cut_run_iff.mpr ⟨Eq.refl (word ++ (gap ++ front)), cut.wordSolid, cut.wordEnds⟩
  have atGap := cut_run_iff.mpr ⟨Eq.refl (gap ++ front), cut.gapBlank, cut.gapEnds⟩
  simp only [splitAlias?, atTail.2, atWord.1, atWord.2, atGap.2]
  match front with
  | [] | [y] => simp
  | y :: x :: before =>
    change (if isWordAs x y then (nameBefore? before).map _ else none) = _ ↔ _
    by_cases isAs : isWordAs x y
    · rw [if_pos isAs, Option.map_eq_some_iff]
      constructor
      · rintro ⟨found, named, same⟩
        cases same
        exact ⟨y, x, before, rfl, isAs, named, rfl⟩
      · rintro ⟨_, _, _, same, -, named, rfl⟩
        cases same
        exact ⟨name, named, rfl⟩
    · rw [if_neg isAs]
      constructor
      · exact fun found => by cases found
      · rintro ⟨_, _, _, same, word, -, -⟩
        cases same
        exact absurd word isAs

/-- What `splitAlias?` finds is the alias of the text, and it finds every one. -/
theorem splitAlias?_eq_some_iff {s name label : List Char} :
    splitAlias? s = some (name, label) ↔ Labelled s name label := by
  constructor
  · intro found
    obtain ⟨tail, word, gap, front, cut⟩ := exists_stretches s.reverse
    obtain ⟨y, x, before, rfl, isAs, named, rfl⟩ := (splitAlias?_of_stretches cut).mp found
    have whole :
        s = before.reverse ++ x :: y :: (gap.reverse ++ (word.reverse ++ tail.reverse)) := by
      rw [← s.reverse_reverse, cut.whole]
      simp
    have gapSome : gap ≠ [] := by
      rintro rfl
      have blank := cut.wordEnds y rfl
      have solid := cut.gapEnds y rfl
      simp_all
    have wordSome : word ≠ [] := by
      rintro rfl
      obtain ⟨c, rest, rfl⟩ := List.exists_cons_of_ne_nil gapSome
      have blank := cut.wordEnds c rfl
      have solid := cut.tailEnds c rfl
      simp_all
    rw [whole]
    refine .intro (by rwa [List.reverse_reverse]) isAs ?_ ?_ ?_ ?_ ?_
    · simpa using cut.gapBlank
    · simpa using gapSome
    · simpa using cut.wordSolid
    · simpa using wordSome
    · simpa using cut.tailBlank
  · rintro ⟨named, isAs, gapBlank, gapSome, labelSolid, labelSome, tailBlank⟩
    rename_i front gap tail x y
    have cut : Stretches (front ++ x :: y :: (gap ++ (label ++ tail))).reverse tail.reverse
        label.reverse gap.reverse (y :: x :: front.reverse) := by
      constructor
      case whole => simp
      case tailBlank => simpa using tailBlank
      case wordSolid => simpa using labelSolid
      case gapBlank => simpa using gapBlank
      case gapEnds =>
        rintro c ⟨⟩
        exact solid_of_isWordAs isAs
      case wordEnds =>
        intro c first
        have inside := mem_of_mem_head?_append (by simpa using gapSome) first
        simpa using gapBlank c (by simpa using inside)
      case tailEnds =>
        intro c first
        have inside := mem_of_mem_head?_append (by simpa using labelSome) first
        exact labelSolid c (by simpa using inside)
    exact (splitAlias?_of_stretches cut).mpr
      ⟨y, x, front.reverse, rfl, isAs, named, label.reverse_reverse⟩

theorem splitAlias?_eq_none_iff {s : List Char} :
    splitAlias? s = none ↔ ∀ name label, ¬ Labelled s name label := by
  simp only [Option.eq_none_iff_forall_ne_some, Prod.forall, ne_eq, splitAlias?_eq_some_iff]

/-- A name and the aliases that follow it, outermost last. -/
structure Aliased where
  base : List Char
  aliases : List (List Char)

/-- Reads off alias after alias from the end until none is left. -/
def Aliased.read (s : List Char) : Aliased :=
  match _found : splitAlias? s with
  | none => ⟨s, []⟩
  | some (name, label) =>
    let inner := Aliased.read name
    ⟨inner.base, inner.aliases ++ [label]⟩
  termination_by s.length
  decreasing_by exact length_lt_of_splitAlias? _found

/-- The name and the alias of a text on strings. -/
def splitAlias (s : String) : Option (String × String) :=
  (splitAlias? s.toList).map fun parts => (.ofList parts.1, .ofList parts.2)

end Sqlwright.Text
