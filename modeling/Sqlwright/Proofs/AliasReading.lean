import Sqlwright.Proofs.TrimmedTexts
import Sqlwright.Text.Alias

/-!
Reading qualified names. A reference with a column behind its last point is read like any other
text: aliases are taken off its end one by one. Where the reference has no alias of its own, all of
them stand behind the point, so the reference is kept but for its leading blanks.
-/

namespace Sqlwright.Text

/-! ### Points and blanks -/

variable {ref c s t name label : List Char}

/-- A text with a point is cut at its last one. -/
theorem exists_last_point (point : '.' ∈ s) :
    ∃ front back, s = front ++ '.' :: back ∧ '.' ∉ back := by
  obtain ⟨back, front, whole, free⟩ := List.eq_append_cons_of_mem (List.mem_reverse.mpr point)
  refine ⟨front.reverse, back.reverse, ?_, by simpa using free⟩
  rw [← s.reverse_reverse, whole]
  simp

theorem last_point_inj {front back front' back' : List Char} (free : '.' ∉ back)
    (free' : '.' ∉ back') (same : front ++ '.' :: back = front' ++ '.' :: back') :
    front = front' ∧ back = back' := by
  rcases List.append_eq_append_iff.mp same with ⟨more, rfl, rest⟩ | ⟨more, rfl, rest⟩
  all_goals
    cases more with
    | nil => simp_all
    | cons d more =>
      obtain ⟨-, rfl⟩ := List.cons.inj rest
      simp_all

theorem trimLeft_append_point (s c : List Char) :
    trimLeft (s ++ '.' :: c) = trimLeft s ++ '.' :: c := by
  rw [trimLeft, List.dropWhile_append, List.dropWhile_cons_of_neg (by decide)]
  split
  · rename_i blank
    rw [trimLeft, List.isEmpty_iff.mp blank, List.nil_append]
  · rfl

theorem trimRight_append_point (s c : List Char) :
    trimRight (s ++ '.' :: c) = s ++ '.' :: trimRight c := by
  have reversed := trimLeft_append_point c.reverse s.reverse
  rw [trimLeft] at reversed
  simp [trimRight, reversed, trimLeft]

/-- Trimming leaves a point where it is. -/
theorem trimChars_append_point (s c : List Char) :
    trimChars (s ++ '.' :: c) = trimLeft s ++ '.' :: trimRight c := by
  rw [trimChars, trimLeft_append_point, trimRight_append_point]

theorem nameBefore?_isSome_iff {reversed : List Char} :
    (nameBefore? reversed).isSome ↔ ∃ c d rest, reversed = c :: d :: rest ∧ isBlank c := by
  match reversed with
  | [] => simp [nameBefore?]
  | [c] =>
    by_cases blank : isBlank c
    · simp [nameBefore?, blank, trimChars, trimLeft, trimRight]
    · simp [nameBefore?, blank]
  | c :: d :: rest =>
    by_cases blank : isBlank c
    · simp only [nameBefore?, blank, if_true]
      split <;> simp [blank]
    · simp [nameBefore?, blank]

theorem nameBefore?_sublist {front : List Char}
    (found : nameBefore? front.reverse = some name) : name.Sublist front := by
  cases shape : front.reverse with
  | nil =>
    rw [shape] at found
    cases found
  | cons d rest =>
    have whole : front = rest.reverse ++ [d] := by
      rw [← front.reverse_reverse, shape, List.reverse_cons]
    rw [shape] at found
    simp only [nameBefore?, List.reverse_cons, ← whole] at found
    split at found
    · split at found
      · obtain ⟨e, first, rfl⟩ := Option.map_eq_some_iff.mp found
        have inside : e ∈ rest := List.mem_of_mem_head? first
        rw [whole]
        exact List.singleton_sublist.mpr (by simp [inside])
      · cases found
        exact (trimRight_front _).sublist.trans (trimLeft_sublist front)
    · cases found

/-- A text with a point is named by what is left when it is trimmed. -/
theorem nameBefore?_point {front : List Char}
    (found : nameBefore? (front ++ '.' :: c).reverse = some name) :
    name = trimLeft front ++ '.' :: trimRight c := by
  cases shape : (front ++ '.' :: c).reverse with
  | nil => simp at shape
  | cons d rest =>
    have whole : (d :: rest).reverse = front ++ '.' :: c := by rw [← shape, List.reverse_reverse]
    rw [shape] at found
    simp only [nameBefore?, whole, trimChars_append_point] at found
    split at found
    · simpa using found.symm
    · cases found

/-! ### Where a text has its alias -/

theorem Labelled.prepend (labelled : Labelled s name label) (front : List Char) :
    ∃ longer, Labelled (front ++ s) longer label := by
  cases labelled with
  | @intro before gap _ tail _ x y named word gapBlank gapSome labelSolid labelSome tailBlank =>
    obtain ⟨c, d, rest, shape, blank⟩ :=
      nameBefore?_isSome_iff.mp (Option.isSome_of_eq_some named)
    have named : (nameBefore? (front ++ before).reverse).isSome := by
      refine nameBefore?_isSome_iff.mpr ⟨c, d, rest ++ front.reverse, ?_, blank⟩
      rw [List.reverse_append, shape]
      rfl
    obtain ⟨longer, named⟩ := Option.isSome_iff_exists.mp named
    refine ⟨longer, ?_⟩
    rw [← List.append_assoc]
    exact .intro named word gapBlank gapSome labelSolid labelSome tailBlank

theorem Labelled.append_blank (labelled : Labelled s name label) {back : List Char}
    (blank : ∀ c ∈ back, isBlank c) : Labelled (s ++ back) name label := by
  cases labelled with
  | @intro before gap _ tail _ x y named word gapBlank gapSome labelSolid labelSome tailBlank =>
    have longer := Labelled.intro named word gapBlank gapSome labelSolid labelSome
      (List.forall_mem_append.mpr ⟨tailBlank, blank⟩)
    simpa using longer

/-- The alias of a text reaches over the last point, and then the text up to the point has one, or
it stands behind the point. -/
theorem Labelled.cut_point (labelled : Labelled (ref ++ '.' :: c) name label) (free : '.' ∉ c) :
    (∃ start, Labelled (ref ++ ['.']) name (start ++ ['.'])) ∨
      ∃ inner, inner.length < c.length ∧ '.' ∉ inner ∧
        name = trimLeft ref ++ '.' :: inner := by
  generalize whole : ref ++ '.' :: c = s at labelled
  cases labelled with
  | @intro before gap _ tail _ x y named word gapBlank gapSome labelSolid labelSome tailBlank =>
    obtain ⟨apartX, apartY⟩ := ne_point_of_isWordAs word
    have gapFree : '.' ∉ gap := fun inside => absurd (gapBlank _ inside) (by decide)
    have tailFree : '.' ∉ tail := fun inside => absurd (tailBlank _ inside) (by decide)
    by_cases inLabel : '.' ∈ label
    · left
      obtain ⟨start, back, rfl, backFree⟩ := exists_last_point inLabel
      refine ⟨start, ?_⟩
      have cut : ref ++ '.' :: c =
          (before ++ x :: y :: (gap ++ start)) ++ '.' :: (back ++ tail) := by
        simpa using whole
      obtain ⟨rfl, -⟩ := last_point_inj free (by simp [backFree, tailFree]) cut
      have startSolid : ∀ d ∈ start ++ ['.'], !isBlank d := by
        intro d member
        exact labelSolid d (by simp at member ⊢; grind)
      have shorter := Labelled.intro named word gapBlank gapSome startSolid (by simp)
        (List.forall_mem_nil _)
      simpa using shorter
    · right
      have inBefore : '.' ∈ before := by
        have somewhere : '.' ∈ ref ++ '.' :: c := by simp
        rw [whole] at somewhere
        simp at somewhere
        grind
      obtain ⟨start, back, rfl, backFree⟩ := exists_last_point inBefore
      have cut : ref ++ '.' :: c =
          start ++ '.' :: (back ++ x :: y :: (gap ++ (label ++ tail))) := by
        simpa using whole
      obtain ⟨rfl, rfl⟩ := last_point_inj free (by simp; grind) cut
      refine ⟨trimRight back, ?_, ?_, nameBefore?_point named⟩
      · have := (trimRight_front back).length_le
        simp
        omega
      · exact fun inside => backFree ((trimRight_front back).subset inside)

/-- The name of a text stands in front of its alias. -/
theorem Labelled.sublist (labelled : Labelled s name label) : (name ++ label).Sublist s := by
  cases labelled with
  | @intro before gap _ tail _ x y named word gapBlank gapSome labelSolid labelSome tailBlank =>
    refine (nameBefore?_sublist named).append ?_
    refine .cons _ (.cons _ ?_)
    exact (List.sublist_append_left label tail).trans (List.sublist_append_right gap _)

/-- A text without an alias has none when blanks are taken off its front. -/
theorem splitAlias?_trimLeft (plain : splitAlias? (ref ++ ['.']) = none) :
    splitAlias? (trimLeft ref ++ ['.']) = none := by
  rw [splitAlias?_eq_none_iff] at plain ⊢
  intro name label labelled
  obtain ⟨longer, labelled⟩ := labelled.prepend (ref.takeWhile isBlank)
  refine plain longer label ?_
  rwa [← List.append_assoc, trimLeft, List.takeWhile_append_dropWhile] at labelled

/-- Only a last word with blanks in front can be an alias. -/
theorem splitAlias?_solid (solid : ∀ c ∈ s, !isBlank c) : splitAlias? s = none := by
  rw [splitAlias?_eq_none_iff]
  intro name label labelled
  cases labelled with
  | @intro before gap _ tail _ x y named word gapBlank gapSome labelSolid labelSome tailBlank =>
    obtain ⟨d, rest, rfl⟩ := List.exists_cons_of_ne_nil gapSome
    have blank := gapBlank d List.mem_cons_self
    have filled := solid d (by simp)
    simp_all

theorem label_solid (found : splitAlias? s = some (name, label)) : ∀ c ∈ label, !isBlank c := by
  cases splitAlias?_eq_some_iff.mp found with
  | intro _ _ _ _ labelSolid _ _ => exact labelSolid

/-! ### What is read of a text -/

theorem read_of_none (plain : splitAlias? s = none) : Aliased.read s = ⟨s, []⟩ := by
  rw [Aliased.read]
  split
  · rfl
  · rename_i found
    rw [plain] at found
    cases found

theorem read_of_some (found : splitAlias? s = some (name, label)) :
    Aliased.read s = ⟨(Aliased.read name).base, (Aliased.read name).aliases ++ [label]⟩ := by
  rw [Aliased.read]
  split
  · rename_i missing
    rw [found] at missing
    cases missing
  · rename_i same
    rw [found] at same
    cases same
    rfl

/-- A text taken apart around all its aliases: the last one is taken off, then those of the name in
front of it, until there is none. -/
inductive Splits : List Char → Aliased → Prop where
  | plain {s : List Char} (bare : ∀ name label, ¬ Labelled s name label) : Splits s ⟨s, []⟩
  | labelled {s name label : List Char} {inner : Aliased} (last : Labelled s name label)
      (front : Splits name inner) : Splits s ⟨inner.base, inner.aliases ++ [label]⟩

theorem splits_read (s : List Char) : Splits s (Aliased.read s) := by
  cases found : splitAlias? s with
  | none =>
    rw [read_of_none found]
    exact .plain (splitAlias?_eq_none_iff.mp found)
  | some parts =>
    obtain ⟨name, label⟩ := parts
    have shorter := length_lt_of_splitAlias? found
    rw [read_of_some found]
    exact .labelled (splitAlias?_eq_some_iff.mp found) (splits_read name)
termination_by s.length

/-- Every text is taken apart in one way, which is how it is read. -/
theorem splits_iff {split : Aliased} : Splits s split ↔ split = Aliased.read s := by
  constructor
  · intro splits
    induction splits with
    | plain bare => exact (read_of_none (splitAlias?_eq_none_iff.mpr bare)).symm
    | labelled last _ ih => rw [read_of_some (splitAlias?_eq_some_iff.mpr last), ih]
  · rintro rfl
    exact splits_read s

theorem Splits.base_sublist {split : Aliased} (splits : Splits s split) :
    split.base.Sublist s := by
  induction splits with
  | plain => exact .refl _
  | @labelled s name label inner last _ ih =>
    exact ih.trans ((List.sublist_append_left name label).trans last.sublist)

theorem base_sublist (s : List Char) : (Aliased.read s).base.Sublist s :=
  (splits_read s).base_sublist

/-- A last point goes with the alias, so a text of which it is the only point has a base without. -/
theorem base_free (free : '.' ∉ s) (found : splitAlias? (s ++ ['.']) ≠ none) :
    '.' ∉ (Aliased.read (s ++ ['.'])).base := by
  obtain ⟨⟨name, label⟩, found⟩ := Option.ne_none_iff_exists'.mp found
  rcases (splitAlias?_eq_some_iff.mp found).cut_point (List.not_mem_nil) with
    ⟨start, labelled⟩ | ⟨inner, shorter, -⟩
  · rw [splitAlias?_eq_some_iff.mpr labelled] at found
    cases found
    have counted := labelled.sublist.count_le '.'
    rw [read_of_some (splitAlias?_eq_some_iff.mpr labelled)]
    have none : name.count '.' = 0 := by
      simp [List.count_eq_zero_of_not_mem free] at counted
      omega
    exact fun inside => List.count_eq_zero.mp none ((base_sublist name).subset inside)
  · cases shorter

/-- Whatever stands behind the last point, a text whose part up to the point has no alias keeps that
part: aliases are read off behind the point only. -/
theorem read_qualified {ref c : List Char} (plain : splitAlias? (ref ++ ['.']) = none)
    (free : '.' ∉ c) : ∃ rest, '.' ∉ rest ∧
      trimChars (Aliased.read (ref ++ '.' :: c)).base = trimLeft ref ++ '.' :: rest := by
  cases found : splitAlias? (ref ++ '.' :: c) with
  | none =>
    refine ⟨trimRight c, fun inside => free ((trimRight_front c).subset inside), ?_⟩
    rw [read_of_none found, trimChars_append_point]
  | some parts =>
    obtain ⟨name, label⟩ := parts
    rw [read_of_some found]
    rcases (splitAlias?_eq_some_iff.mp found).cut_point free with
      ⟨start, labelled⟩ | ⟨inner, shorter, innerFree, rfl⟩
    · rw [splitAlias?_eq_some_iff.mpr labelled] at plain
      cases plain
    · have trimmed : trimLeft (trimLeft ref) = trimLeft ref := List.dropWhile_idempotent isBlank ref
      obtain ⟨rest, restFree, read⟩ := read_qualified (splitAlias?_trimLeft plain) innerFree
      rw [trimmed] at read
      exact ⟨rest, restFree, read⟩
termination_by c.length

/-! ### Trimmed texts -/

/-- The alias of a text that ends in a point is an alias without the point, unless it is the point
alone. -/
theorem Labelled.drop_point (labelled : Labelled (s ++ ['.']) name label)
    (ends : ∀ filled : s ≠ [], ¬ isBlank (s.getLast filled)) :
    ∃ shorter, Labelled s name shorter := by
  generalize whole : s ++ ['.'] = longer at labelled
  cases labelled with
  | @intro before gap _ tail _ x y named word gapBlank gapSome labelSolid labelSome tailBlank =>
    rcases List.eq_nil_or_concat tail with rfl | ⟨front, last, rfl⟩
    · obtain ⟨start, last, rfl⟩ := List.eq_nil_or_concat label |>.resolve_left labelSome
      have cut : s ++ ['.'] = (before ++ x :: y :: (gap ++ start)) ++ [last] := by
        simpa using whole
      obtain ⟨rfl, -⟩ := List.append_inj' cut rfl
      have startSome : start ≠ [] := by
        rintro rfl
        have last := ends (by simp)
        have inGap := gapBlank _ (List.getLast_mem gapSome)
        simp [gapSome] at last
        simp_all
      have startSolid : ∀ d ∈ start, !isBlank d := by
        intro d member
        exact labelSolid d (by simp [member])
      have shorter := Labelled.intro named word gapBlank gapSome startSolid startSome
        (List.forall_mem_nil _)
      exact ⟨start, by simpa using shorter⟩
    · have cut : s ++ ['.'] = (before ++ x :: y :: (gap ++ (label ++ front))) ++ [last] := by
        simpa using whole
      obtain ⟨-, same⟩ := List.append_inj' cut rfl
      have blank := tailBlank last (by simp)
      rw [← List.head_eq_of_cons_eq same] at blank
      cases blank

theorem splitAlias?_trimChars (plain : splitAlias? s = none) :
    splitAlias? (trimChars s) = none := by
  rw [splitAlias?_eq_none_iff] at plain ⊢
  intro name label labelled
  obtain ⟨before, after, whole, -, blank⟩ := exists_padding s
  obtain ⟨longer, labelled⟩ := (labelled.append_blank blank).prepend before
  rw [← whole] at labelled
  exact plain longer label labelled

theorem splitAlias?_trimChars_point (plain : splitAlias? s = none) :
    splitAlias? (trimChars s ++ ['.']) = none := by
  have trimmed := splitAlias?_trimChars plain
  rw [splitAlias?_eq_none_iff] at trimmed ⊢
  intro name label labelled
  obtain ⟨shorter, labelled⟩ :=
    labelled.drop_point (List.rdropWhile_last_not isBlank (trimLeft s))
  exact trimmed name shorter labelled

/-! ### Counting points -/

section Count

variable {c : Char} (solid : isBlank c = false)
include solid

theorem count_blank (blank : ∀ c ∈ s, isBlank c) : s.count c = 0 := by
  refine List.count_eq_zero.mpr fun inside => ?_
  rw [blank c inside] at solid
  cases solid

theorem count_trimLeft (s : List Char) : (trimLeft s).count c = s.count c := by
  have blank : (s.takeWhile isBlank).count c = 0 :=
    count_blank solid (List.all_eq_true.mp List.all_takeWhile)
  have whole : (s.takeWhile isBlank ++ trimLeft s).count c = s.count c :=
    congrArg (List.count c) List.takeWhile_append_dropWhile
  rw [← whole, List.count_append, blank, Nat.zero_add]

/-- Trimming takes nothing away that is not blank. -/
theorem count_trimChars (s : List Char) : (trimChars s).count c = s.count c := by
  have right : trimChars s = (trimLeft (trimLeft s).reverse).reverse := rfl
  rw [right, List.count_reverse, count_trimLeft solid, List.count_reverse, count_trimLeft solid]

end Count

theorem nameBefore?_count_point {front : List Char}
    (found : nameBefore? front.reverse = some name) : name.count '.' = front.count '.' := by
  cases shape : front.reverse with
  | nil =>
    rw [shape] at found
    cases found
  | cons c rest =>
    rw [shape] at found
    simp only [nameBefore?, ← shape, List.reverse_reverse] at found
    split at found
    · split at found
      · rename_i nothing
        have none : front.count '.' = 0 := by
          rw [← count_trimChars (by decide), List.isEmpty_iff.mp nothing, List.count_nil]
        obtain ⟨d, first, rfl⟩ := Option.map_eq_some_iff.mp found
        have inside : d ∈ front := by
          rw [← List.mem_reverse, shape]
          exact List.mem_cons_of_mem c (List.mem_of_mem_head? first)
        have apart : d ≠ '.' := by
          rintro rfl
          exact List.count_eq_zero.mp none inside
        rw [none, List.count_singleton, if_neg (by simpa using apart)]
      · cases found
        exact count_trimChars (by decide) front
    · cases found

/-- Every point of a text is in its name or in its alias. -/
theorem Labelled.count_point (labelled : Labelled s name label) :
    s.count '.' = name.count '.' + label.count '.' := by
  cases labelled with
  | @intro before gap _ tail _ x y named word gapBlank gapSome labelSolid labelSome tailBlank =>
    obtain ⟨first, second⟩ := ne_point_of_isWordAs word
    have front := nameBefore?_count_point named
    have inGap := count_blank (c := '.') (by decide) gapBlank
    have inTail := count_blank (c := '.') (by decide) tailBlank
    simp only [List.count_append, List.count_cons_of_ne first, List.count_cons_of_ne second]
    omega

end Sqlwright.Text
